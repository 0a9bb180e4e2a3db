/-
This file proves which packets `ip_frag_chk` accepts.

A header that is shorter than 20 bytes by its own account is not refused: its checksum is taken over
the part that it claims, and its options are not looked at. All other packets that are accepted hold
a complete header of version 4, with the right checksum and well-formed options, and their size is
their total length.
-/

import Minix.Inet.Checksums
import Minix.Inet.HeaderCheck

namespace Minix.Inet

open OnesComplement (Same)
open Option (some.inj bind_eq_some_iff ite_none_right_eq_some ite_some_none_eq_some)

variable {beyond opts present rest body ipHdr : List UInt8} {opt length flags : UInt8} {steps : Nat}

/-! ### Options -/

/-- A well-formed list of options. No option except the end of the list and the no-operation occurs
twice. -/
inductive OptionList : List UInt8 → List UInt8 → Prop
  | nil {present : List UInt8} : OptionList present []
  | endOfList {present rest : List UInt8} : OptionList present (0 :: rest)
  | noOperation {present rest : List UInt8} : OptionList present rest →
      OptionList present (1 :: rest)
  | option {present rest body : List UInt8} {opt length : UInt8}
      (known : opt ∈ [0x82, 0x83, 0x89, 0x7, 0x88]) (first : opt ∉ present)
      (size : body.length + 2 = length.toNat)
      (fits : optionFits opt length (body.getD 1 0) = true) :
      OptionList (opt :: present) rest → OptionList present (opt :: length :: (body ++ rest))

theorem three_le_of_fits (fits : optionFits opt length flags = true) : 3 ≤ length.toNat := by
  unfold optionFits at fits
  split at fits
  · rw [of_decide_eq_true fits]
    decide
  split at fits
  · rw [Bool.and_eq_true] at fits
    rw [of_decide_eq_true fits.1]
    decide
  · exact UInt8.le_iff_toNat_le.mp (of_decide_eq_true fits)

theorem optionFits_of_ne (other : length ≠ 4) (flags flags' : UInt8) :
    optionFits opt length flags = optionFits opt length flags' := by
  unfold optionFits
  rw [decide_eq_false other, Bool.false_and, Bool.false_and]

theorem optionFits_flags (size : body.length + 2 = length.toNat) :
    optionFits opt length ((length :: (body ++ rest)).getD 2 0) =
      optionFits opt length (body.getD 1 0) := by
  by_cases two : 1 < body.length
  · have same : (length :: (body ++ rest)).getD 2 0 = body.getD 1 0 := by
      rw [List.getD_cons_succ, List.getD_eq_getElem?_getD, List.getElem?_append_left two,
        List.getD_eq_getElem?_getD]
    rw [same]
  · refine optionFits_of_ne (fun four => two ?_) _ _
    rw [four] at size
    change body.length + 2 = 4 at size
    omega

/-- The check accepts the well-formed option lists. -/
theorem chkHdropt_iff (enough : opts.length ≤ steps) :
    chkHdropt beyond steps present opts = 0 ↔ OptionList present opts := by
  induction steps generalizing present opts with
  | zero =>
    obtain rfl := List.length_eq_zero_iff.mp (Nat.le_zero.mp enough)
    exact iff_of_true rfl .nil
  | succ steps inductionHypothesis =>
    have wrong : einval ≠ 0 := by decide
    cases opts with
    | nil => exact iff_of_true rfl .nil
    | cons opt rest =>
      rw [List.length_cons] at enough
      unfold chkHdropt
      by_cases last : opt = 0
      · subst last
        exact iff_of_true rfl .endOfList
      rw [if_neg last]
      by_cases none : opt = 1
      · subst none
        rw [if_pos rfl, inductionHypothesis (by omega)]
        constructor
        · exact .noOperation
        · intro list
          cases list with
          | noOperation list => exact list
          | option known => exact absurd known (by decide)
      rw [if_neg none]
      by_cases known : opt ∈ [0x82, 0x83, 0x89, 0x7, 0x88]
      case neg =>
        rw [if_neg known]
        refine iff_of_false wrong fun list => ?_
        cases list with
        | endOfList => exact last rfl
        | noOperation => exact none rfl
        | option known' => exact known known'
      rw [if_pos known]
      dsimp only
      constructor
      · intro accepted
        split at accepted
        · exact absurd accepted wrong
        rename_i first
        split at accepted
        case isFalse => exact absurd accepted wrong
        rename_i fits
        split at accepted
        · exact absurd accepted wrong
        rename_i inside
        -- the length lies inside, for it is at least three
        have three := three_le_of_fits fits
        obtain _ | ⟨length, rest⟩ := rest
        · rw [List.length_nil] at inside
          omega
        change ¬ rest.length + 1 + 1 < length.toNat at inside
        change 3 ≤ length.toNat at three
        have size : (rest.take (length.toNat - 2)).length + 2 = length.toNat := by
          rw [List.length_take]
          omega
        have split : rest = rest.take (length.toNat - 2) ++ rest.drop (length.toNat - 2) :=
          (List.take_append_drop _ rest).symm
        have behind : (length :: rest).drop (length.toNat - 1) =
            rest.drop (length.toNat - 2) := by
          obtain ⟨more, same⟩ : ∃ more, length.toNat - 1 = more + 1 := ⟨length.toNat - 2, by omega⟩
          rw [same, List.drop_succ_cons]
          congr 1
          omega
        have fits' : optionFits opt length ((rest.take (length.toNat - 2)).getD 1 0) = true := by
          rw [← @optionFits_flags (rest.drop (length.toNat - 2) ++ beyond) _ opt length size,
            ← List.append_assoc, ← split]
          exact fits
        change chkHdropt beyond steps (opt :: present)
          ((length :: rest).drop (length.toNat - 1)) = 0 at accepted
        rw [behind, inductionHypothesis] at accepted
        · rw [split]
          exact .option known first size fits' accepted
        · rw [List.length_cons] at enough
          rw [List.length_drop]
          omega
      · intro list
        cases list with
        | endOfList => exact absurd rfl last
        | noOperation => exact absurd rfl none
        | @option _ rest body _ length _ first size fits list =>
          have fits' := fits
          rw [← @optionFits_flags (rest ++ beyond) body opt length size] at fits'
          rw [List.length_cons, List.length_append] at enough
          have same : (length :: (body ++ rest)) ++ beyond = length :: (body ++ (rest ++ beyond)) := by
            rw [List.cons_append, List.append_assoc]
          have behind : (length :: (body ++ rest)).drop (length.toNat - 1) = rest := by
            have position : length.toNat - 1 = body.length + 1 := by omega
            rw [position, List.drop_succ_cons, List.drop_left]
          rw [if_neg first, same, List.getD_cons_zero, if_pos fits', if_neg, behind,
            inductionHypothesis (by omega)]
          · exact list
          · rw [List.length_cons, List.length_append]
            omega

theorem ipChkHdropt_iff : ipChkHdropt beyond opts = 0 ↔ OptionList [] opts := chkHdropt_iff le_rfl

/-! ### Headers -/

/-- A packet begins with a complete and correct header. -/
structure GoodHeader (data : List UInt8) : Prop where
  version : version data = 4
  least : 20 ≤ hdrLen data
  inside : hdrLen data ≤ totalLength data
  received : totalLength data ≤ data.length
  checksum : wordSum (data.take (hdrLen data)) ≡ 0 [MOD 2 ^ 16 - 1] ∧
    wordSum (data.take (hdrLen data)) ≠ 0
  options : OptionList [] ((data.take (hdrLen data)).drop 20)

theorem hdrLen_le (ipHdr : List UInt8) : hdrLen ipHdr ≤ 60 := by
  have small : (ipHdr.getD 0 0 &&& 0xf).toNat ≤ 15 := by
    rw [UInt8.toNat_and]
    exact Nat.and_le_right
  unfold hdrLen
  omega

/-- A sum is all ones exactly if its total is a multiple of that, but not zero. -/
theorem ones_iff {sum : UInt16} {total : Nat} (same : Same 256 sum.toNat total) :
    sum = 0xffff ↔ total ≡ 0 [MOD 2 ^ 16 - 1] ∧ total ≠ 0 := by
  have small := sum.toNat_lt
  obtain ⟨congruent, zero⟩ := same
  rw [← UInt16.toNat_inj]
  change _ = 65535 ↔ _
  constructor
  · intro ones
    rw [ones] at congruent zero
    exact ⟨congruent.symm.trans (by decide), fun none => by cases zero.mpr none⟩
  · rintro ⟨multiple, some⟩
    have none : sum.toNat % 65535 = 0 := congruent.trans multiple
    have some' : sum.toNat ≠ 0 := fun wrong => some (zero.mp wrong)
    omega

/-- The checksum is all ones exactly if the sum of the words is a multiple of that, but not zero. -/
theorem oneCSum_ones {address : Nat} (short : ipHdr.length ≤ 60) (even : ipHdr.length % 2 = 0) :
    oneCSum 0 address ipHdr = 0xffff ↔
      wordSum ipHdr ≡ 0 [MOD 2 ^ 16 - 1] ∧ wordSum ipHdr ≠ 0 := by
  have same := @same_oneCSum 0 address ipHdr (by omega)
  rw [UInt16.toNat_zero, Nat.zero_add, ← wordSum_eq even] at same
  exact ones_iff same

section Header

variable {pack : Acc} {next : List Acc}

theorem getD_bytes {i : Nat} (inside : i < pack.data.length) :
    (bytes (pack :: next)).getD i 0 = pack.data.getD i 0 := by
  rw [bytes_cons, List.getD_eq_getElem?_getD, List.getElem?_append_left inside,
    List.getD_eq_getElem?_getD]

theorem header_bytes (complete : 20 ≤ pack.data.length) :
    version (bytes (pack :: next)) = version pack.data ∧
      hdrLen (bytes (pack :: next)) = hdrLen pack.data ∧
      totalLength (bytes (pack :: next)) = totalLength pack.data := by
  unfold version hdrLen totalLength
  rw [getD_bytes (by omega), getD_bytes (by omega), getD_bytes (by omega)]
  exact ⟨rfl, rfl, rfl⟩

/-- The tests of `ip_frag_chk` but for those of the length of the header and of the options. -/
structure Passes (pack : Acc) (next : List Acc) : Prop where
  complete : 20 ≤ pack.data.length
  version : version pack.data = 4
  size : totalLength pack.data = (bytes (pack :: next)).length
  checksum : oneCSum 0 pack.address (pack.data.take (hdrLen pack.data)) = 0xffff

theorem complement_ne_zero {w : UInt16} : ~~~w ≠ 0 ↔ w ≠ 0xffff := by
  rw [not_iff_not]
  constructor
  · intro zero
    rw [← UInt16.not_not (a := w), zero]
    rfl
  · rintro rfl
    rfl

theorem ipFragChk_iff : ipFragChk beyond pack next = true ↔
    Passes pack next ∧ hdrLen pack.data ≤ pack.data.length ∧
      OptionList [] ((pack.data.take (hdrLen pack.data)).drop 20) := by
  unfold ipFragChk
  dsimp only
  constructor
  · intro accepted
    split at accepted
    · cases accepted
    rename_i complete
    split at accepted
    · cases accepted
    rename_i inside
    split at accepted
    · cases accepted
    rename_i version
    split at accepted
    · cases accepted
    rename_i size
    split at accepted
    · cases accepted
    rename_i checksum
    split at accepted
    · cases accepted
    rename_i options
    rw [complement_ne_zero, not_not] at checksum
    rw [not_not] at version size
    refine ⟨⟨Nat.le_of_not_lt complete, version, size, checksum⟩, Nat.le_of_not_lt inside, ?_⟩
    by_cases long : 20 < hdrLen pack.data
    · exact ipChkHdropt_iff.mp (not_not.mp fun wrong => options ⟨long, wrong⟩)
    · rw [List.drop_eq_nil_of_le ((List.length_take_le _ _).trans (Nat.le_of_not_lt long))]
      exact .nil
  · rintro ⟨passes, inside, options⟩
    rw [if_neg (Nat.not_lt.mpr passes.complete), if_neg (Nat.not_lt.mpr inside),
      if_neg (not_not.mpr passes.version), if_neg (not_not.mpr passes.size),
      if_neg fun wrong => complement_ne_zero.mp wrong passes.checksum,
      if_neg fun wrong => wrong.2 (ipChkHdropt_iff.mpr options)]

/-- A packet that passes the tests has a good header, unless the header claims to be too short. -/
theorem good_iff (accepted : ipFragChk beyond pack next = true) :
    GoodHeader (bytes (pack :: next)) ↔ 20 ≤ hdrLen pack.data := by
  obtain ⟨passes, inside, options⟩ := ipFragChk_iff.mp accepted
  obtain ⟨version, length, total⟩ := @header_bytes pack next passes.complete
  have header : (bytes (pack :: next)).take (hdrLen pack.data) =
      pack.data.take (hdrLen pack.data) := by
    rw [bytes_cons, List.take_append_of_le_length inside]
  have taken : (pack.data.take (hdrLen pack.data)).length = hdrLen pack.data := by
    rw [List.length_take]
    exact Nat.min_eq_left inside
  constructor
  · intro good
    rw [← length]
    exact good.least
  · intro least
    refine ⟨version.trans passes.version, length ▸ least, ?_, ?_, ?_, ?_⟩
    · rw [length, total, passes.size, bytes_cons, List.length_append]
      exact inside.trans (Nat.le_add_right _ _)
    · rw [total, passes.size]
    · rw [length, header]
      refine (oneCSum_ones ?_ ?_).mp passes.checksum
      · rw [taken]
        exact hdrLen_le pack.data
      · rw [taken]
        unfold hdrLen
        omega
    · rw [length, header]
      exact options

end Header

/-! ### Trimming -/

section Trimming

variable {pack cut : List Acc} {packing : Packing} {size alignment offset count : Nat}

theorem bfTake_eq (taken : bfTake pack count = some cut) :
    bytes cut = (bytes pack).take count := by
  induction pack generalizing count cut with
  | nil =>
    cases count with
    | zero =>
      obtain rfl := some.inj taken
      rfl
    | succ count => cases taken
  | cons data next inductionHypothesis =>
    cases count with
    | zero =>
      obtain rfl := some.inj taken
      exact List.take_zero.symm
    | succ count =>
      rw [bytes_cons]
      unfold bfTake at taken
      split at taken
      case isTrue whole =>
        obtain ⟨rest, more, rfl⟩ := Option.map_eq_some_iff.mp taken
        rw [bytes_cons, inductionHypothesis more, List.take_append,
          List.take_of_length_le whole]
      case isFalse part =>
        obtain rfl := some.inj taken
        rw [List.take_append_of_le_length (by omega)]
        exact List.append_nil _

theorem bfCutHead_eq (found : bfCutHead pack offset count = some cut) :
    bytes cut = ((bytes pack).drop offset).take count := by
  induction pack generalizing offset with
  | nil => cases found
  | cons data next inductionHypothesis =>
    rw [bytes_cons, List.drop_append]
    unfold bfCutHead at found
    split at found
    case isTrue before =>
      rw [inductionHypothesis found, List.drop_eq_nil_of_le before, List.nil_append]
    case isFalse inside =>
      rw [bfTake_eq found, bytes_cons, Nat.sub_eq_zero_of_le (by omega), List.drop_zero]

theorem bfCut_eq (found : bfCut pack offset count = some cut) :
    bytes cut = ((bytes pack).drop offset).take count := by
  unfold bfCut at found
  cases pack with
  | nil =>
    dsimp only at found
    obtain ⟨-, rfl⟩ := ite_some_none_eq_some.mp found
    simp [bytes]
  | cons acc next =>
    dsimp only at found
    split at found
    case isTrue none =>
      obtain rfl := some.inj found
      rw [none, List.take_zero]
      rfl
    case isFalse => exact bfCutHead_eq found

theorem bytes_bfPackIffLess : bytes (bfPackIffLess packing pack size) = bytes pack := by
  unfold bfPackIffLess
  split
  · rfl
  split
  · rfl
  · exact packing.bytes_pack _

theorem bytes_bfAlign (aligned : bfAlign packing pack size alignment = some cut) :
    bytes cut = bytes pack := by
  cases pack with
  | nil => cases aligned
  | cons first next =>
    unfold bfAlign at aligned
    dsimp only at aligned
    split at aligned
    · obtain rfl := some.inj aligned
      rfl
    split at aligned
    · cases aligned
    split at aligned
    · obtain rfl := some.inj aligned
      exact packing.bytes_pack _
    · obtain ⟨head, first', aligned⟩ := bind_eq_some_iff.mp aligned
      obtain ⟨tail, last, aligned⟩ := bind_eq_some_iff.mp aligned
      split at aligned
      case h_2 => cases aligned
      case h_1 single packed =>
        obtain rfl := some.inj aligned
        have front : single.data = bytes head := by
          rw [← packing.bytes_pack head, packed, bytes_cons]
          exact (List.append_nil _).symm
        rw [bytes_cons, front, bfCut_eq first', bfCut_eq last, List.drop_zero]
        rw [List.take_of_length_le (List.length_drop.le), List.take_append_drop]

theorem bfCut_first {data acc : Acc} {next rest : List Acc} (some' : data.data ≠ [])
    (found : bfCut (data :: next) 0 count = some (acc :: rest)) :
    acc.data.length ≤ data.data.length := by
  unfold bfCut at found
  dsimp only at found
  split at found
  · cases found
    exact Nat.zero_le _
  · unfold bfCutHead at found
    rw [if_neg fun none => some' (List.length_eq_zero_iff.mp (Nat.le_zero.mp none))] at found
    cases count with
    | zero => cases found
    | succ count =>
      unfold bfTake at found
      split at found
      · obtain ⟨_, -, same⟩ := Option.map_eq_some_iff.mp found
        cases same
        exact le_rfl
      · cases found
        rw [List.length_take]
        exact Nat.min_le_right _ _

theorem trimAndCheck_trims {acc : Acc} {next : List Acc}
    (accepted : trimAndCheck beyond (bytes pack).length pack = some (.accepted acc next)) :
    ipFragChk beyond acc next = true ∧
      bytes (acc :: next) = (bytes pack).take (totalLength (bytes pack)) ∧
      (bytes (acc :: next)).length = totalLength (bytes pack) := by
  cases pack with
  | nil => cases accepted
  | cons ipHdr rest =>
    unfold trimAndCheck at accepted
    obtain ⟨cut, trimmed, checked⟩ := bind_eq_some_iff.mp accepted
    cases cut with
    | nil => cases checked
    | cons first others =>
      dsimp only at checked
      split at checked
      case isFalse => cases checked
      case isTrue ok =>
        cases checked
        have passes := (ipFragChk_iff.mp ok).1
        have complete := passes.complete
        split at trimmed
        case isFalse less =>
          cases trimmed
          obtain ⟨-, -, total⟩ := @header_bytes acc next complete
          rw [total, passes.size]
          exact ⟨ok, (List.take_length).symm, rfl⟩
        case isTrue less =>
          have taken := bfCut_eq trimmed
          rw [List.drop_zero] at taken
          -- the first accessor was not shorter before
          have long : 20 ≤ ipHdr.data.length := by
            refine complete.trans (bfCut_first (fun none => ?_) trimmed)
            have zero : totalLength ipHdr.data = 0 := by
              rw [none]
              rfl
            rw [zero, List.take_zero] at taken
            rw [bytes_cons, List.append_eq_nil_iff] at taken
            rw [taken.1] at complete
            cases complete
          obtain ⟨-, -, total⟩ := @header_bytes ipHdr rest long
          rw [total, taken]
          refine ⟨ok, rfl, ?_⟩
          rw [List.length_take]
          exact Nat.min_eq_left less.le

theorem ipArrived_trims {acc : Acc} {next : List Acc}
    (accepted : ipArrived packing beyond pack = some (.accepted acc next)) :
    ipFragChk beyond acc next = true ∧
      bytes (acc :: next) = (bytes pack).take (totalLength (bytes pack)) ∧
      (bytes (acc :: next)).length = totalLength (bytes pack) := by
  unfold ipArrived at accepted
  dsimp only at accepted
  split at accepted
  · cases accepted
  obtain ⟨aligned, align, accepted⟩ := bind_eq_some_iff.mp accepted
  have same : bytes (bfPackIffLess packing aligned 20) = bytes pack :=
    bytes_bfPackIffLess.trans (bytes_bfAlign align)
  cases packed : bfPackIffLess packing aligned 20 with
  | nil =>
    rw [packed] at accepted
    cases accepted
  | cons first rest =>
    rw [packed] at same accepted
    rw [← same] at accepted ⊢
    dsimp only at accepted
    split at accepted
    · cases accepted
    split at accepted
    · obtain ⟨again, align', accepted⟩ := bind_eq_some_iff.mp accepted
      have same' : bytes (bfPackIffLess packing again (hdrLen first.data)) =
          bytes (first :: rest) := bytes_bfPackIffLess.trans (bytes_bfAlign align')
      rw [← same'] at accepted ⊢
      exact trimAndCheck_trims accepted
    · exact trimAndCheck_trims accepted

end Trimming

/-- A packet that is accepted has a good header and is as long as the header says, if the header
claims at least 20 bytes or one of the other tests fails; and only then. `ip_arrived` checks the
packet trimmed to its total length. -/
theorem header_check_right_iff (beyond : List UInt8) (pack : Acc) (next : List Acc) :
    ((ipFragChk beyond pack next = true → GoodHeader (bytes (pack :: next)) ∧
        (bytes (pack :: next)).length = totalLength (bytes (pack :: next))) ↔
      (20 ≤ hdrLen pack.data ∨ ¬ Passes pack next)) ∧
    ∀ (packing : Packing) (received : List Acc),
      ipArrived packing beyond received = some (.accepted pack next) →
        ipFragChk beyond pack next = true ∧
          bytes (pack :: next) = (bytes received).take (totalLength (bytes received)) ∧
          (bytes (pack :: next)).length = totalLength (bytes received) := by
  refine ⟨?_, fun packing received => ipArrived_trims⟩
  constructor
  · intro right
    by_contra wrong
    obtain ⟨short, passes⟩ := not_or.mp wrong
    have passes := not_not.mp passes
    have small : hdrLen pack.data ≤ 20 := by omega
    refine short ?_
    have accepted : ipFragChk beyond pack next = true := by
      refine ipFragChk_iff.mpr ⟨passes, small.trans passes.complete, ?_⟩
      rw [List.drop_eq_nil_of_le ((List.length_take_le _ _).trans small)]
      exact .nil
    exact (good_iff accepted).mp (right accepted).1
  · intro condition accepted
    have passes := (ipFragChk_iff.mp accepted).1
    have least : 20 ≤ hdrLen pack.data := condition.resolve_right (not_not.mpr passes)
    refine ⟨(good_iff accepted).mpr least, ?_⟩
    rw [(header_bytes passes.complete).2.2, passes.size]

/-- A packet of 20 bytes with a header of 8 bytes is accepted. -/
theorem short_header_accepted :
    ipFragChk [] ⟨0, [0x42, 0, 0, 20, 0xbd, 0xeb, 0, 0, 0, 0, 0, 0, 0, 0, 0, 0, 0, 0, 0, 0]⟩ [] =
        true ∧
      ¬ GoodHeader [0x42, 0, 0, 20, 0xbd, 0xeb, 0, 0, 0, 0, 0, 0, 0, 0, 0, 0, 0, 0, 0, 0] :=
  ⟨by decide, fun good => absurd good.least (by decide)⟩

end Minix.Inet
