/-
This file models the two loops over the options of an IP header, with what they read: the one of
`ip_chk_hdropt` (`inet/generic/ip_lib.c`) and the one of `ip_split_pack`
(`inet/generic/ip_write.c`). It proves for which option areas the first one stays inside and accepts
only what the second one can walk through.

A loop that does not come to an end has no result, however much fuel it gets.
-/

import Minix.Inet.WellFormedHeader
import Minix.Library.Fuel

namespace Minix.Inet

open Minix.Library (Returns Steady)
open Option (some.inj)

/-! ### The model -/

/-- How a loop over the options ends. -/
inductive Walked (α : Type)
  /-- A byte behind the options is read. -/
  | outside
  /-- An assertion fails. -/
  | violated
  | finished (result : α)
deriving DecidableEq

def knownOptions : List UInt8 := [0x82, 0x83, 0x89, 0x7, 0x88]

/-- The checks of the options of one number: `some` of a result ends the loop. -/
def checkOption (opt : UInt8) (rest : List UInt8) : Walked Bool :=
  match rest with
  | [] => .outside
  | length :: rest =>
    if opt = 0x82 then .finished (length = 11)
    else if opt = 0x88 then
      if length ≠ 4 then .finished false
      else
        match rest.drop 1 with
        | [] => .outside
        | flags :: _ => .finished (flags = 0 || flags = 1 || flags = 3)
    else .finished (3 ≤ length)

/-- The loop of `ip_chk_hdropt`, with the options seen and the options left. -/
def chkLoop : Nat → List UInt8 → List UInt8 → Option (Walked Int)
  | 0, _, _ => none
  | _ + 1, _, [] => some (.finished 0)
  | fuel + 1, present, opt :: rest =>
    if opt = 0 then some (.finished 0)
    else if opt = 1 then chkLoop fuel present rest
    else if opt ∈ knownOptions then
      if opt ∈ present then some (.finished einval)
      else
        match checkOption opt rest with
        | .finished true =>
          let length := (rest.getD 0 0).toNat
          if rest.length + 1 < length then some (.finished einval)
          else chkLoop fuel (opt :: present) (rest.drop (length - 1))
        | .finished false => some (.finished einval)
        | .outside => some .outside
        | .violated => some .violated
    else some (.finished einval)

attribute [grind =] chkLoop

/-- `ip_chk_hdropt`, from `assert (!(optlen & 3))` on. -/
def chkOptions (opts : List UInt8) (fuel : Nat) : Option (Walked Int) :=
  if opts.length % 4 ≠ 0 then some .violated else chkLoop fuel [] opts

/-- The option number is the end of the list or the no-operation. -/
def single (opt : UInt8) : Prop := opt &&& 0x1f = 0 ∨ opt &&& 0x1f = 1

instance (opt : UInt8) : Decidable (single opt) := inferInstanceAs (Decidable (_ ∨ _))

/-- `optlen` in `ip_split_pack`. -/
def optLength : List UInt8 → Option Nat
  | [] => some 0
  | opt :: rest => if single opt then some 1 else rest.head?.map UInt8.toNat

/-- The loop of `ip_split_pack`, with the options left and those that are copied for the second
header. -/
def splitLoop : Nat → List UInt8 → List UInt8 → Option (Walked (List UInt8))
  | 0, _, _ => none
  | _ + 1, [], second => some (.finished second)
  | fuel + 1, opt :: rest, second =>
    match optLength (opt :: rest) with
    | none => some .outside
    | some optlen =>
      if (opt :: rest).length < optlen then some .violated
      else if opt &&& 0x80 ≠ 0 then
        splitLoop fuel ((opt :: rest).drop optlen) (second ++ (opt :: rest).take optlen)
      else splitLoop fuel ((opt :: rest).drop optlen) second

/-- `while (second_opt_size & 3)` -/
def padOptions (second : List UInt8) : List UInt8 :=
  second ++ List.replicate ((4 - second.length % 4) % 4) 0

/-- The options of the second header. -/
def splitOptions (opts : List UInt8) (fuel : Nat) : Option (Walked (List UInt8)) :=
  (splitLoop fuel opts []).map fun
    | .finished second => .finished (padOptions second)
    | .outside => .outside
    | .violated => .violated

/-! ### Safety -/

/-- The check comes to an end and reads nothing outside, and the loop of `ip_split_pack` comes to an
end on what is accepted, reads nothing outside, keeps its assertions, and the options of the second
header fit into the space of those of the first. -/
def OptionsSafe (opts : List UInt8) : Prop :=
  ∃ result, Returns (chkOptions opts) (.finished result) ∧
    (result = 0 → ∃ second, Returns (splitOptions opts) (.finished second) ∧
      second.length ≤ opts.length)

/-- The check comes from some options to what is left of them. -/
inductive Reaches : List UInt8 → List UInt8 → List UInt8 → List UInt8 → Prop
  | here {present opts : List UInt8} : Reaches present opts present opts
  | noOperation {present rest present' left : List UInt8} : Reaches present rest present' left →
      Reaches present (1 :: rest) present' left
  | option {present rest body present' left : List UInt8} {opt length : UInt8}
      (known : opt ∈ knownOptions) (first : opt ∉ present)
      (size : body.length + 2 = length.toNat)
      (fits : optionFits opt length (body.getD 1 0) = true) :
      Reaches (opt :: present) rest present' left →
      Reaches present (opt :: length :: (body ++ rest)) present' left

/-- What is left is the beginning of an option, without its length, or a time stamp without its
flags. -/
def Cut (present left : List UInt8) : Prop :=
  ∃ opt, opt ∈ knownOptions ∧ opt ∉ present ∧
    (left = [opt] ∨ opt = 0x88 ∧ (left = [opt, 4] ∨ ∃ pointer, left = [opt, 4, pointer]))

/-- Options that follow one another without a gap: single bytes, and others with their length. -/
inductive Walkable : List UInt8 → Prop
  | nil : Walkable []
  | single {opt : UInt8} {rest : List UInt8} : single opt → Walkable rest → Walkable (opt :: rest)
  | option {opt length : UInt8} {rest : List UInt8} : ¬Inet.single opt → 0 < length.toNat →
      length.toNat ≤ rest.length + 2 → Walkable ((opt :: length :: rest).drop length.toNat) →
      Walkable (opt :: length :: rest)

/-- The area consists of words, none of the options that the check comes to is cut off, and what
follows the end of the list can be walked through. -/
structure OptionsFit (opts : List UInt8) : Prop where
  words : opts.length % 4 = 0
  whole : ∀ present left, Reaches [] opts present left → ¬Cut present left
  behind : ∀ present rest, Reaches [] opts present (0 :: rest) → Walkable rest

/-! ### The check -/

section Check

variable {beyond opts present left rest body second present' : List UInt8} {opt length : UInt8}
  {fuel steps : Nat}

/-- What the check of an option says is what `optionFits` says of the bytes in memory. -/
theorem checkOption_finished {fits : Bool} (checked : checkOption opt rest = .finished fits) :
    ∃ length rest', rest = length :: rest' ∧
      optionFits opt length ((rest ++ beyond).getD 2 0) = fits := by
  unfold checkOption at checked
  split at checked
  · cases checked
  · rename_i length rest
    refine ⟨length, rest, rfl, ?_⟩
    unfold optionFits
    split at checked
    case isTrue security =>
      rw [if_pos security]
      exact Walked.finished.inj checked
    case isFalse security =>
      rw [if_neg security]
      split at checked
      case isTrue stamp =>
        rw [if_pos stamp]
        split at checked
        case isTrue other =>
          rw [decide_eq_false other, Bool.false_and]
          exact Walked.finished.inj checked
        case isFalse four =>
          rw [decide_eq_true (not_not.mp four), Bool.true_and]
          match rest with
          | [] | [_] => cases checked
          | _ :: _ :: _ => exact Walked.finished.inj checked
      case isFalse stamp =>
        rw [if_neg stamp]
        exact Walked.finished.inj checked

theorem checkOption_outside (known : opt ∈ knownOptions) (first : opt ∉ present) :
    checkOption opt rest = .outside ↔ Cut present (opt :: rest) := by
  have same (left : List UInt8) : opt :: rest = opt :: left ↔ rest = left := by
    rw [List.cons_inj_right]
  constructor
  · intro checked
    refine ⟨opt, known, first, ?_⟩
    rw [same, same]
    unfold checkOption at checked
    split at checked
    · exact .inl rfl
    · split at checked
      · cases checked
      split at checked
      case isFalse => cases checked
      case isTrue stamp =>
        split at checked
        · cases checked
        case isFalse four =>
          rename_i length rest _
          obtain rfl := not_not.mp four
          match rest with
          | [] => exact .inr ⟨stamp, .inl rfl⟩
          | [pointer] => exact .inr ⟨stamp, .inr ⟨pointer, rfl⟩⟩
          | _ :: _ :: _ => cases checked
  · rintro ⟨opt', -, -, cut⟩
    rcases cut with cut | ⟨rfl, cut | ⟨pointer, cut⟩⟩
    all_goals
      obtain ⟨rfl, rfl⟩ := List.cons.inj cut
      rfl

theorem checkOption_violated : checkOption opt rest ≠ .violated := by
  unfold checkOption
  split
  · exact fun wrong => by cases wrong
  · split_ifs
    · exact fun wrong => by cases wrong
    · exact fun wrong => by cases wrong
    · split
      · exact fun wrong => by cases wrong
      · exact fun wrong => by cases wrong
    · exact fun wrong => by cases wrong

theorem exists_body (least : 3 ≤ length.toNat) (inside : length.toNat ≤ rest.length + 2) :
    ∃ body rest', rest = body ++ rest' ∧ body.length + 2 = length.toNat ∧
      (length :: rest).drop (length.toNat - 1) = rest' := by
  refine ⟨rest.take (length.toNat - 2), rest.drop (length.toNat - 2),
    (List.take_append_drop _ rest).symm, ?_, ?_⟩
  · rw [List.length_take]
    omega
  · obtain ⟨more, same⟩ : ∃ more, length.toNat - 1 = more + 1 := ⟨length.toNat - 2, by omega⟩
    rw [same, List.drop_succ_cons, show length.toNat - 2 = more by omega]

theorem chkLoop_total (enough : opts.length < fuel) :
    chkLoop fuel present opts = some .outside ∨
      ∃ result, chkLoop fuel present opts = some (.finished result) := by
  fun_induction chkLoop fuel present opts with
  | case1 => omega
  | case2 => exact .inr ⟨_, rfl⟩
  | case3 => exact .inr ⟨_, rfl⟩
  | case4 fuel present rest other inductionHypothesis =>
    rw [List.length_cons] at enough
    exact inductionHypothesis (by omega)
  | case5 => exact .inr ⟨_, rfl⟩
  | case6 => exact .inr ⟨_, rfl⟩
  | case7 fuel present opt rest _ _ _ _ _ length _ inductionHypothesis =>
    rw [List.length_cons] at enough
    refine inductionHypothesis ?_
    rw [List.length_drop]
    omega
  | case8 => exact .inr ⟨_, rfl⟩
  | case9 => exact .inl rfl
  | case10 _ _ _ _ _ _ _ _ violated => exact absurd violated checkOption_violated
  | case11 => exact .inr ⟨_, rfl⟩

theorem chkLoop_steady (present opts : List UInt8) :
    Steady fun fuel => chkLoop fuel present opts := by
  intro fuel
  induction fuel generalizing present opts with
  | zero => exact fun _ none => by cases none
  | succ fuel inductionHypothesis =>
    intro walked result
    cases opts with
    | nil => exact result
    | cons opt rest =>
      change chkLoop (fuel + 1) present (opt :: rest) = some walked at result
      change chkLoop (fuel + 1 + 1) present (opt :: rest) = some walked
      unfold chkLoop at result ⊢
      split_ifs at result ⊢
      · exact result
      · exact inductionHypothesis _ _ walked result
      · exact result
      · cases checked : checkOption opt rest with
        | finished fits =>
          rw [checked] at result
          cases fits with
          | false => exact result
          | true =>
            dsimp only at result ⊢
            split_ifs at result ⊢
            · exact result
            · exact inductionHypothesis _ _ walked result
        | _ =>
          rw [checked] at result
          exact result
      · exact result

theorem chkOptions_steady (opts : List UInt8) : Steady (chkOptions opts) := by
  intro fuel walked result
  unfold chkOptions at result ⊢
  split_ifs at result ⊢
  · exact result
  · exact chkLoop_steady [] opts fuel walked result

/-- Where the loop ends, it is the check of the input path. -/
theorem chkLoop_agrees {result : Int} (enough : opts.length ≤ steps)
    (checked : chkLoop fuel present opts = some (.finished result)) :
    chkHdropt beyond steps present opts = result := by
  induction fuel generalizing present opts steps with
  | zero => cases checked
  | succ fuel inductionHypothesis =>
    cases opts with
    | nil =>
      obtain rfl := Walked.finished.inj (some.inj checked)
      cases steps <;> rfl
    | cons opt rest =>
      obtain _ | steps := steps
      · cases enough
      rw [List.length_cons] at enough
      unfold chkLoop at checked
      unfold chkHdropt
      split at checked
      case isTrue last =>
        rw [if_pos last]
        exact Walked.finished.inj (some.inj checked)
      case isFalse last =>
        rw [if_neg last]
        split at checked
        case isTrue none =>
          rw [if_pos none]
          exact inductionHypothesis (by omega) checked
        case isFalse none =>
          rw [if_neg none]
          split at checked
          case isFalse unknown =>
            have unknown' : opt ∉ [0x82, 0x83, 0x89, 0x7, 0x88] := unknown
            rw [if_neg unknown']
            exact Walked.finished.inj (some.inj checked)
          case isTrue known =>
            have known' : opt ∈ [0x82, 0x83, 0x89, 0x7, 0x88] := known
            rw [if_pos known']
            split at checked
            case isTrue again =>
              rw [if_pos again]
              exact Walked.finished.inj (some.inj checked)
            case isFalse first =>
              rw [if_neg first]
              split at checked
              · rename_i fits
                obtain ⟨length, rest', rfl, same⟩ := @checkOption_finished beyond _ _ _ fits
                change optionFits opt length _ = true at same
                change (if optionFits opt length _ = true then _ else _) = _
                rw [if_pos same]
                change (if rest'.length + 1 + 1 < length.toNat then _ else _) = _ at checked
                change (if rest'.length + 1 + 1 < length.toNat then _ else _) = _
                split at checked
                case isTrue long =>
                  rw [if_pos long]
                  exact Walked.finished.inj (some.inj checked)
                case isFalse inside =>
                  rw [if_neg inside]
                  refine inductionHypothesis ?_ checked
                  rw [List.length_drop]
                  omega
              · rename_i wrong
                obtain ⟨length, rest', rfl, same⟩ := @checkOption_finished beyond _ _ _ wrong
                change optionFits opt length _ = false at same
                change (if optionFits opt length _ = true then _ else _) = _
                rw [if_neg (by rw [same]; exact Bool.false_ne_true)]
                exact Walked.finished.inj (some.inj checked)
              · cases checked
              · cases checked

/-- What is left of the options of a kind that is not known, or comes again. -/
theorem reaches_stop (stop : opt ∉ knownOptions ∨ opt ∈ present) (other : opt ≠ 1)
    (reaches : Reaches present (opt :: rest) present' left) :
    ¬Cut present' left := by
  cases reaches with
  | here =>
    rintro ⟨opt', known, first, cut⟩
    have same : opt = opt' := by
      rcases cut with cut | ⟨-, cut | ⟨pointer, cut⟩⟩ <;> exact (List.cons.inj cut).1
    rw [← same] at known first
    exact stop.elim (fun unknown => unknown known) first
  | noOperation => exact absurd rfl other
  | option known first => exact (stop.elim (fun unknown => unknown known) first).elim

/-- Past an option that is not cut off, the check comes to what follows it. -/
theorem cut_after {fits : Bool} (known : opt ∈ knownOptions) (first : opt ∉ present)
    (checked : checkOption opt (length :: rest) = .finished fits) :
    (∃ present' left, Reaches present (opt :: length :: rest) present' left ∧ Cut present' left) ↔
      fits = true ∧ ∃ body rest', rest = body ++ rest' ∧ body.length + 2 = length.toNat ∧
        ∃ present' left, Reaches (opt :: present) rest' present' left ∧ Cut present' left := by
  obtain ⟨length', rest', equal, same⟩ := @checkOption_finished [] _ _ _ checked
  obtain ⟨rfl, rfl⟩ := List.cons.inj equal
  constructor
  · rintro ⟨present', left, reaches, cut⟩
    cases reaches with
    | here =>
      rw [(checkOption_outside known first).mpr cut] at checked
      cases checked
    | noOperation => exact absurd known (by decide)
    | @option _ rest body _ _ _ _ _ _ size fits reaches =>
      refine ⟨?_, body, rest, rfl, size, present', left, reaches, cut⟩
      have flags := @optionFits_flags rest body opt length size
      rw [List.append_nil] at same
      rw [← same, flags]
      exact fits
  · rintro ⟨rfl, body, rest', rfl, size, present', left, reaches, cut⟩
    rw [List.append_nil, optionFits_flags size] at same
    exact ⟨present', left, .option known first size same reaches, cut⟩

/-- It reads a byte outside exactly if it comes to an option that is cut off. -/
theorem chkLoop_outside (enough : opts.length < fuel) :
    chkLoop fuel present opts = some .outside ↔
      ∃ present' left, Reaches present opts present' left ∧ Cut present' left := by
  induction fuel generalizing present opts with
  | zero => omega
  | succ fuel inductionHypothesis =>
    cases opts with
    | nil =>
      refine iff_of_false (fun wrong => by cases wrong) ?_
      rintro ⟨present', left, reaches, cut⟩
      cases reaches
      obtain ⟨opt, -, -, cut | ⟨-, cut | ⟨pointer, cut⟩⟩⟩ := cut <;> cases cut
    | cons opt rest =>
      rw [List.length_cons] at enough
      unfold chkLoop
      split
      case isTrue last =>
        subst last
        refine iff_of_false (fun wrong => by cases wrong) ?_
        rintro ⟨present', left, reaches, cut⟩
        exact reaches_stop (.inl (by decide)) (by decide) reaches cut
      case isFalse last =>
        split
        case isTrue none =>
          subst none
          rw [inductionHypothesis (by omega)]
          constructor
          · rintro ⟨present', left, reaches, cut⟩
            exact ⟨present', left, .noOperation reaches, cut⟩
          · rintro ⟨present', left, reaches, cut⟩
            cases reaches with
            | here =>
              obtain ⟨opt, known, -, cut | ⟨-, cut | ⟨pointer, cut⟩⟩⟩ := cut <;>
                obtain ⟨rfl, -⟩ := List.cons.inj cut <;> exact absurd known (by decide)
            | noOperation reaches => exact ⟨present', left, reaches, cut⟩
            | option known => exact absurd known (by decide)
        case isFalse none =>
          split
          case isFalse unknown =>
            refine iff_of_false (fun wrong => by cases wrong) ?_
            rintro ⟨present', left, reaches, cut⟩
            exact reaches_stop (.inl unknown) none reaches cut
          case isTrue known =>
            split
            case isTrue again =>
              refine iff_of_false (fun wrong => by cases wrong) ?_
              rintro ⟨present', left, reaches, cut⟩
              exact reaches_stop (.inr again) none reaches cut
            case isFalse first =>
              split
              · rename_i fits
                obtain ⟨length, rest, rfl, same⟩ := @checkOption_finished [] _ _ _ fits
                rw [cut_after known first fits]
                change (if rest.length + 1 + 1 < length.toNat then _ else chkLoop fuel _
                  ((length :: rest).drop (length.toNat - 1))) = _ ↔ _
                rw [List.length_cons] at enough
                split
                case isTrue long =>
                  refine iff_of_false (fun wrong => by cases wrong) ?_
                  rintro ⟨-, body, rest', rfl, size, -⟩
                  rw [List.length_append] at long
                  omega
                case isFalse inside =>
                  obtain ⟨body, rest', rfl, size, behind⟩ :=
                    exists_body (three_le_of_fits same) (Nat.not_lt.mp inside)
                  rw [List.length_append] at enough
                  rw [behind, inductionHypothesis (by omega)]
                  constructor
                  · exact fun cut => ⟨rfl, body, rest', rfl, size, cut⟩
                  · rintro ⟨-, body', rest'', equal, size', cut⟩
                    obtain ⟨-, rfl⟩ := List.append_inj equal (by omega)
                    exact cut
              · rename_i wrong
                obtain ⟨length, rest, rfl, -⟩ := @checkOption_finished [] _ _ _ wrong
                rw [cut_after known first wrong]
                refine iff_of_false (fun wrong => by cases wrong) ?_
                rintro ⟨wrong, -⟩
                cases wrong
              · rename_i outside
                exact iff_of_true rfl
                  ⟨present, _, .here, (checkOption_outside known first).mp outside⟩
              · rename_i violated
                exact absurd violated checkOption_violated

/-! ### The split -/

theorem not_single (known : opt ∈ knownOptions) : ¬single opt := by
  unfold knownOptions at known
  simp only [List.mem_cons, List.not_mem_nil, or_false] at known
  obtain rfl | rfl | rfl | rfl | rfl := known
  all_goals decide

theorem optLength_single (one : single opt) : optLength (opt :: rest) = some 1 := if_pos one

theorem optLength_option (more : ¬single opt) :
    optLength (opt :: rest) = rest.head?.map UInt8.toNat := if_neg more

theorem walkable_of_splitLoop {out : List UInt8}
    (walked : splitLoop fuel opts second = some (.finished out)) :
    Walkable opts ∧ out.length ≤ second.length + opts.length := by
  induction fuel generalizing opts second with
  | zero => cases walked
  | succ fuel inductionHypothesis =>
    cases opts with
    | nil =>
      obtain rfl := Walked.finished.inj (some.inj walked)
      exact ⟨.nil, Nat.le_add_right _ _⟩
    | cons opt rest =>
      unfold splitLoop at walked
      split at walked
      · cases walked
      rename_i optlen sized
      split at walked
      · cases walked
      rename_i inside
      have inside' : optlen ≤ (opt :: rest).length := Nat.not_lt.mp inside
      -- whether the option is copied or not
      have walks : Walkable ((opt :: rest).drop optlen) ∧
          out.length ≤ second.length + (opt :: rest).length := by
        split at walked
        · obtain ⟨walks, short⟩ := inductionHypothesis walked
          rw [List.length_append, List.length_take, List.length_drop] at short
          exact ⟨walks, by omega⟩
        · obtain ⟨walks, short⟩ := inductionHypothesis walked
          rw [List.length_drop] at short
          exact ⟨walks, by omega⟩
      refine ⟨?_, walks.2⟩
      by_cases one : single opt
      · rw [optLength_single one] at sized
        obtain rfl := some.inj sized
        exact .single one walks.1
      · rw [optLength_option one] at sized
        cases rest with
        | nil => cases sized
        | cons length rest =>
          obtain rfl := some.inj sized
          by_cases pos : 0 < length.toNat
          · exact .option one pos inside' walks.1
          · -- an option without a length is walked through again, with less fuel
            have zero : length.toNat = 0 := Nat.eq_zero_of_not_pos pos
            have again := walks.1
            rwa [zero, List.drop_zero] at again

theorem splitLoop_of_walkable (walkable : Walkable opts) (second : List UInt8) :
    ∃ fuel out, splitLoop fuel opts second = some (.finished out) := by
  induction walkable generalizing second with
  | nil => exact ⟨1, second, rfl⟩
  | @single opt rest one _ inductionHypothesis =>
    obtain ⟨fuel, out, walked⟩ := inductionHypothesis
      (if opt &&& 0x80 ≠ 0 then second ++ [opt] else second)
    refine ⟨fuel + 1, out, ?_⟩
    unfold splitLoop
    rw [optLength_single one]
    dsimp only
    rw [if_neg (by rw [List.length_cons]; omega), ← walked]
    split_ifs <;> rfl
  | @option opt length rest more pos inside _ inductionHypothesis =>
    obtain ⟨fuel, out, walked⟩ := inductionHypothesis
      (if opt &&& 0x80 ≠ 0 then second ++ (opt :: length :: rest).take length.toNat else second)
    refine ⟨fuel + 1, out, ?_⟩
    unfold splitLoop
    rw [optLength_option more]
    change (if (opt :: length :: rest).length < length.toNat then _ else _) = _
    rw [if_neg (show ¬(opt :: length :: rest).length < length.toNat from Nat.not_lt.mpr inside),
      ← walked]
    split_ifs <;> rfl

/-- The loop of `ip_split_pack` walks through what the check has come past. -/
theorem reaches_walkable (reaches : Reaches present opts present' left) :
    Walkable opts ↔ Walkable left := by
  induction reaches with
  | here => exact Iff.rfl
  | noOperation _ inductionHypothesis =>
    rw [← inductionHypothesis]
    constructor
    · intro walkable
      cases walkable with
      | single _ walkable => exact walkable
      | option more => exact absurd (.inr rfl) more
    · exact .single (.inr rfl)
  | @option present rest body present' left opt length known first size fits _
      inductionHypothesis =>
    have behind : (opt :: length :: (body ++ rest)).drop length.toNat = rest := by
      rw [← size, List.drop_succ_cons, List.drop_succ_cons, List.drop_left]
    rw [← inductionHypothesis]
    constructor
    · intro walkable
      cases walkable with
      | single one => exact absurd one (not_single known)
      | option _ _ _ walkable => rwa [behind] at walkable
    · intro walkable
      refine .option (not_single known) (by omega) ?_ (by rwa [behind])
      rw [List.length_append]
      omega

/-- An accepted list comes to its end, or to the end of the list that it says. -/
theorem exists_reaches (list : OptionList present opts) :
    ∃ present' left, Reaches present opts present' left ∧
      (left = [] ∨ ∃ rest, left = 0 :: rest) := by
  induction list with
  | nil => exact ⟨_, [], .here, .inl rfl⟩
  | @endOfList present rest => exact ⟨_, 0 :: rest, .here, .inr ⟨rest, rfl⟩⟩
  | noOperation _ inductionHypothesis =>
    obtain ⟨present', left, reaches, ends⟩ := inductionHypothesis
    exact ⟨present', left, .noOperation reaches, ends⟩
  | option known first size fits _ inductionHypothesis =>
    obtain ⟨present', left, reaches, ends⟩ := inductionHypothesis
    exact ⟨present', left, .option known first size fits reaches, ends⟩

theorem optionList_of_reaches (reaches : Reaches present opts present' (0 :: rest)) :
    OptionList present opts := by
  generalize ends : 0 :: rest = left at reaches
  induction reaches with
  | here =>
    subst ends
    exact .endOfList
  | noOperation _ inductionHypothesis => exact .noOperation (inductionHypothesis ends)
  | option known first size fits _ inductionHypothesis =>
    exact .option known first size fits (inductionHypothesis ends)

theorem walkable_iff (list : OptionList [] opts) :
    Walkable opts ↔ ∀ present rest, Reaches [] opts present (0 :: rest) → Walkable rest := by
  constructor
  · intro walkable present rest reaches
    have ending := (reaches_walkable reaches).mp walkable
    cases ending with
    | single _ walkable => exact walkable
    | option more => exact absurd (.inl rfl) more
  · intro behind
    obtain ⟨present, left, reaches, rfl | ⟨rest, rfl⟩⟩ := exists_reaches list
    · exact (reaches_walkable reaches).mpr .nil
    · exact (reaches_walkable reaches).mpr (.single (.inl rfl) (behind present rest reaches))

/-! ### Both loops -/

theorem splitOptions_iff (words : opts.length % 4 = 0) :
    (∃ second, Returns (splitOptions opts) (.finished second) ∧ second.length ≤ opts.length) ↔
      Walkable opts := by
  constructor
  · rintro ⟨second, ⟨fuel, walked⟩, -⟩
    obtain ⟨ending, walked, same⟩ := Option.map_eq_some_iff.mp walked
    cases ending with
    | outside => cases same
    | violated => cases same
    | finished out => exact (walkable_of_splitLoop walked).1
  · intro walkable
    obtain ⟨fuel, out, walked⟩ := splitLoop_of_walkable walkable []
    have short := (walkable_of_splitLoop walked).2
    refine ⟨padOptions out, ⟨fuel, ?_⟩, ?_⟩
    · unfold splitOptions
      rw [walked]
      rfl
    · rw [List.length_nil] at short
      unfold padOptions
      rw [List.length_append, List.length_replicate]
      omega

/-- The check of the options comes to an end inside the area, and accepts only what `ip_split_pack`
can walk through, exactly for the areas of this shape. -/
theorem optionsSafe_iff (opts : List UInt8) : OptionsSafe opts ↔ OptionsFit opts := by
  have outside := @chkLoop_outside opts [] (opts.length + 1) (Nat.lt_succ_self _)
  by_cases words : opts.length % 4 = 0
  case neg =>
    refine iff_of_false ?_ fun fits => words fits.words
    rintro ⟨result, ⟨fuel, checked⟩, -⟩
    unfold chkOptions at checked
    rw [if_pos words] at checked
    cases checked
  have loop (fuel : Nat) : chkOptions opts fuel = chkLoop fuel [] opts := if_neg (not_not.mpr words)
  have accepted {result : Int} (checked : Returns (chkOptions opts) (.finished result)) :
      result = 0 ↔ OptionList [] opts := by
    obtain ⟨fuel, checked⟩ := checked
    rw [loop] at checked
    rw [← chkLoop_agrees le_rfl checked]
    exact @ipChkHdropt_iff [] opts
  rw [← loop] at outside
  constructor
  · rintro ⟨result, checked, walks⟩
    refine ⟨words, fun present left reaches cut => ?_, fun present rest reaches => ?_⟩
    · have wrong := outside.mpr ⟨present, left, reaches, cut⟩
      have unique := (chkOptions_steady opts).unique checked ⟨_, wrong⟩
      cases unique
    · have list := optionList_of_reaches reaches
      have walkable := (splitOptions_iff words).mp (walks ((accepted checked).mpr list))
      exact (walkable_iff list).mp walkable present rest reaches
  · rintro ⟨-, whole, behind⟩
    have total := @chkLoop_total opts [] (opts.length + 1) (Nat.lt_succ_self _)
    rw [← loop] at total
    obtain wrong | ⟨result, checked⟩ := total
    · obtain ⟨present, left, reaches, cut⟩ := outside.mp wrong
      exact absurd cut (whole present left reaches)
    · have returns : Returns (chkOptions opts) (.finished result) := ⟨_, checked⟩
      refine ⟨result, returns, fun zero => (splitOptions_iff words).mpr ?_⟩
      exact (walkable_iff ((accepted returns).mp zero)).mpr behind

/-- A source route whose length lies behind the area is read there, and an option without a length
after the end of the list keeps `ip_split_pack` busy for ever. -/
theorem cut_options_unsafe : ¬OptionsSafe [1, 1, 1, 0x83] ∧ ¬OptionsSafe [0, 0x44, 0, 0] := by
  constructor
  · rintro ⟨result, checked, -⟩
    have wrong : Returns (chkOptions [1, 1, 1, 0x83]) .outside := ⟨5, by decide⟩
    cases (chkOptions_steady _).unique checked wrong
  · rintro ⟨result, checked, walks⟩
    have right : Returns (chkOptions [0, 0x44, 0, 0]) (.finished 0) := ⟨1, by decide⟩
    have zero := Walked.finished.inj ((chkOptions_steady _).unique checked right)
    have walkable := (splitOptions_iff (by decide)).mp (walks zero)
    cases walkable with
    | option more => exact more (.inl rfl)
    | single _ walkable =>
      cases walkable with
      | single one => exact absurd one (by decide)
      | option _ pos => exact absurd pos (by decide)

end Check

end Minix.Inet
