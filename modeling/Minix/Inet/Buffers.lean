/-
This file models more of the buffer library (`inet/buf.c`), `bf_delhead` and `bf_append`, and proves
when `bf_cut` and `bf_delhead` keep their assertions, and what the first accessor of a result holds.
The handlers of packets read headers from there.

The buffers of `bf_memreq` have at least 512 bytes, so that a chain whose bytes are copied begins
with that many, or with all of its bytes.
-/

import Minix.Inet.TtlAgeing

namespace Minix.Inet

open OnesComplement (Same)
open Option (some.inj map_eq_some_iff ite_none_right_eq_some ite_some_none_eq_some)

/-! ### The model -/

/-- The size of the smallest buffer. -/
def bufS : Nat := 512

/-- The size of the greatest buffer. -/
def bufMax : Nat := 32 * 1024

/-- The accessors of a chain lie in one buffer each. -/
def Buffered (chain : List Acc) : Prop := ∀ acc ∈ chain, acc.data.length ≤ bufMax

/-- What `bf_pack` and `bf_append` make of chains. Which accessors a chain is spread over depends on
the buffers and their link counts. -/
structure Buffers extends Packing where
  pack_first : ∀ chain, bytes chain ≠ [] → ∃ acc next, pack chain = acc :: next ∧
    min bufS (bytes chain).length ≤ acc.data.length
  pack_single : ∀ chain, bytes chain ≠ [] → (bytes chain).length ≤ bufS →
    ∃ acc, pack chain = [acc]
  pack_buffered : ∀ chain, Buffered chain → Buffered (pack chain)
  append : List Acc → List Acc → List Acc
  bytes_append : ∀ first second, bytes (append first second) = bytes first ++ bytes second
  append_buffered : ∀ first second, Buffered first → Buffered second →
    Buffered (append first second)

/-- `bf_afree`: a chain that is released is no longer in use. -/
def bfAfree {α : Type} [DecidableEq α] (chain : α) (inUse : List α) : Option (List α) :=
  if chain ∈ inUse then some (inUse.erase chain) else none

/-- The subtraction of sizes. -/
def sizeSub (a b : Nat) : Nat := (a + 2 ^ 32 - b) % 2 ^ 32

/-- The long word at an offset. -/
def getU32 (data : List UInt8) (i : Nat) : UInt32 :=
  word (data.getD i 0) (data.getD (i + 1) 0) |||
    word (data.getD (i + 2) 0) (data.getD (i + 3) 0) <<< 16

/-- A long word in memory. -/
def longBytes (x : UInt32) : List UInt8 :=
  [x.toUInt8, (x >>> 8).toUInt8, (x >>> 16).toUInt8, (x >>> 24).toUInt8]

/-- The bytes at an offset. -/
def field (data : List UInt8) (i size : Nat) : List UInt8 :=
  (List.range size).map fun j => data.getD (i + j) 0

def bfDelhead : List Acc → Nat → Option (List Acc)
  | [], _ => none
  | data :: next, offset =>
    if data.data.length ≤ offset then bfDelhead next (offset - data.data.length)
    else some (⟨data.address + offset, data.data.drop offset⟩ :: next)

/-- The bytes in buffers of 512 bytes, as `bf_memreq` fills them. -/
def fillBuffers : Nat → List UInt8 → List Acc
  | 0, _ => []
  | steps + 1, data =>
    if data = [] then [] else ⟨0, data.take bufS⟩ :: fillBuffers steps (data.drop bufS)

theorem bytes_fillBuffers {steps : Nat} {data : List UInt8} (enough : data.length ≤ steps) :
    bytes (fillBuffers steps data) = data := by
  induction steps generalizing data with
  | zero => exact (List.length_eq_zero_iff.mp (Nat.le_zero.mp enough)).symm
  | succ steps inductionHypothesis =>
    unfold fillBuffers
    split
    case isTrue none =>
      rw [none]
      rfl
    case isFalse some' =>
      have less : (data.drop bufS).length ≤ steps := by
        rw [List.length_drop]
        unfold bufS
        omega
      rw [bytes_cons, inductionHypothesis less, List.take_append_drop]

theorem buffered_fillBuffers {steps : Nat} {data : List UInt8} :
    Buffered (fillBuffers steps data) := by
  induction steps generalizing data with
  | zero => exact fun acc member => by cases member
  | succ steps inductionHypothesis =>
    unfold fillBuffers
    split
    · exact fun acc member => by cases member
    · refine List.forall_mem_cons.mpr ⟨?_, inductionHypothesis⟩
      exact (List.length_take_le _ _).trans (by decide)

/-- Buffers of 512 bytes, where `bf_append` only links the chains. -/
def buffers512 : Buffers where
  pack chain := fillBuffers (bytes chain).length (bytes chain)
  bytes_pack chain := bytes_fillBuffers le_rfl
  pack_first chain some' := by
    obtain ⟨steps, same⟩ := Nat.exists_eq_add_one_of_ne_zero
      (List.length_pos_iff.mpr some').ne'
    rw [same, fillBuffers, if_neg some', ← same]
    exact ⟨_, _, rfl, (List.length_take).ge⟩
  pack_single chain some' short := by
    obtain ⟨steps, same⟩ := Nat.exists_eq_add_one_of_ne_zero
      (List.length_pos_iff.mpr some').ne'
    rw [same, fillBuffers, if_neg some', List.drop_eq_nil_of_le short]
    refine ⟨_, congrArg _ ?_⟩
    cases steps <;> rfl
  pack_buffered chain _ := buffered_fillBuffers
  append := (· ++ ·)
  bytes_append _ _ := List.flatMap_append
  append_buffered _ _ front back acc member := (List.mem_append.mp member).elim (front acc) (back acc)

/-! ### Totality -/

section Totality

variable {chain cut : List Acc} {acc : Acc} {next : List Acc} {offset count : Nat}

theorem length_bytes_cons (acc : Acc) (next : List Acc) :
    (bytes (acc :: next)).length = acc.data.length + (bytes next).length := by
  rw [bytes_cons, List.length_append]

theorem bytes_singleton (acc : Acc) : bytes [acc] = acc.data := List.append_nil _

theorem exists_bfTake (inside : count ≤ (bytes chain).length) :
    ∃ cut, bfTake chain count = some cut := by
  induction chain generalizing count with
  | nil =>
    obtain rfl := Nat.le_zero.mp inside
    exact ⟨[], rfl⟩
  | cons data next inductionHypothesis =>
    cases count with
    | zero => exact ⟨[], rfl⟩
    | succ count =>
      rw [length_bytes_cons] at inside
      unfold bfTake
      split
      · obtain ⟨cut, taken⟩ := @inductionHypothesis (count + 1 - data.data.length) (by omega)
        exact ⟨data :: cut, by rw [taken]; rfl⟩
      · exact ⟨_, rfl⟩

theorem exists_bfCutHead (some' : 0 < count) (inside : offset + count ≤ (bytes chain).length) :
    ∃ cut, bfCutHead chain offset count = some cut := by
  induction chain generalizing offset with
  | nil =>
    rw [show bytes [] = [] from rfl, List.length_nil] at inside
    omega
  | cons data next inductionHypothesis =>
    rw [length_bytes_cons] at inside
    unfold bfCutHead
    split
    · exact inductionHypothesis (by omega)
    · refine exists_bfTake ?_
      rw [length_bytes_cons, List.length_drop]
      omega

theorem exists_bfCut (inside : offset + count ≤ (bytes (acc :: next)).length) :
    ∃ cut, bfCut (acc :: next) offset count = some cut := by
  unfold bfCut
  dsimp only
  split
  · exact ⟨_, rfl⟩
  · exact exists_bfCutHead (by omega) inside

theorem le_of_bfTake (taken : bfTake chain count = some cut) : count ≤ (bytes chain).length := by
  induction chain generalizing count cut with
  | nil =>
    cases count with
    | zero => exact Nat.zero_le _
    | succ count => cases taken
  | cons data next inductionHypothesis =>
    cases count with
    | zero => exact Nat.zero_le _
    | succ count =>
      rw [length_bytes_cons]
      unfold bfTake at taken
      split at taken
      · obtain ⟨rest, more, -⟩ := map_eq_some_iff.mp taken
        have less := inductionHypothesis more
        omega
      · omega

theorem le_of_bfCutHead (found : bfCutHead chain offset count = some cut) :
    offset + count ≤ (bytes chain).length := by
  induction chain generalizing offset with
  | nil => cases found
  | cons data next inductionHypothesis =>
    rw [length_bytes_cons]
    unfold bfCutHead at found
    split at found
    · have less := inductionHypothesis found
      omega
    · have less := le_of_bfTake found
      rw [length_bytes_cons, List.length_drop] at less
      omega

theorem le_of_bfCut (some' : 0 < count) (found : bfCut chain offset count = some cut) :
    offset + count ≤ (bytes chain).length := by
  unfold bfCut at found
  cases chain with
  | nil =>
    dsimp only at found
    split at found
    · omega
    · cases found
  | cons acc next =>
    dsimp only at found
    rw [if_neg some'.ne'] at found
    exact le_of_bfCutHead found

theorem bfDelhead_eq (found : bfDelhead chain offset = some cut) :
    bytes cut = (bytes chain).drop offset ∧ ∃ acc next, cut = acc :: next := by
  induction chain generalizing offset with
  | nil => cases found
  | cons data next inductionHypothesis =>
    rw [bytes_cons, List.drop_append]
    unfold bfDelhead at found
    split at found
    case isTrue before =>
      rw [List.drop_eq_nil_of_le before, List.nil_append]
      exact inductionHypothesis found
    case isFalse inside =>
      obtain rfl := some.inj found
      rw [bytes_cons, Nat.sub_eq_zero_of_le (by omega), List.drop_zero]
      exact ⟨rfl, _, _, rfl⟩

theorem bfDelhead_isSome :
    (∃ cut, bfDelhead chain offset = some cut) ↔ offset < (bytes chain).length := by
  induction chain generalizing offset with
  | nil => exact iff_of_false (fun ⟨_, wrong⟩ => by cases wrong) (Nat.not_lt_zero _)
  | cons data next inductionHypothesis =>
    rw [length_bytes_cons]
    unfold bfDelhead
    split
    · rw [inductionHypothesis]
      omega
    · exact iff_of_true ⟨_, rfl⟩ (by omega)

end Totality

/-! ### First accessors -/

section First

variable {buffers : Buffers} {chain cut : List Acc} {acc : Acc} {next : List Acc}
  {offset count size : Nat}

theorem bfTake_first (taken : bfTake (acc :: next) (count + 1) = some cut) :
    ∃ rest, cut = ⟨acc.address, acc.data.take (count + 1)⟩ :: rest := by
  unfold bfTake at taken
  split at taken
  case isTrue whole =>
    obtain ⟨rest, -, rfl⟩ := map_eq_some_iff.mp taken
    rw [List.take_of_length_le whole]
    exact ⟨rest, rfl⟩
  case isFalse => exact ⟨[], (some.inj taken).symm⟩

/-- The first accessor of what `bf_cut` cuts out from some point of the first accessor on. -/
theorem bfCut_head (inside : offset < acc.data.length)
    (found : bfCut (acc :: next) offset (count + 1) = some cut) :
    ∃ rest, cut = ⟨acc.address + offset, (acc.data.drop offset).take (count + 1)⟩ :: rest := by
  unfold bfCut bfCutHead at found
  dsimp only at found
  rw [if_neg (Nat.succ_ne_zero count), if_neg (Nat.not_le.mpr inside)] at found
  exact bfTake_first found

theorem bfCut_inside (some' : 0 < count) (inside : offset + count ≤ acc.data.length) :
    bfCut (acc :: next) offset count =
      some [⟨acc.address + offset, (acc.data.drop offset).take count⟩] := by
  obtain ⟨count, rfl⟩ := Nat.exists_eq_add_one_of_ne_zero some'.ne'
  have rest : count + 1 ≤ (acc.data.drop offset).length := by
    rw [List.length_drop]
    omega
  unfold bfCut bfCutHead bfTake
  dsimp only
  rw [if_neg (Nat.succ_ne_zero count), if_neg (by omega)]
  split
  case isTrue all =>
    rw [Nat.sub_eq_zero_of_le rest, List.take_of_length_le all]
    cases next <;> rfl
  case isFalse => rfl

theorem bfCutHead_cons (found : bfCutHead chain offset (count + 1) = some cut) :
    ∃ acc rest, cut = acc :: rest := by
  induction chain generalizing offset with
  | nil => cases found
  | cons data next inductionHypothesis =>
    unfold bfCutHead at found
    split at found
    · exact inductionHypothesis found
    · obtain ⟨rest, rfl⟩ := bfTake_first found
      exact ⟨_, _, rfl⟩

theorem bfCut_cons (found : bfCut (acc :: next) offset count = some cut) :
    ∃ first rest, cut = first :: rest := by
  cases count with
  | zero =>
    obtain rfl := some.inj found
    exact ⟨_, _, rfl⟩
  | succ count =>
    unfold bfCut at found
    dsimp only at found
    rw [if_neg (Nat.succ_ne_zero count)] at found
    exact bfCutHead_cons found

/-- After `bf_packIffLess` the first accessor has the bytes that were asked for, if there are as many
and a buffer holds them. -/
theorem bfPackIffLess_first (enough : size ≤ (bytes (acc :: next)).length) (small : size ≤ bufS) :
    ∃ first rest, bfPackIffLess buffers.toPacking (acc :: next) size = first :: rest ∧
      size ≤ first.data.length := by
  unfold bfPackIffLess
  dsimp only
  split
  case isTrue already => exact ⟨acc, next, rfl, already⟩
  case isFalse less =>
    have some' : bytes (acc :: next) ≠ [] := by
      intro none
      rw [none, List.length_nil] at enough
      omega
    obtain ⟨first, rest, packed, long⟩ := buffers.pack_first (acc :: next) some'
    exact ⟨first, rest, packed, by omega⟩

end First

/-! ### Sizes of accessors -/

section Buffered

variable {buffers : Buffers} {chain cut : List Acc} {offset count size : Nat}

section

variable (small : Buffered chain)
include small

theorem bfTake_buffered (taken : bfTake chain count = some cut) :
    Buffered cut := by
  induction chain generalizing count cut with
  | nil =>
    cases count with
    | zero =>
      obtain rfl := some.inj taken
      exact small
    | succ count => cases taken
  | cons data next inductionHypothesis =>
    obtain ⟨first, others⟩ := List.forall_mem_cons.mp small
    cases count with
    | zero =>
      obtain rfl := some.inj taken
      exact fun acc member => by cases member
    | succ count =>
      unfold bfTake at taken
      split at taken
      · obtain ⟨rest, more, rfl⟩ := map_eq_some_iff.mp taken
        exact List.forall_mem_cons.mpr ⟨first, inductionHypothesis others more⟩
      · obtain rfl := some.inj taken
        exact List.forall_mem_singleton.mpr ((List.length_take_le' _ _).trans first)

theorem bfCut_buffered (found : bfCut chain offset count = some cut) :
    Buffered cut := by
  have head : ∀ {chain : List Acc} {offset : Nat}, Buffered chain →
      bfCutHead chain offset count = some cut → Buffered cut := by
    intro chain
    induction chain with
    | nil => exact fun _ wrong => by cases wrong
    | cons data next inductionHypothesis =>
      intro offset small found
      obtain ⟨first, others⟩ := List.forall_mem_cons.mp small
      unfold bfCutHead at found
      split at found
      · exact inductionHypothesis others found
      · refine bfTake_buffered (List.forall_mem_cons.mpr ⟨?_, others⟩) found
        exact (List.length_drop.trans_le (Nat.sub_le _ _)).trans first
  unfold bfCut at found
  cases chain with
  | nil =>
    dsimp only at found
    obtain ⟨-, rfl⟩ := ite_some_none_eq_some.mp found
    exact small
  | cons acc next =>
    dsimp only at found
    split at found
    · obtain rfl := some.inj found
      exact List.forall_mem_singleton.mpr (Nat.zero_le _)
    · exact head small found

theorem bfDelhead_buffered (found : bfDelhead chain offset = some cut) :
    Buffered cut := by
  induction chain generalizing offset with
  | nil => cases found
  | cons data next inductionHypothesis =>
    obtain ⟨first, others⟩ := List.forall_mem_cons.mp small
    unfold bfDelhead at found
    split at found
    · exact inductionHypothesis others found
    · obtain rfl := some.inj found
      exact List.forall_mem_cons.mpr ⟨(List.length_drop.trans_le (Nat.sub_le _ _)).trans first, others⟩

theorem bfPackIffLess_buffered :
    Buffered (bfPackIffLess buffers.toPacking chain size) := by
  unfold bfPackIffLess
  split
  · exact small
  split
  · exact small
  · exact buffers.pack_buffered _ small

end

theorem exists_bfAlign {pack : Acc} {next : List Acc} (alignment : Nat) (some' : 0 < size)
    (small : size ≤ bufS) (filled : bytes (pack :: next) ≠ []) :
    ∃ acc rest, bfAlign buffers.toPacking (pack :: next) size alignment = some (acc :: rest) ∧
      acc.data.length = (if size ≤ pack.data.length ∧ pack.address % alignment = 0 then
        pack.data.length else min size (bytes (pack :: next)).length) ∧
      (Buffered (pack :: next) → Buffered (acc :: rest)) := by
  have pos := List.length_pos_iff.mpr filled
  unfold bfAlign
  dsimp only
  split
  case isTrue => exact ⟨pack, next, rfl, rfl, id⟩
  case isFalse =>
    rw [if_neg (not_or.mpr ⟨some'.ne', pos.ne'⟩)]
    split
    case isTrue short =>
      obtain ⟨acc, single⟩ := buffers.pack_single _ filled (short.trans small)
      refine ⟨acc, [], congrArg some single, ?_, fun buffered => single ▸
        buffers.pack_buffered _ buffered⟩
      rw [Nat.min_eq_right short, ← buffers.bytes_pack, single, bytes_singleton]
    case isFalse long =>
      have long := Nat.lt_of_not_le long
      obtain ⟨head, cutHead⟩ := @exists_bfCut pack next 0 size (by omega)
      obtain ⟨tail, cutTail⟩ := @exists_bfCut pack next size
        ((bytes (pack :: next)).length - size) (by omega)
      have length : (bytes head).length = size := by
        rw [bfCut_eq cutHead, List.drop_zero, List.length_take]
        exact Nat.min_eq_left long.le
      obtain ⟨acc, single⟩ := buffers.pack_single head
        (List.length_pos_iff.mp (by rw [length]; exact some')) (length.le.trans small)
      refine ⟨acc, tail, ?_, ?_, fun buffered => ?_⟩
      · rw [cutHead, Option.bind_some, cutTail, Option.bind_some, single]
      · rw [Nat.min_eq_left long.le, ← length, ← buffers.bytes_pack, single, bytes_singleton]
      · have small := single ▸ buffers.pack_buffered _ (bfCut_buffered buffered cutHead)
        exact List.forall_mem_cons.mpr ⟨small acc (List.mem_singleton_self acc),
          bfCut_buffered buffered cutTail⟩

end Buffered

/-! ### Fields -/

section Fields

variable {pack : Acc} {next : List Acc} {data : List UInt8} {size : Nat} {odd : Bool}

theorem sizeSub_eq {a b : Nat} (less : b ≤ a) (small : a < 2 ^ 32) : sizeSub a b = a - b := by
  unfold sizeSub
  omega

theorem sizeSub_wraps {a b : Nat} (less : a < b) :
    sizeSub a b = a + 2 ^ 32 - b := by
  unfold sizeSub
  omega

/-- Two headers begin with the same bytes. -/
def SameBytes (count : Nat) (front data : List UInt8) : Prop :=
  ∀ i < count, front.getD i 0 = data.getD i 0

theorem SameBytes.field {count i : Nat} {front : List UInt8} (same : SameBytes count front data)
    (inside : i + size ≤ count) : field front i size = field data i size := by
  refine List.map_congr_left fun j member => same (i + j) ?_
  have less := List.mem_range.mp member
  omega

theorem SameBytes.getU16 {count i : Nat} {front : List UInt8} (same : SameBytes count front data)
    (inside : i + 2 ≤ count) : getU16 front i = getU16 data i := by
  unfold Inet.getU16
  rw [same i (by omega), same (i + 1) (by omega)]

theorem sameBytes_bytes {count : Nat} (inside : count ≤ pack.data.length) :
    SameBytes count pack.data (bytes (pack :: next)) :=
  fun _ less => (getD_bytes (Nat.lt_of_lt_of_le less inside)).symm

theorem weighBytes_eq_zero (none : weighBytes odd data = 0) : ∀ i, data.getD i 0 = 0 := by
  induction data generalizing odd with
  | nil => exact fun i => rfl
  | cons first rest inductionHypothesis =>
    change (if odd then 256 else 1) * first.toNat + weighBytes (!odd) rest = 0 at none
    obtain ⟨zero, others⟩ := Nat.add_eq_zero_iff.mp none
    intro i
    cases i with
    | zero =>
      refine UInt8.toNat_inj.mp ((Nat.mul_eq_zero.mp zero).resolve_left ?_)
      cases odd <;> decide
    | succ i => exact inductionHypothesis others i

theorem length_field (data : List UInt8) (i size : Nat) : (field data i size).length = size := by
  rw [field, List.length_map, List.length_range]

theorem same_continued {prev : UInt16} {total address : Nat} (so : Same 256 prev.toNat total)
    (short : data.length ≤ 60) (even : data.length % 2 = 0) :
    Same 256 (oneCSum prev address data).toNat (total + wordSum data) := by
  rw [wordSum_eq even]
  exact (same_oneCSum (by omega)).trans (so.add (Same.refl _))

end Fields

/-! ### Packets -/

/-- What follows the header. -/
def ipPayload (data : List UInt8) : List UInt8 := data.drop (hdrLen data)

/-- What the IP layer hands over: the checks of `ip_arrived` leave the header in one accessor. -/
structure Handed (pack : Acc) (next : List Acc) : Prop where
  complete : 20 ≤ pack.data.length
  inside : hdrLen pack.data ≤ pack.data.length
  small : (bytes (pack :: next)).length < 2 ^ 32
  buffered : Buffered (pack :: next)

section Packets

variable {pack : Acc} {next : List Acc}

theorem hdrLen_bytes (complete : 20 ≤ pack.data.length) :
    hdrLen (bytes (pack :: next)) = hdrLen pack.data := (header_bytes complete).2.1

end Packets

end Minix.Inet
