/-
This file proves that the input side of a serial line stays in order: the fields that input uses,
whatever happens to those of output. The device may send whenever there is little input.
-/

import Minix.Kernel.Wire

namespace Minix.Kernel.Serial

open Ring

/-! ### The input side -/

/-- What input uses. -/
structure InputSide where
  icount : Int
  ihead : Nat
  itail : Nat
  idevready : Bool
  modemCtl : BitVec 8
  reader : Reader

def Line.input (l : Line) : InputSide where
  icount := l.rs.icount
  ihead := l.rs.ihead
  itail := l.rs.itail
  idevready := l.rs.idevready
  modemCtl := l.modemCtl
  reader := l.reader

/-- What is known of the task's variables, wherever it is in an input function. -/
def Reader.Ok (itail : Nat) (icount : Int) : Reader → Prop
  | .offered count | .taken count => count ≤ icount ∧ itail + count ≤ rsIbufsize
  | .released count => itail + count ≤ rsIbufsize
  | .away | .looping => True

/-- What holds of the input side in every state. -/
structure InputSide.Ok (i : InputSide) : Prop where
  ihead : i.ihead < rsIbufsize
  itail : i.itail < rsIbufsize
  count : 0 ≤ i.icount ∧ i.icount ≤ rsIbufsize
  distance : (i.itail + i.reader.lag + i.icount.toNat) % rsIbufsize = i.ihead % rsIbufsize
  told : i.idevready = false → rsIlowwater ≤ i.icount
  raised : i.idevready = true → i.modemCtl &&& mcRts ≠ 0
  reader : i.reader.Ok i.itail i.icount

/-! ### Input -/

section Input

variable {l : Line} {taken : Nat}

theorem Reader.Ok.store {reader : Reader} {itail : Nat} {icount : Int}
    (ok : reader.Ok itail icount) : reader.Ok itail (icount + 1) := by
  cases reader <;> simp only [Reader.Ok] at ok ⊢ <;> omega

theorem istart_raised : (mcOut2 ||| mcRts ||| mcDtr) &&& mcRts ≠ 0 := by decide

/-- The device is asked to stop at the high water mark, which is above the low one. -/
theorem allowInput_cases (ok : l.input.Ok) : ∃ idevready modemCtl, l.allowInput = { l with
      rs := { l.rs with icount := l.rs.icount + 1, idevready }, modemCtl } ∧
    (idevready = false → rsIlowwater ≤ l.rs.icount + 1) ∧
    (idevready = true → modemCtl &&& mcRts ≠ 0) := by
  unfold Line.allowInput
  dsimp only
  split
  · rename_i high
    have : rsIlowwater ≤ rsIhighwater := by decide
    exact ⟨false, mcOut2 ||| mcDtr, rfl, fun _ => by omega, fun goes => by cases goes⟩
  · refine ⟨l.rs.idevready, l.modemCtl, rfl, fun waits => ?_, ok.raised⟩
    have low : rsIlowwater ≤ l.rs.icount := ok.told waits
    omega

theorem inStore_ok {c : UInt8} (ok : l.input.Ok) : (l.inStore c).input.Ok := by
  obtain ⟨idevready, modemCtl, admitted, told, raised⟩ := allowInput_cases ok
  unfold Line.inStore
  split
  · exact ok
  · rename_i room
    have counts : 0 ≤ l.rs.icount ∧ l.rs.icount ≤ rsIbufsize := ok.count
    have stored : InputSide.Ok { l.input with
        icount := l.rs.icount + 1
        ihead := next rsIbufsize l.rs.ihead
        idevready, modemCtl } := by
      have head : next rsIbufsize l.rs.ihead = (l.rs.ihead + 1) % rsIbufsize := next_eq ok.ihead
      have distance : (l.input.itail + l.input.reader.lag + l.rs.icount.toNat) % rsIbufsize =
        l.rs.ihead % rsIbufsize := ok.distance
      refine ⟨next_lt ok.ihead, ok.itail, ⟨by dsimp only; omega, by dsimp only; omega⟩, ?_, told,
        raised, ok.reader.store⟩
      change (l.input.itail + l.input.reader.lag + (l.rs.icount + 1).toNat) % rsIbufsize =
        next rsIbufsize l.rs.ihead % rsIbufsize
      rw [show (l.rs.icount + 1).toNat = l.rs.icount.toNat + 1 by omega, ← Nat.add_assoc,
        ← Nat.mod_add_mod, distance, head, Nat.mod_add_mod, Nat.mod_mod]
    rw [admitted]
    dsimp only
    split <;> exact stored

theorem InputSide.Ok.goTo {i : InputSide} (ok : i.Ok) {here reader : Reader}
    (standing : i.reader = here) (lag : reader.lag = here.lag)
    (arrives : reader.Ok i.itail i.icount) : InputSide.Ok { i with reader } := by
  subst standing
  exact { ok with distance := by rw [← ok.distance, lag], reader := arrives }

section

variable (ok : l.input.Ok)
include ok

theorem offer_ok (looping : l.reader = .looping) : l.offer.input.Ok := by
  have standing : l.input.reader = .looping := looping
  have inside : l.rs.itail < rsIbufsize := ok.itail
  unfold Line.offer
  split
  · refine ok.goTo standing rfl ⟨?_, ?_⟩
    · change _ ≤ l.rs.icount
      omega
    · change l.rs.itail + _ ≤ _
      omega
  · exact ok.goTo standing rfl trivial

theorem take_ok {count : Nat} (offered : l.reader = .offered count) (atMost : taken ≤ count) :
    InputSide.Ok { l.input with
      reader := if taken = 0 then .away else .taken taken } := by
  have standing : l.input.reader = .offered count := offered
  have room : count ≤ l.input.icount ∧ l.input.itail + count ≤ rsIbufsize := by
    simpa only [standing, Reader.Ok] using ok.reader
  split
  · exact ok.goTo standing rfl trivial
  · exact ok.goTo standing rfl ⟨by omega, by omega⟩

theorem release_ok (consumed : l.reader = .taken taken) :
    (l.release taken).input.Ok := by
  have room : taken ≤ l.rs.icount ∧ l.rs.itail + taken ≤ rsIbufsize := by
    have ready : l.reader.Ok l.rs.itail l.rs.icount := ok.reader
    rw [consumed] at ready
    exact ready
  have counts : 0 ≤ l.rs.icount ∧ l.rs.icount ≤ rsIbufsize := ok.count
  have released {idevready : Bool} {modemCtl : BitVec 8}
      (told : idevready = false → rsIlowwater ≤ l.rs.icount - taken)
      (raised : idevready = true → modemCtl &&& mcRts ≠ 0) :
      InputSide.Ok { l.input with
        icount := l.rs.icount - taken, idevready, modemCtl, reader := .released taken } := by
    refine ⟨ok.ihead, ok.itail, ⟨by dsimp only; omega, by dsimp only; omega⟩, ?_, told, raised,
      room.2⟩
    have distance : (l.rs.itail + l.reader.lag + l.rs.icount.toNat) % rsIbufsize =
      l.rs.ihead % rsIbufsize := ok.distance
    rw [consumed] at distance
    change (l.rs.itail + taken + (l.rs.icount - taken).toNat) % rsIbufsize = l.rs.ihead % rsIbufsize
    rw [← distance]
    refine congrArg (· % rsIbufsize) ?_
    change _ = l.rs.itail + 0 + _
    omega
  unfold Line.release
  dsimp only
  split
  · exact released (fun waits => by cases waits) fun _ => istart_raised
  · rename_i goes
    refine released (fun waits => ?_) ok.raised
    by_contra low
    exact goes ⟨waits, by omega⟩

theorem retire_ok (behind : l.reader = .released taken) :
    (l.retire taken).input.Ok := by
  have room : l.rs.itail + taken ≤ rsIbufsize := by
    have ready : l.reader.Ok l.rs.itail l.rs.icount := ok.reader
    rw [behind] at ready
    exact ready
  have place : (if l.rs.itail + taken = rsIbufsize then 0 else l.rs.itail + taken) =
      (l.rs.itail + taken) % rsIbufsize := by
    split
    · rename_i wraps
      rw [wraps, Nat.mod_self]
    · exact (Nat.mod_eq_of_lt (by omega)).symm
  have distance : (l.rs.itail + l.reader.lag + l.rs.icount.toNat) % rsIbufsize =
    l.rs.ihead % rsIbufsize := ok.distance
  rw [behind] at distance
  refine ⟨ok.ihead, ?_, ok.count, ?_, ok.told, ok.raised, trivial⟩
  · change (if _ then _ else _) < _
    rw [place]
    exact Nat.mod_lt _ (by decide)
  · change ((if _ then _ else _) + 0 + l.rs.icount.toNat) % rsIbufsize = l.rs.ihead % rsIbufsize
    rw [place, Nat.add_zero, Nat.mod_add_mod]
    exact distance

theorem rsIcancel_ok (away : l.reader = .away) : l.rsIcancel.input.Ok := by
  refine ⟨ok.ihead, ok.ihead, ⟨le_rfl, Int.natCast_nonneg _⟩, ?_, (fun waits => by cases waits),
    fun _ => istart_raised, ?_⟩
  · change (l.rs.ihead + l.reader.lag + 0) % _ = l.rs.ihead % _
    rw [away]
    rfl
  · change l.reader.Ok _ _
    rw [away]
    trivial

end

end Input
end Minix.Kernel.Serial
