/-
This file models how MM replaces the image of a process (`mm/exec.c`): `do_exec` with `read_header`,
`find_share` and `new_mem`.

What FS and the kernel answer is an input of the call, and so is what `patch_stack` makes of the
first line of a script. `new_mem` sets a flag through a pointer that nobody has set; where it points
is an input too. The loading of the file, which follows the point of no return, is left out. A
result that is `none` is a panic.
-/

import Minix.Mm.Break
import Minix.Mm.MemoryRuns

namespace Minix.Mm

open Function (update update_of_ne update_self)
open Option (some.inj bind_eq_some_iff map_eq_some_iff)
open Kernel (nrProcs clickSize MemSeg SegMap)

/-- `ARG_MAX` -/
def argMax : Nat := 16384

/-- `PATH_MAX` -/
def pathMax : Nat := 255

/-! ### The header -/

/-- `struct exec`, the header of an executable file, as far as it is read. -/
structure ExecHeader where
  magic : UInt8 × UInt8
  flags : UInt8 := 0
  cpu : UInt8 := 0
  text : UInt32 := 0
  data : UInt32 := 0
  bss : UInt32 := 0
  total : UInt32 := 0
deriving DecidableEq

/-- `A_MINHDR` -/
def aMinhdr : Int := 32

/-- `A_I80386` -/
def aI80386 : UInt8 := 0x10

/-- `A_SEP` -/
def aSep : UInt8 := 0x20

/-- `~(A_NSYM | A_EXEC | A_SEP)` -/
def unknownFlags : UInt8 := 0xcb

/-- The sizes in a header, which are words. -/
structure Sizes where
  separate : Bool
  textBytes : Nat
  dataBytes : Nat
  bssBytes : Nat
  totBytes : Nat
deriving DecidableEq

/-- Why a header is not taken. -/
inductive BadHeader
  | escript
  | enoexec
  | enomem
deriving DecidableEq

/-- The clicks that a number of bytes takes. -/
def clicks (bytes : Nat) : Nat := Word.add 32 bytes (clickSize - 1) / clickSize

/-- `read_header`, when `got` bytes could be read. -/
def readHeader (got : Int) (hdr : ExecHeader) (sc : Nat) : Except BadHeader Sizes :=
  if got < 2 then .error .enoexec
  else if hdr.magic = (35, 33) then .error .escript
  else if got ≠ aMinhdr then .error .enoexec
  else if hdr.magic ≠ (1, 3) then .error .enoexec
  else if hdr.cpu ≠ aI80386 then .error .enoexec
  else if hdr.flags &&& unknownFlags ≠ 0 then .error .enoexec
  else if hdr.total = 0 then .error .enoexec
  else
    let separate := decide (hdr.flags &&& aSep ≠ 0)
    let sizes : Sizes :=
      { separate
        textBytes := if separate then hdr.text.toNat else 0
        dataBytes := if separate then hdr.data.toNat
          else Word.add 32 hdr.data.toNat hdr.text.toNat
        bssBytes := hdr.bss.toNat
        totBytes := hdr.total.toNat }
    let tc := clicks sizes.textBytes
    let dc := clicks (Word.add 32 sizes.dataBytes sizes.bssBytes)
    let totc := clicks sizes.totBytes
    if totc ≤ dc then .error .enoexec
    else
      let dvir := if separate then 0 else tc
      let sVir := Word.add 32 dvir (Word.sub 32 totc sc)
      if sizeOk dc dvir sVir then .ok sizes else .error .enomem

/-! ### The call -/

/-- What `do_exec` returns when it fails. -/
inductive ExecError
  | enomem
  | einval
  | eacces
  | enoexec
  | copying (r : Int)
  | denied (fd : Int)
deriving DecidableEq

/-- What is found under a name: whether the file may be executed, which file it is, its header, and
the new size of the stack, with whether there is an interpreter, if it is a script. -/
structure Found where
  fd : Int
  ino : Nat := 0
  dev : Nat := 0
  ctime : Nat := 0
  got : Int
  hdr : ExecHeader
  patched : UInt32 × Bool := (0, false)
deriving DecidableEq

/-- The call, with the answers that it gets: the results of the two copies from the caller, what is
found under the name and under the one in the script, and where the pointer of `new_mem` points. -/
structure ExecCall where
  who : Fin nrProcs
  stackBytes : UInt32
  execLen : Int
  fetchName : Int := 0
  fetchStack : Int := 0
  file : Found
  interpreter : Found
  stray : Option (Fin nrProcs)
deriving DecidableEq

/-- The file that is to be loaded, and the stack. -/
structure Image where
  file : Found
  sizes : Sizes
  stkBytes : Nat
deriving DecidableEq

/-- The header is not taken. -/
def headerError (stkBytes : Nat) : ExecError := if argMax < stkBytes then .enomem else .enoexec

/-- A turn of the loop of `do_exec`, which opens a file and reads its header. -/
def tryFile (found : Found) (stkBytes : Nat) : Except ExecError (Except BadHeader Image) :=
  if found.fd < 0 then .error (.denied found.fd)
  else
    .ok ((readHeader found.got found.hdr (clicks stkBytes)).map fun sizes =>
      { file := found, sizes, stkBytes })

namespace ExecCall

/-- The loop of `do_exec`. The interpreter of a script may not be a script. -/
def lookUp (call : ExecCall) : Except ExecError Image :=
  match tryFile call.file call.stackBytes.toNat with
  | .error e => .error e
  | .ok (.ok image) => .ok image
  | .ok (.error .escript) =>
    let stkBytes := call.file.patched.1.toNat
    if call.file.patched.2 = false then .error (headerError stkBytes)
    else
      match tryFile call.interpreter stkBytes with
      | .error e => .error e
      | .ok (.ok image) => .ok image
      | .ok (.error _) => .error (headerError stkBytes)
  | .ok (.error _) => .error (headerError call.stackBytes.toNat)

/-- What `do_exec` does before it looks at the tables. -/
def prepare (call : ExecCall) : Except ExecError Image :=
  if argMax < call.stackBytes.toNat then .error .enomem
  else if call.execLen ≤ 0 ∨ pathMax < call.execLen then .error .einval
  else if call.fetchName ≠ 0 then .error (.copying call.fetchName)
  else if call.fetchStack ≠ 0 then .error .eacces
  else call.lookUp

end ExecCall

namespace Memory

/-- `find_share` -/
def findShare (k : Memory) (ignore : Fin nrProcs) (ino dev ctime : Nat) : Option (Fin nrProcs) :=
  users.find? fun p =>
    (k.mproc p).separate && p ≠ ignore && (k.mproc p).ino = ino && (k.mproc p).dev = dev &&
      (k.mproc p).ctime = ctime

/-- `rmp->mp_flags |= WAITING` -/
def setWaiting (k : Memory) (rmp : Option (Fin nrProcs)) : Memory :=
  match rmp with
  | none => k
  | some rmp => { k with mproc := update k.mproc rmp { k.mproc rmp with waiting := true } }

/-- The new map of a process. -/
def newSeg (sharedText : Option MemSeg)
    (newBase textClicks dataClicks gapClicks stackClicks : Nat) : SegMap :=
  let data : MemSeg := { vir := 0, phys := Word.add 32 newBase textClicks, len := dataClicks }
  { text := sharedText.getD { vir := 0, phys := newBase, len := textClicks }
    data
    stack :=
      { vir := Word.add 32 dataClicks gapClicks
        phys := Word.add 32 (Word.add 32 data.phys dataClicks) gapClicks
        len := stackClicks } }

/-- The old image of a process is given up, and its memory is free. -/
def releaseImage (k : Memory) (mp : Fin nrProcs) : Option Memory :=
  let rmp := k.mproc mp
  let text := match k.findShare mp rmp.ino rmp.dev rmp.ctime with
    | none => k.freeMem rmp.seg.text.phys rmp.seg.text.len
    | some _ => some k
  text.bind fun k => k.freeMem rmp.seg.data.phys rmp.size

/-- `new_mem` -/
def newMem (k : Memory) (mp : Fin nrProcs) (shMp : Option (Fin nrProcs)) (sizes : Sizes)
    (stkBytes : Nat) (stray : Option (Fin nrProcs)) : Option (Memory × Except ExecError Unit) :=
  let textBytes := if shMp.isSome then 0 else sizes.textBytes
  let k := k.setWaiting stray
  let textClicks := clicks textBytes
  let dataClicks := clicks (Word.add 32 sizes.dataBytes sizes.bssBytes)
  let stackClicks := clicks stkBytes
  let totClicks := clicks sizes.totBytes
  let gapClicks := Word.sub 32 (Word.sub 32 totClicks dataClicks) stackClicks
  if long gapClicks < 0 then some (k, .error .enomem)
  else
    (k.allocMem (Word.add 32 textClicks totClicks)).bind fun (k, newBase) =>
      if newBase = noMem then some (k, .error .enomem)
      else
        (k.releaseImage mp).map fun k =>
          let seg := newSeg (shMp.map fun shMp => (k.mproc shMp).seg.text) newBase textClicks
            dataClicks gapClicks stackClicks
          ({ k with
              mproc := update k.mproc mp
                { k.mproc mp with seg, waiting := false, onswap := false, swapin := false } },
            .ok ())

/-- `do_exec`. The answer `.ok` is `SUSPEND`. -/
def doExec (k : Memory) (call : ExecCall) : Option (Memory × Except ExecError Unit) :=
  match call.prepare with
  | .error e => some (k, .error e)
  | .ok image =>
    let shMp := k.findShare call.who image.file.ino image.file.dev image.file.ctime
    (k.newMem call.who shMp image.sizes image.stkBytes call.stray).map fun (k, r) =>
      match r with
      | .error e => (k, .error e)
      | .ok () =>
        ({ k with
            mproc := update k.mproc call.who
              { k.mproc call.who with
                ino := image.file.ino
                dev := image.file.dev
                ctime := image.file.ctime
                separate := image.sizes.separate } },
          .ok ())

/-! ### What a call that fails leaves behind -/

/-- The two entries differ at most in `WAITING`. -/
def Mproc.SameButWaiting (rmp rmp' : Mproc) : Prop :=
  { rmp' with waiting := rmp.waiting } = rmp

/-- The process has been sent to the swap area. -/
def Mproc.SentOut (rmp rmp' : Mproc) : Prop :=
  rmp.onswap = false ∧ ∃ newBase,
    ({ rmp.moved newBase with onswap := true } : Mproc).SameButWaiting rmp'

/-- Processes are sent to the swap area, one after the other, each to a hole there. -/
inductive SwappedOut : Memory → Memory → Prop
  | refl {k : Memory} : SwappedOut k k
  | send {k middle k' : Memory} {rmp : Fin nrProcs} {holes : HoleTable (2 * nrProcs)}
      {newBase : Nat} (able : (k.mproc rmp).candidate = true)
      (found : k.holes.swapFit k.swapBase (k.mproc rmp).size = some (some (holes, newBase)))
      (sent : k.sendOut rmp holes newBase = some middle) (rest : SwappedOut middle k') :
      SwappedOut k k'

section SwappedOut

variable {k k' middle : Memory} {fuel : Nat} {p : Fin nrProcs}

theorem SwappedOut.trans (first : SwappedOut k middle) (second : SwappedOut middle k') :
    SwappedOut k k' := by
  induction first with
  | refl => exact second
  | send able found sent _ inductionHypothesis =>
    exact .send able found sent (inductionHypothesis second)

theorem onswap_of_candidate {rmp : Mproc} (able : rmp.candidate = true) : rmp.onswap = false := by
  simp only [Mproc.candidate, Bool.and_eq_true, Bool.not_eq_true', Bool.or_eq_false_iff] at able
  exact able.2.2

theorem swappedOut_of_swapOutFrom (done : k.swapOutFrom fuel p = some (some k')) :
    SwappedOut k k' := by
  induction fuel generalizing p with
  | zero => cases done
  | succ fuel inductionHypothesis =>
    have again (done' : (if nextUser p = k.outswap then some none
        else k.swapOutFrom fuel (nextUser p)) = some (some k')) : SwappedOut k k' := by
      split at done'
      · simp at done'
      · exact inductionHypothesis done'
    rw [swapOutFrom] at done
    split at done
    case isTrue able =>
      obtain ⟨found, fits, done⟩ := bind_eq_some_iff.mp done
      cases found with
      | none => exact again done
      | some found =>
        obtain ⟨middle, sent, same⟩ := map_eq_some_iff.mp done
        obtain rfl := some.inj same
        exact .send able fits sent .refl
    case isFalse => exact again done

/-- When there is no memory, processes may have been sent to the swap area all the same. A hole at
address 0 is taken for none. -/
theorem swappedOut_of_allocLoop {clicks : Nat} (done : allocLoop clicks fuel k = some (k', noMem)) :
    ∃ middle, SwappedOut k middle ∧ k'.mproc = middle.mproc ∧
      (k' = middle ∨
        middle.holes.firstFit middle.swapBase clicks = some (some (k'.holes, noMem))) := by
  induction fuel generalizing k with
  | zero => cases done
  | succ fuel inductionHypothesis =>
    rw [allocLoop] at done
    obtain ⟨found, fits, done⟩ := bind_eq_some_iff.mp done
    cases found with
    | some found =>
      obtain ⟨rfl, base⟩ := Prod.mk.inj (some.inj done)
      refine ⟨k, .refl, rfl, .inr ?_⟩
      rw [fits, ← base]
    | none =>
      obtain ⟨swapped, out, done⟩ := bind_eq_some_iff.mp done
      cases swapped with
      | none =>
        obtain ⟨rfl, -⟩ := Prod.mk.inj (some.inj done)
        exact ⟨k, .refl, rfl, .inl rfl⟩
      | some next =>
        obtain ⟨middle, rest, same, ends⟩ := inductionHypothesis done
        exact ⟨middle, (swappedOut_of_swapOutFrom out).trans rest, same, ends⟩

theorem SwappedOut.entries (swapped : SwappedOut k k') (p : Fin nrProcs) :
    k'.mproc p = k.mproc p ∨ (k.mproc p).onswap = false ∧
      ∃ newBase, k'.mproc p = { (k.mproc p).moved newBase with onswap := true } := by
  induction swapped with
  | refl => exact .inl rfl
  | @send k middle k' rmp holes newBase able found sent rest inductionHypothesis =>
    obtain ⟨holes', -, rfl⟩ := map_eq_some_iff.mp sent
    dsimp only at inductionHypothesis
    by_cases same : p = rmp
    · subst same
      rw [update_self] at inductionHypothesis
      refine .inr ⟨onswap_of_candidate able, newBase,
        inductionHypothesis.resolve_right fun again => ?_⟩
      exact absurd again.1 (by simp)
    · rwa [update_of_ne same] at inductionHypothesis

theorem SwappedOut.eq_of_same (swapped : SwappedOut k k')
    (same : ∀ p, (k'.mproc p).onswap = (k.mproc p).onswap) : k' = k := by
  cases swapped with
  | refl => rfl
  | @send _ middle _ rmp holes newBase able found sent rest =>
    obtain ⟨holes', -, rfl⟩ := map_eq_some_iff.mp sent
    have sentOut := rest.entries rmp
    dsimp only at sentOut
    rw [update_self] at sentOut
    rcases sentOut with stays | ⟨off, -⟩
    · have changed := same rmp
      rw [stays, onswap_of_candidate able] at changed
      cases changed
    · cases off

end SwappedOut

section Failing

variable {k k' : Memory} {call : ExecCall} {e : ExecError}

theorem setWaiting_mproc (stray : Option (Fin nrProcs)) (p : Fin nrProcs) :
    (k.mproc p).SameButWaiting ((k.setWaiting stray).mproc p) := by
  cases stray with
  | none => rfl
  | some rmp =>
    by_cases same : p = rmp
    · have entry : (k.setWaiting (some rmp)).mproc p = { k.mproc p with waiting := true } := by
        subst same
        exact update_self ..
      rw [entry]
      rfl
    · have entry : (k.setWaiting (some rmp)).mproc p = k.mproc p := update_of_ne same ..
      rw [entry]
      rfl

theorem setWaiting_holes (stray : Option (Fin nrProcs)) :
    (k.setWaiting stray).holes = k.holes ∧ (k.setWaiting stray).swapBase = k.swapBase := by
  cases stray with
  | none => exact ⟨rfl, rfl⟩
  | some rmp => exact ⟨rfl, rfl⟩

/-- A hole at address 0 is taken from the list, which the caller takes for no memory. -/
def TakesZero (k : Memory) (holes : HoleTable (2 * nrProcs)) : Prop :=
  ∃ clicks, k.holes.firstFit k.swapBase clicks = some (some (holes, noMem))

/-- How a call that fails leaves the tables. But for `WAITING`, an entry is as it was, or its
process has been sent to the swap area. The list of holes is as it was, unless some have been sent
there, each to a hole that `swap_out` found. -/
structure FailedExec (k k' : Memory) : Prop where
  entries : ∀ p, (k.mproc p).SameButWaiting (k'.mproc p) ∨ (k.mproc p).SentOut (k'.mproc p)
  holes : (∀ p, (k'.mproc p).onswap = (k.mproc p).onswap) →
    k'.holes = k.holes ∨ k.TakesZero k'.holes
  swaps : ∃ first middle, first.holes = k.holes ∧
    (∀ p, (k.mproc p).SameButWaiting (first.mproc p)) ∧ SwappedOut first middle ∧
      (k'.holes = middle.holes ∨ middle.TakesZero k'.holes)

theorem failedExec_of_swappedOut {stray : Option (Fin nrProcs)} {middle : Memory}
    (swapped : SwappedOut (k.setWaiting stray) middle) (mproc : k'.mproc = middle.mproc)
    (ends : k'.holes = middle.holes ∨ middle.TakesZero k'.holes) : FailedExec k k' where
  entries p := by
    have waits := @setWaiting_mproc k stray p
    rw [mproc]
    rcases swapped.entries p with same | ⟨onswap, newBase, same⟩
    · exact .inl (by rwa [same])
    · refine .inr ⟨?_, newBase, ?_⟩
      · rw [← waits]
        exact onswap
      · rw [same, Mproc.SameButWaiting, Mproc.moved, Mproc.moved, ← waits]
  holes same := by
    obtain ⟨holes, swapBase⟩ := @setWaiting_holes k stray
    have nobody : middle = k.setWaiting stray := swapped.eq_of_same fun p => by
      rw [← mproc, same p, ← @setWaiting_mproc k stray p]
    rw [nobody] at ends
    rcases ends with stays | ⟨clicks, taken⟩
    · exact .inl (stays.trans holes)
    · rw [holes, swapBase] at taken
      exact .inr ⟨clicks, taken⟩
  swaps := ⟨k.setWaiting stray, middle, setWaiting_holes stray |>.1, setWaiting_mproc stray,
    swapped, ends⟩

theorem newMem_error {mp : Fin nrProcs} {shMp stray : Option (Fin nrProcs)} {sizes : Sizes}
    {stkBytes : Nat} (failed : k.newMem mp shMp sizes stkBytes stray = some (k', .error e)) :
    FailedExec k k' := by
  rw [newMem] at failed
  split at failed
  · obtain ⟨rfl, -⟩ := Prod.mk.inj (some.inj failed)
    exact failedExec_of_swappedOut .refl rfl (.inl rfl)
  · obtain ⟨⟨k₁, newBase⟩, allocated, failed⟩ := bind_eq_some_iff.mp failed
    dsimp only at failed
    split at failed
    case isTrue noMemory =>
      obtain ⟨rfl, -⟩ := Prod.mk.inj (some.inj failed)
      subst noMemory
      obtain ⟨middle, swapped, mproc, ends⟩ := swappedOut_of_allocLoop allocated
      exact failedExec_of_swappedOut swapped mproc
        (ends.imp (congrArg Memory.holes) fun taken => ⟨_, taken⟩)
    case isFalse =>
      obtain ⟨k₂, -, done⟩ := map_eq_some_iff.mp failed
      cases congrArg Prod.snd done

/-- Of 300 clicks 250 are in use, 100 of them by process 5, which waits. -/
def crowded : Option Memory :=
  (memInit [(1000, 300)]).bind fun k =>
    (k.allocMem 100).bind fun first =>
      (first.1.allocMem 150).bind fun second =>
        (second.1.swapOn true 512000).map fun done => { done.1 with mproc := Session.waiter }

/-- A program of 200 clicks. -/
def tooLarge : ExecCall where
  who := ⟨6, by decide⟩
  stackBytes := 100
  execLen := 4
  file :=
    { fd := 3
      got := 32
      hdr := { magic := (1, 3), flags := 0x10, cpu := 0x10, data := 1000, total := 204800 } }
  interpreter := { fd := -2, got := 0, hdr := { magic := (0, 0) } }
  stray := none

end Failing

end Memory

end Minix.Mm
