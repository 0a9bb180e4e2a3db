/-
This file states what the counters `susp_count` and `reviving` count, and when a process stays
suspended on a pipe.

Writers are woken when a reader finds the pipe empty, and not by the reader that has emptied it, so
a writer may stay suspended although there is room for it (`writer_not_woken`). What holds is that
no writer waits while a reader does.
-/

import Minix.Fs.Runs

namespace Minix.Fs

/-! ### Deciding what the senders guarantee -/

instance (s : State) (input : Input) : Decidable (Contract s input) := by
  unfold Contract
  split <;> try infer_instance
  · split <;> infer_instance
  · split <;> infer_instance

instance (s : State) (input : Input) : Decidable (Disciplined s input) := by
  unfold Disciplined
  split
  · infer_instance
  · split <;> infer_instance
  · infer_instance

/-! ### The counters -/

section Counters

variable {s : State}

/-- A process that is suspended on a pipe or in the opening of a FIFO, and is not being revived. -/
def Hangs (s : State) (p : Slot) : Prop :=
  (s.fproc p).fpSuspended = true ∧ (s.fproc p).fpRevived = false ∧
    ((s.fproc p).fpTask = .xpipe ∨ (s.fproc p).fpTask = .xpopen)

instance (s : State) : DecidablePred (Hangs s) := fun p => by unfold Hangs; infer_instance

theorem size_waits (queue : Queue s) :
    References.size s.waits = (Finset.univ.filter (Hangs s)).card := by
  unfold References.size
  congr 1
  ext p
  simp [waits_isSome queue p, Hangs, and_assoc]

theorem size_revives : References.size s.revives =
    (Finset.univ.filter fun p => (s.fproc p).fpRevived = true).card := by
  unfold References.size
  congr 1
  ext p
  simp [State.revives]

end Counters

/-! ### No process waits in vain -/

/-- The counters count, and a process that is suspended on a pipe cannot go on. -/
structure Punctual (s : State) : Prop where
  suspCount : s.suspCount = (Finset.univ.filter (Hangs s)).card
  reviving : s.reviving = (Finset.univ.filter fun p => (s.fproc p).fpRevived = true).card
  reader : ∀ p rip, s.waits p = some (rip, .transfer .reading) →
    (s.inode rip).iSize = 0 ∧ s.HasEnd rip .writing
  writer : ∀ p rip, s.waits p = some (rip, .transfer .writing) →
    s.HasEnd rip .reading ∧ pipeSize < (s.inode rip).iSize + (s.fproc p).fpNbytes
  opener : ∀ p rip bits, s.waits p = some (rip, .opening bits) → ¬ s.HasEnd rip bits.other

/-- In every run `reviving` counts the processes that are being revived, and `susp_count` those that
hang, as long as none of them has been interrupted. If FIFOs are opened one way only, a reader waits
for an empty pipe that somebody can write, a writer for a pipe that somebody can read and nobody
waits to read, and who opens a FIFO for an end that nobody has open. -/
theorem suspension_bookkeeping {inputs : List Input} {s : State} (run : Reaches Contract inputs s) :
    s.reviving = (Finset.univ.filter fun p => (s.fproc p).fpRevived = true).card ∧
      (s.history.interrupted = 0 → s.suspCount = (Finset.univ.filter (Hangs s)).card) ∧
      (Reaches (fun s input => Contract s input ∧ Disciplined s input) inputs s →
        (∀ p rip, s.waits p = some (rip, .transfer .reading) →
          (s.inode rip).iSize = 0 ∧ s.HasEnd rip .writing) ∧
        (∀ p rip, s.waits p = some (rip, .transfer .writing) →
          s.HasEnd rip .reading ∧ ∀ q, s.waits q ≠ some (rip, .transfer .reading)) ∧
        ∀ p rip bits, s.waits p = some (rip, .opening bits) → ¬ s.HasEnd rip bits.other) := by
  have queue := (@Reaches.kept False _ _ _ (fun _ _ contract => contract)
    (fun never => never.elim) run).inv.queue
  refine ⟨?_, fun undisturbed => ?_, fun disciplined => ?_⟩
  · rw [queue.reviving, size_revives]
  · rw [queue.suspCount, size_waits queue, undisturbed]
    simp
  · have waiting := (@Reaches.kept True _ _ _ (fun _ _ allowed => allowed.1)
      (fun _ _ _ allowed => allowed.2) disciplined).inv.waiting trivial
    exact ⟨fun p rip waits => waiting p _ waits id, fun p rip waits => waiting p _ waits id,
      fun p rip bits waits => waiting p _ waits id⟩

/-- A process makes a pipe, and its child waits to read from it. -/
def readerWaits : List Input :=
  [.message (.pipe 2 0 (.ok 5)), .message (.fork 2 3),
    .message (.readWrite 3 .reading 0 (fun _ => 0) 10 {})]

/-- A reader waits at an empty pipe, and is counted. -/
theorem suspension_bookkeeping_reader : ∃ s, Reaches Contract readerWaits s ∧
    s.waits 3 = some (5, .transfer .reading) ∧
      s.reviving = (Finset.univ.filter fun p => (s.fproc p).fpRevived = true).card ∧
      s.suspCount = (Finset.univ.filter (Hangs s)).card ∧
      (s.inode 5).iSize = 0 ∧ s.HasEnd 5 .writing := by
  have executed : (Transition.execute step (fun s input => Contract s input ∧ Disciplined s input)
      readerWaits fsInit).map (fun s => (s.waits 3, s.history.interrupted)) =
        some (some (5, .transfer .reading), 0) := by
    decide
  obtain ⟨s, executed, found⟩ := Option.map_eq_some_iff.mp executed
  obtain ⟨waits, undisturbed⟩ := Prod.mk.inj found
  have disciplined := Transition.Run.of_execute executed
  have run : Reaches Contract readerWaits s :=
    disciplined.weaken fun _ _ _ allowed => allowed.1
  obtain ⟨reviving, suspCount, vain⟩ := suspension_bookkeeping run
  obtain ⟨reader, -⟩ := vain disciplined
  exact ⟨s, run, waits, reviving, suspCount undisturbed, reader 3 5 waits⟩

/-- A pipe is filled by one process, so that the write of a second is suspended; a third one empties
the pipe. -/
def emptied : List Input :=
  [.message (.pipe 2 0 (.ok 5)), .message (.fork 2 3), .message (.fork 2 4),
    .message (.readWrite 2 .writing 1 (fun _ => 0) 7168 {}),
    .message (.readWrite 3 .writing 1 (fun _ => 0) 10 {}),
    .message (.readWrite 4 .reading 0 (fun _ => 0) 7168 {})]

/-- The second writer is still suspended, though there is room for its bytes. -/
theorem writer_not_woken : ¬ ∀ inputs s, Reaches Contract inputs s → Punctual s := by
  intro punctual
  have executed : (Transition.execute step Contract emptied fsInit).map (fun s =>
      (s.waits 3, (s.inode 5).iSize, (s.fproc 3).fpNbytes)) =
        some (some (5, .transfer .writing), 0, 10) := by
    decide
  obtain ⟨s, executed, found⟩ := Option.map_eq_some_iff.mp executed
  simp only [Prod.mk.injEq] at found
  obtain ⟨waits, size, bytes⟩ := found
  have full := ((punctual emptied s (.of_execute executed)).writer 3 5 waits).2
  rw [size, bytes] at full
  exact absurd full (by decide)

end Minix.Fs
