/-
This file proves that the reference counts of filps and inodes are right in every state that a run
reaches, and that an open call that fails leaves the descriptors of the caller as they were.

The opening of a FIFO claims a descriptor before it waits for the other end. A signal that ends the
wait does not give the descriptor back (`interrupted_open_keeps_descriptor`); every other failure
does.
-/

import Minix.Fs.Suspended

namespace Minix.Fs

/-- No signal ends the opening of a FIFO. -/
def Awaits (s : State) : Input → Prop
  | .message (.unpause p) => opening s p = false
  | _ => True

/-- `Awaits`, as a value. -/
def awaits (s : State) : Input → Bool
  | .message (.unpause p) => !opening s p
  | _ => true

theorem awaits_iff (s : State) (input : Input) : awaits s input = true ↔ Awaits s input := by
  unfold awaits Awaits
  split <;> simp

instance (s : State) (input : Input) : Decidable (Awaits s input) :=
  decidable_of_iff _ (awaits_iff s input)

/-- Every open call that has failed left the descriptors as they were. -/
def Restored (s : State) : Prop :=
  ∀ failed ∈ s.history.failedOpens, failed.after = failed.before

section Restored

variable {strict : Prop} {s s' : State} {p : Slot}

theorem Restored.same (restored : Restored s)
    (same : s'.history.failedOpens = s.history.failedOpens) : Restored s' := by
  rw [Restored, same]
  exact restored

theorem Apart.failedOpens (apart : Apart p s s') :
    s'.history.failedOpens = s.history.failedOpens :=
  congrArg (fun r => r.2.2) apart.replies

theorem replyPipe_failedOpens (s : State) (whom : Slot) (result : Result) :
    (replyPipe s whom result).history.failedOpens = s.history.failedOpens := by
  unfold replyPipe
  split <;> rfl

theorem Apart.answered_failedOpens {s₁ : State} (apart : Apart p s s₁)
    (answered : s' = s₁ ∨ ∃ result, s' = replyPipe s₁ p result) :
    s'.history.failedOpens = s.history.failedOpens := by
  rcases answered with rfl | ⟨result, rfl⟩
  · exact apart.failedOpens
  · rw [replyPipe_failedOpens]
    exact apart.failedOpens

/-- The messages that have to do with suspended calls, and with processes that come and go. -/
theorem serve_restores (kept : Kept strict s) (restored : Restored s) (calm : s.reviving = 0)
    {m : Message} (stirs : m.calm = false) (contract : Contract s (.message m))
    (disciplined : strict → Disciplined s (.message m)) (awaits : Awaits s (.message m)) :
    Restored (serve s m) := by
  obtain ⟨inv, vacant⟩ := kept
  cases m with
  | «open» p fsCall bits flags path =>
    obtain ⟨-, -, -, -, same | more⟩ := serveOpen_keeps ⟨inv, vacant⟩ contract disciplined
    · exact restored.same same
    · intro failed member
      change failed ∈ (serveOpen (startOpen s p) p fsCall bits flags path).history.failedOpens
        at member
      rw [more] at member
      rcases List.mem_append.mp member with earlier | last
      · exact restored failed earlier
      · obtain rfl := List.mem_singleton.mp last
        rfl
  | readWrite p rwFlag fd buffer nbytes io =>
    have started := startCall_keeps inv contract.2 buffer
    obtain ⟨s₁, -, apart, -, answered⟩ := @serveReadWrite_keeps _ _ p rwFlag fd buffer nbytes io
        started contract.2
      fun _ => by simp [startCall]
    exact restored.same (apart.answered_failedOpens
      (answered.imp_right (.imp fun _ => And.left)))
  | fork parent child =>
    obtain ⟨-, -, -, history⟩ := doFork_keeps inv vacant contract.2 contract.1.2
    exact restored.same (congrArg History.failedOpens history)
  | exit p unlocked =>
    obtain ⟨-, apart, -⟩ := doExit_keeps (setLive_keeps inv p false) calm
      (show (setLive s p false).live p = false by simp [setLive]) unlocked
    exact restored.same apart.failedOpens
  | unpause p =>
    obtain ⟨-, -, -, history⟩ := doUnpause_frame s p
    have resting : opening s p = false := awaits
    refine restored.same ((congrArg History.failedOpens history).trans ?_)
    simp [resting]
  | pipe | close | dupfd | dup2 | setfd | setfl | lock | ioctl | exec | revive | change | chdirMm
  | mount | umount => cases stirs

/-- The step lemma: an open call that fails in a turn of the main loop gives back what it has
claimed. -/
theorem step_restores (kept : Kept strict s) (restored : Restored s) {input : Input}
    (contract : Contract s input) (disciplined : strict → Disciplined s input)
    (awaits : Awaits s input) (stepped : step s input = some s') : Restored s' := by
  cases input with
  | message m =>
    simp only [step] at stepped
    obtain ⟨calm, rfl⟩ := Option.ite_some_none_eq_some.mp stepped
    cases quiet : m.calm with
    | true =>
      obtain ⟨-, p, undisturbed⟩ := serve_calm kept quiet contract disciplined
      exact restored.same undisturbed.toApart.failedOpens
    | false => exact serve_restores kept restored calm quiet contract disciplined awaits
  | revived io lock =>
    obtain ⟨⟨p, s₁⟩, found, resumed⟩ := Option.bind_eq_some_iff.mp stepped
    have inv := getWork_keeps kept.inv found
    have same := (getWork_eq_some found).2
    have resting : (s₁.fproc p).fpSuspended = false := by simp [same]
    have awake : s₁.history.failedOpens = s.history.failedOpens := by rw [same]; rfl
    obtain ⟨-, rfl⟩ | ⟨inCall, rwFlag, call, -, -, rfl⟩ := resume_eq_some kept.inv found resumed
    · obtain ⟨-, undisturbed⟩ := doLock_keeps inv resting (s.fproc p).fpFd.val lock
      exact restored.same (undisturbed.toApart.failedOpens.trans awake)
    · obtain ⟨s₂, -, apart, -, answered⟩ := @serveReadWrite_keeps _ _ p rwFlag
        ((s.fproc p).fpFd.val) ((s.fproc p).fpBuffer) ((s.fproc p).fpNbytes) io inv resting
          fun writing => by
          subst writing
          rw [same]
          exact kept.inv.sources p inCall call
      exact restored.same ((apart.answered_failedOpens
        (answered.imp_right (.imp fun _ => And.left))).trans awake)

end Restored

/-! ### Runs -/

/-- The counts of filps and inodes, and the open calls that have failed. -/
structure Accounted (s : State) : Prop where
  filpCount : ∀ f, (s.filp f).filpCount = References.count s.files.refers f
  iCount : ∀ rip, (s.inode rip).iCount =
    References.count s.files.holds rip + References.count s.keeps rip
  restored : Restored s

/-- What holds between two turns of the main loop if no signal ends the opening of a FIFO. -/
structure Settled (s : State) : Prop extends Kept False s where
  restored : Restored s

theorem Settled.accounted {s : State} (settled : Settled s) : Accounted s :=
  ⟨settled.inv.ends.counted, settled.inv.ends.users, settled.restored⟩

/-- Every filp counts the descriptors that refer to it, and every inode the filps, directories and
mounted file systems that do. If no signal ends the opening of a FIFO, an open call that fails
leaves the descriptors as they were. -/
theorem references_counted {inputs : List Input} {s : State}
    (run : Reaches (fun s input => Contract s input ∧ Awaits s input) inputs s) : Accounted s := by
  have settled : Settled s :=
    Transition.Run.invariant ⟨fsInit_keeps, fun _ none => by cases none⟩
      (fun s input _ ⟨kept, restored⟩ ⟨contract, awaits⟩ stepped =>
        ⟨step_keeps kept contract (fun never => never.elim) stepped,
          step_restores kept restored contract (fun never => never.elim) awaits stepped⟩) run
  exact settled.accounted

/-- A process opens a FIFO to write to it, without waiting for a reader. -/
def refused : List Input :=
  [.message (.open 2 .open (endMode .writing) { nonblock := true } (.ok (⟨5, 0⟩, .fifo)))]

/-- A FIFO that nobody reads is not opened, and every reference is accounted for. -/
theorem references_counted_refused : ∃ s,
    Reaches (fun s input => Contract s input ∧ Awaits s input) refused s ∧
      s.history.failedOpens.length = 1 ∧ Accounted s := by
  have executed : (Transition.execute step (fun s input => Contract s input ∧ Awaits s input)
      refused fsInit).map (fun s => s.history.failedOpens.length) = some 1 := by
    decide
  obtain ⟨s, executed, failed⟩ := Option.map_eq_some_iff.mp executed
  have run : Reaches (fun s input => Contract s input ∧ Awaits s input) refused s :=
    .of_execute executed
  exact ⟨s, run, failed, references_counted run⟩

/-- A process opens a FIFO to read from it, and is interrupted while it waits for a writer. -/
def interruptedOpen : List Input :=
  [.message (.open 2 .open (endMode .reading) {} (.ok (⟨5, 0⟩, .fifo))), .message (.unpause 2)]

/-- Its descriptor still refers to the FIFO. -/
theorem interrupted_open_keeps_descriptor :
    ¬ ∀ inputs s, Reaches Contract inputs s → Accounted s := by
  intro accounted
  have executed : (Transition.execute step Contract interruptedOpen fsInit).map (fun s =>
      s.history.failedOpens.map fun failed => (failed.before 0, failed.after 0)) =
        some [(none, some 0)] := by
    decide
  obtain ⟨s, executed, found⟩ := Option.map_eq_some_iff.mp executed
  obtain ⟨failed, failures, same⟩ := List.map_eq_singleton_iff.mp found
  have restored := (accounted interruptedOpen s (.of_execute executed)).restored failed
    (by rw [failures]; exact List.mem_singleton_self _)
  obtain ⟨before, after⟩ := Prod.mk.inj same
  rw [restored, before] at after
  cases after

end Minix.Fs
