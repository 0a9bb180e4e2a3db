/-
This file relates the kernel's count of unfinished signals to what MM has been told and has
acknowledged.

`Books` is the relation between the ledger of the kernel and the place of MM in `do_ksig`. Every
event of the ledger and every step of MM keeps it, as long as `do_ksig` meets no cancelled alarm:
that one signal is dropped without `sys_endsig`, and the process it was sent to stays blocked.
-/

import Minix.Mm.Signal

namespace Minix.Mm

open Function (update update_of_ne update_self update_eq_self update_idem)
open Option (some.inj bind_eq_some_iff map_eq_some_iff ite_none_left_eq_some ite_none_right_eq_some)
open Kernel

/-! ### The signals in the hands of MM -/

/-- The number of signals of a process that MM has yet to acknowledge on its way through
`do_ksig`. -/
def Work.outstanding : Work → Slot → Nat
  | .call, _ => 0
  | .ksig procNr sigMap, p => if p = procNr then sigMap.card else 0
  | .loop procNr sigMap signals, p =>
    if p = procNr then signals.countP (· ∈ sigMap) else 0
  | .checkSig procNr sigMap signals, p =>
    if p = procNr then signals.countP (· ∈ sigMap) + 1 else 0

/-- The process whose signals MM has in its hands. -/
def Work.procNr : Work → Option Slot
  | .call => none
  | .ksig procNr _ => some procNr
  | .loop procNr .. => some procNr
  | .checkSig procNr .. => some procNr

/-- The signal numbers that the loop of `do_ksig` runs through. -/
def InRange (signals : Finset Nat) : Prop := ∀ sigNr ∈ signals, 1 ≤ sigNr ∧ sigNr ≤ nsig

theorem countP_range {sigMap : Finset Nat} (range : InRange sigMap) :
    (List.range' 1 nsig).countP (· ∈ sigMap) = sigMap.card := by
  rw [List.countP_eq_length_filter]
  have nodup : ((List.range' 1 nsig).filter (· ∈ sigMap)).Nodup :=
    List.Nodup.filter _ List.nodup_range'
  rw [← List.toFinset_card_of_nodup nodup]
  congr 1
  ext sigNr
  simp only [List.mem_toFinset, List.mem_filter, List.mem_range'_1, decide_eq_true_eq]
  constructor
  · exact And.right
  · intro member
    have bounds := range sigNr member
    exact ⟨⟨bounds.1, by omega⟩, member⟩

/-! ### The books -/

/-- How the account of one process agrees with MM's table, with the signals that MM has yet to
acknowledge and with the record. -/
structure Book (account : Account) (alive : Bool) (outstanding unacknowledged : Nat) : Prop where
  balanced : account.unfinished = account.signals.card + unacknowledged
  told : unacknowledged = if account.user = true then outstanding else 0
  range : InRange account.signals
  alive : account.user = true → alive = true

/-- How the ledger, MM's table, MM's place in its program and the record agree. -/
structure Books (ledger : Ledger) (mproc : Slot → Mproc) (work : Work)
    (unacknowledged : Slot → Nat) : Prop where
  book : ∀ p, Book (ledger.account p) (mproc p).alive (work.outstanding p) (unacknowledged p)
  message : ∀ procNr sigMap, work = .ksig procNr sigMap → InRange sigMap

namespace Books

variable {ledger : Ledger} {mproc : Slot → Mproc} {work : Work} {unacknowledged : Slot → Nat}
  {p : Slot} {sigNr : Nat} {sigMap : Finset Nat} {signals : List Nat}

theorem caused (books : Books ledger mproc work unacknowledged)
    (fresh : ledger.Legal (.caused p sigNr)) (inRange : 1 ≤ sigNr ∧ sigNr ≤ nsig) :
    Books (ledger.apply (.caused p sigNr)) mproc work unacknowledged where
  book q := by
    have before := books.book q
    by_cases same : q = p
    · subst same
      refine ⟨?_, ?_, fun other member => ?_, ?_⟩
      · have balanced := before.balanced
        simp only [Ledger.apply, update_self, Finset.card_insert_of_notMem fresh.2]
        omega
      · simpa [Ledger.apply] using before.told
      · simp only [Ledger.apply, update_self, Finset.mem_insert] at member
        rcases member with rfl | member
        · exact inRange
        · exact before.range other member
      · simpa [Ledger.apply] using before.alive
    · simpa [Ledger.apply, same] using before
  message := books.message

theorem none (books : Books ledger mproc .call unacknowledged) (p : Slot) :
    unacknowledged p = 0 := by
  simpa [Work.outstanding] using (books.book p).told

theorem informed (books : Books ledger mproc .call unacknowledged)
    (user : (ledger.account p).user = true) :
    Books (ledger.apply (.informed p)) mproc (.ksig p (ledger.account p).signals)
      (update unacknowledged p
        (unacknowledged p + (ledger.account p).signals.card)) where
  book q := by
    have before := books.book q
    have none := books.none q
    by_cases same : q = p
    · subst same
      refine ⟨?_, ?_, by simp [Ledger.apply, InRange], by simpa [Ledger.apply] using before.alive⟩
      · have balanced := before.balanced
        simp only [Ledger.apply, update_self, Finset.card_empty]
        omega
      · simp [Ledger.apply, user, Work.outstanding, none]
    · simpa [Ledger.apply, same, Work.outstanding] using before
  message procNr sigMap same := by
    obtain ⟨rfl, rfl⟩ := Work.ksig.inj same
    exact (books.book p).range

/-- MM moves on in its program, and the number of signals in its hands stays. -/
theorem moves {work' : Work} (books : Books ledger mproc work unacknowledged)
    (same : ∀ p, (ledger.account p).user = true → work'.outstanding p = work.outstanding p)
    (message : ∀ procNr sigMap, work' = .ksig procNr sigMap → InRange sigMap) :
    Books ledger mproc work' unacknowledged where
  book q := by
    have before := books.book q
    refine { before with told := ?_ }
    rw [before.told]
    by_cases user : (ledger.account q).user = true
    · rw [if_pos user, if_pos user, same q user]
    · rw [if_neg user, if_neg user]
  message := message

theorem table {mproc' : Slot → Mproc} (books : Books ledger mproc work unacknowledged)
    (alive : ∀ p, (mproc p).alive = true → (mproc' p).alive = true) :
    Books ledger mproc' work unacknowledged where
  book q := { books.book q with alive := fun user => alive q ((books.book q).alive user) }
  message := books.message

theorem ended (books : Books ledger mproc (.checkSig p sigMap signals) unacknowledged)
    (user : (ledger.account p).user = true) :
    Books (ledger.apply (.ended p)) mproc (.loop p sigMap signals)
      (update unacknowledged p (unacknowledged p - 1)) where
  book q := by
    have before := books.book q
    by_cases same : q = p
    · subst same
      have told := before.told
      rw [if_pos user] at told
      simp only [Work.outstanding, if_true] at told
      refine ⟨?_, ?_, by simpa [Ledger.apply] using before.range,
        by simpa [Ledger.apply] using before.alive⟩
      · have balanced := before.balanced
        simp only [Ledger.apply, update_self]
        omega
      · simp [Ledger.apply, user, Work.outstanding, told]
    · simpa [Ledger.apply, same, Work.outstanding] using before
  message procNr sigMap same := by cases same

theorem endedDead (books : Books ledger mproc (.checkSig p sigMap signals) unacknowledged)
    (dead : ¬ (ledger.account p).user = true) :
    Books ledger mproc (.loop p sigMap signals)
      (update unacknowledged p (unacknowledged p - 1)) := by
  have nothing : unacknowledged p - 1 = unacknowledged p := by
    rw [(books.book p).told, if_neg dead]
  rw [nothing, update_eq_self]
  refine books.moves (fun q user => ?_) fun procNr sigMap same => by cases same
  have apart : q ≠ p := by
    rintro rfl
    exact dead user
  simp only [Work.outstanding, if_neg apart]

theorem exited {rmp : Mproc} (books : Books ledger mproc work unacknowledged) :
    Books (ledger.apply (.exited p)) (update mproc p rmp) work
      (update unacknowledged p 0) where
  book q := by
    by_cases same : q = p
    · subst same
      constructor <;> simp [Ledger.apply, InRange]
    · simpa [Ledger.apply, same] using books.book q
  message := books.message

theorem forked {rmp : Mproc} (books : Books ledger mproc .call unacknowledged)
    (alive : rmp.alive = true) :
    Books (ledger.apply (.forked p)) (update mproc p rmp) .call unacknowledged where
  book q := by
    by_cases same : q = p
    · subst same
      constructor <;> simp [Ledger.apply, InRange, Work.outstanding, books.none q, alive]
    · simpa [Ledger.apply, same] using books.book q
  message procNr sigMap same := by cases same

end Books

/-! ### Steps -/

/-- What holds between two steps: the kernel's count, that MM waits for a message from ANY only
when it has no KSIG message in its hands, that such a message is about no task or server, and the
books. -/
structure Agreed (m : System) : Prop where
  signals : SignalInvariant m.kernel
  busy : m.kernel.mmWaits → m.work = .call
  target : ∀ p, m.work.procNr = some p → ¬ p < init
  books : Books m.kernel.ledger m.mproc m.work m.unacknowledged

section Steps

variable {m m' : System} {k : State} {sigMap : Finset Nat}

theorem System.observe_none (same : k.ksigs = m.kernel.ksigs) :
    m.observe k = { m with kernel := k } := by
  simp only [System.observe, same, List.drop_length]

theorem System.observe_told {procNr : Slot}
    (told : k.ksigs = m.kernel.ksigs ++ [(procNr, sigMap)]) :
    m.observe k = { m with
      kernel := k
      work := .ksig procNr sigMap
      unacknowledged := update m.unacknowledged procNr
        (m.unacknowledged procNr + sigMap.card) } := by
  simp only [System.observe, told, List.drop_left']

section

variable (agreed : Agreed m) {p : Slot}
include agreed

theorem Agreed.notSystem (user : (m.kernel.ledger.account p).user = true) : ¬ p < init :=
  (agreed.signals.table.entries p).notSystem ((m.kernel.isuserp_iff p).mp user)

theorem Agreed.user (pending : (m.kernel.ledger.account p).pending = true) :
    (m.kernel.ledger.account p).user = true := by
  have ok := agreed.signals.table.entries p
  have set : (m.kernel.proc p).pFlags.pending = true := pending
  have notSystem : ¬ p < init := fun system => by
    have clear := (ok.system system).2.1
    rw [set] at clear
    cases clear
  have live : (m.kernel.proc p).pPriority ≠ .none := fun none => by
    rw [ok.empty none] at set
    cases set
  simpa [State.ledger, Proc.account] using (ok.others notSystem).resolve_right live

/-- A kernel entry keeps the agreement of MM and the kernel. -/
theorem Agreed.kernel {call : Call} (conduct : Conduct m (.kernel call))
    (completed : Kernel.step m.kernel call = some k) : Agreed (m.observe k) := by
  obtain ⟨contract, notOwn, inLoop, inRange⟩ := conduct
  have inv := agreed.signals
  obtain ⟨events, signalled, kinds⟩ :=
    step_signalled inv.table inv.stranded.counted contract completed
  have kinds : Asynchronous (fun sigNr => call.signal = some sigNr) events := by
    cases call with
    | fork => cases notOwn
    | xit => cases notOwn
    | endsig => cases notOwn
    | _ => exact kinds
  have next : SignalInvariant k := inv.step contract completed
  have busy : k.mmWaits → m.work = .call := fun waits =>
    (signalled.waits waits).elim (fun before => agreed.busy before.1) fun starts =>
      inLoop starts.1
  -- MM is informed only when it waits, with nothing in its hands.
  have tell : ∀ {ledger : Ledger} {p : Slot}, .informed p ∈ events →
      Books ledger m.mproc m.work m.unacknowledged → (ledger.account p).user = true →
      ¬ p < init → k.ledger = ledger.apply (.informed p) → ledger.ksigs = m.kernel.ksigs →
      Agreed (m.observe k) := by
    intro ledger p member books user notSystem after same
    obtain ⟨told, gone⟩ := signalled.informed p member
    have call : m.work = .call := told.elim agreed.busy inLoop
    have ksigs : k.ksigs = m.kernel.ksigs ++ [(p, (ledger.account p).signals)] := by
      rw [← same]
      exact congrArg Ledger.ksigs after
    rw [System.observe_told ksigs]
    refine ⟨next, fun waits => absurd waits gone, fun q target => ?_, ?_⟩
    · obtain rfl := some.inj target
      exact notSystem
    rw [call] at books
    show Books k.ledger _ _ _
    rw [after]
    exact books.informed user
  have keep : ∀ {ledger : Ledger}, Books ledger m.mproc m.work m.unacknowledged →
      k.ledger = ledger → ledger.ksigs = m.kernel.ksigs → Agreed (m.observe k) := by
    rintro ledger books rfl same
    rw [System.observe_none same]
    exact ⟨next, busy, agreed.target, books⟩
  have after := signalled.after
  cases kinds with
  | none =>
    rw [Ledger.after_nil] at after
    exact keep agreed.books after rfl
  | caused p sigNr causes =>
    rw [Ledger.after_cons, Ledger.after_nil] at after
    exact keep (agreed.books.caused after.1 (inRange sigNr causes)) after.2 rfl
  | informed p =>
    rw [Ledger.after_cons, Ledger.after_nil] at after
    have user := agreed.user after.1
    exact tell List.mem_cons_self agreed.books user (agreed.notSystem user) after.2 rfl
  | told p q sigNr causes =>
    rw [Ledger.after_cons, Ledger.after_cons, Ledger.after_nil] at after
    obtain ⟨fresh, pending, after⟩ := after
    have user : (m.kernel.ledger.account q).user = true := by
      by_cases same : q = p
      · subst same
        exact fresh.1
      · simp only [Ledger.Legal, Ledger.apply, update_of_ne same] at pending
        exact agreed.user pending
    refine tell (List.mem_cons_of_mem _ List.mem_cons_self)
      (agreed.books.caused fresh (inRange sigNr causes)) ?_ (agreed.notSystem user) after rfl
    by_cases same : q = p
    · subst same
      simpa [Ledger.apply] using user
    · simpa [Ledger.apply, same] using user

theorem Agreed.unfinished {sigMap : Finset Nat} {signals : List Nat}
    (work : m.work = .checkSig p sigMap signals) (user : m.kernel.isuserp p = true) :
    (m.kernel.proc p).pPending.card < (m.kernel.proc p).pPendcount := by
  have book := agreed.books.book p
  have isUser : (m.kernel.ledger.account p).user = true := user
  have told := book.told
  have balanced : (m.kernel.proc p).pPendcount =
      (m.kernel.proc p).pPending.card + m.unacknowledged p := book.balanced
  rw [if_pos isUser, work] at told
  simp only [Work.outstanding, if_true] at told
  omega

theorem Agreed.endsig (conduct : Conduct m .endsig) (completed : Mm.endsig m = some m') :
    Agreed m' := by
  unfold Mm.endsig at completed
  split at completed
  case h_2 => cases completed
  case h_1 p sigMap signals work =>
    obtain ⟨⟨k, result⟩, ended, completed⟩ := bind_eq_some_iff.mp completed
    obtain rfl := some.inj completed
    have contract : Contract m.kernel (.endsig p) := ⟨conduct, agreed.unfinished work⟩
    have stepped : Kernel.step m.kernel (.endsig p) = some k := by
      simp [Kernel.step, ended]
    have signalled := doEndsig_signalled ended
    have busy : ¬ k.mmWaits := by
      intro waits
      rcases signalled.waits waits with ⟨before, -⟩ | ⟨false, -⟩
      · rw [agreed.busy before] at work
        cases work
      · exact false
    refine ⟨agreed.signals.step contract stepped, fun waits => absurd waits busy,
      fun q target => agreed.target q (by rw [work]; exact target), ?_⟩
    have books := agreed.books
    rw [work] at books
    have after := signalled.after
    show Books k.ledger m.mproc _ _
    by_cases user : m.kernel.isuserp p = true
    · have unfinished := agreed.unfinished work user
      rw [if_pos ⟨user, by omega⟩, Ledger.after_cons, Ledger.after_nil] at after
      rw [after.2]
      exact books.ended user
    · rw [if_neg fun both => user both.1, Ledger.after_nil] at after
      rw [after]
      exact books.endedDead user

theorem Agreed.mmExit {parent procNr : Slot} {parentWaiting : Bool}
    (completed : Mm.mmExit m parent procNr parentWaiting = some m') : Agreed m' := by
  unfold Mm.mmExit at completed
  have quiet : ∃ mproc, (if (m.mproc procNr).alarmOn then setAlarm m procNr 0 else m) =
      { m with mproc := update m.mproc procNr mproc } := by
    split
    · exact ⟨_, rfl⟩
    · exact ⟨m.mproc procNr, by rw [update_eq_self]⟩
  obtain ⟨mproc, quiet⟩ := quiet
  rw [quiet] at completed
  obtain ⟨k, exited, completed⟩ := bind_eq_some_iff.mp completed
  obtain rfl := some.inj completed
  have contract : Contract m.kernel (.xit parent procNr) := trivial
  have stepped : Kernel.step m.kernel (.xit parent procNr) = some k := exited
  have signalled := doXit_signalled agreed.signals.table exited
  refine ⟨agreed.signals.step contract stepped, fun waits => ?_, agreed.target, ?_⟩
  · exact (signalled.waits waits).elim (fun before => agreed.busy before.1) fun false =>
      false.1.elim
  · have after := signalled.after
    rw [Ledger.after_cons, Ledger.after_nil] at after
    show Books k.ledger (update (update m.mproc procNr mproc) procNr _) m.work _
    rw [after.2, update_idem]
    exact agreed.books.exited

theorem Agreed.doFork {parent child : Slot} (conduct : Conduct m (.doFork parent child))
    (completed : Mm.doFork m parent child = some m') : Agreed m' := by
  obtain ⟨-, completed⟩ := ite_none_left_eq_some.mp completed
  obtain ⟨k, forked, completed⟩ := bind_eq_some_iff.mp completed
  obtain rfl := some.inj completed
  have contract : Contract m.kernel (.fork parent child) := trivial
  have stepped : Kernel.step m.kernel (.fork parent child) = some k := forked
  have signalled := doFork_signalled agreed.signals.table forked
  have work : m.work = .call := conduct
  have user : (m.kernel.ledger.account parent).user = true := by
    obtain ⟨permitted, forked⟩ := ite_none_right_eq_some.mp forked
    exact (Bool.and_eq_true _ _ ▸ permitted).1
  have alive := (agreed.books.book parent).alive user
  have inUse : (m.mproc parent).inUse = true := by
    simp only [Mproc.alive, Bool.and_eq_true] at alive
    exact alive.1
  refine ⟨agreed.signals.step contract stepped, fun _ => work, agreed.target, ?_⟩
  have after := signalled.after
  rw [Ledger.after_cons, Ledger.after_nil] at after
  have books := agreed.books
  rw [work] at books
  show Books k.ledger (update m.mproc child _) m.work m.unacknowledged
  rw [after.2, work]
  exact books.forked (by simp [Mproc.alive, inUse])

theorem Agreed.table {change : Mproc → Mproc}
    (alive : (m.mproc p).alive = true → (change (m.mproc p)).alive = true) :
    Agreed (m.modifyMproc p change) := by
  refine ⟨agreed.signals, agreed.busy, agreed.target, agreed.books.table fun q before => ?_⟩
  by_cases same : q = p
  · subst same
    simpa [System.modifyMproc] using alive before
  · simpa [System.modifyMproc, same] using before

end

/-- The signal that `do_ksig` comes to is not a SIGALRM for a process that is alive and has no alarm
set. -/
def Work.AlarmSet (mproc : Slot → Mproc) : Work → Prop
  | .loop procNr sigMap (sigNr :: _) => sigNr = sigalrm → sigNr ∈ sigMap →
      (mproc procNr).alive = true → (mproc procNr).alarmOn = true
  | _ => True

instance (mproc : Slot → Mproc) : (work : Work) → Decidable (work.AlarmSet mproc)
  | .call => .isTrue trivial
  | .ksig .. => .isTrue trivial
  | .loop _ _ [] => .isTrue trivial
  | .loop _ _ (_ :: _) => inferInstanceAs (Decidable (_ → _ → _ → _))
  | .checkSig .. => .isTrue trivial

/-- No alarm is dropped in this step. -/
def AlarmSet (m : System) : Label → Prop
  | .doKsig => m.work.AlarmSet m.mproc
  | _ => True

instance (m : System) : (label : Label) → Decidable (AlarmSet m label)
  | .kernel _ => .isTrue trivial
  | .doKsig => inferInstanceAs (Decidable (m.work.AlarmSet m.mproc))
  | .endsig => .isTrue trivial
  | .setAlarm .. => .isTrue trivial
  | .mmExit .. => .isTrue trivial
  | .cleanup _ => .isTrue trivial
  | .doFork .. => .isTrue trivial

theorem AlarmSet.on {m : System} {procNr : Slot} {signals : List Nat}
    (alarmSet : AlarmSet m .doKsig) (work : m.work = .loop procNr sigMap (sigalrm :: signals))
    (member : sigalrm ∈ sigMap) (alive : (m.mproc procNr).alive = true) :
    (m.mproc procNr).alarmOn = true := by
  rw [AlarmSet, work] at alarmSet
  exact alarmSet rfl member alive

theorem Agreed.go {work : Work} (agreed : Agreed m) (busy : m.work ≠ .call)
    (other : ∀ procNr sigMap, work ≠ .ksig procNr sigMap)
    (target : ∀ p, work.procNr = some p → m.work.procNr = some p)
    (same : ∀ p, (m.kernel.ledger.account p).user = true →
      work.outstanding p = m.work.outstanding p) : Agreed { m with work := work } :=
  ⟨agreed.signals, fun waits => absurd (agreed.busy waits) busy,
    fun p isTarget => agreed.target p (target p isTarget),
    agreed.books.moves same fun procNr sigMap isKsig => absurd isKsig (other procNr sigMap)⟩

/-- Handling the kernel's signals keeps MM and the kernel in step. -/
theorem Agreed.doKsig (agreed : Agreed m) (alarmSet : AlarmSet m .doKsig)
    (completed : Mm.doKsig m = some m') : Agreed m' := by
  unfold Mm.doKsig at completed
  split at completed
  case h_1 procNr sigMap work =>
    have busy : m.work ≠ .call := by simp [work]
    split at completed
    case isTrue dead =>
      obtain rfl := some.inj completed
      refine agreed.go busy (by simp) (by simp [work, Work.procNr]) fun p user => ?_
      have apart : p ≠ procNr := by
        rintro rfl
        simp [(agreed.books.book p).alive user] at dead
      simp only [work, Work.outstanding, if_neg apart]
    case isFalse =>
      obtain rfl := some.inj completed
      refine agreed.go busy (by simp) (by simp [work, Work.procNr]) fun p _ => ?_
      simp only [work, Work.outstanding, countP_range (agreed.books.message procNr sigMap work)]
  case h_2 procNr sigMap work =>
    obtain rfl := some.inj completed
    refine agreed.go (by simp [work]) (by simp) (by simp [Work.procNr]) fun p _ => ?_
    simp [work, Work.outstanding]
  case h_3 procNr sigMap sigNr signals work =>
    have busy : m.work ≠ .call := by simp [work]
    split at completed
    case isTrue absent =>
      obtain rfl := some.inj completed
      refine agreed.go busy (by simp) (by simp [work, Work.procNr]) fun p _ => ?_
      simp [work, Work.outstanding, absent]
    case isFalse present =>
      have member : sigNr ∈ sigMap := by simpa using present
      split at completed
      case isTrue isAlarm =>
        subst isAlarm
        split at completed
        case isTrue off =>
          obtain rfl := some.inj completed
          refine agreed.go busy (by simp) (by simp [work, Work.procNr]) fun p user => ?_
          -- The dropped alarm is not one of a process that is alive.
          have apart : p ≠ procNr := by
            rintro rfl
            have on := alarmSet.on work member ((agreed.books.book p).alive user)
            simp [on] at off
          simp only [work, Work.outstanding, if_neg apart]
        case isFalse =>
          obtain rfl := some.inj completed
          refine (@Agreed.table _ agreed procNr (fun rmp => { rmp with alarmOn := false }) id).go
            busy (by simp) (by simp [System.modifyMproc, work, Work.procNr]) fun p _ => ?_
          simp [System.modifyMproc, work, Work.outstanding, member]
      case isFalse =>
        obtain rfl := some.inj completed
        refine agreed.go busy (by simp) (by simp [work, Work.procNr]) fun p _ => ?_
        simp [work, Work.outstanding, member]
  case h_4 => cases completed

theorem Agreed.step {label : Label} (agreed : Agreed m)
    (guard : Conduct m label ∧ AlarmSet m label) (completed : Mm.step m label = some m') :
    Agreed m' := by
  obtain ⟨conduct, alarmSet⟩ := guard
  cases label with
  | kernel call =>
    obtain ⟨k, stepped, rfl⟩ := map_eq_some_iff.mp completed
    exact agreed.kernel conduct stepped
  | doKsig => exact agreed.doKsig alarmSet completed
  | endsig => exact agreed.endsig conduct completed
  | setAlarm procNr sec =>
    obtain rfl := some.inj completed
    exact agreed.table id
  | mmExit parent procNr parentWaiting => exact agreed.mmExit completed
  | cleanup child =>
    change Mm.cleanup m child = some m' at completed
    obtain ⟨zombie, completed⟩ := ite_none_right_eq_some.mp completed
    obtain rfl := some.inj completed
    refine agreed.table fun alive => ?_
    simp [Mproc.alive, zombie] at alive
  | doFork parent child => exact agreed.doFork conduct completed

end Steps

/-! ### The end of `do_ksig` -/

/-- The number of steps that MM has to take until it is back in its main loop. -/
def Work.remaining : Work → Nat
  | .call => 0
  | .ksig .. => 2 * nsig + 2
  | .loop _ _ signals => 2 * signals.length + 1
  | .checkSig _ _ signals => 2 * signals.length + 2

theorem doKsig_completes {m : System} (busy : m.work ≠ .call) (outside : m.work.checking = false) :
    ∃ m', doKsig m = some m' ∧ m'.work.remaining < m.work.remaining := by
  unfold doKsig
  split
  case h_1 procNr sigMap work =>
    split
    · exact ⟨_, rfl, by simp [Work.remaining, work]⟩
    · exact ⟨_, rfl, by simp [Work.remaining, work]⟩
  case h_2 procNr sigMap work => exact ⟨_, rfl, by simp [Work.remaining, work]⟩
  case h_3 procNr sigMap sigNr signals work =>
    have less : 2 * signals.length + 2 <
      (Work.loop procNr sigMap (sigNr :: signals)).remaining := by
      simp only [Work.remaining, List.length_cons]
      omega
    rw [work]
    split
    · exact ⟨_, rfl, (Nat.lt_succ_self _).trans less⟩
    split
    · split
      · exact ⟨_, rfl, (Nat.lt_succ_self _).trans less⟩
      · exact ⟨_, rfl, less⟩
    · exact ⟨_, rfl, less⟩
  case h_4 notKsig notDone notLoop =>
    cases work : m.work with
    | call => exact absurd work busy
    | ksig procNr sigMap => exact absurd work (notKsig procNr sigMap)
    | loop procNr sigMap signals =>
      cases signals with
      | nil => exact absurd work (notDone procNr sigMap)
      | cons sigNr signals => exact absurd work (notLoop procNr sigMap sigNr signals)
    | checkSig procNr sigMap signals =>
      rw [work] at outside
      cases outside

/-- While MM has signals in its hands, its next step can be taken once the system task serves it,
and brings it closer to its main loop. -/
theorem Agreed.progress {m : System} (agreed : Agreed m) (busy : m.work ≠ .call)
    (serves : m.kernel.procPtr = systask) :
    ∃ label m', (label = .doKsig ∨ label = .endsig) ∧ Conduct m label ∧
      Mm.step m label = some m' ∧ m'.work.remaining < m.work.remaining := by
  cases outside : m.work.checking with
  | false =>
    obtain ⟨m', completed, less⟩ := doKsig_completes busy outside
    exact ⟨.doKsig, m', .inl rfl, trivial, completed, less⟩
  | true =>
    cases work : m.work with
    | checkSig procNr sigMap signals =>
      obtain ⟨k, result, ended⟩ := doEndsig_completes agreed.signals.table serves
        (agreed.target procNr (by rw [work]; rfl)) (agreed.unfinished work)
      have completed : ∃ m', Mm.endsig m = some m' ∧
          m'.work = .loop procNr sigMap signals := by
        unfold Mm.endsig
        rw [work]
        simp only [ended, Option.bind_eq_bind, Option.bind_some]
        exact ⟨_, rfl, rfl⟩
      obtain ⟨m', completed, after⟩ := completed
      exact ⟨.endsig, m', .inr rfl, serves, completed, by simp [after, Work.remaining]⟩
    | _ =>
      rw [work] at outside
      cases outside

/-! ### Runs -/

/-- The runs of the kernel and MM from the start of the system. -/
def Reaches (guard : System → Label → Prop) (maps : Slot → MemMap) (sysMessage : UInt32)
    (labels : List Label) (m : System) : Prop :=
  ∃ start, main maps sysMessage = some start ∧
    Transition.Run step guard (mmInit start) labels m

variable {maps : Slot → MemMap} {sysMessage : UInt32} {labels : List Label} {m : System}

theorem mmInit_agreed {k : State} (started : main maps sysMessage = some k) :
    Agreed (mmInit k) := by
  refine ⟨main_signalInvariant started, fun _ => rfl, fun p target => ?_, fun p => ?_,
    fun _ _ same => by cases same⟩
  · cases target
  obtain ⟨s, s', started', -⟩ := main_boots maps sysMessage
  obtain rfl := some.inj (started'.symm.trans started)
  have account : (mmInit ((bootState maps sysMessage s).withSchedule s')).kernel.ledger.account p =
      ((bootState maps sysMessage s).proc p).account := rfl
  have users : ∀ p, (if p = idle then Priority.idle else if p ≤ init then bootPriority p
      else .none) = .user → mm ≤ p ∧ p ≤ init := by decide
  rw [account, bootState_proc]
  refine ⟨rfl, by simp [mmInit, Work.outstanding], by simp [Proc.account, InRange], ?_⟩
  intro user
  have bounds := users p (by simpa [Proc.account] using user)
  simp [mmInit, Mproc.alive, bounds]

theorem Reaches.agreed (reached : Reaches (fun m label => Conduct m label ∧ AlarmSet m label)
    maps sysMessage labels m) : Agreed m := by
  obtain ⟨start, started, run⟩ := reached
  exact run.invariant (mmInit_agreed started) fun _ _ _ agreed => agreed.step

/-- In every run in which no alarm is dropped, the unfinished signals of a process are the pending
ones and those that MM has been told of and has not acknowledged. When MM is back in its main loop
SIG_PENDING says that there is a pending signal; when it waits for a message no process has the
flag, so that each process that is not killed and that nothing else blocks is ready; and MM gets
back to its main loop. -/
theorem signals_finished (reached : Reaches (fun m label => Conduct m label ∧ AlarmSet m label)
    maps sysMessage labels m) :
    (∀ p, (m.kernel.proc p).pPendcount =
      (m.kernel.proc p).pPending.card + m.unacknowledged p) ∧
    (m.work = .call → ∀ p, (m.kernel.proc p).pFlags.sigPending = true ↔
      (m.kernel.proc p).pPending.Nonempty) ∧
    (m.kernel.mmWaits → (∀ p, (m.kernel.proc p).pFlags.sigPending = false) ∧
      ∃ ready : Queue → List Slot,
        (∀ queue, LinkedList.Chain m.kernel.nextready (m.kernel.rdyHead queue) (ready queue)) ∧
        ∀ p, m.kernel.isuserp p = true →
          { (m.kernel.proc p).pFlags with sigPending := false } = {} → p ∈ ready .user) ∧
    (m.work ≠ .call → m.kernel.procPtr = systask →
      ∃ label m', (label = .doKsig ∨ label = .endsig) ∧ Conduct m label ∧
        step m label = some m' ∧ m'.work.remaining < m.work.remaining) := by
  have agreed := reached.agreed
  have balanced : ∀ p, (m.kernel.proc p).pPendcount =
      (m.kernel.proc p).pPending.card + m.unacknowledged p :=
    fun p => (agreed.books.book p).balanced
  have idle : m.work = .call → ∀ p, (m.kernel.proc p).pFlags.sigPending = true ↔
      (m.kernel.proc p).pPending.Nonempty := by
    intro work p
    have books := agreed.books
    rw [work] at books
    rw [(agreed.signals.table.entries p).sigPending, balanced p, books.none p, Nat.add_zero,
      Finset.card_ne_zero]
  refine ⟨balanced, idle, fun waits => ?_, fun busy serves => agreed.progress busy serves⟩
  have clear : ∀ p, (m.kernel.proc p).pFlags.sigPending = false := by
    intro p
    rw [Bool.eq_false_iff, ne_eq, idle (agreed.busy waits) p,
      ← (agreed.signals.table.entries p).pending]
    intro pending
    have some : 0 < m.kernel.ledger.pendingProcs.card :=
      Finset.card_pos.mpr ⟨p, Ledger.mem_pendingProcs.mpr pending⟩
    have counted := agreed.signals.stranded.counted
    rw [Ledger.Counted, show m.kernel.ledger.procs = 0 from agreed.signals.stranded.told waits]
      at counted
    omega
  obtain ⟨queues, represented, members⟩ := agreed.signals.table.scheduled
  refine ⟨clear, queues, represented.chain, fun p user flags => ?_⟩
  have isUser : m.kernel.priority p = .user := (m.kernel.isuserp_iff p).mp user
  have same : { (m.kernel.proc p).pFlags with sigPending := false } = (m.kernel.proc p).pFlags := by
    rw [← clear p]
  have notSystem := agreed.notSystem user
  obtain ⟨queue, member⟩ := (members p).mpr ⟨Flags.clear_iff.mpr (same ▸ flags),
    by rw [isUser]; decide, fun isIdle => notSystem (isIdle ▸ by decide),
    fun isHardware => notSystem (isHardware ▸ by decide)⟩
  have sorted := represented.sorted _ _ member
  rw [isUser] at sorted
  rw [show Queue.user = queue from sorted]
  exact member

/-- All tasks and servers wait for a message, so that `INIT` runs. -/
def serversWait : List Label := List.replicate 10 (.kernel (.sysCall .receive any 0))

/-- `INIT` calls `alarm`; after some other steps MM sets the alarm, exchanges a message with the
clock task, which waits again, replies to `INIT` and waits for the next message. -/
def alarmCall (between : List Label) (sec : Nat) : List Label :=
  [.kernel (.sysCall .both 0 0)] ++ between ++ [.setAlarm init sec,
    .kernel (.sysCall .both (-3) 0), .kernel (.sysCall .send 0 0),
    .kernel (.sysCall .receive any 0), .kernel (.sysCall .send 2 0),
    .kernel (.sysCall .receive any 0)]

/-- `INIT` sets an alarm and calls `pause`. The alarm goes off; MM is informed, comes to SIGALRM in
its loop and asks the system task to end the signal; then it replies to `INIT` and waits. -/
theorem signals_finished_alarm :
    ∃ labels m, Reaches (fun m label => Conduct m label ∧ AlarmSet m label)
        (fun _ => { stackLen := 1024 }) 0 labels m ∧
      m.kernel.ksigs = [(init, {sigalrm})] ∧ (m.kernel.proc init).pFlags.sigPending = false := by
  let labels := serversWait ++ alarmCall [] 10 ++
    [.kernel (.sysCall .both 0 0), .kernel (.sysCall .receive any 0),
      .kernel (.causeSig init sigalrm)] ++
    List.replicate 15 .doKsig ++
    [.kernel (.sysCall .both (-2) 0), .endsig, .kernel (.sysCall .send 0 0),
      .kernel (.sysCall .receive any 0)] ++
    List.replicate 4 .doKsig ++
    [.kernel (.sysCall .send 2 0), .kernel (.sysCall .receive any 0)]
  have executed : ((main (fun _ => { stackLen := 1024 }) 0).bind fun start =>
      (Transition.execute step (fun m label => Conduct m label ∧ AlarmSet m label) labels
        (mmInit start)).map fun m =>
          decide (m.kernel.ksigs = [(init, {sigalrm})] ∧ m.kernel.mmWaits)) = some true := by
    decide +kernel
  obtain ⟨start, started, executed⟩ := bind_eq_some_iff.mp executed
  obtain ⟨m, executed, found⟩ := map_eq_some_iff.mp executed
  have reached : Reaches (fun m label => Conduct m label ∧ AlarmSet m label)
      (fun _ => { stackLen := 1024 }) 0 labels m := ⟨start, started, .of_execute executed⟩
  obtain ⟨ksigs, waits⟩ := of_decide_eq_true found
  exact ⟨labels, m, reached, ksigs, ((signals_finished reached).2.2.1 waits).1 init⟩

/-- `INIT` sets an alarm and then cancels it, but the alarm goes off before MM has handled the
second call. MM is informed when it has done so, and drops the signal without `sys_endsig`: when
it waits again, `INIT` has no pending signal and stays blocked by SIG_PENDING. -/
theorem cancelled_alarm_blocks :
    ∃ labels m, Reaches Conduct (fun _ => { stackLen := 1024 }) 0 labels m ∧
      m.work = .call ∧ m.kernel.mmWaits ∧ m.kernel.isuserp init = true ∧
      (m.kernel.proc init).pFlags = { ({} : Flags) with sigPending := true } ∧
      (m.kernel.proc init).pPending = ∅ ∧ (m.kernel.proc init).pPendcount = 1 := by
  let labels := serversWait ++ alarmCall [] 10 ++
    alarmCall [.kernel (.causeSig init sigalrm)] 0 ++
    List.replicate 19 .doKsig ++ [.kernel (.sysCall .receive any 0)]
  have executed : ((main (fun _ => { stackLen := 1024 }) 0).bind fun start =>
      (Transition.execute step Conduct labels (mmInit start)).map fun m =>
        decide (m.work = .call ∧ m.kernel.mmWaits ∧ m.kernel.isuserp init = true ∧
          (m.kernel.proc init).pFlags = { ({} : Flags) with sigPending := true } ∧
          (m.kernel.proc init).pPending = ∅ ∧ (m.kernel.proc init).pPendcount = 1)) =
      some true := by decide +kernel
  obtain ⟨start, started, executed⟩ := bind_eq_some_iff.mp executed
  obtain ⟨m, executed, found⟩ := map_eq_some_iff.mp executed
  exact ⟨labels, m, ⟨start, started, .of_execute executed⟩, of_decide_eq_true found⟩

end Minix.Mm
