/-
This file shows that message passing keeps the kernel's invariant.

Each lemma says of one function of `kernel/proc.c` that, if it completes, the invariant holds
again and the history has grown by events that the function may cause. `mini_send` by the
running process is the only function that causes a `blocked` event, and none of them causes a
`forked` event.
-/

import Minix.Kernel.Callers

namespace Minix.Kernel

open LinkedList
open Option (some.inj bind_eq_some_iff ite_none_left_eq_some)

/-! ### What the invariant says about single processes -/

section Facts

variable {scope : Scope} {k : State} {p : Slot} {entry : Proc}

/-- A process with a flag set is live, and it is neither `IDLE` nor `HARDWARE`. -/
theorem EntryOk.live (ok : EntryOk p entry) (busy : entry.pFlags ≠ {}) :
    entry.pPriority ≠ .none ∧ p ≠ idle ∧ p ≠ hardware := by
  refine ⟨fun empty => busy (ok.empty empty), ?_, ?_⟩
  · rintro rfl
    exact busy (ok.quiet rfl)
  · rintro rfl
    exact busy (ok.quiet rfl)

/-- A process that belongs to the user queue and is not `IDLE` or dead is a user process. -/
theorem EntryOk.user (ok : EntryOk p entry) (sorted : queueOf entry.pPriority = .user)
    (live : entry.pPriority ≠ .none) (notIdle : p ≠ idle) : entry.pPriority = .user := by
  by_cases system : p < init
  · have fixed := ok.fixed system
    rw [systemPriority, if_neg notIdle, bootPriority] at fixed
    split at fixed
    · simp [fixed, queueOf] at sorted
    · simp [fixed, queueOf] at sorted
  · exact (ok.others system).resolve_right live

/-- The slots that `main` fills before INIT hold neither user processes nor dead ones. -/
theorem systemPriority_ne : ∀ p, p < init → systemPriority p ≠ .user ∧
    systemPriority p ≠ .none := by
  decide

theorem EntryOk.notSystem (ok : EntryOk p entry) (user : entry.pPriority = .user) :
    ¬ p < init := fun system =>
  (systemPriority_ne p system).1 ((ok.fixed system).symm.trans user)

theorem EntryOk.notSystem_of_dead (ok : EntryOk p entry) (dead : entry.pPriority = .none) :
    ¬ p < init := fun system =>
  (systemPriority_ne p system).2 ((ok.fixed system).symm.trans dead)

theorem EntryOk.server (ok : EntryOk p entry) (which : p = mm ∨ p = fs) :
    entry.pPriority = .server := by
  rcases which with rfl | rfl
  · exact ok.fixed (by decide)
  · exact ok.fixed (by decide)

theorem Flags.ne_of_sending {flags : Flags} (sending : flags.sending = true) : flags ≠ {} := by
  rintro rfl
  simp at sending

theorem Flags.ne_of_receiving {flags : Flags} (receiving : flags.receiving = true) :
    flags ≠ {} := by
  rintro rfl
  simp at receiving

theorem Flags.ne_of_sigPending {flags : Flags} (sigPending : flags.sigPending = true) :
    flags ≠ {} := by
  rintro rfl
  simp at sigPending

theorem Flags.clear_eq_false {flags : Flags} (busy : flags ≠ {}) : flags.clear = false := by
  simpa [Flags.clear] using busy

theorem Flags.clear_iff {flags : Flags} : flags.clear = true ↔ flags = {} := by
  simp [Flags.clear]

theorem State.Runnable.flags (runs : k.Runnable p) : (k.proc p).pFlags = {} :=
  Flags.clear_iff.mp runs.1

theorem State.not_runnable (busy : (k.proc p).pFlags ≠ {}) : ¬ k.Runnable p :=
  fun runs => busy runs.flags

theorem TableOk.linked (table : TableOk scope k) :
    Rendezvous.Linked scope.Covers k.rendezvous :=
  Rendezvous.linked_of_legal table.legal

theorem TableOk.sending (table : TableOk scope k) {dest : Slot} (covers : scope.Covers dest)
    (member : p ∈ k.rendezvous.waiting dest) :
    (k.proc p).pFlags.sending = true ∧ (k.proc p).pSendto = dest := by
  obtain ⟨buffer, offers⟩ := table.linked.offers _ _ covers member
  rw [← table.offers, State.offer_eq_some] at offers
  exact ⟨offers.1, offers.2.1⟩

theorem State.Loose.sending (loose : k.Loose scope p) :
    (k.proc p).pFlags.sending = true ∧ ¬ scope.Covers (k.proc p).pSendto := by
  obtain ⟨dest, buffer, outside, offers⟩ := loose
  obtain ⟨sending, rfl, -⟩ := State.offer_eq_some.mp offers
  exact ⟨sending, outside⟩

theorem TableOk.notLoose (table : TableOk scope k) (user : k.priority p = .user) :
    ¬ k.Loose scope p := fun loose =>
  loose.sending.2 (scope.covers_server ((table.entries p).userSends user loose.sending.1))

theorem TableOk.callerQueues (table : TableOk scope k) :
    CallerQueues scope k k.rendezvous.waiting (k.Loose scope) where
  chain := table.chain
  disjoint p dest dest' covers covers' member member' :=
    (table.sending covers member).2.symm.trans (table.sending covers' member').2
  looseHead := table.looseHead
  looseLink := table.looseLink
  apart p dest covers member loose := by
    exact loose.sending.2 ((table.sending covers member).2 ▸ covers)

@[simp] theorem State.rendezvous_emit (k : State) (event : Event) :
    (k.emit [event]).rendezvous = k.rendezvous.apply event := by
  simp [State.rendezvous]

theorem TableOk.legal_emit (table : TableOk scope k) {event : Event}
    (allowed : Rendezvous.Allowed scope.Covers accepts k.rendezvous event) :
    Rendezvous.Legal (Rendezvous.Allowed scope.Covers accepts) (k.emit [event]).history := by
  rw [State.emit_history, Rendezvous.legal_snoc]
  exact ⟨table.legal, allowed⟩

/-- An event that changes neither queues nor offers is recorded. -/
theorem Invariant.emit (inv : Invariant scope k) {event : Event}
    (still : k.rendezvous.apply event = k.rendezvous)
    (allowed : Rendezvous.Allowed scope.Covers accepts k.rendezvous event) :
    Invariant scope (k.emit [event]) := by
  have same := (State.rendezvous_emit k event).trans still
  refine ⟨⟨inv.entries, ?_, inv.looseHead, inv.looseLink, ?_, inv.legal_emit allowed, inv.held⟩,
    inv.scheduled⟩
  · rw [same]
    exact inv.chain
  · rw [same]
    exact inv.offers

end Facts

/-! ### Events of a function -/

/-- The event is none of those that only some functions cause. -/
def Passive : Event → Prop
  | .blocked .. | .forked .. | .exited _ => False
  | _ => True

/-- `after` is a later state: the invariant holds, and the history has grown by events of the
given kind. -/
structure Later (scope : Scope) (kind : Event → Prop) (before after : State) : Prop where
  invariant : Invariant scope after
  history : ∃ events, after.history = before.history ++ events ∧ ∀ event ∈ events, kind event

variable {scope : Scope} {kind : Event → Prop}

theorem Later.refl {k : State} (inv : Invariant scope k) :
    Later scope kind k k :=
  ⟨inv, [], by simp, by simp⟩

theorem Later.trans {k k' k'' : State} (first : Later scope kind k k')
    (second : Later scope kind k' k'') : Later scope kind k k'' := by
  obtain ⟨-, events, history, kinds⟩ := first
  obtain ⟨inv, events', history', kinds'⟩ := second
  refine ⟨inv, events ++ events', by rw [history', history, List.append_assoc], ?_⟩
  intro event member
  exact (List.mem_append.mp member).elim (kinds event) (kinds' event)

theorem Later.mono {kind kind' : Event → Prop} {k k' : State} (later : Later scope kind k k')
    (weaker : ∀ event, kind event → kind' event) : Later scope kind' k k' := by
  obtain ⟨inv, events, history, kinds⟩ := later
  exact ⟨inv, events, history, fun event member => weaker event (kinds event member)⟩

theorem Later.of_history {k k' : State} (inv : Invariant scope k')
    (history : k'.history = k.history) : Later scope kind k k' :=
  ⟨inv, [], by simp [history], by simp⟩

/-- A task gets HARD_INT. -/
theorem Later.notified {k k' : State} {p : Slot} (inv : Invariant scope k')
    (history : k'.history = k.history ++ [.notified p]) : Later scope Passive k k' :=
  ⟨inv, [.notified p], history, by simp [Passive]⟩

/-! ### `mini_send` -/

section Send

variable {scope : Scope} {k k' : State} {caller dest : Slot} {mPtr : UInt32}

theorem deliver_later (mPtr : UInt32) (inv : Invariant scope k)
    (waits : k.isWaitingFor dest caller = true)
    (idle : k.offer caller = none)
    (safe : k.priority dest = .user → k.SystemRunning) :
    ∃ k', deliver k caller dest mPtr = some k' ∧ Later scope Passive k k' ∧
      (k.SystemRunning → k'.SystemRunning) ∧
      (∀ p, p ≠ dest → (k'.proc p).pFlags = (k.proc p).pFlags) ∧
      (k'.proc dest).pFlags.sending = false ∧ k'.priority = k.priority := by
  obtain ⟨⟨receiving, notSending⟩, -⟩ : ((k.proc dest).pFlags.receiving = true ∧
      (k.proc dest).pFlags.sending = false) ∧ _ := by
    simpa [State.isWaitingFor] using waits
  have busy := Flags.ne_of_receiving receiving
  obtain ⟨live, notIdle, notHardware⟩ := (inv.entries dest).live busy
  let event : Event := .delivered caller dest mPtr (k.proc dest).pMessbuf
  have invEmit : Invariant scope (k.emit [event]) :=
    inv.emit rfl ((inv.offers caller).symm.trans idle)
  have ok := inv.entries dest
  obtain ⟨s, result, awake, system⟩ := invEmit.wake dest
    (fun entry => { entry with pFlags := { entry.pFlags with receiving := false } })
    (State.not_runnable busy) {}
    (ok.fewer { (k.proc dest).pFlags with receiving := false } rfl rfl id (by simp) id id)
    live notIdle notHardware
    (fun sorted => safe ((inv.entries dest).user sorted live notIdle))
  refine ⟨_, result, ⟨awake, [event], rfl, ?_⟩, system, fun p apart => ?_, ?_, ?_⟩
  · simp [event, Passive]
  · simp [apart]
  · simp [notSending]
  · rw [State.withSchedule_priority, State.modify_priority rfl]
    rfl

/-- A runnable process may block sending; a user process only to MM or FS. -/
theorem EntryOk.blockSend {p : Slot} {entry : Proc} (ok : EntryOk p entry)
    (clear : entry.pFlags = {}) (live : entry.pPriority ≠ .none)
    (loud : p ≠ idle ∧ p ≠ hardware)
    (userSends : entry.pPriority = .user → dest = mm ∨ dest = fs) :
    EntryOk p { entry with pFlags := { ({} : Flags) with sending := true }, pSendto := dest } where
  fixed := ok.fixed
  others := ok.others
  sendrec _ receives := by simp at receives
  userSends user _ := userSends user
  system _ := by simp
  empty empty := absurd empty live
  quiet quiet := by simp [isidlehardware, loud] at quiet
  pending := by simpa [clear] using ok.pending
  told := ok.told
  sigPending := by simpa [clear] using ok.sigPending

/-- A sender that has to wait is the last on the queue of the destination. -/
theorem blockSender_later (inv : Invariant scope k) (runs : k.Runnable caller)
    (userSends : k.priority caller = .user → dest = mm ∨ dest = fs)
    (completed : blockSender k caller dest mPtr = some k') :
    Later scope (fun event => event = .blocked caller dest mPtr) k k' ∧
      (k'.proc caller).pFlags = { ({} : Flags) with sending := true } ∧
      (k'.proc caller).pSendto = dest ∧ (k'.proc caller).pMessbuf = mPtr ∧
      k'.priority = k.priority := by
  have clear := runs.flags
  have ok := inv.entries caller
  -- The message buffer is noted, and the caller leaves the ready queues.
  have noted : Invariant scope (k.modify caller fun entry => { entry with pMessbuf := mPtr }) := by
    refine inv.adjust caller _ { messbuf := fun sending => ?_ } rfl { ok with }
    simp [clear] at sending
  obtain ⟨s, result, asleep⟩ := noted.scheduled.sleep caller
  let k₁ := (k.modify caller fun entry => { entry with pMessbuf := mPtr }).withSchedule s
  let k₂ := k₁.modify caller fun entry =>
    { entry with pFlags := { entry.pFlags with sending := true }, pSendto := dest }
  have sendlink₂ : k₂.sendlink = k.sendlink := by
    rw [State.modify_sendlink rfl, State.withSchedule_sendlink, State.modify_sendlink rfl]
  have callerq₂ : k₂.callerq = k.callerq := by
    rw [State.modify_callerq rfl, State.withSchedule_callerq, State.modify_callerq rfl]
  have queues₂ : CallerQueues scope k₂ k.rendezvous.waiting (k.Loose scope) := by
    refine inv.callerQueues.shrink (fun _ _ _ => id) (fun other covers => ?_) ?_ ?_
    · rw [sendlink₂, callerq₂]
      exact inv.chain other covers
    · rw [callerq₂]
      exact inv.looseHead
    · rw [sendlink₂]
      exact inv.looseLink
  have idle : k.rendezvous.offer caller = none := by
    rw [← inv.offers, State.offer_eq_none, clear]
  have fresh : ∀ other, scope.Covers other → caller ∉ k.rendezvous.waiting other :=
    fun _ covers => inv.linked.notMem idle covers
  have notLoose : ¬ k.Loose scope caller := by
    intro loose
    have sending := loose.sending.1
    rw [clear] at sending
    cases sending
  -- The caller is queued.
  obtain ⟨asleep₁, slept, completed⟩ := bind_eq_some_iff.mp completed
  obtain rfl : k₁ = asleep₁ := some.inj (result.symm.trans slept)
  obtain ⟨queued, append, completed⟩ := bind_eq_some_iff.mp completed
  obtain rfl := some.inj completed
  obtain ⟨links, heads, rfl, linked⟩ := appendCaller_spec queues₂ fresh notLoose append
  let k₃ := (k₂.withLinks links heads).emit [.blocked caller dest mPtr]
  have flags : ∀ p, (k₃.proc p).pFlags =
      if p = caller then { ({} : Flags) with sending := true } else (k.proc p).pFlags := by
    intro p
    by_cases same : p = caller <;> simp [k₃, k₂, k₁, same, clear]
  have priority : k₃.priority = k.priority := by
    show k₂.priority = k.priority
    rw [State.modify_priority rfl]
    show (k.modify caller _).priority = k.priority
    rw [State.modify_priority rfl]
  have rendezvous : k₃.rendezvous = k.rendezvous.apply (.blocked caller dest mPtr : Event) :=
    State.rendezvous_emit _ _
  have offer : k₃.offer = Function.update k.offer caller (some (dest, mPtr)) := by
    funext p
    by_cases same : p = caller
    · subst same
      simp [State.offer, k₃, k₂, k₁, State.withLinks, State.withSchedule]
    · simp [State.offer, k₃, k₂, k₁, State.withLinks, State.withSchedule, same]
  have loose : ∀ p, k₃.Loose scope p ↔ k.Loose scope p ∨ p = caller ∧ ¬ scope.Covers dest := by
    intro p
    by_cases same : p = caller
    · subst same
      have outside : k₃.Loose scope p ↔ ¬ scope.Covers dest := by simp [State.Loose, offer]
      rw [outside]
      exact ⟨fun outside => .inr ⟨rfl, outside⟩, fun either => (either.resolve_left notLoose).2⟩
    · simp [State.Loose, offer, same]
  refine ⟨⟨⟨⟨fun p => ?_, fun other covers => ?_, fun other p outside head => ?_,
    fun p q isLoose link => ?_, fun p => ?_, ?_, ?_⟩, ?_⟩, [.blocked caller dest mPtr], rfl,
    by simp⟩, ?_, ?_, ?_, priority⟩
  · by_cases same : p = caller
    · subst same
      exact (ok.blockSend clear runs.2.1 runs.2.2 userSends).congr (congrFun priority p)
        (by simp [k₂, k₁, clear])
        (by simp [k₂, k₁, State.withLinks, State.withSchedule])
        (by simp [k₂, k₁, State.withLinks, State.withSchedule])
        (by simp [k₂, k₁, State.withLinks, State.withSchedule])
        (by simp [k₂, k₁, State.withLinks, State.withSchedule])
    · refine (inv.entries p).congr ?_ ?_ ?_ ?_ ?_ ?_ <;>
        simp [k₂, k₁, State.withLinks, State.withSchedule, same]
  · show Chain links (heads other) (k₃.rendezvous.waiting other)
    rw [rendezvous]
    exact linked.chain other covers
  · exact (loose p).mpr (linked.looseHead other p outside head)
  · exact (loose q).mpr (linked.looseLink p q ((loose p).mp isLoose) link)
  · show k₃.offer p = k₃.rendezvous.offer p
    rw [rendezvous, offer, Rendezvous.State.apply]
    by_cases same : p = caller
    · subst same
      simp
    · simp [same, inv.offers]
  · exact Rendezvous.legal_snoc.mpr ⟨inv.legal, idle⟩
  · intro p member
    show k₃.priority p = .task
    rw [priority]
    exact inv.held p member
  · refine asleep.congr ?_ ?_ fun p => ?_
    · exact State.modify_schedule rfl
    · exact State.modify_priority rfl
    · show k₃.Runnable p ↔ _
      by_cases same : p = caller
      · subst same
        simp [State.Runnable, flags, Flags.clear]
      · simp [State.Runnable, flags, same, priority, State.modify_priority]
  · exact (flags caller).trans (if_pos rfl)
  · simp [k₂, k₁, State.withLinks, State.withSchedule]
  · simp [k₂, k₁, State.withLinks, State.withSchedule]

/-- The checks that `mini_send` makes before it looks at the destination: user processes send
only to MM and FS, and the message lies in the memory of the caller. -/
def State.maySend (k : State) (caller : Slot) (n : Int) (mPtr : UInt32) : Bool :=
  !(k.isuserp caller && !issysentn n) && messageFits (k.proc caller).pMap mPtr

theorem sysent_of_maySend {n : Int} (may : k.maySend caller n mPtr = true)
    (user : k.priority caller = .user) : issysentn n = true := by
  have isUser : k.isuserp caller = true := (k.isuserp_iff _).mpr user
  simp only [State.maySend, isUser, Bool.true_and, Bool.and_eq_true, Bool.not_not] at may
  exact may.1

theorem miniSend_cases {n : Int} {result : Result}
    (completed : miniSend k caller n mPtr = some (k', result)) :
    (k' = k ∧ result ≠ .ok) ∨
    ∃ dest, n = procNumber dest ∧ result = .ok ∧
      k.maySend caller n mPtr = true ∧ k.isemptyp dest = false ∧
      deadlock k caller dest = some false ∧
      ((k.isWaitingFor dest caller = true ∧ deliver k caller dest mPtr = some k') ∨
        (k.isWaitingFor dest caller = false ∧ blockSender k caller dest mPtr = some k')) := by
  unfold miniSend at completed
  split at completed
  case isTrue => exact .inl (by simp at completed; simp [← completed])
  case isFalse permitted =>
    cases destIs : procAddr n with
    | none => simp [destIs] at completed
    | some dest =>
      simp only [destIs, Option.bind_eq_bind, Option.bind_some] at completed
      split at completed
      case isTrue => exact .inl (by simp at completed; simp [← completed])
      case isFalse live =>
        split at completed
        case isTrue => exact .inl (by simp at completed; simp [← completed])
        case isFalse fits =>
          cases walk : deadlock k caller dest with
          | none => simp [walk] at completed
          | some locked =>
            simp only [walk, Option.bind_some] at completed
            cases locked with
            | true => exact .inl (by simp at completed; simp [← completed])
            | false =>
              have may : k.maySend caller n mPtr = true := by
                simp only [State.maySend, permitted, Bool.not_false, Bool.true_and]
                simpa using fits
              refine .inr ⟨dest, procAddr_eq_some.mp destIs, ?_⟩
              cases waits : k.isWaitingFor dest caller with
              | true =>
                simp only [waits, Bool.false_eq_true, if_false, if_true, bind_eq_some_iff,
                  Option.some.injEq, Prod.mk.injEq] at completed
                obtain ⟨after, delivered, rfl, rfl⟩ := completed
                exact ⟨rfl, may, by simpa using live, walk, .inl ⟨rfl, delivered⟩⟩
              | false =>
                simp only [waits, Bool.false_eq_true, if_false, bind_eq_some_iff,
                  Option.some.injEq, Prod.mk.injEq] at completed
                obtain ⟨after, blocked, rfl, rfl⟩ := completed
                exact ⟨rfl, may, by simpa using live, walk, .inr ⟨rfl, blocked⟩⟩

end Send

/-! ### Signals -/

section Signals

variable {scope : Scope} {k k' : State} {p : Slot}

theorem Invariant.pickProc (inv : Invariant scope k) : Invariant scope (Kernel.pickProc k) ∧
    (Kernel.pickProc k).history = k.history ∧
    (∀ q, ((Kernel.pickProc k).proc q).pFlags = (k.proc q).pFlags) ∧
    (Kernel.pickProc k).priority = k.priority := by
  obtain ⟨s, result, after⟩ := inv.scheduled.pickProc
  rw [result]
  exact ⟨⟨inv.toTableOk.withSchedule s, after⟩, rfl, fun _ => rfl, rfl⟩

/-- A process that MM has to be told of stays blocked once MM has been told. -/
theorem EntryOk.sigPending_of_pending {entry : Proc} (ok : EntryOk p entry)
    (pending : entry.pFlags.pending = true) : entry.pFlags.sigPending = true := by
  have nonempty := Finset.card_pos.mpr (ok.pending.mp pending)
  have told := ok.told
  exact ok.sigPending.mpr (by omega)

section

variable (inv : Invariant scope k)
include inv

theorem Invariant.mmWaits (receiving : (k.proc mm).pFlags.receiving = true)
    (getfrom : (k.proc mm).pGetfrom = any) (source : Slot) :
    k.isWaitingFor mm source = true := by
  have notSending : (k.proc mm).pFlags.sending = false := by
    by_contra sending
    have partner := (inv.entries mm).sendrec (by simpa using sending) receiving
    exact procNumber_ne_any _ (partner.symm.trans getfrom)
  simp [State.isWaitingFor, receiving, getfrom, notSending]

theorem hardware_send_later {mPtr : UInt32} (receiving : (k.proc mm).pFlags.receiving = true)
    (getfrom : (k.proc mm).pGetfrom = any)
    (sent : miniSend k hardware (procNumber mm) mPtr = some (k', .ok)) :
    Later scope Passive k k' ∧ (∀ q, q ≠ mm → (k'.proc q).pFlags = (k.proc q).pFlags) ∧
      k'.priority = k.priority := by
  rcases miniSend_cases sent with ⟨-, failed⟩ | ⟨dest, destIs, -, -, -, -, how⟩
  · exact absurd rfl failed
  obtain rfl : mm = dest := procNumber_injective destIs
  have waits : k.isWaitingFor mm hardware = true := inv.mmWaits receiving getfrom hardware
  have quiet : k.offer hardware = none := by
    rw [State.offer_eq_none, (inv.entries hardware).quiet rfl]
  have server : k.priority mm ≠ .user := by
    intro user
    exact absurd (((inv.entries mm).server (.inl rfl)).symm.trans user) (by decide)
  obtain ⟨after, delivered, later, -, flags, -, priority⟩ :=
    deliver_later mPtr inv waits quiet (fun user => absurd user server)
  rcases how with ⟨-, result⟩ | ⟨notWaiting, -⟩
  · obtain rfl : after = k' := some.inj (delivered.symm.trans result)
    exact ⟨later, flags, priority⟩
  · exact absurd (waits.symm.trans notWaiting) (by simp)

theorem Invariant.told (pending : (k.proc p).pFlags.pending = true) :
    Invariant scope (k.modify p fun entry =>
      { entry with pPending := ∅, pFlags := { entry.pFlags with pending := false } }) := by
  have ok := inv.entries p
  have inhibited := ok.sigPending_of_pending pending
  have busy := Flags.ne_of_sigPending inhibited
  have notSystem : ¬ p < init := fun system => by
    have clear := (ok.system system).2.1
    simp [pending] at clear
  refine inv.adjust p _ {} ?_ { ok with
    system := fun system => absurd system notSystem
    empty := fun empty => absurd (ok.empty empty) busy
    quiet := fun quiet => absurd (ok.quiet quiet) busy
    pending := by simp
    told := by simp }
  rw [Flags.clear_eq_false busy]
  exact Flags.clear_eq_false (Flags.ne_of_sigPending inhibited)

end

/-- What signalling leaves alone: the flags of tasks, the RECEIVING flags of all but MM, and the
priorities. -/
structure SignalFrame (k k' : State) : Prop where
  tasks : ∀ q, k.priority q = .task → (k'.proc q).pFlags = (k.proc q).pFlags
  receiving : ∀ q, q ≠ mm → (k'.proc q).pFlags.receiving = (k.proc q).pFlags.receiving
  priority : k'.priority = k.priority

/-- `inform` blocks nobody, and leaves the flags of tasks alone. -/
theorem inform_later (inv : Invariant scope k) (receiving : (k.proc mm).pFlags.receiving = true)
    (getfrom : (k.proc mm).pGetfrom = any) (completed : inform k = some k') :
    Later scope Passive k k' ∧ SignalFrame k k' := by
  unfold inform at completed
  split at completed
  case h_1 =>
    obtain rfl := some.inj completed
    exact ⟨.refl inv, fun _ _ => rfl, fun _ _ => rfl, rfl⟩
  case h_2 rp found =>
    have pending : (k.proc rp).pFlags.pending = true := by
      have hit := List.find?_some found
      simp only [Bool.and_eq_true] at hit
      exact hit.2
    have notSystem : ¬ rp < init := fun system => by
      have clear := ((inv.entries rp).system system).2.1
      simp [pending] at clear
    have apart : rp ≠ mm := by
      rintro rfl
      exact notSystem (by decide)
    let k₀ : State := { k with
      sigProcs := k.sigProcs - 1
      ksigs := k.ksigs ++ [(rp, (k.proc rp).pPending)] }
    have inv₀ : Invariant scope k₀ :=
      ⟨⟨inv.entries, inv.chain, inv.looseHead, inv.looseLink, inv.offers, inv.legal,
        inv.held⟩, inv.scheduled⟩
    simp only [Option.bind_eq_bind, bind_eq_some_iff] at completed
    obtain ⟨⟨k₁, result⟩, sent, completed⟩ := completed
    obtain ⟨succeeded, completed⟩ := ite_none_left_eq_some.mp completed
    obtain rfl : result = .ok := by simpa using succeeded
    obtain rfl := some.inj completed
    obtain ⟨later, flags, priority⟩ := hardware_send_later inv₀ receiving getfrom sent
    have pending₁ : (k₁.proc rp).pFlags.pending = true := by
      rw [flags rp apart]
      exact pending
    obtain ⟨picked, history, flags', priority'⟩ := (later.invariant.told pending₁).pickProc
    obtain ⟨-, events, grown, kinds⟩ := later
    refine ⟨⟨picked, events, history.trans grown, kinds⟩, fun q task => ?_, fun q apartMm => ?_,
      ?_⟩
    · have apartRp : q ≠ rp := by
        rintro rfl
        rcases (inv.entries q).others notSystem with user | none
        · exact absurd (user.symm.trans task) (by decide)
        · exact absurd (none.symm.trans task) (by decide)
      have apartMm : q ≠ mm := by
        rintro rfl
        exact absurd (((inv.entries mm).server (.inl rfl)).symm.trans task) (by decide)
      refine (flags' q).trans ?_
      rw [State.modify_proc, if_neg apartRp, flags q apartMm]
    · have kept : (k₁.proc q).pFlags.receiving = (k.proc q).pFlags.receiving := by
        rw [flags q apartMm]
      rw [flags', ← kept]
      by_cases same : q = rp <;> simp [same]
    · refine priority'.trans ?_
      rw [State.modify_priority rfl, priority]
      rfl

theorem EntryOk.causeSig {entry : Proc} (ok : EntryOk p entry) (user : entry.pPriority = .user)
    (loud : p ≠ idle ∧ p ≠ hardware) (sigNr : Nat) :
    EntryOk p { entry with
      pPending := insert sigNr entry.pPending
      pPendcount := entry.pPendcount + 1
      pFlags := { entry.pFlags with pending := true, sigPending := true } } where
  fixed := ok.fixed
  others := ok.others
  sendrec := ok.sendrec
  userSends := ok.userSends
  system system := absurd system (ok.notSystem user)
  empty empty := absurd (user.symm.trans empty) (by decide)
  quiet quiet := by simp [isidlehardware, loud] at quiet
  pending := by simp
  told := (Finset.card_insert_le _ _).trans (Nat.succ_le_succ ok.told)
  sigPending := by simp

/-- A signal for a user process keeps the invariant. -/
theorem causeSig_later {sigNr : Nat} (inv : Invariant scope k) (user : k.priority p = .user)
    (completed : causeSig k p sigNr = some k') :
    Later scope Passive k k' ∧ SignalFrame k k' := by
  have ok := inv.entries p
  have notSystem := ok.notSystem user
  have loud : p ≠ idle ∧ p ≠ hardware :=
    ⟨fun same => notSystem (same ▸ by decide), fun same => notSystem (same ▸ by decide)⟩
  have notTask : ∀ q, k.priority q = .task → q ≠ p := by
    rintro q task rfl
    exact absurd (user.symm.trans task) (by decide)
  unfold causeSig at completed
  split at completed
  case isTrue =>
    obtain rfl := some.inj completed
    exact ⟨.refl inv, fun _ _ => rfl, fun _ _ => rfl, rfl⟩
  case isFalse =>
    let count : Proc → Proc := fun entry =>
      { entry with pPending := insert sigNr entry.pPending, pPendcount := entry.pPendcount + 1 }
    let mark : Flags → Flags := fun flags => { flags with pending := true, sigPending := true }
    have goal := ok.causeSig user loud sigNr
    dsimp only at completed
    split at completed
    case isTrue pending =>
      -- Another signal is already pending: the flags are set already.
      have set : (k.proc p).pFlags.pending = true := by simpa using pending
      have marked : mark (k.proc p).pFlags = (k.proc p).pFlags := by
        have sigPending := ok.sigPending_of_pending set
        generalize (k.proc p).pFlags = flags at set sigPending
        cases flags
        simp only at set sigPending
        simp only [mark, set, sigPending]
      obtain rfl := some.inj completed
      have counted : Invariant scope (k.modify p count) :=
        inv.adjust p count {} rfl (goal.congr rfl marked.symm rfl rfl rfl rfl)
      refine ⟨.of_history counted rfl, fun q task => ?_, fun q _ => ?_, State.modify_priority rfl⟩
      · rw [State.modify_proc, if_neg (notTask q task)]
      · by_cases same : q = p <;> simp [same]
    case isFalse =>
      obtain ⟨k₁, slept, completed⟩ := bind_eq_some_iff.mp completed
      have counted : (k.modify p count).ReadyFor (k.modify p count).Runnable := by
        refine inv.scheduled.congr (State.modify_schedule rfl) (State.modify_priority rfl) ?_
        intro q
        by_cases same : q = p
        · subst same
          simp [State.Runnable, State.modify_priority, count]
        · exact State.Runnable.modify_iff {} same
      obtain ⟨s, result, asleep⟩ := counted.sleep p
      obtain rfl := some.inj (result.symm.trans slept)
      let k₂ := ((k.modify p count).withSchedule s).setFlags p mark
      have k₂Is : k₂ = (k.withSchedule s).modify p fun entry =>
          { count entry with pFlags := mark entry.pFlags } := by
        rw [show k₂ = ((k.modify p count).withSchedule s).modify p _ from rfl,
          State.modify_withSchedule (fun _ _ => rfl), State.modify_modify]
      have inv₂ : Invariant scope k₂ := by
        constructor
        · rw [k₂Is]
          exact (inv.toTableOk.withSchedule s).modify {} (goal.congr rfl rfl rfl rfl rfl rfl)
        · refine asleep.congr (State.modify_schedule rfl) (State.modify_priority rfl) fun q => ?_
          by_cases same : q = p
          · subst same
            have busy : ((k₂.proc q).pFlags).clear = false :=
              Flags.clear_eq_false (Flags.ne_of_sigPending (by simp [k₂, State.setFlags, mark]))
            simp [State.Runnable, busy]
          · simp [State.Runnable, same, k₂, State.setFlags, State.modify_priority]
      have flags : ∀ q, q ≠ p → (k₂.proc q).pFlags = (k.proc q).pFlags := by
        intro q apart
        simp [k₂, State.setFlags, apart]
      have receiving : ∀ q, (k₂.proc q).pFlags.receiving = (k.proc q).pFlags.receiving := by
        intro q
        by_cases same : q = p <;> simp [k₂, State.setFlags, count, mark, same]
      have priority : k₂.priority = k.priority := by
        rw [k₂Is]
        exact State.modify_priority rfl
      let k₃ : State := { k₂ with sigProcs := k₂.sigProcs + 1 }
      have inv₃ : Invariant scope k₃ :=
        ⟨⟨inv₂.entries, inv₂.chain, inv₂.looseHead, inv₂.looseLink, inv₂.offers, inv₂.legal,
          inv₂.held⟩, inv₂.scheduled⟩
      have later₃ : Later scope Passive k k₃ := .of_history inv₃ rfl
      split at completed
      case isTrue =>
        obtain rfl := some.inj completed
        exact ⟨later₃, fun q task => flags q (notTask q task), fun q _ => receiving q, priority⟩
      case isFalse waits =>
        have mmWaits : (k₃.proc mm).pFlags.receiving = true ∧ (k₃.proc mm).pGetfrom = any := by
          simpa using waits
        obtain ⟨later, frame⟩ := inform_later inv₃ mmWaits.1 mmWaits.2 completed
        refine ⟨later₃.trans later, fun q task => ?_, fun q apart => ?_,
          frame.priority.trans priority⟩
        · rw [frame.tasks q ((congrFun priority q).trans task)]
          exact flags q (notTask q task)
        · exact (frame.receiving q apart).trans (receiving q)

end Signals

end Minix.Kernel
