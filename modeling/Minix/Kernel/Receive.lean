/-
This file shows that receiving, `sys_call` as a whole and interrupts keep the invariant.

`mini_rec` is entered by a runnable process, or by one that the send half of the same `BOTH`
has just blocked; `MayReceive` is this entry condition.
-/

import Minix.Kernel.Exchange

namespace Minix.Kernel

open LinkedList
open Option (some.inj bind_eq_some_iff)

variable {scope : Scope} {k k' : State} {caller dest sender p : Slot} {src : Int} {mPtr : UInt32}
  {function : SysFunction}

/-! ### Taking a queued sender -/

/-- The first acceptable sender is unlinked, its message is copied and it is deblocked. -/
theorem takeSender_later {front back : List Slot} (inv : Invariant scope k)
    (covers : scope.Covers caller)
    (split : k.rendezvous.waiting caller = front ++ sender :: back)
    (first : (k.rendezvous.waiting caller).find? (accepts src) = some sender)
    (safe : k.priority sender = .user → k.SystemRunning) :
    ∃ k', takeSender k caller src mPtr front.getLast? sender = some k' ∧ Later scope
      Passive k k' := by
  have member : sender ∈ k.rendezvous.waiting caller := by simp [split]
  obtain ⟨sending, sendto⟩ := inv.sending covers member
  have busy := Flags.ne_of_sending sending
  obtain ⟨live, notIdle, notHardware⟩ := (inv.entries sender).live busy
  let event : Event := .received sender caller src (k.proc sender).pMessbuf mPtr
  obtain ⟨links, heads, unlinked, after⟩ := unlinkFrom_spec inv.callerQueues covers split
  have unlinkedEmit : unlinkFrom (k.emit [event]) caller front.getLast? sender =
      (k.emit [event]).withLinks links heads := by
    rw [unlinkFrom_emit, unlinked]
    rfl
  let clearSending : Flags → Flags := fun flags => { flags with sending := false }
  let k₁ := (k.emit [event]).withLinks links heads
  let k₂ := k₁.setFlags sender clearSending
  have flags : ∀ q, (k₂.proc q).pFlags =
      if q = sender then clearSending (k.proc q).pFlags else (k.proc q).pFlags := by
    intro q
    by_cases same : q = sender <;> simp [k₂, k₁, State.setFlags, same]
  have schedule : k₂.schedule = k.schedule := State.modify_schedule rfl
  have priority : k₂.priority = k.priority := State.modify_priority rfl
  have rendezvous : k₂.rendezvous = k.rendezvous.apply event := State.rendezvous_emit k event
  have asleep : k₂.ReadyFor fun q => k₂.Runnable q ∧ q ≠ sender := by
    refine inv.scheduled.congr schedule priority fun q => ?_
    by_cases same : q = sender
    · subst same
      simpa using State.not_runnable busy
    · simp [State.Runnable, flags, priority, same]
  have system : k₂.SystemRunning ↔ k.SystemRunning := by
    simp only [State.SystemRunning, priority]
    rfl
  obtain ⟨s, result, awake, -⟩ := asleep.wake (by rwa [priority]) notIdle notHardware
    (fun sorted => system.mpr (safe ((inv.entries sender).user
      ((congrArg queueOf (congrFun priority sender)).symm.trans sorted) live notIdle)))
  have sendlink : k₂.sendlink = links := State.modify_sendlink rfl
  have callerq : k₂.callerq = heads := State.modify_callerq rfl
  have offer : k₂.offer = Function.update k.offer sender none := by
    funext q
    by_cases same : q = sender
    · subst same
      simp [State.offer, flags, clearSending]
    · simp [State.offer, k₂, k₁, State.setFlags, State.withLinks, same]
  have notLoose : ¬ k.Loose scope sender := inv.callerQueues.apart sender caller covers member
  have loose : ∀ q, k₂.Loose scope q ↔ k.Loose scope q := by
    intro q
    by_cases same : q = sender
    · subst same
      exact iff_of_false (by simp [State.Loose, offer]) notLoose
    · simp [State.Loose, offer, same]
  have table : TableOk scope k₂ := by
    refine ⟨fun q => ?_, fun other coversOther => ?_, fun other q outside head => ?_,
      fun q r isLoose link => ?_, fun q => ?_, ?_, ?_⟩
    · by_cases same : q = sender
      · subst same
        have cleared := (inv.entries q).fewer (clearSending (k.proc q).pFlags) rfl rfl (by simp)
          id id id
        refine cleared.congr (congrFun priority q) (by simp [flags]) ?_ ?_ ?_ ?_ <;>
          simp [k₂, k₁, State.setFlags, State.withLinks]
      · refine (inv.entries q).congr (congrFun priority q) (by simp [flags, same]) ?_ ?_ ?_ ?_ <;>
          simp [k₂, k₁, State.setFlags, State.withLinks, same]
    · have erased : (k.rendezvous.waiting caller).erase sender = front ++ back := by
        have nodup := inv.linked.nodup caller covers
        rw [split] at nodup ⊢
        exact erase_middle nodup
      rw [sendlink, callerq, rendezvous]
      simp only [event, Rendezvous.State.apply, erased]
      exact after.chain other coversOther
    · rw [callerq] at head
      exact (loose q).mpr (after.looseHead other q outside head)
    · rw [sendlink] at link
      exact (loose r).mpr (after.looseLink q r ((loose q).mp isLoose) link)
    · rw [rendezvous, offer]
      by_cases same : q = sender
      · subst same
        simp [event, Rendezvous.State.apply]
      · simp [event, Rendezvous.State.apply, same, inv.offers]
    · rw [show k₂.history = k.history ++ [event] from rfl, Rendezvous.legal_snoc]
      refine ⟨inv.legal, first, ?_⟩
      have offers := inv.offers sender
      rw [State.offer_eq_some.mpr ⟨sending, sendto, rfl⟩] at offers
      exact offers.symm
    · intro q held
      rw [priority]
      exact inv.held q held
  refine ⟨k₂.withSchedule s, ?_, ⟨table.withSchedule s, awake⟩, [event], rfl, ?_⟩
  · simp only [takeSender]
    rw [unlinkedEmit]
    exact result
  · simp [event, Passive]

/-! ### Blocking the receiver -/

/-- The condition under which `mini_rec` is entered: the caller is runnable, or it is blocked
in the send half of the same call. -/
def MayReceive (k : State) (caller : Slot) (src : Int) (mPtr : UInt32) : Prop :=
  k.Runnable caller ∨
    (k.proc caller).pFlags = { ({} : Flags) with sending := true } ∧
      src = procNumber (k.proc caller).pSendto ∧ (k.proc caller).pMessbuf = mPtr

theorem MayReceive.notReceiving (may : MayReceive k caller src mPtr) :
    (k.proc caller).pFlags.receiving = false := by
  rcases may with runs | ⟨flags, -, -⟩
  · rw [runs.flags]
  · rw [flags]

theorem MayReceive.live (may : MayReceive k caller src mPtr) (inv : Invariant scope k) :
    k.priority caller ≠ .none ∧ caller ≠ idle ∧ caller ≠ hardware := by
  rcases may with runs | ⟨flags, -, -⟩
  · exact runs.2
  · exact (inv.entries caller).live (Flags.ne_of_sending (by rw [flags]))

theorem blockReceiver_later (inv : Invariant scope k) (may : MayReceive k caller src mPtr)
    (completed : blockReceiver k caller src mPtr = some k') : Later scope Passive k k' := by
  have ok := inv.entries caller
  have notReceiving := may.notReceiving
  obtain ⟨live, notIdle, notHardware⟩ := may.live inv
  have sendrec : (k.proc caller).pFlags.sending = true →
      src = procNumber (k.proc caller).pSendto ∧ mPtr = (k.proc caller).pMessbuf := by
    intro sending
    rcases may with runs | ⟨-, partner, buffer⟩
    · rw [runs.flags] at sending
      cases sending
    · exact ⟨partner, buffer.symm⟩
  have noted : Invariant scope (k.modify caller fun entry =>
      { entry with pGetfrom := src, pMessbuf := mPtr }) :=
    inv.adjust caller _ { messbuf := fun sending => (sendrec sending).2 } rfl
      { ok with sendrec := fun sending _ => (sendrec sending).1 }
  obtain ⟨k₁, slept, completed⟩ := bind_eq_some_iff.mp completed
  obtain ⟨s, result, sleeps⟩ := noted.sleep caller
  obtain rfl := some.inj (result.symm.trans slept)
  let receive : Proc → Proc := fun entry =>
    { entry with pFlags := { entry.pFlags with receiving := true } }
  let k₂ := ((k.modify caller fun entry => { entry with pGetfrom := src, pMessbuf := mPtr
    }).withSchedule s).modify caller receive
  have inv₂ : Invariant scope k₂ := by
    refine sleeps receive {} (Flags.clear_eq_false (Flags.ne_of_receiving rfl)) ?_
    have noted := (noted.toTableOk.withSchedule s).entries caller
    simp only [State.priority] at live
    refine { noted with
      sendrec := fun sending _ => ?_
      empty := fun empty => ?_
      quiet := fun quiet => ?_ }
    · simp [receive, State.withSchedule] at sending ⊢
      exact (sendrec sending).1
    · simp [receive, State.withSchedule] at empty
      exact absurd empty live
    · simp [isidlehardware, notIdle, notHardware] at quiet
  have later₂ : Later scope Passive k k₂ := .of_history inv₂ rfl
  dsimp only at completed
  split at completed
  case isTrue told =>
    obtain ⟨-, rfl, rfl⟩ := told
    exact later₂.trans (inform_later inv₂ (by simp [k₂, receive])
      (by simp [k₂, receive]) completed).1
  case isFalse =>
    obtain rfl := some.inj completed
    exact later₂

/-! ### `mini_rec` and `sys_call` -/

section

variable (inv : Invariant scope k)
include inv

theorem Invariant.sender_notUser (user : k.priority caller = .user) (covers : scope.Covers caller)
    (member : sender ∈ k.rendezvous.waiting caller) :
    k.priority sender ≠ .user := by
  obtain ⟨sending, sendto⟩ := inv.sending covers member
  intro userSends
  have partner := (inv.entries sender).userSends userSends sending
  rw [sendto] at partner
  exact absurd (((inv.entries caller).server partner).symm.trans user) (by decide)

/-- `mini_rec` takes a queued sender, takes a blocked interrupt or blocks. A user process must
not be deblocked while another one runs. A process whose queue is not described takes no sender:
it accepts messages only from one that sends to nobody. -/
theorem miniRec_later (may : MayReceive k caller src mPtr)
    (mode : (k.proc caller).pFlags.sending = false → k.priority caller = .user ∨ k.SystemRunning)
    (outside : (k.proc caller).pFlags.sending = false → ¬ scope.Covers caller →
      ∀ sender, accepts src sender = true → (k.proc sender).pFlags.sending = false)
    (completed : miniRec k caller src mPtr = some k') : Later scope Passive k k' := by
  unfold miniRec at completed
  split at completed
  case isTrue => exact blockReceiver_later inv may completed
  case isFalse sending =>
    have notSending : (k.proc caller).pFlags.sending = false := by simpa using sending
    split at completed
    case h_1 => cases completed
    case h_2 previous sender walk =>
      by_cases covers : scope.Covers caller
      · rw [(inv.chain caller covers).scan_eq (accepts src) (inv.chain caller covers).length_le
          none, Option.some.injEq] at walk
        obtain ⟨front, back, split, -, -, previousIs⟩ := locate_eq_some walk
        obtain rfl : previous = front.getLast? := by simpa using previousIs
        have safe : k.priority sender = .user → k.SystemRunning := by
          intro user
          rcases mode notSending with callerUser | system
          · exact absurd user (inv.sender_notUser callerUser covers (by simp [split]))
          · exact system
        obtain ⟨after, result, later⟩ :=
          takeSender_later inv covers split (find_of_locate walk) safe
        obtain rfl : after = k' := some.inj (result.symm.trans completed)
        exact later
      · have found := scan_found (k.Loose scope) (by simp)
          (fun p head => inv.looseHead caller p covers head) inv.looseLink walk
        have quiet := outside notSending covers sender found.1
        rw [found.2.1.sending.1] at quiet
        cases quiet
    case h_3 =>
      split at completed
      case isTrue =>
        obtain rfl := some.inj completed
        have noted : Invariant scope (k.emit [.notified caller]) := inv.emit rfl trivial
        exact .notified (noted.adjust caller _ {} rfl { inv.entries caller with }) rfl
      case isFalse => exact blockReceiver_later inv may completed

theorem Invariant.runs (notIdle : k.procPtr ≠ idle) :
    k.Runnable k.procPtr :=
  inv.scheduled.running notIdle

theorem Invariant.mode (notIdle : k.procPtr ≠ idle) :
    k.priority k.procPtr = .user ∨ k.SystemRunning := by
  by_cases sorted : queueOf (k.priority k.procPtr) = .user
  · exact .inl ((inv.entries _).user sorted (inv.runs notIdle).2.1 notIdle)
  · exact .inr sorted

theorem Invariant.user_of_outside (runs : k.Runnable caller) (outside : ¬ scope.Covers caller) :
    k.priority caller = .user := by
  cases scope with
  | system => exact ((inv.entries caller).others outside).resolve_right runs.2.1
  | every => exact absurd trivial outside

end

theorem accepts_procNumber : accepts (procNumber dest) p = true ↔ p = dest := by
  simp only [accepts, procNumber_ne_any, Bool.or_eq_true, beq_iff_eq, false_or]
  exact ⟨fun same => (procNumber_injective same).symm, fun same => same ▸ rfl⟩

/-- The events of a system call: at most one blocked send of the running process. -/
def SysCallEvent (k : State) (function : SysFunction) (srcDest : Int) (mPtr : UInt32)
    (event : Event) : Prop :=
  Passive event ∨ ∃ dest, function ≠ .receive ∧ srcDest = procNumber dest ∧
    k.maySend k.procPtr srcDest mPtr = true ∧ event = .blocked k.procPtr dest mPtr

/-- The send half of a system call, and what it leaves for the receive half. -/
theorem miniSend_later {srcDest : Int} {sent : Result} {k₁ : State} (inv : Invariant scope k)
    (notIdle : k.procPtr ≠ idle) (sends : function ≠ .receive)
    (send : miniSend k k.procPtr srcDest mPtr = some (k₁, sent)) :
    Later scope (SysCallEvent k function srcDest mPtr) k k₁ ∧ (sent = .ok →
      MayReceive k₁ k.procPtr srcDest mPtr ∧
      ((k₁.proc k.procPtr).pFlags.sending = false →
        (k₁.priority k.procPtr = .user ∨ k₁.SystemRunning) ∧
        ∀ sender, accepts srcDest sender = true →
          (k₁.proc sender).pFlags.sending = false)) := by
  have runs := inv.runs notIdle
  have mode := inv.mode notIdle
  rcases miniSend_cases send with ⟨rfl, failed⟩ |
    ⟨dest, rfl, -, may, live, free, ⟨waits, delivered⟩ | ⟨-, blocked⟩⟩
  · exact ⟨.refl inv, fun ok => absurd ok failed⟩
  · have idle : k.offer k.procPtr = none := by rw [State.offer_eq_none, runs.flags]
    have receiving : (k.proc dest).pFlags.receiving = true := by
      simp only [State.isWaitingFor, Bool.and_eq_true] at waits
      exact waits.1.1
    have apart : k.procPtr ≠ dest := by
      intro same
      rw [← same, runs.flags] at receiving
      cases receiving
    have safe : k.priority dest = .user → k.SystemRunning := by
      intro user
      refine mode.resolve_left fun callerUser => ?_
      have system := eq_mm_or_fs (sysent_of_maySend may callerUser)
      exact absurd (((inv.entries dest).server system).symm.trans user) (by decide)
    obtain ⟨after, result, later, system, flags, quiet, priority⟩ :=
      deliver_later mPtr inv waits idle safe
    obtain rfl : after = k₁ := some.inj (result.symm.trans delivered)
    refine ⟨later.mono fun _ => .inl, fun _ => ⟨.inl ?_, fun _ => ?_⟩⟩
    · simpa only [State.Runnable, flags _ apart, priority] using runs
    · refine ⟨?_, fun sender accepted => ?_⟩
      · rw [priority]
        exact mode.imp_right system
      · rw [accepts_procNumber.mp accepted]
        exact quiet
  · have userDest : k.priority k.procPtr = .user → dest = mm ∨ dest = fs := fun callerUser =>
      eq_mm_or_fs (sysent_of_maySend may callerUser)
    obtain ⟨later, flags, sendto, buffer, priority⟩ :=
      blockSender_later inv runs userDest blocked
    refine ⟨later.mono fun event same => .inr ⟨dest, sends, rfl, may, same⟩,
      fun _ => ⟨.inr ?_, ?_⟩⟩
    · exact ⟨flags, by rw [sendto], buffer⟩
    · intro notSending
      rw [flags] at notSending
      cases notSending

theorem sysCall_later {srcDest : Int} {result : Result} (inv : Invariant scope k)
    (notIdle : k.procPtr ≠ idle) (completed : sysCall k function srcDest mPtr = some (k', result)) :
    Later scope (SysCallEvent k function srcDest mPtr) k k' := by
  have runs := inv.runs notIdle
  have mode := inv.mode notIdle
  unfold sysCall at completed
  split at completed
  case isTrue =>
    obtain ⟨rfl, -⟩ := Prod.mk.inj (some.inj completed)
    exact .refl inv
  dsimp only at completed
  split at completed
  case isTrue =>
    obtain ⟨rfl, -⟩ := Prod.mk.inj (some.inj completed)
    exact .refl inv
  case isFalse permitted =>
    split at completed
    case isTrue receives =>
      obtain ⟨after, received, same⟩ := bind_eq_some_iff.mp completed
      obtain ⟨rfl, -⟩ := Prod.mk.inj (some.inj same)
      refine (miniRec_later inv (.inl runs) (fun _ => mode) (fun _ outside => ?_) received).mono
        fun _ => .inl
      have user : k.isuserp k.procPtr = true :=
        (k.isuserp_iff _).mpr (inv.user_of_outside runs outside)
      simp [user, receives] at permitted
    case isFalse sends =>
      obtain ⟨⟨k₁, sent⟩, send, completed⟩ := bind_eq_some_iff.mp completed
      have half := miniSend_later inv notIdle sends send
      split at completed
      case isTrue =>
        obtain ⟨rfl, -⟩ := Prod.mk.inj (some.inj completed)
        exact half.1
      case isFalse continues =>
        obtain ⟨after, received, same⟩ := bind_eq_some_iff.mp completed
        obtain ⟨rfl, -⟩ := Prod.mk.inj (some.inj same)
        have ok : sent = .ok := by
          by_contra failed
          exact continues (.inr failed)
        obtain ⟨may, entered⟩ := half.2 ok
        exact half.1.trans ((miniRec_later half.1.invariant may
          (fun notSending => (entered notSending).1) (fun notSending _ => (entered notSending).2)
          received).mono fun _ => .inl)

/-! ### Interrupts -/

/-- An interrupt blocks nobody: its message is delivered or stays pending. -/
theorem interrupt_later {rp : Slot} {competing : Bool} (inv : Invariant scope k)
    (task : k.priority rp = .task) (completed : interrupt k rp competing = some k') :
    Later scope Passive k k' := by
  have ok := inv.entries rp
  unfold interrupt at completed
  split at completed
  case isTrue =>
    split at completed
    case isTrue =>
      obtain rfl := some.inj completed
      exact .refl inv
    case isFalse =>
      obtain rfl := some.inj completed
      have noted : Invariant scope (k.modify rp fun entry => { entry with pIntHeld := true }) :=
        inv.adjust rp _ {} rfl { ok with }
      refine .of_history ⟨⟨noted.entries, noted.chain, noted.looseHead, noted.looseLink,
        noted.offers, noted.legal, ?_⟩,
        noted.scheduled⟩ rfl
      intro p member
      rw [List.mem_append, List.mem_singleton] at member
      rcases member with old | rfl
      · exact noted.held p old
      · refine Eq.trans ?_ task
        simp [State.priority]
  case isFalse =>
    split at completed
    case isTrue =>
      obtain rfl := some.inj completed
      exact .of_history (inv.adjust rp _ {} rfl { ok with }) rfl
    case isFalse waits =>
      have busy : (k.proc rp).pFlags.receiving = true ∧ (k.proc rp).pFlags.sending = false := by
        simp only [Bool.or_eq_true, Bool.not_eq_true', not_or, Bool.not_eq_false,
          Bool.and_eq_true] at waits
        exact waits.1
      have notClear := Flags.ne_of_receiving busy.1
      obtain ⟨live, notIdle, notHardware⟩ := ok.live notClear
      have system : rp < init := by
        by_contra outside
        rcases ok.others outside with user | none
        · exact absurd (user.symm.trans task) (by decide)
        · exact absurd (none.symm.trans task) (by decide)
      obtain ⟨noMap, pending, sigPending, pStop⟩ := ok.system system
      have noted : Invariant scope (k.emit [.notified rp]) := inv.emit rfl trivial
      obtain ⟨s, result, awake, -⟩ := noted.wake rp
        (fun entry =>
          { entry with pFlags := { entry.pFlags with receiving := false }, pIntBlocked := false })
        (State.not_runnable notClear) {}
        ((ok.fewer { (k.proc rp).pFlags with receiving := false } rfl rfl id (by simp) id id).congr
          rfl rfl rfl rfl rfl rfl)
        live notIdle notHardware (fun (sorted : queueOf (k.priority rp) = .user) => by
          rw [task] at sorted
          cases sorted)
      have clear : (((k.emit [.notified rp]).modify rp fun entry => { entry with
          pFlags := { entry.pFlags with receiving := false }, pIntBlocked := false }).proc
          rp).pFlags.clear = true := by
        rw [Flags.clear_iff]
        simp [busy, noMap, pending, sigPending, pStop]
      rw [readyIfClear, if_pos clear] at result
      obtain rfl := some.inj (result.symm.trans completed)
      exact .notified awake rfl

theorem unhold_later (inv : Invariant scope k) (completed : unhold k = some k') :
    Later scope Passive k k' := by
  unfold unhold at completed
  cases held : k.held with
  | nil =>
    simp only [held] at completed
    obtain rfl := some.inj completed
    exact .refl inv
  | cons rp rest =>
    simp only [held] at completed
    have task : k.priority rp = .task := inv.held rp (by simp [held])
    have rested : Invariant scope { k with held := rest } :=
      ⟨⟨inv.entries, inv.chain, inv.looseHead, inv.looseLink, inv.offers, inv.legal, fun p member =>
        inv.held p (by simp [held, member])⟩, inv.scheduled⟩
    have noted := rested.adjust rp (fun entry => { entry with pIntHeld := false }) {} rfl
      { inv.entries rp with }
    have later := interrupt_later noted (by simpa [State.priority] using task) completed
    exact ⟨later.invariant, later.history⟩

end Minix.Kernel
