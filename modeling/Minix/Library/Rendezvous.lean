/-
This file develops synchronous message passing between processes, without the pointers.

A process that sends either meets a waiting receiver and is copied at once, or blocks in the
queue of its destination until the destination takes it out. A history is a list of such
events; replaying it gives the queues and, for every blocked process, what it offers. A guard
says which events may follow a state, and a history is legal when every event in it was
allowed by its guard at its place.

The results are about legal histories: queues and offers agree (`Linked`, `Complete`), every
accepted message is taken once (`taken_of_blocked`, `blocked_of_taken`), and queues hold their
members in the order in which they blocked (`waiting_order`).
-/

import Mathlib.Data.List.Induction
import Mathlib.Data.List.Nodup
import Mathlib.Data.List.Pairwise
import Mathlib.Logic.Function.Basic

namespace Rendezvous

open Function (update update_of_ne update_self)

variable {Process Buffer Filter : Type*}

/-! ### Events -/

/-- What happens to messages and processes. `delivered` is a send that meets its receiver and
`blocked` one that does not; `received` takes a blocked sender out of its queue, and `notified` is a
message that no process has sent. A process that forks copies all it has to the child, an exit
withdraws what the process offers. -/
inductive Event (Process Buffer Filter : Type*)
  | delivered (sender dest : Process) (source target : Buffer)
  | blocked (sender dest : Process) (buffer : Buffer)
  | received (sender dest : Process) (filter : Filter) (source target : Buffer)
  | notified (dest : Process)
  | forked (parent child : Process)
  | exited (process : Process)
deriving DecidableEq

/-- The senders blocked on each process, in order, and what each process offers to whom. -/
structure State (Process Buffer : Type*) where
  waiting : Process → List Process
  offer : Process → Option (Process × Buffer)

/-- The event is about what the process sends. -/
def Event.Concerns (process : Process) : Event Process Buffer Filter → Prop
  | .delivered sender .. => sender = process
  | .blocked sender .. => sender = process
  | .received sender .. => sender = process
  | .notified _ => False
  | .forked _ child => child = process
  | .exited other => other = process

/-- The process offers a message to another one. -/
def State.WaitsFor (s : State Process Buffer) (process other : Process) : Prop :=
  ∃ buffer, s.offer process = some (other, buffer)

section Replay

variable [DecidableEq Process]

/-- The effect of an event. -/
def State.apply (s : State Process Buffer) : Event Process Buffer Filter → State Process Buffer
  | .delivered .. | .notified _ => s
  | .blocked sender dest buffer =>
    { waiting := update s.waiting dest (s.waiting dest ++ [sender])
      offer := update s.offer sender (some (dest, buffer)) }
  | .received sender dest .. =>
    { waiting := update s.waiting dest ((s.waiting dest).erase sender)
      offer := update s.offer sender none }
  | .forked parent child =>
    { waiting := update s.waiting child (s.waiting parent)
      offer := update s.offer child (s.offer parent) }
  | .exited process =>
    { waiting := fun dest => (s.waiting dest).erase process
      offer := update s.offer process none }

/-- The state after a history. -/
def replay (history : List (Event Process Buffer Filter)) : State Process Buffer :=
  history.foldl State.apply ⟨fun _ => [], fun _ => none⟩

@[simp] theorem replay_append (history events : List (Event Process Buffer Filter)) :
    replay (history ++ events) = events.foldl State.apply (replay history) := by
  rw [replay, replay, List.foldl_append]

/-! ### Legal histories -/

/-- Every event of the history was allowed at its place. -/
def Legal (guard : State Process Buffer → Event Process Buffer Filter → Prop)
    (history : List (Event Process Buffer Filter)) : Prop :=
  ∀ front event back, history = front ++ event :: back → guard (replay front) event

variable {guard guard' : State Process Buffer → Event Process Buffer Filter → Prop}
  {history : List (Event Process Buffer Filter)} {event : Event Process Buffer Filter}

theorem legal_nil : Legal guard [] := fun front event back split => by simp at split

theorem legal_snoc :
    Legal guard (history ++ [event]) ↔ Legal guard history ∧ guard (replay history) event := by
  constructor
  · intro legal
    refine ⟨fun front other back split => ?_, legal history event [] rfl⟩
    exact legal front other (back ++ [event]) (by simp [split])
  · rintro ⟨legal, allowed⟩ front other back split
    rcases List.eq_nil_or_concat back with rfl | ⟨middle, last, rfl⟩
    · obtain ⟨rfl, same⟩ := List.append_inj' split rfl
      obtain rfl : event = other := by simpa using same
      exact allowed
    · rw [List.concat_eq_append, ← List.cons_append, ← List.append_assoc] at split
      obtain ⟨same, -⟩ := List.append_inj' split rfl
      exact legal front other middle same

section

variable (legal : Legal guard history)
include legal

theorem Legal.append {events : List (Event Process Buffer Filter)}
    (allowed : ∀ event ∈ events, ∀ s, guard s event) : Legal guard (history ++ events) := by
  induction events using List.reverseRecOn with
  | nil => simpa using legal
  | append_singleton events event inductionHypothesis =>
    rw [← List.append_assoc, legal_snoc]
    refine ⟨inductionHypothesis fun other member => allowed other (by simp [member]), ?_⟩
    exact allowed event (by simp) _

theorem Legal.mono (weaker : ∀ s event, guard s event → guard' s event) : Legal guard' history :=
  fun front event back split => weaker _ _ (legal front event back split)

theorem Legal.invariant {Invariant : State Process Buffer → Prop}
    (initial : Invariant ⟨fun _ => [], fun _ => none⟩)
    (preserved : ∀ s event, Invariant s → guard s event → Invariant (s.apply event)) :
    Invariant (replay history) := by
  induction history using List.reverseRecOn with
  | nil => exact initial
  | append_singleton history event inductionHypothesis =>
    rw [legal_snoc] at legal
    rw [replay_append]
    exact preserved _ _ (inductionHypothesis legal.1) legal.2

end

/-! ### The guards -/

/-- What message passing itself guarantees. A sender has no other message outstanding; a
receiver takes the first sender that its filter accepts; a child has nothing outstanding, and
when its queue is `covered` its parent has no blocked senders. Queues that are not covered may
be copied, and nothing is said about them. -/
def Allowed (covered : Process → Prop) (accepts : Filter → Process → Bool)
    (s : State Process Buffer) :
    Event Process Buffer Filter → Prop
  | .delivered sender .. => s.offer sender = none
  | .blocked sender _ _ => s.offer sender = none
  | .received sender dest filter source _ =>
    (s.waiting dest).find? (accepts filter) = some sender ∧
      s.offer sender = some (dest, source)
  | .forked parent child => s.offer child = none ∧ (covered child → s.waiting parent = [])
  | .notified _ | .exited _ => True

/-- No process sends to itself, and a fork duplicates and loses no blocked sender. -/
def Clean (s : State Process Buffer) : Event Process Buffer Filter → Prop
  | .blocked sender dest _ => dest ≠ sender
  | .forked parent child => s.offer parent = none ∧ s.waiting child = []
  | _ => True

/-! ### Queues and offers -/

/-- In every covered queue each process offers a message to the owner of the queue, and is queued
once. -/
structure Linked (covered : Process → Prop) (s : State Process Buffer) : Prop where
  offers : ∀ dest process, covered dest → process ∈ s.waiting dest → s.WaitsFor process dest
  nodup : ∀ dest, covered dest → (s.waiting dest).Nodup

/-- Every process that offers a message is queued on its destination, another process. -/
def Complete (s : State Process Buffer) : Prop :=
  ∀ process dest, s.WaitsFor process dest → process ∈ s.waiting dest ∧ dest ≠ process

omit [DecidableEq Process] in
theorem Linked.notMem {covered : Process → Prop} {s : State Process Buffer}
    (linked : Linked covered s) {process dest : Process} (idle : s.offer process = none)
    (covers : covered dest) : process ∉ s.waiting dest := by
  intro member
  obtain ⟨buffer, offers⟩ := linked.offers _ _ covers member
  rw [idle] at offers
  cases offers

variable {covered : Process → Prop} {accepts : Filter → Process → Bool} {s : State Process Buffer}
  {sender dest : Process} {buffer : Buffer}

/-- An event that is allowed keeps the chains of waiting senders. -/
theorem Linked.apply (linked : Linked covered s) (allowed : Allowed covered accepts s event) :
    Linked covered (s.apply event) := by
  cases event with
  | delivered | notified => exact linked
  | blocked sender dest buffer =>
    have idle : s.offer sender = none := allowed
    refine ⟨fun other process covers member => ?_, fun other covers => ?_⟩
    · by_cases same : process = sender
      · subst same
        by_cases there : other = dest
        · subst there
          exact ⟨buffer, by simp [State.apply]⟩
        · simp only [State.apply, update_of_ne there] at member
          exact absurd member (linked.notMem idle covers)
      · have before : process ∈ s.waiting other := by
          by_cases there : other = dest
          · subst there
            simpa [State.apply, same] using member
          · simpa [State.apply, update_of_ne there] using member
        obtain ⟨offered, offers⟩ := linked.offers _ _ covers before
        exact ⟨offered, by simpa [State.apply, update_of_ne same] using offers⟩
    · by_cases there : other = dest
      · subst there
        simp only [State.apply, update_self]
        exact List.Nodup.append (linked.nodup other covers) (List.nodup_singleton sender)
          (by simpa using linked.notMem idle covers)
      · simpa [State.apply, update_of_ne there] using linked.nodup other covers
  | received sender dest filter source target =>
    obtain ⟨first, offered⟩ := allowed
    refine ⟨fun other process covers member => ?_, fun other covers => ?_⟩
    · have before : process ∈ s.waiting other ∧ process ≠ sender := by
        by_cases there : other = dest
        · subst there
          simp only [State.apply, update_self, (linked.nodup other covers).mem_erase_iff]
            at member
          exact member.symm
        · simp only [State.apply, update_of_ne there] at member
          refine ⟨member, ?_⟩
          rintro rfl
          obtain ⟨buffer, offers⟩ := linked.offers _ _ covers member
          rw [offered] at offers
          exact there (by simpa using (congrArg (Option.map Prod.fst) offers).symm)
      obtain ⟨buffer, offers⟩ := linked.offers _ _ covers before.1
      exact ⟨buffer, by simpa [State.apply, update_of_ne before.2] using offers⟩
    · by_cases there : other = dest
      · subst there
        simpa [State.apply] using (linked.nodup other covers).erase sender
      · simpa [State.apply, update_of_ne there] using linked.nodup other covers
  | forked parent child =>
    obtain ⟨idle, noSender⟩ := allowed
    refine ⟨fun other process covers member => ?_, fun other covers => ?_⟩
    · have before : process ∈ s.waiting other := by
        by_cases there : other = child
        · subst there
          simp [State.apply, noSender covers] at member
        · simpa [State.apply, update_of_ne there] using member
      have apart : process ≠ child := by
        rintro rfl
        exact linked.notMem idle covers before
      obtain ⟨buffer, offers⟩ := linked.offers _ _ covers before
      exact ⟨buffer, by simpa [State.apply, update_of_ne apart] using offers⟩
    · by_cases there : other = child
      · subst there
        simp [State.apply, noSender covers]
      · simpa [State.apply, update_of_ne there] using linked.nodup other covers
  | exited process =>
    refine ⟨fun other member covers queued => ?_, fun other covers => ?_⟩
    · simp only [State.apply, (linked.nodup other covers).mem_erase_iff] at queued
      obtain ⟨buffer, offers⟩ := linked.offers _ _ covers queued.2
      exact ⟨buffer, by simpa [State.apply, update_of_ne queued.1] using offers⟩
    · simpa [State.apply] using (linked.nodup other covers).erase process

theorem linked_of_legal (legal : Legal (Allowed covered accepts) history) :
    Linked covered (replay history) :=
  legal.invariant ⟨fun _ _ _ member => by simp at member, fun _ _ => List.nodup_nil⟩
    fun _ _ linked allowed => linked.apply allowed

/-- A clean step leaves nobody waiting for a partner that is there. -/
theorem Complete.apply (complete : Complete s) (clean : Clean s event) :
    Complete (s.apply event) := by
  intro process other waits
  cases event with
  | delivered | notified => exact complete process other waits
  | blocked sender dest buffer =>
    obtain ⟨offered, offers⟩ := waits
    by_cases same : process = sender
    · subst same
      obtain ⟨rfl, rfl⟩ : dest = other ∧ buffer = offered := by
        simpa [State.apply] using offers
      exact ⟨by simp [State.apply], clean⟩
    · have before := complete process other
        ⟨offered, by simpa [State.apply, update_of_ne same] using offers⟩
      refine ⟨?_, before.2⟩
      by_cases there : other = dest
      · subst there
        simp [State.apply, before.1]
      · simpa [State.apply, update_of_ne there] using before.1
  | received sender dest filter source target =>
    obtain ⟨offered, offers⟩ := waits
    have same : process ≠ sender := by
      rintro rfl
      simp [State.apply] at offers
    have before := complete process other
      ⟨offered, by simpa [State.apply, update_of_ne same] using offers⟩
    refine ⟨?_, before.2⟩
    by_cases there : other = dest
    · subst there
      simpa [State.apply, List.mem_erase_of_ne same] using before.1
    · simpa [State.apply, update_of_ne there] using before.1
  | forked parent child =>
    obtain ⟨offered, offers⟩ := waits
    obtain ⟨parentIdle, noOrphan⟩ := clean
    have same : process ≠ child := by
      rintro rfl
      simp [State.apply, parentIdle] at offers
    have before := complete process other
      ⟨offered, by simpa [State.apply, update_of_ne same] using offers⟩
    have there : other ≠ child := by
      rintro rfl
      rw [noOrphan] at before
      simp at before
    exact ⟨by simpa [State.apply, update_of_ne there] using before.1, before.2⟩
  | exited gone =>
    obtain ⟨offered, offers⟩ := waits
    have same : process ≠ gone := by
      rintro rfl
      simp [State.apply] at offers
    have before := complete process other
      ⟨offered, by simpa [State.apply, update_of_ne same] using offers⟩
    exact ⟨by simpa [State.apply, List.mem_erase_of_ne same] using before.1, before.2⟩

theorem complete_of_legal (legal : Legal Clean history) : Complete (replay history) :=
  legal.invariant (fun _ _ ⟨_, offers⟩ => by cases offers)
    fun _ _ complete clean => complete.apply clean

/-! ### Every accepted message is taken once -/

theorem offer_apply_of_not_concerns {process : Process} (other : ¬ event.Concerns process) :
    (s.apply event).offer process = s.offer process := by
  cases event with
  | delivered | notified => rfl
  | blocked sender dest buffer => exact update_of_ne (Ne.symm other) _ _
  | received sender dest filter source target => exact update_of_ne (Ne.symm other) _ _
  | forked parent child => exact update_of_ne (Ne.symm other) _ _
  | exited gone => exact update_of_ne (Ne.symm other) _ _

omit [DecidableEq Process] in
/-- While a process offers a message, the next event about it takes this message, or is its
exit. -/
theorem event_of_offer {sender dest : Process} {buffer : Buffer} {s : State Process Buffer}
    (offered : s.offer sender = some (dest, buffer)) (allowed : Allowed covered accepts s event)
    (concerns : event.Concerns sender) :
    (∃ filter target, event = .received sender dest filter buffer target) ∨
      event = .exited sender := by
  cases event with
  | delivered other place source target =>
    obtain rfl : other = sender := concerns
    rw [show s.offer other = none from allowed] at offered
    cases offered
  | blocked other place source =>
    obtain rfl : other = sender := concerns
    rw [show s.offer other = none from allowed] at offered
    cases offered
  | received other place filter source target =>
    obtain rfl : other = sender := concerns
    have both : place = dest ∧ source = buffer := by
      have same := allowed.2.symm.trans offered
      simpa using same
    obtain ⟨rfl, rfl⟩ := both
    exact .inl ⟨filter, target, rfl⟩
  | notified place => exact concerns.elim
  | forked parent child =>
    obtain rfl : child = sender := concerns
    rw [allowed.1] at offered
    cases offered
  | exited gone =>
    obtain rfl : gone = sender := concerns
    exact .inr rfl

/-- A message that is on offer is taken by the first event about its sender, if any. -/
theorem taken_of_offer {front back : List (Event Process Buffer Filter)}
    (offered : (replay front).offer sender = some (dest, buffer))
    (legal : Legal (Allowed covered accepts) (front ++ back)) :
    (∃ middle event rest, back = middle ++ event :: rest ∧
      (∀ other ∈ middle, ¬ other.Concerns sender) ∧
      ((∃ filter target, event = .received sender dest filter buffer target) ∨
        event = .exited sender)) ∨
    ((∀ other ∈ back, ¬ other.Concerns sender) ∧
      (replay (front ++ back)).offer sender = some (dest, buffer)) := by
  induction back generalizing front with
  | nil => exact .inr ⟨by simp, by simpa using offered⟩
  | cons event rest inductionHypothesis =>
    have allowed := legal front event rest rfl
    by_cases concerns : event.Concerns sender
    · exact .inl ⟨[], event, rest, rfl, by simp, event_of_offer offered allowed concerns⟩
    · rw [List.append_cons] at legal ⊢
      have still : (replay (front ++ [event])).offer sender = some (dest, buffer) := by
        rw [replay_append]
        exact (offer_apply_of_not_concerns concerns).trans offered
      rcases inductionHypothesis still legal with
        ⟨middle, taken, others, rfl, quiet, how⟩ | ⟨quiet, final⟩
      · refine .inl ⟨event :: middle, taken, others, rfl, ?_, how⟩
        simpa [concerns] using quiet
      · exact .inr ⟨by simpa [concerns] using quiet, final⟩

/-- A blocked message is taken by the first later event about its sender, which is a receive by
its destination or the exit of the sender; while there is none it is still on offer. -/
theorem taken_of_blocked {front back : List (Event Process Buffer Filter)}
    (legal : Legal (Allowed covered accepts) history)
    (split : history = front ++ .blocked sender dest buffer :: back) :
    (∃ middle event rest, back = middle ++ event :: rest ∧
      (∀ other ∈ middle, ¬ other.Concerns sender) ∧
      ((∃ filter target, event = .received sender dest filter buffer target) ∨
        event = .exited sender)) ∨
    ((∀ other ∈ back, ¬ other.Concerns sender) ∧
      (replay history).offer sender = some (dest, buffer)) := by
  rw [List.append_cons] at split
  subst split
  refine taken_of_offer ?_ legal
  simp [State.apply]

theorem Legal.front {front back : List (Event Process Buffer Filter)}
    (legal : Legal guard (front ++ back)) : Legal guard front := by
  intro before event after split
  exact legal before event (after ++ back) (by simp [split])

/-- A message on offer has been blocked, and nothing has happened to its sender since. -/
theorem blocked_of_offer
    (legal : Legal (fun s event => Allowed covered accepts s event ∧ Clean s event) history)
    (offered : (replay history).offer sender = some (dest, buffer)) :
    ∃ front back, history = front ++ .blocked sender dest buffer :: back ∧
      ∀ other ∈ back, ¬ other.Concerns sender := by
  induction history using List.reverseRecOn with
  | nil => simp [replay] at offered
  | append_singleton history event inductionHypothesis =>
    obtain ⟨legal, allowed, clean⟩ := legal_snoc.mp legal
    rw [replay_append, List.foldl_cons, List.foldl_nil] at offered
    by_cases concerns : event.Concerns sender
    · -- The only event about the sender that leaves it offering is the one that blocked it.
      cases event with
      | delivered other place source target =>
        obtain rfl : other = sender := concerns
        have idle : (replay history).offer other = none := allowed
        simp [State.apply, idle] at offered
      | blocked other place source =>
        obtain rfl : other = sender := concerns
        have both : place = dest ∧ source = buffer := by simpa [State.apply] using offered
        obtain ⟨rfl, rfl⟩ := both
        exact ⟨history, [], rfl, by simp⟩
      | received other place filter source target =>
        obtain rfl : other = sender := concerns
        simp [State.apply] at offered
      | notified place => exact concerns.elim
      | forked parent child =>
        obtain rfl : child = sender := concerns
        simp [State.apply, clean.1] at offered
      | exited gone =>
        obtain rfl : gone = sender := concerns
        simp [State.apply] at offered
    · rw [offer_apply_of_not_concerns concerns] at offered
      obtain ⟨front, back, rfl, quiet⟩ := inductionHypothesis legal offered
      refine ⟨front, back ++ [event], by simp, fun other member => ?_⟩
      rcases List.mem_append.mp member with old | new
      · exact quiet other old
      · rwa [List.mem_singleton.mp new]

/-- A message that is taken from a queue has been blocked there before, and nothing has happened
to its sender in between: it is taken once. -/
theorem blocked_of_taken {filter : Filter} {source target : Buffer}
    {front back : List (Event Process Buffer Filter)}
    (legal : Legal (fun s event => Allowed covered accepts s event ∧ Clean s event) history)
    (split : history = front ++ .received sender dest filter source target :: back) :
    ∃ before middle, front = before ++ .blocked sender dest source :: middle ∧
      ∀ other ∈ middle, ¬ other.Concerns sender := by
  have allowed := (legal _ _ _ split).1
  subst split
  exact blocked_of_offer legal.front allowed.2

/-! ### The order of the queues -/

/-- Two processes are blocked on `dest`, the first one before the second. -/
def BlockedBefore (history : List (Event Process Buffer Filter)) (dest first second : Process) :
    Prop :=
  ∃ front middle back buffer buffer',
    history = front ++ .blocked first dest buffer :: middle ++
      .blocked second dest buffer' :: back ∧
    (∀ other ∈ middle ++ back, ¬ other.Concerns first) ∧
    (∀ other ∈ back, ¬ other.Concerns second)

omit [DecidableEq Process] in
theorem BlockedBefore.snoc {dest first second : Process}
    (before : BlockedBefore history dest first second) (apart : ¬ event.Concerns first)
    (apart' : ¬ event.Concerns second) :
    BlockedBefore (history ++ [event]) dest first second := by
  obtain ⟨front, middle, back, buffer, buffer', rfl, quiet, quiet'⟩ := before
  refine ⟨front, middle, back ++ [event], buffer, buffer', by simp, ?_, ?_⟩
  · intro other member
    rw [← List.append_assoc, List.mem_append, List.mem_singleton] at member
    rcases member with old | rfl
    · exact quiet other old
    · exact apart
  · intro other member
    rw [List.mem_append, List.mem_singleton] at member
    rcases member with old | rfl
    · exact quiet' other old
    · exact apart'

theorem waiting_apply (allowed : Allowed covered accepts s event) {dest : Process}
    (covers : covered dest) :
    (∃ sender buffer, event = .blocked sender dest buffer ∧
      (s.apply event).waiting dest = s.waiting dest ++ [sender]) ∨
    ((s.apply event).waiting dest).Sublist (s.waiting dest) := by
  cases event with
  | delivered | notified => exact .inr (List.Sublist.refl _)
  | blocked sender place buffer =>
    by_cases there : dest = place
    · subst there
      exact .inl ⟨sender, buffer, rfl, by simp [State.apply]⟩
    · exact .inr (by simp [State.apply, update_of_ne there])
  | received sender place filter source target =>
    refine .inr ?_
    by_cases there : dest = place
    · subst there
      simpa [State.apply] using List.erase_sublist
    · simp [State.apply, update_of_ne there]
  | forked parent child =>
    refine .inr ?_
    by_cases there : dest = child
    · subst there
      simp [State.apply, allowed.2 covers]
    · simp [State.apply, update_of_ne there]
  | exited gone => exact .inr List.erase_sublist

theorem not_concerns_of_stays (linked : Linked covered s)
    (allowed : Allowed covered accepts s event) (clean : Clean s event) {process dest : Process}
    (covers : covered dest) (before : process ∈ s.waiting dest)
    (after : process ∈ (s.apply event).waiting dest) :
    ¬ event.Concerns process := by
  intro concerns
  obtain ⟨buffer, offered⟩ := linked.offers _ _ covers before
  obtain ⟨buffer', offered'⟩ := (linked.apply allowed).offers _ _ covers after
  rcases event_of_offer offered allowed concerns with ⟨filter, target, rfl⟩ | rfl
  · simp [State.apply] at offered'
  · simp [State.apply] at offered'

theorem waiting_order
    (legal : Legal (fun s event => Allowed covered accepts s event ∧ Clean s event) history)
    {dest : Process} (covers : covered dest) :
    ((replay history).waiting dest).Pairwise (BlockedBefore history dest) := by
  induction history using List.reverseRecOn with
  | nil => exact List.Pairwise.nil
  | append_singleton history event inductionHypothesis =>
    obtain ⟨legalBefore, allowed, clean⟩ := legal_snoc.mp legal
    have linked : Linked covered (replay history) :=
      linked_of_legal (legalBefore.mono fun _ _ both => both.1)
    have ordered := inductionHypothesis legalBefore
    rw [replay_append, List.foldl_cons, List.foldl_nil]
    have stays : ∀ process, process ∈ (replay history).waiting dest →
        process ∈ ((replay history).apply event).waiting dest → ¬ event.Concerns process :=
      fun process before after =>
      not_concerns_of_stays linked allowed clean covers before after
    rcases waiting_apply allowed covers with ⟨sender, buffer, rfl, joined⟩ | shorter
    · rw [joined] at stays ⊢
      have quiet : ∀ process ∈ (replay history).waiting dest,
          ¬ (Event.blocked sender dest buffer : Event Process Buffer Filter).Concerns process :=
        fun process member => stays process member (by simp [member])
      refine List.pairwise_append.mpr ⟨?_, List.pairwise_singleton _ _, ?_⟩
      · refine ordered.imp_of_mem fun first second before => ?_
        exact before.snoc (quiet _ first) (quiet _ second)
      · intro process member last lastIs
        obtain rfl := List.mem_singleton.mp lastIs
        obtain ⟨offered, offers⟩ := linked.offers _ _ covers member
        obtain ⟨front, back, split, since⟩ := blocked_of_offer legalBefore offers
        exact ⟨front, back, [], offered, buffer, by simp [split], by simpa using since, by simp⟩
    · refine (ordered.sublist shorter).imp_of_mem fun first second before => ?_
      exact before.snoc (stays _ (shorter.subset first) first)
        (stays _ (shorter.subset second) second)

omit [DecidableEq Process] in
theorem last_unique {Item : Type*} (property : Item → Prop) {front front' tail tail' : List Item}
    {last last' : Item} (same : front ++ last :: tail = front' ++ last' :: tail')
    (holds : property last) (holds' : property last') (none : ∀ item ∈ tail, ¬ property item)
    (none' : ∀ item ∈ tail', ¬ property item) : tail = tail' := by
  rcases List.append_eq_append_iff.mp same with ⟨between, -, split⟩ | ⟨between, -, split⟩
  · cases between with
    | nil => exact (List.cons.inj split).2
    | cons first between =>
      have behind := (List.cons.inj split).2
      exact absurd holds' (none last' (by simp [behind]))
  · cases between with
    | nil => exact (List.cons.inj split).2.symm
    | cons first between =>
      have behind := (List.cons.inj split).2
      exact absurd holds (none' last (by simp [behind]))

omit [DecidableEq Process] in
theorem BlockedBefore.asymm {dest first second : Process} (apart : first ≠ second)
    (before : BlockedBefore history dest first second) :
    ¬ BlockedBefore history dest second first := by
  rintro ⟨front', middle', back', buffer', other', split', quietSecond', quietFirst'⟩
  obtain ⟨front, middle, back, buffer, other, split, quietFirst, quietSecond⟩ := before
  -- What follows the last event about either process is the same in both decompositions.
  have afterFirst : middle ++ .blocked second dest other :: back = back' := by
    have parts : front ++ .blocked first dest buffer ::
      (middle ++ .blocked second dest other :: back)
        = (front' ++ .blocked second dest buffer' :: middle') ++
          .blocked first dest other' :: back' := by
      simpa using split.symm.trans split'
    refine last_unique (Event.Concerns first) parts rfl rfl ?_ quietFirst'
    intro event member
    rw [List.mem_append, List.mem_cons] at member
    rcases member with early | rfl | late
    · exact quietFirst event (by simp [early])
    · exact fun same => apart same.symm
    · exact quietFirst event (by simp [late])
  have afterSecond : middle' ++ .blocked first dest other' :: back' = back := by
    have parts : front' ++ .blocked second dest buffer' ::
          (middle' ++ .blocked first dest other' :: back') =
        (front ++ .blocked first dest buffer :: middle) ++ .blocked second dest other :: back := by
      simpa using split'.symm.trans split
    refine last_unique (Event.Concerns second) parts rfl rfl ?_ quietSecond
    intro event member
    rw [List.mem_append, List.mem_cons] at member
    rcases member with early | rfl | late
    · exact quietSecond' event (by simp [early])
    · exact apart
    · exact quietSecond' event (by simp [late])
  have lengths := congrArg List.length afterFirst
  have lengths' := congrArg List.length afterSecond
  simp only [List.length_append, List.length_cons] at lengths lengths'
  omega

/-- A sender is not overtaken: a receive whose filter accepts it does not take one that blocked
later. -/
theorem not_overtaken {first second dest : Process} {filter : Filter} {source target : Buffer}
    {front back : List (Event Process Buffer Filter)}
    (legal : Legal (fun s event => Allowed covered accepts s event ∧ Clean s event) history)
    (split : history = front ++ .received second dest filter source target :: back)
    (covers : covered dest) (apart : first ≠ second) (accepted : accepts filter first = true) :
    ¬ BlockedBefore front dest first second := by
  intro before
  have found := (legal _ _ _ split).1.1
  subst split
  have legalFront := legal.front
  have ordered := waiting_order legalFront covers
  have waits : first ∈ (replay front).waiting dest := by
    obtain ⟨early, middle, late, buffer, other, here, quiet, -⟩ := before
    have tailQuiet : ∀ event ∈ middle ++ .blocked second dest other :: late,
        ¬ event.Concerns first := by
      intro event member
      rw [List.mem_append, List.mem_cons] at member
      rcases member with inMiddle | rfl | inLate
      · exact quiet event (by simp [inMiddle])
      · exact fun same => apart same.symm
      · exact quiet event (by simp [inLate])
    rw [List.append_assoc, List.cons_append] at here
    rcases taken_of_blocked (legalFront.mono fun _ _ both => both.1) here with
      ⟨passed, taken, rest, tail, -, how⟩ | ⟨-, offer⟩
    · have concerns : taken.Concerns first := by
        rcases how with ⟨_, _, rfl⟩ | rfl
        · rfl
        · rfl
      exact absurd concerns (tailQuiet taken (by rw [tail]; simp))
    · exact (complete_of_legal (legalFront.mono fun _ _ both => both.2) _ _ ⟨_, offer⟩).1
  obtain ⟨-, passed, later, queue, refused⟩ := List.find?_eq_some_iff_append.mp found
  rw [queue] at waits ordered
  have behind : first ∈ later := by
    rw [List.mem_append, List.mem_cons] at waits
    rcases waits with inPassed | same | inLater
    · have refusedFirst := refused first inPassed
      simp [accepted] at refusedFirst
    · exact absurd same apart
    · exact inLater
  have order := (List.pairwise_cons.mp (List.pairwise_append.mp ordered).2.1).1 first behind
  exact before.asymm apart order

end Replay

end Rendezvous
