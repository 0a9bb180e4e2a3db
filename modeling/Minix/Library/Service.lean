/-
This file develops a desk that serves several queues of requests. The first request of a queue is
started and finished before the next one is; a request that waits behind it may be dropped. Each
request that was finished or dropped is owed an answer, which is sent later.

What holds in every run is stated on the events: requests of a queue are started in the order in
which they arrived and one at a time, and a request that arrived once is answered once and not
worked on after that.
-/

import Mathlib.Data.List.Nodup
import Minix.Library.Transition

namespace Service

open Function (update update_of_ne update_self)
open Option (some.inj ite_none_right_eq_some)
open Transition

variable {Queue Request Status : Type*}

/-- What happens at the desk. -/
inductive Event (Queue Request Status : Type*)
  | arrive (queue : Queue) (request : Request)
  | start (queue : Queue) (request : Request)
  | move (queue : Queue) (request : Request)
  | finish (queue : Queue) (request : Request) (status : Status)
  | drop (queue : Queue) (request : Request) (status : Status)
  | send (request : Request) (status : Status)

namespace Event

/-- The requests that arrive, with their queues. -/
def arrival : Event Queue Request Status → Option (Queue × Request)
  | .arrive queue request => some (queue, request)
  | _ => none

def starting : Event Queue Request Status → Option (Queue × Request)
  | .start queue request => some (queue, request)
  | _ => none

def finishing : Event Queue Request Status → Option (Queue × Request)
  | .finish queue request _ => some (queue, request)
  | _ => none

/-- The requests that are done, with what their answers will be. -/
def answer : Event Queue Request Status → Option (Queue × Request × Status)
  | .finish queue request status | .drop queue request status => some (queue, request, status)
  | _ => none

/-- The answers that are sent. -/
def sending : Event Queue Request Status → Option (Request × Status)
  | .send request status => some (request, status)
  | _ => none

end Event

section Distinct

variable {events : List (Event Queue Request Status)} {queue queue' : Queue} {request : Request}

/-- Every request arrives once. -/
def Distinct (events : List (Event Queue Request Status)) : Prop :=
  ((events.filterMap Event.arrival).map Prod.snd).Nodup

theorem Distinct.of_append {more : List (Event Queue Request Status)}
    (distinct : Distinct (events ++ more)) : Distinct events := by
  rw [Distinct, List.filterMap_append, List.map_append] at distinct
  exact List.Nodup.of_append_left distinct

theorem Distinct.queue_eq (distinct : Distinct events)
    (first : (queue, request) ∈ events.filterMap Event.arrival)
    (second : (queue', request) ∈ events.filterMap Event.arrival) : queue = queue' := by
  have same := List.inj_on_of_nodup_map distinct first second rfl
  exact congrArg Prod.fst same

end Distinct

/-- The requests in each queue, the first of which may have been started, and the answers that are
still to be sent. -/
structure Desk (Queue Request Status : Type*) where
  waiting : Queue → List Request := fun _ => []
  busy : Queue → Bool := fun _ => false
  owed : List (Request × Status) := []

namespace Desk

variable [DecidableEq Queue] [DecidableEq Request] [DecidableEq Status]

def step (desk : Desk Queue Request Status) :
    Event Queue Request Status → Option (Desk Queue Request Status)
  | .arrive queue request =>
    some { desk with waiting := update desk.waiting queue (desk.waiting queue ++ [request]) }
  | .start queue request =>
    if desk.busy queue = false ∧ (desk.waiting queue).head? = some request then
      some { desk with busy := update desk.busy queue true }
    else none
  | .move queue request =>
    if desk.busy queue = true ∧ (desk.waiting queue).head? = some request then some desk else none
  | .finish queue request status =>
    if desk.busy queue = true ∧ (desk.waiting queue).head? = some request then
      some
        { waiting := update desk.waiting queue (desk.waiting queue).tail
          busy := update desk.busy queue false
          owed := desk.owed ++ [(request, status)] }
    else none
  | .drop queue request status =>
    if request ∈ (desk.waiting queue).tail then
      some
        { desk with
          waiting := update desk.waiting queue
            ((desk.waiting queue).take 1 ++ (desk.waiting queue).tail.erase request)
          owed := desk.owed ++ [(request, status)] }
    else none
  | .send request status =>
    if (request, status) ∈ desk.owed then
      some { desk with owed := desk.owed.erase (request, status) }
    else none

/-- The runs of a desk that starts with nothing to do. -/
def Serves (events : List (Event Queue Request Status)) (desk : Desk Queue Request Status) : Prop :=
  Run step (fun _ _ => True) {} events desk

variable {events : List (Event Queue Request Status)} {desk desk' : Desk Queue Request Status}
  {event : Event Queue Request Status} {queue queue' : Queue} {request : Request} {status : Status}

theorem Serves.snoc (serves : Serves events desk) (done : desk.step event = some desk') :
    Serves (events ++ [event]) desk' :=
  Run.snoc serves trivial done

theorem Serves.send_all (serves : Serves events desk) {answers : List (Request × Status)}
    (all : answers.Perm desk.owed) :
    Serves (events ++ answers.map fun answer => .send answer.1 answer.2)
      { desk with owed := [] } := by
  induction answers generalizing events desk with
  | nil =>
    rw [List.map_nil, List.append_nil]
    have none : desk.owed = [] := List.nil_perm.mp all
    rwa [← none]
  | cons answer answers inductionHypothesis =>
    have member : (answer.1, answer.2) ∈ desk.owed := all.subset List.mem_cons_self
    have sent := serves.snoc (show desk.step (.send answer.1 answer.2) = some _ from if_pos member)
    have rest : answers.Perm (desk.owed.erase (answer.1, answer.2)) := by
      have erased := all.erase answer
      rwa [List.erase_cons_head] at erased
    have done := inductionHypothesis sent rest
    rwa [List.append_assoc] at done

/-! ### What is conserved -/

/-- What has happened to the requests so far. -/
structure Accounts (events : List (Event Queue Request Status))
    (desk : Desk Queue Request Status) : Prop where
  arrived : ∀ queue request, (events.filterMap Event.arrival).count (queue, request) =
    ((events.filterMap Event.answer).map fun done => (done.1, done.2.1)).count (queue, request) +
      (desk.waiting queue).count request
  answered : ∀ request status,
    ((events.filterMap Event.answer).map Prod.snd).count (request, status) =
      (events.filterMap Event.sending).count (request, status) +
        desk.owed.count (request, status)
  started : ∀ queue,
    (events.filterMap Event.starting).countP (·.1 = queue) =
      (events.filterMap Event.finishing).countP (·.1 = queue) + if desk.busy queue then 1 else 0
  busy : ∀ queue, desk.busy queue = true → desk.waiting queue ≠ []
  inOrder : ∀ queue,
    (((events.filterMap Event.starting).filter (·.1 = queue)).map Prod.snd ++
      if desk.busy queue then (desk.waiting queue).tail else desk.waiting queue).Sublist
    (((events.filterMap Event.arrival).filter (·.1 = queue)).map Prod.snd)

section

variable (done : desk.step event = some desk')
include done

theorem count_waiting (queue : Queue) (request : Request) :
    (desk.waiting queue).count request +
        (event.arrival.toList.count (queue, request)) =
      (desk'.waiting queue).count request +
        (event.answer.toList.map fun done => (done.1, done.2.1)).count (queue, request) := by
  cases event with
  | arrive queue' request' =>
    obtain rfl := some.inj done
    by_cases same : queue = queue'
    · subst same
      by_cases same' : request' = request <;> simp [Event.arrival, Event.answer, same']
    · simp [Event.arrival, Event.answer, same, Ne.symm same]
  | start queue' request' | move queue' request' | send request' status' =>
    obtain ⟨-, done'⟩ := ite_none_right_eq_some.mp done
    cases done'
    simp [Event.arrival, Event.answer]
  | finish queue' request' status' =>
    obtain ⟨here, done'⟩ := ite_none_right_eq_some.mp done
    cases done'
    by_cases same : queue = queue'
    · subst same
      obtain ⟨rest, split⟩ := List.head?_eq_some_iff.mp here.2
      by_cases same' : request' = request <;>
        simp [Event.arrival, Event.answer, split, same']
    · simp [Event.arrival, Event.answer, same, Ne.symm same]
  | drop queue' request' status' =>
    obtain ⟨here, done'⟩ := ite_none_right_eq_some.mp done
    cases done'
    by_cases same : queue = queue'
    · subst same
      cases waits : desk.waiting queue with
      | nil => simp [waits] at here
      | cons first rest =>
        rw [waits, List.tail_cons] at here
        by_cases same' : request' = request
        · subst same'
          have positive := List.count_pos_iff.mpr here
          simp only [Event.arrival, Event.answer, Option.toList, List.map_cons, List.map_nil,
            List.count_nil, List.count_cons, List.count_append, List.count_erase_self,
            update_self, List.take_succ_cons, List.take_zero, List.tail_cons]
          simp
          omega
        · simp [Event.arrival, Event.answer, List.count_cons, List.count_erase_of_ne,
            Ne.symm same', same']
    · simp [Event.arrival, Event.answer, same, Ne.symm same]

theorem count_owed (request : Request) (status : Status) :
    desk.owed.count (request, status) + (event.answer.toList.map Prod.snd).count (request, status) =
      desk'.owed.count (request, status) + event.sending.toList.count (request, status) := by
  cases event with
  | arrive queue' request' =>
    obtain rfl := some.inj done
    simp [Event.sending, Event.answer]
  | start queue' request' | move queue' request' =>
    obtain ⟨-, done'⟩ := ite_none_right_eq_some.mp done
    cases done'
    simp [Event.sending, Event.answer]
  | finish queue' request' status' | drop queue' request' status' =>
    obtain ⟨-, done'⟩ := ite_none_right_eq_some.mp done
    cases done'
    simp [Event.sending, Event.answer]
  | send request' status' =>
    obtain ⟨here, done'⟩ := ite_none_right_eq_some.mp done
    cases done'
    by_cases same : (request', status') = (request, status)
    · cases same
      have positive := List.count_pos_iff.mpr here
      simp [Event.sending, Event.answer]
      omega
    · have other : (request, status) ≠ (request', status') := fun equal => same equal.symm
      simp [Event.sending, Event.answer, List.count_erase_of_ne other, same]

theorem step_busy (busy : ∀ queue, desk.busy queue = true → desk.waiting queue ≠ []) (queue : Queue)
    (works : desk'.busy queue = true) : desk'.waiting queue ≠ [] := by
  have before := busy queue
  cases event with
  | arrive queue' request' =>
    obtain rfl := some.inj done
    by_cases same : queue = queue'
    · subst same
      simp
    · simpa [update_of_ne same] using before works
  | start queue' request' =>
    obtain ⟨here, done'⟩ := ite_none_right_eq_some.mp done
    cases done'
    by_cases same : queue = queue'
    · subst same
      exact List.ne_nil_of_mem (List.mem_of_mem_head? here.2)
    · simp only [update_of_ne same] at works
      exact before works
  | move queue' request' | send request' status' =>
    obtain ⟨-, done'⟩ := ite_none_right_eq_some.mp done
    cases done'
    exact before works
  | finish queue' request' status' =>
    obtain ⟨-, done'⟩ := ite_none_right_eq_some.mp done
    cases done'
    by_cases same : queue = queue'
    · subst same
      simp at works
    · simp only [update_of_ne same] at works ⊢
      exact before works
  | drop queue' request' status' =>
    obtain ⟨here, done'⟩ := ite_none_right_eq_some.mp done
    cases done'
    by_cases same : queue = queue'
    · subst same
      cases waits : desk.waiting queue with
      | nil => simp [waits] at here
      | cons first rest => simp
    · simp only [update_of_ne same]
      exact before works

theorem count_started (queue : Queue) :
    (event.starting.toList.countP (·.1 = queue)) + (if desk.busy queue then 1 else 0) =
      (event.finishing.toList.countP (·.1 = queue)) + if desk'.busy queue then 1 else 0 := by
  cases event with
  | arrive queue' request' =>
    obtain rfl := some.inj done
    simp [Event.starting, Event.finishing]
  | move queue' request' | send request' status' | drop queue' request' status' =>
    obtain ⟨-, done'⟩ := ite_none_right_eq_some.mp done
    cases done'
    simp [Event.starting, Event.finishing]
  | start queue' request' | finish queue' request' status' =>
    obtain ⟨here, done'⟩ := ite_none_right_eq_some.mp done
    cases done'
    by_cases same : queue = queue'
    · subst same
      simp [Event.starting, Event.finishing, here.1]
    · simp [Event.starting, Event.finishing, update_of_ne same, Ne.symm same]

end

/-- The requests of a queue that were not started yet. -/
def remaining (desk : Desk Queue Request Status) (queue : Queue) : List Request :=
  if desk.busy queue then (desk.waiting queue).tail else desk.waiting queue

theorem remaining_step (done : desk.step event = some desk')
    (busy : ∀ queue, desk.busy queue = true → desk.waiting queue ≠ []) (queue : Queue) :
    ((event.starting.toList.filter (·.1 = queue)).map Prod.snd ++ desk'.remaining queue).Sublist
      (desk.remaining queue ++ (event.arrival.toList.filter (·.1 = queue)).map Prod.snd) := by
  cases event with
  | arrive queue' request' =>
    obtain rfl := some.inj done
    by_cases same : queue = queue'
    · subst same
      rw [remaining, remaining]
      dsimp only
      rw [update_self]
      split
      case isTrue works =>
        rw [List.tail_append_of_ne_nil (busy queue works)]
        simp [Event.starting, Event.arrival]
      case isFalse => simp [Event.starting, Event.arrival]
    · simp [remaining, Event.starting, Event.arrival, update_of_ne same, Ne.symm same]
  | move queue' request' | send request' status' =>
    obtain ⟨-, done'⟩ := ite_none_right_eq_some.mp done
    cases done'
    simp [remaining, Event.starting, Event.arrival]
  | start queue' request' =>
    obtain ⟨here, done'⟩ := ite_none_right_eq_some.mp done
    cases done'
    by_cases same : queue = queue'
    · subst same
      obtain ⟨rest, split⟩ := List.head?_eq_some_iff.mp here.2
      simp [remaining, Event.starting, Event.arrival, here.1, split]
    · simp [remaining, Event.starting, Event.arrival, update_of_ne same, Ne.symm same]
  | finish queue' request' status' =>
    obtain ⟨here, done'⟩ := ite_none_right_eq_some.mp done
    cases done'
    by_cases same : queue = queue'
    · subst same
      simp [remaining, Event.starting, Event.arrival, here.1]
    · simp [remaining, Event.starting, Event.arrival, update_of_ne same]
  | drop queue' request' status' =>
    obtain ⟨here, done'⟩ := ite_none_right_eq_some.mp done
    cases done'
    by_cases same : queue = queue'
    · subst same
      cases waits : desk.waiting queue with
      | nil => simp [waits] at here
      | cons first rest =>
        simp only [remaining, Event.starting, Event.arrival, waits, update_self]
        split
        · simpa using List.erase_sublist
        · simpa using List.erase_sublist
    · simp [remaining, Event.starting, Event.arrival, update_of_ne same]

theorem filterMap_snoc {Label Result : Type*} (project : Label → Option Result)
    (labels : List Label) (label : Label) :
    (labels ++ [label]).filterMap project = labels.filterMap project ++ (project label).toList := by
  rw [List.filterMap_append]
  cases found : project label <;> simp [found]

theorem Serves.accounts (serves : Serves events desk) : Accounts events desk := by
  induction serves with
  | nil =>
    refine ⟨by simp, by simp, by simp, (fun _ works => by cases works), fun _ => ?_⟩
    exact List.nil_sublist _
  | @snoc events desk desk' event _ _ done inductionHypothesis =>
    obtain ⟨arrived, answered, started, busy, inOrder⟩ := inductionHypothesis
    refine ⟨fun queue request => ?_, fun request status => ?_, fun queue => ?_,
      step_busy done busy, fun queue => ?_⟩
    · have counts := count_waiting done queue request
      have before := arrived queue request
      rw [filterMap_snoc, filterMap_snoc, List.map_append, List.count_append, List.count_append]
      omega
    · have counts := count_owed done request status
      have before := answered request status
      rw [filterMap_snoc, filterMap_snoc, List.map_append, List.count_append, List.count_append]
      omega
    · have counts := count_started done queue
      have before := started queue
      rw [filterMap_snoc, filterMap_snoc, List.countP_append, List.countP_append]
      omega
    · have moved := remaining_step done busy queue
      rw [filterMap_snoc, filterMap_snoc, List.filter_append, List.filter_append, List.map_append,
        List.map_append, List.append_assoc]
      refine (moved.append_left _).trans ?_
      rw [← List.append_assoc]
      exact (inOrder queue).append_right _

/-! ### Requests that arrive once -/

section

variable (serves : Serves events desk)
include serves

theorem Serves.arrived_of_answer (done : (queue, request, status) ∈ events.filterMap Event.answer) :
    (queue, request) ∈ events.filterMap Event.arrival := by
  have accounts := serves.accounts.arrived queue request
  have member : (queue, request) ∈
      (events.filterMap Event.answer).map fun done => (done.1, done.2.1) :=
    List.mem_map_of_mem done
  have positive := List.count_pos_iff.mpr member
  exact List.count_pos_iff.mp (by omega)

theorem Serves.arrived_of_waiting (waits : request ∈ desk.waiting queue) :
    (queue, request) ∈ events.filterMap Event.arrival := by
  have accounts := serves.accounts.arrived queue request
  have positive := List.count_pos_iff.mpr waits
  exact List.count_pos_iff.mp (by omega)

theorem Serves.not_waiting (distinct : Distinct events)
    (done : (queue, request, status) ∈ events.filterMap Event.answer) :
    request ∉ desk.waiting queue' := by
  intro waits
  have arrived := serves.arrived_of_answer done
  obtain rfl := distinct.queue_eq arrived (serves.arrived_of_waiting waits)
  have accounts := serves.accounts.arrived queue request
  have once := List.nodup_iff_count_le_one.mp distinct.of_map (queue, request)
  have member : (queue, request) ∈
      (events.filterMap Event.answer).map fun done => (done.1, done.2.1) :=
    List.mem_map_of_mem done
  have positive := List.count_pos_iff.mpr member
  have positive' := List.count_pos_iff.mpr waits
  omega

theorem Serves.answers_nodup (distinct : Distinct events) :
    ((events.filterMap Event.answer).map fun done => done.2.1).Nodup := by
  have pairs : ((events.filterMap Event.answer).map fun done => (done.1, done.2.1)).Nodup := by
    rw [List.nodup_iff_count_le_one]
    rintro ⟨queue, request⟩
    have accounts := serves.accounts.arrived queue request
    have once := List.nodup_iff_count_le_one.mp distinct.of_map (queue, request)
    omega
  have split : ((events.filterMap Event.answer).map fun done => done.2.1) =
      ((events.filterMap Event.answer).map fun done => (done.1, done.2.1)).map Prod.snd := by
    rw [List.map_map]
    rfl
  rw [split]
  refine List.Nodup.map_on ?_ pairs
  rintro ⟨queue, request⟩ first ⟨queue', request'⟩ second same
  obtain rfl : request = request' := same
  obtain ⟨⟨_, _, status⟩, done, equal⟩ := List.mem_map.mp first
  obtain ⟨⟨_, _, status'⟩, done', equal'⟩ := List.mem_map.mp second
  cases equal
  cases equal'
  rw [distinct.queue_eq (serves.arrived_of_answer done) (serves.arrived_of_answer done')]

theorem Serves.answer_of_sent
    (sent : (request, status) ∈ events.filterMap Event.sending ∨ (request, status) ∈ desk.owed) :
    ∃ queue, (queue, request, status) ∈ events.filterMap Event.answer := by
  have accounts := serves.accounts.answered request status
  have positive : 0 < (events.filterMap Event.sending).count (request, status) +
      desk.owed.count (request, status) := by
    rcases sent with sent | owed
    · exact Nat.add_pos_left (List.count_pos_iff.mpr sent) _
    · exact Nat.add_pos_right _ (List.count_pos_iff.mpr owed)
  have member : (request, status) ∈ (events.filterMap Event.answer).map Prod.snd :=
    List.count_pos_iff.mp (by omega)
  obtain ⟨⟨queue, _⟩, done, equal⟩ := List.mem_map.mp member
  cases equal
  exact ⟨queue, done⟩

section

variable (distinct : Distinct events)
include distinct

theorem Serves.answered_once :
    ((events.filterMap Event.sending ++ desk.owed).map Prod.fst).Nodup := by
  have answers := serves.answers_nodup distinct
  have pairs : ((events.filterMap Event.answer).map Prod.snd).Nodup := by
    refine List.Nodup.of_map Prod.fst ?_
    rwa [List.map_map]
  have given : (events.filterMap Event.sending ++ desk.owed).Nodup := by
    rw [List.nodup_iff_count_le_one]
    rintro ⟨request, status⟩
    have accounts := serves.accounts.answered request status
    have once := List.nodup_iff_count_le_one.mp pairs (request, status)
    rw [List.count_append]
    omega
  refine List.Nodup.map_on ?_ given
  rintro ⟨request, status⟩ first ⟨request', status'⟩ second same
  obtain rfl : request = request' := same
  obtain ⟨queue, done⟩ := serves.answer_of_sent (List.mem_append.mp first)
  obtain ⟨queue', done'⟩ := serves.answer_of_sent (List.mem_append.mp second)
  have equal := List.inj_on_of_nodup_map answers done done' rfl
  simp only [Prod.mk.injEq] at equal
  rw [equal.2.2]

theorem Serves.send_last {owed : List (Request × Status)}
    (last : desk.owed = owed ++ [(request, status)]) :
    Serves (events ++ [.send request status]) { desk with owed } := by
  have once := serves.answered_once distinct
  have fresh : (request, status) ∉ owed := fun inside => by
    rw [last, List.map_append] at once
    have once' := List.Nodup.of_append_right once
    rw [List.map_append, List.nodup_append] at once'
    exact once'.2.2 _ (List.mem_map_of_mem inside) _ (by simp) rfl
  have member : (request, status) ∈ desk.owed := by simp [last]
  have sent := serves.snoc (show desk.step (.send request status) = some _ from if_pos member)
  rw [last, List.erase_append_right _ fresh, List.erase_cons_head, List.append_nil] at sent
  exact sent

theorem Serves.waiting_nodup :
    (desk.waiting queue).Nodup := by
  rw [List.nodup_iff_count_le_one]
  intro request
  have accounts := serves.accounts.arrived queue request
  have once := List.nodup_iff_count_le_one.mp distinct.of_map (queue, request)
  omega

end

/-- Every request that arrived waits, is done with an answer owed, or was answered. -/
theorem Serves.accounted_for (arrived : (queue, request) ∈ events.filterMap Event.arrival) :
    request ∈ desk.waiting queue ∨ ∃ status, (request, status) ∈ desk.owed ∨
      (request, status) ∈ events.filterMap Event.sending := by
  have accounts := serves.accounts.arrived queue request
  have positive := List.count_pos_iff.mpr arrived
  by_cases waits : request ∈ desk.waiting queue
  · exact .inl waits
  · rw [List.count_eq_zero_of_not_mem waits] at accounts
    have member : (queue, request) ∈
        (events.filterMap Event.answer).map fun done => (done.1, done.2.1) :=
      List.count_pos_iff.mp (by omega)
    obtain ⟨⟨queue', request', status⟩, done, equal⟩ := List.mem_map.mp member
    obtain rfl : request' = request := congrArg Prod.snd equal
    refine .inr ⟨status, ?_⟩
    have answered := serves.accounts.answered request' status
    have member' : (request', status) ∈ (events.filterMap Event.answer).map Prod.snd :=
      List.mem_map_of_mem done
    have positive' := List.count_pos_iff.mpr member'
    by_cases owed : (request', status) ∈ desk.owed
    · exact .inl owed
    · rw [List.count_eq_zero_of_not_mem owed] at answered
      exact .inr (List.count_pos_iff.mp (by omega))

theorem Serves.no_move_after (distinct : Distinct events) :
    events.Pairwise fun earlier later => ∀ queue request status queue',
      earlier.answer = some (queue, request, status) → later ≠ .move queue' request := by
  induction serves with
  | nil => exact .nil
  | @snoc events desk desk' event serves _ done inductionHypothesis =>
    rw [List.pairwise_append]
    refine ⟨inductionHypothesis distinct.of_append, List.pairwise_singleton _ _, ?_⟩
    rintro earlier member later last queue request status queue' answered rfl
    obtain rfl := List.mem_singleton.mp last
    obtain ⟨here, -⟩ := ite_none_right_eq_some.mp done
    have given : (queue, request, status) ∈ events.filterMap Event.answer :=
      List.mem_filterMap.mpr ⟨earlier, member, answered⟩
    exact Serves.not_waiting serves distinct.of_append given (List.mem_of_mem_head? here.2)

/-- The requests of a queue are started in the order in which they arrived. -/
theorem Serves.in_order (queue : Queue) :
    (((events.filterMap Event.starting).filter (·.1 = queue)).map Prod.snd).Sublist
      (((events.filterMap Event.arrival).filter (·.1 = queue)).map Prod.snd) :=
  (List.sublist_append_left _ _).trans (serves.accounts.inOrder queue)

theorem Serves.one_at_a_time (queue : Queue) :
    (events.filterMap Event.starting).countP (·.1 = queue) ≤
      (events.filterMap Event.finishing).countP (·.1 = queue) + 1 := by
  have started := serves.accounts.started queue
  split at started <;> omega

end

end Desk

end Service
