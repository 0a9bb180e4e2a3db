/-
This file follows the requests of the network server through whole runs. Every request gets one
reply, its result or `EINTR` once it is cancelled, requests of one queue are started in order and
one at a time, and no assertion about the queues fails, as long as the queues are calm when their
first requests end.

A queue that is not calm runs into an assertion: the cell of the first request keeps its link to
the requests behind it when it joins the queue of replies, and the requests behind one that is
restarted are linked back too late when that one ends at once.
-/

import Minix.Inet.Serving

namespace Minix.Inet

open Function (update update_of_ne update_self)
open LinkedList Service Transition
open Service.Desk (Serves)

namespace Sr

variable {n : Nat} {s s' : Sr n} {lists : Option SrQueue → List (Fin n)}

/-- The queue is calm whose first request a step may end. -/
def CalmStep (s : Sr n) : SrStep n → Prop
  | .request .. | .move _ => True
  | .cancel env _ fd procNr => ∀ io, ∀ m ∈ (s.fds (fd, io)).head,
      (s.mqMess m).procNr = procNr → s.Calm env (fd, io)
  | .finish env q _ => s.Calm env q

instance (s : Sr n) : ∀ next, Decidable (s.CalmStep next)
  | .request .. | .move _ => .isTrue trivial
  | .cancel env _ fd procNr =>
    decidable_of_iff (∀ io ∈ [IoClass.read, .write, .ioctl], ∀ m ∈ (s.fds (fd, io)).head,
        (s.mqMess m).procNr = procNr → s.Calm env (fd, io))
      ⟨fun calm io => calm io (by cases io <;> decide), fun calm io _ => calm io⟩
  | .finish env q _ => inferInstanceAs (Decidable (s.Calm env q))

/-- What the file system relies on. The replies that wait are in the given cells. -/
structure Answering (s : Sr n) (replies : List (Fin n)) : Prop where
  replyQueue : Chain s.mqNext s.replQueue replies
  completed : ∀ mq ∈ replies, s.mqAllocated mq = true ∧ (s.mqMess mq).type = .revive ∧
    ∃ q, (q, (s.mqMess mq).id, (s.mqMess mq).repStatus) ∈ s.trace.filterMap Event.answer
  arrivedOnce : ((s.trace.filterMap Event.arrival).map Prod.snd).Nodup
  repliedOnce : ((s.trace.filterMap Event.sending).map Prod.fst ++
    replies.map fun mq => (s.mqMess mq).id).Nodup
  result : ∀ id status, .send id status ∈ s.trace →
    ∃ q, .finish q id status ∈ s.trace ∨ .drop q id status ∈ s.trace ∧ status = eintr
  waits : ∀ q id, .arrive q id ∈ s.trace →
    (∃ cells, Chain s.mqNext (s.fds q).head cells ∧ ∃ mq ∈ cells, (s.mqMess mq).id = id) ∨
      (∃ mq ∈ replies, (s.mqMess mq).id = id) ∨ ∃ status, .send id status ∈ s.trace
  inOrder : ∀ q, (((s.trace.filterMap Event.starting).filter (·.1 = q)).map Prod.snd).Sublist
    (((s.trace.filterMap Event.arrival).filter (·.1 = q)).map Prod.snd)
  oneAtATime : ∀ earlier, earlier <+: s.trace → ∀ q,
    (earlier.filterMap Event.starting).countP (·.1 = q) ≤
      (earlier.filterMap Event.finishing).countP (·.1 = q) + 1
  noMoveAfter : s.trace.Pairwise fun earlier later => ∀ q id status q',
    earlier.answer = some (q, id, status) → later ≠ .move q' id

/-! ### Runs -/

theorem settled_start : Settled ({} : Sr n) fun _ => [] where
  chains := ⟨fun index => by cases index <;> rfl, fun _ _ _ inside => by cases inside⟩
  tail _ some := absurd rfl some
  replTail some := absurd rfl some
  flags _ := ⟨rfl, rfl⟩
  allocated _ _ inside := by cases inside
  used _ allocated := by cases allocated
  held _ inside := by cases inside
  kind _ _ inside := by cases inside
  revived _ inside := by cases inside
  procs _ _ _ inside := by cases inside
  recorded := ⟨rfl, fun _ _ _ inside => by cases inside⟩
  serves := .nil

section

variable (settled : Settled s lists)
include settled

theorem Settled.step {next : SrStep n} (allowed : s.Allowed next) (calm : s.CalmStep next) :
    ∃ s' lists', s.step next = some s' ∧ Settled s' lists' := by
  cases next with
  | request env mq io fd procNr request =>
    exact settled.srRequest allowed.1 allowed.2 env io fd request
  | cancel env mq fd procNr =>
    obtain ⟨free, m, holds, device⟩ := allowed
    obtain ⟨s', lists', done, settled', -⟩ := settled.srRecCancel free holds device
      fun io head => calm io m head holds.2
    exact ⟨s', lists', done, settled'⟩
  | move q =>
    have works := (settled.flags q).1.symm.trans allowed
    cases here : lists (some q) with
    | nil => simp [here] at works
    | cons m rest =>
      have chain := settled.chains.chain (some q)
      rw [here] at chain
      have head : (s.fds q).head = some m := chain.1
      exact ⟨_, lists, congrArg (Option.map _) head, ⟨settled.toListed.move here works⟩⟩
  | finish env q result =>
    have works := (settled.flags q).1.symm.trans allowed.1
    cases here : lists (some q) with
    | nil => simp [here] at works
    | cons m rest =>
      obtain ⟨s', lists', done, listed, others, -⟩ :=
        settled.toListed.userdata here works calm result (3 * n)
      refine ⟨s', lists', done, ⟨?_⟩⟩
      have busy : update (fun q => !(lists (some q)).isEmpty) q (!(lists' (some q)).isEmpty) =
          fun q => !(lists' (some q)).isEmpty := by
        funext other
        by_cases same : other = q
        · rw [same, update_self]
        · rw [update_of_ne same, others other same]
      rwa [busy] at listed

theorem Settled.answering : Answering s (lists none) := by
  have serves := settled.serves
  have distinct := settled.toListed.distinct
  refine ⟨settled.chains.chain none, fun mq inside => ⟨settled.allocated none mq inside,
    (settled.revived mq inside).1, ?_⟩, distinct, ?_, fun id status sent => ?_,
    fun q id arrived => ?_, serves.in_order, fun earlier before q => ?_,
    serves.no_move_after distinct⟩
  · exact serves.answer_of_sent (.inr (List.mem_map_of_mem inside))
  · have once := serves.answered_once distinct
    rw [List.map_append] at once
    simpa only [desk, List.map_map, Function.comp_def] using once
  · obtain ⟨q, answered⟩ := serves.answer_of_sent
      (.inl (List.mem_filterMap.mpr ⟨_, sent, rfl⟩))
    obtain ⟨event, member, answer⟩ := List.mem_filterMap.mp answered
    cases event with
    | finish q' id' status' =>
      cases answer
      exact ⟨q, .inl member⟩
    | drop q' id' status' =>
      cases answer
      exact ⟨q, .inr ⟨member, settled.recorded.drops q id status member⟩⟩
    | arrive | start | move | send => cases answer
  · rcases serves.accounted_for (List.mem_filterMap.mpr ⟨_, arrived, rfl⟩) with
      waits | ⟨status, owed | sent⟩
    · obtain ⟨mq, inside, same⟩ := List.mem_map.mp waits
      exact .inl ⟨_, settled.chains.chain (some q), mq, inside, same⟩
    · obtain ⟨mq, inside, same⟩ := List.mem_map.mp owed
      exact .inr (.inl ⟨mq, inside, congrArg Prod.fst same⟩)
    · obtain ⟨event, member, sending⟩ := List.mem_filterMap.mp sent
      cases event with
      | send id' status' =>
        cases sending
        exact .inr (.inr ⟨status, member⟩)
      | arrive | start | move | finish | drop => cases sending
  · obtain ⟨more, split⟩ := before
    rw [← split] at serves
    obtain ⟨middle, first⟩ := Run.of_append serves
    exact Serves.one_at_a_time first q

theorem Settled.cancelled {env : SrEnv n} {mq m : Fin n} {fd : Nat} {procNr : Int}
    (allowed : s.Allowed (.cancel env mq fd procNr)) (calm : s.CalmStep (.cancel env mq fd procNr))
    (completed : s.step (.cancel env mq fd procNr) = some s') (holds : s.Holds procNr m) :
    (s.mqMess m).type = .revive ∨
      ∃ q, (q, (s.mqMess m).id, eintr) ∈ s'.trace.filterMap Event.answer := by
  obtain ⟨free, other, holds', device⟩ := allowed
  obtain ⟨index, inside⟩ := (settled.used m holds.1).resolve_left List.not_mem_nil
  obtain ⟨index', inside'⟩ := (settled.used other holds'.1).resolve_left List.not_mem_nil
  obtain rfl := settled.procs _ _ other inside' m inside (holds'.2.trans holds.2.symm)
  obtain ⟨after, lists', done, -, answered⟩ :=
    settled.srRecCancel free holds device fun io head => calm io other head holds.2
  obtain rfl := Option.some.inj (completed.symm.trans done)
  by_cases replied : other ∈ lists none
  · exact .inl (settled.revived other replied).1
  · exact .inr (answered replied)

end

/-- In every run that ends requests of calm queues only, the file system gets its replies, and the
next calm step completes. A cancel answers the request it is for, unless that has a reply. -/
theorem requests_are_answered {labels : List (SrStep n)}
    (run : Run step (fun s next => s.Allowed next ∧ s.CalmStep next) {} labels s) :
    (∃ replies, s.Answering replies) ∧
      ∀ next, s.Allowed next → s.CalmStep next → ∃ s', s.step next = some s' ∧
        ∀ env mq fd procNr m, next = .cancel env mq fd procNr → s.Holds procNr m →
          (s.mqMess m).type = .revive ∨
            ∃ q, (q, (s.mqMess m).id, eintr) ∈ s'.trace.filterMap Event.answer := by
  have settled : ∃ lists, Settled s lists := by
    refine @Run.invariant (Sr n) (SrStep n) step _ {} s labels (fun s => ∃ lists, Settled s lists)
      ⟨_, settled_start⟩ (fun s next after settled guarded completed => ?_) run
    obtain ⟨lists, settled⟩ := settled
    obtain ⟨after', lists', completed', settled'⟩ := settled.step guarded.1 guarded.2
    obtain rfl := Option.some.inj (completed.symm.trans completed')
    exact ⟨lists', settled'⟩
  obtain ⟨lists, settled⟩ := settled
  refine ⟨⟨_, settled.answering⟩, fun next allowed calm => ?_⟩
  obtain ⟨s', lists', completed, -⟩ := settled.step allowed calm
  refine ⟨s', completed, fun env mq fd procNr m cancel holds => ?_⟩
  subst cancel
  exact settled.cancelled allowed calm completed holds

/-- Reads of three processes on one channel. -/
def threeReads : List (SrStep 4) :=
  [.request {} ⟨0, by decide⟩ .read 0 1 0, .request {} ⟨1, by decide⟩ .read 0 2 0,
    .request {} ⟨2, by decide⟩ .read 0 3 0]

/-- The second read is cancelled, the first one ends, and the third one ends while the file system
is sending. -/
theorem requests_are_answered_reads :
    ∃ replies, (reached step (fun s next => s.Allowed next ∧ s.CalmStep next) {}
      (threeReads ++ [.cancel {} ⟨3, by decide⟩ 0 2, .finish {} (0, .read) 7,
        .finish { locked := fun _ => true } (0, .read) 5])).Answering replies :=
  (requests_are_answered (reached_run (by decide +kernel))).1

/-! ### Queues that are not calm -/

/-- The second of three reads ends as soon as it is restarted, when the third one is not linked to
it yet. -/
theorem restart_fails :
    ∃ s : Sr 4, Run step Allowed {} threeReads s ∧
      s.Allowed (.finish { answer := fun _ => some 0 } (0, .read) 7) ∧
      s.step (.finish { answer := fun _ => some 0 } (0, .read) 7) = none :=
  ⟨_, reached_run (by decide +kernel), by decide +kernel, by decide +kernel⟩

end Sr

end Minix.Inet
