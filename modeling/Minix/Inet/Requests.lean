/-
This file proves that the queues of requests of the network server serve requests as a desk does:
one at a time, in order, with one reply each. The pointers are described by lists of cells, one for
each queue and one for the replies that could not be sent.

The proofs need that a queue is calm when its first request ends: a reply that cannot be sent has
no request behind it, and a request that ends as soon as it is restarted has none either.
-/

import Minix.Library.Chains
import Minix.Inet.Sr

namespace Minix.Inet

open Function (update update_of_ne update_self update_idem update_eq_self_iff)
open LinkedList Service
open Service.Desk (Serves)

namespace Sr

variable {n : Nat} {s s' : Sr n} {env : SrEnv n} {q : SrQueue}
  {lists : Option SrQueue → List (Fin n)} {busy : SrQueue → Bool} {hand : List (Fin n)} {mq : Fin n}
  {queue : ReqQueue n}

/-! ### The lists of cells -/

/-- Where the lists start: a queue, or the queue of replies. -/
def heads (s : Sr n) : Option SrQueue → Option (Fin n)
  | none => s.replQueue
  | some q => (s.fds q).head

/-- The requests in the cells. -/
def desk (s : Sr n) (lists : Option SrQueue → List (Fin n)) (busy : SrQueue → Bool) :
    Desk SrQueue Nat Int where
  waiting q := (lists (some q)).map fun mq => (s.mqMess mq).id
  busy := busy
  owed := (lists none).map fun mq => ((s.mqMess mq).id, (s.mqMess mq).repStatus)

/-- The requests are numbered as they arrive, and those that wait are only given up for a cancel. -/
structure Recorded (arrived : Nat) (events : List SrEvent) : Prop where
  arrivals : (events.filterMap Event.arrival).map Prod.snd = List.range arrived
  drops : ∀ q id status, .drop q id status ∈ events → status = eintr

namespace Recorded

variable {arrived : Nat} {events more : List SrEvent}

section

variable (recorded : Recorded arrived events)
include recorded

theorem distinct : Distinct events := by
  rw [Distinct, recorded.arrivals]
  exact List.nodup_range

theorem append
    (others : ∀ event ∈ more, event.arrival = none ∧ ∀ q id status, event = .drop q id status →
      status = eintr) :
    Recorded arrived (events ++ more) where
  arrivals := by
    rw [List.filterMap_append, List.filterMap_eq_nil_iff.mpr fun event member =>
      (others event member).1, List.append_nil]
    exact recorded.arrivals
  drops q id status member := by
    rcases List.mem_append.mp member with before | after
    · exact recorded.drops q id status before
    · exact (others _ after).2 q id status rfl

theorem arrive (q : SrQueue) :
    Recorded (arrived + 1) (events ++ [.arrive q arrived]) where
  arrivals := by
    rw [List.filterMap_append, List.map_append, recorded.arrivals, List.range_succ]
    rfl
  drops q' id status member := by
    rcases List.mem_append.mp member with before | after
    · exact recorded.drops q' id status before
    · cases List.mem_singleton.mp after

end

end Recorded

/-- The cells are on the given lists, or in the hands of a function. The queues that are busy have
a request in progress. -/
structure Listed (s : Sr n) (lists : Option SrQueue → List (Fin n)) (busy : SrQueue → Bool)
    (hand : List (Fin n)) : Prop where
  chains : Chains s.mqNext s.heads lists
  tail : ∀ q, lists (some q) ≠ [] → (s.fds q).tail = (lists (some q)).getLast?
  replTail : lists none ≠ [] → s.replQueueTail = (lists none).getLast?
  flags : ∀ q, (s.fds q).ip = busy q ∧ (s.fds q).susp = busy q
  allocated : ∀ index, ∀ mq ∈ lists index, s.mqAllocated mq = true
  used : ∀ mq, s.mqAllocated mq = true → mq ∈ hand ∨ ∃ index, mq ∈ lists index
  held : ∀ mq ∈ hand, s.mqAllocated mq = true ∧ ∀ index, mq ∉ lists index
  kind : ∀ q, ∀ mq ∈ lists (some q),
    (s.mqMess mq).type = .request q.2 ∧ (s.mqMess mq).device = q.1
  revived : ∀ mq ∈ lists none,
    (s.mqMess mq).type = .revive ∧ (s.mqMess mq).repProcNr = (s.mqMess mq).procNr
  procs : ∀ index index', ∀ mq ∈ lists index, ∀ mq' ∈ lists index',
    (s.mqMess mq).procNr = (s.mqMess mq').procNr → mq = mq'
  recorded : Recorded s.arrived s.trace
  serves : Serves s.trace (s.desk lists busy)

/-- Between two steps every queue with requests is busy. -/
structure Settled (s : Sr n) (lists : Option SrQueue → List (Fin n)) : Prop
    extends Listed s lists (fun q => !(lists (some q)).isEmpty) []

namespace Listed

theorem distinct (listed : Listed s lists busy hand) : Distinct s.trace :=
  listed.recorded.distinct

theorem length_le (listed : Listed s lists busy hand) (index : Option SrQueue) :
    (lists index).length ≤ n := by
  simpa using (listed.chains.chain index).length_le

end Listed

/-! ### Replies that wait -/

/-- The replies in the given cells are sent, and the cells are free. -/
def sendAll (s : Sr n) (cells : List (Fin n)) : Sr n :=
  { s with
    mqAllocated := fun mq => if mq ∈ cells then false else s.mqAllocated mq
    trace := s.trace ++ cells.map fun mq => .send (s.mqMess mq).id (s.mqMess mq).repStatus }

theorem sendAll_append (first rest : List (Fin n)) :
    (s.sendAll first).sendAll rest = s.sendAll (first ++ rest) := by
  simp only [sendAll, List.mem_append, List.map_append, List.append_assoc]
  congr 1
  funext other
  by_cases here : other ∈ first <;> by_cases there : other ∈ rest <;> simp [here, there]

theorem send_one (allocated : s.mqAllocated mq = true) :
    (s.log (.send (s.mqMess mq).id (s.mqMess mq).repStatus)).mqFree mq = some (s.sendAll [mq]) := by
  rw [mqFree, log, if_pos allocated]
  simp only [sendAll, List.mem_singleton, List.map_cons, List.map_nil]
  congr 2
  funext other
  by_cases same : other = mq
  · simp [same]
  · rw [update_of_ne same, if_neg same]

/-- The loop of `sr_repl_queue` sends all replies but the one to the process. -/
theorem sendReplies_eq {head : Option (Fin n)} {cells : List (Fin n)} {fuel : Nat}
    (aside : Option (Fin n)) (procNr : Option Int) (chain : Chain s.mqNext head cells)
    (enough : cells.length < fuel) (allocated : ∀ mq ∈ cells, s.mqAllocated mq = true)
    (revived : ∀ mq ∈ cells, (s.mqMess mq).type = .revive)
    (once : (aside.toList ++
      cells.filter fun mq => decide (procNr = some (s.mqMess mq).repProcNr)).length ≤ 1) :
    sendReplies procNr fuel s aside head =
      some (s.sendAll (cells.filter fun mq => !decide (procNr = some (s.mqMess mq).repProcNr)),
        (aside.toList ++
          cells.filter fun mq => decide (procNr = some (s.mqMess mq).repProcNr)).head?) := by
  induction cells generalizing s head fuel aside with
  | nil =>
    obtain ⟨fuel, rfl⟩ := Nat.exists_eq_succ_of_ne_zero (Nat.ne_of_gt enough)
    obtain rfl : head = none := chain
    cases aside <;> simp [sendReplies, sendAll]
  | cons mq rest inductionHypothesis =>
    obtain ⟨fuel, rfl⟩ := Nat.exists_eq_succ_of_ne_zero (Nat.ne_of_gt (Nat.zero_lt_of_lt enough))
    obtain ⟨rfl, chain⟩ := chain
    have fresh : mq ∉ rest :=
      (List.nodup_cons.mp (Chain.nodup (show Chain s.mqNext (some mq) (mq :: rest) from
        ⟨rfl, chain⟩))).1
    have fewer : rest.length < fuel := by simpa using enough
    rw [sendReplies]
    by_cases own : procNr = some (s.mqMess mq).repProcNr
    · have none' : aside = none := by
        cases aside with
        | none => rfl
        | some other => simp [own] at once
      subst none'
      rw [if_pos own, if_pos rfl,
        inductionHypothesis (some mq) chain fewer
          (fun other member => allocated other (.tail _ member))
          (fun other member => revived other (.tail _ member)) (by simpa [own] using once)]
      simp [own]
    · rw [if_neg own, if_neg (not_not.mpr (revived mq List.mem_cons_self)),
        send_one (allocated mq List.mem_cons_self), Option.bind_some]
      have rest' := @inductionHypothesis (s.sendAll [mq]) (s.mqNext mq) fuel aside chain fewer
        (fun other member => ?_) (fun other member => revived other (.tail _ member))
        (by simpa [own, sendAll] using once)
      · rw [rest']
        have same : (s.sendAll [mq]).mqMess = s.mqMess := rfl
        simp only [same, sendAll_append, List.filter_cons, own, decide_false,
          Bool.not_false, if_true,
          Bool.false_eq_true, if_false, List.singleton_append]
      · have other' : other ∉ [mq] := fun same => fresh (List.mem_singleton.mp same ▸ member)
        exact (if_neg other').trans (allocated other (.tail _ member))

/-- Sending all replies empties the queue of replies. -/
theorem Listed.sendAll (listed : Listed s lists busy hand) {order : List (Fin n)}
    (all : order.Perm (lists none)) :
    Listed { s.sendAll order with replQueue := none } (update lists none []) busy hand := by
  have queue (q : SrQueue) : update lists none [] (some q) = lists (some q) :=
    update_of_ne (by simp) _ _
  have member (index : Option SrQueue) (mq : Fin n) (member : mq ∈ update lists none [] index) :
      index ≠ none ∧ mq ∈ lists index ∧ mq ∉ order := by
    have notNone : index ≠ none := fun same => by simp [same] at member
    rw [update_of_ne notNone] at member
    exact ⟨notNone, member, fun inside =>
      listed.chains.notMem_of_mem member (Ne.symm notNone) (all.mem_iff.mp inside)⟩
  refine ⟨?_, fun q some => ?_, fun some => by simp at some, listed.flags, fun index mq here => ?_,
    fun mq used => ?_, fun mq holds => ?_, fun q mq here => ?_, fun mq here => by simp at here,
    fun index index' mq here mq' there => ?_, ?_, ?_⟩
  · have emptied := listed.chains.replace none (show Chain s.mqNext none [] from rfl)
      (fun _ _ _ _ => rfl) (by simp)
    have heads : ({ s.sendAll order with replQueue := none } : Sr n).heads =
        update s.heads none none := by
      funext index
      cases index with
      | none => rw [update_self]; rfl
      | some q => rw [update_of_ne (by simp)]; rfl
    rwa [heads]
  · rw [queue] at some ⊢
    exact listed.tail q some
  · obtain ⟨-, inside, notSent⟩ := member index mq here
    exact (if_neg notSent).trans (listed.allocated index mq inside)
  · by_cases sent : mq ∈ order
    · simp [Sr.sendAll, sent] at used
    · simp only [Sr.sendAll, if_neg sent] at used
      refine (listed.used mq used).imp_right fun ⟨index, here⟩ => ⟨index, ?_⟩
      have other : index ≠ none := fun same => sent (all.mem_iff.mpr (same ▸ here))
      rwa [update_of_ne other]
  · obtain ⟨allocated, away⟩ := listed.held mq holds
    have notSent : mq ∉ order := fun inside => away none (all.mem_iff.mp inside)
    exact ⟨(if_neg notSent).trans allocated, fun index inside => away index
      (member index mq inside).2.1⟩
  · exact listed.kind q mq (member _ mq here).2.1
  · exact listed.procs index index' mq (member _ mq here).2.1 mq' (member _ mq' there).2.1
  · refine listed.recorded.append fun event member => ?_
    obtain ⟨mq, -, rfl⟩ := List.mem_map.mp member
    exact ⟨rfl, fun _ _ _ equal => by cases equal⟩
  · have sent := listed.serves.send_all (all.map fun mq =>
      ((s.mqMess mq).id, (s.mqMess mq).repStatus))
    rw [List.map_map] at sent
    have desk : ({ s.sendAll order with replQueue := none } : Sr n).desk
      (update lists none []) busy =
        { s.desk lists busy with owed := [] } := by
      simp only [Sr.desk, queue, update_self, List.map_nil]
      rfl
    rw [desk]
    exact sent

/-- `sr_repl_queue` sends all replies, and finds the one to the process if there is one. -/
theorem Listed.srReplQueue (listed : Listed s lists busy hand) (procNr : Option Int) :
    ∃ order, order.Perm (lists none) ∧ s.srReplQueue procNr =
      some ({ s.sendAll order with replQueue := none },
        decide (∃ mq ∈ lists none, procNr = some (s.mqMess mq).procNr)) := by
  have chain := listed.chains.chain none
  have found (mq : Fin n) (member : mq ∈ lists none) :
      (s.mqMess mq).repProcNr = (s.mqMess mq).procNr := (listed.revived mq member).2
  have once : ((lists none).filter fun mq =>
      decide (procNr = some (s.mqMess mq).repProcNr)).length ≤ 1 := by
    cases own : (lists none).filter fun mq => decide (procNr = some (s.mqMess mq).repProcNr) with
    | nil => simp
    | cons first rest =>
      cases rest with
      | nil => simp
      | cons second rest =>
        have nodup := chain.nodup.filter fun mq => decide (procNr = some (s.mqMess mq).repProcNr)
        have here (mq : Fin n) (member : mq = first ∨ mq = second) :
            mq ∈ lists none ∧ procNr = some (s.mqMess mq).procNr := by
          have inside : mq ∈ (lists none).filter fun mq =>
              decide (procNr = some (s.mqMess mq).repProcNr) := by
            rw [own]
            rcases member with rfl | rfl <;> simp
          have inside' := List.mem_filter.mp inside
          exact ⟨inside'.1, by rw [← found mq inside'.1]; simpa using inside'.2⟩
        have equal := listed.procs none none first (here first (.inl rfl)).1 second
          (here second (.inr rfl)).1 (Option.some.inj
            ((here first (.inl rfl)).2.symm.trans (here second (.inr rfl)).2))
        rw [own, equal] at nodup
        simp at nodup
  have split : ((lists none).filter (fun mq => !decide (procNr = some (s.mqMess mq).repProcNr)) ++
      (lists none).filter fun mq => decide (procNr = some (s.mqMess mq).repProcNr)).Perm
        (lists none) := by
    refine List.perm_append_comm.trans ?_
    exact List.filter_append_perm _ _
  have sent := sendReplies_eq none procNr chain
    (Nat.lt_succ_of_le (listed.length_le none)) (listed.allocated none)
    (fun mq member => (listed.revived mq member).1) (by simpa using once)
  refine ⟨_, split, ?_⟩
  have head : s.heads none = s.replQueue := rfl
  rw [head] at sent
  rw [Sr.srReplQueue, sent, Option.bind_some]
  cases own : (lists none).filter fun mq => decide (procNr = some (s.mqMess mq).repProcNr) with
  | nil =>
    have absent : ¬ ∃ mq ∈ lists none, procNr = some (s.mqMess mq).procNr := by
      rintro ⟨mq, member, same⟩
      rw [← found mq member] at same
      have inside : mq ∈ (lists none).filter fun mq =>
          decide (procNr = some (s.mqMess mq).repProcNr) := by simp [member, same]
      rw [own] at inside
      cases inside
    simp [absent]
  | cons first rest =>
    obtain rfl : rest = [] := by
      rw [own, List.length_cons] at once
      exact List.length_eq_zero_iff.mp (by omega)
    have inside : first ∈ (lists none).filter fun mq =>
        decide (procNr = some (s.mqMess mq).repProcNr) := by rw [own]; simp
    obtain ⟨member, same⟩ := List.mem_filter.mp inside
    rw [decide_eq_true_eq] at same
    have present : ∃ mq ∈ lists none, procNr = some (s.mqMess mq).procNr :=
      ⟨first, member, by rw [← found first member]; exact same⟩
    have free : ({ s.sendAll ((lists none).filter fun mq =>
        !decide (procNr = some (s.mqMess mq).repProcNr)) with replQueue := none } :
          Sr n).mqAllocated first = true := by
      refine (if_neg fun sentFirst => ?_).trans (listed.allocated none first member)
      simp [same] at sentFirst
    have last := send_one free
    have type : ((s.sendAll ((lists none).filter fun mq =>
        !decide (procNr = some (s.mqMess mq).repProcNr))).mqMess first).type = .revive :=
      (listed.revived first member).1
    simp only [List.head?_cons, Option.toList_none, List.nil_append, present, decide_true, type,
      ne_eq, not_true_eq_false, if_false]
    refine (congrArg (Option.map _) last).trans ?_
    rw [Option.map_some, ← sendAll_append]
    rfl

/-! ### The end of a request -/

theorem heads_update (fds : s'.fds = update s.fds q queue) :
    s'.heads = update (update s.heads (some q) queue.head) none s'.replQueue := by
  funext index
  cases index with
  | none =>
    rw [update_self]
    rfl
  | some other =>
    rw [update_of_ne (by simp)]
    change (s'.fds other).head = _
    rw [fds]
    by_cases same : other = q
    · subst same
      rw [update_self, update_self]
    · rw [update_of_ne same, update_of_ne (by simpa using same)]
      rfl

theorem heads_update_of_eq (fds : s'.fds = update s.fds q queue)
    (replies : s'.replQueue = s.replQueue) : s'.heads = update s.heads (some q) queue.head := by
  rw [heads_update fds, replies, update_eq_self_iff, update_of_ne (by simp)]
  rfl

/-- The first request of a queue is done, and its cell holds the reply. -/
def ended (s : Sr n) (q : SrQueue) (m : Fin n) (result : Int) (queue : ReqQueue n) : Sr n :=
  ((s.setQueue q queue).log (.finish q (s.mqMess m).id result)).revive m result

/-- The reply is sent, and the cell is free. -/
def answered (s : Sr n) (q : SrQueue) (m : Fin n) (result : Int) (queue : ReqQueue n) : Sr n :=
  { (s.ended q m result queue).log (.send (s.mqMess m).id result) with
    mqAllocated := update s.mqAllocated m false }

section End

variable {m : Fin n} {rest : List (Fin n)} {result : Int} {queue : ReqQueue n}

theorem ended_mqMess_of_ne (other : mq ≠ m) :
    (s.ended q m result queue).mqMess mq = s.mqMess mq :=
  update_of_ne other _ _

theorem ended_mqMess : (s.ended q m result queue).mqMess m =
    { s.mqMess m with
      type := .revive, repProcNr := (s.mqMess m).procNr, repStatus := result } :=
  update_self _ _ _

theorem ended_same : ((s.ended q m result queue).mqMess mq).id = (s.mqMess mq).id ∧
    ((s.ended q m result queue).mqMess mq).procNr = (s.mqMess mq).procNr := by
  by_cases same : mq = m
  · subst same
    rw [ended_mqMess]
    exact ⟨rfl, rfl⟩
  · rw [ended_mqMess_of_ne same]
    exact ⟨rfl, rfl⟩

theorem desk_congr {lists' : Option SrQueue → List (Fin n)}
    (ids : ∀ mq, (s'.mqMess mq).id = (s.mqMess mq).id)
    (statuses : ∀ mq ∈ lists' none, (s'.mqMess mq).repStatus = (s.mqMess mq).repStatus) :
    s'.desk lists' busy = s.desk lists' busy := by
  simp only [desk, ids]
  congr 1
  exact List.map_congr_left fun mq member => by rw [statuses mq member]

section

variable (listed : Listed s lists busy hand) (here : lists (some q) = m :: rest)
include listed here

theorem Listed.finish (works : busy q = true) (result : Int) :
    Serves (s.trace ++ [.finish q (s.mqMess m).id result])
      { s.desk (update lists (some q) rest) (update busy q false) with
        owed := (s.desk lists busy).owed ++ [((s.mqMess m).id, result)] } := by
  have first : ((s.desk lists busy).waiting q).head? = some (s.mqMess m).id := by simp [desk, here]
  have done := listed.serves.snoc (show (s.desk lists busy).step
    (.finish q (s.mqMess m).id result) = some _ from if_pos ⟨works, first⟩)
  have waiting : (s.desk (update lists (some q) rest) (update busy q false)).waiting =
      update (s.desk lists busy).waiting q ((s.desk lists busy).waiting q).tail := by
    funext other
    simp only [desk]
    by_cases same : other = q
    · subst same
      rw [update_self, update_self, here]
      rfl
    · rw [update_of_ne same, update_of_ne (by simpa using same)]
  rw [← waiting] at done
  exact done

theorem Listed.fewer (index : Option SrQueue) (inside : mq ∈ update lists (some q) rest index) :
    mq ∈ lists index ∧ mq ≠ m := by
  have nodup := (listed.chains.chain (some q)).nodup
  rw [here] at nodup
  by_cases same : index = some q
  · subst same
    rw [update_self] at inside
    exact ⟨by simp [here, inside], fun equal => (List.nodup_cons.mp nodup).1 (equal ▸ inside)⟩
  · rw [update_of_ne same] at inside
    exact ⟨inside, fun equal => listed.chains.notMem_of_mem
      (show m ∈ lists (some q) by simp [here]) same (equal ▸ inside)⟩

/-- The first request of a queue is answered, and its message is freed. -/
theorem Listed.answered (works : busy q = true) (result : Int) :
    Listed (s.answered q m result { head := rest.head?, tail := (s.fds q).tail })
      (update lists (some q) rest) (update busy q false) hand := by
  have chain := listed.chains.chain (some q)
  rw [here] at chain
  have replies : update lists (some q) rest none = lists none := update_of_ne (by simp) _ _
  have queues (other : SrQueue) (distinct : other ≠ q) :
      update lists (some q) rest (some other) = lists (some other) :=
    update_of_ne (by simpa using distinct) _ _
  have fds (other : SrQueue) :
      (s.answered q m result { head := rest.head?, tail := (s.fds q).tail }).fds other =
        update s.fds q { head := rest.head?, tail := (s.fds q).tail } other := rfl
  refine ⟨?_, fun other some => ?_, fun some => ?_, fun other => ?_, fun index mq inside => ?_,
    fun mq used => ?_, fun mq holds => ?_, fun other mq inside => ?_, fun mq inside => ?_,
    fun index index' mq inside mq' inside' same => ?_, ?_, ?_⟩
  · have popped := listed.chains.pop here
    rw [show s.mqNext m = rest.head? from chain.2.head_eq] at popped
    rw [show (s.answered q m result { head := rest.head?, tail := (s.fds q).tail }).heads = _ from
      heads_update_of_eq rfl rfl]
    exact popped
  · rw [fds]
    by_cases same : other = q
    · subst same
      rw [update_self] at some ⊢
      have before := listed.tail other (by simp [here])
      rw [here, List.getLast?_cons_of_ne_nil some] at before
      rw [update_self]
      exact before
    · rw [queues other same] at some ⊢
      rw [update_of_ne same]
      exact listed.tail other some
  · rw [replies] at some ⊢
    exact listed.replTail some
  · rw [fds]
    by_cases same : other = q
    · subst same
      rw [update_self, update_self]
      exact ⟨rfl, rfl⟩
    · rw [update_of_ne same, update_of_ne same]
      exact listed.flags other
  · obtain ⟨inside', other⟩ := listed.fewer here index inside
    exact (update_of_ne other _ _).trans (listed.allocated index mq inside')
  · have other : mq ≠ m := fun same => by simp [Sr.answered, same] at used
    have used' : s.mqAllocated mq = true := (update_of_ne other _ _).symm.trans used
    refine (listed.used mq used').imp_right fun ⟨index, inside⟩ => ⟨index, ?_⟩
    by_cases same : index = some q
    · subst same
      rw [here] at inside
      rw [update_self]
      exact (List.mem_cons.mp inside).resolve_left other
    · rwa [update_of_ne same]
  · obtain ⟨allocated, away⟩ := listed.held mq holds
    have other : mq ≠ m := fun same => away (some q) (by simp [here, same])
    exact ⟨(update_of_ne other _ _).trans allocated, fun index inside =>
      away index (listed.fewer here index inside).1⟩
  · obtain ⟨inside', distinct⟩ := listed.fewer here _ inside
    have kind := listed.kind other mq inside'
    rwa [← ended_mqMess_of_ne distinct] at kind
  · obtain ⟨inside', distinct⟩ := listed.fewer here _ inside
    have revived := listed.revived mq inside'
    rwa [← ended_mqMess_of_ne distinct] at revived
  · refine listed.procs index index' mq (listed.fewer here _ inside).1 mq'
      (listed.fewer here _ inside').1 ?_
    exact ended_same.2.symm.trans (Eq.trans same ended_same.2)
  · exact (listed.recorded.append (by simp [Event.arrival])).append (by simp [Event.arrival])
  · have finished := listed.finish here works result
    have recorded : Recorded s.arrived (s.trace ++ [.finish q (s.mqMess m).id result]) :=
      listed.recorded.append (by simp [Event.arrival])
    have sent := Serves.send_last finished recorded.distinct rfl
    have desk : (s.answered q m result { head := rest.head?, tail := (s.fds q).tail }).desk
        (update lists (some q) rest) (update busy q false) =
        s.desk (update lists (some q) rest) (update busy q false) :=
      desk_congr (fun mq => ended_same.1) fun mq inside =>
        congrArg SrMess.repStatus (ended_mqMess_of_ne (listed.fewer here _ inside).2)
    rw [desk]
    have owed : (s.desk (update lists (some q) rest) (update busy q false)).owed =
        (s.desk lists busy).owed := by simp only [Sr.desk, replies]
    rw [← owed] at sent
    exact sent

end

/-- The reply to the only request of a queue cannot be sent, and joins the replies that wait. -/
def pended (s : Sr n) (q : SrQueue) (m : Fin n) (result : Int) (queue : ReqQueue n) : Sr n :=
  match s.replQueue, s.replQueueTail with
  | some _, some tail =>
    { s.ended q m result queue with
      mqNext := update s.mqNext tail (some m), replQueueTail := some m }
  | _, _ => { s.ended q m result queue with replQueue := some m, replQueueTail := some m }

theorem pended_eq : (s.pended q m result queue).fds = update s.fds q queue ∧
    (s.pended q m result queue).mqMess = (s.ended q m result queue).mqMess ∧
    (s.pended q m result queue).mqAllocated = s.mqAllocated ∧
    (s.pended q m result queue).arrived = s.arrived ∧
    (s.pended q m result queue).trace = s.trace ++ [.finish q (s.mqMess m).id result] ∧
    (s.pended q m result queue).replQueueTail = some m := by
  rw [pended]
  split <;> exact ⟨rfl, rfl, rfl, rfl, rfl, rfl⟩

theorem Listed.pended_chains (listed : Listed s lists busy hand) (here : lists (some q) = [m]) :
    Chains (s.pended q m result { tail := (s.fds q).tail }).mqNext
      (s.pended q m result { tail := (s.fds q).tail }).heads
      (update (update lists (some q) []) none (lists none ++ [m])) := by
  have chain := listed.chains.chain (some q)
  rw [here] at chain
  have alone : s.mqNext m = none := chain.2
  have popped := listed.chains.pop here
  rw [alone] at popped
  have fresh (index : Option SrQueue) : m ∉ update lists (some q) [] index := fun inside =>
    (listed.fewer here index inside).2 rfl
  have replies : update lists (some q) [] none = lists none := update_of_ne (by simp) _ _
  have listedReplies := listed.chains.chain none
  cases waits : lists none with
  | nil =>
    rw [waits] at listedReplies
    have empty : s.replQueue = none := listedReplies
    have first : s.pended q m result { tail := (s.fds q).tail } =
        { s.ended q m result { tail := (s.fds q).tail } with
          replQueue := some m, replQueueTail := some m } := by
      rw [pended, empty]
    rw [heads_update pended_eq.1, first]
    exact @Chains.single _ _ _ _ _ none m _ popped fresh alone
  | cons reply others =>
    rw [waits] at listedReplies
    have some' : lists none ≠ [] := by simp [waits]
    have nonempty : s.replQueue = some reply := listedReplies.1
    have last := listed.replTail some'
    obtain ⟨tail, ends⟩ : ∃ tail, (lists none).getLast? = some tail :=
      ⟨_, List.getLast?_eq_some_getLast some'⟩
    rw [ends] at last
    have behind : s.pended q m result { tail := (s.fds q).tail } =
        { s.ended q m result { tail := (s.fds q).tail } with
          mqNext := update s.mqNext tail (some m), replQueueTail := some m } := by
      rw [pended, nonempty, last]
    have heads : (s.pended q m result { tail := (s.fds q).tail }).heads =
        update s.heads (some q) none :=
      heads_update_of_eq pended_eq.1 (by rw [behind]; rfl)
    rw [heads, behind]
    have longer := popped.append (show (update lists (some q) [] none).getLast? = some tail by
      rw [replies, ends]) fresh alone
    rw [replies, waits] at longer
    exact longer

/-- The only request of a queue ends, and its reply joins those that wait. -/
theorem Listed.pended (listed : Listed s lists busy hand) (here : lists (some q) = [m])
    (works : busy q = true) (result : Int) :
    Listed (s.pended q m result { tail := (s.fds q).tail })
      (update (update lists (some q) []) none (lists none ++ [m])) (update busy q false) hand := by
  obtain ⟨fds, mess, allocated, arrived, trace, replTail⟩ :=
    @pended_eq n s q m result { tail := (s.fds q).tail }
  have queues (other : SrQueue) (distinct : other ≠ q) :
      update (update lists (some q) []) none (lists none ++ [m]) (some other) =
        lists (some other) := by
    rw [update_of_ne (by simp), update_of_ne (by simpa using distinct)]
  have emptied : update (update lists (some q) []) none (lists none ++ [m]) (some q) = [] := by
    rw [update_of_ne (by simp), update_self]
  have member (index : Option SrQueue) (mq : Fin n)
      (inside : mq ∈ update (update lists (some q) []) none (lists none ++ [m]) index) :
      (∃ index', mq ∈ lists index') ∧ (mq ≠ m → mq ∈ lists index) := by
    by_cases same : index = none
    · subst same
      rw [update_self] at inside
      rcases List.mem_append.mp inside with inside | inside
      · exact ⟨⟨none, inside⟩, fun _ => inside⟩
      · obtain rfl := List.mem_singleton.mp inside
        exact ⟨⟨some q, by simp [here]⟩, fun other => absurd rfl other⟩
    · rw [update_of_ne same] at inside
      have inside' := (listed.fewer here index inside).1
      exact ⟨⟨index, inside'⟩, fun _ => inside'⟩
  refine ⟨listed.pended_chains here, fun other some => ?_, fun some => ?_, fun other => ?_,
    fun index mq inside => ?_, fun mq used => ?_, fun mq holds => ?_, fun other mq inside => ?_,
    fun mq inside => ?_, fun index index' mq inside mq' inside' same => ?_, ?_, ?_⟩
  · by_cases same : other = q
    · rw [same, emptied] at some
      exact absurd rfl some
    · rw [queues other same] at some ⊢
      rw [fds, update_of_ne same]
      exact listed.tail other some
  · rw [replTail, update_self, List.getLast?_concat]
  · rw [fds]
    by_cases same : other = q
    · subst same
      rw [update_self, update_self]
      exact ⟨rfl, rfl⟩
    · rw [update_of_ne same, update_of_ne same]
      exact listed.flags other
  · obtain ⟨⟨index', inside'⟩, -⟩ := member index mq inside
    rw [allocated]
    exact listed.allocated index' mq inside'
  · rw [allocated] at used
    refine (listed.used mq used).imp_right fun ⟨index, inside⟩ => ?_
    by_cases first : mq = m
    · exact ⟨none, by rw [update_self]; simp [first]⟩
    · cases index with
      | none => exact ⟨none, by rw [update_self]; simp [inside]⟩
      | some other =>
        by_cases same : other = q
        · rw [same, here] at inside
          exact absurd (List.mem_singleton.mp inside) first
        · exact ⟨some other, by rwa [queues other same]⟩
  · obtain ⟨allocated', away⟩ := listed.held mq holds
    refine ⟨by rw [allocated, allocated'], fun index inside => ?_⟩
    obtain ⟨⟨index', inside'⟩, -⟩ := member index mq inside
    exact away index' inside'
  · have distinct : other ≠ q := fun same => by
      rw [same, emptied] at inside
      cases inside
    rw [queues other distinct] at inside
    have away : mq ≠ m := fun same => listed.chains.notMem_of_mem
      (show m ∈ lists (some q) by simp [here])
      (show some other ≠ some q by simpa using distinct) (same ▸ inside)
    rw [mess, ended_mqMess_of_ne away]
    exact listed.kind other mq inside
  · rw [mess]
    by_cases first : mq = m
    · rw [first, ended_mqMess]
      exact ⟨rfl, rfl⟩
    · rw [ended_mqMess_of_ne first]
      exact listed.revived mq ((member none mq inside).2 first)
  · obtain ⟨⟨first, inside₁⟩, -⟩ := member index mq inside
    obtain ⟨⟨second, inside₂⟩, -⟩ := member index' mq' inside'
    rw [mess] at same
    exact listed.procs first second mq inside₁ mq' inside₂
      (ended_same.2.symm.trans (same.trans ended_same.2))
  · rw [trace, arrived]
    exact listed.recorded.append (by simp [Event.arrival])
  · have finished := listed.finish here works result
    have desk : (s.pended q m result { tail := (s.fds q).tail }).desk
        (update (update lists (some q) []) none (lists none ++ [m])) (update busy q false) =
        { s.desk (update lists (some q) []) (update busy q false) with
          owed := (s.desk lists busy).owed ++ [((s.mqMess m).id, result)] } := by
      have waiting (other : SrQueue) :
          update (update lists (some q) []) none (lists none ++ [m]) (some other) =
            update lists (some q) [] (some other) := update_of_ne (by simp) _ _
      have before (mq : Fin n) (inside : mq ∈ lists none) :
          (s.ended q m result { tail := (s.fds q).tail }).mqMess mq = s.mqMess mq :=
        ended_mqMess_of_ne fun same => listed.chains.notMem_of_mem
          (show m ∈ lists (some q) by simp [here]) (show none ≠ some q by simp) (same ▸ inside)
      simp only [Sr.desk, mess, ended_same.1, waiting, update_self, List.map_append,
        List.map_cons, List.map_nil]
      rw [ended_mqMess, List.map_congr_left fun mq inside => by rw [before mq inside]]
    rw [trace, desk]
    exact finished

theorem answered_setQueue (queue queue' : ReqQueue n) (susp : Bool) :
    (s.answered q m result queue).setQueue q queue' =
      (s.setQueue q { s.fds q with susp }).answered q m result queue' := by
  simp only [Sr.answered, ended, setQueue, log, revive, update_idem]

theorem pended_setQueue (queue queue' : ReqQueue n) (susp : Bool) :
    (s.pended q m result queue).setQueue q queue' =
      (s.setQueue q { s.fds q with susp }).pended q m result queue' := by
  simp only [Sr.pended, ended, setQueue, log, revive]
  split <;> simp only [update_idem]

theorem endRequest_answered (result : Int) (ip : (s.fds q).ip = true)
    (head : (s.fds q).head = some m)
    (free : env.locked m = false) (allocated : s.mqAllocated m = true) :
    s.endRequest env q result = some (s.answered q m result { tail := (s.fds q).tail },
      (s.fds q).susp, s.mqNext m, (s.fds q).tail) := by
  simp only [Sr.endRequest, ip, Bool.true_eq_false, Bool.false_eq_true, if_false, head,
    Option.bind_some, srReply, free, mqFree, log, revive, setQueue, allocated, if_true,
      Option.map_some, update_self,
    update_idem, Sr.answered, ended]

theorem endRequest_pended (result : Int) (ip : (s.fds q).ip = true) (head : (s.fds q).head = some m)
    (locked : env.locked m = true) (tail : s.replQueue ≠ none → s.replQueueTail ≠ none) :
    s.endRequest env q result = some (s.pended q m result { tail := (s.fds q).tail },
      (s.fds q).susp, s.mqNext m, (s.fds q).tail) := by
  simp only [Sr.endRequest, ip, Bool.true_eq_false, if_false, head, Option.bind_some, srReply,
    locked, log, revive, setQueue, if_true, update_self, Sr.pended, ended]
  cases waits : s.replQueue with
  | none => simp only [Option.map_some, update_self, update_idem]
  | some reply =>
    obtain ⟨last, ends⟩ := Option.ne_none_iff_exists'.mp (tail (by simp [waits]))
    simp only [ends, Option.map_some, update_self, update_idem]

/-- The end of the first request of a queue leaves the others without a head. -/
theorem Listed.endRequest
    (listed : Listed (s.setQueue q { s.fds q with susp := true }) lists busy hand)
    (here : lists (some q) = m :: rest) (works : busy q = true)
    (calm : env.locked m = true → rest = []) (result : Int) :
    ∃ s₁ lists', s.endRequest env q result =
        some (s₁, (s.fds q).susp, rest.head?, (s.fds q).tail) ∧
      s₁.fds q = { tail := (s.fds q).tail } ∧
      Listed (s₁.setQueue q { head := rest.head?, tail := (s.fds q).tail }) lists'
        (update busy q false) hand ∧
      lists' (some q) = rest ∧ (∀ other ≠ q, lists' (some other) = lists (some other)) ∧
      (∀ mq ∈ rest, s₁.mqMess mq = s.mqMess mq) ∧
      s.trace ++ [.finish q (s.mqMess m).id result] <+: s₁.trace := by
  have queue : (s.setQueue q { s.fds q with susp := true }).fds q =
      { s.fds q with susp := true } := update_self _ _ _
  have chain := listed.chains.chain (some q)
  rw [here] at chain
  have ip : (s.fds q).ip = true := by
    have flag := (listed.flags q).1
    rw [queue] at flag
    exact flag.trans works
  have head : (s.fds q).head = some m := by
    have first : ((s.setQueue q { s.fds q with susp := true }).fds q).head = some m := chain.1
    rwa [queue] at first
  have next : s.mqNext m = rest.head? := chain.2.head_eq
  have nodup := (listed.chains.chain (some q)).nodup
  rw [here] at nodup
  have tail : ((s.setQueue q { s.fds q with susp := true }).fds q).tail = (s.fds q).tail := by
    rw [queue]
  cases locked : env.locked m with
  | false =>
    have after := listed.answered here works result
    rw [tail, ← answered_setQueue { tail := (s.fds q).tail }] at after
    have done := endRequest_answered result ip head locked
      (listed.allocated (some q) m (by simp [here]))
    rw [next] at done
    refine ⟨_, _, done, update_self _ _ _, after, update_self _ _ _,
      fun other distinct => update_of_ne (by simpa using distinct) _ _,
      fun mq inside => ?_, List.prefix_append _ _⟩
    exact ended_mqMess_of_ne fun same => (List.nodup_cons.mp nodup).1 (same ▸ inside)
  | true =>
    obtain rfl := calm locked
    have after := listed.pended here works result
    rw [tail, ← pended_setQueue { tail := (s.fds q).tail }] at after
    have done := endRequest_pended result ip head locked fun some => by
      have replies : lists none ≠ [] := fun empty => by
        have none := listed.chains.chain none
        rw [empty] at none
        exact some none
      have last : s.replQueueTail = _ := listed.replTail replies
      rw [last]
      simpa using replies
    rw [next] at done
    refine ⟨_, _, done, ?_, after, ?_, fun other distinct => ?_, (fun mq inside => by cases inside),
      pended_eq.2.2.2.2.1 ▸ List.prefix_rfl⟩
    · rw [pended_eq.1, update_self]
    · rw [update_of_ne (by simp), update_self]
    · rw [update_of_ne (by simp), update_of_ne (by simpa using distinct)]

end End

/-! ### The start of a request -/

section Start

variable {m : Fin n} {rest : List (Fin n)}

theorem Listed.start (listed : Listed s lists busy hand) (here : lists (some q) = m :: rest)
    (idle : busy q = false) :
    Listed ((s.setQueue q { s.fds q with ip := true, susp := true }).log
      (.start q (s.mqMess m).id)) lists (update busy q true) hand := by
  have first : ((s.desk lists busy).waiting q).head? = some (s.mqMess m).id := by simp [desk, here]
  have started := listed.serves.snoc (show (s.desk lists busy).step (.start q (s.mqMess m).id) =
    some _ from if_pos ⟨idle, first⟩)
  have fds (other : SrQueue) : ((s.setQueue q { s.fds q with ip := true, susp := true }).log
      (.start q (s.mqMess m).id)).fds other =
        update s.fds q { s.fds q with ip := true, susp := true } other := rfl
  refine ⟨?_, fun other some => ?_, listed.replTail, fun other => ?_, listed.allocated, listed.used,
    listed.held, listed.kind, listed.revived, listed.procs, ?_, started⟩
  · have same : ((s.setQueue q { s.fds q with ip := true, susp := true }).log
        (.start q (s.mqMess m).id)).heads = s.heads := by
      have changed : ((s.setQueue q { s.fds q with ip := true, susp := true }).log
          (.start q (s.mqMess m).id)).fds =
            update s.fds q { s.fds q with ip := true, susp := true } := rfl
      rw [heads_update_of_eq changed rfl, update_eq_self_iff]
      rfl
    rw [same]
    exact listed.chains
  · rw [fds]
    have before := listed.tail other some
    by_cases same : other = q
    · subst same
      rwa [update_self]
    · rwa [update_of_ne same]
  · rw [fds]
    by_cases same : other = q
    · subst same
      rw [update_self, update_self]
      exact ⟨rfl, rfl⟩
    · rw [update_of_ne same, update_of_ne same]
      exact listed.flags other
  · exact listed.recorded.append (by simp [Event.arrival])

theorem Listed.move (listed : Listed s lists busy hand) (here : lists (some q) = m :: rest)
    (works : busy q = true) : Listed (s.log (.move q (s.mqMess m).id)) lists busy hand := by
  have first : ((s.desk lists busy).waiting q).head? = some (s.mqMess m).id := by simp [desk, here]
  have moved := listed.serves.snoc (show (s.desk lists busy).step (.move q (s.mqMess m).id) =
    some _ from if_pos ⟨works, first⟩)
  exact { listed with
    recorded := listed.recorded.append (by simp [Event.arrival])
    serves := moved }

end Start

end Sr

end Minix.Inet
