/-
This file runs the network server as a desk that serves the queues of requests of all channels, as
long as the queues are calm when a request ends. It then follows what the file system relies on:
every request gets one reply, and requests of one queue are started in order and one at a time.
-/

import Minix.Inet.Requests

namespace Minix.Inet

open Function (update update_of_ne update_self update_eq_self update_idem update_eq_self_iff)
open Option (bind_some map_some)
open LinkedList Service Transition
open Service.Desk (Serves)

namespace Sr

variable {n : Nat} {s s' : Sr n} {env : SrEnv n} {q : SrQueue}
  {lists : Option SrQueue → List (Fin n)} {busy : SrQueue → Bool} {hand : List (Fin n)}
  {m mq : Fin n} {rest : List (Fin n)} {tail : Option (Fin n)}

/-- A request that ends while `sr_rwio` starts it. -/
def AtOnce (s : Sr n) (env : SrEnv n) (mq : Fin n) : Prop :=
  (s.mqMess mq).tooBig = true ∨ (env.answer mq).isSome

instance (s : Sr n) (env : SrEnv n) (mq : Fin n) : Decidable (s.AtOnce env mq) :=
  inferInstanceAs (Decidable (_ ∨ _))

/-- The first request of a queue can end: if its reply cannot be sent, no request is behind it, and
if the next request ends as soon as it is restarted, no request is behind that. -/
def Calm (s : Sr n) (env : SrEnv n) (q : SrQueue) : Prop :=
  ∀ m ∈ (s.fds q).head, (env.locked m = true → s.mqNext m = none) ∧
    ∀ next ∈ s.mqNext m, s.mqNext next ≠ none → ¬ s.AtOnce env next

instance (s : Sr n) (env : SrEnv n) (q : SrQueue) : Decidable (s.Calm env q) :=
  inferInstanceAs (Decidable (∀ m ∈ (s.fds q).head, (env.locked m = true → s.mqNext m = none) ∧
    ∀ next ∈ s.mqNext m, s.mqNext next ≠ none → ¬ s.AtOnce env next))

/-! ### Restarts -/

theorem setQueue_self (s : Sr n) {queue : ReqQueue n} (same : s.fds q = queue) :
    s.setQueue q queue = s := by
  rw [setQueue, ← same, update_eq_self]

/-- A request is started, and the protocol may copy data for it. -/
def startEvents (s : Sr n) (env : SrEnv n) (q : SrQueue) (m : Fin n) : List SrEvent :=
  .start q (s.mqMess m).id ::
    if env.copies m = true ∧ (s.mqMess m).tooBig = false then [.move q (s.mqMess m).id] else []

def started (s : Sr n) (env : SrEnv n) (q : SrQueue) (m : Fin n) (queue : ReqQueue n) : Sr n :=
  { s.setQueue q queue with trace := s.trace ++ s.startEvents env q m }

theorem started_setQueue (queue queue' : ReqQueue n) :
    (s.started env q m queue).setQueue q queue' = s.started env q m queue' := by
  simp only [started, setQueue, update_idem]

theorem setQueue_started (queue queue' : ReqQueue n) :
    (s.setQueue q queue).started env q m queue' = s.started env q m queue' := by
  simp only [started, setQueue, update_idem]
  rfl

theorem Listed.started (listed : Listed s lists busy hand) (here : lists (some q) = m :: rest)
    (idle : busy q = false) :
    Listed (s.started env q m { s.fds q with ip := true, susp := true }) lists
      (update busy q true) hand := by
  have start := listed.start here idle
  by_cases copies : env.copies m = true ∧ (s.mqMess m).tooBig = false
  · have moved := start.move here (update_self _ _ _)
    have same : s.started env q m { s.fds q with ip := true, susp := true } =
        ((s.setQueue q { s.fds q with ip := true, susp := true }).log
          (.start q (s.mqMess m).id)).log (.move q (s.mqMess m).id) := by
      simp only [Sr.started, startEvents, if_pos copies, log, setQueue, List.append_assoc,
        List.singleton_append]
    rw [same]
    exact moved
  · have same : s.started env q m { s.fds q with ip := true, susp := true } =
        (s.setQueue q { s.fds q with ip := true, susp := true }).log
          (.start q (s.mqMess m).id) := by
      simp only [Sr.started, startEvents, if_neg copies, log, setQueue]
    rw [same]
    exact start

section

variable (idle : s.fds q = { tail := tail })
include idle

theorem srRwio_start {fuel : Nat} (type : (s.mqMess m).type = .request q.2)
    (device : (s.mqMess m).device = q.1) :
    srRwio env (fuel + 1) s m =
      if (s.mqMess m).tooBig = true then
        (userdata env fuel (s.started env q m { head := some m, tail := some m, ip := true }) q
          einval).map fun s => (s, false)
      else
        match env.answer m with
        | some result =>
          (userdata env fuel (s.started env q m { head := some m, tail := some m, ip := true }) q
            result).map fun s => (s, false)
        | none =>
          some (s.started env q m { head := some m, tail := some m, ip := true, susp := true },
            true) := by
  have pair : ((s.mqMess m).device, q.2) = q := by rw [device]
  rw [srRwio, requestClass, type]
  by_cases big : (s.mqMess m).tooBig = true
  · simp [pair, idle, started, startEvents, setQueue, log, big]
  · by_cases copies : env.copies m = true <;> cases answer : env.answer m <;>
      simp [pair, idle, started, startEvents, setQueue, log, big, copies]

/-- A request that is alone in its queue is started at once. -/
theorem Listed.srRwio_alone
    (listed : Listed (s.setQueue q { head := some m, tail := some m }) lists busy hand)
    (here : lists (some q) = [m]) (rests : busy q = false) (fuel : Nat) :
    ∃ s' lists' suspended, srRwio env (fuel + 3) s m = some (s', suspended) ∧
      Listed s' lists' (update busy q !(lists' (some q)).isEmpty) hand ∧
      (∀ other ≠ q, lists' (some other) = lists (some other)) ∧ s.trace <+: s'.trace := by
  have kind := listed.kind q m (by simp [here])
  have queue : (s.setQueue q { head := some m, tail := some m }).fds q =
      { head := some m, tail := some m } := update_self _ _ _
  have going := @Listed.started _ _ env _ _ _ _ _ _ listed here rests
  rw [queue, setQueue_started] at going
  rw [srRwio_start idle kind.1 kind.2]
  by_cases once : s.AtOnce env m
  · obtain ⟨result, ends⟩ : ∃ result, (if (s.mqMess m).tooBig = true then
        (userdata env (fuel + 2) (s.started env q m
          { head := some m, tail := some m, ip := true }) q
          einval).map fun s => (s, false)
      else
        match env.answer m with
        | some result =>
          (userdata env (fuel + 2) (s.started env q m
            { head := some m, tail := some m, ip := true })
            q result).map fun s => (s, false)
        | none =>
          some (s.started env q m { head := some m, tail := some m, ip := true, susp := true },
            true)) =
        (userdata env (fuel + 2) (s.started env q m
          { head := some m, tail := some m, ip := true }) q
          result).map fun s => (s, false) := by
      by_cases big : (s.mqMess m).tooBig = true
      · exact ⟨einval, if_pos big⟩
      · obtain ⟨result, answer⟩ := Option.isSome_iff_exists.mp (once.resolve_left big)
        exact ⟨result, by rw [if_neg big, answer]⟩
    have current : (s.started env q m { head := some m, tail := some m, ip := true }).fds q =
        { head := some m, tail := some m, ip := true } := update_self _ _ _
    have before := going
    rw [← started_setQueue { head := some m, tail := some m, ip := true }] at before
    obtain ⟨s₁, lists', ended, emptied, after, left, others, -, more⟩ :=
      Listed.endRequest
        (by rw [current]; exact before) here (update_self _ _ _) (fun _ => rfl) result
    rw [current] at ended emptied after
    have same : s₁.setQueue q { head := [].head?, tail := some m } = s₁ := setQueue_self s₁ emptied
    rw [same, update_idem] at after
    refine ⟨s₁, lists', false, ?_, ?_, others,
      (List.prefix_append _ _).trans ((List.prefix_append _ _).trans more)⟩
    · rw [ends, userdata, ended]
      rfl
    · rwa [left]
  · have suspends : (s.mqMess m).tooBig = false ∧ env.answer m = none := by
      simpa [AtOnce] using once
    refine ⟨s.started env q m { head := some m, tail := some m, ip := true, susp := true }, lists,
      true, ?_, ?_, fun _ _ => rfl, List.prefix_append _ _⟩
    · simp only [suspends.1, suspends.2, Bool.false_eq_true, if_false]
    · rw [show (!(lists (some q)).isEmpty) = true by simp [here]]
      exact going

theorem Listed.restart
    (listed : Listed (s.setQueue q { head := some m, tail := tail }) lists busy hand)
    (here : lists (some q) = m :: rest) (rests : busy q = false)
    (calm : rest ≠ [] → ¬ s.AtOnce env m) (fuel : Nat) :
    ∃ s' lists', processReqQ env (fuel + 4) s q tail (some m) = some s' ∧
      Listed s' lists' (update busy q !(lists' (some q)).isEmpty) hand ∧
      (∀ other ≠ q, lists' (some other) = lists (some other)) ∧ s.trace <+: s'.trace := by
  have kind := listed.kind q m (by simp [here])
  have chain := listed.chains.chain (some q)
  rw [here] at chain
  have next : s.mqNext m = rest.head? := chain.2.head_eq
  have queue : (s.setQueue q { head := some m, tail := tail }).fds q =
      { head := some m, tail := tail } := update_self _ _ _
  have last : tail = (m :: rest).getLast? := by
    have ends := listed.tail q (by simp [here])
    rwa [queue, here] at ends
  rw [processReqQ]
  cases rest with
  | nil =>
    obtain rfl : tail = some m := last
    obtain ⟨s', lists', suspended, done, after, others⟩ :=
      Listed.srRwio_alone idle listed here rests fuel
    refine ⟨s', lists', ?_, after, others⟩
    rw [done, bind_some]
    cases suspended <;> simp [next, processReqQ]
  | cons second behind =>
    have going := @Listed.started _ _ env _ _ _ _ _ _ listed here rests
    rw [queue, setQueue_started] at going
    have suspends : (s.mqMess m).tooBig = false ∧ env.answer m = none := by
      simpa [AtOnce] using calm (List.cons_ne_nil _ _)
    have linked : update s.mqNext m (some second) = s.mqNext := by
      rw [update_eq_self_iff, next]
      rfl
    refine ⟨s.started env q m { head := some m, tail := tail, ip := true, susp := true }, lists, ?_,
      ?_, fun _ _ => rfl, List.prefix_append _ _⟩
    · rw [srRwio_start idle kind.1 kind.2]
      simp only [suspends.1, suspends.2, Bool.false_eq_true, if_false,
        bind_some, if_true, next,
        List.head?_cons, Sr.started, setQueue, update_self, map_some,
        update_idem, linked]
    · rw [show (!(lists (some q)).isEmpty) = true by simp [here]]
      exact going

end

/-- `sr_get_userdata` and `sr_put_userdata` end the first request of a queue and restart the next
one. -/
theorem Listed.userdata (listed : Listed s lists busy hand) (here : lists (some q) = m :: rest)
    (works : busy q = true) (calm : s.Calm env q) (result : Int) (fuel : Nat) :
    ∃ s' lists', userdata env (fuel + 6) s q result = some s' ∧
      Listed s' lists' (update busy q !(lists' (some q)).isEmpty) hand ∧
      (∀ other ≠ q, lists' (some other) = lists (some other)) ∧
      s.trace ++ [.finish q (s.mqMess m).id result] <+: s'.trace := by
  have susp : (s.fds q).susp = true := (listed.flags q).2.trans works
  have current : s.setQueue q { s.fds q with susp := true } = s := by
    refine setQueue_self s ?_
    rw [← susp]
  have chain := listed.chains.chain (some q)
  rw [here] at chain
  have next : s.mqNext m = rest.head? := chain.2.head_eq
  obtain ⟨locked, once⟩ := calm m (show m ∈ (s.fds q).head from chain.1)
  obtain ⟨s₁, lists₁, ended, emptied, after, left, others, same, more⟩ := Listed.endRequest
    (by rw [current]; exact listed) here works
    (fun stuck => List.head?_eq_none_iff.mp (next.symm.trans (locked stuck))) result
  rw [Sr.userdata, ended, bind_some, susp, if_pos rfl]
  cases rest with
  | nil =>
    rw [show s₁.setQueue q { head := [].head?, tail := (s.fds q).tail } = s₁ from
      setQueue_self s₁ emptied] at after
    refine ⟨s₁, lists₁, rfl, ?_, others, more⟩
    rwa [left]
  | cons second behind =>
    have calm' : behind ≠ [] → ¬ s₁.AtOnce env second := fun some => by
      have follows : s.mqNext second = behind.head? := by
        have chain' := chain.2
        rw [next] at chain'
        exact chain'.2.head_eq
      have waits : ¬ s.AtOnce env second := once second next fun none => by
        rw [follows, List.head?_eq_none_iff] at none
        exact some none
      rwa [AtOnce, same second List.mem_cons_self]
    obtain ⟨s₂, lists₂, restarted, after', others', more'⟩ :=
      Listed.restart emptied after left (update_self _ _ _) calm' (fuel + 1)
    rw [update_idem] at after'
    exact ⟨s₂, lists₂, restarted, after', fun other distinct =>
      (others' other distinct).trans (others other distinct), more.trans more'⟩

/-! ### Requests -/

theorem Listed.absent (listed : Listed s lists busy hand) (free : s.mqAllocated mq = false)
    (index : Option SrQueue) : mq ∉ lists index := fun inside => by
  rw [listed.allocated index mq inside] at free
  cases free

theorem Listed.mqGet (listed : Listed s lists busy []) (free : s.mqAllocated mq = false)
    (mess : SrMess) : Listed (s.mqGet mq mess) lists busy [mq] := by
  have away (index : Option SrQueue) (other : Fin n) (inside : other ∈ lists index) : other ≠ mq :=
    fun same => listed.absent free index (same ▸ inside)
  have kept (index : Option SrQueue) (other : Fin n) (inside : other ∈ lists index) :
      (s.mqGet mq mess).mqMess other = s.mqMess other :=
    update_of_ne (away index other inside) _ _
  refine ⟨?_, listed.tail, listed.replTail, listed.flags, fun index other inside => ?_,
    fun other used => ?_, fun other holds => ?_, fun q other inside => ?_, fun other inside => ?_,
    fun index index' other inside other' inside' => ?_, listed.recorded, ?_⟩
  · have same : (s.mqGet mq mess).heads = s.heads := by
      funext index
      cases index <;> rfl
    rw [same]
    exact listed.chains.congr fun index other inside =>
      update_of_ne (away index other inside) _ _
  · exact (update_of_ne (away index other inside) _ _).trans
      (listed.allocated index other inside)
  · by_cases same : other = mq
    · exact .inl (List.mem_singleton.mpr same)
    · have before : s.mqAllocated other = true :=
        (update_of_ne same _ _).symm.trans used
      exact .inr ((listed.used other before).resolve_left List.not_mem_nil)
  · rw [List.mem_singleton.mp holds]
    exact ⟨update_self _ _ _, listed.absent free⟩
  · rw [kept _ other inside]
    exact listed.kind q other inside
  · rw [kept _ other inside]
    exact listed.revived other inside
  · rw [kept _ other inside, kept _ other' inside']
    exact listed.procs index index' other inside other' inside'
  · have same : (s.mqGet mq mess).desk lists busy = s.desk lists busy := by
      simp only [desk]
      congr 1
      · funext q
        exact List.map_congr_left fun other inside => by rw [kept _ other inside]
      · exact List.map_congr_left fun other inside => by rw [kept _ other inside]
    rw [same]
    exact listed.serves

/-- A new request joins its queue. -/
def joined (s : Sr n) (q : SrQueue) (mq : Fin n) : Sr n :=
  { s with
    fds := update s.fds q { s.fds q with head := (s.fds q).head.or (some mq), tail := some mq }
    mqNext := match (s.fds q).head, (s.fds q).tail with
      | some _, some tail => update s.mqNext tail (some mq)
      | _, _ => s.mqNext
    arrived := s.arrived + 1
    trace := s.trace ++ [.arrive q s.arrived] }

theorem Listed.joined_chains (listed : Listed s lists busy [mq]) (alone : s.mqNext mq = none) :
    Chains (s.joined q mq).mqNext (s.joined q mq).heads
      (update lists (some q) (lists (some q) ++ [mq])) := by
  have fresh := (listed.held mq List.mem_cons_self).2
  have heads : (s.joined q mq).heads =
      update s.heads (some q) ((s.fds q).head.or (some mq)) :=
    @heads_update_of_eq _ s (s.joined q mq) _ _ rfl rfl
  have chain := listed.chains.chain (some q)
  rw [heads]
  cases waits : lists (some q) with
  | nil =>
    rw [waits] at chain
    have empty : (s.fds q).head = none := chain
    have next : (s.joined q mq).mqNext = s.mqNext := by simp only [joined, empty]
    rw [next, empty]
    exact @Chains.single _ _ _ _ _ (some q) mq _ listed.chains fresh alone
  | cons first behind =>
    rw [waits] at chain
    have nonempty : (s.fds q).head = some first := chain.1
    obtain ⟨last, ends⟩ : ∃ last, (lists (some q)).getLast? = some last :=
      ⟨_, List.getLast?_eq_some_getLast (by simp [waits])⟩
    have tail : (s.fds q).tail = some last := (listed.tail q (by simp [waits])).trans ends
    have next : (s.joined q mq).mqNext = update s.mqNext last (some mq) := by
      simp only [joined, nonempty, tail]
    have same : update s.heads (some q) ((s.fds q).head.or (some mq)) = s.heads := by
      rw [nonempty, update_eq_self_iff]
      exact nonempty.symm
    rw [next, same, ← waits]
    exact listed.chains.append ends fresh alone

/-- A request joins the end of its queue. -/
theorem Listed.joined (listed : Listed s lists busy [mq]) (alone : s.mqNext mq = none)
    (kind : (s.mqMess mq).type = .request q.2 ∧ (s.mqMess mq).device = q.1)
    (id : (s.mqMess mq).id = s.arrived)
    (others : ∀ index, ∀ other ∈ lists index, (s.mqMess other).procNr ≠ (s.mqMess mq).procNr) :
    Listed (s.joined q mq) (update lists (some q) (lists (some q) ++ [mq])) busy [] := by
  have cases' (index : Option SrQueue) (other : Fin n)
      (inside : other ∈ update lists (some q) (lists (some q) ++ [mq]) index) :
      other ∈ lists index ∨ other = mq ∧ index = some q := by
    by_cases same : index = some q
    · subst same
      rw [update_self] at inside
      exact (List.mem_append.mp inside).imp_right fun last => ⟨List.mem_singleton.mp last, rfl⟩
    · rw [update_of_ne same] at inside
      exact .inl inside
  have queues (other : SrQueue) (distinct : other ≠ q) :
      update lists (some q) (lists (some q) ++ [mq]) (some other) = lists (some other) :=
    update_of_ne (by simpa using distinct) _ _
  have replies : update lists (some q) (lists (some q) ++ [mq]) none = lists none :=
    update_of_ne (by simp) _ _
  have fds (other : SrQueue) : (s.joined q mq).fds other = update s.fds q
      { s.fds q with head := (s.fds q).head.or (some mq), tail := some mq } other := rfl
  refine ⟨listed.joined_chains alone, fun other some => ?_, fun some => ?_, fun other => ?_,
    fun index other inside => ?_, fun other used => ?_, (fun other holds => by cases holds),
    fun q' other inside => ?_, fun other inside => ?_, fun index index' other inside other' inside'
      same => ?_, ?_, ?_⟩
  · rw [fds]
    by_cases same : other = q
    · subst same
      rw [update_self, update_self, List.getLast?_concat]
    · rw [queues other same] at some ⊢
      rw [update_of_ne same]
      exact listed.tail other some
  · rw [replies] at some ⊢
    exact listed.replTail some
  · rw [fds]
    by_cases same : other = q
    · subst same
      rw [update_self]
      exact listed.flags other
    · rw [update_of_ne same]
      exact listed.flags other
  · rcases cases' index other inside with inside | ⟨rfl, -⟩
    · exact listed.allocated index other inside
    · exact (listed.held other List.mem_cons_self).1
  · right
    rcases listed.used other used with last | ⟨index, inside⟩
    · exact ⟨some q, by simp [List.mem_singleton.mp last]⟩
    · refine ⟨index, ?_⟩
      by_cases same : index = some q
      · subst same
        rw [update_self]
        exact List.mem_append_left _ inside
      · rwa [update_of_ne same]
  · rcases cases' _ other inside with inside | ⟨rfl, same⟩
    · exact listed.kind q' other inside
    · rw [Option.some.inj same]
      exact kind
  · rw [replies] at inside
    exact listed.revived other inside
  · rcases cases' index other inside with before | ⟨last, -⟩ <;>
      rcases cases' index' other' inside' with before' | ⟨last', -⟩
    · exact listed.procs index index' other before other' before' same
    · exact absurd (last' ▸ same) (others index other before)
    · exact absurd (last ▸ same.symm) (others index' other' before')
    · rw [last, last']
  · exact listed.recorded.arrive q
  · have arrived := listed.serves.snoc (show (s.desk lists busy).step (.arrive q s.arrived) =
      some _ from rfl)
    have desk : (s.joined q mq).desk (update lists (some q) (lists (some q) ++ [mq])) busy =
        { s.desk lists busy with
          waiting := update (s.desk lists busy).waiting q
            ((s.desk lists busy).waiting q ++ [s.arrived]) } := by
      simp only [Sr.desk, replies]
      congr 1
      funext other
      by_cases same : other = q
      · subst same
        rw [update_self, update_self, List.map_append, ← id]
        rfl
      · rw [queues other same, update_of_ne same]
        rfl
    rw [desk]
    exact arrived

theorem Listed.replies (listed : Listed s lists busy hand) (procNr : Option Int) :
    ∃ order, order.Perm (lists none) ∧
      (if s.replQueue = none then some (s, false) else s.srReplQueue procNr) =
        some ({ s.sendAll order with replQueue := none },
          decide (∃ mq ∈ lists none, procNr = some (s.mqMess mq).procNr)) := by
  by_cases empty : s.replQueue = none
  · have chain := listed.chains.chain none
    have none : lists none = [] := by
      cases waits : lists none with
      | nil => rfl
      | cons first rest =>
        rw [waits] at chain
        cases empty.symm.trans chain.1
    refine ⟨[], by rw [none], ?_⟩
    have same : { s.sendAll [] with replQueue := Option.none } = s := by
      cases s
      simp_all [Sr.sendAll]
    rw [if_pos empty, same, none]
    simp
  · rw [if_neg empty]
    exact listed.srReplQueue procNr

/-- A request that arrives is started, or joins its queue. -/
theorem Listed.srRwio (listed : Listed s lists busy [mq])
    (busy_eq : busy = fun q => !(lists (some q)).isEmpty) (alone : s.mqNext mq = none)
    (kind : (s.mqMess mq).type = .request q.2 ∧ (s.mqMess mq).device = q.1)
    (id : (s.mqMess mq).id = s.arrived)
    (others : ∀ index, ∀ other ∈ lists index, (s.mqMess other).procNr ≠ (s.mqMess mq).procNr)
    (fuel : Nat) :
    ∃ s' lists' suspended,
      srRwio env (fuel + 3) { s.log (.arrive q s.arrived) with arrived := s.arrived + 1 } mq =
        some (s', suspended) ∧ Settled s' lists' := by
  subst busy_eq
  have joined := listed.joined alone kind id others
  have chain := listed.chains.chain (some q)
  obtain ⟨ip, susp⟩ := listed.flags q
  cases waits : lists (some q) with
  | nil =>
    rw [waits] at chain ip susp
    have empty : (s.fds q).head = none := chain
    have idle : ({ s.log (.arrive q s.arrived) with arrived := s.arrived + 1 } : Sr n).fds q =
        { tail := (s.fds q).tail } := by
      change s.fds q = _
      rw [← empty]
      cases queue : s.fds q
      simp_all
    have same : ({ s.log (.arrive q s.arrived) with arrived := s.arrived + 1 } : Sr n).setQueue q
        { head := some mq, tail := some mq } = s.joined q mq := by
      simp only [Sr.joined, setQueue, log, empty, ip, susp]
      rfl
    rw [← same] at joined
    obtain ⟨s', lists', suspended, done, after, left, -⟩ := Listed.srRwio_alone idle joined
      (by rw [update_self, waits]; rfl) (by rw [waits]; rfl) fuel
    refine ⟨s', lists', suspended, done, ?_⟩
    have busy : update (fun q => !(lists (some q)).isEmpty) q (!(lists' (some q)).isEmpty) =
        fun q => !(lists' (some q)).isEmpty := by
      funext other
      by_cases same : other = q
      · subst same
        rw [update_self]
      · rw [update_of_ne same, left other same,
          update_of_ne (by simpa using same)]
    rw [busy] at after
    exact ⟨after⟩
  | cons first behind =>
    rw [waits] at chain ip susp
    have nonempty : (s.fds q).head = some first := chain.1
    obtain ⟨last, ends⟩ : ∃ last, (lists (some q)).getLast? = some last :=
      ⟨_, List.getLast?_eq_some_getLast (by simp [waits])⟩
    have tail : (s.fds q).tail = some last := (listed.tail q (by simp [waits])).trans ends
    refine ⟨s.joined q mq, update lists (some q) (lists (some q) ++ [mq]), true, ?_, ?_⟩
    · have pair : ((s.mqMess mq).device, q.2) = q := by rw [kind.2]
      rw [Sr.srRwio, requestClass]
      simp only [log, kind.1, pair, bind_some, ip, susp, nonempty, tail, List.isEmpty_cons,
        Bool.not_false, if_true, Bool.true_eq_false, reduceCtorEq, or_self, if_false,
        map_some, Sr.joined, setQueue, Option.or_some, Option.getD_some]
    · have busy : (fun q => !(lists (some q)).isEmpty) = fun other =>
          !(update lists (some q) (lists (some q) ++ [mq]) (some other)).isEmpty := by
        funext other
        by_cases same : other = q
        · subst same
          rw [update_self, waits]
          rfl
        · rw [update_of_ne (by simpa using same)]
      rw [busy] at joined
      exact ⟨joined⟩

theorem Settled.srRequest (settled : Settled s lists) (free : s.mqAllocated mq = false)
    {procNr : Int} (first : ∀ mq', ¬ s.Holds procNr mq') (env : SrEnv n) (io : IoClass) (fd : Nat)
    (request : Nat) :
    ∃ s' lists', s.srRequest env mq io fd procNr request = some s' ∧ Settled s' lists' := by
  obtain ⟨mess, defines⟩ : ∃ mess : SrMess,
      mess = { type := .request io, device := fd, procNr, request, id := s.arrived } := ⟨_, rfl⟩
  have got := settled.toListed.mqGet free mess
  obtain ⟨order, all, sent⟩ := got.replies none
  have after := got.sendAll all
  have own : (s.mqGet mq mess).mqMess mq = mess := update_self _ _ _
  have kind : ((s.mqGet mq mess).mqMess mq).type = .request io ∧
      ((s.mqGet mq mess).mqMess mq).device = fd := by
    rw [own, defines]
    exact ⟨rfl, rfl⟩
  have id : ((s.mqGet mq mess).mqMess mq).id = s.arrived := by rw [own, defines]
  have others (index : Option SrQueue) (other : Fin n)
    (inside : other ∈ update lists none [] index) :
      ((s.mqGet mq mess).mqMess other).procNr ≠ ((s.mqGet mq mess).mqMess mq).procNr := by
    have replies : index ≠ none := fun none => by simp [none] at inside
    rw [update_of_ne replies] at inside
    have distinct : other ≠ mq := fun equal => settled.absent free index (equal ▸ inside)
    have kept : (s.mqGet mq mess).mqMess other = s.mqMess other :=
      update_of_ne distinct _ _
    rw [kept, own, defines]
    exact fun same => first other ⟨settled.allocated index other inside, same⟩
  obtain ⟨s', lists', suspended, done, settled'⟩ := @Listed.srRwio _ _ env (fd, io) _ _ _ after
    rfl (update_self _ _ _) kind id others (3 * n + 3)
  refine ⟨s', lists', ?_, settled'⟩
  have first : (if (s.mqGet mq mess).replQueue = none then some (s.mqGet mq mess)
      else ((s.mqGet mq mess).srReplQueue none).map Prod.fst) = some _ :=
    (apply_ite (Option.map Prod.fst) _ _ _).symm.trans (congrArg (Option.map Prod.fst) sent)
  rw [Sr.srRequest]
  rw [← defines, first, bind_some]
  exact congrArg (Option.map Prod.fst) done

/-! ### Cancels -/

/-- A request that waits behind another is taken out and its cancel is answered. -/
def dropped (s : Sr n) (q : SrQueue) (prv ptr : Fin n) : Sr n :=
  { s with
    fds := if s.mqNext ptr = none then update s.fds q { s.fds q with tail := some prv } else s.fds
    mqNext := update s.mqNext prv (s.mqNext ptr)
    mqAllocated := update s.mqAllocated ptr false
    trace := s.trace ++ [.drop q (s.mqMess ptr).id eintr] ++ [.send (s.mqMess ptr).id eintr] }

theorem dropped_fds {prv ptr : Fin n} (other : SrQueue) :
    ((s.dropped q prv ptr).fds other).head = (s.fds other).head ∧
    ((s.dropped q prv ptr).fds other).ip = (s.fds other).ip ∧
    ((s.dropped q prv ptr).fds other).susp = (s.fds other).susp := by
  simp only [dropped]
  split
  · by_cases same : other = q
    · subst same
      rw [update_self]
      exact ⟨rfl, rfl, rfl⟩
    · rw [update_of_ne same]
      exact ⟨rfl, rfl, rfl⟩
  · exact ⟨rfl, rfl, rfl⟩

/-- What happens at the desk when a request that waits behind another is cancelled. -/
theorem Listed.drop (listed : Listed s lists busy hand) {front back : List (Fin n)}
    {prv ptr : Fin n}
    (here : lists (some q) = front ++ prv :: ptr :: back) :
    Serves (s.trace ++ [.drop q (s.mqMess ptr).id eintr] ++ [.send (s.mqMess ptr).id eintr])
      (s.desk (update lists (some q) (front ++ prv :: back)) busy) := by
  have waiting : (s.desk lists busy).waiting q =
      ((front ++ [prv]).map fun mq => (s.mqMess mq).id) ++ (s.mqMess ptr).id ::
        back.map fun mq => (s.mqMess mq).id := by
    simp [desk, here]
  have nodup := @Serves.waiting_nodup _ _ _ _ _ _ _ _ q listed.serves listed.distinct
  rw [waiting] at nodup
  have fresh : (s.mqMess ptr).id ∉ (front ++ [prv]).map fun mq => (s.mqMess mq).id := fun inside =>
    (List.nodup_append.mp nodup).2.2 _ inside _ List.mem_cons_self rfl
  have taken : ((s.desk lists busy).waiting q).take 1 ++
      ((s.desk lists busy).waiting q).tail.erase (s.mqMess ptr).id =
        (front ++ prv :: back).map fun mq => (s.mqMess mq).id := by
    rw [waiting]
    cases front with
    | nil => simp
    | cons first front =>
      have fresh' : (s.mqMess ptr).id ∉ (front ++ [prv]).map fun mq => (s.mqMess mq).id :=
        fun inside => fresh (List.mem_cons_of_mem _ inside)
      simp only [List.cons_append, List.map_cons, List.take_succ_cons, List.take_zero,
        List.tail_cons]
      rw [List.erase_append_right _ fresh', List.erase_cons_head]
      simp
  have behind : (s.mqMess ptr).id ∈ ((s.desk lists busy).waiting q).tail := by
    rw [waiting]
    cases front <;> simp
  have dropped := listed.serves.snoc (show (s.desk lists busy).step
    (.drop q (s.mqMess ptr).id eintr) = some _ from if_pos behind)
  have recorded : Recorded s.arrived (s.trace ++ [.drop q (s.mqMess ptr).id eintr]) :=
    listed.recorded.append (by simp [Event.arrival])
  have sent := Serves.send_last dropped recorded.distinct rfl
  have desk : s.desk (update lists (some q) (front ++ prv :: back)) busy =
      { s.desk lists busy with
        waiting := update (s.desk lists busy).waiting q
          (((s.desk lists busy).waiting q).take 1 ++
            ((s.desk lists busy).waiting q).tail.erase (s.mqMess ptr).id) } := by
    rw [taken]
    simp only [Sr.desk]
    congr 1
    funext other
    by_cases same : other = q
    · subst same
      rw [update_self, update_self]
    · rw [update_of_ne same, update_of_ne (by simpa using same)]
  rw [desk]
  exact sent

/-- A request in the middle of a queue is cancelled. -/
theorem Listed.dropped (listed : Listed s lists busy hand) {front back : List (Fin n)}
    {prv ptr : Fin n} (here : lists (some q) = front ++ prv :: ptr :: back) :
    Listed (s.dropped q prv ptr) (update lists (some q) (front ++ prv :: back)) busy hand := by
  have replies : update lists (some q) (front ++ prv :: back) none = lists none :=
    update_of_ne (by simp) _ _
  have queues (other : SrQueue) (distinct : other ≠ q) :
      update lists (some q) (front ++ prv :: back) (some other) = lists (some other) :=
    update_of_ne (by simpa using distinct) _ _
  have chain := listed.chains.chain (some q)
  rw [here] at chain
  have nodup := chain.nodup
  have fewer (index : Option SrQueue) (mq : Fin n)
      (inside : mq ∈ update lists (some q) (front ++ prv :: back) index) :
      mq ∈ lists index ∧ mq ≠ ptr := by
    by_cases same : index = some q
    · subst same
      rw [update_self] at inside
      rw [here]
      have moved : (front ++ prv :: ptr :: back).Perm (ptr :: (front ++ prv :: back)) := by
        have middle := @List.perm_middle _ ptr (front ++ [prv]) back
        simpa using middle
      exact ⟨moved.symm.subset (List.mem_cons_of_mem _ inside), fun equal =>
        (List.nodup_cons.mp (moved.nodup_iff.mp nodup)).1 (equal ▸ inside)⟩
    · rw [update_of_ne same] at inside
      exact ⟨inside, fun equal => listed.chains.notMem_of_mem
        (show ptr ∈ lists (some q) by simp [here]) same (equal ▸ inside)⟩
  have last : ptr ∈ lists (some q) := by simp [here]
  have next : s.mqNext ptr = back.head? := by
    have split : front ++ prv :: ptr :: back = (front ++ [prv]) ++ ptr :: back := by simp
    rw [split] at chain
    exact Chain.head_eq chain.behind
  refine ⟨?_, fun other some => ?_, fun some => ?_, fun other => ?_, fun index mq inside => ?_,
    fun mq used => ?_, fun mq holds => ?_, fun other mq inside => ?_, fun mq inside => ?_,
    fun index index' mq inside mq' inside' same => ?_, ?_, listed.drop here⟩
  · have same : (s.dropped q prv ptr).heads = s.heads := by
      funext index
      cases index with
      | none => rfl
      | some other => exact (dropped_fds other).1
    rw [same]
    exact listed.chains.unlink here
  · by_cases same : other = q
    · subst same
      have before := listed.tail other (by simp [here])
      rw [here] at before
      rw [update_self]
      cases back with
      | nil => simp [Sr.dropped, next]
      | cons second back => simpa [Sr.dropped, next] using before
    · rw [queues other same] at some ⊢
      have kept : (s.dropped q prv ptr).fds other = s.fds other := by
        simp only [Sr.dropped]
        split
        · exact update_of_ne same _ _
        · rfl
      rw [kept]
      exact listed.tail other some
  · rw [replies] at some ⊢
    exact listed.replTail some
  · rw [(dropped_fds other).2.1, (dropped_fds other).2.2]
    exact listed.flags other
  · obtain ⟨inside', other⟩ := fewer index mq inside
    exact (update_of_ne other _ _).trans (listed.allocated index mq inside')
  · have other : mq ≠ ptr := fun same => by simp [Sr.dropped, same] at used
    have used' : s.mqAllocated mq = true := (update_of_ne other _ _).symm.trans used
    refine (listed.used mq used').imp_right fun ⟨index, inside⟩ => ⟨index, ?_⟩
    by_cases same : index = some q
    · subst same
      rw [here] at inside
      rw [update_self]
      simp only [List.mem_append, List.mem_cons] at inside ⊢
      tauto
    · rwa [update_of_ne same]
  · obtain ⟨allocated, away⟩ := listed.held mq holds
    have other : mq ≠ ptr := fun same => away (some q) (same ▸ last)
    exact ⟨(update_of_ne other _ _).trans allocated, fun index inside =>
      away index (fewer index mq inside).1⟩
  · exact listed.kind other mq (fewer _ mq inside).1
  · exact listed.revived mq (fewer _ mq inside).1
  · exact listed.procs index index' mq (fewer _ mq inside).1 mq' (fewer _ mq' inside').1 same
  · exact (listed.recorded.append (by simp [Event.arrival])).append (by simp [Event.arrival])

/-- The answer to the cancel of a waiting request. -/
def logCancel (s : Sr n) : Option Nat → Sr n
  | none => s
  | some id => s.log (.send id eintr)

section

variable (listed : Listed s lists busy hand)
include listed

/-- `walk_queue` finds nothing on a queue without requests of the process. -/
theorem Listed.walkQueue_none {procNr : Int}
    (others : ∀ mq ∈ lists (some q), (s.mqMess mq).procNr ≠ procNr) :
    s.walkQueue env q procNr = some none := by
  have chain : Links.Lists ⟨(s.fds q).head, s.mqNext⟩ (lists (some q)) :=
    listed.chains.chain (some q)
  obtain ⟨front, back, here, found, -, stops⟩ := chain.seek_eq
    (fun mq => decide ((s.mqMess mq).procNr = procNr))
      (Nat.lt_succ_of_le (listed.length_le (some q)))
  obtain rfl : back = [] := by
    cases back with
    | nil => rfl
    | cons mq back =>
      have same := stops mq rfl
      exact absurd (of_decide_eq_true same) (others mq (by simp [here]))
  rw [here] at chain
  rw [walkQueue, found, bind_some, chain.read_eq]
  rfl

theorem Listed.walkQueue_some (works : busy q = !(lists (some q)).isEmpty) {procNr : Int}
    (inside : m ∈ lists (some q)) (own : (s.mqMess m).procNr = procNr)
    (calm : (s.fds q).head = some m → s.Calm env q) :
    ∃ s' cancelled lists', s.walkQueue env q procNr = some (some (s', cancelled)) ∧
      Listed (s'.logCancel cancelled) lists' (update busy q !(lists' (some q)).isEmpty) hand ∧
      (∀ other ≠ q, lists' (some other) = lists (some other)) ∧
      (q, (s.mqMess m).id, eintr) ∈ s'.trace.filterMap Event.answer := by
  have chain : Links.Lists ⟨(s.fds q).head, s.mqNext⟩ (lists (some q)) :=
    listed.chains.chain (some q)
  obtain ⟨front, back, here, found, missed, stops⟩ := chain.seek_eq
    (fun mq => decide ((s.mqMess mq).procNr = procNr))
      (Nat.lt_succ_of_le (listed.length_le (some q)))
  have only (mq : Fin n) (inside' : mq ∈ lists (some q)) (same : (s.mqMess mq).procNr = procNr) :
      mq = m := listed.procs _ _ mq inside' m inside (same.trans own.symm)
  cases back with
  | nil =>
    rw [here, List.append_nil] at inside
    exact absurd own (of_decide_eq_false (missed m inside))
  | cons ptr back =>
    obtain rfl : ptr = m := only ptr (by simp [here]) (of_decide_eq_true (stops ptr rfl))
    rw [here] at chain
    rw [walkQueue, found, bind_some, chain.read_eq, List.head?_cons]
    rcases List.eq_nil_or_concat front with rfl | ⟨start, prv, rfl⟩
    · have first : (s.fds q).head = some ptr := chain.1
      obtain ⟨s', lists', done, after, left, more⟩ := listed.userdata here
        (by rw [works, here]; rfl) (calm first) eintr (3 * n)
      have finished : Event.finish q (s.mqMess ptr).id eintr ∈ s'.trace := more.subset (by simp)
      exact ⟨s', none, lists', congrArg (Option.map _) done, after, left,
        List.mem_filterMap.mpr ⟨_, finished, rfl⟩⟩
    · simp only [List.concat_eq_append, List.append_assoc, List.singleton_append] at here chain
      have dropped := listed.dropped here
      have busy' : update busy q
          (!(update lists (some q) (start ++ prv :: back) (some q)).isEmpty) = busy := by
        rw [update_eq_self_iff, update_self, works, here]
        cases start <;> rfl
      refine ⟨{ s.dropped q prv ptr with trace := s.trace ++ [.drop q (s.mqMess ptr).id eintr] },
        some (s.mqMess ptr).id, update lists (some q) (start ++ prv :: back), ?_, ?_,
        fun other distinct => update_of_ne (by simpa using distinct) _ _,
        by simp [Event.answer]⟩
      · have allocated : s.mqAllocated ptr = true := listed.allocated (some q) ptr inside
        have cursor : (start.concat prv).getLast? = some prv := by simp
        rw [cursor]
        simp only [mqFree, log, allocated, if_true, map_some, update_self, setQueue,
          Sr.dropped]
        by_cases last : s.mqNext ptr = none <;> simp only [last, if_true, if_false]
      · rw [busy']
        exact dropped

/-- `sr_cancel` finds the request of the process on one of the queues of its channel. -/
theorem Listed.srCancel (works : ∀ q, busy q = !(lists (some q)).isEmpty) {fd : Nat} {io : IoClass}
    {procNr : Int} (inside : m ∈ lists (some (fd, io))) (own : (s.mqMess m).procNr = procNr)
    (calm : (s.fds (fd, io)).head = some m → s.Calm env (fd, io)) :
    ∃ s' cancelled lists', s.srCancel env fd procNr = some (s', cancelled) ∧
      Listed (s'.logCancel cancelled) lists'
        (update busy (fd, io) !(lists' (some (fd, io))).isEmpty) hand ∧
      (∀ other ≠ (fd, io), lists' (some other) = lists (some other)) ∧
      ((fd, io), (s.mqMess m).id, eintr) ∈ s'.trace.filterMap Event.answer := by
  obtain ⟨s', cancelled, lists', done, after, left, answered⟩ :=
    listed.walkQueue_some (works (fd, io)) inside own calm
  refine ⟨s', cancelled, lists', ?_, after, left, answered⟩
  have absent (io' : IoClass) (other : io' ≠ io) : s.walkQueue env (fd, io')
    procNr = some none := by
    refine listed.walkQueue_none fun mq inside' same => other ?_
    obtain rfl := listed.procs _ _ mq inside' m inside (same.trans own.symm)
    have equal := listed.chains.apart _ _ mq inside' inside
    simpa using equal
  rw [Sr.srCancel]
  cases io with
  | ioctl => rw [done, bind_some]
  | read => rw [absent .ioctl (by decide), bind_some, done, bind_some]
  | write =>
    rw [absent .ioctl (by decide), bind_some, absent .read (by decide), bind_some,
      done]
    rfl

end

theorem Listed.mqFree (listed : Listed s lists busy [mq]) :
    ∃ s', s.mqFree mq = some s' ∧ Listed s' lists busy [] ∧ s'.trace = s.trace := by
  obtain ⟨allocated, away⟩ := listed.held mq List.mem_cons_self
  refine ⟨_, if_pos allocated, ⟨listed.chains, listed.tail, listed.replTail, listed.flags,
    fun index other inside => ?_, fun other used => ?_, (fun other holds => by cases holds),
    listed.kind, listed.revived, listed.procs, listed.recorded, listed.serves⟩, rfl⟩
  · have distinct : other ≠ mq := fun same => away index (same ▸ inside)
    exact (update_of_ne distinct _ _).trans (listed.allocated index other inside)
  · have distinct : other ≠ mq := fun same => by simp [same] at used
    have before : s.mqAllocated other = true :=
      (update_of_ne distinct _ _).symm.trans used
    exact .inr ((listed.used other before).resolve_left fun holds =>
      distinct (List.mem_singleton.mp holds))

theorem Listed.calm_congr (listed : Listed s lists busy hand) (calm : s.Calm env q)
    (fds : s'.fds = s.fds) (next : ∀ mq ∈ lists (some q), s'.mqNext mq = s.mqNext mq)
    (mess : ∀ mq ∈ lists (some q), s'.mqMess mq = s.mqMess mq) : s'.Calm env q := by
  intro first head
  rw [fds] at head
  obtain ⟨locked, once⟩ := calm first head
  have chain := listed.chains.chain (some q)
  have inside : first ∈ lists (some q) := by
    have start := chain.head_eq
    rw [show s.heads (some q) = some first from head] at start
    exact List.mem_of_head? start.symm
  rw [next first inside]
  refine ⟨locked, fun second follows more => ?_⟩
  have inside' : second ∈ lists (some q) := chain.mem_of_link inside follows
  rw [next second inside'] at more
  rw [AtOnce, mess second inside']
  exact once second follows more

/-- The cancel of a request ends it, takes it out of its queue, or finds that it has a reply. -/
theorem Settled.srRecCancel (settled : Settled s lists) (free : s.mqAllocated mq = false)
    {fd : Nat} {procNr : Int} (holds : s.Holds procNr m) (device : (s.mqMess m).device = fd)
    (calm : ∀ io, (s.fds (fd, io)).head = some m → s.Calm env (fd, io)) :
    ∃ s' lists', s.srRecCancel env mq fd procNr = some s' ∧ Settled s' lists' ∧
      (m ∉ lists none → ∃ q, (q, (s.mqMess m).id, eintr) ∈ s'.trace.filterMap Event.answer) := by
  have got := settled.toListed.mqGet free { type := .other, device := fd, procNr }
  obtain ⟨order, all, sent⟩ := got.replies (some procNr)
  have after := got.sendAll all
  have distinct (index : Option SrQueue) (other : Fin n) (inside : other ∈ lists index) :
      other ≠ mq := fun same => settled.absent free index (same ▸ inside)
  have mess (other : Fin n) (apart : other ≠ mq) :
      (s.mqGet mq { type := .other, device := fd, procNr }).mqMess other = s.mqMess other :=
    update_of_ne apart _ _
  rw [Sr.srRecCancel]
  rw [sent, bind_some]
  obtain ⟨index, inside⟩ := (settled.used m holds.1).resolve_left List.not_mem_nil
  have owned : ((s.mqGet mq { type := .other, device := fd, procNr }).mqMess
    m).procNr = procNr := by
    rw [mess m (distinct index m inside)]
    exact holds.2
  cases index with
  | none =>
    have found : ∃ other ∈ lists none, some procNr = some
        ((s.mqGet mq { type := .other, device := fd, procNr }).mqMess other).procNr :=
      ⟨m, inside, by rw [owned]⟩
    simp only [found, decide_true, if_true]
    obtain ⟨s', freed, listed, -⟩ := after.mqFree
    exact ⟨s', _, freed, ⟨listed⟩, fun away => absurd inside away⟩
  | some q =>
    have missing : ¬ ∃ other ∈ lists none, some procNr = some
        ((s.mqGet mq { type := .other, device := fd, procNr }).mqMess other).procNr := by
      rintro ⟨other, inside', same⟩
      rw [mess other (distinct none other inside')] at same
      obtain rfl := settled.procs _ _ other inside' m inside
        ((Option.some.inj same).symm.trans holds.2.symm)
      cases settled.chains.apart _ _ other inside' inside
    simp only [missing, decide_false, Bool.false_eq_true, if_false]
    obtain ⟨-, channel⟩ := settled.kind q m inside
    obtain ⟨channel', io⟩ := q
    obtain rfl : channel' = fd := channel.symm.trans device
    have queues (other : SrQueue) : update lists none [] (some other) = lists (some other) :=
      update_of_ne (by simp) _ _
    obtain ⟨s', cancelled, lists', done, listed, left, answered⟩ := after.srCancel
      (fun _ => by rw [queues]) (by rw [queues]; exact inside) owned fun head =>
        settled.toListed.calm_congr (calm io head) rfl
          (fun other inside' => update_of_ne (distinct _ other inside') _ _)
          fun other inside' => mess other (distinct _ other inside')
    have works : update (fun q => !(lists (some q)).isEmpty) (channel', io)
        (!(lists' (some (channel', io))).isEmpty) = fun q => !(lists' (some q)).isEmpty := by
      funext other
      by_cases same : other = (channel', io)
      · rw [same, update_self]
      · rw [update_of_ne same, left other same, queues]
    rw [works] at listed
    obtain ⟨s'', freed, listed', trace⟩ := listed.mqFree
    have answered' : ((channel', io), (s.mqMess m).id, eintr) ∈ s''.trace.filterMap
      Event.answer := by
      have longer : s'.trace <+: s''.trace := by
        rw [trace]
        cases cancelled with
        | none => exact List.prefix_rfl
        | some id => exact List.prefix_append _ _
      refine (longer.sublist.filterMap _).subset ?_
      rw [← mess m (distinct _ m inside)]
      exact answered
    refine ⟨s'', lists', ?_, ⟨listed'⟩, fun _ => ⟨_, answered'⟩⟩
    rw [done, bind_some]
    cases cancelled <;> exact freed

end Sr

end Minix.Inet
