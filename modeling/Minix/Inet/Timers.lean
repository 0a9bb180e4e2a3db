/-
This file proves that the chain of timers of the network server stays sorted and has exactly the
active timers, and that an alarm is on its way whenever there are some. No timer is run early or
twice, and once timers are expired none that was due is left.
-/

import Minix.Inet.Clock

namespace Minix.Inet

open Function (update update_of_ne update_self update_eq_self update_idem)
open Option (some.inj)
open LinkedList (Links)
open Transition

/-- No timer is set to a time that has come. -/
def ClockAct.Later {n : Nat} (now : Int) : ClockAct n → Prop
  | .timer _ timeout _ _ => now < timeout
  | _ => True

namespace Clock

variable {n : Nat} {s s' : Clock n} {timers front back : List (Fin n)} {timer : Fin n}
  {now timeout : Int} {func : Nat} {fd : Int}

/-- How often the function of a timer was called. -/
def ran (s : Clock n) (timer : Fin n) : Nat := s.runs.countP (·.timer = timer)

/-- An alarm is set, or the message about one is on its way. -/
def Awaited (s : Clock n) : Prop := s.alarm.isSome ∨ s.ringing

/-- The chain has the given timers. They are the active ones, and sorted. Each time that a timer
was set it was cancelled or run, unless it is still active. -/
structure Chained (s : Clock n) (timers : List (Fin n)) : Prop where
  lists : s.chain.Lists timers
  active : ∀ timer, s.timActive timer = true ↔ timer ∈ timers
  sorted : timers.Pairwise fun first second => s.timTime first ≤ s.timTime second
  clock : 0 ≤ s.currTime ∧ s.currTime ≤ s.uptime
  settled : ∀ timer, s.sets timer =
    s.cancels timer + s.ran timer + if s.timActive timer then 1 else 0
  due : ∀ run ∈ s.runs, run.time ≤ run.now ∧ run.now ≤ s.uptime
  awaited : s.nextTimeout ≠ 0 → s.Awaited

/-- The main loop will expire the first timer, or there will be an alarm in time. -/
def Covered (s : Clock n) : Prop :=
  ∀ head ∈ s.timerChain, s.clckCallExpire = true ∨
    s.nextTimeout ≠ 0 ∧ s.nextTimeout ≤ s.timTime head ∧ s.Awaited

/-- A timer is set to a time that has come. -/
def Due (s : Clock n) (now : Int) (timer : Fin n) : Prop :=
  s.timActive timer = true ∧ s.timTime timer ≤ now

theorem Chained.nodup (chained : Chained s timers) : timers.Nodup := chained.lists.nodup

theorem Chained.length_le (chained : Chained s timers) : timers.length ≤ n := by
  simpa using chained.nodup.length_le_card

/-! ### The alarm -/

theorem getTime_clock (clock : 0 ≤ s.currTime ∧ s.currTime ≤ s.uptime) :
    0 ≤ s.getTime.currTime ∧ s.getTime.currTime ≤ s.uptime := by
  rw [getTime]
  split
  · exact ⟨by dsimp only; omega, le_rfl⟩
  · exact clock

theorem Chained.getTime (chained : Chained s timers) : Chained s.getTime timers := by
  have clock := getTime_clock chained.clock
  rw [Clock.getTime] at clock ⊢
  split
  · exact { chained with clock := by rwa [if_pos ‹_›] at clock }
  · exact chained

theorem getTime_timTime : s.getTime.timTime = s.timTime := by
  rw [getTime]
  split <;> rfl

theorem getTime_timActive : s.getTime.timActive = s.timActive := by
  rw [getTime]
  split <;> rfl

theorem getTime_timerChain : s.getTime.timerChain = s.timerChain := by
  rw [getTime]
  split <;> rfl

theorem getTime_uptime : s.getTime.uptime = s.uptime := by
  rw [getTime]
  split <;> rfl

theorem setTimer_fields : s.setTimer.timActive = s.timActive ∧
    s.setTimer.timTime = s.timTime ∧ s.setTimer.uptime = s.uptime := by
  have same : s.getTime.timActive = s.timActive ∧ s.getTime.timTime = s.timTime ∧
      s.getTime.uptime = s.uptime := ⟨getTime_timActive, getTime_timTime, getTime_uptime⟩
  rw [setTimer]
  cases s.timerChain with
  | none => exact ⟨rfl, rfl, rfl⟩
  | some head =>
    dsimp only
    split
    · exact same
    · split <;> exact same

theorem setTimer_calls {head : Fin n} (unknown : s.currTime = 0) (first : s.timerChain = some head)
    (due : s.timTime head ≤ s.uptime) : s.setTimer.clckCallExpire = true := by
  have now : s.getTime.timTime head ≤ s.getTime.currTime := by
    rwa [getTime_timTime, getTime, if_pos unknown]
  rw [setTimer, first]
  exact congrArg clckCallExpire (if_pos now)

theorem Chained.setTimer (chained : Chained s timers) :
    Chained s.setTimer timers ∧ Covered s.setTimer := by
  rw [Clock.setTimer]
  cases first : s.timerChain with
  | none =>
    refine ⟨chained, fun head found => ?_⟩
    rw [first] at found
    cases found
  | some head =>
    have chained' := chained.getTime
    have first' : s.getTime.timerChain = some head := getTime_timerChain.trans first
    dsimp only
    split
    case isTrue => exact ⟨{ chained' with }, fun _ _ => .inl rfl⟩
    case isFalse later =>
      split
      case isTrue =>
        have clock := chained'.clock
        refine ⟨{ chained' with awaited := fun _ => .inl rfl }, fun head' found => .inr ?_⟩
        obtain rfl := some.inj (first'.symm.trans found)
        exact ⟨by dsimp only; omega, le_rfl, .inl rfl⟩
      case isFalse set =>
        push Not at set
        refine ⟨chained', fun head' found => .inr ?_⟩
        obtain rfl := some.inj (first'.symm.trans found)
        exact ⟨set.1, set.2, chained'.awaited set.1⟩

/-! ### A timer leaves the chain -/

theorem Chained.deactivate (chained : Chained s (front ++ timer :: back)) :
    Chained (s.deactivate timer (s.chain.remove front.getLast? timer)) (front ++ back) where
  lists := chained.lists.remove
  active other := by
    have nodup := chained.nodup
    have member := chained.active other
    simp only [List.nodup_append, List.nodup_cons, List.mem_append, List.mem_cons] at nodup member ⊢
    change update s.timActive timer false other = true ↔ _
    by_cases same : other = timer
    · subst same
      rw [update_self]
      have before := nodup.2.2 other
      grind
    · rw [update_of_ne same, member]
      tauto
  sorted := chained.sorted.sublist ((List.sublist_cons_self _ _).append_left front)
  clock := chained.clock
  settled other := by
    have settled := chained.settled other
    change s.sets other = update s.cancels timer _ other + s.ran other +
      if update s.timActive timer false other = true then 1 else 0
    by_cases same : other = timer
    · subst same
      have active : s.timActive other = true := (chained.active other).mpr (by simp)
      rw [if_pos active] at settled
      rw [update_self, update_self]
      simp only [Bool.false_eq_true, if_false]
      omega
    · rwa [update_of_ne same, update_of_ne same]
  due := chained.due
  awaited := chained.awaited

theorem Chained.clckFastRelease (chained : Chained s timers) (timer : Fin n) :
    ∃ s' timers', s.clckFastRelease timer = some s' ∧ Chained s' timers' ∧
      s'.timActive = update s.timActive timer false ∧ s'.timTime = s.timTime ∧
      s'.uptime = s.uptime := by
  rw [Clock.clckFastRelease]
  by_cases active : s.timActive timer = false
  · refine ⟨s, timers, if_pos active, chained, ?_, rfl, rfl⟩
    rw [← active, update_eq_self]
  · have member := (chained.active timer).mp (Bool.not_eq_false _ ▸ active)
    rw [if_neg active]
    cases timers with
    | nil => cases member
    | cons head rest =>
      have first : s.timerChain = some head := chained.lists.1
      rw [first]
      by_cases same : timer = head
      · subst same
        have whole : Chained s ([] ++ timer :: rest) := chained
        have chained' := whole.deactivate
        exact ⟨_, rest, if_pos rfl, chained', rfl, rfl, rfl⟩
      · have lists : s.chain.Lists ([head] ++ rest) := chained.lists
        obtain ⟨passed, rest', split, found, missed, stops⟩ :=
          lists.seek_from (· == timer) (Nat.lt_succ_of_le
            (Nat.le_of_succ_le chained.length_le))
        have behind : timer ∈ rest' := by
          have inside : timer ∈ passed ++ rest' :=
            split ▸ (List.mem_cons.mp member).resolve_left same
          refine (List.mem_append.mp inside).resolve_left fun early => ?_
          simpa using missed timer early
        cases rest' with
        | nil => cases behind
        | cons next back =>
          obtain rfl : next = timer := by simpa using stops next rfl
          subst split
          have chained' : Chained s (([head] ++ passed) ++ next :: back) := by simpa using chained
          have read := chained'.lists.read_eq
          have found' : s.chain.seek (· == next) (n + 1) (some head) =
              some ([head] ++ passed).getLast? := found
          refine ⟨_, _, ?_, chained'.deactivate, rfl, rfl, rfl⟩
          simp only [if_neg same, found', Option.bind_some]
          exact if_pos read

/-! ### A timer is put into the chain -/

theorem Chained.insert (chained : Chained s (front ++ back)) (idle : s.timActive timer = false)
    (before : ∀ other ∈ front, s.timTime other ≤ timeout)
    (after : ∀ other ∈ back, timeout ≤ s.timTime other) :
    Chained ((s.activate timer timeout func fd).setChain
      ((s.activate timer timeout func fd).chain.insert front.getLast? timer))
      (front ++ timer :: back) := by
  have fresh : timer ∉ front ++ back := fun member => by
    rw [(chained.active timer).mpr member] at idle
    cases idle
  have times (other : Fin n) (member : other ∈ front ++ back) :
      update s.timTime timer timeout other = s.timTime other :=
    update_of_ne (fun same : other = timer => fresh (same ▸ member)) _ _
  have lists : (s.activate timer timeout func fd).chain.Lists (front ++ back) :=
    chained.lists.update_of_notMem fresh none
  refine ⟨lists.insert fresh, fun other => ?_, ?_, chained.clock, fun other => ?_, chained.due,
    chained.awaited⟩
  · have member := chained.active other
    change update s.timActive timer true other = true ↔ _
    rw [List.mem_append, List.mem_cons]
    rw [List.mem_append] at member
    by_cases same : other = timer
    · subst same
      rw [update_self]
      tauto
    · rw [update_of_ne same, member]
      tauto
  · change (front ++ timer :: back).Pairwise fun first second =>
      update s.timTime timer timeout first ≤ update s.timTime timer timeout second
    have sorted : (front ++ back).Pairwise fun first second =>
        update s.timTime timer timeout first ≤ update s.timTime timer timeout second :=
      chained.sorted.imp_of_mem fun first second related => by rwa [times _ first, times _ second]
    rw [List.pairwise_append] at sorted ⊢
    obtain ⟨sorted₁, sorted₂, across⟩ := sorted
    refine ⟨sorted₁, .cons (fun other member => ?_) sorted₂, fun first member second member' => ?_⟩
    · rw [update_self, times other (List.mem_append_right _ member)]
      exact after other member
    · rcases List.mem_cons.mp member' with rfl | later
      · rw [update_self, times first (List.mem_append_left _ member)]
        exact before first member
      · exact across first member second later
  · have settled := chained.settled other
    change update s.sets timer _ other = s.cancels other + s.ran other +
      if update s.timActive timer true other = true then 1 else 0
    by_cases same : other = timer
    · subst same
      rw [idle] at settled
      rw [update_self, update_self]
      simpa using settled
    · rwa [update_of_ne same, update_of_ne same]

section

variable (chained : Chained s timers)
include chained

/-- A timer that is set gets its place in the list. -/
theorem Chained.enchain (idle : s.timActive timer = false) (timeout : Int) (func : Nat) (fd : Int) :
    ∃ s' timers', (s.activate timer timeout func fd).enchain timer timeout = some s' ∧
      Chained s' timers' ∧ s'.timActive = update s.timActive timer true ∧
      s'.timTime = update s.timTime timer timeout ∧ s'.uptime = s.uptime := by
  have fresh : timer ∉ timers := fun member => by
    rw [(chained.active timer).mpr member] at idle
    cases idle
  rw [Clock.enchain]
  cases timers with
  | nil =>
    have first : (s.activate timer timeout func fd).timerChain = none := chained.lists
    have empty : Chained s ([] ++ []) := chained
    have chained' : Chained ((s.activate timer timeout func fd).setChain
        ((s.activate timer timeout func fd).chain.insert none timer)) [timer] :=
      empty.insert idle (by simp) (by simp)
    rw [first]
    refine ⟨_, [timer], rfl, ?_, rfl, rfl, rfl⟩
    convert chained' using 1
    simp only [setChain, activate, chain, Links.insert, Links.write, Links.read,
      show s.timerChain = none from chained.lists, update_idem]
  | cons head rest =>
    have first : (s.activate timer timeout func fd).timerChain = some head := chained.lists.1
    have other : head ≠ timer := fun same => fresh (by simp [same])
    have time : (s.activate timer timeout func fd).timTime head = s.timTime head :=
      update_of_ne other _ _
    have sorted := List.pairwise_cons.mp chained.sorted
    rw [first]
    dsimp only
    rw [time]
    split
    case isTrue earlier =>
      have whole : Chained s ([] ++ head :: rest) := chained
      refine ⟨_, _, rfl, whole.insert idle (by simp) fun next member => ?_, rfl, rfl, rfl⟩
      rcases List.mem_cons.mp member with rfl | later
      · exact Int.le_of_lt earlier
      · exact (Int.le_of_lt earlier).trans (sorted.1 next later)
    case isFalse later =>
      have lists : (s.activate timer timeout func fd).chain.Lists ([head] ++ rest) :=
        chained.lists.update_of_notMem fresh none
      obtain ⟨passed, rest', rfl, found, missed, stops⟩ := lists.seek_from
        (fun next => decide (timeout ≤ (s.activate timer timeout func fd).timTime next))
        (Nat.lt_succ_of_le (Nat.le_of_succ_le chained.length_le))
      have times (next : Fin n) (member : next ∈ head :: (passed ++ rest')) :
          (s.activate timer timeout func fd).timTime next = s.timTime next :=
        update_of_ne (fun same : next = timer => fresh (same ▸ member)) _ _
      have chained' : Chained s (([head] ++ passed) ++ rest') := by simpa using chained
      have found' : (s.activate timer timeout func fd).chain.seek
          (fun next => decide (timeout ≤ (s.activate timer timeout func fd).timTime next)) (n + 1)
          (some head) = some ([head] ++ passed).getLast? := found
      rw [found']
      refine ⟨_, _, rfl, chained'.insert idle (fun next member => ?_) fun next member => ?_, rfl,
        rfl, rfl⟩
      · rcases List.mem_cons.mp member with rfl | inside
        · exact Int.not_lt.mp later
        · have early := missed next inside
          rw [times next (List.mem_cons_of_mem _ (List.mem_append_left _ inside))] at early
          simp only [decide_eq_false_iff_not] at early
          omega
      · have stop (next : Fin n) (found : next ∈ rest'.head?) : timeout ≤ s.timTime next := by
          have late := stops next found
          have inside := List.mem_append_right passed (List.mem_of_mem_head? found)
          rw [times next (List.mem_cons_of_mem _ inside)] at late
          simpa using late
        cases rest' with
        | nil => cases member
        | cons second back =>
          have sorted' := List.pairwise_cons.mp (List.pairwise_append.mp chained'.sorted).2.1
          rcases List.mem_cons.mp member with rfl | later'
          · exact stop next rfl
          · exact (stop second rfl).trans (sorted'.1 next later')

theorem Chained.clckTimer (timer : Fin n) (timeout : Int) (func : Nat) (fd : Int) :
    ∃ s' timers', s.clckTimer timer timeout func fd = some s' ∧ Chained s' timers' ∧ Covered s' ∧
      s'.timActive = update s.timActive timer true ∧
      s'.timTime = update s.timTime timer timeout ∧ s'.uptime = s.uptime := by
  obtain ⟨s₁, timers₁, released, chained₁, active₁, time₁, uptime₁⟩ : ∃ s₁ timers₁,
      (if s.timActive timer then s.clckFastRelease timer else some s) = some s₁ ∧
      Chained s₁ timers₁ ∧ s₁.timActive = update s.timActive timer false ∧
      s₁.timTime = s.timTime ∧ s₁.uptime = s.uptime := by
    by_cases active : s.timActive timer = true
    · obtain ⟨s₁, timers₁, released, rest⟩ := chained.clckFastRelease timer
      exact ⟨s₁, timers₁, (if_pos active).trans released, rest⟩
    · refine ⟨s, timers, if_neg active, chained, ?_, rfl, rfl⟩
      rw [← Bool.eq_false_of_not_eq_true active, update_eq_self]
  obtain ⟨s₂, timers₂, put, chained₂, active₂, time₂, uptime₂⟩ := chained₁.enchain
    (show s₁.timActive timer = false by rw [active₁, update_self]) timeout func fd
  rw [active₁, update_idem] at active₂
  rw [time₁] at time₂
  rw [uptime₁] at uptime₂
  rw [Clock.clckTimer, released, Option.bind_some, put, Option.map_some]
  split
  case isTrue =>
    obtain ⟨chained', covered⟩ := chained₂.setTimer
    exact ⟨_, timers₂, rfl, chained', covered, setTimer_fields.1.trans active₂,
      setTimer_fields.2.1.trans time₂, setTimer_fields.2.2.trans uptime₂⟩
  case isFalse set =>
    push Not at set
    refine ⟨s₂, timers₂, rfl, chained₂, fun head found => .inr ?_, active₂, time₂, uptime₂⟩
    exact ⟨set.1, set.2 head found, chained₂.awaited set.1⟩

theorem Chained.clckUntimer (timer : Fin n) :
    ∃ s' timers', s.clckUntimer timer = some s' ∧ Chained s' timers' ∧ Covered s' ∧
      s'.timActive = update s.timActive timer false ∧ s'.timTime = s.timTime ∧
      s'.uptime = s.uptime := by
  obtain ⟨s₁, timers₁, released, chained₁, active₁, time₁, uptime₁⟩ := chained.clckFastRelease timer
  obtain ⟨chained', covered⟩ := chained₁.setTimer
  exact ⟨_, timers₁, congrArg (Option.map Clock.setTimer) released, chained', covered,
    setTimer_fields.1.trans active₁, setTimer_fields.2.1.trans time₁,
    setTimer_fields.2.2.trans uptime₁⟩

end

/-! ### What the functions of timers do -/

/-- An act completes and keeps the chain in order. It makes no timer due unless it sets one to a
time that has come. -/
theorem Chained.act (chained : Chained s timers) (act : ClockAct n) (now : Int) :
    ∃ s' timers', s.act act = some s' ∧ Chained s' timers' ∧ (Covered s → Covered s') ∧
      s.uptime ≤ s'.uptime ∧
      (act.Later now → ∀ timer, Due s' now timer → Due s now timer) := by
  cases act with
  | timer timer timeout func fd =>
    obtain ⟨s', timers', done, chained', covered, active, time, uptime⟩ :=
      chained.clckTimer timer timeout func fd
    refine ⟨s', timers', done, chained', fun _ => covered, uptime.ge, fun later other due => ?_⟩
    rw [Due, active, time] at due
    by_cases same : other = timer
    · rw [same, update_self, update_self] at due
      exact absurd due.2 (Int.not_le.mpr later)
    · rwa [update_of_ne same, update_of_ne same] at due
  | untimer timer =>
    obtain ⟨s', timers', done, chained', covered, active, time, uptime⟩ :=
      chained.clckUntimer timer
    refine ⟨s', timers', done, chained', fun _ => covered, uptime.ge, fun _ other due => ?_⟩
    rw [Due, active, time] at due
    by_cases same : other = timer
    · rw [same, update_self] at due
      cases due.1
    · rwa [update_of_ne same] at due
  | getTime =>
    refine ⟨_, timers, rfl, chained.getTime, fun covered => ?_, getTime_uptime.ge,
      fun _ _ due => ?_⟩
    · rw [Clock.getTime]
      split <;> exact covered
    · rwa [Due, getTime_timActive, getTime_timTime] at due
  | elapse ticks =>
    have later : s.uptime ≤ s.uptime + ticks := by omega
    refine ⟨_, timers, rfl, ?_, id, later, fun _ _ due => due⟩
    exact { chained with
      clock := ⟨chained.clock.1, chained.clock.2.trans later⟩
      due := fun run member => ⟨(chained.due run member).1,
        (chained.due run member).2.trans later⟩ }
  | ring =>
    rw [Clock.act]
    cases set : s.alarm with
    | none => exact ⟨s, timers, rfl, chained, id, le_rfl, fun _ _ due => due⟩
    | some time =>
      dsimp only
      split
      · refine ⟨_, timers, rfl, { chained with awaited := fun _ => .inr rfl }, fun covered => ?_,
          le_rfl, fun _ _ due => due⟩
        exact fun head found => (covered head found).imp_right fun cover =>
          ⟨cover.1, cover.2.1, .inr rfl⟩
      · exact ⟨s, timers, rfl, chained, id, le_rfl, fun _ _ due => due⟩

theorem Chained.acts (chained : Chained s timers) (acts : List (ClockAct n)) (now : Int) :
    ∃ s' timers', acts.foldlM Clock.act s = some s' ∧ Chained s' timers' ∧ s.uptime ≤ s'.uptime ∧
      ((∀ act ∈ acts, act.Later now) → ∀ timer, Due s' now timer → Due s now timer) := by
  induction acts generalizing s timers with
  | nil => exact ⟨s, timers, rfl, chained, le_rfl, fun _ _ due => due⟩
  | cons act acts inductionHypothesis =>
    obtain ⟨s₁, timers₁, done, chained₁, -, uptime₁, due₁⟩ := chained.act act now
    obtain ⟨s', timers', rest, chained', uptime', due'⟩ := inductionHypothesis chained₁
    refine ⟨s', timers', ?_, chained', uptime₁.trans uptime', fun later timer due => ?_⟩
    · rw [List.foldlM_cons, done]
      exact rest
    · exact due₁ (later act List.mem_cons_self) timer
        (due' (fun act member => later act (List.mem_cons_of_mem _ member)) timer due)

/-! ### Expiry -/

/-- The first timer is due: it is taken from the chain and its function is called. -/
theorem Chained.expire (chained : Chained s (timer :: back)) (due : s.timTime timer ≤ now)
    (clock : now ≤ s.uptime) : Chained (s.expire now timer) back where
  lists := chained.lists.2
  active other := by
    have nodup := List.nodup_cons.mp chained.nodup
    have member := chained.active other
    change update s.timActive timer false other = true ↔ _
    by_cases same : other = timer
    · subst same
      rw [update_self]
      simp [nodup.1]
    · rw [update_of_ne same, member, List.mem_cons]
      tauto
  sorted := (List.pairwise_cons.mp chained.sorted).2
  clock := chained.clock
  settled other := by
    have settled := chained.settled other
    change s.sets other = s.cancels other + (s.runs ++ [_]).countP _ +
      if update s.timActive timer false other = true then 1 else 0
    rw [List.countP_append]
    by_cases same : other = timer
    · subst same
      rw [if_pos ((chained.active other).mpr List.mem_cons_self)] at settled
      rw [update_self]
      simpa [ran, List.countP_cons, add_assoc] using settled
    · rw [update_of_ne same]
      simpa [ran, List.countP_cons, Ne.symm same] using settled
  due run member := by
    rcases List.mem_append.mp member with earlier | now'
    · exact chained.due run earlier
    · obtain rfl := List.mem_singleton.mp now'
      exact ⟨due, clock⟩
  awaited := chained.awaited

theorem Chained.not_due (chained : Chained s timers)
    (first : ∀ head ∈ s.timerChain, now < s.timTime head) (timer : Fin n) : ¬ Due s now timer := by
  intro due
  have member := (chained.active timer).mp due.1
  cases timers with
  | nil => cases member
  | cons head rest =>
    have late := first head chained.lists.1
    rcases List.mem_cons.mp member with rfl | behind
    · exact absurd due.2 (Int.not_le.mpr late)
    · have := (List.pairwise_cons.mp chained.sorted).1 timer behind
      exact absurd due.2 (by omega)

variable {acts : Fin n → Clock n → List (ClockAct n)} {turns : Nat}

section

variable (chained : Chained s timers)
include chained

theorem Chained.expireTimers (clock : now ≤ s.uptime)
    (ends : expireTimers (calls acts) now turns s = some s') :
    (∃ timers', Chained s' timers') ∧ ∀ timer, ¬ Due s' now timer := by
  induction turns generalizing s timers with
  | zero => cases ends
  | succ turns inductionHypothesis =>
    rw [Clock.expireTimers] at ends
    cases timers with
    | nil =>
      have none : s.timerChain = none := chained.lists
      rw [none] at ends
      obtain rfl := some.inj ends
      exact ⟨⟨_, chained⟩, chained.not_due fun head found => by rw [none] at found; cases found⟩
    | cons head rest =>
      have first : s.timerChain = some head := chained.lists.1
      rw [first] at ends
      dsimp only at ends
      split at ends
      case isTrue due =>
        have chained₁ := chained.expire due clock
        obtain ⟨s₁, timers₁, done, chained₂, uptime, -⟩ :=
          chained₁.acts (acts head (s.expire now head)) now
        rw [calls, done] at ends
        exact inductionHypothesis chained₂ (clock.trans uptime) ends
      case isFalse late =>
        obtain rfl := some.inj ends
        refine ⟨⟨_, chained⟩, chained.not_due fun head' found => ?_⟩
        obtain rfl := some.inj (first.symm.trans found)
        exact Int.not_le.mp late

theorem Chained.expireTimers_ends (clock : now ≤ s.uptime)
    (later : ∀ timer s, ∀ act ∈ acts timer s, act.Later now) (pending : Finset (Fin n))
    (covers : ∀ timer, Due s now timer → timer ∈ pending) (enough : pending.card < turns) :
    ∃ s', Clock.expireTimers (calls acts) now turns s = some s' := by
  induction turns generalizing s timers pending with
  | zero => exact absurd enough (Nat.not_lt_zero _)
  | succ turns inductionHypothesis =>
    rw [Clock.expireTimers]
    cases timers with
    | nil =>
      have none : s.timerChain = none := chained.lists
      exact ⟨s, by rw [none]⟩
    | cons head rest =>
      have first : s.timerChain = some head := chained.lists.1
      rw [first]
      dsimp only
      split
      case isTrue due =>
        have chained₁ := chained.expire due clock
        obtain ⟨s₁, timers₁, done, chained₂, uptime, fewer⟩ :=
          chained₁.acts (acts head (s.expire now head)) now
        rw [calls, done]
        have member : head ∈ pending :=
          covers head ⟨(chained.active head).mpr List.mem_cons_self, due⟩
        refine inductionHypothesis chained₂ (clock.trans uptime) (pending.erase head)
          (fun timer due' => ?_) ?_
        · have before := fewer (later head _) timer due'
          have active : update s.timActive head false timer = true := before.1
          have other : timer ≠ head := fun same => by simp [same] at active
          rw [update_of_ne other] at active
          exact Finset.mem_erase.mpr ⟨other, covers timer ⟨active, before.2⟩⟩
        · have positive := Finset.card_pos.mpr ⟨head, member⟩
          rw [Finset.card_erase_of_mem member]
          omega
      case isFalse => exact ⟨s, rfl⟩

/-- `clck_expire_timers` leaves no timer that is due, and the next one is taken care of. -/
theorem Chained.clckExpireTimers (ends : s.clckExpireTimers (calls acts) turns = some s') :
    (∃ timers', Chained s' timers') ∧ Covered s' ∧
      ∀ timer, ¬ Due s' s.getTime.currTime timer := by
  have called : Chained { s with clckCallExpire := false } timers := { chained with }
  have time : Clock.getTime { s with clckCallExpire := false } =
      { s.getTime with clckCallExpire := false } := by
    simp only [Clock.getTime]
    split <;> rfl
  rw [Clock.clckExpireTimers] at ends
  split at ends
  case isTrue none =>
    obtain rfl := some.inj ends
    refine ⟨⟨timers, called⟩, fun head found => ?_, called.not_due fun head found => ?_⟩
    all_goals
      rw [none] at found
      cases found
  case isFalse =>
    obtain ⟨s₁, looped, rfl⟩ := Option.map_eq_some_iff.mp ends
    rw [time] at looped
    have chained₁ : Chained { s.getTime with clckCallExpire := false } timers :=
      { chained.getTime with }
    obtain ⟨⟨timers', chained'⟩, none⟩ := chained₁.expireTimers chained₁.clock.2 looped
    refine ⟨⟨timers', chained'.setTimer.1⟩, chained'.setTimer.2, fun timer due => none timer ?_⟩
    rwa [Due, setTimer_fields.1, setTimer_fields.2.1] at due

theorem Chained.clckExpireTimers_ends
    (later : ∀ timer s', ∀ act ∈ acts timer s', act.Later s.getTime.currTime) :
    ∃ s', s.clckExpireTimers (calls acts) (n + 1) = some s' := by
  have time : Clock.getTime { s with clckCallExpire := false } =
      { s.getTime with clckCallExpire := false } := by
    simp only [Clock.getTime]
    split <;> rfl
  rw [Clock.clckExpireTimers]
  split
  · exact ⟨_, rfl⟩
  · have chained₁ : Chained { s.getTime with clckCallExpire := false } timers :=
      { chained.getTime with }
    have enough : (Finset.univ : Finset (Fin n)).card < n + 1 := by simp
    obtain ⟨s', ends⟩ := chained₁.expireTimers_ends chained₁.clock.2 later Finset.univ
      (fun timer _ => Finset.mem_univ timer) enough
    rw [time]
    exact ⟨s'.setTimer, congrArg (Option.map Clock.setTimer) ends⟩

/-- When an alarm message comes and a timer is due, the main loop will expire timers. -/
theorem Chained.alarm :
    ∃ s', s.step .alarm = some s' ∧ Chained s' timers ∧ Covered s' ∧
      ((∃ timer, Due s s.uptime timer) → s'.clckCallExpire = true) := by
  have clock : 0 ≤ s.uptime := chained.clock.1.trans chained.clock.2
  have chained₁ : Chained { s.resetTime with ringing := false, nextTimeout := 0 } timers :=
    { chained with
      clock := ⟨le_rfl, clock⟩
      awaited := fun set => absurd rfl set }
  refine ⟨_, rfl, chained₁.setTimer.1, chained₁.setTimer.2, ?_⟩
  rintro ⟨timer, due⟩
  by_contra idle
  refine chained.not_due (fun head found => ?_) timer due
  by_contra early
  exact idle (setTimer_calls rfl found (Int.not_lt.mp early))

end

/-! ### Every run -/

theorem Chained.step {event : ClockEvent n} (chained : Chained s timers) (covered : Covered s)
    (allowed : s.Allowed event) (done : s.step event = some s') :
    (∃ timers', Chained s' timers') ∧ Covered s' := by
  cases event with
  | act act =>
    obtain ⟨s₁, timers₁, done₁, chained₁, covered₁, -⟩ := chained.act act 0
    obtain rfl := some.inj (done.symm.trans done₁)
    exact ⟨⟨timers₁, chained₁⟩, covered₁ covered⟩
  | receive time =>
    have clock : 0 ≤ s.uptime := chained.clock.1.trans chained.clock.2
    have chained₁ : Chained s.resetTime timers := { chained with clock := ⟨le_rfl, clock⟩ }
    obtain rfl := some.inj done
    cases time with
    | none => exact ⟨⟨timers, chained₁⟩, covered⟩
    | some tim =>
      have set : s.resetTime.setTime tim = { s.resetTime with currTime := tim } := if_pos rfl
      rw [Option.elim_some, set]
      exact ⟨⟨timers, { chained₁ with clock := allowed tim rfl }⟩, covered⟩
  | alarm =>
    obtain ⟨s₁, done₁, chained₁, covered₁, -⟩ := chained.alarm
    obtain rfl := some.inj (done.symm.trans done₁)
    exact ⟨⟨timers, chained₁⟩, covered₁⟩
  | expire acts turns =>
    obtain ⟨chained₁, covered₁, -⟩ := chained.clckExpireTimers done
    exact ⟨chained₁, covered₁⟩

theorem chained_start : Chained ({} : Clock n) [] where
  lists := rfl
  active := by simp
  sorted := .nil
  clock := ⟨le_rfl, le_rfl⟩
  settled := by simp [ran]
  due := by simp
  awaited set := absurd rfl set

/-- In every run the chain is sorted and has each active timer once, the first one will be expired
in time, and each time that a timer was set it was cancelled, run once when its time had come, or is
still active. The next call completes, and expiring the timers leaves none that is due. -/
theorem timers_run_once {events : List (ClockEvent n)} (run : Run step Allowed {} events s) :
    (∃ timers, s.chain.Lists timers ∧ timers.Nodup ∧
      (timers.Pairwise fun first second => s.timTime first ≤ s.timTime second) ∧
      ∀ timer, timer ∈ timers ↔ s.timActive timer = true) ∧
    (∀ head ∈ s.timerChain, s.clckCallExpire = true ∨
      s.nextTimeout ≠ 0 ∧ s.nextTimeout ≤ s.timTime head ∧ s.Awaited) ∧
    (∀ timer, s.sets timer = s.cancels timer + s.ran timer + if s.timActive timer then 1 else 0) ∧
    (∀ run ∈ s.runs, run.time ≤ run.now ∧ run.now ≤ s.uptime) ∧
    (∀ act, ∃ s', s.step (.act act) = some s') ∧
    (∃ s', s.step .alarm = some s' ∧
      ((∃ timer, Due s s.uptime timer) → s'.clckCallExpire = true)) ∧
    (∀ acts turns s', s.step (.expire acts turns) = some s' →
      ∀ timer, ¬ Due s' s.getTime.currTime timer) ∧
    ∀ acts, (∀ timer s', ∀ act ∈ acts timer s', act.Later s.getTime.currTime) →
      ∃ s', s.step (.expire acts (n + 1)) = some s' := by
  obtain ⟨⟨timers, chained⟩, covered⟩ : (∃ timers, Chained s timers) ∧ Covered s := by
    refine @Run.invariant (Clock n) (ClockEvent n) step Allowed {} s events
      (fun s => (∃ timers, Chained s timers) ∧ Covered s)
      ⟨⟨[], chained_start⟩, fun head found => by cases found⟩ ?_ run
    rintro s event s' ⟨⟨timers, chained⟩, covered⟩ allowed done
    exact chained.step covered allowed done
  refine ⟨⟨timers, chained.lists, chained.nodup, chained.sorted,
    fun timer => (chained.active timer).symm⟩, covered, chained.settled, chained.due, fun act => ?_,
    ?_, fun acts turns s' ends => (chained.clckExpireTimers ends).2.2,
    fun acts later => chained.clckExpireTimers_ends later⟩
  · obtain ⟨s', -, done, -⟩ := chained.act act 0
    exact ⟨s', done⟩
  · obtain ⟨s', done, -, -, called⟩ := chained.alarm
    exact ⟨s', done, called⟩

/-- Two timers are set, an alarm goes off, and the function of the first sets it again and cancels
the second. -/
def twoTimers : List (ClockEvent 2) :=
  [.act (.elapse 10), .act (.timer ⟨0, by decide⟩ 15 1 7), .act (.timer ⟨1, by decide⟩ 20 2 8),
    .act (.elapse 6), .act .ring, .alarm,
    .expire (fun timer s => [.timer timer (s.uptime + 30) 1 7, .untimer ⟨1, by decide⟩]) 3]

def twoTimersEnd : Clock 2 := (execute step Allowed twoTimers {}).getD {}

/-- The first timer has been run, and the list is in order. -/
theorem timers_run_once_two :
    (∃ timers, twoTimersEnd.chain.Lists timers ∧ timers.Nodup ∧
      (timers.Pairwise fun first second =>
        twoTimersEnd.timTime first ≤ twoTimersEnd.timTime second) ∧
      ∀ timer, timer ∈ timers ↔ twoTimersEnd.timActive timer = true) ∧
    twoTimersEnd.runs = [⟨⟨0, by decide⟩, 1, 7, 15, 16⟩] := by
  have completes : (execute step Allowed twoTimers {}).isSome := by decide
  obtain ⟨s, completed⟩ := Option.isSome_iff_exists.mp completes
  have ended : twoTimersEnd = s := by rw [twoTimersEnd, completed, Option.getD_some]
  refine ⟨?_, by decide⟩
  rw [ended]
  exact (timers_run_once (.of_execute completed)).1

end Clock

end Minix.Inet
