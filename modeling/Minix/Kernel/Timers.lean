/-
This file proves that the timers of the clock task stay in order: the list of active timers is
sorted, `next_timer` is not later than the first of them, each timer that is set is in one list
once, and it runs once and not too early unless it is cancelled.

The lists of expired timers are not sorted: of two timers that expire together the later one is in
front (`expired_not_sorted`).
-/

import Minix.Kernel.Clock

namespace Minix.Kernel

open Function (update update_of_ne update_self)
open LinkedList (Links Chain erase_middle)

variable {n : Nat} {s : Clock n}

/-! ### Timers in order -/

/-- The lists visit the given timers. -/
structure Linked (s : Clock n) (active : List (Fin n)) (expired : Slot → List (Fin n)) : Prop where
  timers : s.active.Lists active
  expTimers : ∀ p, (s.expired p).Lists (expired p)

/-- How often a timer was run. -/
def TimerHistory.ran (history : TimerHistory n) (tp : Fin n) : Nat :=
  history.runs.countP fun expiry => decide (expiry.timer = tp)

/-- What the lists hold: the active timers are sorted, and those that are set are in one list. Each
timer was run once for every time it was set, except when it was cancelled or is still set, and not
before its time. -/
structure Ordered (s : Clock n) (active : List (Fin n)) (expired : Slot → List (Fin n)) : Prop where
  sorted : active.Pairwise fun first second => s.tmrExpTime first ≤ s.tmrExpTime second
  next : ∀ tp ∈ active, s.nextTimer ≤ s.tmrExpTime tp
  owner : ∀ p, ∀ tp ∈ expired p, s.tmrTask tp = p
  apart : ∀ p, ∀ tp ∈ active, tp ∉ expired p
  armed : ∀ tp, s.history.armed tp = true ↔ tp ∈ active ∨ ∃ p, tp ∈ expired p
  timed : ∀ tp, s.history.armed tp = true → s.tmrExpTime tp ≠ tmrNever
  due : ∀ p, ∀ tp ∈ expired p, s.tmrExpTime tp ≤ s.realtime
  account : ∀ tp, s.history.sets tp = s.history.cancels tp + s.history.ran tp +
    if s.history.armed tp then 1 else 0
  punctual : ∀ expiry ∈ s.history.runs, expiry.expTime ≤ expiry.time

/-- The invariant. -/
structure InOrder (s : Clock n) (active : List (Fin n)) (expired : Slot → List (Fin n)) : Prop
    extends Linked s active expired, Ordered s active expired

section Lists

variable {s s' : Clock n} {active active' : List (Fin n)} {expired : Slot → List (Fin n)}
  {tp : Fin n} {p q : Slot} {links : Links (Fin n)}

theorem Ordered.separate (ordered : Ordered s active expired) (distinct : p ≠ q)
    (member : tp ∈ expired p) : tp ∉ expired q := fun other =>
  distinct ((ordered.owner p tp member).symm.trans (ordered.owner q tp other))

theorem Ordered.unlisted (ordered : Ordered s active expired)
    (resting : s.history.armed tp = false) : tp ∉ active ∧ ∀ p, tp ∉ expired p := by
  have idle := (not_congr (ordered.armed tp)).mp (by simp [resting])
  exact ⟨fun member => idle (.inl member), fun p member => idle (.inr ⟨p, member⟩)⟩

section

variable (linked : Linked s active expired)
include linked

theorem Linked.length_le : active.length < n + 1 := by
  have fits := linked.timers.length_le
  rw [Fintype.card_fin] at fits
  omega

theorem Linked.expired_length_le (p : Slot) :
    (expired p).length < n + 1 := by
  have fits := (linked.expTimers p).length_le
  rw [Fintype.card_fin] at fits
  omega

theorem Linked.setActive (lists : links.Lists active')
    (same : ∀ p, ∀ node ∈ expired p, links.next node = s.tmrNext node) :
    Linked (s.setActive links) active' expired :=
  ⟨lists, fun p => (linked.expTimers p).congr fun node member => same p node member⟩

theorem Linked.setExpired {mine : List (Fin n)} (lists : links.Lists mine)
    (same : ∀ node ∈ active, links.next node = s.tmrNext node)
    (others : ∀ q, q ≠ p → ∀ node ∈ expired q, links.next node = s.tmrNext node) :
    Linked (s.setExpired p links) active (update expired p mine) := by
  refine ⟨linked.timers.congr fun node member => same node member, fun q => ?_⟩
  by_cases theirs : q = p
  · subst theirs
    rw [update_self]
    simpa [Clock.expired, Clock.setExpired] using lists
  · rw [update_of_ne theirs]
    have chain := (linked.expTimers q).congr fun node member => others q theirs node member
    simpa [Clock.expired, Clock.setExpired, theirs, Links.Lists] using chain

end

theorem seek_timer {nodes : List (Fin n)} (lists : links.Lists nodes)
    (enough : nodes.length < n + 1) :
    ∃ atp, links.seek (· == tp) (n + 1) none = some atp ∧
      ((tp ∉ nodes ∧ links.read atp ≠ some tp) ∨
        ∃ front back, nodes = front ++ tp :: back ∧ atp = front.getLast? ∧
          links.read atp = some tp) := by
  obtain ⟨front, back, rfl, found, missed, stops⟩ := lists.seek_eq (· == tp) enough
  refine ⟨_, found, ?_⟩
  have reads := lists.read_eq
  cases back with
  | nil =>
    refine .inl ⟨fun member => ?_, by rw [reads]; simp⟩
    have passed := missed tp (by simpa using member)
    simp at passed
  | cons node back =>
    obtain rfl : node = tp := by simpa using stops node rfl
    exact .inr ⟨front, back, rfl, rfl, reads⟩

theorem Ordered.setActive (ordered : Ordered s active expired) (links : Links (Fin n)) :
    Ordered (s.setActive links) active expired :=
  { ordered with }

theorem Ordered.setExpired (ordered : Ordered s active expired) (p : Slot)
    (links : Links (Fin n)) : Ordered (s.setExpired p links) active expired :=
  { ordered with }

end Lists

/-! ### What becomes of the expired timers -/

/-- How often a timer was run or cancelled. -/
def Clock.settled (s : Clock n) (tp : Fin n) : Nat := s.history.cancels tp + s.history.ran tp

/-- No timer is added to a list of expired timers, and each that leaves it was run or cancelled. -/
structure Drains (s s' : Clock n) (queue queue' : List (Fin n)) : Prop where
  shorter : queue'.length ≤ queue.length
  settled : ∀ tp, s.settled tp ≤ s'.settled tp
  left : ∀ tp ∈ queue, tp ∈ queue' ∨ s.settled tp < s'.settled tp

section Drain

variable {s s' s'' : Clock n} {queue queue' queue'' : List (Fin n)}

theorem Drains.refl (s : Clock n) (queue : List (Fin n)) : Drains s s queue queue :=
  ⟨le_refl _, fun _ => le_refl _, fun _ => .inl⟩

theorem Drains.trans (first : Drains s s' queue queue') (second : Drains s' s'' queue' queue'') :
    Drains s s'' queue queue'' := by
  refine ⟨second.shorter.trans first.shorter,
    fun tp => (first.settled tp).trans (second.settled tp), fun tp member => ?_⟩
  rcases first.left tp member with still | gone
  · exact (second.left tp still).imp_right fun gone => (first.settled tp).trans_lt gone
  · exact .inr (gone.trans_le (second.settled tp))

end Drain

/-! ### Cancelling -/

section Clear

variable {s s' : Clock n} {active : List (Fin n)} {expired : Slot → List (Fin n)} {tp : Fin n}

theorem Ordered.disarm (ordered : Ordered s active expired) (nodup : active.Nodup)
    (nodups : ∀ p, (expired p).Nodup) (tp : Fin n) :
    Ordered (s.disarm tp) (active.erase tp) fun p => (expired p).erase tp := by
  have others : ∀ {other}, other ∈ active.erase tp → other ≠ tp ∧ other ∈ active :=
    fun member => nodup.mem_erase_iff.mp member
  have others' : ∀ {p other}, other ∈ (expired p).erase tp → other ≠ tp ∧ other ∈ expired p :=
    fun member => (nodups _).mem_erase_iff.mp member
  have time : ∀ {other}, other ≠ tp → (s.disarm tp).tmrExpTime other = s.tmrExpTime other :=
    fun distinct => update_of_ne distinct _ _
  refine ⟨?_, fun other member => ?_, fun p other member => ordered.owner p other
    (others' member).2,
    fun p other member member' => ordered.apart p other (others member).2 (others' member').2,
    fun other => ?_, fun other armed => ?_, fun p other member => ?_, fun other => ?_,
    ordered.punctual⟩
  · refine (ordered.sorted.sublist List.erase_sublist).imp_of_mem fun first second before => ?_
    rwa [time (others first).1, time (others second).1]
  · rw [time (others member).1]
    exact ordered.next other (others member).2
  · by_cases same : other = tp
    · subst same
      simp [Clock.disarm, nodup.mem_erase_iff, (nodups _).mem_erase_iff]
    · simpa [Clock.disarm, same, nodup.mem_erase_iff, (nodups _).mem_erase_iff]
        using ordered.armed other
  · have distinct : other ≠ tp := by
      rintro rfl
      simp [Clock.disarm] at armed
    rw [time distinct]
    exact ordered.timed other (by simpa [Clock.disarm, distinct] using armed)
  · rw [time (others' member).1]
    exact ordered.due p other (others' member).2
  · have before := ordered.account other
    by_cases same : other = tp
    · subst same
      simp only [Clock.disarm, update_self]
      simp only [TimerHistory.ran] at before ⊢
      rw [before]
      cases s.history.armed other <;> simp; omega
    · simpa [Clock.disarm, same, TimerHistory.ran] using before

/-- A timer that is cleared is on no list. -/
theorem tmrClrtimer_inOrder (order : InOrder s active expired) (tp : Fin n) :
    ∃ s', tmrClrtimer s tp = some s' ∧
      InOrder s' (active.erase tp) (fun p => (expired p).erase tp) ∧
      s'.history = (s.disarm tp).history := by
  obtain ⟨linked, ordered⟩ := order
  have nodups : ∀ p, (expired p).Nodup := fun p => (linked.expTimers p).nodup
  have disarmed := ordered.disarm linked.timers.nodup nodups tp
  have linked' : Linked (s.disarm tp) active expired := ⟨linked.timers, linked.expTimers⟩
  obtain ⟨atp, found, absent | ⟨front, back, rfl, rfl, reads⟩⟩ :=
    @seek_timer _ tp _ _ linked'.timers linked'.length_le
  · obtain ⟨absent, misses⟩ := absent
    have same : active.erase tp = active := List.erase_of_not_mem absent
    rw [same] at disarmed ⊢
    obtain ⟨atp', found', absent' | ⟨front, back, mine, rfl, reads⟩⟩ :=
      @seek_timer _ tp _ _ (linked'.expTimers (s.tmrTask tp))
          (linked'.expired_length_le (s.tmrTask tp))
    · obtain ⟨absent', misses'⟩ := absent'
      have none : ∀ p, tp ∉ expired p := fun p member =>
        absent' (ordered.owner p tp member ▸ member)
      have same' : (fun p => (expired p).erase tp) = expired := by
        funext p
        exact List.erase_of_not_mem (none p)
      rw [same'] at disarmed ⊢
      refine ⟨s.disarm tp, ?_, ⟨linked', disarmed⟩, rfl⟩
      simp only [tmrClrtimer]
      rw [found, Option.bind_some, if_neg misses]
      exact Option.map_eq_some_iff.mpr ⟨atp', found', if_neg misses'⟩
    · let p := s.tmrTask tp
      let links := ((s.disarm tp).expired p).remove front.getLast? tp
      have lists : links.Lists (front ++ back) := by
        have before := linked'.expTimers p
        rw [mine] at before
        exact before.remove
      have same' : (fun q => (expired q).erase tp) = update expired p (front ++ back) := by
        funext q
        by_cases theirs : q = p
        · subst theirs
          have nodup := nodups p
          rw [mine] at nodup
          rw [update_self, mine, erase_middle nodup]
        · rw [update_of_ne theirs]
          exact List.erase_of_not_mem fun member => theirs (ordered.owner q tp member).symm
      rw [same'] at disarmed ⊢
      have cursor : ∀ node, front.getLast? = some node → node ∈ expired p := fun node last => by
        rw [mine]
        exact List.mem_append_left _ (List.mem_of_getLast? last)
      refine ⟨(s.disarm tp).setExpired p links, ?_, ⟨linked'.setExpired lists ?_ ?_,
        disarmed.setExpired p links⟩, rfl⟩
      · simp only [tmrClrtimer]
        rw [found, Option.bind_some, if_neg misses]
        exact Option.map_eq_some_iff.mpr ⟨front.getLast?, found', if_pos reads⟩
      · exact fun node member => Links.write_next_of_ne fun last =>
          ordered.apart p node member (cursor node last)
      · exact fun q theirs node member => Links.write_next_of_ne fun last =>
          ordered.separate theirs member (cursor node last)
  · let links := (s.disarm tp).active.remove front.getLast? tp
    have lists : links.Lists (front ++ back) := Links.Lists.remove linked'.timers
    have nodup := linked.timers.nodup
    have same' : (fun p => (expired p).erase tp) = expired := by
      funext p
      exact List.erase_of_not_mem (ordered.apart p tp (by simp))
    rw [same', erase_middle nodup] at disarmed ⊢
    refine ⟨(s.disarm tp).setActive links, ?_, ⟨linked'.setActive lists ?_,
      disarmed.setActive links⟩, rfl⟩
    · simp only [tmrClrtimer]
      rw [found, Option.bind_some]
      exact if_pos reads
    · exact fun p node member => Links.write_next_of_ne fun last =>
        ordered.apart p node (List.mem_append_left _ (List.mem_of_getLast? last)) member

theorem Ordered.drains_disarm (ordered : Ordered s active expired) (p : Slot)
    (history : s'.history = (s.disarm tp).history) :
    Drains s s' (expired p) ((expired p).erase tp) := by
  have settled : ∀ other, s'.settled other =
      s.settled other + if other = tp ∧ s.history.armed tp = true then 1 else 0 := by
    intro other
    simp only [Clock.settled, history]
    by_cases same : other = tp
    · subst same
      simp only [Clock.disarm, update_self, TimerHistory.ran, true_and]
      omega
    · simp [Clock.disarm, same, TimerHistory.ran]
  refine ⟨List.length_erase_le, fun other => ?_, fun other member => ?_⟩
  · rw [settled]
    exact Nat.le_add_right _ _
  · by_cases same : other = tp
    · have armed := (ordered.armed tp).mpr (.inr ⟨p, same ▸ member⟩)
      rw [settled, if_pos ⟨same, armed⟩]
      exact .inr (Nat.lt_succ_self _)
    · exact .inl ((List.mem_erase_of_ne same).mpr member)

end Clear

/-! ### Setting -/

section Set

variable {s s' : Clock n} {active : List (Fin n)} {expired : Slot → List (Fin n)} {tp : Fin n}

/-- A timer that is in no list is put among the active ones, behind those that expire before. -/
theorem Ordered.arm {front back : List (Fin n)} (ordered : Ordered s (front ++ back) expired)
    (resting : s.history.armed tp = false) {task : Slot} {expTime : Int} {func : Nat}
    (timed : expTime ≠ tmrNever) (before : ∀ other ∈ front, s.tmrExpTime other ≤ expTime)
    (after : ∀ other ∈ back.head?, expTime < s.tmrExpTime other) (nextTimer : Int)
    (next : ∀ other ∈ (front ++ tp :: back).head?,
      nextTimer = (s.arm tp task expTime func).tmrExpTime other) :
    Ordered { s.arm tp task expTime func with nextTimer } (front ++ tp :: back) expired := by
  obtain ⟨absent, absent'⟩ := ordered.unlisted resting
  have time : ∀ {other}, other ≠ tp →
      (s.arm tp task expTime func).tmrExpTime other = s.tmrExpTime other :=
    fun distinct => update_of_ne distinct _ _
  have mine : (s.arm tp task expTime func).tmrExpTime tp = expTime := update_self _ _ _
  have apart : ∀ other ∈ front ++ back, other ≠ tp := fun other member same =>
    absent (same ▸ member)
  have later : ∀ other ∈ back, expTime ≤ s.tmrExpTime other := by
    cases back with
    | nil => exact fun _ none => by cases none
    | cons first back =>
      have early := after first rfl
      have rest := (List.pairwise_cons.mp (List.pairwise_append.mp ordered.sorted).2.1).1
      intro other member
      rcases List.mem_cons.mp member with rfl | member
      · exact early.le
      · exact early.le.trans (rest other member)
  have sorted : (front ++ tp :: back).Pairwise fun first second =>
      (s.arm tp task expTime func).tmrExpTime first ≤
        (s.arm tp task expTime func).tmrExpTime second := by
    obtain ⟨sortedFront, sortedBack, across⟩ := List.pairwise_append.mp ordered.sorted
    have inFront : ∀ {other}, other ∈ front → other ≠ tp := fun member =>
      apart _ (List.mem_append_left _ member)
    have inBack : ∀ {other}, other ∈ back → other ≠ tp := fun member =>
      apart _ (List.mem_append_right _ member)
    refine List.pairwise_append.mpr ⟨?_, List.pairwise_cons.mpr ⟨?_, ?_⟩, ?_⟩
    · refine sortedFront.imp_of_mem fun first second earlier => ?_
      rwa [time (inFront first), time (inFront second)]
    · intro other member
      rw [mine, time (inBack member)]
      exact later other member
    · refine sortedBack.imp_of_mem fun first second earlier => ?_
      rwa [time (inBack first), time (inBack second)]
    · intro first member second member'
      rw [time (inFront member)]
      rcases List.mem_cons.mp member' with rfl | member'
      · rw [mine]
        exact before first member
      · rw [time (inBack member')]
        exact across first member second member'
  refine ⟨sorted, fun other member => ?_, fun p other member => ?_, fun p other member => ?_,
    fun other => ?_, fun other armed => ?_, fun p other member => ?_, fun other => ?_,
    ordered.punctual⟩
  · -- the first of the list is the earliest
    cases nodes : front ++ tp :: back with
    | nil => simp at nodes
    | cons first rest =>
      rw [nodes] at sorted member next
      change nextTimer ≤ (s.arm tp task expTime func).tmrExpTime other
      rw [next first rfl]
      rcases List.mem_cons.mp member with rfl | member
      · exact le_refl _
      · exact (List.pairwise_cons.mp sorted).1 other member
  · have distinct : other ≠ tp := fun same => absent' p (same ▸ member)
    rw [show (s.arm tp task expTime func).tmrTask other = s.tmrTask other from
      update_of_ne distinct _ _]
    exact ordered.owner p other member
  · by_cases same : other = tp
    · rw [same]
      exact absent' p
    · exact ordered.apart p other (by simpa [same] using member)
  · by_cases same : other = tp
    · subst same
      simp [Clock.arm]
    · have known := ordered.armed other
      simp only [List.mem_append] at known
      simpa [Clock.arm, same] using known
  · by_cases same : other = tp
    · rw [same]
      exact fun never => timed (mine.symm.trans never)
    · change (s.arm tp task expTime func).tmrExpTime other ≠ tmrNever
      rw [time same]
      exact ordered.timed other (by simpa [Clock.arm, same] using armed)
  · have distinct : other ≠ tp := fun same => absent' p (same ▸ member)
    change (s.arm tp task expTime func).tmrExpTime other ≤ s.realtime
    rw [time distinct]
    exact ordered.due p other member
  · have known := ordered.account other
    by_cases same : other = tp
    · subst same
      rw [resting] at known
      simpa [Clock.arm, TimerHistory.ran] using known
    · simpa [Clock.arm, same, TimerHistory.ran] using known

theorem insert_inOrder (order : InOrder s active expired) (resting : s.history.armed tp = false)
    (task : Slot) {expTime : Int} (func : Nat) (timed : expTime ≠ tmrNever) :
    let s₁ := s.arm tp task expTime func
    ∃ atp active', s₁.active.seek (fun other => decide (expTime < s₁.tmrExpTime other)) (n + 1)
        none = some atp ∧
      let s₂ := s₁.setActive (s₁.active.insert atp tp)
      InOrder { s₂ with nextTimer := s₂.timers.elim s₂.nextTimer s₂.tmrExpTime } active'
        expired := by
  obtain ⟨linked, ordered⟩ := order
  obtain ⟨absent, absent'⟩ := ordered.unlisted resting
  intro s₁
  have linked' : Linked s₁ active expired := ⟨linked.timers, linked.expTimers⟩
  obtain ⟨front, back, rfl, found, missed, stops⟩ := linked'.timers.seek_eq
    (fun other => decide (expTime < s₁.tmrExpTime other)) linked'.length_le
  have time : ∀ other ∈ front ++ back, s₁.tmrExpTime other = s.tmrExpTime other := by
    intro other member
    have distinct : other ≠ tp := fun same => absent (same ▸ member)
    exact update_of_ne distinct _ _
  let links := s₁.active.insert front.getLast? tp
  have lists : links.Lists (front ++ tp :: back) := linked'.timers.insert absent
  have first : links.head = (front ++ tp :: back).head? := lists.head_eq
  refine ⟨front.getLast?, front ++ tp :: back, found, ?_⟩
  have linked₂ : Linked (s₁.setActive links) (front ++ tp :: back) expired := by
    refine linked'.setActive lists fun p node member => ?_
    have distinct : node ≠ tp := fun same => absent' p (same ▸ member)
    have apart : front.getLast? ≠ some node := fun last =>
      ordered.apart p node (List.mem_append_left _ (List.mem_of_getLast? last)) member
    rw [show links.next node = _ from Links.write_next_of_ne apart]
    exact update_of_ne distinct _ _
  refine ⟨⟨linked₂.timers, linked₂.expTimers⟩, ?_⟩
  have ordered₁ := @Ordered.arm _ _ _ _ _ _ ordered resting task expTime func timed
    (fun other member => by
      have passed := missed other member
      rw [time other (List.mem_append_left _ member)] at passed
      simpa using passed)
    (fun other member => by
      have stopped := stops other member
      rw [time other (List.mem_append_right _ (List.mem_of_mem_head? member))] at stopped
      simpa using stopped)
    (links.head.elim s₁.nextTimer s₁.tmrExpTime) (fun other member => by
      rw [first, member]
      rfl)
  exact ordered₁.setActive links

theorem tmrSettimer_inOrder (order : InOrder s active expired) (tp : Fin n) (task : Slot)
    {expTime : Int} (func : Nat) (timed : expTime ≠ tmrNever) :
    ∃ s' active' expired', tmrSettimer s tp task expTime func = some s' ∧
      InOrder s' active' expired' ∧ ∀ p, Drains s s' (expired p) (expired' p) := by
  obtain ⟨s₁, active₁, expired₁, cleared, order₁, resting, drains⟩ : ∃ s₁ active₁ expired₁,
      (if s.tmrExpTime tp ≠ tmrNever then tmrClrtimer s tp else some s) = some s₁ ∧
        InOrder s₁ active₁ expired₁ ∧ s₁.history.armed tp = false ∧
        ∀ p, Drains s s₁ (expired p) (expired₁ p) := by
    by_cases set : s.tmrExpTime tp = tmrNever
    · refine ⟨s, active, expired, if_neg (not_not.mpr set), order, ?_, fun p => .refl s _⟩
      by_contra armed
      exact order.timed tp (by simpa using armed) set
    · obtain ⟨s₁, cleared, order₁, history⟩ := tmrClrtimer_inOrder order tp
      refine ⟨s₁, _, _, (if_pos set).trans cleared, order₁, ?_, fun p =>
        order.toOrdered.drains_disarm p history⟩
      rw [history]
      exact update_self _ _ _
  obtain ⟨atp, active', found, order'⟩ := insert_inOrder order₁ resting task func timed
  refine ⟨_, active', expired₁, ?_, order', fun p => (drains p).trans
    ⟨le_refl _, fun _ => le_refl _, fun _ => .inl⟩⟩
  unfold tmrSettimer
  rw [cleared, Option.bind_some]
  exact Option.map_eq_some_iff.mpr ⟨atp, found, rfl⟩

end Set

/-! ### Expiry -/

section Expire

variable {s s' : Clock n} {active : List (Fin n)} {expired : Slot → List (Fin n)} {tp : Fin n}

/-- The first timer goes to the expired timers of its task. -/
theorem moveTimer_inOrder {rest : List (Fin n)} (order : InOrder s (tp :: rest) expired)
    (expires : s.tmrExpTime tp ≤ s.realtime) :
    InOrder (moveTimer s tp) rest
        (update expired (s.tmrTask tp) (tp :: expired (s.tmrTask tp))) ∧
      (moveTimer s tp).history = s.history ∧ (moveTimer s tp).tmrExpTime = s.tmrExpTime ∧
      (moveTimer s tp).realtime = s.realtime ∧ (moveTimer s tp).tmrTask = s.tmrTask := by
  obtain ⟨linked, ordered⟩ := order
  let p := s.tmrTask tp
  have nodup := linked.timers.nodup
  have absent : tp ∉ rest := (List.nodup_cons.mp nodup).1
  have absent' : ∀ q, tp ∉ expired q := fun q => ordered.apart q tp (List.mem_cons_self ..)
  -- whether the task is alerted does not matter to the lists
  have fields : (moveTimer s tp).timers = s.tmrNext tp ∧
      (moveTimer s tp).tmrNext = update s.tmrNext tp (s.pExptimers p) ∧
      (moveTimer s tp).pExptimers = update s.pExptimers p (some tp) ∧
      (moveTimer s tp).nextTimer = s.nextTimer ∧ (moveTimer s tp).history = s.history ∧
      (moveTimer s tp).tmrExpTime = s.tmrExpTime ∧ (moveTimer s tp).realtime = s.realtime ∧
      (moveTimer s tp).tmrTask = s.tmrTask := by
    unfold moveTimer
    dsimp only
    split <;> exact ⟨rfl, rfl, rfl, rfl, rfl, rfl, rfl, rfl⟩
  obtain ⟨timers, next, heads, nextTimer, history, expTime, realtime, task⟩ := fields
  have members : ∀ q other, other ∈ update expired p (tp :: expired p) q ↔
      other ∈ expired q ∨ (q = p ∧ other = tp) := by
    intro q other
    by_cases same : q = p
    · subst same
      rw [update_self, List.mem_cons]
      tauto
    · rw [update_of_ne same]
      simp [same]
  refine ⟨⟨⟨?_, fun q => ?_⟩, ?_⟩, history, expTime, realtime, task⟩
  · have chain := Chain.update_of_notMem linked.timers.2 absent (s.pExptimers p)
    simpa [Clock.active, timers, next, Links.Lists] using chain
  · by_cases same : q = p
    · subst same
      have chain := Chain.push (linked.expTimers p) (absent' p)
      simpa [Clock.expired, heads, next, Links.Lists, p] using chain
    · have chain := Chain.update_of_notMem (linked.expTimers q) (absent' q) (s.pExptimers p)
      simpa [Clock.expired, heads, next, Links.Lists, same, p] using chain
  · refine ⟨?_, fun other member => ?_, fun q other member => ?_, fun q other member => ?_,
      fun other => ?_, fun other => ?_, fun q other member => ?_, fun other => ?_, ?_⟩
    · rw [expTime]
      exact (List.pairwise_cons.mp ordered.sorted).2
    · rw [expTime, nextTimer]
      exact ordered.next other (List.mem_cons_of_mem _ member)
    · rw [task]
      rcases (members q other).mp member with old | ⟨rfl, rfl⟩
      · exact ordered.owner q other old
      · rfl
    · rw [members]
      rintro (old | ⟨rfl, rfl⟩)
      · exact ordered.apart q other (List.mem_cons_of_mem _ member) old
      · exact absent member
    · have listed : (∃ q, other ∈ update expired p (tp :: expired p) q) ↔
          (∃ q, other ∈ expired q) ∨ other = tp := by
        simp only [members, exists_or, exists_eq_left]
      rw [history, ordered.armed other, show s.tmrTask tp = p from rfl, listed, List.mem_cons]
      tauto
    · rw [history, expTime]
      exact ordered.timed other
    · rw [expTime, realtime]
      rcases (members q other).mp member with old | ⟨rfl, rfl⟩
      · exact ordered.due q other old
      · exact expires
    · rw [history]
      exact ordered.account other
    · rw [history]
      exact ordered.punctual

section

variable (order : InOrder s active expired)
include order

/-- The loop ends when no active timer has expired, and the expired ones are kept for their
tasks. -/
theorem moveExpired_inOrder {fuel : Nat} (enough : active.length < fuel) :
    ∃ s' active' expired', moveExpired fuel s = some s' ∧ InOrder s' active' expired' ∧
      (∀ tp ∈ active', s'.realtime < s'.tmrExpTime tp) ∧
      (∀ p, ∀ tp ∈ expired p, tp ∈ expired' p) ∧
      s'.history = s.history ∧ s'.tmrExpTime = s.tmrExpTime ∧ s'.realtime = s.realtime := by
  induction fuel generalizing s active expired with
  | zero => exact absurd enough (Nat.not_lt_zero _)
  | succ fuel inductionHypothesis =>
    rw [moveExpired]
    have first : s.timers = active.head? := order.timers.head_eq
    cases active with
    | nil =>
      rw [first]
      exact ⟨s, [], expired, rfl, order, by simp, fun _ _ => id, rfl, rfl, rfl⟩
    | cons tp rest =>
      rw [first]
      dsimp only [List.head?_cons]
      split
      case isTrue expires =>
        obtain ⟨order₁, history₁, expTime₁, realtime₁, -⟩ := moveTimer_inOrder order expires
        obtain ⟨s', active', expired', moved, order', later, kept, history, expTime, realtime⟩ :=
          inductionHypothesis order₁ (by simpa using enough)
        refine ⟨s', active', expired', moved, order', later, fun p other member => ?_,
          history.trans history₁, expTime.trans expTime₁, realtime.trans realtime₁⟩
        refine kept p other ?_
        by_cases same : p = s.tmrTask tp
        · rw [same, update_self, ← same]
          exact List.mem_cons_of_mem _ member
        · rwa [update_of_ne same]
      case isFalse waits =>
        refine ⟨s, tp :: rest, expired, rfl, order, fun other member => ?_, fun _ _ => id, rfl,
          rfl, rfl⟩
        rcases List.mem_cons.mp member with rfl | member
        · exact not_le.mp waits
        · exact (not_le.mp waits).trans_le ((List.pairwise_cons.mp order.sorted).1 other member)

/-- After `do_clocktick` has looked at the timers none that has expired is active. -/
theorem checkTimers_inOrder :
    ∃ s' active' expired', checkTimers s = some s' ∧ InOrder s' active' expired' ∧
      (∀ tp ∈ active', s'.realtime < s'.tmrExpTime tp) ∧
      (∀ p, ∀ tp ∈ expired p, tp ∈ expired' p) ∧
      s'.history = s.history ∧ s'.tmrExpTime = s.tmrExpTime ∧ s'.realtime = s.realtime := by
  unfold checkTimers
  split
  case isTrue =>
    obtain ⟨s', active', expired', moved, order', later, kept, history, expTime, realtime⟩ :=
      moveExpired_inOrder order order.length_le
    refine ⟨{ s' with nextTimer := s'.timers.elim tmrNever s'.tmrExpTime }, active', expired',
      by rw [moved]; rfl, ⟨⟨order'.timers, order'.expTimers⟩, ?_⟩, later, kept, history, expTime,
      realtime⟩
    refine { order'.toOrdered with next := fun other member => ?_ }
    have first : s'.timers = active'.head? := order'.timers.head_eq
    cases active' with
    | nil => cases member
    | cons tp rest =>
      change s'.timers.elim tmrNever s'.tmrExpTime ≤ s'.tmrExpTime other
      rw [first]
      rcases List.mem_cons.mp member with rfl | member
      · exact le_refl _
      · exact (List.pairwise_cons.mp order'.sorted).1 other member
  case isFalse early =>
    exact ⟨s, active, expired, rfl, order,
      fun tp member => (not_le.mp early).trans_le (order.next tp member), fun _ _ => id, rfl, rfl,
      rfl⟩

/-- The function of an expired timer is run once, and the timer is in no list any more. -/
theorem expireTimer_inOrder {p : Slot} {rest : List (Fin n)} (first : expired p = tp :: rest) :
    expireTimer s p = some (tp, s.expire p tp) ∧
      InOrder (s.expire p tp) active (update expired p rest) := by
  obtain ⟨linked, ordered⟩ := order
  have chain := linked.expTimers p
  rw [first] at chain
  have head : s.pExptimers p = some tp := chain.1
  have mine : tp ∈ expired p := by simp [first]
  have nodup := chain.nodup
  have absent : tp ∉ active := fun member => ordered.apart p tp member mine
  have absent' : ∀ q, q ≠ p → tp ∉ expired q := fun q distinct member =>
    ordered.separate distinct member mine
  have members : ∀ q other, other ∈ update expired p rest q ↔ other ≠ tp ∧ other ∈ expired q := by
    intro q other
    by_cases same : q = p
    · subst same
      have once := (List.nodup_cons.mp nodup).1
      rw [update_self, first, List.mem_cons]
      constructor
      · exact fun member => ⟨fun same => once (same ▸ member), .inr member⟩
      · exact fun ⟨distinct, member⟩ => member.resolve_left distinct
    · rw [update_of_ne same]
      exact ⟨fun member => ⟨fun equal => absent' q same (equal ▸ member), member⟩, And.right⟩
  have time : ∀ {other}, other ≠ tp → (s.expire p tp).tmrExpTime other = s.tmrExpTime other :=
    fun distinct => update_of_ne distinct _ _
  have inActive : ∀ {other}, other ∈ active → other ≠ tp := fun member same =>
    absent (same ▸ member)
  refine ⟨by rw [expireTimer, head]; rfl, ⟨linked.timers, fun q => ?_⟩, ?_⟩
  · by_cases same : q = p
    · subst same
      simpa [Clock.expired, Clock.expire, Links.Lists] using chain.2
    · simpa [Clock.expired, Clock.expire, Links.Lists, same] using linked.expTimers q
  · refine ⟨?_, fun other member => ?_, fun q other member => ?_, fun q other member member' => ?_,
      fun other => ?_, fun other armed => ?_, fun q other member => ?_, fun other => ?_, ?_⟩
    · refine ordered.sorted.imp_of_mem fun first second earlier => ?_
      rwa [time (inActive first), time (inActive second)]
    · rw [time (inActive member)]
      exact ordered.next other member
    · exact ordered.owner q other ((members q other).mp member).2
    · exact ordered.apart q other member ((members q other).mp member').2
    · simp only [members, exists_and_left]
      by_cases same : other = tp
      · subst same
        simp [Clock.expire, absent]
      · simpa [Clock.expire, same] using ordered.armed other
    · have distinct : other ≠ tp := by
        rintro rfl
        simp [Clock.expire] at armed
      rw [time distinct]
      exact ordered.timed other (by simpa [Clock.expire, distinct] using armed)
    · obtain ⟨distinct, old⟩ := (members q other).mp member
      rw [time distinct]
      exact ordered.due q other old
    · have known := ordered.account other
      by_cases same : other = tp
      · subst same
        rw [if_pos ((ordered.armed other).mpr (.inr ⟨p, mine⟩))] at known
        simpa [Clock.expire, TimerHistory.ran, List.countP_append, add_assoc] using known
      · simpa [Clock.expire, TimerHistory.ran, List.countP_append, same, Ne.symm same] using known
    · intro expiry member
      rcases List.mem_append.mp member with old | last
      · exact ordered.punctual expiry old
      · obtain rfl := List.mem_singleton.mp last
        exact ordered.due p tp mine

end

end Expire

/-! ### Every step -/

section Step

variable {s s' : Clock n} {active : List (Fin n)} {expired : Slot → List (Fin n)}
  {call : TimerCall n}

/-- A call that sets or cancels a timer. -/
def Edits : TimerCall n → Prop
  | .settimer _ _ expTime _ => expTime ≠ tmrNever
  | .clrtimer _ => True
  | .clocktick _ | .exptimer _ => False

theorem Edits.timed (edits : Edits call) : Timed call := by
  cases call with
  | settimer => exact edits
  | clrtimer => trivial
  | clocktick | exptimer => exact edits.elim

section

variable (order : InOrder s active expired)
include order

theorem edit_inOrder (edits : Edits call) :
    ∃ s' active' expired', timerStep s call = some s' ∧ InOrder s' active' expired' ∧
      ∀ p, Drains s s' (expired p) (expired' p) := by
  cases call with
  | settimer tp task expTime func => exact tmrSettimer_inOrder order tp task func edits
  | clrtimer tp =>
    obtain ⟨s', cleared, order', history⟩ := tmrClrtimer_inOrder order tp
    exact ⟨s', _, _, cleared, order', fun p => order.toOrdered.drains_disarm p history⟩
  | clocktick | exptimer => exact edits.elim

theorem InOrder.tick (ticks : Nat) :
    InOrder { s with realtime := s.realtime + ticks } active expired :=
  ⟨⟨order.timers, order.expTimers⟩, { order.toOrdered with
    due := fun p tp member => (order.due p tp member).trans (by simp) }⟩

/-- The step lemma: every call ends and keeps the timers in order. -/
theorem timerStep_inOrder (timed : Timed call) :
    ∃ s' active' expired', timerStep s call = some s' ∧ InOrder s' active' expired' := by
  cases call with
  | settimer tp task expTime func =>
    obtain ⟨s', active', expired', set, order', -⟩ := tmrSettimer_inOrder order tp task func timed
    exact ⟨s', active', expired', set, order'⟩
  | clrtimer tp =>
    obtain ⟨s', cleared, order', -⟩ := tmrClrtimer_inOrder order tp
    exact ⟨s', _, _, cleared, order'⟩
  | clocktick ticks =>
    obtain ⟨s', active', expired', checked, order', -⟩ := checkTimers_inOrder (order.tick ticks)
    exact ⟨s', active', expired', checked, order'⟩
  | exptimer p =>
    cases first : expired p with
    | nil =>
      have none : s.pExptimers p = none := by
        have chain := order.expTimers p
        rwa [first] at chain
      exact ⟨s, active, expired, by simp [timerStep, expireTimer, none], order⟩
    | cons tp rest =>
      obtain ⟨expires, order'⟩ := expireTimer_inOrder order first
      exact ⟨_, active, _, by simp [timerStep, expires], order'⟩

end

/-- What the functions of timers do: each sets and cancels timers. -/
def watchdogs (acts : Fin n → Clock n → List (TimerCall n)) (tp : Fin n) (s : Clock n) :
    Option (Clock n) :=
  (acts tp s).foldlM timerStep s

theorem edits_inOrder (calls : List (TimerCall n)) (edits : ∀ call ∈ calls, Edits call)
    (order : InOrder s active expired) :
    ∃ s' active' expired', calls.foldlM timerStep s = some s' ∧ InOrder s' active' expired' ∧
      (∀ p, Drains s s' (expired p) (expired' p)) ∧
      Transition.Run timerStep (fun _ call => Timed call) s calls s' := by
  induction calls generalizing s active expired with
  | nil => exact ⟨s, active, expired, rfl, order, fun p => .refl s _, .nil⟩
  | cons call calls inductionHypothesis =>
    have now : Edits call := edits call List.mem_cons_self
    obtain ⟨s₁, active₁, expired₁, stepped, order₁, drains₁⟩ := edit_inOrder order now
    obtain ⟨s', active', expired', rest, order', drains', run⟩ :=
      inductionHypothesis (fun call member => edits call (List.mem_cons_of_mem _ member)) order₁
    refine ⟨s', active', expired', ?_, order', fun p => (drains₁ p).trans (drains' p),
      .cons now.timed stepped run⟩
    rw [List.foldlM_cons, stepped]
    exact rest

/-- `tmr_exptimers` ends with no expired timer of the task left; each that there was is run or
cancelled. It is a run of single turns and of what the functions do. -/
theorem tmrExptimers_ends {acts : Fin n → Clock n → List (TimerCall n)}
    (edits : ∀ tp s, ∀ call ∈ acts tp s, Edits call) (p : Slot) {fuel : Nat}
    (order : InOrder s active expired) (enough : (expired p).length < fuel) :
    ∃ s' active' expired' calls, tmrExptimers (watchdogs acts) p fuel s = some s' ∧
      InOrder s' active' expired' ∧ s'.pExptimers p = none ∧
      (∀ tp ∈ expired p, s.settled tp < s'.settled tp) ∧
      (∀ tp, s.settled tp ≤ s'.settled tp) ∧
      Transition.Run timerStep (fun _ call => Timed call) s calls s' := by
  induction fuel generalizing s active expired with
  | zero => exact absurd enough (Nat.not_lt_zero _)
  | succ fuel inductionHypothesis =>
    rw [tmrExptimers]
    have chain := order.expTimers p
    cases first : expired p with
    | nil =>
      rw [first] at chain
      have none : s.pExptimers p = none := chain
      refine ⟨s, active, expired, [], ?_, order, none, by simp, fun _ => le_refl _, .nil⟩
      simp [expireTimer, none]
    | cons tp rest =>
      obtain ⟨expires, order₁⟩ := expireTimer_inOrder order first
      obtain ⟨s₂, active₂, expired₂, acted, order₂, drains, run₂⟩ :=
        edits_inOrder (acts tp (s.expire p tp)) (edits tp _) order₁
      have drained := drains p
      rw [update_self] at drained
      have ran : ∀ other, (s.expire p tp).settled other =
          s.settled other + if other = tp then 1 else 0 := by
        intro other
        by_cases same : other = tp
        · simp [Clock.settled, Clock.expire, TimerHistory.ran, List.countP_append, same, add_assoc]
        · simp [Clock.settled, Clock.expire, TimerHistory.ran, List.countP_append, same,
            Ne.symm same]
      have fewer : (expired₂ p).length < fuel := by
        have shorter := drained.shorter
        rw [first, List.length_cons] at enough
        omega
      obtain ⟨s', active', expired', calls, loops, order', none, done, more, run'⟩ :=
        inductionHypothesis order₂ fewer
      have grows : ∀ other, (s.expire p tp).settled other ≤ s'.settled other := fun other =>
        (drained.settled other).trans (more other)
      have turn : timerStep s (.exptimer p) = some (s.expire p tp) := by
        simp [timerStep, expires]
      refine ⟨s', active', expired', .exptimer p :: (acts tp (s.expire p tp) ++ calls), ?_, order',
        none, fun other member => ?_, fun other => ?_, .cons trivial turn (run₂.append run')⟩
      · rw [expires]
        change ((acts tp (s.expire p tp)).foldlM timerStep (s.expire p tp)).bind _ = _
        rw [acted]
        exact loops
      · have after := grows other
        rw [ran other] at after
        rcases List.mem_cons.mp member with rfl | later
        · rw [if_pos rfl] at after
          omega
        · rcases drained.left other later with still | gone
          · have end' := done other still
            have before := drained.settled other
            rw [ran other] at before
            omega
          · rw [ran other] at gone
            have end' := more other
            omega
      · have after := grows other
        rw [ran other] at after
        omega

end Step

/-! ### Runs -/

/-- The runs of the timers, from any times that the timers have before they are first set. -/
def Clocks (start : Fin n → Int) (calls : List (TimerCall n)) (s : Clock n) : Prop :=
  Transition.Run timerStep (fun _ call => Timed call) { tmrExpTime := start } calls s

/-- Some lists are in order. -/
def Orderly (s : Clock n) : Prop := ∃ active expired, InOrder s active expired

theorem orderly_start (start : Fin n → Int) : Orderly { tmrExpTime := start } := by
  refine ⟨[], fun _ => [], ⟨⟨rfl, fun _ => rfl⟩, ⟨.nil, ?_, ?_, ?_, ?_, ?_, ?_, ?_, ?_⟩⟩⟩ <;>
    simp [TimerHistory.ran]

theorem Clocks.orderly {start : Fin n → Int} {calls : List (TimerCall n)}
    (run : Clocks start calls s) : Orderly s := by
  refine Transition.Run.invariant (orderly_start start) (fun s call s' orderly timed stepped => ?_)
    run
  obtain ⟨active, expired, order⟩ := orderly
  obtain ⟨s₁, active', expired', same, order'⟩ := timerStep_inOrder order timed
  obtain rfl : s₁ = s' := Option.some.inj (same.symm.trans stepped)
  exact ⟨active', expired', order'⟩

/-- The timer is in one list, and once. -/
def InOneList (active : List (Fin n)) (expired : Slot → List (Fin n)) (tp : Fin n) : Prop :=
  (active.count tp = 1 ∧ ∀ p, tp ∉ expired p) ∨
    (tp ∉ active ∧ ∃ p, (expired p).count tp = 1 ∧ ∀ q, q ≠ p → tp ∉ expired q)

theorem InOrder.inOneList {active : List (Fin n)} {expired : Slot → List (Fin n)}
    (order : InOrder s active expired) {tp : Fin n} (armed : s.history.armed tp = true) :
    InOneList active expired tp := by
  rcases (order.armed tp).mp armed with member | ⟨p, member⟩
  · exact .inl ⟨List.count_eq_one_of_mem order.timers.nodup member,
      fun p => order.apart p tp member⟩
  · exact .inr ⟨fun active => order.apart p tp active member, p,
      List.count_eq_one_of_mem (order.expTimers p).nodup member,
      fun q distinct other => order.separate distinct other member⟩

/-- In every run in which no timer is set to `TMR_NEVER` the list of active timers is sorted and
`next_timer` is not later than its first; each timer that is set is in one list once; it was run
once for each time it was set, except when it was cancelled or is still set, and never early. Every
call ends. A clock tick leaves no expired timer active, and `tmr_exptimers` runs or cancels all
expired timers of its task. -/
theorem timers_kept_in_order {start : Fin n → Int} {calls : List (TimerCall n)} {s : Clock n}
    (run : Clocks start calls s) : ∃ active expired, InOrder s active expired ∧
      (∀ tp, s.history.armed tp = true → InOneList active expired tp) ∧
      (∀ call, Timed call → ∃ s', timerStep s call = some s') ∧
      (∀ ticks s', timerStep s (.clocktick ticks) = some s' → ∀ tp, s'.history.armed tp = true →
        s'.tmrExpTime tp ≤ s'.realtime → ∃ p nodes, (s'.expired p).Lists nodes ∧ tp ∈ nodes) ∧
      ∀ acts p, (∀ tp s, ∀ call ∈ acts tp s, Edits call) → ∃ s' calls',
        tmrExptimers (watchdogs acts) p (n + 1) s = some s' ∧
        Transition.Run timerStep (fun _ call => Timed call) s calls' s' ∧
        s'.pExptimers p = none ∧ ∀ tp ∈ expired p, s.settled tp < s'.settled tp := by
  obtain ⟨active, expired, order⟩ := run.orderly
  refine ⟨active, expired, order, fun tp => order.inOneList, fun call timed => ?_,
    fun ticks s' stepped tp armed expires => ?_, fun acts p edits => ?_⟩
  · obtain ⟨s', -, -, stepped, -⟩ := timerStep_inOrder order timed
    exact ⟨s', stepped⟩
  · obtain ⟨s₁, active', expired', checked, order', later, -⟩ :=
      checkTimers_inOrder (order.tick ticks)
    obtain rfl : s₁ = s' := Option.some.inj (checked.symm.trans stepped)
    rcases (order'.armed tp).mp armed with member | ⟨p, member⟩
    · exact absurd expires (not_le.mpr (later tp member))
    · exact ⟨p, expired' p, order'.expTimers p, member⟩
  · obtain ⟨s', -, -, calls', loops, -, none, done, -, run'⟩ :=
      tmrExptimers_ends edits p order (order.expired_length_le p)
    exact ⟨s', calls', loops, run', none, done⟩

/-- Two timers are set, one of them twice, and expire. -/
def twoTimers : List (TimerCall 2) :=
  [.settimer 0 clock 9 7, .settimer 1 tty 3 8, .settimer 0 clock 4 7, .clocktick 5,
    .exptimer clock]

/-- Of two timers one has been run, and the other one has expired and waits for its task. -/
theorem timers_kept_in_order_two : ∃ s, Clocks (fun _ => 0) twoTimers s ∧
    s.history.runs = [⟨0, 7, 4, 5⟩] ∧ s.pExptimers tty = some 1 ∧
    ∃ active expired, InOrder s active expired ∧
      ∀ tp, s.history.armed tp = true → InOneList active expired tp := by
  have executed : (Transition.execute timerStep (fun _ call => Timed call) twoTimers
      { tmrExpTime := fun _ => 0 }).map (fun s => (s.history.runs, s.pExptimers tty)) =
        some ([⟨0, 7, 4, 5⟩], some 1) := by
    decide
  obtain ⟨s, executed, found⟩ := Option.map_eq_some_iff.mp executed
  obtain ⟨runs, waits⟩ := Prod.mk.inj found
  have run : Clocks (fun _ => 0) twoTimers s := Transition.Run.of_execute executed
  obtain ⟨active, expired, order, once, -⟩ := timers_kept_in_order run
  exact ⟨s, run, runs, waits, active, expired, order, once⟩

theorem moveExpired_tmrTask {s s' : Clock n} {fuel : Nat} (moved : moveExpired fuel s = some s') :
    s'.tmrTask = s.tmrTask := by
  induction fuel generalizing s with
  | zero => cases moved
  | succ fuel inductionHypothesis =>
    rw [moveExpired] at moved
    split at moved
    · rw [← Option.some.inj moved]
    · split at moved
      · refine (inductionHypothesis moved).trans ?_
        unfold moveTimer
        dsimp only
        split <;> rfl
      · rw [← Option.some.inj moved]

/-- Two timers of one task expire together. -/
def together : List (TimerCall 2) :=
  [.settimer 0 tty 3 7, .settimer 1 tty 4 8, .clocktick 5]

/-- The later of them is in front. -/
theorem expired_not_sorted : ¬ ∀ n (start : Fin n → Int) calls (s : Clock n),
    Clocks start calls s → ∃ active expired, InOrder s active expired ∧
      ∀ p, (expired p).Pairwise fun first second => s.tmrExpTime first ≤ s.tmrExpTime second := by
  intro sorted
  have executed : (Transition.execute timerStep (fun _ call => Timed call) together
      { tmrExpTime := fun _ => 0 }).map (fun s =>
        (s.pExptimers tty, s.tmrNext 1, s.tmrNext 0, s.tmrExpTime 0, s.tmrExpTime 1)) =
        some (some 1, some 0, none, 3, 4) := by
    decide
  obtain ⟨s, executed, found⟩ := Option.map_eq_some_iff.mp executed
  simp only [Prod.mk.injEq] at found
  obtain ⟨first, second, last, early, late⟩ := found
  obtain ⟨active, expired, order, each⟩ :=
    sorted 2 (fun _ => 0) together s (Transition.Run.of_execute executed)
  have chain : Chain s.tmrNext (s.pExptimers tty) [1, 0] := ⟨first, second, last⟩
  have same : expired tty = [1, 0] := (order.expTimers tty).unique chain
  have ascending := each tty
  rw [same] at ascending
  have wrong := (List.pairwise_cons.mp ascending).1 0 (by simp)
  rw [early, late] at wrong
  exact absurd wrong (by decide)

end Minix.Kernel
