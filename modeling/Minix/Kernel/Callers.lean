/-
This file shows what the assignments to `p_callerq` and `p_sendlink` do to the caller queues:
`mini_send` appends the caller to the queue of its destination, `mini_rec` takes a sender out
of the queue of the caller, and `do_xit` takes the exiting process out of whatever queue it
is on. All that these assignments write is collected by `withLinks`.
-/

import Minix.Kernel.Invariant

namespace Minix.Kernel

open Function (update update_of_ne update_self)
open Option (some.inj bind_eq_some_iff)
open LinkedList

namespace State

/-- Replace the links and the heads of the caller queues. -/
def withLinks (k : State) (links heads : Slot → Option Slot) : State :=
  { k with proc := fun p => { k.proc p with pSendlink := links p, pCallerq := heads p } }

section Frame

variable (k : State) (links heads links' heads' : Slot → Option Slot) (p : Slot)

@[simp] theorem withLinks_schedule : (k.withLinks links heads).schedule = k.schedule := rfl

@[simp] theorem withLinks_priority : (k.withLinks links heads).priority = k.priority := rfl

@[simp] theorem withLinks_sendlink : (k.withLinks links heads).sendlink = links := rfl

@[simp] theorem withLinks_callerq : (k.withLinks links heads).callerq = heads := rfl

@[simp] theorem withLinks_history : (k.withLinks links heads).history = k.history := rfl

@[simp] theorem withLinks_held : (k.withLinks links heads).held = k.held := rfl

@[simp] theorem withLinks_procPtr : (k.withLinks links heads).procPtr = k.procPtr := rfl

@[simp] theorem withLinks_pFlags :
    ((k.withLinks links heads).proc p).pFlags = (k.proc p).pFlags := rfl

@[simp] theorem withLinks_offer : (k.withLinks links heads).offer = k.offer := rfl

@[simp] theorem withLinks_withLinks :
    (k.withLinks links heads).withLinks links' heads' = k.withLinks links' heads' := rfl

@[simp] theorem withLinks_self : k.withLinks k.sendlink k.callerq = k := rfl

theorem setSendlink_eq (next : Option Slot) :
    k.setSendlink p next = k.withLinks (update k.sendlink p next) k.callerq := by
  have entries : (k.setSendlink p next).proc =
      (k.withLinks (update k.sendlink p next) k.callerq).proc := by
    funext q
    by_cases same : q = p
    · subst same
      simp [setSendlink, withLinks, callerq]
    · simp [setSendlink, withLinks, same, sendlink, callerq]
  simp only [withLinks] at entries ⊢
  rw [← entries]
  rfl

theorem setCallerq_eq (head : Option Slot) :
    k.setCallerq p head = k.withLinks k.sendlink (update k.callerq p head) := by
  have entries : (k.setCallerq p head).proc =
      (k.withLinks k.sendlink (update k.callerq p head)).proc := by
    funext q
    by_cases same : q = p
    · subst same
      simp [setCallerq, withLinks, sendlink]
    · simp [setCallerq, withLinks, same, sendlink, callerq]
  simp only [withLinks] at entries ⊢
  rw [← entries]
  rfl

end Frame

end State

/-- Nothing but the caller queues has changed. -/
def State.Relinked (k k' : State) : Prop := ∃ links heads, k' = k.withLinks links heads

namespace State.Relinked

variable {k k' k'' : State}

theorem refl (k : State) : Relinked k k := ⟨k.sendlink, k.callerq, rfl⟩

theorem trans (first : Relinked k k') (second : Relinked k' k'') : Relinked k k'' := by
  obtain ⟨links, heads, rfl⟩ := first
  obtain ⟨links', heads', rfl⟩ := second
  exact ⟨links', heads', rfl⟩

theorem setSendlink (changed : Relinked k k') (p : Slot) (next : Option Slot) :
    Relinked k (k'.setSendlink p next) :=
  changed.trans ⟨_, _, setSendlink_eq _ _ _⟩

theorem setCallerq (changed : Relinked k k') (p : Slot) (head : Option Slot) :
    Relinked k (k'.setCallerq p head) :=
  changed.trans ⟨_, _, setCallerq_eq _ _ _⟩

end State.Relinked

theorem appendCaller_relinked {k k' : State} {caller dest : Slot}
    (completed : appendCaller k caller dest = some k') : k.Relinked k' := by
  unfold appendCaller at completed
  split at completed
  · obtain rfl := some.inj completed
    exact ((State.Relinked.refl k).setCallerq _ _).setSendlink _ _
  · obtain ⟨last, -, completed⟩ := bind_eq_some_iff.mp completed
    obtain ⟨linked, link, completed⟩ := bind_eq_some_iff.mp completed
    obtain ⟨last, -, rfl⟩ := Option.map_eq_some_iff.mp link
    obtain rfl := some.inj completed
    exact ((State.Relinked.refl k).setSendlink _ _).setSendlink _ _

theorem unlinkFrom_relinked (k : State) (caller : Slot) (previous : Option Slot) (sender : Slot) :
    k.Relinked (unlinkFrom k caller previous sender) := by
  unfold unlinkFrom
  split
  · exact (State.Relinked.refl k).setCallerq _ _
  · split
    · exact (State.Relinked.refl k).setSendlink _ _
    · exact .refl k

theorem unlinkSender_relinked {k k' : State} {rc : Slot} {slots : List Slot}
    (completed : unlinkSender rc slots k = some k') : k.Relinked k' := by
  induction slots generalizing k with
  | nil =>
    obtain rfl := some.inj completed
    exact .refl k
  | cons rp slots inductionHypothesis =>
    rw [unlinkSender] at completed
    split at completed
    · exact inductionHypothesis completed
    split at completed
    · obtain rfl := some.inj completed
      exact (State.Relinked.refl k).setCallerq _ _
    split at completed
    · cases completed
    · exact ((State.Relinked.refl k).setSendlink _ _).trans (inductionHypothesis completed)
    · exact inductionHypothesis completed

/-- The described caller queues are the given lists, nobody is on two of them, and the other
queues hold only `loose` processes, which are on none of the described ones. -/
structure CallerQueues (scope : Scope) (k : State) (callers : Slot → List Slot)
    (loose : Slot → Prop) : Prop where
  chain : ∀ dest, scope.Covers dest → Chain k.sendlink (k.callerq dest) (callers dest)
  disjoint : ∀ p dest dest', scope.Covers dest → scope.Covers dest' → p ∈ callers dest →
    p ∈ callers dest' → dest = dest'
  looseHead : ∀ dest p, ¬ scope.Covers dest → k.callerq dest = some p → loose p
  looseLink : ∀ p q, loose p → k.sendlink p = some q → loose q
  apart : ∀ p dest, scope.Covers dest → p ∈ callers dest → ¬ loose p

section Callers

variable {scope : Scope} {k k' : State} {callers callers' : Slot → List Slot}
  {loose : Slot → Prop} {caller dest sender : Slot}

section

variable (queues : CallerQueues scope k callers loose)
include queues

theorem CallerQueues.shrink (subset : ∀ dest, scope.Covers dest → callers' dest ⊆ callers dest)
    (chain : ∀ dest, scope.Covers dest → Chain k'.sendlink (k'.callerq dest) (callers' dest))
    (looseHead : ∀ dest p, ¬ scope.Covers dest → k'.callerq dest = some p → loose p)
    (looseLink : ∀ p q, loose p → k'.sendlink p = some q → loose q) :
    CallerQueues scope k' callers' loose where
  chain := chain
  disjoint p dest dest' covers covers' member member' :=
    queues.disjoint p dest dest' covers covers' (subset dest covers member)
      (subset dest' covers' member')
  looseHead := looseHead
  looseLink := looseLink
  apart p dest covers member := queues.apart p dest covers (subset dest covers member)

/-- A sender goes to the end of its destination's queue. -/
theorem appendCaller_covered (fresh : ∀ dest, scope.Covers dest → caller ∉ callers dest)
    (notLoose : ¬ loose caller) (covers : scope.Covers dest) :
    ∃ links heads, appendCaller k caller dest = some (k.withLinks links heads) ∧
      (∀ other, scope.Covers other → Chain links (heads other)
        (update callers dest (callers dest ++ [caller]) other)) ∧
      (∀ other, ¬ scope.Covers other → heads other = k.callerq other) ∧
      ∀ p, loose p → links p = k.sendlink p := by
  have chain := queues.chain dest covers
  have apart : ∀ other, ¬ scope.Covers other → other ≠ dest := by
    rintro other outside rfl
    exact outside covers
  have notCaller : ∀ p, loose p → p ≠ caller := by
    rintro p isLoose rfl
    exact notLoose isLoose
  rcases List.eq_nil_or_concat (callers dest) with empty | ⟨front, last, split⟩
  · rw [empty, chain_nil] at chain
    refine ⟨update k.sendlink caller none,
      update k.callerq dest (some caller), ?_, fun other coversOther => ?_,
      fun other outside => update_of_ne (apart other outside) _ _,
      fun p isLoose => update_of_ne (notCaller p isLoose) _ _⟩
    · simp only [appendCaller, chain, Option.bind_eq_bind, Option.bind_some,
        State.setCallerq_eq, State.setSendlink_eq]
      rfl
    · by_cases same : other = dest
      · subst same
        simp only [update_self, empty, List.nil_append]
        exact chain_singleton _ _
      · simp only [update_of_ne same]
        exact (queues.chain other coversOther).update_of_notMem (fresh other coversOther) _
  · rw [List.concat_eq_append] at split
    rw [split] at chain
    obtain ⟨first, headIs⟩ : ∃ first, k.callerq dest = some first := by
      rw [chain.head_eq]
      cases front <;> simp
    obtain ⟨before, walk⟩ := chain.scan_last chain.length_le none
    rw [headIs] at walk
    refine ⟨update (update k.sendlink last (some caller)) caller none,
      k.callerq, ?_, fun other coversOther => ?_, fun _ _ => rfl, fun p isLoose => ?_⟩
    · simp only [appendCaller, headIs, walk, Option.bind_eq_bind, Option.bind_some,
        Option.map_some, State.setSendlink_eq]
      rfl
    · by_cases same : other = dest
      · subst same
        have new := fresh other coversOther
        rw [split] at new
        simpa [split] using chain.append new
      · rw [update_of_ne same]
        have absent : last ∉ callers other := fun member =>
          same (queues.disjoint last _ _ coversOther covers member (by simp [split]))
        exact ((queues.chain other coversOther).update_of_notMem absent _).update_of_notMem
          (fresh other coversOther) _
    · have notLast : p ≠ last := by
        rintro rfl
        exact queues.apart p dest covers (by simp [split]) isLoose
      rw [update_of_ne (notCaller p isLoose), update_of_ne notLast]

/-- The caller joins a queue that is not described: its last member links to the caller. -/
theorem appendCaller_loose (outside : ¬ scope.Covers dest)
    (completed : appendCaller k caller dest = some k') :
    (k.callerq dest = none ∧ k' = k.withLinks (update k.sendlink caller none)
      (update k.callerq dest (some caller))) ∨
    ∃ last, loose last ∧ k' = k.withLinks
      (update (update k.sendlink last (some caller)) caller none) k.callerq := by
  unfold appendCaller at completed
  split at completed
  case h_1 empty =>
    obtain rfl := some.inj completed
    exact .inl ⟨empty, by rw [State.setCallerq_eq, State.setSendlink_eq]; rfl⟩
  case h_2 first headIs =>
    obtain ⟨last, walk, completed⟩ := bind_eq_some_iff.mp completed
    obtain ⟨linked, link, completed⟩ := bind_eq_some_iff.mp completed
    obtain ⟨⟨before, last⟩, rfl, rfl⟩ := Option.map_eq_some_iff.mp link
    obtain rfl := some.inj completed
    have found := scan_found loose (by simp) (fun p same => by
      obtain rfl := some.inj same
      exact queues.looseHead dest _ outside headIs) queues.looseLink walk
    exact .inr ⟨last, found.2.1, by rw [State.setSendlink_eq, State.setSendlink_eq]; rfl⟩

/-- The caller is appended to the queue of the destination, and nothing else is relinked. -/
theorem appendCaller_spec (fresh : ∀ dest, scope.Covers dest → caller ∉ callers dest)
    (notLoose : ¬ loose caller) (completed : appendCaller k caller dest = some k') :
    ∃ links heads, k' = k.withLinks links heads ∧
      CallerQueues scope k' (update callers dest (callers dest ++ [caller]))
        fun p => loose p ∨ p = caller ∧ ¬ scope.Covers dest := by
  have members : ∀ p other, scope.Covers other →
      p ∈ update callers dest (callers dest ++ [caller]) other →
        p ∈ callers other ∨ p = caller ∧ other = dest := by
    intro p other covers member
    by_cases same : other = dest
    · subst same
      simpa using member
    · rw [update_of_ne same] at member
      exact .inl member
  have disjoint : ∀ p other other', scope.Covers other → scope.Covers other' →
      p ∈ update callers dest (callers dest ++ [caller]) other →
      p ∈ update callers dest (callers dest ++ [caller]) other' → other = other' := by
    intro p other other' covers covers' member member'
    rcases members p other covers member with old | ⟨rfl, rfl⟩
    · rcases members p other' covers' member' with old' | ⟨rfl, rfl⟩
      · exact queues.disjoint p _ _ covers covers' old old'
      · exact absurd old (fresh other covers)
    · rcases members p other' covers' member' with old' | ⟨-, rfl⟩
      · exact absurd old' (fresh other' covers')
      · rfl
  have apart : ∀ p other, scope.Covers other →
      p ∈ update callers dest (callers dest ++ [caller]) other →
        ¬ (loose p ∨ p = caller ∧ ¬ scope.Covers dest) := by
    intro p other covers member
    rcases members p other covers member with old | ⟨rfl, rfl⟩
    · refine not_or.mpr ⟨queues.apart p other covers old, ?_⟩
      rintro ⟨rfl, -⟩
      exact fresh other covers old
    · exact not_or.mpr ⟨notLoose, fun both => both.2 covers⟩
  by_cases covers : scope.Covers dest
  · obtain ⟨links, heads, result, chains, headsKept, linksKept⟩ :=
      appendCaller_covered queues fresh notLoose covers
    obtain rfl := some.inj (result.symm.trans completed)
    refine ⟨links, heads, rfl, chains, disjoint, fun other p outside head => ?_,
      fun p q isLoose link => ?_, apart⟩
    · rw [State.withLinks_callerq, headsKept other outside] at head
      exact .inl (queues.looseHead other p outside head)
    · have old := isLoose.resolve_right fun both => both.2 covers
      rw [State.withLinks_sendlink, linksKept p old] at link
      exact .inl (queues.looseLink p q old link)
  · have elsewhere : ∀ other, scope.Covers other → other ≠ dest := by
      rintro other inside rfl
      exact covers inside
    have untouched : ∀ other, scope.Covers other →
        update callers dest (callers dest ++ [caller]) other = callers other :=
      fun other inside => update_of_ne (elsewhere other inside) _ _
    rcases appendCaller_loose queues covers completed with ⟨-, rfl⟩ | ⟨last, lastLoose, rfl⟩
    · refine ⟨_, _, rfl, fun other inside => ?_, disjoint, fun other p outside head => ?_,
        fun p q isLoose link => ?_, apart⟩
      · rw [untouched other inside, State.withLinks_callerq,
          update_of_ne (elsewhere other inside)]
        exact (queues.chain other inside).update_of_notMem (fresh other inside) _
      · rw [State.withLinks_callerq] at head
        by_cases same : other = dest
        · subst same
          rw [update_self] at head
          exact .inr ⟨(some.inj head).symm, covers⟩
        · rw [update_of_ne same] at head
          exact .inl (queues.looseHead other p outside head)
      · rw [State.withLinks_sendlink] at link
        by_cases same : p = caller
        · simp [same] at link
        · rw [update_of_ne same] at link
          exact .inl (queues.looseLink p q (isLoose.resolve_right fun both => same both.1) link)
    · refine ⟨_, _, rfl, fun other inside => ?_, disjoint,
        fun other p outside head => .inl (queues.looseHead other p outside head),
        fun p q isLoose link => ?_, apart⟩
      · rw [untouched other inside]
        have absent : last ∉ callers other := fun member =>
          queues.apart last other inside member lastLoose
        exact ((queues.chain other inside).update_of_notMem absent _).update_of_notMem
          (fresh other inside) _
      · rw [State.withLinks_sendlink] at link
        by_cases same : p = caller
        · simp [same] at link
        · rw [update_of_ne same] at link
          by_cases isLast : p = last
          · subst isLast
            rw [update_self] at link
            exact .inr ⟨(some.inj link).symm, covers⟩
          · rw [update_of_ne isLast] at link
            exact .inl (queues.looseLink p q (isLoose.resolve_right fun both => same both.1) link)

end

theorem unlinkFrom_emit (k : State) (events : List Event) (previous : Option Slot) :
    unlinkFrom (k.emit events) caller previous sender =
      (unlinkFrom k caller previous sender).emit events := by
  unfold unlinkFrom
  by_cases head : k.callerq caller = some sender
  · rw [if_pos head, if_pos (show (k.emit events).callerq caller = some sender from head)]
    rfl
  · rw [if_neg head, if_neg (show ¬ (k.emit events).callerq caller = some sender from head)]
    cases previous <;> rfl

section

variable (queues : CallerQueues scope k callers loose)
include queues

theorem CallerQueues.linkAround {ahead back : List Slot} {previous : Slot}
    (covers : scope.Covers dest) (split : callers dest = ahead ++ previous :: sender :: back) :
    CallerQueues scope
      (k.withLinks (update k.sendlink previous (k.sendlink sender)) k.callerq)
      (update callers dest (ahead ++ previous :: back)) loose := by
  have chain := queues.chain dest covers
  rw [split] at chain
  have member : previous ∈ callers dest := by simp [split]
  refine queues.shrink (fun other _ => ?_) (fun other coversOther => ?_) queues.looseHead
    fun p q isLoose link => ?_
  · by_cases same : other = dest
    · subst same
      rw [update_self, split]
      intro p
      simp only [List.mem_append, List.mem_cons]
      tauto
    · rw [update_of_ne same]
      exact fun _ => id
  · by_cases same : other = dest
    · subst same
      simpa using chain.unlink
    · rw [update_of_ne same]
      exact (queues.chain other coversOther).update_of_notMem
        (fun again => same (queues.disjoint previous _ _ coversOther covers again member)) _
  · have notPrevious : p ≠ previous := by
      rintro rfl
      exact queues.apart p dest covers member isLoose
    rw [State.withLinks_sendlink, update_of_ne notPrevious] at link
    exact queues.looseLink p q isLoose link

theorem CallerQueues.dropHead {back : List Slot} (covers : scope.Covers dest)
    (split : callers dest = sender :: back) :
    CallerQueues scope
      (k.withLinks k.sendlink (update k.callerq dest (k.sendlink sender)))
      (update callers dest back) loose := by
  have chain := queues.chain dest covers
  rw [split] at chain
  refine queues.shrink (fun other _ => ?_) (fun other coversOther => ?_)
    (fun other p outside head => ?_) queues.looseLink
  · by_cases same : other = dest
    · subst same
      rw [update_self, split]
      exact List.subset_cons_self _ _
    · rw [update_of_ne same]
      exact fun _ => id
  · by_cases same : other = dest
    · subst same
      simpa using chain.2
    · simpa [update_of_ne same] using queues.chain other coversOther
  · have apart : other ≠ dest := by
      rintro rfl
      exact outside covers
    rw [State.withLinks_callerq, update_of_ne apart] at head
    exact queues.looseHead other p outside head

theorem unlinkFrom_spec {front back : List Slot} (covers : scope.Covers caller)
    (split : callers caller = front ++ sender :: back) :
    ∃ links heads, unlinkFrom k caller front.getLast? sender = k.withLinks links heads ∧
      CallerQueues scope (k.withLinks links heads)
        (update callers caller (front ++ back)) loose := by
  have chain := queues.chain caller covers
  rw [split] at chain
  rcases List.eq_nil_or_concat front with rfl | ⟨ahead, previous, rfl⟩
  · refine ⟨k.sendlink, update k.callerq caller (k.sendlink sender), ?_,
      queues.dropHead covers split⟩
    simp only [unlinkFrom, if_pos chain.1, State.setCallerq_eq]
  · rw [List.concat_eq_append, List.append_assoc, List.singleton_append] at chain split
    have notHead : k.callerq caller ≠ some sender := by
      have nodup := chain.nodup
      rw [chain.head_eq]
      cases ahead with
      | nil =>
        intro same
        obtain rfl : previous = sender := by simpa using same
        simp at nodup
      | cons first rest =>
        intro same
        obtain rfl : first = sender := by simpa using same
        simp at nodup
    refine ⟨update k.sendlink previous (k.sendlink sender), k.callerq, ?_, ?_⟩
    · simp only [unlinkFrom, if_neg notHead, List.concat_eq_append, List.getLast?_concat,
        State.setSendlink_eq]
    · simpa using queues.linkAround covers split

/-- When a process is on no other queue, erasing it everywhere erases it from this one. -/
theorem CallerQueues.erase_eq (covers : scope.Covers dest) (member : sender ∈ callers dest)
    (other : Slot) (coversOther : scope.Covers other) :
    (callers other).erase sender =
      update callers dest ((callers dest).erase sender) other := by
  by_cases same : other = dest
  · subst same
    rw [update_self]
  · rw [update_of_ne same]
    exact List.erase_of_not_mem fun again =>
      same (queues.disjoint _ _ _ coversOther covers again member)

/-- The chains and the loose processes after a search are all that matters. -/
theorem CallerQueues.congr (same : ∀ dest, scope.Covers dest → callers' dest = callers dest) :
    CallerQueues scope k callers' loose :=
  queues.shrink (fun dest covers => by rw [same dest covers]; exact fun _ => id)
    (fun dest covers => by rw [same dest covers]; exact queues.chain dest covers)
    queues.looseHead queues.looseLink

/-- The search of `do_xit` takes the exiting process off the queue it is on, if the queue is
one of those searched. -/
theorem unlinkSender_spec {rc : Slot} {slots : List Slot} (notLoose : ¬ loose rc)
    (searched : ∀ dest, scope.Covers dest → dest ∉ slots → rc ∉ callers dest)
    (completed : unlinkSender rc slots k = some k') :
    ∃ links heads, k' = k.withLinks links heads ∧
      CallerQueues scope k' (fun dest => (callers dest).erase rc) loose := by
  induction slots generalizing k callers with
  | nil =>
    obtain rfl := some.inj completed
    exact ⟨k.sendlink, k.callerq, rfl, queues.congr fun dest covers =>
      List.erase_of_not_mem (searched dest covers (by simp))⟩
  | cons rp slots inductionHypothesis =>
    have onward : (scope.Covers rp → rc ∉ callers rp) →
        ∀ dest, scope.Covers dest → dest ∉ slots → rc ∉ callers dest := by
      intro absent dest covers outside
      by_cases same : dest = rp
      · subst same
        exact absent covers
      · exact searched dest covers (by simp [same, outside])
    rw [unlinkSender] at completed
    split at completed
    case h_1 empty =>
      refine inductionHypothesis queues (onward fun covers => ?_) completed
      have chain := queues.chain rp covers
      rw [empty] at chain
      rw [List.head?_eq_none_iff.mp chain.head_eq.symm]
      simp
    case h_2 np headIs =>
      by_cases covers : scope.Covers rp
      · have chain := queues.chain rp covers
        obtain ⟨rest, shape⟩ : ∃ rest, callers rp = np :: rest := by
          rw [headIs] at chain
          exact List.head?_eq_some_iff.mp chain.head_eq.symm
        rw [shape] at chain
        split at completed
        case isTrue head =>
          -- The exiting process is on the front of this queue.
          subst head
          obtain rfl := some.inj completed
          refine ⟨k.sendlink, update k.callerq rp (k.sendlink np),
            State.setCallerq_eq _ _ _, ?_⟩
          rw [State.setCallerq_eq]
          refine (queues.dropHead covers shape).congr fun dest coversDest => ?_
          rw [queues.erase_eq covers (by simp [shape]) dest coversDest, shape,
            List.erase_cons_head]
        case isFalse head =>
          -- See if the exiting process is in the middle of the queue.
          rw [chain.2.scan_eq (· == rc) chain.2.length_le (some np)] at completed
          cases hit : locate (· == rc) (some np) rest with
          | none =>
            rw [hit] at completed
            refine inductionHypothesis queues (onward fun _ => ?_) completed
            rw [locate_eq_none] at hit
            rw [shape, List.mem_cons, not_or]
            exact ⟨fun same => head same.symm, fun member => by simpa using hit rc member⟩
          | some found =>
            obtain ⟨before, node⟩ := found
            obtain ⟨ahead, previous, back, split, rfl, isRc⟩ := locate_behind hit
            obtain rfl : node = rc := by simpa using isRc
            rw [hit] at completed
            rw [split] at chain shape
            have nodup := chain.nodup
            have member : node ∈ callers rp := by simp [shape]
            have erased : (callers rp).erase node = ahead ++ previous :: back := by
              rw [List.append_cons] at nodup
              rw [shape, List.append_cons, erase_middle nodup, ← List.append_cons]
            have after := queues.linkAround covers shape
            have gone : ∀ dest, scope.Covers dest →
                node ∉ update callers rp (ahead ++ previous :: back) dest := by
              intro dest coversDest
              rw [← erased, ← queues.erase_eq covers member dest coversDest]
              exact (queues.chain dest coversDest).nodup.not_mem_erase
            dsimp only at completed
            rw [State.setSendlink_eq] at completed
            obtain ⟨links, heads, rfl, final⟩ := inductionHypothesis after
              (fun dest coversDest _ => gone dest coversDest) completed
            refine ⟨links, heads, rfl, final.congr fun dest coversDest => ?_⟩
            rw [List.erase_of_not_mem (gone dest coversDest), ← erased,
              queues.erase_eq covers member dest coversDest]
      · -- The exiting process is on none of the queues that are not described.
        have first := queues.looseHead rp np covers headIs
        have apart : np ≠ rc := by
          rintro rfl
          exact notLoose first
        rw [if_neg apart] at completed
        have missed : ∀ found, scan k.sendlink (· == rc) tableSize (some np) (k.sendlink np) ≠
            some (some found) := by
          rintro ⟨before, node⟩ walk
          have found := scan_found loose (fun p same => by
            obtain rfl := some.inj same
            exact first) (fun q => queues.looseLink np q first) queues.looseLink walk
          obtain rfl : node = rc := by simpa using found.1
          exact notLoose found.2.1
        split at completed
        · cases completed
        · exact absurd ‹_› (missed _)
        · exact inductionHypothesis queues (onward fun inside => absurd inside covers) completed

end

end Callers

end Minix.Kernel
