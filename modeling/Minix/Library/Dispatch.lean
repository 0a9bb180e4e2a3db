/-
This file develops a loop that hands one item to the members of a list who want it. Everyone who
does not share gets it; of those who share, one is remembered to get it at the end, and a later one
takes its place if nothing waits for that one already.

A later one for whom something waits falls through to those who do not share, so that the sharing
works exactly if there are none such.
-/

import Mathlib.Data.List.Nodup

namespace Minix.Library

variable {α : Type*} {wants shared busy : α → Bool} {members : List α} {one : Option α}

/-- The loop; `one` is the member who is remembered. -/
def dispatch (wants shared busy : α → Bool) : List α → Option α → List α
  | [], one => one.toList
  | a :: rest, one =>
    if !wants a then dispatch wants shared busy rest one
    else if shared a && (one.isNone || !busy a) then dispatch wants shared busy rest (some a)
    else a :: dispatch wants shared busy rest one

attribute [grind =] dispatch

theorem dispatch_map {β : Type*} (f : β → α) (members : List β) (one : Option β) :
    dispatch wants shared busy (members.map f) (one.map f) =
      (dispatch (fun b => wants (f b)) (fun b => shared (f b)) (fun b => busy (f b)) members
        one).map f := by
  induction members generalizing one with
  | nil => cases one <;> rfl
  | cons b rest inductionHypothesis =>
    rw [List.map_cons, dispatch, dispatch, Option.isNone_map]
    split
    · exact inductionHypothesis one
    split
    · exact inductionHypothesis (some b)
    · rw [List.map_cons, inductionHypothesis one]

theorem mem_dispatch {a : α} (member : a ∈ dispatch wants shared busy members one) :
    a ∈ one ∨ (a ∈ members ∧ wants a = true) := by
  induction members generalizing one with
  | nil => exact .inl (Option.mem_toList.mp member)
  | cons b rest inductionHypothesis =>
    have later {one : Option α} (member : a ∈ dispatch wants shared busy rest one) :
        a ∈ one ∨ (a ∈ b :: rest ∧ wants a = true) :=
      (inductionHypothesis member).imp_right (And.imp_left (List.mem_cons_of_mem _))
    rw [dispatch] at member
    split at member
    · exact later member
    case isFalse yes =>
      have wanted : wants b = true := by simpa using yes
      split at member
      · rcases later member with same | inside
        · obtain rfl := Option.some.inj same
          exact .inr ⟨List.mem_cons_self, wanted⟩
        · exact .inr inside
      · rcases List.mem_cons.mp member with rfl | member
        · exact .inr ⟨List.mem_cons_self, wanted⟩
        · exact later member

/-! ### Who gets the item -/

theorem filter_dispatch_alone (sharing : ∀ a ∈ one, shared a = true) :
    (dispatch wants shared busy members one).filter (!shared ·) =
      members.filter fun a => wants a && !shared a := by
  induction members generalizing one with
  | nil =>
    cases one with
    | none => rfl
    | some a => simp [dispatch, sharing a rfl]
  | cons a rest inductionHypothesis =>
    rw [dispatch]
    cases wanted : wants a with
    | false => simpa [wanted] using inductionHypothesis sharing
    | true =>
      cases shares : shared a with
      | false => simp [wanted, shares, inductionHypothesis sharing]
      | true =>
        have next := @inductionHypothesis (some a) fun b same => Option.some.inj same ▸ shares
        have stay := inductionHypothesis sharing
        by_cases taken : (one.isNone || !busy a) = true
        · simpa [wanted, shares, taken] using next
        · simpa [wanted, shares, taken] using stay

/-- Of those who share, the busy ones behind the first get the item, and so does the last one of the
others. -/
theorem filter_dispatch_shared (sharing : ∀ a ∈ one, shared a = true) :
    (dispatch wants shared busy members one).filter shared =
      (one.toList ++ members.filter fun a => wants a && shared a).tail.filter busy ++
        ((one.toList ++ members.filter fun a => wants a && shared a).head?.toList ++
          (one.toList ++ members.filter fun a => wants a && shared a).tail.filter
            (!busy ·)).getLast?.toList := by
  induction members generalizing one with
  | nil =>
    cases one with
    | none => rfl
    | some a => simp [dispatch, sharing a rfl]
  | cons a rest inductionHypothesis =>
    rw [dispatch]
    cases wanted : wants a with
    | false => simpa [wanted] using inductionHypothesis sharing
    | true =>
      cases shares : shared a with
      | false => simpa [wanted, shares] using inductionHypothesis sharing
      | true =>
        have next := @inductionHypothesis (some a) fun b same => Option.some.inj same ▸ shares
        cases one with
        | none => simpa [wanted, shares] using next
        | some first =>
          have stay := @inductionHypothesis (some first) sharing
          cases full : busy a with
          | false => simpa [wanted, shares, full] using next
          | true => simpa [wanted, shares, full] using stay

/-- The item is handed out fairly: those who want it and do not share get it once, those who do not
want it never, and of those who share exactly one gets it, once, for whom nothing waits if there is
such a one. -/
structure Fair [DecidableEq α] (wants shared busy : α → Bool) (members got : List α) : Prop where
  alone : ∀ a ∈ members, wants a = true → shared a = false → got.count a = 1
  others : ∀ a, ¬(a ∈ members ∧ wants a = true) → got.count a = 0
  shared : (∃ a ∈ members, wants a = true ∧ shared a = true) →
    ∃ a ∈ members, wants a = true ∧ shared a = true ∧ got.count a = 1 ∧
      (∀ b ∈ members, wants b = true → shared b = true → b ≠ a → got.count b = 0) ∧
      ((∃ b ∈ members, wants b = true ∧ shared b = true ∧ busy b = false) → busy a = false)

variable [DecidableEq α] {a : α}

theorem count_dispatch_alone (alone : shared a = false) (nodup : members.Nodup) :
    (dispatch wants shared busy members none).count a =
      if a ∈ members ∧ wants a = true then 1 else 0 := by
  have kept : (!shared a) = true := by rw [alone, Bool.not_false]
  refine (List.count_filter (p := fun a => !shared a) kept).symm.trans ?_
  rw [filter_dispatch_alone nofun, (nodup.filter _).count]
  refine if_congr ?_ rfl rfl
  rw [List.mem_filter, Bool.and_eq_true, and_iff_left kept]

/-- Sharing works exactly if nothing waits for those who share, but for the first. -/
theorem fair_dispatch_iff (nodup : members.Nodup) :
    Fair wants shared busy members (dispatch wants shared busy members none) ↔
      ∀ a ∈ (members.filter fun a => wants a && shared a).tail, busy a = false := by
  have sharing := @filter_dispatch_shared α wants shared busy members none nofun
  rw [Option.toList_none, List.nil_append] at sharing
  have inside (a : α) : a ∈ (members.filter fun a => wants a && shared a) ↔
      a ∈ members ∧ wants a = true ∧ shared a = true := by
    rw [List.mem_filter, Bool.and_eq_true]
  have distinct : (members.filter fun a => wants a && shared a).Nodup := nodup.filter _
  have count {a : α} (shares : shared a = true) :
      (dispatch wants shared busy members none).count a =
        ((dispatch wants shared busy members none).filter shared).count a :=
    (List.count_filter shares).symm
  generalize (members.filter fun a => wants a && shared a) = sharers at sharing inside distinct ⊢
  constructor
  · intro fair c member
    by_contra waits
    rw [Bool.not_eq_false] at waits
    cases sharers with
    | nil => cases member
    | cons first rest =>
      rw [List.tail_cons] at member sharing
      -- the last one of the others gets the item too
      obtain ⟨e, last⟩ : ∃ e, (first :: rest.filter (!busy ·)).getLast? = some e :=
        ⟨_, List.getLast?_eq_some_getLast (List.cons_ne_nil _ _)⟩
      have chosen := List.mem_of_getLast? last
      rw [List.head?_cons, Option.toList_some, List.singleton_append, last,
        Option.toList_some] at sharing
      have apart : c ≠ e := by
        rintro rfl
        rcases List.mem_cons.mp chosen with rfl | free
        · exact (List.nodup_cons.mp distinct).1 member
        · rw [List.mem_filter, waits] at free
          cases free.2
      have both : e ∈ first :: rest := by
        rcases List.mem_cons.mp chosen with rfl | free
        · exact List.mem_cons_self
        · exact List.mem_cons_of_mem _ (List.mem_of_mem_filter free)
      obtain ⟨wanted, wants', shares⟩ := (inside c).mp (List.mem_cons_of_mem _ member)
      obtain ⟨wantedE, wantsE, sharesE⟩ := (inside e).mp both
      have gets : 0 < (dispatch wants shared busy members none).count c := by
        rw [count shares, sharing]
        exact List.count_pos_iff.mpr
          (List.mem_append_left _ (List.mem_filter.mpr ⟨member, waits⟩))
      have getsE : 0 < (dispatch wants shared busy members none).count e := by
        rw [count sharesE, sharing]
        exact List.count_pos_iff.mpr (List.mem_append_right _ (List.mem_singleton_self e))
      obtain ⟨one, -, -, -, -, once, -⟩ := fair.shared ⟨c, wanted, wants', shares⟩
      by_cases same : c = one
      · have none := once e wantedE wantsE sharesE fun same' => apart (same.trans same'.symm)
        omega
      · have none := once c wanted wants' shares same
        omega
  · intro idle
    have none : sharers.tail.filter busy = [] := by
      refine List.filter_eq_nil_iff.mpr fun a member full => ?_
      rw [idle a member] at full
      cases full
    have all : sharers.tail.filter (!busy ·) = sharers.tail :=
      List.filter_eq_self.mpr fun a member => by rw [idle a member, Bool.not_false]
    have whole : sharers.head?.toList ++ sharers.tail = sharers := by cases sharers <;> rfl
    rw [none, all, whole, List.nil_append] at sharing
    refine ⟨fun a member wanted alone => ?_, fun a other => ?_, ?_⟩
    · rw [count_dispatch_alone alone nodup, if_pos ⟨member, wanted⟩]
    · cases shares : shared a with
      | false => rw [count_dispatch_alone shares nodup, if_neg other]
      | true =>
        rw [count shares, sharing]
        refine List.count_eq_zero.mpr fun member => other ?_
        have member' := (inside a).mp (List.mem_of_getLast? (Option.mem_toList.mp member))
        exact ⟨member'.1, member'.2.1⟩
    · rintro ⟨a, member, wanted, shares⟩
      have some' := (inside a).mpr ⟨member, wanted, shares⟩
      obtain ⟨e, last⟩ : ∃ e, sharers.getLast? = some e :=
        ⟨_, List.getLast?_eq_some_getLast (List.ne_nil_of_mem some')⟩
      rw [last, Option.toList_some] at sharing
      obtain ⟨wantedE, wantsE, sharesE⟩ := (inside e).mp (List.mem_of_getLast? last)
      refine ⟨e, wantedE, wantsE, sharesE, ?_, fun b _ _ sharesB apart => ?_, ?_⟩
      · rw [count sharesE, sharing, List.count_singleton_self]
      · rw [count sharesB, sharing]
        exact List.count_eq_zero.mpr fun same => apart (List.mem_singleton.mp same)
      · rintro ⟨b, wantedB, wantsB, sharesB, free⟩
        have memberB := (inside b).mpr ⟨wantedB, wantsB, sharesB⟩
        match sharers, last, memberB with
        | [first], last, memberB =>
          obtain rfl := Option.some.inj last
          exact List.mem_singleton.mp memberB ▸ free
        | first :: second :: rest, last, memberB =>
          rw [List.getLast?_cons_cons] at last
          exact idle e (List.mem_of_getLast? last)

end Minix.Library
