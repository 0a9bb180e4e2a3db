/-
This file proves that the hole table of MM keeps a sorted list of extents: taking a piece and
giving one back do to the table what the operations on extents do to the list, and every slot of
the table stays on exactly one of its two lists.
-/

import Minix.Library.Extents
import Minix.Mm.Holes

namespace Minix.Mm.HoleTable

open Function (update update_of_ne update_self)
open LinkedList Extents

variable {n : Nat} {t : HoleTable n} {nodes spare front back : List (Fin n)} {hp : Fin n}
  {clicks : Nat}

/-! ### The two lists -/

/-- The list of holes visits `nodes` and the list of free slots visits `spare`; each slot is on one
of them, once. -/
structure Holds (t : HoleTable n) (nodes spare : List (Fin n)) : Prop where
  lists : t.links.Lists nodes
  spares : Chain t.links.next t.freeSlots spare
  once : (nodes ++ spare).Nodup
  all : ∀ slot, slot ∈ nodes ++ spare

theorem Holds.head_ne {last : Fin n} (holds : Holds t (front ++ last :: hp :: back) spare) :
    t.links.head ≠ some hp := by
  intro same
  have nodup : (front ++ last :: hp :: back).Nodup := List.Nodup.of_append_left holds.once
  have first := holds.lists.head_eq
  rw [same] at first
  cases front with
  | nil =>
    obtain rfl := Option.some.inj first
    simp at nodup
  | cons other front =>
    obtain rfl := Option.some.inj first
    simp at nodup

theorem Holds.delSlot (holds : Holds t (front ++ hp :: back) spare) {prev : Option (Fin n)}
    (before : front = [] ∨ prev = front.getLast?) :
    ∃ t', t.delSlot prev hp = some t' ∧ Holds t' (front ++ back) (hp :: spare) ∧
      t'.base = t.base ∧ t'.len = t.len := by
  have perm : (front ++ hp :: back ++ spare).Perm (front ++ back ++ hp :: spare) := by
    simp only [List.append_assoc, List.cons_append]
    exact List.Perm.append_left front List.perm_middle.symm
  have once := perm.nodup_iff.mp holds.once
  have apart : hp ∉ front ++ back := fun member =>
    (List.nodup_append.mp once).2.2 hp member hp List.mem_cons_self rfl
  have fresh : hp ∉ spare := (List.nodup_cons.mp (List.Nodup.of_append_right once)).1
  have removed : (if t.links.head = some hp then some (t.links.remove none hp)
      else prev.map fun prev => t.links.remove (some prev) hp) =
      some (t.links.remove front.getLast? hp) := by
    rcases List.eq_nil_or_concat front with rfl | ⟨start, last, rfl⟩
    · exact if_pos holds.lists.head_eq
    · rw [List.concat_eq_append] at before holds ⊢
      obtain rfl := before.resolve_left (by simp)
      rw [if_neg (Holds.head_ne (by simpa using holds))]
      simp
  refine ⟨{ t with
    links := { t.links.remove front.getLast? hp with
      next := update (t.links.remove front.getLast? hp).next hp t.freeSlots }
    freeSlots := some hp }, ?_, ⟨?_, ?_, once, fun slot => perm.subset (holds.all slot)⟩, rfl, rfl⟩
  · rw [HoleTable.delSlot, removed]
    rfl
  · exact holds.lists.remove.update_of_notMem apart _
  · refine Chain.push (holds.spares.congr fun slot member => ?_) fresh
    refine Links.remove_next_of_ne fun last => ?_
    have inside : slot ∈ front := List.mem_of_getLast? last
    exact (List.nodup_append.mp once).2.2 slot (List.mem_append_left _ inside) slot
      (List.mem_cons_of_mem _ member) rfl

theorem Holds.insert {slot : Fin n} (holds : Holds t (front ++ back) (slot :: spare))
    (base len : Fin n → Nat) :
    Holds { t with
      base := base
      len := len
      freeSlots := t.links.next slot
      links := t.links.insert front.getLast? slot } (front ++ slot :: back) spare := by
  have perm : (front ++ back ++ slot :: spare).Perm (front ++ slot :: back ++ spare) := by
    simp only [List.append_assoc, List.cons_append]
    exact List.Perm.append_left front List.perm_middle
  have apart : slot ∉ front ++ back := fun member =>
    (List.nodup_append.mp holds.once).2.2 slot member slot List.mem_cons_self rfl
  refine ⟨holds.lists.insert apart, holds.spares.2.congr fun other member => ?_,
    perm.nodup_iff.mp holds.once, fun other => perm.subset (holds.all other)⟩
  have distinct : other ≠ slot := by
    rintro rfl
    exact (List.nodup_cons.mp (List.Nodup.of_append_right holds.once)).1 member
  refine Links.insert_next_of_ne (fun last => ?_) distinct
  have inside : other ∈ front := List.mem_of_getLast? last
  exact (List.nodup_append.mp holds.once).2.2 other (List.mem_append_left _ inside) other
    (List.mem_cons_of_mem _ member) rfl

theorem Holds.setHoles (holds : Holds t nodes spare) (base len : Fin n → Nat) :
    Holds { t with base := base, len := len } nodes spare :=
  ⟨holds.lists, holds.spares, holds.once, holds.all⟩

theorem Holds.length (holds : Holds t nodes spare) : nodes.length + spare.length = n := by
  have all : (nodes ++ spare).toFinset = Finset.univ :=
    Finset.eq_univ_of_forall fun slot => List.mem_toFinset.mpr (holds.all slot)
  have count := List.toFinset_card_of_nodup holds.once
  rw [all, Finset.card_univ, Fintype.card_fin, List.length_append] at count
  exact count.symm

/-! ### The holes as extents -/

/-- The memory of the hole in a slot. -/
def extent (t : HoleTable n) (hp : Fin n) : Extent := { base := t.base hp, len := t.len hp }

/-- Extents that lie inside the address space, without its first click. -/
def Inside (free : List Extent) : Prop := ∀ extent ∈ free, 0 < extent.base ∧ extent.stop ≤ 2 ^ 32

/-- The holes of the table are the given extents, in order. -/
structure Keeps (t : HoleTable n) (nodes spare : List (Fin n)) (free : List Extent) : Prop extends
    Holds t nodes spare where
  free_eq : nodes.map t.extent = free

section Merge

variable {free : List Extent}

theorem Holds.absorb {next : Fin n} (holds : Holds t (front ++ hp :: next :: back) spare)
    (fits : t.len hp + t.len next < 2 ^ 32) :
    ∃ t' spare', t.absorb hp next = some t' ∧ Holds t' (front ++ hp :: back) spare' ∧
      (∀ other ≠ hp, t'.extent other = t.extent other) ∧
      t'.extent hp = { base := t.base hp, len := t.len hp + t.len next } := by
  have holds' : Holds t (front ++ [hp] ++ next :: back) spare := by simpa using holds
  have before : some hp = (front ++ [hp]).getLast? := by simp
  obtain ⟨t', deleted, held, base, len⟩ := (holds'.setHoles t.base (update t.len hp
    (Word.add 32 (t.len hp) (t.len next)))).delSlot (.inr before)
  have base' : t'.base = t.base := base
  have len' : t'.len = update t.len hp (t.len hp + t.len next) := by
    rw [len, Word.add_of_lt fits]
  refine ⟨t', _, deleted, by simpa using held, fun other apart => ?_, ?_⟩
  · rw [extent, extent, base', len', update_of_ne apart]
  · rw [extent, base', len', update_self]

section Others

variable {t' : HoleTable n}

section

variable (holds : Holds t' (front ++ hp :: back) spare)
include holds

theorem Holds.ne_of_mem {other : Fin n} (member : other ∈ back) : other ≠ hp := by
  rintro rfl
  have nodup := List.Nodup.of_append_right (List.Nodup.of_append_left holds.once)
  exact (List.nodup_cons.mp nodup).1 member

theorem Holds.map_front (others : ∀ other ≠ hp, t'.extent other = t.extent other) :
    front.map t'.extent = front.map t.extent := by
  refine List.map_congr_left fun other member => others other ?_
  rintro rfl
  have nodup := List.Nodup.of_append_left holds.once
  exact (List.nodup_append.mp nodup).2.2 other member other List.mem_cons_self rfl

theorem Holds.map_back (others : ∀ other ≠ hp, t'.extent other = t.extent other) :
    back.map t'.extent = back.map t.extent :=
  List.map_congr_left fun other member => others other (holds.ne_of_mem member)

end

end Others

/-- Two holes, the second of which starts where the first ends or behind. -/
def Ordered (first second : Extent) : Prop :=
  0 < first.base ∧ first.stop ≤ second.base ∧ 0 < second.len ∧ second.stop ≤ 2 ^ 32

theorem Ordered.touches {next : Fin n} (ordered : Ordered (t.extent hp) (t.extent next)) :
    Word.add 32 (t.base hp) (t.len hp) = t.base next ↔
      (t.extent hp).stop = (t.extent next).base := by
  obtain ⟨-, before, pos, inside⟩ := ordered
  simp only [extent, Extent.stop] at before pos inside ⊢
  rw [Word.add_of_lt (by omega)]

theorem Ordered.len_lt {next : Fin n} (ordered : Ordered (t.extent hp) (t.extent next)) :
    t.len hp + t.len next < 2 ^ 32 := by
  obtain ⟨low, before, pos, inside⟩ := ordered
  simp only [extent, Extent.stop] at low before pos inside ⊢
  omega

theorem Holds.mergeLast (holds : Holds t (front ++ hp :: back) spare)
    (ordered : ∀ next ∈ back.head?, Ordered (t.extent hp) (t.extent next)) :
    ∃ t' nodes spare', t.mergeLast hp = some t' ∧ Holds t' nodes spare' ∧
      nodes.map t'.extent = front.map t.extent ++ glue (t.extent hp) (back.map t.extent) := by
  rw [HoleTable.mergeLast, Chain.head_eq holds.lists.behind]
  cases back with
  | nil => exact ⟨t, _, _, rfl, holds, by simp [glue]⟩
  | cons next back =>
    have ordered := ordered next rfl
    simp only [List.head?_cons, List.map_cons, glue, ordered.touches]
    split
    · obtain ⟨t', spare', absorbed, holds', others, here⟩ := holds.absorb ordered.len_lt
      refine ⟨t', _, spare', absorbed, holds', ?_⟩
      rw [List.map_append, List.map_cons, here, holds'.map_front others, holds'.map_back others]
      rfl
    · exact ⟨t, _, _, rfl, holds, by simp⟩

/-- The first extent is joined with the second one. -/
def glueFirst : List Extent → List Extent
  | [] => []
  | first :: rest => glue first rest

theorem Holds.merge (holds : Holds t (front ++ hp :: back) spare)
    (ordered : ∀ next ∈ back.head?, Ordered (t.extent hp) (t.extent next))
    (ordered' : ∀ next rest, back = next :: rest →
      ∀ third ∈ rest.head?, Ordered (t.extent next) (t.extent third)) :
    ∃ t' nodes spare', t.merge hp = some t' ∧ Holds t' nodes spare' ∧
      nodes.map t'.extent =
        front.map t.extent ++ glue (t.extent hp) (glueFirst (back.map t.extent)) := by
  rw [HoleTable.merge, Chain.head_eq holds.lists.behind]
  cases back with
  | nil => exact ⟨t, _, _, rfl, holds, by simp [glue, glueFirst]⟩
  | cons next back =>
    have first := ordered next rfl
    have second := ordered' next back rfl
    simp only [List.head?_cons, first.touches]
    rw [List.map_cons, glueFirst, glue_glue]
    split
    case isTrue touches =>
      obtain ⟨t₁, spare₁, absorbed, holds₁, others, here⟩ := holds.absorb first.len_lt
      have front₁ := holds₁.map_front others
      have back₁ := holds₁.map_back others
      rw [absorbed, Option.bind_some]
      obtain ⟨t', nodes, spare', merged, holds', same⟩ := holds₁.mergeLast fun third inside => by
        have apart : third ≠ hp := holds₁.ne_of_mem (List.mem_of_mem_head? inside)
        obtain ⟨low, before, -, -⟩ := first
        obtain ⟨-, before', pos, inside'⟩ := second third inside
        rw [here, others third apart]
        refine ⟨low, ?_, pos, inside'⟩
        simp only [extent, Extent.stop] at touches before' ⊢
        omega
      refine ⟨t', nodes, spare', merged, holds', ?_⟩
      rw [same, front₁, back₁, here]
      rfl
    case isFalse apart =>
      have moved : Holds t (front ++ [hp] ++ next :: back) spare := by simpa using holds
      obtain ⟨t', nodes, spare', merged, holds', same⟩ := moved.mergeLast second
      refine ⟨t', nodes, spare', merged, holds', ?_⟩
      rw [same]
      simp

end Merge

/-! ### Giving back -/

section Free

variable {free : List Extent} {base : Nat}

theorem glueFirst_of_sorted (sorted : Sorted free) : glueFirst free = free := by
  cases free with
  | nil => rfl
  | cons first rest =>
    refine glue_of_ne fun next inside => ne_of_lt ?_
    exact (sorted_cons.mp sorted).2.1 next (List.mem_of_mem_head? inside)

theorem ordered_of_sorted {first second : Extent} (sorted : Sorted (first :: free))
    (inside : Inside (first :: free)) (next : free.head? = some second) : Ordered first second := by
  have member := List.mem_of_mem_head? next
  obtain ⟨-, apart, sorted'⟩ := sorted_cons.mp sorted
  exact ⟨(inside first List.mem_cons_self).1, (apart second member).le, sorted'.pos second member,
    (inside second (List.mem_cons_of_mem _ member)).2⟩

theorem ordered_of_disjoint {first second : Extent} (disjoint : first.Disjoint second)
    (before : first.base ≤ second.base) (low : 0 < first.base) (pos : 0 < second.len)
    (high : second.stop ≤ 2 ^ 32) : Ordered first second := by
  refine ⟨low, ?_, pos, high⟩
  simp only [Extent.Disjoint, Extent.stop] at disjoint ⊢
  omega

/-- A new hole between two parts of the list is merged with what touches it. -/
theorem Holds.settle {newPtr : Fin n} {piece : Extent}
    (holds : Holds t (front ++ newPtr :: back) spare) (new : t.extent newPtr = piece)
    (front_eq : front.map t.extent ++ back.map t.extent = free) (sorted : Sorted free)
    (inside : Inside free) (pos : 0 < piece.len) (low : 0 < piece.base)
    (high : piece.stop ≤ 2 ^ 32) (disjoint : ∀ extent ∈ free, piece.Disjoint extent)
    (before : ∀ hp ∈ front, (t.extent hp).base < piece.base)
    (behind : ∀ hp ∈ back.head?, piece.base ≤ (t.extent hp).base) :
    ∃ t' nodes' spare', t.merge (front.getLast?.getD newPtr) = some t' ∧
      Keeps t' nodes' spare' (release piece free) := by
  subst front_eq
  have follows : ∀ hp ∈ back.head?, Ordered piece (t.extent hp) := fun hp first => by
    have member : t.extent hp ∈ front.map t.extent ++ back.map t.extent :=
      List.mem_append_right _ (List.mem_map_of_mem (List.mem_of_mem_head? first))
    exact ordered_of_disjoint (disjoint _ member) (behind hp first) low (sorted.pos _ member)
      (inside _ member).2
  have behind' : ∀ first ∈ (back.map t.extent).head?, piece.base ≤ first.base := by
    intro first head
    rw [List.head?_map, Option.mem_map] at head
    obtain ⟨hp, head, rfl⟩ := head
    exact behind hp head
  rcases List.eq_nil_or_concat front with rfl | ⟨start, last, rfl⟩
  · rw [List.map_nil, List.nil_append] at sorted inside ⊢
    obtain ⟨t', nodes', spare', merged, holds', same⟩ := holds.merge (by rwa [new])
      fun next rest here third inside' => by
        subst here
        exact ordered_of_sorted sorted inside (by rw [List.head?_map, inside']; rfl)
    refine ⟨t', nodes', spare', merged, holds', ?_⟩
    rw [same, new, glueFirst_of_sorted sorted, release_eq_glue behind']
    rfl
  · rw [List.concat_eq_append] at holds before sorted inside disjoint ⊢
    have holds' : Holds t (start ++ last :: newPtr :: back) spare := by simpa using holds
    have member : t.extent last ∈ (start ++ [last]).map t.extent ++ back.map t.extent := by simp
    obtain ⟨t', nodes', spare', merged, holds', same⟩ := holds'.merge
      (fun next head => by
        obtain rfl := Option.some.inj head
        have apart := (disjoint _ member).symm
        rw [new]
        exact ordered_of_disjoint apart (before last (by simp)).le (inside _ member).1 pos high)
      fun next rest here third head => by
        obtain ⟨rfl, rfl⟩ := List.cons_eq_cons.mp here
        rw [new]
        exact follows third head
    refine ⟨t', nodes', spare', by simpa using merged, holds', ?_⟩
    rw [same, List.map_append, List.map_singleton, List.append_assoc, List.singleton_append,
      release_append]
    · rw [List.map_cons, glueFirst, new]
    · simpa using sorted
    · intro other member'
      rw [← List.map_singleton, ← List.map_append] at member'
      obtain ⟨hp, inside', rfl⟩ := List.mem_map.mp member'
      exact before hp inside'
    · exact behind'

/-- The table when a block has got a slot and a place in the list. -/
def placed (t : HoleTable n) (newPtr : Fin n) (base clicks : Nat) (prev : Option (Fin n)) :
    HoleTable n where
  base := update t.base newPtr base
  len := update t.len newPtr clicks
  freeSlots := t.links.next newPtr
  links := t.links.insert prev newPtr

theorem Keeps.freeMem (keeps : Keeps t nodes spare free) (sorted : Sorted free)
    (inside : Inside free) (pos : 0 < clicks) (low : 0 < base) (high : base + clicks ≤ 2 ^ 32)
    (disjoint : ∀ extent ∈ free, (Extent.mk base clicks).Disjoint extent) (room : spare ≠ []) :
    ∃ t' nodes' spare', t.freeMem base clicks = some t' ∧
      Keeps t' nodes' spare' (release { base := base, len := clicks } free) := by
  obtain ⟨newPtr, spare, rfl⟩ := List.exists_cons_of_ne_nil room
  have fresh (hp : Fin n) (member : hp ∈ nodes) : hp ≠ newPtr := by
    rintro rfl
    exact (List.nodup_append.mp keeps.once).2.2 hp member hp List.mem_cons_self rfl
  have length := keeps.toHolds.length
  obtain ⟨front, back, rfl, found, before, behind⟩ := keeps.lists.seek_eq
    (fun hp => decide (base ≤ update t.base newPtr base hp)) (show nodes.length < n + 1 by omega)
  have holds : Holds (t.placed newPtr base clicks front.getLast?) (front ++ newPtr :: back) spare :=
    keeps.toHolds.insert _ _
  have new : (t.placed newPtr base clicks front.getLast?).extent newPtr =
      Extent.mk base clicks := by
    simp [extent, placed]
  have same : front.map (t.placed newPtr base clicks front.getLast?).extent ++
      back.map (t.placed newPtr base clicks front.getLast?).extent = free := by
    rw [← keeps.free_eq, ← List.map_append]
    refine List.map_congr_left fun hp member => ?_
    simp [extent, placed, update_of_ne (fresh hp member)]
  obtain ⟨t', nodes', spare', merged, keeps'⟩ := holds.settle new same sorted inside pos low high
    disjoint (fun hp member => not_le.mp (of_decide_eq_false (before hp member)))
    (fun hp member => of_decide_eq_true (behind hp member))
  refine ⟨t', nodes', spare', ?_, keeps'⟩
  rw [HoleTable.freeMem, if_neg (Nat.pos_iff_ne_zero.mp pos), keeps.spares.1, Option.bind_some]
  simp only [found, Option.bind_some]
  exact merged

end Free

/-! ### Taking -/

section Take

variable {free : List Extent} {stop suits : Fin n → Bool} {fine : Extent → Bool}

theorem Holds.bite (holds : Holds t (front ++ hp :: back) spare) (fits : clicks ≤ t.len hp)
    (low : 0 < t.base hp) (high : t.base hp + t.len hp ≤ 2 ^ 32) :
    ∃ t' nodes' spare', t.bite front.getLast? hp clicks = some t' ∧ Holds t' nodes' spare' ∧
      nodes'.map t'.extent =
        front.map t.extent ++ Extents.bite clicks (t.extent hp) (back.map t.extent) := by
  have rest : Word.sub 32 (t.len hp) clicks = t.len hp - clicks := Word.sub_of_le fits (by omega)
  have bitten := holds.setHoles (update t.base hp (Word.add 32 (t.base hp) clicks))
    (update t.len hp (t.len hp - clicks))
  have others (other : Fin n) (apart : other ≠ hp) :
      extent { t with
        base := update t.base hp (Word.add 32 (t.base hp) clicks)
        len := update t.len hp (t.len hp - clicks) } other = t.extent other := by
    simp [extent, update_of_ne apart]
  have front' := bitten.map_front others
  have back' := bitten.map_back others
  simp only [HoleTable.bite, rest, update_self, Extents.bite]
  by_cases all : t.len hp = clicks
  · obtain ⟨t', deleted, holds', base, len⟩ := bitten.delSlot (.inr rfl)
    refine ⟨t', front ++ back, hp :: spare, by rw [if_pos (by omega)]; exact deleted, holds', ?_⟩
    rw [if_pos (show (t.extent hp).len = clicks from all), List.map_append]
    have same : t'.extent = extent { t with
        base := update t.base hp (Word.add 32 (t.base hp) clicks)
        len := update t.len hp (t.len hp - clicks) } := by
      funext other
      rw [extent, extent, base, len]
    rw [same, front', back']
  · refine ⟨_, _, spare, if_neg (by omega), bitten, ?_⟩
    rw [if_neg (show (t.extent hp).len ≠ clicks from all), List.map_append, List.map_cons, front',
      back']
    simp [extent, Word.add_of_lt (show t.base hp + clicks < 2 ^ 32 by omega)]

/-- A search finds the first extent that suits, when the loop stops there or finds none behind. -/
theorem Keeps.takeAt (keeps : Keeps t nodes spare free) (inside : Inside free)
    (same : ∀ hp ∈ nodes, fine (t.extent hp) = (stop hp && suits hp))
    (ends : ∀ front hp back, nodes = front ++ hp :: back → stop hp = true → suits hp = false →
      ∀ other ∈ back, fine (t.extent other) = false)
    (large : ∀ extent, fine extent → clicks ≤ extent.len) :
    (take fine clicks free = none ∧ t.takeAt stop suits clicks = some none) ∨
      ∃ base after t' nodes' spare', take fine clicks free = some (base, after) ∧
        t.takeAt stop suits clicks = some (some (t', base)) ∧ Keeps t' nodes' spare' after := by
  have length := keeps.toHolds.length
  obtain ⟨front, back, rfl, found, passed, stopped⟩ := keeps.lists.seek_eq stop
    (show nodes.length < n + 1 by omega)
  have others : ∀ other ∈ front.map t.extent, fine other = false := by
    intro other member
    obtain ⟨hp, passed', rfl⟩ := List.mem_map.mp member
    rw [same hp (List.mem_append_left _ passed'), passed hp passed']
    rfl
  rw [HoleTable.takeAt, found, Option.bind_some, keeps.lists.read_eq]
  cases back with
  | nil =>
    left
    refine ⟨take_eq_none_iff.mpr ?_, rfl⟩
    rw [← keeps.free_eq, List.append_nil]
    exact others
  | cons hp back =>
    have stops := stopped hp rfl
    have here := same hp (by simp)
    rw [stops, Bool.true_and] at here
    have member : t.extent hp ∈ free := by
      rw [← keeps.free_eq]
      exact List.mem_map_of_mem (by simp)
    have free_eq : free = front.map t.extent ++ t.extent hp :: back.map t.extent := by
      rw [← keeps.free_eq, List.map_append, List.map_cons]
    simp only [List.head?_cons]
    cases fit : suits hp with
    | false =>
      left
      refine ⟨take_eq_none_iff.mpr ?_, rfl⟩
      rw [free_eq]
      intro other member'
      rcases List.mem_append.mp member' with before | behind
      · exact others other before
      · rcases List.mem_cons.mp behind with rfl | behind
        · rw [here, fit]
        · obtain ⟨slot, slotBehind, rfl⟩ := List.mem_map.mp behind
          exact ends front hp back rfl stops fit slot slotBehind
    | true =>
      right
      rw [fit] at here
      obtain ⟨low, high⟩ := inside _ member
      obtain ⟨t', nodes', spare', bitten, holds', after⟩ :=
        keeps.toHolds.bite (large _ here) low high
      refine ⟨t.base hp, _, t', nodes', spare', ?_, ?_, holds', after⟩
      · rw [free_eq, take_append others here]
        rfl
      · rw [bitten]
        rfl

/-- The holes that `alloc_mem` may use. -/
def fits (swapBase clicks : Nat) (extent : Extent) : Bool :=
  extent.base < swapBase && clicks ≤ extent.len

/-- The holes that `swap_out` may use. -/
def swapFits (swapBase size : Nat) (extent : Extent) : Bool :=
  swapBase ≤ extent.base && size ≤ extent.len

theorem Keeps.firstFit (keeps : Keeps t nodes spare free) (sorted : Sorted free)
    (inside : Inside free) (swapBase clicks : Nat) :
    (take (fits swapBase clicks) clicks free = none ∧ t.firstFit swapBase clicks = some none) ∨
      ∃ base after t' nodes' spare', take (fits swapBase clicks) clicks free = some (base, after) ∧
        t.firstFit swapBase clicks = some (some (t', base)) ∧ Keeps t' nodes' spare' after := by
  refine keeps.takeAt inside (fun hp member => ?_) (fun front hp back here stops tooHigh => ?_)
    fun extent suits => ?_
  · show (decide (t.base hp < swapBase) && decide (clicks ≤ t.len hp)) = _
    by_cases low : t.base hp < swapBase <;> simp [low]
  · intro other behind
    have order : (t.extent hp).stop < (t.extent other).base := by
      rw [← keeps.free_eq, here, List.map_append, List.map_cons] at sorted
      obtain ⟨-, sorted', -⟩ := sorted_append.mp sorted
      exact (sorted_cons.mp sorted').2.1 _ (List.mem_map_of_mem behind)
    have high : ¬ t.base hp < swapBase := of_decide_eq_false tooHigh
    simp only [extent, Extent.stop] at order
    have high' : ¬ t.base other < swapBase := by omega
    simp [fits, extent, high']
  · simp only [fits, Bool.and_eq_true, decide_eq_true_eq] at suits
    exact suits.2

theorem Keeps.swapFit (keeps : Keeps t nodes spare free) (inside : Inside free)
    (swapBase size : Nat) :
    (take (swapFits swapBase size) size free = none ∧ t.swapFit swapBase size = some none) ∨
      ∃ base after t' nodes' spare', take (swapFits swapBase size) size free = some (base, after) ∧
        t.swapFit swapBase size = some (some (t', base)) ∧ Keeps t' nodes' spare' after := by
  refine keeps.takeAt inside (fun hp member => ?_) (fun front hp back here stops never => ?_)
    fun extent suits => ?_
  · exact (Bool.and_true _).symm
  · cases never
  · simp only [swapFits, Bool.and_eq_true, decide_eq_true_eq] at suits
    exact suits.2

end Take

/-! ### The empty table -/

theorem chain_empty (k : Nat) :
    Chain (empty n).links.next (if h : k < n then some ⟨k, h⟩ else none)
      ((List.finRange n).drop k) := by
  induction h : n - k generalizing k with
  | zero =>
    rw [dif_neg (by omega), List.drop_eq_nil_of_le (by simp; omega)]
    rfl
  | succ more inductionHypothesis =>
    have small : k < n := by omega
    rw [dif_pos small, List.drop_eq_getElem_cons (by simpa using small)]
    refine ⟨by simp, ?_⟩
    have behind := inductionHypothesis (k + 1) (by omega)
    simpa [empty] using behind

theorem keeps_empty (n : Nat) : Keeps (empty n) [] (List.finRange n) [] where
  lists := rfl
  spares := chain_empty 0
  once := by simpa using List.nodup_finRange n
  all slot := by simp
  free_eq := rfl

end Minix.Mm.HoleTable
