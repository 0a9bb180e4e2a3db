/-
This file proves that `get_name` cuts a path name into its components: the words between the
slashes, each cut off after `NAME_MAX` characters.

The components stay the same when runs of slashes are collapsed or trailing slashes are removed.
-/

import Minix.Mount.Path
import Mathlib.Data.List.DropRight

namespace Minix.Paths

open Mount

/-! ### Components -/

/-- The words between the slashes of a path name. -/
def words (path : Name) : List Name :=
  (path.splitOn slash).filter (· ≠ [])

/-- The components of a path name. -/
def components (path : Name) : List Name :=
  ((path.splitOn slash).filter (· ≠ [])).map (·.take nameMax)

/-- A path name in which each run of slashes is one slash. -/
def collapse : Name → Name
  | [] => []
  | c :: path => if c = slash ∧ path.head? = some slash then collapse path else c :: collapse path

/-- A path name without its trailing slashes. -/
def trim (path : Name) : Name := path.rdropWhile (· == slash)

section Components

variable {path word rest : Name} {c : UInt8}

theorem components_eq (path : Name) : components path = (words path).map (·.take nameMax) :=
  rfl

theorem words_slash : words (slash :: path) = words path := by
  unfold words List.splitOn
  rw [List.splitOnP_cons_eq_if_modifyHead, if_pos (beq_self_eq_true slash)]
  rfl

theorem words_word (pure : ∀ c ∈ word, (c == slash) = false) (some : word ≠ []) :
    words (word ++ slash :: rest) = word :: words rest := by
  unfold words List.splitOn
  rw [List.splitOnP_append_cons_of_forall_mem pure slash (beq_self_eq_true slash),
    List.filter_cons_of_pos (by simpa using some)]

theorem words_single (pure : ∀ c ∈ word, (c == slash) = false) (some : word ≠ []) :
    words word = [word] := by
  unfold words List.splitOn
  rw [List.splitOnP_eq_singleton pure, List.filter_cons_of_pos (by simpa using some)]
  rfl

theorem words_dropWhile : words (path.dropWhile (· == slash)) = words path := by
  induction path with
  | nil => rfl
  | cons c path inductionHypothesis =>
    by_cases leading : c = slash
    · subst leading
      rw [words_slash]
      exact inductionHypothesis
    · rw [List.dropWhile_cons_of_neg (by simpa using leading)]

theorem components_dropWhile : components (path.dropWhile (· == slash)) = components path := by
  rw [components_eq, words_dropWhile, components_eq]

theorem first_left {p : UInt8 → Bool} (left : path.dropWhile p = c :: rest) : p c = false := by
  have first := List.head?_dropWhile_not p path
  rw [left] at first
  exact first

theorem components_ne_nil (member : word ∈ components path) : word ≠ [] := by
  obtain ⟨long, found, rfl⟩ := List.mem_map.mp member
  have some : long ≠ [] := by simpa using (List.mem_filter.mp found).2
  intro wrong
  rw [List.take_eq_nil_iff] at wrong
  exact wrong.elim (by decide) some

theorem words_cons (word : c ≠ slash) :
    words (c :: path) =
      (c :: path).takeWhile (· != slash) :: words ((c :: path).dropWhile (· != slash)) := by
  have begins : (c :: path).takeWhile (· != slash) ≠ [] := by
    rw [List.takeWhile_cons_of_pos (by simpa using word)]
    exact List.cons_ne_nil _ _
  have pure : ∀ d ∈ (c :: path).takeWhile (· != slash), (d == slash) = false := by
    intro d member
    have kept := List.mem_takeWhile_imp member
    simpa using kept
  conv_lhs => rw [← List.takeWhile_append_dropWhile (p := (· != slash)) (l := c :: path)]
  cases after : (c :: path).dropWhile (· != slash) with
  | nil =>
    rw [List.append_nil, words_single pure begins]
    rfl
  | cons d rest =>
    obtain rfl : d = slash := by simpa using first_left after
    rw [words_word pure begins, words_slash]

theorem components_cons (word : c ≠ slash) :
    components (c :: path) =
      ((c :: path).takeWhile (· != slash)).take nameMax ::
        components (((c :: path).dropWhile (· != slash)).dropWhile (· == slash)) := by
  rw [components_dropWhile, components_eq, words_cons word, List.map_cons]
  rfl

/-! ### Cutting a path -/

theorem getName_eq (fits : path.length < pathMax) : ∃ string rest, getName path = some (string, rest) ∧
    rest.length ≤ path.length ∧ (rest = [] ↔ components rest = []) ∧
      (components path = [] ∧ string = [] ∧ rest = [] ∨
        rest.length < path.length ∧ string ≠ [] ∧ components path = string :: components rest) := by
  have bounded : ¬ pathMax ≤ path.length - (((path.dropWhile (· == slash)).dropWhile
      (· != slash)).dropWhile (· == slash)).length := by omega
  have shorter := (List.dropWhile_sublist (l := path) (· == slash)).length_le
  have short (p : UInt8 → Bool) (l : Name) : (l.dropWhile p).length ≤ l.length :=
    (List.dropWhile_sublist p).length_le
  have word (l : Name) : l.dropWhile (· == slash) = [] ↔ components l = [] := by
    constructor
    · intro nothing
      rw [← components_dropWhile, nothing]
      rfl
    · intro nothing
      rw [← components_dropWhile] at nothing
      cases after : l.dropWhile (· == slash) with
      | nil => rfl
      | cons c rest =>
        have other : c ≠ slash := by simpa using first_left after
        rw [after, components_cons other] at nothing
        cases nothing
  unfold getName
  rw [if_neg bounded]
  refine ⟨_, _, rfl, ?_, ?_, ?_⟩
  · exact ((short _ _).trans (short _ _)).trans (short _ _)
  · rw [word, components_dropWhile]
  · rw [← components_dropWhile]
    cases skipped : path.dropWhile (· == slash) with
    | nil => exact .inl ⟨rfl, rfl, rfl⟩
    | cons c rest =>
      have other : c ≠ slash := by simpa using first_left skipped
      refine .inr ⟨?_, ?_, components_cons other⟩
      · rw [skipped, List.length_cons] at shorter
        rw [List.dropWhile_cons_of_pos (by simpa using other)]
        have rest := (short (· == slash) _).trans (short (· != slash) rest)
        omega
      · rw [List.takeWhile_cons_of_pos (by simpa using other)]
        exact fun wrong => by cases wrong

/-! ### Slashes -/

/-- The words of a path and those of the collapsed path: the first words are the same, and so are
the others that are not empty. -/
theorem splitOn_collapse (path : Name) : ∃ word words words',
    path.splitOn slash = word :: words ∧ (collapse path).splitOn slash = word :: words' ∧
      words.filter (· ≠ []) = words'.filter (· ≠ []) := by
  unfold List.splitOn
  induction path with
  | nil => exact ⟨[], [], [], rfl, rfl, rfl⟩
  | cons c path inductionHypothesis =>
    obtain ⟨word, words, words', split, split', same⟩ := inductionHypothesis
    unfold collapse
    rw [List.splitOnP_cons_eq_if_modifyHead]
    by_cases leading : c = slash
    case neg =>
      have other : ¬ (c == slash) = true := by simpa using leading
      rw [if_neg other, if_neg fun wrong => leading wrong.1,
        List.splitOnP_cons_eq_if_modifyHead, if_neg other, split, split']
      exact ⟨c :: word, words, words', rfl, rfl, same⟩
    case pos =>
      subst leading
      rw [if_pos (beq_self_eq_true slash)]
      by_cases again : path.head? = some slash
      · rw [if_pos ⟨rfl, again⟩, split, split']
        -- the word between the two slashes is empty
        have empty : word = [] := by
          obtain ⟨rest, rfl⟩ : ∃ rest, path = slash :: rest := by
            cases path with
            | nil => cases again
            | cons d rest => exact ⟨rest, congrArg (· :: rest) (Option.some.inj again)⟩
          rw [List.splitOnP_cons_eq_if_modifyHead, if_pos (beq_self_eq_true slash)] at split
          exact (List.cons.inj split).1.symm
        subst empty
        exact ⟨[], [] :: words, words', rfl, rfl, same⟩
      · rw [if_neg fun wrong => again wrong.2, List.splitOnP_cons_eq_if_modifyHead,
          if_pos (beq_self_eq_true slash), split, split']
        refine ⟨[], word :: words, word :: words', rfl, rfl, ?_⟩
        rw [List.filter_cons, List.filter_cons, same]

theorem components_collapse (path : Name) : components (collapse path) = components path := by
  obtain ⟨word, words, words', split, split', same⟩ := splitOn_collapse path
  unfold components
  rw [split, split', List.filter_cons, List.filter_cons, same]

theorem head?_collapse (path : Name) : (collapse path).head? = path.head? := by
  induction path with
  | nil => rfl
  | cons c path inductionHypothesis =>
    unfold collapse
    split
    case isTrue both => rw [inductionHypothesis, both.2, both.1, List.head?_cons]
    case isFalse => rfl

theorem components_trim (path : Name) : components (trim path) = components path := by
  induction path using List.reverseRecOn with
  | nil => rfl
  | append_singleton path c inductionHypothesis =>
    unfold trim at inductionHypothesis ⊢
    rw [List.rdropWhile_concat]
    split
    case isFalse => rfl
    case isTrue trailing =>
      rw [inductionHypothesis]
      unfold components List.splitOn
      have split : (path ++ [c]).splitOnP (· == slash) = path.splitOnP (· == slash) ++ [[]] :=
        List.splitOnP_append_cons path [] trailing
      rw [split, List.filter_append]
      change _ = List.map _ (_ ++ [])
      rw [List.append_nil]

theorem head?_trim (some : trim path ≠ []) : (trim path).head? = path.head? := by
  obtain ⟨rest, whole⟩ := List.rdropWhile_prefix (· == slash) path
  have head : (trim path ++ rest).head? = path.head? := congrArg List.head? whole
  rw [List.head?_append_of_ne_nil _ some] at head
  exact head

theorem length_collapse_le (path : Name) : (collapse path).length ≤ path.length := by
  induction path with
  | nil => exact le_rfl
  | cons c path inductionHypothesis =>
    unfold collapse
    split
    · exact inductionHypothesis.trans (Nat.le_succ _)
    · exact Nat.succ_le_succ inductionHypothesis

theorem length_trim_le (path : Name) : (trim path).length ≤ path.length :=
  (List.rdropWhile_prefix (· == slash) path).length_le

end Components

end Minix.Paths
