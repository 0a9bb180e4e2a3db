/-
This file proves that `eat_path` depends on the components of a path only, and that `last_dir`,
followed by `advance` on the last component, does the same.

The path has to be one that `fetch_name` lets through, of less than `PATH_MAX` characters. An empty
path and a starting directory that has been removed give `ENOENT`, whatever the components are.
-/

import Minix.Mount.Failed
import Minix.Paths.Folding

namespace Minix.Paths

open Function (update update_of_ne update_self update_eq_self update_idem)
open Mount Library

variable {env : Environment} {fp : Process} {fuel : Nat} {s s' : State} {path : Name}
  {rip ldip : InodeNr} {string : Name}

/-! ### The open inode -/

/-- The inode is in use, and no other slot holds the same file. -/
structure Alone (s : State) (rip : InodeNr) : Prop where
  used : 0 < (s.inode rip).count
  only : ∀ other, 0 < (s.inode other).count → (s.inode other).dev = (s.inode rip).dev →
    (s.inode other).num = (s.inode rip).num → other = rip

theorem getInode_open (alone : Alone s rip) :
    getInode s (s.inode rip).dev (s.inode rip).num = some (s.addCount rip 1, some rip) := by
  have found : (List.finRange nrInodes).find? (fun other =>
      decide (0 < (s.inode other).count) && (s.inode other).dev == (s.inode rip).dev &&
        (s.inode other).num == (s.inode rip).num) = some rip := by
    cases search : (List.finRange nrInodes).find? (fun other =>
        decide (0 < (s.inode other).count) && (s.inode other).dev == (s.inode rip).dev &&
          (s.inode other).num == (s.inode rip).num) with
    | none =>
      rw [List.find?_eq_none] at search
      have wrong := search rip (List.mem_finRange rip)
      rw [decide_eq_true alone.used, beq_self_eq_true, beq_self_eq_true] at wrong
      exact absurd rfl wrong
    | some other =>
      have same := List.find?_some search
      simp only [Bool.and_eq_true, decide_eq_true_eq, beq_iff_eq] at same
      rw [alone.only other same.1.1 same.1.2 same.2]
  unfold getInode
  rw [found]

theorem addCount_self (change : Int) : (s.addCount rip change).inode rip =
    { s.inode rip with count := (s.inode rip).count + change } := update_self ..

theorem addCount_other {other : InodeNr} (change : Int) (different : other ≠ rip) :
    (s.addCount rip change).inode other = s.inode other := update_of_ne different ..

theorem alone_dupInode (alone : Alone s rip) : Alone (dupInode s rip) rip := by
  unfold dupInode
  have kept (other : InodeNr) (used : 0 < ((s.addCount rip 1).inode other).count) :
      0 < (s.inode other).count ∧ ((s.addCount rip 1).inode other).dev = (s.inode other).dev ∧
        ((s.addCount rip 1).inode other).num = (s.inode other).num := by
    by_cases same : other = rip
    · subst same
      rw [addCount_self]
      exact ⟨alone.used, rfl, rfl⟩
    · rw [addCount_other 1 same] at used ⊢
      exact ⟨used, rfl, rfl⟩
  constructor
  · rw [addCount_self]
    exact Int.lt_add_one_of_le alone.used.le
  · intro other more dev num
    obtain ⟨used, sameDev, sameNum⟩ := kept other more
    rw [sameDev, addCount_self] at dev
    rw [sameNum, addCount_self] at num
    exact alone.only other used dev num

/-- An inode in use that is opened once more and given up again is as before. -/
theorem putInode_addCount (used : 0 < (s.inode rip).count) :
    putInode env (s.addCount rip 1) rip = some s := by
  have same : (s.addCount rip 1).addCount rip (-1) = s := by
    have node : { (s.addCount rip 1).inode rip with
        count := ((s.addCount rip 1).inode rip).count + -1 } = s.inode rip := by
      rw [addCount_self, Int.add_neg_cancel_right]
    change (s.addCount rip 1).setInode rip { (s.addCount rip 1).inode rip with
      count := ((s.addCount rip 1).inode rip).count + -1 } = s
    rw [node]
    change { s with inode := update (update s.inode rip _) rip (s.inode rip) } = s
    rw [update_idem, update_eq_self]
  unfold putInode
  rw [same]
  exact if_neg used.ne'

/-! ### The last directory and the last component -/

/-- Look up the last component. -/
def lastStep (env : Environment) (fp : Process) (fuel : Nat)
    (place : State × Option (InodeNr × Name)) : Option (State × Option InodeNr) :=
  match place with
  | (s, none) => some (s, none)
  | (s, some (ldip, string)) =>
    (advance env fp fuel s (some ldip) string).bind fun (s, rip) =>
      (putInode env s ldip).map fun s => (s, rip)

theorem lastStep_steady (place : State × Option (InodeNr × Name)) :
    Steady fun fuel => lastStep env fp fuel place := by
  intro fuel
  obtain ⟨s, last⟩ := place
  cases last with
  | none => exact .refl _
  | some last => exact (advance_steady _ _ _ fuel).bind fun _ => .refl _

/-- `last_dir`, and then `advance` on the last component. -/
def advanceLast (env : Environment) (fp : Process) (fuel : Nat) (s : State) (path : Name) :
    Option (State × Option InodeNr) :=
  (lastDir env fp fuel s path).bind (lastStep env fp fuel)

theorem scanPath_named (fits : path.length < pathMax) (parts : components path ≠ [])
    (scanned : scanPath env fp fuel s path rip = some (s', some (ldip, string))) : string ≠ [] := by
  induction fuel generalizing s path rip with
  | zero => cases scanned
  | succ fuel inductionHypothesis =>
    obtain ⟨word, rest, cut, shorter, empty, shape⟩ := getName_eq fits
    obtain ⟨nothing, -⟩ | ⟨-, some', -⟩ := shape
    · exact absurd nothing parts
    rw [scanPath.eq_def] at scanned
    dsimp only at scanned
    rw [cut] at scanned
    dsimp only at scanned
    by_cases done : rest = []
    · rw [if_pos done] at scanned
      by_cases directory : (s.inode rip).fileType = .directory
      · rw [if_pos directory] at scanned
        cases scanned
        exact some'
      · rw [if_neg directory] at scanned
        obtain ⟨_, _, wrong⟩ := Option.map_eq_some_iff.mp scanned
        cases wrong
    · rw [if_neg done] at scanned
      obtain ⟨⟨s₁, newIp⟩, -, scanned⟩ := Option.bind_eq_some_iff.mp scanned
      obtain ⟨s₂, -, scanned⟩ := Option.bind_eq_some_iff.mp scanned
      cases newIp with
      | none => cases scanned
      | some newIp =>
        exact inductionHypothesis (shorter.trans_lt fits) (fun none => done (empty.mpr none))
          scanned

theorem lastDir_scan (begins : path ≠ []) (linked : (s.inode (fp.start path)).core.nlinks ≠ 0) :
    lastDir env fp fuel s path =
      scanPath env fp fuel (dupInode s (fp.start path)) path (fp.start path) := by
  unfold lastDir
  rw [if_neg (not_or.mpr ⟨linked, begins⟩)]

theorem eatPath_eq : eatPath env fp fuel s path =
    (lastDir env fp fuel s path).bind (finalStep env fp fuel) := by
  unfold eatPath
  refine Option.bind_congr fun found _ => ?_
  obtain ⟨s', last⟩ := found
  cases last <;> rfl

theorem start_slashes (begins : path ≠ []) (slashes : components path = []) :
    fp.start path = fp.rootdir := by
  unfold Process.start
  rw [if_pos]
  cases path with
  | nil => exact absurd rfl begins
  | cons c rest =>
    by_contra other
    rw [components_cons fun same => other (congrArg some same)] at slashes
    cases slashes

section EatPath

variable (ignores : IgnoresError env) (root : (s.inode fp.rootdir).fileType = .directory)
  (alone : Alone s fp.rootdir) (fits : path.length < pathMax) (begins : path ≠ [])
  (linked : (s.inode (fp.start path)).core.nlinks ≠ 0) {out : State × Option InodeNr}

include root in
theorem fileType_dupInode : ((dupInode s fp.rootdir).inode fp.rootdir).fileType = .directory := by
  unfold dupInode
  rw [addCount_self]
  exact root

include ignores root fits begins linked in
theorem returns_eatPath : Returns (fun fuel => eatPath env fp fuel s path) out ↔
    Returns (fun fuel => walk env fp fuel (dupInode s (fp.start path)) (fp.start path)
      (components path)) out := by
  simp only [eatPath_eq, lastDir_scan begins linked]
  cases parts : components path with
  | cons name names =>
    exact scan_walk ignores names _ path _ fits
      (components_ne_nil (parts ▸ List.mem_cons_self)) parts
  | nil =>
    rw [(scanPath_steady _ path _).returns_bind finalStep_steady]
    simp only [scanPath_last fits (.inl ⟨parts, rfl⟩), start_slashes begins parts]
    rw [if_pos (fileType_dupInode root)]
    constructor
    · rintro ⟨reply, same, result⟩
      obtain rfl := Option.some.inj same
      exact result
    · exact fun result => ⟨_, rfl, result⟩

include root alone fits begins linked in
/-- `last_dir`, followed by `advance` on the last component, does what `eat_path` does. -/
theorem returns_advanceLast : Returns (fun fuel => advanceLast env fp fuel s path) out ↔
    Returns (fun fuel => eatPath env fp fuel s path) out := by
  unfold advanceLast
  simp only [eatPath_eq, lastDir_scan begins linked]
  by_cases parts : components path = []
  case neg =>
    refine exists_congr fun fuel => Eq.congr (Option.bind_congr fun found scanned => ?_) rfl
    obtain ⟨s', last⟩ := found
    cases last with
    | none => rfl
    | some last =>
      obtain ⟨ldip, string⟩ := last
      exact (if_neg (scanPath_named fits parts scanned)).symm
  case pos =>
    have again : Alone (dupInode s fp.rootdir) fp.rootdir := alone_dupInode alone
    rw [(scanPath_steady _ path _).returns_bind lastStep_steady,
      (scanPath_steady _ path _).returns_bind finalStep_steady]
    simp only [scanPath_last fits (.inl ⟨parts, rfl⟩), start_slashes begins parts]
    rw [if_pos (fileType_dupInode root)]
    refine exists_congr fun reply => and_congr_right fun same => ?_
    obtain rfl := Option.some.inj same
    -- the root directory is opened once more and given up again
    rw [← (lastStep_steady _).returns_succ]
    refine exists_congr fun fuel => ?_
    dsimp only [lastStep, finalStep]
    unfold advance
    rw [if_pos rfl, Option.bind_some, getInode_open again, Option.bind_some]
    rw [putInode_addCount again.used]
    rfl

end EatPath

/-- `eat_path` gives `ENOENT` for an empty path and for a path that begins at a directory that has
been removed. For other paths, as `fetch_name` delivers them, it is the fold of `advance` over the
components, from the root directory or the working directory. It stays the same when runs of slashes
are collapsed, or when trailing slashes are removed and something is left; and `last_dir`, followed
by `advance` on the last component, does the same. -/
theorem eatPath_folds (ignores : IgnoresError env)
    (root : (s.inode fp.rootdir).fileType = .directory) (alone : Alone s fp.rootdir)
    (fits : path.length < pathMax) :
    ((path = [] ∨ (s.inode (fp.start path)).core.nlinks = 0) →
      ∀ fuel, eatPath env fp fuel s path = some ({ s with errCode := enoent }, none)) ∧
    (path ≠ [] → (s.inode (fp.start path)).core.nlinks ≠ 0 → ∀ out,
      (Returns (fun fuel => eatPath env fp fuel s path) out ↔
        Returns (fun fuel => walk env fp fuel (dupInode s (fp.start path)) (fp.start path)
          (components path)) out) ∧
      (Returns (fun fuel => eatPath env fp fuel s (collapse path)) out ↔
        Returns (fun fuel => eatPath env fp fuel s path) out) ∧
      (trim path ≠ [] → (Returns (fun fuel => eatPath env fp fuel s (trim path)) out ↔
        Returns (fun fuel => eatPath env fp fuel s path) out)) ∧
      (Returns (fun fuel => advanceLast env fp fuel s path) out ↔
        Returns (fun fuel => eatPath env fp fuel s path) out)) := by
  constructor
  · intro nothing fuel
    unfold eatPath lastDir
    rw [if_pos nothing.symm]
    rfl
  · intro begins linked out
    have fold := @returns_eatPath env fp s path ignores root fits begins linked out
    refine ⟨fold, ?_, fun left => ?_, returns_advanceLast root alone fits begins linked⟩
    · have start : fp.start (collapse path) = fp.start path := by
        unfold Process.start
        rw [head?_collapse]
      have some' : collapse path ≠ [] := fun none => begins <| by
        rw [← List.head?_eq_none_iff, ← head?_collapse, none]
        rfl
      rw [fold, returns_eatPath ignores root ((length_collapse_le path).trans_lt fits) some'
        (start.symm ▸ linked), start, components_collapse]
    · have start : fp.start (trim path) = fp.start path := by
        unfold Process.start
        rw [head?_trim left]
      rw [fold, returns_eatPath ignores root ((length_trim_le path).trans_lt fits) left
        (start.symm ▸ linked), start, components_trim]

/-! ### Paths on a small disk -/

theorem rootInode_lt : 0 < nrInodes := by decide

/-- The super-user in the root directory. -/
def smallUser : Process := ⟨0, 0, ⟨0, rootInode_lt⟩, ⟨0, rootInode_lt⟩⟩

theorem alone_smallTables : Alone smallTables smallUser.rootdir := by
  refine ⟨by decide, fun other used _ _ => Fin.ext ?_⟩
  by_contra different
  unfold smallTables at used
  dsimp only at used
  rw [if_neg (show ¬ other.val = 0 from different)] at used
  exact absurd used (by decide)

/-- `//d/` -/
theorem eatPath_folds_small :
    [slash, slash, 100, slash].length < pathMax ∧ components [slash, slash, 100, slash] = [[100]] ∧
      ∀ out, Returns (fun fuel => eatPath plain smallUser fuel smallTables
          [slash, slash, 100, slash]) out ↔
        Returns (fun fuel => walk plain smallUser fuel (dupInode smallTables smallUser.rootdir)
          smallUser.rootdir (components [slash, slash, 100, slash])) out :=
  ⟨by decide, by decide, fun out =>
    ((eatPath_folds (fun _ _ _ => rfl) (by decide) alone_smallTables (by decide)).2
      (by decide) (by decide) out).1⟩

/-- The empty path has no components, but `eat_path` does not give the working directory; and it
gives the root directory for `/`, but not for what is left of it without the trailing slash. -/
theorem empty_path_enoent :
    (¬ ∀ out, Returns (fun fuel => eatPath plain smallUser fuel smallTables []) out ↔
      Returns (fun fuel => walk plain smallUser fuel (dupInode smallTables smallUser.workdir)
        smallUser.workdir (components [])) out) ∧
    ¬ ∀ out, Returns (fun fuel => eatPath plain smallUser fuel smallTables (trim [slash])) out ↔
      Returns (fun fuel => eatPath plain smallUser fuel smallTables [slash]) out := by
  have nothing (fuel : Nat) : (eatPath plain smallUser fuel smallTables []).map Prod.snd =
      some none := rfl
  constructor
  · intro same
    obtain ⟨fuel, wrong⟩ :=
      (same (dupInode smallTables smallUser.workdir, some smallUser.workdir)).mpr ⟨0, rfl⟩
    have none' := (congrArg (Option.map Prod.snd) wrong).symm.trans (nothing fuel)
    exact Option.some_ne_none _ (Option.some.inj none')
  · intro same
    obtain ⟨fuel, wrong⟩ :=
      (same (dupInode smallTables smallUser.rootdir, some smallUser.rootdir)).mpr ⟨1, rfl⟩
    have none' := (congrArg (Option.map Prod.snd) wrong).symm.trans (nothing fuel)
    exact Option.some_ne_none _ (Option.some.inj none')

/-! ### Names in two parts -/

section Parts

variable {env : Environment} {fp : Process} {s : State} {path rest : Name}
  {out : State × Option InodeNr}

theorem components_append :
    components (path ++ slash :: rest) = components path ++ components rest := by
  unfold components List.splitOn
  rw [@List.splitOnP_append_cons _ (· == slash) path rest slash (beq_self_eq_true slash),
    List.filter_append, List.map_append]

/-- Path names compose: `eat_path` of two names with a slash between them is `eat_path` of the first
one, followed by the fold of `advance` over the components of the second one from there. Where the
first one ends with an error, that is the result. -/
theorem eatPath_append (ignores : IgnoresError env)
    (root : (s.inode fp.rootdir).fileType = .directory)
    (fits : (path ++ slash :: rest).length < pathMax) (begins : path ≠ [])
    (linked : (s.inode (fp.start path)).core.nlinks ≠ 0) :
    Returns (fun fuel => eatPath env fp fuel s (path ++ slash :: rest)) out ↔
      ∃ place, Returns (fun fuel => eatPath env fp fuel s path) place ∧
        Returns (fun fuel => (components rest).foldlM (stepTo env fp fuel) place) out := by
  have start : fp.start (path ++ slash :: rest) = fp.start path := by
    unfold Process.start
    rw [List.head?_append_of_ne_nil _ begins]
  have shorter : path.length < pathMax := by
    rw [List.length_append] at fits
    omega
  rw [returns_eatPath ignores root fits (by simp) (start.symm ▸ linked), start, components_append]
  simp only [returns_eatPath ignores root shorter begins linked]
  unfold walk
  simp only [List.foldlM_append]
  exact (Steady.foldlM stepTo_steady _ _).returns_bind fun place =>
    Steady.foldlM stepTo_steady (components rest) place

end Parts

/-- `/` and `d` -/
theorem eatPath_append_small : ∃ out place,
    Returns (fun fuel => eatPath plain smallUser fuel smallTables [slash, slash, 100]) out ∧
      Returns (fun fuel => eatPath plain smallUser fuel smallTables [slash]) place ∧
      Returns (fun fuel => (components [100]).foldlM (stepTo plain smallUser fuel) place) out := by
  have ends : (eatPath plain smallUser 3 smallTables [slash, slash, 100]).isSome = true := by decide
  obtain ⟨out, found⟩ := Option.isSome_iff_exists.mp ends
  obtain ⟨place, first, second⟩ := (@eatPath_append plain smallUser smallTables [slash] [100] out
    (fun _ _ _ => rfl) (by decide) (by decide) (by decide) (by decide)).mp ⟨3, found⟩
  exact ⟨out, place, ⟨3, found⟩, first, second⟩

end Minix.Paths
