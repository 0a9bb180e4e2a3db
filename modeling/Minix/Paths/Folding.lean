/-
This file proves that `eat_path` is the fold of `advance` over the components of the path, from the
root directory or the working directory of the process.

There are two exceptions by design: an empty path and a directory that has been removed give
`ENOENT`.
-/

import Minix.Library.Fuel
import Minix.Paths.Components

namespace Minix.Paths

open Mount Library

variable {env : Environment} {fp : Process} {fuel : Nat} {s s' : State} {path : Name}
  {rip : InodeNr} {out : State × Option InodeNr}

/-! ### The fold -/

/-- Go on from an inode to the one that a component leads to; an error ends the way. -/
def stepTo (env : Environment) (fp : Process) (fuel : Nat) (place : State × Option InodeNr)
    (string : Name) : Option (State × Option InodeNr) :=
  match place with
  | (s, none) => some (s, none)
  | (s, some rip) =>
    (advance env fp fuel s (some rip) string).bind fun (s, newIp) =>
      (putInode env s rip).map fun s => (s, newIp)

/-- The fold of `advance` over some components. -/
def walk (env : Environment) (fp : Process) (fuel : Nat) (s : State) (rip : InodeNr)
    (names : List Name) : Option (State × Option InodeNr) :=
  names.foldlM (stepTo env fp fuel) (s, some rip)

/-- What giving up an inode does to the disk does not depend on the error that was noted. -/
def IgnoresError (env : Environment) : Prop :=
  ∀ (s : State) node code, env.release { s with errCode := code } node = env.release s node

/-! ### More fuel -/

theorem enterMounted_steady (s : State) (rip : Option InodeNr) :
    Steady fun fuel => enterMounted env fuel s rip := by
  intro fuel
  induction fuel generalizing s rip with
  | zero => exact fun _ none => by cases none
  | succ fuel inductionHypothesis =>
    cases rip with
    | none => exact .refl _
    | some rip =>
      dsimp only
      rw [enterMounted, enterMounted]
      split
      · exact (Below.refl _).bind fun sp => (Below.refl _).bind fun s =>
          (Below.refl _).bind fun found => inductionHypothesis _ _
      · exact .refl _

theorem advance_steady (s : State) (dirp : Option InodeNr) (string : Name) :
    Steady fun fuel => advance env fp fuel s dirp string := by
  intro fuel
  induction fuel generalizing s dirp with
  | zero => exact fun _ none => by cases none
  | succ fuel inductionHypothesis =>
    dsimp only
    unfold advance
    split
    · exact .refl _
    cases dirp with
    | none => exact .refl _
    | some dirp =>
      dsimp only
      refine (Below.refl _).bind fun searched => ?_
      split
      · exact .refl _
      split
      · exact .refl _
      refine (Below.refl _).bind fun opened => ?_
      split
      · exact .refl _
      split
      · exact enterMounted_steady _ _ fuel
      · exact (Below.refl _).bind fun s => (Below.refl _).bind fun imount =>
          (Below.refl _).bind fun parent => (inductionHypothesis _ _).bind fun above =>
            (Below.refl _).bind fun s => enterMounted_steady _ _ fuel

theorem stepTo_steady (place : State × Option InodeNr) (string : Name) :
    Steady fun fuel => stepTo env fp fuel place string := by
  intro fuel
  obtain ⟨s, rip⟩ := place
  cases rip with
  | none => exact .refl _
  | some rip => exact (advance_steady s (some rip) string fuel).bind fun _ => .refl _

theorem walk_steady (s : State) (rip : InodeNr) (names : List Name) :
    Steady fun fuel => walk env fp fuel s rip names :=
  Steady.foldlM stepTo_steady names (s, some rip)

theorem foldlM_none (names : List Name) :
    names.foldlM (stepTo env fp fuel) (s, none) = some (s, none) := by
  induction names with
  | nil => rfl
  | cons name names inductionHypothesis => exact inductionHypothesis

theorem walk_cons (s : State) (rip : InodeNr) (name : Name) (names : List Name) :
    walk env fp fuel s rip (name :: names) =
      (advance env fp fuel s (some rip) name).bind fun (s, newIp) =>
        (putInode env s rip).bind fun s =>
          match newIp with
          | none => some (s, none)
          | some newIp => walk env fp fuel s newIp names := by
  unfold walk
  rw [List.foldlM_cons]
  change ((advance env fp fuel s (some rip) name).bind _).bind _ = _
  rw [Option.bind_assoc]
  refine Option.bind_congr fun found _ => ?_
  obtain ⟨s, newIp⟩ := found
  rw [Option.bind_map]
  refine Option.bind_congr fun s _ => ?_
  cases newIp with
  | none => exact foldlM_none names
  | some newIp => rfl

/-! ### The last directory -/

theorem scanPath_steady (s : State) (path : Name) (rip : InodeNr) :
    Steady fun fuel => scanPath env fp fuel s path rip := by
  intro fuel
  induction fuel generalizing s path rip with
  | zero => exact fun _ none => by cases none
  | succ fuel inductionHypothesis =>
    dsimp only
    unfold scanPath
    split
    · exact .refl _
    split
    · exact .refl _
    · refine (advance_steady _ _ _ fuel).bind fun found => (Below.refl _).bind fun s => ?_
      split
      · exact .refl _
      · exact inductionHypothesis _ _ _

theorem scanPath_last (fits : path.length < pathMax) {string : Name}
    (last : components path = [] ∧ string = [] ∨ components path = [string])
    {reply : State × Option (InodeNr × Name)} :
    Returns (fun fuel => scanPath env fp fuel s path rip) reply ↔
      (if (s.inode rip).fileType = .directory then some (s, some (rip, string))
        else (putInode env s rip).map fun s => ({ s with errCode := enotdir }, none)) =
          some reply := by
  obtain ⟨word, rest, cut, -, empty, shape⟩ := getName_eq fits
  have ends : rest = [] ∧ word = string := by
    obtain ⟨nothing, rfl, rfl⟩ | ⟨-, some, same⟩ := shape
    · obtain ⟨-, rfl⟩ | one := last
      · exact ⟨rfl, rfl⟩
      · rw [nothing] at one
        cases one
    · obtain ⟨nothing, -⟩ | one := last
      · rw [nothing] at same
        cases same
      · rw [one] at same
        obtain ⟨rfl, none⟩ := List.cons.inj same
        exact ⟨empty.mpr none.symm, rfl⟩
  obtain ⟨rfl, rfl⟩ := ends
  rw [← (scanPath_steady s path rip).returns_succ, ← returns_const]
  refine exists_congr fun fuel => ?_
  dsimp only
  rw [scanPath.eq_def]
  dsimp only
  rw [cut]
  dsimp only
  rw [if_pos rfl]

theorem scanPath_more (fits : path.length < pathMax) {name next : Name} {names : List Name}
    (more : components path = name :: next :: names) : ∃ rest : Name,
    rest.length < pathMax ∧ components rest = next :: names ∧
    ∀ s rip, Returns (fun fuel => scanPath env fp fuel s path rip) =
      Returns (fun fuel => (advance env fp fuel s (some rip) name).bind fun (s, newIp) =>
        (putInode env s rip).bind fun s =>
          match newIp with
          | none => some (s, none)
          | some newIp => scanPath env fp fuel s rest newIp) := by
  obtain ⟨word, rest, cut, shorter, empty, shape⟩ := getName_eq fits
  obtain ⟨nothing, -⟩ | ⟨-, -, same⟩ := shape
  · rw [nothing] at more
    cases more
  rw [more] at same
  obtain ⟨rfl, left⟩ := List.cons.inj same
  have going : rest ≠ [] := fun none => by
    rw [empty.mp none] at left
    cases left
  refine ⟨rest, shorter.trans_lt fits, left.symm, fun s rip => funext fun reply => propext ?_⟩
  rw [← (scanPath_steady s path rip).returns_succ]
  refine exists_congr fun fuel => ?_
  dsimp only
  rw [scanPath.eq_def]
  dsimp only
  rw [cut]
  dsimp only
  split
  case isTrue none => exact absurd none going
  case isFalse => exact Iff.rfl

/-! ### The end of `eat_path` -/

/-- Get the final component of the path. -/
def finalStep (env : Environment) (fp : Process) (fuel : Nat)
    (place : State × Option (InodeNr × Name)) : Option (State × Option InodeNr) :=
  match place with
  | (s, none) => some (s, none)
  | (s, some (ldip, string)) =>
    if string = [] then some (s, some ldip)
    else
      (advance env fp fuel s (some ldip) string).bind fun (s, rip) =>
        (putInode env s ldip).map fun s => (s, rip)

theorem finalStep_steady (place : State × Option (InodeNr × Name)) :
    Steady fun fuel => finalStep env fp fuel place := by
  intro fuel
  obtain ⟨s, last⟩ := place
  cases last with
  | none => exact .refl _
  | some last =>
    obtain ⟨ldip, string⟩ := last
    dsimp only [finalStep]
    split
    · exact .refl _
    · exact (advance_steady _ _ _ fuel).bind fun _ => .refl _

theorem putInode_errCode (ignores : IgnoresError env) (s : State) (rip : InodeNr) (code : Int) :
    putInode env { s with errCode := code } rip =
      (putInode env s rip).map fun s => { s with errCode := code } := by
  unfold putInode
  dsimp only [State.addCount, State.setInode]
  split
  · rw [Option.map_map]
    have same := ignores { s with
      inode := Function.update s.inode rip { s.inode rip with count := (s.inode rip).count + -1 } }
      (Function.update s.inode rip { s.inode rip with count := (s.inode rip).count + -1 } rip) code
    rw [same]
    rfl
  · rfl

theorem advance_file (file : (s.inode rip).fileType ≠ .directory) {string : Name}
    (some' : string ≠ []) :
    advance env fp (fuel + 1) s (some rip) string = some ({ s with errCode := enotdir }, none) := by
  unfold advance
  rw [if_neg some']
  dsimp only
  unfold searchDir
  rw [if_pos file]
  rfl

/-- The scan of a path is the walk over its components. -/
theorem scan_walk (ignores : IgnoresError env) (names : List Name) {name : Name}
    (s : State) (path : Name) (rip : InodeNr)
    (fits : path.length < pathMax) (some' : name ≠ []) (parts : components path = name :: names) :
    Returns (fun fuel => (scanPath env fp fuel s path rip).bind (finalStep env fp fuel)) out ↔
      Returns (fun fuel => walk env fp fuel s rip (name :: names)) out := by
  rw [(scanPath_steady s path rip).returns_bind finalStep_steady]
  induction names generalizing name s path rip with
  | nil =>
    simp only [scanPath_last fits (.inr parts)]
    by_cases file : (s.inode rip).fileType = .directory
    · have final : Returns (fun fuel => finalStep env fp fuel (s, some (rip, name))) out ↔
          Returns (fun fuel => walk env fp fuel s rip [name]) out := by
        refine exists_congr fun fuel => ?_
        dsimp only [finalStep]
        rw [walk_cons, if_neg some']
        refine Eq.congr (Option.bind_congr fun found _ => ?_) rfl
        obtain ⟨s₁, newIp⟩ := found
        rw [Option.map_eq_bind]
        refine Option.bind_congr fun s₂ _ => ?_
        cases newIp <;> rfl
      rw [if_pos file, ← final]
      constructor
      · rintro ⟨reply, same, result⟩
        obtain rfl := Option.some.inj same
        exact result
      · exact fun result => ⟨_, rfl, result⟩
    · have single (fuel : Nat) : walk env fp (fuel + 1) s rip [name] =
          (putInode env s rip).map fun s => ({ s with errCode := enotdir }, none) := by
        rw [walk_cons, advance_file file some', Option.bind_some]
        dsimp only
        rw [putInode_errCode ignores, Option.bind_map]
        exact Option.map_eq_bind.symm
      rw [if_neg file, ← (walk_steady s rip [name]).returns_succ]
      simp only [single]
      rw [returns_const]
      constructor
      · rintro ⟨reply, same, result⟩
        obtain ⟨s', put, rfl⟩ := Option.map_eq_some_iff.mp same
        rw [put, ← returns_const.mp result]
        rfl
      · intro same
        obtain ⟨s', put, rfl⟩ := Option.map_eq_some_iff.mp same
        rw [put]
        exact ⟨_, rfl, 0, rfl⟩
  | cons next names inductionHypothesis =>
    obtain ⟨rest, fits', parts', more⟩ := @scanPath_more env fp path fits name next names parts
    have going : next ≠ [] := components_ne_nil (parts' ▸ List.mem_cons_self)
    simp only [more, walk_cons s rip name]
    have first : Steady fun fuel => advance env fp fuel s (some rip) name := advance_steady s _ name
    have scans (found : State × Option InodeNr) : Steady fun fuel =>
        (putInode env found.1 rip).bind fun s =>
          match found.2 with
          | none => some (s, none)
          | some newIp => scanPath env fp fuel s rest newIp := by
      refine (Steady.const _).bind fun s => ?_
      cases found.2 with
      | none => exact .const _
      | some newIp => exact scanPath_steady s rest newIp
    have walks (found : State × Option InodeNr) : Steady fun fuel =>
        (putInode env found.1 rip).bind fun s =>
          match found.2 with
          | none => some (s, none)
          | some newIp => walk env fp fuel s newIp (next :: names) := by
      refine (Steady.const _).bind fun s => ?_
      cases found.2 with
      | none => exact .const _
      | some newIp => exact walk_steady s newIp (next :: names)
    constructor
    · rintro ⟨reply, scanned, final⟩
      obtain ⟨found, advanced, scanned⟩ := (first.returns_bind scans).mp scanned
      refine (first.returns_bind walks).mpr ⟨found, advanced, ?_⟩
      obtain ⟨fuel, scanned⟩ := scanned
      obtain ⟨s₂, put, scanned⟩ := Option.bind_eq_some_iff.mp scanned
      simp only [put, Option.bind_some]
      cases target : found.2 with
      | none =>
        rw [target] at scanned
        obtain rfl := Option.some.inj scanned
        exact final
      | some newIp =>
        rw [target] at scanned
        exact (inductionHypothesis s₂ rest newIp fits' going parts').mp
          ⟨reply, ⟨fuel, scanned⟩, final⟩
    · intro walked
      obtain ⟨found, advanced, walked⟩ := (first.returns_bind walks).mp walked
      obtain ⟨fuel, walked⟩ := walked
      obtain ⟨s₂, put, walked⟩ := Option.bind_eq_some_iff.mp walked
      cases target : found.2 with
      | none =>
        rw [target] at walked
        refine ⟨(s₂, none), (first.returns_bind scans).mpr ⟨found, advanced, ?_⟩, 0, walked⟩
        simp only [put, Option.bind_some, target]
        exact ⟨0, rfl⟩
      | some newIp =>
        rw [target] at walked
        obtain ⟨reply, scanned, final⟩ :=
          (inductionHypothesis s₂ rest newIp fits' going parts').mpr ⟨fuel, walked⟩
        refine ⟨reply, (first.returns_bind scans).mpr ⟨found, advanced, ?_⟩, final⟩
        simp only [put, Option.bind_some, target]
        exact scanned

end Minix.Paths
