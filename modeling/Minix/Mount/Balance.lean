/-
This file proves that the looking up of a path gives up every inode that it gets, except for the one
that it returns, and leaves the super block table and the open devices alone.

What a call holds is counted from the tables that it started with. An inode that is mounted on stays
in use all the time, so it keeps its slot.
-/

import Minix.Mount.Path

namespace Minix.Mount

open Function (update update_of_ne update_self)
open Option (some.inj bind_eq_some_iff map_eq_some_iff)

/-! ### What a call holds -/

/-- A change of one count. -/
def only (rip : InodeNr) (change : Int) (q : InodeNr) : Int := if q = rip then change else 0

@[simp] theorem only_self (rip : InodeNr) (change : Int) : only rip change rip = change := if_pos rfl

theorem only_of_ne {rip q : InodeNr} (other : q ≠ rip) (change : Int) : only rip change q = 0 :=
  if_neg other

/-- One use of an inode that may be absent. -/
def heldBy (rip : Option InodeNr) : InodeNr → Int :=
  match rip with
  | none => 0
  | some rip => only rip 1

theorem heldBy_none : heldBy none = 0 := rfl

theorem heldBy_nonneg (rip : Option InodeNr) (q : InodeNr) : 0 ≤ heldBy rip q := by
  cases rip with
  | none => exact le_rfl
  | some rip =>
    unfold heldBy only
    dsimp only
    split <;> decide

/-- The tables are in order: no count is negative, an inode that is mounted on is in use and on a mounted device, and no
file system is mounted on its own root directory. -/
structure Consistent (s : State) : Prop where
  nonneg : ∀ rip, 0 ≤ (s.inode rip).count
  inUse : ∀ rip, (s.inode rip).mount = true → 0 < (s.inode rip).count
  placed : ∀ rip, (s.inode rip).mount = true →
    (s.inode rip).dev ≠ noDev ∧ ∃ sp, (s.superBlock sp).dev = (s.inode rip).dev
  apart : ∀ sp rip, (s.superBlock sp).imount = some rip → (s.inode rip).mount = true →
    (s.superBlock sp).dev = (s.inode rip).dev → (s.inode rip).num ≠ rootInode

/-- A call that has started with the tables of `s₀` holds some inodes, and has changed no super
block and no device. -/
structure Keeps (s₀ : State) (held : InodeNr → Int) (s : State) : Prop where
  nonneg : ∀ rip, 0 ≤ held rip
  count : ∀ rip, (s.inode rip).count = (s₀.inode rip).count + held rip
  superBlock : s.superBlock = s₀.superBlock
  opens : s.opens = s₀.opens
  mount : ∀ rip, (s.inode rip).mount = (s₀.inode rip).mount
  same : ∀ rip, (s₀.inode rip).mount = true →
    (s.inode rip).dev = (s₀.inode rip).dev ∧ (s.inode rip).num = (s₀.inode rip).num

section Keeps

variable {env : Environment} {fp : Process} {fuel : Nat} {s₀ s s' : State}
  {held more : InodeNr → Int} {rip dirp : InodeNr} {r : Option InodeNr}

theorem Keeps.refl (s : State) : Keeps s 0 s :=
  ⟨fun _ => le_rfl, fun _ => (add_zero _).symm, rfl, rfl, fun _ => rfl, fun _ _ => ⟨rfl, rfl⟩⟩

section

variable (keeps : Keeps s₀ held s)
include keeps

theorem Keeps.disk (disk : Dev → Disk.Device) :
    Keeps s₀ held { s with disk := disk } :=
  ⟨keeps.nonneg, keeps.count, keeps.superBlock, keeps.opens, keeps.mount, keeps.same⟩

theorem Keeps.errCode (code : Int) :
    Keeps s₀ held { s with errCode := code } :=
  ⟨keeps.nonneg, keeps.count, keeps.superBlock, keeps.opens, keeps.mount, keeps.same⟩

theorem Keeps.setInode {node : Inode} (nonneg : ∀ q, 0 ≤ held q + more q)
    (count : node.count = (s.inode rip).count + more rip) (others : ∀ q, q ≠ rip → more q = 0)
    (mount : node.mount = (s.inode rip).mount)
    (same : (s₀.inode rip).mount = true →
      node.dev = (s.inode rip).dev ∧ node.num = (s.inode rip).num) :
    Keeps s₀ (held + more) (s.setInode rip node) := by
  have elsewhere (q : InodeNr) (other : q ≠ rip) : (s.setInode rip node).inode q = s.inode q :=
    update_of_ne other _ _
  have here : (s.setInode rip node).inode rip = node := update_self _ _ _
  refine ⟨nonneg, fun q => ?_, keeps.superBlock, keeps.opens, fun q => ?_, fun q mounted => ?_⟩ <;>
    obtain rfl | other := eq_or_ne q rip
  · rw [here, count, keeps.count, Pi.add_apply, add_assoc]
  · rw [elsewhere q other, keeps.count, Pi.add_apply, others q other, add_zero]
  · exact (congrArg Inode.mount here).trans (mount.trans (keeps.mount q))
  · rw [elsewhere q other, keeps.mount]
  · rw [here, (same mounted).1, (same mounted).2]
    exact keeps.same q mounted
  · rw [elsewhere q other]
    exact keeps.same q mounted

theorem Keeps.addCount {change : Int} (nonneg : ∀ q, 0 ≤ held q + only rip change q) :
    Keeps s₀ (held + only rip change) (s.addCount rip change) := by
  refine keeps.setInode nonneg ?_ (fun q other => only_of_ne other change) rfl
    fun _ => ⟨rfl, rfl⟩
  rw [only_self]

end

/-- `get_inode` hands out one reference, to the inode asked for. -/
theorem getInode_keeps (consistent : Consistent s₀) (keeps : Keeps s₀ held s) {dev : Dev}
    {numb : UInt16} (got : getInode s dev numb = some (s', r)) :
    Keeps s₀ (held + heldBy r) s' ∧
      ∀ q, r = some q → (s'.inode q).dev = dev ∧ (s'.inode q).num = numb := by
  have more (q : InodeNr) : 0 ≤ held q + heldBy r q :=
    add_nonneg (keeps.nonneg q) (heldBy_nonneg r q)
  unfold getInode at got
  split at got
  case h_1 rip found =>
    obtain ⟨rfl, rfl⟩ := Prod.mk.inj (some.inj got)
    refine ⟨keeps.addCount more, fun q same => ?_⟩
    obtain rfl := some.inj same
    have met := List.find?_some found
    simp only [Bool.and_eq_true, beq_iff_eq] at met
    unfold State.addCount State.setInode
    dsimp only
    rw [update_self]
    exact ⟨met.1.2, met.2⟩
  case h_2 =>
    split at got
    case h_1 =>
      obtain ⟨rfl, rfl⟩ := Prod.mk.inj (some.inj got)
      rw [heldBy_none, add_zero]
      exact ⟨keeps.errCode enfile, fun q wrong => by cases wrong⟩
    case h_2 xp found =>
      have free : (s.inode xp).count ≤ 0 := by
        have met := List.find?_some found
        exact of_decide_eq_true met
      have counted := keeps.count xp
      have holds := keeps.nonneg xp
      have unmounted : ¬ (s₀.inode xp).mount = true := fun mounted => by
        have inUse := consistent.inUse xp mounted
        omega
      have empty : (s.inode xp).count = 0 := by
        have nonneg := consistent.nonneg xp
        omega
      -- the slot is filled in, from the disk or not
      have filled (core : Disk.Inode) (sp : SuperNr) :
          some (s.setInode xp { s.inode xp with
            core := core, dev := dev, num := numb, count := 1, sp := sp }, some xp) =
              some (s', r) →
          Keeps s₀ (held + heldBy r) s' ∧
            ∀ q, r = some q → (s'.inode q).dev = dev ∧ (s'.inode q).num = numb := by
        intro got
        obtain ⟨rfl, rfl⟩ := Prod.mk.inj (some.inj got)
        refine ⟨keeps.setInode more ?_ (fun q other => only_of_ne other 1) rfl
          fun mounted => absurd mounted unmounted, fun q same => ?_⟩
        · dsimp only [heldBy]
          rw [empty, only_self, zero_add]
        · obtain rfl := some.inj same
          unfold State.setInode
          dsimp only
          rw [update_self]
          exact ⟨rfl, rfl⟩
      split at got
      · exact filled _ _ got
      · obtain ⟨sp, -, got⟩ := map_eq_some_iff.mp got
        exact filled _ _ (congrArg some got)

theorem putInode_keeps (keeps : Keeps s₀ (held + heldBy (some rip)) s)
    (nonneg : ∀ q, 0 ≤ held q) (put : putInode env s rip = some s') : Keeps s₀ held s' := by
  have less : held + heldBy (some rip) + only rip (-1) = held := by
    funext q
    simp only [heldBy, Pi.add_apply, only]
    split <;> omega
  have given : Keeps s₀ held (s.addCount rip (-1)) := by
    have given := @Keeps.addCount _ _ _ rip keeps (-1)
    rw [less] at given
    exact given fun q => le_of_le_of_eq (nonneg q) (congrFun less q).symm
  unfold putInode at put
  dsimp only at put
  split at put
  · obtain ⟨⟨core, disk⟩, -, rfl⟩ := map_eq_some_iff.mp put
    have kept (core : Disk.Inode) : Keeps s₀ held ((s.addCount rip (-1)).setInode rip
        { (s.addCount rip (-1)).inode rip with core := core, pipe := false }) := by
      rw [← add_zero held]
      refine given.setInode (fun q => ?_) (add_zero _).symm (fun _ _ => rfl) rfl
        fun _ => ⟨rfl, rfl⟩
      rw [Pi.zero_apply, add_zero]
      exact nonneg q
    exact (kept _).disk disk
  · exact some.inj put ▸ given

theorem putInode?_keeps (keeps : Keeps s₀ (held + heldBy r) s) (nonneg : ∀ q, 0 ≤ held q)
    (put : putInode? env s r = some s') : Keeps s₀ held s' := by
  cases r with
  | none =>
    obtain rfl := some.inj put
    rwa [heldBy_none, add_zero] at keeps
  | some rip => exact putInode_keeps keeps nonneg put

/-- A use that the call has had before is given up after another one was got. -/
theorem putInode_keeps_other (keeps : Keeps s₀ (held + heldBy (some rip) + heldBy r) s)
    (nonneg : ∀ q, 0 ≤ held q) (put : putInode env s rip = some s') :
    Keeps s₀ (held + heldBy r) s' := by
  rw [add_right_comm] at keeps
  exact putInode_keeps keeps (fun q => add_nonneg (nonneg q) (heldBy_nonneg r q)) put

/-! ### Directories -/

/-- A mounted file system is looked at instead of the directory that it is mounted on. -/
theorem forbidden_keeps (consistent : Consistent s₀) (keeps : Keeps s₀ held s) {result : Int}
    (checked : forbidden env fp s rip = some (s', result)) : Keeps s₀ held s' := by
  unfold forbidden at checked
  dsimp only at checked
  split at checked
  case isFalse =>
    obtain ⟨rfl, -⟩ := Prod.mk.inj (some.inj checked)
    exact keeps
  case isTrue mounted =>
    split at checked
    case h_1 =>
      obtain ⟨rfl, -⟩ := Prod.mk.inj (some.inj checked)
      exact keeps
    case h_2 sp found =>
      obtain ⟨⟨s₁, root⟩, got, checked⟩ := bind_eq_some_iff.mp checked
      obtain ⟨root, rfl, checked⟩ := bind_eq_some_iff.mp checked
      obtain ⟨kept, loaded⟩ := getInode_keeps consistent keeps got
      split at checked
      case isTrue same =>
        subst same
        have met := List.find?_some found
        simp only [Bool.and_eq_true, beq_iff_eq] at met
        obtain ⟨dev, num⟩ := loaded root rfl
        have marked : (s₀.inode root).mount = true := keeps.mount root ▸ mounted
        obtain ⟨dev', num'⟩ := kept.same root marked
        rw [keeps.superBlock] at met dev
        exact absurd (num'.symm.trans num)
          (consistent.apart sp root met.2 marked (dev.symm.trans dev'))
      case isFalse =>
        obtain ⟨s₂, put, same⟩ := map_eq_some_iff.mp checked
        obtain ⟨rfl, -⟩ := Prod.mk.inj same
        exact putInode_keeps kept keeps.nonneg put

theorem searchDir_keeps (consistent : Consistent s₀) (keeps : Keeps s₀ held s)
    {string : List UInt8} {found : Except Int UInt16}
    (searched : searchDir env fp s rip string = some (s', found)) : Keeps s₀ held s' := by
  unfold searchDir at searched
  split at searched
  · obtain ⟨rfl, -⟩ := Prod.mk.inj (some.inj searched)
    exact keeps
  · obtain ⟨⟨s₁, result⟩, checked, searched⟩ := bind_eq_some_iff.mp searched
    have kept := forbidden_keeps consistent keeps checked
    dsimp only at searched
    split at searched
    · obtain ⟨rfl, -⟩ := Prod.mk.inj (some.inj searched)
      exact kept
    · obtain ⟨entry, -, same⟩ := map_eq_some_iff.mp searched
      obtain ⟨rfl, -⟩ := Prod.mk.inj same
      exact kept

/-! ### Path names -/

section

variable (consistent : Consistent s₀) {path : Name}
include consistent

theorem enterMounted_keeps (nonneg : ∀ q, 0 ≤ held q) {r' : Option InodeNr}
    (keeps : Keeps s₀ (held + heldBy r) s) (entered : enterMounted env fuel s r = some (s', r')) :
    Keeps s₀ (held + heldBy r') s' := by
  induction fuel generalizing s r with
  | zero => cases r <;> cases entered
  | succ fuel inductionHypothesis =>
    cases r with
    | none =>
      obtain ⟨rfl, rfl⟩ := Prod.mk.inj (some.inj entered)
      exact keeps
    | some rip =>
      unfold enterMounted at entered
      split at entered
      case isFalse =>
        obtain ⟨rfl, rfl⟩ := Prod.mk.inj (some.inj entered)
        exact keeps
      case isTrue =>
        obtain ⟨sp, -, entered⟩ := bind_eq_some_iff.mp entered
        obtain ⟨s₁, put, entered⟩ := bind_eq_some_iff.mp entered
        obtain ⟨⟨s₂, root⟩, got, entered⟩ := bind_eq_some_iff.mp entered
        have without := putInode_keeps keeps nonneg put
        exact inductionHypothesis (getInode_keeps consistent without got).1 entered

/-- One step of a path takes one reference. -/
theorem advance_keeps {dir : Option InodeNr} {string : Name} (keeps : Keeps s₀ held s)
    (advanced : advance env fp fuel s dir string = some (s', r)) :
    Keeps s₀ (held + heldBy r) s' := by
  induction fuel generalizing s dir s' r held with
  | zero => cases advanced
  | succ fuel inductionHypothesis =>
    unfold advance at advanced
    split at advanced
    case isTrue =>
      obtain ⟨dirp, -, got⟩ := bind_eq_some_iff.mp advanced
      exact (getInode_keeps consistent keeps got).1
    case isFalse =>
      have absent (kept : Keeps s₀ held s') : Keeps s₀ (held + heldBy none) s' := by
        rwa [heldBy_none, add_zero]
      cases dir with
      | none =>
        obtain ⟨rfl, rfl⟩ := Prod.mk.inj (some.inj advanced)
        exact absent keeps
      | some dirp =>
        dsimp only at advanced
        obtain ⟨⟨s₁, found⟩, searched, advanced⟩ := bind_eq_some_iff.mp advanced
        have looked := searchDir_keeps consistent keeps searched
        cases found with
        | error code =>
          obtain ⟨rfl, rfl⟩ := Prod.mk.inj (some.inj advanced)
          exact absent (looked.errCode code)
        | ok numb =>
          dsimp only at advanced
          split at advanced
          case isTrue => exact (getInode_keeps consistent looked advanced).1
          case isFalse =>
            obtain ⟨⟨s₂, rip⟩, got, advanced⟩ := bind_eq_some_iff.mp advanced
            have opened := (getInode_keeps consistent looked got).1
            cases rip with
            | none =>
              obtain ⟨rfl, rfl⟩ := Prod.mk.inj (some.inj advanced)
              exact opened
            | some rip =>
              dsimp only at advanced
              split at advanced
              case h_1 => exact enterMounted_keeps consistent keeps.nonneg opened advanced
              case h_2 sp _ =>
                -- `..` of the root directory: go on from the file that it is mounted on
                obtain ⟨s₃, put, advanced⟩ := bind_eq_some_iff.mp advanced
                have closed := putInode_keeps opened keeps.nonneg put
                obtain ⟨imount, -, advanced⟩ := bind_eq_some_iff.mp advanced
                obtain ⟨⟨s₄, rip2⟩, got2, advanced⟩ := bind_eq_some_iff.mp advanced
                have outside := (getInode_keeps consistent closed got2).1
                obtain ⟨⟨s₅, above⟩, up, advanced⟩ := bind_eq_some_iff.mp advanced
                have both := inductionHypothesis outside up
                obtain ⟨s₆, put2, entered⟩ := bind_eq_some_iff.mp advanced
                rw [add_right_comm] at both
                have alone := putInode?_keeps both (fun q =>
                  add_nonneg (keeps.nonneg q) (heldBy_nonneg above q)) put2
                exact enterMounted_keeps consistent keeps.nonneg alone entered

theorem scanPath_keeps (nonneg : ∀ q, 0 ≤ held q) {last : Option (InodeNr × Name)}
    (keeps : Keeps s₀ (held + heldBy (some rip)) s)
    (scanned : scanPath env fp fuel s path rip = some (s', last)) :
    Keeps s₀ (held + heldBy (last.map Prod.fst)) s' := by
  induction fuel generalizing s path rip with
  | zero => cases scanned
  | succ fuel inductionHypothesis =>
    have absent {s : State} (kept : Keeps s₀ held s) :
        Keeps s₀ (held + heldBy ((none : Option (InodeNr × Name)).map Prod.fst)) s := by
      rw [Option.map_none, heldBy_none, add_zero]
      exact kept
    unfold scanPath at scanned
    split at scanned
    case h_1 =>
      obtain ⟨s₁, put, same⟩ := map_eq_some_iff.mp scanned
      obtain ⟨rfl, rfl⟩ := Prod.mk.inj same
      exact absent (putInode_keeps (keeps.errCode _) nonneg put)
    case h_2 string newName _ =>
      split at scanned
      case isTrue =>
        split at scanned
        case isTrue =>
          obtain ⟨rfl, rfl⟩ := Prod.mk.inj (some.inj scanned)
          exact keeps
        case isFalse =>
          obtain ⟨s₁, put, same⟩ := map_eq_some_iff.mp scanned
          obtain ⟨rfl, rfl⟩ := Prod.mk.inj same
          exact absent ((putInode_keeps keeps nonneg put).errCode _)
      case isFalse =>
        obtain ⟨⟨s₁, newIp⟩, advanced, scanned⟩ := bind_eq_some_iff.mp scanned
        obtain ⟨s₂, put, scanned⟩ := bind_eq_some_iff.mp scanned
        have next := putInode_keeps_other (advance_keeps consistent keeps advanced) nonneg put
        cases newIp with
        | none =>
          obtain ⟨rfl, rfl⟩ := Prod.mk.inj (some.inj scanned)
          exact next
        | some newIp => exact inductionHypothesis next scanned

section

variable (keeps : Keeps s₀ held s)
include keeps

theorem lastDir_keeps {last : Option (InodeNr × Name)}
    (found : lastDir env fp fuel s path = some (s', last)) :
    Keeps s₀ (held + heldBy (last.map Prod.fst)) s' := by
  unfold lastDir at found
  dsimp only at found
  generalize fp.start path = rip at found
  split at found
  · obtain ⟨rfl, rfl⟩ := Prod.mk.inj (some.inj found)
    rw [Option.map_none, heldBy_none, add_zero]
    exact keeps.errCode enoent
  · refine scanPath_keeps consistent keeps.nonneg ?_ found
    exact keeps.addCount fun q => add_nonneg (keeps.nonneg q) (heldBy_nonneg (some _) q)

theorem eatPath_keeps (eaten : eatPath env fp fuel s path = some (s', r)) :
    Keeps s₀ (held + heldBy r) s' := by
  unfold eatPath at eaten
  obtain ⟨⟨s₁, last⟩, found, eaten⟩ := bind_eq_some_iff.mp eaten
  have kept := lastDir_keeps consistent keeps found
  cases last with
  | none =>
    obtain ⟨rfl, rfl⟩ := Prod.mk.inj (some.inj eaten)
    exact kept
  | some last =>
    obtain ⟨ldip, string⟩ := last
    dsimp only at eaten
    split at eaten
    · obtain ⟨rfl, rfl⟩ := Prod.mk.inj (some.inj eaten)
      exact kept
    · obtain ⟨⟨s₂, rip⟩, advanced, eaten⟩ := bind_eq_some_iff.mp eaten
      obtain ⟨s₃, put, same⟩ := map_eq_some_iff.mp eaten
      obtain ⟨rfl, rfl⟩ := Prod.mk.inj same
      exact putInode_keeps_other (advance_keeps consistent kept advanced) keeps.nonneg put

theorem nameToDev_keeps {dev : Dev} (named : nameToDev env fp fuel s path = some (s', dev)) :
    Keeps s₀ held s' := by
  unfold nameToDev at named
  obtain ⟨⟨s₁, rip⟩, eaten, named⟩ := bind_eq_some_iff.mp named
  have kept := eatPath_keeps consistent keeps eaten
  cases rip with
  | none =>
    obtain ⟨rfl, -⟩ := Prod.mk.inj (some.inj named)
    rwa [heldBy_none, add_zero] at kept
  | some rip =>
    dsimp only at named
    split at named
    · obtain ⟨s₂, put, same⟩ := map_eq_some_iff.mp named
      obtain ⟨rfl, -⟩ := Prod.mk.inj same
      exact putInode_keeps (kept.errCode _) keeps.nonneg put
    · obtain ⟨s₂, put, same⟩ := map_eq_some_iff.mp named
      obtain ⟨rfl, -⟩ := Prod.mk.inj same
      exact putInode_keeps kept keeps.nonneg put

end

end

end Keeps

end Minix.Mount
