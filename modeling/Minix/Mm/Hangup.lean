/-
This file proves when the death of a session leader sends `SIGHUP` to its process group.

`mm_exit` compares the pid of the dying process with the process group of the caller, which need not
be the group of the dying process, and sends the signals with the caller's permissions. So a leader
that another process kills can die without a hangup (`killed_leader_sends_no_hangup`).
-/

import Minix.Mm.Exit

namespace Minix.Mm.SigProc

open Function (update update_of_ne update_self)
open Kernel

/-! ### What stays in a slot -/

/-- The fields that say who the process is. -/
structure SameProcess (rmp rmp' : Mproc) : Prop where
  pid : rmp'.pid = rmp.pid
  procgrp : rmp'.procgrp = rmp.procgrp
  realuid : rmp'.realuid = rmp.realuid
  effuid : rmp'.effuid = rmp.effuid

theorem SameProcess.refl (rmp : Mproc) : SameProcess rmp rmp := ⟨rfl, rfl, rfl, rfl⟩

theorem SameProcess.trans {rmp rmp' rmp'' : Mproc} (first : SameProcess rmp rmp')
    (second : SameProcess rmp' rmp'') : SameProcess rmp rmp'' :=
  ⟨second.pid.trans first.pid, second.procgrp.trans first.procgrp,
    second.realuid.trans first.realuid, second.effuid.trans first.effuid⟩

/-- It is the same process, no less alive, and a child of the same parent. -/
structure SameLife (rmp rmp' : Mproc) : Prop extends SameProcess rmp rmp' where
  parent : rmp'.parent = rmp.parent
  live : rmp'.live = rmp.live

section Slot

variable {env : Answers} {rmp : Mproc} {signo : Nat}

theorem unpause_sameLife : SameLife rmp (unpause rmp) := by
  unfold unpause setreply
  split <;> exact ⟨⟨rfl, rfl, rfl, rfl⟩, rfl, rfl⟩

theorem SameLife.trans {rmp' rmp'' : Mproc} (first : SameLife rmp rmp')
    (second : SameLife rmp' rmp'') : SameLife rmp rmp'' :=
  ⟨first.toSameProcess.trans second.toSameProcess, second.parent.trans first.parent,
    second.live.trans first.live⟩

theorem defaultAction_sameLife : SameLife rmp (defaultAction rmp signo).1 := by
  unfold defaultAction
  split
  · exact ⟨.refl _, rfl, rfl⟩
  · dsimp only
    split <;> exact ⟨⟨rfl, rfl, rfl, rfl⟩, rfl, rfl⟩

/-- A signal does not change who the process is. If it is to die, that is left to `mm_exit`. -/
theorem sigProc_sameLife : SameLife rmp (sigProc env rmp signo).1 := by
  unfold sigProc
  split
  · refine unpause_sameLife.trans ?_
    unfold stopProc
    split <;> exact ⟨⟨rfl, rfl, rfl, rfl⟩, rfl, rfl⟩
  split
  · exact ⟨.refl _, rfl, rfl⟩
  split
  · exact ⟨⟨rfl, rfl, rfl, rfl⟩, rfl, rfl⟩
  split
  · split
    · exact ⟨⟨rfl, rfl, rfl, rfl⟩, rfl, rfl⟩
    · split
      · unfold callHandler
        refine SameLife.trans ?_ unpause_sameLife
        exact ⟨⟨rfl, rfl, rfl, rfl⟩, rfl, rfl⟩
      · exact defaultAction_sameLife
  · exact defaultAction_sameLife

theorem sigchld_spares : (sigProc env rmp sigchld).2 ≠ .terminated := by
  have ignored : (defaultAction rmp sigchld).2 = .done := by
    rw [defaultAction, if_pos (show sigismember ignSset sigchld = true by decide)]
  have settled : Outcome.done ≠ .terminated := by decide
  unfold sigProc
  split
  · unfold stopProc
    split
    · exact show Outcome.stopped ≠ .terminated by decide
    · exact settled
  split
  · exact settled
  split
  · exact settled
  split
  · split
    · exact settled
    · split
      · exact settled
      · exact ignored ▸ settled
  · exact ignored ▸ settled

end Slot

/-! ### What stays in the table -/

/-- The slots that were given `SIGHUP`. -/
def hangups (sent : List (Fin nrProcs × Nat)) : List (Fin nrProcs) :=
  (sent.filter fun signal => signal.2 == sighup).map Prod.fst

/-- The processes are the same, with their parents or adopted by `INIT`. Nobody comes to life, those
outside `dead` are as alive as before, and `SIGHUP` was sent to the given ones. -/
structure Spares (dead : Fin nrProcs → Prop) (hup : List (Fin nrProcs)) (k k' : Table) : Prop where
  mp : k'.mp = k.mp
  same : ∀ q, SameProcess (k.mproc q) (k'.mproc q)
  parent : ∀ q, (k'.mproc q).parent = (k.mproc q).parent ∨ (k'.mproc q).parent = initProcNr
  lives : ∀ q, (k'.mproc q).live = true → (k.mproc q).live = true
  live : ∀ q, ¬ dead q → (k'.mproc q).live = (k.mproc q).live
  sent : ∃ more, k'.sent = k.sent ++ more ∧ hangups more = hup

section Table

variable {k k' k'' : Table} {dead : Fin nrProcs → Prop} {hup more : List (Fin nrProcs)}
  {p child : Fin nrProcs} {f : Mproc → Mproc}

theorem Spares.refl (dead : Fin nrProcs → Prop) (k : Table) : Spares dead [] k k :=
  ⟨rfl, fun _ => .refl _, fun _ => .inl rfl, fun _ => id, fun _ _ => rfl, [],
    (List.append_nil _).symm, rfl⟩

theorem Spares.trans (first : Spares dead hup k k') (second : Spares dead more k' k'') :
    Spares dead (hup ++ more) k k'' := by
  obtain ⟨sent, grown, hung⟩ := first.sent
  obtain ⟨sent', grown', hung'⟩ := second.sent
  refine ⟨second.mp.trans first.mp, fun q => (first.same q).trans (second.same q), fun q => ?_,
    fun q alive => first.lives q (second.lives q alive),
    fun q alive => (second.live q alive).trans (first.live q alive), sent ++ sent', ?_, ?_⟩
  · obtain kept | adopted := second.parent q
    · exact kept ▸ first.parent q
    · exact .inr adopted
  · rw [grown', grown, List.append_assoc]
  · rw [hangups, List.filter_append, List.map_append]
    exact congrArg₂ _ hung hung'

theorem Spares.mono {dead' : Fin nrProcs → Prop} (spares : Spares dead hup k k')
    (weaker : ∀ q, dead q → dead' q) : Spares dead' hup k k' :=
  ⟨spares.mp, spares.same, spares.parent, spares.lives, fun q alive => spares.live q fun died => alive (weaker q died),
    spares.sent⟩

theorem modify_spares (same : SameProcess (k.mproc p) (f (k.mproc p)))
    (parent : (f (k.mproc p)).parent = (k.mproc p).parent ∨ (f (k.mproc p)).parent = initProcNr)
    (lives : (f (k.mproc p)).live = true → (k.mproc p).live = true)
    (live : ¬ dead p → (f (k.mproc p)).live = (k.mproc p).live) :
    Spares dead [] k (k.modify p f) := by
  have elsewhere (q : Fin nrProcs) (there : q ≠ p) : (k.modify p f).mproc q = k.mproc q :=
    update_of_ne there _ _
  have changed : (k.modify p f).mproc p = f (k.mproc p) := update_self _ _ _
  refine ⟨rfl, fun q => ?_, fun q => ?_, fun q => ?_, fun q alive => ?_, [],
    (List.append_nil _).symm, rfl⟩ <;> obtain rfl | there := eq_or_ne q p
  · exact changed.symm ▸ same
  · exact elsewhere q there ▸ .refl _
  · exact changed.symm ▸ parent
  · exact elsewhere q there ▸ .inl rfl
  · exact changed.symm ▸ lives
  · exact elsewhere q there ▸ id
  · exact changed.symm ▸ live alive
  · exact elsewhere q there ▸ rfl

theorem modify_sameLife (same : SameLife (k.mproc p) (f (k.mproc p))) :
    Spares dead [] k (k.modify p f) :=
  modify_spares same.toSameProcess (.inl same.parent) (fun alive => same.live ▸ alive)
    fun _ => same.live

theorem tellParent_spares : Spares dead [] k (tellParent k child) :=
  modify_sameLife ⟨⟨rfl, rfl, rfl, rfl⟩, rfl, rfl⟩

theorem cleanup_spares (died : ¬ dead child → (k.mproc child).live = false) :
    Spares dead [] k (cleanup k child) := by
  have told : Spares dead [] k (tellParent k child) := tellParent_spares
  refine told.trans (modify_spares ⟨rfl, rfl, rfl, rfl⟩ (.inl rfl) nofun fun alive => ?_)
  rw [told.live child alive, died alive]
  rfl

theorem disinherit_spares : Spares dead [] k (disinherit p k child) := by
  unfold disinherit
  split
  case isFalse => exact .refl dead k
  case isTrue =>
    have adopted : Spares dead []
        k (k.modify child fun rmp => { rmp with parent := initProcNr }) :=
      modify_spares ⟨rfl, rfl, rfl, rfl⟩ (.inr rfl) id fun _ => rfl
    dsimp only
    split
    case isFalse => exact adopted
    case isTrue waits =>
      refine adopted.trans (cleanup_spares fun _ => ?_)
      rw [Mproc.live, (Bool.and_eq_true_iff.mp waits).2, Bool.not_true, Bool.and_false]

theorem foldl_disinherit_spares (slots : List (Fin nrProcs)) :
    Spares dead [] k (slots.foldl (disinherit p) k) := by
  induction slots generalizing k with
  | nil => exact .refl dead k
  | cons child slots inductionHypothesis =>
    exact disinherit_spares.trans inductionHypothesis

end Table

/-! ### Signals that end no session -/

section Signals

variable {env : Nat → Bool × Bool} {fuel : Nat} {k k' : Table} {p : Fin nrProcs} {signo : Nat}

theorem given_spares {env : Answers} :
    Spares (fun _ => False) (if signo = sighup then [p] else []) k
      { k with
        mproc := update k.mproc p (sigProc env (k.mproc p) signo).1
        sent := k.sent ++ [(p, signo)] } := by
  have changed : Spares (fun _ => False) [] k
      (k.modify p fun rmp => (sigProc env rmp signo).1) := modify_sameLife sigProc_sameLife
  refine ⟨rfl, changed.same, changed.parent, changed.lives, changed.live, [(p, signo)], rfl, ?_⟩
  by_cases hup : signo = sighup
  · rw [if_pos hup, hup]
    rfl
  · rw [if_neg hup, hangups, List.filter_cons_of_neg (by simpa using hup)]
    rfl

theorem sigProcWith_live (exit : Table → Fin nrProcs → Option Table)
    (live : (k.mproc p).live = true) :
    ∃ k₁, Spares (fun _ => False) (if signo = sighup then [p] else []) k k₁ ∧
      (sigProcWith exit env k p signo = some k₁ ∨
        signo ≠ sigchld ∧ sigProcWith exit env k p signo = exit k₁ p) := by
  have given (answers : Answers) := @given_spares k p signo answers
  generalize (if signo = sighup then [p] else []) = hup at given ⊢
  unfold sigProcWith
  rw [if_pos live]
  dsimp only
  split
  · exact ⟨_, given _, .inl rfl⟩
  · by_cases waits : (k.mproc (k.mproc p).parent).waiting = true
    · refine ⟨_, ?_, .inl (congrArg some (if_pos waits))⟩
      rw [← List.append_nil hup]
      exact (given _).trans tellParent_spares
    · exact ⟨_, given _, .inl (congrArg some (if_neg waits))⟩
  case h_3 terminated =>
    refine ⟨_, given _, .inr ⟨?_, rfl⟩⟩
    rintro rfl
    exact sigchld_spares terminated

theorem sigProcWith_settled {exit : Table → Fin nrProcs → Option Table}
    (sent : sigProcWith exit env k p signo = some k') :
    ∃ k₁, Spares (fun _ => False) (if signo = sighup then [p] else []) k k₁ ∧
      (k₁ = k' ∨ signo ≠ sigchld ∧ exit k₁ p = some k') := by
  by_cases live : (k.mproc p).live = true
  · obtain ⟨k₁, spares, survived | ⟨other, left⟩⟩ := sigProcWith_live exit live
    · exact ⟨k₁, spares, .inl (Option.some.inj (survived.symm.trans sent))⟩
    · exact ⟨k₁, spares, .inr ⟨other, left.symm.trans sent⟩⟩
  · unfold sigProcWith at sent
    rw [if_neg live] at sent
    cases sent

theorem sendSignal_sigchld (sent : sendSignal env fuel k p sigchld = some k') :
    Spares (fun _ => False) [] k k' := by
  cases fuel with
  | zero => cases sent
  | succ fuel =>
    obtain ⟨k₁, spares, same | ⟨wrong, -⟩⟩ := sigProcWith_settled sent
    · exact same ▸ spares
    · exact absurd rfl wrong

/-- The dying process leaves the table, and its parent is told or gets `SIGCHLD`. -/
theorem release_spares (released : release (sendSignal env fuel) k p = some k') :
    Spares (· = p) [] k k' ∧ (k'.mproc p).live = false := by
  unfold release at released
  split at released
  · obtain rfl := Option.some.inj released
    refine ⟨cleanup_spares fun alive => absurd rfl alive, ?_⟩
    unfold cleanup Table.modify
    dsimp only
    rw [update_self]
    rfl
  · have zombie : Spares (· = p) [] k
        (k.modify p fun r => { clearFlags r with inUse := true, zombie := true }) :=
      modify_spares ⟨rfl, rfl, rfl, rfl⟩ (.inl rfl) nofun fun alive => absurd rfl alive
    have told := sendSignal_sigchld released
    refine ⟨zombie.trans (told.mono fun _ wrong => wrong.elim), ?_⟩
    rw [told.live p not_false, Table.modify]
    dsimp only
    rw [update_self]
    rfl

theorem mmExit_settled {exitStatus : Nat}
    (died : mmExit (sendSignal env fuel) k p exitStatus = some k') :
    ∃ k₁, Spares (· = p) [] k k₁ ∧ (k₁.mproc p).live = false ∧
      if hangupGroup k p = 0 then k₁ = k'
      else ∃ result, checkSig (sendSignal env fuel) k₁ (-hangupGroup k p) sighup =
        some (k', result) := by
  unfold mmExit at died
  obtain ⟨k₁, released, done⟩ := Option.bind_eq_some_iff.mp died
  have left : Spares (· = p) [] k (k.modify p (leave exitStatus)) :=
    modify_sameLife ⟨⟨rfl, rfl, rfl, rfl⟩, rfl, rfl⟩
  obtain ⟨spares, dead⟩ := release_spares released
  have orphaned : Spares (fun _ => False) [] k₁
      ((List.finRange nrProcs).foldl (disinherit p) k₁) := foldl_disinherit_spares _
  refine ⟨_, (left.trans spares).trans (orphaned.mono fun _ wrong => wrong.elim),
    (orphaned.live p not_false).trans dead, ?_⟩
  by_cases none : hangupGroup k p = 0
  · rw [if_neg (not_not.mpr none)] at done
    rw [if_pos none]
    exact Option.some.inj done
  · rw [if_pos none] at done
    obtain ⟨⟨after, result⟩, checked, rfl⟩ := Option.map_eq_some_iff.mp done
    rw [if_neg none]
    exact ⟨result, checked⟩

/-- A process that is not the leader of the caller's group dies without a hangup. -/
theorem mmExit_quiet {exitStatus : Nat} (other : hangupGroup k p = 0)
    (died : mmExit (sendSignal env fuel) k p exitStatus = some k') : Spares (· = p) [] k k' := by
  obtain ⟨k₁, spares, -, same⟩ := mmExit_settled died
  rw [if_pos other] at same
  exact same ▸ spares

theorem hangupGroup_congr {k₁ : Table} {dead : Fin nrProcs → Prop} {hup : List (Fin nrProcs)}
    (spares : Spares dead hup k k₁) (p : Fin nrProcs) : hangupGroup k₁ p = hangupGroup k p := by
  unfold hangupGroup
  rw [spares.mp, (spares.same p).pid, (spares.same k.mp).procgrp]

theorem sendSignal_quiet (other : hangupGroup k p = 0)
    (sent : sendSignal env fuel k p signo = some k') :
    Spares (· = p) (if signo = sighup then [p] else []) k k' := by
  cases fuel with
  | zero => cases sent
  | succ fuel =>
    obtain ⟨k₁, spares, same | ⟨-, died⟩⟩ := sigProcWith_settled sent
    · exact same ▸ spares.mono fun _ wrong => wrong.elim
    · have quiet := mmExit_quiet ((hangupGroup_congr spares p).trans other) died
      have both := (spares.mono fun _ wrong => wrong.elim).trans quiet
      rwa [List.append_nil] at both

end Signals

/-! ### The hangup -/

section Group

variable {env : Nat → Bool × Bool} {fuel : Nat} {k k' : Table} {p : Fin nrProcs}
  {dead : Fin nrProcs → Prop} {hup : List (Fin nrProcs)} {procId : Int}

theorem selected_congr (spares : Spares dead hup k k') (procId : Int) (q : Fin nrProcs) :
    selected k' procId q = selected k procId q := by
  unfold selected
  rw [spares.mp, (spares.same q).pid, (spares.same q).procgrp, (spares.same k.mp).procgrp]

theorem permitted_congr (spares : Spares dead hup k k') (q : Fin nrProcs) :
    permitted k' q = permitted k q := by
  unfold permitted
  dsimp only
  rw [spares.mp, (spares.same q).realuid, (spares.same q).effuid, (spares.same k.mp).realuid,
    (spares.same k.mp).effuid]

/-- The process gets the signal that `check_sig` sends to a group. -/
def reached (k : Table) (procId : Int) (q : Fin nrProcs) : Bool :=
  (k.mproc q).live && selected k procId q && permitted k q

theorem reached_congr (spares : Spares dead hup k k') {q : Fin nrProcs} (alive : ¬ dead q) :
    reached k' procId q = reached k procId q := by
  rw [reached, reached, spares.live q alive, selected_congr spares, permitted_congr spares]

/-- The loop of `check_sig` sends `SIGHUP` to a group in which nobody is the leader of the caller's
group. -/
theorem sendAll_hangups {qs : List (Fin nrProcs)} {count count' : Nat} {errorCode errorCode' : Int}
    (group : procId < 0) (nodup : qs.Nodup)
    (others : ∀ q ∈ qs, (k.mproc q).live = true → hangupGroup k q = 0)
    (sent : sendAll (sendSignal env fuel) procId sighup qs k count errorCode =
      some (k', count', errorCode')) :
    Spares (· ∈ qs) (qs.filter (reached k procId)) k k' := by
  induction qs generalizing k count errorCode with
  | nil =>
    obtain ⟨rfl, -⟩ := Prod.mk.inj (Option.some.inj sent)
    exact .refl _ k
  | cons q qs inductionHypothesis =>
    obtain ⟨absent, distinct⟩ := List.nodup_cons.mp nodup
    have weaken (other : Fin nrProcs) (member : other ∈ qs) : other ∈ q :: qs :=
      List.mem_cons_of_mem q member
    have skipped {count : Nat} {errorCode : Int} (missed : reached k procId q = false)
        (rest : sendAll (sendSignal env fuel) procId sighup qs k count errorCode =
          some (k', count', errorCode')) :
        Spares (· ∈ q :: qs) ((q :: qs).filter (reached k procId)) k k' := by
      rw [List.filter_cons_of_neg (by simp [missed])]
      exact (inductionHypothesis distinct (fun other member => others other (weaken other member))
        rest).mono weaken
    have live : ((k.mproc q).inUse && !((k.mproc q).zombie && sighup != 0)) = (k.mproc q).live := by
      rw [show (sighup != 0) = true from rfl, Bool.and_true]
      rfl
    rw [sendAll, live] at sent
    split at sent
    case isFalse unselected =>
      refine skipped ?_ sent
      rw [reached, Bool.eq_false_iff.mpr unselected, Bool.false_and]
    case isTrue chosen =>
      split at sent
      case isFalse forbidden =>
        refine skipped ?_ sent
        rw [reached, Bool.eq_false_iff.mpr forbidden, Bool.and_false]
      case isTrue allowed =>
        obtain ⟨k₁, given, rest⟩ := Option.bind_eq_some_iff.mp sent
        rw [if_neg (by omega)] at rest
        have first : Spares (· = q) [q] k k₁ :=
          sendSignal_quiet (others q List.mem_cons_self (Bool.and_eq_true_iff.mp chosen).1) given
        have apart (other : Fin nrProcs) (member : other ∈ qs) : ¬ other = q := fun same =>
          absent (same ▸ member)
        have later := inductionHypothesis distinct (fun other member live => by
          rw [first.live other (apart other member)] at live
          rw [hangupGroup_congr first]
          exact others other (weaken other member) live) rest
        have same : qs.filter (reached k₁ procId) = qs.filter (reached k procId) :=
          List.filter_congr fun other member => reached_congr first (apart other member)
        rw [List.filter_cons_of_pos (by rw [reached, chosen, allowed]; rfl), ← same]
        exact (first.mono fun other here => here ▸ List.mem_cons_self).trans (later.mono weaken)

/-- The process has a number of its own. -/
structure Numbered (k : Table) (p : Fin nrProcs) : Prop where
  positive : 0 < (k.mproc p).pid
  unique : ∀ q, q ≠ p → (k.mproc q).live = true → (k.mproc q).pid ≠ (k.mproc p).pid

theorem nodup_users : users.Nodup := (List.nodup_finRange nrProcs).filter _

/-- Who gets `SIGHUP` when a process dies: nobody, unless it is the leader of the caller's group. -/
theorem mmExit_hangups {exitStatus : Nat} (numbered : Numbered k p)
    (died : mmExit (sendSignal env fuel) k p exitStatus = some k') :
    hangups (k'.sent.drop k.sent.length) =
      if hangupGroup k p = 0 then []
      else users.filter fun q => q ≠ p && reached k (-hangupGroup k p) q := by
  obtain ⟨k₁, spares, gone, rest⟩ := mmExit_settled died
  by_cases none : hangupGroup k p = 0
  · rw [if_pos none] at rest ⊢
    obtain ⟨more, grown, hung⟩ := spares.sent
    rw [← rest, grown, List.drop_left, hung]
  · rw [if_neg none] at rest ⊢
    obtain ⟨result, checked⟩ := rest
    have same : (k.mproc p).pid = (k.mproc k.mp).procgrp := by
      by_contra different
      exact none (if_neg different)
    have value : hangupGroup k p = (k.mproc p).pid := (if_pos same).trans same.symm
    have positive : 0 < hangupGroup k p := by
      rw [value]
      exact numbered.positive
    unfold checkSig at checked
    rw [if_neg (by decide), if_neg (by rw [initPid]; omega)] at checked
    obtain ⟨⟨after, count, errorCode⟩, sent, same'⟩ := Option.map_eq_some_iff.mp checked
    obtain ⟨rfl, -⟩ := Prod.mk.inj same'
    have others (q : Fin nrProcs) (live : (k₁.mproc q).live = true) : hangupGroup k₁ q = 0 := by
      have apart : q ≠ p := by
        rintro rfl
        rw [gone] at live
        cases live
      rw [hangupGroup_congr spares, hangupGroup]
      refine if_neg fun leads => ?_
      exact numbered.unique q apart ((spares.live q apart).symm.trans live) (leads.trans same.symm)
    have told := sendAll_hangups (by omega) nodup_users (fun q _ => others q) sent
    obtain ⟨first, grown, silent⟩ := spares.sent
    obtain ⟨second, grown', hung⟩ := told.sent
    rw [grown', grown, List.append_assoc, List.drop_left, hangups, List.filter_append,
      List.map_append]
    refine (congrArg₂ (· ++ ·) silent hung).trans (List.filter_congr fun q _ => ?_)
    by_cases here : q = p
    · rw [here, reached, gone]
      simp
    · rw [reached_congr spares here]
      simp [here]

end Group

/-! ### Every death comes to an end -/

/-- `INIT` lives, and so does the parent of every process that lives. -/
structure Family (k : Table) : Prop where
  initLives : (k.mproc initProcNr).live = true
  parents : ∀ q, (k.mproc q).live = true → (k.mproc (k.mproc q).parent).live = true
  apart : ∀ q, initProcNr < q → (k.mproc q).parent ≠ q

section Family

variable {env : Nat → Bool × Bool} {fuel : Nat} {k k' : Table} {p child : Fin nrProcs}
  {dead : Fin nrProcs → Prop} {hup : List (Fin nrProcs)} {signo : Nat}

theorem Family.spares (family : Family k) (spares : Spares dead hup k k')
    (initAlive : ¬ dead initProcNr)
    (orphans : ∀ q, (k'.mproc q).live = true → ¬ dead (k'.mproc q).parent) : Family k' where
  initLives := (spares.live _ initAlive).trans family.initLives
  parents q live := by
    rw [spares.live _ (orphans q live)]
    obtain kept | adopted := spares.parent q
    · rw [kept]
      exact family.parents q (spares.lives q live)
    · rw [adopted]
      exact family.initLives
  apart q beyond same := by
    obtain kept | adopted := spares.parent q
    · exact family.apart q beyond (kept.symm.trans same)
    · exact beyond.ne (adopted.symm.trans same)

theorem disinherit_parent (user : initProcNr < p)
    (live : ((disinherit p k child).mproc child).live = true) :
    ((disinherit p k child).mproc child).parent ≠ p := by
  unfold disinherit at live ⊢
  split
  case isFalse other =>
    rw [if_neg other] at live
    intro same
    exact other (Bool.and_eq_true_iff.mpr
      ⟨(Bool.and_eq_true_iff.mp live).1, beq_iff_eq.mpr same⟩)
  case isTrue =>
    have adopted : ((k.modify child fun rmp => { rmp with parent := initProcNr }).mproc
        child).parent = initProcNr := by
      rw [Table.modify]
      dsimp only
      rw [update_self]
    dsimp only
    split
    case isFalse => exact adopted.trans_ne user.ne
    case isTrue =>
      have cleaned : Spares (fun _ => True) [] (k.modify child fun rmp =>
          { rmp with parent := initProcNr }) (cleanup (k.modify child fun rmp =>
            { rmp with parent := initProcNr }) child) := cleanup_spares (by simp)
      obtain kept | again := cleaned.parent child
      · exact (kept.trans adopted).trans_ne user.ne
      · exact again.trans_ne user.ne

theorem foldl_disinherit_parent (user : initProcNr < p) {slots : List (Fin nrProcs)}
    {q : Fin nrProcs}
    (met : q ∈ slots ∨ ((k.mproc q).live = true → (k.mproc q).parent ≠ p))
    (live : ((slots.foldl (disinherit p) k).mproc q).live = true) :
    ((slots.foldl (disinherit p) k).mproc q).parent ≠ p := by
  induction slots generalizing k with
  | nil => exact met.resolve_left List.not_mem_nil live
  | cons child slots inductionHypothesis =>
    refine inductionHypothesis ?_ live
    obtain member | childless := met
    · obtain rfl | later := List.mem_cons.mp member
      · exact .inr (disinherit_parent user)
      · exact .inl later
    · have step : Spares (fun _ => True) [] k (disinherit p k child) := disinherit_spares
      refine .inr fun alive => ?_
      obtain kept | adopted := step.parent q
      · exact kept.trans_ne (childless (step.lives q alive))
      · exact adopted.trans_ne user.ne

section

variable (family : Family k) (user : initProcNr < p) (live : (k.mproc p).live = true)
include family user live

theorem release_total :
    ∃ k', release (sendSignal env (fuel + 1)) k p = some k' := by
  unfold release
  split
  · exact ⟨_, rfl⟩
  · have alive : ((k.modify p fun r => { clearFlags r with inUse := true, zombie := true }).mproc
        (k.mproc p).parent).live = true := by
      rw [Table.modify]
      dsimp only
      rw [update_of_ne (family.apart p user)]
      exact family.parents p live
    obtain ⟨k₁, -, told | ⟨wrong, -⟩⟩ := @sigProcWith_live env _ _ sigchld
      (fun k p => mmExit (sendSignal env fuel) k p 0) alive
    · exact ⟨k₁, told⟩
    · exact absurd rfl wrong

/-- A death up to the hangup comes to an end, and the orphans have a parent again. -/
theorem mmExit_releases (exitStatus : Nat) :
    ∃ k₁, Family k₁ ∧ Spares (· = p) [] k k₁ ∧ (k₁.mproc p).live = false ∧
      mmExit (sendSignal env (fuel + 1)) k p exitStatus =
        if hangupGroup k p ≠ 0 then
          (checkSig (sendSignal env (fuel + 1)) k₁ (-hangupGroup k p) sighup).map Prod.fst
        else some k₁ := by
  have left : Spares (fun _ => False) [] k (k.modify p (leave exitStatus)) :=
    modify_sameLife ⟨⟨rfl, rfl, rfl, rfl⟩, rfl, rfl⟩
  have family₁ : Family (k.modify p (leave exitStatus)) :=
    family.spares left not_false fun _ _ => not_false
  obtain ⟨k₁, released⟩ := @release_total env fuel _ p family₁ user
    ((left.live p not_false).trans live)
  obtain ⟨spares, gone⟩ := release_spares released
  have orphaned : Spares (fun _ => False) [] k₁ ((List.finRange nrProcs).foldl (disinherit p) k₁) :=
    foldl_disinherit_spares _
  have both := spares.trans (orphaned.mono fun _ wrong => wrong.elim)
  refine ⟨_, family₁.spares both user.ne fun q alive => ?_,
    (left.mono fun _ wrong => wrong.elim).trans both, (orphaned.live p not_false).trans gone, ?_⟩
  · exact foldl_disinherit_parent user (.inl (List.mem_finRange q)) alive
  · unfold mmExit
    rw [released]
    rfl

/-- A signal to a process that is not the leader of the caller's group comes to an end. -/
theorem sendSignal_total (other : hangupGroup k p = 0) :
    ∃ k', sendSignal env (fuel + 2) k p signo = some k' ∧ Family k' := by
  obtain ⟨k₁, spares, survived | ⟨-, died⟩⟩ := @sigProcWith_live env _ _ signo
    (fun k p => mmExit (sendSignal env (fuel + 1)) k p 0) live
  · exact ⟨k₁, survived, family.spares spares not_false fun _ _ => not_false⟩
  · have family₁ : Family k₁ := family.spares spares not_false fun _ _ => not_false
    obtain ⟨k₂, family₂, -, -, ended⟩ := @mmExit_releases env fuel _ _ family₁ user
      ((spares.live p not_false).trans live) 0
    rw [if_neg (not_not.mpr ((hangupGroup_congr spares p).trans other))] at ended
    exact ⟨k₂, died.trans ended, family₂⟩

end

/-- The loop of `check_sig` comes to an end when `INIT` is not in the group. -/
theorem sendAll_total {procId : Int} {qs : List (Fin nrProcs)} {count : Nat} {errorCode : Int}
    (family : Family k) (users : ∀ q ∈ qs, selected k procId q = true → initProcNr < q)
    (others : ∀ q ∈ qs, (k.mproc q).live = true → hangupGroup k q = 0) :
    ∃ result, sendAll (sendSignal env (fuel + 2)) procId sighup qs k count errorCode =
      some result := by
  induction qs generalizing k count errorCode with
  | nil => exact ⟨_, rfl⟩
  | cons q qs inductionHypothesis =>
    have skipped {count : Nat} {errorCode : Int} := @inductionHypothesis k count errorCode family
      (fun other member => users other (List.mem_cons_of_mem q member))
      (fun other member => others other (List.mem_cons_of_mem q member))
    rw [sendAll]
    split
    case isFalse => exact skipped
    case isTrue chosen =>
      split
      case isFalse => exact skipped
      case isTrue =>
        rw [if_neg (by decide)]
        obtain ⟨alive, picked⟩ := Bool.and_eq_true_iff.mp chosen
        rw [show (sighup != 0) = true from rfl, Bool.and_true] at alive
        have quiet := others q List.mem_cons_self alive
        obtain ⟨k₁, given, family₁⟩ := @sendSignal_total env fuel _ _ sighup family
          (users q List.mem_cons_self picked) alive quiet
        have first := sendSignal_quiet quiet given
        rw [given, Option.bind_some]
        split
        · exact ⟨_, rfl⟩
        · refine inductionHypothesis family₁ (fun other member selects => ?_)
            fun other member lives => ?_
          · rw [selected_congr first] at selects
            exact users other (List.mem_cons_of_mem q member) selects
          · rw [hangupGroup_congr first]
            exact others other (List.mem_cons_of_mem q member) (first.lives other lives)

/-- The death of a process comes to an end, when it is not `INIT` and `INIT` is not in its group. -/
theorem mmExit_total {exitStatus : Nat} (family : Family k) (user : initProcNr < p)
    (live : (k.mproc p).live = true) (numbered : Numbered k p)
    (init : (k.mproc initProcNr).pid = initPid ∧
      (k.mproc initProcNr).procgrp ≠ (k.mproc p).pid) :
    ∃ k', mmExit (sendSignal env (fuel + 2)) k p exitStatus = some k' := by
  obtain ⟨k₁, family₁, spares, gone, ended⟩ :=
    @mmExit_releases env (fuel + 1) k p family user live exitStatus
  rw [ended]
  split
  case isFalse => exact ⟨k₁, rfl⟩
  case isTrue leads =>
    have same : (k.mproc p).pid = (k.mproc k.mp).procgrp := by
      by_contra different
      exact leads (if_neg different)
    have value : hangupGroup k p = (k.mproc p).pid := (if_pos same).trans same.symm
    have positive := numbered.positive
    have apart : (k.mproc p).pid ≠ 1 := fun one =>
      numbered.unique initProcNr user.ne family.initLives (init.1.trans one.symm)
    have group : ¬ initPid = -(k.mproc p).pid := by
      rw [initPid]
      omega
    rw [value]
    unfold checkSig
    rw [if_neg (by decide), if_neg fun wrong => group wrong.1.symm]
    have beyond (q : Fin nrProcs) (member : q ∈ users)
        (selects : selected k₁ (-(k.mproc p).pid) q = true) : initProcNr < q := by
      refine lt_of_le_of_ne (of_decide_eq_true (List.mem_filter.mp member).2) ?_
      rintro rfl
      have unpicked : ((k.mproc initProcNr).procgrp != -(-(k.mproc p).pid)) = true := by
        rw [neg_neg]
        exact bne_iff_ne.mpr init.2
      have group : decide (-(k.mproc p).pid < -1) = true := decide_eq_true (by omega)
      rw [selected_congr spares, selected, unpicked, group] at selects
      simp at selects
    have others (q : Fin nrProcs) (alive : (k₁.mproc q).live = true) : hangupGroup k₁ q = 0 := by
      have elsewhere : q ≠ p := by
        rintro rfl
        rw [gone] at alive
        cases alive
      rw [hangupGroup_congr spares]
      refine if_neg fun leads => ?_
      exact numbered.unique q elsewhere (spares.lives q alive) (leads.trans same.symm)
    obtain ⟨result, sent⟩ := @sendAll_total env fuel k₁ (-(k.mproc p).pid) users 0 (-3) family₁
      beyond fun q _ => others q
    exact ⟨_, congrArg (Option.map _) (congrArg (Option.map _) sent)⟩

end Family

/-! ### Who hears of a death -/

/-- The process leads its process group. -/
def leads (k : Table) (p : Fin nrProcs) : Bool := (k.mproc p).pid == (k.mproc p).procgrp

/-- The other processes that live in the group of the leader. -/
def remaining (k : Table) (p : Fin nrProcs) : List (Fin nrProcs) :=
  users.filter fun q => q ≠ p && (k.mproc q).live && (k.mproc q).procgrp == (k.mproc p).pid

/-- Those who are to get `SIGHUP` when the process dies. -/
def due (k : Table) (p : Fin nrProcs) : List (Fin nrProcs) :=
  if leads k p then remaining k p else []

/-- If the process leads a group, the caller is in that group and may signal all of it. If the
caller's group merely has the number of the process, the caller may signal nobody in it. The group
of `INIT` stands for all processes with higher numbers. -/
structure Heard (k : Table) (p : Fin nrProcs) : Prop where
  reached : leads k p = true → ∀ q ∈ remaining k p,
    (k.mproc k.mp).procgrp = (k.mproc p).pid ∧ permitted k q = true ∧
      ((k.mproc p).pid = initPid → initPid < (k.mproc q).pid)
  spared : (k.mproc k.mp).procgrp = (k.mproc p).pid →
    ∀ q ∈ users, q ≠ p → (k.mproc q).live = true → permitted k q = true →
      (if (k.mproc p).pid = initPid then initPid < (k.mproc q).pid
        else (k.mproc q).procgrp = (k.mproc p).pid) →
      leads k p = true ∧ (k.mproc q).procgrp = (k.mproc p).pid

section Heard

variable {env : Nat → Bool × Bool} {fuel exitStatus : Nat} {k : Table} {p q : Fin nrProcs}

theorem filter_ext {α : Type*} {l : List α} {f g : α → Bool}
    (same : ∀ a, a ∈ l.filter f ↔ a ∈ l.filter g) : l.filter f = l.filter g :=
  List.filter_congr fun a member => by
    have met := same a
    rw [List.mem_filter, List.mem_filter, and_iff_right member, and_iff_right member] at met
    exact Bool.eq_iff_iff.mpr met

theorem mem_due : q ∈ due k p ↔ leads k p = true ∧ q ∈ users ∧ q ≠ p ∧
    (k.mproc q).live = true ∧ (k.mproc q).procgrp = (k.mproc p).pid := by
  unfold due remaining
  split
  case isTrue leader => simp [leader, List.mem_filter, and_assoc]
  case isFalse member => simp [member]

theorem reached_iff (positive : 0 < (k.mproc p).pid) :
    reached k (-(k.mproc p).pid) q = true ↔ (k.mproc q).live = true ∧ permitted k q = true ∧
      if (k.mproc p).pid = initPid then initPid < (k.mproc q).pid
      else (k.mproc q).procgrp = (k.mproc p).pid := by
  have chosen : selected k (-(k.mproc p).pid) q = true ↔
      if (k.mproc p).pid = initPid then initPid < (k.mproc q).pid
      else (k.mproc q).procgrp = (k.mproc p).pid := by
    unfold selected initPid
    simp only [Bool.and_eq_true, Bool.not_eq_true', Bool.and_eq_false_iff, decide_eq_false_iff_not,
      beq_eq_false_iff_ne, bne_eq_false_iff_eq, neg_neg]
    split <;> omega
  rw [reached, Bool.and_eq_true, Bool.and_eq_true, chosen]
  tauto

theorem mem_hangups (numbered : Numbered k p) {k' : Table}
    (died : mmExit (sendSignal env fuel) k p exitStatus = some k') :
    q ∈ hangups (k'.sent.drop k.sent.length) ↔
      (k.mproc k.mp).procgrp = (k.mproc p).pid ∧ q ∈ users ∧ q ≠ p ∧
        (k.mproc q).live = true ∧ permitted k q = true ∧
          if (k.mproc p).pid = initPid then initPid < (k.mproc q).pid
          else (k.mproc q).procgrp = (k.mproc p).pid := by
  have positive := numbered.positive
  rw [mmExit_hangups numbered died]
  by_cases same : (k.mproc p).pid = (k.mproc k.mp).procgrp
  · have value : hangupGroup k p = (k.mproc p).pid := (if_pos same).trans same.symm
    rw [value, if_neg positive.ne', List.mem_filter, Bool.and_eq_true, reached_iff positive]
    simp [same]
  · have value : hangupGroup k p = 0 := if_neg same
    rw [value, if_pos rfl]
    simp [Ne.symm same]

theorem hangups_eq_iff (numbered : Numbered k p) {k' : Table}
    (died : mmExit (sendSignal env fuel) k p exitStatus = some k') :
    hangups (k'.sent.drop k.sent.length) = due k p ↔
      ∀ q, q ∈ hangups (k'.sent.drop k.sent.length) ↔ q ∈ due k p := by
  obtain ⟨f, told⟩ : ∃ f, hangups (k'.sent.drop k.sent.length) = users.filter f := by
    rw [mmExit_hangups numbered died]
    split
    · exact ⟨fun _ => false, (List.filter_false _).symm⟩
    · exact ⟨_, rfl⟩
  obtain ⟨g, owed⟩ : ∃ g, due k p = users.filter g := by
    unfold due
    split
    · exact ⟨_, rfl⟩
    · exact ⟨fun _ => false, (List.filter_false _).symm⟩
  rw [told, owed]
  exact ⟨fun same q => by rw [same], filter_ext⟩

theorem heard_own_exit (own : k.mp = p) (user : (k.mproc p).pid ≠ initPid)
    (allowed : ∀ q ∈ remaining k p, permitted k q = true) : Heard k p where
  reached leader q member :=
    ⟨own ▸ (beq_iff_eq.mp leader).symm, allowed q member, fun init => absurd init user⟩
  spared group q _ _ _ _ chosen := by
    rw [if_neg user] at chosen
    exact ⟨beq_iff_eq.mpr (own ▸ group.symm), chosen⟩

/-- The death of a process comes to an end, and it sends `SIGHUP` to the other processes of the
group that the process leads, and to nobody else, exactly when the caller is where the process is. -/
theorem death_hangs_up_iff (numbered : Numbered k p) :
    (2 ≤ fuel → Family k → initProcNr < p → (k.mproc p).live = true →
      (k.mproc initProcNr).pid = initPid → (k.mproc initProcNr).procgrp ≠ (k.mproc p).pid →
        ∃ k', mmExit (sendSignal env fuel) k p exitStatus = some k') ∧
      ∀ k', mmExit (sendSignal env fuel) k p exitStatus = some k' →
        (hangups (k'.sent.drop k.sent.length) = due k p ↔ Heard k p) := by
  refine ⟨fun enough family user live pid procgrp => ?_, fun k' died => ?_⟩
  · obtain ⟨fuel, rfl⟩ := Nat.exists_eq_add_of_le' enough
    exact mmExit_total family user live numbered ⟨pid, procgrp⟩
  rw [hangups_eq_iff numbered died]
  simp only [mem_hangups numbered died, mem_due]
  constructor
  · intro same
    constructor
    · intro leader q member
      obtain ⟨user, lives⟩ := List.mem_filter.mp member
      simp only [Bool.and_eq_true, decide_eq_true_eq, beq_iff_eq] at lives
      obtain ⟨group, -, -, -, allowed, chosen⟩ :=
        (same q).mpr ⟨leader, user, lives.1.1, lives.1.2, lives.2⟩
      exact ⟨group, allowed, fun init => by rwa [if_pos init] at chosen⟩
    · intro group q user apart live allowed chosen
      have owed := (same q).mp ⟨group, user, apart, live, allowed, chosen⟩
      exact ⟨owed.1, owed.2.2.2.2⟩
  · intro heard q
    constructor
    · rintro ⟨group, user, apart, live, allowed, chosen⟩
      obtain ⟨leader, member⟩ := heard.spared group q user apart live allowed chosen
      exact ⟨leader, user, apart, live, member⟩
    · rintro ⟨leader, user, apart, live, member⟩
      have remains : q ∈ remaining k p := List.mem_filter.mpr ⟨user, by simp [apart, live, member]⟩
      obtain ⟨group, allowed, beyond⟩ := heard.reached leader q remains
      refine ⟨group, user, apart, live, allowed, ?_⟩
      split
      · exact beyond ‹_›
      · exact member

theorem leader_lt : 3 < nrProcs := by decide

/-- A session of a leader and a member, and another process, with the given caller. -/
def session (mp : Fin nrProcs) : Table where
  mp := mp
  mproc slot := match slot.val with
    | 0 => { inUse := true }
    | 2 => { inUse := true, pid := 1, procgrp := 1 }
    | 3 => { inUse := true, pid := 5, procgrp := 5, parent := initProcNr }
    | 4 => { inUse := true, pid := 6, procgrp := 5, parent := ⟨3, leader_lt⟩ }
    | 5 => { inUse := true, pid := 7, procgrp := 7, parent := initProcNr }
    | _ => {}

/-- The leader exits, and the other process of its group hears of it. -/
theorem session_leader_exits :
    ∃ k', mmExit (sendSignal (fun _ => (true, false)) 2) (session ⟨3, by decide⟩)
        ⟨3, by decide⟩ 0 = some k' ∧ hangups k'.sent = [⟨4, by decide⟩] := by
  obtain ⟨ends, hears⟩ := @death_hangs_up_iff (fun _ => (true, false)) 2 0
    (session ⟨3, by decide⟩) ⟨3, by decide⟩ ⟨by decide, by decide⟩
  obtain ⟨k', died⟩ := ends (by decide) ⟨by decide, by decide, by decide⟩ (by decide) (by decide)
    (by decide) (by decide)
  exact ⟨k', died, (hears k' died).mpr (heard_own_exit rfl (by decide) (by decide))⟩

/-- A process of another group kills the leader, and the member hears nothing of it. -/
theorem killed_leader_sends_no_hangup :
    ((doKill (fun _ => (true, false)) 3 (session ⟨5, by decide⟩) 5 sigkill).map fun result =>
        ((result.1.mproc ⟨3, by decide⟩).live, hangups result.1.sent)) = some (false, []) ∧
      due (session ⟨5, by decide⟩) ⟨3, by decide⟩ = [⟨4, by decide⟩] := by
  decide +kernel

end Heard

end Minix.Mm.SigProc
