/-
This file proves that the chains of the UDP ports hold the channels whose options are complete, each
one once, in the chain of its local port.

Options are changed by taking the channel off its chain and putting it on the new one, so there is
one lemma for each of the two, and every operation is made up of them.
-/

import Minix.Inet.UdpOptions

namespace Minix.Inet

open Function (update update_of_ne update_self)
open Option (some.inj ite_none_right_eq_some)
open LinkedList (Chain Chains locate)

/-! ### Right chains -/

/-- From its head each chain visits the channels with complete options that belong there, each of
them once; and these channels are open. -/
structure ChainsRight {n : Nat} (s : UdpTable n) : Prop where
  inUse : ∀ fd, (s.fd fd).optset = true → (s.fd fd).inUse = true
  chain : ∀ chain, ∃ fds, Chain s.portNext (s.portHead chain) fds ∧ fds.Nodup ∧
    ∀ fd, fd ∈ fds ↔ (s.fd fd).optset = true ∧ (s.fd fd).chain = chain

/-! ### Invariants -/

variable {n : Nat} {s s' : UdpTable n} {lists : UdpChain → List (Fin n)} {fd : Fin n}
  {channel : UdpChannel}

theorem setFd_self : (s.setFd fd channel).fd fd = channel := update_self _ _ _

theorem setFd_of_ne {other : Fin n} (distinct : other ≠ fd) :
    (s.setFd fd channel).fd other = s.fd other :=
  update_of_ne distinct _ _

/-- The chains hold the given channels. -/
structure Chained (s : UdpTable n) (lists : UdpChain → List (Fin n)) : Prop where
  chains : Chains s.portNext s.portHead lists
  member : ∀ chain fd, fd ∈ lists chain ↔ (s.fd fd).optset = true ∧ (s.fd fd).chain = chain
  inUse : ∀ fd, (s.fd fd).optset = true → (s.fd fd).inUse = true
  quiet : ∀ fd, (s.fd fd).waiting = true → (s.fd fd).inUse = true

theorem Chained.right (chained : Chained s lists) : ChainsRight s :=
  ⟨chained.inUse, fun chain =>
    ⟨lists chain, chained.chains.chain chain, (chained.chains.chain chain).nodup,
      chained.member chain⟩⟩

theorem Chained.members_eq (chained : Chained s lists) (chain : UdpChain) :
    s.members chain = lists chain := by
  refine (chained.chains.chain chain).visited_eq ?_
  have few := (chained.chains.chain chain).length_le
  rwa [Fintype.card_fin] at few

theorem exists_unhashFd (chains : Chains s.portNext s.portHead lists)
    (member : fd ∈ lists (s.fd fd).chain) :
    ∃ s', s.unhashFd fd = some s' ∧ s'.fd = s.fd ∧
      Chains s'.portNext s'.portHead
        (update lists (s.fd fd).chain ((lists (s.fd fd).chain).erase fd)) := by
  have chain := chains.chain (s.fd fd).chain
  have few := chain.length_le
  rw [Fintype.card_fin] at few
  unfold UdpTable.unhashFd
  dsimp only
  rw [chain.scan_eq _ few]
  match found : locate (fun node => decide (node = fd)) none (lists (s.fd fd).chain) with
  | none =>
    have missed := LinkedList.locate_eq_none.mp found fd member
    rw [decide_eq_true rfl] at missed
    cases missed
  | some (before, node) =>
    obtain ⟨front, back, split, hit, -, previous⟩ := LinkedList.locate_eq_some found
    obtain rfl := of_decide_eq_true hit
    have nodup := chain.nodup
    rw [split] at nodup
    rw [Option.or_none] at previous
    rw [split, LinkedList.erase_middle nodup]
    rcases List.eq_nil_or_concat front with rfl | ⟨start, last, rfl⟩
    · obtain rfl : before = none := previous
      exact ⟨_, rfl, rfl, chains.pop split⟩
    · rw [List.concat_eq_append, List.getLast?_append_of_ne_nil _ (List.cons_ne_nil _ _)] at previous
      obtain rfl : before = some last := previous
      rw [List.concat_eq_append, List.append_assoc, List.singleton_append] at split ⊢
      exact ⟨_, rfl, rfl, chains.unlink split⟩

theorem Chained.detach (chained : Chained s lists) (fd : Fin n) :
    ∃ s' lists', (if (s.fd fd).optset then s.unhashFd fd else some s) = some s' ∧
      s'.fd = s.fd ∧ Chains s'.portNext s'.portHead lists' ∧
      ∀ chain other, other ∈ lists' chain ↔
        other ≠ fd ∧ (s.fd other).optset = true ∧ (s.fd other).chain = chain := by
  cases set : (s.fd fd).optset with
  | false =>
    refine ⟨s, lists, rfl, rfl, chained.chains, fun chain other => ?_⟩
    rw [chained.member]
    refine (and_iff_right_of_imp fun both same => ?_).symm
    rw [same, set] at both
    exact Bool.false_ne_true both.1
  | true =>
    obtain ⟨s', taken, same, chains⟩ :=
      exists_unhashFd chained.chains ((chained.member _ fd).mpr ⟨set, rfl⟩)
    refine ⟨s', _, taken, same, chains, fun chain other => ?_⟩
    by_cases here : chain = (s.fd fd).chain
    · rw [here, update_self,
        (chained.chains.chain (s.fd fd).chain).nodup.mem_erase_iff, chained.member]
    · rw [update_of_ne here, chained.member]
      refine (and_iff_right_of_imp fun both same => here ?_).symm
      rw [← both.2, same]

/-- A channel that is on no chain gets options, and goes where these put it. -/
theorem Chained.attach (chains : Chains s.portNext s.portHead lists)
    (others : ∀ chain other, other ∈ lists chain ↔
      other ≠ fd ∧ (s.fd other).optset = true ∧ (s.fd other).chain = chain)
    (inUse : ∀ other, (s.fd other).optset = true → (s.fd other).inUse = true)
    (quiet : ∀ other, (s.fd other).waiting = true → (s.fd other).inUse = true)
    (inUse' : channel.optset = true → channel.inUse = true)
    (quiet' : channel.waiting = true → channel.inUse = true) :
    ∃ lists', Chained
      (if channel.optset then (s.setFd fd channel).hashFd fd else s.setFd fd channel) lists' := by
  have absent (chain : UdpChain) : fd ∉ lists chain := fun member =>
    ((others chain fd).mp member).1 rfl
  have inUse'' (other : Fin n) : ((s.setFd fd channel).fd other).optset = true →
      ((s.setFd fd channel).fd other).inUse = true := by
    by_cases same : other = fd
    · rwa [same, setFd_self]
    · rw [setFd_of_ne same]
      exact inUse other
  have quiet'' (other : Fin n) : ((s.setFd fd channel).fd other).waiting = true →
      ((s.setFd fd channel).fd other).inUse = true := by
    by_cases same : other = fd
    · rwa [same, setFd_self]
    · rw [setFd_of_ne same]
      exact quiet other
  cases set : channel.optset with
  | false =>
    rw [if_neg Bool.false_ne_true]
    refine ⟨lists, chains, fun chain other => ?_, inUse'', quiet''⟩
    by_cases same : other = fd
    · rw [same, setFd_self, set]
      exact iff_of_false (absent chain) fun both => Bool.false_ne_true both.1
    · rw [setFd_of_ne same, others]
      exact and_iff_right same
  | true =>
    rw [if_pos rfl]
    have pushed := chains.push channel.chain absent
    refine ⟨update lists channel.chain (fd :: lists channel.chain), ?_, fun chain other => ?_,
      inUse'', quiet''⟩
    · unfold UdpTable.hashFd
      rw [setFd_self]
      exact pushed
    · change _ ↔ ((s.setFd fd channel).fd other).optset = true ∧
        ((s.setFd fd channel).fd other).chain = chain
      by_cases same : other = fd
      · rw [same, setFd_self, and_iff_right set]
        by_cases belongs : chain = channel.chain
        · rw [belongs, update_self]
          exact iff_of_true List.mem_cons_self rfl
        · rw [update_of_ne belongs]
          exact iff_of_false (absent chain) fun same => belongs same.symm
      · rw [setFd_of_ne same]
        have whole : other ∈ update lists channel.chain (fd :: lists channel.chain) chain ↔
            other ∈ lists chain := by
          by_cases belongs : chain = channel.chain
          · rw [belongs, update_self, List.mem_cons, or_iff_right same]
          · rw [update_of_ne belongs]
        rw [whole, others]
        exact and_iff_right same

/-! ### Operations -/

section

variable (chained : Chained s lists)
include chained

theorem Chained.udpOpen {port : Nat} {reply : Int} (opened : s.udpOpen port = some (s', reply)) :
    ∃ lists', Chained s' lists' := by
  unfold UdpTable.udpOpen at opened
  split at opened
  case h_1 =>
    obtain ⟨rfl, -⟩ := Prod.mk.inj (some.inj opened)
    exact ⟨lists, chained⟩
  case h_2 fd found =>
    have free : (s.fd fd).inUse = false := by
      have result := List.find?_some found
      rwa [Bool.not_eq_true'] at result
    have unset : (s.fd fd).optset = false := by
      by_contra set
      rw [chained.inUse fd (Bool.eq_true_of_not_eq_false set)] at free
      cases free
    split at opened
    · cases opened
    obtain ⟨rfl, -⟩ := Prod.mk.inj (some.inj opened)
    obtain ⟨s', lists', detached, -, chains, others⟩ := chained.detach fd
    rw [unset, if_neg Bool.false_ne_true] at detached
    obtain rfl := some.inj detached
    obtain ⟨lists'', attached⟩ := @Chained.attach n s lists' fd
      { s.fd fd with
        inUse := true
        optset := false
        port := port
        udpopt := { (s.fd fd).udpopt with flags := 0 } }
      chains others chained.inUse chained.quiet (fun _ => rfl) fun _ => rfl
    rw [if_neg Bool.false_ne_true] at attached
    have absent (chain : UdpChain) : fd ∉ lists'' chain := by
      rw [attached.member]
      intro both
      rw [setFd_self] at both
      exact Bool.false_ne_true both.1
    refine ⟨lists'', attached.chains.congr fun chain other member => ?_, attached.member,
      attached.inUse, attached.quiet⟩
    exact update_of_ne (ne_of_mem_of_not_mem member (absent chain)) _ _

theorem Chained.udpSetopt {data : Option NwioUdpopt} {reply : Int} (inUse : (s.fd fd).inUse = true)
    (set : s.udpSetopt fd data = some (s', reply)) :
    ∃ lists', Chained s' lists' := by
  cases data with
  | none =>
    obtain ⟨rfl, -⟩ := Prod.mk.inj (some.inj set)
    exact ⟨lists, chained⟩
  | some newopt =>
    obtain ⟨merged, -, set⟩ := Option.bind_eq_some_iff.mp set
    rcases merged with error | ⟨opt, allFlags⟩
    · obtain ⟨rfl, -⟩ := Prod.mk.inj (some.inj set)
      exact ⟨lists, chained⟩
    dsimp only at set
    split at set
    · obtain ⟨rfl, -⟩ := Prod.mk.inj (some.inj set)
      exact ⟨lists, chained⟩
    obtain ⟨between, lists', detached, same, chains, others⟩ := chained.detach fd
    rw [detached, Option.map_some] at set
    obtain ⟨rfl, -⟩ := Prod.mk.inj (some.inj set)
    rw [← same] at others inUse
    exact @Chained.attach n between lists' fd
      { between.fd fd with udpopt := opt, optset := allFlags.complete } chains others
      (same ▸ chained.inUse) (same ▸ chained.quiet) (fun _ => inUse) fun _ => inUse

theorem Chained.udpClose (closed : s.udpClose fd = some s') :
    ∃ lists', Chained s' lists' := by
  obtain ⟨-, closed⟩ := ite_none_right_eq_some.mp closed
  obtain ⟨between, lists', detached, same, chains, others⟩ := chained.detach fd
  rw [detached, Option.map_some] at closed
  obtain rfl := some.inj closed
  rw [← same] at others
  exact @Chained.attach n between lists' fd
    { between.fd fd with inUse := false, optset := false, waiting := false } chains others
    (same ▸ chained.inUse) (same ▸ chained.quiet) nofun nofun

theorem Chained.step {label : UdpStep n} (stepped : s.step label = some s') :
    ∃ lists', Chained s' lists' := by
  cases label with
  | «open» port =>
    obtain ⟨⟨_, _⟩, opened, rfl⟩ := Option.map_eq_some_iff.mp stepped
    exact chained.udpOpen opened
  | setopt fd data =>
    simp only [UdpTable.step] at stepped
    obtain ⟨inUse, stepped⟩ := ite_none_right_eq_some.mp stepped
    obtain ⟨⟨_, _⟩, set, rfl⟩ := Option.map_eq_some_iff.mp stepped
    exact chained.udpSetopt inUse set
  | close fd => exact chained.udpClose stepped
  | queues waiting =>
    obtain rfl := some.inj stepped
    exact ⟨lists, chained.chains, chained.member, chained.inUse,
      fun _ both => (Bool.and_eq_true_iff.mp both).1⟩

end

theorem chained_start : Chained ({} : UdpTable n) fun _ => [] where
  chains := ⟨fun _ => rfl, fun _ _ _ member => by cases member⟩
  member _ _ := iff_of_false List.not_mem_nil fun both => Bool.false_ne_true both.1
  inUse _ wrong := by cases wrong
  quiet _ wrong := by cases wrong

theorem exists_chained {labels : List (UdpStep n)}
    (run : Transition.Run UdpTable.step (fun _ _ => True) {} labels s) :
    ∃ lists, Chained s lists := by
  refine @Transition.Run.invariant _ _ _ _ _ _ _ (fun s => ∃ lists, Chained s lists)
    ⟨_, chained_start⟩ ?_ run
  rintro state label after ⟨_, chained⟩ - stepped
  exact chained.step stepped

end Minix.Inet
