/-
This file proves what holds of the send lists of the TCP ports in every run: the connections with
`TCF_MORE2WRITE` are on the list of their port once each, the pointers are right, and a connection
leaves its list only when it is closed or has nothing to send.

There is one exception. While `ip_send` is at work the connection is not protected by `tc_busy`; if
it is closed for lack of buffers, and then the connection behind it, the list is made to begin with
a connection that is closed (`closed_at_head`).
-/

import Minix.Inet.TcpQueue

namespace Minix.Inet.SendList

open Function (update update_of_ne update_self update_eq_self update_idem update_eq_self_iff)
open Option (some.inj bind_eq_some_iff map_eq_some_iff ite_none_left_eq_some ite_none_right_eq_some)
open LinkedList (Chains Chain scan visited locate)
open Transition (Run reached reached_run)

/-! ### Right lists -/

/-- The lists of the ports hold the given connections. -/
structure Listed (s : State) (lists : PortNr → List ConnNr) : Prop where
  chains : Chains s.sendLink s.head lists
  flagged : ∀ p c, c ∈ lists p ↔ s.more2write c = true ∧ s.port c = p
  tails : ∀ p, ∀ last ∈ (lists p).getLast?, s.tail p = some last

/-- Each connection with more to write is on the list of its port once, and no other is. -/
def ListsRight (s : State) : Prop := ∃ lists, Listed s lists ∧ ∀ p, (lists p).Nodup

/-- Why a connection is off the list after a step: it is closed, or no packet was made for it. -/
def NothingToSend (s : State) (c : ConnNr) (label : Label) : Prop :=
  (s.conn c).core.tcState = .closed ∨
    ∃ currTime totHdrSize short, label = .makePack currTime totHdrSize short ∧
      (s.conn c).frag2send = false ∧
      makePack currTime totHdrSize (s.conn c) = some (s.conn c, false)

/-- The connection is in use and not closed. -/
def Conn.closable (c : Conn) : Bool := c.inuse && c.core.tcState != .closed

/-- The connections of a list that are not closed with the given ones. -/
def survivors (s : State) (closed : List ConnNr) (nodes : List ConnNr) : List ConnNr :=
  nodes.filter fun d => !(closed.contains d && (s.conn d).closable)

/-- The connections behind one on its list. -/
def behind (s : State) (c : ConnNr) : List ConnNr := visited s.sendLink tcpConnNr (s.sendLink c)

/-- When the connection for which `ip_send` works is closed for lack of buffers, the one that is
then next on the list is not closed after it; and none is left behind it if it is put back on the
list for another attempt. -/
def Undisturbed (s : State) : Label → Prop
  | .ipSend short answer =>
    match s.control with
    | .send _ c =>
      c ∈ short.closed → (s.conn c).closable = true →
        (survivors s (short.closed.takeWhile (· ≠ c)) (behind s c)).head? =
            (survivors s short.closed (behind s c)).head? ∧
          (answer = .edstnotrch → (s.conn c).ttl ≠ ipMaxTtl →
            survivors s short.closed (behind s c) = [])
    | _ => True
  | _ => True

/-! ### Writing -/

section Calls

variable {s s' : State} {lists : PortNr → List ConnNr} {c d : ConnNr} {p : PortNr}
  {closed : List ConnNr}

section

variable (listed : Listed s lists)
include listed

theorem Listed.notMem (off : s.more2write c = false) (p : PortNr) :
    c ∉ lists p := fun member => by
  have on := ((listed.flagged p c).mp member).1
  rw [off] at on
  cases on

theorem Listed.congr (sendLink : s'.sendLink = s.sendLink) (head : s'.head = s.head)
    (tail : s'.tail = s.tail) (more2write : s'.more2write = s.more2write)
    (port : ∀ c, s.more2write c = true → s'.port c = s.port c) : Listed s' lists where
  chains := by
    rw [sendLink, head]
    exact listed.chains
  flagged p c := by
    rw [listed.flagged, more2write]
    constructor
    · rintro ⟨on, same⟩
      exact ⟨on, (port c on).trans same⟩
    · rintro ⟨on, same⟩
      exact ⟨on, (port c on).symm.trans same⟩
  tails := by
    rw [tail]
    exact listed.tails

theorem Listed.setConn (c : ConnNr) (conn : Conn) :
    Listed (s.setConn c conn) lists :=
  listed.congr rfl rfl rfl rfl fun _ _ => rfl

end

/-- A connection is put at the end of the list of its port. -/
structure Enqueued (s s' : State) (lists : PortNr → List ConnNr) (c : ConnNr) : Prop where
  listed : Listed s' (update lists (s.port c) (lists (s.port c) ++ [c]))
  conn : s'.conn = s.conn
  port : s'.port = s.port
  more2write : s'.more2write = update s.more2write c true
  links : ∀ x ≠ c, s.more2write x = false → s'.sendLink x = s.sendLink x

section

variable (listed : Listed s lists)
include listed

theorem Listed.flagged_add (c : ConnNr) (q : PortNr) (d : ConnNr) :
    d ∈ update lists (s.port c) (lists (s.port c) ++ [c]) q ↔
      update s.more2write c true d = true ∧ s.port d = q := by
  by_cases here : q = s.port c
  · subst here
    rw [update_self, List.mem_append, List.mem_singleton, listed.flagged]
    by_cases same : d = c
    · simp [same]
    · rw [update_of_ne same, or_iff_left same]
  · rw [update_of_ne here, listed.flagged]
    by_cases same : d = c
    · subst same
      exact ⟨fun both => absurd both.2.symm here, fun both => absurd both.2.symm here⟩
    · rw [update_of_ne same]

theorem Listed.tails_append (p : PortNr) (c : ConnNr) (q : PortNr) :
    ∀ last ∈ (update lists p (lists p ++ [c]) q).getLast?,
      update s.tail p (some c) q = some last := by
  intro last ends
  by_cases here : q = p
  · subst here
    rw [update_self, List.getLast?_concat] at ends
    rw [update_self]
    exact ends
  · rw [update_of_ne here] at ends ⊢
    exact listed.tails q last ends

/-- The connection ends up on the list of its port, and the port may be written. -/
theorem connWrite_enqueued {enq : Bool} (off : s.more2write c = false)
    (written : connWrite s c enq = some s') : Enqueued s s' lists c := by
  have fresh := listed.notMem off
  have chains : Chains (update s.sendLink c none) s.head lists :=
    listed.chains.congr fun p d member =>
      update_of_ne (ne_of_mem_of_not_mem member (fresh p)) _ _
  have first := (listed.chains.chain (s.port c)).head_eq
  unfold connWrite at written
  split at written
  case isTrue => cases written
  rw [if_neg (by rw [off]; decide)] at written
  cases at' : s.head (s.port c) with
  | none =>
    have empty : lists (s.port c) = [] := List.head?_eq_none_iff.mp (first.symm.trans at')
    have single : Chains (update s.sendLink c none) (update s.head (s.port c) (some c)) _ :=
      chains.single fresh (update_self c none s.sendLink)
    simp only [at'] at written
    -- only the event and the step of the writer differ
    obtain ⟨sndEvent, control, rfl⟩ : ∃ sndEvent control, s' = { s with
        more2write := update s.more2write c true
        sendLink := update s.sendLink c none
        head := update s.head (s.port c) (some c)
        tail := update s.tail (s.port c) (some c)
        sndEvent
        control } := by
      split at written
      · exact ⟨_, _, (some.inj written).symm⟩
      · unfold portWrite at written
        obtain ⟨-, written⟩ := ite_none_left_eq_some.mp written
        exact ⟨_, _, (some.inj written).symm⟩
    refine ⟨⟨?_, listed.flagged_add c, listed.tails_append (s.port c) c⟩, rfl, rfl, rfl,
      fun x other _ => update_of_ne other _ _⟩
    rw [empty]
    exact single
  | some node =>
    simp only [at'] at written
    obtain ⟨last, ends, rfl⟩ := map_eq_some_iff.mp written
    have occupied : lists (s.port c) ≠ [] := fun empty => by
      rw [empty, at'] at first
      cases first
    have final : (lists (s.port c)).getLast? = some last := by
      rw [← ends, listed.tails _ _ (List.getLast?_eq_getLast_of_ne_nil occupied)]
      exact List.getLast?_eq_getLast_of_ne_nil occupied
    have member : last ∈ lists (s.port c) := List.mem_of_getLast? final
    refine ⟨⟨chains.append final fresh (update_self c none s.sendLink),
      listed.flagged_add c, listed.tails_append (s.port c) c⟩, rfl, rfl, rfl,
      fun x other off' => ?_⟩
    have apart : x ≠ last := fun same => listed.notMem off' _ (same ▸ member)
    exact (update_of_ne apart _ _).trans (update_of_ne other _ _)

end

/-! ### Closing -/

/-- The lists without a connection. -/
def without (lists : PortNr → List ConnNr) (c : ConnNr) (p : PortNr) : List ConnNr :=
  (lists p).filter (· != c)

/-- A connection is taken off its list. -/
structure Removed (s s' : State) (lists : PortNr → List ConnNr) (c : ConnNr) : Prop where
  listed : Listed s' (without lists c)
  port : s'.port = s.port
  control : s'.control = s.control
  flags : s'.more2write = update s.more2write c false
  links : ∀ x ≠ c, s.more2write x = false → s'.sendLink x = s.sendLink x

section

variable (listed : Listed s lists)
include listed

theorem Listed.nodup (p : PortNr) : (lists p).Nodup :=
  (listed.chains.chain p).nodup

theorem without_eq {front back : List ConnNr} (here : lists (s.port c) = front ++ c :: back) :
    without lists c = update lists (s.port c) (front ++ back) := by
  funext q
  by_cases same : q = s.port c
  · subst same
    have nodup := listed.nodup (s.port c)
    rw [update_self, without, ← nodup.erase_eq_filter, here]
    rw [here] at nodup
    exact LinkedList.erase_middle nodup
  · rw [update_of_ne same, without, List.filter_eq_self]
    intro d member
    have apart : d ≠ c := fun equal => by
      subst equal
      exact same ((listed.flagged q d).mp member).2.symm
    simpa using apart

theorem flagged_without (q : PortNr) (d : ConnNr) :
    d ∈ without lists c q ↔ update s.more2write c false d = true ∧ s.port d = q := by
  rw [without, List.mem_filter, listed.flagged]
  by_cases same : d = c
  · simp [same]
  · simp [same]

theorem Listed.pop {rest : List ConnNr} (here : lists (s.port c) = c :: rest) :
    Listed { s with
      more2write := update s.more2write c false
      head := update s.head (s.port c) (s.sendLink c) } (without lists c) := by
  have removed : without lists c = update lists (s.port c) ([] ++ rest) :=
    without_eq listed here
  refine ⟨?_, flagged_without listed, fun q last ends => listed.tails q last ?_⟩
  · rw [removed]
    exact listed.chains.pop here
  · rw [removed] at ends
    by_cases same : q = s.port c
    · subst same
      rw [update_self, List.nil_append] at ends
      rw [here, List.getLast?_cons, ends]
      rfl
    · rw [update_of_ne same] at ends
      exact ends

/-- The loop finds the connection in front, and the pointers around the connection are set. -/
theorem unlink_removed (unlinked : unlink s c = some s') :
    Removed s { s' with more2write := update s.more2write c false } lists c ∧
      s'.conn = s.conn ∧ s'.sendLink c = s.sendLink c ∧ s'.more2write = s.more2write := by
  have chain := listed.chains.chain (s.port c)
  have enough : (lists (s.port c)).length ≤ tcpConnNr := by
    simpa using chain.length_le
  unfold unlink at unlinked
  simp only [chain.scan_eq _ enough, Option.bind_some] at unlinked
  cases found : locate (fun tc => s.sendLink tc == some c) none (lists (s.port c)) with
  | none =>
    rw [found] at unlinked
    simp only at unlinked
    obtain ⟨first, unlinked⟩ := ite_none_right_eq_some.mp unlinked
    obtain rfl := some.inj unlinked
    obtain ⟨back, here⟩ : ∃ back, lists (s.port c) = c :: back := by
      rw [chain.head_eq] at first
      exact List.head?_eq_some_iff.mp first
    exact ⟨⟨listed.pop here, rfl, rfl, rfl, fun _ _ _ => rfl⟩, rfl, rfl, rfl⟩
  | some result =>
    obtain ⟨before, tc⟩ := result
    rw [found] at unlinked
    obtain rfl := some.inj unlinked
    obtain ⟨front, rest, split, links, -, -⟩ := LinkedList.locate_eq_some found
    rw [split] at chain
    -- the node behind the one that is found is the connection
    obtain ⟨back, rfl⟩ : ∃ back, rest = c :: back := by
      rw [chain.behind.head_eq] at links
      exact List.head?_eq_some_iff.mp (by simpa using links)
    have here : lists (s.port c) = (front ++ [tc]) ++ c :: back := by rw [split]; simp
    have next : s.sendLink c = back.head? := chain.behind.2.head_eq
    have apart : tc ≠ c := fun same => by
      have nodup := listed.nodup (s.port c)
      simp [split, same, List.nodup_append] at nodup
    have removed := without_eq listed here
    refine ⟨⟨⟨?_, flagged_without listed, fun q last ends => ?_⟩, rfl, rfl, rfl,
      fun x _ off => ?_⟩, rfl, update_of_ne apart.symm _ _, rfl⟩
    · rw [removed, List.append_assoc, List.singleton_append]
      exact listed.chains.unlink split
    · rw [removed] at ends
      by_cases same : q = s.port c
      · subst same
        rw [update_self] at ends
        cases back with
        | nil =>
          rw [List.append_nil, List.getLast?_concat] at ends
          simp only [next, List.head?_nil, if_true, update_self]
          exact ends
        | cons d back =>
          simp only [next, List.head?_cons, reduceCtorEq, if_false]
          refine listed.tails _ last ?_
          rw [here, List.getLast?_append_cons, List.getLast?_cons_cons]
          rwa [List.getLast?_append_cons] at ends
      · rw [update_of_ne same] at ends
        have kept := listed.tails q last ends
        change (if s.sendLink c = none then update s.tail (s.port c) (some tc)
          else s.tail) q = some last
        split
        · rw [update_of_ne same, kept]
        · exact kept
    · have member : tc ∈ lists (s.port c) := by simp [split]
      have other : x ≠ tc := fun same => listed.notMem off _ (same ▸ member)
      exact update_of_ne other _ _

end

/-- What `tcp_close_connection` does to a connection that is not closed yet. -/
structure Closed (s s' : State) (lists : PortNr → List ConnNr) (c : ConnNr) : Prop
    extends Removed s s' lists c where
  conn : s'.conn = update s.conn c (s'.conn c)
  closed : (s'.conn c).core.tcState = .closed
  spent : (s'.conn c).frag2send = false
  ttl : (s'.conn c).ttl = (s.conn c).ttl
  link : s.more2write c = true → s'.sendLink c = s.sendLink c

theorem tcpCloseConnection_closed (core : TcpConn) :
    (tcpCloseConnection core).tcState = .closed := by
  unfold tcpCloseConnection
  split
  case isTrue closed => exact closed
  case isFalse => rfl

theorem without_off (listed : Listed s lists) (off : s.more2write c = false) :
    without lists c = lists := by
  funext q
  rw [without, List.filter_eq_self]
  intro d member
  have apart : d ≠ c := fun same => listed.notMem off q (same ▸ member)
  simpa using apart

theorem without_append : without (update lists p (lists p ++ [c])) c = without lists c := by
  funext q
  by_cases here : q = p
  · subst here
    simp [without]
  · rw [without, update_of_ne here, without]

theorem connWrite_control {enq : Bool} (written : connWrite s c enq = some s') :
    s'.control = s.control ∨ enq = false ∧ ∃ p, s'.control = .head p := by
  simp only [connWrite] at written
  split at written
  · cases written
  split at written
  · exact .inl (by rw [← some.inj written])
  split at written
  · split at written
    case isTrue => exact .inl (by rw [← some.inj written])
    case isFalse later =>
      obtain ⟨-, written⟩ := ite_none_left_eq_some.mp written
      exact .inr ⟨by simpa using later, s.port c, by rw [← some.inj written]⟩
  · obtain ⟨last, -, rfl⟩ := map_eq_some_iff.mp written
    exact .inl rfl

/-- The answer to a user who waits may put the connection on the list, from which it is taken. -/
theorem answered_removed {s₂ s₃ : State} {pending : Bool} (listed : Listed s lists)
    (answered : (if pending then connWrite s c true else some s) = some s₂)
    (unlinked : (if s₂.more2write c then unlink s₂ c else some s₂) = some s₃) :
    Removed s { s₃ with more2write := update s₃.more2write c false } lists c ∧
      s₃.conn = s.conn ∧ (s.more2write c = true → s₃.sendLink c = s.sendLink c) := by
  cases on : s.more2write c with
  | true =>
    -- it is on the list already
    obtain rfl : s₂ = s := by
      split at answered
      · simp only [connWrite, on, if_true] at answered
        obtain ⟨-, answered⟩ := ite_none_left_eq_some.mp answered
        exact (some.inj answered).symm
      · exact (some.inj answered).symm
    rw [if_pos on] at unlinked
    obtain ⟨removed, conn, link, flags⟩ := unlink_removed listed unlinked
    rw [flags]
    exact ⟨removed, conn, fun _ => link⟩
  | false =>
    cases pending with
    | false =>
      obtain rfl : s₂ = s := (some.inj answered).symm
      rw [if_neg (by rw [on]; decide)] at unlinked
      obtain rfl : s₃ = s₂ := (some.inj unlinked).symm
      have same : update s₃.more2write c false = s₃.more2write :=
        update_eq_self_iff.mpr on.symm
      refine ⟨⟨?_, rfl, rfl, rfl, fun _ _ _ => rfl⟩, rfl, fun wrong => by cases wrong⟩
      rw [without_off listed on]
      exact listed.congr rfl rfl rfl same fun _ _ => rfl
    | true =>
      have queued := connWrite_enqueued listed on answered
      have control := (connWrite_control answered).resolve_right fun wrong => by cases wrong.1
      have flag : s₂.more2write c = true := by rw [queued.more2write, update_self]
      rw [if_pos flag] at unlinked
      obtain ⟨removed, conn, link, flags⟩ := unlink_removed queued.listed unlinked
      rw [flags]
      refine ⟨⟨?_, removed.port.trans queued.port, removed.control.trans control, ?_,
        fun x other off => ?_⟩, conn.trans queued.conn, fun wrong => by cases wrong⟩
      · rw [← without_append]
        exact removed.listed
      · rw [queued.more2write, update_idem]
      · rw [removed.links x other, queued.links x other off]
        rw [queued.more2write, update_of_ne other, off]

theorem closeConnection_closed (listed : Listed s lists) (closable : (s.conn c).closable = true)
    (done : closeConnection s c = some s') : Closed s s' lists c := by
  obtain ⟨inuse, opened⟩ : (s.conn c).inuse = true ∧ (s.conn c).core.tcState ≠ .closed := by
    simpa [Conn.closable] using closable
  simp only [closeConnection, inuse, reduceCtorEq, if_false, if_neg opened] at done
  obtain ⟨s₂, answered, rest⟩ := bind_eq_some_iff.mp done
  obtain ⟨s₃, unlinked, rfl⟩ := map_eq_some_iff.mp rest
  obtain ⟨removed, conn, link⟩ := answered_removed (listed.setConn c _) answered unlinked
  have here : s₃.conn c =
      { core := tcpCloseConnection (s.conn c).core, inuse := true, ttl := (s.conn c).ttl } := by
    rw [conn]
    exact update_self _ _ _
  refine ⟨⟨removed.listed, removed.port, removed.control, removed.flags, removed.links⟩, ?_, ?_, ?_,
    ?_, link⟩
  · change s₃.conn = update s.conn c (s₃.conn c)
    rw [here, conn]
    rfl
  · change (s₃.conn c).core.tcState = .closed
    rw [here]
    exact tcpCloseConnection_closed _
  · change (s₃.conn c).frag2send = false
    rw [here]
  · change (s₃.conn c).ttl = _
    rw [here]

theorem closeConnection_same (closable : (s.conn c).closable = false)
    (done : closeConnection s c = some s') : s' = s := by
  simp only [closeConnection] at done
  obtain ⟨inuse, done⟩ := ite_none_left_eq_some.mp done
  have closed : (s.conn c).core.tcState = .closed := by
    simpa [Conn.closable, inuse] using closable
  rw [if_pos closed] at done
  exact (some.inj done).symm

/-! ### Shortages -/

/-- The connections of the list are closed, as far as they can be. -/
structure Shortened (s s' : State) (lists : PortNr → List ConnNr) (closed : List ConnNr) : Prop where
  listed : Listed s' fun p => survivors s closed (lists p)
  port : s'.port = s.port
  control : s'.control = s.control
  conn : ∀ d, d ∉ closed ∨ (s.conn d).closable = false → s'.conn d = s.conn d
  closed : ∀ d ∈ closed, (s.conn d).closable = true →
    (s'.conn d).core.tcState = .closed ∧ (s'.conn d).frag2send = false
  ttl : ∀ d, (s'.conn d).ttl = (s.conn d).ttl
  links : ∀ x, s.more2write x = false → (s.conn x).closable = false →
    s'.sendLink x = s.sendLink x ∧ s'.more2write x = false

theorem closable_of_closed {conn : Conn} (closed : conn.core.tcState = .closed) :
    conn.closable = false := by
  rw [Conn.closable, closed]
  exact Bool.and_false _

theorem buffree_cases (listed : Listed s lists) (freed : buffree none s d = some s') :
    (s.conn d).closable = false ∧ s' = s ∨ (s.conn d).closable = true ∧ Closed s s' lists d := by
  unfold buffree at freed
  cases closable : (s.conn d).closable with
  | false =>
    refine .inl ⟨rfl, ?_⟩
    split at freed
    · exact (some.inj freed).symm
    · exact closeConnection_same closable freed
  | true =>
    have inuse : (s.conn d).inuse = true := (Bool.and_eq_true_iff.mp closable).1
    rw [if_neg (by simp [inuse])] at freed
    exact .inr ⟨rfl, closeConnection_closed listed closable freed⟩

theorem survivors_skip (same : (s.conn d).closable = false) (closed nodes : List ConnNr) :
    survivors s (d :: closed) nodes = survivors s closed nodes := by
  refine List.filter_congr fun x _ => ?_
  by_cases here : x = d
  · rw [here, same, Bool.and_false, Bool.and_false]
  · rw [List.contains_cons, beq_false_of_ne here, Bool.false_or]

theorem survivors_close (gone : Closed s s' lists d) (closed nodes : List ConnNr)
    (closable : (s.conn d).closable = true) :
    survivors s' closed (nodes.filter (· != d)) = survivors s (d :: closed) nodes := by
  unfold survivors
  rw [List.filter_filter]
  refine List.filter_congr fun x _ => ?_
  by_cases here : x = d
  · simp [here, closable]
  · have conn : s'.conn x = s.conn x := by rw [gone.conn, update_of_ne here]
    simp [here, conn]

/-- By induction on the connections that are closed. -/
theorem foldlM_shortened (listed : Listed s lists)
    (freed : closed.foldlM (buffree none) s = some s') : Shortened s s' lists closed := by
  induction closed generalizing s lists with
  | nil =>
    obtain rfl := some.inj freed
    have all (nodes : List ConnNr) : survivors s [] nodes = nodes := List.filter_eq_self.mpr
      fun d _ => rfl
    refine ⟨?_, rfl, rfl, fun _ _ => rfl, fun _ member => absurd member List.not_mem_nil,
      fun _ => rfl, fun _ off _ => ⟨rfl, off⟩⟩
    simp only [all]
    exact listed
  | cons d closed inductionHypothesis =>
    rw [List.foldlM_cons] at freed
    obtain ⟨s₁, first, rest⟩ := bind_eq_some_iff.mp freed
    rcases buffree_cases listed first with ⟨stays, rfl⟩ | ⟨closable, gone⟩
    · obtain ⟨listed', port, control, conn, shut, ttl, links⟩ := inductionHypothesis listed rest
      refine ⟨?_, port, control, fun x kept => conn x ?_, fun x member closable => ?_, ttl, links⟩
      · simp only [survivors_skip stays]
        exact listed'
      · exact kept.imp_left fun out inside => out (List.mem_cons_of_mem _ inside)
      · refine shut x ((List.mem_cons.mp member).resolve_left fun same => ?_) closable
        rw [same, stays] at closable
        cases closable
    · obtain ⟨listed', port, control, conn, shut, ttl, links⟩ :=
        inductionHypothesis gone.listed rest
      have later := closable_of_closed gone.closed
      have other (x : ConnNr) (apart : x ≠ d) : s₁.conn x = s.conn x := by
        rw [gone.conn, update_of_ne apart]
      simp only [without, survivors_close gone _ _ closable] at listed'
      refine ⟨listed', port.trans gone.port, control.trans gone.control, fun x kept => ?_,
        fun x member closable' => ?_, fun x => (ttl x).trans ?_, fun x off stays => ?_⟩
      · have apart : x ≠ d := by
          rintro rfl
          rcases kept with out | stays
          · exact out List.mem_cons_self
          · rw [closable] at stays
            cases stays
        rw [conn x, other x apart]
        rw [other x apart]
        exact kept.imp_left fun out inside => out (List.mem_cons_of_mem _ inside)
      · by_cases same : x = d
        · rw [same, conn d (.inr later)]
          exact ⟨gone.closed, gone.spent⟩
        · refine shut x ((List.mem_cons.mp member).resolve_left same) ?_
          rw [other x same]
          exact closable'
      · by_cases same : x = d
        · rw [same, gone.ttl]
        · rw [other x same]
      · have apart : x ≠ d := by
          rintro rfl
          rw [closable] at stays
          cases stays
        have off' : s₁.more2write x = false := by
          rw [gone.flags, update_of_ne apart, off]
        have both := links x off' (by rw [other x apart]; exact stays)
        rw [gone.links x apart off] at both
        exact both

/-- The connection that the writer works for has been closed: it is on no list, and its successor
is where the list begins. -/
structure Gone (s : State) (p : PortNr) (c : ConnNr) : Prop where
  off : s.more2write c = false
  port : s.port c = p
  link : s.sendLink c = s.head p
  closed : (s.conn c).core.tcState = .closed
  spent : (s.conn c).frag2send = false

theorem behind_eq {rest : List ConnNr} (listed : Listed s lists) (here : lists p = c :: rest) :
    behind s c = rest := by
  have chain := listed.chains.chain p
  rw [here] at chain
  have short : (c :: rest).length ≤ tcpConnNr := by simpa using chain.length_le
  exact chain.2.visited_eq (Nat.le_of_succ_le short)

theorem survivors_cons {closed rest : List ConnNr} (stays : c ∉ closed ∨ (s.conn c).closable = false) :
    survivors s closed (c :: rest) = c :: survivors s closed rest := by
  refine List.filter_cons_of_pos ?_
  rcases stays with out | stays
  · simp [out]
  · simp [stays]

theorem shortened_gone {closed rest : List ConnNr} (listed : Listed s lists)
    (here : lists p = c :: rest) (member : c ∈ closed) (closable : (s.conn c).closable = true)
    (freed : closed.foldlM (buffree none) s = some s')
    (undisturbed : (survivors s (closed.takeWhile (· ≠ c)) rest).head? =
      (survivors s closed rest).head?) : Gone s' p c := by
  have onList : c ∈ lists p := by rw [here]; exact List.mem_cons_self
  obtain ⟨on, port⟩ := (listed.flagged p c).mp onList
  have whole := foldlM_shortened listed freed
  obtain ⟨shut, spent⟩ := whole.closed c member closable
  obtain ⟨before, after, split, out⟩ := List.eq_append_cons_of_mem member
  have first : closed.takeWhile (· ≠ c) = before := by
    rw [split, List.takeWhile_append_of_pos fun d inside => by
      simpa using ne_of_mem_of_not_mem inside out, List.takeWhile_cons_of_neg (by simp),
      List.append_nil]
  rw [first] at undisturbed
  rw [split, List.foldlM_append] at freed
  obtain ⟨s₁, freed₁, rest₁⟩ := bind_eq_some_iff.mp freed
  rw [List.foldlM_cons] at rest₁
  obtain ⟨s₂, freed₂, freed₃⟩ := bind_eq_some_iff.mp rest₁
  -- up to the connection, the connection itself, and those after it
  have short₁ := foldlM_shortened listed freed₁
  have conn₁ := short₁.conn c (.inl out)
  have head₁ : survivors s before (lists p) = c :: survivors s before rest := by
    rw [here, survivors_cons (.inl out)]
  have link₁ : s₁.sendLink c = (survivors s before rest).head? := by
    have chain := short₁.listed.chains.chain p
    rw [head₁] at chain
    exact chain.2.head_eq
  have on₁ : s₁.more2write c = true :=
    ((short₁.listed.flagged p c).mp (by rw [head₁]; exact List.mem_cons_self)).1
  obtain ⟨-, gone⟩ := (buffree_cases short₁.listed freed₂).resolve_left fun wrong => by
    rw [conn₁, closable] at wrong
    exact Bool.noConfusion wrong.1
  have off₂ : s₂.more2write c = false := by rw [gone.flags, update_self]
  have short₃ := foldlM_shortened gone.listed freed₃
  obtain ⟨link₃, off₃⟩ := short₃.links c off₂ (closable_of_closed gone.closed)
  refine ⟨off₃, by rw [whole.port, port], ?_, shut, spent⟩
  rw [link₃, gone.link on₁, link₁, undisturbed, (whole.listed.chains.chain p).head_eq, here]
  -- the connection itself is not left on its list
  rw [survivors, survivors, List.filter_cons_of_neg (by simp [member, closable])]

/-! ### Calls -/

/-- What every call keeps: the lists are right, and a connection that is off its list is closed. -/
structure Called (s s' : State) : Prop where
  listed : ∃ lists, Listed s' lists
  left : ∀ d, s.more2write d = true → s'.more2write d = false →
    (s'.conn d).core.tcState = .closed
  stays : ∀ d, (s.conn d).core.tcState = .closed → (s'.conn d).core.tcState = .closed

theorem Called.same (listed : Listed s lists) : Called s s :=
  ⟨⟨lists, listed⟩, fun _ on off => absurd (on.symm.trans off) (by decide), fun _ => id⟩

theorem Called.trans {s₁ s₂ s₃ : State} (first : Called s₁ s₂) (second : Called s₂ s₃) :
    Called s₁ s₃ where
  listed := second.listed
  left d on off := by
    cases between : s₂.more2write d with
    | true => exact second.left d between off
    | false => exact second.stays d (first.left d on between)
  stays d closed := second.stays d (first.stays d closed)

theorem Called.of_same (listed : Listed s' lists) (flags : s'.more2write = s.more2write)
    (states : ∀ d, (s'.conn d).core.tcState = (s.conn d).core.tcState) : Called s s' where
  listed := ⟨lists, listed⟩
  left d on off := by
    rw [flags, on] at off
    cases off
  stays d closed := (states d).trans closed

theorem connWrite_called {enq : Bool} (listed : Listed s lists)
    (written : connWrite s c enq = some s') : Called s s' := by
  cases on : s.more2write c with
  | true =>
    simp only [connWrite, on, if_true] at written
    obtain ⟨-, written⟩ := ite_none_left_eq_some.mp written
    obtain rfl := some.inj written
    exact .same listed
  | false =>
    have queued := connWrite_enqueued listed on written
    refine ⟨⟨_, queued.listed⟩, fun d on' off => ?_, fun d closed => by rw [queued.conn]; exact closed⟩
    rw [queued.more2write] at off
    by_cases same : d = c
    · rw [same, update_self] at off
      cases off
    · rw [update_of_ne same, on'] at off
      cases off

theorem Closed.called (gone : Closed s s' lists c) : Called s s' where
  listed := ⟨_, gone.listed⟩
  left d on off := by
    by_cases same : d = c
    · rw [same]
      exact gone.closed
    · rw [gone.flags, update_of_ne same, on] at off
      cases off
  stays d closed := by
    by_cases same : d = c
    · rw [same]
      exact gone.closed
    · rw [gone.conn, update_of_ne same]
      exact closed

theorem closeConnection_called (listed : Listed s lists) (done : closeConnection s c = some s') :
    Called s s' := by
  cases closable : (s.conn c).closable with
  | true => exact (closeConnection_closed listed closable done).called
  | false =>
    rw [closeConnection_same closable done]
    exact .same listed

theorem foldlM_called {busy : Option ConnNr} (listed : Listed s lists)
    (freed : closed.foldlM (buffree busy) s = some s') : Called s s' := by
  induction closed generalizing s lists with
  | nil =>
    obtain rfl := some.inj freed
    exact .same listed
  | cons d closed inductionHypothesis =>
    rw [List.foldlM_cons] at freed
    obtain ⟨s₁, first, rest⟩ := bind_eq_some_iff.mp freed
    unfold buffree at first
    split at first
    · obtain rfl := some.inj first
      exact inductionHypothesis listed rest
    · have one := closeConnection_called listed first
      obtain ⟨lists₁, listed₁⟩ := one.listed
      exact one.trans (inductionHypothesis listed₁ rest)

theorem freeFrags_called (busy : Option ConnNr) (frags : List ConnNr) (listed : Listed s lists) :
    Called s (freeFrags busy s frags) := by
  refine .of_same (listed.congr rfl rfl rfl rfl fun _ _ => rfl) rfl fun d => ?_
  unfold freeFrags
  dsimp only
  split <;> rfl

section

variable (listed : Listed s lists)
include listed

theorem shortage_called {busy : Option ConnNr} {short : Shortage}
    (freed : shortage busy s short = some s') : Called s s' := by
  have first := freeFrags_called busy short.frags listed
  obtain ⟨lists₁, listed₁⟩ := first.listed
  exact first.trans (foldlM_called listed₁ freed)

theorem notreach_called (done : notreach s c = some s') :
    Called s s' := by
  simp only [notreach] at done
  split at done
  · split at done
    · exact closeConnection_called listed done
    · obtain rfl := some.inj done
      exact .same listed
  · have listed₁ := listed.setConn c { s.conn c with
      core := { (s.conn c).core with tcStt := 0, tcSNDTRM := (s.conn c).core.tcSNDUNA }
      ttl := nextTtl (s.conn c).ttl }
    refine Called.trans (.of_same listed₁ rfl fun d => ?_) (connWrite_called listed₁ done)
    by_cases same : d = c
    · subst same
      exact congrArg (fun conn => conn.core.tcState) (update_self d _ s.conn)
    · exact congrArg (fun conn => conn.core.tcState) (update_of_ne same _ s.conn)

theorem portWrite_called (called : portWrite s p = some s') :
    Called s s' ∧ s'.control = .head p := by
  obtain ⟨-, called⟩ := ite_none_left_eq_some.mp called
  obtain rfl := some.inj called
  exact ⟨.of_same (listed.congr rfl rfl rfl rfl fun _ _ => rfl) rfl fun _ => rfl, rfl⟩

theorem closeConnection_control (done : closeConnection s c = some s') :
    s'.control = s.control := by
  cases closable : (s.conn c).closable with
  | true => exact (closeConnection_closed listed closable done).control
  | false => rw [closeConnection_same closable done]

theorem notreach_control (done : notreach s c = some s') :
    s'.control = s.control := by
  simp only [notreach] at done
  split at done
  · split at done
    · exact closeConnection_control listed done
    · rw [← some.inj done]
  · exact (connWrite_control done).resolve_right fun wrong => by cases wrong.1

theorem getData_called {unreached : Bool} (done : getData s p unreached = some s') :
    Called s s' ∧ (s'.control = s.control ∨ s'.control = .head p) := by
  unfold getData at done
  split at done
  case isTrue => cases done
  obtain ⟨s₁, reached, rest⟩ := bind_eq_some_iff.mp done
  obtain ⟨first, control⟩ : Called s s₁ ∧ s₁.control = s.control := by
    split at reached
    · split at reached
      · exact ⟨notreach_called listed reached, notreach_control listed reached⟩
      · obtain rfl := some.inj reached
        exact ⟨.same listed, rfl⟩
    · obtain rfl := some.inj reached
      exact ⟨.same listed, rfl⟩
  obtain ⟨lists₁, listed₁⟩ := first.listed
  split at rest
  · dsimp only at rest
    split at rest
    · obtain rfl := some.inj rest
      exact ⟨first.trans (.of_same (listed₁.congr rfl rfl rfl rfl fun _ _ => rfl) rfl fun _ => rfl),
        .inl control⟩
    · have listed₂ : Listed { s₁ with
          writeIp := update s₁.writeIp p false
          writeSp := update s₁.writeSp p false } lists₁ :=
        listed₁.congr rfl rfl rfl rfl fun _ _ => rfl
      obtain ⟨second, next⟩ := portWrite_called listed₂ rest
      exact ⟨first.trans ((Called.of_same (s := s₁) listed₂ rfl fun _ => rfl).trans second), .inr next⟩
  · obtain rfl := some.inj rest
    exact ⟨first.trans (.of_same (listed₁.congr rfl rfl rfl rfl fun _ _ => rfl) rfl fun _ => rfl),
      .inl control⟩

end

end Calls

/-! ### Steps -/

/-- What holds where `tcp_port_write` is: the connection it works for is the first of its list, or
it has been closed. -/
def ControlRight (s : State) (lists : PortNr → List ConnNr) : Prop :=
  match s.control with
  | .pack p c => (∃ rest, lists p = c :: rest) ∨ Gone s p c
  | .send p c => ∃ rest, lists p = c :: rest
  | _ => True

/-- The invariant. -/
def Right (s : State) : Prop := ∃ lists, Listed s lists ∧ ControlRight s lists

section Steps

variable {s s' : State} {lists : PortNr → List ConnNr} {c d : ConnNr} {p : PortNr}
  {totHdrSize : UInt32} {currTime : Int}

theorem Called.right (called : Called s s')
    (control : s'.control = .idle ∨ (∃ p, s'.control = .head p) ∨ ∃ p c, s'.control = .write p c)
    (label : Label) : Right s' ∧ ∀ d, s.more2write d = true → s'.more2write d = false →
      NothingToSend s' d label := by
  obtain ⟨lists, listed⟩ := called.listed
  refine ⟨⟨lists, listed, ?_⟩, fun d on off => .inl (called.left d on off)⟩
  unfold ControlRight
  rcases control with same | ⟨p, same⟩ | ⟨p, c, same⟩ <;> rw [same] <;> exact trivial

theorem sendData_same {core core' : TcpConn} (sent : sendData currTime totHdrSize core = some core')
    (same : core'.tcSNDTRM = core.tcSNDTRM) : core' = core := by
  simp only [sendData] at sent
  split at sent
  · exact (some.inj sent).symm
  split at sent
  · cases sent
  split at sent
  · exact (some.inj sent).symm
  split at sent
  · cases sent
  split at sent
  · exact (some.inj sent).symm
  split at sent
  · exact (some.inj sent).symm
  case isFalse data _ =>
    obtain rfl := some.inj sent
    refine absurd ?_ data
    rw [← same]
    unfold sendSegment
    split <;> rfl

theorem makePack_none {conn conn' : Conn}
    (made : makePack currTime totHdrSize conn = some (conn', false)) : conn' = conn := by
  have syn (made : (if conn.core.tcSNDTRM = conn.core.tcSNDNXT ∧ conn.sendAck = false then
        some (conn, false) else some ({ conn with core := sendSyn conn.core, sendAck := false }, true)) =
      some (conn', false)) : conn' = conn := by
    split at made
    · exact (Prod.mk.inj (some.inj made)).1.symm
    · cases (Prod.mk.inj (some.inj made)).2
  have opened (made : ((sendData currTime totHdrSize conn.core).map fun core =>
      ({ conn with core, sendAck := false },
        conn.sendAck || core.tcSNDTRM != conn.core.tcSNDTRM)) = some (conn', false)) :
      conn' = conn := by
    obtain ⟨core, sent, both⟩ := map_eq_some_iff.mp made
    obtain ⟨rfl, quiet⟩ := Prod.mk.inj both
    obtain ⟨ack, same⟩ := Bool.or_eq_false_iff.mp quiet
    rw [sendData_same sent (by simpa using same), ← ack]
  unfold makePack at made
  cases state : conn.core.tcState <;> simp only [state] at made
  case closed => exact (Prod.mk.inj (some.inj made)).1.symm
  case listen => cases made
  case synReceived => exact syn made
  case synSent => exact syn made
  case established => exact opened made
  case closing => exact opened made

theorem foldlM_busy (closed : List ConnNr) : closed.foldlM (buffree (some c)) s =
    (closed.filter (· != c)).foldlM (buffree none) s := by
  induction closed generalizing s with
  | nil => rfl
  | cons d closed inductionHypothesis =>
    rw [List.foldlM_cons, List.filter_cons]
    by_cases same : d = c
    · rw [if_neg (by simp [same]), same]
      have busy : buffree (some c) s c = some s := if_pos (.inr rfl)
      rw [busy]
      exact inductionHypothesis
    · have free : buffree (some c) s d = buffree none s d := by
        simp only [buffree, Option.some.injEq, Ne.symm same, reduceCtorEq]
      rw [if_pos (by simp [same]), List.foldlM_cons, free]
      simp only [inductionHypothesis]

theorem shortage_busy {short : Shortage} (listed : Listed s lists) {rest : List ConnNr}
    (here : lists p = c :: rest) (freed : shortage (some c) s short = some s') :
    (∃ lists' rest', Listed s' lists' ∧ lists' p = c :: rest') ∧ s'.conn c = s.conn c ∧
      s'.port = s.port := by
  unfold shortage at freed
  rw [foldlM_busy] at freed
  have listed₁ : Listed (freeFrags (some c) s short.frags) lists :=
    listed.congr rfl rfl rfl rfl fun _ _ => rfl
  have conn₁ : (freeFrags (some c) s short.frags).conn c = s.conn c := by
    simp [freeFrags]
  have out : c ∉ short.closed.filter (· != c) := by simp
  obtain ⟨listed', port, -, conn, -, -, -⟩ := foldlM_shortened listed₁ freed
  have first : survivors (freeFrags (some c) s short.frags) (short.closed.filter (· != c)) (lists p) =
      c :: survivors (freeFrags (some c) s short.frags) (short.closed.filter (· != c)) rest := by
    rw [here, survivors_cons (.inl out)]
  exact ⟨⟨_, _, listed', first⟩, (conn c (.inl out)).trans conn₁, port⟩

/-- What a step comes to. -/
def Stepped (s s' : State) (label : Label) : Prop :=
  Right s' ∧ ∀ d, s.more2write d = true → s'.more2write d = false → NothingToSend s' d label

/-- The connection for which a packet is made has been closed: its list is left alone. -/
theorem stepPack_gone {short : Shortage} (listed : Listed s lists) (gone : Gone s p c)
    (stepped : stepPack s p c currTime totHdrSize short = some s') (label : Label) :
    Stepped s s' label := by
  have kept : (freeFrags (some c) s []).conn = s.conn := by
    funext d
    simp [freeFrags]
  simp only [stepPack, gone.spent, gone.closed, if_true, reduceCtorEq, if_false, shortage,
    List.foldlM_nil, Option.pure_def, Option.bind_some, kept] at stepped
  obtain ⟨⟨conn, made⟩, packed, rfl⟩ := map_eq_some_iff.mp stepped
  obtain ⟨rfl, rfl⟩ : s.conn c = conn ∧ false = made := by
    unfold makePack at packed
    rw [gone.closed] at packed
    exact Prod.mk.inj (some.inj packed)
  have flags : update s.more2write c false = s.more2write :=
    update_eq_self_iff.mpr gone.off.symm
  have head : update s.head p (s.sendLink c) = s.head :=
    update_eq_self_iff.mpr gone.link
  have conns : ((freeFrags (some c) s []).setConn c (s.conn c)).conn = s.conn := by
    rw [State.setConn, kept]
    exact update_eq_self c s.conn
  refine (@Called.of_same _ _ lists ?_ flags fun d => ?_).right (.inr (.inl ⟨p, rfl⟩)) label
  · exact listed.congr rfl head rfl flags fun _ _ => rfl
  · exact congrArg (fun conn => (conn d).core.tcState) conns

/-- A packet is made for the first connection of a list, or the connection leaves it. -/
theorem stepPack_first {short : Shortage} {rest : List ConnNr} (listed : Listed s lists)
    (here : lists p = c :: rest) (stepped : stepPack s p c currTime totHdrSize short = some s') :
    Stepped s s' (.makePack currTime totHdrSize short) := by
  have port : s.port c = p := ((listed.flagged p c).mp (here ▸ List.mem_cons_self)).2
  unfold stepPack at stepped
  split at stepped
  case isTrue =>
    obtain rfl := some.inj stepped
    refine ⟨⟨lists, listed.congr rfl rfl rfl rfl fun _ _ => rfl, rest, here⟩,
      fun d on off => ?_⟩
    exact absurd (on.symm.trans off) (by decide)
  case isFalse frag =>
    obtain ⟨s₁, freed, rest₁⟩ := bind_eq_some_iff.mp stepped
    obtain ⟨⟨conn, made⟩, packed, rfl⟩ := map_eq_some_iff.mp rest₁
    have called := shortage_called listed freed
    obtain ⟨⟨lists₁, rest', listed₁, here₁⟩, conn₁, port₁⟩ := shortage_busy listed here freed
    have on₁ : s₁.more2write c = true :=
      ((listed₁.flagged p c).mp (here₁ ▸ List.mem_cons_self)).1
    have other (d : ConnNr) (apart : d ≠ c) : (s₁.setConn c conn).conn d = s₁.conn d :=
      update_of_ne apart _ _
    cases made with
    | true =>
      refine ⟨⟨lists₁, (listed₁.setConn c conn).congr rfl rfl rfl rfl fun _ _ => rfl, rest', here₁⟩,
        fun d on off => .inl ?_⟩
      have apart : d ≠ c := fun same => by
        rw [same] at off
        exact absurd (on₁.symm.trans off) (by decide)
      exact (congrArg (fun conn => conn.core.tcState) (other d apart)).trans (called.left d on off)
    | false =>
      obtain rfl := makePack_none packed
      have same : s₁.setConn c (s₁.conn c) = s₁ := by
        rw [State.setConn, update_eq_self]
      have port' : s₁.port c = p := by rw [port₁, port]
      have here' : lists₁ (s₁.port c) = c :: rest' := by rw [port']; exact here₁
      have popped := listed₁.pop here'
      rw [port'] at popped
      simp only [same, if_false, Bool.false_eq_true]
      refine ⟨⟨_, popped.congr rfl rfl rfl rfl fun _ _ => rfl, trivial⟩, fun d on off => ?_⟩
      by_cases here' : d = c
      · rw [here']
        exact .inr ⟨currTime, totHdrSize, short, rfl, by simpa [conn₁] using frag, packed⟩
      · refine .inl (called.left d on ?_)
        simpa [update_of_ne here'] using off

/-- Where the writer may go on with a connection. -/
def Working (s : State) (p : PortNr) (c : ConnNr) : Prop :=
  ∃ lists, Listed s lists ∧ ((∃ rest, lists p = c :: rest) ∨ Gone s p c)

theorem Working.stepped (working : Working s p c) (called : Called s' s) (label : Label) :
    Stepped s' { s with control := .pack p c } label := by
  obtain ⟨lists, listed, where'⟩ := working
  refine ⟨⟨lists, listed.congr rfl rfl rfl rfl fun _ _ => rfl, ?_⟩, fun d on off =>
    .inl (called.left d on off)⟩
  exact where'.imp_right fun ⟨off, port, link, closed, spent⟩ => ⟨off, port, link, closed, spent⟩

section

variable (listed : Listed s lists)
include listed

theorem notreach_first {rest : List ConnNr} (here : lists p = c :: rest)
    (done : notreach s c = some s') : Working s' p c := by
  obtain ⟨on, port⟩ := (listed.flagged p c).mp (here ▸ List.mem_cons_self)
  simp only [notreach] at done
  split at done
  · split at done
    · cases closable : (s.conn c).closable with
      | true =>
        have gone := closeConnection_closed listed closable done
        have removed : without lists c = update lists (s.port c) ([] ++ rest) :=
          without_eq listed (by rw [port]; exact here)
        refine ⟨_, gone.listed, .inr ⟨?_, by rw [gone.port, port], ?_, gone.closed, gone.spent⟩⟩
        · rw [gone.flags, update_self]
        · have chain := listed.chains.chain p
          rw [here] at chain
          rw [gone.link on, chain.2.head_eq, (gone.listed.chains.chain p).head_eq, removed, port,
            update_self, List.nil_append]
      | false =>
        rw [closeConnection_same closable done]
        exact ⟨lists, listed, .inl ⟨rest, here⟩⟩
    · obtain rfl := some.inj done
      exact ⟨lists, listed, .inl ⟨rest, here⟩⟩
  · simp only [connWrite, State.setConn, update_self, on, if_true] at done
    obtain ⟨-, done⟩ := ite_none_left_eq_some.mp done
    obtain rfl := some.inj done
    exact ⟨lists, listed.congr rfl rfl rfl rfl fun _ _ => rfl, .inl ⟨rest, here⟩⟩

/-- The connection has been closed: it may be put on its list once more, which is empty. -/
theorem notreach_gone (gone : Gone s p c) (alone : (s.conn c).ttl ≠ ipMaxTtl → lists p = [])
    (done : notreach s c = some s') :
    Working s' p c := by
  simp only [notreach] at done
  split at done
  · rw [if_neg (by rw [gone.closed]; decide)] at done
    obtain rfl := some.inj done
    exact ⟨lists, listed, .inr gone⟩
  case isFalse more =>
    have queued := connWrite_enqueued (listed.setConn c _) gone.off done
    refine ⟨_, queued.listed, .inl ⟨[], ?_⟩⟩
    change update lists (s.port c) (lists (s.port c) ++ [c]) p = [c]
    rw [gone.port, update_self, alone more, List.nil_append]

theorem shortage_working {short : Shortage} {answer : IpAnswer} {rest : List ConnNr}
    (here : lists p = c :: rest) (control : s.control = .send p c)
    (undisturbed : Undisturbed s (.ipSend short answer)) (freed : shortage none s short = some s') :
    ∃ lists', Listed s' lists' ∧
      ((∃ rest', lists' p = c :: rest') ∨ Gone s' p c ∧
        (answer = .edstnotrch → (s'.conn c).ttl ≠ ipMaxTtl → lists' p = [])) := by
  have frags : ∀ d, ((freeFrags none s short.frags).conn d).closable = (s.conn d).closable ∧
      ((freeFrags none s short.frags).conn d).ttl = (s.conn d).ttl := by
    intro d
    unfold freeFrags
    dsimp only
    split <;> exact ⟨rfl, rfl⟩
  have listed₁ : Listed (freeFrags none s short.frags) lists :=
    listed.congr rfl rfl rfl rfl fun _ _ => rfl
  have survive (closed nodes : List ConnNr) : survivors (freeFrags none s short.frags) closed nodes =
      survivors s closed nodes :=
    List.filter_congr fun d _ => by rw [(frags d).1]
  have whole := foldlM_shortened listed₁ freed
  by_cases stays : c ∉ short.closed ∨ (s.conn c).closable = false
  case pos =>
    refine ⟨_, whole.listed, .inl ⟨survivors s short.closed rest, ?_⟩⟩
    rw [survive, here, survivors_cons stays]
  case neg =>
    obtain ⟨member, closable⟩ := not_or.mp stays
    rw [not_not] at member
    rw [Bool.not_eq_false] at closable
    obtain ⟨next, alone⟩ : (survivors s (short.closed.takeWhile (· ≠ c)) rest).head? =
        (survivors s short.closed rest).head? ∧ (answer = .edstnotrch →
          (s.conn c).ttl ≠ ipMaxTtl → survivors s short.closed rest = []) := by
      rw [Undisturbed, control] at undisturbed
      rw [← behind_eq listed here]
      exact undisturbed member closable
    have gone := shortened_gone listed₁ here member ((frags c).1.trans closable) freed
      (by rw [survive, survive]; exact next)
    refine ⟨_, whole.listed, .inr ⟨gone, fun failed more => ?_⟩⟩
    rw [whole.ttl, (frags c).2] at more
    rw [survive, here, survivors, List.filter_cons_of_neg (by simp [member, closable])]
    exact alone failed more

theorem stepSend_right {short : Shortage} {answer : IpAnswer} {rest : List ConnNr}
    (here : lists p = c :: rest) (control : s.control = .send p c)
    (undisturbed : Undisturbed s (.ipSend short answer))
    (stepped : stepSend s p c short answer = some s') :
    Stepped s s' (.ipSend short answer) := by
  obtain ⟨s₁, freed, answered⟩ := bind_eq_some_iff.mp stepped
  have called := shortage_called listed freed
  obtain ⟨lists₁, listed₁, where'⟩ := shortage_working listed here control undisturbed freed
  have working : Working s₁ p c := ⟨lists₁, listed₁, where'.imp_right And.left⟩
  cases answer with
  | ok =>
    obtain rfl := some.inj answered
    exact working.stepped called _
  | ebaddest =>
    obtain rfl := some.inj answered
    exact working.stepped called _
  | wouldblock =>
    obtain rfl := some.inj answered
    have written : Called s₁ { s₁ with control := .write p c } :=
      .of_same (listed₁.congr rfl rfl rfl rfl fun _ _ => rfl) rfl fun _ => rfl
    exact (called.trans written).right (.inr (.inr ⟨p, c, rfl⟩)) _
  | other => cases answered
  | edstnotrch =>
    obtain ⟨s₂, done, rfl⟩ := map_eq_some_iff.mp answered
    have working₂ : Working s₂ p c := by
      rcases where' with ⟨rest', here'⟩ | ⟨gone, alone⟩
      · exact notreach_first listed₁ here' done
      · exact notreach_gone listed₁ gone (alone rfl) done
    exact working₂.stepped (called.trans (notreach_called listed₁ done)) _

theorem stepWrite_right {short : Shortage} {answer : Option Bool}
    (stepped : stepWrite s p short answer = some s') (label : Label) : Stepped s s' label := by
  obtain ⟨s₁, freed, answered⟩ := bind_eq_some_iff.mp stepped
  have listed₀ : Listed { s with writeIp := update s.writeIp p true } lists :=
    listed.congr rfl rfl rfl rfl fun _ _ => rfl
  have called : Called s s₁ :=
    (Called.of_same (s := s) listed₀ rfl fun _ => rfl).trans (shortage_called listed₀ freed)
  obtain ⟨lists₁, listed₁⟩ := called.listed
  cases answer with
  | none =>
    obtain rfl := some.inj answered
    have suspended : Called s₁ { s₁ with
        writeSp := update s₁.writeSp p true
        control := .idle } :=
      .of_same (listed₁.congr rfl rfl rfl rfl fun _ _ => rfl) rfl fun _ => rfl
    exact (called.trans suspended).right (.inl rfl) label
  | some unreached =>
    obtain ⟨s₂, got, rest⟩ := bind_eq_some_iff.mp answered
    have second := (getData_called listed₁ got).1
    obtain ⟨lists₂, listed₂⟩ := second.listed
    obtain ⟨-, rest⟩ := ite_none_left_eq_some.mp rest
    obtain rfl := some.inj rest
    have third : Called s₂ { s₂ with control := .head p } :=
      .of_same (listed₂.congr rfl rfl rfl rfl fun _ _ => rfl) rfl fun _ => rfl
    exact ((called.trans second).trans third).right (.inr (.inl ⟨p, rfl⟩)) label

end

/-- The step lemma. -/
theorem step_right {label : Label} (right : Right s) (undisturbed : Undisturbed s label)
    (stepped : step s label = some s') : Stepped s s' label := by
  obtain ⟨lists, listed, working⟩ := right
  unfold ControlRight at working
  unfold step at stepped
  split at stepped
  case h_1 c enq control =>
    refine (connWrite_called listed stepped).right ?_ _
    rcases connWrite_control stepped with same | ⟨-, p, same⟩
    · exact .inl (same.trans control)
    · exact .inr (.inl ⟨p, same⟩)
  case h_2 c control =>
    exact (closeConnection_called listed stepped).right
      (.inl ((closeConnection_control listed stepped).trans control)) _
  case h_3 p unreached control =>
    obtain ⟨called, next⟩ := getData_called listed stepped
    exact called.right (next.imp (·.trans control) fun same => .inl ⟨p, same⟩) _
  case h_4 c conn port control =>
    obtain rfl := some.inj stepped
    refine ⟨⟨lists, listed.congr rfl rfl rfl rfl fun d on => ?_, ?_⟩, fun d on off => ?_⟩
    · change (if s.more2write c then s.port else update s.port c port) d = s.port d
      split
      case isTrue => rfl
      case isFalse off =>
        have apart : d ≠ c := fun same => off (by rw [← same]; exact on)
        exact update_of_ne apart _ _
    · change match s.control with | .pack p c => _ | .send p c => _ | _ => True
      rw [control]
      exact trivial
    · exact absurd (on.symm.trans off) (by decide)
  case h_5 p control =>
    obtain ⟨-, stepped⟩ := ite_none_right_eq_some.mp stepped
    have listed₁ : Listed { s with sndEvent := update s.sndEvent p false } lists :=
      listed.congr rfl rfl rfl rfl fun _ _ => rfl
    obtain ⟨called, next⟩ := portWrite_called listed₁ stepped
    exact ((Called.of_same (s := s) listed₁ rfl fun _ => rfl).trans called).right
      (.inr (.inl ⟨p, next⟩)) _
  case h_6 p control =>
    split at stepped
    case h_1 =>
      obtain rfl := some.inj stepped
      have ended : Called s { s with control := .idle } :=
        .of_same (listed.congr rfl rfl rfl rfl fun _ _ => rfl) rfl fun _ => rfl
      exact ended.right (.inl rfl) _
    case h_2 c first =>
      obtain ⟨-, stepped⟩ := ite_none_right_eq_some.mp stepped
      obtain rfl := some.inj stepped
      obtain ⟨rest, here⟩ : ∃ rest, lists p = c :: rest := by
        rw [(listed.chains.chain p).head_eq] at first
        exact List.head?_eq_some_iff.mp first
      exact Working.stepped ⟨lists, listed, .inl ⟨rest, here⟩⟩ (.same listed) _
  case h_7 p c currTime totHdrSize short control =>
    rw [control] at working
    rcases working with ⟨rest, here⟩ | gone
    · exact stepPack_first listed here stepped
    · exact stepPack_gone listed gone stepped _
  case h_8 p c short answer control =>
    rw [control] at working
    obtain ⟨rest, here⟩ := working
    exact stepSend_right listed here control undisturbed stepped
  case h_9 p c short answer control => exact stepWrite_right listed stepped _
  case h_10 => cases stepped

theorem start_right : Right start := by
  refine ⟨fun _ => [], ⟨⟨fun _ => rfl, fun _ _ _ member => absurd member List.not_mem_nil⟩,
    fun p c => ?_, fun p last ends => by cases ends⟩, trivial⟩
  simp [start]

/-- The run lemma. -/
theorem run_right {labels : List Label} (run : Run step Undisturbed start labels s) :
    Right s :=
  run.invariant start_right fun _ _ _ right undisturbed stepped =>
    (step_right right undisturbed stepped).1

/-- In every run in which no shortage disturbs the writer: the lists are right in every state, and
a connection that a step takes off its list is closed or has nothing to send. -/
theorem send_lists_right {labels : List Label}
    (run : Run step Undisturbed start labels s) :
    ListsRight s ∧ ∀ label s', Undisturbed s label → step s label = some s' →
      ∀ c, s.more2write c = true → s'.more2write c = false → NothingToSend s' c label := by
  have right := run_right run
  obtain ⟨lists, listed, -⟩ := right
  refine ⟨⟨lists, listed, listed.nodup⟩, fun label s' undisturbed stepped => ?_⟩
  exact (step_right (run_right run) undisturbed stepped).2

end Steps

/-- An open connection with data. -/
def dataConn : Conn where
  core := { closedConn with
    tcState := .established
    tcSNDUNA := 1
    tcSNDTRM := 1
    tcSNDNXT := 100
    tcSndCwnd := 3000 }
  inuse := true
  ttl := 5

instance (s : State) (label : Label) : Decidable (Undisturbed s label) := by
  cases label with
  | ipSend =>
    unfold Undisturbed
    cases s.control with
    | send => exact decidable_of_iff _ (imp_congr_left List.contains_iff_mem)
    | _ => exact .isTrue trivial
  | _ => exact .isTrue trivial

/-- Two connections wait, and a packet of the first one is made. -/
def firstPacket : List Label :=
  [.update 0 dataConn 0, .update 1 dataConn 0, .connWrite 0 true, .connWrite 1 true, .sndEvent 0,
    .turn, .makePack 0 40 {}]

/-- While the packet is sent there are no buffers, and its connection is closed. The packet of the
other one waits for the network; when it is away, the connection has nothing more to send, until it
is asked for an acknowledgement. -/
def quietRun : List Label :=
  firstPacket ++ [.ipSend { closed := [0] } .ok, .makePack 0 40 {}, .turn, .makePack 0 40 {},
    .ipSend {} .wouldblock, .ipWrite {} none, .completed 0 false, .turn, .makePack 0 40 {}, .turn,
    .connWrite 1 true]

/-- Then the other connection is closed as well. -/
theorem send_lists_right_data : ListsRight (reached step Undisturbed start quietRun) ∧
    ∃ s, step (reached step Undisturbed start quietRun) (.close 1) = some s ∧
      NothingToSend s 1 (.close 1) := by
  have run : Run step Undisturbed start quietRun
      (reached step Undisturbed start quietRun) := reached_run (by decide)
  obtain ⟨lists, dropped⟩ := send_lists_right run
  have off : (step (reached step Undisturbed start quietRun) (.close 1)).map
      (·.more2write 1) = some false := by decide
  obtain ⟨s, closed, off⟩ := map_eq_some_iff.mp off
  exact ⟨lists, s, closed, dropped (.close 1) s trivial closed 1 (by decide) off⟩

/-- While the packet is sent there are no buffers, and both connections are closed. -/
def shortRun : List Label :=
  firstPacket ++ [.ipSend { closed := [0, 1] } .ok, .makePack 0 40 {}]

/-- The list begins with a connection that is closed and has nothing to send. -/
theorem closed_at_head : ∃ s, Run step (fun _ _ => True) start shortRun s ∧
    s.head 0 = some 1 ∧ s.more2write 1 = false ∧ ¬ListsRight s := by
  have done : (Transition.execute step (fun _ _ => True) shortRun start).map
      (fun s => (s.head 0, s.more2write 1)) = some (some 1, false) := by
    decide
  obtain ⟨s, executed, ends⟩ := map_eq_some_iff.mp done
  obtain ⟨head, off⟩ := Prod.mk.inj ends
  refine ⟨s, .of_execute executed, head, off, ?_⟩
  rintro ⟨lists, listed, -⟩
  have first := (listed.chains.chain 0).head_eq
  rw [head] at first
  exact listed.notMem off 0 (List.mem_of_mem_head? first.symm)

end Minix.Inet.SendList
