/-
This file proves when `rw_scattered` returns, and what it leaves of the buffers that the device did
not transfer.

A request that fails at its first buffer takes nothing off the queue. A read gives up then, but a
write makes the same request again: the call returns exactly when, as long as a part of the queue is
left, the device accepts the first buffer of some later request.
-/

import Minix.Cache.Buffers

namespace Minix.Cache

open Function (update update_of_ne update_self)

variable {Data : Type} {io : Nat → Answer Data} {c c' : Pool Data} {dev : Dev} {rwFlag : RwFlag}
  {bp : BufNr} {bufq reqs : List BufNr} {a : Answer Data} {fuel : Nat}

/-! ### The sort -/

theorem sink_perm (blocknr : BufNr → BlockNr) (gap fuel i : Nat) (q : List BufNr) :
    (sink blocknr gap fuel i q).Perm q := by
  induction fuel generalizing i q with
  | zero => exact .refl q
  | succ fuel inductionHypothesis =>
    rw [sink]
    split
    · dsimp only
      split
      · split
        · exact (inductionHypothesis _ _).trans (List.swap_perm q i (i + gap))
        · exact List.swap_perm q i (i + gap)
      · exact .refl q
    · exact .refl q

theorem sortPass_perm (blocknr : BufNr → BlockNr) (gap passes j : Nat) (q : List BufNr) :
    (sortPass blocknr gap passes j q).Perm q := by
  induction passes generalizing j q with
  | zero => exact .refl q
  | succ passes inductionHypothesis =>
    exact (inductionHypothesis _ _).trans (sink_perm blocknr gap _ _ q)

/-- The buffers are in the order of their blocks. -/
def InOrder (blocknr : BufNr → BlockNr) (q : List BufNr) : Prop :=
  q.Pairwise fun first second => blocknr first ≤ blocknr second

theorem swap_middle (front : List BufNr) (low high : BufNr) (back : List BufNr) :
    (front ++ low :: high :: back).swap front.length (front.length + 1) =
      front ++ high :: low :: back := by
  induction front with
  | nil => rfl
  | cons bp front inductionHypothesis => exact congrArg (bp :: ·) inductionHypothesis

/-- With the gap 1, the element behind a part that is in order sinks to its place in that part. -/
theorem sink_inOrder {blocknr : BufNr → BlockNr} {fuel : Nat} {front back : List BufNr}
    {low high : BufNr} (enough : front.length < fuel) (inOrder : InOrder blocknr (front ++ [low])) :
    ∃ part, sink blocknr 1 fuel front.length (front ++ low :: high :: back) = part ++ back ∧
      InOrder blocknr part ∧ part.Perm (front ++ [low, high]) := by
  induction fuel generalizing front back low with
  | zero => exact absurd enough (Nat.not_lt_zero _)
  | succ fuel inductionHypothesis =>
    obtain ⟨before, -, below⟩ := List.pairwise_append.mp inOrder
    have below (bp : BufNr) (member : bp ∈ front) : blocknr bp ≤ blocknr low :=
      below bp member low (List.mem_singleton_self low)
    have atLow : (front ++ low :: high :: back)[front.length]? = some low := by simp
    have atHigh : (front ++ low :: high :: back)[front.length + 1]? = some high := by simp
    simp only [sink, atLow, atHigh, swap_middle]
    by_cases less : blocknr high < blocknr low
    case neg =>
      rw [if_neg less]
      refine ⟨front ++ [low, high], by simp, ?_, .refl _⟩
      have most := UInt32.not_lt.mp less
      refine List.pairwise_append.mpr ⟨before, by simpa using most, fun bp member other last => ?_⟩
      obtain rfl | rfl : other = low ∨ other = high := by simpa using last
      · exact below bp member
      · exact UInt32.le_trans (below bp member) most
    case pos =>
      rw [if_pos less]
      have swapped : (front ++ [high, low]).Perm (front ++ [low, high]) :=
        (List.Perm.swap low high []).append_left front
      rcases List.eq_nil_or_concat front with rfl | ⟨more, last, rfl⟩
      · rw [if_neg (by simp)]
        refine ⟨[high, low], rfl, ?_, swapped⟩
        exact List.pairwise_pair.mpr (UInt32.le_of_lt less)
      · rw [if_pos (by simp)]
        obtain ⟨part, sunk, ordered, perm⟩ := @inductionHypothesis more (low :: back) last
          (by simpa using enough) (by simpa [InOrder] using before)
        refine ⟨part ++ [low], ?_, ?_, ?_⟩
        · simpa using sunk
        · refine List.pairwise_append.mpr ⟨ordered, List.pairwise_singleton _ _,
            fun bp member other last' => ?_⟩
          obtain rfl := List.mem_singleton.mp last'
          have among : bp ∈ more.concat last ∨ bp = high := by
            simpa [or_assoc] using perm.mem_iff.mp member
          exact among.elim (below bp) fun same => same ▸ UInt32.le_of_lt less
        · refine (perm.append_right [low]).trans (List.Perm.trans ?_ swapped)
          simp

theorem sortPass_inOrder {blocknr : BufNr → BlockNr} {front back : List BufNr} {low : BufNr}
    (inOrder : InOrder blocknr (front ++ [low])) :
    InOrder blocknr
      (sortPass blocknr 1 back.length (front.length + 1) (front ++ low :: back)) := by
  induction back generalizing front low with
  | nil => exact inOrder
  | cons high back inductionHypothesis =>
    obtain ⟨part, sunk, ordered, perm⟩ := @sink_inOrder blocknr
      (front ++ low :: high :: back).length front back low high (by simp) inOrder
    have length : part.length = front.length + 2 := by simpa using perm.length_eq
    rcases List.eq_nil_or_concat part with rfl | ⟨more, last, rfl⟩
    · cases length
    · rw [List.length_cons, sortPass, Nat.add_sub_cancel, sunk]
      have short : more.length = front.length + 1 := by simpa using length
      rw [List.concat_eq_append] at ordered ⊢
      rw [List.append_assoc, List.singleton_append, ← short]
      exact inductionHypothesis ordered

/-- The gaps of the sort: 1, 4, 13, 40 and so on. -/
inductive Gap : Nat → Prop
  | one : Gap 1
  | widen {gap : Nat} : Gap gap → Gap (3 * gap + 1)

theorem Gap.pos {gap : Nat} (isGap : Gap gap) : 0 < gap := by
  cases isGap <;> omega

theorem widenGap_gap {bufqsize fuel gap : Nat} (isGap : Gap gap) (wide : gap ≠ 1) :
    Gap (widenGap bufqsize fuel gap) ∧ widenGap bufqsize fuel gap ≠ 1 := by
  induction fuel generalizing gap with
  | zero => exact ⟨isGap, wide⟩
  | succ fuel inductionHypothesis =>
    rw [widenGap]
    split
    · exact inductionHypothesis isGap.widen (by have := isGap.pos; omega)
    · exact ⟨isGap, wide⟩

/-- The passes end with the gap 1, because each third of a gap is the gap before. -/
theorem sortGaps_some {blocknr : BufNr → BlockNr} {fuel gap : Nat} (isGap : Gap gap)
    (enough : gap ≤ fuel) (q : List BufNr) :
    ∃ sorted, sortGaps blocknr fuel gap q = some sorted ∧ sorted.Perm q ∧
      (InOrder blocknr q ∨ gap ≠ 1 → InOrder blocknr sorted) := by
  induction isGap generalizing fuel q with
  | one =>
    cases fuel with
    | zero => omega
    | succ fuel => exact ⟨q, rfl, .refl q, fun either => either.resolve_right (· rfl)⟩
  | @widen gap isGap inductionHypothesis =>
    have positive := isGap.pos
    cases fuel with
    | zero => omega
    | succ fuel =>
      rw [sortGaps, if_neg (by omega), show (3 * gap + 1) / 3 = gap by omega]
      obtain ⟨sorted, done, perm, inOrder⟩ := @inductionHypothesis fuel (by omega)
        (sortPass blocknr gap (q.length - gap) gap q)
      refine ⟨sorted, done, perm.trans (sortPass_perm blocknr gap _ _ q), fun _ => inOrder ?_⟩
      by_cases last : gap = 1
      case neg => exact .inr last
      case pos =>
        rw [last]
        cases q with
        | nil => exact .inl List.Pairwise.nil
        | cons low back =>
          exact .inl (@sortPass_inOrder blocknr [] back low (List.pairwise_singleton _ _))

theorem shellSort_some (blocknr : BufNr → BlockNr) (bufq : List BufNr) :
    ∃ sorted, shellSort blocknr bufq = some sorted ∧ sorted.Perm bufq ∧
      sorted.map blocknr = (bufq.map blocknr).mergeSort := by
  obtain ⟨isGap, wide⟩ :=
    @widenGap_gap bufq.length bufq.length 4 (Gap.widen .one) (by decide)
  obtain ⟨sorted, done, perm, inOrder⟩ := sortGaps_some isGap le_rfl bufq
  refine ⟨sorted, done, perm, List.Perm.eq_of_pairwise (fun _ _ _ _ => UInt32.le_antisymm)
    (List.pairwise_map.mpr (inOrder (.inr wide))) ?_
    ((perm.map blocknr).trans (List.mergeSort_perm _ _).symm)⟩
  have ordered := @List.pairwise_mergeSort _ (fun first second : BlockNr => decide (first ≤ second))
    (fun _ _ _ before after => decide_eq_true
      (UInt32.le_trans (of_decide_eq_true before) (of_decide_eq_true after)))
    (fun first second => by simpa using UInt32.le_total first second) (bufq.map blocknr)
  simpa using ordered

/-! ### What a request changes -/

theorem deviceIo_frame (a : Answer Data) (i : Nat) :
    ∃ data disk, deviceIo a dev rwFlag i reqs c = { c with data, disk } := by
  induction reqs generalizing c i with
  | nil => exact ⟨c.data, c.disk, rfl⟩
  | cons bp reqs inductionHypothesis =>
    rw [deviceIo]
    obtain ⟨data, disk, same⟩ :=
      inductionHypothesis (c := deviceBlock a dev rwFlag i c bp) (i + 1)
    refine ⟨data, disk, same.trans ?_⟩
    cases rwFlag <;> rfl

/-- Releasing a data block changes its count and the LRU chain, and makes no request. -/
theorem putDataBlock_frame (c : Pool Data) (bp : BufNr) :
    ∃ next prev count front rear bufsInUse, putDataBlock io c bp =
      { c with next, prev, count, front, rear, bufsInUse } := by
  rw [putDataBlock, putBlock]
  split
  · exact ⟨c.next, c.prev, _, c.front, c.rear, c.bufsInUse, rfl⟩
  · rw [if_neg (fun written => Bool.false_ne_true written.1), putBack, if_neg Bool.false_ne_true,
      putRear]
    split
    · exact ⟨_, _, _, _, _, _, rfl⟩
    · exact ⟨_, _, _, _, _, _, rfl⟩

@[simp] theorem putDataBlock_dev : (putDataBlock io c bp).dev = c.dev := by
  obtain ⟨_, _, _, _, _, _, same⟩ := putDataBlock_frame c bp
  rw [same]

@[simp] theorem putDataBlock_asked : (putDataBlock io c bp).asked = c.asked := by
  obtain ⟨_, _, _, _, _, _, same⟩ := putDataBlock_frame c bp
  rw [same]

theorem foldl_putDataBlock_dev : (bufq.foldl (putDataBlock io) c).dev = c.dev := by
  induction bufq generalizing c with
  | nil => rfl
  | cons bp bufq inductionHypothesis =>
    rw [List.foldl_cons, inductionHypothesis, putDataBlock_dev]

theorem harvest_asked (a : Answer Data) (i : Nat) :
    (harvest io a dev rwFlag i reqs c).2.asked = c.asked := by
  induction reqs generalizing c i with
  | nil => rfl
  | cons bp reqs inductionHypothesis =>
    rw [harvest]
    split
    · dsimp only
      split <;> rfl
    · rw [inductionHypothesis]
      cases rwFlag
      case reading => exact putDataBlock_asked
      case writing => rfl

theorem harvest_ge (a : Answer Data) (i : Nat) : i ≤ (harvest io a dev rwFlag i reqs c).1 := by
  induction reqs generalizing c i with
  | nil => exact le_rfl
  | cons bp reqs inductionHypothesis =>
    rw [harvest]
    split
    · exact le_rfl
    · exact (Nat.le_succ i).trans (inductionHypothesis (i + 1))

theorem harvest_blocknr (a : Answer Data) (i : Nat) :
    (harvest io a dev .writing i reqs c).2.blocknr = c.blocknr := by
  induction reqs generalizing c i with
  | nil => rfl
  | cons bp reqs inductionHypothesis =>
    rw [harvest]
    split
    · dsimp only
      split <;> rfl
    · exact inductionHypothesis (i + 1)

/-- How many requests in a row the device has transferred, from request `i` on. -/
def Answer.done (a : Answer Data) : Nat → Nat → Nat
  | _, 0 => 0
  | i, reqs + 1 => if a.left i = 0 then a.done (i + 1) reqs + 1 else 0

theorem harvest_done (a : Answer Data) (i : Nat) :
    (harvest io a dev .writing i reqs c).1 = i + a.done i reqs.length := by
  induction reqs generalizing c i with
  | nil => rfl
  | cons bp reqs inductionHypothesis =>
    rw [harvest, List.length_cons, Answer.done]
    by_cases transferred : a.left i = 0
    · rw [if_neg (not_not.mpr transferred), if_pos transferred, inductionHypothesis]
      omega
    · rw [if_pos transferred, if_neg transferred]
      rfl

/-! ### The loop -/

/-- The requests that the head of a queue makes up. -/
def requests (c : Pool Data) : List BufNr → List BufNr
  | [] => []
  | bp :: rest => adjacent c.blocknr (c.blocknr bp) nrIoreqs (bp :: rest)

/-- One turn of the loop: how much is taken off the queue, and the pool. -/
def turn (io : Nat → Answer Data) (dev : Dev) (rwFlag : RwFlag) (bufq : List BufNr)
    (c : Pool Data) : Nat × Pool Data :=
  harvest io (io c.asked) dev rwFlag 0 (requests c bufq)
    (deviceIo (io c.asked) dev rwFlag 0 (requests c bufq) { c with asked := c.asked + 1 })

theorem ioLoop_reading {rest : List BufNr} :
    ioLoop io dev .reading (fuel + 1) (bp :: rest) c =
      some (((bp :: rest).drop (turn io dev .reading (bp :: rest) c).1).foldl (putDataBlock io)
        (turn io dev .reading (bp :: rest) c).2) := rfl

theorem ioLoop_writing {rest : List BufNr} :
    ioLoop io dev .writing (fuel + 1) (bp :: rest) c =
      ioLoop io dev .writing fuel ((bp :: rest).drop (turn io dev .writing (bp :: rest) c).1)
        (turn io dev .writing (bp :: rest) c).2 := rfl

theorem turn_asked : (turn io dev rwFlag bufq c).2.asked = c.asked + 1 := by
  rw [turn, harvest_asked]
  obtain ⟨data, disk, same⟩ := deviceIo_frame (c := { c with asked := c.asked + 1 }) (io c.asked) 0
  rw [same]

/-- The device transfers the first buffer of a request. -/
def Accepts (io : Nat → Answer Data) (call : Nat) : Prop := (io call).left 0 = 0

instance (call : Nat) : Decidable (Accepts io call) := inferInstanceAs (Decidable (_ = _))

/-! ### The queue of blocks -/

/-- How many blocks at the head of a queue follow each other. -/
def follow (block : BlockNr) : Nat → List BlockNr → Nat
  | reqs + 1, first :: blocks => if first = block then follow (block + 1) reqs blocks + 1 else 0
  | _, _ => 0

/-- What an answer leaves of a queue of blocks, of which the head makes up a request. -/
def Answer.leave (a : Answer Data) : List BlockNr → List BlockNr
  | [] => []
  | block :: blocks =>
    (block :: blocks).drop (a.done 0 (follow block nrIoreqs (block :: blocks)))

/-- What is left of a queue of blocks after some requests. -/
def unsent (io : Nat → Answer Data) (start : Nat) (blocks : List BlockNr) : Nat → List BlockNr
  | 0 => blocks
  | calls + 1 => (io (start + calls)).leave (unsent io start blocks calls)

theorem unsent_succ {blocks : List BlockNr} (start calls : Nat) :
    unsent io start blocks (calls + 1) = unsent io (start + 1) ((io start).leave blocks) calls := by
  induction calls with
  | zero => rfl
  | succ calls inductionHypothesis =>
    rw [unsent, inductionHypothesis, unsent, Nat.add_right_comm, Nat.add_assoc]

theorem length_adjacent (blocknr : BufNr → BlockNr) (block : BlockNr) (reqs : Nat) :
    (adjacent blocknr block reqs bufq).length = follow block reqs (bufq.map blocknr) := by
  induction bufq generalizing block reqs with
  | nil => cases reqs <;> rfl
  | cons bp bufq inductionHypothesis =>
    cases reqs with
    | zero => rfl
    | succ reqs =>
      rw [adjacent, List.map_cons, follow]
      split
      · rw [List.length_cons, inductionHypothesis]
      · rfl

theorem turn_leaves : ((bufq.drop (turn io dev .writing bufq c).1).map
    (turn io dev .writing bufq c).2.blocknr) = (io c.asked).leave (bufq.map c.blocknr) := by
  obtain ⟨data, disk, same⟩ : ∃ data disk,
      deviceIo (io c.asked) dev .writing 0 (requests c bufq) { c with asked := c.asked + 1 } =
        { c with asked := c.asked + 1, data, disk } := deviceIo_frame (io c.asked) 0
  rw [turn, harvest_blocknr, harvest_done, same, Nat.zero_add, List.map_drop]
  cases bufq with
  | nil => rw [List.map_nil, List.drop_nil, Answer.leave]
  | cons bp rest => rw [requests, length_adjacent, List.map_cons, Answer.leave]

/-- A write returns when nothing is left of the queue. -/
theorem ioLoop_writing_iff : (∃ c', ioLoop io dev .writing fuel bufq c = some c') ↔
    unsent io c.asked (bufq.map c.blocknr) fuel = [] := by
  induction fuel generalizing bufq c with
  | zero => cases bufq <;> simp [ioLoop, unsent]
  | succ fuel inductionHypothesis =>
    have asked : (turn io dev .writing bufq c).2.asked = c.asked + 1 := turn_asked
    rw [unsent_succ, ← @turn_leaves _ io c dev bufq, ← asked, ← inductionHypothesis]
    cases bufq with
    | nil => simp [ioLoop]
    | cons bp rest => rw [ioLoop_writing]

theorem leave_suffix (a : Answer Data) (blocks : List BlockNr) :
    (a.leave blocks).length ≤ blocks.length ∧
      (blocks ≠ [] → ((a.leave blocks).length < blocks.length ↔ a.left 0 = 0)) := by
  cases blocks with
  | nil => exact ⟨le_rfl, fun some => absurd rfl some⟩
  | cons block blocks =>
    have follows : follow block nrIoreqs (block :: blocks) =
        follow (block + 1) 63 blocks + 1 := if_pos rfl
    rw [Answer.leave, List.length_drop, follows, Answer.done, List.length_cons]
    refine ⟨Nat.sub_le _ _, fun _ => ?_⟩
    split
    case isTrue first => exact iff_of_true (by omega) first
    case isFalse first => exact iff_of_false (by omega) first

/-- A queue is transferred when the device, as long as a part is left, accepts the first buffer of
some later request. -/
theorem unsent_eq_nil_iff {blocks : List BlockNr} (start : Nat) :
    (∃ calls, unsent io start blocks calls = []) ↔
      ∀ calls, unsent io start blocks calls ≠ [] →
        ∃ later, calls ≤ later ∧ Accepts io (start + later) := by
  constructor
  · rintro ⟨total, sent⟩ calls left
    by_contra refused
    refine left (List.eq_nil_of_length_eq_zero ?_)
    have stays (more : Nat) : (unsent io start blocks (calls + more)).length =
        (unsent io start blocks calls).length := by
      induction more with
      | zero => rfl
      | succ more inductionHypothesis =>
        obtain ⟨most, less⟩ := leave_suffix (io (start + (calls + more)))
          (unsent io start blocks (calls + more))
        have some : unsent io start blocks (calls + more) ≠ [] := fun none => left
          (List.eq_nil_of_length_eq_zero (inductionHypothesis ▸ congrArg List.length none))
        have refuses : ¬ (io (start + (calls + more))).left 0 = 0 := fun accepts =>
          refused ⟨calls + more, Nat.le_add_right _ _, accepts⟩
        rw [← inductionHypothesis]
        exact le_antisymm most (not_lt.mp (mt (less some).mp refuses))
    have shrinks (more : Nat) : (unsent io start blocks (total + more)).length = 0 := by
      induction more with
      | zero => exact congrArg List.length sent
      | succ more inductionHypothesis =>
        exact Nat.le_zero.mp (inductionHypothesis ▸ (leave_suffix _ _).1)
    rw [← stays total, Nat.add_comm calls total]
    exact shrinks calls
  · intro accepts
    by_contra left
    have left (calls : Nat) : unsent io start blocks calls ≠ [] := fun sent => left ⟨calls, sent⟩
    have shorter (count : Nat) : ∃ calls,
        (unsent io start blocks calls).length + count ≤ blocks.length := by
      induction count with
      | zero => exact ⟨0, le_rfl⟩
      | succ count inductionHypothesis =>
        obtain ⟨calls, short⟩ := inductionHypothesis
        obtain ⟨later, after, accepted⟩ := accepts calls (left calls)
        have still (more : Nat) : (unsent io start blocks (calls + more)).length ≤
            (unsent io start blocks calls).length := by
          induction more with
          | zero => exact le_rfl
          | succ more inductionHypothesis => exact (leave_suffix _ _).1.trans inductionHypothesis
        have before := still (later - calls)
        rw [Nat.add_sub_cancel' after] at before
        have less := ((leave_suffix (io (start + later)) _).2 (left later)).mpr accepted
        exact ⟨later + 1, by rw [unsent]; omega⟩
    obtain ⟨calls, short⟩ := shorter (blocks.length + 1)
    omega

/-! ### The buffers that were not transferred -/

/-- The device has transferred a buffer, in the first request or, of a write, in a later one. -/
inductive Transferred (io : Nat → Answer Data) (dev : Dev) (rwFlag : RwFlag) (bp : BufNr) :
    List BufNr → Pool Data → Prop
  | here {bufq : List BufNr} {c : Pool Data} (i : Nat) : (requests c bufq)[i]? = some bp →
      (io c.asked).left i = 0 → Transferred io dev rwFlag bp bufq c
  | later {bufq : List BufNr} {c : Pool Data} : rwFlag = .writing →
      Transferred io dev rwFlag bp (bufq.drop (turn io dev rwFlag bufq c).1)
        (turn io dev rwFlag bufq c).2 → Transferred io dev rwFlag bp bufq c

/-- A buffer that was not transferred: after a write it is as dirty as it was, after a read it is
not marked valid unless it was. -/
def Untouched (rwFlag : RwFlag) (c c' : Pool Data) (bp : BufNr) : Prop :=
  match rwFlag with
  | .writing => c'.dirt bp = c.dirt bp
  | .reading => c.dev bp = 0 → c'.dev bp = 0

theorem Untouched.trans {c'' : Pool Data} (first : Untouched rwFlag c c' bp)
    (second : Untouched rwFlag c' c'' bp) : Untouched rwFlag c c'' bp := by
  cases rwFlag
  case reading => exact fun unmarked => second (first unmarked)
  case writing => exact Eq.trans second first

theorem harvest_untouched {i : Nat} (missed : ∀ j, reqs[j]? = some bp → a.left (i + j) ≠ 0) :
    Untouched rwFlag c (harvest io a dev rwFlag i reqs c).2 bp := by
  induction reqs generalizing c i with
  | nil => cases rwFlag <;> first | exact id | rfl
  | cons other reqs inductionHypothesis =>
    rw [harvest]
    split
    case isTrue =>
      dsimp only
      split
      case isFalse => cases rwFlag <;> first | exact id | rfl
      case isTrue =>
        cases rwFlag
        case writing => rfl
        case reading =>
          intro unmarked
          dsimp only
          by_cases same : bp = other
          · rw [same, update_self]
          · rw [update_of_ne same]
            exact unmarked
    case isFalse transferred =>
      have different : bp ≠ other := by
        rintro rfl
        exact missed 0 rfl (by simpa using transferred)
      refine Untouched.trans ?_ (inductionHypothesis fun j found => ?_)
      · cases rwFlag
        case reading =>
          intro unmarked
          rw [harvestBlock, putDataBlock_dev]
          exact (update_of_ne different _ _).trans unmarked
        case writing => exact update_of_ne different _ _
      · rw [Nat.add_assoc, Nat.add_comm 1 j]
        exact missed (j + 1) found

theorem turn_untouched (missed : ¬ Transferred io dev rwFlag bp bufq c) :
    Untouched rwFlag c (turn io dev rwFlag bufq c).2 bp := by
  have same : Untouched rwFlag
      (deviceIo (io c.asked) dev rwFlag 0 (requests c bufq) { c with asked := c.asked + 1 })
      (turn io dev rwFlag bufq c).2 bp :=
    harvest_untouched fun j found left => missed (.here j found (by rwa [Nat.zero_add] at left))
  obtain ⟨data, disk, frame⟩ : ∃ data disk,
      deviceIo (io c.asked) dev rwFlag 0 (requests c bufq) { c with asked := c.asked + 1 } =
        { c with asked := c.asked + 1, data, disk } := deviceIo_frame (io c.asked) 0
  rw [frame] at same
  cases rwFlag <;> exact same

theorem ioLoop_untouched (returned : ioLoop io dev rwFlag fuel bufq c = some c')
    (missed : ¬ Transferred io dev rwFlag bp bufq c) : Untouched rwFlag c c' bp := by
  induction fuel generalizing bufq c with
  | zero =>
    cases bufq with
    | nil =>
      obtain rfl := Option.some.inj returned
      cases rwFlag <;> first | exact id | rfl
    | cons first rest => cases returned
  | succ fuel inductionHypothesis =>
    cases bufq with
    | nil =>
      obtain rfl := Option.some.inj returned
      cases rwFlag <;> first | exact id | rfl
    | cons first rest =>
      refine (turn_untouched missed).trans ?_
      cases rwFlag
      case writing =>
        rw [ioLoop_writing] at returned
        exact inductionHypothesis returned fun later => missed (.later rfl later)
      case reading =>
        rw [ioLoop_reading] at returned
        obtain rfl := Option.some.inj returned
        intro unmarked
        rw [foldl_putDataBlock_dev]
        exact unmarked

theorem rwScattered_eq_some :
    rwScattered io fuel c dev bufq rwFlag = some c' ↔
      ∃ sorted, shellSort c.blocknr bufq = some sorted ∧
        ioLoop io dev rwFlag fuel sorted c = some c' := Option.bind_eq_some_iff

/-! ### Main results -/

/-- `rw_scattered` returns, with every buffer that was not transferred as dirty as it was or not
marked valid, exactly when it reads or the device, as long as a part of the sorted queue is left,
accepts the first buffer of some later request. -/
theorem rw_scattered_returns_iff (io : Nat → Answer Data) (c : Pool Data) (dev : Dev)
    (bufq : List BufNr) (rwFlag : RwFlag) :
    (∃ sorted, shellSort c.blocknr bufq = some sorted ∧ sorted.Perm bufq ∧
      ∃ fuel c', rwScattered io fuel c dev bufq rwFlag = some c' ∧
        ∀ bp ∈ bufq, ¬ Transferred io dev rwFlag bp sorted c → Untouched rwFlag c c' bp) ↔
      (rwFlag = .writing → ∀ calls,
        unsent io c.asked (bufq.map c.blocknr).mergeSort calls ≠ [] →
          ∃ later, calls ≤ later ∧ Accepts io (c.asked + later)) := by
  obtain ⟨sorted, done, perm, inOrder⟩ := shellSort_some c.blocknr bufq
  rw [← inOrder, ← unsent_eq_nil_iff]
  constructor
  · rintro ⟨sorted', done', -, fuel, c', returned, -⟩ rfl
    obtain ⟨again, sort, looped⟩ := rwScattered_eq_some.mp returned
    obtain rfl := Option.some.inj (sort.symm.trans done)
    exact ⟨fuel, ioLoop_writing_iff.mp ⟨c', looped⟩⟩
  · intro sent
    obtain ⟨fuel, c', returned⟩ : ∃ fuel c', ioLoop io dev rwFlag fuel sorted c = some c' := by
      cases rwFlag
      case reading =>
        cases sorted with
        | nil => exact ⟨0, c, rfl⟩
        | cons bp rest => exact ⟨1, _, ioLoop_reading⟩
      case writing =>
        obtain ⟨calls, sent⟩ := sent rfl
        exact ⟨calls, ioLoop_writing_iff.mpr sent⟩
    refine ⟨sorted, done, perm, fuel, c', rwScattered_eq_some.mpr ⟨sorted, done, returned⟩, ?_⟩
    exact fun bp _ missed => ioLoop_untouched returned missed

/-- A device that fails at the first buffer of every request. -/
def refusing : Nat → Answer Unit := fun _ => { r := -5, left := fun _ => 1024 }

/-- A pool whose buffers all hold a dirty block of device 1. -/
def dirtyPool : Pool Unit :=
  { bufPool (fun _ => ()) (fun _ _ => ()) with dev := fun _ => 1, dirt := fun _ => true }

theorem unsent_refusing (blocks : List BlockNr) (calls : Nat) :
    unsent refusing 0 blocks calls = blocks := by
  induction calls with
  | zero => rfl
  | succ calls inductionHypothesis =>
    have none (reqs : Nat) : (refusing (0 + calls)).done 0 reqs = 0 := by cases reqs <;> rfl
    rw [unsent, inductionHypothesis]
    cases blocks with
    | nil => rfl
    | cons block blocks => rw [Answer.leave, none, List.drop_zero]

theorem rw_scattered_loops (fuel : Nat) :
    rwScattered refusing fuel dirtyPool 1 [0] .writing = none := by
  by_contra returned
  obtain ⟨c', returned⟩ := Option.ne_none_iff_exists'.mp returned
  obtain ⟨sorted, done, looped⟩ := rwScattered_eq_some.mp returned
  obtain rfl : [0] = sorted := Option.some.inj done
  have sent : unsent refusing 0 [dirtyPool.blocknr 0] fuel = [] :=
    ioLoop_writing_iff.mp ⟨c', looped⟩
  rw [unsent_refusing] at sent
  cases sent

/-- `rw_scattered` does not return for every queue and every sequence of answers. -/
theorem rw_scattered_never_returns :
    ¬ ∀ (io : Nat → Answer Unit) (c : Pool Unit) (dev : Dev) (bufq : List BufNr) (rwFlag : RwFlag),
      ∃ fuel c', rwScattered io fuel c dev bufq rwFlag = some c' := by
  intro returns
  obtain ⟨fuel, c', returned⟩ := returns refusing dirtyPool 1 [0] .writing
  rw [rw_scattered_loops] at returned
  cases returned

end Minix.Cache
