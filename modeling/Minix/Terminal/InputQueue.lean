/-
This file proves that the input queue of a terminal stays in order, whatever is typed, read, erased
or discarded, and however the attributes are set.

Echo leaves the queue alone; the characters that are echoed again change their length only, so that
the line breaks stay where they are.
-/

import Minix.Terminal.Input

namespace Minix.Terminal

section Keeps

variable {σ : Type} {dev : Device σ} {tp : Tty σ} {ch : BitVec 16}

/-! ### Echo -/

theorem echoTab_queue (left len : Nat) (tp : Tty σ) : (echoTab dev left len tp).2.queue = tp.queue := by
  induction left generalizing len tp with
  | zero => rfl
  | succ left inductionHypothesis =>
    unfold echoTab
    dsimp only
    split
    · exact inductionHypothesis _ _
    · rfl

theorem echoTab_length (left len : Nat) (tp : Tty σ) :
    (echoTab dev left len tp).1 ≤ len + left := by
  induction left generalizing len tp with
  | zero => exact le_rfl
  | succ left inductionHypothesis =>
    unfold echoTab
    dsimp only
    split
    · exact (inductionHypothesis _ _).trans (by omega)
    · omega

theorem echoChar_queue : (echoChar dev tp ch).2.queue = tp.queue := by
  unfold echoChar
  dsimp only
  split_ifs
  · exact echoTab_queue 8 0 tp
  all_goals rfl

theorem echoChar_length : (echoChar dev tp ch).1 ≤ 8 := by
  unfold echoChar
  dsimp only
  split_ifs
  · exact echoTab_length 8 0 tp
  all_goals exact Nat.le_of_ble_eq_true rfl

theorem echoTimes_queue (times : Nat) (tp : Tty σ) :
    (echoTimes dev ch times tp).queue = tp.queue := by
  induction times generalizing tp with
  | zero => rfl
  | succ times inductionHypothesis => exact inductionHypothesis _

theorem echo_queue : (echo dev tp ch).1.queue = tp.queue := by
  unfold echo
  by_cases on : tp.lflag echoFlag
  · rw [if_pos on]
    dsimp only
    split
    · exact (echoTimes_queue _ _).trans echoChar_queue
    · exact echoChar_queue
  · rw [if_neg on]
    split <;> rfl

theorem clean_echo : clean (echo dev tp ch).2 = clean ch := by
  have again : clean (clean ch) = clean ch := by
    unfold clean
    rw [BitVec.and_assoc, BitVec.and_self]
  have lengths : ∀ len : Fin 9, clean (BitVec.ofNat 16 len <<< 8) = 0 := by decide
  have measured {len : Nat} (short : len ≤ 8) :
      clean (clean ch ||| BitVec.ofNat 16 len <<< 8) = clean ch :=
    calc clean (clean ch ||| BitVec.ofNat 16 len <<< 8)
        = clean (clean ch) ||| clean (BitVec.ofNat 16 len <<< 8) := BitVec.and_or_distrib_right
      _ = clean ch ||| 0 := by rw [again, lengths ⟨len, Nat.lt_succ_of_le short⟩]
      _ = clean ch := BitVec.or_zero
  unfold echo
  dsimp only
  split
  case isTrue on =>
    refine measured ?_
    split
    · exact Nat.zero_le 8
    · exact echoChar_length
  case isFalse off =>
    split
    · exact again
    · exact again

theorem rawecho_queue : (rawecho dev tp ch).queue = tp.queue := by
  unfold rawecho
  split <;> rfl

/-! ### Editing -/

theorem echoFrom_alike (left head : Nat) (tp : Tty σ) :
    tp.queue.Alike (echoFrom dev left head tp).queue := by
  induction left generalizing head tp with
  | zero => exact .refl _
  | succ left inductionHypothesis =>
    unfold echoFrom
    dsimp only
    refine Queue.Alike.trans ?_ (inductionHypothesis _ _)
    rw [echo_queue]
    exact Queue.alike_rewrite clean_echo

theorem reprint_alike (tp : Tty σ) : tp.queue.Alike (reprint dev tp).queue := by
  unfold reprint
  dsimp only
  split
  · exact .refl _
  · refine Queue.Alike.trans ?_ (echoFrom_alike _ _ _)
    rw [rawecho_queue, rawecho_queue, echo_queue]
    exact .refl _

theorem wipe_queue (len : Nat) (tp : Tty σ) : (wipe dev len tp).queue = tp.queue := by
  induction len generalizing tp with
  | zero => rfl
  | succ len inductionHypothesis =>
    unfold wipe
    rw [inductionHypothesis, rawecho_queue, rawecho_queue, rawecho_queue]

/-- Either nothing is done, or the newest character is erased after the queue has been echoed. -/
theorem backOver_cases (dev : Device σ) (tp : Tty σ) :
    backOver dev tp = (false, tp) ∧
        (tp.queue.incount = 0 ∨ has inEot (tp.queue.inbuf (before tp.queue.inhead))) ∨
    (tp.queue.incount ≠ 0 ∧ ¬has inEot (tp.queue.inbuf (before tp.queue.inhead))) ∧
      ∃ q, tp.queue.Alike q ∧ (backOver dev tp).1 = true ∧ (backOver dev tp).2.queue = q.erase := by
  by_cases empty : tp.queue.incount = 0
  · exact .inl ⟨if_pos empty, .inl empty⟩
  by_cases break' : has inEot (tp.queue.inbuf (before tp.queue.inhead))
  · exact .inl ⟨(if_neg empty).trans (if_pos break'), .inr break'⟩
  refine .inr ⟨⟨empty, break'⟩, (if tp.reprint then reprint dev tp else tp).queue, ?_, ?_, ?_⟩
  · split
    · exact reprint_alike tp
    · exact .refl _
  all_goals
    unfold backOver
    dsimp only
    rw [if_neg empty, if_neg break']
    generalize (if tp.reprint then reprint dev tp else tp) = tp'
    split
  · rfl
  · rfl
  · exact wipe_queue _ _
  · rfl

theorem backOver_right (right : tp.queue.Right) : (backOver dev tp).2.queue.Right := by
  rcases backOver_cases dev tp with ⟨nothing, -⟩ | ⟨⟨some, plain⟩, q, alike, -, erased⟩
  · rw [nothing]
    exact right
  · rw [erased]
    refine ((alike.right right).erase ?_ ?_).1
    · rw [alike.count]
      exact lt_of_le_of_ne right.nonneg (Ne.symm some)
    · rw [alike.head, alike.eot]
      exact plain

theorem killLine_right (left : Nat) (right : tp.queue.Right) : (killLine dev left tp).queue.Right := by
  induction left generalizing tp with
  | zero => exact right
  | succ left inductionHypothesis =>
    have erased := @backOver_right σ dev tp right
    unfold killLine
    split
    case h_1 tp' more =>
      rw [more] at erased
      exact inductionHypothesis erased
    case h_2 tp' none =>
      rw [none] at erased
      exact erased

/-! ### Transfers and signals -/

theorem transferLoop_right (left : Nat) (buf : List UInt8) (right : tp.queue.Right) :
    (transferLoop left tp buf).1.queue.Right := by
  induction left generalizing tp buf with
  | zero => exact right
  | succ left inductionHypothesis =>
    unfold transferLoop
    split
    case isTrue more =>
      -- Where there is a line break, there is a character.
      have some : 0 < tp.queue.incount := more.2.trans_le right.eotct_le.2
      have removed := (right.remove some).1
      dsimp only
      refine inductionHypothesis _ ?_
      split_ifs <;> exact removed
    case isFalse done => exact right

theorem inTransfer_right (right : tp.queue.Right) : (inTransfer tp).queue.Right := by
  unfold inTransfer
  dsimp only
  have start : (if tp.termios.cOspeed = 0 then { tp with min := 0 } else tp).queue.Right := by
    split <;> exact right
  generalize (if tp.termios.cOspeed = 0 then { tp with min := 0 } else tp) = tp' at start
  split
  · exact start
  · have moved := transferLoop_right tp'.queue.incount.toNat [] start
    split_ifs <;> exact moved

theorem sigchar_right (sig : Int) (right : tp.queue.Right) : (sigchar dev tp sig).queue.Right := by
  unfold sigchar
  dsimp only
  split_ifs
  all_goals first
    | exact right
    | exact right.discard.1

/-! ### Input processing -/

/-- A stage keeps the queue in order. -/
def StageKeeps (stage : Tty σ → BitVec 16 → Tty σ × Option (BitVec 16)) : Prop :=
  ∀ tp ch, tp.queue.Right → (stage tp ch).1.queue.Right

theorem extensions_keeps : StageKeeps (extensions dev) := by
  intro tp ch right
  unfold extensions
  dsimp only
  generalize (if tp.escaped then ch ||| inEsc else ch) = ch'
  split_ifs
  · dsimp only
    rw [rawecho_queue, rawecho_queue]
    exact right
  · exact (reprint_alike _).right right
  · exact right
  · exact right

theorem mapChar_keeps : @StageKeeps σ mapChar := by
  intro tp ch right
  unfold mapChar
  dsimp only
  split_ifs <;> exact right

theorem canonical_keeps : StageKeeps (canonical dev) := by
  intro tp ch right
  have killed := @killLine_right σ dev tp tp.queue.incount.toNat right
  unfold canonical
  dsimp only
  split_ifs
  · exact backOver_right right
  · rw [echo_queue]
    exact backOver_right right
  · exact killed
  · rw [rawecho_queue, echo_queue]
    exact killed
  · rw [echo_queue]
    exact killed
  all_goals exact right

theorem startStop_keeps : @StageKeeps σ startStop := by
  intro tp ch right
  unfold startStop
  split_ifs <;> exact right

theorem signalChar_keeps : StageKeeps (signalChar dev) := by
  intro tp ch right
  unfold signalChar
  split
  · rw [echo_queue]
    exact sigchar_right _ right
  · exact right

theorem stages_right (right : tp.queue.Right) : (stages dev tp ch).1.queue.Right := by
  unfold stages
  dsimp only
  have all : ∀ stage ∈ [extensions dev, mapChar, canonical dev, startStop, signalChar dev],
      StageKeeps stage := by
    simp only [List.forall_mem_cons, List.not_mem_nil, false_implies, implies_true, and_true]
    exact ⟨extensions_keeps, mapChar_keeps, canonical_keeps, startStop_keeps, signalChar_keeps⟩
  generalize [extensions dev, mapChar, canonical dev, startStop, signalChar dev] = list at all
  generalize some (if tp.iflag istrip then ch &&& 0x7F else ch) = ch'
  induction list generalizing tp ch' with
  | nil => exact right
  | cons stage rest inductionHypothesis =>
    obtain ⟨first, others⟩ := List.forall_mem_cons.mp all
    rw [List.foldl_cons]
    cases ch' with
    | none => exact inductionHypothesis right others none
    | some ch => exact inductionHypothesis (first tp ch right) others _

theorem save_right (right : tp.queue.Right) (room : tp.queue.incount ≠ ttyInBytes) :
    (save dev tp ch).queue.Right := by
  have less : tp.queue.incount < ttyInBytes := lt_of_le_of_ne right.room room
  unfold save
  dsimp only
  have queue : (if tp.termios.cLflag &&& (echoFlag ||| echonl) ≠ 0 then echo dev tp ch
      else (tp, ch)).1.queue = tp.queue := by
    split
    · exact echo_queue
    · rfl
  generalize (if tp.termios.cLflag &&& (echoFlag ||| echonl) ≠ 0 then echo dev tp ch
    else (tp, ch)) = echoed at queue
  rw [queue]
  have stored := (right.store less echoed.2).1
  split
  · exact inTransfer_right stored
  · exact stored

theorem inProcess_right (buf : List UInt8) (timeset : Bool) (right : tp.queue.Right) :
    (inProcess dev buf timeset tp).2.queue.Right := by
  induction buf generalizing timeset tp with
  | nil => exact right
  | cons byte buf inductionHypothesis =>
    have staged := @stages_right σ dev tp (byte.toBitVec.setWidth 16) right
    unfold inProcess
    split
    case h_1 tp' taken =>
      rw [taken] at staged
      exact inductionHypothesis timeset staged
    case h_2 tp' ch stored =>
      rw [stored] at staged
      dsimp only
      split_ifs with full
      · exact inductionHypothesis timeset staged
      · exact staged
      · exact inductionHypothesis timeset (save_right staged full)
      all_goals exact inductionHypothesis _ (save_right staged full)

theorem setattr_right (right : tp.queue.Right) : (setattr dev tp).queue.Right := by
  unfold setattr
  dsimp only
  have marked : (if tp.lflag icanon then tp else { tp with queue := tp.queue.markAll }).queue.Right := by
    split
    · exact right
    · exact right.markAll
  generalize (if tp.lflag icanon then tp else { tp with queue := tp.queue.markAll }) = tp' at marked
  split_ifs
  all_goals first
    | exact marked
    | exact sigchar_right _ marked

end Keeps

/-! ### Runs -/

/-- What happens to a terminal. -/
inductive Action (σ : Type)
  | inProcess (buf : List UInt8)
  | inTransfer
  | backOver
  | reprint
  | setattr
  | sigchar (sig : Int)
  | icancel
  /-- Anything else, such as a read that is asked for or attributes that are copied. The input queue
  is not touched. -/
  | others (tp : Tty σ)

def act {σ : Type} (dev : Device σ) (tp : Tty σ) : Action σ → Tty σ
  | .inProcess buf => (inProcess dev buf false tp).2
  | .inTransfer => inTransfer tp
  | .backOver => (backOver dev tp).2
  | .reprint => reprint dev tp
  | .setattr => setattr dev tp
  | .sigchar sig => sigchar dev tp sig
  | .icancel => ttyIcancel dev tp
  | .others tp' => { tp' with queue := tp.queue }

/-- The queue of a terminal that has been initialized. -/
def initialQueue (inbuf : Nat → BitVec 16) : Queue := ⟨inbuf, 0, 0, 0, 0, false⟩

/-- The counts, the bounds and the line breaks of the input queue are right. -/
structure QueueInOrder (q : Queue) : Prop where
  /-- The count is the number of slots between the tail and the head. -/
  slots : q.incount % ttyInBytes = ((q.inhead : Int) - q.intail) % ttyInBytes
  breaks : q.eotct = q.entries.countP (has inEot)
  bounds : 0 ≤ q.eotct ∧ q.eotct ≤ q.incount ∧ q.incount ≤ ttyInBytes
  inside : q.inhead < ttyInBytes ∧ q.intail < ttyInBytes
  kept : q.overrun = false

theorem Queue.Right.inOrder {q : Queue} (right : q.Right) : QueueInOrder q := by
  refine ⟨?_, right.breaks, ⟨right.eotct_le.1, right.eotct_le.2, right.room⟩,
    ⟨right.head, right.tail⟩, right.kept⟩
  have nonneg := right.nonneg
  have room := right.room
  have place := right.place
  unfold ttyInBytes at *
  omega

theorem initialQueue_right (inbuf : Nat → BitVec 16) : (initialQueue inbuf).Right :=
  ⟨Nat.succ_pos 255, Nat.succ_pos 255, Int.le_refl 0, Int.natCast_nonneg ttyInBytes, rfl, rfl, rfl⟩

theorem act_right {σ : Type} {dev : Device σ} {tp : Tty σ} (right : tp.queue.Right)
    (action : Action σ) : (act dev tp action).queue.Right := by
  cases action with
  | inProcess buf => exact inProcess_right buf false right
  | inTransfer => exact inTransfer_right right
  | backOver => exact backOver_right right
  | reprint => exact (reprint_alike tp).right right
  | setattr => exact setattr_right right
  | sigchar sig => exact sigchar_right sig right
  | icancel => exact right.discard.1
  | others tp' => exact right

/-- Whatever happens to a terminal, its input queue is in order. -/
theorem input_queue_in_order {σ : Type} (dev : Device σ) (inbuf : Nat → BitVec 16) (tp : Tty σ)
    (actions : List (Action σ)) :
    QueueInOrder (actions.foldl (act dev) { tp with queue := initialQueue inbuf }).queue := by
  suffices right : (actions.foldl (act dev) { tp with queue := initialQueue inbuf }).queue.Right from
    right.inOrder
  have start : ({ tp with queue := initialQueue inbuf } : Tty σ).queue.Right :=
    initialQueue_right inbuf
  generalize ({ tp with queue := initialQueue inbuf } : Tty σ) = tp' at start
  induction actions generalizing tp' with
  | nil => exact start
  | cons action actions inductionHypothesis =>
    exact inductionHypothesis (act dev tp' action) (act_right start action)

end Minix.Terminal
