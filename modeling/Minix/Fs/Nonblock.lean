/-
This file proves when a call on a pipe with `O_NONBLOCK` set does what it should: the caller is not
suspended, a write of at most `PIPE_SIZE` bytes is done as a whole or not at all, and `EAGAIN` means
that nothing could be transferred.

The branches of `pipe_check` for writes that do not fit compare the size with `PIPE_SIZE` twice. A
write of exactly `PIPE_SIZE` bytes is in neither branch and suspends its caller.
-/

import Minix.Fs.Suspended

namespace Minix.Fs

open Function (update update_self)

/-! ### The chunks of a write -/

section Chunks

variable {copies : Nat → Copy} {fSize fuel index : Nat} {t : Transfer}

/-- The number of blocks that the next bytes of a transfer are in. -/
def blocks (position nbytes : Nat) : Nat :=
  if nbytes = 0 then 0 else (position % blockSize + nbytes - 1) / blockSize + 1

theorem blocks_advance {position nbytes : Nat} (more : nbytes ≠ 0) :
    blocks position nbytes =
      blocks (position + min nbytes (blockSize - position % blockSize))
        (nbytes - min nbytes (blockSize - position % blockSize)) + 1 := by
  have within := Nat.mod_lt position (show 0 < blockSize by decide)
  unfold blocks
  rw [if_neg more]
  by_cases last : nbytes ≤ blockSize - position % blockSize
  · rw [Nat.min_eq_left last, Nat.sub_self, if_pos rfl, Nat.div_eq_of_lt (by omega)]
  · have aligned : (position + (blockSize - position % blockSize)) % blockSize = 0 := by
      change (position + (1024 - position % 1024)) % 1024 = 0
      omega
    rw [Nat.min_eq_right (by omega), if_neg (by omega), aligned]
    have split : position % blockSize + nbytes - 1 =
        (0 + (nbytes - (blockSize - position % blockSize)) - 1) + blockSize := by omega
    rw [split, Nat.add_div_right _ (by decide)]

theorem transfer_complete (enough : t.nbytes ≤ fuel)
    (copied : ∀ i < blocks t.position t.nbytes, copies (index + i) = .copied) :
    (transfer .writing copies fSize fuel index none t).nbytes = 0 ∧
      (transfer .writing copies fSize fuel index none t).r = t.r := by
  induction fuel generalizing index t with
  | zero => exact ⟨Nat.le_zero.mp enough, rfl⟩
  | succ fuel inductionHypothesis =>
    rw [transfer]
    by_cases done : t.nbytes = 0
    · rw [if_pos done]
      exact ⟨done, rfl⟩
    have split := @blocks_advance t.position t.nbytes done
    have first := copied 0 (by omega)
    rw [if_neg done, if_neg fun wrong => RwFlag.noConfusion wrong.1]
    rw [Nat.add_zero] at first
    rw [first]
    refine inductionHypothesis ?_ fun i below => ?_
    · change t.nbytes - min t.nbytes (blockSize - t.position % blockSize) ≤ fuel
      have room := Nat.mod_lt t.position (show 0 < blockSize by decide)
      omega
    · rw [Nat.add_assoc, Nat.add_comm 1]
      refine copied (i + 1) ?_
      rw [split]
      exact Nat.succ_lt_succ below

theorem transfer_incomplete {i : Nat} (below : i < blocks t.position t.nbytes)
    (stops : copies (index + i) ≠ .copied) :
    (transfer .writing copies fSize fuel index none t).nbytes ≠ 0 := by
  induction fuel generalizing index t i with
  | zero =>
    intro done
    change t.nbytes = 0 at done
    rw [done] at below
    exact absurd below (Nat.not_lt_zero i)
  | succ fuel inductionHypothesis =>
    have more : t.nbytes ≠ 0 := by
      intro done
      rw [done] at below
      exact absurd below (Nat.not_lt_zero i)
    rw [transfer, if_neg more, if_neg fun wrong => RwFlag.noConfusion wrong.1]
    split
    · exact more
    · exact more
    · exact more
    case _ first =>
      dsimp only
      cases i with
      | zero => exact absurd first stops
      | succ i =>
        have split := @blocks_advance t.position t.nbytes more
        refine @inductionHypothesis (index + 1) _ i ?_ ?_
        · change i < blocks (t.position + min t.nbytes (blockSize - t.position % blockSize))
            (t.nbytes - min t.nbytes (blockSize - t.position % blockSize))
          omega
        · rw [Nat.add_assoc, Nat.add_comm 1]
          exact stops

/-- What a write comes to with its first copy; with a copy that is made it goes on. -/
def afterCopy (t rest : Transfer) : Copy → Transfer
  | .fault code => { t with r := some code }
  | .diskError code => { t with r := some code }
  | .endOfFile => t
  | .copied => rest

/-- A write is done as a whole or not at all if all copies are made or the first one fails. -/
theorem transfer_whole_iff (enough : t.nbytes ≤ fuel) (more : t.nbytes ≠ 0) (clear : t.r = none) :
    ((transfer .writing copies fSize fuel index none t).nbytes = 0 ∧
        (transfer .writing copies fSize fuel index none t).r = none ∨
      (transfer .writing copies fSize fuel index none t).r ≠ none ∧
        (transfer .writing copies fSize fuel index none t).nbytes = t.nbytes) ↔
      (∀ i < blocks t.position t.nbytes, copies (index + i) = .copied) ∨
        (copies index).Fails := by
  have begun : transfer .writing copies fSize fuel index none t =
      afterCopy t (transfer .writing copies fSize (fuel - 1) (index + 1) none
        (t.advance .writing (t.chunk .writing fSize none))) (copies index) := by
    cases fuel with
    | zero => exact absurd (Nat.le_zero.mp enough) more
    | succ fuel =>
      rw [transfer, if_neg more, if_neg fun wrong => RwFlag.noConfusion wrong.1]
      cases copies index <;> rfl
  constructor
  · intro whole
    by_contra neither
    obtain ⟨missed, works⟩ := not_or.mp neither
    push Not at missed
    obtain ⟨i, below, stops⟩ := missed
    obtain ⟨done, -⟩ | ⟨failed, unmoved⟩ := whole
    · exact transfer_incomplete below stops done
    · cases first : copies index <;> rw [first] at begun works
      case fault | diskError => exact works trivial
      case endOfFile =>
        rw [begun] at failed
        exact failed clear
      case copied =>
        dsimp only [afterCopy] at begun
        have fits : Fits none (t.advance .writing (t.chunk .writing fSize none)) :=
          fun left same => by cases same
        obtain ⟨n, moves, -⟩ := transfer_moves .writing copies fSize (fuel - 1) (index + 1) fits
        have rest := moves.nbytes
        rw [← begun, unmoved] at rest
        change _ = t.nbytes - min t.nbytes (blockSize - t.position % blockSize) at rest
        have room := Nat.mod_lt t.position (show 0 < blockSize by decide)
        omega
  · rintro (copied | fails)
    · obtain ⟨done, clear'⟩ := @transfer_complete copies fSize fuel index t enough copied
      exact .inl ⟨done, clear'.trans clear⟩
    · cases first : copies index <;> rw [first] at begun fails
      case fault | diskError =>
        rw [begun]
        exact .inr ⟨Option.some_ne_none _, rfl⟩
      case copied | endOfFile => exact absurd fails id

theorem transfer_code {rwFlag : RwFlag} {room : Option Nat} {code : Errno} (clear : t.r = none)
    (ends : (transfer rwFlag copies fSize fuel index room t).r = some code) :
    ∃ i, copies i = .fault code ∨ copies i = .diskError code := by
  induction fuel generalizing index room t with
  | zero =>
    rw [transfer, clear] at ends
    cases ends
  | succ fuel inductionHypothesis =>
    rw [transfer] at ends
    split at ends
    · rw [clear] at ends
      cases ends
    split at ends
    · rw [clear] at ends
      cases ends
    split at ends
    case h_1 first => exact ⟨index, .inl (first.trans (congrArg _ (Option.some.inj ends)))⟩
    case h_2 first => exact ⟨index, .inr (first.trans (congrArg _ (Option.some.inj ends)))⟩
    case h_3 =>
      rw [clear] at ends
      cases ends
    case h_4 =>
      dsimp only at ends
      split at ends
      · refine inductionHypothesis ?_ ends
        exact clear
      · split at ends
        · change t.r = some code at ends
          rw [clear] at ends
          cases ends
        · refine inductionHypothesis ?_ ends
          exact clear

end Chunks

/-! ### Calls that may not be suspended -/

/-- Nothing can be transferred: there is nothing to read, or no room for all bytes of a write that
is not split, or no room at all. -/
def Exhausted (s : State) (f : FilpNr) (nbytes : Nat) : RwFlag → Prop
  | .reading => (s.inode (s.filp f).filpIno).iSize ≤ (s.filp f).filpPos
  | .writing =>
    if nbytes ≤ pipeSize then pipeSize < startPosition s f .writing + nbytes
    else pipeSize ≤ startPosition s f .writing

/-- A call with `O_NONBLOCK` set has done what it should. -/
structure NonblockRight (s s' : State) (p : Slot) (f : FilpNr) (rwFlag : RwFlag) (nbytes : Nat)
    (r : Result) : Prop where
  awake : r ≠ .suspend ∧
    ((s.fproc p).fpSuspended = false → (s'.fproc p).fpSuspended = false)
  whole : rwFlag = .writing → nbytes ≤ pipeSize →
    (∃ value, r = .ok value ∧ s'.history.moved p = s.history.moved p + nbytes ∧
      ((s.fproc p).fpCumIoPartial = 0 → value = nbytes)) ∨
    ((∃ code, r = .error code) ∧ s'.history.moved p = s.history.moved p)
  again : r = .error .eagain →
    s'.history.moved p = s.history.moved p ∧ Exhausted s f nbytes rwFlag

/-- The write is neither refused as too big nor ended by a broken pipe. -/
def Proceeds (s : State) (f : FilpNr) (nbytes : Nat) : Prop :=
  (s.filp f).filpMode .writing = true ∧
    growsTooBig (s.inode (s.filp f).filpIno) (s.filp f).filpPos nbytes = false ∧
    (findFilp s (s.filp f).filpIno .reading).isSome = true

/-- A write of exactly `PIPE_SIZE` bytes finds the pipe empty, and no copy of a write that fits
fails after another one was made. -/
def NonblockSafe (s : State) (f : FilpNr) (nbytes : Nat) (copies : Nat → Copy) : Prop :=
  Proceeds s f nbytes →
    (nbytes = pipeSize → startPosition s f .writing = 0) ∧
    (startPosition s f .writing + nbytes ≤ pipeSize →
      (∀ i < blocks (startPosition s f .writing) nbytes, copies i = .copied) ∨ (copies 0).Fails)

section Nonblock

variable {s s' : State} {p : Slot} {f : FilpNr} {fd : Fd} {rip : InodeNr} {rwFlag : RwFlag}
  {oflags : Flags} {buffer : Nat → UInt8} {nbytes position canwrite : Nat} {copies : Nat → Copy}
  {result : Result}

theorem release_woken' (s : State) (ip : InodeNr) (callNr : CallNr) (count : Int) :
    Woken s (release s ip callNr count) := by
  unfold release
  generalize List.finRange nrProcs = slots
  induction slots generalizing s count with
  | nil => exact .refl s
  | cons rp slots inductionHypothesis =>
    rw [releaseFrom]
    split
    · have revived : Woken s { revive s rp with suspCount := (revive s rp).suspCount - 1 } := by
        have woken := revive_woken s rp
        exact ⟨woken.fpFilp, woken.dir, woken.superBlock, woken.fpCumIoPartial, woken.fpCall,
          woken.fpBuffer, woken.filp, woken.inode, woken.live, woken.history, woken.resting,
          woken.pipeCall, woken.waits⟩
      split
      · exact revived
      · exact revived.trans (inductionHypothesis _ _)
    · exact inductionHypothesis _ _

/-- Nothing has happened to the call of a process. -/
structure Calm (p : Slot) (s s' : State) : Prop where
  history : s'.history = s.history
  saved : (s'.fproc p).fpCumIoPartial = (s.fproc p).fpCumIoPartial
  resting : (s.fproc p).fpSuspended = false → (s'.fproc p).fpSuspended = false

theorem Calm.refl (p : Slot) (s : State) : Calm p s s := ⟨rfl, rfl, id⟩

theorem Calm.trans {s'' : State} (first : Calm p s s') (second : Calm p s' s'') : Calm p s s'' :=
  ⟨second.history.trans first.history, second.saved.trans first.saved,
    fun resting => second.resting (first.resting resting)⟩

theorem release_calm (s : State) (p : Slot) (ip : InodeNr) (callNr : CallNr) (count : Int) :
    Calm p s (release s ip callNr count) := by
  have woken := release_woken' s ip callNr count
  exact ⟨woken.history, woken.fpCumIoPartial p, fun resting => by
    rw [woken.resting p resting]
    exact resting⟩

theorem right_of_error {code : Errno} (calm : Calm p s s')
    (again : code = .eagain → Exhausted s f nbytes rwFlag) :
    NonblockRight s s' p f rwFlag nbytes (.error code) where
  awake := ⟨Result.noConfusion, calm.resting⟩
  whole _ _ := .inr ⟨⟨code, rfl⟩, by rw [calm.history]⟩
  again same := ⟨by rw [calm.history], again (Result.error.inj same)⟩

theorem moveBytes_nonblock (nonblock : oflags.nonblock = true) :
    let rip := (s.filp f).filpIno
    let t := transfer rwFlag copies (s.inode rip).iSize nbytes 0
      (if 0 < canwrite then some canwrite else none)
      { position, nbytes, buffer
        cumIo := (s.fproc p).fpCumIoPartial
        contents := (s.inode rip).contents }
    let out := moveBytes s p f rwFlag oflags fd buffer nbytes position canwrite copies
    out.2 = (match t.r with
      | some code => .error code
      | none => .ok t.cumIo) ∧
    (out.1.fproc p).fpSuspended = (s.fproc p).fpSuspended ∧
    out.1.history.moved p = s.history.moved p + t.moved.length := by
  intro rip t out
  have shifted := finish_shifted s p f rip rwFlag t
  have moved : (finish s p f rip rwFlag t).history.moved p =
      s.history.moved p + t.moved.length := by
    rw [finish_history, (noteTransfer_frame s.history p rip rwFlag t.moved).2.2.2,
      update_self]
  have outcome : out = moveBytes s p f rwFlag oflags fd buffer nbytes position canwrite copies := rfl
  change out = match t.r with | some code => _ | none => _ at outcome
  cases ends : t.r with
  | some code =>
    rw [ends] at outcome
    rw [outcome]
    exact ⟨rfl, congrArg Fproc.fpSuspended (congrFun shifted.fproc p), moved⟩
  | none =>
    rw [ends] at outcome
    dsimp only at outcome
    rw [if_neg fun partly => by rw [nonblock] at partly; cases partly.2] at outcome
    rw [outcome]
    refine ⟨rfl, ?_, moved⟩
    rw [State.modifyFproc_fproc, update_self, congrFun shifted.fproc p]

/-- A transfer of a call that may not be suspended does what it should, unless it is a write that
must be whole and is not. -/
theorem moveBytes_right_iff (calm : Calm p s s') (nonblock : oflags.nonblock = true)
    (codes : ∀ i, copies i ≠ .fault .eagain ∧ copies i ≠ .diskError .eagain) (more : nbytes ≠ 0)
    (large : canwrite ≠ 0 → pipeSize < nbytes) :
    NonblockRight s (moveBytes s' p f rwFlag oflags fd buffer nbytes position canwrite copies).1
        p f rwFlag nbytes
        (moveBytes s' p f rwFlag oflags fd buffer nbytes position canwrite copies).2 ↔
      (rwFlag = .writing → nbytes ≤ pipeSize →
        (∀ i < blocks position nbytes, copies i = .copied) ∨ (copies 0).Fails) := by
  have did := @moveBytes_nonblock s' p f fd rwFlag oflags buffer nbytes position canwrite copies
    nonblock
  generalize moveBytes s' p f rwFlag oflags fd buffer nbytes position canwrite copies = out at did ⊢
  obtain ⟨result, resting, moved⟩ := did
  have awake : out.2 ≠ .suspend ∧
      ((s.fproc p).fpSuspended = false → (out.1.fproc p).fpSuspended = false) := by
    refine ⟨?_, fun rests => ?_⟩
    · rw [result]
      split <;> exact fun wrong => Result.noConfusion wrong
    · rw [resting]
      exact calm.resting rests
  have again : out.2 ≠ .error .eagain := by
    rw [result]
    split
    case h_1 code ends =>
      intro same
      rw [Result.error.inj same] at ends
      obtain ⟨i, fault | disk⟩ := transfer_code rfl ends
      · exact (codes i).1 fault
      · exact (codes i).2 disk
    case h_2 => exact fun wrong => Result.noConfusion wrong
  by_cases atomic : rwFlag = .writing ∧ nbytes ≤ pipeSize
  case neg =>
    refine iff_of_true ⟨awake, fun writing small => absurd ⟨writing, small⟩ atomic,
      fun same => absurd same again⟩ fun writing small => absurd ⟨writing, small⟩ atomic
  case pos =>
    obtain ⟨rfl, small⟩ := atomic
    have none : canwrite = 0 := by
      by_contra some
      exact Nat.not_lt.mpr small (large some)
    subst none
    rw [if_neg (Nat.lt_irrefl 0)] at result moved
    generalize start : (⟨position, nbytes, (s'.fproc p).fpCumIoPartial, buffer,
      (s'.inode (s'.filp f).filpIno).contents, [], none⟩ : Transfer) = t at result moved
    have fields : t.position = position ∧ t.nbytes = nbytes ∧
        t.cumIo = (s'.fproc p).fpCumIoPartial ∧ t.moved = [] ∧ t.r = Option.none := by
      subst start
      exact ⟨rfl, rfl, rfl, rfl, rfl⟩
    obtain ⟨place, size, saved, fresh, clear⟩ := fields
    have fits : Fits Option.none t := fun left same => by cases same
    obtain ⟨n, moves, -⟩ := transfer_moves .writing copies
      (s'.inode (s'.filp f).filpIno).iSize nbytes 0 fits
    have whole := @transfer_whole_iff copies (s'.inode (s'.filp f).filpIno).iSize nbytes 0 t
      size.le (size ▸ more) clear
    rw [place, size] at whole
    simp only [Nat.zero_add] at whole
    rw [moves.length fresh, calm.history] at moved
    have count := moves.nbytes
    rw [size] at count
    have total := moves.cumIo
    rw [saved, calm.saved] at total
    constructor
    · intro right _ _
      refine whole.mp ?_
      obtain ⟨value, ok, all, -⟩ | ⟨⟨code, error⟩, unmoved⟩ := right.whole rfl small
      · refine .inl ⟨by omega, ?_⟩
        rw [result] at ok
        split at ok
        · cases ok
        · assumption
      · refine .inr ⟨?_, by omega⟩
        rw [result] at error
        split at error
        case h_1 ends =>
          rw [ends]
          exact Option.some_ne_none _
        case h_2 => cases error
    · intro safe
      refine ⟨awake, fun _ _ => ?_, fun same => absurd same again⟩
      obtain ⟨done, ended⟩ | ⟨failed, unmoved⟩ := whole.mpr (safe rfl small)
      · refine .inl ⟨_, by rw [result, ended], by omega, fun fresh => ?_⟩
        rw [total, fresh]
        omega
      · obtain ⟨code, ends⟩ := Option.ne_none_iff_exists'.mp failed
        exact .inr ⟨⟨code, by rw [result, ends]⟩, by omega⟩

theorem pipeCheckRead_cases (nonblock : oflags.nonblock = true) :
    (∃ s', Calm p s s' ∧ (s.inode rip).iSize ≤ position ∧
      pipeCheckRead s p rip oflags fd buffer nbytes position = (s', .stop (.error .eagain))) ∨
    pipeCheckRead s p rip oflags fd buffer nbytes position = (s, .stop (.ok 0)) ∨
    pipeCheckRead s p rip oflags fd buffer nbytes position = (s, .go 0) := by
  unfold pipeCheckRead
  split
  case isTrue drained =>
    split
    case isTrue =>
      dsimp only
      refine .inl ⟨_, ?_, drained, rfl⟩
      split
      · exact release_calm s p _ .write s.suspCount
      · exact .refl p s
    case isFalse => exact .inr (.inl rfl)
  case isFalse => exact .inr (.inr rfl)

/-- What `pipe_check` finds for a write that may not be suspended, to a pipe that somebody can
read. -/
inductive WriteCheck (s : State) (p : Slot) (bytes position : Nat) : State × Check → Prop
  | again (full : pipeSize < position + bytes) (other : bytes ≠ pipeSize)
      (room : pipeSize < bytes → pipeSize ≤ position) :
      WriteCheck s p bytes position (s, .stop (.error .eagain))
  | part {s' : State} {canwrite : Nat} (calm : Calm p s s') (large : pipeSize < bytes) :
      WriteCheck s p bytes position (s', .go canwrite)
  | all {s' : State} (calm : Calm p s s') (fits : position + bytes ≤ pipeSize) :
      WriteCheck s p bytes position (s', .go 0)
  | suspend {s' : State} (full : pipeSize < position + bytes) (exact : bytes = pipeSize) :
      WriteCheck s p bytes position (s', .stop .suspend)

theorem pipeCheckWrite_cases (nonblock : oflags.nonblock = true)
    (reader : (findFilp s rip .reading).isSome = true) :
    WriteCheck s p nbytes position
      (pipeCheckWrite s p rip oflags fd buffer nbytes position) := by
  unfold pipeCheckWrite
  rw [if_neg fun none => by rw [Option.isNone_iff_eq_none.mp none] at reader; cases reader]
  split
  case isFalse fits =>
    refine .all ?_ (Nat.not_lt.mp fits)
    split
    · exact release_calm s p _ .read s.suspCount
    · exact .refl p s
  case isTrue full =>
    split
    case isTrue small => exact .again full small.2.ne fun large => absurd large small.2.le.not_gt
    case isFalse notSmall =>
      have least : pipeSize ≤ nbytes := Nat.not_lt.mp fun small => notSmall ⟨nonblock, small⟩
      split
      case isTrue large =>
        split
        · exact .part (release_calm s p _ .read s.suspCount) large.2
        case isFalse room =>
          exact .again full large.2.ne' fun _ => Nat.le_of_sub_eq_zero (Nat.eq_zero_of_not_pos room)
      case isFalse notLarge =>
        have most : nbytes ≤ pipeSize := Nat.not_lt.mp fun large => notLarge ⟨nonblock, large⟩
        rw [if_neg fun large => most.not_gt large.1]
        exact .suspend full (most.antisymm least)

theorem read_nonblock (nonblock : (s.filp f).filpFlags.nonblock = true) (more : nbytes ≠ 0)
    (codes : ∀ i, copies i ≠ .fault .eagain ∧ copies i ≠ .diskError .eagain) :
    NonblockRight s (readWritePipe s p f .reading fd buffer nbytes copies).1 p f .reading nbytes
      (readWritePipe s p f .reading fd buffer nbytes copies).2 := by
  have start : startPosition s f .reading = (s.filp f).filpPos :=
    if_neg fun wrong => RwFlag.noConfusion wrong.1
  unfold readWritePipe
  dsimp only
  rw [if_neg fun wrong => RwFlag.noConfusion wrong.1,
    if_neg fun wrong => RwFlag.noConfusion wrong.1, start]
  unfold pipeCheck
  obtain ⟨s', calm, drained, check⟩ | check | check := @pipeCheckRead_cases s p fd
    (s.filp f).filpIno (s.filp f).filpFlags buffer nbytes (s.filp f).filpPos nonblock
  · rw [check]
    exact right_of_error calm fun _ => drained
  · rw [check]
    exact ⟨⟨Result.noConfusion, id⟩, fun wrong => RwFlag.noConfusion wrong,
      fun wrong => Result.noConfusion wrong⟩
  · rw [check]
    exact (moveBytes_right_iff (.refl p s) nonblock codes more fun some => absurd rfl some).mpr
      fun wrong => RwFlag.noConfusion wrong

/-- When a write to a pipe that may not wait does what it should. -/
theorem write_nonblock_iff (nonblock : (s.filp f).filpFlags.nonblock = true) (more : nbytes ≠ 0)
    (codes : ∀ i, copies i ≠ .fault .eagain ∧ copies i ≠ .diskError .eagain)
    (mode : (s.filp f).filpMode .writing = true) :
    NonblockRight s (readWritePipe s p f .writing fd buffer nbytes copies).1 p f .writing nbytes
        (readWritePipe s p f .writing fd buffer nbytes copies).2 ↔
      NonblockSafe s f nbytes copies := by
  unfold readWritePipe
  dsimp only
  by_cases big : growsTooBig (s.inode (s.filp f).filpIno) (s.filp f).filpPos nbytes = true
  case pos =>
    rw [if_pos ⟨rfl, big⟩]
    refine iff_of_true (right_of_error (.refl p s) fun wrong => Errno.noConfusion wrong) ?_
    intro proceeds
    rw [proceeds.2.1] at big
    cases big
  case neg =>
  rw [if_neg fun wrong => big wrong.2]
  -- clearing the end of the last zone changes data only
  obtain ⟨s₁, cleared, filp, calm⟩ : ∃ s₁, (if RwFlag.writing = .writing ∧
      (s.inode (s.filp f).filpIno).iSize < startPosition s f .writing then
        s.modifyInode (s.filp f).filpIno fun entry =>
          { entry with contents := clearZone entry entry.iSize }
      else s) = s₁ ∧ s₁.filp = s.filp ∧ Calm p s s₁ := by
    refine ⟨_, rfl, ?_, ?_⟩
    · split <;> rfl
    · split <;> exact ⟨rfl, rfl, id⟩
  rw [cleared]
  have found : findFilp s₁ (s.filp f).filpIno .reading = findFilp s (s.filp f).filpIno .reading := by
    unfold findFilp
    rw [filp]
  unfold pipeCheck
  by_cases reader : (findFilp s (s.filp f).filpIno .reading).isSome = true
  case neg =>
    have none : (findFilp s₁ (s.filp f).filpIno .reading).isNone = true := by
      rw [found, ← Option.not_isSome, Bool.not_eq_true']
      exact Bool.eq_false_iff.mpr reader
    unfold pipeCheckWrite
    rw [if_pos none]
    exact iff_of_true (right_of_error calm fun wrong => Errno.noConfusion wrong)
      fun proceeds => absurd proceeds.2.2 reader
  case pos =>
    have proceeds : Proceeds s f nbytes := ⟨mode, Bool.eq_false_iff.mpr big, reader⟩
    have check := @pipeCheckWrite_cases s₁ p fd (s.filp f).filpIno (s.filp f).filpFlags buffer
      nbytes (startPosition s f .writing) nonblock (found ▸ reader)
    generalize pipeCheckWrite s₁ p (s.filp f).filpIno (s.filp f).filpFlags fd buffer nbytes
      (startPosition s f .writing) = checked at check ⊢
    cases check with
    | again full other room =>
      refine iff_of_true (right_of_error calm fun _ => ?_) fun _ => ⟨fun same => absurd same other,
        fun fits => absurd full fits.not_gt⟩
      unfold Exhausted
      dsimp only
      split
      case isTrue => exact full
      case isFalse large => exact room (Nat.not_le.mp large)
    | part calm' large =>
      refine iff_of_true ((moveBytes_right_iff (calm.trans calm') nonblock codes more
        fun _ => large).mpr fun _ small => absurd large small.not_gt) fun _ =>
          ⟨fun same => absurd same large.ne', fun fits => ?_⟩
      omega
    | all calm' fits =>
      refine (moveBytes_right_iff (calm.trans calm') nonblock codes more
        fun some => absurd rfl some).trans ⟨fun right _ => ⟨fun same => ?_, fun _ => ?_⟩,
          fun safe _ _ => (safe proceeds).2 fits⟩
      · omega
      · exact right rfl (by omega)
    | suspend full same =>
      refine iff_of_false (fun right => right.awake.1 rfl) fun safe => ?_
      have start := (safe proceeds).1 same
      omega

end Nonblock

/-- A call with `O_NONBLOCK` set on a pipe does what it should exactly when a write of exactly
`PIPE_SIZE` bytes finds the pipe empty, and a write that fits is not ended in the middle by a copy
that is not made. -/
theorem nonblocking_right_iff {s : State} {p : Slot} {f : FilpNr} {fd : Fd} {fild nbytes : Int}
    {io : Io} (rwFlag : RwFlag) (buffer : Nat → UInt8)
    (found : getFilp s p fild = some (fd, f))
    (isPipe : (s.inode (s.filp f).filpIno).iPipe = true)
    (nonblock : (s.filp f).filpFlags.nonblock = true)
    (codes : ∀ i, io.copies i ≠ .fault .eagain ∧ io.copies i ≠ .diskError .eagain) :
    NonblockRight s (readWrite s p rwFlag fild buffer nbytes io).1 p f rwFlag nbytes.toNat
        (readWrite s p rwFlag fild buffer nbytes io).2 ↔
      (rwFlag = .writing → NonblockSafe s f nbytes.toNat io.copies) := by
  unfold readWrite
  by_cases negative : nbytes < 0
  · rw [if_pos negative]
    have none : nbytes.toNat = 0 := by omega
    refine iff_of_true (right_of_error (.refl p s) fun wrong => Errno.noConfusion wrong)
      fun _ _ => ⟨fun same => ?_, fun _ => .inl fun i below => ?_⟩
    · rw [none] at same
      cases same
    · rw [none] at below
      exact absurd below (Nat.not_lt_zero i)
  rw [if_neg negative, found]
  dsimp only
  by_cases mode : (s.filp f).filpMode rwFlag = true
  case neg =>
    rw [if_pos (by rw [Bool.eq_false_iff.mpr mode]; rfl)]
    refine iff_of_true (right_of_error (.refl p s) fun same => ?_) fun writing proceeds => ?_
    · split at same <;> cases same
    · exact absurd (writing ▸ proceeds.1) mode
  case pos =>
    rw [if_neg (by rw [mode]; exact Bool.false_ne_true)]
    by_cases none : nbytes = 0
    · rw [if_pos none]
      have none : nbytes.toNat = 0 := by omega
      refine iff_of_true ⟨⟨Result.noConfusion, id⟩, fun _ _ => .inl ⟨0, rfl, ?_, fun _ => none.symm⟩,
        fun wrong => Result.noConfusion wrong⟩ fun _ _ => ⟨fun same => ?_, fun _ => .inl
          fun i below => ?_⟩
      · rw [none, Nat.add_zero]
      · rw [none] at same
        cases same
      · rw [none] at below
        exact absurd below (Nat.not_lt_zero i)
    · rw [if_neg none, if_pos isPipe]
      have more : nbytes.toNat ≠ 0 := by omega
      cases rwFlag with
      | reading =>
        exact iff_of_true (read_nonblock nonblock more codes) fun wrong => RwFlag.noConfusion wrong
      | writing =>
        exact (write_nonblock_iff nonblock more codes mode).trans ⟨fun safe _ => safe,
          fun safe => safe rfl⟩

/-- A process makes a pipe, sets `O_NONBLOCK` for its writing end, and writes ten bytes. -/
def tenWritten : List Input :=
  [.message (.pipe 2 0 (.ok 5)), .message (.setfl 2 1 { nonblock := true }),
    .message (.readWrite 2 .writing 1 (fun _ => 0) 10 {})]

/-- The state of the file system then. -/
def tenState : State := (tenWritten.foldlM step fsInit).getD fsInit

/-- A write of as many bytes as are left is done. -/
theorem full_write_right :
    NonblockRight tenState (readWrite tenState 2 .writing 1 (fun _ => 0) 7158 {}).1 2 1 .writing
      7158 (readWrite tenState 2 .writing 1 (fun _ => 0) 7158 {}).2 := by
  refine (@nonblocking_right_iff tenState 2 1 1 1 7158 {} .writing (fun _ => 0) (by decide)
    (by decide) (by decide) fun _ => ⟨?_, ?_⟩).mpr fun _ _ =>
      ⟨fun wrong => ?_, fun _ => .inl fun _ _ => rfl⟩
  · exact fun wrong => Copy.noConfusion wrong
  · exact fun wrong => Copy.noConfusion wrong
  · exact absurd wrong (by decide)

/-- With ten bytes in the pipe, a write of `PIPE_SIZE` bytes suspends its caller, though it has set
`O_NONBLOCK`. -/
theorem exact_write_suspends : ∃ s, Reaches Contract tenWritten s ∧
    (s.filp 1).filpFlags.nonblock = true ∧ (s.inode 5).iPipe = true ∧
      (readWrite s 2 .writing 1 (fun _ => 0) pipeSize {}).2 = .suspend ∧
      ((readWrite s 2 .writing 1 (fun _ => 0) pipeSize {}).1.fproc 2).fpSuspended = true := by
  have executed : (Transition.execute step Contract tenWritten fsInit).map (fun s =>
      ((s.filp 1).filpFlags.nonblock, (s.inode 5).iPipe,
        (readWrite s 2 .writing 1 (fun _ => 0) pipeSize {}).2,
        ((readWrite s 2 .writing 1 (fun _ => 0) pipeSize {}).1.fproc 2).fpSuspended)) =
      some (true, true, Result.suspend, true) := by
    decide
  obtain ⟨s, executed, found⟩ := Option.map_eq_some_iff.mp executed
  simp only [Prod.mk.injEq] at found
  exact ⟨s, .of_execute executed, found⟩

end Minix.Fs
