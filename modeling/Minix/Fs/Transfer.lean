/-
This file proves what a transfer on a pipe does: it moves some number of bytes, the same number
in every variable that counts them, and leaves the pipe in order.
-/

import Minix.Fs.Ends

namespace Minix.Fs

open Function (update update_of_ne update_self)

/-! ### The loop over the chunks -/

section Loop

variable {rwFlag : RwFlag} {copies : Nat → Copy} {fSize fuel index n m : Nat}
  {room : Option Nat} {t t' t'' : Transfer}

/-- From `t` to `t'` the loop has moved `n` bytes. -/
structure Moves (rwFlag : RwFlag) (t t' : Transfer) (n : Nat) : Prop where
  nbytes : t'.nbytes + n = t.nbytes
  position : t'.position = t.position + n
  cumIo : t'.cumIo = t.cumIo + n
  buffer : t'.buffer = fun i => t.buffer (n + i)
  contents : t'.contents = t.store rwFlag n
  moved : t'.moved = t.moved ++ t.next rwFlag n

theorem Moves.none (rwFlag : RwFlag) (t : Transfer) (r : Option Errno) :
    Moves rwFlag t { t with r } 0 := by
  refine ⟨rfl, rfl, rfl, funext fun i => congrArg t.buffer (Nat.zero_add i).symm, ?_, ?_⟩
  · cases rwFlag <;> simp [Transfer.store]
  · cases rwFlag <;> simp [Transfer.next]

theorem Moves.advance (rwFlag : RwFlag) (t : Transfer) {chunk : Nat} (enough : chunk ≤ t.nbytes) :
    Moves rwFlag t (t.advance rwFlag chunk) chunk :=
  ⟨Nat.sub_add_cancel enough, rfl, rfl, rfl, rfl, rfl⟩

theorem Moves.trans (first : Moves rwFlag t t' n) (second : Moves rwFlag t' t'' m) :
    Moves rwFlag t t'' (n + m) := by
  have buffer : ∀ i, t'.buffer i = t.buffer (n + i) := fun i => congrFun first.buffer i
  refine ⟨?_, ?_, ?_, ?_, ?_, ?_⟩
  · rw [← first.nbytes, ← second.nbytes]
    omega
  · rw [second.position, first.position, Nat.add_assoc]
  · rw [second.cumIo, first.cumIo, Nat.add_assoc]
  · rw [second.buffer]
    funext i
    rw [buffer, Nat.add_assoc]
  · rw [second.contents]
    cases rwFlag with
    | reading => exact first.contents
    | writing =>
      simp only [Transfer.store]
      rw [first.contents, first.position, first.buffer]
      exact Tape.splice_splice _ _ _ _ _
  · rw [second.moved, first.moved, List.append_assoc]
    cases rwFlag with
    | reading =>
      simp only [Transfer.next]
      rw [first.position, first.contents, Nat.add_assoc, Transfer.store,
        Tape.window_append (Nat.le_add_right _ _) (by omega)]
    | writing =>
      simp only [Transfer.next]
      rw [first.buffer, Tape.window_shift, Nat.add_zero,
        Tape.window_append (Nat.zero_le n) (Nat.le_add_right n m)]

/-- The rest of a partial write is not more than what is asked for. -/
def Fits (room : Option Nat) (t : Transfer) : Prop := ∀ left, room = some left → left ≤ t.nbytes

theorem Fits.getD_le (fits : Fits room t) : room.getD t.nbytes ≤ t.nbytes := by
  cases room with
  | none => exact Nat.le_refl _
  | some left => exact fits left rfl

theorem Transfer.chunk_le (fits : Fits room t) : t.chunk rwFlag fSize room ≤ t.nbytes := by
  have bounded := fits.getD_le
  cases rwFlag <;> simp only [Transfer.chunk] <;> omega

theorem Transfer.chunk_present (room : Option Nat) (t : Transfer) :
    t.chunk .reading fSize room ≤ fSize - t.position :=
  Nat.min_le_right _ _

theorem Transfer.chunk_room {left : Nat} (t : Transfer) : t.chunk rwFlag fSize
    (some left) ≤ left := by
  cases rwFlag <;> simp only [Transfer.chunk, Option.getD_some] <;> omega

/-- The number of bytes moved is within the file for a read, and within the room for a partial
write. -/
def Within (rwFlag : RwFlag) (fSize : Nat) (room : Option Nat) (t : Transfer) (n : Nat) : Prop :=
  (rwFlag = .reading → n ≤ fSize - t.position) ∧ ∀ left, room = some left → n ≤ left

/-- Whatever the copies do, a transfer moves some number of bytes within its limits. -/
theorem transfer_moves (rwFlag : RwFlag) (copies : Nat → Copy) (fSize fuel index : Nat)
    (fits : Fits room t) :
    ∃ n, Moves rwFlag t (transfer rwFlag copies fSize fuel index room t) n ∧
      Within rwFlag fSize room t n := by
  induction fuel generalizing index room t with
  | zero => exact ⟨0, Moves.none rwFlag t t.r, fun _ => Nat.zero_le _, fun _ _ => Nat.zero_le _⟩
  | succ fuel inductionHypothesis =>
    have stop : ∀ r, ∃ n, Moves rwFlag t { t with r } n ∧ Within rwFlag fSize room t n :=
      fun r => ⟨0, Moves.none rwFlag t r, fun _ => Nat.zero_le _, fun _ _ => Nat.zero_le _⟩
    rw [transfer]
    split
    · exact stop t.r
    split
    · exact stop t.r
    split
    · exact stop _
    · exact stop _
    · exact stop t.r
    -- one chunk is copied, and the loop goes on unless a partial write has used up its room
    have enough := @Transfer.chunk_le rwFlag fSize _ _ fits
    have first := Moves.advance rwFlag t enough
    have present : rwFlag = .reading → t.chunk rwFlag fSize room ≤ fSize - t.position := by
      rintro rfl
      exact Transfer.chunk_present room t
    have further : ∀ {room'}, Fits room' (t.advance rwFlag (t.chunk rwFlag fSize room)) →
        (∀ left, room = some left → room' = some (left - t.chunk rwFlag fSize room)) →
        ∃ n, Moves rwFlag t (transfer rwFlag copies fSize fuel (index + 1) room'
            (t.advance rwFlag (t.chunk rwFlag fSize room))) n ∧ Within rwFlag fSize room t n := by
      intro room' fits' rest
      obtain ⟨n, moves, more, less⟩ := inductionHypothesis (index + 1) fits'
      refine ⟨_, first.trans moves, fun reading => ?_, fun left same => ?_⟩
      · have chunk := present reading
        have after := more reading
        rw [first.position] at after
        omega
      · have after := less _ (rest left same)
        subst same
        have chunk := @Transfer.chunk_room rwFlag fSize left t
        omega
    dsimp only
    split
    · exact further (fun left same => by cases same) fun left same => by cases same
    · rename_i left
      split
      · refine ⟨_, first, present, fun left' same => ?_⟩
        obtain rfl := Option.some.inj same
        exact Transfer.chunk_room t
      · refine further (fun left' same => ?_) fun left' same => ?_
        · obtain rfl := Option.some.inj same
          have room := fits left rfl
          simp only [Transfer.advance]
          omega
        · obtain rfl := Option.some.inj same
          rfl

theorem Moves.eq_advance (moves : Moves rwFlag t t' n) (r : t'.r = t.r) :
    t' = t.advance rwFlag n := by
  have nbytes : t'.nbytes = t.nbytes - n := Nat.eq_sub_of_add_eq moves.nbytes
  obtain ⟨-, position, cumIo, buffer, contents, moved⟩ := moves
  cases t'
  simp only at *
  subst nbytes position cumIo buffer contents moved r
  rfl

theorem Transfer.advance_zero (t : Transfer) : t.advance rwFlag 0 = t :=
  ((Moves.none rwFlag t t.r).eq_advance rfl).symm

theorem Transfer.advance_advance (t : Transfer) (enough : n + m ≤ t.nbytes) :
    (t.advance rwFlag n).advance rwFlag m = t.advance rwFlag (n + m) := by
  have first := Moves.advance rwFlag t (Nat.le_of_add_right_le enough)
  have second := Moves.advance rwFlag (t.advance rwFlag n) (Nat.le_sub_of_add_le' enough)
  exact (first.trans second).eq_advance rfl

/-- What is left to be moved. -/
def Transfer.limit (t : Transfer) (rwFlag : RwFlag) (fSize : Nat) (room : Option Nat) : Nat :=
  match rwFlag with
  | .reading => min (room.getD t.nbytes) (fSize - t.position)
  | .writing => room.getD t.nbytes

theorem Transfer.chunk_pos (some : 0 < room.getD t.nbytes)
    (inside : ¬(rwFlag = .reading ∧ fSize ≤ t.position)) : 0 < t.chunk rwFlag fSize room := by
  have block : t.position % blockSize < blockSize := Nat.mod_lt _ (by decide)
  cases rwFlag with
  | reading =>
    simp only [true_and, Nat.not_le] at inside
    simp only [Transfer.chunk]
    omega
  | writing =>
    simp only [Transfer.chunk]
    omega

theorem Transfer.limit_advance (fits : Fits room t) : t.chunk rwFlag fSize room +
    (t.advance rwFlag (t.chunk rwFlag fSize room)).limit rwFlag fSize
      (room.map (· - t.chunk rwFlag fSize room)) = t.limit rwFlag fSize room := by
  have least := @Transfer.chunk_le rwFlag fSize _ _ fits
  have rest : (room.map (· - t.chunk rwFlag fSize room)).getD
      (t.nbytes - t.chunk rwFlag fSize room) =
        room.getD t.nbytes - t.chunk rwFlag fSize room := by cases room <;> rfl
  have within : t.chunk rwFlag fSize room ≤ room.getD t.nbytes := by
    cases rwFlag <;> simp only [Transfer.chunk] <;> omega
  have present : rwFlag = .reading → t.chunk rwFlag fSize room ≤ fSize - t.position := by
    rintro rfl
    exact t.chunk_present room
  generalize t.chunk rwFlag fSize room = chunk at *
  cases rwFlag <;> simp only [Transfer.limit, Transfer.advance, rest] <;> simp at present <;> omega

theorem Transfer.limit_le (fits : Fits room t) : t.limit rwFlag fSize room ≤ t.nbytes := by
  have bounded := fits.getD_le
  cases rwFlag <;> simp only [Transfer.limit] <;> omega

/-- The chunks are one copy: when every chunk is copied, a read moves what it asks for up to the end
of the file and a write moves all, or as much as there is room for, in one piece. Every chunk moves
at least one byte, so that the bytes asked for are fuel enough. -/
theorem transfer_is_one_copy (fits : Fits room t) (some : ∀ left, room = some left → 0 < left)
    (copied : ∀ i, index ≤ i → copies i = .copied) (enough : t.nbytes ≤ fuel) :
    transfer rwFlag copies fSize fuel index room t =
      t.advance rwFlag (t.limit rwFlag fSize room) := by
  have stop : ∀ {t : Transfer} {room}, t.limit rwFlag fSize room = 0 →
      t = t.advance rwFlag (t.limit rwFlag fSize room) := fun none => by
    rw [none, Transfer.advance_zero]
  induction fuel generalizing index room t with
  | zero => exact stop (Nat.le_zero.mp ((Transfer.limit_le fits).trans enough))
  | succ fuel inductionHypothesis =>
    rw [transfer]
    split
    case isTrue done => exact stop (Nat.le_zero.mp ((Transfer.limit_le fits).trans done.le))
    split
    case isTrue beyond =>
      refine stop ?_
      obtain ⟨rfl, beyond⟩ := beyond
      simp only [Transfer.limit]
      omega
    case isFalse more inside =>
      rw [copied index le_rfl]
      have asked : 0 < room.getD t.nbytes := by
        cases room with
        | none => exact Nat.pos_of_ne_zero more
        | some left => exact some left rfl
      have progress := t.chunk_pos asked inside
      have limit := @Transfer.limit_advance rwFlag fSize _ _ fits
      have least := @Transfer.limit_le rwFlag fSize _ _ fits
      -- the chunk and what is left then are what was left before
      have glue : ∀ {room'}, room' = room.map (· - t.chunk rwFlag fSize room) →
          Fits room' (t.advance rwFlag (t.chunk rwFlag fSize room)) →
          (∀ left, room' = .some left → 0 < left) →
          transfer rwFlag copies fSize fuel (index + 1) room'
              (t.advance rwFlag (t.chunk rwFlag fSize room)) =
            t.advance rwFlag (t.limit rwFlag fSize room) := by
        rintro room' rfl fits' some'
        have shorter : (t.advance rwFlag (t.chunk rwFlag fSize room)).nbytes ≤ fuel := by
          simp only [Transfer.advance]
          omega
        rw [inductionHypothesis fits' some' (fun i late => copied i (Nat.le_of_succ_le late)) shorter,
          t.advance_advance (limit ▸ least), limit]
      cases room with
      | none => exact glue rfl nofun nofun
      | some left =>
        dsimp only
        split
        case isTrue full =>
          rw [← limit, Option.map_some, full]
          cases rwFlag <;> simp only [Transfer.limit, Option.getD_some, Nat.zero_min, Nat.add_zero]
        case isFalse room =>
          refine glue rfl ?_ ?_
          · rintro left' ⟨⟩
            have fit := fits left rfl
            simp only [Transfer.advance]
            omega
          · rintro left' ⟨⟩
            omega

/-- Three bytes across the border of a block are written as in one copy. -/
theorem transfer_is_one_copy_three :
    let t : Transfer := ⟨1022, 3, 0, fun i => .ofNat i, fun _ => 9, [], none⟩
    transfer .writing (fun _ => .copied) 0 3 0 none t = t.advance .writing 3 :=
  transfer_is_one_copy nofun nofun (fun _ _ => rfl) (by decide)

/-- A copy that fails ends the transfer with an error. -/
def Copy.Fails : Copy → Prop
  | .fault _ | .diskError _ => True
  | .copied | .endOfFile => False

theorem transfer_r (fine : ∀ i, index ≤ i → ¬ (copies i).Fails) :
    (transfer rwFlag copies fSize fuel index room t).r = t.r := by
  induction fuel generalizing index room t with
  | zero => rfl
  | succ fuel inductionHypothesis =>
    have later : ∀ i, index + 1 ≤ i → ¬ (copies i).Fails := fun i late => fine i (by omega)
    have here := fine index (Nat.le_refl index)
    rw [transfer]
    split
    · rfl
    split
    · rfl
    split <;> rename_i outcome
    · rw [outcome] at here
      exact absurd trivial here
    · rw [outcome] at here
      exact absurd trivial here
    · rfl
    dsimp only
    split
    · exact inductionHypothesis later
    · split
      · rfl
      · exact inductionHypothesis later

/-- If no copy but the first fails, an error means that nothing was moved. -/
theorem transfer_error (fine : ∀ i, index < i → ¬ (copies i).Fails) :
    (transfer rwFlag copies fSize fuel index room t).r = t.r ∨
      ∃ r, transfer rwFlag copies fSize fuel index room t = { t with r } := by
  cases fuel with
  | zero => exact .inl rfl
  | succ fuel =>
    have later : ∀ i, index + 1 ≤ i → ¬ (copies i).Fails := fun i late => fine i late
    rw [transfer]
    split
    · exact .inl rfl
    split
    · exact .inl rfl
    split
    · exact .inr ⟨_, rfl⟩
    · exact .inr ⟨_, rfl⟩
    · exact .inl rfl
    left
    dsimp only
    split
    · rw [transfer_r later]
      rfl
    · split
      · rfl
      · rw [transfer_r later]
        rfl

end Loop

/-! ### The pipe after the transfer -/

section Finish

open Files

variable {s : State} {fp : Slot} {f : FilpNr} {rip : InodeNr} {rwFlag : RwFlag} {t t' : Transfer}
  {n : Nat}

@[simp] theorem seek_filp (s : State) (g h : FilpNr) (position : Nat) :
    ((s.seek g position).filp h).filpCount = (s.filp h).filpCount ∧
      ((s.seek g position).filp h).filpIno = (s.filp h).filpIno ∧
      ((s.seek g position).filp h).filpMode = (s.filp h).filpMode ∧
      ((s.seek g position).filp h).filpFlags = (s.filp h).filpFlags ∧
      ((s.seek g position).filp h).filpPos = if h = g then position else (s.filp h).filpPos := by
  by_cases same : h = g
  · subst same
    simp [State.seek]
  · simp [State.seek, same]

/-- Two states differ in the positions of files and in the data of one inode only. -/
structure Shifted (rip : InodeNr) (s s' : State) : Prop where
  fproc : s'.fproc = s.fproc
  superBlock : s'.superBlock = s.superBlock
  live : s'.live = s.live
  suspCount : s'.suspCount = s.suspCount
  reviving : s'.reviving = s.reviving
  filp : ∀ g, (s'.filp g).filpCount = (s.filp g).filpCount ∧
    (s'.filp g).filpIno = (s.filp g).filpIno ∧ (s'.filp g).filpMode = (s.filp g).filpMode ∧
    (s'.filp g).filpFlags = (s.filp g).filpFlags
  inode : ∀ other, other ≠ rip → s'.inode other = s.inode other
  iPipe : (s'.inode rip).iPipe = (s.inode rip).iPipe
  iCount : (s'.inode rip).iCount = (s.inode rip).iCount
  readPos : (s'.inode rip).readPos = (s.inode rip).readPos

namespace Shifted

variable {s s' s'' : State} {rip : InodeNr}

theorem trans (first : Shifted rip s s') (second : Shifted rip s' s'') : Shifted rip s s'' where
  fproc := second.fproc.trans first.fproc
  superBlock := second.superBlock.trans first.superBlock
  live := second.live.trans first.live
  suspCount := second.suspCount.trans first.suspCount
  reviving := second.reviving.trans first.reviving
  filp g := by
    obtain ⟨count, ino, mode, flags⟩ := second.filp g
    rw [count, ino, mode, flags]
    exact first.filp g
  inode other distinct := (second.inode other distinct).trans (first.inode other distinct)
  iPipe := second.iPipe.trans first.iPipe
  iCount := second.iCount.trans first.iCount
  readPos := second.readPos.trans first.readPos

section

variable (s rip)

theorem seek (g : FilpNr) (position : Nat) :
    Shifted rip s (s.seek g position) := by
  refine ⟨rfl, rfl, rfl, rfl, rfl, fun h => ?_, fun _ _ => rfl, rfl, rfl, rfl⟩
  obtain ⟨count, ino, mode, flags, -⟩ := seek_filp s g h position
  exact ⟨count, ino, mode, flags⟩

theorem note (history : History) :
    Shifted rip s { s with history } :=
  ⟨rfl, rfl, rfl, rfl, rfl, fun _ => ⟨rfl, rfl, rfl, rfl⟩, fun _ _ => rfl, rfl, rfl, rfl⟩

theorem modifyInode {change : Inode → Inode}
    (iPipe : (change (s.inode rip)).iPipe = (s.inode rip).iPipe)
    (iCount : (change (s.inode rip)).iCount = (s.inode rip).iCount)
    (readPos : (change (s.inode rip)).readPos = (s.inode rip).readPos) :
    Shifted rip s (s.modifyInode rip change) := by
  refine ⟨rfl, rfl, rfl, rfl, rfl, fun _ => ⟨rfl, rfl, rfl, rfl⟩,
    fun other distinct => update_of_ne distinct _ _, ?_, ?_, ?_⟩ <;> simpa

end

section

variable (shifted : Shifted rip s s')
include shifted

theorem holds : s'.files.holds = s.files.holds := by
  funext g
  obtain ⟨count, ino, -⟩ := shifted.filp g
  change (if (s'.filp g).filpCount = 0 then none else some (s'.filp g).filpIno) =
    if (s.filp g).filpCount = 0 then none else some (s.filp g).filpIno
  rw [count, ino]

theorem opens {f : FilpNr} {other : InodeNr} {bits : RwFlag} :
    s'.files.Open f other bits ↔ s.files.Open f other bits := by
  have mode : (s'.files.filp f).filpMode = (s.files.filp f).filpMode := (shifted.filp f).2.2.1
  rw [Files.Open, Files.Open, shifted.holds, mode]

theorem keeps : s'.files.keeps = s.files.keeps := by
  funext keeper
  cases keeper <;> simp only [State.files, State.keeps, shifted.fproc, shifted.superBlock]

end

end Shifted

theorem finish_shifted (s : State) (fp : Slot) (f : FilpNr) (rip : InodeNr) (rwFlag : RwFlag)
    (t : Transfer) : Shifted rip s (finish s fp f rip rwFlag t) := by
  have noted := Shifted.note s rip (noteTransfer s.history fp rip rwFlag t.moved)
  have stored := noted.trans (@Shifted.modifyInode _ rip
    (fun entry => { entry with contents := t.contents }) rfl rfl rfl)
  unfold finish
  cases rwFlag with
  | writing =>
    refine .trans ?_ (.seek _ rip f t.position)
    split
    · exact stored.trans (.modifyInode _ rip rfl rfl rfl)
    · exact stored
  | reading =>
    dsimp only
    split
    · have emptied := stored.trans (@Shifted.modifyInode _ rip
        (fun entry => { entry with iSize := 0 }) rfl rfl rfl)
      refine .trans ?_ (.seek _ rip f 0)
      split
      · exact emptied.trans (.seek _ rip _ 0)
      · exact emptied
    · exact stored.trans (.seek _ rip f t.position)

theorem finish_writing (moves : Moves .writing t t' n) (start : t.moved = [])
    (contents : t.contents = (s.inode rip).contents) (position : t.position = (s.inode rip).iSize) :
    let s' := finish s fp f rip .writing t'
    (s'.inode rip).contents =
        Tape.splice (s.inode rip).contents (s.inode rip).iSize n t.buffer ∧
      (s'.inode rip).iSize = (s.inode rip).iSize + n ∧
      (∀ g, (s'.filp g).filpPos =
        if g = f then (s.inode rip).iSize + n else (s.filp g).filpPos) ∧
      s'.history.taken = s.history.taken ∧
      s'.history.written = update s.history.written rip (s.history.written rip ++
        Tape.window (s.history.source fp) (s.history.moved fp) (s.history.moved fp + n)) := by
  have count : t'.moved.length = n := by
    rw [moves.moved, start, List.nil_append, Transfer.next, Tape.length_window, Nat.sub_zero]
  have stored : t'.contents =
      Tape.splice (s.inode rip).contents (s.inode rip).iSize n t.buffer := by
    rw [moves.contents, Transfer.store, contents, position]
  have reached : t'.position = (s.inode rip).iSize + n := by rw [moves.position, position]
  have history : noteTransfer s.history fp rip .writing t'.moved =
      { s.history with
        moved := update s.history.moved fp (s.history.moved fp + n)
        written := update s.history.written rip (s.history.written rip ++
          Tape.window (s.history.source fp) (s.history.moved fp) (s.history.moved fp + n)) } := by
    simp only [noteTransfer, count]
  unfold finish
  rw [history]
  simp only [State.modifyInode_inode, update_self, reached]
  split
  · refine ⟨?_, ?_, fun g => ?_, rfl, rfl⟩
    · simpa [State.seek] using stored
    · simp [State.seek]
    · exact (seek_filp _ f g _).2.2.2.2
  · have none : n = 0 := by omega
    subst none
    refine ⟨?_, ?_, fun g => ?_, rfl, rfl⟩
    · simpa [State.seek] using stored
    · simp [State.seek]
    · exact (seek_filp _ f g _).2.2.2.2

/-- What a read leaves: the data is the same, and starts over when all of it is read. -/
theorem finish_reading (moves : Moves .reading t t' n) (start : t.moved = [])
    (contents : t.contents = (s.inode rip).contents) :
    let s' := finish s fp f rip .reading t'
    (s'.inode rip).contents = (s.inode rip).contents ∧
      s'.history.written = s.history.written ∧
      s'.history.taken = update s.history.taken rip (s.history.taken rip ++
        Tape.window (s.inode rip).contents t.position (t.position + n)) ∧
      if (s.inode rip).iSize ≤ t.position + n then
        (s'.inode rip).iSize = 0 ∧
          ∀ g, (s'.filp g).filpPos =
            if g = f ∨ findFilp s rip .writing = some g then 0 else (s.filp g).filpPos
      else
        (s'.inode rip).iSize = (s.inode rip).iSize ∧
          ∀ g, (s'.filp g).filpPos = if g = f then t.position + n else (s.filp g).filpPos := by
  have stored : t'.contents = (s.inode rip).contents := by
    rw [moves.contents, Transfer.store, contents]
  have moved : t'.moved = Tape.window (s.inode rip).contents t.position (t.position + n) := by
    rw [moves.moved, start, List.nil_append, Transfer.next, contents]
  unfold finish
  simp only [State.modifyInode_inode, update_self, moves.position, noteTransfer, moved]
  split
  case isFalse more =>
    refine ⟨?_, rfl, rfl, ?_, fun g => ?_⟩
    · simpa [State.seek] using stored
    · simp [State.seek]
    · exact (seek_filp _ f g _).2.2.2.2
  case isTrue empty =>
    -- the search for the write end sees the filps as they were
    have search : ∀ (history : History) (change change' : Inode → Inode),
        findFilp ((State.modifyInode { s with history } rip change).modifyInode rip change') rip
          .writing = findFilp s rip .writing := fun _ _ _ => rfl
    rw [search]
    cases found : findFilp s rip .writing with
    | none =>
      refine ⟨?_, rfl, rfl, ?_, fun g => ?_⟩
      · simpa [State.seek] using stored
      · simp [State.seek]
      · simp
    | some wf =>
      refine ⟨?_, rfl, rfl, ?_, fun g => ?_⟩
      · simpa [State.seek] using stored
      · simp [State.seek]
      · dsimp only
        rw [(seek_filp _ f g 0).2.2.2.2, (seek_filp _ wf g 0).2.2.2.2]
        simp only [Option.some.injEq, @eq_comm _ wf g]
        split_ifs <;> simp_all [State.modifyInode]

/-- Where the bytes of a transfer are: a read takes them from the reader's position on, a write
puts them behind the data. -/
def endPosition (s : State) (f : FilpNr) (rip : InodeNr) : RwFlag → Nat
  | .reading => (s.filp f).filpPos
  | .writing => (s.inode rip).iSize

/-- What a transfer through a pipe leaves: the other pipes are as they were, and the pipe is in
order. -/
structure PipeMoved (rip : InodeNr) (s s' : State) : Prop where
  streams : ∀ other, other ≠ rip → s'.history.written other = s.history.written other ∧
    s'.history.taken other = s.history.taken other
  away : ∀ g, s.files.holds g ≠ some rip → (s'.filp g).filpPos = (s.filp g).filpPos
  ok : PipeOk s'.files rip

section Moved

variable {s' : State} (shifted : Shifted rip s s') (ok : PipeOk s.files rip)
include shifted ok

/-- Who has the pipe open has not changed; the positions and the data have. -/
theorem Shifted.pipeOk
    (back : ∀ g, s.files.Open g rip .writing → (s.filp g).filpFlags.append = true ∨
      (s'.filp g).filpPos = (s'.inode rip).iSize)
    (front : ∀ g, s.files.Open g rip .reading → Front s'.files rip (s'.filp g).filpPos)
    (saved : (∀ g, ¬ s.files.Open g rip .reading) → Front s'.files rip (s.inode rip).readPos) :
    PipeOk s'.files rip := by
  refine ⟨fun g held => ?_, fun g h bits first second => ?_, fun g writes => ?_,
    fun g reads => front g (shifted.opens.mp reads), fun closed => ?_⟩
  · have mode : (s'.files.filp g).filpMode = (s.files.filp g).filpMode := (shifted.filp g).2.2.1
    rw [mode]
    exact ok.oneEnd g (shifted.holds ▸ held)
  · exact ok.sole g h bits (shifted.opens.mp first) (shifted.opens.mp second)
  · have flags : (s'.files.filp g).filpFlags = (s.files.filp g).filpFlags := (shifted.filp g).2.2.2
    rw [flags]
    exact back g (shifted.opens.mp writes)
  · have readPos : (s'.files.inode rip).readPos = (s.inode rip).readPos := shifted.readPos
    rw [readPos]
    exact saved fun g reads => closed g (shifted.opens.mpr reads)

omit shifted in
theorem ends_apart {g : FilpNr} (reads : s.files.Open g rip .reading)
    (writes : s.files.Open f rip .writing) : g ≠ f := by
  rintro rfl
  have both := ok.oneEnd g reads.1
  rw [reads.2, writes.2] at both
  cases both

/-- A write puts bytes behind the data. -/
theorem write_moved {bytes : Nat → UInt8} (opened : s.files.Open f rip .writing)
    (stored : (s'.inode rip).contents =
      Tape.splice (s.inode rip).contents (s.inode rip).iSize n bytes)
    (size : (s'.inode rip).iSize = (s.inode rip).iSize + n)
    (positions : ∀ g, (s'.filp g).filpPos =
      if g = f then (s.inode rip).iSize + n else (s.filp g).filpPos)
    (taken : s'.history.taken = s.history.taken)
    (written : s'.history.written = update s.history.written rip (s.history.written rip ++
      Tape.window bytes 0 n)) : PipeMoved rip s s' := by
  have front {at' : Nat} (front : Front s.files rip at') : Front s'.files rip at' := by
    have carries := front.carries.write n bytes
    have below := front.carries.1
    have empty := front.rewound
    refine ⟨?_, fun rewound => ?_⟩
    · simp only [State.files] at carries ⊢
      rw [taken, written, update_self, stored, size]
      exact carries
    · simp only [State.files] at below empty rewound ⊢
      rw [size] at rewound ⊢
      omega
  have elsewhere (g : FilpNr) (other : g ≠ f) : (s'.filp g).filpPos = (s.filp g).filpPos :=
    (positions g).trans (if_neg other)
  refine ⟨fun other distinct => ⟨?_, congrFun taken other⟩, fun g away => elsewhere g ?_,
    shifted.pipeOk ok (fun g writes => .inr ?_) (fun g reads => ?_)
      fun closed => front (ok.saved closed)⟩
  · exact (congrFun written other).trans (update_of_ne distinct _ _)
  · rintro rfl
    exact away opened.1
  · rw [ok.sole g f .writing writes opened]
    exact ((positions f).trans (if_pos rfl)).trans size.symm
  · rw [elsewhere g (ends_apart ok reads opened)]
    exact front (ok.reader g reads)

/-- A read takes bytes from the front of the data. -/
theorem read_moved {pos : Nat} (opened : s.files.Open f rip .reading)
    (position : pos = (s.filp f).filpPos) (within : pos + n ≤ (s.inode rip).iSize)
    (stored : (s'.inode rip).contents = (s.inode rip).contents)
    (written : s'.history.written = s.history.written)
    (taken : s'.history.taken = update s.history.taken rip (s.history.taken rip ++
      Tape.window (s.inode rip).contents pos (pos + n)))
    (after : if (s.inode rip).iSize ≤ pos + n then
        (s'.inode rip).iSize = 0 ∧
          ∀ g, (s'.filp g).filpPos =
            if g = f ∨ findFilp s rip .writing = some g then 0 else (s.filp g).filpPos
      else
        (s'.inode rip).iSize = (s.inode rip).iSize ∧
          ∀ g, (s'.filp g).filpPos = if g = f then pos + n else (s.filp g).filpPos) :
    PipeMoved rip s s' := by
  have carries : Tape.Carries (s.history.written rip)
      (s.history.taken rip ++ Tape.window (s.inode rip).contents pos (pos + n))
      (s.inode rip).contents (pos + n) (s.inode rip).iSize := by
    rw [position] at within ⊢
    exact (ok.reader f opened).carries.read within
  have streams (other : InodeNr) (distinct : other ≠ rip) :
      s'.history.written other = s.history.written other ∧
        s'.history.taken other = s.history.taken other :=
    ⟨congrFun written other, (congrFun taken other).trans (update_of_ne distinct _ _)⟩
  have fresh {at' : Nat} (carries : Tape.Carries (s.history.written rip)
        (s.history.taken rip ++ Tape.window (s.inode rip).contents pos (pos + n))
        (s.inode rip).contents at' (s'.inode rip).iSize)
      (rewound : at' = (s'.inode rip).iSize → (s'.inode rip).iSize = 0) :
      Front s'.files rip at' := by
    refine ⟨?_, rewound⟩
    simp only [State.files]
    rw [written, taken, update_self, stored]
    exact carries
  by_cases empty : (s.inode rip).iSize ≤ pos + n
  · rw [if_pos empty] at after
    obtain ⟨size, positions⟩ := after
    refine ⟨streams, fun g away => (positions g).trans (if_neg ?_), shifted.pipeOk ok
      (fun g writes => .inr ?_) (fun g reads => ?_) fun closed => absurd opened (closed f)⟩
    · rintro (rfl | found)
      · exact away opened.1
      · obtain ⟨open', ino, -⟩ := findFilp_eq_some found
        exact away (holds_eq_some.mpr ⟨open', ino⟩)
    · have sole : findFilp s rip .writing = some g := by
        obtain ⟨wf, found⟩ := Option.isSome_iff_exists.mp
          (findFilp_isSome.mpr (hasEnd_iff.mpr ⟨g, writes⟩))
        obtain ⟨open', ino, mode⟩ := findFilp_eq_some found
        rw [found, ok.sole wf g .writing ⟨holds_eq_some.mpr ⟨open', ino⟩, mode⟩ writes]
      exact ((positions g).trans (if_pos (.inr sole))).trans size.symm
    · have all : pos + n = (s.inode rip).iSize := by omega
      rw [ok.sole g f .reading reads opened, positions f, if_pos (.inl rfl)]
      rw [all] at carries
      refine fresh ?_ fun _ => size
      rw [size, all]
      exact carries.rewind _ 0
  · rw [if_neg empty] at after
    obtain ⟨size, positions⟩ := after
    refine ⟨streams, fun g away => (positions g).trans (if_neg ?_), shifted.pipeOk ok
      (fun g writes => ?_) (fun g reads => ?_) fun closed => absurd opened (closed f)⟩
    · rintro rfl
      exact away opened.1
    · rw [positions g, if_neg (ends_apart ok opened writes).symm]
      exact (ok.back g writes).imp_right fun atEnd => atEnd.trans size.symm
    · rw [ok.sole g f .reading reads opened, positions f, if_pos rfl]
      refine fresh (size ▸ carries) fun rewound => ?_
      rw [size] at rewound
      omega

end Moved

/-- A transfer keeps the pipe in order. A write puts the bytes of the process's buffer behind the
data, a read takes bytes from its front. -/
theorem finish_ends {strict : Prop} (ends : s.files.Ends strict)
    (isPipe : (s.inode rip).iPipe = true)
    (opened : s.files.Open f rip rwFlag) (moves : Moves rwFlag t t' n) (start : t.moved = [])
    (contents : t.contents = (s.inode rip).contents)
    (position : strict → t.position = endPosition s f rip rwFlag)
    (present : rwFlag = .reading → n ≤ (s.inode rip).iSize - t.position)
    (source : rwFlag = .writing →
      t.buffer = fun i => s.history.source fp (s.history.moved fp + i)) :
    (finish s fp f rip rwFlag t').files.Ends strict := by
  have shifted := finish_shifted s fp f rip rwFlag t'
  have moved (allowed : strict) : PipeMoved rip s (finish s fp f rip rwFlag t') := by
    have position := position allowed
    have ok := ends.pipes allowed rip isPipe
    cases rwFlag with
    | writing =>
      obtain ⟨stored, size, positions, taken, written⟩ :=
        @finish_writing _ fp f _ _ _ _ moves start contents position
      have bytes : Tape.window t.buffer 0 n = Tape.window (s.history.source fp)
          (s.history.moved fp) (s.history.moved fp + n) := by
        rw [source rfl, Tape.window_shift, Nat.add_zero]
      exact write_moved shifted ok opened stored size positions taken (bytes ▸ written)
    | reading =>
      obtain ⟨stored, written, taken, after⟩ :=
        @finish_reading _ fp f _ _ _ _ moves start contents
      have below : (s.filp f).filpPos ≤ (s.inode rip).iSize := (ok.reader f opened).carries.1
      have room := present rfl
      rw [endPosition] at position
      exact read_moved shifted ok opened position (by omega) stored written taken after
  refine ends.adjust rip ?_ shifted.keeps shifted.filp (fun allowed => (moved allowed).away)
    shifted.inode shifted.iCount shifted.iPipe (fun allowed => (moved allowed).streams)
    fun allowed _ => (moved allowed).ok
  simp only [State.files, shifted.fproc]

end Finish

end Minix.Fs
