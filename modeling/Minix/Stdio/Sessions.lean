/-
This file follows a stream of the C library through whole sessions. As long as the operations are
sound the results are those of an array of bytes, and the file holds that array when no output is
buffered. A flush that the system writes in two parts is enough to lose output.
-/

import Minix.Stdio.Output

namespace Minix.Stdio

open Function (update)
open Overwrite Tape Transition

variable {s : State} {st : Stream} {env : Env} {turn : Turn}

/-! ### Positions -/

theorem Writes.contents (writes : Writes s st) : s.contents = st.bytes := by
  rw [State.contents]
  by_cases nbf : s.file.nbf = false
  · obtain ⟨buf, present, held, -, -⟩ := writes.buffered nbf
    rw [if_pos ⟨writes.writing, nbf⟩, File.front_eq present, held]
  · rw [if_neg fun both => nbf both.2]
    exact (writes.unbuffered (Bool.not_eq_false _ ▸ nbf)).2.1

theorem Quiet.contents (quiet : Quiet s st)
    (apart : s.file.reading = true → s.file.writing = false) : s.contents = st.bytes := by
  rw [State.contents]
  split
  case isTrue writing =>
    have reading : s.file.reading = false := by
      by_contra reading
      rw [Bool.not_eq_false] at reading
      exact absurd ((apart reading).symm.trans writing.1) (by decide)
    have front : s.file.front s.file.ptr = [] := by
      rw [quiet.start reading writing.2, File.front]
      split
      · rfl
      · exact window_self _ _
    rw [front, overwrite_nil, quiet.bytes]
  case isFalse => exact quiet.bytes

section

variable (agrees : Agrees s turn st)
include agrees

theorem Agrees.contents : s.contents = st.bytes := by
  by_cases input : turn = .input
  · obtain ⟨ahead, reads⟩ := agrees.input input
    rw [State.contents, if_neg fun both => absurd (both.1.symm.trans reads.writing) (by decide)]
    exact reads.bytes
  by_cases output : turn = .output
  · exact (agrees.output output).2.contents
  · exact (agrees.toQuiet input output).contents fun reading => (agrees.sane.begun reading).1

theorem Agrees.ftell : s.ftell = st.tell := by
  rw [State.ftell, Stream.tell]
  by_cases input : turn = .input
  · obtain ⟨ahead, reads⟩ := agrees.input input
    have count := reads.count
    have offset := reads.offset
    rw [List.length_append] at count
    rw [if_pos reads.reading]
    omega
  by_cases output : turn = .output
  · obtain ⟨-, writes⟩ := agrees.output output
    rw [if_neg (by simp [writes.reading]), writes.pushed]
    cases nbf : s.file.nbf with
    | true =>
      have offset := (writes.unbuffered nbf).2.2
      rw [if_neg (by simp), offset]
      simp
    | false =>
      obtain ⟨buf, present, -, pos, -⟩ := writes.buffered nbf
      rw [if_pos ⟨writes.writing, by rw [present]; rfl, rfl⟩]
      simp only [List.length_nil]
      omega
  · have quiet := agrees.toQuiet input output
    rw [quiet.offset, quiet.pushed]
    split
    case isTrue => simp [quiet.count]
    case isFalse reading =>
      split
      case isTrue writing =>
        rw [quiet.start (Bool.not_eq_true _ ▸ reading) writing.2.2]
        simp
      case isFalse => simp

theorem Agrees.target (offset : Int) (whence : Whence) :
    s.target offset whence = st.target offset whence := by
  cases whence with
  | set => rfl
  | cur => rw [State.target, agrees.ftell, Stream.target]
  | fromEnd => rw [State.target, agrees.contents, Stream.target]

end

/-! ### Flushing -/

theorem lseek_eq {os : Os} {offset target : Int} {whence : Whence} (inside : 0 ≤ target)
    (same : offset + os.base whence = target) :
    os.lseek offset whence = some { os with offset := target.toNat } := by
  rw [Os.lseek, same, if_neg (by omega)]

/-- The array when the bytes that were pushed back are given up. -/
def Stream.settle (st : Stream) : Stream := { st with pos := st.tell.toNat, pushed := [] }

theorem Stream.settle_of_nil (pushed : st.pushed = []) : st.settle = st := by
  obtain ⟨bytes, pos, pushed'⟩ := st
  obtain rfl : pushed' = [] := pushed
  simp [Stream.settle, Stream.tell]

theorem Writes.toQuiet (writes : Writes s st) (nbf : s.file.nbf = true) : Quiet s st := by
  obtain ⟨count, bytes, offset⟩ := writes.unbuffered nbf
  exact ⟨count, bytes, offset, writes.pushed, fun _ stuck => absurd
    (nbf.symm.trans stuck) (by decide)⟩

theorem Agrees.fflush_input (agrees : Agrees s turn st) (output : turn ≠ .output)
    (reading : s.file.reading = true) (present : s.file.buf.isSome = true)
    (inside : 0 ≤ st.tell)
    (sound : s.file.nbf = true ∨ s.file.atEof = true → s.file.count = 0) :
    ∃ s', s.fflush env = (s', 0) ∧ Agrees s' .idle st.settle := by
  have facts : ∃ ahead, s.file.count = (st.pushed ++ ahead).length ∧ s.os.bytes = st.bytes ∧
      s.os.offset = st.pos + ahead.length := by
    by_cases input : turn = .input
    · obtain ⟨ahead, reads⟩ := agrees.input input
      exact ⟨ahead, reads.count, reads.bytes, reads.offset⟩
    · have quiet := agrees.toQuiet input output
      exact ⟨[], by simp [quiet.count, quiet.pushed], quiet.bytes, quiet.offset⟩
  obtain ⟨ahead, count, bytes, offset⟩ := facts
  rw [List.length_append] at count
  have tell : st.tell = st.pos - st.pushed.length := rfl
  have adjusted : (if s.file.nbf = true then 0 else -s.file.count) +
    (s.os.offset : Int) = st.tell := by
    split
    case isTrue nbf =>
      have none := sound (.inl nbf)
      omega
    case isFalse => omega
  have moved := @lseek_eq _ _ _ .cur inside adjusted
  have ended : s.file.atEof = true → st.settle.bytes.length ≤ st.settle.pos := fun ended => by
    have none := sound (.inr ended)
    have pushed : st.pushed = [] := List.length_eq_zero_iff.mp (by omega)
    rw [Stream.settle_of_nil pushed]
    exact agrees.sane.atEof ended
  obtain ⟨writing, read, -⟩ := agrees.sane.begun reading
  rw [State.fflush, if_neg (by simp [reading, Option.isSome_iff_ne_none.mp
    present]), if_pos reading]
  dsimp only
  rw [moved]
  by_cases write : s.file.write = true
  · rw [if_pos write]
    exact ⟨_, rfl, Agrees.ofQuiet ⟨agrees.sane.append, agrees.sane.err, agrees.sane.room,
      .inl (Nat.zero_le _), ended, fun stuck => by cases stuck⟩
      ⟨rfl, bytes, rfl, rfl, fun _ _ => rfl⟩ fun _ => rfl⟩
  · rw [if_neg write]
    exact ⟨_, rfl, Agrees.ofQuiet ⟨agrees.sane.append, agrees.sane.err, agrees.sane.room,
      .inl (Nat.zero_le _), ended, agrees.sane.begun⟩ ⟨rfl, bytes, rfl, rfl, fun _ _ => rfl⟩
      fun writes => absurd writes write⟩

/-- Flushing a stream that was written leaves its bytes in the file. -/
theorem Writes.fflush (sane : Sane s st) (writes : Writes s st) (nbf : s.file.nbf = false)
    (sound : env.transfer s.file.ptr = s.file.ptr) :
    ∃ s', s.fflush env = (s', 0) ∧ Agrees s' .idle st := by
  obtain ⟨buf, present, held, pos, count⟩ := writes.buffered nbf
  have room := sane.room (by rw [present]; rfl)
  have agrees (file : File) (os : Os) (same : file.append = s.file.append ∧ file.err = s.file.err ∧
      file.atEof = s.file.atEof ∧ file.reading = s.file.reading ∧ file.buf = s.file.buf ∧
      file.bufsiz = s.file.bufsiz) (count : file.count = 0) (ptr : file.ptr = 0)
      (bytes : os.bytes = st.bytes) (offset : os.offset = st.pos) :
      Agrees { file, os } .idle st := by
    obtain ⟨append, err, atEof, reading, buf, bufsiz⟩ := same
    have free : file.reading = false := reading.trans writes.reading
    exact Agrees.ofQuiet ⟨append.trans sane.append, err.trans sane.err, fun _ => bufsiz ▸ room,
      .inl (by dsimp only; omega), fun ended => sane.atEof (atEof.symm.trans ended),
      fun stuck => absurd (stuck.symm.trans free) (by decide)⟩
      ⟨count, bytes, offset, writes.pushed, fun _ _ => ptr⟩ fun _ => free
  rw [State.fflush, if_neg (by simp [writes.writing, present]), if_neg (by simp [writes.reading]),
    if_neg (by simp [nbf])]
  have kept (file : File) (turned : file =
      if s.file.read = true then { s.file with writing := false } else s.file) :
      (file.append = s.file.append ∧ file.err = s.file.err ∧ file.atEof = s.file.atEof ∧
        file.reading = s.file.reading ∧ file.buf = s.file.buf ∧ file.bufsiz = s.file.bufsiz) ∧
      file.ptr = s.file.ptr ∧ file.count = s.file.count := by
    subst turned
    split <;> exact ⟨⟨rfl, rfl, rfl, rfl, rfl, rfl⟩, rfl, rfl⟩
  dsimp only
  generalize turned :
    (if s.file.read = true then { s.file with writing := false } else s.file) = file
  obtain ⟨same, ptr, count'⟩ := kept file turned.symm
  have front : file.front file.ptr = window buf 0 s.file.ptr := by
    rw [ptr, File.front_eq (same.2.2.2.2.1.trans present)]
  have seek : s.os.seekEnd file.append = some s.os := by
    rw [same.1, sane.append]
    rfl
  rw [front, seek]
  by_cases empty : s.file.ptr = 0
  · have none : window buf 0 s.file.ptr = [] := by rw [empty, window_self]
    rw [none, overwrite_nil] at held
    have line : s.file.lbf = true := by
      by_contra full
      rw [if_neg full] at count
      omega
    rw [if_pos line] at count
    rw [none]
    exact ⟨_, rfl, agrees _ _ same (by dsimp only; omega) rfl held (by omega)⟩
  · have length : (window buf 0 s.file.ptr).length = s.file.ptr := by simp
    have some : (window buf 0 s.file.ptr).isEmpty = false := by
      rw [List.isEmpty_eq_false_iff, ← List.length_pos_iff, length]
      omega
    have whole : (window buf 0 s.file.ptr).take s.file.ptr = window buf 0 s.file.ptr :=
      List.take_of_length_le (Nat.le_of_eq length)
    simp only [some, Bool.false_eq_true, if_false, Os.write, length, sound, if_true]
    refine ⟨_, rfl, agrees _ _ same rfl rfl ?_ pos⟩
    rw [whole, held]

/-- `fflush` ends what was going on and loses nothing. -/
theorem Agrees.fflush (agrees : Agrees s turn st) (inside : turn = .input → 0 ≤ st.tell)
    (input : s.file.reading = true → s.file.nbf = true ∨ s.file.atEof = true → s.file.count = 0)
    (output : s.file.reading = false → s.file.writing = true → s.file.nbf = false →
      env.transfer s.file.ptr = s.file.ptr) :
    ∃ s', s.fflush env = (s', 0) ∧ Agrees s' .idle st.settle := by
  by_cases output' : turn = .output
  · obtain ⟨write, writes⟩ := agrees.output output'
    rw [Stream.settle_of_nil writes.pushed]
    by_cases nbf : s.file.nbf = false
    · exact writes.fflush agrees.sane nbf (output writes.reading writes.writing nbf)
    · rw [Bool.not_eq_false] at nbf
      have same : s.fflush env = (s, 0) := by
        rw [State.fflush]
        by_cases lacks : s.file.buf.isNone = true ∨ s.file.reading = false ∧ s.file.writing = false
        · rw [if_pos lacks]
        · rw [if_neg lacks, if_neg (by simp [writes.reading]), if_pos nbf]
      exact ⟨s, same, Agrees.ofQuiet agrees.sane (writes.toQuiet nbf) fun _ => writes.reading⟩
  by_cases lacks : s.file.buf.isNone = true ∨ s.file.reading = false ∧ s.file.writing = false
  · have input' : turn ≠ .input := fun input' => by
      obtain ⟨ahead, reads⟩ := agrees.input input'
      obtain ⟨buf, present, -⟩ := reads.held
      simp [present, reads.reading] at lacks
    have quiet := agrees.toQuiet input' output'
    rw [Stream.settle_of_nil quiet.pushed, State.fflush, if_pos lacks]
    refine ⟨s, rfl, Agrees.ofQuiet agrees.sane quiet fun write => ?_⟩
    by_contra reading
    rw [Bool.not_eq_false] at reading
    have present := (agrees.sane.begun reading).2.2 write
    rcases lacks with lacks | lacks
    · simp [Option.isNone_iff_eq_none.mp lacks] at present
    · exact absurd (reading.symm.trans lacks.1) (by decide)
  obtain ⟨present, active⟩ := not_or.mp lacks
  have present : s.file.buf.isSome = true := by simpa [Option.isSome_iff_ne_none] using present
  by_cases reading : s.file.reading = true
  · refine agrees.fflush_input output' reading present ?_ (input reading)
    by_cases input' : turn = .input
    · exact inside input'
    · rw [Stream.tell, (agrees.toQuiet input' output').pushed]
      simp
  · rw [Bool.not_eq_true] at reading
    have input' : turn ≠ .input := fun input' => by
      obtain ⟨ahead, reads⟩ := agrees.input input'
      exact absurd (reads.reading.symm.trans reading) (by decide)
    have quiet := agrees.toQuiet input' output'
    rw [Stream.settle_of_nil quiet.pushed, State.fflush, if_neg lacks, if_neg (by simp [reading])]
    by_cases nbf : s.file.nbf = true
    · rw [if_pos nbf]
      exact ⟨s, rfl, Agrees.ofQuiet agrees.sane quiet fun _ => reading⟩
    · rw [if_neg nbf]
      have first := quiet.start reading (Bool.eq_false_iff.mpr nbf)
      have none (file : File) (ptr : file.ptr = 0) : file.front file.ptr = [] := by
        rw [ptr, File.front]
        split
        · rfl
        · exact window_self _ _
      by_cases read : s.file.read = true
      · simp only [if_pos read, none { s.file with writing := false } first,
          List.isEmpty_nil, if_true]
        exact ⟨_, rfl, Agrees.ofQuiet ⟨agrees.sane.append, agrees.sane.err, agrees.sane.room,
          .inl (Nat.zero_le _), agrees.sane.atEof, fun stuck => absurd (stuck.symm.trans reading)
            (by decide)⟩ ⟨quiet.count, quiet.bytes, quiet.offset, quiet.pushed, fun _ _ => rfl⟩
          fun _ => reading⟩
      · simp only [if_neg read, none s.file first, List.isEmpty_nil, if_true]
        exact ⟨_, rfl, Agrees.ofQuiet ⟨agrees.sane.append, agrees.sane.err, agrees.sane.room,
          .inl (Nat.zero_le _), agrees.sane.atEof, agrees.sane.begun⟩
          ⟨quiet.count, quiet.bytes, quiet.offset, quiet.pushed, fun _ _ => rfl⟩ fun _ => reading⟩

/-! ### Seeking -/

theorem fflush_atEof (s : State) (env : Env) : (s.fflush env).1.file.atEof = s.file.atEof := by
  simp only [State.fflush, State.fail]
  split
  · rfl
  split
  · split
    · rfl
    · dsimp only
      split <;> rfl
  split
  · rfl
  split <;> split <;> (try split) <;> (try split) <;> rfl

/-- The array when its position is set. -/
def Stream.seek (st : Stream) (offset : Int) (whence : Whence) : Stream :=
  { st with pos := (st.target offset whence).toNat, pushed := [] }

theorem seek_agrees {os : Os} (append : s.file.append = false) (err : s.file.err = false)
    (room : s.file.buf.isSome = true → 0 < s.file.bufsiz) (atEof : s.file.atEof = false)
    (begun : s.file.reading = true → s.file.writing = false ∧ s.file.read = true ∧
      (s.file.write = true → s.file.buf.isSome = true))
    (count : s.file.count = 0) (bytes : os.bytes = st.bytes) (offset : os.offset = st.pos)
    (pushed : st.pushed = []) :
    Agrees ⟨if s.file.read = true ∧ s.file.write = true
        then { s.file with reading := false, writing := false, ptr := 0 }
        else { s.file with ptr := 0 }, os⟩ .idle st := by
  have early : s.file.atEof = true → st.bytes.length ≤ st.pos := fun stuck =>
    absurd (stuck.symm.trans atEof) (by decide)
  by_cases update : s.file.read = true ∧ s.file.write = true
  · rw [if_pos update]
    exact Agrees.ofQuiet ⟨append, err, room, .inl (Nat.zero_le _), early,
      fun stuck => by cases stuck⟩
      ⟨count, bytes, offset, pushed, fun _ _ => rfl⟩ fun _ => rfl
  · rw [if_neg update]
    refine Agrees.ofQuiet ⟨append, err, room, .inl (Nat.zero_le _), early, begun⟩
      ⟨count, bytes, offset, pushed, fun _ _ => rfl⟩ fun write => ?_
    by_contra reading
    rw [Bool.not_eq_false] at reading
    exact update ⟨(begun reading).2.1, write⟩

theorem Agrees.fseek_input (agrees : Agrees s turn st) (output : turn ≠ .output)
    (reading : s.file.reading = true) (offset : Int) (whence : Whence)
    (inside : 0 ≤ st.target offset whence)
    (sound : s.file.nbf = true → whence = .cur → s.file.count = 0) :
    ∃ s', s.fseek env offset whence = (s', 0) ∧ Agrees s' .idle (st.seek offset whence) := by
  have tell := agrees.ftell
  rw [State.ftell, if_pos reading] at tell
  have bytes : s.os.bytes = st.bytes := by
    by_cases input : turn = .input
    · obtain ⟨ahead, reads⟩ := agrees.input input
      exact reads.bytes
    · exact (agrees.toQuiet input output).bytes
  have empty : s.file.buf.isSome = false → s.file.count = 0 := fun lacks => by
    by_cases input : turn = .input
    · obtain ⟨ahead, reads⟩ := agrees.input input
      obtain ⟨buf, present, -⟩ := reads.held
      simp [present] at lacks
    · exact (agrees.toQuiet input output).count
  have target : offset - (if whence = .cur ∧ s.file.buf.isSome = true ∧ s.file.nbf = false
      then s.file.count else 0) + s.os.base whence = st.target offset whence := by
    cases whence with
    | set => simp [Stream.target, Os.base]
    | fromEnd => simp [Stream.target, Os.base, bytes, Int.add_comm]
    | cur =>
      simp only [Stream.target, Os.base, true_and]
      split
      case isTrue => omega
      case isFalse free =>
        have none : s.file.count = 0 := by
          by_cases nbf : s.file.nbf = true
          · exact sound nbf rfl
          · refine empty (Bool.eq_false_iff.mpr fun present => free ⟨present, ?_⟩)
            exact Bool.eq_false_iff.mpr nbf
        omega
  have moved := lseek_eq inside target
  refine ⟨_, ?_, @seek_agrees ⟨{ s.file with count := 0, atEof := false, err := false }, s.os⟩
    (st.seek offset whence) { s.os with offset := (st.target offset whence).toNat }
    agrees.sane.append rfl agrees.sane.room rfl agrees.sane.begun rfl bytes rfl rfl⟩
  simp only [State.fseek, reading, true_and, if_true, moved]

/-- `fseek` moves the position, and the next call may read or write. -/
theorem Agrees.fseek (agrees : Agrees s turn st) (offset : Int) (whence : Whence)
    (inside : 0 ≤ st.target offset whence)
    (input : s.file.reading = true → s.file.nbf = true → whence = .cur → s.file.count = 0)
    (output : s.file.reading = false → s.file.writing = true → s.file.nbf = false →
      env.transfer s.file.ptr = s.file.ptr) :
    ∃ s', s.fseek env offset whence = (s', 0) ∧ Agrees s' .idle (st.seek offset whence) := by
  by_cases reading : s.file.reading = true
  · refine agrees.fseek_input (fun output' => ?_) reading offset whence inside (input reading)
    exact absurd (reading.symm.trans (agrees.output output').2.reading) (by decide)
  have notReading := reading
  have noAdjust : ¬ (s.file.reading = true ∧ whence = .cur ∧ s.file.buf.isSome = true ∧
      s.file.nbf = false) := fun both => notReading both.1
  rw [Bool.not_eq_true] at reading
  have notInput : turn ≠ .input := fun input' => by
    obtain ⟨ahead, reads⟩ := agrees.input input'
    exact absurd (reads.reading.symm.trans reading) (by decide)
  have pushed : st.pushed = [] := by
    by_cases output' : turn = .output
    · exact (agrees.output output').2.pushed
    · exact (agrees.toQuiet notInput output').pushed
  -- the flags are cleared before the output is written
  have cleared : ∃ turn', turn' ≠ .input ∧
      Agrees { s with file := { s.file with atEof := false, err := false } } turn' st := by
    have sane : Sane { s with file := { s.file with atEof := false, err := false } } st :=
      ⟨agrees.sane.append, rfl, agrees.sane.room, agrees.sane.inside, (fun stuck => by cases stuck),
        agrees.sane.begun⟩
    by_cases output' : turn = .output
    · obtain ⟨write, writes⟩ := agrees.output output'
      exact ⟨.output, by decide, Agrees.ofWrites sane write ⟨writes.reading, writes.writing,
        writes.pushed, writes.unbuffered, writes.buffered⟩⟩
    · have quiet := agrees.toQuiet notInput output'
      exact ⟨.idle, by decide, Agrees.ofQuiet sane ⟨quiet.count, quiet.bytes, quiet.offset,
        quiet.pushed, quiet.start⟩ fun _ => reading⟩
  obtain ⟨turn', notInput', agrees'⟩ := cleared
  have finish (t : State) (settled : Agrees t .idle st) (atEof : t.file.atEof = false) :
      t.os.lseek (offset - 0) whence =
        some { t.os with offset := (st.target offset whence).toNat } ∧
      Agrees ⟨if t.file.read = true ∧ t.file.write = true
          then { t.file with reading := false, writing := false, ptr := 0 }
          else { t.file with ptr := 0 },
        { t.os with offset := (st.target offset whence).toNat }⟩ .idle (st.seek offset whence) := by
    have quiet := (settled.quiet (.inr rfl)).1
    refine ⟨lseek_eq inside ?_, @seek_agrees t (st.seek offset whence) _ settled.sane.append
      settled.sane.err settled.sane.room atEof settled.sane.begun quiet.count quiet.bytes rfl rfl⟩
    cases whence with
    | set => simp [Stream.target, Os.base]
    | cur => simp [Stream.target, Os.base, quiet.offset, Stream.tell, pushed, Int.add_comm]
    | fromEnd => simp [Stream.target, Os.base, quiet.bytes, Int.add_comm]
  by_cases writing : s.file.writing = true
  · obtain ⟨t, flushed, settled⟩ := @Agrees.fflush _ _ env _ agrees'
      (fun input' => absurd input' notInput')
      (fun stuck => absurd (stuck.symm.trans reading) (by decide)) output
    rw [Stream.settle_of_nil pushed] at settled
    have atEof := fflush_atEof { s with file := { s.file with atEof := false, err := false } } env
    rw [flushed] at atEof
    obtain ⟨moved, done⟩ := finish t settled atEof
    refine ⟨_, ?_, done⟩
    rw [State.fseek]
    rw [if_neg notReading, if_neg noAdjust, if_pos writing, flushed, moved]
  · have settled : Agrees { s with file :=
      { s.file with atEof := false, err := false } } .idle st := by
      have notOutput : turn' ≠ .output := fun output' =>
        absurd (agrees'.output output').2.writing writing
      exact Agrees.ofQuiet agrees'.sane (agrees'.toQuiet notInput' notOutput) fun _ => reading
    obtain ⟨moved, done⟩ := finish _ settled rfl
    refine ⟨_, ?_, done⟩
    rw [State.fseek]
    rw [if_neg notReading, if_neg noAdjust, if_neg writing, moved]

theorem Agrees.setvbuf (agrees : Agrees s .fresh st) (given : Bool) (mode : Buffering) (size : Nat)
    (sound : given = true → 0 < size) : Agrees (s.setvbuf env given mode size).1 .fresh st := by
  obtain ⟨quiet, turned⟩ := agrees.quiet (.inl rfl)
  have begun : s.file.reading = true → s.file.writing = false ∧ s.file.read = true ∧
      ¬ s.file.write = true := fun reading => by
    obtain ⟨writing, read, -⟩ := agrees.sane.begun reading
    exact ⟨writing, read, fun write => absurd (reading.symm.trans (turned write)) (by decide)⟩
  have quiet' : Quiet (s.setvbuf env given mode size).1 st :=
    ⟨rfl, quiet.bytes, quiet.offset, quiet.pushed, fun _ _ => rfl⟩
  refine ⟨⟨agrees.sane.append, agrees.sane.err, fun present => ?_, .inl (Nat.zero_le _),
    agrees.sane.atEof, fun reading => ?_⟩, fun _ => ⟨quiet', turned⟩, (fun turn => by cases turn),
    (fun turn => by cases turn), fun turn => by cases turn⟩
  · by_cases buffer : given = true ∨ (¬ given = true ∧ mode ≠ .none) ∧ size ≠ 0 ∧ env.memory = true
    · simp only [State.setvbuf, if_pos buffer]
      rcases buffer with given | allocated
      · exact sound given
      · exact Nat.pos_of_ne_zero allocated.2.1
    · simp only [State.setvbuf, if_neg buffer] at present
      cases present
  · obtain ⟨writing, read, neverWritten⟩ := begun reading
    exact ⟨writing, read, fun write => absurd write neverWritten⟩

/-! ### Sessions -/

theorem Agrees.performs (agrees : Agrees s turn st) {results : List (Op × Int)} {op : Op}
    (allowed : Session.Allowed ⟨s, turn, results⟩ op)
      (sound : Session.Sound ⟨s, turn, results⟩ env op) :
    Performs turn st op (s.perform env op) := by
  cases op with
  | setvbuf given mode size =>
    obtain rfl : turn = .fresh := allowed
    exact ⟨_, _, st, rfl, rfl, agrees.setvbuf given mode size sound⟩
  | getc => exact agrees.getc allowed.1 allowed.2 sound
  | ungetc ch => exact agrees.ungetc allowed.2 sound ch
  | putc c => exact agrees.putc allowed.1 allowed.2 sound
  | fflush =>
    have inside : turn = .input → 0 ≤ st.tell := fun input => agrees.ftell ▸ allowed input
    obtain ⟨s', done, agrees'⟩ := agrees.fflush inside sound.1 sound.2
    exact ⟨s', 0, st.settle, congrArg some done, by rw [Stream.step, if_pos rfl]; rfl, agrees'⟩
  | fseek offset whence =>
    have inside : 0 ≤ st.target offset whence := agrees.target offset whence ▸ allowed
    obtain ⟨s', done, agrees'⟩ := agrees.fseek offset whence inside sound.1 sound.2
    exact ⟨s', 0, st.seek offset whence, congrArg some done, by rw [Stream.step, if_pos rfl]; rfl,
      agrees'⟩
  | ftell =>
    refine ⟨s, s.ftell, st, rfl, if_pos agrees.ftell, ?_⟩
    rw [Turn.next]
    split
    case isTrue fresh =>
      obtain ⟨quiet, turned⟩ := agrees.quiet (.inl fresh)
      exact Agrees.ofQuiet agrees.sane quiet turned
    case isFalse => exact agrees

theorem agrees_opened (read write : Bool) (bytes : List UInt8) :
    Agrees (Session.opened read write bytes).state .fresh { bytes } := by
  refine ⟨⟨rfl, rfl, (fun present => by cases present), .inr rfl, (fun ended => by cases ended),
    fun reading => ?_⟩, fun _ => ⟨⟨rfl, rfl, rfl, rfl, fun _ _ => rfl⟩, fun writes => ?_⟩,
    (fun turn => by cases turn), (fun turn => by cases turn), fun turn => by cases turn⟩
  · cases read <;> cases write <;> simp_all [Session.opened]
  · cases read <;> cases write <;> simp_all [Session.opened]

theorem Agrees.pushes_back (agrees : Agrees s .input st) (pushed : st.pushed = []) {ch : Int}
    (byte : ch ≠ eof) : ∃ s', s.ungetc ch = some (s', ch) := by
  obtain ⟨ahead, reads⟩ := agrees.input rfl
  obtain ⟨s', result, st', done, -, -⟩ := agrees.ungetc (by decide) (fun _ => by
    obtain ⟨buf, present, -⟩ := reads.held
    rw [present]
    rfl) ch
  have begun := reads.begun pushed
  rw [State.ungetc, if_neg (by simp [byte, reads.reading]), if_neg (by omega)] at done
  obtain ⟨file, -, same⟩ := Option.map_eq_some_iff.mp done
  obtain rfl : ch = result := congrArg Prod.snd same
  refine ⟨s', ?_⟩
  rw [State.ungetc, if_neg (by simp [byte, reads.reading]), if_neg (by omega)]
  exact done

/-- In every session of sound operations the results are those of an array of bytes, and the file
with the output that is buffered is the array. The next sound operation stays inside its buffer,
and one byte can be pushed back after input. -/
theorem results_are_of_array (read write : Bool) (bytes : List UInt8)
    {calls : List (Env × Op)} {session : Session}
    (run : Run Session.step (fun s call => s.Allowed call.2 ∧ s.Sound call.1 call.2)
      (Session.opened read write bytes) calls session) :
    session.results.map Prod.fst = calls.map Prod.snd ∧
    ∃ st, Run Stream.step (fun _ _ => True) { bytes } session.results st ∧
      session.state.contents = st.bytes ∧
      (session.turn ≠ .output → session.state.os.bytes = st.bytes) ∧
      (∀ env op, session.Allowed op → session.Sound env op →
        (session.step (env, op)).isSome = true) ∧
      (session.turn = .input → st.pushed = [] → ∀ ch ≠ eof, ∃ s',
        session.state.ungetc ch = some (s', ch)) := by
  have agrees : session.results.map Prod.fst = calls.map Prod.snd ∧
      ∃ st, Run Stream.step (fun _ _ => True) { bytes } session.results st ∧
        Agrees session.state session.turn st := by
    induction run with
    | nil => exact ⟨rfl, _, .nil, agrees_opened read write bytes⟩
    | @snoc calls before after call _ guarded completed inductionHypothesis =>
      obtain ⟨same, st, run, agrees⟩ := inductionHypothesis
      obtain ⟨s', result, st', done, stepped, agrees'⟩ := agrees.performs guarded.1 guarded.2
      rw [Session.step, done, Option.map_some, Option.some.injEq] at completed
      subst completed
      refine ⟨?_, st', run.snoc trivial stepped, agrees'⟩
      rw [List.map_append, List.map_append, same]
      rfl
  obtain ⟨same, st, run, agrees⟩ := agrees
  refine ⟨same, st, run, agrees.contents, fun output => ?_, fun env op allowed sound => ?_,
    fun input pushed ch byte => ?_⟩
  · by_cases input : session.turn = .input
    · obtain ⟨ahead, reads⟩ := agrees.input input
      exact reads.bytes
    · exact (agrees.toQuiet input output).bytes
  · obtain ⟨s', result, st', done, -, -⟩ := agrees.performs allowed sound
    rw [Session.step, done]
    rfl
  · rw [input] at agrees
    exact agrees.pushes_back pushed byte

/-- Two bytes are read, one is pushed back, and two others are written from there on. -/
def updating : List (Env × Op) :=
  [({}, .setvbuf false .line 8), ({ grant := fun _ => 1 }, .getc), ({}, .getc), ({}, .ungetc 120),
    ({}, .ftell), ({}, .fseek 0 .cur), ({}, .putc 121), ({ grant := fun _ => 1 }, .putc newline),
    ({}, .fflush), ({}, .getc)]

/-- The session after these operations. -/
def updated : Session :=
  reached Session.step (fun s call => s.Allowed call.2 ∧ s.Sound call.1 call.2)
    (Session.opened true true [97, 98, 99]) updating

/-- The results are those of the array, which the file holds in the end. -/
theorem results_are_of_array_updating :
    ∃ st, Run Stream.step (fun _ _ => True) { bytes := [97, 98, 99] } updated.results st ∧
      updated.state.os.bytes = st.bytes := by
  obtain ⟨-, st, results, -, written, -⟩ := results_are_of_array true true [97, 98, 99]
    (@reached_run _ _ _ _ _ updating _ (by decide))
  exact ⟨st, results, written (by decide)⟩

/-! ### Output that is lost -/

/-- Two bytes are flushed, but the system writes one of them at first. -/
def flushing : List (Env × Op) :=
  [({}, .putc 97), ({}, .putc 98), ({ grant := fun _ => 1 }, .fflush)]

/-- `fflush` does not write the other byte, and fails. -/
theorem output_is_lost :
    ∃ s, Run Session.step (fun s call => s.Allowed call.2)
      (Session.opened false true []) flushing s ∧
      s.state.os.bytes = [97] ∧
      ∀ st, ¬ Run Stream.step (fun _ _ => True) { bytes := [] } s.results st := by
  refine ⟨_, reached_run (by decide), by decide, fun st run => ?_⟩
  have results : (reached Session.step (fun s call => s.Allowed call.2)
      (Session.opened false true []) flushing).results = [(.putc 97, 97), (.putc 98, 98)] ++ [(.fflush, eof)] := by decide
  rw [results] at run
  generalize whole : [(Op.putc 97, (97 : Int)), (.putc 98, 98)] ++ [(.fflush, eof)] = all at run
  cases run with
  | nil => cases whole
  | snoc run allowed completed =>
    obtain ⟨-, last⟩ := List.append_inj' whole rfl
    obtain rfl := (List.cons.inj last).1
    cases completed

end Minix.Stdio
