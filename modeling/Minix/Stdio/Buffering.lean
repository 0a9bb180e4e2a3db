/-
This file proves that each operation of the C library on a stream has the result that the array of
bytes gives, and keeps the buffer in agreement with the array. Between two operations the buffer is
empty, or holds bytes that were read ahead, or holds output that is not written yet.
-/

import Minix.Stdio.Stream

namespace Minix.Stdio

open Function (update update_of_ne update_self)
open Overwrite Tape

variable {s : State} {st : Stream} {env : Env} {turn : Turn} {ahead : List UInt8}

/-! ### Agreement -/

/-- What holds of every stream. -/
structure Sane (s : State) (st : Stream) : Prop where
  append : s.file.append = false
  err : s.file.err = false
  room : s.file.buf.isSome = true → 0 < s.file.bufsiz
  inside : s.file.ptr ≤ s.file.bufsiz ∨ s.file.buf = none
  atEof : s.file.atEof = true → st.bytes.length ≤ st.pos
  begun : s.file.reading = true → s.file.writing = false ∧ s.file.read = true ∧
    (s.file.write = true → s.file.buf.isSome = true)

/-- Nothing is buffered. -/
structure Quiet (s : State) (st : Stream) : Prop where
  count : s.file.count = 0
  bytes : s.os.bytes = st.bytes
  offset : s.os.offset = st.pos
  pushed : st.pushed = []
  start : s.file.reading = false → s.file.nbf = false → s.file.ptr = 0

/-- The buffer holds the bytes that were pushed back and bytes that were read ahead. -/
structure Reads (s : State) (st : Stream) (ahead : List UInt8) : Prop where
  reading : s.file.reading = true
  writing : s.file.writing = false
  count : s.file.count = (st.pushed ++ ahead).length
  bytes : s.os.bytes = st.bytes
  offset : s.os.offset = st.pos + ahead.length
  held : ∃ buf, s.file.buf = some buf ∧
    window buf s.file.ptr (s.file.ptr + (st.pushed ++ ahead).length) = st.pushed ++ ahead
  inside : s.file.ptr + (st.pushed ++ ahead).length ≤ s.file.bufsiz
  follows : ahead <+: st.bytes.drop st.pos
  begun : st.pushed = [] → 0 < s.file.ptr

/-- The buffer holds output. -/
structure Writes (s : State) (st : Stream) : Prop where
  reading : s.file.reading = false
  writing : s.file.writing = true
  pushed : st.pushed = []
  unbuffered : s.file.nbf = true →
    s.file.count = 0 ∧ s.os.bytes = st.bytes ∧ s.os.offset = st.pos
  buffered : s.file.nbf = false → ∃ buf, s.file.buf = some buf ∧
    overwrite 0 s.os.bytes s.os.offset (window buf 0 s.file.ptr) = st.bytes ∧
    s.os.offset + s.file.ptr = st.pos ∧
    if s.file.lbf = true then s.file.count = -s.file.ptr ∧ s.file.ptr < s.file.bufsiz
    else s.file.count = s.file.bufsiz - s.file.ptr ∧ 0 < s.file.ptr ∧ s.file.ptr ≤ s.file.bufsiz

/-- The buffer agrees with the array. -/
structure Agrees (s : State) (turn : Turn) (st : Stream) : Prop where
  sane : Sane s st
  quiet : turn = .fresh ∨ turn = .idle →
    Quiet s st ∧ (s.file.write = true → s.file.reading = false)
  atEnd : turn = .atEnd → Quiet s st ∧ s.file.atEof = true
  input : turn = .input → ∃ ahead, Reads s st ahead
  output : turn = .output → s.file.write = true ∧ Writes s st

namespace Agrees

theorem toQuiet (agrees : Agrees s turn st) (input : turn ≠ .input) (output : turn ≠ .output) :
    Quiet s st := by
  cases turn with
  | fresh => exact (agrees.quiet (.inl rfl)).1
  | idle => exact (agrees.quiet (.inr rfl)).1
  | atEnd => exact (agrees.atEnd rfl).1
  | input => exact absurd rfl input
  | output => exact absurd rfl output

theorem ofReads (ahead : List UInt8) (sane : Sane s st) (reads : Reads s st ahead) :
    Agrees s .input st :=
  ⟨sane, (fun turn => by simp at turn), (fun turn => by simp at turn), fun _ => ⟨ahead, reads⟩,
    fun turn => by simp at turn⟩

theorem ofWrites (sane : Sane s st) (write : s.file.write = true) (writes : Writes s st) :
    Agrees s .output st :=
  ⟨sane, (fun turn => by simp at turn), (fun turn => by simp at turn),
    (fun turn => by simp at turn),
    fun _ => ⟨write, writes⟩⟩

theorem ofEnd (sane : Sane s st) (quiet : Quiet s st) (ended : s.file.atEof = true) :
    Agrees s .atEnd st :=
  ⟨sane, (fun turn => by simp at turn), fun _ => ⟨quiet, ended⟩, (fun turn => by simp at turn),
    fun turn => by simp at turn⟩

theorem ofQuiet (sane : Sane s st) (quiet : Quiet s st)
    (turned : s.file.write = true → s.file.reading = false) : Agrees s .idle st :=
  ⟨sane, fun _ => ⟨quiet, turned⟩, (fun turn => by simp at turn), (fun turn => by simp at turn),
    fun turn => by simp at turn⟩

end Agrees

/-! ### System calls -/

theorem Env.transfer_le (env : Env) (size : Nat) : env.transfer size ≤ size := Nat.min_le_left _ _

theorem Env.transfer_pos (env : Env) {size : Nat} (some : 0 < size) : 0 < env.transfer size := by
  rw [Env.transfer]
  omega

theorem doWrite_eq (env : Env) {fuel : Nat} {os : Os} {data : List UInt8} (some : data ≠ [])
    (enough : data.length ≤ fuel) :
    doWrite env fuel os data =
      ({ bytes := overwrite 0 os.bytes os.offset data, offset := os.offset +
        data.length }, true) := by
  induction fuel generalizing os data with
  | zero =>
    have empty : data.length = 0 := Nat.le_zero.mp enough
    exact absurd (List.length_eq_zero_iff.mp empty) some
  | succ fuel inductionHypothesis =>
    have positive : 0 < data.length := List.length_pos_iff.mpr some
    have low := env.transfer_pos positive
    have high := env.transfer_le data.length
    have taken : (data.take (env.transfer data.length)).length = env.transfer data.length := by
      rw [List.length_take]
      omega
    rw [doWrite, Os.write]
    dsimp only
    split
    case isTrue more =>
      have rest : data.drop (env.transfer data.length) ≠ [] := by
        rw [← List.length_pos_iff, List.length_drop]
        omega
      rw [inductionHypothesis rest (by rw [List.length_drop]; omega)]
      have joined := overwrite_overwrite 0 os.bytes os.offset
        (data.take (env.transfer data.length)) (data.drop (env.transfer data.length))
      rw [taken, List.take_append_drop] at joined
      dsimp only
      rw [joined, List.length_drop]
      congr 2
      omega
    case isFalse last =>
      have whole : env.transfer data.length = data.length := by omega
      rw [whole, List.take_length, decide_eq_true positive]

theorem Os.read_eq (os : Os) (env : Env) {size : Nat} (some : 0 < size) :
    ∃ data, os.read env size = (data, { os with offset := os.offset + data.length }) ∧
      data <+: os.bytes.drop os.offset ∧ data.length ≤ size ∧
      (data = [] → os.bytes.length ≤ os.offset) := by
  refine ⟨_, rfl, (List.take_prefix _ _).trans (List.take_prefix _ _), ?_, fun none => ?_⟩
  · rw [List.length_take, List.length_take]
    omega
  · by_contra more
    have positive : 0 < ((os.bytes.drop os.offset).take size).length := by
      rw [List.length_take, List.length_drop]
      omega
    have moved := env.transfer_pos positive
    have empty := congrArg List.length none
    rw [List.length_take, List.length_nil] at empty
    omega

/-! ### Input -/

section Access

variable {file : File} {buf : Nat → UInt8}

section

variable (present : file.buf = some buf)
include present

theorem File.load_eq (inside : file.ptr < file.bufsiz) :
    file.load = some ({ file with ptr := file.ptr + 1 }, buf file.ptr) := by
  rw [File.load, present, Option.bind_some, if_pos inside]

theorem File.store_eq (inside : file.ptr < file.bufsiz) (c : Int) :
    file.store c = some { file with
      buf := some (update buf file.ptr (UInt8.ofInt c)), ptr := file.ptr + 1 } := by
  rw [File.store, present, Option.bind_some, if_pos inside]

theorem File.front_eq (size : Nat) :
    file.front size = window buf 0 size := by
  rw [File.front, present]

end

theorem window_update_of_le {ptr stop : Nat} (c : UInt8) (below : stop ≤ ptr) :
    window (update buf ptr c) 0 stop = window buf 0 stop :=
  window_congr fun cell _ high => update_of_ne (by omega) _ _

theorem window_update_of_lt {ptr start stop : Nat} (c : UInt8) (above : ptr < start) :
    window (update buf ptr c) start stop = window buf start stop :=
  window_congr fun cell low _ => update_of_ne (by omega) _ _

theorem window_store (buf : Nat → UInt8) (ptr : Nat) (c : UInt8) :
    window (update buf ptr c) 0 (ptr + 1) = window buf 0 ptr ++ [c] := by
  rw [window_concat (Nat.zero_le _), window_update_of_le c (Nat.le_refl _), update_self]

end Access

theorem Stream.step_getc {c : UInt8} (pushed : st.pushed = [])
    (next : st.bytes[st.pos]? = some c) :
    st.step (.getc, (c.toNat : Int)) = some { st with pos := st.pos + 1 } := by
  rw [Stream.step, pushed, next]
  exact if_pos rfl

theorem Stream.step_getc_end (pushed : st.pushed = []) (ended : st.bytes.length ≤ st.pos) :
    st.step (.getc, eof) = some st := by
  rw [Stream.step, pushed, List.getElem?_eq_none ended]
  exact if_pos rfl

theorem toNat_ne_eof (c : UInt8) : ((c.toNat : Nat) : Int) ≠ eof := by
  rw [eof]
  omega

/-- A byte is taken from the buffer. -/
theorem Reads.load (sane : Sane s st) (reads : Reads s st ahead)
    (nonempty : st.pushed ++ ahead ≠ []) :
    ∃ file c st', ({ s.file with count := s.file.count - 1 } : File).load = some (file, c) ∧
      st.step (.getc, (c.toNat : Int)) = some st' ∧
      Agrees { s with file } .input st' := by
  obtain ⟨buf, present, held⟩ := reads.held
  have inside := reads.inside
  cases bytes : st.pushed ++ ahead with
  | nil => exact absurd bytes nonempty
  | cons c rest =>
    have count := reads.count
    rw [bytes] at held inside count
    rw [List.length_cons] at held inside count
    rw [window_cons (by omega)] at held
    obtain ⟨first, held'⟩ := List.cons_eq_cons.mp held
    have shifted : s.file.ptr + 1 + rest.length = s.file.ptr + (rest.length + 1) := by omega
    rw [← shifted] at held'
    have loaded := @File.load_eq { s.file with count := s.file.count - 1 } buf present
      (show s.file.ptr < s.file.bufsiz by omega)
    cases pushed : st.pushed with
    | nil =>
      rw [pushed, List.nil_append] at bytes
      subst bytes
      obtain ⟨more, follows⟩ := reads.follows
      have next : st.bytes[st.pos]? = Option.some c := by
        rw [← List.head?_drop, ← follows]
        rfl
      refine ⟨_, _, { st with pos := st.pos + 1 }, loaded, ?_, Agrees.ofReads rest ?_ ?_⟩
      · rw [show ({ s.file with count := s.file.count - 1 } : File).ptr = s.file.ptr
          from rfl, first]
        exact Stream.step_getc pushed next
      · exact ⟨sane.append, sane.err, sane.room, .inl
          (show s.file.ptr + 1 ≤ s.file.bufsiz by omega),
          fun ended => Nat.le_succ_of_le (sane.atEof ended), sane.begun⟩
      · refine ⟨reads.reading, reads.writing, ?_, reads.bytes, ?_, ⟨buf, present, ?_⟩, ?_, ?_,
          fun _ => Nat.succ_pos _⟩
        · simp only [pushed, List.nil_append]
          omega
        · have offset := reads.offset
          rw [List.length_cons] at offset
          simp only
          omega
        · simpa only [pushed, List.nil_append] using held'
        · simp only [pushed, List.nil_append]
          omega
        · refine ⟨more, ?_⟩
          have dropped := congrArg List.tail follows
          rwa [List.cons_append, List.tail_cons, List.tail_drop] at dropped
    | cons c' pushed' =>
      rw [pushed, List.cons_append] at bytes
      obtain ⟨rfl, rfl⟩ := List.cons_eq_cons.mp bytes
      refine ⟨_, _, { st with pushed := pushed' }, loaded, ?_, Agrees.ofReads ahead ?_ ?_⟩
      · rw [show ({ s.file with count := s.file.count - 1 } : File).ptr = s.file.ptr
          from rfl, first,
          Stream.step, pushed]
        exact if_pos rfl
      · exact ⟨sane.append, sane.err, sane.room, .inl
          (show s.file.ptr + 1 ≤ s.file.bufsiz by omega),
          sane.atEof, sane.begun⟩
      · refine ⟨reads.reading, reads.writing, ?_, reads.bytes, reads.offset, ⟨buf, present, held'⟩,
          ?_, reads.follows, fun _ => Nat.succ_pos _⟩
        · simp only
          omega
        · simp only
          omega

/-- The result of an operation that the array can perform as well. -/
def Performs (turn : Turn) (st : Stream) (op : Op) (done : Option (State × Int)) : Prop :=
  ∃ s' result st', done = some (s', result) ∧ st.step (op, result) = some st' ∧
    Agrees s' (turn.next op result) st'

theorem Turn.next_getc (turn : Turn) (c : UInt8) :
    turn.next .getc (c.toNat : Int) = .input := by
  rw [Turn.next, if_neg (toNat_ne_eof c)]

/-- The slow path of `getc`, which reads the next buffer. -/
theorem refill_performs (append : s.file.append = false) (err : s.file.err = false)
    (atEof : s.file.atEof = false) (present : s.file.buf.isSome = true) (room : 0 < s.file.bufsiz)
    (read : s.file.read = true) (reading : s.file.reading = true)
    (writing : s.file.writing = false) (bytes : s.os.bytes = st.bytes)
    (offset : s.os.offset = st.pos) (pushed : st.pushed = []) :
    Performs turn st .getc (s.refill env) := by
  obtain ⟨buf, present⟩ := Option.isSome_iff_exists.mp present
  obtain ⟨data, moved, follows, short, ended⟩ := s.os.read_eq env room
  rw [bytes, offset] at follows ended
  rw [State.refill, moved]
  cases data with
  | nil =>
    have last := ended rfl
    refine ⟨_, eof, st, rfl, Stream.step_getc_end pushed last, ?_⟩
    refine Agrees.ofEnd ⟨append, err, fun _ => room, .inl (Nat.zero_le _), fun _ => last,
        fun _ => ⟨writing, read, fun _ => by dsimp only; rw [present]; rfl⟩⟩
      ⟨rfl, bytes, offset, pushed, fun _ _ => rfl⟩ rfl
  | cons c rest =>
    rw [List.length_cons] at short
    have filled : window (splice buf 0 (c :: rest).length fun i => (c :: rest).getD i 0) 0
        (c :: rest).length = c :: rest := by
      have inside := window_splice_inside buf (fun i => (c :: rest).getD i 0) 0 (c :: rest).length
      rw [Nat.zero_add, window_getD] at inside
      exact inside
    rw [List.length_cons, window_cons (Nat.succ_pos _)] at filled
    obtain ⟨first, behind⟩ := List.cons_eq_cons.mp filled
    have next : st.bytes[st.pos]? = some c := by
      obtain ⟨more, same⟩ := follows
      rw [← List.head?_drop, ← same]
      rfl
    refine ⟨
      { file := { s.file with
          buf := some (splice buf 0 (c :: rest).length fun i => (c :: rest).getD i 0)
          ptr := 1
          count := ((c :: rest).length : Int) - 1 }
        os := { s.os with offset := s.os.offset + (c :: rest).length } },
      (c.toNat : Int), { st with pos := st.pos + 1 }, ?_, Stream.step_getc pushed next, ?_⟩
    · simp only [List.isEmpty_cons, Bool.false_eq_true, if_false, present, Option.map_some]
      rw [File.load_eq rfl room, Option.map_some, List.length_cons, first]
    · rw [Turn.next_getc]
      refine Agrees.ofReads rest ⟨append, err, fun _ => room, .inl room,
        fun ended => absurd (ended.symm.trans atEof) (by decide), fun _ =>
          ⟨writing, read, fun _ => rfl⟩⟩
        ⟨reading, writing, ?_, bytes, ?_,
        ⟨_, rfl, ?_⟩, ?_, ?_, fun _ => Nat.one_pos⟩
      · simp [pushed]
      · simp only [List.length_cons]
        omega
      · simp only [pushed, List.nil_append]
        rw [Nat.add_comm 1]
        exact behind
      · simp only [pushed, List.nil_append]
        omega
      · obtain ⟨more, same⟩ := follows
        refine ⟨more, ?_⟩
        have dropped := congrArg List.tail same
        rwa [List.cons_append, List.tail_cons, List.tail_drop] at dropped

theorem File.ready_spec {file : File} (room : file.buf.isSome = true → 0 < file.bufsiz)
    (env : Env) :
    (file.ready env).buf.isSome = true ∧ 0 < (file.ready env).bufsiz ∧
      (file.ready env).append = file.append ∧ (file.ready env).err = file.err ∧
      (file.ready env).atEof = file.atEof ∧ (file.ready env).reading = file.reading ∧
      (file.ready env).writing = file.writing ∧ (file.ready env).read = file.read := by
  cases present : file.buf with
  | some buf =>
    have same : file.ready env = file := by simp [File.ready, present]
    rw [same]
    exact ⟨by simp [present], room (by simp [present]), rfl, rfl, rfl, rfl, rfl, rfl⟩
  | none =>
    rw [File.ready]
    by_cases buffered : file.nbf = false
    · cases memory : env.memory <;> simp [present, buffered, File.allocate, memory, bufSiz]
    · simp [present, buffered]

theorem fillbuf_performs (sane : Sane s st) (read : s.file.read = true)
    (writing : s.file.writing = false) (bytes : s.os.bytes = st.bytes)
    (offset : s.os.offset = st.pos) (pushed : st.pushed = [])
    (start : s.file.reading = false → s.file.nbf = false → s.file.ptr = 0) :
    Performs turn st .getc (s.fillbuf env) := by
  rw [State.fillbuf]
  by_cases ended : s.file.atEof = true
  · rw [if_pos (.inl ended)]
    exact ⟨_, eof, st, rfl, Stream.step_getc_end pushed (sane.atEof ended), Agrees.ofEnd
      ⟨sane.append, sane.err, sane.room, sane.inside, sane.atEof, sane.begun⟩
      ⟨rfl, bytes, offset, pushed, start⟩ ended⟩
  · rw [if_neg (by simp [ended, sane.err]), if_neg (by simp [read, writing])]
    obtain ⟨some, room, append, err, atEof, reading, writing', read'⟩ :=
      @File.ready_spec { s.file with count := 0, reading := true } sane.room env
    exact refill_performs (append.trans sane.append) (err.trans sane.err)
      (atEof.trans (Bool.eq_false_iff.mpr ended)) some room (read'.trans read) reading
      (writing'.trans writing) bytes offset pushed

section

variable (agrees : Agrees s turn st)
include agrees

theorem Agrees.getc (read : s.file.read = true) (input : turn ≠ .output)
    (sound : s.file.count ≤ 0 → s.file.writing = false) :
    Performs turn st .getc (s.getc env) := by
  rw [State.getc]
  by_cases reads : turn = .input
  · obtain ⟨ahead, reads⟩ := agrees.input reads
    by_cases empty : st.pushed ++ ahead = []
    · have count := reads.count
      rw [empty] at count
      rw [if_neg (by dsimp only; rw [count]; decide)]
      obtain ⟨pushed, rfl⟩ := List.append_eq_nil_iff.mp empty
      exact fillbuf_performs ⟨agrees.sane.append, agrees.sane.err, agrees.sane.room,
        agrees.sane.inside, agrees.sane.atEof, agrees.sane.begun⟩ read reads.writing reads.bytes
          reads.offset pushed
        fun stuck => absurd (reads.reading.symm.trans stuck) (by decide)
    · have positive := List.length_pos_iff.mpr empty
      have count := reads.count
      obtain ⟨file, c, st', loaded, stepped, agrees'⟩ := reads.load agrees.sane empty
      rw [if_pos (by dsimp only; omega), loaded]
      exact ⟨_, _, st', rfl, stepped, by rw [Turn.next_getc]; exact agrees'⟩
  · have quiet := agrees.toQuiet reads input
    rw [if_neg (by dsimp only; rw [quiet.count]; decide)]
    exact fillbuf_performs ⟨agrees.sane.append, agrees.sane.err, agrees.sane.room,
      agrees.sane.inside, agrees.sane.atEof, agrees.sane.begun⟩ read
        (sound (Int.le_of_eq quiet.count)) quiet.bytes
      quiet.offset quiet.pushed quiet.start

theorem Agrees.behind (input : turn ≠ .output) {buf : Nat → UInt8}
    (present : s.file.buf = some buf) (free : s.file.ptr = 0 → s.file.count = 0) :
    ∃ front ahead, front + 1 = (if s.file.ptr = 0 then 1 else s.file.ptr) ∧
      s.file.count = (st.pushed ++ ahead).length ∧ s.os.bytes = st.bytes ∧
      s.os.offset = st.pos + ahead.length ∧
      window buf (front + 1) (front + 1 + (st.pushed ++ ahead).length) = st.pushed ++ ahead ∧
      front + 1 + (st.pushed ++ ahead).length ≤ s.file.bufsiz ∧ ahead <+: st.bytes.drop st.pos := by
  have room := agrees.sane.room (by rw [present]; rfl)
  by_cases reads : turn = .input
  · obtain ⟨ahead, reads⟩ := agrees.input reads
    obtain ⟨buf', present', held⟩ := reads.held
    obtain rfl := Option.some.inj (present.symm.trans present')
    have inside := reads.inside
    by_cases first : s.file.ptr = 0
    · have count := reads.count
      rw [free first] at count
      have empty : st.pushed ++ ahead = [] := List.length_eq_zero_iff.mp (by omega)
      refine ⟨0, ahead, by rw [if_pos first], reads.count, reads.bytes, reads.offset, ?_, ?_,
        reads.follows⟩
      · rw [empty]
        exact window_self _ _
      · rw [empty, List.length_nil]
        omega
    · refine ⟨s.file.ptr - 1, ahead, by rw [if_neg first]; omega, reads.count, reads.bytes,
        reads.offset, ?_, ?_, reads.follows⟩
      · rwa [Nat.sub_add_cancel (Nat.pos_of_ne_zero first)]
      · rwa [Nat.sub_add_cancel (Nat.pos_of_ne_zero first)]
  · have quiet := agrees.toQuiet reads input
    have inside := agrees.sane.inside.resolve_right (by simp [present])
    have empty : st.pushed ++ [] = [] := by rw [quiet.pushed, List.nil_append]
    refine ⟨(if s.file.ptr = 0 then 1 else s.file.ptr) - 1, [], ?_, ?_, quiet.bytes,
      quiet.offset, ?_,
      ?_, List.nil_prefix⟩
    · split <;> omega
    · rw [empty, quiet.count]
      rfl
    · rw [empty]
      exact window_self _ _
    · rw [empty, List.length_nil]
      split <;> omega

theorem Agrees.ungetc (input : turn ≠ .output)
    (sound : s.file.reading = true → s.file.buf.isSome = true) (ch : Int) :
    Performs turn st (.ungetc ch) (s.ungetc ch) := by
  have refused : Performs turn st (.ungetc ch) (some (s, eof)) :=
    ⟨s, eof, st, rfl, by rw [Stream.step, if_pos rfl], by rw [Turn.next, if_pos rfl]; exact agrees⟩
  rw [State.ungetc]
  by_cases last : ch = eof ∨ s.file.reading = false
  · rw [if_pos last]
    exact refused
  rw [if_neg last]
  obtain ⟨some, reading⟩ := not_or.mp last
  rw [Bool.not_eq_false] at reading
  by_cases full : s.file.ptr = 0 ∧ s.file.count ≠ 0
  · rw [if_pos full]
    exact refused
  rw [if_neg full]
  obtain ⟨buf, present⟩ := Option.isSome_iff_exists.mp (sound reading)
  obtain ⟨front, ahead, ptr, count, bytes, offset, held, inside, follows⟩ :=
    agrees.behind input present fun first => by
      by_contra more
      exact full ⟨first, more⟩
  obtain ⟨writing, read, -⟩ := agrees.sane.begun reading
  rw [← ptr]
  dsimp only
  have stored := @File.store_eq { s.file with count := s.file.count + 1, ptr := front + 1 - 1 } buf
    present (show front + 1 - 1 < s.file.bufsiz by omega) ch
  rw [stored, Option.map_some]
  refine ⟨_, ch, { st with pushed := UInt8.ofInt ch :: st.pushed }, rfl, ?_, ?_⟩
  · rw [Stream.step, if_neg some, if_pos rfl]
  · rw [Turn.next, if_neg some]
    refine Agrees.ofReads ahead ⟨agrees.sane.append, agrees.sane.err,
      fun _ => agrees.sane.room (sound reading), .inl ?_, agrees.sane.atEof,
      fun _ => ⟨writing, read, fun _ => rfl⟩⟩
        ⟨reading, writing, ?_, bytes, offset, ⟨_, rfl, ?_⟩, ?_, follows, fun none => by cases none⟩
    · dsimp only
      omega
    · rw [List.cons_append, List.length_cons]
      dsimp only
      omega
    · rw [List.cons_append, List.length_cons]
      rw [Nat.add_sub_cancel, window_cons (by omega), update_self]
      have same : window (update buf front (UInt8.ofInt ch)) (front + 1)
          (front + ((st.pushed ++ ahead).length + 1)) = st.pushed ++ ahead := by
        rw [show front + ((st.pushed ++ ahead).length + 1) =
          front + 1 + (st.pushed ++ ahead).length by omega]
        exact (window_update_of_lt _ (Nat.lt_succ_self front)).trans held
      rw [same]
    · rw [List.cons_append, List.length_cons]
      dsimp only
      omega

end

end Minix.Stdio
