/-
This file proves that `putc` and `fflush` write what the array of bytes holds: the output in the
buffer, written over the file, gives the array.
-/

import Minix.Stdio.Buffering

namespace Minix.Stdio

open Function (update)
open Overwrite Tape

variable {s : State} {st : Stream} {env : Env} {turn : Turn} {c : Int} {file : File}
  {buf : Nat → UInt8}

/-! ### Output -/

/-- The array when a byte is written. -/
def Stream.put (st : Stream) (c : Int) : Stream :=
  { st with bytes := overwrite 0 st.bytes st.pos [UInt8.ofInt c], pos := st.pos + 1 }

theorem Stream.step_putc (st : Stream) (c : Int) :
    st.step (.putc c, ((UInt8.ofInt c).toNat : Int)) = some (st.put c) := if_pos rfl

theorem Stream.put_atEnd (ended : st.bytes.length ≤ st.pos) :
    (st.put c).bytes.length ≤ (st.put c).pos := by
  have length := @length_overwrite _ 0 st.bytes _ st.pos
    (List.cons_ne_nil (UInt8.ofInt c) [])
  rw [List.length_singleton] at length
  change (overwrite 0 st.bytes st.pos [UInt8.ofInt c]).length ≤ st.pos + 1
  omega

/-- The buffer holds output, and may be full. -/
structure Filling (s : State) (st : Stream) : Prop where
  append : s.file.append = false
  err : s.file.err = false
  atEof : s.file.atEof = true → st.bytes.length ≤ st.pos
  reading : s.file.reading = false
  writing : s.file.writing = true
  write : s.file.write = true
  nbf : s.file.nbf = false
  pushed : st.pushed = []
  room : 0 < s.file.bufsiz
  held : ∃ buf, s.file.buf = some buf ∧
    overwrite 0 s.os.bytes s.os.offset (window buf 0 s.file.ptr) = st.bytes
  pos : s.os.offset + s.file.ptr = st.pos

theorem Filling.seek (filling : Filling s st) : s.os.seekEnd s.file.append = some s.os := by
  rw [filling.append]
  rfl

theorem Filling.put (filling : Filling s st) (present : s.file.buf = some buf) (c : Int) :
    overwrite 0 s.os.bytes s.os.offset (window buf 0 s.file.ptr ++ [UInt8.ofInt c]) =
      (st.put c).bytes := by
  obtain ⟨buf', present', held⟩ := filling.held
  obtain rfl := Option.some.inj (present.symm.trans present')
  rw [← overwrite_overwrite, held, length_window, Nat.sub_zero, filling.pos]
  rfl

theorem Filling.agrees (filling : Filling s st) {os : Os} (c : Int)
    (same : file.append = false ∧ file.err = false ∧ file.atEof = s.file.atEof ∧
      file.reading = false ∧ file.writing = true ∧ file.write = true ∧ file.nbf = false)
    (present : file.buf = some buf)
    (held : overwrite 0 os.bytes os.offset (window buf 0 file.ptr) = (st.put c).bytes)
    (pos : os.offset + file.ptr = st.pos + 1)
    (count : if file.lbf = true then file.count = -file.ptr ∧
      file.ptr < file.bufsiz else file.count = file.bufsiz - file.ptr ∧ 0 < file.ptr ∧
      file.ptr ≤ file.bufsiz) (room : 0 < file.bufsiz) :
    Agrees { file, os } .output (st.put c) := by
  obtain ⟨append, err, atEof, reading, writing, write, nbf⟩ := same
  have inside : file.ptr ≤ file.bufsiz := by
    split at count
    · exact Nat.le_of_lt count.2
    · exact count.2.2
  refine Agrees.ofWrites ⟨append, err, fun _ => room, .inl inside,
    fun ended => Stream.put_atEnd (filling.atEof (atEof.symm.trans ended)),
    fun stuck => absurd (stuck.symm.trans reading) (by decide)⟩ write
    ⟨reading, writing, filling.pushed, fun stuck => absurd (stuck.symm.trans nbf) (by decide),
      fun _ => ⟨buf, present, held, pos, count⟩⟩

theorem writeOne_performs (append : s.file.append = false) (err : s.file.err = false)
    (atEof : s.file.atEof = true → st.bytes.length ≤ st.pos)
    (room : s.file.buf.isSome = true → 0 < s.file.bufsiz)
    (inside : s.file.ptr ≤ s.file.bufsiz ∨ s.file.buf = none) (reading : s.file.reading = false)
    (writing : s.file.writing = true) (write : s.file.write = true) (nbf : s.file.nbf = true)
    (pushed : st.pushed = []) (bytes : s.os.bytes = st.bytes) (offset : s.os.offset = st.pos) :
    Performs turn st (.putc c) (some (s.writeOne env c)) := by
  have one : env.transfer 1 = 1 := by
    rw [Env.transfer]
    omega
  have seek : s.os.seekEnd s.file.append = some s.os := by rw [append]; rfl
  refine ⟨⟨{ s.file with count := 0 }, { bytes := (st.put c).bytes, offset := st.pos + 1 }⟩, _,
    st.put c, ?_, st.step_putc c, ?_⟩
  · simp only [State.writeOne, seek, Os.write, List.length_singleton, one, bytes, offset, ne_eq,
      not_true_eq_false, if_false, List.take_succ_cons, List.take_zero]
    rfl
  · exact Agrees.ofWrites ⟨append, err, room, inside, fun ended => Stream.put_atEnd (atEof ended),
      fun stuck => absurd (stuck.symm.trans reading) (by decide)⟩ write
      ⟨reading, writing, pushed, fun _ => ⟨rfl, rfl, rfl⟩,
        fun stuck => absurd (stuck.symm.trans nbf) (by decide)⟩

theorem Filling.writeFull (filling : Filling s st) (lbf : s.file.lbf = false) :
    Performs turn st (.putc c) (s.writeFull env c) := by
  obtain ⟨buf, present, held⟩ := filling.held
  have pos := filling.pos
  have stored (os : Os) (bytes : os.bytes = st.bytes) (offset : os.offset = st.pos) :
      ∃ file, ({ s.file with count := s.file.bufsiz - 1, ptr := 0 } : File).store c = some file ∧
        Agrees { file, os } .output (st.put c) := by
    have store := @File.store_eq { s.file with count := s.file.bufsiz - 1, ptr := 0 } buf present
      filling.room c
    refine ⟨_, store, filling.agrees c ⟨filling.append, filling.err, rfl, filling.reading,
      filling.writing, filling.write, filling.nbf⟩ rfl ?_ ?_ ?_ filling.room⟩
    · rw [window_store, window_self, List.nil_append, bytes, offset]
      rfl
    · rw [offset]
    · have room := filling.room
      simp only [lbf, Bool.false_eq_true, if_false]
      omega
  rw [State.writeFull, File.front_eq present]
  by_cases empty : window buf 0 s.file.ptr = []
  · have first : s.file.ptr = 0 := by
      have none := congrArg List.length empty
      rwa [length_window, List.length_nil, Nat.sub_zero] at none
    rw [empty, overwrite_nil] at held
    obtain ⟨file, store, agrees⟩ := stored s.os held (by omega)
    rw [empty]
    simp only [List.isEmpty_nil, if_true, store, Option.map_some]
    exact ⟨_, _, _, rfl, st.step_putc c, agrees⟩
  · have written := @doWrite_eq env _ s.os _ empty (Nat.le_succ _)
    rw [held, length_window, Nat.sub_zero, pos] at written
    obtain ⟨file, store, agrees⟩ := stored { bytes := st.bytes, offset := st.pos } rfl rfl
    have nonempty : (window buf 0 s.file.ptr).isEmpty = false := by simpa using empty
    simp only [nonempty, Bool.false_eq_true, if_false, filling.seek, length_window, Nat.sub_zero,
      written, store, Option.map_some, if_true]
    exact ⟨_, _, _, rfl, st.step_putc c, agrees⟩

theorem Filling.writeLine (filling : Filling s st) (lbf : s.file.lbf = true)
    (count : s.file.count = -(s.file.ptr + 1)) (inside : s.file.ptr < s.file.bufsiz) :
    Performs turn st (.putc c) (s.writeLine env c) := by
  obtain ⟨buf, present, held⟩ := filling.held
  have pos := filling.pos
  have more := filling.put present c
  have same : s.file.append = false ∧ s.file.err = false ∧ s.file.atEof = s.file.atEof ∧
      s.file.reading = false ∧ s.file.writing = true ∧ s.file.write = true ∧ s.file.nbf = false :=
    ⟨filling.append, filling.err, rfl, filling.reading, filling.writing, filling.write, filling.nbf⟩
  rw [State.writeLine, File.store_eq present inside, Option.map_some]
  by_cases flush : c = newline ∨ s.file.count = -s.file.bufsiz
  · have size : (-s.file.count).toNat = s.file.ptr + 1 := by omega
    have some : window buf 0 s.file.ptr ++ [UInt8.ofInt c] ≠ [] := by simp
    have written := @doWrite_eq env _ s.os _ some (Nat.le_succ _)
    have length : (window buf 0 s.file.ptr ++ [UInt8.ofInt c]).length = s.file.ptr + 1 := by simp
    rw [more, length] at written
    simp only [flush, if_true, File.front, size, window_store, filling.seek, length, written]
    refine ⟨_, _, _, rfl, st.step_putc c, filling.agrees c same rfl ?_ ?_ ?_ filling.room⟩
    · rw [window_self, overwrite_nil]
    · dsimp only
      omega
    · simp only [lbf, if_true]
      exact ⟨rfl, filling.room⟩
  · rw [if_neg flush]
    refine ⟨_, _, _, rfl, st.step_putc c, filling.agrees c same rfl ?_ ?_ ?_ filling.room⟩
    · rw [window_store, more]
    · dsimp only
      omega
    · simp only [lbf, if_true]
      obtain ⟨-, room⟩ := not_or.mp flush
      omega

theorem flushbuf_eq (write : s.file.write = true)
    (free : s.file.reading = true → s.file.atEof = true)
    (provided : ({ s.file with reading := false, writing := true } : File).provide env = file) :
    s.flushbuf env c =
      if file.nbf then some (State.writeOne env { s with file } c)
      else if file.lbf then State.writeLine env { s with file } c
      else State.writeFull env { s with file } c := by
  have notHeld : ¬ (s.file.reading = true ∧ s.file.atEof = false) := fun held =>
    absurd ((free held.1).symm.trans held.2) (by decide)
  rw [State.flushbuf, if_neg (by simp [write]), if_neg notHeld, provided]

theorem provide_of_ne (has : file.nbf = true ∨ file.buf.isSome = true) (env : Env) :
    file.provide env = file := by
  refine if_neg fun lacks => ?_
  rcases has with nbf | present
  · exact absurd (nbf.symm.trans lacks.1) (by decide)
  · simp [Option.isNone_iff_eq_none.mp lacks.2] at present

theorem provide_spec (nbf : file.nbf = false) (lacks : file.buf = none)
    (memory : env.memory = true) :
    ((file.provide env).append = file.append ∧ (file.provide env).err = file.err ∧
      (file.provide env).atEof = file.atEof ∧ (file.provide env).reading = file.reading ∧
      (file.provide env).writing = file.writing ∧ (file.provide env).write = file.write ∧
      (file.provide env).nbf = false) ∧
    (file.provide env).buf = some (fun _ => 0) ∧ (file.provide env).ptr = 0 ∧
    (file.provide env).bufsiz = bufSiz ∧
    ((file.provide env).lbf = true → (file.provide env).count = -1) := by
  rw [File.provide, if_pos ⟨nbf, by rw [lacks]; rfl⟩, File.allocate, if_pos memory]
  simp only [nbf, Bool.false_eq_true, if_false]
  split
  case isTrue => exact ⟨⟨rfl, rfl, rfl, rfl, rfl, rfl, rfl⟩, rfl, rfl, rfl, fun _ => rfl⟩
  case isFalse other =>
    obtain ⟨-, full⟩ := not_or.mp other
    exact ⟨⟨rfl, rfl, rfl, rfl, rfl, rfl, rfl⟩, rfl, rfl, rfl, fun lbf => absurd lbf full⟩

/-- The slow path of `putc`, which makes room and puts the byte. -/
theorem flushbuf_performs (sane : Sane s st) (write : s.file.write = true)
    (free : s.file.reading = true → s.file.atEof = true) (count : s.file.count = -1)
    (bytes : s.os.bytes = st.bytes) (offset : s.os.offset = st.pos) (pushed : st.pushed = [])
    (start : s.file.nbf = false → s.file.ptr = 0) :
    Performs turn st (.putc c) (s.flushbuf env c) := by
  by_cases nbf : s.file.nbf = true
  · have same := @provide_of_ne { s.file with reading := false, writing := true } (.inl nbf) env
    rw [flushbuf_eq write free same, if_pos nbf]
    exact writeOne_performs sane.append sane.err sane.atEof sane.room sane.inside rfl rfl write nbf
      pushed bytes offset
  rw [Bool.not_eq_true] at nbf
  have first := start nbf
  cases present : s.file.buf with
  | some buf =>
    have room := sane.room (by rw [present]; rfl)
    have filling : Filling { s with file :=
      { s.file with reading := false, writing := true } } st :=
      ⟨sane.append, sane.err, sane.atEof, rfl, rfl, write, nbf, pushed, room,
        ⟨buf, present, by dsimp only; rw [first, window_self, overwrite_nil, bytes]⟩,
        by dsimp only; rw [first, offset, Nat.add_zero]⟩
    have same := @provide_of_ne { s.file with reading := false, writing := true }
      (.inr (by simp [present])) env
    rw [flushbuf_eq write free same, if_neg (by simp [nbf])]
    by_cases lbf : s.file.lbf = true
    · rw [if_pos lbf]
      exact filling.writeLine lbf (by dsimp only; rw [count, first]; rfl)
        (by dsimp only; rw [first]; exact room)
    · rw [if_neg lbf]
      exact filling.writeFull (Bool.eq_false_iff.mpr lbf)
  | none =>
    cases memory : env.memory with
    | false =>
      have provided : ({ s.file with reading := false, writing := true } : File).provide env =
          { s.file with nbf := true, reading := false, writing := true, ptr := 0 } := by
        simp [File.provide, File.allocate, memory, nbf, present]
      rw [flushbuf_eq write free provided, if_pos rfl]
      exact writeOne_performs sane.append sane.err sane.atEof
        (fun some => by simp [present] at some) (.inr present) rfl rfl write rfl pushed bytes offset
    | true =>
      obtain ⟨⟨append, err, atEof, reading, writing, write', nbf'⟩, buf, ptr, bufsiz, line⟩ :=
        @provide_spec env { s.file with reading := false, writing := true } nbf present memory
      rw [flushbuf_eq write free rfl]
      generalize ({ s.file with reading := false, writing := true } : File).provide env = file at *
      have room : 0 < file.bufsiz := by
        rw [bufsiz]
        decide
      have filling : Filling { s with file } st :=
        ⟨append.trans sane.append, err.trans sane.err, fun ended => sane.atEof
          (atEof.symm.trans ended),
          reading, writing, write'.trans write, nbf', pushed, room,
          ⟨_, buf, by dsimp only; rw [ptr, window_self, overwrite_nil, bytes]⟩,
          by dsimp only; rw [ptr, offset, Nat.add_zero]⟩
      rw [if_neg (by simp [nbf'])]
      by_cases lbf : file.lbf = true
      · rw [if_pos lbf]
        exact filling.writeLine lbf (by dsimp only; rw [line lbf, ptr]; rfl)
          (by dsimp only; rwa [ptr])
      · rw [if_neg lbf]
        exact filling.writeFull (Bool.eq_false_iff.mpr lbf)

theorem Writes.filling (sane : Sane s st) (write : s.file.write = true) (writes : Writes s st)
    (nbf : s.file.nbf = false) (count : Int) :
    Filling { s with file := { s.file with count } } st := by
  obtain ⟨buf, present, held, pos, -⟩ := writes.buffered nbf
  exact ⟨sane.append, sane.err, sane.atEof, writes.reading, writes.writing, write, nbf,
    writes.pushed, sane.room (by rw [present]; rfl), ⟨buf, present, held⟩, pos⟩

theorem flushbuf_again (s : State) (env : Env) (c : Int) (write : s.file.write = true)
    (reading : s.file.reading = false) (writing : s.file.writing = true)
    (has : s.file.nbf = true ∨ s.file.buf.isSome = true) :
    s.flushbuf env c =
      if s.file.nbf then some (s.writeOne env c)
      else if s.file.lbf then s.writeLine env c
      else s.writeFull env c := by
  have same : ({ s.file with reading := false, writing := true } : File) = s.file := by
    rw [← reading, ← writing]
  have provided : ({ s.file with reading := false, writing := true } : File).provide
    env = s.file := by
    rw [same]
    exact provide_of_ne has env
  exact flushbuf_eq write (fun stuck => absurd (stuck.symm.trans reading) (by decide)) provided

/-- `putc` puts one byte into the stream. -/
theorem Agrees.putc (agrees : Agrees s turn st) (write : s.file.write = true)
    (input : turn ≠ .input)
    (sound : s.file.reading = true → s.file.nbf = false → s.file.ptr = 0) :
    Performs turn st (.putc c) (s.putc env c) := by
  have sane : Sane { s with file := { s.file with count := s.file.count - 1 } } st :=
    ⟨agrees.sane.append, agrees.sane.err, agrees.sane.room, agrees.sane.inside, agrees.sane.atEof,
      agrees.sane.begun⟩
  rw [State.putc]
  by_cases output : turn = .output
  · obtain ⟨-, writes⟩ := agrees.output output
    have again := flushbuf_again { s with file := { s.file with count := s.file.count - 1 } } env c
      write writes.reading writes.writing
    by_cases nbf : s.file.nbf = true
    · obtain ⟨count, bytes, offset⟩ := writes.unbuffered nbf
      rw [if_neg (by dsimp only; rw [count]; decide), again (.inl nbf), if_pos nbf]
      exact writeOne_performs sane.append sane.err sane.atEof sane.room sane.inside writes.reading
        writes.writing write nbf writes.pushed bytes offset
    rw [Bool.not_eq_true] at nbf
    have filling := writes.filling agrees.sane write nbf (s.file.count - 1)
    obtain ⟨buf, present, held, pos, count⟩ := writes.buffered nbf
    have again := again (.inr (by simp [present]))
    by_cases lbf : s.file.lbf = true
    · rw [if_pos lbf] at count
      rw [if_neg (by dsimp only; omega), again, if_neg (by simp [nbf]), if_pos lbf]
      exact filling.writeLine lbf (by dsimp only; omega) count.2
    · rw [if_neg lbf] at count
      by_cases space : 0 ≤ s.file.count - 1
      · rw [if_pos space, @File.store_eq { s.file with count := s.file.count - 1 } buf present
          (by dsimp only; omega), Option.map_some]
        refine ⟨_, _, _, rfl, st.step_putc c, filling.agrees c ⟨filling.append, filling.err, rfl,
          filling.reading, filling.writing, filling.write, filling.nbf⟩ rfl ?_ ?_ ?_ filling.room⟩
        · rw [window_store, filling.put present]
        · dsimp only
          omega
        · rw [if_neg lbf]
          dsimp only
          omega
      · rw [if_neg space, again, if_neg (by simp [nbf]), if_neg lbf]
        exact filling.writeFull (Bool.eq_false_iff.mpr lbf)
  · have quiet := agrees.toQuiet input output
    rw [if_neg (by dsimp only; rw [quiet.count]; decide)]
    refine flushbuf_performs sane write (fun reading => ?_) (by dsimp only; rw [quiet.count]; rfl)
      quiet.bytes quiet.offset quiet.pushed fun nbf => ?_
    · cases turn with
      | fresh => exact absurd (reading.symm.trans ((agrees.quiet (.inl rfl)).2 write)) (by decide)
      | idle => exact absurd (reading.symm.trans ((agrees.quiet (.inr rfl)).2 write)) (by decide)
      | atEnd => exact (agrees.atEnd rfl).2
      | input => exact absurd rfl input
      | output => exact absurd rfl output
    · cases reading : s.file.reading with
      | true => exact sound reading nbf
      | false => exact quiet.start reading nbf

end Minix.Stdio
