/-
This file models how MM starts a script (`patch_stack` in `mm/exec.c`): the words behind `#!` on its
first line become the first arguments, before the name of the script, which takes the place of
`argv[0]`. The words are found from the end of the line backwards.

The scan leaves a word out: a first word of one character, right behind the `#!`. The loop over the
blanks behind a word stops at the first byte of the line, whatever that byte is.
-/

import Mathlib.Algebra.GroupWithZero.Nat
import Minix.Mm.Arguments

namespace Minix.Mm

open Bytes Fields

/-! ### The scan -/

/-- A space or a tab. -/
def isBlank (byte : UInt8) : Bool := byte == 32 || byte == 9

/-- `'\n'` -/
def newline : UInt8 := 10

/-- `while (sp > script && (*--sp == ' ' || *sp == '\t')) {}` -/
def skipBlanks (script : List UInt8) : Nat → Nat
  | 0 => 0
  | sp + 1 => if isBlank (script.getD sp 0) then skipBlanks script sp else sp

/-- `while (sp > script && sp[-1] != ' ' && sp[-1] != '\t') --sp;` -/
def wordStart (script : List UInt8) : Nat → Nat
  | 0 => 0
  | sp + 1 => if isBlank (script.getD sp 0) then sp + 1 else wordStart script sp

theorem skipBlanks_lt (script : List UInt8) (sp : Nat) (some : skipBlanks script sp ≠ 0) :
    skipBlanks script sp < sp := by
  induction sp with
  | zero => exact absurd rfl some
  | succ sp inductionHypothesis =>
    rw [skipBlanks] at some ⊢
    split
    case isTrue blank =>
      rw [if_pos blank] at some
      exact (inductionHypothesis some).trans (Nat.lt_succ_self sp)
    case isFalse => exact Nat.lt_succ_self sp

theorem wordStart_le (script : List UInt8) (sp : Nat) : wordStart script sp ≤ sp := by
  induction sp with
  | zero => exact le_rfl
  | succ sp inductionHypothesis =>
    rw [wordStart]
    split
    · exact le_rfl
    · exact inductionHypothesis.trans (Nat.le_succ sp)

theorem wordStart_set (script : List UInt8) {sp index : Nat} (behind : sp ≤ index) (byte : UInt8) :
    wordStart (script.set index byte) sp = wordStart script sp := by
  induction sp with
  | zero => rfl
  | succ sp inductionHypothesis =>
    have same : (script.set index byte).getD sp 0 = script.getD sp 0 := by
      rw [List.getD_eq_getElem?_getD, List.getElem?_set_ne (by omega), List.getD_eq_getElem?_getD]
    rw [wordStart, wordStart, same, inductionHypothesis (by omega)]

/-! ### The words of the first line -/

/-- What `patch_stack` leaves: the name of the interpreter, unless it is NULL, and the image with
its size. -/
structure Patched where
  interp : Option CString
  stack : List UInt8
  stkBytes : Nat

/-- The size rounded up for alignment. -/
def roundUp (stkBytes : Nat) : Nat := (stkBytes + ptrSize - 1) / ptrSize * ptrSize

/-- The loop of `patch_stack`: prepend each word of the line, from the end of the line backwards. -/
def prependWords (script : List UInt8) (sp : Nat) (interp : Option CString) (stack : List UInt8)
    (stkBytes : Nat) : Patched :=
  if _some : skipBlanks script sp ≠ 0 then
    let last := skipBlanks script sp
    let script := script.set (last + 1) 0
    let start := wordStart script last
    let word := CString.ofBytes (script.drop start)
    match insertArg stack stkBytes word false with
    | (false, stack, stkBytes) => ⟨none, stack, stkBytes⟩
    | (true, stack, stkBytes) => prependWords script start (some word) stack stkBytes
  else ⟨interp, stack, roundUp stkBytes⟩
termination_by sp
decreasing_by exact (wordStart_le _ _).trans_lt (skipBlanks_lt _ _ _some)

/-- `patch_stack`. What `lseek` and `read` give of the script file behind the `#!` is an input. -/
def patchStack (stack : List UInt8) (stkBytes : Nat) (script : CString)
    (line : Option (List UInt8)) : Patched :=
  match insertArg stack stkBytes script true with
  | (false, stack, stkBytes) => ⟨none, stack, stkBytes⟩
  | (true, stack, stkBytes) =>
    match line with
    | none => ⟨none, stack, stkBytes⟩
    | some script =>
      match script.idxOf? newline with
      | none => ⟨none, stack, stkBytes⟩
      | some sp => prependWords script sp none stack stkBytes

/-! ### What the scan finds -/

/-- The words of a line, separated by blanks. -/
def words (line : List UInt8) : List CString := (fields isBlank line).map .ofBytes

/-- The line begins with a word of one character. -/
def oneChar : List UInt8 → Bool
  | [] => false
  | byte :: line => !isBlank byte && line.head?.all isBlank

/-- The words that the scan finds. -/
def found (line : List UInt8) : List CString :=
  if oneChar line then words (line.drop 1) else words line

section Scan

variable {script front word blanks : List UInt8} {sp : Nat}

theorem take_succ_getD (inside : sp < script.length) :
    script.take (sp + 1) = script.take sp ++ [script.getD sp 0] := by
  rw [List.take_succ_eq_append_getElem inside, List.getD_eq_getElem?_getD,
    List.getElem?_eq_getElem inside, Option.getD_some]

/-- The first loop passes blanks, and stops at another byte or at the start. -/
theorem skipBlanks_spec (script : List UInt8) (some : sp ≠ 0) (inside : sp ≤ script.length) :
    ∃ blanks, (∀ byte ∈ blanks, isBlank byte = true) ∧
      script.take sp = script.take (skipBlanks script sp + 1) ++ blanks ∧
        (skipBlanks script sp ≠ 0 → isBlank (script.getD (skipBlanks script sp) 0) = false) := by
  induction sp with
  | zero => exact absurd rfl some
  | succ sp inductionHypothesis =>
    rw [skipBlanks]
    split
    case isTrue blank =>
      by_cases first : sp = 0
      · subst first
        exact ⟨[], nofun, (List.append_nil _).symm, fun still => absurd rfl still⟩
      obtain ⟨blanks, allBlank, split, stops⟩ := inductionHypothesis first (by omega)
      refine ⟨blanks ++ [script.getD sp 0], fun byte member => ?_, ?_, stops⟩
      · rcases List.mem_append.mp member with member | member
        · exact allBlank byte member
        · rw [List.mem_singleton.mp member]
          exact blank
      · rw [take_succ_getD (by omega), split, List.append_assoc]
    case isFalse other =>
      exact ⟨[], nofun, (List.append_nil _).symm, fun _ => Bool.eq_false_iff.mpr other⟩

theorem wordStart_spec (script : List UInt8) (inside : sp ≤ script.length) :
    ∃ word, (∀ byte ∈ word, isBlank byte = false) ∧
      script.take sp = script.take (wordStart script sp) ++ word ∧
        ∀ byte ∈ (script.take (wordStart script sp)).getLast?, isBlank byte = true := by
  induction sp with
  | zero => exact ⟨[], nofun, rfl, by simp [wordStart]⟩
  | succ sp inductionHypothesis =>
    rw [wordStart]
    split
    case isTrue blank =>
      refine ⟨[], nofun, (List.append_nil _).symm, fun byte last => ?_⟩
      rw [take_succ_getD (by omega), List.getLast?_concat, Option.mem_some_iff] at last
      exact last ▸ blank
    case isFalse other =>
      obtain ⟨word, noBlank, split, begins⟩ := inductionHypothesis (by omega)
      refine ⟨word ++ [script.getD sp 0], fun byte member => ?_, ?_, begins⟩
      · rcases List.mem_append.mp member with member | member
        · exact noBlank byte member
        · rw [List.mem_singleton.mp member]
          exact Bool.eq_false_iff.mpr other
      · rw [take_succ_getD (by omega), split, List.append_assoc]

/-- The last word of a line, but for a first word of one character, is found. -/
theorem found_last (noBlank : ∀ byte ∈ word, isBlank byte = false)
    (begins : ∀ byte ∈ front.getLast?, isBlank byte = true)
    (allBlank : ∀ byte ∈ blanks, isBlank byte = true) (some : word ≠ [])
    (long : front = [] → 2 ≤ word.length) :
    found (front ++ (word ++ blanks)) = found front ++ [.ofBytes word] := by
  have last {front : List UInt8} (begins : ∀ byte ∈ front.getLast?, isBlank byte = true) :
      words (front ++ (word ++ blanks)) = words front ++ [.ofBytes word] := by
    rw [words, fields_last some noBlank begins allBlank, List.map_append]
    rfl
  cases front with
  | nil =>
    obtain ⟨first, second, rest, rfl⟩ : ∃ first second rest, word = first :: second :: rest := by
      match word, long rfl with
      | first :: second :: rest, _ => exact ⟨first, second, rest, rfl⟩
    have whole : oneChar ([] ++ (first :: second :: rest ++ blanks)) = false := by
      simp [oneChar, noBlank second (by simp)]
    rw [found, whole, found, if_neg Bool.false_ne_true]
    exact last begins
  | cons byte line =>
    have same : oneChar (byte :: line ++ (word ++ blanks)) = oneChar (byte :: line) := by
      cases line with
      | nil =>
        have blank := begins byte rfl
        simp [oneChar, blank]
      | cons => rfl
    rw [found, found, same]
    split
    case isTrue one =>
      refine last fun last' member => begins last' ?_
      cases line with
      | nil => cases member
      | cons => exact member
    case isFalse => exact last begins

theorem found_blank (byte : UInt8) (allBlank : ∀ byte ∈ blanks, isBlank byte = true) :
    found (byte :: blanks) = [] := by
  have none : words blanks = [] := by
    rw [words, ← List.nil_append blanks, fields_append_separators allBlank, fields_nil]
    rfl
  rw [found]
  split
  · exact none
  case isFalse other =>
    have blank : isBlank byte = true := by
      by_contra word
      refine other ?_
      cases blanks with
      | nil => simpa [oneChar] using word
      | cons next => simpa [oneChar, allBlank next (by simp)] using word
    rw [words, ← List.nil_append (byte :: blanks), fields_append_separators fun other member => ?_,
      fields_nil]
    · rfl
    · rcases List.mem_cons.mp member with rfl | member
      · exact blank
      · exact allBlank other member

end Scan

/-! ### The words that are prepended -/

/-- What the words add to the size of the image: for each one its bytes, a zero byte and a word. -/
def wordBytes (words : List CString) : Nat := (words.map fun word => word.strlen + 5).sum

section Prepend

variable {argv envp : List CString} {stack script : List UInt8} {size sp : Nat}
  {first : CString}

theorem WellFormed.mono (image : WellFormed argv envp stack size) {size' : Nat}
    (larger : size ≤ size')
    (fits : size' ≤ argMax) : WellFormed argv envp stack size' := by
  obtain ⟨args, envs, layout⟩ := image
  have held {tableEnd : Nat} (pointer : UInt32) (string : CString)
      (holds : Holds stack tableEnd size pointer string) :
      Holds stack tableEnd size' pointer string :=
    ⟨holds.behind, holds.inside.trans larger, holds.stored⟩
  exact ⟨args, envs, layout.length, fits, layout.table, layout.argStrings.imp held,
    layout.envStrings.imp held, layout.first⟩

theorem WellFormed.roundUp (image : WellFormed argv envp stack size) :
    WellFormed argv envp stack (roundUp size) := by
  obtain ⟨args, envs, layout⟩ := image
  have fits := layout.fits
  refine WellFormed.mono ⟨args, envs, layout⟩ ?_ ?_
  · rw [Mm.roundUp, ptrSize]
    omega
  · rw [argMax] at fits ⊢
    rw [Mm.roundUp, ptrSize]
    omega

theorem turn_spec (inside : sp < script.length) (some : skipBlanks script sp ≠ 0) :
    ∃ word, found (script.take sp) =
        found (script.take (wordStart script (skipBlanks script sp))) ++ [.ofBytes word] ∧
      (script.set (skipBlanks script sp + 1) 0).drop (wordStart script (skipBlanks script sp)) =
        word ++ 0 :: script.drop (skipBlanks script sp + 2) := by
  have before := skipBlanks_lt script sp some
  have least := wordStart_le script (skipBlanks script sp)
  obtain ⟨blanks, allBlank, split, stops⟩ :=
    skipBlanks_spec script (Nat.ne_zero_of_lt before) inside.le
  obtain ⟨field, noBlank, split', begins⟩ := wordStart_spec script (before.le.trans inside.le)
  have whole : script.take (skipBlanks script sp + 1) =
      script.take (wordStart script (skipBlanks script sp)) ++
        (field ++ [script.getD (skipBlanks script sp) 0]) := by
    rw [take_succ_getD (by omega), split', List.append_assoc]
  have length := congrArg List.length split'
  simp only [List.length_append, List.length_take] at length
  refine ⟨field ++ [script.getD (skipBlanks script sp) 0], ?_, ?_⟩
  · rw [split, whole, List.append_assoc]
    refine found_last (fun byte member => ?_) begins allBlank (by simp) fun none => ?_
    · rcases List.mem_append.mp member with member | member
      · exact noBlank byte member
      · rw [List.mem_singleton.mp member]
        exact stops some
    · have start := congrArg List.length none
      simp only [List.length_take, List.length_nil] at start
      rw [List.length_append, List.length_singleton]
      omega
  · rw [List.set_eq_take_append_cons_drop, if_pos (by omega), whole, List.append_assoc,
      List.drop_left' (by rw [List.length_take]; omega)]

/-- The words that are found are prepended, unless the image gets too large. -/
theorem prependWords_spec (interp : Option CString) (inside : sp < script.length)
    (image : WellFormed (first :: argv) envp stack size) :
    (argMax < size + wordBytes (found (script.take sp)) ∧
      (prependWords script sp interp stack size).interp = none ∧
        argMax < (prependWords script sp interp stack size).stkBytes) ∨
    (size + wordBytes (found (script.take sp)) ≤ argMax ∧
      (prependWords script sp interp stack size).interp =
        (found (script.take sp)).head?.or interp ∧
      WellFormed (found (script.take sp) ++ first :: argv) envp
        (prependWords script sp interp stack size).stack
          (prependWords script sp interp stack size).stkBytes) := by
  induction sp using Nat.strong_induction_on generalizing script first argv stack size interp with
  | _ sp inductionHypothesis =>
    rw [prependWords]
    split
    case isFalse none =>
      rw [not_not] at none
      have nothing : found (script.take sp) = [] := by
        rcases Nat.eq_zero_or_pos sp with rfl | positive
        · rfl
        · obtain ⟨blanks, allBlank, split, -⟩ :=
            skipBlanks_spec script positive.ne' inside.le
          rw [split, none, take_succ_getD (by omega)]
          exact found_blank _ allBlank
      obtain ⟨args, envs, layout⟩ := image
      rw [nothing]
      exact .inr ⟨layout.fits, rfl, WellFormed.roundUp ⟨args, envs, layout⟩⟩
    case isTrue some =>
      have before := skipBlanks_lt script sp some
      have least := wordStart_le script (skipBlanks script sp)
      obtain ⟨bytes, split, stored⟩ := turn_spec inside some
      have start := wordStart_set script (Nat.le_succ (skipBlanks script sp)) 0
      have word : CString.ofBytes ((script.set (skipBlanks script sp + 1) 0).drop
          (wordStart script (skipBlanks script sp))) = .ofBytes bytes := by
        rw [stored, CString.ofBytes_append]
      have total : wordBytes (found (script.take sp)) =
          wordBytes (found (script.take (wordStart script (skipBlanks script sp)))) +
            ((CString.ofBytes bytes).strlen + 5) := by
        rw [split, wordBytes, List.map_append, List.sum_append]
        rfl
      simp only [start, word]
      rcases insertArg_insert (.ofBytes bytes) image with
        ⟨large, refused⟩ | ⟨small, stack', accepted, image'⟩
      · rw [refused]
        exact .inl ⟨by omega, rfl, large⟩
      · rw [accepted]
        have inside' : wordStart script (skipBlanks script sp) <
            (script.set (skipBlanks script sp + 1) 0).length := by
          rw [List.length_set]
          omega
        have further := inductionHypothesis _ (least.trans_lt before)
          (Option.some (CString.ofBytes bytes)) inside' image'
        rw [List.take_set_of_le (least.trans (Nat.le_succ _))] at further
        rcases further with ⟨large, refused, grown⟩ | ⟨room, named, started⟩
        · exact .inl ⟨by omega, refused, grown⟩
        · refine .inr ⟨by omega, ?_, ?_⟩
          · rw [named, split]
            cases found (script.take (wordStart script (skipBlanks script sp))) <;> rfl
          · rw [split, List.append_assoc]
            exact started

end Prepend

/-! ### Scripts -/

/-- A script is started as its first line says. `patch_stack` fails if there is no `argv[0]` to
replace, or if the image gets larger than `ARG_MAX`, which `do_exec` reports as ENOMEM. Otherwise
the arguments are the words of the line, the name of the script and the old arguments but the first,
the environment is as before, and the interpreter is the first word. -/
def ScriptStarted (argv envp : List CString) (script : CString) (line : List UInt8)
    (patched : Patched) : Prop :=
  patched.interp = none ∧ (argv = [] ∨ argMax < patched.stkBytes) ∨
    patched.interp = (words line).head? ∧
      WellFormed (words line ++ script :: argv.tail) envp patched.stack patched.stkBytes

/-- The first word is one character right behind the `#!`, and there is room for the other words. -/
def Misread (argv : List CString) (script : CString) (line : List UInt8) (size : Nat) : Prop :=
  oneChar line = true ∧ ∃ first rest, argv = first :: rest ∧
    size + script.strlen + wordBytes (found line) ≤ argMax + first.strlen

section Script

variable {argv argv' envp envp' : List CString} {stack line rest : List UInt8} {size size' : Nat}
  {script : CString}

theorem WellFormed.argc (image : WellFormed argv envp stack size)
    (image' : WellFormed argv' envp' stack size') :
    UInt32.ofNat argv.length = UInt32.ofNat argv'.length := by
  have count {argv envp : List CString} {size : Nat} (image : WellFormed argv envp stack size) :
      loadWord stack 0 = .ofNat argv.length := by
    obtain ⟨args, envs, layout⟩ := image
    obtain ⟨tail, rfl⟩ := layout.table
    exact loadWord_zero
  rw [← count image, count image']

theorem WellFormed.strlen_le {first : CString}
    (image : WellFormed (first :: argv) envp stack size) : first.strlen ≤ size := by
  obtain ⟨args, envs, layout⟩ := image
  cases layout.argStrings with
  | cons held _ =>
    have inside := held.inside
    rw [first.length_stored] at inside
    omega

theorem words_of_oneChar (one : oneChar line = true) :
    ∃ word, words line = word :: found line := by
  cases line with
  | nil => cases one
  | cons byte line =>
    have found_eq : found (byte :: line) = words line := by rw [found, if_pos one, List.drop_one,
      List.tail_cons]
    rw [found_eq]
    rw [oneChar, Bool.and_eq_true, Bool.not_eq_true'] at one
    have alone : fields isBlank [byte] = [[byte]] :=
      fields_of_field (List.cons_ne_nil _ _) fun other member =>
        (List.mem_singleton.mp member) ▸ one.1
    refine ⟨.ofBytes [byte], ?_⟩
    cases line with
    | nil => rw [words, alone]; rfl
    | cons next line =>
      have blank : isBlank next = true := one.2
      have front := @fields_append_cons _ isBlank [byte] line next blank
      have back := @fields_append_cons _ isBlank [] line next blank
      rw [alone] at front
      rw [fields_nil] at back
      rw [words, words, show byte :: next :: line = [byte] ++ next :: line from rfl, front,
        show next :: line = [] ++ next :: line from rfl, back]
      rfl

theorem patchStack_spec (script : CString) (rest : List UInt8) {first : CString}
    (image : WellFormed (first :: argv) envp stack size)
    (text : newline ∉ line) :
    (argMax + first.strlen < size + script.strlen + wordBytes (found line) ∧
      (patchStack stack size script (some (line ++ newline :: rest))).interp = none ∧
        argMax < (patchStack stack size script (some (line ++ newline :: rest))).stkBytes) ∨
    (size + script.strlen + wordBytes (found line) ≤ argMax + first.strlen ∧
      (patchStack stack size script (some (line ++ newline :: rest))).interp =
        (found line).head? ∧
      WellFormed (found line ++ script :: argv) envp
        (patchStack stack size script (some (line ++ newline :: rest))).stack
          (patchStack stack size script (some (line ++ newline :: rest))).stkBytes) := by
  have position : (line ++ newline :: rest).idxOf? newline = some line.length := by
    rw [List.idxOf?_eq_some_iff]
    refine ⟨by simp, by simp, fun i before => ?_⟩
    rw [List.getElem_append_left before]
    exact fun same => text (same ▸ List.getElem_mem before)
  have inImage := image.strlen_le
  rw [patchStack]
  rcases insertArg_replace script image with
    ⟨large, refused⟩ | ⟨small, stack', accepted, image'⟩
  · rw [refused]
    exact .inl ⟨by omega, rfl, large⟩
  · rw [accepted]
    have inside : line.length < (line ++ newline :: rest).length := by simp
    have prepended := prependWords_spec none inside image'
    rw [List.take_left] at prepended
    simp only [position]
    rcases prepended with ⟨large, refused, grown⟩ | ⟨room, named, started⟩
    · exact .inl ⟨by omega, refused, grown⟩
    · exact .inr ⟨by omega, by rw [named, Option.or_none], started⟩

theorem not_scriptStarted_of_misread (rest : List UInt8) (image : WellFormed argv envp stack size)
    (text : newline ∉ line) (misread : Misread argv script line size) :
    ¬ScriptStarted argv envp script line
      (patchStack stack size script (some (line ++ newline :: rest))) := by
  obtain ⟨one, first, others, rfl, room⟩ := misread
  obtain ⟨word, all⟩ := words_of_oneChar one
  rcases patchStack_spec script rest image text with ⟨large, -⟩ | ⟨-, -, started⟩
  · omega
  rintro (⟨-, none | grown⟩ | ⟨-, started'⟩)
  · cases none
  · obtain ⟨args, envs, layout⟩ := started
    exact absurd layout.fits (not_le.mpr grown)
  · have counts := congrArg UInt32.toNat (started.argc started')
    rw [all] at counts
    simp only [List.length_append, List.length_cons, UInt32.toNat_ofNat', List.tail_cons] at counts
    omega

/-- A script is started as its first line says if and only if the line is not misread. -/
theorem script_started_iff (image : WellFormed argv envp stack size) (text : newline ∉ line) :
    ScriptStarted argv envp script line
        (patchStack stack size script (some (line ++ newline :: rest))) ↔
      ¬Misread argv script line size := by
  refine ⟨fun started misread => not_scriptStarted_of_misread rest image text misread started,
    fun rightly => ?_⟩
  cases argv with
  | nil =>
    obtain ⟨args, envs, layout⟩ := image
    cases layout.argStrings with
    | nil =>
      obtain ⟨tail, rfl⟩ := layout.table
      have loaded : loadWord (ofWords (pointerTable 0 [] envs) ++ tail) ptrSize = 0 :=
        @loadWord_middle (ofWord 0) (ofWords (envs ++ [0]) ++ tail) 0
      refine .inl ⟨?_, .inl rfl⟩
      rw [patchStack, insertArg]
      simp only [List.length_nil, loaded]
      rfl
  | cons first others =>
    rcases patchStack_spec script rest image text with ⟨large, failed, grown⟩ |
      ⟨room, named, started⟩
    · exact .inl ⟨failed, .inr grown⟩
    · have all : found line = words line := by
        refine if_neg fun one => rightly ⟨one, first, others, rfl, room⟩
      rw [all] at named started
      exact .inr ⟨named, started⟩

end Script

/-- The image of a program that is called with its name only. -/
def nameImage (name : CString) : List UInt8 :=
  ofWords (pointerTable 1 [16] []) ++ [] ++
    ((name.stored ++ []) ++ List.replicate (argMax - (16 + name.stored.length)) 0)

theorem nameImage_wellFormed (name : CString) (short : name.strlen < 255) :
    WellFormed [name] [] (nameImage name) (16 + name.stored.length) := by
  have stored := name.length_stored
  refine ⟨[16], [], Layout.of_parts ?_ rfl ?_ .nil .nil⟩
  · simp only [List.length_append, List.length_replicate, length_pointerTable, argMax,
      List.length_nil, List.length_cons]
    omega
  · rw [List.append_nil]
    rfl

/-- A script of the shell. -/
theorem script_started_sh :
    ScriptStarted [.ofBytes [120]] [] (.ofBytes [115, 99]) [47, 98, 105, 110, 47, 115, 104]
      (patchStack (nameImage (.ofBytes [120])) 18 (.ofBytes [115, 99])
        (some ([47, 98, 105, 110, 47, 115, 104] ++ newline :: []))) := by
  refine (script_started_iff (nameImage_wellFormed (.ofBytes [120]) (by decide)) (by decide)).mpr ?_
  rintro ⟨one, -⟩
  cases one

/-- The line `#!a b` names `a` as the interpreter. `patch_stack` takes `b`. -/
theorem script_misread :
    ¬∀ (argv envp : List CString) (stack : List UInt8) (size : Nat) (script : CString)
        (line rest : List UInt8), WellFormed argv envp stack size → newline ∉ line →
      ScriptStarted argv envp script line
        (patchStack stack size script (some (line ++ newline :: rest))) := by
  intro claimed
  have image := nameImage_wellFormed (.ofBytes [120]) (by decide)
  refine not_scriptStarted_of_misread [] image (by decide) ?_
    (claimed _ _ _ _ (.ofBytes [115, 99]) [97, 32, 98] [] image (by decide))
  exact ⟨rfl, _, _, rfl, by decide⟩

end Minix.Mm
