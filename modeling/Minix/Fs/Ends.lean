/-
This file describes who has the ends of a pipe open and what is in the pipe, and proves what
making, sharing and giving up a descriptor does to that.

`Files` is the part of the state that is not about suspended processes. Every filp is counted by
the descriptors that refer to it, every inode by its filps. A pipe has at most one filp for each
end; the writer's position is the end of the data, and the bytes from the reader's position on
are the bytes that were written and not yet taken. While nobody has the read end open, the
position in the inode takes the place of the reader's.
-/

import Mathlib.Data.Fintype.Prod
import Mathlib.Data.Fintype.Sigma
import Mathlib.Data.Fintype.Sum
import Mathlib.Tactic.DeriveFintype
import Minix.Fs.Open
import Minix.Fs.Waits

namespace Minix.Fs

open Function (update update_of_ne update_self)

/-! ### The files -/

/-- What refers to an inode besides the filps: the directories of a process, and the file that a
file system in use is mounted on and its root. In the middle of a call, the call itself has up to
two inodes in hand. -/
inductive Keeper
  | dir (p : Slot) (dir : Dir)
  | mounted (sp : SuperNr)
  | root (sp : SuperNr)
  | hand (nr : Fin 2)
  deriving DecidableEq, Fintype

/-- The tables without the suspended processes, and what went through the pipes. -/
structure Files where
  refers : Slot × Fd → Option FilpNr
  filp : FilpNr → Filp
  keeps : Keeper → Option InodeNr
  inode : InodeNr → Inode
  written : InodeNr → List UInt8
  taken : InodeNr → List UInt8

/-- The inode that a directory or a mounted file system keeps in use. -/
def State.keeps (s : State) : Keeper → Option InodeNr
  | .dir p dir => (s.fproc p).dir dir
  | .mounted sp => if (s.superBlock sp).sDev.isSome then (s.superBlock sp).sImount else none
  | .root sp => if (s.superBlock sp).sDev.isSome then (s.superBlock sp).sIsup else none
  | .hand _ => none

/-- The files of a state. -/
def State.files (s : State) : Files where
  refers x := (s.fproc x.1).fpFilp x.2
  filp := s.filp
  keeps := s.keeps
  inode := s.inode
  written := s.history.written
  taken := s.history.taken

namespace Files

/-- The inode that an open filp refers to. -/
def holds (t : Files) (f : FilpNr) : Option InodeNr :=
  if (t.filp f).filpCount = 0 then none else some (t.filp f).filpIno

/-- A filp has the end of a pipe open. -/
def Open (t : Files) (f : FilpNr) (rip : InodeNr) (bits : RwFlag) : Prop :=
  t.holds f = some rip ∧ (t.filp f).filpMode bits = true

/-- What a reader at the given position finds: the bytes that were not taken yet. A pipe without
data is empty. -/
structure Front (t : Files) (rip : InodeNr) (position : Nat) : Prop where
  carries : Tape.Carries (t.written rip) (t.taken rip) (t.inode rip).contents position
    (t.inode rip).iSize
  rewound : position = (t.inode rip).iSize → (t.inode rip).iSize = 0

/-- A pipe and its ends. -/
structure PipeOk (t : Files) (rip : InodeNr) : Prop where
  oneEnd : ∀ f, t.holds f = some rip →
    (t.filp f).filpMode .writing = !(t.filp f).filpMode .reading
  sole : ∀ f g bits, t.Open f rip bits → t.Open g rip bits → f = g
  back : ∀ f, t.Open f rip .writing →
    (t.filp f).filpFlags.append = true ∨ (t.filp f).filpPos = (t.inode rip).iSize
  reader : ∀ f, t.Open f rip .reading → Front t rip (t.filp f).filpPos
  saved : (∀ f, ¬ t.Open f rip .reading) → Front t rip (t.inode rip).readPos

/-- Every filp and every inode is counted, and only inodes in use are pipes. If everybody is
`strict` about the ends of FIFOs, the pipes are in order. -/
structure Ends (strict : Prop) (t : Files) : Prop where
  counted : ∀ f, (t.filp f).filpCount = References.count t.refers f
  users : ∀ rip,
    (t.inode rip).iCount = References.count t.holds rip + References.count t.keeps rip
  used : ∀ rip, (t.inode rip).iPipe = true → (t.inode rip).iCount ≠ 0
  pipes : strict → ∀ rip, (t.inode rip).iPipe = true → PipeOk t rip

variable {strict : Prop} {t t' : Files} {f g : FilpNr} {rip : InodeNr}
    {bits : RwFlag} {x : Slot × Fd}

theorem holds_eq_some : t.holds f = some rip ↔
    (t.filp f).filpCount ≠ 0 ∧ (t.filp f).filpIno = rip := by
  simp [holds]

theorem holds_congr (filp : t'.filp = t.filp) : t'.holds = t.holds := by
  funext f
  unfold holds
  rw [filp]

theorem holds_eq_none : t.holds f = none ↔ (t.filp f).filpCount = 0 := by
  simp [holds]

theorem hasEnd_iff {s : State} : s.HasEnd rip bits ↔ ∃ f, s.files.Open f rip bits := by
  simp [State.HasEnd, Open, holds_eq_some, State.files, and_assoc]

theorem Ends.refers_open (ends : Ends strict t) (refers : t.refers x = some f) :
    (t.filp f).filpCount ≠ 0 := by
  rw [ends.counted]
  exact References.count_ne_zero.mpr ⟨x, refers⟩

theorem Ends.holds_used (ends : Ends strict t) (holds : t.holds f = some rip) :
    (t.inode rip).iCount ≠ 0 := by
  have held := References.count_ne_zero.mpr ⟨f, holds⟩
  rw [ends.users]
  omega

theorem Front.congr {position : Nat} (front : Front t rip position)
    (written : t'.written rip = t.written rip) (taken : t'.taken rip = t.taken rip)
    (contents : (t'.inode rip).contents = (t.inode rip).contents)
    (iSize : (t'.inode rip).iSize = (t.inode rip).iSize) : Front t' rip position := by
  refine ⟨?_, ?_⟩ <;> simp only [written, taken, contents, iSize]
  · exact front.carries
  · exact front.rewound

theorem PipeOk.congr (pipe : PipeOk t rip)
    (written : t'.written rip = t.written rip) (taken : t'.taken rip = t.taken rip)
    (contents : (t'.inode rip).contents = (t.inode rip).contents)
    (iSize : (t'.inode rip).iSize = (t.inode rip).iSize)
    (readPos : (t'.inode rip).readPos = (t.inode rip).readPos)
    (holds : ∀ f, t'.holds f = some rip ↔ t.holds f = some rip)
    (entries : ∀ f, t.holds f = some rip → (t'.filp f).filpMode = (t.filp f).filpMode ∧
      (t'.filp f).filpPos = (t.filp f).filpPos ∧
      ((t.filp f).filpMode .writing = true → (t.filp f).filpFlags.append = true →
        (t'.filp f).filpFlags.append = true ∨ (t.filp f).filpPos = (t.inode rip).iSize)) :
    PipeOk t' rip := by
  have opens : ∀ {f bits}, t'.Open f rip bits ↔ t.Open f rip bits := by
    intro f bits
    simp only [Open, holds]
    refine and_congr_right fun held => ?_
    rw [(entries f held).1]
  refine ⟨fun f held => ?_, fun f g bits first second => ?_, fun f opened => ?_,
    fun f opened => ?_, fun closed => ?_⟩
  · rw [holds] at held
    rw [(entries f held).1]
    exact pipe.oneEnd f held
  · exact pipe.sole f g bits (opens.mp first) (opens.mp second)
  · obtain ⟨held, mode⟩ := opens.mp opened
    obtain ⟨-, position, append⟩ := entries f held
    rw [position, iSize]
    rcases pipe.back f ⟨held, mode⟩ with appends | atEnd
    · exact append mode appends
    · exact .inr atEnd
  · rw [(entries f (opens.mp opened).1).2.1]
    exact (pipe.reader f (opens.mp opened)).congr written taken contents iSize
  · rw [readPos]
    exact (pipe.saved fun f opened => closed f (opens.mpr opened)).congr written
      taken contents iSize

/-! ### One descriptor changes -/

section

variable (ends : Ends strict t)
include ends

/-- The entry of a filp may change if an open one stays what it is. Its flags may change too, if
writers keep appending. -/
theorem Ends.setFilp {refers : Slot × Fd → Option FilpNr} {entry : Filp}
    (counted : ∀ g, (update t.filp f entry g).filpCount = References.count refers g)
    (opened : entry.filpCount = 0 ↔ (t.filp f).filpCount = 0)
    (kept : (t.filp f).filpCount ≠ 0 →
      entry.filpIno = (t.filp f).filpIno ∧ entry.filpMode = (t.filp f).filpMode ∧
      entry.filpPos = (t.filp f).filpPos)
    (append : strict → ∀ rip, t.Open f rip .writing → (t.inode rip).iPipe = true →
      (t.filp f).filpFlags.append = true →
      entry.filpFlags.append = true ∨ (t.filp f).filpPos = (t.inode rip).iSize) :
    Ends strict { t with refers, filp := update t.filp f entry } := by
  have sameHolds : holds { t with refers, filp := update t.filp f entry } = t.holds := by
    funext g
    by_cases same : g = f
    · subst same
      by_cases closed : (t.filp g).filpCount = 0
      · simp [holds, closed, opened.mpr closed]
      · simp [holds, closed, mt opened.mp closed, (kept closed).1]
    · simp [holds, same]
  refine ⟨counted, fun rip => ?_, ends.used, fun allowed rip isPipe => ?_⟩
  · rw [sameHolds]
    exact ends.users rip
  · refine (ends.pipes allowed rip isPipe).congr rfl rfl rfl rfl rfl
      (fun g => by rw [sameHolds]) fun g held => ?_
    dsimp only
    by_cases same : g = f
    · subst same
      obtain ⟨-, mode, position⟩ := kept (holds_eq_some.mp held).1
      rw [update_self]
      exact ⟨mode, position, fun writes => append allowed rip ⟨held, writes⟩ isPipe⟩
    · rw [update_of_ne same]
      exact ⟨rfl, rfl, fun _ appends => .inl appends⟩

/-- Another descriptor refers to an open filp. Its flags may change, if writers keep
appending. -/
theorem Ends.share (free : t.refers x = none) (opened : (t.filp f).filpCount ≠ 0) {flags : Flags}
    (append : strict → (t.inode (t.filp f).filpIno).iPipe = true →
      (t.filp f).filpMode .writing = true → (t.filp f).filpFlags.append = true →
      flags.append = true ∨ (t.filp f).filpPos = (t.inode (t.filp f).filpIno).iSize) :
    Ends strict { t with
      refers := update t.refers x (some f)
      filp := update t.filp f
        { t.filp f with filpCount := (t.filp f).filpCount + 1, filpFlags := flags } } := by
  refine ends.setFilp (fun g => ?_) (by simp [opened]) (fun _ => ⟨rfl, rfl, rfl⟩)
    fun allowed rip writes isPipe => ?_
  · rw [References.count_attach free]
    by_cases same : g = f
    · subst same
      rw [update_self, if_pos rfl, ← ends.counted]
    · rw [update_of_ne same, if_neg same, ends.counted, Nat.add_zero]
  · obtain ⟨-, rfl⟩ := holds_eq_some.mp writes.1
    exact append allowed isPipe writes.2

theorem Ends.scribble (closed : (t.filp f).filpCount = 0) {entry : Filp}
    (stays : entry.filpCount = 0) : Ends strict { t with filp := update t.filp f entry } := by
  refine ends.setFilp (fun g => ?_) (by simp [closed, stays]) (fun opened => absurd closed opened)
    fun _ _ writes => absurd closed (holds_eq_some.mp writes.1).1
  by_cases same : g = f
  · subst same
    rw [update_self, stays, ← ends.counted, closed]
  · rw [update_of_ne same, ends.counted]

theorem Ends.setFlags {flags : Flags}
    (append : strict → ∀ rip, t.Open f rip .writing → (t.inode rip).iPipe = true →
      flags.append = true ∨ (t.filp f).filpPos = (t.inode rip).iSize) :
    Ends strict { t with filp := update t.filp f { t.filp f with filpFlags := flags } } := by
  refine ends.setFilp (fun g => ?_) Iff.rfl (fun _ => ⟨rfl, rfl, rfl⟩)
    fun allowed rip writes isPipe _ => append allowed rip writes isPipe
  by_cases same : g = f
  · subst same
    rw [update_self, ← ends.counted]
  · rw [update_of_ne same, ends.counted]

end

/-! ### Filps are made and given up -/

theorem Ends.load (ends : Ends strict t) (unused : (t.inode rip).iCount = 0) {entry : Inode}
    (stays : entry.iCount = 0) (noPipe : entry.iPipe = false) (written taken : List UInt8) :
    Ends strict { t with
      inode := update t.inode rip entry
      written := update t.written rip written
      taken := update t.taken rip taken } := by
  have others : ∀ {other}, (update t.inode rip entry other).iPipe = true → other ≠ rip := by
    rintro other isPipe rfl
    rw [update_self, noPipe] at isPipe
    cases isPipe
  refine ⟨ends.counted, fun other => ?_, fun other isPipe => ?_, fun allowed other isPipe => ?_⟩
  · change (update t.inode rip entry other).iCount =
      References.count t.holds other + References.count t.keeps other
    rw [← ends.users]
    by_cases same : other = rip
    · subst same
      rw [update_self, stays, unused]
    · rw [update_of_ne same]
  · have other := others isPipe
    dsimp only at isPipe ⊢
    rw [update_of_ne other] at isPipe ⊢
    exact ends.used _ isPipe
  · have distinct := others isPipe
    dsimp only at isPipe
    rw [update_of_ne distinct] at isPipe
    refine (ends.pipes allowed other isPipe).congr ?_ ?_ ?_ ?_ ?_ (fun _ => Iff.rfl)
      fun g _ => ⟨rfl, rfl, fun _ appends => .inl appends⟩ <;>
    simp only [update_of_ne distinct]

theorem PipeOk.fresh (unused : References.count t.holds rip = 0) (iSize : (t.inode rip).iSize = 0)
    (readPos : (t.inode rip).readPos = 0) (written : t.written rip = [])
    (taken : t.taken rip = []) : PipeOk t rip := by
  have closed : ∀ f, t.holds f ≠ some rip := References.count_eq_zero.mp unused
  refine ⟨fun f held => absurd held (closed f), fun f _ _ opened => absurd opened.1 (closed f),
    fun f opened => absurd opened.1 (closed f), fun f opened => absurd opened.1 (closed f),
    fun _ => ⟨?_, fun _ => iSize⟩⟩
  rw [written, taken, iSize, readPos]
  exact Tape.Carries.fresh _

section

variable (filps : ∀ g ≠ f, t'.filp g = t.filp g) (written : t'.written rip = t.written rip)
  (taken : t'.taken rip = t.taken rip)
include filps

theorem holds_other (other : g ≠ f) : t'.holds g = t.holds g := by
  unfold holds
  rw [filps g other]

theorem open_other (other : g ≠ f) : t'.Open g rip bits ↔ t.Open g rip bits := by
  rw [Open, Open, holds_other filps other, filps g other]

include written taken

/-- A pipe of which the filp has no end open stays in order. -/
theorem PipeOk.elsewhere (pipe : PipeOk t rip) (before : t.holds f ≠ some rip)
    (after : t'.holds f ≠ some rip) (inode : t'.inode rip = t.inode rip) : PipeOk t' rip := by
  refine pipe.congr written taken (by rw [inode]) (by rw [inode]) (by rw [inode]) (fun g => ?_)
    fun g held => ?_
  · by_cases same : g = f
    · subst same
      exact iff_of_false after before
    · rw [holds_other filps same]
  · rw [filps g fun same => before (same ▸ held)]
    exact ⟨rfl, rfl, fun _ appends => .inl appends⟩

variable (contents : (t'.inode rip).contents = (t.inode rip).contents)
  (iSize : (t'.inode rip).iSize = (t.inode rip).iSize)
include contents iSize

/-- A filp opens an end of a pipe that nobody else has open. -/
theorem PipeOk.attach (pipe : PipeOk t rip) (closed : t.holds f = none)
    (readPos : (t'.inode rip).readPos = (t.inode rip).readPos)
    (oneEnd : (t'.filp f).filpMode .writing = (!(t'.filp f).filpMode .reading))
    (sole : ∀ g bits, (t'.filp f).filpMode bits = true → ¬ t.Open g rip bits)
    (back : (t'.filp f).filpMode .writing = true → (t'.filp f).filpFlags.append = true ∨
      (t'.filp f).filpPos = (t'.inode rip).iSize)
    (reader : (t'.filp f).filpMode .reading = true →
      (t'.filp f).filpPos = (t'.inode rip).readPos) : PipeOk t' rip := by
  have opens {g : FilpNr} {bits : RwFlag} : g ≠ f → (t'.Open g rip bits ↔ t.Open g rip bits) :=
    open_other filps
  refine ⟨fun g held => ?_, fun g h bits first second => ?_, fun g opened => ?_,
    fun g opened => ?_, fun none => ?_⟩
  · by_cases other : g = f
    · rw [other]
      exact oneEnd
    · rw [filps g other]
      exact pipe.oneEnd g (holds_other filps other ▸ held)
  · by_cases otherG : g = f <;> by_cases otherH : h = f
    · rw [otherG, otherH]
    · subst otherG
      exact absurd ((opens otherH).mp second) (sole h bits first.2)
    · subst otherH
      exact absurd ((opens otherG).mp first) (sole g bits second.2)
    · exact pipe.sole g h bits ((opens otherG).mp first) ((opens otherH).mp second)
  · by_cases other : g = f
    · subst other
      exact back opened.2
    · rw [filps g other, iSize]
      exact pipe.back g ((opens other).mp opened)
  · by_cases other : g = f
    · subst other
      rw [reader opened.2, readPos]
      exact (pipe.saved fun h => sole h .reading opened.2).congr written taken contents iSize
    · rw [filps g other]
      exact (pipe.reader g ((opens other).mp opened)).congr written taken contents iSize
  · rw [readPos]
    refine (pipe.saved fun g opened => none g ((opens ?_).mpr opened)).congr written taken
      contents iSize
    rintro rfl
    rw [Open, closed] at opened
    cases opened.1

/-- A filp gives up an end of a pipe. The position of a reader is saved in the inode. -/
theorem PipeOk.detach (pipe : PipeOk t rip) (held : t.holds f = some rip)
    (closed : t'.holds f = none) (readPos : (t'.inode rip).readPos =
      if (t.filp f).filpMode .reading then (t.filp f).filpPos else (t.inode rip).readPos) :
    PipeOk t' rip := by
  have apart {g : FilpNr} (holds : t'.holds g = some rip) : g ≠ f := by
    rintro rfl
    rw [closed] at holds
    cases holds
  have opens {g : FilpNr} {bits : RwFlag} (opened : t'.Open g rip bits) : t.Open g rip bits :=
    (open_other filps (apart opened.1)).mp opened
  refine ⟨fun g holds => ?_, fun g h bits first second => ?_, fun g opened => ?_,
    fun g opened => ?_, fun none => ?_⟩
  · rw [filps g (apart holds)]
    exact pipe.oneEnd g (holds_other filps (apart holds) ▸ holds)
  · exact pipe.sole g h bits (opens first) (opens second)
  · rw [filps g (apart opened.1), iSize]
    exact pipe.back g (opens opened)
  · rw [filps g (apart opened.1)]
    exact (pipe.reader g (opens opened)).congr written taken contents iSize
  · rw [readPos]
    by_cases reads : (t.filp f).filpMode .reading = true
    · rw [if_pos reads]
      exact (pipe.reader f ⟨held, reads⟩).congr written taken contents iSize
    · rw [if_neg reads]
      refine (pipe.saved fun g opened => none g ((open_other filps ?_).mpr opened)).congr written
        taken contents iSize
      rintro rfl
      exact reads opened.2

end

/-- A filp for an inode: the end of a pipe that nobody else has open, or any file else. -/
theorem Ends.attach (ends : Ends strict t) (free : t.refers x = none)
    (closed : (t.filp f).filpCount = 0)
    {entry : Filp} (one : entry.filpCount = 1) {inode : Inode}
    (counts : inode.iCount = (t.inode entry.filpIno).iCount + 1)
    (pipe : strict → inode.iPipe = true → PipeOk t entry.filpIno ∧
      entry.filpMode .writing = (!entry.filpMode .reading) ∧
      (∀ g bits, entry.filpMode bits = true → ¬ t.Open g entry.filpIno bits) ∧
      (entry.filpMode .writing = true → entry.filpFlags.append = true ∨
        entry.filpPos = inode.iSize) ∧
      (entry.filpMode .reading = true → entry.filpPos = inode.readPos) ∧
      inode.iSize = (t.inode entry.filpIno).iSize ∧
      inode.contents = (t.inode entry.filpIno).contents ∧
      inode.readPos = (t.inode entry.filpIno).readPos) :
    Ends strict { t with
      refers := update t.refers x (some f)
      filp := update t.filp f entry
      inode := update t.inode entry.filpIno inode } := by
  let t' : Files := { t with
    refers := update t.refers x (some f)
    filp := update t.filp f entry
    inode := update t.inode entry.filpIno inode }
  have before : t.holds f = none := holds_eq_none.mpr closed
  have filps : ∀ g ≠ f, t'.filp g = t.filp g := fun g other => update_of_ne other _ _
  have fresh : t'.filp f = entry := update_self _ _ _
  have held : t'.holds f = some entry.filpIno := by
    rw [holds, fresh, one, if_neg Nat.one_ne_zero]
  have holds' : t'.holds = update t.holds f (some entry.filpIno) := by
    funext g
    by_cases same : g = f
    · rw [same, held, update_self]
    · rw [holds_other filps same, update_of_ne same]
  refine ⟨fun g => ?_, fun rip => ?_, fun rip isPipe => ?_, fun allowed rip isPipe => ?_⟩
  · change (t'.filp g).filpCount = _
    rw [References.count_attach free]
    by_cases same : g = f
    · subst same
      rw [fresh, one, if_pos rfl, ← ends.counted, closed]
    · rw [filps g same, if_neg same, ends.counted, Nat.add_zero]
  · have users := ends.users rip
    change (update t.inode entry.filpIno inode rip).iCount =
      References.count t'.holds rip + References.count t.keeps rip
    rw [holds', References.count_attach before]
    by_cases same : rip = entry.filpIno
    · subst same
      rw [update_self, if_pos rfl]
      omega
    · rw [update_of_ne same, if_neg same]
      exact users
  · by_cases same : rip = entry.filpIno
    · subst same
      simp [counts]
    · simp only [update_of_ne same] at isPipe ⊢
      exact ends.used rip isPipe
  · change PipeOk t' rip
    change (t'.inode rip).iPipe = true at isPipe
    by_cases same : rip = entry.filpIno
    · subst same
      have loaded : t'.inode entry.filpIno = inode := update_self _ _ _
      rw [loaded] at isPipe
      obtain ⟨ok, oneEnd, sole, back, reader, iSize, contents, readPos⟩ := pipe allowed isPipe
      refine .attach filps rfl rfl ?_ ?_ ok before ?_ ?_ ?_ ?_ ?_ <;>
        simpa only [loaded, fresh]
    · have inode' : t'.inode rip = t.inode rip := update_of_ne same _ _
      rw [inode'] at isPipe
      refine .elsewhere filps rfl rfl (ends.pipes allowed rip isPipe) ?_ ?_ inode'
      · rw [before]
        nofun
      · rw [held]
        exact fun equal => same (Option.some.inj equal).symm

theorem Ends.detach (ends : Ends strict t) (refers : t.refers x = some f)
    (more : (t.filp f).filpCount - 1 ≠ 0) :
    Ends strict { t with
      refers := update t.refers x none
      filp := update t.filp f { t.filp f with filpCount := (t.filp f).filpCount - 1 } } := by
  have opened := ends.refers_open refers
  refine ends.setFilp (fun g => ?_) (by simp [more, opened]) (fun _ => ⟨rfl, rfl, rfl⟩)
    fun _ _ _ _ => .inl
  have counts := References.count_detach refers g
  rw [← ends.counted] at counts
  by_cases same : g = f
  · subst same
    rw [if_pos rfl] at counts
    rw [update_self]
    dsimp only
    omega
  · rw [if_neg same] at counts
    rw [update_of_ne same]
    omega

/-- The last descriptor of a filp is given up, and with it one use of the inode. If the inode
stays in use as a pipe, the position of a reader has been saved. -/
theorem Ends.detach_last (ends : Ends strict t) (refers : t.refers x = some f)
    (held : t.holds f = some rip) (last : (t.filp f).filpCount = 1) {entry : Filp}
    (stays : entry.filpCount = 0) {inode : Inode} (counts : inode.iCount + 1 = (t.inode rip).iCount)
    (used : inode.iPipe = true → inode.iCount ≠ 0)
    (pipe : strict → inode.iPipe = true → (t.inode rip).iPipe = true ∧
      inode.iSize = (t.inode rip).iSize ∧ inode.contents = (t.inode rip).contents ∧
      inode.readPos =
        if (t.filp f).filpMode .reading then (t.filp f).filpPos else (t.inode rip).readPos) :
    Ends strict { t with
      refers := update t.refers x none
      filp := update t.filp f entry
      inode := update t.inode rip inode } := by
  let t' : Files := { t with
    refers := update t.refers x none
    filp := update t.filp f entry
    inode := update t.inode rip inode }
  have filps : ∀ g ≠ f, t'.filp g = t.filp g := fun g other => update_of_ne other _ _
  have closed : t'.holds f = none := by
    rw [holds_eq_none, show t'.filp f = entry from update_self _ _ _, stays]
  have holds' : t'.holds = update t.holds f none := by
    funext g
    by_cases same : g = f
    · rw [same, closed, update_self]
    · rw [holds_other filps same, update_of_ne same]
  refine ⟨fun g => ?_, fun other => ?_, fun other isPipe => ?_, fun allowed other isPipe => ?_⟩
  · have counted := References.count_detach refers g
    rw [← ends.counted] at counted
    change (t'.filp g).filpCount = References.count (update t.refers x none) g
    by_cases same : g = f
    · subst same
      rw [show t'.filp g = entry from update_self _ _ _, stays]
      rw [if_pos rfl, last] at counted
      omega
    · rw [filps g same]
      rw [if_neg same] at counted
      omega
  · have counted := References.count_detach held other
    have users := ends.users other
    change (update t.inode rip inode other).iCount =
      References.count t'.holds other + References.count t.keeps other
    rw [holds']
    by_cases same : other = rip
    · subst same
      rw [update_self]
      rw [if_pos rfl] at counted
      omega
    · rw [update_of_ne same]
      rw [if_neg same] at counted
      omega
  · change (t'.inode other).iPipe = true at isPipe
    change (t'.inode other).iCount ≠ 0
    by_cases same : other = rip
    · subst same
      rw [show t'.inode other = inode from update_self _ _ _] at isPipe ⊢
      exact used isPipe
    · rw [show t'.inode other = t.inode other from update_of_ne same _ _] at isPipe ⊢
      exact ends.used other isPipe
  · change (t'.inode other).iPipe = true at isPipe
    change PipeOk t' other
    by_cases same : other = rip
    · subst same
      have loaded : t'.inode other = inode := update_self _ _ _
      rw [loaded] at isPipe
      obtain ⟨wasPipe, iSize, contents, readPos⟩ := pipe allowed isPipe
      refine .detach filps rfl rfl ?_ ?_ (ends.pipes allowed other wasPipe) held closed ?_ <;>
        rwa [loaded]
    · have inode' : t'.inode other = t.inode other := update_of_ne same _ _
      rw [inode'] at isPipe
      refine .elsewhere filps rfl rfl (ends.pipes allowed other isPipe) ?_ ?_ inode'
      · rw [held]
        exact fun equal => same (Option.some.inj equal).symm
      · rw [closed]
        nofun

/-! ### Inodes are kept and given up -/

section

variable (ends : Ends strict t)
include ends

theorem Ends.rekeep {keeps : Keeper → Option InodeNr}
    (same : ∀ rip, References.count keeps rip = References.count t.keeps rip) :
    Ends strict { t with keeps } :=
  ⟨ends.counted, fun rip => (ends.users rip).trans (by rw [same]; rfl), ends.used,
    fun allowed rip isPipe => (ends.pipes allowed rip isPipe).congr rfl rfl rfl rfl rfl
      (fun _ => Iff.rfl)
      fun _ _ => ⟨rfl, rfl, fun _ appends => .inl appends⟩⟩

theorem Ends.keep {keeper : Keeper} (free : t.keeps keeper = none) (rip : InodeNr) :
    Ends strict { t with
      keeps := update t.keeps keeper (some rip)
      inode := update t.inode rip { t.inode rip with iCount := (t.inode rip).iCount + 1 } } := by
  have inodes : ∀ other,
      update t.inode rip { t.inode rip with iCount := (t.inode rip).iCount + 1 } other =
        { t.inode other with
          iCount := (t.inode other).iCount + if other = rip then 1 else 0 } := by
    intro other
    by_cases same : other = rip
    · subst same
      rw [update_self, if_pos rfl]
    · rw [update_of_ne same, if_neg same, Nat.add_zero]
  refine ⟨ends.counted, fun other => ?_, fun other isPipe => ?_, fun allowed other isPipe => ?_⟩ <;>
    dsimp only at * <;> rw [inodes] at *
  · rw [References.count_attach free]
    change (t.inode other).iCount + _ = References.count t.holds other + _
    rw [ends.users, Nat.add_assoc]
  · have used := ends.used other isPipe
    dsimp only
    omega
  · refine (ends.pipes allowed other isPipe).congr rfl rfl ?_ ?_ ?_ (fun _ => Iff.rfl)
      fun _ _ => ⟨rfl, rfl, fun _ appends => .inl appends⟩ <;> dsimp only <;> rw [inodes]

theorem Ends.drop {keeper : Keeper} (kept : t.keeps keeper = some rip) {inode : Inode}
    (counts : inode.iCount + 1 = (t.inode rip).iCount)
    (used : inode.iPipe = true → inode.iCount ≠ 0)
    (pipe : inode.iPipe = true →
      (t.inode rip).iPipe = true ∧ inode.iSize = (t.inode rip).iSize ∧
      inode.contents = (t.inode rip).contents ∧ inode.readPos = (t.inode rip).readPos) :
    Ends strict { t with
      keeps := update t.keeps keeper none
      inode := update t.inode rip inode } := by
  refine ⟨ends.counted, fun other => ?_, fun other isPipe => ?_, fun allowed other isPipe => ?_⟩ <;>
    by_cases same : other = rip <;> dsimp only at *
  · subst same
    have users := ends.users other
    have counted := References.count_detach kept other
    rw [update_self]
    change inode.iCount = References.count t.holds other + _
    rw [if_pos rfl] at counted
    omega
  · have counted := References.count_detach kept other
    rw [update_of_ne same]
    rw [if_neg same, Nat.add_zero] at counted
    rw [counted]
    exact ends.users other
  · subst same
    rw [update_self] at isPipe ⊢
    exact used isPipe
  · rw [update_of_ne same] at isPipe ⊢
    exact ends.used other isPipe
  · subst same
    rw [update_self] at isPipe
    obtain ⟨wasPipe, iSize, contents, readPos⟩ := pipe isPipe
    refine (ends.pipes allowed other wasPipe).congr rfl rfl ?_ ?_ ?_ (fun _ => Iff.rfl)
      fun _ _ => ⟨rfl, rfl, fun _ appends => .inl appends⟩ <;> dsimp only <;>
      rw [update_self]
    · exact contents
    · exact iSize
    · exact readPos
  · rw [update_of_ne same] at isPipe
    refine (ends.pipes allowed other isPipe).congr rfl rfl ?_ ?_ ?_ (fun _ => Iff.rfl)
      fun _ _ => ⟨rfl, rfl, fun _ appends => .inl appends⟩ <;> dsimp only <;>
      rw [update_of_ne same]

theorem Ends.pass {giver taker : Keeper} {target : Option InodeNr} (kept : t.keeps giver = target)
    (free : t.keeps taker = none) (distinct : giver ≠ taker) :
    Ends strict { t with keeps := update (update t.keeps giver none) taker target } := by
  refine ends.rekeep fun rip => ?_
  have given := References.count_update t.keeps giver none rip
  have taken := References.count_update (update t.keeps giver none) taker target rip
  rw [update_of_ne distinct.symm, free] at taken
  rw [kept] at given
  simp only [reduceCtorEq, if_false, Nat.add_zero] at given taken
  omega

end

/-! ### Bytes are moved -/

theorem Ends.adjust (ends : Ends strict t) (rip : InodeNr) (refers : t'.refers = t.refers)
    (keeps : t'.keeps = t.keeps)
    (same : ∀ g, (t'.filp g).filpCount = (t.filp g).filpCount ∧
      (t'.filp g).filpIno = (t.filp g).filpIno ∧ (t'.filp g).filpMode = (t.filp g).filpMode ∧
      (t'.filp g).filpFlags = (t.filp g).filpFlags)
    (away : strict → ∀ g, t.holds g ≠ some rip → (t'.filp g).filpPos = (t.filp g).filpPos)
    (inodes : ∀ other, other ≠ rip → t'.inode other = t.inode other)
    (iCount : (t'.inode rip).iCount = (t.inode rip).iCount)
    (iPipe : (t'.inode rip).iPipe = (t.inode rip).iPipe)
    (streams : strict → ∀ other, other ≠ rip →
      t'.written other = t.written other ∧ t'.taken other = t.taken other)
    (ok : strict → (t.inode rip).iPipe = true → PipeOk t' rip) : Ends strict t' := by
  have holds' : t'.holds = t.holds := by
    funext g
    simp only [holds, same]
  refine ⟨fun g => ?_, fun other => ?_, fun other isPipe => ?_, fun allowed other isPipe => ?_⟩
  · rw [(same g).1, refers]
    exact ends.counted g
  · rw [holds', keeps, ← ends.users]
    by_cases this : other = rip
    · rw [this, iCount]
    · rw [inodes other this]
  · by_cases this : other = rip
    · subst this
      rw [iPipe] at isPipe
      rw [iCount]
      exact ends.used other isPipe
    · rw [inodes other this] at isPipe ⊢
      exact ends.used other isPipe
  · by_cases this : other = rip
    · subst this
      rw [iPipe] at isPipe
      exact ok allowed isPipe
    · rw [inodes other this] at isPipe
      refine (ends.pipes allowed other isPipe).congr (streams allowed other this).1
        (streams allowed other this).2
        (by rw [inodes other this]) (by rw [inodes other this]) (by rw [inodes other this])
        (fun g => by rw [holds']) fun g held => ?_
      obtain ⟨-, -, mode, flags⟩ := same g
      refine ⟨mode, away allowed g fun mine => this (Option.some.inj (held.symm.trans mine)),
        fun _ appends => .inl ?_⟩
      rw [flags, appends]

end Files

end Minix.Fs
