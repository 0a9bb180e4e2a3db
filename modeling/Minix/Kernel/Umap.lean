/-
This file models how the kernel copies memory for MM and FS (`kernel/system.c`): `umap`, which turns
an address of a process into one of memory, and `do_copy` and `do_vcopy`, which rest on it. What is
copied is recorded as the ranges of memory that are read and written.

`umap` looks at the last byte of a range to tell the data segment from the stack, but only the first
one is held against the end of the segment. The theorem says when a range that is let through is
that of the process.
-/

import Minix.Kernel.Proc
import Minix.Library.Numerals
import Minix.Library.Extents

namespace Minix.Kernel

open Extents (Extent)

/-- `T`, `D` and `S` in the messages of MM and FS; whatever is not `T` is `D` or `S`. -/
def textSeg : Int := 0

/-- The map of a process. Text and data start at address 0 on this processor. -/
structure ProcMap extends SegMap where
  layout : toSegMap.Layout
  textVir : text.vir = 0
  dataVir : data.vir = 0

namespace ProcMap

/-- The segment that `umap` takes, which the last click of the range decides. -/
def umapSeg (map : ProcMap) (seg : Int) (virAddr bytes : UInt32) : Seg :=
  let vc := Word.sub 32 (Word.add 32 virAddr.toNat bytes.toNat) 1 / clickSize
  if seg = textSeg then .text
  else if vc < Word.add 32 map.data.vir map.data.len then .data
  else .stack

/-- `umap` -/
def umap (map : ProcMap) (seg : Int) (virAddr bytes : UInt32) : Nat :=
  if bytes = 0 then 0
  else
    let entry := map.entry (map.umapSeg seg virAddr bytes)
    if Word.add 32 entry.vir entry.len ≤ virAddr.toNat / clickSize then 0
    else
      let segBase := entry.phys * clickSize % 2 ^ 32
      let pa := Word.sub 32 virAddr.toNat (entry.vir * clickSize % 2 ^ 32)
      Word.add 32 segBase pa

/-- `numap`, for a process that is given by its map. -/
def numap (map : ProcMap) (virAddr bytes : UInt32) : Nat := map.umap 1 virAddr bytes

end ProcMap

/-! ### Copying -/

/-- One copy of a range of memory to another one. -/
structure Transfer where
  src : Nat
  dst : Nat
  bytes : Nat
deriving DecidableEq

/-- What a copy request answers. -/
inductive CopyReply
  | ok
  | efault
  | edom
deriving DecidableEq

/-- The request of `sys_copy`. A process that is `none` is `ABS`, all of memory. -/
structure CopyMessage where
  srcProc : Option Slot
  dstProc : Option Slot
  srcSpace : Int
  dstSpace : Int
  srcBuffer : UInt32
  dstBuffer : UInt32
  copyBytes : UInt32
deriving DecidableEq

/-- The address of one side of a copy. -/
def copyAddress (procs : Slot → ProcMap) (proc : Option Slot) (space : Int)
    (buffer bytes : UInt32) : Nat :=
  match proc with
  | none => buffer.toNat
  | some p => (procs p).umap space buffer bytes

/-- `do_copy` -/
def doCopy (procs : Slot → ProcMap) (m : CopyMessage) : CopyReply × List Transfer :=
  let srcPhys := copyAddress procs m.srcProc m.srcSpace m.srcBuffer m.copyBytes
  let dstPhys := copyAddress procs m.dstProc m.dstSpace m.dstBuffer m.copyBytes
  if srcPhys = 0 ∨ dstPhys = 0 then (.efault, [])
  else (.ok, [{ src := srcPhys, dst := dstPhys, bytes := m.copyBytes.toNat }])

/-- `cpvec_t` -/
structure CpVec where
  src : UInt32
  dst : UInt32
  size : UInt32
deriving DecidableEq

/-- `CPVEC_NR` -/
def cpvecNr : Nat := 16

/-- `sizeof(cpvec_t)` -/
def sizeofCpvec : Nat := 12

/-- The request of `sys_vcopy`. -/
structure VcopyMessage where
  source : Slot
  srcProc : Slot
  dstProc : Slot
  vectS : Int32
  vectAddr : UInt32
deriving DecidableEq

/-- The bytes of the vector, which are a word. -/
def VcopyMessage.vectBytes (m : VcopyMessage) : UInt32 := UInt32.ofInt (m.vectS.toInt * sizeofCpvec)

/-- What `do_vcopy` does: the range that it reads into its own table, and the copies. -/
structure Vcopied where
  reply : CopyReply
  vector : Option Extent := none
  copies : List Transfer := []
deriving DecidableEq

/-- The loop of `do_vcopy` over the table. -/
def vcopyFrom (src dst : ProcMap) : List CpVec → CopyReply × List Transfer
  | [] => (.ok, [])
  | cpvec :: rest =>
    let srcPhys := src.numap cpvec.src cpvec.size
    let dstPhys := dst.numap cpvec.dst cpvec.size
    if srcPhys = 0 ∨ dstPhys = 0 then (.efault, [])
    else
      let done := vcopyFrom src dst rest
      (done.1, { src := srcPhys, dst := dstPhys, bytes := cpvec.size.toNat } :: done.2)

/-- `do_vcopy`. What the vector in the memory of the caller holds is an input. -/
def doVcopy (procs : Slot → ProcMap) (table : Nat → CpVec) (m : VcopyMessage) : Vcopied :=
  if (cpvecNr : Int) < m.vectS.toInt then { reply := .edom }
  else
    let srcPhys := (procs m.source).numap m.vectAddr m.vectBytes
    if srcPhys = 0 then { reply := .efault }
    else
      let done := vcopyFrom (procs m.srcProc) (procs m.dstProc)
        ((List.range m.vectS.toInt.toNat).map table)
      { reply := done.1
        vector := some { base := srcPhys, len := m.vectBytes.toNat }
        copies := done.2 }

/-! ### The memory of a process -/

namespace ProcMap

variable {map : ProcMap} {seg : Int} {virAddr bytes : UInt32}

/-- The memory that a process has in a segment. The data segment, the gap and the stack are one
piece. -/
def memory (map : ProcMap) (seg : Int) : Extent :=
  if seg = textSeg then
    { base := map.text.phys * clickSize, len := map.text.len * clickSize }
  else
    { base := map.data.phys * clickSize, len := (map.stack.vir + map.stack.len) * clickSize }

/-- Where an address of the process is in memory. -/
def physical (map : ProcMap) (seg : Int) (virAddr : UInt32) : Nat :=
  (map.memory seg).base + virAddr.toNat

/-- The range lies in the segments of the process. -/
def Inside (map : ProcMap) (seg : Int) (virAddr bytes : UInt32) : Prop :=
  virAddr.toNat + bytes.toNat ≤ (map.memory seg).len

/-- The range starts behind the end of the text or of the stack; or it starts behind the end of the
data, and runs over the end of the address space as far as the data segment at most. -/
def Behind (map : ProcMap) (seg : Int) (virAddr bytes : UInt32) : Prop :=
  (map.memory seg).len ≤ virAddr.toNat ∨
    seg ≠ textSeg ∧ map.data.len * clickSize ≤ virAddr.toNat ∧
      2 ^ 32 < virAddr.toNat + bytes.toNat ∧
      virAddr.toNat + bytes.toNat ≤ 2 ^ 32 + map.data.len * clickSize

/-- There is nothing to copy, or the range starts behind the segments, or at the address 0 of
memory. -/
def Refused (map : ProcMap) (seg : Int) (virAddr bytes : UInt32) : Prop :=
  bytes = 0 ∨ map.Behind seg virAddr bytes ∨ map.physical seg virAddr = 0

instance : Decidable (map.Inside seg virAddr bytes) :=
  inferInstanceAs (Decidable (_ ≤ _))

instance : Decidable (map.Refused seg virAddr bytes) :=
  inferInstanceAs (Decidable (_ ∨ (_ ∨ _ ∧ _ ∧ _ ∧ _) ∨ _))

/-- The range of memory is that of the process. -/
def Owns (map : ProcMap) (seg : Int) (addr bytes : Nat) : Prop :=
  (map.memory seg).base ≤ addr ∧ addr + bytes ≤ (map.memory seg).stop

theorem owns_physical :
    map.Owns seg (map.physical seg virAddr) bytes.toNat ↔ map.Inside seg virAddr bytes := by
  rw [Owns, physical, Inside, Extent.stop]
  omega

/-- The last click picks a segment that ends at the start of the range or before it exactly if the
range starts behind the segments. -/
theorem umapSeg_behind (some : bytes ≠ 0) :
    let entry := map.entry (map.umapSeg seg virAddr bytes)
    Word.add 32 entry.vir entry.len ≤ virAddr.toNat / clickSize ↔ map.Behind seg virAddr bytes := by
  obtain ⟨apart, -, virFits, -, textVirFits, -⟩ := map.layout
  have textVir := map.textVir
  have dataVir := map.dataVir
  have start := virAddr.toNat_lt
  have length := bytes.toNat_lt
  have positive : 0 < bytes.toNat :=
    Nat.pos_of_ne_zero fun zero => some (UInt32.toNat_inj.mp zero)
  simp only [umapSeg, Behind, memory, Word.add, Word.sub, clickSize]
  by_cases text : seg = textSeg
  · simp only [if_pos text, SegMap.entry, textVir]
    omega
  · simp only [if_neg text, dataVir, Nat.zero_add] at apart ⊢
    split <;> simp only [SegMap.entry, dataVir] <;> omega

theorem umapSeg_address :
    let entry := map.entry (map.umapSeg seg virAddr bytes)
    Word.add 32 (entry.phys * clickSize % 2 ^ 32)
      (Word.sub 32 virAddr.toNat (entry.vir * clickSize % 2 ^ 32)) =
        map.physical seg virAddr % 2 ^ 32 := by
  obtain ⟨-, level, -⟩ := map.layout
  have textVir := map.textVir
  have dataVir := map.dataVir
  simp only [umapSeg, physical, memory]
  by_cases text : seg = textSeg
  · simp only [if_pos text, SegMap.entry, textVir, Word.add, Word.sub]
    omega
  · simp only [if_neg text]
    split
    · simp only [SegMap.entry, dataVir, Word.add, Word.sub]
      omega
    · simp only [SegMap.entry, Word.add, Word.sub, clickSize]
      omega

theorem memory_fits : (map.memory seg).stop ≤ 2 ^ 32 := by
  obtain ⟨-, level, -, physFits, -, textPhysFits⟩ := map.layout
  have dataVir := map.dataVir
  rw [memory, Extent.stop]
  split <;> simp only [clickSize] <;> omega

theorem umap_cases :
    map.Refused seg virAddr bytes ∧ map.umap seg virAddr bytes = 0 ∨
      ¬map.Refused seg virAddr bytes ∧
        map.umap seg virAddr bytes = map.physical seg virAddr := by
  have address := @umapSeg_address map seg virAddr bytes
  have fits := @memory_fits map seg
  simp only [umap, Refused, physical, Extent.stop] at *
  by_cases nothing : bytes = 0
  · exact .inl ⟨.inl nothing, if_pos nothing⟩
  · have refuses := @umapSeg_behind map seg virAddr bytes nothing
    rw [if_neg nothing, address]
    by_cases behind : map.Behind seg virAddr bytes
    · exact .inl ⟨.inr (.inl behind), if_pos (refuses.mpr behind)⟩
    · have small : virAddr.toNat < (map.memory seg).len := by
        unfold Behind at behind
        omega
      rw [if_neg (mt refuses.mp behind), Nat.mod_eq_of_lt (by omega)]
      by_cases zero : (map.memory seg).base + virAddr.toNat = 0
      · exact .inl ⟨.inr (.inr zero), zero⟩
      · exact .inr ⟨not_or.mpr ⟨nothing, not_or.mpr ⟨behind, zero⟩⟩, rfl⟩

theorem umap_of_not_refused (taken : ¬map.Refused seg virAddr bytes) :
    map.umap seg virAddr bytes = map.physical seg virAddr :=
  umap_cases.elim (fun refused => absurd refused.1 taken) And.right

theorem umap_eq_zero : map.umap seg virAddr bytes = 0 ↔ map.Refused seg virAddr bytes := by
  rcases @umap_cases map seg virAddr bytes with ⟨refused, zero⟩ | ⟨taken, address⟩
  · exact iff_of_true zero refused
  · refine ⟨fun zero => ?_, fun refused => absurd refused taken⟩
    exact .inr (.inr (address.symm.trans zero))

theorem numap_eq_zero : map.numap virAddr bytes = 0 ↔ map.Refused 1 virAddr bytes := umap_eq_zero

theorem numap_of_not_refused (taken : ¬map.Refused 1 virAddr bytes) :
    map.numap virAddr bytes = map.physical 1 virAddr := umap_of_not_refused taken

/-- An address that `umap` returns is where the range is in memory, and the range is that of the
process. -/
def UmapConfined (map : ProcMap) (seg : Int) (virAddr bytes : UInt32) : Prop :=
  map.umap seg virAddr bytes ≠ 0 →
    map.Inside seg virAddr bytes ∧ map.umap seg virAddr bytes = map.physical seg virAddr

theorem umapConfined_iff : map.UmapConfined seg virAddr bytes ↔
    map.Refused seg virAddr bytes ∨ map.Inside seg virAddr bytes := by
  rw [UmapConfined, ne_eq, umap_eq_zero]
  by_cases refused : map.Refused seg virAddr bytes
  · simp [refused]
  · simp [refused, umap_of_not_refused refused]

end ProcMap

/-! ### What is copied -/

section Confined

variable {procs : Slot → ProcMap} {m : CopyMessage} {proc : Option Slot}

/-- The range is memory of the process. All of memory is that of `ABS`. -/
def SideOwns (procs : Slot → ProcMap) (proc : Option Slot) (space : Int) (addr bytes : Nat) :
    Prop :=
  ∀ p ∈ proc, (procs p).Owns space addr bytes

/-- The range lies in the segments of the process. -/
def SideInside (procs : Slot → ProcMap) (proc : Option Slot) (space : Int)
    (buffer bytes : UInt32) : Prop :=
  ∀ p ∈ proc, (procs p).Inside space buffer bytes

/-- The copy is refused for this side. -/
def SideRefused (procs : Slot → ProcMap) (proc : Option Slot) (space : Int)
    (buffer bytes : UInt32) : Prop :=
  match proc with
  | none => buffer = 0
  | some p => (procs p).Refused space buffer bytes

theorem copyAddress_eq_zero {space : Int} {buffer bytes : UInt32} :
    copyAddress procs proc space buffer bytes = 0 ↔ SideRefused procs proc space buffer bytes := by
  cases proc with
  | none => exact UInt32.toNat_inj (b := 0)
  | some p => exact ProcMap.umap_eq_zero

theorem sideOwns_copyAddress {space : Int} {buffer bytes : UInt32}
    (taken : ¬SideRefused procs proc space buffer bytes) :
    SideOwns procs proc space (copyAddress procs proc space buffer bytes) bytes.toNat ↔
      SideInside procs proc space buffer bytes := by
  cases proc with
  | none => simp [SideOwns, SideInside]
  | some p =>
    simp only [SideOwns, SideInside, Option.mem_some_iff, forall_eq', copyAddress]
    rw [ProcMap.umap_of_not_refused taken, ProcMap.owns_physical]

/-- `do_copy` reads memory of the one process and writes memory of the other one, and no more. -/
def CopyConfined (procs : Slot → ProcMap) (m : CopyMessage) : Prop :=
  ∀ copy ∈ (doCopy procs m).2,
    SideOwns procs m.srcProc m.srcSpace copy.src copy.bytes ∧
      SideOwns procs m.dstProc m.dstSpace copy.dst copy.bytes

/-- One side of a copy is refused, or both lie in the segments of their processes. -/
def CopyFits (procs : Slot → ProcMap) (m : CopyMessage) : Prop :=
  SideRefused procs m.srcProc m.srcSpace m.srcBuffer m.copyBytes ∨
    SideRefused procs m.dstProc m.dstSpace m.dstBuffer m.copyBytes ∨
    SideInside procs m.srcProc m.srcSpace m.srcBuffer m.copyBytes ∧
      SideInside procs m.dstProc m.dstSpace m.dstBuffer m.copyBytes

theorem copyConfined_iff : CopyConfined procs m ↔ CopyFits procs m := by
  simp only [CopyConfined, CopyFits, doCopy]
  by_cases srcRefused : SideRefused procs m.srcProc m.srcSpace m.srcBuffer m.copyBytes
  · rw [if_pos (.inl (copyAddress_eq_zero.mpr srcRefused))]
    exact iff_of_true (List.forall_mem_nil _) (.inl srcRefused)
  · by_cases dstRefused : SideRefused procs m.dstProc m.dstSpace m.dstBuffer m.copyBytes
    · rw [if_pos (.inr (copyAddress_eq_zero.mpr dstRefused))]
      exact iff_of_true (List.forall_mem_nil _) (.inr (.inl dstRefused))
    · have taken : ¬(copyAddress procs m.srcProc m.srcSpace m.srcBuffer m.copyBytes = 0 ∨
          copyAddress procs m.dstProc m.dstSpace m.dstBuffer m.copyBytes = 0) := by
        rw [copyAddress_eq_zero, copyAddress_eq_zero]
        exact not_or.mpr ⟨srcRefused, dstRefused⟩
      rw [if_neg taken]
      simp only [List.mem_singleton, forall_eq, srcRefused, dstRefused, false_or]
      rw [sideOwns_copyAddress srcRefused, sideOwns_copyAddress dstRefused]

end Confined

section Vector

variable {procs : Slot → ProcMap} {src dst : ProcMap} {table : Nat → CpVec} {m : VcopyMessage}

/-- `do_vcopy` stops before this element. -/
def CpVec.Refused (src dst : ProcMap) (cpvec : CpVec) : Prop :=
  src.Refused 1 cpvec.src cpvec.size ∨ dst.Refused 1 cpvec.dst cpvec.size

instance (cpvec : CpVec) : Decidable (cpvec.Refused src dst) :=
  inferInstanceAs (Decidable (_ ∨ _))

/-- Both ranges of the element lie in the segments of the processes. -/
def CpVec.Inside (src dst : ProcMap) (cpvec : CpVec) : Prop :=
  src.Inside 1 cpvec.src cpvec.size ∧ dst.Inside 1 cpvec.dst cpvec.size

/-- A copy reads memory of the one process and writes memory of the other one. -/
def Transfer.Owned (src dst : ProcMap) (copy : Transfer) : Prop :=
  src.Owns 1 copy.src copy.bytes ∧ dst.Owns 1 copy.dst copy.bytes

theorem vcopyFrom_owned_iff {elements : List CpVec} :
    (∀ copy ∈ (vcopyFrom src dst elements).2, copy.Owned src dst) ↔
      ∀ cpvec ∈ elements.takeWhile fun cpvec => ¬cpvec.Refused src dst,
        cpvec.Inside src dst := by
  induction elements with
  | nil => simp [vcopyFrom]
  | cons cpvec rest inductionHypothesis =>
    rw [vcopyFrom]
    by_cases refused : cpvec.Refused src dst
    · rw [if_pos (refused.imp ProcMap.numap_eq_zero.mpr ProcMap.numap_eq_zero.mpr),
        List.takeWhile_cons_of_neg (by simpa using refused)]
      exact iff_of_true (List.forall_mem_nil _) (List.forall_mem_nil _)
    · obtain ⟨srcTaken, dstTaken⟩ := not_or.mp refused
      rw [if_neg (fun zero => refused (zero.imp ProcMap.numap_eq_zero.mp ProcMap.numap_eq_zero.mp)),
        List.takeWhile_cons_of_pos (by simpa using refused), List.forall_mem_cons,
        List.forall_mem_cons, inductionHypothesis]
      refine and_congr_left fun _ => ?_
      rw [Transfer.Owned, CpVec.Inside, ProcMap.numap_of_not_refused srcTaken,
        ProcMap.numap_of_not_refused dstTaken, ProcMap.owns_physical, ProcMap.owns_physical]

/-- `do_vcopy` reads the vector from memory of its caller, no more than the table holds, and then
reads memory of the one process and writes memory of the other one, and no more. -/
def VcopyConfined (procs : Slot → ProcMap) (table : Nat → CpVec) (m : VcopyMessage) : Prop :=
  (∀ vector ∈ (doVcopy procs table m).vector,
    (procs m.source).Owns 1 vector.base vector.len ∧ vector.len ≤ cpvecNr * sizeofCpvec) ∧
  ∀ copy ∈ (doVcopy procs table m).copies, copy.Owned (procs m.srcProc) (procs m.dstProc)

/-- The count or the range of the vector is refused; or the vector lies in the segments of the caller
and fits the table, and so do the ranges of every element before the first one that is refused. -/
def VcopyFits (procs : Slot → ProcMap) (table : Nat → CpVec) (m : VcopyMessage) : Prop :=
  (cpvecNr : Int) < m.vectS.toInt ∨ (procs m.source).Refused 1 m.vectAddr m.vectBytes ∨
    ((procs m.source).Inside 1 m.vectAddr m.vectBytes ∧
        m.vectBytes.toNat ≤ cpvecNr * sizeofCpvec) ∧
      ∀ cpvec ∈ ((List.range m.vectS.toInt.toNat).map table).takeWhile fun cpvec =>
          ¬cpvec.Refused (procs m.srcProc) (procs m.dstProc),
        cpvec.Inside (procs m.srcProc) (procs m.dstProc)

theorem vcopyConfined_iff : VcopyConfined procs table m ↔ VcopyFits procs table m := by
  simp only [VcopyConfined, VcopyFits, doVcopy]
  by_cases long : (cpvecNr : Int) < m.vectS.toInt
  · simp [long]
  · by_cases refused : (procs m.source).Refused 1 m.vectAddr m.vectBytes
    · simp [long, refused, ProcMap.numap_eq_zero.mpr refused]
    · rw [if_neg long, if_neg (fun zero => refused (ProcMap.numap_eq_zero.mp zero)),
        ProcMap.numap_of_not_refused refused]
      simp only [Option.mem_some_iff, forall_eq', long, refused, false_or, ProcMap.owns_physical,
        vcopyFrom_owned_iff]

end Vector

/-! ### When the processes are kept apart -/

/-- A range that `umap` lets through is that of the process, and the copies of `do_copy` and
`do_vcopy` stay inside the processes that they are given, exactly when every range that is let
through lies in the segments of its process; the vector of `do_vcopy` has to fit its table besides,
which a negative count does not. -/
theorem copies_confined_iff (procs : Slot → ProcMap) (table : Nat → CpVec) :
    (∀ (map : ProcMap) (seg : Int) (virAddr bytes : UInt32),
      map.UmapConfined seg virAddr bytes ↔
        map.Refused seg virAddr bytes ∨ map.Inside seg virAddr bytes) ∧
    (∀ m : CopyMessage, CopyConfined procs m ↔ CopyFits procs m) ∧
    ∀ m : VcopyMessage, VcopyConfined procs table m ↔ VcopyFits procs table m :=
  ⟨fun _ _ _ _ => ProcMap.umapConfined_iff, fun _ => copyConfined_iff,
    fun _ => vcopyConfined_iff⟩

/-- A process with 10 clicks of data, a gap of 10 and 5 clicks of stack. -/
def small : ProcMap where
  data := { vir := 0, phys := 1000, len := 10 }
  stack := { vir := 20, phys := 1020, len := 5 }
  layout := ⟨by decide, by decide, by decide, by decide, by decide, by decide⟩
  textVir := rfl
  dataVir := rfl

/-- From the last byte of the stack on, two bytes are let through, and so are all the bytes of a
word that start in the data segment. -/
theorem umap_lets_through :
    ¬small.UmapConfined 1 25599 2 ∧ ¬small.UmapConfined 1 10 4294967295 ∧
      ¬CopyConfined (fun _ => small)
        { srcProc := some fs, dstProc := none, srcSpace := 1, dstSpace := 1, srcBuffer := 25599,
          dstBuffer := 4096, copyBytes := 1000000 } := by
  rw [ProcMap.umapConfined_iff, ProcMap.umapConfined_iff]
  refine ⟨by decide, by decide, fun confined => ?_⟩
  have owned := (confined { src := 1049599, dst := 4096, bytes := 1000000 }
    (by decide +kernel)).1 fs rfl
  exact absurd owned.2 (by decide)

end Minix.Kernel
