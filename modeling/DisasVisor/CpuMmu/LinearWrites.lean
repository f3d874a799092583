import DisasVisor.Lib.Loops
import DisasVisor.CpuMmu.WalkEntries

/-!
Writes to linear addresses: `write_linearaddr_*` of `core/cpu_mmu.c`, with `write_gphys_*` of
`core/gmm_access.c`. Page tables and data are in the same memory.
-/

namespace DisasVisor.CpuMmu

open Mm

abbrev Bytes := Word → UInt8

def wordAt (bytes : Bytes) (a : Word) : Word :=
  (List.range 8).foldr (fun i w => (w <<< 8) ||| (bytes (a + BitVec.ofNat 64 i)).toBitVec.setWidth 64) 0

def bytesOf (size : Nat) (tables : Tables) : Bytes := fun x =>
  .ofBitVec ((tables (x - BitVec.ofNat 64 (x.toNat % size)) >>> (8 * (x.toNat % size))).setWidth 8)

inductive Place where
  | guest (phys : Word)
  | blank (offset : Nat)
  deriving DecidableEq

structure Memory where
  bytes : Bytes
  stores : List (Place × UInt8)

/-- The virtual processor, and what lies at guest-physical addresses: which accesses
`mmio_access_memory` takes, what it leaves in memory, and `phys_in_vmm`. `retries`, `stack` and
`entries` are for `get_pte`. -/
structure Guest where
  nbits : Nat
  regs : Registers
  retries : Nat
  stack : Pmap
  entries : Nat → Word
  registered : Word → Nat → Bool
  serve : Word → List UInt8 → Bytes → Bytes
  inVmm : Word → Bool

def Guest.entrySize (g : Guest) : Nat :=
  if g.regs.efer &&& msrIa32EferLmeBit = 0 ∧ g.regs.cr4 &&& cr4PaeBit = 0 then 4 else 8

def Guest.pteAddrMask (g : Guest) : Word := getPteAddrMask g.nbits

def getPte (g : Guest) (virt : Word) (wr us ex : Bool) (m : Memory) : Option (Vmmerr × Word × Memory) :=
  (cpuMmuGetPte g.nbits (g.retries + 1) virt g.regs.cr0 g.regs.cr3 g.regs.cr4 g.regs.efer wr us ex g.stack g.entries
    ⟨wordAt m.bytes, fun phys => !g.registered phys g.entrySize && !g.inVmm phys⟩).map
      fun (r, entries, _, memory) => (r, entries 0, { m with bytes := bytesOf g.entrySize memory.tables })

def lowBytes (size : Nat) (data : Word) : List UInt8 :=
  (List.range size).map fun i => .ofBitVec ((data >>> (8 * i)).setWidth 8)

def overlay (bytes : Bytes) (phys : Word) (chunk : List UInt8) : Bytes := fun x =>
  (chunk[(x - phys).toNat]?).getD (bytes x)

/-- A write that is not split: `write_gphys_*` of one width, which in the memory of the VMM panics or only
prints and writes to `phys_blank`. -/
def storeGphys (g : Guest) (size : Nat) (panics : Bool) (phys data : Word) (m : Memory) : Option Memory :=
  let chunk := lowBytes size data
  if g.registered phys size then
    some { bytes := g.serve phys chunk m.bytes
           stores := m.stores ++ chunk.mapIdx fun i b => (.guest (phys + BitVec.ofNat 64 i), b) }
  else if g.inVmm phys then
    if panics then none else some { m with stores := m.stores ++ chunk.mapIdx fun i b => (.blank i, b) }
  else
    some { bytes := overlay m.bytes phys chunk
           stores := m.stores ++ chunk.mapIdx fun i b => (.guest (phys + BitVec.ofNat 64 i), b) }

def writeGphysB (g : Guest) (phys data : Word) (m : Memory) : Option Memory := storeGphys g 1 true phys data m

def writeGphysW (g : Guest) (phys data : Word) (m : Memory) : Option Memory :=
  if phys &&& 0xFFF = 0xFFF then (writeGphysB g phys data m).bind (writeGphysB g (phys + 1) (data >>> 8))
  else storeGphys g 2 true phys data m

def writeGphysL (g : Guest) (phys data : Word) (m : Memory) : Option Memory :=
  if phys &&& 0xFFF ≥ 0xFFD then (writeGphysW g phys data m).bind (writeGphysW g (phys + 2) (data >>> 16))
  else storeGphys g 4 false phys data m

def writeGphysQ (g : Guest) (phys data : Word) (m : Memory) : Option Memory :=
  if phys &&& 0xFFF ≥ 0xFF9 then (writeGphysL g phys data m).bind (writeGphysL g (phys + 4) (data >>> 32))
  else storeGphys g 8 true phys data m

def rie (first : Option (Vmmerr × Memory)) (rest : Memory → Option (Vmmerr × Memory)) : Option (Vmmerr × Memory) :=
  Attempts.andThen .success first rest

def returnSuccess (m : Memory) : Option (Vmmerr × Memory) := some (.success, m)

def writeLinearaddrOkB (g : Guest) (linear : Word) (m : Memory) : Option (Vmmerr × Memory) :=
  rie ((getPte g linear true false false m).map fun (r, _, m) => (r, m)) returnSuccess

def writeLinearaddrOkW (g : Guest) (linear : Word) (m : Memory) : Option (Vmmerr × Memory) :=
  if linear &&& 0xFFE ≤ 0xFFE then rie (writeLinearaddrOkB g linear m) returnSuccess
  else rie (writeLinearaddrOkB g linear m) fun m => rie (writeLinearaddrOkB g (linear + 1) m) returnSuccess

def writeLinearaddrOkL (g : Guest) (linear : Word) (m : Memory) : Option (Vmmerr × Memory) :=
  if linear &&& 0xFFC ≤ 0xFFC then rie (writeLinearaddrOkW g linear m) returnSuccess
  else rie (writeLinearaddrOkW g linear m) fun m => rie (writeLinearaddrOkW g (linear + 2) m) returnSuccess

def physOf (g : Guest) (pte linear : Word) : Word := (pte &&& g.pteAddrMask) ||| (linear &&& 0xFFF)

def writePte (g : Guest) (linear : Word) (write : Word → Memory → Option Memory) (m : Memory) :
    Option (Vmmerr × Memory) :=
  (getPte g linear true false false m).bind fun (r, pte, m) =>
    if r = .success then (write (physOf g pte linear) m).map fun m => (.success, m) else some (r, m)

def writeLinearaddrB (g : Guest) (linear data : Word) (m : Memory) : Option (Vmmerr × Memory) :=
  writePte g linear (fun phys => writeGphysB g phys data) m

def writeLinearaddrW (g : Guest) (linear data : Word) (m : Memory) : Option (Vmmerr × Memory) :=
  if linear &&& 0xFFF = 0xFFF then
    rie (writeLinearaddrB g linear data m) fun m =>
      rie (writeLinearaddrB g (linear + 1) (data >>> 8) m) returnSuccess
  else writePte g linear (fun phys => writeGphysW g phys data) m

def writeLinearaddrL (g : Guest) (linear data : Word) (m : Memory) : Option (Vmmerr × Memory) :=
  if linear &&& 0xFFF ≥ 0xFFD then
    rie (writeLinearaddrW g linear data m) fun m =>
      rie (writeLinearaddrW g (linear + 2) (data >>> 16) m) returnSuccess
  else writePte g linear (fun phys => writeGphysL g phys data) m

def writeLinearaddrQ (g : Guest) (linear data : Word) (m : Memory) : Option (Vmmerr × Memory) :=
  if linear &&& 0xFFF ≥ 0xFF9 then
    rie (writeLinearaddrL g linear data m) fun m =>
      rie (writeLinearaddrL g (linear + 4) (data >>> 32) m) returnSuccess
  else writePte g linear (fun phys => writeGphysQ g phys data) m

/-!
A write to a linear address is a run of its parts, each of which lies in one page. Whether it is all or
nothing depends on the pages of the later parts.
-/

variable {g : Guest} {linear data pte phys : Word} {m m' m1 : Memory} {r : Vmmerr} {size : Nat} {panics : Bool}

theorem getPteAddrMask_low (nbits i : Nat) : ((getPteAddrMask nbits).getLsbD i && (0xFFF : Word).getLsbD i) = false := by
  by_cases bound : i < 64
  · rw [getPteAddrMask, BitVec.getLsbD_not, BitVec.getLsbD_or]
    cases (0xFFF : Word).getLsbD i
    · exact Bool.and_false _
    · rw [Bool.true_or, Bool.not_true, Bool.and_false, Bool.false_and]
  · rw [BitVec.getLsbD_of_ge _ _ (by omega), Bool.false_and]

theorem physOf_and (g : Guest) (pte linear : Word) : physOf g pte linear &&& 0xFFF = linear &&& 0xFFF := by
  apply BitVec.eq_of_getLsbD_eq
  intro i bound
  have apart := getPteAddrMask_low g.nbits i
  rw [physOf, Guest.pteAddrMask, BitVec.getLsbD_and, BitVec.getLsbD_or, BitVec.getLsbD_and, BitVec.getLsbD_and]
  revert apart
  cases (0xFFF : Word).getLsbD i
  · simp
  · intro apart
    rw [Bool.and_true] at apart
    rw [apart, Bool.and_false, Bool.false_or, Bool.and_true, Bool.and_true]

structure Part where
  linear : Word
  size : Nat
  panics : Bool
  data : Word
  positive : 0 < size

def Part.write (g : Guest) (part : Part) (m : Memory) : Option (Vmmerr × Memory) :=
  writePte g part.linear (fun phys => storeGphys g part.size part.panics phys part.data) m

def partsW (linear data : Word) : List Part :=
  if linear &&& 0xFFF = 0xFFF then [⟨linear, 1, true, data, by omega⟩, ⟨linear + 1, 1, true, data >>> 8, by omega⟩]
  else [⟨linear, 2, true, data, by omega⟩]

def partsL (linear data : Word) : List Part :=
  if linear &&& 0xFFF ≥ 0xFFD then partsW linear data ++ partsW (linear + 2) (data >>> 16)
  else [⟨linear, 4, false, data, by omega⟩]

def partsQ (linear data : Word) : List Part :=
  if linear &&& 0xFFF ≥ 0xFF9 then partsL linear data ++ partsL (linear + 4) (data >>> 32)
  else [⟨linear, 8, true, data, by omega⟩]

def writeParts (g : Guest) (parts : List Part) (m : Memory) : Option (Vmmerr × Memory) :=
  Attempts.runs .success (Part.write g) parts m

theorem rie_rie_append {front back : List Part} :
    (rie (writeParts g front m) fun m => rie (writeParts g back m) returnSuccess) = writeParts g (front ++ back) m := by
  rw [writeParts, writeParts, Attempts.runs_append]
  exact congrArg (Attempts.andThen Vmmerr.success _) (funext fun m => Attempts.andThen_pure _)

theorem writePte_part {write : Word → Memory → Option Memory} {positive : 0 < size}
    (same : ∀ phys, phys &&& 0xFFF = linear &&& 0xFFF → write phys = storeGphys g size panics phys data) :
    writePte g linear write m = writeParts g [⟨linear, size, panics, data, positive⟩] m := by
  rw [writeParts, Attempts.runs_singleton, Part.write, writePte, writePte]
  refine congrArg (Option.bind _) (funext fun (r, pte, m) => ?_)
  simp only
  rw [same _ (physOf_and g pte linear)]

theorem writeLinearaddrB_eq (positive : 0 < 1) :
    writeLinearaddrB g linear data m = writeParts g [⟨linear, 1, true, data, positive⟩] m :=
  writePte_part fun _ _ => rfl

theorem writeLinearaddrW_eq : writeLinearaddrW g linear data m = writeParts g (partsW linear data) m := by
  rw [writeLinearaddrW, partsW]
  split
  · simp only [writeLinearaddrB_eq (Nat.one_pos)]
    exact rie_rie_append
  · rename_i inside
    apply writePte_part
    intro phys same
    funext m
    rw [writeGphysW, same, if_neg inside]

theorem writeLinearaddrL_eq : writeLinearaddrL g linear data m = writeParts g (partsL linear data) m := by
  rw [writeLinearaddrL, partsL]
  split
  · simp only [writeLinearaddrW_eq]
    exact rie_rie_append
  · rename_i inside
    apply writePte_part
    intro phys same
    funext m
    rw [writeGphysL, same, if_neg inside]

theorem writeLinearaddrQ_eq : writeLinearaddrQ g linear data m = writeParts g (partsQ linear data) m := by
  rw [writeLinearaddrQ, partsQ]
  split
  · simp only [writeLinearaddrL_eq]
    exact rie_rie_append
  · rename_i inside
    apply writePte_part
    intro phys same
    funext m
    rw [writeGphysQ, same, if_neg inside]

theorem and_le_right (x y : Word) : x &&& y ≤ y := by
  rw [BitVec.le_def, BitVec.toNat_and]
  exact Nat.and_le_right

theorem writeLinearaddrOkB_eq : writeLinearaddrOkB g linear m =
    (getPte g linear true false false m).map fun (r, _, m) => (r, m) := Attempts.andThen_pure _

theorem writeLinearaddrOkW_eq : writeLinearaddrOkW g linear m = writeLinearaddrOkB g linear m := by
  have always : linear &&& 0xFFE ≤ 0xFFE := and_le_right _ _
  rw [writeLinearaddrOkW, if_pos always]
  exact Attempts.andThen_pure _

theorem writeLinearaddrOkL_eq : writeLinearaddrOkL g linear m = writeLinearaddrOkB g linear m := by
  have always : linear &&& 0xFFC ≤ 0xFFC := and_le_right _ _
  rw [writeLinearaddrOkL, if_pos always, writeLinearaddrOkW_eq]
  exact Attempts.andThen_pure _

end DisasVisor.CpuMmu
