import Mathlib.Tactic.IntervalCases
import DisasVisor.Lib.Transitions

/-!
The page-table cursor of `core/mm.c`, for tables in the VMM's own memory.
-/

namespace DisasVisor.Mm

open Function

abbrev Word := BitVec 64

abbrev Tables := Word → Word

structure Pmap where
  entry : Nat → Word
  entryaddr : Nat → Word
  curaddr : Word
  curlevel : Nat
  readlevel : Nat
  levels : Nat

def pdePBit : Word := 0x1
def pdePsBit : Word := 0x80
def pde4mPatBit : Word := 0x1000
def ptePatBit : Word := 0x80
def pteRwBit : Word := 0x2
def pteUsBit : Word := 0x4
def pteABit : Word := 0x20
def pteDBit : Word := 0x40

def rootEntry (cr3 : Word) : Word := (cr3 &&& ~~~0xFFF) ||| pdePBit

def pmapOpenVmm (m : Pmap) (cr3 : Word) (levels : Nat) : Pmap :=
  { m with
    levels := levels, readlevel := levels, curlevel := levels - 1,
    entry := update m.entry levels (rootEntry cr3) }

def pmapMask : Nat → Nat → Word
  | 2, 0 => 0xFFFFF000
  | 2, 1 => 0xFFC00000
  | 3, 0 => 0xFFFFF000
  | 3, 1 => 0xFFE00000
  | 3, 2 => 0xC0000000
  | 4, 0 => 0x0000FFFFFFFFF000
  | 4, 1 => 0x0000FFFFFFE00000
  | 4, 2 => 0x0000FFFFC0000000
  | 4, 3 => 0x0000FF8000000000
  | _, _ => 0

def pmapSeekLoop (virtaddr : Word) : Nat → Pmap → Pmap
  | 0, m => m
  | above + 1, m =>
    let mask := pmapMask m.levels m.readlevel
    if m.curaddr &&& mask = virtaddr &&& mask then m
    else pmapSeekLoop virtaddr above { m with readlevel := m.readlevel + 1 }

def pmapSeek (m : Pmap) (virtaddr : Word) (level : Nat) : Pmap :=
  { pmapSeekLoop virtaddr (m.levels - m.readlevel) { m with curlevel := level - 1 } with
    curaddr := virtaddr }

def pmapRd (levels : Nat) (tables : Tables) (phys : Word) : Word :=
  if levels = 2 then ((tables phys).setWidth 32).setWidth 64 else tables phys

def pmapEntryaddr (levels level : Nat) (tmp curaddr : Word) : Word :=
  let table := if levels = 3 ∧ level = 2 then tmp &&& 0xFFFFFFE0
    else tmp &&& 0x0000FFFFFFFFF000
  if levels = 2 then table ||| ((curaddr >>> (10 + 10 * level)) &&& 0xFFC)
  else table ||| ((curaddr >>> (9 + 9 * level)) &&& 0xFF8)

def handlePdePsBit (levels : Nat) (tmp curaddr : Word) : Word :=
  let tmp := tmp &&& ~~~pdePsBit
  let tmp := if tmp &&& pde4mPatBit ≠ 0 then (tmp ||| ptePatBit) &&& ~~~pde4mPatBit else tmp
  if levels = 2 then
    let tmp := tmp ||| (((tmp &&& 0x1FE000) >>> 13) <<< 32)
    (tmp &&& ~~~0x3FF000) ||| (curaddr &&& 0x3FF000)
  else (tmp &&& ~~~0x1FF000) ||| (curaddr &&& 0x1FF000)

def pdeOfPdpe (tmp curaddr : Word) : Word := (tmp &&& ~~~0x3FE00000) ||| (curaddr &&& 0x3FE00000)

def Pmap.descend (m : Pmap) (tables : Tables) : Pmap :=
  let level := m.readlevel - 1
  let addr := pmapEntryaddr m.levels level (m.entry m.readlevel) m.curaddr
  { m with
    readlevel := level, entryaddr := update m.entryaddr level addr,
    entry := update m.entry level (pmapRd m.levels tables addr) }

def pmapReadLoop (tables : Tables) : Nat → Pmap → Word × Pmap
  | 0, m => (m.entry m.curlevel, m)
  | below + 1, m =>
    let tmp := m.entry m.readlevel
    if tmp &&& pdePBit = 0 then (0, m)
    else if m.readlevel = 2 ∧ tmp &&& pdePsBit ≠ 0 then
      let tmp := pdeOfPdpe tmp m.curaddr
      (if m.curlevel = 0 then handlePdePsBit m.levels tmp m.curaddr else tmp, m)
    else if m.readlevel = 1 ∧ tmp &&& pdePsBit ≠ 0 then
      (handlePdePsBit m.levels tmp m.curaddr, m)
    else pmapReadLoop tables below (m.descend tables)

def pmapRead (tables : Tables) (m : Pmap) : Word × Pmap := pmapReadLoop tables (m.readlevel - m.curlevel) m

def pmapWriteEntry (m : Pmap) (e attrmask : Word) : Word :=
  let attrdef := if m.levels = 3 ∧ m.curlevel = 2 then 0
    else if m.curlevel = 0 then pteRwBit ||| pteUsBit ||| pteABit ||| pteDBit
    else pteRwBit ||| pteUsBit ||| pteABit
  (e &&& (~~~0xFFF ||| attrmask)) ||| (attrdef &&& ~~~attrmask)

def pmapWrite (tables : Tables) (m : Pmap) (e attrmask : Word) : Option (Tables × Pmap) :=
  if m.readlevel ≤ m.curlevel then
    let e := pmapWriteEntry m e attrmask
    some (update tables (m.entryaddr m.curlevel) e, { m with entry := update m.entry m.curlevel e })
  else none

def clearPage (tables : Tables) (phys : Word) : Tables := fun addr => if addr - phys < 4096 then 0 else tables addr

def pmapAllocEntry (alloc : Tables → Pmap → Word) (tables : Tables) (m : Pmap) (level : Nat) : Option (Tables × Pmap) :=
  let phys := alloc tables m
  (pmapWrite (clearPage tables phys) { m with curlevel := m.readlevel } (phys ||| pdePBit)
    pdePBit).map fun (tables, m) => (tables, { m with curlevel := level })

def pmapAutoallocLoop (alloc : Tables → Pmap → Word) (level : Nat) :
    Nat → Tables → Pmap → Option (Tables × Pmap)
  | 0, _, _ => none
  | missing + 1, tables, m => do
      let (tables, m) ← pmapAllocEntry alloc tables m level
      let m := (pmapRead tables m).2
      if m.readlevel ≤ level then some (tables, m)
      else if m.entry m.readlevel &&& pdePBit ≠ 0 then none
      else pmapAutoallocLoop alloc level missing tables m

def pmapAutoalloc (alloc : Tables → Pmap → Word) (tables : Tables) (m : Pmap) : Option (Tables × Pmap) :=
  let level := m.curlevel
  if m.readlevel ≤ level then some (tables, m)
  else if m.entry m.readlevel &&& pdePBit = 0 then
    pmapAutoallocLoop alloc level (m.readlevel - level) tables m
  else
    let m := (pmapRead tables m).2
    if m.readlevel ≤ level then some (tables, m)
    else if m.entry m.readlevel &&& pdePBit ≠ 0 then none
    else pmapAutoallocLoop alloc level (m.readlevel - level) tables m

theorem pdeOfPdpe_bit (e addr : Word) (i : Nat) (bound : i < 64) :
    (pdeOfPdpe e addr).getLsbD i = if 21 ≤ i ∧ i < 30 then addr.getLsbD i else e.getLsbD i := by
  interval_cases i <;> simp [pdeOfPdpe]

theorem and_pde4mPatBit (e : Word) : e &&& pde4mPatBit ≠ 0 ↔ e.getLsbD 12 = true := by
  rw [show pde4mPatBit = BitVec.twoPow 64 12 from rfl, BitVec.and_twoPow]
  cases e.getLsbD 12
  · simp
  · simp
    decide

theorem handlePdePsBit_bit (levels : Nat) (more : levels ≠ 2) (e addr : Word) (i : Nat) (bound : i < 64) :
    (handlePdePsBit levels e addr).getLsbD i =
      if i = 7 then e.getLsbD 12
      else if 12 ≤ i ∧ i < 21 then addr.getLsbD i else e.getLsbD i := by
  have pat : (e &&& ~~~pdePsBit).getLsbD 12 = e.getLsbD 12 := by simp [pdePsBit]
  simp only [handlePdePsBit, and_pde4mPatBit, pat, if_neg more]
  cases bit : e.getLsbD 12
  · interval_cases i <;> simp_all [pdePsBit]
  · interval_cases i <;> simp_all [pdePsBit, ptePatBit, pde4mPatBit]

theorem handlePdePsBit_bit_4m (e addr : Word) (narrow : e < 0x100000000) (i : Nat) (bound : i < 64) :
    (handlePdePsBit 2 e addr).getLsbD i =
      if i = 7 then e.getLsbD 12
      else if 12 ≤ i ∧ i < 22 then addr.getLsbD i
      else if 32 ≤ i ∧ i < 40 then e.getLsbD (i - 19) else e.getLsbD i := by
  have pat : (e &&& ~~~pdePsBit).getLsbD 12 = e.getLsbD 12 := by simp [pdePsBit]
  have high : ∀ i (bound : i < 64), 32 ≤ i → e[i] = false := by
    intro i bound above
    have small : e.toNat < 2 ^ 32 := narrow
    exact Nat.testBit_lt_two_pow (lt_of_lt_of_le small (Nat.pow_le_pow_right (by omega) above))
  simp only [handlePdePsBit, and_pde4mPatBit, pat, if_true]
  cases bit : e.getLsbD 12
  · interval_cases i <;> simp_all [pdePsBit]
  · interval_cases i <;> simp_all [pdePsBit, ptePatBit, pde4mPatBit]

structure GuestMemory where
  tables : Tables
  plain : Word → Bool

def cr3PwtBit : Word := 0x8
def cr3PcdBit : Word := 0x10

def pmapOpenGuest (m : Pmap) (cr3 : Word) (levels : Nat) : Pmap :=
  let root := if levels = 3 then cr3 &&& (~~~0x1F ||| cr3PwtBit ||| cr3PcdBit)
    else cr3 &&& (~~~0xFFF ||| cr3PwtBit ||| cr3PcdBit)
  { m with
    levels := levels, readlevel := levels, curlevel := levels - 1,
    entry := update m.entry levels (root ||| pdePBit) }

def pmapSetlevel (m : Pmap) (level : Nat) : Pmap := { m with curlevel := level - 1 }

def narrow (levels : Nat) (e : Word) : Word := if levels = 2 then (e.setWidth 32).setWidth 64 else e

def stored (levels : Nat) (old new : Word) : Word :=
  if levels = 2 then (old &&& ~~~0xFFFFFFFF) ||| (new &&& 0xFFFFFFFF) else new

/-- `cmpxchg_gphys_l` and `cmpxchg_gphys_q`: whether it fails, and what was there. It panics when
the address is not plain memory. -/
def cmpxchgGphys (levels : Nat) (memory : GuestMemory) (phys olddata data : Word) :
    Option (Bool × Word × GuestMemory) :=
  if memory.plain phys then
    let cur := narrow levels (memory.tables phys)
    if cur = narrow levels olddata then
      some (false, narrow levels olddata, { memory with
        tables := update memory.tables phys (stored levels (memory.tables phys) data) })
    else some (true, cur, memory)
  else none

def pmapRdGuest (levels : Nat) (memory : GuestMemory) (phys : Word) : Option (Word × GuestMemory) :=
  (cmpxchgGphys levels memory phys 0 0).map fun (_, r, memory) => (r, memory)

def pmapReadGuestLoop : Nat → Pmap → GuestMemory → Option (Word × Pmap × GuestMemory)
  | 0, m, memory => some (m.entry m.curlevel, m, memory)
  | below + 1, m, memory =>
    let tmp := m.entry m.readlevel
    if tmp &&& pdePBit = 0 then some (0, m, memory)
    else if m.readlevel = 2 ∧ tmp &&& pdePsBit ≠ 0 then
      let tmp := pdeOfPdpe tmp m.curaddr
      some (if m.curlevel = 0 then handlePdePsBit m.levels tmp m.curaddr else tmp, m, memory)
    else if m.readlevel = 1 ∧ tmp &&& pdePsBit ≠ 0 then
      some (handlePdePsBit m.levels tmp m.curaddr, m, memory)
    else
      let level := m.readlevel - 1
      let addr := pmapEntryaddr m.levels level tmp m.curaddr
      match pmapRdGuest m.levels memory addr with
      | none => none
      | some (r, memory) =>
        pmapReadGuestLoop below
          { m with
            readlevel := level, entryaddr := update m.entryaddr level addr,
            entry := update m.entry level r } memory

def pmapReadGuest (m : Pmap) (memory : GuestMemory) : Option (Word × Pmap × GuestMemory) :=
  pmapReadGuestLoop (m.readlevel - m.curlevel) m memory

def pmapWriteGuest (m : Pmap) (memory : GuestMemory) (e attrmask : Word) : Option (Bool × Pmap × GuestMemory) :=
  if m.readlevel ≤ m.curlevel then
    let e := pmapWriteEntry m e attrmask
    (cmpxchgGphys m.levels memory (m.entryaddr m.curlevel) (m.entry m.curlevel) e).map
      fun (fail, r, memory) =>
        (fail, { m with
          entry := update m.entry m.curlevel (if fail then r else e)
          readlevel := if fail then m.curlevel else m.readlevel }, memory)
  else none

end DisasVisor.Mm
