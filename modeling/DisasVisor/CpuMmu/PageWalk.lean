import DisasVisor.Mm.Pmap

/-!
`cpu_mmu_get_pte` of `core/cpu_mmu.c`: the walk through the guest's page tables for an access.
-/

namespace DisasVisor.CpuMmu

open Function Mm

inductive Vmmerr where
  | success
  | pageNotPresent
  | pageNotAccessible
  | pageNotExecutable
  | pageBadReservedBit
  deriving DecidableEq

structure GetPteData where
  pg : Bool
  wp : Bool
  pse : Bool
  pae : Bool
  lme : Bool
  nxe : Bool
  write : Bool
  user : Bool
  exec : Bool

def pdeRwBit : Word := 0x2
def pdeUsBit : Word := 0x4
def pdeABit : Word := 0x20
def pdeDBit : Word := 0x40
def pdeNxBit : Word := 0x8000000000000000
def ptePBit : Word := 0x1
def pteAddrMask64 : Word := 0x0000000FFFFFF000
def cr0WpBit : Word := 0x10000
def cr0PgBit : Word := 0x80000000
def cr4PseBit : Word := 0x10
def cr4PaeBit : Word := 0x20
def msrIa32EferLmeBit : Word := 0x100
def msrIa32EferNxeBit : Word := 0x800

def getPteAddrMask (nbits : Nat) : Word := ~~~(0xFFF ||| BitVec.allOnes 64 <<< nbits)

def reservedBitTable (nxe : Bool) : Nat → Nat → Word
  | 2, 0 => 0x0000000000200000
  | 2, 1 => 0
  | 2, 2 => 0
  | 3, 0 => if nxe then 0x7FFFFFF0001FE000 else 0xFFFFFFF0001FE000
  | 3, 1 => if nxe then 0x7FFFFFF000000000 else 0xFFFFFFF000000000
  | 3, 2 => if nxe then 0x7FFFFFF000000000 else 0xFFFFFFF000000000
  | 3, 3 => 0xFFFFFFF0000001E6
  | 4, 0 => if nxe then 0x000FFFF0001FE000 else 0x800FFFF0001FE000
  | 4, 1 => if nxe then 0x000FFFF000000000 else 0x800FFFF000000000
  | 4, 2 => if nxe then 0x000FFFF000000000 else 0x800FFFF000000000
  | 4, 3 => if nxe then 0x000FFFF000000100 else 0x800FFFF000000100
  | 4, 4 => if nxe then 0x000FFFF000000180 else 0x800FFFF000000180
  | 4, 5 => if nxe then 0x000FFFF03FFFE000 else 0x800FFFF03FFFE000
  | _, _ => 0xFFFFFFFFFFFFFFFF

section

variable (pteAddrMask : Word) (d : GetPteData)

/-- `test_pmap_entry_reserved_bit`; `none` is its assertion. -/
def testPmapEntryReservedBit (entry : Word) (level levels : Nat) : Option Bool :=
  if ¬d.pae ∧ ¬d.pse then some false
  else
    let level := if level = 2 ∧ entry &&& pdePsBit ≠ 0 then 0 else level
    let level := if level = 3 ∧ levels = 4 ∧ entry &&& pdePsBit ≠ 0 then 5 else level
    let mask := reservedBitTable d.nxe levels level ^^^ (pteAddrMask ^^^ pteAddrMask64)
    if mask = 0xFFFFFFFFFFFFFFFF then none else some (entry &&& mask ≠ 0)

def setAdBit (m : Pmap) (memory : GuestMemory) (entry : Word) (seta setd : Bool) :
    Option (Bool × Word × Pmap × GuestMemory) :=
  let seta := if entry &&& pdeABit ≠ 0 then false else seta
  let setd := if entry &&& pdeDBit ≠ 0 then false else setd
  if seta || setd then
    let entry := if seta then entry ||| pdeABit else entry
    let entry := if setd then entry ||| pdeDBit else entry
    (pmapWriteGuest m memory entry 0xFFF).map fun (fail, m, memory) => (fail, entry, m, memory)
  else some (false, entry, m, memory)

inductive Pass where
  | ret (r : Vmmerr)
  | retry
  | next (entry : Word)

def passAd (i : Nat) (entry : Word) (m : Pmap) (memory : GuestMemory) : Option (Pass × Pmap × GuestMemory) :=
  let entry := if i = 2 ∧ ¬d.pse then entry &&& ~~~pdePsBit else entry
  let setd := if (i = 2 ∧ entry &&& pdePsBit ≠ 0) ∨ i = 1 ∨ (i = 3 ∧ entry &&& pdePsBit ≠ 0) then
    d.write else false
  (setAdBit m memory entry true setd).map fun (again, entry, m, memory) =>
    (if again then .retry else .next entry, m, memory)

def passChecks (levels i : Nat) (entry : Word) (m : Pmap) (memory : GuestMemory) : Option (Pass × Pmap × GuestMemory) :=
  if entry &&& pdePBit = 0 then some (.ret .pageNotPresent, m, memory)
  else
    match testPmapEntryReservedBit pteAddrMask d entry i levels with
    | none => none
    | some true => some (.ret .pageBadReservedBit, m, memory)
    | some false =>
      let entry := if levels = 3 ∧ i = 3 then entry ||| (pdeRwBit ||| pdeUsBit ||| pdeABit)
        else entry
      if entry &&& pdeUsBit = 0 ∧ d.user then some (.ret .pageNotAccessible, m, memory)
      else if entry &&& pdeRwBit = 0 ∧ d.write ∧ (d.wp ∨ d.user) then
        some (.ret .pageNotAccessible, m, memory)
      else if entry &&& pdeNxBit ≠ 0 ∧ d.exec ∧ d.nxe then
        some (.ret .pageNotExecutable, m, memory)
      else passAd d i entry m memory

def passLoop (levels i : Nat) : Nat → Pmap → GuestMemory → Option (Pass × Pmap × GuestMemory)
  | 0, _, _ => none
  | fuel + 1, m, memory => do
      let (entry, m, memory) ← pmapReadGuest m memory
      let (pass, m, memory) ← passChecks pteAddrMask d levels i entry m memory
      match pass with
      | .retry => passLoop levels i fuel m memory
      | pass => some (pass, m, memory)

def levelLoop (fuel levels : Nat) : Nat → (Nat → Word) → Pmap → GuestMemory →
    Option (Vmmerr × (Nat → Word) × GuestMemory)
  | 0, entries, _, memory => some (.success, entries, memory)
  | i + 1, entries, m, memory => do
      let (pass, m, memory) ← passLoop pteAddrMask d levels (i + 1) fuel (pmapSetlevel m (i + 1)) memory
      match pass with
      | .ret r => some (r, entries, memory)
      | .retry => none
      | .next entry => levelLoop fuel levels i (update entries i entry) m memory

def flatEntries (virt : Word) (entries : Nat → Word) : Nat → Word :=
  update (update entries 0 ((virt &&& pteAddrMask) |||
    (ptePBit ||| pteRwBit ||| pteUsBit ||| pteABit ||| pteDBit))) 1
    (pdePBit ||| pdeRwBit ||| pdeUsBit ||| pdeABit ||| pdeDBit ||| pdePsBit)

/-- `get_pte_sub`; the result has `entries`, `*plevels` and the memory. The cursor and the entries
are what was on the stack, and `fuel` is how often one entry is tried. -/
def getPteSub (fuel : Nat) (virt cr3 : Word) (stack : Pmap) (entries : Nat → Word)
    (memory : GuestMemory) : Option (Vmmerr × (Nat → Word) × Nat × GuestMemory) :=
  if ¬d.pg then some (.success, flatEntries pteAddrMask virt entries, 1, memory)
  else do
    let (d, levels) : GetPteData × Nat :=
      if d.lme then ({ d with pae := true, pse := true }, 4)
      else if d.pae then ({ d with pse := true }, 3)
      else (d, 2)
    let m := pmapSeek (pmapOpenGuest stack cr3 levels) virt (levels + 1)
    let (entry, m, memory) ← pmapReadGuest m memory
    let entries := update entries levels (entry ||| (pdeRwBit ||| pdeUsBit ||| pdeABit))
    let (r, entries, memory) ← levelLoop pteAddrMask d fuel levels levels entries m memory
    some (r, entries, levels, memory)

end

def cpuMmuGetPte (nbits fuel : Nat) (virt cr0 cr3 cr4 efer : Word) (write user exec : Bool)
    (stack : Pmap) (entries : Nat → Word) (memory : GuestMemory) :
    Option (Vmmerr × (Nat → Word) × Nat × GuestMemory) :=
  getPteSub (getPteAddrMask nbits)
    { pg := cr0 &&& cr0PgBit ≠ 0
      wp := cr0 &&& cr0WpBit ≠ 0
      pse := cr4 &&& cr4PseBit ≠ 0
      pae := cr4 &&& cr4PaeBit ≠ 0
      lme := efer &&& msrIa32EferLmeBit ≠ 0
      nxe := efer &&& msrIa32EferNxeBit ≠ 0
      write := write, user := user, exec := exec } fuel virt cr3 stack entries memory

/-!
What a processor does for an access to a linear address: the walk through page tables of the
formats that there are, down to the entry that maps the page. Entries are checked when they are
used, from the top table down.
-/

/-- The formats of page tables: of 32-bit entries, with and without large pages, of the physical
address extension, and of long mode. -/
inductive Format where
  | bits32 (pse : Bool)
  | pae
  | long
  deriving DecidableEq

def bits (low high : Nat) : Word := BitVec.ofNat 64 (2 ^ (high + 1) - 2 ^ low)

namespace Format

def levels : Format → Nat
  | bits32 _ => 2
  | pae => 3
  | long => 4

def root (f : Format) (cr3 : Word) : Word :=
  match f with
  | bits32 _ => cr3 &&& bits 12 31
  | pae => cr3 &&& bits 5 31
  | long => cr3 &&& bits 12 47

def index (f : Format) (level : Nat) (virt : Word) : Word :=
  match f with
  | bits32 _ => (virt >>> (10 * (level - 1) + 12)) &&& bits 0 9
  | pae => (virt >>> (9 * (level - 1) + 12)) &&& if level = 3 then bits 0 1 else bits 0 8
  | long => (virt >>> (9 * (level - 1) + 12)) &&& bits 0 8

def entryAddress (f : Format) (level : Nat) (table virt : Word) : Word :=
  table ||| (f.index level virt <<< if f.levels = 2 then 2 else 3)

def MapsPage (f : Format) (level : Nat) (e : Word) : Prop :=
  level = 1 ∨ (level = 2 ∧ f ≠ bits32 false ∧ e.getLsbD 7 = true) ∨ (level = 3 ∧ f = long ∧ e.getLsbD 7 = true)

instance (f : Format) (level : Nat) (e : Word) : Decidable (f.MapsPage level e) := inferInstanceAs (Decidable (_ ∨ _))

def reserved (f : Format) (nbits : Nat) (nxe : Bool) (level : Nat) (e : Word) : Word :=
  match f with
  | bits32 pse => if pse ∧ level = 2 ∧ e.getLsbD 7 then bits 21 21 else 0
  | pae =>
    if level = 3 then bits 1 2 ||| bits 5 8 ||| bits nbits 63
    else bits nbits (if nxe then 62 else 63) |||
      if level = 2 ∧ e.getLsbD 7 then bits 13 20 else 0
  | long => bits nbits 51 ||| (if nxe then 0 else bits 63 63) |||
      match level with
      | 2 => if e.getLsbD 7 then bits 13 20 else 0
      | 3 => if e.getLsbD 7 then bits 13 29 else bits 8 8
      | 4 => bits 7 8
      | _ => 0

def frame (f : Format) (nbits level : Nat) (e virt : Word) : Word :=
  match f, level with
  | _, 1 => e &&& bits 12 (nbits - 1)
  | bits32 _, _ => (e &&& bits 22 31) ||| (((e >>> 13) &&& bits 0 7) <<< 32) ||| (virt &&& bits 12 21)
  | _, 2 => (e &&& bits 21 (nbits - 1)) ||| (virt &&& bits 12 20)
  | _, _ => (e &&& bits 30 (nbits - 1)) ||| (virt &&& bits 12 29)

end Format

@[ext] structure Rights where
  write : Bool
  user : Bool
  exec : Bool
  deriving DecidableEq

namespace Rights

def full : Rights := ⟨true, true, true⟩

def and (r r' : Rights) : Rights := ⟨r.write && r'.write, r.user && r'.user, r.exec && r'.exec⟩

def ofEntry (nxe : Bool) (e : Word) : Rights := ⟨e.getLsbD 1, e.getLsbD 2, !(nxe && e.getLsbD 63)⟩

def denies (r : Rights) (wp write user exec : Bool) : Option Vmmerr :=
  if user ∧ ¬r.user then some .pageNotAccessible
  else if write ∧ ¬r.write ∧ (wp ∨ user) then some .pageNotAccessible
  else if exec ∧ ¬r.exec then some .pageNotExecutable
  else none

end Rights

def Format.entryRights (f : Format) (nxe : Bool) (level : Nat) (e : Word) : Rights :=
  if f = .pae ∧ level = 3 then .full else .ofEntry nxe e

def Format.usedBits (f : Format) (write : Bool) (level : Nat) (e : Word) : Word :=
  if f = .pae ∧ level = 3 then 0
  else if f.MapsPage level e ∧ write then bits 5 6 else bits 5 5

inductive Outcome where
  | fault (r : Vmmerr)
  | page (frame : Word) (rights : Rights)
  deriving DecidableEq

structure Access where
  virt : Word
  write : Bool
  user : Bool
  exec : Bool

structure Paging where
  format : Format
  nbits : Nat
  wp : Bool
  nxe : Bool

def setBits (memory : GuestMemory) (address flags : Word) : GuestMemory :=
  { memory with
    tables := Function.update memory.tables address (memory.tables address ||| flags) }

def check (p : Paging) (a : Access) (level : Nat) (e : Word) : Option Vmmerr :=
  if ¬e.getLsbD 0 then some .pageNotPresent
  else if e &&& p.format.reserved p.nbits p.nxe level e ≠ 0 then some .pageBadReservedBit
  else (p.format.entryRights p.nxe level e).denies p.wp a.write a.user a.exec

/-- The walk from a table of a level down; `none` is that a table is not in plain memory. -/
def walk (p : Paging) (a : Access) : Nat → Word → Rights → GuestMemory →
    Option (Outcome × GuestMemory)
  | 0, _, _, _ => none
  | level + 1, table, rights, memory =>
    let address := p.format.entryAddress (level + 1) table a.virt
    if memory.plain address then
      let e := narrow p.format.levels (memory.tables address)
      match check p a (level + 1) e with
      | some r => some (.fault r, memory)
      | none =>
        let memory := setBits memory address (p.format.usedBits a.write (level + 1) e)
        let rights := rights.and (p.format.entryRights p.nxe (level + 1) e)
        if p.format.MapsPage (level + 1) e then
          some (.page (p.format.frame p.nbits (level + 1) e a.virt) rights, memory)
        else walk p a level (e &&& bits 12 47) rights memory
    else none

/-- The outcome in the order of the manuals: the rights of all entries count together, when the page
has been found. -/
def translation (p : Paging) (a : Access) : Nat → Word → Rights → GuestMemory → Option Outcome
  | 0, _, _, _ => none
  | level + 1, table, rights, memory =>
    let address := p.format.entryAddress (level + 1) table a.virt
    if memory.plain address then
      let e := narrow p.format.levels (memory.tables address)
      if ¬e.getLsbD 0 then some (.fault .pageNotPresent)
      else if e &&& p.format.reserved p.nbits p.nxe (level + 1) e ≠ 0 then
        some (.fault .pageBadReservedBit)
      else
        let rights := rights.and (p.format.entryRights p.nxe (level + 1) e)
        if p.format.MapsPage (level + 1) e then
          match rights.denies p.wp a.write a.user a.exec with
          | some r => some (.fault r)
          | none => some (.page (p.format.frame p.nbits (level + 1) e a.virt) rights)
        else translation p a level (e &&& bits 12 47) rights memory
    else none

structure Registers where
  cr0 : Word
  cr3 : Word
  cr4 : Word
  efer : Word

namespace Registers

def pg (r : Registers) : Bool := r.cr0.getLsbD 31

def paging (r : Registers) (nbits : Nat) : Paging where
  format :=
    if r.efer.getLsbD 8 then .long else if r.cr4.getLsbD 5 then .pae else .bits32 (r.cr4.getLsbD 4)
  nbits := nbits
  wp := r.cr0.getLsbD 16
  nxe := r.efer.getLsbD 11

end Registers

def pageWalk (nbits : Nat) (r : Registers) (a : Access) (memory : GuestMemory) : Option (Outcome × GuestMemory) :=
  if r.pg then
    let p := r.paging nbits
    walk p a p.format.levels (p.format.root r.cr3) .full memory
  else some (.page (a.virt &&& bits 12 31) .full, memory)

end DisasVisor.CpuMmu
