import DisasVisor.Lib.RadixTables
import DisasVisor.Mmio.Lookup

/-!
The extended page tables of `core/vt_ept.c`: they are filled when the guest uses an address, from a
pool of pages and by a cursor that stays where the last address was. `core/gmm_pass.c` says where
guest-physical addresses are.
-/

namespace DisasVisor.Ept

open Function Mmio

def vmmsizeAll : UInt32 := 128 * 1024 * 1024

def gmmGp2hp2mFail : UInt64 := 0xFFFFFFFFFFFFFFFF

def pagesize2m : UInt32 := 0x200000

structure Vmm where
  vmmStartPhys : UInt32
  physBlank : UInt64
  uefiMmioSpace : List (UInt64 × UInt64)
  nbits : Nat
  aligned : vmmStartPhys.toNat % 2 ^ 22 = 0
  fits : vmmStartPhys.toNat + vmmsizeAll.toNat < 2 ^ 32
  blankInside : vmmStartPhys.toNat ≤ physBlank.toNat ∧ physBlank.toNat < vmmStartPhys.toNat + vmmsizeAll.toNat
  blankAligned : physBlank.toNat % 2 ^ 12 = 0
  nbitsBounds : 32 ≤ nbits ∧ nbits ≤ 52
  spaceFits : ∀ region ∈ uefiMmioSpace, region.1.toNat + region.2.toNat * 2 ^ 12 ≤ 2 ^ min nbits 48

namespace Vmm

variable (vmm : Vmm)

def limit : Nat := 2 ^ min vmm.nbits 48

theorem limit_le : vmm.limit ≤ 2 ^ 48 := Nat.pow_le_pow_right (by omega) (Nat.min_le_right _ _)

def physInVmm (phys : UInt64) : Bool :=
  phys ≥ vmm.vmmStartPhys.toUInt64 ∧ phys < (vmm.vmmStartPhys + vmmsizeAll).toUInt64

def gp2hp (gp : UInt64) : UInt64 × Bool :=
  if vmm.physInVmm gp then (vmm.physBlank, true) else (gp, false)

def gp2hp2m (gp : UInt64) : UInt64 :=
  if gp &&& 0x1FFFFF ≠ 0 then gmmGp2hp2mFail
  else if vmm.physInVmm gp then gmmGp2hp2mFail
  else gp

def getforcemap (n : Nat) : Nat × UInt64 × UInt64 :=
  let region := vmm.uefiMmioSpace.getD n (0, 0)
  let len := region.2 <<< 12
  (if len > 0 then n + 1 else 0, region.1, len)

end Vmm

structure Mtrr where
  getGmtrrType : UInt64 → UInt32
  gmtrrTypeEqual : UInt64 → Bool
  valid : ∀ gphys, getGmtrrType gphys < 8

def numOfEptbl : Nat := 1024
def epteRead : UInt64 := 0x1
def epteReadexec : UInt64 := 0x5
def epteWrite : UInt64 := 0x2
def epteLarge : UInt64 := 0x80
def epteMtShift : UInt32 := 3
def eptLevels : Nat := 4

structure EntryPtr where
  page : UInt64
  index : UInt64
  deriving DecidableEq

def physToVirt (e : UInt64) : EntryPtr where
  page := e &&& ~~~0xFFF
  index := (e &&& 0xFFF) >>> 3

structure TablePages (vmm : Vmm) where
  ncr3tbl : UInt64
  tbl : Nat → UInt64
  distinct : ∀ i j, i < numOfEptbl → j < numOfEptbl → tbl i = tbl j → i = j
  notRoot : ∀ i, i < numOfEptbl → tbl i ≠ ncr3tbl
  notBlank : ∀ i, i < numOfEptbl → tbl i ≠ vmm.physBlank
  inside : ∀ i, i < numOfEptbl → vmm.physInVmm (tbl i) = true
  tblAligned : ∀ i, i < numOfEptbl → (tbl i).toNat % 2 ^ 12 = 0

structure VtEpt (vmm : Vmm) where
  pages : TablePages vmm
  cnt : Nat
  cleared : Bool
  curLevel : Nat
  curGphys : UInt64
  curEntry : Nat → EntryPtr
  mem : UInt64 → UInt64 → UInt64

variable {vmm : Vmm}

namespace VtEpt

def read (ept : VtEpt vmm) (p : EntryPtr) : UInt64 := ept.mem p.page p.index

def write (ept : VtEpt vmm) (p : EntryPtr) (e : UInt64) : VtEpt vmm :=
  { ept with mem := update ept.mem p.page (update (ept.mem p.page) p.index e) }

def zero (ept : VtEpt vmm) (page : UInt64) : VtEpt vmm := { ept with mem := update ept.mem page fun _ => 0 }

end VtEpt

def vtEptInit (pages : TablePages vmm) (curGphys : UInt64) (curEntry : Nat → EntryPtr)
    (mem : UInt64 → UInt64 → UInt64) : VtEpt vmm :=
  { pages := pages, cnt := 0, cleared := true, curLevel := eptLevels, curGphys := curGphys,
    curEntry := curEntry, mem := mem : VtEpt vmm }.zero pages.ncr3tbl

def moveMask (level : Nat) : UInt64 := 0xFFFFFFFFFFFFF000 <<< UInt64.ofNat (9 * level)

def tableIndex (gphys : UInt64) (level : Nat) : UInt64 := (gphys >>> UInt64.ofNat (9 * level + 3)) &&& 0x1FF

def seekUp (gphys curGphys : UInt64) : Nat → Nat → Nat
  | 0, level => level
  | left + 1, level =>
    if gphys &&& moveMask level ≠ curGphys &&& moveMask level then
      seekUp gphys curGphys left (level + 1)
    else level

def seekDown (gphys : UInt64) : Nat → VtEpt vmm → EntryPtr → VtEpt vmm
  | 0, ept, _ => ept
  | level + 1, ept, p =>
    let e := ept.read p
    if e &&& epteRead = 0 ∨ e &&& epteLarge ≠ 0 then ept
    else
      let e := e &&& ~~~0xFFF
      let e := e ||| ((gphys >>> UInt64.ofNat (9 * (level + 1))) &&& 0xFF8)
      let p := physToVirt e
      seekDown gphys level { ept with curLevel := level, curEntry := update ept.curEntry level p } p

def curMove (ept : VtEpt vmm) (gphys : UInt64) : VtEpt vmm :=
  let level := seekUp gphys ept.curGphys (eptLevels - ept.curLevel) ept.curLevel
  let ept := { ept with curLevel := level, curGphys := gphys }
  if level = 0 then ept
  else if level ≥ eptLevels then
    let p : EntryPtr := { page := ept.pages.ncr3tbl, index := tableIndex gphys eptLevels }
    seekDown gphys (eptLevels - 1)
      { ept with curEntry := update ept.curEntry (eptLevels - 1) p,
                 curLevel := eptLevels - 1 } p
  else seekDown gphys level ept (ept.curEntry level)

def fillLoop (gphys : UInt64) : Nat → Nat → VtEpt vmm → EntryPtr → VtEpt vmm × EntryPtr
  | 0, _, ept, p => (ept, p)
  | left + 1, l, ept, p =>
    let page := ept.pages.tbl ept.cnt
    let ept := ept.write p (page ||| (epteReadexec ||| epteWrite))
    let ept := { ept with cnt := ept.cnt + 1 }
    fillLoop gphys left (l - 1) (ept.zero page) { page := page, index := tableIndex gphys l }

def VtEpt.reset (ept : VtEpt vmm) : VtEpt vmm :=
  { ept.zero ept.pages.ncr3tbl with cleared := true, cnt := 0, curLevel := eptLevels - 1 }

def curFill (ept : VtEpt vmm) (gphys : UInt64) (level : Nat) : VtEpt vmm × EntryPtr :=
  let ept := if ept.cnt + ept.curLevel - level > numOfEptbl then ept.reset else ept
  fillLoop gphys (ept.curLevel - level) ept.curLevel ept (ept.curEntry ept.curLevel)

section

variable (mtrr : Mtrr)

def pageAttr (gphys : UInt64) (fakerom : Bool) : UInt32 :=
  let hattr := mtrr.getGmtrrType gphys <<< epteMtShift ||| (0x5 ||| 0x2)
  if fakerom then hattr &&& ~~~0x2 else hattr

def vtEptMapPageSub (ept : VtEpt vmm) (write : Bool) (gphys : UInt64) : Option (VtEpt vmm) :=
  let (ept, p) := curFill (curMove ept gphys) gphys 0
  let (hp, fakerom) := vmm.gp2hp gphys
  let hphys := hp &&& ~~~0xFFF
  if fakerom && write then none
  else some (ept.write p (hphys ||| (pageAttr mtrr gphys fakerom).toUInt64))

def vtEptMap2mpage (ept : VtEpt vmm) (gphys : UInt64) : VtEpt vmm × Bool :=
  let ept := curMove ept gphys
  if ept.curLevel = 0 then (ept, true)
  else
    let hphys := vmm.gp2hp2m (gphys &&& ~~~0x1FFFFF)
    if hphys = gmmGp2hp2mFail then (ept, true)
    else if ¬mtrr.gmtrrTypeEqual (gphys &&& ~~~0x1FFFFF) then (ept, true)
    else
      let hattr := mtrr.getGmtrrType (gphys &&& ~~~0x1FFFFF) <<< epteMtShift ||| (0x5 ||| 0x2 ||| 0x80)
      let (ept, p) := curFill ept gphys 1
      (ept.write p (hphys ||| hattr.toUInt64), false)

def vtEptLevel (ept : VtEpt vmm) (gphys : UInt64) : VtEpt vmm × Nat :=
  let ept := curMove ept gphys
  (ept, ept.curLevel)

variable (mmio : MmioData)

def tryMap2mpage (ept : VtEpt vmm) (gphys : UInt64) : VtEpt vmm × Bool :=
  let (ept, level) := vtEptLevel ept gphys
  if level > 0 ∧ mmio.mmioRange (gphys &&& ~~~0x1FFFFF) pagesize2m = 0 then
    let (ept, failed) := vtEptMap2mpage mtrr ept gphys
    (ept, !failed)
  else (ept, false)

def forceStep (ept : VtEpt vmm) (base : UInt64) : Option (VtEpt vmm × UInt64) :=
  let (ept, mapped) := tryMap2mpage mtrr mmio ept base
  if mapped then some (ept, (base ||| 0x1FFFFF) + 1 - base)
  else
    let nextPhys := mmio.mmioRange base pageSize
    if nextPhys = 0 then
      (vtEptMapPageSub mtrr ept true base).map fun ept => (ept, 0x1000)
    else some (ept, (nextPhys - base + 0x1000 - 1) &&& ~~~0xFFF)

def forceLoop : Nat → VtEpt vmm → UInt64 → UInt64 → Option (VtEpt vmm)
  | 0, _, _, _ => none
  | fuel + 1, ept, base, len =>
    if len > 0 then
      match forceStep mtrr mmio ept base with
      | none => none
      | some (ept, size) =>
        let size := if size > len then len else size
        forceLoop fuel ept (base + size) (len - size)
    else some ept

def regionLoop : Nat → Nat → VtEpt vmm → Option (VtEpt vmm)
  | 0, _, _ => none
  | fuel + 1, n, ept =>
    let (nn, base, len) := vmm.getforcemap n
    let ept :=
      if len = 0 then some ept
      else
        let len := len + (base &&& 0xFFF)
        let base := base &&& ~~~0xFFF
        forceLoop mtrr mmio (len.toNat / 4096 + 2) ept base len
    if nn = 0 then ept else ept.bind (regionLoop fuel nn)

def vtEptMapPageClearCleared (ept : VtEpt vmm) : Option (VtEpt vmm) := do
  let ept ← regionLoop mtrr mmio (vmm.uefiMmioSpace.length + 1) 0 { ept with cleared := false }
  if ept.cleared then none else some ept

def handleCleared (ept : VtEpt vmm) : Option (VtEpt vmm) :=
  if ept.cleared then vtEptMapPageClearCleared mtrr mmio ept else some ept

def vtEptMapPage (ept : VtEpt vmm) (write : Bool) (gphys : UInt64) : Option (VtEpt vmm) := do
  let ept ← handleCleared mtrr mmio ept
  let ept ← vtEptMapPageSub mtrr ept write gphys
  handleCleared mtrr mmio ept

inductive Handled where
  | page2m
  | page
  | emulated
  deriving DecidableEq

def vtEptViolation (ept : VtEpt vmm) (write : Bool) (gphys : UInt64) : Option (VtEpt vmm × Handled) :=
  let (ept, mapped) := tryMap2mpage mtrr mmio ept gphys
  if mapped then some (ept, .page2m)
  else if mmio.mmioAccessPage gphys then some (ept, .emulated)
  else (vtEptMapPage mtrr mmio ept write gphys).map fun ept => (ept, .page)

end

def vtEptClearAll (ept : VtEpt vmm) : VtEpt vmm :=
  { ept.zero ept.pages.ncr3tbl with cleared := true, cnt := 0, curLevel := eptLevels }

def map1mbPage (mtrr : Mtrr) (mmio : MmioData) (ept : VtEpt vmm) (gphys : UInt64) : Option (VtEpt vmm) :=
  if mmio.mmioAccessPage gphys then some ept else vtEptMapPage mtrr mmio ept false gphys

def map1mbLoop (mtrr : Mtrr) (mmio : MmioData) : List Nat → VtEpt vmm → Option (VtEpt vmm)
  | [], ept => some ept
  | n :: rest, ept => (map1mbPage mtrr mmio ept (UInt64.ofNat (n * 4096))).bind (map1mbLoop mtrr mmio rest)

def vtEptMap1mb (mtrr : Mtrr) (mmio : MmioData) (ept : VtEpt vmm) : Option (VtEpt vmm) :=
  map1mbLoop mtrr mmio (List.range 256) (vtEptClearAll ept)

end DisasVisor.Ept
