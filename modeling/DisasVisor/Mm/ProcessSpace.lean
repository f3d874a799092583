import DisasVisor.Mm.Buddy
import DisasVisor.Process.UserStack

/-!
The user areas of the processes in `core/mm.c`: page directories, page tables and entries, and the
`mm_process_` functions on them. A physical page is its number from `vmm_start_phys` on, as
`phys_to_page` counts.
-/

namespace DisasVisor.Mm

structure Pte where
  phys : Nat
  rw : Bool
  available1 : Bool
  available2 : Bool
  deriving DecidableEq

structure PageTable where
  phys : Nat
  entry : Nat → Option Pte

structure ProcessSpace where
  root : Nat
  table : Nat → Option PageTable

inductive Stop
  | noMemory
  | assertion
  | searching
  deriving DecidableEq

namespace ProcessSpace

variable (s : ProcessSpace) (page i : Nat)

def read : Option Pte := (s.table (page / 512)).bind fun table => table.entry (page % 512)

def write (pte : Option Pte) : ProcessSpace :=
  { s with
    table := Function.update s.table (page / 512)
      ((s.table (page / 512)).map fun table =>
        { table with entry := Function.update table.entry (page % 512) pte }) }

def setTable (table : Option PageTable) : ProcessSpace := { s with table := Function.update s.table i table }

/-- The search of `mm_process_map_shared` for a window that is not mapped before; `room` pages of
the area for it are below `uservirt`. -/
def windowDown (lent : List Nat) : Nat → List Nat → Except Stop Nat
  | room, [] => .ok (0x20000 + room)
  | 0, _ :: _ => .error .assertion
  | room + 1, _ :: rest =>
    if room = 0 then .error .assertion
    else if (s.read (0x20000 + room)).isSome then windowDown lent room lent
    else windowDown lent room rest

def windowUp (lent : List Nat) : Nat → List Nat → Except Stop Nat
  | room, [] => .ok (0x30000 - room)
  | 0, _ :: _ => .error .assertion
  | room + 1, _ :: rest =>
    if room = 0 then .error .assertion
    else if (s.read (0x30000 - (room + 1))).isSome then windowUp lent room lent
    else windowUp lent room rest

def window (lent : List Nat) (pre : Bool) : Except Stop Nat :=
  if pre then (· - lent.length) <$> s.windowUp lent 0x10000 lent else s.windowDown lent 0x10000 lent

end ProcessSpace

/-- The addresses of the pages that `mm_process_map_shared` goes through. When `virt` can not come
to `virt_e` there is no end to them. -/
def lentPages (buf : UInt64) (len : UInt32) : Option (List Nat) :=
  let virtE := (buf + len.toUInt64).toNat
  let first := buf.toNat / 4096 * 4096
  if 2 ^ 64 - 4096 < virtE then none
  else some ((List.range ((virtE - first + 4095) / 4096)).map fun k => first + 4096 * k)

structure VmmArea where
  present : UInt64 → Bool
  missing : UInt64 → Nat

inductive Lender
  | own
  | other (space : ProcessSpace)
  | vmm

structure Running where
  buddy : Buddy
  returned : List Nat
  space : ProcessSpace

namespace Running

variable (r : Running)

def allocPage : Except Stop (Nat × Running) :=
  match r.buddy.mmPageAlloc 0 with
  | none => .error .noMemory
  | some (p, buddy) => .ok (p, { r with buddy := buddy })

def freePagePhys (p : Nat) : Running := { r with buddy := r.buddy.mmPageFree p, returned := p :: r.returned }

def write (page : Nat) (pte : Option Pte) : Running := { r with space := r.space.write page pte }

def autoalloc (page : Nat) : Except Stop Running :=
  match r.space.table (page / 512) with
  | some _ => .ok r
  | none => do
    let (p, r) ← r.allocPage
    .ok { r with space := r.space.setTable (page / 512) (some { phys := p, entry := fun _ => none }) }

def autoallocVmm (r : Running) : Nat → Except Stop Running
  | 0 => .ok r
  | missing + 1 => do
    let (_, r) ← r.allocPage
    autoallocVmm r missing

def mmProcessMappage (virt : Nat) (pte : Pte) : Except Stop Running := do
  let r ← r.autoalloc (virt / 4096)
  if (r.space.read (virt / 4096)).isSome then .error .assertion
  else .ok (r.write (virt / 4096) (some pte))

def mmProcessMapstack (area : VmmArea) (virt : UInt64) (noalloc : Bool) : Except Stop (Bool × Running) :=
  if virt < 0x40000000 then do
    let page := virt.toNat / 4096
    let r ← r.autoalloc page
    match r.space.read page with
    | none =>
      if noalloc then .ok (false, r)
      else do
        let (p, r) ← r.allocPage
        .ok (true, r.write page (some { phys := p, rw := true, available1 := false, available2 := false }))
    | some pte => .ok (true, r.write page (some { pte with available1 := false }))
  else do
    let r ← r.autoallocVmm (area.missing virt)
    if area.present virt then .ok (true, r)
    else if noalloc then .ok (false, r)
    else do
      let (_, r) ← r.allocPage
      .ok (true, r)

def unmapPage (page : Nat) : Running :=
  match r.space.read page with
  | none => r
  | some pte => (if pte.available2 then r else r.freePagePhys pte.phys).write page none

def pagesOf (virt len : Nat) : List Nat := List.range' (virt / 4096) ((len + virt % 4096 + 4095) / 4096)

def mmProcessUnmap (virt len : Nat) : Option Running :=
  if virt + len ≥ 0x40000000 then none
  else some ((pagesOf virt len).foldl unmapPage r)

def mapAllocLoop (r : Running) : List Nat → Except Stop Running
  | [] => .ok r
  | page :: rest => do
    let (p, r) ← r.allocPage
    let r ← r.mmProcessMappage (page * 4096) { phys := p, rw := true, available1 := false, available2 := false }
    mapAllocLoop r rest

def mmProcessMapAlloc (virt len : Nat) : Except Stop (Bool × Running) :=
  if virt + len ≥ 0x40000000 then .ok (false, r)
  else do
    let r ← ((r.mmProcessUnmap (virt / 4096 * 4096) (len + virt % 4096)).getD r).mapAllocLoop (pagesOf virt len)
    .ok (true, r)

def mmProcessMapSharedPhyspage (virt phys : Nat) (rw : Bool) : Except Stop (Bool × Running) :=
  let virt := virt / 4096 * 4096
  if virt ≥ 0x40000000 then .ok (false, r)
  else do
    -- The last page of the user area is refused here, and was not mapped before.
    let r ← ((r.mmProcessUnmap virt 4096).getD r).mmProcessMappage virt
      { phys := phys, rw := rw, available1 := false, available2 := true }
    .ok (true, r)

def processVirtToPhys (procphys : Lender) (vmm : Nat → Option Nat) (virt : Nat) : Option Nat :=
  if virt < 0x40000000 then
    match procphys with
    | .own => (r.space.read (virt / 4096)).map (·.phys)
    | .other space => (space.read (virt / 4096)).map (·.phys)
    | .vmm => vmm virt
  else vmm virt

def mapSharedLoop (procphys : Lender) (vmm : Nat → Option Nat) (rw : Bool) (r : Running) :
    List Nat → Nat → Except Stop (Bool × Running)
  | [], _ => .ok (true, r)
  | virt :: rest, page =>
    match r.processVirtToPhys procphys vmm virt with
    | none => .ok (false, r)
    | some phys => do
      let (_, r) ← r.mmProcessMapSharedPhyspage (page * 4096) phys rw
      mapSharedLoop procphys vmm rw r rest (page + 1)

def mmProcessMapShared (procphys : Lender) (vmm : Nat → Option Nat) (buf : UInt64) (len : UInt32)
    (rw pre : Bool) : Except Stop (Option Nat × Running) :=
  if len = 0 then .ok (none, r)
  else
    match lentPages buf len with
    -- The search goes on to the end of its area.
    | none => .error .assertion
    | some lent => do
      let page ← r.space.window lent pre
      let (mapped, r) ← mapSharedLoop procphys vmm rw r lent page
      let uservirt := page * 4096 + buf.toNat % 4096
      if mapped then .ok (some uservirt, r)
      else .ok (none, (r.mmProcessUnmap uservirt len.toNat).getD r)

def unmapStackPage (page : Nat) : Running :=
  match r.space.read page with
  | none => r
  | some pte => if pte.available2 then r else r.write page (some { pte with available1 := true })

def mmProcessUnmapStack (virt len : Nat) : Option Running :=
  -- `virt -= len` wraps to an address of the VMM.
  if virt < len then none
  else if virt ≥ 0x40000000 ∨ len = 0 then none
  else some ((pagesOf (virt - len) len).foldl unmapStackPage r)

def stackPages (area : VmmArea) : Process.StackPages where
  present virt := if virt < 0x40000000 then (r.space.read (virt.toNat / 4096)).isSome else area.present virt
  available1 virt := if virt < 0x40000000 then (r.space.read (virt.toNat / 4096)).any (·.available1) else false
  kernel virt above _ := if_neg (UInt64.not_lt.mpr above)

def mapStackLoop (area : VmmArea) (noalloc : Bool) (virt : UInt64) (r : Running) :
    List UInt32 → Except Stop (Option UInt32 × Running)
  | [] => .ok (none, r)
  | i :: rest => do
    let (mapped, r) ← r.mmProcessMapstack area (virt - (i * 4096).toUInt64) noalloc
    if mapped then mapStackLoop area noalloc virt r rest else .ok (some i, r)

def mmProcessMapStack (area : VmmArea) (fuel : Nat) (len : UInt32) (noalloc align : Bool) :
    Except Stop (UInt64 × Running) :=
  let npages := (len + 4095) >>> 12
  match (r.stackPages area).search npages align fuel (Process.StackPages.stackTop npages align) with
  | none => .error .searching
  | some 0 => .ok (0, r)
  | some virt => do
    let (failed, r) ← mapStackLoop area noalloc virt r (Process.StackPages.pageNumbers npages)
    match failed with
    | none => .ok (virt + 4096, r)
    | some i => .ok (0, (r.mmProcessUnmapStack (virt + 4096).toNat (i * 4096).toNat).getD r)

def freeTable (i : Nat) : Running :=
  match r.space.table i with
  | none => r
  | some table => { r.freePagePhys table.phys with space := r.space.setTable i none }

def mmProcessUnmapall : Except Stop Running :=
  match r.mmProcessUnmap 0 (0x40000000 - 1) with
  | none => .error .assertion
  | some r => .ok ((List.range 512).foldl freeTable r)

end Running

end DisasVisor.Mm
