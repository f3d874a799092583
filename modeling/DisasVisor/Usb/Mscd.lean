import DisasVisor.Storage.Sectors
import DisasVisor.Lib.Indices
import DisasVisor.Storage.Contract

/-!
The filter for USB mass storage of `drivers/usb/usb_mscd.c`: the hooks on the bulk transfers, and the pass
over the buffers of a transfer that encrypts or decrypts them.
-/

namespace DisasVisor.Usb.Msc

open DisasVisor.Storage

def pidIn : UInt8 := 0x69

def pidOut : UInt8 := 0xE1

/-- `struct usb_buffer_list` with the memory that it names; `shadow` says that `vadr` is set, which is so for
the buffers of the VMM and not for those of the guest. -/
structure Buffer where
  pid : UInt8
  shadow : Bool
  bytes : List UInt8
  deriving DecidableEq

def Buffer.len (ub : Buffer) : ℕ := ub.bytes.length

def Buffer.put (ub : Buffer) (bytes : List UInt8) : Buffer := { ub with bytes := bytes ++ ub.bytes.drop bytes.length }

inductive Vadr
  | shadow
  | mapped
  | temporary (n : ℕ)
  deriving DecidableEq

inductive MemOp
  | alloc (n : ℕ)
  | free (vadr : Vadr)
  | unmapmem (vadr : Vadr)
  deriving DecidableEq

structure Prepared where
  bytes : List UInt8
  srcVadr : Vadr
  destVadr : Vadr
  ops : List MemOp

def concat (blockLen : ℕ) : ℕ → List Buffer → List UInt8
  | _, [] => []
  | len, ub :: rest =>
    if (len + ub.len) % blockLen = 0 then ub.bytes else ub.bytes ++ concat blockLen (len + ub.len) rest

def prepareBuffers (blockLen n : ℕ) (src : Buffer) (rest : List Buffer) (dest : Buffer) : Option Prepared :=
  if src.len % blockLen ≠ 0 then
    some ⟨concat blockLen 0 (src :: rest), .temporary n, .temporary (n + 1), [.alloc n, .alloc (n + 1)]⟩
  else if src.shadow then some ⟨src.bytes, .shadow, .mapped, []⟩
  else if dest.shadow then some ⟨src.bytes, .mapped, .shadow, []⟩
  else none

/-- The last loop of `windup_buffers`: the buffers that are passed and those that are left. -/
def distribute : List UInt8 → List Buffer → Option (List Buffer × List Buffer)
  | [], dest => some ([], dest)
  | _ :: _, [] => none
  | byte :: bytes, ub :: dest =>
    (distribute ((byte :: bytes).drop ub.len) dest).map fun (done, left) =>
      (ub.put ((byte :: bytes).take ub.len) :: done, left)

def windupBuffers (p : Prepared) (coded : List UInt8) (ub : Buffer) (dest : List Buffer) :
    Option (List Buffer × List Buffer × List MemOp) :=
  if p.destVadr = .shadow ∧ ub.shadow then some ([ub.put coded], dest, [.unmapmem p.srcVadr])
  else if coded.length = ub.len then
    some ([if p.destVadr = .mapped then ub.put coded else ub], dest, [.unmapmem p.destVadr])
  else (distribute coded (ub :: dest)).map fun (done, left) => (done, left, [.free p.srcVadr, .free p.destVadr])

variable {κ : Type}

structure Coded where
  dest : List Buffer
  nBlocks : ℕ
  ops : List MemOp

def blockLen (sectorSize : Int32) : ℕ := sectorSize.toInt64.toUInt64.toNat

/-- The loop of `usbmsc_code_buffers`; each pass takes a buffer at least. Memory of `alloc` that nothing wrote
to is 0 here. -/
def codeLoop (storage : List (StorageKeys κ)) (sectorSize : Int32) (write : Bool) (pid : UInt8) :
    ℕ → ℕ → UInt64 → ℕ → List Buffer → List Buffer → Option Coded
  | 0, _, _, _, dest, _ => some ⟨dest, 0, []⟩
  | _ + 1, _, _, _, [], _ => some ⟨[], 0, []⟩
  | _ + 1, _, _, _, dest, [] => some ⟨dest, 0, []⟩
  | fuel + 1, n, lba, length, d :: dest, s :: src =>
    if s.len = 0 ∨ s.pid ≠ pid then some ⟨d :: dest, 0, []⟩
    else do
      let p ← prepareBuffers (blockLen sectorSize) n s src d
      let count := p.bytes.length / blockLen sectorSize
      let out ← storageHandleSectors storage ⟨lba, UInt32.ofNat count, sectorSize, write⟩ false p.bytes
      let coded := out ++ List.replicate (p.bytes.length - out.length) 0
      let (done, left, ops) ← windupBuffers p coded d dest
      let length := length - blockLen sectorSize * count
      let later ←
        if 0 < length then
          codeLoop storage sectorSize write pid fuel (n + 2) (lba + UInt64.ofNat count) length left
            ((s :: src).drop done.length)
        else some ⟨left, 0, []⟩
      some ⟨done ++ later.dest, count + later.nBlocks, p.ops ++ ops ++ later.ops⟩

/-- `struct usbmsc_unit`; the keys of `storage` are those that `storage_new` found. -/
structure MscUnit (κ : Type) where
  command : UInt8
  nBlocks : UInt32
  lba : UInt32
  length : UInt64
  storageSectorSize : Int32
  storage : List (StorageKeys κ)

structure MscDevice (κ : Type) where
  tag : UInt32
  lunMax : Fin 16
  lun : Fin 16
  unit : Fin 16 → MscUnit κ

def MscDevice.setUnit (dev : MscDevice κ) (lun : Fin 16) (unit : MscUnit κ) : MscDevice κ :=
  { dev with unit := Function.update dev.unit lun unit }

def tentativeSectorSize (unit : MscUnit κ) : Option Int32 :=
  if unit.storageSectorSize ≠ 0 then some unit.storageSectorSize
  else if unit.nBlocks = 0 then none
  else some (unit.length / unit.nBlocks.toUInt64).toUInt32.toInt32

/-- `usbmsc_code_buffers` for the unit `mscdev->unit[mscdev->lun]`. -/
def usbmscCodeBuffers (dev : MscDevice κ) (dest src : List Buffer) (pid : UInt8) (length : ℕ) (write : Bool) :
    Option (MscDevice κ × Coded) := do
  let sectorSize ← tentativeSectorSize (dev.unit dev.lun)
  if sectorSize = 0 then none
  else
    let coded ← codeLoop (dev.unit dev.lun).storage sectorSize write pid src.length 0
      (dev.unit dev.lun).lba.toUInt64 length dest src
    some (dev.setUnit dev.lun { dev.unit dev.lun with storageSectorSize := sectorSize }, coded)

def byteAt (bytes : List UInt8) (i : ℕ) : UInt8 := bytes.getD i 0

def le32 (bytes : List UInt8) (i : ℕ) : UInt32 :=
  (byteAt bytes i).toUInt32 ||| (byteAt bytes (i + 1)).toUInt32 <<< 8 |||
    (byteAt bytes (i + 2)).toUInt32 <<< 16 ||| (byteAt bytes (i + 3)).toUInt32 <<< 24

def be32 (bytes : List UInt8) (i : ℕ) : UInt32 :=
  (byteAt bytes i).toUInt32 <<< 24 ||| (byteAt bytes (i + 1)).toUInt32 <<< 16 |||
    (byteAt bytes (i + 2)).toUInt32 <<< 8 ||| (byteAt bytes (i + 3)).toUInt32

def be16 (bytes : List UInt8) (i : ℕ) : UInt32 := (byteAt bytes i).toUInt32 <<< 8 ||| (byteAt bytes (i + 1)).toUInt32

def cbwcb (i : ℕ) : ℕ := 15 + i

def cbwUnit (unit : MscUnit κ) (cbw : List UInt8) : MscUnit κ :=
  let unit := { unit with command := byteAt cbw (cbwcb 0), length := (le32 cbw 8).toUInt64 }
  match byteAt cbw (cbwcb 0) with
  | 0x28 | 0x2A => { unit with lba := be32 cbw (cbwcb 2), nBlocks := be16 cbw (cbwcb 7) }
  | 0xA8 | 0xAA => { unit with lba := be32 cbw (cbwcb 2), nBlocks := be32 cbw (cbwcb 6) }
  | _ => unit

def cbwLun (lunMax : Fin 16) (cbw : List UInt8) : Fin 16 :=
  let lun := Fin.ofNat 16 ((byteAt cbw 13) &&& 0x0F).toNat
  if lunMax < lun then 0 else lun

def usbmscCbwParser (dev : MscDevice κ) (cbw : List UInt8) : MscDevice κ :=
  let lun := cbwLun dev.lunMax cbw
  { dev.setUnit lun (cbwUnit (dev.unit lun) cbw) with tag := le32 cbw 4, lun := lun }

def usbmscCopyBuffer : ℕ → List Buffer → List Buffer → List Buffer
  | len, d :: dest, s :: src =>
    let clen := min len s.len
    d.put (s.bytes.take clen) :: if 0 < len - clen then usbmscCopyBuffer (len - clen) dest src else dest
  | _, dest, _ => dest

/-- The counters after coded blocks: `n_blocks` is an `int`, and so is its product with the sector size. -/
def MscUnit.advance (unit : MscUnit κ) (nBlocks : ℕ) : MscUnit κ :=
  let n := if unit.nBlocks < UInt32.ofNat nBlocks then unit.nBlocks else UInt32.ofNat nBlocks
  { unit with
    length := unit.length - (unit.storageSectorSize * n.toInt32).toInt64.toUInt64
    nBlocks := unit.nBlocks - n
    lba := unit.lba + n }

/-- What a hook leaves: the state, the buffers that the transfer goes on with (`none` is
`USB_HOOK_DISCARD`), and what was done to memory. -/
structure Hooked (κ : Type) where
  dev : MscDevice κ
  buffers : Option (List Buffer)
  ops : List MemOp

def passThrough (command : UInt8) : Bool :=
  match command with
  | 0xB6 | 0x55 | 0x5D | 0x04 | 0x1B | 0xFF => true
  | _ => false

def isWrite (command : UInt8) : Bool := command = 0x2A || command = 0xAA

def isRead (command : UInt8) : Bool := command = 0x28 || command = 0xA8

def isSecurity (command : UInt8) : Bool := command = 0xA2 || command = 0xB5

def shadowData (dev : MscDevice κ) (lun : Fin 16) (gub hub : List Buffer) : Option (Hooked κ) :=
  let unit := dev.unit lun
  if isWrite unit.command then do
    let (dev, coded) ← usbmscCodeBuffers dev hub gub pidOut unit.length.toNat true
    some ⟨dev.setUnit lun ((dev.unit lun).advance coded.nBlocks), some coded.dest, coded.ops⟩
  else if passThrough unit.command then
    some ⟨dev.setUnit lun { unit with length := 0 }, some (usbmscCopyBuffer unit.length.toNat hub gub), []⟩
  else some ⟨dev.setUnit lun { unit with length := 0 }, none, []⟩

def cbwSignature : List UInt8 := [0x55, 0x53, 0x42, 0x43]

def cswSignature : List UInt8 := [0x55, 0x53, 0x42, 0x53]

def takenForCbw (ub : Buffer) : Bool := ub.len = 31 && ub.bytes.take 4 = cbwSignature

def usbmscShadowOutbuf (dev : MscDevice κ) : List Buffer → List Buffer → Option (Hooked κ)
  | g :: gub, h :: hub =>
    -- mscunit is not looked up again after the wrapper is parsed.
    let lun := dev.lun
    if takenForCbw g then
      let h := h.put g.bytes
      let dev := usbmscCbwParser dev h.bytes
      if isSecurity (dev.unit lun).command then some ⟨dev, none, []⟩
      else if gub = [] ∨ hub = [] then some ⟨dev, some (h :: hub), []⟩
      else (shadowData dev lun gub hub).map fun r => { r with buffers := r.buffers.map (h :: ·) }
    else shadowData dev lun (g :: gub) (h :: hub)
  | _, hub => some ⟨dev, some hub, []⟩

def passThroughIn (command : UInt8) : Bool :=
  match command with
  | 0x46 | 0x03 | 0x12 | 0x1A | 0x23 | 0x3C | 0x4A | 0x42 | 0x43 | 0x51 | 0x52 | 0x5A | 0x5C | 0xA4 | 0xAC
  | 0xAD | 0xB9 | 0xBE | 0x06 | 0xD4 | 0xD5 | 0xD8 | 0xD9 | 0xFF => true
  | _ => false

def copybackData (dev : MscDevice κ) (gub hub : List Buffer) (h : Buffer) (actlen : ℕ) : Option (Hooked κ) :=
  let unit := dev.unit dev.lun
  if passThroughIn unit.command then
    some ⟨dev.setUnit dev.lun { unit with length := 0 }, some (usbmscCopyBuffer unit.length.toNat gub hub), []⟩
  else if unit.command = 0x25 then
    some ⟨dev.setUnit dev.lun { unit with storageSectorSize := (be32 h.bytes 4).toInt32, length := 0 },
      some (usbmscCopyBuffer unit.length.toNat gub hub), []⟩
  else if isRead unit.command then do
    let (dev, coded) ← usbmscCodeBuffers dev gub hub pidIn actlen false
    some ⟨dev.setUnit dev.lun ((dev.unit dev.lun).advance coded.nBlocks), some coded.dest, coded.ops⟩
  else some ⟨dev.setUnit dev.lun { unit with length := 0 }, some gub, []⟩

def usbmscCswParser (dev : MscDevice κ) (csw : List UInt8) : Bool := le32 csw 4 ≠ dev.tag || byteAt csw 12 ≠ 0

def usbmscCopybackShadow (dev : MscDevice κ) (gub : List Buffer) (actlen : ℕ) : List Buffer → Option (Hooked κ)
  | [] => some ⟨dev, some gub, []⟩
  | h :: hub =>
    if h.bytes.take 4 = cswSignature ∧ actlen = 13 then
      let unit := dev.unit dev.lun
      let sectorSize :=
        if usbmscCswParser dev h.bytes ∧ unit.command = 0x25 then 0 else unit.storageSectorSize
      if gub.length = 1 ∧ hub = [] then
        some ⟨dev.setUnit dev.lun
            { unit with command := 0, lba := 0, nBlocks := 0, storageSectorSize := sectorSize },
          some (usbmscCopyBuffer h.len gub [h]), []⟩
      else none
    else copybackData dev gub (h :: hub) h actlen

/-!
The pass over the buffers of a transfer: whatever their lengths, all the sectors of a transfer are encrypted
or decrypted where they are on the device.
-/

open List

def content (list : List Buffer) : List UInt8 := list.flatMap Buffer.bytes

@[simp] theorem content_nil : content [] = [] := rfl

@[simp] theorem content_cons (ub : Buffer) (list : List Buffer) : content (ub :: list) = ub.bytes ++ content list := by
  simp [content]

@[simp] theorem content_append (front back : List Buffer) : content (front ++ back) = content front ++ content back := by
  simp [content]

theorem length_content_cons (ub : Buffer) (list : List Buffer) :
    (content (ub :: list)).length = ub.len + (content list).length := by
  rw [content_cons, length_append]
  rfl

def Buffer.form (ub : Buffer) : UInt8 × Bool × ℕ := (ub.pid, ub.shadow, ub.len)

theorem form_put {ub : Buffer} {bytes : List UInt8} (same : bytes.length = ub.len) : (ub.put bytes).form = ub.form := by
  have length : (ub.put bytes).len = ub.len := by
    simp only [Buffer.put, Buffer.len, length_append, length_drop] at same ⊢
    omega
  rw [Buffer.form, length]
  rfl

theorem bytes_put {ub : Buffer} {bytes : List UInt8} (same : bytes.length = ub.len) : (ub.put bytes).bytes = bytes := by
  simp only [Buffer.put, Buffer.len] at same ⊢
  rw [same, drop_length, append_nil]

def Filled (list : List Buffer) : Prop := ∀ ub ∈ list, 0 < ub.len

/-- A source and a destination of a transfer: as long as each other, buffer for buffer, one of the guest and
the other of the VMM. -/
structure Paired (pid : UInt8) (dest src : List Buffer) : Prop where
  lengths : dest.map Buffer.len = src.map Buffer.len
  kinds : (∀ ub ∈ dest, ub.shadow = true) ∧ (∀ ub ∈ src, ub.shadow = false) ∨
    (∀ ub ∈ dest, ub.shadow = false) ∧ ∀ ub ∈ src, ub.shadow = true
  filled : Filled src
  pids : ∀ ub ∈ src, ub.pid = pid

theorem concat_front (size : ℕ) (src : List Buffer) : ∀ len : ℕ, src ≠ [] → (len + (content src).length) % size = 0 →
    ∃ front back, src = front ++ back ∧ front ≠ [] ∧ concat size len src = content front ∧
      (len + (content front).length) % size = 0 := by
  induction src with
  | nil => exact fun _ absent => absurd rfl absent
  | cons ub src ih =>
    intro len _ whole
    rw [length_content_cons, ← Nat.add_assoc] at whole
    by_cases aligned : (len + ub.len) % size = 0
    · refine ⟨[ub], src, rfl, by simp, by simp [concat, aligned], ?_⟩
      rwa [length_content_cons]
    · have more : src ≠ [] := by
        rintro rfl
        exact aligned whole
      obtain ⟨front, back, rfl, -, joined, ends⟩ := ih _ more whole
      refine ⟨ub :: front, back, rfl, by simp, ?_, ?_⟩
      · rw [concat, if_neg aligned, joined, content_cons]
      · rwa [length_content_cons, ← Nat.add_assoc]

theorem distribute_front (front : List Buffer) : ∀ (coded : List UInt8) (back : List Buffer), Filled front →
    coded.length = (content front).length →
      ∃ done, distribute coded (front ++ back) = some (done, back) ∧ content done = coded ∧
        done.map Buffer.form = front.map Buffer.form := by
  induction front with
  | nil =>
    intro coded back _ length
    cases length_eq_zero_iff.mp length
    exact ⟨[], by cases back <;> rfl, rfl, rfl⟩
  | cons ub front ih =>
    intro coded back filled length
    rw [length_content_cons] at length
    have positive := filled ub mem_cons_self
    obtain ⟨done, rest, bytes, forms⟩ := ih (coded.drop ub.len) back
      (fun other member => filled other (mem_cons_of_mem _ member)) (by rw [length_drop]; omega)
    have part : (coded.take ub.len).length = ub.len := by
      rw [length_take]
      omega
    refine ⟨ub.put (coded.take ub.len) :: done, ?_, ?_, ?_⟩
    · cases coded with
      | nil => simp only [length_nil] at length; omega
      | cons byte coded => rw [cons_append, distribute, rest]; rfl
    · rw [content_cons, bytes_put part, bytes, take_append_drop]
    · rw [map_cons, map_cons, form_put part, forms]

inductive Passes : ℕ → List MemOp → Prop
  | nil (n) : Passes n []
  | mapped {n later} : Passes (n + 2) later → Passes n (.unmapmem .mapped :: later)
  | temporary {n later} : Passes (n + 2) later →
      Passes n (.alloc n :: .alloc (n + 1) :: .free (.temporary n) :: .free (.temporary (n + 1)) :: later)

variable {n : ℕ} {sectorSize : Int32}

theorem Passes.bound {ops : List MemOp} (passes : Passes n ops) :
    ∀ m < n, .alloc m ∉ ops ∧ .free (.temporary m) ∉ ops := by
  induction passes with
  | nil => simp
  | mapped _ ih =>
    intro m below
    have later := ih m (by omega)
    simp [later]
  | temporary _ ih =>
    intro m below
    have later := ih m (by omega)
    simp [later]
    omega

theorem Passes.freed {ops : List MemOp} (passes : Passes n ops) :
    ∀ m, ops.count (.free (.temporary m)) = ops.count (.alloc m) ∧ ops.count (.alloc m) ≤ 1 ∧
      .unmapmem (.temporary m) ∉ ops := by
  induction passes with
  | nil => simp
  | mapped _ ih =>
    intro m
    simpa using ih m
  | @temporary n later passes ih =>
    intro m
    have rest := ih m
    by_cases own : m = n ∨ m = n + 1
    · have absent := passes.bound m (by omega)
      have none : later.count (.alloc m) = 0 := count_eq_zero.mpr absent.1
      have noFree : later.count (.free (.temporary m)) = 0 := count_eq_zero.mpr absent.2
      rcases own with rfl | rfl <;> simp [count_cons, none, noFree, rest.2.2]
    · have left : n ≠ m := fun same => own (.inl same.symm)
      have right : n + 1 ≠ m := fun same => own (.inr same.symm)
      simpa [count_cons, left, right] using rest

variable {pid : UInt8} {dest src : List Buffer}

theorem Paired.length_eq (paired : Paired pid dest src) : (content dest).length = (content src).length := by
  have lengths := congrArg List.sum paired.lengths
  simp only [content, length_flatMap]
  exact lengths

theorem Paired.split {front back : List Buffer} (paired : Paired pid dest (front ++ back)) :
    ∃ destFront destBack, dest = destFront ++ destBack ∧ Paired pid destFront front ∧ Paired pid destBack back := by
  obtain ⟨lengths, kinds, filled, pids⟩ := paired
  rw [map_append] at lengths
  obtain ⟨destFront, destBack, rfl, first, second⟩ := map_eq_append_iff.mp lengths
  simp only [forall_mem_append, Filled] at kinds filled pids
  refine ⟨destFront, destBack, rfl, ⟨first, ?_, filled.1, pids.1⟩, ⟨second, ?_, filled.2, pids.2⟩⟩
  · exact kinds.imp (fun both => ⟨both.1.1, both.2.1⟩) fun both => ⟨both.1.1, both.2.1⟩
  · exact kinds.imp (fun both => ⟨both.1.2, both.2.2⟩) fun both => ⟨both.1.2, both.2.2⟩

theorem Paired.filledDest (paired : Paired pid dest src) : Filled dest := by
  intro ub member
  have length : ub.len ∈ src.map Buffer.len := by
    rw [← paired.lengths]
    exact mem_map_of_mem member
  obtain ⟨other, among, same⟩ := mem_map.mp length
  rw [← same]
  exact paired.filled other among

theorem pass_buffers {size : ℕ} {d s : Buffer} (paired : Paired pid (d :: dest) (s :: src))
    (whole : (content (s :: src)).length % size = 0) :
    ∃ front back destFront destBack p, s :: src = front ++ back ∧ d :: dest = destFront ++ destBack ∧ front ≠ [] ∧
      Paired pid destFront front ∧ Paired pid destBack back ∧ prepareBuffers size n s src d = some p ∧
      p.bytes = content front ∧ (content front).length % size = 0 ∧
      ∀ coded : List UInt8, coded.length = p.bytes.length →
        ∃ done ops, windupBuffers p coded d dest = some (done, destBack, ops) ∧ content done = coded ∧
          done.map Buffer.form = destFront.map Buffer.form ∧
          ∀ later, Passes (n + 2) later → Passes n (p.ops ++ ops ++ later) := by
  by_cases aligned : s.len % size = 0
  · have split : Paired pid (d :: dest) ([s] ++ src) := paired
    obtain ⟨destFront, destBack, same, first, second⟩ := split.split
    have single : destFront = [d] ∧ destBack = dest := by
      have length := congrArg List.length first.lengths
      rw [length_map, length_map] at length
      obtain ⟨only, rfl⟩ := length_eq_one_iff.mp length
      rw [singleton_append, List.cons.injEq] at same
      exact ⟨by rw [same.1], same.2.symm⟩
    obtain ⟨rfl, rfl⟩ := single
    have length : d.len = s.len := by simpa using first.lengths
    have bytes : content [s] = s.bytes := by simp
    rcases paired.kinds with ⟨shadow, guest⟩ | ⟨guest, shadow⟩
    · have own := shadow d mem_cons_self
      refine ⟨[s], src, [d], destBack, ⟨s.bytes, .mapped, .shadow, []⟩, rfl, rfl, by simp, first, second, ?_,
        bytes.symm, by rwa [bytes], fun coded same => ⟨[d.put coded], [.unmapmem .mapped], ?_, ?_, ?_, ?_⟩⟩
      · simp [prepareBuffers, aligned, guest s mem_cons_self, own]
      · simp [windupBuffers, own]
      · simp [bytes_put (same.trans length.symm)]
      · simp [form_put (same.trans length.symm)]
      · exact fun later => Passes.mapped
    · have own := guest d mem_cons_self
      refine ⟨[s], src, [d], destBack, ⟨s.bytes, .shadow, .mapped, []⟩, rfl, rfl, by simp, first, second, ?_,
        bytes.symm, by rwa [bytes], fun coded same => ⟨[d.put coded], [.unmapmem .mapped], ?_, ?_, ?_, ?_⟩⟩
      · simp [prepareBuffers, aligned, shadow s mem_cons_self]
      · have sameLength : coded.length = d.len := same.trans length.symm
        simp [windupBuffers, sameLength]
      · simp [bytes_put (same.trans length.symm)]
      · simp [form_put (same.trans length.symm)]
      · exact fun later => Passes.mapped
  · obtain ⟨front, back, split, nonempty, joined, ends⟩ := concat_front size (s :: src) 0 (by simp)
      (by rwa [Nat.zero_add])
    rw [Nat.zero_add] at ends
    rw [split] at paired
    obtain ⟨destFront, destBack, same, first, second⟩ := paired.split
    refine ⟨front, back, destFront, destBack,
      ⟨concat size 0 (s :: src), .temporary n, .temporary (n + 1), [.alloc n, .alloc (n + 1)]⟩, split, same, nonempty,
      first, second, by simp [prepareBuffers, aligned], joined, ends, fun coded length => ?_⟩
    rw [joined] at length
    obtain ⟨done, rest, bytes, forms⟩ := distribute_front destFront coded destBack first.filledDest
      (by rw [length, first.length_eq])
    -- The first buffer alone is no multiple of the block length.
    have longer : coded.length ≠ d.len := by
      intro equal
      cases front with
      | nil => exact nonempty rfl
      | cons other front =>
        rw [cons_append, List.cons.injEq] at split
        cases destFront with
        | nil => cases first.lengths
        | cons otherDest destFront =>
          rw [cons_append, List.cons.injEq] at same
          have sameLength : otherDest.len = other.len := (List.cons.inj first.lengths).1
          rw [← length, equal, same.1, sameLength, ← split.1] at ends
          exact aligned ends
    refine ⟨done, [.free (.temporary n), .free (.temporary (n + 1))], ?_, bytes, forms, fun later => Passes.temporary⟩
    have different : ¬ ((Vadr.temporary (n + 1)) = .shadow ∧ d.shadow = true) := fun both => by cases both.1
    rw [windupBuffers, if_neg different, if_neg longer, same, rest]
    rfl

theorem blockLen_eq (positive : 0 < sectorSize.toInt) : blockLen sectorSize = sectorSize.toInt.toNat := by
  have same := Integers.toNat_toUInt64 (x := sectorSize) (Int.le_of_lt positive)
  rw [blockLen]
  omega

theorem toNat_product {count : ℕ} (positive : 0 < sectorSize.toInt) (small : count * sectorSize.toInt.toNat < 2 ^ 31) :
    (sectorSize * (UInt32.ofNat count).toInt32).toInt64.toUInt64.toNat = count * sectorSize.toInt.toNat := by
  have blocks : count ≤ count * sectorSize.toInt.toNat := Nat.le_mul_of_pos_right count (by omega)
  have same : (UInt32.ofNat count).toNat = count := by rw [UInt32.toNat_ofNat', Nat.mod_eq_of_lt (by omega)]
  have int : (UInt32.ofNat count).toInt32.toInt = count := by rw [Integers.toInt_toInt32 (by omega), same]
  have size : (sectorSize.toInt.toNat : Int) = sectorSize.toInt := Int.toNat_of_nonneg (by omega)
  have product : (sectorSize * (UInt32.ofNat count).toInt32).toInt = ((count * sectorSize.toInt.toNat : ℕ) : Int) := by
    rw [Int32.toInt_mul, int, Int.natCast_mul, size, Int.mul_comm, Int.bmod_eq_of_le]
    · have nonneg : 0 ≤ (count : Int) * sectorSize.toInt := Int.mul_nonneg (by omega) (by omega)
      omega
    · have cast : ((count * sectorSize.toInt.toNat : ℕ) : Int) = (count : Int) * sectorSize.toInt := by
        rw [Int.natCast_mul, size]
      omega
  have wide := Integers.toNat_toUInt64 (x := sectorSize * (UInt32.ofNat count).toInt32) (by omega)
  omega
theorem handle_front {storage : List (StorageKeys κ)} (bytes : List UInt8) (write : Bool) (lba : UInt64)
    (keeps : KeepsLength storage) (positive : 0 < sectorSize.toInt)
    (whole : bytes.length % sectorSize.toInt.toNat = 0) (small : bytes.length < 2 ^ 31)
    (high : lba.toNat + bytes.length / sectorSize.toInt.toNat ≤ 2 ^ 64) :
    ∃ out, storageHandleSectors storage
        ⟨lba, UInt32.ofNat (bytes.length / sectorSize.toInt.toNat), sectorSize, write⟩ false bytes = some out ∧
      out = sectors storage write sectorSize.toInt.toNat lba.toNat (bytes.length / sectorSize.toInt.toNat) bytes ∧
      out.length = bytes.length := by
  have less : bytes.length / sectorSize.toInt.toNat ≤ bytes.length := Nat.div_le_self _ _
  have count : (UInt32.ofNat (bytes.length / sectorSize.toInt.toNat)).toNat =
      bytes.length / sectorSize.toInt.toNat := by
    rw [UInt32.toNat_ofNat', Nat.mod_eq_of_lt (by omega)]
  have length : bytes.length = bytes.length / sectorSize.toInt.toNat * sectorSize.toInt.toNat := by
    rw [Nat.div_mul_cancel (Nat.dvd_of_mod_eq_zero whole)]
  have valid : (StorageAccess.mk lba (UInt32.ofNat (bytes.length / sectorSize.toInt.toNat)) sectorSize write).Valid :=
    ⟨positive, by rw [count]; dsimp only; omega, by rw [count]; omega, by rw [count]; exact high⟩
  have out : storageHandleSectors storage _ false bytes = some _ :=
    storageHandleSectors_eq valid false (by rw [count]; exact length)
  rw [count] at out
  exact ⟨_, out, rfl, length_sectors keeps length⟩

theorem codeLoop_eq {storage : List (StorageKeys κ)} (write : Bool) (keeps : KeepsLength storage)
    (positive : 0 < sectorSize.toInt) (fuel : ℕ) :
    ∀ (n : ℕ) (lba : UInt64) (length count : ℕ) (dest src : List Buffer), src.length ≤ fuel → Paired pid dest src →
      (content src).length = count * sectorSize.toInt.toNat → count * sectorSize.toInt.toNat ≤ length →
      count * sectorSize.toInt.toNat < 2 ^ 31 → lba.toNat + count < 2 ^ 64 →
        ∃ done ops, codeLoop storage sectorSize write pid fuel n lba length dest src = some ⟨done, count, ops⟩ ∧
          content done = sectors storage write sectorSize.toInt.toNat lba.toNat count (content src) ∧
          done.map Buffer.form = dest.map Buffer.form ∧ Passes n ops := by
  have size : 0 < sectorSize.toInt.toNat := by omega
  have nothing : ∀ count : ℕ, 0 = count * sectorSize.toInt.toNat → count = 0 := by
    intro count none
    rcases Nat.mul_eq_zero.mp none.symm with zero | zero
    · exact zero
    · omega
  induction fuel with
  | zero =>
    intro n lba length count dest src enough paired whole _ _ _
    cases length_eq_zero_iff.mp (Nat.le_zero.mp enough)
    cases nothing count whole
    cases map_eq_nil_iff.mp paired.lengths
    exact ⟨[], [], rfl, rfl, rfl, Passes.nil n⟩
  | succ fuel ih =>
    intro n lba length count dest src enough paired whole within small high
    cases src with
    | nil =>
      cases nothing count whole
      cases map_eq_nil_iff.mp paired.lengths
      exact ⟨[], [], rfl, rfl, rfl, Passes.nil n⟩
    | cons s src =>
      cases dest with
      | nil => cases paired.lengths
      | cons d dest =>
        obtain ⟨front, back, destFront, destBack, p, split, splitDest, nonempty, first, second, prepared, bytes,
          ends, windup⟩ := pass_buffers (n := n) paired (by rw [whole]; exact Nat.mul_mod_left _ _)
        have proceeds : ¬ (s.len = 0 ∨ s.pid ≠ pid) := by
          rintro (zero | other)
          · exact Nat.ne_of_gt (paired.filled s mem_cons_self) zero
          · exact other (paired.pids s mem_cons_self)
        have total : (content (s :: src)).length = (content front).length + (content back).length := by
          rw [split, content_append, length_append]
        -- The pass takes `taken` sectors and leaves `left`.
        obtain ⟨taken, frontLength⟩ : ∃ taken, (content front).length = taken * sectorSize.toInt.toNat :=
          ⟨_, (Nat.div_mul_cancel (Nat.dvd_of_mod_eq_zero ends)).symm⟩
        have atMost : taken ≤ count := by
          refine Nat.le_of_mul_le_mul_right ?_ size
          omega
        obtain ⟨left, rfl⟩ := Nat.exists_eq_add_of_le atMost
        have backLength : (content back).length = left * sectorSize.toInt.toNat := by
          rw [Nat.add_mul] at whole
          omega
        have divided : p.bytes.length / sectorSize.toInt.toNat = taken := by
          rw [bytes, frontLength, Nat.mul_div_cancel _ size]
        obtain ⟨out, handled, sectorsOut, outLength⟩ := handle_front p.bytes write lba keeps positive
          (by rw [bytes]; exact ends) (by rw [bytes]; omega) (by rw [divided]; omega)
        rw [divided] at handled sectorsOut
        obtain ⟨done, ops, wound, doneBytes, doneForms, tidy⟩ := windup out outLength
        have doneLength : done.length = front.length := by
          have forms := congrArg List.length doneForms
          have lengths := congrArg List.length first.lengths
          simp only [length_map] at forms lengths
          omega
        have dropped : (s :: src).drop done.length = back := by rw [doneLength, split, drop_left]
        have shorter : back.length ≤ fuel := by
          have lengths := congrArg List.length split
          have positive := length_pos_iff.mpr nonempty
          rw [length_append] at lengths
          simp only [length_cons] at lengths enough
          omega
        have later : ∃ rest more, (if 0 < length - sectorSize.toInt.toNat * taken then
            codeLoop storage sectorSize write pid fuel (n + 2) (lba + UInt64.ofNat taken)
              (length - sectorSize.toInt.toNat * taken) destBack back
            else some ⟨destBack, 0, []⟩) = some ⟨rest, left, more⟩ ∧
            content rest = sectors storage write sectorSize.toInt.toNat (lba.toNat + taken) left (content back) ∧
            rest.map Buffer.form = destBack.map Buffer.form ∧ Passes (n + 2) more := by
          rw [Nat.add_mul] at small within
          rw [Nat.mul_comm sectorSize.toInt.toNat]
          by_cases unfinished : 0 < length - taken * sectorSize.toInt.toNat
          · rw [if_pos unfinished]
            have next : (lba + UInt64.ofNat taken).toNat = lba.toNat + taken := by
              rw [UInt64.toNat_add, UInt64.toNat_ofNat', Nat.add_mod_mod, Nat.mod_eq_of_lt (by omega)]
            rw [← next]
            exact ih (n + 2) _ _ left destBack back shorter second backLength (by omega) (by omega)
              (by rw [next]; omega)
          · rw [if_neg unfinished]
            have zero := nothing left (by omega)
            subst zero
            rw [Nat.zero_mul, ← second.length_eq] at backLength
            have empty : content back = [] := length_eq_zero_iff.mp (by rw [← second.length_eq]; exact backLength)
            refine ⟨destBack, [], rfl, ?_, rfl, Passes.nil _⟩
            rw [length_eq_zero_iff.mp backLength, empty]
            rfl
        obtain ⟨rest, more, looped, restBytes, restForms, passes⟩ := later
        refine ⟨done ++ rest, p.ops ++ ops ++ more, ?_, ?_, ?_, tidy more passes⟩
        · rw [codeLoop, if_neg proceeds, blockLen_eq positive, prepared]
          simp only [Option.bind_eq_bind, Option.bind_some, divided, handled, outLength, Nat.sub_self,
            replicate_zero, append_nil, wound, dropped]
          by_cases unfinished : 0 < length - sectorSize.toInt.toNat * taken
          · rw [if_pos unfinished] at looped ⊢
            rw [looped, Option.bind_some]
          · rw [if_neg unfinished] at looped ⊢
            cases looped
            rw [append_nil]
        · rw [content_append, doneBytes, restBytes, sectorsOut, bytes, split, content_append, sectors_add (by
            rw [length_append, frontLength]; omega), ← frontLength, take_left, drop_left]
        · rw [map_append, doneForms, restForms, splitDest, map_append]

structure Urb where
  guest : List Buffer
  host : List Buffer
  same : host.map (fun ub => (ub.pid, ub.len)) = guest.map (fun ub => (ub.pid, ub.len))
  ofGuest : ∀ ub ∈ guest, ub.shadow = false
  ofHost : ∀ ub ∈ host, ub.shadow = true

theorem Urb.lengths (urb : Urb) : urb.host.map Buffer.len = urb.guest.map Buffer.len := by
  have same := congrArg (List.map Prod.snd) urb.same
  rwa [map_map, map_map] at same

theorem Urb.length_eq (urb : Urb) : (content urb.host).length = (content urb.guest).length := by
  have lengths := congrArg List.sum urb.lengths
  simp only [content, length_flatMap]
  exact lengths

def Urb.Plain (urb : Urb) (pid : UInt8) : Prop := Filled urb.guest ∧ ∀ ub ∈ urb.guest, ub.pid = pid

theorem Urb.paired_write {urb : Urb} {pid : UInt8} (plain : urb.Plain pid) : Paired pid urb.host urb.guest where
  lengths := urb.lengths
  kinds := .inl ⟨urb.ofHost, urb.ofGuest⟩
  filled := plain.1
  pids := plain.2

theorem Urb.paired_read {urb : Urb} {pid : UInt8} (plain : urb.Plain pid) : Paired pid urb.guest urb.host where
  lengths := urb.lengths.symm
  kinds := .inr ⟨urb.ofGuest, urb.ofHost⟩
  filled := by
    intro ub member
    have length : ub.len ∈ urb.guest.map Buffer.len := by
      rw [← urb.lengths]
      exact mem_map_of_mem member
    obtain ⟨other, among, same⟩ := mem_map.mp length
    rw [← same]
    exact plain.1 other among
  pids := by
    intro ub member
    have form : (ub.pid, ub.len) ∈ urb.guest.map (fun ub => (ub.pid, ub.len)) := by
      rw [← urb.same]
      exact mem_map_of_mem (f := fun ub => (ub.pid, ub.len)) member
    obtain ⟨other, among, same⟩ := mem_map.mp form
    rw [← (Prod.mk.inj same).1]
    exact plain.2 other among

theorem usbmscCodeBuffers_eq {dev : MscDevice κ} {count length : ℕ} (write : Bool)
    (keeps : KeepsLength (dev.unit dev.lun).storage) (size : tentativeSectorSize (dev.unit dev.lun) = some sectorSize)
    (positive : 0 < sectorSize.toInt) (paired : Paired pid dest src)
    (whole : (content src).length = count * sectorSize.toInt.toNat) (within : count * sectorSize.toInt.toNat ≤ length)
    (small : count * sectorSize.toInt.toNat < 2 ^ 31) :
    ∃ done ops, usbmscCodeBuffers dev dest src pid length write =
        some (dev.setUnit dev.lun { dev.unit dev.lun with storageSectorSize := sectorSize }, ⟨done, count, ops⟩) ∧
      content done = sectors (dev.unit dev.lun).storage write sectorSize.toInt.toNat (dev.unit dev.lun).lba.toNat
        count (content src) ∧
      done.map Buffer.form = dest.map Buffer.form ∧ Passes 0 ops := by
  have blocks : count ≤ count * sectorSize.toInt.toNat := Nat.le_mul_of_pos_right count (by omega)
  have lba : (dev.unit dev.lun).lba.toUInt64.toNat = (dev.unit dev.lun).lba.toNat := UInt32.toNat_toUInt64 _
  have bound := (dev.unit dev.lun).lba.toNat_lt
  obtain ⟨done, ops, looped, bytes, forms, passes⟩ := codeLoop_eq write keeps positive src.length 0
    (dev.unit dev.lun).lba.toUInt64 length count dest src (Nat.le_refl _) paired whole within small (by omega)
  have nonzero : sectorSize ≠ 0 := by
    rintro rfl
    exact absurd positive (by decide)
  rw [lba] at bytes
  refine ⟨done, ops, ?_, bytes, forms, passes⟩
  rw [usbmscCodeBuffers, size]
  simp only [Option.bind_eq_bind, Option.bind_some, if_neg nonzero, looped]

end DisasVisor.Usb.Msc
