import DisasVisor.Ata.Channel
import DisasVisor.Storage.Disk

/-!
The bus master of an IDE channel: the handlers of `ata_bm.c`, and the accesses of a guest to a channel.
-/

namespace DisasVisor.Ata

open DisasVisor.Storage

def ataBmBufsize : Nat := 65536

def ataBmBufnum : Nat := 8

def ataBmTotalBufsize : Nat := ataBmBufnum * ataBmBufsize

structure Prd where
  base : Nat
  count : Nat
  eot : Bool

def guestPrd (memory : Memory) (phys : Nat) : Prd where
  base := memory.dword phys
  count := ataGet16bitCount (UInt16.ofNat (memory.word (phys + 4)))
  eot := (memory.word (phys + 6)).testBit 15

structure Piece where
  base : Nat
  bytes : List UInt8

variable {κ : Type}

theorem ataGet16bitCount_pos (count : UInt16) : 0 < ataGet16bitCount count := by
  unfold ataGet16bitCount
  split
  · decide
  · rename_i nonzero
    exact Nat.pos_of_ne_zero fun zero => nonzero (UInt16.toNat_inj.mp zero)

theorem guestPrd_pos (memory : Memory) (phys : Nat) : 0 < (guestPrd memory phys).count := ataGet16bitCount_pos _

def totalDmaCount (memory : Memory) (phys total : Nat) : Except Stop Nat :=
  if more : total + (guestPrd memory phys).count > ataBmTotalBufsize then .error .panic
  else if (guestPrd memory phys).eot then .ok (total + (guestPrd memory phys).count)
  else totalDmaCount memory (phys + 8) (total + (guestPrd memory phys).count)
termination_by ataBmTotalBufsize - total
decreasing_by
  have positive := guestPrd_pos memory phys
  omega

def copyFromGuest (memory : Memory) (phys total : Nat) (buf : List UInt8) : Except Stop (List UInt8 × Nat) :=
  if more : total + (guestPrd memory phys).count > ataBmTotalBufsize then .error .panic
  else
    match overwrite buf total (memory.slice (guestPrd memory phys).base (guestPrd memory phys).count) with
    | none => .error .outside
    | some buf =>
      if (guestPrd memory phys).eot then .ok (buf, total + (guestPrd memory phys).count)
      else copyFromGuest memory (phys + 8) (total + (guestPrd memory phys).count) buf
termination_by ataBmTotalBufsize - total
decreasing_by
  have positive := guestPrd_pos memory phys
  omega

/-- The loop of `ata_copy_shadow_buf` to the guest, which may write over the table that it reads. -/
def copyToGuest (buf : List UInt8) (memory : Memory) (phys total : Nat) : Except Stop (Memory × List Piece) :=
  if more : total + (guestPrd memory phys).count > ataBmTotalBufsize then .error .panic
  else if buf.length < total + (guestPrd memory phys).count then .error .outside
  else
    let piece : Piece := ⟨(guestPrd memory phys).base, (buf.drop total).take (guestPrd memory phys).count⟩
    let after := memory.writeBytes piece.base piece.bytes
    if (guestPrd memory phys).eot then .ok (after, [piece])
    else
      match copyToGuest buf after (phys + 8) (total + (guestPrd memory phys).count) with
      | .error stop => .error stop
      | .ok (last, pieces) => .ok (last, piece :: pieces)
termination_by ataBmTotalBufsize - total
decreasing_by
  have positive := guestPrd_pos memory phys
  omega

def ataSetShadowPrd (count : Nat) : List ShadowPrd → Except Stop (List ShadowPrd)
  | [] => .error .outside
  | _ :: rest =>
    if count > ataBmBufsize then
      match ataSetShadowPrd (count - ataBmBufsize) rest with
      | .error stop => .error stop
      | .ok rest => .ok (⟨0, false⟩ :: rest)
    else .ok (⟨UInt16.ofNat count, true⟩ :: rest)

def ataDmaHandleRwSectors (channel : Channel κ) (write : Bool) : Except Stop (Channel κ) :=
  let device := channel.ataGetAtaDevice
  if channel.atapiFlag ∧ channel.dmaState ≠ .dmaReady then .ok channel
  else
    match storageHandleSectors device.storage
        ⟨channel.lba, channel.sectorCount, device.storageSectorSize, write⟩ true channel.shadowBuf with
    | none => .error .outside
    | some buf => .ok { channel with shadowBuf := buf, dmaState := .dmaThrough }

structure BmReply (κ : Type) where
  channel : Channel κ
  memory : Memory
  pieces : List Piece

def starts (value : UInt8) : Bool := bit value 0

def startsRead (value : UInt8) : Bool := bit value 3

/-- `ata_bm_handle_command` for a write of the register. In another state the write is blocked. -/
def ataBmHandleCommand (channel : Channel κ) (memory : Memory) (value : UInt8) : Except Stop (Channel κ) :=
  if ¬ starts value ∨ channel.state ≠ .dmaReady then .ok channel
  else do
    let phys := channel.guestPrdPhys.toNat
    if startsRead value then
      let count ← totalDmaCount memory phys 0
      let prd ← ataSetShadowPrd count channel.shadowPrd
      pure { channel with state := .dmaRead, shadowPrd := prd }
    else
      let (buf, count) ← copyFromGuest memory phys 0 channel.shadowBuf
      let channel ← ataDmaHandleRwSectors { channel with state := .dmaWrite, shadowBuf := buf } true
      let prd ← ataSetShadowPrd count channel.shadowPrd
      pure { channel with shadowPrd := prd }

def ataBmHandleStatus (channel : Channel κ) (hw : Hardware) (memory : Memory) : Except Stop (BmReply κ) :=
  if channel.state ≠ .dmaRead ∧ channel.state ≠ .dmaWrite ∨ hw.bmActive then .ok ⟨channel, memory, []⟩
  else if channel.state = .dmaRead then do
    let channel ← ataDmaHandleRwSectors channel false
    let (memory, pieces) ← copyToGuest channel.shadowBuf memory channel.guestPrdPhys.toNat 0
    pure ⟨{ channel with state := .ready }, memory, pieces⟩
  else .ok ⟨{ channel with state := .ready }, memory, []⟩

def setPrdBytes (phys : UInt32) (offset : Nat) (bytes : List UInt8) : UInt32 :=
  let byte (i : Nat) : Nat :=
    if offset ≤ i ∧ i < offset + bytes.length then (bytes.getD (i - offset) 0).toNat else phys.toNat / 256 ^ i % 256
  UInt32.ofNat (byte 0 + 256 * byte 1 + 256 ^ 2 * byte 2 + 256 ^ 3 * byte 3)

def ataBmHandlePrdTable (channel : Channel κ) (offset : Nat) (bytes : List UInt8) : Channel κ :=
  { channel with guestPrdPhys := setPrdBytes channel.guestPrdPhys offset bytes }

inductive Access
  | data (write : Bool) (bytes : List UInt8)
  | features (value : UInt8)
  | deviceControl (value : UInt8)
  | command (value : UInt8)
  | status
  | interruptReason
  | bmCommand (value : UInt8)
  | bmStatus
  | prdTable (offset : Nat) (bytes : List UInt8)
  | other

def access (channel : Channel κ) (hw : Hardware) (memory : Memory) : Access → Except Stop (BmReply κ)
  | .data write bytes => do
      let reply ← ataHandleData channel hw write bytes
      pure ⟨reply.channel, memory, []⟩
  | .features value => .ok ⟨ataHandleFeatures channel value, memory, []⟩
  | .deviceControl value => .ok ⟨ataHandleDeviceControl channel value, memory, []⟩
  | .command value => do
      let handled ← ataHandleCommand channel hw value
      pure ⟨handled.1, memory, []⟩
  | .status => .ok ⟨ataHandleStatus channel hw, memory, []⟩
  | .interruptReason => .ok ⟨atapiHandleInterruptReason channel hw, memory, []⟩
  | .bmCommand value => do
      let channel ← ataBmHandleCommand channel memory value
      pure ⟨channel, memory, []⟩
  | .bmStatus => ataBmHandleStatus channel hw memory
  | .prdTable offset bytes => .ok ⟨ataBmHandlePrdTable channel offset bytes, memory, []⟩
  | .other => .ok ⟨channel, memory, []⟩

/-!
A channel with its drives: what the guest wrote by DMA, what is on the disks, and the table that a guest has for
the bus master.
-/

open Function

def sectorBytes : Nat := 512

structure Drives (κ : Type) where
  storage : Bool → List (StorageKeys κ)
  atapiStorage : Bool → Option (List (StorageKeys κ))
  keeps : ∀ dev, KeepsLength (storage dev)
  keepsAtapi : ∀ dev, ∀ storage ∈ atapiStorage dev, KeepsLength storage
  inverse : ∀ dev, ∀ key ∈ storage dev, ∀ lba sector, key.crypt false lba (key.crypt true lba sector) = sector

def ataNewChannel (drives : Drives κ) : Channel κ where
  features := fun _ => 0
  deviceReg := 0
  write := false
  lba := 0
  sectorCount := 0
  pioBufIndex := 0
  pioBlockSize := 0
  pioBuf := List.replicate pageSize 0
  pioBufHandler := .pioData
  statusHandler := none
  guestPrdPhys := 0
  shadowPrd := (List.range ataBmBufnum).map fun i => ⟨0, i + 1 = ataBmBufnum⟩
  shadowBuf := List.replicate ataBmTotalBufsize 0
  state := .ready
  device := fun dev => {
    storage := drives.storage dev
    atapiStorage := drives.atapiStorage dev
    storageSectorSize := 512
    queue := fun _ => ⟨false, 0, 0, .ready⟩
    headsPerCylinder := 16
    sectorsPerTrack := 63
    packetLength := 12 }
  dataLength := 0
  atapiFlag := false
  dmaState := .dmaThrough

def tableFrom (memory : Memory) : Nat → Nat → Option (List Prd)
  | 0, _ => none
  | fuel + 1, phys =>
    if (guestPrd memory phys).eot then some [guestPrd memory phys]
    else (tableFrom memory fuel (phys + 8)).map (guestPrd memory phys :: ·)

def guestTable (memory : Memory) (phys : Nat) : Option (List Prd) := tableFrom memory ataBmTotalBufsize phys

def tableBytes (table : List Prd) : Nat := (table.map Prd.count).sum

def gathered (memory : Memory) (table : List Prd) : List UInt8 :=
  table.flatMap fun prd => memory.slice prd.base prd.count

def Apart (phys : Nat) (table : List Prd) : Prop :=
  ∀ prd ∈ table, prd.base + prd.count ≤ phys ∨ phys + 8 * table.length ≤ prd.base

def described : List ShadowPrd → Option Nat
  | [] => none
  | prd :: rest =>
    if prd.eot then some (ataGet16bitCount prd.count)
    else (described rest).map (ataGet16bitCount prd.count + ·)

def Piece.form (piece : Piece) : Nat × Nat := (piece.base, piece.bytes.length)

def Prd.form (prd : Prd) : Nat × Nat := (prd.base, prd.count)

structure Pending where
  dev : Bool
  write : Bool
  lba : Nat
  count : Nat
  moved : Nat

/-- `plain` is what the guest had in its buffers at the last start, and `written` what it wrote last by DMA to
each sector of a disk. -/
structure World (κ : Type) where
  chan : Channel κ
  memory : Memory
  disk : Bool → Nat → List UInt8
  written : Bool → Nat → Option (List UInt8)
  pending : Option Pending
  plain : List UInt8

def driveCommand (hw : Hardware) (command : UInt8) : Option Pending :=
  let type := ataGetCmdType command
  if type.cls = .dma ∧ bit hw.device 6 then
    some {
      dev := bit hw.device 4
      write := type.write
      lba := if type.ext then 2 ^ 24 * lba24 hw true + lba24 hw false
        else lba24 hw false + 2 ^ 24 * (hw.device.toNat % 16)
      count := if type.ext then ataGet16bitCount (hobValue hw.sectorCount)
        else if hw.sectorCount false = 0 then 256 else (hw.sectorCount false).toNat
      moved := 0 }
  else none

def pendingAfter (hw : Hardware) (pending : Option Pending) : Access → Option Pending
  | .command value => driveCommand hw value
  | .deviceControl value => if bit value 2 then none else pending
  | _ => pending

def plainAfter (w : World κ) : Access → List UInt8
  | .bmCommand value =>
    if starts value ∧ w.chan.state = .dmaReady then
      match guestTable w.memory w.chan.guestPrdPhys.toNat with
      | some table => gathered w.memory table
      | none => []
    else w.plain
  | _ => w.plain

inductive Event
  | guest (memory : Memory)
  | access (a : Access) (hw : Hardware)
  | transfer (count : Nat)
  | drive (dev : Bool) (disk : Nat → { s : List UInt8 // s.length = sectorBytes })

structure Result (κ : Type) where
  world : World κ
  pieces : List Piece

def isDisk (channel : Channel κ) (dev : Bool) : Bool := (channel.device dev).storageSectorSize = 512

def move (w : World κ) (p : Pending) (count : Nat) : World κ :=
  let next := some { p with moved := p.moved + count }
  let first := p.lba + p.moved
  let offset := p.moved * sectorBytes
  if p.write then
    let written := if isDisk w.chan p.dev then
        note (w.written p.dev) sectorBytes first count (w.plain.drop offset)
      else w.written p.dev
    { w with
      disk := update w.disk p.dev
        (store (w.disk p.dev) sectorBytes first count (w.chan.shadowBuf.drop offset))
      written := update w.written p.dev written
      pending := next }
  else
    let buf := w.chan.shadowBuf.take offset ++ fetch (w.disk p.dev) first count ++
      w.chan.shadowBuf.drop (offset + count * sectorBytes)
    { w with chan := { w.chan with shadowBuf := buf }, pending := next }

def exec (w : World κ) : Event → Except Stop (Result κ)
  | .guest memory => .ok ⟨{ w with memory := memory }, []⟩
  | .access a hw =>
    match access w.chan hw w.memory a with
    | .error stop => .error stop
    | .ok reply =>
      .ok ⟨{ w with
        chan := reply.channel
        memory := reply.memory
        written := fun dev x => if isDisk reply.channel dev then w.written dev x else none
        pending := pendingAfter hw w.pending a
        plain := plainAfter w a }, reply.pieces⟩
  | .transfer count =>
    match w.pending with
    | none => .ok ⟨w, []⟩
    | some p => .ok ⟨move w p count, []⟩
  | .drive dev disk =>
    .ok ⟨{ w with
      disk := update w.disk dev fun x => (disk x).val
      written := update w.written dev fun x =>
        if (disk x).val = w.disk dev x then w.written dev x else none }, []⟩

def World.start (drives : Drives κ) (memory : Memory)
    (disk : Bool → Nat → { s : List UInt8 // s.length = sectorBytes }) : World κ where
  chan := ataNewChannel drives
  memory := memory
  disk := fun dev x => (disk dev x).val
  written := fun _ _ => none
  pending := none
  plain := []

/-- What a drive does: it moves the sectors of its command, in its direction, after the bus master was started for
it, and not more than the shadow table describes; it executes nothing else at that time. -/
def WellFormed (w : World κ) : Event → Prop
  | .transfer count => ∃ p total, w.pending = some p ∧ w.chan.state = (if p.write then .dmaWrite else .dmaRead) ∧
      p.moved + count ≤ p.count ∧ described w.chan.shadowPrd = some total ∧ (p.moved + count) * sectorBytes ≤ total
  | .drive _ _ => w.pending = none
  | _ => True

def Fits (channel : Channel κ) : Prop :=
  (channel.atapiFlag = true ∧ channel.dmaState ≠ .dmaReady) ∨
    channel.sectorCount.toNat * channel.ataGetAtaDevice.storageSectorSize.toInt.toNat ≤ ataBmTotalBufsize

def Regular (w : World κ) : Event → Prop
  | .access (.bmCommand value) _ =>
    starts value = true → startsRead value = false → w.chan.state = .dmaReady → Fits w.chan
  | .access .bmStatus hw => w.chan.state = .dmaRead → hw.bmActive = false → Fits w.chan
  | _ => True

/-- Nothing outside of the buffer is touched; at a start the shadow table gets the length of the table of the guest;
the disks have the ciphertext of what was written; a read gives what was written, in the buffers of the table. -/
structure Faithful (drives : Drives κ) (w : World κ) (event : Event) : Prop where
  inside : exec w event ≠ .error .outside
  described : ∀ value hw r, event = .access (.bmCommand value) hw → starts value = true → w.chan.state = .dmaReady →
    exec w event = .ok r → ∃ table, guestTable w.memory w.chan.guestPrdPhys.toNat = some table ∧
      described r.world.chan.shadowPrd = some (tableBytes table)
  stored : ∀ r, exec w event = .ok r → ∀ dev x plain, r.world.written dev x = some plain →
    r.world.disk dev x = encrypted (drives.storage dev) x plain
  read : ∀ hw r p, event = .access .bmStatus hw → w.chan.state = .dmaRead → hw.bmActive = false →
    w.pending = some p → p.write = false → exec w event = .ok r →
      ∀ i < p.moved, (i + 1) * sectorBytes ≤ (r.pieces.flatMap Piece.bytes).length →
        ∀ plain, w.written p.dev (p.lba + i) = some plain → sector sectorBytes i (r.pieces.flatMap Piece.bytes) = plain
  placed : ∀ hw r table, event = .access .bmStatus hw → w.chan.state = .dmaRead → hw.bmActive = false →
    exec w event = .ok r → guestTable w.memory w.chan.guestPrdPhys.toNat = some table →
      Apart w.chan.guestPrdPhys.toNat table →
        r.pieces.map Piece.form = table.map Prd.form ∧
          r.world.memory = r.pieces.foldl (fun memory piece => memory.writeBytes piece.base piece.bytes) w.memory

end DisasVisor.Ata
