import DisasVisor.Lib.Memory
import DisasVisor.Storage.Sectors
import DisasVisor.Lib.Indices

/-!
The commands of a drive: the table of `ata_cmd.c`, and the table of packet commands of `packet.c`.
-/

namespace DisasVisor.Ata

inductive CmdClass where
  | invalid
  | nondata
  | pio
  | dma
  | dmq
  | packet
  | service
  | identify
  | devparam
  | through
  | ncq
  deriving DecidableEq

structure CmdType where
  cls : CmdClass
  write : Bool
  ext : Bool
  deriving DecidableEq

def ataCmdTypeTable : List (UInt8 × CmdType) :=
  [(0x40, ⟨.nondata, false, false⟩), (0xE0, ⟨.nondata, false, false⟩), (0xE1, ⟨.nondata, false, false⟩),
    (0xE2, ⟨.nondata, false, false⟩), (0xE3, ⟨.nondata, false, false⟩), (0xE5, ⟨.nondata, false, false⟩),
    (0xE6, ⟨.nondata, false, false⟩), (0xE7, ⟨.nondata, false, false⟩), (0xEA, ⟨.nondata, false, false⟩),
    (0xC6, ⟨.nondata, false, false⟩), (0xEF, ⟨.nondata, false, false⟩),
    -- optional
    (0x00, ⟨.nondata, false, false⟩), (0x03, ⟨.nondata, false, false⟩), (0x27, ⟨.nondata, false, false⟩),
    (0x37, ⟨.nondata, false, false⟩), (0x42, ⟨.nondata, false, false⟩), (0x51, ⟨.nondata, false, false⟩),
    (0xC0, ⟨.nondata, false, false⟩), (0xD1, ⟨.nondata, false, false⟩), (0xDA, ⟨.nondata, false, false⟩),
    (0xDE, ⟨.nondata, false, false⟩), (0xDF, ⟨.nondata, false, false⟩), (0xED, ⟨.nondata, false, false⟩),
    (0xF3, ⟨.nondata, false, false⟩), (0xF5, ⟨.nondata, false, false⟩), (0xF8, ⟨.nondata, false, false⟩),
    (0xF9, ⟨.nondata, false, false⟩),
    -- obsoleted
    (0x10, ⟨.nondata, false, false⟩),
    -- PIO IN
    (0x20, ⟨.pio, false, false⟩), (0x21, ⟨.pio, false, false⟩), (0xC4, ⟨.pio, false, false⟩),
    (0x24, ⟨.pio, false, true⟩), (0x29, ⟨.pio, false, true⟩),
    -- PIO OUT
    (0x30, ⟨.pio, true, false⟩), (0xC5, ⟨.pio, true, false⟩), (0x34, ⟨.pio, true, true⟩),
    (0x39, ⟨.pio, true, true⟩),
    -- DMA
    (0xC8, ⟨.dma, false, false⟩), (0x25, ⟨.dma, false, true⟩), (0xCA, ⟨.dma, true, false⟩),
    (0x35, ⟨.dma, true, true⟩), (0x3D, ⟨.dma, true, true⟩),
    -- queued DMA
    (0xC7, ⟨.dmq, false, false⟩), (0xCC, ⟨.dmq, true, false⟩), (0x26, ⟨.dmq, false, true⟩),
    (0x36, ⟨.dmq, true, true⟩), (0x3E, ⟨.dmq, true, true⟩),
    -- ATAPI
    (0xA0, ⟨.packet, false, false⟩), (0xA1, ⟨.identify, false, true⟩), (0xA2, ⟨.service, false, false⟩),
    (0x08, ⟨.nondata, false, false⟩),
    -- command specific
    (0x91, ⟨.devparam, false, false⟩), (0xEC, ⟨.identify, false, false⟩),
    -- SMART, READ LOG EXT, DATA SET MANAGEMENT, READ LOG DMA EXT
    (0xB0, ⟨.through, false, false⟩), (0x2F, ⟨.through, false, false⟩), (0x06, ⟨.through, false, false⟩),
    (0x47, ⟨.through, false, false⟩),
    -- native command queuing
    (0x60, ⟨.ncq, false, false⟩), (0x61, ⟨.ncq, true, false⟩)]

def ataGetCmdType (command : UInt8) : CmdType :=
  match ataCmdTypeTable.find? (fun row => row.1 = command) with
  | some row => row.2
  | none => ⟨.invalid, false, false⟩

inductive PacketClass where
  | through
  | invalid
  | nondata
  | confData
  | readData
  | writeData
  deriving DecidableEq

def packetTypeTable : List (UInt8 × PacketClass × Bool) :=
  [(0x00, .nondata, false), (0x1B, .nondata, false), (0x1E, .nondata, false), (0x35, .nondata, false),
    (0xA1, .nondata, false),
    (0x12, .through, false), (0x03, .through, false), (0x5A, .through, false), (0x43, .through, false),
    (0x4A, .through, false), (0x3C, .through, false), (0x1A, .through, false), (0x46, .through, false),
    (0x25, .through, false),
    (0x5C, .confData, false),
    (0x28, .readData, false), (0xA8, .readData, false),
    (0x2A, .writeData, true), (0xAA, .writeData, true)]

def packetType (code : UInt8) : PacketClass × Bool :=
  match packetTypeTable.find? (fun row => row.1 = code) with
  | some row => row.2
  | none => (.through, false)

/-!
An IDE channel: the handlers of `ata_core.c` for the command and control blocks, and those of
`atapi.c` for packets. What the handlers read from the hardware is an input.
-/

open DisasVisor.Storage

inductive State where
  | ready
  | error
  | through
  | queued
  | pioReady
  | pioData
  | dmaReady
  | dmaRead
  | dmaWrite
  | dmaThrough
  deriving DecidableEq

inductive Stop where
  | panic
  | outside
  | pioOutside
  deriving DecidableEq

structure QueueEntry where
  write : Bool
  lba : UInt64
  sectorCount : UInt32
  nextState : State

structure AtaDevice (κ : Type) where
  storage : List (StorageKeys κ)
  atapiStorage : Option (List (StorageKeys κ))
  storageSectorSize : Int32
  queue : Fin 32 → QueueEntry
  headsPerCylinder : UInt8
  sectorsPerTrack : UInt8
  packetLength : UInt8

inductive PioBufHandler where
  | pioIdentify
  | pioIdentifyPacket
  | pioData
  | pioPacket
  | configData
  | atapiPioData
  deriving DecidableEq

inductive StatusHandler where
  | queuedStatus
  | serviceStatus
  deriving DecidableEq

structure ShadowPrd where
  count : UInt16
  eot : Bool

structure Channel (κ : Type) where
  features : Bool → UInt8
  deviceReg : UInt8
  write : Bool
  lba : UInt64
  sectorCount : UInt32
  pioBufIndex : Nat
  pioBlockSize : Nat
  pioBuf : List UInt8
  pioBufHandler : PioBufHandler
  statusHandler : Option StatusHandler
  guestPrdPhys : UInt32
  shadowPrd : List ShadowPrd
  shadowBuf : List UInt8
  state : State
  device : Bool → AtaDevice κ
  dataLength : Nat
  atapiFlag : Bool
  dmaState : State

inductive PacketKind where
  | command
  | data
  | sectorSize
  | bufferLength
  deriving DecidableEq

structure PacketDevice where
  kind : PacketKind
  state : State
  write : Bool
  sectorSize : Nat
  lba : UInt64
  sectorCount : UInt32

/-- What the hardware answers during an access. The registers with a HOB have a value for each; `data` is
what comes from the data port, and `stack` what a local variable has before it is set. -/
structure Hardware where
  sectorCount : Bool → UInt8
  lbaLow : Bool → UInt8
  lbaMid : Bool → UInt8
  lbaHigh : Bool → UInt8
  device : UInt8
  status : UInt8
  altStatus : UInt8
  interruptReason : UInt8
  byteCountLow : UInt8
  byteCountHigh : UInt8
  data : Nat → UInt8
  bmActive : Bool
  stack : PacketDevice

inductive PortOp where
  | forward
  | insn (count : Nat)
  | outsn (bytes : List UInt8)
  deriving DecidableEq

def pageSize : Nat := 4096

def lbaNone : UInt64 := 0xFFFFFFFFFFFFFFFE

def ataGet8bitCount (count : UInt8) : UInt32 := if count = 0 then 256 else count.toUInt32

def ataGet16bitCount (count : UInt16) : Nat := if count = 0 then 65536 else count.toNat

def hobValue (register : Bool → UInt8) : UInt16 := (register false).toUInt16 + 256 * (register true).toUInt16

def bit (value : UInt8) (i : Nat) : Bool := value.toNat.testBit i

def overwrite (buf : List UInt8) (offset : Nat) (bytes : List UInt8) : Option (List UInt8) :=
  if offset + bytes.length ≤ buf.length then
    some (buf.take offset ++ bytes ++ buf.drop (offset + bytes.length))
  else none

def ataConvertString : List UInt8 → List UInt8
  | first :: second :: rest => second :: first :: ataConvertString rest
  | _ => []

def characters (s : String) : List UInt8 := s.toList.map fun c => UInt8.ofNat c.toNat

def ataVirtualModel : List UInt8 := characters "BitVisor Encrypted ATA Drive            "

def atapiVirtualModel : List UInt8 := characters "BitVisor Encrypted Virtual ATAPI Drive  "

def ataVirtualRevision : List UInt8 := characters "0.4     "

def securityStorageCheckLba {κ : Type} (_storage : List (StorageKeys κ)) (_write : Bool) (_lba : UInt64)
    (_size : UInt32) : Bool := true

variable {κ : Type}

namespace Channel

def dev (channel : Channel κ) : Bool := bit channel.deviceReg 4

def isLba (channel : Channel κ) : Bool := bit channel.deviceReg 6

def ataGetAtaDevice (channel : Channel κ) : AtaDevice κ := channel.device channel.dev

def setDevice (channel : Channel κ) (device : AtaDevice κ) : Channel κ :=
  { channel with device := Function.update channel.device channel.dev device }

end Channel

def lba24 (hw : Hardware) (hob : Bool) : Nat :=
  (hw.lbaLow hob).toNat + 256 * (hw.lbaMid hob).toNat + 65536 * (hw.lbaHigh hob).toNat

def ataChsToLba (channel : Channel κ) (hw : Hardware) : UInt64 :=
  let device := channel.ataGetAtaDevice
  let cylinder : Int32 := Int32.ofNat ((hw.lbaMid false).toNat + 256 * (hw.lbaHigh false).toNat)
  let head : Int32 := Int32.ofNat (channel.deviceReg.toNat % 16)
  let sector : Int32 := Int32.ofNat (hw.lbaLow false).toNat
  ((cylinder * Int32.ofNat device.headsPerCylinder.toNat + head) * Int32.ofNat device.sectorsPerTrack.toNat + sector
    - 1).toInt64.toUInt64

/-- `ata_get_lba`; it panics on a 48-bit command with a CHS address. -/
def ataGetLba (channel : Channel κ) (hw : Hardware) (ext : Bool) : Except Stop UInt64 :=
  if ext then
    if channel.isLba then .ok (UInt64.ofNat (2 ^ 24 * lba24 hw true + lba24 hw false)) else .error .panic
  else if channel.isLba then .ok (UInt64.ofNat (lba24 hw false + 2 ^ 24 * (channel.deviceReg.toNat % 16)))
  else .ok (ataChsToLba channel hw)

def ataGetSectorCount (hw : Hardware) (ext : Bool) : UInt32 :=
  if ext then UInt32.ofNat (ataGet16bitCount (hobValue hw.sectorCount)) else ataGet8bitCount (hw.sectorCount false)

def ataGetSectorCountQueued (channel : Channel κ) (ext : Bool) : UInt32 :=
  if ext then UInt32.ofNat (ataGet16bitCount (hobValue channel.features)) else ataGet8bitCount (channel.features false)

def interruptTag (value : UInt8) : Fin 32 := Fin.ofNat 32 (value.toNat / 8)

abbrev Handled (κ : Type) : Type := Channel κ × Bool

def ataHandleCmdThrough (channel : Channel κ) (hw : Hardware) : Handled κ :=
  (if bit hw.altStatus 7 then { channel with state := .error } else channel, true)

def ataHandleCmdDevparam (channel : Channel κ) (hw : Hardware) : Handled κ :=
  if bit hw.altStatus 7 then (channel, false)
  else
    (channel.setDevice { channel.ataGetAtaDevice with
      headsPerCylinder := UInt8.ofNat (channel.deviceReg.toNat % 16 + 1)
      sectorsPerTrack := hw.sectorCount false }, true)

def ataHandleCmdIdentify (channel : Channel κ) (ext : Bool) : Handled κ :=
  ({ channel with
      pioBlockSize := 512
      pioBufHandler := if ext then .pioIdentifyPacket else .pioIdentify
      write := false
      lba := lbaNone
      sectorCount := 1 }, true)

def ataHandleCmdService (channel : Channel κ) (hw : Hardware) : Handled κ :=
  let entry := channel.ataGetAtaDevice.queue (interruptTag hw.interruptReason)
  ({ channel with
      write := entry.write
      lba := entry.lba
      sectorCount := entry.sectorCount
      state := entry.nextState
      statusHandler := some .serviceStatus }, true)

def ataHandleCmdRwQueued (channel : Channel κ) (hw : Hardware) (write ext : Bool) : Except Stop (Handled κ) :=
  match ataGetLba channel hw ext with
  | .error stop => .error stop
  | .ok lba =>
    let tag := interruptTag hw.interruptReason
    let device := channel.ataGetAtaDevice
    let entry : QueueEntry := { device.queue tag with
      write := write, lba := lba, sectorCount := ataGetSectorCountQueued channel ext }
    .ok ({ channel.setDevice { device with queue := Function.update device.queue tag entry } with
        statusHandler := some .queuedStatus }, true)

def ataHandleCmdRw (channel : Channel κ) (hw : Hardware) (write ext : Bool) : Except Stop (Handled κ) :=
  match ataGetLba channel hw ext with
  | .error stop => .error stop
  | .ok lba =>
    let device := channel.ataGetAtaDevice
    let channel := { channel with
      pioBlockSize := device.storageSectorSize.toInt.toNat
      pioBufHandler := .pioData
      write := write
      lba := lba
      sectorCount := ataGetSectorCount hw ext }
    if securityStorageCheckLba device.storage write channel.lba channel.sectorCount then .ok (channel, true)
    else .ok ({ channel with state := .error }, false)

def atapiHandleCmdPacket (channel : Channel κ) (hw : Hardware) : Handled κ :=
  ({ channel with
      dataLength := hw.byteCountLow.toNat + 256 * hw.byteCountHigh.toNat
      pioBlockSize := channel.ataGetAtaDevice.packetLength.toNat
      write := true
      lba := lbaNone
      sectorCount := 1
      pioBufHandler := .pioPacket }, true)

def nextState : CmdClass → State
  | .invalid => .error
  | .nondata => .ready
  | .pio => .pioReady
  | .dma => .dmaReady
  | .dmq => .queued
  | .packet => .pioReady
  | .service => .dmaReady
  | .identify => .pioReady
  | .devparam => .ready
  | .through => .through
  | .ncq => .error

def cmdHandler (type : CmdType) (channel : Channel κ) (hw : Hardware) : Except Stop (Handled κ) :=
  match type.cls with
  | .invalid => .ok (channel, true)
  | .nondata => .ok (channel, true)
  | .pio => ataHandleCmdRw channel hw type.write type.ext
  | .dma => ataHandleCmdRw channel hw type.write type.ext
  | .dmq => ataHandleCmdRwQueued channel hw type.write type.ext
  | .packet => .ok (atapiHandleCmdPacket channel hw)
  | .service => .ok (ataHandleCmdService channel hw)
  | .identify => .ok (ataHandleCmdIdentify channel type.ext)
  | .devparam => .ok (ataHandleCmdDevparam channel hw)
  | .through => .ok (ataHandleCmdThrough channel hw)
  | .ncq => .ok (channel, true)

def ataHandleCommand (channel : Channel κ) (hw : Hardware) (command : UInt8) : Except Stop (Handled κ) :=
  let type := ataGetCmdType command
  cmdHandler type { channel with
    deviceReg := hw.device
    state := nextState type.cls
    atapiFlag := false } hw

def ataHandleServiceStatus (channel : Channel κ) (hw : Hardware) : Channel κ :=
  if channel.state ≠ .pioReady ∨ bit hw.status 0 then { channel with statusHandler := none }
  else
    { channel with
      pioBlockSize := hw.byteCountLow.toNat + 256 * hw.byteCountHigh.toNat
      write := !bit hw.interruptReason 1
      statusHandler := none }

def ataHandleQueuedStatus (channel : Channel κ) (hw : Hardware) : Channel κ :=
  if channel.state ≠ .queued ∨ bit hw.status 0 then { channel with statusHandler := none }
  else if bit hw.interruptReason 2 then { channel with state := .ready, statusHandler := none }
  else { ataHandleServiceStatus (ataHandleCmdService channel hw).1 hw with statusHandler := none }

def ataHandleStatus (channel : Channel κ) (hw : Hardware) : Channel κ :=
  if bit hw.status 7 then channel
  else
    match channel.statusHandler with
    | none => channel
    | some .queuedStatus => ataHandleQueuedStatus channel hw
    | some .serviceStatus => ataHandleServiceStatus channel hw

def ataHandleDeviceControl (channel : Channel κ) (value : UInt8) : Channel κ :=
  if bit value 2 then { channel with state := .ready } else channel

def ataHandleFeatures (channel : Channel κ) (value : UInt8) : Channel κ :=
  { channel with features := fun hob => if hob then channel.features false else value }

def atapiHandleInterruptReason (channel : Channel κ) (hw : Hardware) : Channel κ :=
  if channel.atapiFlag ∧ bit hw.interruptReason 0 ∧ bit hw.interruptReason 1 then { channel with state := .ready }
  else channel

def be32 (buf : List UInt8) (offset : Nat) : Nat :=
  2 ^ 24 * (buf.getD offset 0).toNat + 65536 * (buf.getD (offset + 1) 0).toNat +
    256 * (buf.getD (offset + 2) 0).toNat + (buf.getD (offset + 3) 0).toNat

def be16 (buf : List UInt8) (offset : Nat) : Nat := 256 * (buf.getD offset 0).toNat + (buf.getD (offset + 1) 0).toNat

/-- `packet_handle_command` with its handlers; what a handler leaves is what was there. -/
def packetHandleCommand (packet : PacketDevice) (buf : List UInt8) : PacketDevice :=
  let code := buf.getD 0 0
  let (cls, write) := packetType code
  match cls with
  | .through => {
      kind := .data, state := .through, lba := lbaNone, sectorCount := 1, sectorSize := 512, write := write }
  | .invalid => { packet with kind := .data, state := .ready, sectorSize := 512 }
  | .nondata => { packet with kind := .data, state := .ready, sectorSize := 12 }
  | .confData => {
      kind := if code = 0x25 then .sectorSize else if code = 0x5C then .bufferLength else packet.kind
      state := .pioReady, lba := lbaNone, sectorCount := 1, sectorSize := 12, write := write }
  | .readData | .writeData => {
      kind := .command, state := .pioReady, lba := UInt64.ofNat (be32 buf 2), write := write, sectorSize := 2048
      sectorCount := UInt32.ofNat (if code = 0x28 ∨ code = 0x2A then be16 buf 7 else be32 buf 6) }

/-- `atapi_handle_pio_packet`. The block address is one less, as the end of the block adds one to it. -/
def atapiHandlePioPacket (channel : Channel κ) (hw : Hardware) : Handled κ :=
  let packet := packetHandleCommand hw.stack channel.pioBuf
  let packet := { packet with lba := packet.lba - 1 }
  let dma := bit (channel.features false) 0
  let ovl := bit (channel.features false) 1
  let channel := { channel with atapiFlag := true }
  let device := channel.ataGetAtaDevice
  if packet.kind = .command ∧ ¬ securityStorageCheckLba device.storage packet.write packet.lba packet.sectorCount then
    ({ channel with state := .error }, false)
  else
    let channel :=
      match packet.kind with
      | .command => { channel with pioBufHandler := .atapiPioData, dmaState := if dma then .dmaReady else .dmaThrough }
      | .data => { channel with dmaState := .dmaThrough }
      | .sectorSize | .bufferLength => { channel with pioBufHandler := .configData, dmaState := .dmaThrough }
    let next := if dma then .dmaReady else packet.state
    if ovl then
      let entry : QueueEntry := {
        write := packet.write, lba := packet.lba, sectorCount := packet.sectorCount, nextState := next }
      let queue := Function.update device.queue (interruptTag hw.interruptReason) entry
      ({ channel.setDevice { device with queue := queue } with
          statusHandler := some .queuedStatus, state := .queued }, true)
    else
      let pioXmitSize := if packet.sectorSize > channel.dataLength ∧ channel.dataLength > 0 then channel.dataLength
        else packet.sectorSize
      ({ channel with
          write := packet.write
          lba := packet.lba
          sectorCount := packet.sectorCount
          state := next
          pioBlockSize := if dma then channel.pioBlockSize else pioXmitSize }, true)

def ataHandlePioData (channel : Channel κ) (write : Bool) : Except Stop (Handled κ) :=
  let device := channel.ataGetAtaDevice
  match storageHandleSectors device.storage ⟨channel.lba, 1, device.storageSectorSize, write⟩ true channel.pioBuf with
  | none => .error .pioOutside
  | some buf => .ok ({ channel with pioBuf := buf }, true)

def setNames (channel : Channel κ) (model : List UInt8) : Except Stop (Channel κ) :=
  match (overwrite channel.pioBuf 54 (ataConvertString model)).bind fun buf =>
      overwrite buf 46 (ataConvertString ataVirtualRevision) with
  | none => .error .pioOutside
  | some buf => .ok { channel with pioBuf := buf }

def ataHandlePioIdentify (channel : Channel κ) : Except Stop (Handled κ) :=
  (setNames channel ataVirtualModel).map fun channel => (channel, true)

def identifiesAtapi (buf : List UInt8) : Bool := (buf.getD 1 0).toNat / 64 = 2

def atapiHandlePioIdentifyPacket (channel : Channel κ) : Except Stop (Handled κ) :=
  let device := channel.ataGetAtaDevice
  let device :=
    match device.atapiStorage with
    | some storage =>
      if identifiesAtapi channel.pioBuf then { device with storage := storage, storageSectorSize := 2048 } else device
    | none => device
  let device := { device with packetLength := if (channel.pioBuf.getD 0 0).toNat % 4 = 0 then 12 else 16 }
  (setNames (channel.setDevice device) atapiVirtualModel).map fun channel => (channel, true)

def pioBufHandler (channel : Channel κ) (hw : Hardware) (write : Bool) : Except Stop (Handled κ) :=
  match channel.pioBufHandler with
  | .pioIdentify => ataHandlePioIdentify channel
  | .pioIdentifyPacket => atapiHandlePioIdentifyPacket channel
  | .pioData => ataHandlePioData channel write
  | .pioPacket => .ok (atapiHandlePioPacket channel hw)
  | .configData => .ok (channel, true)
  | .atapiPioData => ataHandlePioData channel write

structure DataReply (κ : Type) where
  channel : Channel κ
  data : List UInt8
  ops : List PortOp

def units (size total : Nat) : Nat := total / size * size

/-- The case `ATA_STATE_PIO_READY` of `ata_handle_data`, up to where it falls through. -/
def pioReady (channel : Channel κ) (hw : Hardware) (write : Bool) (size : Nat) :
    Except Stop (Channel κ × List PortOp) :=
  if write then .ok ({ channel with pioBufIndex := 0, state := .pioData }, [])
  else
    let count := units size channel.pioBlockSize
    match overwrite channel.pioBuf 0 ((List.range count).map hw.data) with
    | none => .error .pioOutside
    | some buf =>
      match pioBufHandler { channel with pioBuf := buf } hw false with
      | .error stop => .error stop
      | .ok (channel, _) => .ok ({ channel with pioBufIndex := 0, state := .pioData }, [.insn count])

def pioBlockEnd (channel : Channel κ) (hw : Hardware) (write : Bool) (size : Nat) :
    Except Stop (Channel κ × List PortOp) :=
  let sectorCount := channel.sectorCount - 1
  let channel := { channel with
    pioBufIndex := 0
    sectorCount := sectorCount
    state := if sectorCount > 0 then .pioReady else .ready }
  if write then
    match pioBufHandler channel hw true with
    | .error stop => .error stop
    | .ok (after, default) =>
      .ok ({ after with lba := after.lba + 1 },
        if default then [.outsn (after.pioBuf.take (units size channel.pioBlockSize))] else [])
  else .ok ({ channel with lba := channel.lba + 1 }, [])

def pioData (channel : Channel κ) (hw : Hardware) (write : Bool) (bytes : List UInt8) : Except Stop (DataReply κ) :=
  if write ≠ channel.write then .error .panic
  else if channel.pioBufIndex + bytes.length > channel.pioBuf.length then .error .pioOutside
  else
    let data := (channel.pioBuf.drop channel.pioBufIndex).take bytes.length
    let buf := channel.pioBuf.take channel.pioBufIndex ++ bytes ++
      channel.pioBuf.drop (channel.pioBufIndex + bytes.length)
    let channel := { channel with
      pioBuf := if write then buf else channel.pioBuf
      pioBufIndex := channel.pioBufIndex + bytes.length }
    if channel.pioBufIndex ≥ channel.pioBlockSize then
      (pioBlockEnd channel hw write bytes.length).map fun ended => ⟨ended.1, data, ended.2⟩
    else .ok ⟨channel, data, []⟩

/-- `ata_handle_data`. `bytes` is what the guest writes, and as long as the access. In the last case all ones are
set for a read, but the access is then done on the hardware. -/
def ataHandleData (channel : Channel κ) (hw : Hardware) (write : Bool) (bytes : List UInt8) :
    Except Stop (DataReply κ) :=
  match channel.state with
  | .pioReady =>
    match pioReady channel hw write bytes.length with
    | .error stop => .error stop
    | .ok (channel, ops) => (pioData channel hw write bytes).map fun reply => { reply with ops := ops ++ reply.ops }
  | .pioData => pioData channel hw write bytes
  | .through => .ok ⟨channel, [], [.forward]⟩
  | _ => if write then .error .panic else .ok ⟨channel, [], [.forward]⟩

end DisasVisor.Ata
