import DisasVisor.Ata.Channel

/-!
Commands of an AHCI port: what `ahci.c` makes of the command list of a guest. A port has a list and
command tables of its own for the drive, and a DMA buffer for each slot.
-/

namespace DisasVisor.Ahci

open DisasVisor.Storage DisasVisor.Ata

/-- How a handler ends early: at an `ASSERT` or a panic of `ahci_cmd_start`, `ahci_cmd_complete` or
`ahci_copy_dmabuf`, with a copy outside of a DMA buffer, in what handles a command, or at a register. -/
inductive Stop where
  | assertion
  | outside
  | hook
  | register
  deriving DecidableEq

abbrev SlotNo : Type := Fin 32

structure CommandHeader where
  a : Bool
  w : Bool
  prdtl : Nat
  prdbc : Nat
  ctba : Nat
  ctbau : Nat
  deriving DecidableEq

structure Prd where
  dba : Nat
  dbau : Nat
  dbc : Nat
  i : Bool
  deriving DecidableEq

structure CmdFis where
  fisType : UInt8
  command : UInt8
  features : UInt8
  sectorNumber : UInt8
  cylLow : UInt8
  cylHigh : UInt8
  devHead : UInt8
  sectorNumberExp : UInt8
  cylLowExp : UInt8
  cylHighExp : UInt8
  featuresExp : UInt8
  sectorCount : UInt8
  sectorCountExp : UInt8

inductive IdentifyType where
  | none
  | device
  | packet
  deriving DecidableEq

/-- An entry of `my`. `table` is what the shadow command table has before its PRD. -/
structure Slot where
  cmdtblP : Nat
  table : List UInt8
  prd : Prd
  dmabuf : Option (List UInt8)
  dmabufP : Nat
  dmabuflen : Nat
  dmabufLba : UInt64
  dmabufNsec : UInt32
  dmabufSsiz : Int32
  dmabufRwflag : Bool
  dmabufIdentify : IdentifyType

/-- `struct ahci_port`. `ahciKeys` and `atapiKeys` are what `storage_new` makes for the port. -/
structure Port (κ : Type) where
  storageDevice : Option (List (StorageKeys κ))
  ahciKeys : List (StorageKeys κ)
  atapiKeys : List (StorageKeys κ)
  atapi : Bool
  clb : UInt32
  clbu : UInt32
  shadowbit : SlotNo → Bool
  myclb : UInt32
  myclbu : UInt32
  mycmdlist : SlotNo → CommandHeader
  my : SlotNo → Slot

structure Block where
  phys : Nat
  byte : Nat → UInt8

def slotBit (value : UInt32) (i : SlotNo) : Bool := value.toNat.testBit i.val

def ahciGetPhys (lower upper : Nat) : Nat := lower + 2 ^ 32 * upper

def ctbaMask : Nat := 0x3F

def tableBase (ctba : Nat) : Nat := ctba / (ctbaMask + 1) * (ctbaMask + 1)

def guestHeader (memory : Memory) (list : Nat) (i : SlotNo) : CommandHeader :=
  let phys := list + 32 * i.val
  { a := (memory.dword phys).testBit 5
    w := (memory.dword phys).testBit 6
    prdtl := memory.dword phys / 65536
    prdbc := memory.dword (phys + 4)
    ctba := memory.dword (phys + 8)
    ctbau := memory.dword (phys + 12) }

def CommandHeader.table (header : CommandHeader) : Nat := ahciGetPhys (tableBase header.ctba) header.ctbau

def guestPrd (memory : Memory) (table k : Nat) : Prd :=
  let phys := table + 0x80 + 16 * k
  { dba := memory.dword phys
    dbau := memory.dword (phys + 4)
    dbc := memory.dword (phys + 12) % 2 ^ 22
    i := (memory.dword (phys + 12)).testBit 31 }

namespace Prd

def size (prd : Prd) : Nat := (prd.dbc &&& 0x3FFFFE) + 2

def address (prd : Prd) : Nat := ahciGetPhys (prd.dba / 2 * 2) prd.dbau

end Prd

def ahciGetDmalen (memory : Memory) (table prdtl : Nat) : Nat × Bool :=
  ((List.range prdtl).foldl (fun total k => (total + (guestPrd memory table k).size) % 2 ^ 32) 0,
    (List.range prdtl).any fun k => (guestPrd memory table k).i)

def copyFromGuest (memory : Memory) (table : Nat) :
    List Nat → Nat → Nat → List UInt8 → Except Stop (List UInt8)
  | [], _, remain, buf => if remain = 0 then .ok buf else .error .assertion
  | k :: ks, offset, remain, buf =>
    let prd := guestPrd memory table k
    if remain < prd.size then .error .assertion
    else
      match overwrite buf offset (memory.slice prd.address prd.size) with
      | none => .error .outside
      | some buf => copyFromGuest memory table ks (offset + prd.size) (remain - prd.size) buf

/-- The loop of `ahci_copy_dmabuf` to the guest, which may write over the table that it reads. -/
def copyToGuest (table : Nat) (buf : List UInt8) : List Nat → Nat → Nat → Memory → Except Stop Memory
  | [], _, remain, memory => if remain = 0 then .ok memory else .error .assertion
  | k :: ks, offset, remain, memory =>
    let prd := guestPrd memory table k
    if remain < prd.size then .error .assertion
    else if buf.length < offset + prd.size then .error .outside
    else
      copyToGuest table buf ks (offset + prd.size) (remain - prd.size)
        (memory.writeBytes prd.address ((buf.drop offset).take prd.size))

def cmdFis (table : List UInt8) : CmdFis :=
  { fisType := table.getD 0 0
    command := table.getD 2 0
    features := table.getD 3 0
    sectorNumber := table.getD 4 0
    cylLow := table.getD 5 0
    cylHigh := table.getD 6 0
    devHead := table.getD 7 0
    sectorNumberExp := table.getD 8 0
    cylLowExp := table.getD 9 0
    cylHighExp := table.getD 10 0
    featuresExp := table.getD 11 0
    sectorCount := table.getD 12 0
    sectorCountExp := table.getD 13 0 }

def acmd (table : List UInt8) : List UInt8 := (table.drop 64).take 16

def shifted (bytes : List UInt8) : UInt64 := bytes.foldl (fun value byte => value <<< 8 ||| byte.toUInt64) 0

def CmdFis.lba48 (cfis : CmdFis) : UInt64 :=
  shifted [cfis.cylHighExp, cfis.cylLowExp, cfis.sectorNumberExp, cfis.cylHigh, cfis.cylLow, cfis.sectorNumber]

def CmdFis.lba28 (cfis : CmdFis) : UInt64 :=
  shifted [cfis.devHead &&& 0xF, cfis.cylHigh, cfis.cylLow, cfis.sectorNumber]

def count16 (high low : UInt8) : UInt32 :=
  let nsec := high.toUInt32 <<< 8 ||| low.toUInt32
  if nsec = 0 then 65536 else nsec

def count8 (low : UInt8) : UInt32 := if low = 0 then 256 else low.toUInt32

namespace Slot

def access (slot : Slot) (lba : UInt64) (nsec : UInt32) : Slot :=
  { slot with
    dmabufRwflag := true
    dmabufLba := lba
    dmabufNsec := if slot.dmabuflen / 2 ^ 9 ≠ nsec.toNat then UInt32.ofNat (slot.dmabuflen / 2 ^ 9) else nsec
    dmabufSsiz := 512
    dmabufIdentify := .none }

def Transfers (slot : Slot) (w : Bool) (cfis : CmdFis) (rw : Bool) : Prop :=
  bit cfis.devHead 6 ∧ slot.dmabuflen % 512 = 0 ∧ w = rw

instance (slot : Slot) (w : Bool) (cfis : CmdFis) (rw : Bool) : Decidable (slot.Transfers w cfis rw) :=
  inferInstanceAs (Decidable (_ ∧ _ ∧ _))

def ahciHandleCmdRwDma (slot : Slot) (w : Bool) (cfis : CmdFis) (rw ext : Bool) : Except Stop Slot :=
  if ¬ slot.Transfers w cfis rw then .error .hook
  else if ext then .ok (slot.access cfis.lba48 (count16 cfis.sectorCountExp cfis.sectorCount))
  else .ok (slot.access cfis.lba28 (count8 cfis.sectorCount))

def ahciHandleCmdRwNcq (slot : Slot) (w : Bool) (cfis : CmdFis) (rw : Bool) : Except Stop Slot :=
  if ¬ slot.Transfers w cfis rw then .error .hook
  else .ok (slot.access cfis.lba48 (count16 cfis.featuresExp cfis.features))

def ahciHandleCmdThrough (slot : Slot) : Slot := { slot with dmabufRwflag := false, dmabufIdentify := .none }

def ahciHandleCmdIdentify (slot : Slot) (ext : Bool) : Slot :=
  { slot with dmabufRwflag := false, dmabufIdentify := if ext then .packet else .device }

/-- `ahci_cmd_handler_table`; a class that is not there is handled as invalid, which panics. -/
def ahciCmdHandler (slot : Slot) (w : Bool) (cfis : CmdFis) : Except Stop Slot :=
  let type := ataGetCmdType cfis.command
  match type.cls with
  | .nondata | .devparam | .through => .ok slot.ahciHandleCmdThrough
  | .pio | .dma => slot.ahciHandleCmdRwDma w cfis type.write type.ext
  | .ncq => slot.ahciHandleCmdRwNcq w cfis type.write
  | .identify => .ok (slot.ahciHandleCmdIdentify type.ext)
  | .invalid | .dmq | .packet | .service => .error .hook

/-- `ahci_handle_packet`. What the packet device is on the stack is replaced, as far as it is read. -/
def ahciHandlePacket (slot : Slot) (acmd : List UInt8) : Except Stop Slot :=
  let packet := packetHandleCommand ⟨.data, .ready, false, 0, 0, 0⟩ acmd
  if packet.kind = .command then
    if slot.dmabuflen ≠ packet.sectorCount.toNat * packet.sectorSize % 2 ^ 32 then .error .hook
    else
      .ok { slot with
        dmabufRwflag := true
        dmabufLba := packet.lba
        dmabufNsec := packet.sectorCount
        dmabufSsiz := Int32.ofNat packet.sectorSize }
  else .ok { slot with dmabufRwflag := false }

end Slot

variable {κ : Type}

namespace Port

def setSlot (port : Port κ) (i : SlotNo) (slot : Slot) : Port κ := { port with my := Function.update port.my i slot }

def setShadowbit (port : Port κ) (i : SlotNo) (value : Bool) : Port κ :=
  { port with shadowbit := Function.update port.shadowbit i value }

def setHeader (port : Port κ) (i : SlotNo) (header : CommandHeader) : Port κ :=
  { port with mycmdlist := Function.update port.mycmdlist i header }

def list (port : Port κ) : Nat := ahciGetPhys port.clb.toNat port.clbu.toNat

def handleSectors (port : Port κ) (i : SlotNo) (write : Bool) : Except Stop (Port κ) :=
  let slot := port.my i
  match port.storageDevice, slot.dmabuf with
  | some keys, some buf =>
    match storageHandleSectors keys ⟨slot.dmabufLba, slot.dmabufNsec, slot.dmabufSsiz, write⟩ true buf with
    | some buf => .ok (port.setSlot i { slot with dmabuf := some buf })
    | none => .error .hook
  | _, _ => .error .hook

def ahciCmdPrehook (port : Port κ) (i : SlotNo) : Except Stop (Port κ) := do
  let slot := port.my i
  let header := port.mycmdlist i
  let cfis := cmdFis slot.table
  if cfis.fisType ≠ 0x27 then .error .hook
  else
    let handled ←
      if header.a then
        if (ataGetCmdType cfis.command).cls ≠ .packet then .error .hook else slot.ahciHandlePacket (acmd slot.table)
      else do
        let handled ← slot.ahciCmdHandler header.w cfis
        if handled.dmabufRwflag ∧ port.atapi then .error .hook else pure handled
    if handled.dmabufRwflag ∧ header.w then (port.setSlot i handled).handleSectors i true
    else pure (port.setSlot i handled)

def ahciIdentityCheck (port : Port κ) (i : SlotNo) : Except Stop (Port κ) :=
  match (port.my i).dmabuf with
  | some (_ :: byte :: _) =>
    if byte.toNat / 64 = 2 ∧ ¬ port.atapi then .ok { port with storageDevice := some port.atapiKeys, atapi := true }
    else .ok port
  | _ => .error .hook

def ahciCmdPosthook (port : Port κ) (i : SlotNo) : Except Stop (Port κ) :=
  match (port.my i).dmabufIdentify with
  | .packet => port.ahciIdentityCheck i
  | .device => .ok port
  | .none =>
    if ¬ (port.my i).dmabufRwflag then .ok port
    else if (port.mycmdlist i).w then .ok port
    else port.handleSectors i false

def ahciCmdCancel (port : Port κ) : Port κ :=
  { port with
    shadowbit := fun _ => false
    my := fun i => if port.shadowbit i then { port.my i with dmabuf := none } else port.my i }

def dmabufMax : Nat := 4 * 1024 * 1024

def fillSlot (memory : Memory) (block : Block) (port : Port κ) (i : SlotNo) : Except Stop (Port κ) := do
  let header := guestHeader memory port.list i
  let slot := port.my i
  if header.prdtl = 0 then
    if slot.dmabuf.isSome then .error .assertion else pure (port.setHeader i header)
  else
    let (totalsize, intr) := ahciGetDmalen memory header.table header.prdtl
    if dmabufMax < totalsize then .error .assertion
    else if slot.dmabuf.isSome then .error .assertion
    else
      let fresh := (List.range totalsize).map block.byte
      let buf ← if header.w then copyFromGuest memory header.table (List.range header.prdtl) 0 totalsize fresh
        else pure fresh
      let port := port.setHeader i
        { header with ctba := slot.cmdtblP % 2 ^ 32, ctbau := slot.cmdtblP / 2 ^ 32, prdtl := 1 }
      let port := port.setSlot i
        { slot with
          dmabuf := some buf
          dmabufP := block.phys
          dmabuflen := totalsize
          table := memory.slice header.table 0x80
          prd := ⟨block.phys % 2 ^ 32, block.phys / 2 ^ 32, ((totalsize + 2 ^ 32 - 2) ||| 1) % 2 ^ 22, intr⟩ }
      port.ahciCmdPrehook i

def startSlot (memory : Memory) (block : Block) (port : Port κ) (i : SlotNo) : Except Stop (Port κ) := do
  let filled ← fillSlot memory block port i
  if filled.shadowbit i then .error .assertion else pure (filled.setShadowbit i true)

def ahciCmdStart (memory : Memory) (blocks : SlotNo → Block) (port : Port κ) (pxci : UInt32) : Except Stop (Port κ) :=
  (List.finRange 32).foldlM
    (fun port i => if slotBit pxci i then startSlot memory (blocks i) port i else pure port) port

def completeSlot (port : Port κ) (memory : Memory) (i : SlotNo) : Except Stop (Port κ × Memory) := do
  let header := guestHeader memory port.list i
  let port := port.setShadowbit i false
  let (port, memory) ←
    if header.prdtl = 0 then
      if (port.my i).dmabuf.isSome then .error .assertion else pure (port, memory)
    else do
      let port ← port.ahciCmdPosthook i
      let memory ←
        if (port.mycmdlist i).w then pure memory
        else
          match (port.my i).dmabuf with
          | none => .error .assertion
          | some buf => copyToGuest header.table buf (List.range header.prdtl) 0 (port.my i).dmabuflen memory
      pure (port.setSlot i { port.my i with dmabuf := none }, memory)
  pure (port, memory.setDword (port.list + 32 * i.val + 4) (port.mycmdlist i).prdbc)

def ahciCmdComplete (port : Port κ) (memory : Memory) (pxsact pxci : UInt32) : Except Stop (Port κ × Memory) :=
  (List.finRange 32).foldlM
    (fun (state : Port κ × Memory) i =>
      if state.1.shadowbit i ∧ ¬ slotBit pxci i ∧ ¬ slotBit pxsact i then completeSlot state.1 state.2 i
      else pure state)
    (port, memory)

end Port

/-!
Accesses of a guest to the memory space of an AHCI controller: `mmhandler2` of `ahci.c`. What the
hardware answers, and what the allocator gives, is an input.
-/

abbrev PortNo : Type := Fin 32

def pxClb : Nat := 0x00

def pxClbu : Nat := 0x04

def pxCmd : Nat := 0x18

def pxSact : Nat := 0x34

def pxCi : Nat := 0x38

def globalCap : Nat := 0x00

def globalGhc : Nat := 0x04

def globalPi : Nat := 0x0C

def portRegister (p : PortNo) (offset : Nat) : Nat := 0x100 + 0x80 * p.val + offset

def startBit (value : UInt32) : Bool := value.toNat.testBit 0

def aeBit (value : UInt32) : Bool := value.toNat.testBit 31

/-- `struct ahci_data`, less its locks and lists. -/
structure AhciData (κ : Type) where
  notAhci : Bool
  enabled : Bool
  maplen : Nat
  pi : UInt32
  ncs : Nat
  port : PortNo → Port κ

/-- What the handler does to the hardware, and to what it has given to the hardware, in its order: reads and writes
of registers, the release of a DMA buffer, and a new use of an entry of the command list. -/
inductive Op where
  | read (offset len : Nat)
  | write (offset len : Nat) (value : UInt32)
  | release (p : PortNo) (i : SlotNo)
  | reuse (p : PortNo) (i : SlotNo)
  deriving DecidableEq

structure Env where
  register : Nat → UInt32
  block : SlotNo → Block
  page : Nat → Nat

structure Reply (κ : Type) where
  ad : AhciData κ
  memory : Memory
  ops : List Op
  answer : Option UInt32

namespace AhciData

def setPort (ad : AhciData κ) (p : PortNo) (port : Port κ) : AhciData κ :=
  { ad with port := Function.update ad.port p port }

end AhciData

namespace Port

def shadowed (port : Port κ) : Bool := (List.finRange 32).any port.shadowbit

def released (before after : Port κ) : List SlotNo :=
  (List.finRange 32).filter fun i => (before.my i).dmabuf.isSome ∧ (after.my i).dmabuf.isNone

def ahciPortDataInit (port : Port κ) (p : PortNo) (env : Env) : Port κ × List Op :=
  let pxcmd := env.register (portRegister p pxCmd)
  let next : Port κ := { port with
    storageDevice := some port.ahciKeys
    atapi := false
    clb := env.register (portRegister p pxClb)
    clbu := env.register (portRegister p pxClbu)
    myclb := UInt32.ofNat (env.page 0)
    myclbu := UInt32.ofNat (env.page 0 / 2 ^ 32)
    mycmdlist := fun _ => ⟨false, false, 0, 0, 0, 0⟩
    my := fun i => { port.my i with cmdtblP := env.page (i.val + 1), dmabuf := none } }
  (next,
    [.read (portRegister p pxClb) 4, .read (portRegister p pxClbu) 4, .read (portRegister p pxCmd) 4] ++
      if startBit pxcmd then
        [.write (portRegister p pxCmd) 4 (pxcmd &&& 0xFFFFFFFE), .write (portRegister p pxClb) 4 next.myclb,
          .write (portRegister p pxClbu) 4 next.myclbu, .write (portRegister p pxCmd) 4 pxcmd]
      else [])

end Port

def ahciPortEq (portOff len eqPortOff : Nat) : Except Stop Bool :=
  if portOff = eqPortOff then if len = 4 then .ok true else .error .register
  else if portOff > eqPortOff then if portOff ≥ eqPortOff + 4 then .ok false else .error .register
  else if portOff + len > eqPortOff then .error .register
  else .ok false

def popcount (value : UInt32) : Nat := ((List.range 32).filter value.toNat.testBit).length

def ahciProbe (ad : AhciData κ) (env : Env) (wrote : Option UInt32) : AhciData κ :=
  let ghc := env.register globalGhc
  let cap := env.register globalCap
  let pi := env.register globalPi
  let numOfPorts := cap.toNat % 32 + 1
  if ad.enabled ∧ wrote.any aeBit then ad
  else if wrote.any aeBit ∧ ¬ aeBit ghc then { ad with notAhci := true }
  else if ad.enabled then if aeBit ghc then ad else { ad with enabled := false }
  else if ¬ aeBit ghc then ad
  else if ad.maplen < 0x100 + 0x80 * numOfPorts then { ad with notAhci := true }
  else if popcount pi = 0 ∨ popcount pi > numOfPorts then { ad with pi := pi, notAhci := true }
  else { ad with pi := pi, enabled := true, ncs := cap.toNat / 2 ^ 8 % 32 + 1 }

namespace Reply

def log (reply : Reply κ) (ops : List Op) : Reply κ := { reply with ops := reply.ops ++ ops }

def setPort (reply : Reply κ) (p : PortNo) (port : Port κ) : Reply κ := { reply with ad := reply.ad.setPort p port }

def prepare (reply : Reply κ) (p : PortNo) (env : Env) : Reply κ :=
  if (reply.ad.port p).storageDevice.isSome then reply
  else
    let (port, ops) := (reply.ad.port p).ahciPortDataInit p env
    (reply.setPort p port).log ops

def notice (len : Nat) (off : Option Nat) (env : Env) (p : PortNo) (reply : Reply κ) : Except Stop (Reply κ) := do
  let port := reply.ad.port p
  if port.storageDevice.isNone ∨ ¬ port.shadowed then pure reply
  else
    let pxsact := env.register (portRegister p pxSact)
    let pxci := env.register (portRegister p pxCi)
    let (done, memory) ← port.ahciCmdComplete reply.memory pxsact pxci
    let answer ←
      match off with
      | none => pure reply.answer
      | some off => do
          if ← ahciPortEq off len pxSact then pure (some pxsact)
          else if ← ahciPortEq off len pxCi then pure (some pxci)
          else pure reply.answer
    let ops := [.read (portRegister p pxSact) 4, .read (portRegister p pxCi) 4] ++ (port.released done).map (.release p)
    pure { reply.setPort p done with memory := memory, ops := reply.ops ++ ops, answer := answer }

def writeCmd (reply : Reply κ) (p : PortNo) (env : Env) (value : UInt32) : Reply κ :=
  let port := reply.ad.port p
  let pxcmd := env.register (portRegister p pxCmd)
  if port.shadowed ∧ ¬ startBit value then
    if startBit pxcmd then
      (reply.setPort p port.ahciCmdCancel).log
        (.read (portRegister p pxCmd) 4 :: (port.released port.ahciCmdCancel).map (.release p))
    else reply.log [.read (portRegister p pxCmd) 4]
  else if startBit value then
    if ¬ startBit pxcmd then
      reply.log [.read (portRegister p pxCmd) 4, .write (portRegister p pxClb) 4 port.myclb,
        .write (portRegister p pxClbu) 4 port.myclbu]
    else reply.log [.read (portRegister p pxCmd) 4]
  else reply

def writeCi (reply : Reply κ) (p : PortNo) (env : Env) (value : UInt32) : Except Stop (Reply κ) := do
  let reply := reply.prepare p env
  let port ← (reply.ad.port p).ahciCmdStart reply.memory env.block value
  pure ((reply.setPort p port).log (((List.finRange 32).filter (slotBit value)).map (.reuse p)))

def writePort (reply : Reply κ) (p : PortNo) (env : Env) (off len : Nat) (value : UInt32) :
    Except Stop (Reply κ × Bool) := do
  if ← ahciPortEq off len pxClb then
    let reply := reply.prepare p env
    let port := reply.ad.port p
    pure ((reply.setPort p { port with clb := value &&& 0xFFFFFC00 }).log
      [.write (portRegister p pxClb) 4 port.myclb], true)
  else if ← ahciPortEq off len pxClbu then
    let reply := reply.prepare p env
    let port := reply.ad.port p
    pure ((reply.setPort p { port with clbu := value }).log [.write (portRegister p pxClbu) 4 port.myclbu], true)
  else if ← ahciPortEq off len pxCmd then pure (reply.writeCmd p env value, false)
  else if ← ahciPortEq off len pxSact then pure (reply.prepare p env, false)
  else if ← ahciPortEq off len pxCi then do
    let reply ← reply.writeCi p env value
    pure (reply, false)
  else pure (reply, false)

def readPort (reply : Reply κ) (p : PortNo) (env : Env) (off len : Nat) : Except Stop (Reply κ × Bool) := do
  if ← ahciPortEq off len pxClb then
    let reply := reply.prepare p env
    pure ({ reply with answer := some (reply.ad.port p).clb }, true)
  else if ← ahciPortEq off len pxClbu then
    let reply := reply.prepare p env
    pure ({ reply with answer := some (reply.ad.port p).clbu }, true)
  else pure (reply, false)

def forward (reply : Reply κ) (offset len : Nat) : Option UInt32 → Reply κ
  | some value => reply.log [.write offset len value]
  | none => reply.log [.read offset len]

end Reply

def portAt (offset : Nat) : Option PortNo :=
  if inside : 0x100 ≤ offset ∧ offset < 0x1100 then some ⟨(offset - 0x100) / 0x80, by omega⟩ else none

def mmhandlerEnabled (reply : Reply κ) (env : Env) (offset len : Nat) (wr : Option UInt32) :
    Except Stop (Reply κ) := do
  if 0x1100 ≤ offset then .error .register
  else
    let port := portAt offset
    let off := offset % 0x80
    let reply ← (List.finRange 32).foldlM
      (fun reply p => Reply.notice len (if wr.isNone ∧ port = some p then some off else none) env p reply) reply
    if reply.answer.isSome then pure reply
    else if 0x80 < off + len then .error .register
    else
      match wr with
      | some value =>
        let (reply, returns) ←
          match port with
          | some p => reply.writePort p env off len value
          | none => pure (reply, false)
        if returns then pure reply
        else if ← ahciPortEq offset len globalGhc then
          let reply := reply.log [.write globalGhc 4 value]
          pure { reply with ad := ahciProbe reply.ad env (some value) }
        else pure (reply.forward offset len wr)
      | none =>
        let (reply, returns) ←
          match port with
          | some p => reply.readPort p env off len
          | none => pure (reply, false)
        if returns then pure reply else pure (reply.forward offset len none)

def mmhandlerPart (reply : Reply κ) (env : Env) (offset len : Nat) (wr : Option UInt32) : Except Stop (Reply κ) :=
  if reply.ad.enabled then mmhandlerEnabled reply env offset len wr
  else
    let reply := reply.forward offset len wr
    match wr with
    | none => .ok reply
    | some value =>
      if offset = globalGhc ∧ 4 ≤ len then .ok { reply with ad := ahciProbe reply.ad env (some value) }
      else if offset < globalGhc + 4 ∧ globalGhc < offset + len then
        .ok { reply with ad := ahciProbe reply.ad env none }
      else .ok reply

/-- An access of the guest; `high` is for the second half of one of 8 bytes. -/
structure Access where
  offset : Nat
  len : Nat
  write : Bool
  low : UInt32
  high : UInt32

namespace Access

def wr (access : Access) (value : UInt32) : Option UInt32 := if access.write then some value else none

def Aligned (access : Access) (maplen : Nat) : Prop :=
  (access.len = 1 ∨ access.len = 2 ∨ access.len = 4 ∨ access.len = 8) ∧ access.offset % access.len = 0 ∧
    access.offset + access.len ≤ maplen

instance (access : Access) (maplen : Nat) : Decidable (access.Aligned maplen) := inferInstanceAs (Decidable (_ ∧ _ ∧ _))

end Access

/-- `mmhandler2`; the halves of an access of 8 bytes have an environment each, and the value beside the reply is
the answer for the first of them. -/
def mmhandler2 (ad : AhciData κ) (memory : Memory) (env env2 : Env) (access : Access) :
    Except Stop (Reply κ × Option UInt32) := do
  let reply : Reply κ := ⟨ad, memory, [], none⟩
  if ad.notAhci then pure (reply.forward access.offset access.len (access.wr access.low), none)
  else if access.len = 8 then
    let first ← mmhandlerPart reply env access.offset 4 (access.wr access.low)
    let second ← mmhandlerPart { first with answer := none } env2 (access.offset + 4) 4 (access.wr access.high)
    pure (second, first.answer)
  else
    let reply ← mmhandlerPart reply env access.offset access.len (access.wr access.low)
    pure (reply, none)

end DisasVisor.Ahci
