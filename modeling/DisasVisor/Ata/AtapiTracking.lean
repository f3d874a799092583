import DisasVisor.Ata.BusMaster
import DisasVisor.Ata.PioPhases

/-!
The sectors of ATAPI packets: the data phase after the packet of a READ or WRITE, and after another one.
-/

namespace DisasVisor.Ata

open DisasVisor.Storage

variable {κ : Type} {c : Channel κ} {hw : Hardware} {bytes buf : List UInt8}

structure SectorCommand where
  write : Bool
  lba : Nat
  count : Nat

def sectorCommand (buf : List UInt8) : Option SectorCommand :=
  let code := buf.getD 0 0
  if code = 0x28 ∨ code = 0x2A then some ⟨code = 0x2A, be32 buf 2, be16 buf 7⟩
  else if code = 0xA8 ∨ code = 0xAA then some ⟨code = 0xAA, be32 buf 2, be32 buf 6⟩
  else none

def Channel.dma (channel : Channel κ) : Bool := bit (channel.features false) 0

def Channel.ovl (channel : Channel κ) : Bool := bit (channel.features false) 1

def Channel.packet (channel : Channel κ) (bytes : List UInt8) : List UInt8 :=
  channel.pioBuf.take channel.pioBufIndex ++ bytes ++ channel.pioBuf.drop (channel.pioBufIndex + bytes.length)

structure Channel.InPacket (channel : Channel κ) (bytes : List UInt8) : Prop where
  state : channel.state = .pioData
  handler : channel.pioBufHandler = .pioPacket
  write : channel.write = true
  one : channel.sectorCount = 1
  pending : channel.statusHandler = none
  last : channel.pioBlockSize ≤ channel.pioBufIndex + bytes.length
  inside : channel.pioBufIndex + bytes.length ≤ channel.pioBuf.length
  page : channel.pioBuf.length = pageSize
  shadow : channel.shadowBuf.length = ataBmTotalBufsize
  keeps : KeepsLength channel.ataGetAtaDevice.storage

/-- The channel when the data phase begins: at once, or after a service by the tag, when the status says that the
drive did not release the bus or when it did and the guest gives SERVICE. -/
inductive Opens (hw : Hardware) (c : Channel κ) : Channel κ → Prop
  | now : c.state ≠ .queued → Opens hw c c
  | status (ready : Hardware) : c.state = .queued → bit ready.status 7 = false → bit ready.status 0 = false →
      bit ready.interruptReason 2 = false → interruptTag ready.interruptReason = interruptTag hw.interruptReason →
        Opens hw c (ataHandleStatus c ready)
  | service (released claimed ready : Hardware) (serviced : Channel κ) : c.state = .queued →
      bit released.status 7 = false → bit released.status 0 = false → bit released.interruptReason 2 = true →
        claimed.device = c.deviceReg → interruptTag claimed.interruptReason = interruptTag hw.interruptReason →
          ataHandleCommand (ataHandleStatus c released) claimed 0xA2 = .ok (serviced, true) →
            Opens hw c (ataHandleStatus serviced ready)

structure Tracks (command : SectorCommand) (c : Channel κ) : Prop where
  state : c.state = .pioReady ∨ c.state = .dmaReady
  handler : c.pioBufHandler = .atapiPioData
  write : c.write = command.write
  lba : c.lba.toNat = command.lba
  count : c.sectorCount.toNat = command.count
  size : c.ataGetAtaDevice.storageSectorSize = 2048
  block : c.state = .pioReady → c.pioBlockSize = 2048
  pio : c.state = .pioReady → ∀ accesses, Cuts c.write 2048 command.count 0 accesses →
    ∃ r, accesses.foldlM PioRun.access ⟨c, [], [], [], []⟩ = .ok r ∧
      r.Exact c (accesses.map fun a => a.bytes.length).sum
  inside : c.state = .dmaReady → command.count * 2048 ≤ c.shadowBuf.length
  dma : c.state = .dmaReady → ∀ buf : List UInt8, buf.length = c.shadowBuf.length →
    ∃ after, ataDmaHandleRwSectors { c with shadowBuf := buf } command.write = .ok after ∧
      after.shadowBuf = sectors c.ataGetAtaDevice.storage command.write 2048 command.lba command.count
        (buf.take (command.count * 2048)) ++ buf.drop (command.count * 2048) ∧
      ∀ write, ataDmaHandleRwSectors after write = .ok after

structure NoSectors (c : Channel κ) : Prop where
  set : c.state = .pioReady → c.sectorCount = 1 ∧ (c.lba = lbaNone ∨ c.lba = lbaNone - 1)
  pio : c.state = .pioReady → ∀ hw write, pioBufHandler c hw write = .ok (c, true)
  through : c.state = .dmaReady → c.atapiFlag = true ∧ c.dmaState = .dmaThrough
  dma : c.state = .dmaReady → ∀ write, ataDmaHandleRwSectors c write = .ok c

def Opened (buf : List UInt8) (c : Channel κ) : Prop :=
  match sectorCommand buf with
  | some command => 0 < command.count → Tracks command c
  | none => NoSectors c

def Channel.Opening (channel : Channel κ) (buf : List UInt8) : Prop :=
  match sectorCommand buf with
  | some command => 0 < command.count → channel.ovl = false ∧ channel.ataGetAtaDevice.storageSectorSize = 2048 ∧
      if channel.dma then command.count * 2048 ≤ ataBmTotalBufsize
      else channel.dataLength = 0 ∨ 2048 ≤ channel.dataLength
  | none => ¬ (channel.ovl = true ∧ channel.dma = true)

theorem be16_lt (buf : List UInt8) (offset : Nat) : be16 buf offset < 2 ^ 16 := by
  have high := (buf.getD offset 0).toNat_lt
  have low := (buf.getD (offset + 1) 0).toNat_lt
  unfold be16
  omega

theorem be32_lt (buf : List UInt8) (offset : Nat) : be32 buf offset < 2 ^ 32 := by
  have first := (buf.getD offset 0).toNat_lt
  have second := (buf.getD (offset + 1) 0).toNat_lt
  have third := (buf.getD (offset + 2) 0).toNat_lt
  have last := (buf.getD (offset + 3) 0).toNat_lt
  unfold be32
  omega

theorem packetHandleCommand_sectors (stack : PacketDevice) {command : SectorCommand}
    (sectors' : sectorCommand buf = some command) :
    packetHandleCommand stack buf =
        ⟨.command, .pioReady, command.write, 2048, UInt64.ofNat command.lba, UInt32.ofNat command.count⟩ ∧
      command.lba < 2 ^ 32 ∧ command.count < 2 ^ 32 := by
  have lba := be32_lt buf 2
  have ten := be16_lt buf 7
  have twelve := be32_lt buf 6
  have table : packetType 0x28 = (.readData, false) ∧ packetType 0x2A = (.writeData, true) ∧
      packetType 0xA8 = (.readData, false) ∧ packetType 0xAA = (.writeData, true) := by decide
  obtain ⟨read10, write10, read12, write12⟩ := table
  unfold sectorCommand at sectors'
  unfold packetHandleCommand
  dsimp only at sectors' ⊢
  generalize buf.getD 0 0 = code at sectors' ⊢
  by_cases short : code = 0x28 ∨ code = 0x2A
  · rw [if_pos short] at sectors'
    cases sectors'
    refine ⟨?_, lba, by dsimp only; omega⟩
    rcases short with rfl | rfl
    · rw [read10]
      rfl
    · rw [write10]
      rfl
  · rw [if_neg short] at sectors'
    by_cases long : code = 0xA8 ∨ code = 0xAA
    · rw [if_pos long] at sectors'
      cases sectors'
      refine ⟨?_, lba, twelve⟩
      rcases long with rfl | rfl
      · rw [read12]
        rfl
      · rw [write12]
        rfl
    · rw [if_neg long] at sectors'
      cases sectors'

theorem packetType_other (code : UInt8) (other : code ≠ 0x28 ∧ code ≠ 0x2A ∧ code ≠ 0xA8 ∧ code ≠ 0xAA) :
    (packetType code).1 = .through ∨ (packetType code).1 = .nondata ∨
      code = 0x5C ∧ packetType code = (.confData, false) := by
  have all : ∀ n : Fin 256, (UInt8.ofNat n ≠ 0x28 ∧ UInt8.ofNat n ≠ 0x2A ∧ UInt8.ofNat n ≠ 0xA8 ∧ UInt8.ofNat n ≠ 0xAA) →
      (packetType (UInt8.ofNat n)).1 = .through ∨ (packetType (UInt8.ofNat n)).1 = .nondata ∨
        UInt8.ofNat n = 0x5C ∧ packetType (UInt8.ofNat n) = (.confData, false) := by
    decide +kernel
  have this := all ⟨code.toNat, code.toNat_lt⟩
  rw [UInt8.ofNat_toNat] at this
  exact this other

theorem packetHandleCommand_other (stack : PacketDevice) (other : sectorCommand buf = none) :
    ((packetHandleCommand stack buf).kind = .data ∧
        ((packetHandleCommand stack buf).state = .through ∨ (packetHandleCommand stack buf).state = .ready)) ∨
      packetHandleCommand stack buf = ⟨.bufferLength, .pioReady, false, 12, lbaNone, 1⟩ := by
  unfold sectorCommand at other
  unfold packetHandleCommand
  dsimp only at other ⊢
  generalize buf.getD 0 0 = code at other ⊢
  by_cases short : code = 0x28 ∨ code = 0x2A
  · rw [if_pos short] at other
    cases other
  rw [if_neg short] at other
  by_cases long : code = 0xA8 ∨ code = 0xAA
  · rw [if_pos long] at other
    cases other
  rcases cls : packetType code with ⟨cls', write⟩
  have rows := packetType_other code (by tauto)
  rw [cls] at rows
  rcases rows with through | nondata | ⟨rfl, conf⟩
  · dsimp only at through
    subst through
    exact .inl ⟨rfl, .inl rfl⟩
  · dsimp only at nondata
    subst nondata
    exact .inl ⟨rfl, .inr rfl⟩
  · cases conf
    exact .inr rfl

structure PacketDone (c : Channel κ) (hw : Hardware) (p : PacketDevice) (d : Channel κ) : Prop where
  reg : d.deviceReg = c.deviceReg
  page : d.pioBuf.length = c.pioBuf.length
  shadow : d.shadowBuf = c.shadowBuf
  flag : d.atapiFlag = true
  storage : d.ataGetAtaDevice.storage = c.ataGetAtaDevice.storage
  size : d.ataGetAtaDevice.storageSectorSize = c.ataGetAtaDevice.storageSectorSize
  command : p.kind = .command → d.pioBufHandler = .atapiPioData ∧ (c.dma = true → d.dmaState = .dmaReady)
  other : p.kind ≠ .command → d.dmaState = .dmaThrough
  config : p.kind = .bufferLength → d.pioBufHandler = .configData
  now : c.ovl = false → d.state = (if c.dma then .dmaReady else p.state) ∧ d.write = p.write ∧ d.lba = p.lba ∧
    d.sectorCount = p.sectorCount ∧ (c.dma = false → d.pioBlockSize =
      if p.sectorSize > c.dataLength ∧ c.dataLength > 0 then c.dataLength else p.sectorSize)
  later : c.ovl = true → d.state = .queued ∧ d.statusHandler = some .queuedStatus ∧
    d.ataGetAtaDevice.queue (interruptTag hw.interruptReason) =
      ⟨p.write, p.lba - 1, p.sectorCount, if c.dma then .dmaReady else p.state⟩

theorem atapiHandlePioPacket_done (c : Channel κ) (hw : Hardware) :
    ∃ d, atapiHandlePioPacket c hw = (d, true) ∧
      PacketDone c hw (packetHandleCommand hw.stack c.pioBuf) { d with lba := d.lba + 1 } := by
  unfold atapiHandlePioPacket
  generalize packetHandleCommand hw.stack c.pioBuf = p
  dsimp only
  rw [if_neg (fun impossible => impossible.2 rfl)]
  have address : p.lba - 1 + 1 = p.lba := UInt64.sub_add_cancel ..
  by_cases overlapped : bit (c.features false) 1 = true
  · rcases kind : p.kind with _ | _ | _ | _
    all_goals
      rw [if_pos overlapped]
      refine ⟨_, rfl, rfl, rfl, rfl, rfl, ?_, ?_, ?_, ?_, ?_, fun no => ?_, fun _ => ⟨rfl, rfl, ?_⟩⟩
      · simp [Channel.setDevice, Channel.ataGetAtaDevice, Channel.dev]
      · simp [Channel.setDevice, Channel.ataGetAtaDevice, Channel.dev]
      · simp +contextual [kind, Channel.dma, Channel.setDevice]
      · simp [kind, Channel.setDevice]
      · simp [kind, Channel.setDevice]
      · rw [Channel.ovl, overlapped] at no
        cases no
      · simp only [Channel.setDevice, Channel.ataGetAtaDevice, Channel.dev, Function.update_self]
        rfl
  · rcases kind : p.kind with _ | _ | _ | _
    all_goals
      rw [if_neg overlapped]
      refine ⟨_, rfl, rfl, rfl, rfl, rfl, rfl, rfl, ?_, ?_, ?_, fun _ => ⟨rfl, rfl, address, rfl, fun pio => ?_⟩,
        fun yes => (overlapped yes).elim⟩
      · simp +contextual [kind, Channel.dma]
      · simp [kind]
      · simp [kind]
      · rw [Channel.dma] at pio
        exact if_neg (by rw [pio]; exact Bool.false_ne_true)

theorem Channel.InPacket.access (inPacket : c.InPacket bytes) (hw : Hardware) :
    ∃ d data ops, ataHandleData c hw true bytes = .ok ⟨d, data, ops⟩ ∧
      PacketDone c hw (packetHandleCommand hw.stack (c.packet bytes)) d := by
  have inside := inPacket.inside
  obtain ⟨d, handled, done⟩ := atapiHandlePioPacket_done
    { c with pioBuf := c.packet bytes, pioBufIndex := 0, sectorCount := 0, state := .ready } hw
  have length : (c.packet bytes).length = c.pioBuf.length := by
    unfold Channel.packet
    simp only [List.length_append, List.length_take, List.length_drop]
    omega
  have ended : pioBlockEnd { c with pioBuf := c.packet bytes, pioBufIndex := c.pioBufIndex + bytes.length } hw true
      bytes.length = .ok ({ d with lba := d.lba + 1 }, [.outsn (d.pioBuf.take (units bytes.length c.pioBlockSize))]) := by
    have none' : ¬ (1 : UInt32) - 1 > 0 := by decide
    rw [inPacket.handler] at handled
    unfold pioBlockEnd Ata.pioBufHandler
    dsimp only
    rw [if_pos (Eq.refl true), inPacket.handler, inPacket.one, if_neg none']
    dsimp only
    rw [show (1 : UInt32) - 1 = 0 from rfl, handled]
    rfl
  refine ⟨{ d with lba := d.lba + 1 }, (c.pioBuf.drop c.pioBufIndex).take bytes.length,
    [.outsn (d.pioBuf.take (units bytes.length c.pioBlockSize))], ?_, ?_⟩
  · unfold ataHandleData
    rw [inPacket.state]
    dsimp only
    unfold pioData
    rw [if_neg (not_not.mpr inPacket.write.symm), if_neg (Nat.not_lt.mpr inside)]
    dsimp only
    rw [if_pos (show c.pioBufIndex + bytes.length ≥ c.pioBlockSize from inPacket.last), if_pos (Eq.refl true)]
    rw [← Channel.packet, ended]
    rfl
  · exact ⟨done.reg, done.page.trans length, done.shadow, done.flag, done.storage, done.size, done.command, done.other,
      done.config, done.now, done.later⟩

variable {p : PacketDevice} {d opened : Channel κ} {command : SectorCommand}

structure Serviced (d : Channel κ) (entry : QueueEntry) (opened : Channel κ) : Prop where
  state : opened.state = entry.nextState
  lba : opened.lba = entry.lba
  count : opened.sectorCount = entry.sectorCount
  handler : opened.pioBufHandler = d.pioBufHandler
  dmaState : opened.dmaState = d.dmaState

theorem ataHandleServiceStatus_fields (ready : Hardware) :
    (ataHandleServiceStatus d ready).state = d.state ∧ (ataHandleServiceStatus d ready).lba = d.lba ∧
      (ataHandleServiceStatus d ready).sectorCount = d.sectorCount ∧
      (ataHandleServiceStatus d ready).pioBufHandler = d.pioBufHandler ∧
      (ataHandleServiceStatus d ready).dmaState = d.dmaState ∧
      (ataHandleServiceStatus d ready).atapiFlag = d.atapiFlag := by
  unfold ataHandleServiceStatus
  by_cases stays : d.state ≠ .pioReady ∨ bit ready.status 0
  · rw [if_pos stays]
    exact ⟨rfl, rfl, rfl, rfl, rfl, rfl⟩
  · rw [if_neg stays]
    exact ⟨rfl, rfl, rfl, rfl, rfl, rfl⟩

theorem status_serviced (ready : Hardware) (state : d.state = .queued) (pending : d.statusHandler = some .queuedStatus)
    (idle : bit ready.status 7 = false) (right : bit ready.status 0 = false)
    (kept : bit ready.interruptReason 2 = false) :
    Serviced d (d.ataGetAtaDevice.queue (interruptTag ready.interruptReason)) (ataHandleStatus d ready) ∧
      (ataHandleStatus d ready).atapiFlag = d.atapiFlag := by
  have fields := @ataHandleServiceStatus_fields κ (ataHandleCmdService d ready).1 ready
  obtain ⟨state', lba, count, handler, dmaState, flag⟩ := fields
  have is : ataHandleStatus d ready =
      { ataHandleServiceStatus (ataHandleCmdService d ready).1 ready with statusHandler := none } := by
    unfold ataHandleStatus
    rw [if_neg (by rw [idle]; exact Bool.false_ne_true), pending]
    dsimp only
    unfold ataHandleQueuedStatus
    rw [if_neg (by rw [right]; rintro (other | no); exacts [other state, Bool.false_ne_true no]),
      if_neg (by rw [kept]; exact Bool.false_ne_true)]
  rw [is]
  exact ⟨⟨state', lba, count, handler, dmaState⟩, flag⟩

theorem service_serviced {released claimed : Hardware} (ready : Hardware) {serviced : Channel κ} (state : d.state = .queued)
    (pending : d.statusHandler = some .queuedStatus) (idle : bit released.status 7 = false)
    (right : bit released.status 0 = false) (free : bit released.interruptReason 2 = true)
    (reg : claimed.device = d.deviceReg)
    (service : ataHandleCommand (ataHandleStatus d released) claimed 0xA2 = .ok (serviced, true)) :
    Serviced d (d.ataGetAtaDevice.queue (interruptTag claimed.interruptReason)) (ataHandleStatus serviced ready) ∧
      (ataHandleStatus serviced ready).atapiFlag = false := by
  have is : ataHandleStatus d released = { d with state := .ready, statusHandler := none } := by
    unfold ataHandleStatus
    rw [if_neg (by rw [idle]; exact Bool.false_ne_true), pending]
    dsimp only
    unfold ataHandleQueuedStatus
    rw [if_neg (by rw [right]; rintro (other | no); exacts [other state, Bool.false_ne_true no]), if_pos free]
  have type : ataGetCmdType 0xA2 = ⟨.service, false, false⟩ := by decide
  rw [is] at service
  unfold ataHandleCommand cmdHandler at service
  rw [type, reg] at service
  cases service
  obtain ⟨state', lba, count, handler, dmaState, flag⟩ := @ataHandleServiceStatus_fields κ
    (ataHandleCmdService { d with
      deviceReg := d.deviceReg, state := .dmaReady, atapiFlag := false, statusHandler := none } claimed).1 ready
  unfold ataHandleStatus
  by_cases busy : bit ready.status 7 = true
  · rw [if_pos busy]
    exact ⟨⟨rfl, rfl, rfl, rfl, rfl⟩, rfl⟩
  · rw [if_neg busy]
    exact ⟨⟨state', lba, count, handler, dmaState⟩, flag⟩

theorem ataDmaHandleRwSectors_through {write : Bool} (flag : d.atapiFlag = true) (through : d.dmaState = .dmaThrough) :
    ataDmaHandleRwSectors d write = .ok d := by
  unfold ataDmaHandleRwSectors
  exact if_pos ⟨flag, by rw [through]; decide⟩

theorem noSectors_of (flag : d.state = .dmaReady → d.atapiFlag = true ∧ d.dmaState = .dmaThrough)
    (config : d.state = .pioReady → d.pioBufHandler = .configData ∧ d.sectorCount = 1 ∧
      (d.lba = lbaNone ∨ d.lba = lbaNone - 1)) : NoSectors d where
  set := fun ready => (config ready).2
  pio := fun ready hw write => by
    unfold pioBufHandler
    rw [(config ready).1]
  through := flag
  dma := fun ready _ => ataDmaHandleRwSectors_through (flag ready).1 (flag ready).2

theorem PacketDone.tracks (inPacket : c.InPacket bytes) (done : PacketDone c hw
      ⟨.command, .pioReady, command.write, 2048, UInt64.ofNat command.lba, UInt32.ofNat command.count⟩ d)
    (lbaLt : command.lba < 2 ^ 32) (countLt : command.count < 2 ^ 32) (some' : 0 < command.count)
    (ovl : c.ovl = false) (size : c.ataGetAtaDevice.storageSectorSize = 2048)
    (fits : if c.dma then command.count * 2048 ≤ ataBmTotalBufsize else c.dataLength = 0 ∨ 2048 ≤ c.dataLength) :
    Tracks command d := by
  obtain ⟨state, write, lba, count, block⟩ := done.now ovl
  obtain ⟨handler, ready⟩ := done.command rfl
  have size' := done.size.trans size
  have length : d.pioBuf.length = 4096 := done.page.trans inPacket.page
  have keeps : KeepsLength d.ataGetAtaDevice.storage := by
    rw [done.storage]
    exact inPacket.keeps
  have lba' : d.lba.toNat = command.lba := by
    rw [lba, UInt64.toNat_ofNat']
    omega
  have count' : d.sectorCount.toNat = command.count := by
    rw [count, UInt32.toNat_ofNat']
    omega
  have unit : (2048 : Int32).toInt = 2048 := rfl
  have shadow : d.shadowBuf.length = ataBmTotalBufsize := by
    rw [done.shadow]
    exact inPacket.shadow
  cases dma : c.dma with
  | true =>
    rw [dma, if_pos rfl] at state fits
    have no : d.state ≠ .pioReady := by
      rw [state]
      decide
    refine ⟨.inr state, handler, write, lba', count', size', fun pio => (no pio).elim, fun pio => (no pio).elim,
      fun _ => by omega, fun _ buf same => ?_⟩
    have buffer : ataBmTotalBufsize = 524288 := rfl
    have device : ({ d with shadowBuf := buf } : Channel κ).ataGetAtaDevice = d.ataGetAtaDevice := rfl
    have natural : (2048 : Int32).toInt.toNat = 2048 := rfl
    have product := congrArg (d.sectorCount.toNat * ·) natural
    have handled := @storageHandleSectors_front κ d.ataGetAtaDevice.storage buf
      ⟨d.lba, d.sectorCount, 2048, command.write⟩
      ⟨by dsimp only; omega, by dsimp only; omega, by dsimp only; omega, by dsimp only; omega⟩ (by dsimp only; omega)
    dsimp only at handled
    rw [natural, lba', count'] at handled
    refine ⟨{ d with shadowBuf := _, dmaState := .dmaThrough }, ?_, rfl, fun _ =>
      ataDmaHandleRwSectors_through done.flag rfl⟩
    unfold ataDmaHandleRwSectors
    dsimp only
    rw [device, size', if_neg (fun through => through.2 (ready dma)), handled]
  | false =>
    rw [dma, if_neg Bool.false_ne_true] at state fits
    have no : d.state ≠ .dmaReady := by
      rw [state]
      exact State.noConfusion
    have block' : d.pioBlockSize = 2048 := by
      rw [block dma]
      exact if_neg (by dsimp only; omega)
    refine ⟨.inl state, handler, write, lba', count', size', fun _ => block', fun _ accesses cuts => ?_,
      fun dma => (no dma).elim, fun dma => (no dma).elim⟩
    have begins : d.Begins := by
      refine ⟨state, by omega, by omega, by omega, keeps, ?_⟩
      rw [handler, size', block']
      exact unit
    obtain ⟨r, run, ends⟩ := (at_begin begins).run begins (show Cuts _ _ _ 0 accesses by rwa [block', count'])
    rw [Nat.zero_add] at ends
    exact ⟨r, run, ends.exact⟩

theorem PacketDone.noSectors (done : PacketDone c hw p d)
    (other : p.kind = .data ∧ (p.state = .through ∨ p.state = .ready) ∨
      p = ⟨.bufferLength, .pioReady, false, 12, lbaNone, 1⟩)
    (apart : ¬ (c.ovl = true ∧ c.dma = true)) (opens : Opens hw d opened) : NoSectors opened := by
  have kind : p.kind ≠ .command := by
    rcases other with ⟨data, -⟩ | rfl
    · rw [data]
      decide
    · decide
  have through := done.other kind
  have config (ready : p.state = .pioReady) : d.pioBufHandler = .configData ∧ p.sectorCount = 1 ∧ p.lba = lbaNone := by
    rcases other with ⟨-, state | state⟩ | rfl
    · rw [state] at ready
      cases ready
    · rw [state] at ready
      cases ready
    · exact ⟨done.config rfl, rfl, rfl⟩
  obtain ⟨notReady, notQueued⟩ : p.state ≠ .dmaReady ∧ p.state ≠ .queued := by
    rcases other with ⟨-, state | state⟩ | rfl
    · rw [state]
      decide
    · rw [state]
      decide
    · decide
  -- an overlapped packet that is not DMA is not in the DMA states after its service either
  have later {entry : QueueEntry} (is : entry = ⟨p.write, p.lba - 1, p.sectorCount, if c.dma then .dmaReady else p.state⟩)
      (ovl : c.ovl = true) (serviced : Serviced d entry opened) : NoSectors opened := by
    have dma : c.dma = false := Bool.eq_false_iff.mpr fun dma => apart ⟨ovl, dma⟩
    rw [dma, if_neg Bool.false_ne_true] at is
    subst is
    refine noSectors_of (fun ready => ?_) fun ready => ?_
    · rw [serviced.state] at ready
      exact (notReady ready).elim
    · rw [serviced.state] at ready
      rw [serviced.handler, serviced.count, serviced.lba]
      obtain ⟨handler, count, lba⟩ := config ready
      exact ⟨handler, count, .inr (congrArg (· - 1) lba)⟩
  cases ovl : c.ovl with
  | true =>
    obtain ⟨queued, pending, entry⟩ := done.later ovl
    cases opens with
    | now no => exact (no queued).elim
    | status ready _ idle right kept tag =>
      have serviced := (status_serviced ready queued pending idle right kept).1
      rw [tag] at serviced
      exact later entry ovl serviced
    | service released claimed ready serviced _ idle right free reg tag run =>
      have serviced' := (service_serviced ready queued pending idle right free reg run).1
      rw [tag] at serviced'
      exact later entry ovl serviced'
  | false =>
    obtain ⟨state, -, lba, count, -⟩ := done.now ovl
    cases opens with
    | now _ =>
      refine noSectors_of (fun _ => ⟨done.flag, through⟩) fun ready => ?_
      rw [state] at ready
      cases dma : c.dma with
      | true =>
        rw [dma] at ready
        cases ready
      | false =>
        rw [dma, if_neg Bool.false_ne_true] at ready
        obtain ⟨handler, count', lba'⟩ := config ready
        exact ⟨handler, count.trans count', .inl (lba.trans lba')⟩
    | status _ queued | service _ _ _ _ queued =>
      rw [state] at queued
      cases dma : c.dma with
      | true =>
        rw [dma] at queued
        cases queued
      | false =>
        rw [dma, if_neg Bool.false_ne_true] at queued
        exact (notQueued queued).elim

theorem interruptTag_only (value : UInt8) : interruptTag (UInt8.ofNat (8 * (value.toNat / 8))) = interruptTag value ∧
    bit (UInt8.ofNat (8 * (value.toNat / 8))) 2 = false := by
  have bound := value.toNat_lt
  have only : (UInt8.ofNat (8 * (value.toNat / 8))).toNat = 8 * (value.toNat / 8) := by
    rw [UInt8.toNat_ofNat']
    omega
  unfold interruptTag bit
  rw [only, Nat.testBit_eq_decide_div_mod_eq, Nat.mul_div_cancel_left _ (by decide)]
  exact ⟨rfl, decide_eq_false (by omega)⟩

theorem PacketDone.opening (done : PacketDone c hw
      ⟨.command, .pioReady, command.write, 2048, UInt64.ofNat command.lba, UInt32.ofNat command.count⟩ d)
    (inPacket : c.InPacket bytes) (tracks : ∀ opened, Opens hw d opened → Tracks command opened) :
    c.ovl = false ∧ c.ataGetAtaDevice.storageSectorSize = 2048 ∧
      if c.dma then command.count * 2048 ≤ ataBmTotalBufsize else c.dataLength = 0 ∨ 2048 ≤ c.dataLength := by
  cases ovl : c.ovl with
  | true =>
    obtain ⟨queued, pending, entry⟩ := done.later ovl
    obtain ⟨tag, kept⟩ := interruptTag_only hw.interruptReason
    have zero : ∀ i, bit 0 i = false := Nat.zero_testBit
    have serviced := (status_serviced { hw with
      status := 0, interruptReason := UInt8.ofNat (8 * (hw.interruptReason.toNat / 8)) } queued pending (zero 7)
        (zero 0) kept).1
    have lba := (tracks _ (.status { hw with
      status := 0, interruptReason := UInt8.ofNat (8 * (hw.interruptReason.toNat / 8)) } queued (zero 7) (zero 0)
        kept tag)).lba
    rw [serviced.lba, tag, entry] at lba
    dsimp only at lba
    rw [UInt64.toNat_sub, UInt64.toNat_ofNat'] at lba
    have one := UInt64.toNat_one
    omega
  | false =>
    obtain ⟨state, -, -, -, block⟩ := done.now ovl
    have now : d.state ≠ .queued := by
      rw [state]
      cases c.dma <;> exact State.noConfusion
    have tracked := tracks d (.now now)
    refine ⟨rfl, done.size.symm.trans tracked.size, ?_⟩
    cases dma : c.dma with
    | true =>
      rw [dma, if_pos rfl] at state
      have inside := tracked.inside state
      rw [done.shadow, inPacket.shadow] at inside
      rw [if_pos rfl]
      exact inside
    | false =>
      rw [dma, if_neg Bool.false_ne_true] at state
      have size := tracked.block state
      rw [block dma] at size
      rw [if_neg Bool.false_ne_true]
      dsimp only at size
      by_cases less : 2048 > c.dataLength ∧ c.dataLength > 0
      · rw [if_pos less] at size
        omega
      · omega

def overlappedPacket : Channel Unit :=
  { idleChannel with
    features := fun _ => 2
    state := .pioData
    pioBufHandler := .pioPacket
    write := true
    sectorCount := 1
    pioBlockSize := 12
    pioBufIndex := 8
    pioBuf := [0x28, 0, 0, 0, 0, 5, 0, 0] ++ List.replicate 4088 0
    shadowBuf := List.replicate ataBmTotalBufsize 0 }

def overlappedRun : Except Stop (Channel Unit) := do
  let ready := { drive with interruptReason := 2, byteCountLow := 0, byteCountHigh := 8 }
  let (channel, _) ← ataHandleCommand { idleChannel with features := fun _ => 2 } ready 0xA0
  let run ← [⟨ready, [0x28, 0, 0, 0]⟩, ⟨ready, [0, 5, 0, 0]⟩, ⟨ready, [1, 0, 0, 0]⟩].foldlM PioRun.access
    ⟨channel, [], [], [], []⟩
  pure (ataHandleStatus run.channel ready)

end DisasVisor.Ata
