import DisasVisor.Vga.DisasterWarning

/-!
The receive path of `vpn/kernel.c`: `vpn_callback_wrapper` looks for UDP packets
to port 26666 in a batch of received frames, and `handle_disasvisor_message`
scans their payload. Every byte read from a frame, every unsigned subtraction
and every call between the functions is logged.
-/

namespace DisasVisor.Vpn

/-- A received frame. `mem` is the mapped memory from the first byte of the frame on; it
goes on behind the `size` bytes of the frame, because the drivers receive into larger
buffers. A read past its end is a fault. -/
structure Frame where
  mem : List UInt8
  size : Nat
  sizeBound : size ≤ mem.length
  sizeWidth : size < 2 ^ 32
  headersMapped : 42 ≤ mem.length

/-- A `uint8_t *` into a frame: the offset in the frame and the mapped bytes from there on. -/
structure Cursor where
  pos : Nat
  rest : List UInt8
  deriving DecidableEq

def Cursor.advance (cursor : Cursor) (count : Nat) : Cursor := ⟨cursor.pos + count, cursor.rest.drop count⟩

def Frame.cursor (packet : Frame) (pos : Nat) : Cursor := ⟨pos, packet.mem.drop pos⟩

structure Warning where
  disasterType : Nat
  x : Nat
  y : Nat
  msg : Cursor
  msgLen : Nat
  deriving DecidableEq

def Warning.text (warning : Warning) : List UInt8 := warning.msg.rest.take warning.msgLen

inductive Event where
  | callback (packets : List Frame)
  | read (packet : Frame) (index : Nat)
  | subtract (left right : Nat)
  | handleMessage (packet : Frame) (udpPayload udpPayloadLen : Nat)
  | displayWarning (packet : Frame) (warning : Warning)
  | storedPicture (number x y : Nat)
  | storedLetter (asciiCode : UInt8) (x y : Nat)

def readByte (packet : Frame) (index : Nat) : Traced Event UInt8 :=
  match packet.mem[index]? with
  | some c => do
      Traced.emit (.read packet index)
      pure c
  | none => do
      Traced.emit (.read packet index)
      Traced.fault

/-- `*(uint16_t *)` on a little-endian machine. -/
def readWord (packet : Frame) (index : Nat) : Traced Event Nat := do
  let low ← readByte packet index
  let high ← readByte packet (index + 1)
  pure (low.toNat + 256 * high.toNat)

def ntohs (x : Nat) : Nat := ((x &&& 0x00ff) <<< 8) ||| ((x &&& 0xff00) >>> 8)

def isDelimiter (c : UInt8) : Bool := c = 0x20 || c = 0x09 || c = 0x0d || c = 0x0a

def isDigit (c : UInt8) : Bool := 0x30 ≤ c && c ≤ 0x39

def isVersionChar (c : UInt8) : Bool := c ≠ 0 && !isDelimiter c

def deref (packet : Frame) (m : Cursor) : Traced Event UInt8 :=
  match m.rest with
  | c :: _ => do
      Traced.emit (.read packet m.pos)
      pure c
  | [] => do
      Traced.emit (.read packet m.pos)
      Traced.fault

/-- The three scan loops of the source have one shape. They pass over the characters that
`keep` accepts, feeding each to `step`; any other character ends the loop if `leave`
accepts it and otherwise returns from the function. -/
def scan {σ : Type} (packet : Frame) (keep leave : UInt8 → Bool) (step : σ → UInt8 → σ) :
    σ → Nat → List UInt8 → Traced Event (σ × Cursor)
  | _, pos, [] => do
      Traced.emit (.read packet pos)
      Traced.fault
  | result, pos, c :: rest => do
      Traced.emit (.read packet pos)
      if keep c then scan packet keep leave step (step result c) (pos + 1) rest
      else if leave c then pure (result, ⟨pos, c :: rest⟩)
      else Traced.returned

def skipDelimiters (packet : Frame) (m : Cursor) : Traced Event (Unit × Cursor) :=
  scan packet isDelimiter (fun c => c ≠ 0) (fun _ _ => ()) () m.pos m.rest

def skipVersion (packet : Frame) (m : Cursor) : Traced Event (Unit × Cursor) :=
  scan packet isVersionChar isDelimiter (fun _ _ => ()) () m.pos m.rest

def readInteger (width : Nat) (packet : Frame) (m : Cursor) : Traced Event (Nat × Cursor) :=
  scan packet isDigit isDelimiter (fun result c => (result * 10 + (c.toNat - 0x30)) % 2 ^ width) 0 m.pos m.rest

def readFields (packet : Frame) (m : Cursor) : Traced Event (Nat × Nat × Nat × Cursor) := do
  let skipped ← skipDelimiters packet m
  let version ← skipVersion packet skipped.2
  let skipped ← skipDelimiters packet version.2
  let disasterType ← readInteger 8 packet skipped.2
  let skipped ← skipDelimiters packet disasterType.2
  let dialogOffsetX ← readInteger 32 packet skipped.2
  let skipped ← skipDelimiters packet dialogOffsetX.2
  let dialogOffsetY ← readInteger 32 packet skipped.2
  let skipped ← skipDelimiters packet dialogOffsetY.2
  pure (disasterType.1, dialogOffsetX.1, dialogOffsetY.1, skipped.2)

def disasvisorKeyword : List UInt8 := [0x44, 0x49, 0x53, 0x41, 0x53, 0x56, 0x49, 0x53, 0x4f, 0x52]

def strncmpKeyword (packet : Frame) : List UInt8 → Nat → List UInt8 → Traced Event Bool
  | [], _, _ => pure true
  | _ :: _, pos, [] => do
      Traced.emit (.read packet pos)
      Traced.fault
  | k :: keyword, pos, c :: rest => do
      Traced.emit (.read packet pos)
      if c = k then strncmpKeyword packet keyword (pos + 1) rest else pure false

def vgaEvent (packet : Frame) (msg : Cursor) : Vga.Event → Event
  | .read nth => .read packet (msg.pos + nth)
  | .storedPicture number x y => .storedPicture number x y
  | .storedLetter asciiCode x y => .storedLetter asciiCode x y

def displayWarning (packet : Frame) (warning : Warning) : Traced Event Unit := do
  Traced.emit (.displayWarning packet warning)
  let _ ← Traced.relabel (vgaEvent packet warning.msg)
    (Vga.vgaDisplayDisasterWarning warning.disasterType warning.x warning.y warning.msg.rest
      warning.msgLen)
  pure ()

/-- The block at the end of the scan. The length is computed as a `size_t` and passed on as an
`unsigned int`. -/
def displayFields (packet : Frame) (udpPayload : Cursor) (udpPayloadLen : Nat)
    (fields : Nat × Nat × Nat × Cursor) : Traced Event Unit := do
  let (disasterType, dialogOffsetX, dialogOffsetY, m) := fields
  let consumed := m.pos - udpPayload.pos
  Traced.emit (.subtract udpPayloadLen consumed)
  let detailedInfoLen := (udpPayloadLen + 2 ^ 64 - consumed) % 2 ^ 64
  displayWarning packet ⟨disasterType, dialogOffsetX, dialogOffsetY, m, detailedInfoLen % 2 ^ 32⟩

def handleDisasvisorMessage (packet : Frame) (udpPayload : Cursor) (udpPayloadLen : Nat) :
    Traced Event Unit := do
  Traced.emit (.handleMessage packet udpPayload.pos udpPayloadLen)
  if disasvisorKeyword.length ≤ udpPayloadLen then do
    let same ← strncmpKeyword packet disasvisorKeyword udpPayload.pos udpPayload.rest
    if same then do
      let m := udpPayload.advance disasvisorKeyword.length
      let c ← deref packet m
      if isDelimiter c then do
        let fields ← readFields packet m
        displayFields packet udpPayload udpPayloadLen fields
      else Traced.returned
    else pure ()
  else pure ()

def disasvisorPort : Nat := 26666

/-- The loop body for one frame: `continue` falls through, `return` leaves the wrapper. -/
def inspectPacket (packet : Frame) : Traced Event Unit := do
  Traced.emit (.subtract packet.size 14)
  let difference := (packet.size + 2 ^ 32 - 14) % 2 ^ 32
  -- the operands are unsigned, so the test for a negative difference never succeeds
  let packetLen := if difference < 0 then 0 else difference
  if packetLen < 20 then pure ()
  else do
    let ipPacketLen ← readWord packet (14 + 2)
    let dstPort ← readWord packet (14 + 20 + 2)
    let protocol ← readByte packet (14 + 9)
    if protocol ≠ 0x11 then pure ()
    else if ntohs ipPacketLen < 28 then pure ()
    else do
      let udpPacketLen ← readWord packet (14 + 20 + 4)
      if ntohs dstPort = disasvisorPort then do
        Traced.emit (.subtract (ntohs udpPacketLen) 8)
        let udpPayloadLen := (ntohs udpPacketLen + 2 ^ 32 - 8) % 2 ^ 32 % 2 ^ 16
        if udpPayloadLen ≤ 0 then Traced.returned
        else
          Traced.call (handleDisasvisorMessage packet (packet.cursor (14 + 20 + 8)) udpPayloadLen)
      else pure ()

def vpnCallbackWrapper (packets : List Frame) : Traced Event Unit := do
  Traced.emit (.callback packets)
  Traced.forEach inspectPacket packets

def displayedWarning : Event → Option Warning
  | .displayWarning _ warning => some warning
  | _ => none

def warnings (run : Traced Event Unit) : List Warning := run.collect displayedWarning

end DisasVisor.Vpn
