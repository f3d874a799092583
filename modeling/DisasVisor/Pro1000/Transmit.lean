import DisasVisor.Lib.Memory
import DisasVisor.Lib.Indices

/-!
The transmit path of `drivers/net/pro1000.c`: `process_tdesc` gathers the data
of the guest's transmit descriptors in a buffer and passes packets on to
`recvvirt_func`. A ghost log in the state holds the bytes of the buffer that are
touched, the unsigned subtractions and the packets.
-/

namespace DisasVisor.Pro1000

def bufSize : Nat := 2048

inductive Event where
  | touch (low high : Nat)
  | subtract (left right : Nat)
  | receive (packet : List UInt8)
  | descriptorDone
  deriving DecidableEq

structure Data2 where
  buf : Memory
  len : Nat
  dext1Ixsm : Bool
  dext1Txsm : Bool
  dext0Tucss : Nat
  dext0Tucso : Nat
  dext0Tucse : Nat
  dext0Ipcss : Nat
  dext0Ipcso : Nat
  dext0Ipcse : Nat
  dext0Mss : Nat
  dext0Hdrlen : Nat
  dext0Paylen : Nat
  dext0Ip : Bool
  dext0Tcp : Bool
  tseFirst : Bool
  tseTcpfin : Bool
  tseTcppsh : Bool
  tseIplen : Nat
  tseIpchecksum : Nat
  tseTcpchecksum : Nat
  recvvirtFunc : Bool
  log : List Event

def initialData2 : Data2 where
  buf := fun _ => 0
  len := 0
  dext1Ixsm := false
  dext1Txsm := false
  dext0Tucss := 0
  dext0Tucso := 0
  dext0Tucse := 0
  dext0Ipcss := 0
  dext0Ipcso := 0
  dext0Ipcse := 0
  dext0Mss := 0
  dext0Hdrlen := 0
  dext0Paylen := 0
  dext0Ip := false
  dext0Tcp := false
  tseFirst := false
  tseTcpfin := false
  tseTcppsh := false
  tseIplen := 0
  tseIpchecksum := 0
  tseTcpchecksum := 0
  recvvirtFunc := true
  log := []

structure TdescLegacy where
  addr : UInt64
  len : UInt16
  cmdEop : Bool
  cmdRs : Bool

structure TdescDext0 where
  ipcss : UInt8
  ipcso : UInt8
  ipcse : UInt16
  tucss : UInt8
  tucso : UInt8
  tucse : UInt16
  paylen : Fin (2 ^ 20)
  tucmdTcp : Bool
  tucmdIp : Bool
  tucmdTse : Bool
  tucmdRs : Bool
  hdrlen : UInt8
  mss : UInt16

structure TdescDext1 where
  addr : UInt64
  dtalen : Fin (2 ^ 20)
  dcmdEop : Bool
  dcmdIfcs : Bool
  dcmdTse : Bool
  dcmdRs : Bool
  poptsIxsm : Bool
  poptsTxsm : Bool

/-- A transmit descriptor, told apart by its bit `cmd_dext` and its field `dtyp`. -/
inductive Tdesc where
  | legacy (td : TdescLegacy)
  | dext0 (td0 : TdescDext0)
  | dext1 (td1 : TdescDext1)
  | badDtyp (cmdRs : Bool)

def Data2.note (d2 : Data2) (event : Event) : Data2 := { d2 with log := d2.log ++ [event] }

def Data2.touch (d2 : Data2) (low count : Nat) : Data2 := d2.note (.touch low (low + count))

def tdescCopytobuf (guest : Memory) (d2 : Data2) (addr len : Nat) : Data2 × Nat × Nat :=
  let i := min ((bufSize + 2 ^ 32 - d2.len) % 2 ^ 32) len
  let d2 := d2.touch d2.len i
  ({ d2 with
      buf := d2.buf.blit d2.len i fun offset => guest ((addr + offset) % 2 ^ 64)
      len := (d2.len + i) % 2 ^ 32 },
    (addr + i) % 2 ^ 64, len - i)

def addWithCarry (left right : Nat) : Nat :=
  if 0xffff < left + right then left + right - 0xffff else left + right

def sumWords : List UInt8 → Nat → Nat
  | [], sum => sum
  | [low], sum => addWithCarry sum low.toNat
  | low :: high :: rest, sum => sumWords rest (addWithCarry sum (low.toNat + 256 * high.toNat))

/-- `ipchecksum` of `core/arith.s` inverts the folded sum again when the result would be 0. -/
def ipchecksum (bytes : List UInt8) : Nat :=
  if sumWords bytes 0 = 0xffff then 0xffff else 0xffff - sumWords bytes 0

/-- The end of the bytes that `ipchecksum` loads for the `len` bytes from `start` on: single words
up to an address that is a multiple of 8, then eight bytes at a time, and in any case another
eight bytes, of which those behind the end are masked out. -/
def ipchecksumEnd (start len : Nat) : Nat :=
  let words := len / 2
  let single := min words ((4 - start / 2 % 4) % 4)
  start + 2 * single + 8 * ((words - single) / 4) + 8

def insertChecksum (d2 : Data2) (css cso cse addval : Nat) : Data2 :=
  let d2 :=
    if addval ≠ 0 then
      let d2 := d2.touch cso 2
      { d2 with buf := d2.buf.setWord cso (addWithCarry (d2.buf.word cso) addval) }
    else d2
  let d2 := d2.note (.touch css (ipchecksumEnd css (cse - css + 1)))
  let d2 := d2.touch cso 2
  { d2 with buf := d2.buf.setWord cso (ipchecksum (d2.buf.slice css (cse - css + 1))) }

def checksum (d2 : Data2) (len css cso cse addval : Nat) : Data2 :=
  if cso = 0 then d2
  else if len ≤ cso + 1 then d2
  else
    let cse := if cse = 0 then len - 1 else cse
    if len ≤ cse then d2
    else if cse < css then d2
    else insertChecksum d2 css cso cse addval

def bswap16 (v : Nat) : Nat := ((v % 2 ^ 16) <<< 8 ||| (v % 2 ^ 16) >>> 8) % 2 ^ 16

def bswap32 (v : Nat) : Nat := bswap16 v <<< 16 ||| bswap16 (v >>> 16)

def tseFirst (d2 : Data2) : Data2 :=
  let iphdr := d2.dext0Ipcss
  let l4hdr := d2.dext0Tucss
  let d2 :=
    if d2.dext0Ip then
      let d2 := (d2.touch (iphdr + 2) 2).touch (iphdr + 10) 2
      { d2 with tseIplen := d2.buf.word (iphdr + 2), tseIpchecksum := d2.buf.word (iphdr + 10) }
    else
      let d2 := d2.touch (iphdr + 4) 2
      { d2 with tseIplen := d2.buf.word (iphdr + 4) }
  if d2.dext0Tcp then
    let d2 := (d2.touch (l4hdr + 16) 2).touch (l4hdr + 13) 1
    { d2 with
      tseTcpchecksum := d2.buf.word (l4hdr + 16)
      tseTcpfin := d2.buf (l4hdr + 13) &&& 1 ≠ 0
      tseTcppsh := d2.buf (l4hdr + 13) &&& 8 ≠ 0 }
  else d2

def tseSetHeader (d2 : Data2) (last : Bool) : Data2 :=
  let iphdr := d2.dext0Ipcss
  let l4hdr := d2.dext0Tucss
  let paylen := if last then d2.dext0Paylen else d2.dext0Mss
  let d2 :=
    if d2.dext0Ip then
      let d2 := d2.touch (iphdr + 2) 2
      { d2 with
        buf := d2.buf.setWord (iphdr + 2)
          (bswap16 ((paylen + d2.dext0Hdrlen + 2 ^ 32 - d2.dext0Ipcss) % 2 ^ 32)) }
    else
      let d2 := d2.touch (iphdr + 4) 2
      { d2 with
        buf := d2.buf.setWord (iphdr + 4)
          (bswap16 ((paylen + d2.dext0Hdrlen + 2 ^ 32 - d2.dext0Ipcss - 40) % 2 ^ 32)) }
  if d2.dext0Tcp && !last then
    let d2 := d2.touch (l4hdr + 13) 1
    { d2 with buf := d2.buf.write (l4hdr + 13) (d2.buf (l4hdr + 13) &&& ~~~9) }
  else d2

def tseSetNextHeader (d2 : Data2) : Data2 :=
  let iphdr := d2.dext0Ipcss
  let l4hdr := d2.dext0Tucss
  -- restore header
  let d2 :=
    if d2.dext0Ip then
      let d2 := (d2.touch (iphdr + 2) 2).touch (iphdr + 10) 2
      { d2 with
        buf := (d2.buf.setWord (iphdr + 2) d2.tseIplen).setWord (iphdr + 10) d2.tseIpchecksum }
    else
      let d2 := d2.touch (iphdr + 4) 2
      { d2 with buf := d2.buf.setWord (iphdr + 4) d2.tseIplen }
  let d2 :=
    if d2.dext0Tcp then
      let d2 := (d2.touch (l4hdr + 16) 2).touch (l4hdr + 13) 1
      let buf := d2.buf.setWord (l4hdr + 16) d2.tseTcpchecksum
      { d2 with
        buf := buf.write (l4hdr + 13) (buf (l4hdr + 13) |||
          ((if d2.tseTcpfin then 1 else 0) ||| (if d2.tseTcppsh then 8 else 0))) }
    else d2
  -- increment IP identification
  let d2 :=
    if d2.dext0Ip then
      let d2 := d2.touch (iphdr + 4) 2
      { d2 with
        buf := d2.buf.setWord (iphdr + 4) (bswap16 (bswap16 (d2.buf.word (iphdr + 4)) + 1)) }
    else d2
  -- add TCP sequence number
  let d2 :=
    if d2.dext0Tcp then
      let d2 := d2.touch (l4hdr + 4) 4
      { d2 with
        buf := d2.buf.setDword (l4hdr + 4)
          (bswap32 ((bswap32 (d2.buf.dword (l4hdr + 4)) + d2.dext0Mss) % 2 ^ 32)) }
    else d2
  -- update paylen
  { d2 with dext0Paylen := (d2.dext0Paylen + 2 ^ 32 - d2.dext0Mss) % 2 ^ 32 }

def Data2.receive (d2 : Data2) (size : Nat) : Data2 := (d2.touch 0 size).note (.receive (d2.buf.slice 0 size))

def insertChecksums (tse : Bool) (d2 : Data2) (packetSize dextsize : Nat) : Data2 :=
  let d2 :=
    if d2.dext1Ixsm then
      checksum d2 packetSize d2.dext0Ipcss d2.dext0Ipcso d2.dext0Ipcse 0
    else d2
  if d2.dext1Txsm then
    checksum d2 packetSize d2.dext0Tucss d2.dext0Tucso d2.dext0Tucse
      (if tse then bswap16 ((dextsize + 2 ^ 32 - d2.dext0Tucss) % 2 ^ 32) else 0)
  else d2

def nextSegment (d2 : Data2) (packetSize : Nat) : Data2 :=
  let d2 := d2.note (.subtract d2.len packetSize)
  let rest := (d2.len + 2 ^ 32 - packetSize) % 2 ^ 32
  let d2 := (d2.touch d2.dext0Hdrlen rest).touch packetSize rest
  let buf := d2.buf
  let d2 := d2.note (.subtract d2.len d2.dext0Mss)
  tseSetNextHeader
    { d2 with
      buf := buf.blit d2.dext0Hdrlen rest fun offset => buf (packetSize + offset)
      len := (d2.len + 2 ^ 32 - d2.dext0Mss) % 2 ^ 32 }

def sendPacket (tse : Bool) (d2 : Data2) (dextlast : Bool) (packetSize dextsize : Nat) : Data2 :=
  let d2 := if tse then tseSetHeader d2 dextlast else d2
  (insertChecksums tse d2 packetSize dextsize).receive packetSize

def send (td1 : TdescDext1) (d2 : Data2) (dextlast : Bool) (dextsize : Nat) : Data2 :=
  if !td1.dcmdIfcs then d2
  else if d2.recvvirtFunc then
    let packetSize := if td1.dcmdTse then dextsize else d2.len
    let d2 := sendPacket td1.dcmdTse d2 dextlast packetSize dextsize
    if td1.dcmdTse && !dextlast then nextSegment d2 packetSize
    else { d2 with len := 0 }
  else { d2 with len := 0 }

def dextlast (d2 : Data2) : Bool := d2.dext0Paylen ≤ d2.dext0Mss

def dextsize (d2 : Data2) : Nat := d2.dext0Hdrlen + if dextlast d2 then d2.dext0Paylen else d2.dext0Mss

def saveHeader (d2 : Data2) : Data2 :=
  if d2.tseFirst then { tseFirst d2 with tseFirst := false } else d2

def sendFilled (td1 : TdescDext1) (d2 : Data2) : Data2 :=
  if td1.dcmdTse && dextsize d2 ≤ d2.len then send td1 (saveHeader d2) (dextlast d2) (dextsize d2)
  else if td1.dcmdEop then
    send td1 d2 (td1.dcmdTse && dextlast d2) (if td1.dcmdTse then dextsize d2 else 0)
  else d2

def loopPass (guest : Memory) (td1 : TdescDext1) (d2 : Data2) (tdaddr tdlen : Nat) : Data2 × Nat × Nat :=
  let (d2, tdaddr, tdlen) := tdescCopytobuf guest d2 tdaddr tdlen
  (sendFilled td1 d2, tdaddr, tdlen)

inductive Phase where
  | idle
  | loop (td1 : TdescDext1) (tdaddr tdlen : Nat)

structure Driver where
  d2 : Data2
  phase : Phase

def reportStatus (rs : Bool) (d2 : Data2) : Data2 :=
  if rs then d2.note .descriptorDone else d2

def beginTdesc (guest : Memory) (d2 : Data2) : Tdesc → Driver
  | .dext0 td0 =>
    let d2 :=
      { d2 with
        dext0Tucss := td0.tucss.toNat
        dext0Tucso := td0.tucso.toNat
        dext0Tucse := td0.tucse.toNat
        dext0Ipcss := td0.ipcss.toNat
        dext0Ipcso := td0.ipcso.toNat
        dext0Ipcse := td0.ipcse.toNat }
    let d2 :=
      if td0.tucmdTse then
        { d2 with
          dext0Mss := td0.mss.toNat
          dext0Hdrlen := td0.hdrlen.toNat
          dext0Paylen := td0.paylen.val
          tseFirst := true }
      else d2
    ⟨reportStatus td0.tucmdRs { d2 with dext0Ip := td0.tucmdIp, dext0Tcp := td0.tucmdTcp }, .idle⟩
  | .dext1 td1 =>
    let d2 :=
      if d2.len = 0 then { d2 with dext1Ixsm := td1.poptsIxsm, dext1Txsm := td1.poptsTxsm }
      else d2
    ⟨d2, .loop td1 td1.addr.toNat td1.dtalen.val⟩
  | .badDtyp cmdRs => ⟨reportStatus cmdRs d2, .idle⟩
  | .legacy td =>
    if td.addr ≠ 0 ∧ td.len ≠ 0 then
      let d2 := (tdescCopytobuf guest d2 td.addr.toNat td.len.toNat).1
      if td.cmdEop then
        let d2 := if d2.recvvirtFunc then d2.receive d2.len else d2
        ⟨{ reportStatus td.cmdRs d2 with len := 0 }, .idle⟩
      else ⟨d2, .idle⟩
    else ⟨d2, .idle⟩

def afterPass (td1 : TdescDext1) : Data2 × Nat × Nat → Driver
  | (d2, tdaddr, tdlen) =>
    if tdlen ≠ 0 ∧ d2.len ≠ 0 then ⟨d2, .loop td1 tdaddr tdlen⟩
    else ⟨reportStatus td1.dcmdRs d2, .idle⟩

/-- Pass through the loop until the descriptor is finished. `none` is a loop that has not come to
its end after that many passes. -/
def finishTdesc (guest : Memory) : Nat → Driver → Option Data2
  | _, ⟨d2, .idle⟩ => some d2
  | 0, ⟨_, .loop _ _ _⟩ => none
  | fuel + 1, ⟨d2, .loop td1 tdaddr tdlen⟩ =>
    finishTdesc guest fuel (afterPass td1 (loopPass guest td1 d2 tdaddr tdlen))

def processTdesc (fuel : Nat) (guest : Memory) (d2 : Data2) (td : Tdesc) : Option Data2 :=
  finishTdesc guest fuel (beginTdesc guest d2 td)

end DisasVisor.Pro1000
