import DisasVisor.Lib.Searches
import DisasVisor.Vpn.Trimming
import DisasVisor.Lib.Indices

/-!
IPv4 packets in `vpn/lib/Se/SeIp4.c`: `Se4SendIp`, `Se4RecvIp` with the list of datagrams that are put
together, and what `Se4MainProc` drops from it. A packet is the bytes after the MAC header.
-/

namespace DisasVisor.Vpn.Ip4

open Reassembly

abbrev Addr := Fin 4 → UInt8

structure Header where
  versionAndHeaderLength : UInt8
  typeOfService : UInt8
  totalLength : UInt16
  identification : UInt16
  flagsAndFlagmentOffset0 : UInt8
  flagsAndFlagmentOffset1 : UInt8
  timeToLive : UInt8
  protocol : UInt8
  checksum : UInt16
  srcIP : Addr
  dstIP : Addr

namespace Header

def zero : Header := ⟨0, 0, 0, 0, 0, 0, 0, 0, 0, fun _ => 0, fun _ => 0⟩

def getVersion (h : Header) : Nat := h.versionAndHeaderLength.toNat >>> 4 &&& 0x0f

def setVersion (h : Header) (v : Nat) : Header :=
  { h with versionAndHeaderLength := h.versionAndHeaderLength ||| UInt8.ofNat ((v &&& 0x0f) <<< 4) }

def getHeaderLen (h : Header) : Nat := h.versionAndHeaderLength.toNat &&& 0x0f

def setHeaderLen (h : Header) (v : Nat) : Header :=
  { h with versionAndHeaderLength := h.versionAndHeaderLength ||| UInt8.ofNat (v &&& 0x0f) }

def getFlags (h : Header) : Nat := (h.flagsAndFlagmentOffset0.toNat >>> 5) &&& 0x07

def setFlags (h : Header) (v : Nat) : Header :=
  { h with flagsAndFlagmentOffset0 := h.flagsAndFlagmentOffset0 ||| UInt8.ofNat ((v &&& 0x07) <<< 5) }

def getOffset (h : Header) : Nat := (h.flagsAndFlagmentOffset0.toNat &&& 0x1f) * 256 + h.flagsAndFlagmentOffset1.toNat

def setOffset (h : Header) (v : Nat) : Header :=
  { h with
    flagsAndFlagmentOffset0 := h.flagsAndFlagmentOffset0 ||| UInt8.ofNat (v / 256)
    flagsAndFlagmentOffset1 := UInt8.ofNat (v % 256) }

def bytes (h : Header) : List UInt8 :=
  [h.versionAndHeaderLength, h.typeOfService, (h.totalLength >>> 8).toUInt8, h.totalLength.toUInt8,
    (h.identification >>> 8).toUInt8, h.identification.toUInt8, h.flagsAndFlagmentOffset0,
    h.flagsAndFlagmentOffset1, h.timeToLive, h.protocol, h.checksum.toUInt8,
    (h.checksum >>> 8).toUInt8] ++ List.ofFn h.srcIP ++ List.ofFn h.dstIP

end Header

def readHeader (buf : List UInt8) : Header where
  versionAndHeaderLength := buf.getD 0 0
  typeOfService := buf.getD 1 0
  totalLength := (buf.getD 2 0).toUInt16 <<< 8 ||| (buf.getD 3 0).toUInt16
  identification := (buf.getD 4 0).toUInt16 <<< 8 ||| (buf.getD 5 0).toUInt16
  flagsAndFlagmentOffset0 := buf.getD 6 0
  flagsAndFlagmentOffset1 := buf.getD 7 0
  timeToLive := buf.getD 8 0
  protocol := buf.getD 9 0
  checksum := (buf.getD 11 0).toUInt16 <<< 8 ||| (buf.getD 10 0).toUInt16
  srcIP := fun i => buf.getD (12 + i) 0
  dstIP := fun i => buf.getD (16 + i) 0

def checksumSum : List UInt8 → Int32
  | [] => 0
  | [a] => Int32.ofNat a.toNat
  | a :: b :: rest => Int32.ofNat (a.toNat + 256 * b.toNat) + checksumSum rest

def se4IpChecksum (buf : List UInt8) : UInt16 :=
  let sum := checksumSum buf
  let sum := (sum >>> 16) + (sum &&& 0xffff)
  let sum := sum + (sum >>> 16)
  (~~~ sum).toUInt32.toUInt16

def se4IpCheckChecksum (buf : List UInt8) : Bool :=
  let header := buf.take ((readHeader buf).getHeaderLen * 4)
  (readHeader buf).checksum = se4IpChecksum ((header.set 10 0).set 11 0)

def seIpv4SendTtl : UInt8 := 128

def se4SendIpFragment (destIp srcIp : Addr) (id : UInt16) (totalSize offset : Nat)
    (protocol ttl : UInt8) (data : List UInt8) : Option (List UInt8) :=
  if data = [] then none
  else
    let ip := (Header.zero.setVersion 4).setHeaderLen (20 / 4)
    let ip := { ip with totalLength := UInt16.ofNat (data.length + 20), identification := id }
    let ip := ip.setOffset (offset / 8)
    let ip := if offset + data.length ≥ totalSize then ip.setFlags 0x00 else ip.setFlags 0x01
    let ip := { ip with
      timeToLive := if ttl = 0 then seIpv4SendTtl else ttl
      protocol := protocol, srcIP := srcIp, dstIP := destIp }
    let ip := { ip with checksum := se4IpChecksum ip.bytes }
    some (ip.bytes ++ data)

def sendLoop (mss : Nat) (destIp srcIp : Addr) (id : UInt16) (totalSize : Nat) (protocol ttl : UInt8) :
    Nat → Nat → List UInt8 → Option (List (List UInt8))
  | 0, _, _ => none
  | fuel + 1, offset, data =>
    let sizeOfThisPacket := min (mss % 65536) (totalSize - offset)
    let lastPacket : Bool := offset + sizeOfThisPacket % 65536 = totalSize
    let packet := se4SendIpFragment destIp srcIp id totalSize offset protocol ttl (data.take sizeOfThisPacket)
    if lastPacket then some packet.toList
    else
      match sendLoop mss destIp srcIp id totalSize protocol ttl fuel
        ((offset + sizeOfThisPacket) % 65536) (data.drop sizeOfThisPacket) with
      | none => none
      | some later => some (packet.toList ++ later)

/-- `Se4SendIp`: the packets for `Se4SendRawIp`; `fuel` is how many there may be. -/
def se4SendIp (fuel mtu : Nat) (idSeed : UInt16) (destIp srcIp : Addr) (protocol ttl : UInt8)
    (data : List UInt8) : Option (List (List UInt8)) :=
  if data.length > seIp4MaxPayloadSize.toNat then some []
  else sendLoop (mtu - 20) destIp srcIp idSeed (data.length % 65536) protocol ttl fuel 0 data

structure Combine where
  destIpAddress : Addr
  srcIpAddress : Addr
  id : UInt16
  expire : UInt64
  protocol : UInt8
  ttl : UInt8
  isBroadcast : Bool
  combineId : Int32
  combine : IpCombine

def Combine.key (c : Combine) : Addr × Addr × UInt16 × UInt8 := (c.destIpAddress, c.srcIpAddress, c.id, c.protocol)

structure Datagram where
  srcIp : Addr
  destIp : Addr
  id : UInt16
  protocol : UInt8
  ttl : UInt8
  isBroadcast : Bool
  data : List UInt8
  deriving DecidableEq

structure Receiver where
  ipCombineList : List Combine
  currentIpQuota : UInt32
  combineCurrentId : Int32

def Receiver.idle : Receiver := ⟨[], 0, 0⟩

def seIpv4CombineQueueSizeQuota : UInt32 := 1024 * 1024

def seIpv4CombineTimeout : UInt64 := 60 * 1000

def seIpv4CombineMaxCount : Int32 := 256

def se4RecvIpComplete (srcIp destIp : Addr) (id : UInt16) (protocol ttl : UInt8) (isBroadcast : Bool)
    (data : List UInt8) : List Datagram :=
  if data = [] then [] else [⟨srcIp, destIp, id, protocol, ttl, isBroadcast, data⟩]

def se4CombineEntry (tick : UInt64) (p : Receiver) (front : List Combine) (c : Combine)
    (back : List Combine) (offset : UInt32) (data : List UInt8) (last : Bool) :
    Option (Receiver × List Datagram) :=
  match se4CombineIp c.combine offset data last with
  | none => none
  | some (combine, none) =>
    -- the status has changed when there is one more fragment
    let statusChanged := c.combine.ipFragmentList.length < combine.ipFragmentList.length
    let c' := { c with
      combine := combine
      expire := if statusChanged then tick + seIpv4CombineTimeout else c.expire }
    some ({ p with
      ipCombineList := front ++ c' :: back
      currentIpQuota := p.currentIpQuota + (combine.dataReserved - c.combine.dataReserved) }, [])
  | some (combine, some out) =>
    some ({ p with
      ipCombineList := front ++ back
      currentIpQuota := p.currentIpQuota + (combine.dataReserved - c.combine.dataReserved) -
        combine.dataReserved },
      se4RecvIpComplete c.srcIpAddress c.destIpAddress c.id c.protocol c.ttl c.isBroadcast out)

def se4InsertIpCombine (memory : Nat → UInt8) (tick : UInt64) (p : Receiver) (srcIp destIp : Addr)
    (id : UInt16) (protocol ttl : UInt8) (isBroadcast : Bool) : Option (Receiver × Combine) :=
  if p.currentIpQuota + seIpCombineInitialBufSize > seIpv4CombineQueueSizeQuota then none
  else
    some ({ p with
      currentIpQuota := p.currentIpQuota + seIpCombineInitialBufSize
      combineCurrentId := p.combineCurrentId + 1 },
      ⟨destIp, srcIp, id, tick + seIpv4CombineTimeout, protocol, ttl, isBroadcast, p.combineCurrentId,
        newIpCombine memory⟩)

def parseL3 (buf : List UInt8) : Bool :=
  let headerSize := (readHeader buf).getHeaderLen * 4
  20 ≤ buf.length ∧ (readHeader buf).getVersion = 4 ∧ 20 ≤ headerSize ∧ headerSize ≤ buf.length

def se4RecvIp (memory : Nat → UInt8) (tick : UInt64) (p : Receiver) (buf : List UInt8)
    (isBroadcast : Bool) : Option (Receiver × List Datagram) :=
  let ip := readHeader buf
  let ipv4HeaderSize := ip.getHeaderLen * 4
  if ¬se4IpCheckChecksum buf then some (p, [])
  else if ip.totalLength.toNat ≤ ipv4HeaderSize then some (p, [])
  else
    let size := ip.totalLength.toNat - ipv4HeaderSize
    if buf.length - ipv4HeaderSize < size then some (p, [])
    else
      let data := (buf.drop ipv4HeaderSize).take size
      if ip.getOffset = 0 ∧ ip.getFlags &&& 0x01 = 0 then
        some (p, se4RecvIpComplete ip.srcIP ip.dstIP ip.identification ip.protocol ip.timeToLive isBroadcast data)
      else
        let offset := UInt32.ofNat (ip.getOffset * 8)
        let isLastPacket : Bool := ip.getFlags &&& 0x01 = 0
        match Searches.locate
            (fun c : Combine => c.key = (ip.dstIP, ip.srcIP, ip.identification, ip.protocol))
            p.ipCombineList with
        | some (front, c, back) => se4CombineEntry tick p front c back offset data isLastPacket
        | none =>
          match se4InsertIpCombine memory tick p ip.srcIP ip.dstIP ip.identification ip.protocol
            ip.timeToLive isBroadcast with
          | none => some (p, [])
          | some (p, c) => se4CombineEntry tick p p.ipCombineList c [] offset data isLastPacket

def receivePacket (memory : Nat → UInt8) (tick : UInt64) (p : Receiver) (buf : List UInt8)
    (isBroadcast : Bool) : Option (Receiver × List Datagram) :=
  if parseL3 buf then se4RecvIp memory tick p buf isBroadcast else some (p, [])

def expired (tick : UInt64) (p : Receiver) (c : Combine) : Bool :=
  c.expire ≤ tick ∨ p.combineCurrentId - c.combineId > seIpv4CombineMaxCount

def freeQuota (quota : UInt32) : List Combine → UInt32
  | [] => quota
  | c :: cs => freeQuota (quota - c.combine.dataReserved) cs

def se4FlushIpCombineList (tick : UInt64) (p : Receiver) : Receiver :=
  { p with
    ipCombineList := p.ipCombineList.filter fun c => !expired tick p c
    currentIpQuota := freeQuota p.currentIpQuota (p.ipCombineList.filter (expired tick p)) }

end DisasVisor.Vpn.Ip4
