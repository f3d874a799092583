import DisasVisor.Lib.Searches
import DisasVisor.Vpn.Trimming
import DisasVisor.Lib.Indices

/-!
IPv6 packets in `vpn/lib/Se`: the builder and the parser of `SePacket.c`, and `Se6SendIp` and
`Se6RecvIp` of `SeIp6.c`. A packet is the bytes after the MAC header.
-/

namespace DisasVisor.Vpn.Ip6

open Reassembly

abbrev Addr := Fin 16 → UInt8

structure Header where
  versionAndTrafficClass1 : UInt8
  trafficClass2AndFlowLabel1 : UInt8
  flowLabel2 : UInt8
  flowLabel3 : UInt8
  payloadLength : UInt16
  nextHeader : UInt8
  hopLimit : UInt8
  srcAddress : Addr
  destAddress : Addr

structure FragmentHeader where
  nextHeader : UInt8
  reserved : UInt8
  flagmentOffset1 : UInt8
  flagmentOffset2AndFlags : UInt8
  identification : UInt32

def headerHop : UInt8 := 0

def headerEndpoint : UInt8 := 60

def headerRouting : UInt8 := 43

def headerFragment : UInt8 := 44

def headerNone : UInt8 := 59

def flagMoreFragments : Nat := 0x01

/-- `SE_IPV6_HEADER_PACKET_INFO`; an absent header or payload is a null pointer. -/
structure PacketInfo where
  header : Header
  hopHeader : Option (List UInt8)
  endPointHeader : Option (List UInt8)
  routingHeader : Option (List UInt8)
  fragmentHeader : Option FragmentHeader
  payload : Option (List UInt8)
  protocol : UInt8

namespace FragmentHeader

def getFragmentOffset (h : FragmentHeader) : Nat :=
  (h.flagmentOffset1.toNat <<< 5 &&& 0x1fe0) ||| (h.flagmentOffset2AndFlags.toNat >>> 3 &&& 0x1f)

def setFragmentOffset (h : FragmentHeader) (v : Nat) : FragmentHeader :=
  { h with
    flagmentOffset1 := UInt8.ofNat (v / 32 &&& 0xff)
    flagmentOffset2AndFlags := UInt8.ofNat
      (((v % 256) <<< 3 &&& 0xf8) ||| (h.flagmentOffset2AndFlags.toNat &&& 0x07)) }

def getFlags (h : FragmentHeader) : Nat := h.flagmentOffset2AndFlags.toNat &&& 0x0f

def setFlags (h : FragmentHeader) (v : Nat) : FragmentHeader :=
  { h with
    flagmentOffset2AndFlags := UInt8.ofNat
      ((h.flagmentOffset2AndFlags.toNat &&& 0xf8) ||| (v &&& 0x07)) }

end FragmentHeader

def endian16 (x : UInt16) : List UInt8 := [(x >>> 8).toUInt8, x.toUInt8]

def endian32 (x : UInt32) : List UInt8 := [(x >>> 24).toUInt8, (x >>> 16).toUInt8, (x >>> 8).toUInt8, x.toUInt8]

def readEndian16 (buf : List UInt8) (at' : Nat) : UInt16 :=
  (buf.getD at' 0).toUInt16 <<< 8 ||| (buf.getD (at' + 1) 0).toUInt16

def readEndian32 (buf : List UInt8) (at' : Nat) : UInt32 :=
  (buf.getD at' 0).toUInt32 <<< 24 ||| (buf.getD (at' + 1) 0).toUInt32 <<< 16 |||
    (buf.getD (at' + 2) 0).toUInt32 <<< 8 ||| (buf.getD (at' + 3) 0).toUInt32

def Header.bytes (h : Header) : List UInt8 :=
  [h.versionAndTrafficClass1, h.trafficClass2AndFlowLabel1, h.flowLabel2, h.flowLabel3] ++
    endian16 h.payloadLength ++ [h.nextHeader, h.hopLimit] ++ List.ofFn h.srcAddress ++
    List.ofFn h.destAddress

def FragmentHeader.bytes (h : FragmentHeader) : List UInt8 :=
  [h.nextHeader, h.reserved, h.flagmentOffset1, h.flagmentOffset2AndFlags] ++ endian32 h.identification

def readHeader (buf : List UInt8) : Header where
  versionAndTrafficClass1 := buf.getD 0 0
  trafficClass2AndFlowLabel1 := buf.getD 1 0
  flowLabel2 := buf.getD 2 0
  flowLabel3 := buf.getD 3 0
  payloadLength := readEndian16 buf 4
  nextHeader := buf.getD 6 0
  hopLimit := buf.getD 7 0
  srcAddress := fun i => buf.getD (8 + i) 0
  destAddress := fun i => buf.getD (24 + i) 0

def readFragmentHeader (buf : List UInt8) : FragmentHeader where
  nextHeader := buf.getD 0 0
  reserved := buf.getD 1 0
  flagmentOffset1 := buf.getD 2 0
  flagmentOffset2AndFlags := buf.getD 3 0
  identification := readEndian32 buf 4

def buildOptionHeader (opt : List UInt8) (nextHeader : UInt8) : List UInt8 :=
  let totalSize := if opt.length % 8 ≠ 0 then (opt.length / 8 + 1) * 8 else opt.length
  let h := opt ++ List.replicate (totalSize - opt.length) 0
  (h.set 1 (UInt8.ofNat (totalSize / 8 - 1))).set 0 nextHeader

/-- `SeBuildIPv6Packet`: the packet, and the length before the payload, which always counts a
fragment header. The next headers come from the queue of the headers that are there. -/
def buildPacket (info : PacketInfo) : List UInt8 × Nat :=
  let afterRouting := if info.fragmentHeader.isSome then headerFragment else info.protocol
  let afterEndPoint := if info.routingHeader.isSome then headerRouting else afterRouting
  let afterHop := if info.endPointHeader.isSome then headerEndpoint else afterEndPoint
  let first := if info.hopHeader.isSome then headerHop else afterHop
  let options := (info.hopHeader.map (buildOptionHeader · afterHop)).getD [] ++
    (info.endPointHeader.map (buildOptionHeader · afterEndPoint)).getD [] ++
    (info.routingHeader.map (buildOptionHeader · afterRouting)).getD []
  let fragment := (info.fragmentHeader.map fun h => { h with nextHeader := info.protocol }.bytes).getD []
  let payload := if info.protocol ≠ headerNone then info.payload.getD [] else []
  let size := 40 + options.length + fragment.length + payload.length
  let header := { info.header with
    nextHeader := first
    payloadLength := UInt16.ofNat (size - 40) }
  (header.bytes ++ options ++ fragment ++ payload,
    40 + options.length + fragment.length + if info.fragmentHeader.isSome then 0 else 8)

def mtuMin : Nat := 1280

def fragmentHeaderAt (id : UInt32) (i : Nat) (more : Bool) : FragmentHeader :=
  (FragmentHeader.setFragmentOffset ⟨0, 0, 0, 0, id⟩ (i / 8 % 65536)).setFlags (if more then flagMoreFragments else 0)

def fragmentLoop (info : PacketInfo) (payload : List UInt8) (id : UInt32) (one : Nat) :
    Nat → Nat → List (List UInt8)
  | 0, _ => []
  | fuel + 1, i =>
    if i < payload.length then
      (buildPacket { info with
        fragmentHeader := some (fragmentHeaderAt id i (payload.length - i > one))
        payload := some ((payload.drop i).take (min (payload.length - i) one)) }).1 ::
        fragmentLoop info payload id one fuel (i + one)
    else []

def buildPacketWithFragment (info : PacketInfo) (id : UInt32) (mtu : Nat) : Option (List (List UInt8)) :=
  let mtu := max mtuMin mtu
  let info := { info with
    fragmentHeader := info.fragmentHeader.map fun h => { h with identification := id } }
  let (b, sizeForHeaders) := buildPacket info
  if b.length ≤ mtu then some [b]
  else if mtu ≤ sizeForHeaders then none
  else
    let one := (mtu - sizeForHeaders) / 8 * 8
    if one = 0 then none
    else
      let payload := info.payload.getD []
      some (fragmentLoop info payload id one payload.length 0)

def sendHopLimit : UInt8 := 128

def se6SendIp (id : UInt32) (mtu : Nat) (destIp srcIp : Addr) (protocol hopLimit : UInt8)
    (data : List UInt8) : Option (List (List UInt8)) :=
  if data.length > seIp6MaxPayloadSize.toNat then none
  else
    buildPacketWithFragment
      { header :=
          { versionAndTrafficClass1 := 0x60
            trafficClass2AndFlowLabel1 := 0
            flowLabel2 := 0
            flowLabel3 := 0
            payloadLength := 0
            nextHeader := 0
            hopLimit := if hopLimit = 0 then sendHopLimit else hopLimit
            srcAddress := srcIp
            destAddress := destIp }
        hopHeader := none
        endPointHeader := none
        routingHeader := none
        fragmentHeader := none
        payload := some data
        protocol := protocol } id mtu

/-- `SeParseIPv6ExtHeader`. `next2` is the variable that keeps its value when the rest is short;
each header takes at least eight bytes. -/
def parseExtHeader : Nat → PacketInfo → UInt8 → UInt8 → List UInt8 → Option PacketInfo
  | 0, _, _, _, _ => none
  | fuel + 1, info, next, next2, buf =>
    let next2 := if buf.length > 8 then buf.getD 0 0 else next2
    if next = headerHop ∨ next = headerEndpoint ∨ next = headerRouting then
      if buf.length < 8 then none
      else
        let size := ((buf.getD 1 0).toNat + 1) * 8
        if buf.length < size then none
        else
          let opt := some (buf.take size)
          let info :=
            if next = headerHop then { info with hopHeader := opt }
            else if next = headerEndpoint then { info with endPointHeader := opt }
            else { info with routingHeader := opt }
          parseExtHeader fuel info next2 next2 (buf.drop size)
    else if next = headerFragment then
      if buf.length < 8 then none
      else
        parseExtHeader fuel { info with fragmentHeader := some (readFragmentHeader buf) } next2 next2 (buf.drop 8)
    else some { info with
      payload := if next ≠ headerNone then some buf else none
      protocol := next }

def parsePacket (buf : List UInt8) : Option PacketInfo :=
  if buf.length < 40 then none
  else
    let header := readHeader buf
    if header.versionAndTrafficClass1 >>> 4 &&& 0x0f ≠ 6 then none
    else
      parseExtHeader buf.length
        { header := header
          hopHeader := none
          endPointHeader := none
          routingHeader := none
          fragmentHeader := none
          payload := none
          protocol := 0 } header.nextHeader headerNone (buf.drop 40)

structure Combine where
  destIpAddress : Addr
  srcIpAddress : Addr
  id : UInt32
  protocol : UInt8
  hopLimit : UInt8
  combine : IpCombine

structure Datagram where
  srcIp : Addr
  destIp : Addr
  id : UInt32
  protocol : UInt8
  hopLimit : UInt8
  data : List UInt8
  deriving DecidableEq

structure Receiver where
  ipCombineList : List Combine
  currentIpQuota : UInt32

def Receiver.idle : Receiver := ⟨[], 0⟩

def combineQueueSizeQuota : UInt32 := 1048576

def se6RecvIpComplete (srcIp destIp : Addr) (id : UInt32) (protocol hopLimit : UInt8)
    (data : Option (List UInt8)) : List Datagram :=
  match data with
  | none => []
  | some [] => []
  | some (b :: bs) => [⟨srcIp, destIp, id, protocol, hopLimit, b :: bs⟩]

def combineEntry (p : Receiver) (front : List Combine) (c : Combine) (back : List Combine)
    (offset : UInt32) (data : Option (List UInt8)) (last : Bool) :
    Option (Receiver × List Datagram) :=
  match data with
  | none => some ({ p with ipCombineList := front ++ c :: back }, [])
  | some data =>
    match se6CombineIp c.combine offset data last with
    | none => none
    | some (combine, none) =>
      some ({ ipCombineList := front ++ { c with combine := combine } :: back
              currentIpQuota := p.currentIpQuota + (combine.dataReserved - c.combine.dataReserved) },
        [])
    | some (combine, some out) =>
      some ({ ipCombineList := front ++ back
              currentIpQuota := p.currentIpQuota +
                (combine.dataReserved - c.combine.dataReserved) - combine.dataReserved },
        se6RecvIpComplete c.srcIpAddress c.destIpAddress c.id c.protocol c.hopLimit (some out))

def se6RecvIp (memory : Nat → UInt8) (p : Receiver) (info : PacketInfo) : Option (Receiver × List Datagram) :=
  let complete := se6RecvIpComplete info.header.srcAddress info.header.destAddress 0 info.protocol
    info.header.hopLimit info.payload
  match info.fragmentHeader with
  | none => some (p, complete)
  | some h =>
    if h.getFragmentOffset = 0 ∧ h.getFlags &&& flagMoreFragments = 0 then some (p, complete)
    else
      let offset := UInt32.ofNat (h.getFragmentOffset * 8)
      let last : Bool := h.getFlags &&& flagMoreFragments = 0
      match Searches.locate (fun c : Combine => c.destIpAddress = info.header.destAddress ∧
          c.srcIpAddress = info.header.srcAddress ∧ c.id = h.identification ∧
          c.protocol = info.protocol) p.ipCombineList with
      | some (front, c, back) => combineEntry p front c back offset info.payload last
      | none =>
        if p.currentIpQuota + seIpCombineInitialBufSize > combineQueueSizeQuota then some (p, [])
        else
          combineEntry
            { p with currentIpQuota := p.currentIpQuota + seIpCombineInitialBufSize }
            p.ipCombineList
            ⟨info.header.destAddress, info.header.srcAddress, h.identification, info.protocol,
              info.header.hopLimit, newIpCombine memory⟩ [] offset info.payload last

def receiveFrame (memory : Nat → UInt8) (p : Receiver) (buf : List UInt8) : Option (Receiver × List Datagram) :=
  match parsePacket buf with
  | none => some (p, [])
  | some info => se6RecvIp memory p info

def receiveFrames (memory : Nat → UInt8) : Receiver → List (List UInt8) →
    Option (Receiver × List Datagram)
  | p, [] => some (p, [])
  | p, buf :: bufs =>
    match receiveFrame memory p buf with
    | none => none
    | some (p, out) =>
      match receiveFrames memory p bufs with
      | none => none
      | some (p, later) => some (p, out ++ later)

end DisasVisor.Vpn.Ip6
