import DisasVisor.Lib.Words
import DisasVisor.Vpn.Ip6Packets
import DisasVisor.Vpn.ReassemblySoundness

/-!
The packets that `Se6SendIp` builds, and what the parser reads from them when there are more bytes
behind them.
-/

namespace DisasVisor.Vpn.Ip6

open Reassembly List
open ByteOrder (getD_drop getD_ofFn)

def Upper (protocol : UInt8) : Prop := protocol ∉ [headerHop, headerEndpoint, headerRouting, headerFragment, headerNone]

def sendHeader (destIp srcIp : Addr) (hopLimit : UInt8) : Header where
  versionAndTrafficClass1 := 0x60
  trafficClass2AndFlowLabel1 := 0
  flowLabel2 := 0
  flowLabel3 := 0
  payloadLength := 0
  nextHeader := 0
  hopLimit := if hopLimit = 0 then sendHopLimit else hopLimit
  srcAddress := srcIp
  destAddress := destIp

def wireHeader (header : Header) (next : UInt8) (size : Nat) : Header :=
  { header with nextHeader := next, payloadLength := UInt16.ofNat size }

section

variable (header : Header) (next : UInt8) (size : Nat)

@[simp] theorem wireHeader_version : (wireHeader header next size).versionAndTrafficClass1 =
    header.versionAndTrafficClass1 := rfl

@[simp] theorem wireHeader_next : (wireHeader header next size).nextHeader = next := rfl

@[simp] theorem wireHeader_hopLimit : (wireHeader header next size).hopLimit = header.hopLimit := rfl

@[simp] theorem wireHeader_src : (wireHeader header next size).srcAddress = header.srcAddress := rfl

@[simp] theorem wireHeader_dest : (wireHeader header next size).destAddress = header.destAddress :=
  rfl

end

variable {header : Header} {fragment : FragmentHeader} {protocol : UInt8} {payload rest : List UInt8}
  {next : UInt8} {size : Nat}

@[simp] theorem length_header_bytes : header.bytes.length = 40 := by
  simp [Header.bytes, endian16]

@[simp] theorem length_fragment_bytes : fragment.bytes.length = 8 := by
  simp [FragmentHeader.bytes, endian32]

structure Reads (buf : List UInt8) (header : Header) : Prop where
  version : (readHeader buf).versionAndTrafficClass1 = header.versionAndTrafficClass1
  next : (readHeader buf).nextHeader = header.nextHeader
  hopLimit : (readHeader buf).hopLimit = header.hopLimit
  src : (readHeader buf).srcAddress = header.srcAddress
  dest : (readHeader buf).destAddress = header.destAddress

theorem readHeader_bytes : Reads (header.bytes ++ rest) header := by
  refine ⟨rfl, rfl, rfl, ?_, ?_⟩
  · funext i
    have behind : (header.bytes ++ rest).drop 8 =
        List.ofFn header.srcAddress ++ (List.ofFn header.destAddress ++ rest) := by
      simp [Header.bytes, endian16]
    simp only [readHeader]
    rw [getD_drop, behind, getD_ofFn]
  · funext i
    have behind : (header.bytes ++ rest).drop 24 = List.ofFn header.destAddress ++ rest := by
      simp [Header.bytes, endian16]
    simp only [readHeader]
    rw [getD_drop, behind, getD_ofFn]

theorem offsetBits (v : Nat) (small : v < 8192) (flags : Nat) (few : flags < 2) :
    (v / 32 &&& 0xff) % 256 = v / 32 ∧
      (((v % 256) <<< 3 &&& 0xf8) ||| (0 &&& 0x07)) % 256 = v % 32 * 8 ∧
      ((v % 32 * 8 &&& 0xf8) ||| (flags &&& 0x07)) % 256 = v % 32 * 8 + flags := by
  have low : (v % 256) <<< 3 &&& 0xf8 = v % 32 * 8 := by
    rw [show (0xf8 : Nat) = (2 ^ 5 - 1) <<< 3 from rfl, ← Nat.shiftLeft_and_distrib,
      Nat.and_two_pow_sub_one_eq_mod, Nat.shiftLeft_eq]
    omega
  have both : ∀ y < 32, ∀ flags < 2, ((y * 8 &&& 0xf8) ||| (flags &&& 0x07)) % 256 = y * 8 + flags := by decide
  refine ⟨?_, ?_, both _ (by omega) flags few⟩
  · rw [show (0xff : Nat) = 2 ^ 8 - 1 from rfl, Nat.and_two_pow_sub_one_eq_mod]
    omega
  · rw [low, Nat.zero_and, Nat.or_zero]
    omega

theorem joinBits (a b flags : Nat) (high : a < 256) (low : b < 32) (few : flags < 2) :
    (a <<< 5 &&& 0x1fe0) ||| ((b * 8 + flags) >>> 3 &&& 0x1f) = a * 32 + b := by
  have shifted : a <<< 5 &&& 0x1fe0 = a <<< 5 := by
    rw [show (0x1fe0 : Nat) = (2 ^ 8 - 1) <<< 5 from rfl, ← Nat.shiftLeft_and_distrib,
      Nat.and_two_pow_sub_one_eq_mod, Nat.mod_eq_of_lt high]
  have parts : (b * 8 + flags) >>> 3 &&& 0x1f = b := by
    rw [show (0x1f : Nat) = 2 ^ 5 - 1 from rfl, Nat.and_two_pow_sub_one_eq_mod, Nat.shiftRight_eq_div_pow]
    omega
  rw [shifted, parts, ← Nat.shiftLeft_add_eq_or_of_lt (by omega), Nat.shiftLeft_eq]

section

variable (id : UInt32) (i : Nat) (more : Bool) (small : i < 65536)
include id i more small

theorem fragmentHeaderAt_bits :
    (fragmentHeaderAt id i more).flagmentOffset1.toNat = i / 8 / 32 ∧
      (fragmentHeaderAt id i more).flagmentOffset2AndFlags.toNat = i / 8 % 32 * 8 + if more then 1 else 0 := by
  have bits := offsetBits (i / 8 % 65536) (by omega) (if more then 1 else 0) (by split <;> omega)
  have zero := UInt8.toNat_zero
  refine ⟨?_, ?_⟩
  · simp only [fragmentHeaderAt, FragmentHeader.setFlags, FragmentHeader.setFragmentOffset,
      UInt8.toNat_ofNat', bits.1]
    omega
  · simp only [fragmentHeaderAt, FragmentHeader.setFlags, FragmentHeader.setFragmentOffset,
      UInt8.toNat_ofNat', flagMoreFragments, zero, bits.2.1, bits.2.2]
    omega

theorem getFragmentOffset_at : (fragmentHeaderAt id i more).getFragmentOffset = i / 8 := by
  obtain ⟨high, low⟩ := fragmentHeaderAt_bits id i more small
  rw [FragmentHeader.getFragmentOffset, high, low, joinBits _ _ _ (by omega) (by omega) (by split <;> omega)]
  omega

theorem getFlags_at : (fragmentHeaderAt id i more).getFlags &&& flagMoreFragments = if more then 1 else 0 := by
  obtain ⟨_, low⟩ := fragmentHeaderAt_bits id i more small
  rw [FragmentHeader.getFlags, flagMoreFragments, low, Nat.and_assoc,
    show (0x0f &&& 0x01 : Nat) = 1 from rfl, Nat.and_one_is_mod]
  split <;> omega

end

def plainPacket (header : Header) (protocol : UInt8) (payload : List UInt8) : List UInt8 :=
  (wireHeader header protocol payload.length).bytes ++ payload

def fragmentPacket (header : Header) (protocol : UInt8) (id : UInt32) (i : Nat) (more : Bool)
    (slice : List UInt8) : List UInt8 :=
  (wireHeader header headerFragment (8 + slice.length)).bytes ++
    { fragmentHeaderAt id i more with nextHeader := protocol }.bytes ++ slice

def sendInfo (header : Header) (protocol : UInt8) (fragment : Option FragmentHeader)
    (payload : List UInt8) : PacketInfo where
  header := header
  hopHeader := none
  endPointHeader := none
  routingHeader := none
  fragmentHeader := fragment
  payload := some payload
  protocol := protocol

section

variable (upper : Upper protocol)
include upper

theorem Upper.hasPayload : protocol ≠ headerNone := by
  rintro rfl
  exact upper (by decide)

theorem buildPacket_plain :
    buildPacket (sendInfo header protocol none payload) = (plainPacket header protocol payload, 48) := by
  have size : 40 + payload.length - 40 = payload.length := by omega
  simp [buildPacket, sendInfo, plainPacket, wireHeader, upper.hasPayload, size]

theorem buildPacket_fragment (id : UInt32) (i : Nat) (more : Bool) :
    (buildPacket (sendInfo header protocol (some (fragmentHeaderAt id i more)) payload)).1 =
      fragmentPacket header protocol id i more payload := by
  have size : 48 + payload.length - 40 = 8 + payload.length := by omega
  simp only [buildPacket, sendInfo, fragmentPacket, wireHeader, upper.hasPayload, Option.isSome_some,
    Option.isSome_none, Option.map_some, Option.map_none, Option.getD_some, Option.getD_none,
    append_nil, length_nil, length_fragment_bytes, Nat.add_zero, ne_eq, not_false_eq_true,
    if_true, if_false, Bool.false_eq_true, size]

theorem parseExtHeader_upper (info : PacketInfo) (fuel : Nat)
    (next2 : UInt8) : parseExtHeader (fuel + 1) info protocol next2 payload =
      some { info with payload := some payload, protocol := protocol } := by
  have option : ¬(protocol = headerHop ∨ protocol = headerEndpoint ∨ protocol = headerRouting) := by
    rintro (rfl | rfl | rfl) <;> exact upper (by decide)
  have fragment : ¬protocol = headerFragment := by
    rintro rfl
    exact upper (by decide)
  unfold parseExtHeader
  rw [if_neg option, if_neg fragment, if_pos upper.hasPayload]

end

structure Carries (info : PacketInfo) (header : Header) (protocol : UInt8) (data : List UInt8) :
    Prop where
  hopLimit : info.header.hopLimit = header.hopLimit
  src : info.header.srcAddress = header.srcAddress
  dest : info.header.destAddress = header.destAddress
  protocol : info.protocol = protocol
  payload : info.payload = some data

theorem version_bits : (0x60 : UInt8) >>> 4 &&& 0x0f = 6 := by decide

theorem parsePacket_header (version : header.versionAndTrafficClass1 = 0x60) :
    ∃ info : PacketInfo, info.header.hopLimit = header.hopLimit ∧
      info.header.srcAddress = header.srcAddress ∧ info.header.destAddress = header.destAddress ∧
      info.fragmentHeader = none ∧
      parsePacket (header.bytes ++ rest) =
        parseExtHeader (39 + rest.length + 1) info header.nextHeader headerNone rest := by
  have reads := @readHeader_bytes header rest
  have behind : (header.bytes ++ rest).drop 40 = rest := drop_left' length_header_bytes
  have length : (header.bytes ++ rest).length = 39 + rest.length + 1 := by
    rw [length_append, length_header_bytes]
    omega
  refine ⟨⟨readHeader (header.bytes ++ rest), none, none, none, none, none, 0⟩, reads.hopLimit, reads.src,
    reads.dest, rfl, ?_⟩
  unfold parsePacket
  rw [if_neg (by omega)]
  dsimp only
  rw [reads.version, version, version_bits, if_neg (by simp), behind, reads.next, length]

theorem parsePacket_plain (upper : Upper protocol) (version : header.versionAndTrafficClass1 = 0x60) :
    ∃ info, parsePacket (plainPacket header protocol payload ++ rest) = some info ∧
      Carries info header protocol (payload ++ rest) ∧ info.fragmentHeader = none := by
  obtain ⟨info, hopLimit, src, dest, none, parses⟩ := @parsePacket_header
    (wireHeader header protocol payload.length) (payload ++ rest) version
  rw [plainPacket, append_assoc, parses, wireHeader_next, parseExtHeader_upper upper]
  exact ⟨_, rfl, ⟨hopLimit, src, dest, rfl, rfl⟩, none⟩

theorem parsePacket_fragment (upper : Upper protocol)
    (version : header.versionAndTrafficClass1 = 0x60) (id : UInt32) (i : Nat) (more : Bool) (some' : payload ≠ []) :
    ∃ info h, parsePacket (fragmentPacket header protocol id i more payload ++ rest) = some info ∧
      Carries info header protocol (payload ++ rest) ∧ info.fragmentHeader = some h ∧
      h.flagmentOffset1 = (fragmentHeaderAt id i more).flagmentOffset1 ∧
      h.flagmentOffset2AndFlags = (fragmentHeaderAt id i more).flagmentOffset2AndFlags ∧
      h.identification = readEndian32 (endian32 id) 0 := by
  obtain ⟨info, hopLimit, src, dest, none, parses⟩ := @parsePacket_header
    (wireHeader header headerFragment (8 + payload.length))
    ({ fragmentHeaderAt id i more with nextHeader := protocol }.bytes ++ (payload ++ rest)) version
  have positive := length_pos_of_ne_nil some'
  have long : ({ fragmentHeaderAt id i more with nextHeader := protocol }.bytes ++
      (payload ++ rest)).length = 8 + (payload.length + rest.length) := by
    rw [length_append, length_append, length_fragment_bytes]
  have behind : ({ fragmentHeaderAt id i more with nextHeader := protocol }.bytes ++
      (payload ++ rest)).drop 8 = payload ++ rest := drop_left' length_fragment_bytes
  have first : ({ fragmentHeaderAt id i more with nextHeader := protocol }.bytes ++
      (payload ++ rest)).getD 0 0 = protocol := rfl
  rw [fragmentPacket, append_assoc, append_assoc, parses, wireHeader_next]
  unfold parseExtHeader
  rw [if_neg (by decide), if_pos rfl, if_neg (by omega), behind, if_pos (by omega), first,
    long, show 39 + (8 + (payload.length + rest.length)) =
      46 + (payload.length + rest.length) + 1 by omega, parseExtHeader_upper upper]
  exact ⟨_, _, rfl, ⟨hopLimit, src, dest, rfl, rfl⟩, rfl, rfl, rfl, rfl⟩

end DisasVisor.Vpn.Ip6

namespace DisasVisor.Vpn.Ip6

open Reassembly

def onePayloadSize (mtu : Nat) : Nat := (max mtuMin mtu - 48) / 8 * 8

def pieceCount (length one : Nat) : Nat := (length + one - 1) / one

def slice (payload : List UInt8) (one j : Nat) : List UInt8 := (payload.drop (j * one)).take one

def packetAt (header : Header) (protocol : UInt8) (id : UInt32) (payload : List UInt8) (one j : Nat) : List UInt8 :=
  fragmentPacket header protocol id (j * one) (payload.length - j * one > one) (slice payload one j)

variable {header : Header} {protocol : UInt8} {id : UInt32} {payload pad : List UInt8}
  {one j mtu : Nat} {destIp srcIp : Addr} {hopLimit : UInt8}

theorem lt_pieceCount {payload : List UInt8} (positive : 0 < one) :
    j < pieceCount payload.length one ↔ j * one < payload.length := by
  rw [pieceCount, ← Nat.succ_le_iff, Nat.le_div_iff_mul_le positive, Nat.succ_mul]
  omega

theorem length_slice : (slice payload one j).length = min one (payload.length - j * one) := by
  rw [slice, List.length_take, List.length_drop]

theorem onePayloadSize_bounds : 8 ≤ onePayloadSize mtu ∧ onePayloadSize mtu + 48 ≤ max mtuMin mtu := by
  have most : 1280 ≤ max mtuMin mtu := Nat.le_max_left _ _
  unfold onePayloadSize
  omega

theorem fragmentLoop_eq (upper : Upper protocol) (positive : 0 < one) (fuel : Nat) :
    ∀ {j}, pieceCount payload.length one - j ≤ fuel →
      fragmentLoop (sendInfo header protocol none payload) payload id one fuel (j * one) =
        (List.range' j (pieceCount payload.length one - j)).map (packetAt header protocol id payload one) := by
  induction fuel with
  | zero =>
    intro j enough
    rw [show pieceCount payload.length one - j = 0 by omega]
    rfl
  | succ fuel ih =>
    intro j enough
    have next : j * one + one = (j + 1) * one := (Nat.succ_mul j one).symm
    unfold fragmentLoop
    by_cases more : j * one < payload.length
    · have first := (@lt_pieceCount one j payload positive).mpr more
      have build := @buildPacket_fragment header protocol (slice payload one j) upper id (j * one)
        (payload.length - j * one > one)
      have taken : (payload.drop (j * one)).take (min (payload.length - j * one) one) = slice payload one j := by
        rw [slice, ← List.length_drop, Nat.min_comm, List.take_eq_take_iff]
        omega
      rw [if_pos more, taken, next, ih (by omega),
        show pieceCount payload.length one - j = pieceCount payload.length one - (j + 1) + 1 by omega,
        List.range'_succ, List.map_cons]
      exact congrArg (· :: _) build
    · have last := mt (@lt_pieceCount one j payload positive).mp more
      rw [if_neg more, show pieceCount payload.length one - j = 0 by omega]
      rfl

theorem pieceCount_le (positive : 0 < one) : pieceCount payload.length one ≤ payload.length := by
  by_contra more
  have product := (@lt_pieceCount one payload.length payload positive).mp (by omega)
  have least := Nat.le_mul_of_pos_right payload.length positive
  omega

theorem se6SendIp_eq (upper : Upper protocol) (small : payload.length ≤ 65535) :
    se6SendIp id mtu destIp srcIp protocol hopLimit payload = some
      (if 40 + payload.length ≤ max mtuMin mtu then
        [plainPacket (sendHeader destIp srcIp hopLimit) protocol payload]
      else (List.range (pieceCount payload.length (onePayloadSize mtu))).map
        (packetAt (sendHeader destIp srcIp hopLimit) protocol id payload (onePayloadSize mtu))) := by
  have most : seIp6MaxPayloadSize.toNat = 65535 := rfl
  obtain ⟨least, room⟩ := @onePayloadSize_bounds mtu
  have build := @buildPacket_plain (sendHeader destIp srcIp hopLimit) protocol payload upper
  have length : (plainPacket (sendHeader destIp srcIp hopLimit) protocol payload).length = 40 + payload.length := by
    rw [plainPacket, List.length_append, length_header_bytes]
  have loop := @fragmentLoop_eq (sendHeader destIp srcIp hopLimit) protocol id payload
    (onePayloadSize mtu) upper (by omega) payload.length 0 (pieceCount_le (by omega))
  rw [Nat.zero_mul, Nat.sub_zero, ← List.range_eq_range'] at loop
  unfold se6SendIp
  rw [if_neg (by omega)]
  change buildPacketWithFragment (sendInfo (sendHeader destIp srcIp hopLimit) protocol none payload) id mtu = _
  unfold buildPacketWithFragment
  change (if (buildPacket (sendInfo (sendHeader destIp srcIp hopLimit) protocol none payload)).1.length
      ≤ max mtuMin mtu then
        some [(buildPacket (sendInfo (sendHeader destIp srcIp hopLimit) protocol none payload)).1]
    else if max mtuMin mtu ≤
      (buildPacket (sendInfo (sendHeader destIp srcIp hopLimit) protocol none payload)).2 then none
    else _) = _
  rw [build]
  simp only [length]
  by_cases whole : 40 + payload.length ≤ max mtuMin mtu
  · rw [if_pos whole, if_pos whole]
  · rw [if_neg whole, if_neg whole, if_neg (by omega)]
    change (if onePayloadSize mtu = 0 then none else _) = _
    rw [if_neg (by omega)]
    exact congrArg some loop

variable {memory : Nat → UInt8} {p p' : Receiver} {ds : List Datagram} {r : Received}

theorem se6RecvIpComplete_some {src dest : Addr} {id : UInt32} {data : List UInt8}
    (some' : data ≠ []) : se6RecvIpComplete src dest id protocol hopLimit (some data) =
      [⟨src, dest, id, protocol, hopLimit, data⟩] := by
  cases data with
  | nil => exact absurd rfl some'
  | cons byte bytes => rfl

theorem receiveFrame_plain (upper : Upper protocol) (version : header.versionAndTrafficClass1 = 0x60)
    (some' : payload ≠ []) :
    receiveFrame memory p (plainPacket header protocol payload ++ pad) =
      some (p, [⟨header.srcAddress, header.destAddress, 0, protocol, header.hopLimit, payload ++ pad⟩]) := by
  obtain ⟨info, parses, carries, none⟩ := @parsePacket_plain header protocol payload pad upper version
  unfold receiveFrame
  simp only [parses, se6RecvIp, none, carries.hopLimit, carries.src, carries.dest, carries.protocol, carries.payload]
  rw [se6RecvIpComplete_some (by simp [some'])]

def combineFrame (memory : Nat → UInt8) (p : Receiver) (header : Header) (protocol : UInt8)
    (id : UInt32) (r : Received) : Option (Receiver × List Datagram) :=
  match Searches.locate (fun c : Combine => c.destIpAddress = header.destAddress ∧
      c.srcIpAddress = header.srcAddress ∧ c.id = id ∧ c.protocol = protocol) p.ipCombineList with
  | some (front, c, back) => combineEntry p front c back r.offset (some r.data) r.last
  | none =>
    if p.currentIpQuota + seIpCombineInitialBufSize > combineQueueSizeQuota then some (p, [])
    else
      combineEntry { p with currentIpQuota := p.currentIpQuota + seIpCombineInitialBufSize }
        p.ipCombineList
        ⟨header.destAddress, header.srcAddress, id, protocol, header.hopLimit,
          newIpCombine memory⟩ [] r.offset (some r.data) r.last

def wireId (id : UInt32) : UInt32 := readEndian32 (endian32 id) 0

theorem receiveFrame_fragment (upper : Upper protocol)
    (version : header.versionAndTrafficClass1 = 0x60) {i : Nat} {more : Bool} (small : i < 65536)
    (aligned : i / 8 * 8 = i) (some' : payload ≠ []) (part : i = 0 → more = true) :
    receiveFrame memory p (fragmentPacket header protocol id i more payload ++ pad) =
      combineFrame memory p header protocol (wireId id) ⟨UInt32.ofNat i, payload ++ pad, !more⟩ := by
  obtain ⟨info, h, parses, carries, fragment, high, low, identification⟩ :=
    @parsePacket_fragment header protocol payload pad upper version id i more some'
  have offset : h.getFragmentOffset = i / 8 := by
    rw [← getFragmentOffset_at id i more small, FragmentHeader.getFragmentOffset,
      FragmentHeader.getFragmentOffset, high, low]
  have flags : h.getFlags &&& flagMoreFragments = if more then 1 else 0 := by
    rw [← getFlags_at id i more small, FragmentHeader.getFlags, FragmentHeader.getFlags, low]
  have split : ¬(i / 8 = 0 ∧ h.getFlags &&& flagMoreFragments = 0) := by
    rw [flags]
    rintro ⟨first, last⟩
    rw [part (by omega)] at last
    cases last
  have last : decide (h.getFlags &&& flagMoreFragments = 0) = !more := by
    rw [flags]
    cases more <;> rfl
  unfold receiveFrame
  simp only [parses, se6RecvIp, fragment, if_neg split, last, offset, aligned, identification,
    carries.hopLimit, carries.src, carries.dest, carries.protocol, carries.payload]
  rfl

def paddedPiece (payload : List UInt8) (one j : Nat) (pad : List UInt8) : Received where
  offset := UInt32.ofNat (j * one)
  data := slice payload one j ++ pad
  last := payload.length ≤ (j + 1) * one

theorem receiveFrame_packetAt (upper : Upper protocol)
    (version : header.versionAndTrafficClass1 = 0x60) (small : payload.length ≤ 65535)
    (positive : 0 < one) (aligned : one / 8 * 8 = one) (several : one < payload.length)
    (inside : j * one < payload.length) :
    receiveFrame memory p (packetAt header protocol id payload one j ++ pad) =
      combineFrame memory p header protocol (wireId id) (paddedPiece payload one j pad) := by
  have some' : slice payload one j ≠ [] := by
    rw [← List.length_pos_iff, length_slice]
    omega
  have multiple : j * one / 8 * 8 = j * one := by
    obtain ⟨eighth, rfl⟩ : ∃ n, one = n * 8 := ⟨one / 8, aligned.symm⟩
    rw [← Nat.mul_assoc, Nat.mul_div_cancel _ (by omega)]
  unfold packetAt
  rw [receiveFrame_fragment upper version (by omega) multiple some' (by
    intro first
    rw [first]
    simpa using several), paddedPiece]
  congr 2
  rw [Nat.succ_mul, ← decide_not]
  exact decide_eq_decide.mpr (by omega)

end DisasVisor.Vpn.Ip6
