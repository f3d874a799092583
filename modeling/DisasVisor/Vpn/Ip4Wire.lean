import DisasVisor.Vpn.Ip4Fragments
import DisasVisor.Vpn.Ip6Delivery

/-!
The packets that `Se4SendIp` makes, and how the receiver reads them.
-/

namespace DisasVisor.Vpn.Ip4

open Reassembly List
open ByteOrder (getD_drop getD_ofFn)
open Ip6 (slice pieceCount)

variable {h : Header} {rest payload : List UInt8} {destIp srcIp : Addr} {id : UInt16}
  {protocol ttl : UInt8} {offset total mss j : Nat}

@[simp] theorem length_header_bytes : h.bytes.length = 20 := by
  simp [Header.bytes]

theorem readHeader_bytes : readHeader (h.bytes ++ rest) = h := by
  have srcIP : (readHeader (h.bytes ++ rest)).srcIP = h.srcIP := by
    funext i
    have behind : (h.bytes ++ rest).drop 12 = List.ofFn h.srcIP ++ (List.ofFn h.dstIP ++ rest) := by simp [Header.bytes]
    simp only [readHeader]
    rw [getD_drop, behind, getD_ofFn]
  have dstIP : (readHeader (h.bytes ++ rest)).dstIP = h.dstIP := by
    funext i
    have behind : (h.bytes ++ rest).drop 16 = List.ofFn h.dstIP ++ rest := by simp [Header.bytes]
    simp only [readHeader]
    rw [getD_drop, behind, getD_ofFn]
  have totalLength : (readHeader (h.bytes ++ rest)).totalLength = h.totalLength := ByteOrder.join16 _
  have identification : (readHeader (h.bytes ++ rest)).identification = h.identification := ByteOrder.join16 _
  have checksum : (readHeader (h.bytes ++ rest)).checksum = h.checksum := ByteOrder.join16 _
  cases read : readHeader (h.bytes ++ rest) with
  | mk version service length ident flags low time proto sum src dst =>
    rw [read] at srcIP dstIP totalLength identification checksum
    simp only at srcIP dstIP totalLength identification checksum
    subst srcIP dstIP totalLength identification checksum
    have others : version = h.versionAndHeaderLength ∧ service = h.typeOfService ∧
        flags = h.flagsAndFlagmentOffset0 ∧ low = h.flagsAndFlagmentOffset1 ∧
        time = h.timeToLive ∧ proto = h.protocol := by
      unfold readHeader at read
      injection read with v s _ _ f l t p _ _ _
      exact ⟨v.symm, s.symm, f.symm, l.symm, t.symm, p.symm⟩
    obtain ⟨rfl, rfl, rfl, rfl, rfl, rfl⟩ := others
    rfl

def fragmentHeader (destIp srcIp : Addr) (id : UInt16) (protocol ttl : UInt8) (offset size : Nat)
    (more : Bool) : Header :=
  let ip := (Header.zero.setVersion 4).setHeaderLen (20 / 4)
  let ip := { ip with totalLength := UInt16.ofNat (size + 20), identification := id }
  let ip := (ip.setOffset (offset / 8)).setFlags (if more then 0x01 else 0x00)
  { ip with
    timeToLive := if ttl = 0 then seIpv4SendTtl else ttl
    protocol := protocol, srcIP := srcIp, dstIP := destIp }

def withChecksum (ip : Header) : Header := { ip with checksum := se4IpChecksum ip.bytes }

def packetOf (destIp srcIp : Addr) (id : UInt16) (protocol ttl : UInt8) (offset : Nat) (more : Bool)
    (data : List UInt8) : List UInt8 :=
  (withChecksum (fragmentHeader destIp srcIp id protocol ttl offset data.length more)).bytes ++ data

variable {data : List UInt8} {more : Bool}

theorem se4SendIpFragment_eq (some' : data ≠ []) :
    se4SendIpFragment destIp srcIp id total offset protocol ttl data =
      some (packetOf destIp srcIp id protocol ttl offset (offset + data.length < total) data) := by
  unfold se4SendIpFragment
  rw [if_neg some']
  by_cases last : offset + data.length ≥ total
  · have ends : ¬offset + data.length < total := by omega
    simp only [if_pos last, ends, decide_false]
    rfl
  · have more : offset + data.length < total := by omega
    simp only [if_neg last, more, decide_true]
    rfl

theorem length_packetOf : (packetOf destIp srcIp id protocol ttl offset more data).length = 20 + data.length := by
  rw [packetOf, length_append, length_header_bytes]

theorem checksum_bytes (ip : Header) (zero : ip.checksum = 0) :
    ((withChecksum ip).bytes.set 10 0).set 11 0 = ip.bytes := by
  obtain ⟨version, service, length, ident, flags, low, time, proto, sum, src, dst⟩ := ip
  simp only at zero
  subst zero
  simp [Header.bytes, withChecksum]

theorem fragmentHeader_version (size : Nat) (more : Bool) :
    (fragmentHeader destIp srcIp id protocol ttl offset size more).versionAndHeaderLength = 0x45 := by
  change ((Header.zero.setVersion 4).setHeaderLen (20 / 4)).versionAndHeaderLength = 0x45
  decide

theorem flagBits : ∀ high < 32, ∀ flag < 2,
    ((UInt8.ofNat high ||| UInt8.ofNat ((flag &&& 0x07) <<< 5)).toNat &&& 0x1f = high) ∧
    ((UInt8.ofNat high ||| UInt8.ofNat ((flag &&& 0x07) <<< 5)).toNat >>> 5 &&& 0x07 = flag) := by
  decide

theorem fragmentHeader_flags (small : offset < 65536) (size : Nat) (more : Bool) :
    (fragmentHeader destIp srcIp id protocol ttl offset size more).getOffset = offset / 8 ∧
      (fragmentHeader destIp srcIp id protocol ttl offset size more).getFlags = if more then 1 else 0 := by
  have zero : ∀ b : UInt8, 0 ||| b = b := by
    intro b
    apply UInt8.toNat_inj.mp
    rw [UInt8.toNat_or, UInt8.toNat_zero, Nat.zero_or]
  have high : (fragmentHeader destIp srcIp id protocol ttl offset size more).flagsAndFlagmentOffset0 =
      UInt8.ofNat (offset / 8 / 256) ||| UInt8.ofNat ((if more then 1 else 0 &&& 0x07) <<< 5) := by
    change (0 ||| UInt8.ofNat (offset / 8 / 256)) ||| _ = _
    rw [zero]
    cases more <;> rfl
  have low : (fragmentHeader destIp srcIp id protocol ttl offset size more).flagsAndFlagmentOffset1 =
      UInt8.ofNat (offset / 8 % 256) := rfl
  have bits := flagBits (offset / 8 / 256) (by omega) (if more then 1 else 0) (by split <;> omega)
  unfold Header.getOffset Header.getFlags
  rw [high, low]
  cases more with
  | true =>
    refine ⟨?_, bits.2⟩
    have first := bits.1
    simp only [if_true] at first
    change ((UInt8.ofNat (offset / 8 / 256) ||| UInt8.ofNat ((1 &&& 0x07) <<< 5)).toNat &&& 0x1f) * 256 + _ = _
    rw [first, UInt8.toNat_ofNat']
    omega
  | false =>
    refine ⟨?_, bits.2⟩
    have first := bits.1
    simp only [Bool.false_eq_true, if_false] at first
    change ((UInt8.ofNat (offset / 8 / 256) ||| UInt8.ofNat ((0 &&& 0x07) <<< 5)).toNat &&& 0x1f) * 256 + _ = _
    rw [first, UInt8.toNat_ofNat']
    omega

theorem packetOf_header : readHeader (packetOf destIp srcIp id protocol ttl offset more data) =
    withChecksum (fragmentHeader destIp srcIp id protocol ttl offset data.length more) :=
  readHeader_bytes

theorem packetOf_headerLen :
    (readHeader (packetOf destIp srcIp id protocol ttl offset more data)).getHeaderLen = 5 := by
  rw [packetOf_header]
  change (fragmentHeader destIp srcIp id protocol ttl offset data.length more).versionAndHeaderLength.toNat &&& 0x0f = 5
  rw [fragmentHeader_version]
  rfl

theorem packetOf_summed : se4IpCheckChecksum (packetOf destIp srcIp id protocol ttl offset more data) = true := by
  unfold se4IpCheckChecksum
  simp only [decide_eq_true_eq]
  rw [packetOf_headerLen, packetOf_header, packetOf, take_left' (by simp), checksum_bytes _ rfl]
  rfl

structure Carries (buf : List UInt8) (destIp srcIp : Addr) (id : UInt16) (protocol : UInt8)
    (offset : Nat) (more : Bool) (data : List UInt8) : Prop where
  accepts : accepted buf
  parts : fragmented buf ↔ ¬(offset / 8 = 0 ∧ more = false)
  src : (readHeader buf).srcIP = srcIp
  dest : (readHeader buf).dstIP = destIp
  identification : (readHeader buf).identification = id
  protocol : (readHeader buf).protocol = protocol
  payload : payloadOf buf = data
  received : receivedOf buf = ⟨UInt32.ofNat (offset / 8 * 8), data, !more⟩

theorem packetOf_carries (more : Bool) (some' : data ≠ []) (short : data.length + 20 < 65536) (small : offset < 65536) :
    Carries (packetOf destIp srcIp id protocol ttl offset more data) destIp srcIp id protocol offset more data := by
  have positive := length_pos_of_ne_nil some'
  have five := @packetOf_headerLen destIp srcIp id protocol ttl offset data more
  have four : (readHeader (packetOf destIp srcIp id protocol ttl offset more data)).getVersion = 4 := by
    rw [packetOf_header]
    change (fragmentHeader destIp srcIp id protocol ttl offset data.length more).versionAndHeaderLength.toNat
      >>> 4 &&& 0x0f = 4
    rw [fragmentHeader_version]
    rfl
  have length : (readHeader (packetOf destIp srcIp id protocol ttl offset more data)).totalLength.toNat =
      data.length + 20 := by
    rw [packetOf_header]
    change (UInt16.ofNat (data.length + 20)).toNat = _
    rw [UInt16.toNat_ofNat']
    omega
  have total := @length_packetOf destIp srcIp id protocol ttl offset data more
  obtain ⟨getOffset, getFlags⟩ := @fragmentHeader_flags destIp srcIp id protocol ttl offset small data.length more
  have readOffset : (readHeader (packetOf destIp srcIp id protocol ttl offset more data)).getOffset = offset / 8 := by
    rw [packetOf_header]
    exact getOffset
  have readFlags : (readHeader (packetOf destIp srcIp id protocol ttl offset more data)).getFlags =
      if more then 1 else 0 := by
    rw [packetOf_header]
    exact getFlags
  have one : ((if more then 1 else 0) &&& 0x01 = 0) ↔ more = false := by cases more <;> decide
  have summed := @packetOf_summed destIp srcIp id protocol ttl offset data more
  have payload : payloadOf (packetOf destIp srcIp id protocol ttl offset more data) = data := by
    unfold payloadOf
    rw [five, length, packetOf, drop_left' (by simp), take_of_length_le (by omega)]
  refine ⟨⟨?_, summed, by omega, by omega⟩, ?_, by rw [packetOf_header]; rfl, by rw [packetOf_header]; rfl, by rw [packetOf_header]; rfl,
    by rw [packetOf_header]; rfl, payload, ?_⟩
  · unfold parseL3
    simp only [five, four, decide_eq_true_eq, true_and]
    omega
  · unfold fragmented
    rw [readOffset, readFlags, one]
  · unfold receivedOf
    rw [readOffset, readFlags, payload]
    simp only [one]
    cases more <;> rfl

def packetAt (destIp srcIp : Addr) (id : UInt16) (protocol ttl : UInt8) (payload : List UInt8)
    (mss j : Nat) : List UInt8 :=
  packetOf destIp srcIp id protocol ttl (j * mss) (decide ((j + 1) * mss < payload.length)) (slice payload mss j)

theorem sendLoop_eq (positive : 0 < mss) (narrow : mss < 65536) (small : payload.length ≤ 65535)
    (fuel : Nat) : ∀ {j}, j * mss < payload.length → pieceCount payload.length mss - j ≤ fuel →
      sendLoop mss destIp srcIp id payload.length protocol ttl fuel (j * mss) (payload.drop (j * mss)) =
        some ((List.range' j (pieceCount payload.length mss - j)).map
          (packetAt destIp srcIp id protocol ttl payload mss)) := by
  induction fuel with
  | zero =>
    intro j inside enough
    have first := (@Ip6.lt_pieceCount mss j payload positive).mpr inside
    omega
  | succ fuel ih =>
    intro j inside enough
    have first := (@Ip6.lt_pieceCount mss j payload positive).mpr inside
    have next : j * mss + mss = (j + 1) * mss := (Nat.succ_mul j mss).symm
    have length := @Ip6.length_slice payload mss j
    have taken : (payload.drop (j * mss)).take (min (mss % 65536) (payload.length - j * mss)) =
        slice payload mss j := by
      rw [Nat.mod_eq_of_lt narrow, slice, ← length_drop, take_eq_take_iff]
      omega
    have some' : slice payload mss j ≠ [] := by
      rw [← length_pos_iff, length]
      omega
    have packet : se4SendIpFragment destIp srcIp id payload.length (j * mss) protocol ttl
        (slice payload mss j) = some (packetAt destIp srcIp id protocol ttl payload mss j) := by
      rw [se4SendIpFragment_eq some', packetAt]
      congr 2
      apply decide_eq_decide.mpr
      rw [length]
      omega
    have lastIff := @Ip6.lt_pieceCount mss (j + 1) payload positive
    unfold sendLoop
    dsimp only
    rw [taken, packet]
    by_cases last : (j + 1) * mss < payload.length
    · have notLast : ¬j * mss + min (mss % 65536) (payload.length - j * mss) % 65536 =
          payload.length := by
        rw [Nat.mod_eq_of_lt narrow]
        omega
      have stop : (j * mss + min (mss % 65536) (payload.length - j * mss)) % 65536 = (j + 1) * mss := by
        rw [Nat.mod_eq_of_lt narrow]
        omega
      have behind : (payload.drop (j * mss)).drop (min (mss % 65536) (payload.length - j * mss)) =
          payload.drop ((j + 1) * mss) := by
        rw [drop_drop, Nat.mod_eq_of_lt narrow]
        congr 1
        omega
      have more := lastIff.mpr last
      rw [if_neg (by simpa using notLast), stop, behind, ih last (by omega)]
      rw [show pieceCount payload.length mss - j = pieceCount payload.length mss - (j + 1) + 1 by omega,
        List.range'_succ, map_cons]
      rfl
    · have isLast : j * mss + min (mss % 65536) (payload.length - j * mss) % 65536 =
          payload.length := by
        rw [Nat.mod_eq_of_lt narrow]
        omega
      have none := mt lastIff.mp last
      rw [if_pos (by simpa using isLast), show pieceCount payload.length mss - j = 1 by omega]
      rfl

theorem se4SendIp_eq {mtu : Nat} (least : 20 < mtu) (most : mtu ≤ 65535) (some' : payload ≠ [])
    (small : payload.length ≤ 65535) (fuel : Nat) (enough : payload.length ≤ fuel) :
    se4SendIp fuel mtu id destIp srcIp protocol ttl payload =
      some ((List.range (pieceCount payload.length (mtu - 20))).map
        (packetAt destIp srcIp id protocol ttl payload (mtu - 20))) := by
  have positive := length_pos_of_ne_nil some'
  have limit : seIp4MaxPayloadSize.toNat = 65535 := rfl
  have count := @Ip6.pieceCount_le payload (mtu - 20) (by omega)
  have loop := @sendLoop_eq payload destIp srcIp id protocol ttl (mtu - 20) (by omega) (by omega) small
    fuel 0 (by omega) (by omega)
  rw [Nat.zero_mul, drop_zero, Nat.sub_zero, ← range_eq_range'] at loop
  unfold se4SendIp
  rw [if_neg (by omega), Nat.mod_eq_of_lt (by omega), loop]

end DisasVisor.Vpn.Ip4
