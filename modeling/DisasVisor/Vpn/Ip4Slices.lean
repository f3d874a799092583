import DisasVisor.Vpn.Ip4Quota
import DisasVisor.Vpn.Ip6RoundTrip
import DisasVisor.Vpn.Slices

/-!
What IPv4 touches of a frame and of the datagrams that are complete with it. Only the length in a UDP
header can lead out of a datagram.
-/

namespace DisasVisor.Vpn.Ip4

open Reassembly Slices List
open Option (some.injEq)
open Ip6 (readEndian16)
open Traced (returned always_emit_bind always_returned always_emit flow_pure always_bind always_pure trace_pure)

structure Host where
  myMacAddress : List UInt8
  ipAddress : Addr
  useRawIp : Bool

variable {host : Host} {frame data : List UInt8} {d : Datagram}

def recvIpTouches (host : Host) (frame : List UInt8) : Traced Touch Unit :=
  let ip := readHeader (layer3 frame)
  let ipv4HeaderSize := ip.getHeaderLen * 4
  do
    Traced.emit (.read 14 20)
    Traced.emit (.slice 14 ipv4HeaderSize)
    if ¬se4IpCheckChecksum (layer3 frame) then returned
    else if ip.totalLength.toNat ≤ ipv4HeaderSize then returned
    else do
      let size := ip.totalLength.toNat - ipv4HeaderSize
      Traced.emit (.subtract ip.totalLength.toNat ipv4HeaderSize)
      Traced.emit (.subtract frame.length (ipv4HeaderSize + 14))
      if frame.length - (ipv4HeaderSize + 14) < size then returned
      else do
        Traced.log (if host.useRawIp then [.subtract frame.length 14, .slice 14 (frame.length - 14)] else [])
        Traced.emit (.slice (14 + ipv4HeaderSize) size)

def se4RecvEthPacket (host : Host) (frame : List UInt8) : Traced Touch (Option Bool) := do
  let pkt ← seParsePacket frame
  match pkt with
  | none => pure none
  | some (typeL3, isBroadcast) =>
    if (frame.drop 6).take 6 = host.myMacAddress then pure none
    else
      match typeL3 with
      | .arpv4 => do
          -- `Se4RecvArp` reads the fields of the header
          Traced.emit (.read 14 28)
          pure none
      | .ipv4 => do
          (recvIpTouches host frame).call
          pure (some isBroadcast)
      | _ => pure none

def completed (host : Host) (memory : Nat → UInt8) (tick : UInt64) (p : Receiver) (frame : List UInt8) :
    List Datagram :=
  match (se4RecvEthPacket host frame).flow with
  | .next (some isBroadcast) => ((receivePacket memory tick p (layer3 frame) isBroadcast).map Prod.snd).getD []
  | _ => []

def se4ParseIpPacketUDPv4 (data : List UInt8) : Traced Touch Bool :=
  if data.length < 8 then pure false
  else do
    Traced.emit (.read 0 8)
    let packetLength := (readEndian16 data 4).toNat
    if packetLength > data.length then pure false
    else do
      let bufSize := (packetLength + 2 ^ 32 - 8) % 2 ^ 32
      Traced.emit (.subtract packetLength 8)
      if readEndian16 data 2 = 0 then pure false
      else do
        Traced.emit (.narrow bufSize)
        Traced.emit (.slice 8 (bufSize % 65536))
        pure true

structure IcmpInfo where
  type : UInt8
  echoDataSize : Nat

def se4ParseIpPacketICMPv4 (data : List UInt8) : Traced Touch (Option IcmpInfo) :=
  if data.length < 4 then pure none
  else do
    Traced.emit (.read 0 4)
    Traced.emit (.subtract data.length 4)
    Traced.emit (.slice 0 data.length)
    let checksumOriginal := (data.getD 3 0).toUInt16 <<< 8 ||| (data.getD 2 0).toUInt16
    if se4IpChecksum ((data.set 2 0).set 3 0) ≠ checksumOriginal then pure none
    else do
      let dataSize := (data.length - 4) % 65536
      Traced.emit (.narrow (data.length - 4))
      Traced.emit (.slice 4 dataSize)
      let type := data.getD 0 0
      if type = 8 ∨ type = 0 then
        if dataSize < 4 then pure none
        else do
          Traced.emit (.read 4 4)
          Traced.emit (.subtract dataSize 4)
          Traced.emit (.slice 8 (dataSize - 4))
          pure (some ⟨type, dataSize - 4⟩)
      else pure (some ⟨type, 0⟩)

def recvIcmp (host : Host) (d : Datagram) (info : IcmpInfo) : Traced Touch Unit := do
  Traced.log (if d.destIp = host.ipAddress ∧ info.type = 8 then [.slice 8 info.echoDataSize] else [])
  Traced.emit (.slice 0 d.data.length)

def recvIpComplete (host : Host) (d : Datagram) : Traced Touch Unit :=
  if d.protocol = 0x01 then do
    let icmp ← se4ParseIpPacketICMPv4 d.data
    match icmp with
    | none => pure ()
    | some info => recvIcmp host d info
  else if d.protocol = 0x11 then do
    let parsed ← se4ParseIpPacketUDPv4 d.data
    if parsed then Traced.emit (.slice 0 d.data.length) else pure ()
  else Traced.emit (.slice 0 d.data.length)

def ShortUdp (d : Datagram) : Prop := d.protocol = 0x11 ∧ 8 ≤ d.data.length ∧ (readEndian16 d.data 4).toNat < 8

theorem parseL3_header (parses : parseL3 (layer3 frame) = true) :
    20 ≤ (layer3 frame).length ∧ (readHeader (layer3 frame)).getHeaderLen * 4 ≤ (layer3 frame).length := by
  unfold parseL3 at parses
  simp only [decide_eq_true_eq] at parses
  exact ⟨parses.1, parses.2.2.2⟩

theorem recvIpTouches_safe (parses : parseL3 (layer3 frame) = true) :
    Traced.Always (Touch.Safe frame.length) (recvIpTouches host frame) := by
  obtain ⟨least, header⟩ := parseL3_header parses
  have length := @layer3_length frame
  unfold recvIpTouches
  dsimp only
  rw [always_emit_bind, always_emit_bind]
  refine ⟨?_, ?_, ?_⟩
  · change 14 + 20 ≤ frame.length
    omega
  · change 14 + _ ≤ frame.length
    omega
  · split
    · exact always_returned
    · split
      · exact always_returned
      · rw [always_emit_bind, always_emit_bind]
        refine ⟨?_, ?_, ?_⟩
        · change _ ≤ _
          omega
        · change _ + 14 ≤ frame.length
          omega
        · split
          · exact always_returned
          · rw [Traced.always_log_bind, always_emit]
            constructor
            · intro touch member
              split at member
              · rcases mem_cons.mp member with rfl | last
                · change 14 ≤ frame.length
                  omega
                · rw [mem_singleton.mp last]
                  change 14 + (frame.length - 14) ≤ frame.length
                  omega
              · cases member
            · change 14 + _ + _ ≤ frame.length
              omega

theorem seParsePacket_next {typeL3 : TypeL3} {isBroadcast : Bool}
    (parsed : (seParsePacket frame).flow = .next (some (typeL3, isBroadcast))) :
    (seParsePacketL2 frame).flow = .next (some typeL3) ∧ frame.length ≤ 1514 := by
  unfold seParsePacket at parsed
  split at parsed
  · cases parsed
  · rw [Traced.flow_bind_next] at parsed
    obtain ⟨type, isType, rest⟩ := parsed
    split at rest
    · rename_i valid
      rw [Traced.flow_bind_next] at rest
      obtain ⟨inner, isInner, result⟩ := rest
      cases inner with
      | none => simp at result
      | some inner =>
        simp only [Option.map_some, flow_pure, Traced.Flow.next.injEq, some.injEq, Prod.mk.injEq] at result
        obtain ⟨rfl, -⟩ := result
        refine ⟨isInner, ?_⟩
        unfold seEthParseEthernetPacket at isType
        split at isType
        · rename_i bounds
          exact bounds.2
        · cases isType
          cases valid
    · cases rest

theorem se4RecvEthPacket_safe (host : Host) (frame : List UInt8) :
    Traced.Always (Touch.Safe frame.length) (se4RecvEthPacket host frame) := by
  have length := @layer3_length frame
  unfold se4RecvEthPacket
  rw [always_bind]
  refine ⟨seParsePacket_safe frame, ?_⟩
  rintro pkt parsed
  split
  · exact always_pure _
  · obtain ⟨isL2, -⟩ := seParsePacket_next parsed
    split
    · exact always_pure _
    · split
      · have enough : 28 ≤ (layer3 frame).length := seParsePacketL2_parsed isL2
        rw [always_emit_bind]
        exact ⟨by change 14 + 28 ≤ frame.length; omega, always_pure _⟩
      · rw [always_bind, Traced.always_call]
        exact ⟨recvIpTouches_safe (seParsePacketL2_parsed isL2), fun _ _ => always_pure _⟩
      · exact always_pure _

theorem udp_safe_iff : Traced.Always (Touch.Safe data.length) (se4ParseIpPacketUDPv4 data) ↔
    ¬(8 ≤ data.length ∧ (readEndian16 data 4).toNat < 8) := by
  have small := (readEndian16 data 4).toNat_lt
  unfold se4ParseIpPacketUDPv4
  by_cases short : data.length < 8
  · rw [if_pos short]
    exact iff_of_true (always_pure _) (by omega)
  · rw [if_neg short, always_emit_bind]
    dsimp only
    by_cases long : (readEndian16 data 4).toNat > data.length
    · rw [if_pos long]
      exact iff_of_true ⟨by change 0 + 8 ≤ _; omega, always_pure _⟩ (by omega)
    · rw [if_neg long, always_emit_bind]
      by_cases wraps : (readEndian16 data 4).toNat < 8
      · refine iff_of_false ?_ (by omega)
        rintro ⟨-, difference, -⟩
        change 8 ≤ (readEndian16 data 4).toNat at difference
        omega
      · refine iff_of_true ⟨by change 0 + 8 ≤ _; omega, by change 8 ≤ _; omega, ?_⟩ (by omega)
        split
        · exact always_pure _
        · rw [always_emit_bind, always_emit_bind]
          refine ⟨?_, ?_, always_pure _⟩
          · change (_ : Nat) < 65536
            omega
          · change 8 + _ ≤ data.length
            omega

theorem icmp_safe (small : data.length ≤ 65536) :
    Traced.Always (Touch.Safe data.length) (se4ParseIpPacketICMPv4 data) ∧
      ∀ info, (se4ParseIpPacketICMPv4 data).flow = .next (some info) → info.type = 8 →
        8 + info.echoDataSize ≤ data.length := by
  unfold se4ParseIpPacketICMPv4
  by_cases short : data.length < 4
  · rw [if_pos short]
    refine ⟨always_pure _, ?_⟩
    intro info parsed
    cases parsed
  · rw [if_neg short, always_emit_bind, always_emit_bind, always_emit_bind]
    simp only [Traced.emit_bind]
    by_cases mismatch : se4IpChecksum ((data.set 2 0).set 3 0) ≠
        (data.getD 3 0).toUInt16 <<< 8 ||| (data.getD 2 0).toUInt16
    · rw [if_pos mismatch]
      refine ⟨⟨by change 0 + 4 ≤ _; omega, by change 4 ≤ _; omega, by change 0 + _ ≤ _; omega,
        always_pure _⟩, ?_⟩
      intro info parsed
      cases parsed
    · rw [if_neg mismatch]
      by_cases echo : data.getD 0 0 = 8 ∨ data.getD 0 0 = 0
      · rw [if_pos echo]
        by_cases cut : (data.length - 4) % 65536 < 4
        · rw [if_pos cut]
          refine ⟨⟨by change 0 + 4 ≤ _; omega, by change 4 ≤ _; omega, by change 0 + _ ≤ _; omega, ?_⟩, ?_⟩
          · rintro touch (_ | ⟨_, _ | ⟨_, none⟩⟩)
            · change (_ : Nat) < 65536
              omega
            · change 4 + _ ≤ _
              omega
            · cases none
          · intro info parsed
            cases parsed
        · rw [if_neg cut]
          refine ⟨⟨by change 0 + 4 ≤ _; omega, by change 4 ≤ _; omega, by change 0 + _ ≤ _; omega, ?_⟩, ?_⟩
          · intro touch member
            simp only [trace_pure, mem_cons, not_mem_nil, or_false] at member
            rcases member with rfl | rfl | rfl | rfl | rfl
            · change (_ : Nat) < 65536
              omega
            · change 4 + _ ≤ _
              omega
            · change 4 + 4 ≤ _
              omega
            · change 4 ≤ _
              omega
            · change 8 + _ ≤ _
              omega
          · intro info parsed _
            simp only [flow_pure, Traced.Flow.next.injEq, some.injEq] at parsed
            rw [← parsed]
            simp only
            omega
      · rw [if_neg echo]
        refine ⟨⟨by change 0 + 4 ≤ _; omega, by change 4 ≤ _; omega, by change 0 + _ ≤ _; omega, ?_⟩, ?_⟩
        · intro touch member
          simp only [trace_pure, mem_cons, not_mem_nil, or_false] at member
          rcases member with rfl | rfl
          · change (_ : Nat) < 65536
            omega
          · change 4 + _ ≤ _
            omega
        · intro info parsed request
          simp only [flow_pure, Traced.Flow.next.injEq, some.injEq] at parsed
          rw [← parsed] at request
          exact absurd (.inl request) echo

theorem recvIpComplete_safe_iff (small : d.data.length ≤ 65536) :
    Traced.Always (Touch.Safe d.data.length) (recvIpComplete host d) ↔ ¬ShortUdp d := by
  have whole : Touch.Safe d.data.length (.slice 0 d.data.length) := by
    change 0 + _ ≤ _
    omega
  unfold recvIpComplete ShortUdp
  by_cases isIcmp : d.protocol = 0x01
  · rw [if_pos isIcmp, always_bind]
    obtain ⟨safe, echo⟩ := icmp_safe small
    refine iff_of_true ⟨safe, ?_⟩ ?_
    · intro icmp parsed
      cases icmp with
      | none => exact always_pure _
      | some info =>
        unfold recvIcmp
        rw [Traced.always_log_bind, always_emit]
        refine ⟨?_, whole⟩
        intro touch member
        split at member
        · rename_i request
          rw [mem_singleton.mp member]
          exact echo info parsed request.2
        · cases member
    · rintro ⟨isUdp, -⟩
      rw [isIcmp] at isUdp
      cases isUdp
  · rw [if_neg isIcmp]
    by_cases isUdp : d.protocol = 0x11
    · rw [if_pos isUdp, always_bind, udp_safe_iff]
      constructor
      · rintro ⟨safe, -⟩ ⟨-, short⟩
        exact safe short
      · intro long
        refine ⟨fun short => long ⟨isUdp, short⟩, ?_⟩
        intro parsed _
        split
        · rw [always_emit]
          exact whole
        · exact always_pure _
    · rw [if_neg isUdp, always_emit]
      exact iff_of_true whole fun short => isUdp short.1

theorem receivePacket_sizes {memory : Nat → UInt8} {tick : UInt64} {p p' : Receiver} {buf : List UInt8}
    {isBroadcast : Bool} {ds : List Datagram} (counted : Counted p.ipCombineList p.currentIpQuota)
    (receives : receivePacket memory tick p buf isBroadcast = some (p', ds)) : ∀ d ∈ ds, d.data.length ≤ 65536 := by
  have complete : ∀ {src dest id protocol ttl broadcast data}, data.length ≤ 65536 →
      ∀ d ∈ se4RecvIpComplete src dest id protocol ttl broadcast data, d.data.length ≤ 65536 := by
    intro src dest id protocol ttl broadcast data small d member
    unfold se4RecvIpComplete at member
    split at member
    · cases member
    · rw [mem_singleton.mp member]
      exact small
  have entry : ∀ {q : Receiver} {front c back}, Buffered c.combine →
      accepted buf → se4CombineEntry tick q front c back (receivedOf buf).offset (receivedOf buf).data
        (receivedOf buf).last = some (p', ds) → ∀ d ∈ ds, d.data.length ≤ 65536 := by
    intro q front c back buffered accepts combines
    obtain ⟨some', low, short⟩ := receivedOf_bounds accepts
    obtain ⟨c', out, result, buffered', -⟩ := combineIp_result buffered some' low short
    unfold se4CombineEntry at combines
    rw [result] at combines
    cases out with
    | none =>
      simp only [some.injEq, Prod.mk.injEq] at combines
      rw [← combines.2]
      simp
    | some out =>
      simp only [some.injEq, Prod.mk.injEq] at combines
      rw [← combines.2]
      apply complete
      rcases Ip6.combineIp_cases result with ⟨-, none⟩ | ⟨-, -, outs⟩
      · cases none
      · obtain ⟨-, bytes⟩ := outs out rfl
        have held := buffered'.held
        have buffer := buffered'.buffer
        unfold IsBuffer at buffer
        rw [bytes, length_map, length_range]
        omega
  by_cases accepts : accepted buf
  · by_cases parts : fragmented buf
    · rw [receivePacket_fragment accepts parts] at receives
      cases found : Searches.locate (Combine.isFor (keyOf buf)) p.ipCombineList with
      | some result =>
        obtain ⟨front, c, back⟩ := result
        rw [found] at receives
        have listed : c ∈ p.ipCombineList := by
          rw [(Searches.locate_some found).1]
          simp
        exact entry (counted.buffered c listed) accepts receives
      | none =>
        rw [found] at receives
        unfold se4InsertIpCombine at receives
        by_cases full : p.currentIpQuota + seIpCombineInitialBufSize > seIpv4CombineQueueSizeQuota
        · rw [if_pos full] at receives
          cases receives
          simp
        · rw [if_neg full] at receives
          refine entry ?_ accepts receives
          exact newIpCombine_buffered memory
    · rw [receivePacket_complete accepts parts] at receives
      simp only [some.injEq, Prod.mk.injEq] at receives
      rw [← receives.2]
      apply complete
      have total := (readHeader buf).totalLength.toNat_lt
      unfold payloadOf
      rw [length_take]
      omega
  · rw [receivePacket_ignores accepts] at receives
    cases receives
    simp

theorem completed_sizes {memory : Nat → UInt8} {tick : UInt64} {p : Receiver}
    (counted : Counted p.ipCombineList p.currentIpQuota) :
    ∀ d ∈ completed host memory tick p frame, d.data.length ≤ 65536 := by
  intro d member
  unfold completed at member
  split at member
  · rename_i isBroadcast _
    cases receives : receivePacket memory tick p (layer3 frame) isBroadcast with
    | none => simp [receives] at member
    | some result =>
      obtain ⟨p', ds⟩ := result
      rw [receives] at member
      exact receivePacket_sizes counted receives d member
  · cases member

end DisasVisor.Vpn.Ip4
