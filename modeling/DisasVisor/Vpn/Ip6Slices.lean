import DisasVisor.Vpn.Ip4Slices

/-!
What IPv6 touches of a frame and of the datagrams that are complete with it. Only the length in a UDP
header can lead out of a datagram, and here it does so when it is too large.
-/

namespace DisasVisor.Vpn.Ip6

open Reassembly Slices List
open Traced (always_bind always_pure always_emit_bind emit_bind flow_pure always_emit)

/-- What is used of `SE_IPV6`: the addresses of the host, and whether it answers a neighbor
solicitation. -/
structure Host where
  myMacAddress : List UInt8
  localIpAddress : Addr
  globalIpAddress : Addr
  useRawIp : Bool
  answers : Datagram → Bool

variable {host : Host} {frame data : List UInt8} {d : Datagram} {fuel start length : Nat}

def recvIpTouches (host : Host) (frame : List UInt8) : Traced Touch Unit := do
  Traced.emit (.read 14 40)
  Traced.log (if host.useRawIp then [.subtract frame.length 14, .slice 14 (frame.length - 14)] else [])

def se6RecvEthPacket (host : Host) (frame : List UInt8) : Traced Touch (Option PacketInfo) := do
  let pkt ← seParsePacket frame
  match pkt with
  | none => pure none
  | some (typeL3, _) =>
    if (frame.drop 6).take 6 = host.myMacAddress then pure none
    else
      match typeL3 with
      | .ipv6 info => do
          recvIpTouches host frame
          pure (some info)
      | _ => pure none

def completed (host : Host) (memory : Nat → UInt8) (p : Receiver) (frame : List UInt8) : List Datagram :=
  match (se6RecvEthPacket host frame).flow with
  | .next (some info) => ((se6RecvIp memory p info).map Prod.snd).getD []
  | _ => []

def se6CalcChecksum (srcIp destIp : Addr) (protocol : UInt8) (data : List UInt8) : UInt16 :=
  Ip4.se4IpChecksum (List.ofFn srcIp ++ List.ofFn destIp ++ endian32 (UInt32.ofNat data.length) ++
    [0, 0, 0, protocol] ++ data)

/-- `Se6ParseIpPacketUDPv6`; `behind` is the memory behind the datagram. -/
def se6ParseIpPacketUDPv6 (behind : Nat → UInt8) (d : Datagram) : Traced Touch Bool :=
  if d.data.length < 8 then pure false
  else do
    Traced.emit (.read 0 8)
    let packetLength := (readEndian16 d.data 4).toNat
    if packetLength < d.data.length then pure false
    else do
      let udp := (d.data.set 6 0).set 7 0 ++ (List.range (packetLength - d.data.length)).map behind
      Traced.emit (.slice 0 packetLength)
      let checksumCalc := se6CalcChecksum d.srcIp d.destIp d.protocol udp
      let checksumOriginal := (d.data.getD 7 0).toUInt16 <<< 8 ||| (d.data.getD 6 0).toUInt16
      if checksumOriginal ≠ (if checksumCalc = 0 then 0xffff else checksumCalc) then pure false
      else do
        Traced.emit (.subtract packetLength 8)
        if readEndian16 d.data 2 = 0 then pure false
        else do
          Traced.emit (.narrow (packetLength - 8))
          Traced.emit (.slice 8 (packetLength - 8))
          pure true

/-- `SeParseICMPv6Options`, with the place of the source link layer option. An option of length 0 is
looked at again and again. -/
def seParseICMPv6Options : Nat → Option Nat → Nat → List UInt8 → Traced Touch (Option (Option Nat))
  | 0, _, _, _ => Traced.fault
  | fuel + 1, sourceLinkLayer, start, buf =>
    if buf.length < 2 then pure (some sourceLinkLayer)
    else do
      Traced.emit (.read start 2)
      let type := buf.getD 0 0
      let headerTotalSize := (buf.getD 1 0).toNat * 8
      if buf.length < headerTotalSize then pure (some sourceLinkLayer)
      else do
        Traced.emit (.subtract buf.length headerTotalSize)
        if type = 1 ∨ type = 2 then
          if headerTotalSize ≥ 8 then do
            Traced.emit (.slice start 8)
            seParseICMPv6Options fuel (if type = 1 then some start else sourceLinkLayer)
              (start + headerTotalSize) (buf.drop headerTotalSize)
          else pure none
        else do
          Traced.log
            (if type = 3 ∧ headerTotalSize ≥ 32 then [.slice start 32]
            else if type = 5 ∧ headerTotalSize ≥ 8 then [.slice start 8] else [])
          seParseICMPv6Options fuel sourceLinkLayer (start + headerTotalSize) (buf.drop headerTotalSize)

structure IcmpInfo where
  type : UInt8
  echoDataSize : Nat
  sourceLinkLayer : Option Nat

def icmpWithOptions (fuel : Nat) (data : List UInt8) (dataSize headerSize : Nat) : Traced Touch (Option IcmpInfo) :=
  if dataSize < headerSize then pure none
  else do
    Traced.emit (.slice 4 headerSize)
    Traced.emit (.subtract dataSize headerSize)
    let options ← seParseICMPv6Options fuel none (4 + headerSize)
      ((data.drop (4 + headerSize)).take (dataSize - headerSize))
    pure (options.map fun sourceLinkLayer => ⟨data.getD 0 0, 0, sourceLinkLayer⟩)

def icmpByType (fuel : Nat) (data : List UInt8) (dataSize : Nat) : Traced Touch (Option IcmpInfo) :=
  let type := data.getD 0 0
  if type = 128 ∨ type = 129 then
    if dataSize < 4 then pure none
    else do
      Traced.emit (.read 4 4)
      Traced.emit (.subtract dataSize 4)
      Traced.emit (.slice 8 (dataSize - 4))
      pure (some ⟨type, dataSize - 4, none⟩)
  else if type = 133 then icmpWithOptions fuel data dataSize 4
  else if type = 134 then icmpWithOptions fuel data dataSize 12
  else if type = 135 then icmpWithOptions fuel data dataSize 20
  else if type = 136 then icmpWithOptions fuel data dataSize 20
  else pure (some ⟨type, 0, none⟩)

def se6ParseIpPacketICMPv6 (fuel : Nat) (d : Datagram) : Traced Touch (Option IcmpInfo) :=
  if d.data.length < 4 then pure none
  else do
    Traced.emit (.read 0 4)
    Traced.emit (.subtract d.data.length 4)
    Traced.emit (.slice 0 d.data.length)
    let checksumOriginal := (d.data.getD 3 0).toUInt16 <<< 8 ||| (d.data.getD 2 0).toUInt16
    if se6CalcChecksum d.srcIp d.destIp d.protocol ((d.data.set 2 0).set 3 0) ≠ checksumOriginal then
      pure none
    else do
      let dataSize := (d.data.length - 4) % 65536
      Traced.emit (.narrow (d.data.length - 4))
      Traced.emit (.slice 4 dataSize)
      icmpByType fuel d.data dataSize

def unicastForMe (host : Host) (destIp : Addr) : Bool :=
  destIp 0 ≠ 0xff ∧ (destIp = host.localIpAddress ∨ destIp = host.globalIpAddress)

def recvIcmp (host : Host) (d : Datagram) (info : IcmpInfo) : Traced Touch Unit := do
  Traced.log (if unicastForMe host d.destIp ∧ info.type = 128 then [.slice 8 info.echoDataSize] else [])
  Traced.log
    (match info.sourceLinkLayer with
    | none => []
    | some start =>
      if info.type = 135 ∧ d.hopLimit = 255 then
        .read 8 16 :: if host.answers d then [.read (start + 2) 6] else []
      else [])
  Traced.emit (.slice 0 d.data.length)

def recvIpComplete (behind : Nat → UInt8) (fuel : Nat) (host : Host) (d : Datagram) : Traced Touch Unit :=
  if d.protocol = 0x3a then do
    let icmp ← se6ParseIpPacketICMPv6 fuel d
    match icmp with
    | none => pure ()
    | some info => recvIcmp host d info
  else if d.protocol = 0x11 then do
    let parsed ← se6ParseIpPacketUDPv6 behind d
    if parsed then Traced.emit (.slice 0 d.data.length) else pure ()
  else Traced.emit (.slice 0 d.data.length)

def LongUdp (d : Datagram) : Prop :=
  d.protocol = 0x11 ∧ 8 ≤ d.data.length ∧ d.data.length < (readEndian16 d.data 4).toNat

theorem se6RecvEthPacket_safe (host : Host) (frame : List UInt8) :
    Traced.Always (Touch.Safe frame.length) (se6RecvEthPacket host frame) := by
  have length := @layer3_length frame
  unfold se6RecvEthPacket
  rw [always_bind]
  refine ⟨seParsePacket_safe frame, ?_⟩
  rintro pkt parsed
  split
  · exact always_pure _
  · obtain ⟨isL2, -⟩ := Ip4.seParsePacket_next parsed
    split
    · exact always_pure _
    · split
      · obtain ⟨least, -⟩ := seParsePacketL2_parsed isL2
        rw [always_bind]
        refine ⟨?_, fun _ _ => always_pure _⟩
        unfold recvIpTouches
        rw [always_emit_bind]
        refine ⟨by change 14 + 40 ≤ frame.length; omega, ?_⟩
        intro touch member
        rw [Traced.trace_log] at member
        split at member
        · rcases mem_cons.mp member with rfl | last
          · change 14 ≤ frame.length
            omega
          · rw [mem_singleton.mp last]
            change 14 + (frame.length - 14) ≤ frame.length
            omega
        · cases member
      · exact always_pure _

theorem udp_safe_iff {behind : Nat → UInt8} :
    Traced.Always (Touch.Safe d.data.length) (se6ParseIpPacketUDPv6 behind d) ↔
      ¬(8 ≤ d.data.length ∧ d.data.length < (readEndian16 d.data 4).toNat) := by
  have small := (readEndian16 d.data 4).toNat_lt
  unfold se6ParseIpPacketUDPv6
  by_cases short : d.data.length < 8
  · rw [if_pos short]
    exact iff_of_true (always_pure _) (by omega)
  · rw [if_neg short, always_emit_bind]
    have header : Touch.Safe d.data.length (.read 0 8) := by
      change 0 + 8 ≤ _
      omega
    dsimp only
    by_cases cut : (readEndian16 d.data 4).toNat < d.data.length
    · rw [if_pos cut]
      exact iff_of_true ⟨header, always_pure _⟩ (by omega)
    · rw [if_neg cut, always_emit_bind]
      by_cases long : d.data.length < (readEndian16 d.data 4).toNat
      · refine iff_of_false ?_ (by omega)
        rintro ⟨-, summed, -⟩
        change 0 + (readEndian16 d.data 4).toNat ≤ d.data.length at summed
        omega
      · refine iff_of_true ⟨header, by change 0 + _ ≤ d.data.length; omega, ?_⟩ (by omega)
        generalize (if se6CalcChecksum _ _ _ _ = 0 then (0xffff : UInt16) else _) = checksumCalc
        split
        · exact always_pure _
        · rw [always_emit_bind]
          refine ⟨by change 8 ≤ _; omega, ?_⟩
          split
          · exact always_pure _
          · rw [always_emit_bind, always_emit_bind]
            refine ⟨?_, ?_, always_pure _⟩
            · change (_ : Nat) < 65536
              omega
            · change 8 + _ ≤ d.data.length
              omega

theorem options_safe {sourceLinkLayer : Option Nat} {buf : List UInt8} (place : start + buf.length ≤ length)
    (known : ∀ at', sourceLinkLayer = some at' → at' + 8 ≤ length) :
    Traced.Always (Touch.Safe length) (seParseICMPv6Options fuel sourceLinkLayer start buf) ∧
      ∀ at', (seParseICMPv6Options fuel sourceLinkLayer start buf).flow = .next (some (some at')) →
        at' + 8 ≤ length := by
  induction fuel generalizing sourceLinkLayer start buf with
  | zero => exact ⟨Traced.always_fault, fun at' parsed => by cases parsed⟩
  | succ fuel ih =>
    have ends : ∀ at', (pure (some sourceLinkLayer) : Traced Touch (Option (Option Nat))).flow =
        .next (some (some at')) → at' + 8 ≤ length := by
      intro at' parsed
      cases parsed
      exact known at' rfl
    have behind : ∀ size, size ≤ buf.length → start + size + (buf.drop size).length ≤ length := by
      intro size le
      rw [length_drop]
      omega
    unfold seParseICMPv6Options
    by_cases short : buf.length < 2
    · rw [if_pos short]
      exact ⟨always_pure _, ends⟩
    · rw [if_neg short, always_emit_bind]
      have first : Touch.Safe length (.read start 2) := by
        change start + 2 ≤ length
        omega
      simp only [emit_bind]
      by_cases cut : buf.length < (buf.getD 1 0).toNat * 8
      · rw [if_pos cut]
        exact ⟨⟨first, always_pure _⟩, ends⟩
      · rw [if_neg cut]
        have left : Touch.Safe length (.subtract buf.length ((buf.getD 1 0).toNat * 8)) := by
          change _ ≤ buf.length
          omega
        by_cases isLink : buf.getD 0 0 = 1 ∨ buf.getD 0 0 = 2
        · rw [if_pos isLink]
          by_cases enough : (buf.getD 1 0).toNat * 8 ≥ 8
          · rw [if_pos enough]
            have here : start + 8 ≤ length := by omega
            obtain ⟨safe, result⟩ := @ih (start + (buf.getD 1 0).toNat * 8)
              (if buf.getD 0 0 = 1 then some start else sourceLinkLayer)
              (buf.drop ((buf.getD 1 0).toNat * 8)) (behind _ (by omega)) (by
                intro at' is
                split at is
                · cases is
                  exact here
                · exact known at' is)
            refine ⟨⟨first, ?_⟩, result⟩
            intro touch member
            rcases mem_cons.mp member with rfl | member
            · exact left
            · rcases mem_cons.mp member with rfl | later
              · exact here
              · exact safe touch later
          · rw [if_neg enough]
            refine ⟨⟨first, ?_⟩, fun at' parsed => by cases parsed⟩
            intro touch member
            rw [mem_singleton.mp member]
            exact left
        · rw [if_neg isLink, Traced.log_bind]
          obtain ⟨safe, result⟩ := @ih (start + (buf.getD 1 0).toNat * 8) sourceLinkLayer
            (buf.drop ((buf.getD 1 0).toNat * 8)) (behind _ (by omega)) known
          refine ⟨⟨first, ?_⟩, result⟩
          intro touch member
          rcases mem_cons.mp member with rfl | member
          · exact left
          · rcases mem_append.mp member with pointer | later
            · split at pointer
              · rw [mem_singleton.mp pointer]
                change start + 32 ≤ length
                omega
              · split at pointer
                · rw [mem_singleton.mp pointer]
                  change start + 8 ≤ length
                  omega
                · cases pointer
            · exact safe touch later

theorem icmpWithOptions_safe {dataSize headerSize : Nat} (inside : 4 + dataSize ≤ data.length) :
    Traced.Always (Touch.Safe data.length) (icmpWithOptions fuel data dataSize headerSize) ∧
      ∀ info, (icmpWithOptions fuel data dataSize headerSize).flow = .next (some info) →
        info.type = data.getD 0 0 ∧ 4 + headerSize ≤ data.length ∧
          ∀ at', info.sourceLinkLayer = some at' → at' + 8 ≤ data.length := by
  unfold icmpWithOptions
  by_cases short : dataSize < headerSize
  · rw [if_pos short]
    exact ⟨always_pure _, fun info parsed => by cases parsed⟩
  · rw [if_neg short]
    obtain ⟨safe, result⟩ := @options_safe fuel (4 + headerSize) data.length none
      ((data.drop (4 + headerSize)).take (dataSize - headerSize))
      (by rw [length_take, length_drop]; omega) (by simp)
    constructor
    · rw [always_emit_bind, always_emit_bind, always_bind]
      refine ⟨?_, ?_, safe, fun _ _ => always_pure _⟩
      · change 4 + headerSize ≤ data.length
        omega
      · change headerSize ≤ dataSize
        omega
    · intro info parsed
      rw [emit_bind] at parsed
      simp only [emit_bind, Traced.flow_bind_next] at parsed
      obtain ⟨options, isOptions, isInfo⟩ := parsed
      cases options with
      | none => simp at isInfo
      | some link =>
        simp only [Option.map_some, flow_pure, Traced.Flow.next.injEq, Option.some.injEq] at isInfo
        rw [← isInfo]
        refine ⟨rfl, by omega, ?_⟩
        intro at' is
        simp only at is
        exact result at' (by rw [isOptions, is])

structure Parsed (data : List UInt8) (info : IcmpInfo) : Prop where
  echo : info.type = 128 → 8 + info.echoDataSize ≤ data.length
  solicitation : info.type = 135 → 24 ≤ data.length
  link : ∀ at', info.sourceLinkLayer = some at' → at' + 8 ≤ data.length

theorem icmpByType_safe {dataSize : Nat} (inside : 4 + dataSize ≤ data.length) :
    Traced.Always (Touch.Safe data.length) (icmpByType fuel data dataSize) ∧
      ∀ info, (icmpByType fuel data dataSize).flow = .next (some info) → Parsed data info := by
  have options : ∀ headerSize, (data.getD 0 0 = 135 → 20 ≤ headerSize) → data.getD 0 0 ≠ 128 →
      Traced.Always (Touch.Safe data.length) (icmpWithOptions fuel data dataSize headerSize) ∧
      ∀ info, (icmpWithOptions fuel data dataSize headerSize).flow = .next (some info) → Parsed data info := by
    intro headerSize large notEcho
    obtain ⟨safe, result⟩ := @icmpWithOptions_safe data fuel dataSize headerSize inside
    refine ⟨safe, ?_⟩
    intro info parsed
    obtain ⟨isType, within, link⟩ := result info parsed
    refine ⟨?_, ?_, link⟩
    · intro isEcho
      exact absurd (isType.symm.trans isEcho) notEcho
    · intro isSolicitation
      have least := large (isType.symm.trans isSolicitation)
      omega
  unfold icmpByType
  dsimp only
  by_cases echo : data.getD 0 0 = 128 ∨ data.getD 0 0 = 129
  · rw [if_pos echo]
    by_cases cut : dataSize < 4
    · rw [if_pos cut]
      exact ⟨always_pure _, fun info parsed => by cases parsed⟩
    · rw [if_neg cut]
      constructor
      · rw [always_emit_bind, always_emit_bind, always_emit_bind]
        refine ⟨?_, ?_, ?_, always_pure _⟩
        · change 4 + 4 ≤ data.length
          omega
        · change 4 ≤ dataSize
          omega
        · change 8 + (dataSize - 4) ≤ data.length
          omega
      · intro info parsed
        simp only [emit_bind, flow_pure, Traced.Flow.next.injEq, Option.some.injEq] at parsed
        rw [← parsed]
        refine ⟨fun _ => by simp only; omega, ?_, by simp⟩
        intro isSolicitation
        simp only at isSolicitation
        rw [isSolicitation] at echo
        exact absurd echo (by decide)
  · rw [if_neg echo]
    have notEcho : data.getD 0 0 ≠ 128 := fun is => echo (.inl is)
    by_cases first : data.getD 0 0 = 133
    · rw [if_pos first]
      exact options 4 (by rw [first]; decide) notEcho
    · rw [if_neg first]
      by_cases second : data.getD 0 0 = 134
      · rw [if_pos second]
        exact options 12 (by rw [second]; decide) notEcho
      · rw [if_neg second]
        by_cases third : data.getD 0 0 = 135
        · rw [if_pos third]
          exact options 20 (fun _ => Nat.le_refl _) notEcho
        · rw [if_neg third]
          split
          · exact options 20 (fun _ => Nat.le_refl _) notEcho
          · refine ⟨always_pure _, ?_⟩
            intro info parsed
            simp only [flow_pure, Traced.Flow.next.injEq, Option.some.injEq] at parsed
            rw [← parsed]
            exact ⟨fun is => absurd is notEcho, fun is => absurd is third, by simp⟩

theorem icmp_safe (small : d.data.length ≤ 65536) :
    Traced.Always (Touch.Safe d.data.length) (se6ParseIpPacketICMPv6 fuel d) ∧
      ∀ info, (se6ParseIpPacketICMPv6 fuel d).flow = .next (some info) → Parsed d.data info := by
  unfold se6ParseIpPacketICMPv6
  by_cases short : d.data.length < 4
  · rw [if_pos short]
    exact ⟨always_pure _, fun info parsed => by cases parsed⟩
  · rw [if_neg short]
    dsimp only
    obtain ⟨safe, parses⟩ := @icmpByType_safe d.data fuel ((d.data.length - 4) % 65536) (by omega)
    constructor
    · rw [always_emit_bind, always_emit_bind, always_emit_bind]
      refine ⟨by change 0 + 4 ≤ _; omega, by change 4 ≤ _; omega, by change 0 + _ ≤ _; omega, ?_⟩
      split
      · exact always_pure _
      · rw [always_emit_bind, always_emit_bind]
        refine ⟨?_, ?_, safe⟩
        · change (_ : Nat) < 65536
          omega
        · change 4 + _ ≤ d.data.length
          omega
    · intro info parsed
      simp only [emit_bind] at parsed
      split at parsed
      · cases parsed
      · exact parses info parsed

theorem recvIpComplete_safe_iff {behind : Nat → UInt8} (small : d.data.length ≤ 65536) :
    Traced.Always (Touch.Safe d.data.length) (recvIpComplete behind fuel host d) ↔ ¬LongUdp d := by
  have whole : Touch.Safe d.data.length (.slice 0 d.data.length) := by
    change 0 + _ ≤ _
    omega
  unfold recvIpComplete LongUdp
  by_cases isIcmp : d.protocol = 0x3a
  · rw [if_pos isIcmp, always_bind]
    obtain ⟨safe, parses⟩ := @icmp_safe d fuel small
    refine iff_of_true ⟨safe, ?_⟩ ?_
    · intro icmp parsed
      cases icmp with
      | none => exact always_pure _
      | some info =>
        have isParsed := parses info parsed
        unfold recvIcmp
        rw [Traced.always_log_bind, Traced.always_log_bind, always_emit]
        refine ⟨?_, ?_, whole⟩
        · intro touch member
          split at member
          · rename_i request
            rw [mem_singleton.mp member]
            exact isParsed.echo request.2
          · cases member
        · intro touch member
          cases link : info.sourceLinkLayer with
          | none =>
            rw [link] at member
            cases member
          | some start =>
            have here := isParsed.link start link
            rw [link] at member
            simp only at member
            split at member
            · rename_i solicitation
              have least := isParsed.solicitation solicitation.1
              rcases mem_cons.mp member with rfl | answer
              · change 8 + 16 ≤ _
                omega
              · split at answer
                · rw [mem_singleton.mp answer]
                  change start + 2 + 6 ≤ _
                  omega
                · cases answer
            · cases member
    · rintro ⟨isUdp, -⟩
      rw [isIcmp] at isUdp
      cases isUdp
  · rw [if_neg isIcmp]
    by_cases isUdp : d.protocol = 0x11
    · rw [if_pos isUdp, always_bind, udp_safe_iff]
      constructor
      · rintro ⟨safe, -⟩ ⟨-, long⟩
        exact safe long
      · intro short
        refine ⟨fun long => short ⟨isUdp, long⟩, ?_⟩
        intro parsed _
        split
        · rw [always_emit]
          exact whole
        · exact always_pure _
    · rw [if_neg isUdp, always_emit]
      exact iff_of_true whole fun long => isUdp long.1

end DisasVisor.Vpn.Ip6
