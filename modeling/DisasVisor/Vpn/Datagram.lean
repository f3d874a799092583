import DisasVisor.Vpn.Message

/-!
What `vpn_callback_wrapper` does with one frame, in terms of the header fields
that it looks at.
-/

namespace DisasVisor.Vpn

def Frame.byte (packet : Frame) (index : Nat) : UInt8 := packet.mem.getD index 0

def Frame.field (packet : Frame) (index : Nat) : Nat :=
  256 * (packet.byte index).toNat + (packet.byte (index + 1)).toNat

def Frame.payload (packet : Frame) : List UInt8 := packet.mem.drop 42

def Frame.payloadLen (packet : Frame) : Nat := (packet.field 38 + 2 ^ 32 - 8) % 2 ^ 32 % 2 ^ 16

def Frame.Sized (packet : Frame) : Prop := packet.size < 14 ∨ 34 ≤ packet.size

def Frame.IsUdp (packet : Frame) : Prop := packet.byte 23 = 0x11 ∧ 28 ≤ packet.field 16

def Frame.Listens (packet : Frame) : Prop := packet.Sized ∧ packet.IsUdp ∧ packet.field 36 = disasvisorPort

theorem Frame.field_lt (packet : Frame) (index : Nat) : packet.field index < 2 ^ 16 := by
  have high := (packet.byte index).toNat_lt
  have low := (packet.byte (index + 1)).toNat_lt
  simp only [Frame.field]
  omega

theorem Frame.payloadLen_eq_zero_iff (packet : Frame) : packet.payloadLen = 0 ↔ packet.field 38 = 8 := by
  have bound := packet.field_lt 38
  simp only [Frame.payloadLen]
  omega

theorem ntohs_eq (low high : UInt8) : ntohs (low.toNat + 256 * high.toNat) = 256 * low.toNat + high.toNat := by
  have lowBound := low.toNat_lt
  have highBound := high.toNat_lt
  have lowPart : (low.toNat + 256 * high.toNat) &&& 0x00ff = low.toNat := by
    rw [show 0x00ff = 2 ^ 8 - 1 from rfl, Nat.and_two_pow_sub_one_eq_mod]
    omega
  have highPart : ((low.toNat + 256 * high.toNat) &&& 0xff00) >>> 8 = high.toNat := by
    rw [Nat.shiftRight_and_distrib, Nat.shiftRight_eq_div_pow,
      show 0xff00 >>> 8 = 2 ^ 8 - 1 from rfl, Nat.and_two_pow_sub_one_eq_mod]
    omega
  rw [ntohs, lowPart, highPart, ← Nat.shiftLeft_add_eq_or_of_lt highBound, Nat.shiftLeft_eq, Nat.mul_comm]

theorem readByte_inside (packet : Frame) (index : Nat) (inside : index < packet.mem.length) :
    readByte packet index = (do
      Traced.log [.read packet index]
      pure (packet.byte index)) := by
  have found : packet.mem[index]? = some packet.mem[index] := List.getElem?_eq_getElem inside
  have value : packet.byte index = packet.mem[index] := by
    rw [Frame.byte, List.getD_eq_getElem?_getD, found, Option.getD_some]
  rw [readByte, found, value]
  rfl

theorem readWord_inside (packet : Frame) (index : Nat) (inside : index + 1 < packet.mem.length) :
    readWord packet index = (do
      Traced.log [.read packet index, .read packet (index + 1)]
      pure ((packet.byte index).toNat + 256 * (packet.byte (index + 1)).toNat)) := by
  rw [readWord, readByte_inside packet index (by omega), readByte_inside packet (index + 1) inside]
  rfl

def headerReads (packet : Frame) : List Event :=
  [.read packet 16, .read packet 17, .read packet 36, .read packet 37, .read packet 23]

instance (packet : Frame) : Decidable packet.Sized := inferInstanceAs (Decidable (_ ∨ _))

instance (packet : Frame) : Decidable packet.IsUdp := inferInstanceAs (Decidable (_ ∧ _))

instance (packet : Frame) : Decidable packet.Listens := inferInstanceAs (Decidable (_ ∧ _))

theorem inspectPacket_eq (packet : Frame) :
    inspectPacket packet = (do
      Traced.log [.subtract packet.size 14]
      if packet.Sized then do
        Traced.log (headerReads packet)
        if packet.IsUdp then do
          Traced.log [.read packet 38, .read packet 39]
          if packet.field 36 = disasvisorPort then do
            Traced.log [.subtract (packet.field 38) 8]
            if packet.payloadLen = 0 then Traced.returned
            else
              Traced.call (handleDisasvisorMessage packet ⟨42, packet.payload⟩ packet.payloadLen)
          else pure ()
        else pure ()
      else pure ()) := by
  have mapped := packet.headersMapped
  have width := packet.sizeWidth
  have sized : ¬ (packet.size + 2 ^ 32 - 14) % 2 ^ 32 < 20 ↔ packet.Sized := by
    simp only [Frame.Sized]
    omega
  have cursor : packet.cursor (14 + 20 + 8) = ⟨42, packet.payload⟩ := rfl
  have field (index : Nat) : 256 * (packet.byte index).toNat + (packet.byte (index + 1)).toNat =
      packet.field index := rfl
  have payloadLen : (packet.field 38 + 2 ^ 32 - 8) % 2 ^ 32 % 2 ^ 16 = packet.payloadLen := rfl
  have emitted (event : Event) : Traced.emit event = Traced.log [event] := rfl
  simp only [inspectPacket, Nat.not_lt_zero, if_false, emitted]
  refine bind_congr fun _ => ?_
  by_cases fits : packet.Sized
  · rw [if_neg (sized.mpr fits), if_pos fits]
    rw [readWord_inside packet (14 + 2) (by omega), readWord_inside packet (14 + 20 + 2) (by omega),
      readWord_inside packet (14 + 20 + 4) (by omega), readByte_inside packet (14 + 9) (by omega)]
    simp only [bind_assoc, pure_bind, ntohs_eq, Traced.log_bind_log, cursor, field, Nat.reduceAdd, payloadLen]
    refine bind_congr fun _ => ?_
    by_cases udp : packet.byte 23 = 0x11
    · by_cases long : 28 ≤ packet.field 16
      · simp only [Nat.not_lt_of_ge long, udp, ne_eq, not_true_eq_false, if_false, Frame.IsUdp,
          long, and_self, if_true, Nat.le_zero_eq]
      · simp only [Nat.lt_of_not_ge long, udp, ne_eq, not_true_eq_false, if_false, if_true,
          Frame.IsUdp, long, and_false]
    · simp only [udp, ne_eq, not_false_eq_true, if_true, Frame.IsUdp, false_and, if_false]
  · rw [if_pos (by rwa [← sized, not_not] at fits), if_neg fits]

theorem always_inspectPacket {good : Event → Prop} (packet : Frame) :
    Traced.Always good (inspectPacket packet) ↔
      good (.subtract packet.size 14) ∧
      (packet.Sized → (∀ event ∈ headerReads packet, good event) ∧
        (packet.IsUdp → good (.read packet 38) ∧ good (.read packet 39) ∧
          (packet.field 36 = disasvisorPort → good (.subtract (packet.field 38) 8) ∧
            (packet.payloadLen ≠ 0 → Traced.Always good
              (handleDisasvisorMessage packet ⟨42, packet.payload⟩ packet.payloadLen))))) := by
  rw [inspectPacket_eq, Traced.always_log_bind, List.forall_mem_singleton]
  by_cases sized : packet.Sized
  · rw [if_pos sized, Traced.always_log_bind]
    simp only [sized, forall_const]
    by_cases udp : packet.IsUdp
    · rw [if_pos udp, Traced.always_log_bind]
      simp only [udp, forall_const, List.forall_mem_cons, List.not_mem_nil, false_implies,
        implies_true, and_true, and_assoc]
      by_cases port : packet.field 36 = disasvisorPort
      · rw [if_pos port, Traced.always_log_bind, List.forall_mem_singleton]
        simp only [port, forall_const]
        by_cases empty : packet.payloadLen = 0
        · simp [empty]
        · simp [empty]
      · simp [port]
    · simp [udp]
  · simp [sized]

theorem collect_inspectPacket {κ : Type} {pick : Event → Option κ} (packet : Frame)
    (reads : ∀ index, pick (.read packet index) = none)
    (subtracts : ∀ left right, pick (.subtract left right) = none) :
    (inspectPacket packet).collect pick =
      if packet.Listens ∧ packet.payloadLen ≠ 0 then
        (handleDisasvisorMessage packet ⟨42, packet.payload⟩ packet.payloadLen).collect pick
      else [] := by
  have header : (headerReads packet).filterMap pick = [] := by simp [headerReads, reads]
  rw [inspectPacket_eq, Traced.collect_log_bind]
  by_cases sized : packet.Sized
  · by_cases udp : packet.IsUdp
    · by_cases port : packet.field 36 = disasvisorPort
      · by_cases empty : packet.payloadLen = 0
        · simp [sized, udp, port, empty, Traced.collect_log_bind, header, reads, subtracts]
        · simp [sized, udp, port, empty, Traced.collect_log_bind, header, reads, subtracts, Frame.Listens]
      · simp [sized, udp, port, Traced.collect_log_bind, header, reads, subtracts, Frame.Listens]
    · simp [sized, udp, header, subtracts, Frame.Listens]
  · simp [sized, subtracts, Frame.Listens]

theorem passes_inspectPacket (packet : Frame) :
    (inspectPacket packet).Passes ↔
      ¬ (packet.Listens ∧ (packet.payloadLen = 0 ∨
        (handleDisasvisorMessage packet ⟨42, packet.payload⟩ packet.payloadLen).flow = .fault)) := by
  rw [inspectPacket_eq, Traced.passes_log_bind]
  by_cases sized : packet.Sized
  · by_cases udp : packet.IsUdp
    · by_cases port : packet.field 36 = disasvisorPort
      · by_cases empty : packet.payloadLen = 0
        · simp [sized, udp, port, empty, Frame.Listens]
        · simp [sized, udp, port, empty, Frame.Listens]
      · simp [sized, udp, port, Frame.Listens]
    · simp [sized, udp, Frame.Listens]
  · simp [sized, Frame.Listens]

def Overruns (header : Header) (info : List UInt8) (len : Nat) : Prop :=
  (decimal header.disasterType % 2 ^ 8 = 1 ∨ decimal header.disasterType % 2 ^ 8 = 2) ∧
  info.length < (len + 2 ^ 64 - header.bytes.length) % 2 ^ 64 % 2 ^ 32 ∧
  Vga.rowAfter ⟨0, 0⟩ info < Vga.maxNrowsInDialog

theorem fault_handleDisasvisorMessage (packet : Frame) (pos : Nat) (rest : List UInt8) (len : Nat) :
    (handleDisasvisorMessage packet ⟨pos, rest⟩ len).flow = .fault ↔
      10 ≤ len ∧ (HeaderUnfinished rest ∨
        ∃ header info, Announces rest header info ∧ Overruns header info len) := by
  have whole : rest.take (pos + rest.length - pos) = rest := by rw [Nat.add_sub_cancel_left, List.take_length]
  have bounds := readLimit_readsBelow packet (pos + rest.length)
  have displays (header : Header) (info : List UInt8) (announced : Announces rest header info) :
      Traced.Always (ReadsBelow (pos + rest.length))
        (displayWarning packet (announcement pos header info len)) ↔
        ¬ Overruns header info len := by
    have length := congrArg List.length announced.spelled
    rw [List.length_append] at length
    have behind : pos + rest.length - (pos + header.bytes.length) = info.length := by omega
    rw [always_displayWarning _ bounds (by simp only [announcement]; omega) (by simp only [announcement]; omega)]
    simp only [announcement, ReadsBelow, true_and, Overruns, behind, List.take_length]
    constructor
    · rintro displayed ⟨shown, short, room⟩
      rcases displayed shown with inside | full
      · omega
      · omega
    · intro runs shown
      by_contra outside
      exact runs ⟨shown, by omega, by omega⟩
  rw [(faultsOn_handleDisasvisorMessage pos rest len rfl).flow_eq_fault]
  simp only [not_not]
  rw [always_handleDisasvisorMessage bounds pos rest len (Nat.le_refl _), whole]
  simp only [ReadsBelow, true_and]
  by_cases long : 10 ≤ len
  · by_cases unfinished : HeaderUnfinished rest
    · simp [long, unfinished]
    · simp only [long, unfinished, not_false_eq_true, true_and, forall_const, false_or]
      constructor
      · intro fails
        by_contra none
        apply fails
        intro header info announced
        exact (displays header info announced).mpr fun runs =>
          none ⟨header, info, announced, runs⟩
      · rintro ⟨header, info, announced, runs⟩ all
        exact (displays header info announced).mp (all header info announced) runs
  · simp [long]

/-!
Frames that carry a message in a UDP datagram to the port, among them those of
the intermediate server.
-/

open MaximalRuns List

/-- An Ethernet frame with an IPv4 packet without options, in it a UDP datagram to the port, in
it the payload, with consistent lengths. -/
structure Carries (packet : Frame) (payload : List UInt8) : Prop where
  etherType : packet.field 12 = 0x0800
  versionAndHeaderLength : packet.byte 14 = 0x45
  totalLength : packet.field 16 = 28 + payload.length
  protocol : packet.byte 23 = 0x11
  port : packet.field 36 = disasvisorPort
  udpLength : packet.field 38 = 8 + payload.length
  fits : 42 + payload.length ≤ packet.size
  spelled : payload <+: packet.payload

def datagramHeaders (length : Nat) : List UInt8 :=
  List.replicate 12 0 ++
  [0x08, 0x00, 0x45, 0x00, UInt8.ofNat ((28 + length) / 256), UInt8.ofNat (28 + length), 0, 0, 0, 0,
    0x40, 0x11] ++ List.replicate 12 0 ++
  [0x68, 0x2a, UInt8.ofNat ((8 + length) / 256), UInt8.ofNat (8 + length), 0, 0]

def datagram (payload behind : List UInt8) (short : payload.length < 2 ^ 16 - 28) : Frame where
  mem := datagramHeaders payload.length ++ payload ++ behind
  size := 42 + payload.length
  sizeBound := by
    simp only [datagramHeaders, length_append, length_replicate, length_cons, length_nil]
    omega
  sizeWidth := by omega
  headersMapped := by
    simp only [datagramHeaders, length_append, length_replicate, length_cons, length_nil]
    omega

theorem field_ofNat (value : Nat) (bound : value < 2 ^ 16) :
    256 * (UInt8.ofNat (value / 256)).toNat + (UInt8.ofNat value).toNat = value := by
  rw [UInt8.toNat_ofNat', UInt8.toNat_ofNat']
  omega

theorem datagram_carries (payload behind : List UInt8) (short : payload.length < 2 ^ 16 - 28) :
    Carries (datagram payload behind short) payload where
  etherType := rfl
  versionAndHeaderLength := rfl
  totalLength := field_ofNat (28 + payload.length) (by omega)
  protocol := rfl
  port := rfl
  udpLength := field_ofNat (8 + payload.length) (by omega)
  fits := Nat.le_refl _
  spelled := by
    have headers : (datagramHeaders payload.length).length = 42 := rfl
    have payload' : (datagram payload behind short).payload = payload ++ behind := by
      change (datagramHeaders payload.length ++ payload ++ behind).drop 42 = payload ++ behind
      rw [append_assoc, drop_left' headers]
    rw [payload']
    exact prefix_append _ _

theorem warnings_vpnCallbackWrapper (packets : List Frame) :
    warnings (vpnCallbackWrapper packets) = (Traced.forEach inspectPacket packets).collect displayedWarning := by
  rw [warnings, vpnCallbackWrapper, Traced.collect_emit_bind]
  rfl

theorem warnings_single (packet : Frame) :
    warnings (vpnCallbackWrapper [packet]) = (inspectPacket packet).collect displayedWarning := by
  rw [warnings_vpnCallbackWrapper, Traced.collect_forEach_passes (by simp)]
  simp

section Carried

variable {packet : Frame} {payload : List UInt8}

theorem Carries.listens (carried : Carries packet payload) : packet.Listens := by
  have fits := carried.fits
  refine ⟨.inr (by omega), ⟨carried.protocol, ?_⟩, carried.port⟩
  rw [carried.totalLength]
  omega

theorem Carries.payloadLen (carried : Carries packet payload) : packet.payloadLen = payload.length := by
  have width := packet.field_lt 38
  have length := carried.udpLength
  simp only [Frame.payloadLen]
  omega

end Carried

structure Displayable (header : Header) (info : List UInt8) : Prop where
  nulFree : ∀ c ∈ header.bytes ++ info, c ≠ 0
  disasterType : decimal header.disasterType < 2 ^ 8
  offsetX : decimal header.offsetX < 2 ^ 32
  offsetY : decimal header.offsetY < 2 ^ 32
  nonempty : info ≠ []
  begins : Stops isDelimiter info

variable {header : Header} {info : List UInt8}

theorem Displayable.header_nulFree (displayable : Displayable header info) : header.NulFree := by
  intro c member
  apply displayable.nulFree c
  simp [Header.bytes, Header.runs, member]

theorem Displayable.announces (displayable : Displayable header info) (behind : List UInt8) :
    Announces (header.bytes ++ info ++ behind) header (info ++ behind) := by
  have begins := displayable.begins
  have nulFree := displayable.nulFree
  obtain ⟨first, rest, rfl⟩ := exists_cons_of_ne_nil displayable.nonempty
  rw [stops_cons] at begins
  refine ⟨displayable.header_nulFree, by simp, ?_, append_assoc _ _ _⟩
  intro c member
  rw [cons_append, List.head?_cons, Option.mem_def, Option.some.injEq] at member
  subst c
  exact ⟨nulFree first (by simp), begins⟩

def DisplaysOnly (packet : Frame) (disasterType x y : Nat) (info : List UInt8) : Prop :=
  ∃ warning, warnings (vpnCallbackWrapper [packet]) = [warning] ∧
    warning.disasterType = disasterType ∧ warning.x = x ∧ warning.y = y ∧
    warning.msgLen = info.length ∧ warning.text = info

theorem displaysOnly_of_carries {packet : Frame} (displayable : Displayable header info)
    (carried : Carries packet (header.bytes ++ info)) :
    DisplaysOnly packet (decimal header.disasterType) (decimal header.offsetX) (decimal header.offsetY) info := by
  obtain ⟨behind, spelled⟩ := carried.spelled
  have announced : Announces packet.payload header (info ++ behind) := by
    rw [← spelled]
    exact displayable.announces behind
  have length := carried.payloadLen
  have width := packet.field_lt 38
  have udpLength := carried.udpLength
  have long : 10 ≤ packet.payloadLen := by
    rw [length, Header.bytes, append_assoc, length_append, length_disasvisorKeyword]
    omega
  have msgLen : (announcement 42 header (info ++ behind) packet.payloadLen).msgLen = info.length := by
    simp only [length_append] at length udpLength
    simp only [announcement, length]
    omega
  refine ⟨announcement 42 header (info ++ behind) packet.payloadLen, ?_, ?_, ?_, ?_, msgLen, ?_⟩
  · rw [warnings_single, collect_inspectPacket packet (fun _ => rfl) (fun _ _ => rfl),
      if_pos ⟨carried.listens, by omega⟩, collect_handleDisasvisorMessage 42 _ long announced]
  · exact Nat.mod_eq_of_lt displayable.disasterType
  · exact Nat.mod_eq_of_lt displayable.offsetX
  · exact Nat.mod_eq_of_lt displayable.offsetY
  · rw [Warning.text, msgLen]
    simp [announcement]

/-- `'DISASVISOR 1.0 1 0080 0040     '` -/
def serverHeader : Header where
  d1 := [0x20]
  version := [0x31, 0x2e, 0x30]
  d2 := [0x20]
  disasterType := [0x31]
  d3 := [0x20]
  offsetX := [0x30, 0x30, 0x38, 0x30]
  d4 := [0x20]
  offsetY := [0x30, 0x30, 0x34, 0x30]
  d5 := [0x20, 0x20, 0x20, 0x20, 0x20]
  shape := by decide

def serverMessage (earthquakeInfo : List UInt8) : List UInt8 := serverHeader.bytes ++ earthquakeInfo

def Header.absorb (header : Header) (delimiters : List UInt8)
    (inside : ∀ c ∈ delimiters, isDelimiter c = true) : Header :=
  { header with
    d5 := header.d5 ++ delimiters
    shape := by
      have shape := header.shape
      simp only [RunsOf, List.forall₂_cons, List.Forall₂.nil, and_true] at shape ⊢
      obtain ⟨d1, version, d2, disasterType, d3, offsetX, d4, offsetY, nonempty, d5⟩ := shape
      refine ⟨d1, version, d2, disasterType, d3, offsetX, d4, offsetY, by simp [nonempty], ?_⟩
      intro c member
      exact (mem_append.mp member).elim (d5 c) (inside c) }

theorem Header.bytes_absorb (header : Header) (delimiters : List UInt8)
    (inside : ∀ c ∈ delimiters, isDelimiter c = true) :
    (header.absorb delimiters inside).bytes = header.bytes ++ delimiters := by
  simp [Header.bytes, Header.runs, Header.absorb]

theorem serverMessage_displayable {earthquakeInfo : List UInt8}
    (nulFree : ∀ c ∈ earthquakeInfo, c ≠ 0) (nonBlank : ∃ c ∈ earthquakeInfo, isDelimiter c = false) :
    ∃ header : Header, serverMessage earthquakeInfo = header.bytes ++ earthquakeInfo.dropWhile isDelimiter ∧
      Displayable header (earthquakeInfo.dropWhile isDelimiter) ∧
      decimal header.disasterType = 1 ∧ decimal header.offsetX = 80 ∧
      decimal header.offsetY = 40 := by
  have split : earthquakeInfo.takeWhile isDelimiter ++ earthquakeInfo.dropWhile isDelimiter =
      earthquakeInfo := takeWhile_append_dropWhile
  have inside (c : UInt8) (member : c ∈ earthquakeInfo.takeWhile isDelimiter) :
      isDelimiter c = true := mem_takeWhile_imp member
  have bytes := serverHeader.bytes_absorb (earthquakeInfo.takeWhile isDelimiter) inside
  have spelled : serverMessage earthquakeInfo =
      (serverHeader.absorb _ inside).bytes ++ earthquakeInfo.dropWhile isDelimiter := by
    rw [bytes, append_assoc, split, serverMessage]
  have noNul : ∀ c ∈ serverHeader.bytes, c ≠ 0 := forall_iff_forall_mem.mp (by decide)
  have disasterType : decimal serverHeader.disasterType < 2 ^ 8 := by decide
  have offsetX : decimal serverHeader.offsetX < 2 ^ 32 := by decide
  have offsetY : decimal serverHeader.offsetY < 2 ^ 32 := by decide
  refine ⟨serverHeader.absorb _ inside, spelled, ⟨?_, disasterType, offsetX, offsetY, ?_, ?_⟩, rfl,
    rfl, rfl⟩
  · rw [← spelled]
    intro c member
    rcases mem_append.mp member with header | text
    · exact noNul c header
    · exact nulFree c text
  · intro blank
    obtain ⟨c, member, outside⟩ := nonBlank
    rw [blank, append_nil] at split
    rw [← split] at member
    rw [inside c member] at outside
    exact Bool.noConfusion outside
  · intro c first
    have stopped := List.head?_dropWhile_not isDelimiter earthquakeInfo
    rw [Option.mem_def.mp first] at stopped
    exact stopped

/-- Every well-formed message that arrives in such a frame is displayed, whatever its delimiters
and leading zeros, and with it every message of the server that is not blank. -/
theorem messages_displayed :
    (∀ (packet : Frame) (header : Header) (info : List UInt8), Displayable header info →
      Carries packet (header.bytes ++ info) →
        DisplaysOnly packet (decimal header.disasterType) (decimal header.offsetX)
          (decimal header.offsetY) info) ∧
    (∀ (packet : Frame) (earthquakeInfo : List UInt8), (∀ c ∈ earthquakeInfo, c ≠ 0) →
      (∃ c ∈ earthquakeInfo, isDelimiter c = false) →
      Carries packet (serverMessage earthquakeInfo) →
        DisplaysOnly packet 1 80 40 (earthquakeInfo.dropWhile isDelimiter)) := by
  constructor
  · intro packet header info displayable carried
    exact displaysOnly_of_carries displayable carried
  · intro packet earthquakeInfo nulFree nonBlank carried
    obtain ⟨header, spelled, displayable, disasterType, offsetX, offsetY⟩ := serverMessage_displayable nulFree nonBlank
    rw [spelled] at carried
    have displayed := displaysOnly_of_carries displayable carried
    rwa [disasterType, offsetX, offsetY] at displayed

/-- `'DISASVISOR 1.0 1 0080 0040     ' + ' M 5\n'` -/
def sampleInfo : List UInt8 := [0x20, 0x4d, 0x20, 0x35, 0x0a]

theorem messages_displayed_sample :
    DisplaysOnly (datagram (serverMessage sampleInfo) [] (by decide)) 1 80 40
        [0x4d, 0x20, 0x35, 0x0a] ∧
      DisplaysOnly (datagram (shortestHeader.bytes ++ [0x4d]) [] (by decide)) 1 0 0 [0x4d] := by
  constructor
  · exact messages_displayed.2 _ sampleInfo (forall_iff_forall_mem.mp (by decide))
      ⟨0x4d, by decide, by decide⟩ (datagram_carries _ _ _)
  · have begins : Stops isDelimiter [0x4d] := by
      rw [stops_cons]
      decide
    have displayable : Displayable shortestHeader [0x4d] :=
      ⟨forall_iff_forall_mem.mp (by decide), by decide, by decide, by decide, by decide, begins⟩
    exact messages_displayed.1 _ shortestHeader _ displayable (datagram_carries _ _ _)

end DisasVisor.Vpn
