import DisasVisor.Vpn.Ip6Slices

/-!
The slices of received packets, over every frame and every state of the receivers: they are in what was
received unless a UDP packet says that it is shorter than its header, or with IPv6 that it is longer than
it is.
-/

namespace DisasVisor.Vpn.Ip6

open Reassembly Slices List

variable {host : Host} {memory : Nat → UInt8} {frame buf : List UInt8} {d : Datagram} {p p' : Receiver}
  {ds : List Datagram} {info parsed : PacketInfo} {c c' : IpCombine} {offset : UInt32}
  {data : List UInt8} {last : Bool} {out : Option (List UInt8)}

theorem combineIp_size {most : UInt32} (combines : combineIp most c offset data last = some (c', out))
    (small : c.size ≤ most) : c'.size ≤ most := by
  by_cases large : offset + data.length.toUInt32 > most
  · unfold combineIp at combines
    dsimp only at combines
    rw [if_pos large] at combines
    cases combines
    exact small
  · rcases combineIp_cases combines with ⟨rfl, -⟩ | ⟨-, size, -⟩
    · exact small
    · rw [size]
      split
      · exact UInt32.not_lt.mp large
      · exact small

def SmallSizes (p : Receiver) : Prop := ∀ e ∈ p.ipCombineList, e.combine.size ≤ seIp6MaxPayloadSize

inductive Reached : Receiver → Prop
  | idle : Reached Receiver.idle
  | receive {before after : Receiver} {memory : Nat → UInt8} {buf : List UInt8} {ds : List Datagram} :
      Reached before → receiveFrame memory before buf = some (after, ds) → Reached after
  | flush {before : Receiver} (keep : Combine → Bool) (quota : UInt32) : Reached before →
      Reached ⟨before.ipCombineList.filter keep, quota⟩

theorem combineEntry_sizes {front back : List Combine} {e : Combine} {given : Option (List UInt8)}
    (before : ∀ e' ∈ front ++ e :: back, e'.combine.size ≤ seIp6MaxPayloadSize)
    (combines : combineEntry p front e back offset given last = some (p', ds)) :
    SmallSizes p' ∧ ∀ d ∈ ds, d.data.length ≤ 65535 := by
  have others : ∀ e' ∈ front ++ back, e'.combine.size ≤ seIp6MaxPayloadSize := by
    intro e' member
    refine before e' ?_
    rcases mem_append.mp member with first | second
    · exact mem_append_left _ first
    · exact mem_append_right _ (mem_cons_of_mem _ second)
  have here := before e (by simp)
  unfold combineEntry at combines
  cases given with
  | none =>
    cases combines
    exact ⟨before, by simp⟩
  | some data =>
    dsimp only at combines
    cases result : se6CombineIp e.combine offset data last with
    | none => simp [result] at combines
    | some next =>
      obtain ⟨c', out⟩ := next
      have small := combineIp_size result here
      cases out with
      | none =>
        simp only [result] at combines
        cases combines
        refine ⟨?_, by simp⟩
        intro e' member
        simp only [mem_append, mem_cons] at member
        rcases member with first | rfl | later
        · exact others e' (mem_append_left _ first)
        · exact small
        · exact others e' (mem_append_right _ later)
      | some bytes =>
        simp only [result] at combines
        cases combines
        refine ⟨others, ?_⟩
        intro d member
        rcases combineIp_cases result with ⟨-, none⟩ | ⟨-, -, outs⟩
        · cases none
        · obtain ⟨-, isBytes⟩ := outs bytes rfl
          have most : seIp6MaxPayloadSize.toNat = 65535 := rfl
          have bound := UInt32.le_iff_toNat_le.mp small
          have length : bytes.length ≤ 65535 := by
            rw [isBytes, length_map, length_range]
            omega
          cases bytes with
          | nil => cases member
          | cons b bs =>
            rw [se6RecvIpComplete, mem_singleton] at member
            rw [member]
            exact length

theorem se6RecvIp_sizes {most : Nat} (small : SmallSizes p)
    (short : ∀ b, info.payload = some b → b.length ≤ most) (receives : se6RecvIp memory p info = some (p', ds)) :
    SmallSizes p' ∧ ∀ d ∈ ds, d.data.length ≤ max most 65535 := by
  have complete : ∀ d ∈ se6RecvIpComplete info.header.srcAddress info.header.destAddress 0 info.protocol
      info.header.hopLimit info.payload, d.data.length ≤ max most 65535 := by
    intro d member
    cases payload : info.payload with
    | none =>
      rw [payload] at member
      cases member
    | some b =>
      have bound := short b payload
      rw [payload] at member
      cases b with
      | nil => cases member
      | cons b bs =>
        rw [se6RecvIpComplete, mem_singleton] at member
        rw [member]
        exact Nat.le_trans bound (Nat.le_max_left _ _)
  unfold se6RecvIp at receives
  dsimp only at receives
  split at receives
  · cases receives
    exact ⟨small, complete⟩
  · split at receives
    · cases receives
      exact ⟨small, complete⟩
    · have entry : ∀ {q front e back offset last}, (∀ e' ∈ front ++ e :: back,
          e'.combine.size ≤ seIp6MaxPayloadSize) →
          combineEntry q front e back offset info.payload last = some (p', ds) →
            SmallSizes p' ∧ ∀ d ∈ ds, d.data.length ≤ max most 65535 := by
        intro q front e back offset last before combines
        obtain ⟨small', sizes⟩ := combineEntry_sizes before combines
        exact ⟨small', fun d member => Nat.le_trans (sizes d member) (Nat.le_max_right _ _)⟩
      split at receives
      · rename_i found
        refine entry ?_ receives
        rw [← (Searches.locate_some found).1]
        exact small
      · split at receives
        · cases receives
          exact ⟨small, by simp⟩
        · refine entry ?_ receives
          intro e member
          rcases mem_append.mp member with old | added
          · exact small e old
          · rw [mem_singleton.mp added]
            exact UInt32.le_iff_toNat_le.mpr (Nat.zero_le _)

theorem Reached.sizes (reached : Reached p) : SmallSizes p := by
  induction reached with
  | idle => simp [SmallSizes, Receiver.idle]
  | receive _ receives small =>
    unfold receiveFrame at receives
    split at receives
    · cases receives
      exact small
    · rename_i info _
      have bound : ∀ b, info.payload = some b → b.length ≤ (info.payload.getD []).length := by
        intro b is
        rw [is]
        exact Nat.le_refl _
      exact (se6RecvIp_sizes small bound receives).1
  | flush keep quota _ small => exact fun e member => small e (mem_filter.mp member).1

theorem parseExtHeader_length {fuel : Nat} {next next2 : UInt8}
    (parses : parseExtHeader fuel info next next2 buf = some parsed) :
    ∀ b, parsed.payload = some b → b.length ≤ buf.length := by
  induction fuel generalizing info next next2 buf with
  | zero => cases parses
  | succ fuel ih =>
    have dropped : ∀ size, (buf.drop size).length ≤ buf.length := by
      intro size
      rw [length_drop]
      omega
    unfold parseExtHeader at parses
    dsimp only at parses
    split at parses
    · split at parses
      · cases parses
      · split at parses
        · cases parses
        · exact fun b is => Nat.le_trans (ih parses b is) (dropped _)
    · split at parses
      · split at parses
        · cases parses
        · exact fun b is => Nat.le_trans (ih parses b is) (dropped _)
      · cases parses
        intro b is
        simp only at is
        split at is
        · cases is
          exact Nat.le_refl _
        · cases is

theorem parsePacket_length (parses : parsePacket buf = some info) :
    ∀ b, info.payload = some b → b.length ≤ buf.length := by
  unfold parsePacket at parses
  split at parses
  · cases parses
  · dsimp only at parses
    split at parses
    · cases parses
    · intro b is
      have bound := parseExtHeader_length parses b is
      rw [length_drop] at bound
      omega

theorem completed_sizes (reached : Reached p) : ∀ d ∈ completed host memory p frame, d.data.length ≤ 65536 := by
  intro d member
  unfold completed at member
  split at member
  · rename_i info received
    have parses : parsePacket (layer3 frame) = some info ∧ frame.length ≤ 1514 := by
      unfold se6RecvEthPacket at received
      rw [Traced.flow_bind_next] at received
      obtain ⟨pkt, isPacket, rest⟩ := received
      split at rest
      · cases rest
      · obtain ⟨isL2, short⟩ := Ip4.seParsePacket_next isPacket
        split at rest
        · cases rest
        · split at rest
          · rw [Traced.flow_bind_next] at rest
            obtain ⟨_, _, same⟩ := rest
            cases same
            exact ⟨(seParsePacketL2_parsed isL2).2, short⟩
          · cases rest
    have length := @layer3_length frame
    cases receives : se6RecvIp memory p info with
    | none => simp [receives] at member
    | some result =>
      obtain ⟨p', ds⟩ := result
      rw [receives] at member
      have short : ∀ b, info.payload = some b → b.length ≤ 1514 := by
        intro b is
        have bound := parsePacket_length parses.1 b is
        omega
      have bound := (se6RecvIp_sizes reached.sizes short receives).2 d member
      omega
  · cases member

end DisasVisor.Vpn.Ip6

namespace DisasVisor.Vpn.Slices

variable {tick : UInt64} {memory behind : Nat → UInt8} {fuel : Nat}

/-- With a frame that both hosts receive, everything that is touched is in the frame, or in the
datagrams that are complete with it. -/
structure AllSafe (host4 : Ip4.Host) (host6 : Ip6.Host) (tick : UInt64) (p4 : Ip4.Receiver)
    (p6 : Ip6.Receiver) (memory behind : Nat → UInt8) (fuel : Nat) (frame : List UInt8) : Prop where
  frame4 : Traced.Always (Touch.Safe frame.length) (Ip4.se4RecvEthPacket host4 frame)
  frame6 : Traced.Always (Touch.Safe frame.length) (Ip6.se6RecvEthPacket host6 frame)
  datagram4 : ∀ d ∈ Ip4.completed host4 memory tick p4 frame,
    Traced.Always (Touch.Safe d.data.length) (Ip4.recvIpComplete host4 d)
  datagram6 : ∀ d ∈ Ip6.completed host6 memory p6 frame,
    Traced.Always (Touch.Safe d.data.length) (Ip6.recvIpComplete behind fuel host6 d)

/-- In all states that the receivers come to, a frame is safe exactly when no datagram that is complete
with it is a UDP packet with a wrong length. -/
theorem received_slices_iff (host4 : Ip4.Host) (host6 : Ip6.Host) (start tick : UInt64)
    (events : List Ip4.Event) (s : Ip4.System) (p6 : Ip6.Receiver) (memory behind : Nat → UInt8)
    (fuel : Nat) (frame : List UInt8) (ran : Ip4.runAll events (Ip4.System.start start) = some s)
    (reached : Ip6.Reached p6) :
    AllSafe host4 host6 tick s.receiver p6 memory behind fuel frame ↔
      (∀ d ∈ Ip4.completed host4 memory tick s.receiver frame, ¬Ip4.ShortUdp d) ∧
        ∀ d ∈ Ip6.completed host6 memory p6 frame, ¬Ip6.LongUdp d := by
  obtain ⟨s', ran', counted, -⟩ := @Ip4.runAll_counted (Ip4.System.start start) events Ip4.idle_counted
  rw [ran, Option.some.injEq] at ran'
  subst ran'
  have safe4 : ∀ d ∈ Ip4.completed host4 memory tick s.receiver frame,
      (Traced.Always (Touch.Safe d.data.length) (Ip4.recvIpComplete host4 d) ↔ ¬Ip4.ShortUdp d) :=
    fun d member => Ip4.recvIpComplete_safe_iff (Ip4.completed_sizes counted d member)
  have safe6 : ∀ d ∈ Ip6.completed host6 memory p6 frame,
      (Traced.Always (Touch.Safe d.data.length) (Ip6.recvIpComplete behind fuel host6 d) ↔
        ¬Ip6.LongUdp d) :=
    fun d member => Ip6.recvIpComplete_safe_iff (Ip6.completed_sizes reached d member)
  constructor
  · intro safe
    exact ⟨fun d member => (safe4 d member).mp (safe.datagram4 d member),
      fun d member => (safe6 d member).mp (safe.datagram6 d member)⟩
  · rintro ⟨short, long⟩
    exact ⟨Ip4.se4RecvEthPacket_safe host4 frame, Ip6.se6RecvEthPacket_safe host6 frame,
      fun d member => (safe4 d member).mpr (short d member),
      fun d member => (safe6 d member).mpr (long d member)⟩

instance : DecidablePred Ip4.ShortUdp := fun d => inferInstanceAs (Decidable (_ ∧ _ ∧ _))

instance : DecidablePred Ip6.LongUdp := fun d => inferInstanceAs (Decidable (_ ∧ _ ∧ _))

def testHost4 : Ip4.Host := ⟨[2, 0, 0, 0, 0, 1], fun _ => 10, false⟩

def testHost6 : Ip6.Host := ⟨[2, 0, 0, 0, 0, 1], fun _ => 0xfe, fun _ => 0x20, false, fun _ => false⟩

def udpHeader (length : UInt8) : List UInt8 := [0, 1, 0, 2, 0, length, 0, 0]

def udpFrame4 (length : UInt8) : List UInt8 :=
  [2, 0, 0, 0, 0, 1, 2, 0, 0, 0, 0, 2, 0x08, 0x00] ++
    ((Ip4.se4SendIpFragment (fun _ => 10) (fun _ => 11) 1 8 0 17 64 (udpHeader length)).getD [])

def udpFrame6 (length : UInt8) : List UInt8 :=
  [2, 0, 0, 0, 0, 1, 2, 0, 0, 0, 0, 2, 0x86, 0xdd] ++
    Ip6.plainPacket (Ip6.sendHeader (fun _ => 0x20) (fun _ => 0x21) 64) 17 (udpHeader length)

theorem received_slices_udp :
    AllSafe testHost4 testHost6 0 Ip4.Receiver.idle Ip6.Receiver.idle (fun _ => 0) (fun _ => 0) 1
      (udpFrame4 8) :=
  (received_slices_iff testHost4 testHost6 0 0 [] ⟨0, Ip4.Receiver.idle⟩ Ip6.Receiver.idle (fun _ => 0)
    (fun _ => 0) 1 (udpFrame4 8) rfl Ip6.Reached.idle).mpr (by decide +kernel)

/-- A UDP length of 7 with IPv4, and one of 100 with IPv6 for a packet of 8 bytes. -/
theorem udp_length_unsafe :
    ¬AllSafe testHost4 testHost6 0 Ip4.Receiver.idle Ip6.Receiver.idle (fun _ => 0) (fun _ => 0) 1
      (udpFrame4 7) ∧
    ¬AllSafe testHost4 testHost6 0 Ip4.Receiver.idle Ip6.Receiver.idle (fun _ => 0) (fun _ => 0) 1 (udpFrame6 100) := by
  have outside4 : ¬∀ d ∈ Ip4.completed testHost4 (fun _ => 0) 0 Ip4.Receiver.idle (udpFrame4 7),
      Traced.Always (Touch.Safe d.data.length) (Ip4.recvIpComplete testHost4 d) := by
    decide +kernel
  have outside6 : ¬∀ d ∈ Ip6.completed testHost6 (fun _ => 0) Ip6.Receiver.idle (udpFrame6 100),
      Traced.Always (Touch.Safe d.data.length) (Ip6.recvIpComplete (fun _ => 0) 1 testHost6 d) := by
    decide +kernel
  exact ⟨fun safe => outside4 safe.datagram4, fun safe => outside6 safe.datagram6⟩

end DisasVisor.Vpn.Slices
