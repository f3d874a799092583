import DisasVisor.Vpn.Datagram

/-!
Whether the frames of a batch are treated independently of each other.
-/

namespace DisasVisor.Vpn

/-- The loop over a batch does not come past the frame: its datagram is empty, or its message is
read beyond the mapped memory. -/
def StopsLoop (packet : Frame) : Prop :=
  packet.Listens ∧ (packet.field 38 = 8 ∨
    10 ≤ packet.payloadLen ∧ (HeaderUnfinished packet.payload ∨
      ∃ header info, Announces packet.payload header info ∧
        Overruns header info packet.payloadLen))

def Warns (packet : Frame) : Prop :=
  packet.Listens ∧ 10 ≤ packet.payloadLen ∧ ∃ header info, Announces packet.payload header info

theorem passes_iff_not_stopsLoop (packet : Frame) : (inspectPacket packet).Passes ↔ ¬ StopsLoop packet := by
  rw [passes_inspectPacket, packet.payloadLen_eq_zero_iff, fault_handleDisasvisorMessage, StopsLoop]

theorem silent_iff_not_warns (packet : Frame) :
    (inspectPacket packet).collect displayedWarning = [] ↔ ¬ Warns packet := by
  rw [collect_inspectPacket packet (fun _ => rfl) (fun _ _ => rfl)]
  by_cases warns : Warns packet
  · obtain ⟨listens, long, header, info, announced⟩ := warns
    have nonzero : packet.payloadLen ≠ 0 := by omega
    rw [if_pos ⟨listens, nonzero⟩, collect_handleDisasvisorMessage 42 _ long announced]
    simp only [List.cons_ne_nil, false_iff, not_not]
    exact ⟨listens, long, header, info, announced⟩
  · simp only [warns, not_false_eq_true, iff_true]
    by_cases listens : packet.Listens
    · split
      · apply Traced.collect_eq_nil_iff.mpr
        apply silent_handleDisasvisorMessage
        intro long header info announced
        exact warns ⟨listens, long, header, info, announced⟩
      · rfl
    · rw [if_neg fun heard => listens heard.1]

/-- A batch displays what its frames display alone exactly when no frame that carries a warning
comes behind a frame that stops the loop. -/
theorem batch_independent_iff (packets : List Frame) :
    warnings (vpnCallbackWrapper packets) =
        (packets.flatMap fun packet => warnings (vpnCallbackWrapper [packet])) ↔
      ∀ before packet after, packets = before ++ packet :: after → StopsLoop packet →
        ∀ later ∈ after, ¬ Warns later := by
  simp only [warnings_single]
  rw [warnings_vpnCallbackWrapper, Traced.collect_forEach_iff]
  simp only [passes_iff_not_stopsLoop, not_not, silent_iff_not_warns]

/-- An empty datagram to the port hides the warning behind it. -/
theorem batch_not_independent :
    ¬ ∀ packets, warnings (vpnCallbackWrapper packets) =
      packets.flatMap fun packet => warnings (vpnCallbackWrapper [packet]) := by
  intro all
  have same := all [datagram [] [] (by decide), datagram (serverHeader.bytes ++ [0x4d]) [] (by decide)]
  revert same
  decide

def handedOver : Event → Option (Nat × Nat)
  | .handleMessage _ udpPayload udpPayloadLen => some (udpPayload, udpPayloadLen)
  | _ => none

/-- Where in the frames the payloads begin that are handed to `handle_disasvisor_message`, and
their lengths. -/
def payloadsHandedOver (run : Traced Event Unit) : List (Nat × Nat) := run.collect handedOver

/-- What is looked at in a frame of sufficient size, which leaves out the EtherType, the IP version,
the IP header length and the fragment offset. -/
def TakenForMessage (packet : Frame) : Prop :=
  packet.byte 23 = 0x11 ∧ 28 ≤ packet.field 16 ∧ packet.field 36 = disasvisorPort ∧ 8 < packet.field 38

instance (packet : Frame) : Decidable (TakenForMessage packet) := inferInstanceAs (Decidable (_ ∧ _))

def Frame.ipHeaderLength (packet : Frame) : Nat := 4 * ((packet.byte 14).toNat % 16)

/-- An Ethernet frame with an IPv4 packet that begins with a UDP header to the port, followed by a
payload. -/
def IsIpv4Message (packet : Frame) : Prop :=
  packet.field 12 = 0x0800 ∧ (packet.byte 14).toNat / 16 = 4 ∧ packet.byte 23 = 0x11 ∧
    packet.field 20 % 2 ^ 13 = 0 ∧
    packet.field (14 + packet.ipHeaderLength + 2) = disasvisorPort ∧
    8 < packet.field (14 + packet.ipHeaderLength + 4)

instance (packet : Frame) : Decidable (IsIpv4Message packet) := inferInstanceAs (Decidable (_ ∧ _))

theorem OnlyReads.handsOverNothing {α : Type} {packet : Frame} {run : Traced Event α}
    (reads : Traced.Always (fun event => ∃ index, event = .read packet index) run) :
    Traced.Always (fun event => handedOver event = none) run := by
  refine reads.mono ?_
  rintro _ ⟨index, rfl⟩
  rfl

theorem displayWarning_handsOverNothing (packet : Frame) (warning : Warning) :
    Traced.Always (fun event => handedOver event = none) (displayWarning packet warning) := by
  rw [displayWarning, Traced.always_emit_bind, Traced.always_bind, Traced.always_relabel]
  refine ⟨rfl, ?_, fun _ _ => Traced.always_pure ()⟩
  intro event _
  cases event <;> rfl

theorem payloadsHandedOver_handleDisasvisorMessage (packet : Frame) (pos len : Nat) (rest : List UInt8) :
    payloadsHandedOver (handleDisasvisorMessage packet ⟨pos, rest⟩ len) = [(pos, len)] := by
  rw [payloadsHandedOver, handleDisasvisorMessage, Traced.collect_emit_bind]
  have nothing (body : Traced Event Unit)
      (quiet : Traced.Always (fun event => handedOver event = none) body) :
      (handedOver (.handleMessage packet pos len)).toList ++ body.collect handedOver = [(pos, len)] := by
    rw [Traced.collect_eq_nil_iff.mpr quiet]
    rfl
  apply nothing
  split
  · rw [Traced.always_bind]
    refine ⟨OnlyReads.handsOverNothing (onlyReads_strncmpKeyword _ _ _), ?_⟩
    intro same _
    cases same with
    | false => exact Traced.always_pure ()
    | true =>
      rw [if_pos rfl, Traced.always_bind]
      refine ⟨OnlyReads.handsOverNothing (onlyReads_deref _), ?_⟩
      intro c _
      split
      · rw [Traced.always_bind]
        refine ⟨OnlyReads.handsOverNothing (onlyReads_readFields _), ?_⟩
        intro fields _
        rw [displayFields, Traced.always_emit_bind]
        exact ⟨rfl, displayWarning_handsOverNothing packet _⟩
      · exact Traced.always_returned
  · exact Traced.always_pure ()

theorem payloadsHandedOver_inspectPacket (packet : Frame) (size : 42 ≤ packet.size)
    (udpLength : 8 ≤ packet.field 38) :
    payloadsHandedOver (inspectPacket packet) =
      if TakenForMessage packet then [(42, packet.field 38 - 8)] else [] := by
  have width := packet.field_lt 38
  have length : packet.payloadLen = packet.field 38 - 8 := by
    simp only [Frame.payloadLen]
    omega
  have same : packet.Listens ∧ packet.payloadLen ≠ 0 ↔ TakenForMessage packet := by
    rw [length]
    constructor
    · rintro ⟨⟨_, ⟨protocol, long⟩, port⟩, nonempty⟩
      exact ⟨protocol, long, port, by omega⟩
    · rintro ⟨protocol, long, port, nonempty⟩
      exact ⟨⟨.inr (by omega), ⟨protocol, long⟩, port⟩, by omega⟩
  rw [payloadsHandedOver, collect_inspectPacket packet (fun _ => rfl) (fun _ _ => rfl)]
  by_cases taken : TakenForMessage packet
  · rw [if_pos (same.mpr taken), if_pos taken, ← length]
    exact payloadsHandedOver_handleDisasvisorMessage packet 42 _ _
  · rw [if_neg fun heard => taken (same.mp heard), if_neg taken]

def arpFrame : Frame where
  mem := (datagramHeaders 1).set 13 0x06 ++ [0x4d]
  size := 43
  sizeBound := by decide
  sizeWidth := by decide
  headersMapped := by decide

def optionsFrame : Frame where
  mem := List.replicate 12 0 ++
    [0x08, 0x00, 0x46, 0x00, 0x00, 0x21, 0, 0, 0, 0, 0x40, 0x11] ++ List.replicate 10 0 ++
    [0x01, 0x01, 0x01, 0x01] ++ [0, 0, 0x68, 0x2a, 0x00, 0x09, 0, 0] ++ [0x4d]
  size := 47
  sizeBound := by decide
  sizeWidth := by decide
  headersMapped := by decide

end DisasVisor.Vpn
