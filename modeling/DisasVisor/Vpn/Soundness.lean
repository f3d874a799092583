import DisasVisor.Vpn.Datagram

/-!
For which payloads the displayed warnings are what the payload says.
-/

namespace DisasVisor.Vpn

open MaximalRuns List

def Sound (payload : List UInt8) (warning : Warning) : Prop :=
  ∃ (header : Header) (info : List UInt8),
    payload = header.bytes ++ info ∧ info ≠ [] ∧ Stops isDelimiter info ∧
    warning.disasterType = decimal header.disasterType ∧
    warning.x = decimal header.offsetX ∧ warning.y = decimal header.offsetY ∧
    warning.msgLen = info.length ∧ warning.text = info

/-- The header ends inside of the payload, and the numbers and the length of the detailed info fit
their variables. -/
structure Fits (header : Header) (n : Nat) : Prop where
  inside : header.bytes.length < n
  infoLen : n - header.bytes.length < 2 ^ 32
  disasterType : decimal header.disasterType < 2 ^ 8
  offsetX : decimal header.offsetX < 2 ^ 32
  offsetY : decimal header.offsetY < 2 ^ 32

theorem Announces.stops {mem info : List UInt8} {header : Header}
    (announced : Announces mem header info) : Stops isDelimiter info :=
  fun c first => (announced.begins c first).2

theorem sound_announcement_iff {payload behind info : List UInt8} {header : Header} (pos : Nat)
    (announced : Announces (payload ++ behind) header info) :
    Sound payload (announcement pos header info payload.length) ↔ Fits header payload.length := by
  have length := congrArg List.length announced.spelled
  simp only [length_append] at length
  constructor
  · rintro ⟨written, text, spelled, nonempty, begins, disasterType, offsetX, offsetY, msgLen, -⟩
    have whole : written.bytes ++ (text ++ behind) = header.bytes ++ info := by
      rw [← append_assoc, ← spelled, announced.spelled]
    obtain ⟨rfl, -⟩ := header_unique (stops_append nonempty begins) announced.stops whole
    have parts := congrArg List.length spelled
    rw [length_append] at parts
    have positive := length_pos_iff.mpr nonempty
    simp only [announcement] at disasterType offsetX offsetY msgLen
    refine ⟨by omega, by omega, ?_, ?_, ?_⟩
    · rw [← disasterType]
      exact Nat.mod_lt _ (by decide)
    · rw [← offsetX]
      exact Nat.mod_lt _ (by decide)
    · rw [← offsetY]
      exact Nat.mod_lt _ (by decide)
  · intro fits
    have inside := fits.inside
    have infoLen := fits.infoLen
    have msgLen : (announcement pos header info payload.length).msgLen = payload.length - header.bytes.length := by
      simp only [announcement]
      omega
    have cut : payload = header.bytes ++ info.take (payload.length - header.bytes.length) := by
      have taken := congrArg (List.take payload.length) announced.spelled
      rwa [take_left, take_append, take_of_length_le (Nat.le_of_lt inside)] at taken
    have taken : (info.take (payload.length - header.bytes.length)).length = payload.length - header.bytes.length := by
      rw [length_take]
      omega
    refine ⟨header, info.take (payload.length - header.bytes.length), cut, ?_, ?_,
      Nat.mod_eq_of_lt fits.disasterType, Nat.mod_eq_of_lt fits.offsetX,
      Nat.mod_eq_of_lt fits.offsetY, ?_, ?_⟩
    · intro empty
      rw [empty, length_nil] at taken
      omega
    · intro c first
      have stops := announced.stops
      rw [List.head?_take] at first
      split at first
      · simp at first
      · exact stops c first
    · rw [taken, msgLen]
    · rw [Warning.text, msgLen]
      rfl

/-- The displayed warnings are what the payload says exactly when every header at the beginning of
the payload and of the memory behind it fits the payload. -/
theorem warnings_sound_iff (packet : Frame) (pos : Nat) (payload behind : List UInt8) :
    (∀ warning ∈ warnings
        (handleDisasvisorMessage packet ⟨pos, payload ++ behind⟩ payload.length),
      Sound payload warning) ↔
      ∀ header info, Announces (payload ++ behind) header info → payload.length < 10 ∨ Fits header payload.length := by
  by_cases announces : 10 ≤ payload.length ∧ ∃ header info, Announces (payload ++ behind) header info
  · obtain ⟨long, header, info, announced⟩ := announces
    rw [warnings, collect_handleDisasvisorMessage pos _ long announced, forall_mem_singleton,
      sound_announcement_iff pos announced]
    constructor
    · intro fits other text otherAnnounced
      have same : header.bytes ++ info = other.bytes ++ text := announced.spelled.symm.trans otherAnnounced.spelled
      obtain ⟨rfl, rfl⟩ := header_unique announced.stops otherAnnounced.stops same
      exact .inr fits
    · intro all
      rcases all header info announced with short | fits
      · omega
      · exact fits
  · have silent : Traced.Always (fun event => displayedWarning event = none)
        (handleDisasvisorMessage packet ⟨pos, payload ++ behind⟩ payload.length) :=
      silent_handleDisasvisorMessage pos _
        fun long header info announced => announces ⟨long, header, info, announced⟩
    rw [warnings, Traced.collect_eq_nil_iff.mpr silent]
    constructor
    · intro _ header info announced
      refine .inl ?_
      by_contra long
      exact announces ⟨by omega, header, info, announced⟩
    · simp

def overflowingHeader : Header where
  d1 := [0x20]
  version := [0x31]
  d2 := [0x20]
  disasterType := [0x32, 0x35, 0x37]
  d3 := [0x20]
  offsetX := [0x30]
  d4 := [0x20]
  offsetY := [0x30]
  d5 := [0x20]
  shape := by decide

/-- Disaster type 257 is displayed as disaster type 1. -/
theorem warnings_not_sound :
    ¬ ∀ (packet : Frame) (pos : Nat) (payload behind : List UInt8),
      ∀ warning ∈ warnings
        (handleDisasvisorMessage packet ⟨pos, payload ++ behind⟩ payload.length),
        Sound payload warning := by
  intro all
  have nulFree : overflowingHeader.NulFree := by exact forall_iff_forall_mem.mp (by decide)
  have begins : ∀ c ∈ [(0x4d : UInt8)].head?, BeginsInfo c := by
    rintro c ⟨⟩
    exact ⟨by decide, by decide⟩
  have announced : Announces (overflowingHeader.bytes ++ [0x4d] ++ []) overflowingHeader [0x4d] :=
    ⟨nulFree, by decide, begins, rfl⟩
  have sound := all (datagram [] [] (by decide)) 42 (overflowingHeader.bytes ++ [0x4d]) []
  rw [warnings, collect_handleDisasvisorMessage 42 _ (by decide) announced,
    forall_mem_singleton, sound_announcement_iff 42 announced] at sound
  have fits := sound.disasterType
  revert fits
  decide

/-!
Which batches of frames are treated without a read outside of a frame, a
wrapped subtraction or a text that ends behind its frame.
-/

def InFrame : Event → Prop
  | .read packet index => index < packet.size
  | .subtract left right => right ≤ left
  | .displayWarning packet warning => warning.msg.pos + warning.msgLen ≤ packet.size
  | _ => True

instance : DecidablePred InFrame := by
  intro event
  cases event <;> unfold InFrame <;> infer_instance

structure Contained (packet : Frame) : Prop where
  ethernet : 14 ≤ packet.size
  ports : 34 ≤ packet.size → 38 ≤ packet.size
  udpLength : 34 ≤ packet.size → packet.IsUdp → 40 ≤ packet.size
  udpPayload : packet.Listens → 8 ≤ packet.field 38
  finished : packet.Listens → 10 ≤ packet.payloadLen → ¬ HeaderUnfinished (packet.payload.take (packet.size - 42))
  announced : packet.Listens → 10 ≤ packet.payloadLen →
    ∀ header info, Announces packet.payload header info →
      header.bytes.length ≤ packet.payloadLen ∧ 42 + packet.payloadLen ≤ packet.size

def ZeroPayload (packet : Frame) : Prop := packet.Listens ∧ packet.field 38 = 8

theorem readLimit_inFrame (packet : Frame) : ReadLimit InFrame packet packet.size where
  read := fun _ => Iff.rfl
  storedPicture := fun _ _ _ => trivial
  storedLetter := fun _ _ _ => trivial

theorem Frame.payloadLen_lt (packet : Frame) : packet.payloadLen < 2 ^ 16 := Nat.mod_lt _ (by decide)

theorem Frame.mem_length (packet : Frame) : packet.mem.length = 42 + packet.payload.length := by
  have mapped := packet.headersMapped
  rw [Frame.payload, List.length_drop]
  omega

theorem header_inside {rest info : List UInt8} {header : Header} {count : Nat}
    (announced : Announces rest header info) (finished : ¬ HeaderUnfinished (rest.take count)) :
    header.bytes.length < count := by
  by_contra short
  apply finished
  refine ⟨header, announced.nulFree, ?_⟩
  rw [announced.spelled, List.take_append_of_le_length (by omega)]
  exact List.take_prefix _ _

theorem announcement_msgLen (pos : Nat) (header : Header) (info : List UInt8) (len : Nat)
    (width : len < 2 ^ 32) (inside : header.bytes.length ≤ len) :
    (announcement pos header info len).msgLen = len - header.bytes.length := by
  simp only [announcement]
  omega

theorem always_inFrame_displayWarning (packet : Frame) (header : Header) (info : List UInt8)
    (announced : Announces packet.payload header info) (inside : header.bytes.length ≤ packet.payloadLen)
    (finished : ¬ HeaderUnfinished (packet.payload.take (packet.size - 42))) :
    Traced.Always InFrame
      (displayWarning packet (announcement 42 header info packet.payloadLen)) ↔
        42 + packet.payloadLen ≤ packet.size := by
  have below := header_inside announced finished
  have width := packet.payloadLen_lt
  have mapped := packet.mem_length
  have bound := packet.sizeBound
  have msgLen := announcement_msgLen 42 header info packet.payloadLen (by omega) inside
  have length := congrArg List.length announced.spelled
  rw [List.length_append] at length
  have pos : (announcement 42 header info packet.payloadLen).msg.pos = 42 + header.bytes.length := rfl
  have rest : (announcement 42 header info packet.payloadLen).msg.rest = info := rfl
  rw [always_displayWarning _ (readLimit_inFrame packet) (by rw [pos, rest]; omega) (by rw [pos]; omega)]
  simp only [InFrame, pos, msgLen]
  constructor
  · rintro ⟨slice, -⟩
    omega
  · intro fits
    exact ⟨by omega, fun _ => .inl (by omega)⟩

theorem always_inFrame_handleDisasvisorMessage (packet : Frame) :
    Traced.Always InFrame
      (handleDisasvisorMessage packet ⟨42, packet.payload⟩ packet.payloadLen) ↔
      (10 ≤ packet.payloadLen →
        ¬ HeaderUnfinished (packet.payload.take (packet.size - 42)) ∧
        ∀ header info, Announces packet.payload header info →
          header.bytes.length ≤ packet.payloadLen ∧ 42 + packet.payloadLen ≤ packet.size) := by
  have mapped := packet.mem_length
  have bound := packet.sizeBound
  rw [always_handleDisasvisorMessage (readLimit_inFrame packet) 42 packet.payload packet.payloadLen (by omega)]
  simp only [InFrame, true_and]
  constructor
  · intro good long
    obtain ⟨finished, displayed⟩ := good long
    refine ⟨finished, fun header info announced => ?_⟩
    obtain ⟨inside, drawn⟩ := displayed header info announced
    exact ⟨inside, (always_inFrame_displayWarning packet header info announced inside finished).mp drawn⟩
  · intro good long
    obtain ⟨finished, displayed⟩ := good long
    refine ⟨finished, fun header info announced => ?_⟩
    obtain ⟨inside, fits⟩ := displayed header info announced
    exact ⟨inside, (always_inFrame_displayWarning packet header info announced inside finished).mpr fits⟩

theorem always_inFrame_inspectPacket (packet : Frame) :
    Traced.Always InFrame (inspectPacket packet) ↔ Contained packet := by
  rw [always_inspectPacket, always_inFrame_handleDisasvisorMessage]
  simp only [InFrame, headerReads, List.forall_mem_cons, List.not_mem_nil, false_implies, implies_true, and_true]
  constructor
  · rintro ⟨ethernet, sized⟩
    have ports (long : 34 ≤ packet.size) := (sized (.inr long)).1
    have udp (long : 34 ≤ packet.size) := (sized (.inr long)).2
    have listens (listens : packet.Listens) := (udp (by
      rcases listens.1 with short | long
      · omega
      · exact long) listens.2.1).2.2 listens.2.2
    have message (heard : packet.Listens) (long : 10 ≤ packet.payloadLen) := (listens heard).2 (by omega) long
    constructor
    · exact ethernet
    · intro long
      have reads := ports long
      omega
    · intro long isUdp
      have reads := udp long isUdp
      omega
    · exact fun heard => (listens heard).1
    · exact fun heard long => (message heard long).1
    · exact fun heard long => (message heard long).2
  · intro contained
    have ethernet := contained.ethernet
    refine ⟨ethernet, fun sized => ?_⟩
    have long : 34 ≤ packet.size := by
      simp only [Frame.Sized] at sized
      omega
    have ports := contained.ports long
    refine ⟨by omega, fun isUdp => ?_⟩
    have udpLength := contained.udpLength long isUdp
    refine ⟨by omega, by omega, fun port => ?_⟩
    have heard : packet.Listens := ⟨sized, isUdp, port⟩
    exact ⟨contained.udpPayload heard, fun _ enough =>
      ⟨contained.finished heard enough, contained.announced heard enough⟩⟩

theorem passes_of_contained {packet : Frame} (contained : Contained packet) :
    (inspectPacket packet).Passes ↔ ¬ ZeroPayload packet := by
  rw [passes_inspectPacket, packet.payloadLen_eq_zero_iff, fault_handleDisasvisorMessage]
  apply not_congr
  constructor
  · rintro ⟨heard, empty | ⟨long, faults⟩⟩
    · exact ⟨heard, empty⟩
    · exfalso
      have finished := contained.finished heard long
      rcases faults with ⟨header, nulFree, more⟩ | ⟨header, info, announced, -, runs, -⟩
      · exact finished ⟨header, nulFree, (List.take_prefix _ _).trans more⟩
      · obtain ⟨inside, fits⟩ := contained.announced heard long header info announced
        have width := packet.payloadLen_lt
        have mapped := packet.mem_length
        have bound := packet.sizeBound
        have length := congrArg List.length announced.spelled
        rw [List.length_append] at length
        omega
  · rintro ⟨heard, empty⟩
    exact ⟨heard, .inl empty⟩

/-- A batch is treated inside of its frames exactly when every frame that is reached is long
enough for what is looked at in it. -/
theorem inFrame_vpnCallbackWrapper_iff (packets : List Frame) :
    Traced.Always InFrame (vpnCallbackWrapper packets) ↔
      ∀ before packet after, packets = before ++ packet :: after →
        (∀ earlier ∈ before, ¬ ZeroPayload earlier) → Contained packet := by
  have passes (packet : Frame) (good : Traced.Always InFrame (inspectPacket packet)) :
      (inspectPacket packet).Passes ↔ ¬ ZeroPayload packet :=
    passes_of_contained ((always_inFrame_inspectPacket packet).mp good)
  rw [vpnCallbackWrapper, Traced.always_emit_bind, Traced.always_forEach_iff passes]
  simp only [InFrame, true_and, always_inFrame_inspectPacket]

/-- A message without a detailed info: the scan behind its last delimiter reads on behind the
frame. -/
theorem inFrame_fails : ¬ ∀ packets, Traced.Always InFrame (vpnCallbackWrapper packets) := by
  intro all
  have inside := all [datagram serverHeader.bytes [0x4d] (by decide)]
  revert inside
  decide

end DisasVisor.Vpn
