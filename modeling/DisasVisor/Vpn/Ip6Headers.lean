import DisasVisor.Vpn.Ip6Delivery

/-!
The extension headers of an IPv6 packet, as `SeBuildIPv6Packet` writes them and as
`SeParseIPv6ExtHeader` reads them. The next number of a header is only read when more than eight bytes
are left.
-/

namespace DisasVisor.Vpn.Ip6

open List

variable {header : Header} {rest payload opt : List UInt8} {protocol next next2 : UInt8}
  {info result : PacketInfo} {fuel : Nat}

inductive Part
  | hop (opt : List UInt8)
  | endPoint (opt : List UInt8)
  | routing (opt : List UInt8)
  | fragment (h : FragmentHeader)

namespace Part

def kind : Part → UInt8
  | .hop _ => headerHop
  | .endPoint _ => headerEndpoint
  | .routing _ => headerRouting
  | .fragment _ => headerFragment

def size : Part → Nat
  | .hop opt => opt.length
  | .endPoint opt => opt.length
  | .routing opt => opt.length
  | .fragment _ => 8

def write (next : UInt8) : Part → List UInt8
  | .hop opt => buildOptionHeader opt next
  | .endPoint opt => buildOptionHeader opt next
  | .routing opt => buildOptionHeader opt next
  | .fragment h => { h with nextHeader := next }.bytes

def keep (next : UInt8) (info : PacketInfo) : Part → PacketInfo
  | .hop opt => { info with hopHeader := some (buildOptionHeader opt next) }
  | .endPoint opt => { info with endPointHeader := some (buildOptionHeader opt next) }
  | .routing opt => { info with routingHeader := some (buildOptionHeader opt next) }
  | .fragment h => { info with fragmentHeader := some { h with nextHeader := next } }

def Sized : Part → Prop
  | .hop opt => 8 ∣ opt.length ∧ 8 ≤ opt.length ∧ opt.length ≤ 2048
  | .endPoint opt => 8 ∣ opt.length ∧ 8 ≤ opt.length ∧ opt.length ≤ 2048
  | .routing opt => 8 ∣ opt.length ∧ 8 ≤ opt.length ∧ opt.length ≤ 2048
  | .fragment _ => True

end Part

def partsOf (info : PacketInfo) : List Part :=
  (info.hopHeader.map Part.hop).toList ++ (info.endPointHeader.map Part.endPoint).toList ++
    (info.routingHeader.map Part.routing).toList ++ (info.fragmentHeader.map Part.fragment).toList

def firstNext : List Part → UInt8 → UInt8
  | [], protocol => protocol
  | part :: _, _ => part.kind

def link : List Part → UInt8 → List UInt8
  | [], _ => []
  | part :: parts, protocol => part.write (firstNext parts protocol) ++ link parts protocol

def keepAll : PacketInfo → List Part → UInt8 → PacketInfo
  | info, [], _ => info
  | info, part :: parts, protocol => keepAll (part.keep (firstNext parts protocol) info) parts protocol

def payloadBytes (info : PacketInfo) : List UInt8 :=
  if info.protocol ≠ headerNone then info.payload.getD [] else []

theorem buildOptionHeader_eq (multiple : 8 ∣ opt.length) (least : 8 ≤ opt.length) :
    buildOptionHeader opt next = next :: UInt8.ofNat (opt.length / 8 - 1) :: opt.drop 2 := by
  have whole : ¬opt.length % 8 ≠ 0 := by omega
  unfold buildOptionHeader
  simp only [if_neg whole, Nat.sub_self, replicate_zero, append_nil]
  match opt, least with
  | a :: b :: opt, _ => rfl

theorem length_buildOptionHeader (multiple : 8 ∣ opt.length) (least : 8 ≤ opt.length) :
    (buildOptionHeader opt next).length = opt.length := by
  rw [buildOptionHeader_eq multiple least, length_cons, length_cons, length_drop]
  omega

theorem length_write {part : Part} (sized : part.Sized) : (part.write next).length = part.size := by
  cases part with
  | hop opt => exact length_buildOptionHeader sized.1 sized.2.1
  | endPoint opt => exact length_buildOptionHeader sized.1 sized.2.1
  | routing opt => exact length_buildOptionHeader sized.1 sized.2.1
  | fragment h => exact length_fragment_bytes

theorem size_le {part : Part} (sized : part.Sized) : 8 ≤ part.size := by
  cases part with
  | hop opt => exact sized.2.1
  | endPoint opt => exact sized.2.1
  | routing opt => exact sized.2.1
  | fragment h => exact Nat.le_refl _

theorem readFragmentHeader_bytes {h : FragmentHeader} : readFragmentHeader (h.bytes ++ rest) = h := by
  have identification : (readFragmentHeader (h.bytes ++ rest)).identification = h.identification := ByteOrder.join32 _
  obtain ⟨number, reserved, high, low, id⟩ := h
  simp only at identification
  conv_rhs => rw [← identification]
  rfl

theorem parseExtHeader_option (multiple : 8 ∣ opt.length) (least : 8 ≤ opt.length)
    (most : opt.length ≤ 2048) {kind : UInt8}
    (isOption : kind = headerHop ∨ kind = headerEndpoint ∨ kind = headerRouting) :
    parseExtHeader (fuel + 1) info kind next2 (buildOptionHeader opt next ++ rest) =
      parseExtHeader fuel (if kind = headerHop then { info with hopHeader := some (buildOptionHeader opt next) }
        else if kind = headerEndpoint then { info with endPointHeader := some (buildOptionHeader opt next) }
        else { info with routingHeader := some (buildOptionHeader opt next) })
        (if 8 < opt.length + rest.length then next else next2)
        (if 8 < opt.length + rest.length then next else next2) rest := by
  have length := @length_buildOptionHeader opt next multiple least
  have first : (buildOptionHeader opt next ++ rest).getD 0 0 = next := by
    rw [buildOptionHeader_eq multiple least]
    rfl
  have second : (((buildOptionHeader opt next ++ rest).getD 1 0).toNat + 1) * 8 = opt.length := by
    rw [buildOptionHeader_eq multiple least]
    change ((UInt8.ofNat (opt.length / 8 - 1)).toNat + 1) * 8 = _
    rw [UInt8.toNat_ofNat']
    omega
  have total : (buildOptionHeader opt next ++ rest).length = opt.length + rest.length := by rw [length_append, length]
  conv_lhs => unfold parseExtHeader
  simp only [first, second, total, if_pos isOption]
  rw [if_neg (by omega), if_neg (by omega), take_left' length, drop_left' length]

theorem parseExtHeader_part {part : Part} (sized : part.Sized) :
    parseExtHeader (fuel + 1) info part.kind next2 (part.write next ++ rest) =
      parseExtHeader fuel (part.keep next info) (if 8 < part.size + rest.length then next else next2)
        (if 8 < part.size + rest.length then next else next2) rest := by
  cases part with
  | hop opt => exact parseExtHeader_option sized.1 sized.2.1 sized.2.2 (.inl rfl)
  | endPoint opt => exact parseExtHeader_option sized.1 sized.2.1 sized.2.2 (.inr (.inl rfl))
  | routing opt => exact parseExtHeader_option sized.1 sized.2.1 sized.2.2 (.inr (.inr rfl))
  | fragment h =>
    have length := @length_fragment_bytes { h with nextHeader := next }
    have first : ({ h with nextHeader := next }.bytes ++ rest).getD 0 0 = next := rfl
    have total : ({ h with nextHeader := next }.bytes ++ rest).length = 8 + rest.length := by
      rw [length_append, length]
    have notOption : ¬((Part.fragment h).kind = headerHop ∨ (Part.fragment h).kind = headerEndpoint ∨
        (Part.fragment h).kind = headerRouting) := by
      simp [Part.kind, headerFragment, headerHop, headerEndpoint, headerRouting]
    have isFragment : (Part.fragment h).kind = headerFragment := rfl
    conv_lhs => unfold parseExtHeader
    simp only [Part.write, Part.keep, Part.size, first, total, if_neg notOption, if_pos isFragment, gt_iff_lt]
    rw [if_neg (by omega), drop_left' length, readFragmentHeader_bytes]
    congr

def Extension (number : UInt8) : Prop :=
  number = headerHop ∨ number = headerEndpoint ∨ number = headerRouting ∨ number = headerFragment

theorem kind_extension (part : Part) : Extension part.kind := by
  unfold Extension
  cases part <;> simp [Part.kind]

theorem parseExtHeader_payload (upper : ¬Extension protocol) :
    parseExtHeader (fuel + 1) info protocol next2 payload =
      some { info with
        payload := if protocol ≠ headerNone then some payload else none
        protocol := protocol } := by
  unfold Extension at upper
  unfold parseExtHeader
  rw [if_neg (by tauto), if_neg (by tauto)]

theorem parseExtHeader_nil {part : Part} : parseExtHeader fuel info part.kind next2 [] = none := by
  cases fuel with
  | zero => rfl
  | succ fuel =>
    unfold parseExtHeader
    rcases kind_extension part with is | is | is | is <;> simp [is, headerFragment, headerHop,
      headerEndpoint, headerRouting]

theorem length_link {parts : List Part} (sized : ∀ part ∈ parts, part.Sized) :
    8 * parts.length ≤ (link parts protocol).length := by
  induction parts with
  | nil => exact Nat.zero_le _
  | cons part parts ih =>
    have first := sized part mem_cons_self
    have later := ih fun part member => sized part (mem_cons_of_mem _ member)
    have least := size_le first
    rw [link, length_append, length_write first, length_cons]
    omega

theorem keepAll_append {parts : List Part} {last : Part} :
    keepAll info (parts ++ [last]) protocol = last.keep protocol (keepAll info parts last.kind) := by
  induction parts generalizing info with
  | nil => rfl
  | cons part parts ih =>
    rw [cons_append, keepAll, keepAll, ih]
    cases parts <;> rfl

theorem link_append {parts : List Part} {last : Part} :
    link (parts ++ [last]) protocol = link parts last.kind ++ last.write protocol := by
  induction parts with
  | nil => exact append_nil _
  | cons part parts ih =>
    rw [cons_append, link, link, ih, append_assoc]
    cases parts <;> rfl

theorem parseExtHeader_link {parts : List Part} (sized : ∀ part ∈ parts, part.Sized) (some' : rest ≠ []) :
    parseExtHeader (fuel + parts.length) info (firstNext parts next) next2 (link parts next ++ rest) =
      parseExtHeader fuel (keepAll info parts next) next (if parts = [] then next2 else next) rest := by
  have positive := length_pos_of_ne_nil some'
  induction parts generalizing info next2 with
  | nil => rfl
  | cons part parts ih =>
    have first := sized part mem_cons_self
    have least := size_le first
    rw [firstNext, link, append_assoc, length_cons, ← Nat.add_assoc, parseExtHeader_part first,
      length_append, if_pos (by omega), ih fun part member => sized part (mem_cons_of_mem _ member),
      if_neg (cons_ne_nil _ _)]
    cases parts <;> rfl

/-!
`SeParseIPv6Packet` gets back what `SeBuildIPv6Packet` was given, except where only the eight bytes of
the last header are left when the parser comes to it.
-/

variable {parsed : PacketInfo} {parts : List Part}

def SameOption (given parsed : Option (List UInt8)) : Prop :=
  parsed.map List.length = given.map List.length ∧ parsed.map (List.drop 2) = given.map (List.drop 2)

structure Same (given parsed : PacketInfo) : Prop where
  header : { parsed.header with
    nextHeader := given.header.nextHeader
    payloadLength := given.header.payloadLength } = given.header
  hop : SameOption given.hopHeader parsed.hopHeader
  endPoint : SameOption given.endPointHeader parsed.endPointHeader
  routing : SameOption given.routingHeader parsed.routingHeader
  fragment : parsed.fragmentHeader = given.fragmentHeader.map fun h => { h with nextHeader := given.protocol }
  protocol : parsed.protocol = given.protocol
  payload : parsed.payload.getD [] = given.payload.getD []

/-- The version is 6 and the protocol is not an extension header; where there is no next header there is
no payload; and behind the number of the last header are more than eight bytes, its own counted, or the
variable still says that there is no next header. -/
structure Readable (info : PacketInfo) : Prop where
  version : info.header.versionAndTrafficClass1 >>> 4 &&& 0x0f = 6
  upper : ¬Extension info.protocol
  none : info.protocol = headerNone → info.payload.getD [] = []
  last : ∀ part, (partsOf info).getLast? = some part →
    8 < part.size + (payloadBytes info).length ∨
      (info.protocol = headerNone ∧ (partsOf info).length = 1)

theorem readHeader_all : readHeader (header.bytes ++ rest) = header := by
  have length : (readHeader (header.bytes ++ rest)).payloadLength = header.payloadLength := ByteOrder.join16 _
  have reads := @readHeader_bytes header rest
  have src := reads.src
  have dest := reads.dest
  obtain ⟨version, traffic, flow, label, size, number, limit, from', to'⟩ := header
  simp only at length src dest
  conv_rhs => rw [← length, ← src, ← dest]
  rfl

theorem buildPacket_link : (buildPacket info).1 =
    (wireHeader info.header (firstNext (partsOf info) info.protocol)
      ((link (partsOf info) info.protocol).length + (payloadBytes info).length)).bytes ++
      (link (partsOf info) info.protocol ++ payloadBytes info) := by
  have size : ∀ options fragment payload : List UInt8,
      40 + options.length + fragment.length + payload.length - 40 =
        (options ++ fragment).length + payload.length := by
    intro options fragment payload
    rw [length_append]
    omega
  obtain ⟨header, hop, endPoint, routing, fragment, payload, protocol⟩ := info
  unfold buildPacket
  simp only [size, append_assoc]
  cases hop <;> cases endPoint <;> cases routing <;> cases fragment <;>
    simp [partsOf, link, firstNext, Part.write, Part.kind, wireHeader, payloadBytes]

theorem keepAll_partsOf (header : Header) (info : PacketInfo) :
    ∃ a b c, keepAll ⟨header, none, none, none, none, none, 0⟩ (partsOf info) info.protocol =
      ⟨header, info.hopHeader.map (buildOptionHeader · a), info.endPointHeader.map (buildOptionHeader · b),
        info.routingHeader.map (buildOptionHeader · c),
        info.fragmentHeader.map fun h => { h with nextHeader := info.protocol }, none, 0⟩ := by
  obtain ⟨given, hop, endPoint, routing, fragment, payload, protocol⟩ := info
  refine ⟨firstNext (partsOf ⟨given, none, endPoint, routing, fragment, payload, protocol⟩) protocol,
    firstNext (partsOf ⟨given, none, none, routing, fragment, payload, protocol⟩) protocol,
    firstNext (partsOf ⟨given, none, none, none, fragment, payload, protocol⟩) protocol, ?_⟩
  cases hop <;> cases endPoint <;> cases routing <;> cases fragment <;> rfl

def lastNumber (parts : List Part) (protocol : UInt8) (payload : List UInt8) : UInt8 :=
  match parts.getLast? with
  | none => protocol
  | some last =>
    if 8 < last.size + payload.length then protocol
    else if parts.length = 1 then headerNone else last.kind

theorem parseExtHeader_all (sized : ∀ part ∈ parts, part.Sized) (enough : parts.length < fuel) :
    ∃ rest next2, parseExtHeader fuel info (firstNext parts protocol) headerNone (link parts protocol ++ payload) =
      parseExtHeader (rest + 1) (keepAll info parts protocol) (lastNumber parts protocol payload) next2
        payload := by
  rcases eq_nil_or_concat parts with rfl | ⟨before, last, rfl⟩
  · exact ⟨fuel - 1, headerNone, by rw [Nat.sub_add_cancel (by omega)]; rfl⟩
  · simp only [concat_eq_append] at sized enough ⊢
    have lastSized := sized last (by simp)
    have least := size_le lastSized
    have first : firstNext (before ++ [last]) protocol = firstNext before last.kind := by cases before <;> rfl
    have some' : last.write protocol ++ payload ≠ [] := by
      apply ne_nil_of_length_pos
      rw [length_append, length_write lastSized]
      omega
    obtain ⟨rest, isFuel⟩ : ∃ rest, fuel = rest + 1 + 1 + before.length := by
      rw [length_append, length_singleton] at enough
      exact ⟨fuel - (before.length + 2), by omega⟩
    refine ⟨rest, lastNumber (before ++ [last]) protocol payload, ?_⟩
    rw [first, link_append, append_assoc, isFuel, parseExtHeader_link (fun part member =>
      sized part (mem_append_left _ member)) some', parseExtHeader_part lastSized, keepAll_append]
    congr 1
    all_goals
      unfold lastNumber
      rw [List.getLast?_append, List.getLast?_singleton, Option.some_or]
      simp only [length_append, length_singleton]
      by_cases alone : before = []
      · rw [if_pos alone, alone]
        rfl
      · have more : before.length + 1 ≠ 1 := by
          have positive := length_pos_of_ne_nil alone
          omega
        rw [if_neg alone, if_neg more]

theorem parsePacket_build (version : info.header.versionAndTrafficClass1 >>> 4 &&& 0x0f = 6)
    (sized : ∀ part ∈ partsOf info, part.Sized) :
    ∃ rest next2, parsePacket (buildPacket info).1 = parseExtHeader (rest + 1)
      (keepAll ⟨wireHeader info.header (firstNext (partsOf info) info.protocol)
        ((link (partsOf info) info.protocol).length + (payloadBytes info).length), none, none, none, none,
        none, 0⟩ (partsOf info) info.protocol)
      (lastNumber (partsOf info) info.protocol (payloadBytes info)) next2 (payloadBytes info) := by
  have least := @length_link info.protocol _ sized
  rw [buildPacket_link]
  unfold parsePacket
  rw [if_neg (by rw [length_append, length_header_bytes]; omega)]
  dsimp only
  rw [readHeader_all, wireHeader_version, version, if_neg (by simp), wireHeader_next, drop_left' length_header_bytes]
  apply parseExtHeader_all sized
  rw [length_append, length_header_bytes, length_append]
  omega

theorem parseExtHeader_result (parses : parseExtHeader fuel info next next2 payload = some parsed) :
    ¬Extension parsed.protocol ∧ (parsed.protocol = headerNone → parsed.payload = none) := by
  induction fuel generalizing info next next2 payload with
  | zero => cases parses
  | succ fuel ih =>
    unfold parseExtHeader at parses
    dsimp only at parses
    split at parses
    · split at parses
      · cases parses
      · split at parses
        · cases parses
        · exact ih parses
    · rename_i option
      split at parses
      · split at parses
        · cases parses
        · exact ih parses
      · rename_i fragment
        cases parses
        refine ⟨?_, ?_⟩
        · unfold Extension
          simp only
          tauto
        · intro isNone
          simp only at isNone ⊢
          rw [if_neg (not_not.mpr isNone)]

theorem sameOption_build {number : UInt8} {given : Option (List UInt8)}
    (sized : ∀ opt, given = some opt → 8 ∣ opt.length ∧ 8 ≤ opt.length) :
    SameOption given (given.map (buildOptionHeader · number)) := by
  cases given with
  | none => exact ⟨rfl, rfl⟩
  | some opt =>
    obtain ⟨multiple, least⟩ := sized opt rfl
    refine ⟨?_, ?_⟩
    · simp only [Option.map_some, length_buildOptionHeader multiple least]
    · simp only [Option.map_some, buildOptionHeader_eq multiple least]
      rfl

/-- The packet is parsed to what it was built from exactly when it is readable. -/
theorem parse_build_iff (info : PacketInfo) (sized : ∀ part ∈ partsOf info, part.Sized)
    (short : (buildPacket info).1.length < 65536) :
    (∃ parsed, parsePacket (buildPacket info).1 = some parsed ∧ Same info parsed ∧
      parsed.header.payloadLength.toNat + 40 = (buildPacket info).1.length) ↔ Readable info := by
  constructor
  · rintro ⟨parsed, parses, same, -⟩
    have version : info.header.versionAndTrafficClass1 >>> 4 &&& 0x0f = 6 := by
      by_contra other
      rw [buildPacket_link] at parses
      unfold parsePacket at parses
      rw [if_neg (by rw [length_append, length_header_bytes]; omega)] at parses
      dsimp only at parses
      rw [readHeader_all, wireHeader_version, if_pos other] at parses
      cases parses
    obtain ⟨fuel, next2, goes⟩ := parsePacket_build version sized
    rw [goes] at parses
    obtain ⟨upper, none⟩ := parseExtHeader_result parses
    rw [same.protocol] at upper none
    refine ⟨version, upper, ?_, ?_⟩
    · intro isNone
      have empty := same.payload
      rw [none isNone] at empty
      exact empty.symm
    · intro last isLast
      by_contra stale
      obtain ⟨short, other⟩ := not_or.mp stale
      have member := mem_of_getLast? isLast
      have least := size_le (sized last member)
      have empty : payloadBytes info = [] := eq_nil_of_length_eq_zero (by omega)
      unfold lastNumber at parses
      rw [isLast] at parses
      simp only [if_neg short] at parses
      by_cases alone : (partsOf info).length = 1
      · rw [if_pos alone, parseExtHeader_payload (by unfold Extension; decide)] at parses
        simp only [Option.some.injEq] at parses
        subst parses
        exact other ⟨same.protocol.symm, alone⟩
      · rw [if_neg alone, empty, parseExtHeader_nil] at parses
        cases parses
  · rintro ⟨version, upper, none, last⟩
    obtain ⟨fuel, next2, goes⟩ := parsePacket_build version sized
    have number : lastNumber (partsOf info) info.protocol (payloadBytes info) = info.protocol := by
      unfold lastNumber
      cases isLast : (partsOf info).getLast? with
      | none => rfl
      | some part =>
        rcases last part isLast with long | ⟨isNone, alone⟩
        · simp only [if_pos long]
        · simp only [if_pos alone, isNone, ite_self]
    obtain ⟨a, b, c, keeps⟩ := keepAll_partsOf (wireHeader info.header
      (firstNext (partsOf info) info.protocol)
      ((link (partsOf info) info.protocol).length + (payloadBytes info).length)) info
    rw [number, parseExtHeader_payload upper, keeps] at goes
    have packet := congrArg List.length (@buildPacket_link info)
    rw [length_append, length_header_bytes, length_append] at packet
    refine ⟨_, goes, ⟨rfl, ?_, ?_, ?_, rfl, rfl, ?_⟩, ?_⟩
    · apply sameOption_build
      intro opt is
      obtain ⟨multiple, least, -⟩ := sized (.hop opt) (by simp [partsOf, is])
      exact ⟨multiple, least⟩
    · apply sameOption_build
      intro opt is
      obtain ⟨multiple, least, -⟩ := sized (.endPoint opt) (by simp [partsOf, is])
      exact ⟨multiple, least⟩
    · apply sameOption_build
      intro opt is
      obtain ⟨multiple, least, -⟩ := sized (.routing opt) (by simp [partsOf, is])
      exact ⟨multiple, least⟩
    · unfold payloadBytes
      by_cases isNone : info.protocol = headerNone
      · simp [isNone, none isNone]
      · simp [isNone]
    · change (UInt16.ofNat _).toNat + 40 = _
      rw [UInt16.toNat_ofNat']
      omega

def optionInfo (endPoint : Option (List UInt8)) (protocol : UInt8) (payload : Option (List UInt8)) :
    PacketInfo where
  header := sendHeader (fun _ => 1) (fun _ => 2) 0
  hopHeader := some [0, 0, 1, 4, 0, 0, 0, 0]
  endPointHeader := endPoint
  routingHeader := none
  fragmentHeader := none
  payload := payload
  protocol := protocol

theorem parse_build_udp : ∃ parsed,
    parsePacket (buildPacket (optionInfo none 17 (some [7]))).1 = some parsed ∧
      Same (optionInfo none 17 (some [7])) parsed := by
  have sized : ∀ part ∈ partsOf (optionInfo none 17 (some [7])), part.Sized := by
    intro part member
    rw [show partsOf (optionInfo none 17 (some [7])) = [.hop [0, 0, 1, 4, 0, 0, 0, 0]] from rfl,
      mem_singleton] at member
    rw [member]
    exact ⟨by decide, by decide, by decide⟩
  have readable : Readable (optionInfo none 17 (some [7])) := by
    refine ⟨by decide, by unfold Extension; decide, by decide, ?_⟩
    intro part last
    cases last
    exact .inl (by decide)
  obtain ⟨parsed, parses, same, -⟩ := (parse_build_iff (optionInfo none 17 (some [7])) sized (by decide)).mpr readable
  exact ⟨parsed, parses, same⟩

/-- Two headers of eight bytes without a payload are not parsed, and one of them is parsed to a packet
without the protocol. -/
theorem short_header_lost :
    (parsePacket (buildPacket (optionInfo (some [0, 0, 1, 4, 0, 0, 0, 0]) 59 none)).1).isNone = true ∧
      (parsePacket (buildPacket (optionInfo none 17 (some []))).1).map PacketInfo.protocol =
        some 59 := by
  decide +kernel

end DisasVisor.Vpn.Ip6
