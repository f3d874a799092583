import DisasVisor.Lib.Words
import DisasVisor.Lib.Loops
import DisasVisor.Vpn.Ip4Packets
import DisasVisor.Vpn.Ip6Packets

/-!
The options of a DHCP message in `vpn/lib/Se/SeVpn4.c`, and the format of RFC 2132. The writer puts a size of
more than 8 bits in one byte; the reader takes the padding for an option with a length.
-/

namespace DisasVisor.Vpn.Dhcp

open List

open Ip4 (Addr)
open Ip6 (endian16 endian32)
open Passes

structure DhcpOption where
  id : UInt32
  data : List UInt8
  deriving DecidableEq

structure OptionList where
  opcode : UInt32
  requestedIp : Addr
  hostname : List UInt8
  serverAddress : Addr
  leaseTime : UInt32
  domainName : List UInt8
  subnetMask : Addr
  gateway : Addr
  dnsServer : Addr
  mtu : UInt32

def zeroIp : Addr := fun _ => 0

def OptionList.zero : OptionList := ⟨0, zeroIp, [], zeroIp, 0, [], zeroIp, zeroIp, zeroIp, 0⟩

def idMessageType : UInt32 := 0x35
def idRequestIpAddress : UInt32 := 0x32
def idHostName : UInt32 := 0x0c
def idServerAddress : UInt32 := 0x36
def idLeaseTime : UInt32 := 0x33
def idDomainName : UInt32 := 0x0f
def idSubnetMask : UInt32 := 0x01
def idGatewayAddr : UInt32 := 0x03
def idDnsAddr : UInt32 := 0x06
def idMtu : UInt32 := 0x1a

def opDiscover : UInt32 := 1
def opRequest : UInt32 := 3

def seIsEmptyStr (str : List UInt8) : Bool := str.all fun c => c = 0x20 ∨ c = 0x09

def seVpn4DhcpBuildDhcpOptionList (opt : OptionList) : List DhcpOption :=
  [⟨idMessageType, [opt.opcode.toUInt8]⟩, ⟨idServerAddress, List.ofFn opt.serverAddress⟩,
    ⟨idLeaseTime, endian32 opt.leaseTime⟩] ++
  (if seIsEmptyStr opt.domainName = false ∧ opt.dnsServer ≠ zeroIp then [⟨idDomainName, opt.domainName⟩] else []) ++
  (if opt.subnetMask ≠ zeroIp then [⟨idSubnetMask, List.ofFn opt.subnetMask⟩] else []) ++
  (if opt.gateway ≠ zeroIp then [⟨idGatewayAddr, List.ofFn opt.gateway⟩] else []) ++
  (if opt.dnsServer ≠ zeroIp then [⟨idDnsAddr, List.ofFn opt.dnsServer⟩] else []) ++
  (if opt.mtu ≠ 0 then [⟨idMtu, endian16 opt.mtu.toUInt16⟩] else [])

def DhcpOption.bytes (d : DhcpOption) : List UInt8 := d.id.toUInt8 :: UInt8.ofNat d.data.length :: d.data

def seVpn4DhcpOptionsToBuf (o : List DhcpOption) : List UInt8 := o.flatMap DhcpOption.bytes ++ [0xff]

def readData (size : Nat) (rest : List UInt8) : List UInt8 := rest.take size ++ List.replicate (size - rest.length) 0

def optionPass : List DhcpOption × List UInt8 → (List DhcpOption × List UInt8) ⊕ List DhcpOption
  | (o, []) => .inr o
  | (o, c :: rest) =>
    if c = 0xff then .inr o
    else
      match rest with
      | [] => .inr o
      | sz :: rest => .inl (o ++ [⟨c.toUInt32, readData sz.toNat rest⟩], rest.drop sz.toNat)

def seVpn4DhcpParseOptionListMain (fuel : Nat) (data : List UInt8) : Option (List DhcpOption) :=
  run optionPass fuel ([], data)

def seVpn4DhcpSearchOption (o : List DhcpOption) (id : UInt32) : Option DhcpOption :=
  o.foldl (fun ret opt => if opt.id = id then some opt else ret) none

def interpret (o : List DhcpOption) : OptionList :=
  let opt := OptionList.zero
  let opt :=
    match seVpn4DhcpSearchOption o idMessageType with
    | some a => if a.data.length = 1 then { opt with opcode := (a.data.getD 0 0).toUInt32 } else opt
    | none => opt
  if opt.opcode = opDiscover ∨ opt.opcode = opRequest then
    let opt :=
      match seVpn4DhcpSearchOption o idRequestIpAddress with
      | some a => if a.data.length = 4 then { opt with requestedIp := fun i => a.data.getD i 0 } else opt
      | none => opt
    match seVpn4DhcpSearchOption o idHostName with
    | some a => if a.data.length > 1 then { opt with hostname := a.data.take (min a.data.length 511) } else opt
    | none => opt
  else opt

def seVpn4DhcpParseOptionList (fuel : Nat) (data : List UInt8) : Option OptionList :=
  (seVpn4DhcpParseOptionListMain fuel data).map interpret

structure WireOption where
  code : UInt8
  data : List UInt8
  notPad : code ≠ 0
  notEnd : code ≠ 0xff
  short : data.length ≤ 255

inductive Item
  | pad
  | wire (option : WireOption)

def Item.bytes : Item → List UInt8
  | .pad => [0]
  | .wire option => option.code :: UInt8.ofNat option.data.length :: option.data

def field (items : List Item) (behind : List UInt8) : List UInt8 := items.flatMap Item.bytes ++ 0xff :: behind

def denoted : List Item → List DhcpOption
  | [] => []
  | .pad :: items => denoted items
  | .wire option :: items => ⟨option.code.toUInt32, option.data⟩ :: denoted items

def Parses (data : List UInt8) (o : List DhcpOption) : Prop :=
  seVpn4DhcpParseOptionListMain (data.length + 1) data = some o

variable {o : List DhcpOption} {data rest : List UInt8} {s t : List DhcpOption × List UInt8}

theorem optionPass_goes (goes : optionPass s = .inl t) : ∃ c sz rest, s.2 = c :: sz :: rest ∧
    t = (s.1 ++ [⟨c.toUInt32, readData sz.toNat rest⟩], rest.drop sz.toNat) := by
  obtain ⟨o, buf⟩ := s
  rcases buf with _ | ⟨c, _ | ⟨sz, rest⟩⟩
  · cases goes
  · simp only [optionPass] at goes
    split at goes
    · cases goes
    · cases goes
  · simp only [optionPass] at goes
    split at goes
    · cases goes
    · cases goes
      exact ⟨c, sz, rest, rfl, rfl⟩

theorem optionPass_shorter (goes : optionPass s = .inl t) : t.2.length < s.2.length := by
  obtain ⟨c, sz, rest, shape, rfl⟩ := optionPass_goes goes
  simp only [shape, length_drop, length_cons]
  omega

theorem parses_some (data : List UInt8) : ∃ o, Parses data o :=
  ends_of_measure (fun _ => True) (fun s => s.2.length) (fun _ _ _ _ => trivial)
    (fun _ _ _ goes => optionPass_shorter goes) (s := ([], data)) trivial

theorem parses_iff : Parses data o ↔ Yields optionPass ([], data) o := by
  constructor
  · intro parses
    exact ⟨_, parses⟩
  · intro yields
    obtain ⟨other, parses⟩ := parses_some data
    rw [yields.unique ⟨_, parses⟩]
    exact parses

theorem optionPass_end (o : List DhcpOption) (behind : List UInt8) : optionPass (o, 0xff :: behind) = .inr o := rfl

theorem optionPass_option {c : UInt8} (notEnd : c ≠ 0xff) (short : data.length ≤ 255) (o : List DhcpOption)
    (rest : List UInt8) :
    optionPass (o, c :: UInt8.ofNat data.length :: (data ++ rest)) = .inl (o ++ [⟨c.toUInt32, data⟩], rest) := by
  have size : (UInt8.ofNat data.length).toNat = data.length := UInt8.toNat_ofNat_of_lt' (by change _ < 256; omega)
  have whole : readData data.length (data ++ rest) = data := by
    rw [readData, take_left, length_append, Nat.sub_eq_zero_of_le (Nat.le_add_right _ _)]
    exact append_nil data
  simp only [optionPass, if_neg notEnd, size, whole, drop_left]

theorem optionPass_lengths (goes : optionPass s = .inl t) (short : ∀ d ∈ s.1, d.data.length ≤ 255) :
    ∀ d ∈ t.1, d.data.length ≤ 255 := by
  obtain ⟨c, sz, rest, -, rfl⟩ := optionPass_goes goes
  intro d member
  rcases mem_append.mp member with old | new
  · exact short d old
  · rw [mem_singleton.mp new]
    have bound := sz.toNat_lt
    simp only [readData, length_append, length_take, length_replicate]
    omega

theorem optionPass_result (leaves : optionPass s = .inr o) : o = s.1 := by
  obtain ⟨list, buf⟩ := s
  rcases buf with _ | ⟨c, _ | ⟨sz, rest⟩⟩
  · cases leaves
    rfl
  · simp only [optionPass] at leaves
    split at leaves
    · cases leaves
      rfl
    · cases leaves
      rfl
  · simp only [optionPass] at leaves
    split at leaves
    · cases leaves
      rfl
    · cases leaves

theorem Parses.invariant (inv : List DhcpOption → Prop)
    (keeps : ∀ s t, optionPass s = .inl t → inv s.1 → inv t.1) (parses : Parses data o) (start : inv []) : inv o := by
  obtain ⟨s, reached, leaves⟩ := run_cases parses
  rw [optionPass_result leaves]
  exact reached.invariant (fun s => inv s.1) (fun s t here goes => keeps s t goes here) start

theorem Parses.lengths (parses : Parses data o) : ∀ d ∈ o, d.data.length ≤ 255 :=
  parses.invariant (fun o => ∀ d ∈ o, d.data.length ≤ 255)
    (fun _ _ goes short => optionPass_lengths goes short) (fun _ none' => by cases none')

theorem parses_options : ∀ (options before : List DhcpOption) (behind : List UInt8),
    (∀ d ∈ options, d.id.toUInt8 ≠ 0xff ∧ d.id.toUInt8.toUInt32 = d.id ∧ d.data.length ≤ 255) →
    Yields optionPass (before, options.flatMap DhcpOption.bytes ++ 0xff :: behind) (before ++ options)
  | [], before, behind, _ => by
      rw [append_nil]
      exact yields_of_result (optionPass_end before behind)
  | d :: options, before, behind, fine => by
      obtain ⟨notEnd, same, short⟩ := fine d mem_cons_self
      have later := parses_options options (before ++ [d]) behind
        (fun other member => fine other (mem_cons_of_mem d member))
      have first := optionPass_option notEnd short before (options.flatMap DhcpOption.bytes ++ 0xff :: behind)
      rw [same] at first
      rw [append_assoc] at later
      rw [flatMap_cons, DhcpOption.bytes, append_assoc, cons_append, cons_append]
      exact Yields.of_next first later

def NamesDomain (opt : OptionList) : Prop := seIsEmptyStr opt.domainName = false ∧ opt.dnsServer ≠ zeroIp

def ids : List UInt32 :=
  [idMessageType, idServerAddress, idLeaseTime, idDomainName, idSubnetMask, idGatewayAddr, idDnsAddr, idMtu]

theorem ids_fit : ∀ id ∈ ids, id.toUInt8 ≠ 0xff ∧ id.toUInt8.toUInt32 = id := forall_iff_forall_mem.mp (by decide)

theorem build_cases {opt : OptionList} {d : DhcpOption} (member : d ∈ seVpn4DhcpBuildDhcpOptionList opt) :
    d.id ∈ ids ∧ (d.data.length ≤ 4 ∨ NamesDomain opt ∧ d.data = opt.domainName) := by
  simp only [seVpn4DhcpBuildDhcpOptionList, mem_append, mem_cons, not_mem_nil, or_false] at member
  rcases member with (((((rfl | rfl | rfl) | domain) | mask) | gateway) | dns) | mtu
  · exact ⟨by simp [ids], .inl (by simp)⟩
  · exact ⟨by simp [ids], .inl (by simp)⟩
  · exact ⟨by simp [ids], .inl (by simp [endian32])⟩
  · split at domain
    · rename_i named
      rw [mem_singleton.mp domain]
      exact ⟨by simp [ids], .inr ⟨named, rfl⟩⟩
    · cases domain
  · split at mask
    · rw [mem_singleton.mp mask]
      exact ⟨by simp [ids], .inl (by simp)⟩
    · cases mask
  · split at gateway
    · rw [mem_singleton.mp gateway]
      exact ⟨by simp [ids], .inl (by simp)⟩
    · cases gateway
  · split at dns
    · rw [mem_singleton.mp dns]
      exact ⟨by simp [ids], .inl (by simp)⟩
    · cases dns
  · split at mtu
    · rw [mem_singleton.mp mtu]
      exact ⟨by simp [ids], .inl (by simp [endian16])⟩
    · cases mtu

theorem domain_mem {opt : OptionList} (named : NamesDomain opt) :
    ⟨idDomainName, opt.domainName⟩ ∈ seVpn4DhcpBuildDhcpOptionList opt := by
  have part : (if seIsEmptyStr opt.domainName = false ∧ opt.dnsServer ≠ zeroIp then
      [DhcpOption.mk idDomainName opt.domainName] else []) = [⟨idDomainName, opt.domainName⟩] := if_pos named
  rw [seVpn4DhcpBuildDhcpOptionList, part]
  simp

theorem build_round_trip (opt : OptionList) :
    Parses (seVpn4DhcpOptionsToBuf (seVpn4DhcpBuildDhcpOptionList opt)) (seVpn4DhcpBuildDhcpOptionList opt) ↔
      (NamesDomain opt → opt.domainName.length ≤ 255) := by
  constructor
  · intro parses named
    exact parses.lengths _ (domain_mem named)
  · intro short
    rw [parses_iff]
    refine parses_options _ [] [] (fun d member => ?_)
    obtain ⟨known, small | ⟨named, is⟩⟩ := build_cases member
    · obtain ⟨notEnd, same⟩ := ids_fit d.id known
      exact ⟨notEnd, same, by omega⟩
    · obtain ⟨notEnd, same⟩ := ids_fit d.id known
      exact ⟨notEnd, same, is ▸ short named⟩

theorem denoted_nonzero : ∀ items : List Item, ∀ d ∈ denoted items, d.id ≠ 0
  | [], d, member => by cases member
  | .pad :: items, d, member => denoted_nonzero items d member
  | .wire option :: items, d, member => by
      rcases mem_cons.mp member with rfl | later
      · intro zero
        have byte : option.code.toUInt32.toUInt8 = 0 := congrArg UInt32.toUInt8 zero
        rw [UInt8.toUInt8_toUInt32] at byte
        exact option.notPad byte
      · exact denoted_nonzero items d later

theorem field_wire {option : WireOption} {items : List Item} {behind : List UInt8} : field (.wire option :: items) behind =
    option.code :: UInt8.ofNat option.data.length :: (option.data ++ field items behind) := by
  simp only [field, flatMap_cons, Item.bytes, cons_append, append_assoc]

theorem yields_denoted : ∀ (items : List Item) (before : List DhcpOption) (behind : List UInt8), .pad ∉ items →
    Yields optionPass (before, field items behind) (before ++ denoted items)
  | [], before, behind, _ => by
      rw [denoted, append_nil]
      exact yields_of_result (optionPass_end before behind)
  | .pad :: items, before, behind, clear => absurd mem_cons_self clear
  | .wire option :: items, before, behind, clear => by
      have later := yields_denoted items (before ++ [⟨option.code.toUInt32, option.data⟩]) behind
        (fun member => clear (mem_cons_of_mem _ member))
      rw [append_assoc] at later
      have first := optionPass_option option.notEnd option.short before (field items behind)
      rw [field_wire]
      exact Yields.of_next first later

theorem optionPass_keeps {d : DhcpOption} (goes : optionPass s = .inl t) (member : d ∈ s.1) : d ∈ t.1 := by
  obtain ⟨c, sz, rest, -, rfl⟩ := optionPass_goes goes
  exact mem_append_left _ member

theorem reaches_pad : ∀ (items : List Item) (before : List DhcpOption) (behind : List UInt8), .pad ∈ items →
    ∃ s, Reaches optionPass (before, field items behind) s ∧ ∃ d ∈ s.1, d.id = 0
  | [], _, _, member => by cases member
  | .pad :: items, before, behind, _ => by
      have something : field items behind ≠ [] := by
        intro none'
        have length := congrArg List.length none'
        simp only [field, length_append, length_cons, length_nil] at length
        omega
      obtain ⟨sz, rest, shape⟩ := exists_cons_of_ne_nil something
      have start : field (.pad :: items) behind = 0 :: sz :: rest := by
        rw [← shape]
        rfl
      rw [start]
      refine ⟨_, Reaches.start.next (show optionPass (before, 0 :: sz :: rest) = .inl _ from rfl),
        ⟨0, readData sz.toNat rest⟩, ?_, rfl⟩
      exact mem_append_right _ (mem_singleton.mpr rfl)
  | .wire option :: items, before, behind, member => by
      have later : .pad ∈ items := by
        rcases mem_cons.mp member with same | later
        · cases same
        · exact later
      obtain ⟨s, reached, found⟩ := reaches_pad items (before ++ [⟨option.code.toUInt32, option.data⟩]) behind later
      have first := optionPass_option option.notEnd option.short before (field items behind)
      rw [field_wire]
      exact ⟨s, Reaches.of_next first reached, found⟩

theorem field_round_trip (items : List Item) (behind : List UInt8) :
    Parses (field items behind) (denoted items) ↔ .pad ∉ items := by
  constructor
  · intro parses padded
    obtain ⟨s, reached, d, member, zero⟩ := reaches_pad items [] behind padded
    obtain ⟨fuel, done⟩ := (parses_iff.mp parses).of_reaches reached
    obtain ⟨t, reached', leaves⟩ := run_cases done
    have kept : d ∈ t.1 := reached'.invariant (fun u => d ∈ u.1) (fun _ _ here goes => optionPass_keeps goes here) member
    rw [← optionPass_result leaves] at kept
    exact denoted_nonzero items d kept zero
  · intro clear
    rw [parses_iff]
    exact yields_denoted items [] behind clear

/-- Reading always ends; what was built is read back unless a domain name is longer than its length byte, and
a field is read as it stands unless there is padding in it. -/
theorem options_exact (data : List UInt8) :
    (∃ o, Parses data o) ∧
    (∀ opt, Parses (seVpn4DhcpOptionsToBuf (seVpn4DhcpBuildDhcpOptionList opt)) (seVpn4DhcpBuildDhcpOptionList opt) ↔
      (NamesDomain opt → opt.domainName.length ≤ 255)) ∧
    (∀ items behind, Parses (field items behind) (denoted items) ↔ .pad ∉ items) ∧
    ∀ items behind, .pad ∉ items →
      seVpn4DhcpParseOptionList ((field items behind).length + 1) (field items behind) =
        some (interpret (denoted items)) := by
  refine ⟨parses_some data, build_round_trip, field_round_trip, ?_⟩
  intro items behind clear
  have parses : seVpn4DhcpParseOptionListMain _ _ = some _ := (field_round_trip items behind).mpr clear
  rw [seVpn4DhcpParseOptionList, parses]
  rfl

def discover : WireOption := ⟨0x35, [1], by decide, by decide, by decide⟩

theorem options_exact_discover : Parses (field [.wire discover] []) [⟨0x35, [1]⟩] ∧
    seVpn4DhcpParseOptionList 5 (field [.wire discover] []) = some (interpret [⟨0x35, [1]⟩]) :=
  ⟨((options_exact []).2.2.1 [.wire discover] []).mpr (by simp), (options_exact []).2.2.2 [.wire discover] [] (by simp)⟩

def longDomain : OptionList := { OptionList.zero with domainName := List.replicate 256 0x61, dnsServer := fun _ => 1 }

/-- A domain name of 256 letters has the length 0 before it; and one octet of padding hides the type of a message. -/
theorem options_shift :
    ¬Parses (seVpn4DhcpOptionsToBuf (seVpn4DhcpBuildDhcpOptionList longDomain))
      (seVpn4DhcpBuildDhcpOptionList longDomain) ∧
    ¬Parses (field [.pad, .wire discover] []) (denoted [.pad, .wire discover]) ∧
    (seVpn4DhcpParseOptionList 6 (field [.pad, .wire discover] [])).map OptionList.opcode = some 0 := by
  refine ⟨?_, ?_, by decide⟩
  · intro parses
    have named : NamesDomain longDomain := by
      refine ⟨by decide, fun same => ?_⟩
      have first := congrFun same 0
      cases first
    have short := (build_round_trip longDomain).mp parses named
    rw [show longDomain.domainName = List.replicate 256 0x61 from rfl, length_replicate] at short
    omega
  · intro parses
    exact (field_round_trip _ _).mp parses mem_cons_self

end DisasVisor.Vpn.Dhcp
