import DisasVisor.Vpn.EspSoundness
import DisasVisor.Vpn.Ip4RoundTrip
import DisasVisor.Vpn.Ip4Slices

/-!
The tunnel in `vpn/lib/Se/SeVpn4.c`: the ESP packets of one end go through the physical network as
IPv4 packets, and the other end hands the datagrams of the network to its `SE_SEC`.
-/

namespace DisasVisor.Vpn.Vpn4

open Ip4 Esp List
open Ip6 (pieceCount readEndian16)

def seIkeInitIPv4Address (addr : Addr) : IkeIpAddr := ⟨ofFn addr, false⟩

def seIkeGetIPv4Address (a : IkeIpAddr) : Addr := fun i => a.address.getD i 0

def seIpProtoUdp : UInt8 := 0x11

def seIpProtoEsp : UInt8 := 0x32

def seVpn4ClientSendEsp (fuel mtu : Nat) (idSeed : UInt16) (destAddr srcAddr : IkeIpAddr)
    (data : List UInt8) : Option (List (List UInt8)) :=
  se4SendIp fuel mtu idSeed (seIkeGetIPv4Address destAddr) (seIkeGetIPv4Address srcAddr) seIpProtoEsp 0 data

inductive Callback where
  | udpRecv (destAddr srcAddr : IkeIpAddr) (destPort srcPort : UInt16) (data : List UInt8)
  | espRecv (destAddr srcAddr : IkeIpAddr) (data : List UInt8)

/-- The callback that is called for a datagram. `behind` is what lies behind the datagram. -/
def seVpn4IPsecInputFromPhysical (behind : Nat → UInt8) (d : Datagram) : Option Callback :=
  let destAddr := seIkeInitIPv4Address d.destIp
  let srcAddr := seIkeInitIPv4Address d.srcIp
  if d.protocol = seIpProtoUdp then
    match (se4ParseIpPacketUDPv4 d.data).flow with
    | .next true =>
      let dataSize := ((readEndian16 d.data 4).toNat + 2 ^ 32 - 8) % 2 ^ 16
      some (.udpRecv destAddr srcAddr (readEndian16 d.data 2) (readEndian16 d.data 0)
        ((d.data.drop 8 ++ (range dataSize).map behind).take dataSize))
    | _ => none
  else if d.protocol = seIpProtoEsp then some (.espRecv destAddr srcAddr d.data)
  else none

variable {κ : Type}

def espSize (size : Nat) : Nat := (size + 9) / 8 * 8 + 28

/-- The SAs of the two ends of a tunnel from `here` to `there`. -/
structure Tunnel (sender peer : Sec κ) (outgoing incoming : IpsecSa κ) (here there : Addr) : Prop where
  sends : sender.getIPsecSa true = some outgoing
  receives : peer.getIPsecSa false = some incoming
  spi : incoming.spi = outgoing.spi
  hashKey : incoming.hashKey = outgoing.hashKey
  desKey : incoming.desKey = outgoing.desKey
  srcAddr : outgoing.srcAddr = seIkeInitIPv4Address here
  destAddr : outgoing.destAddr = seIkeInitIPv4Address there
  peerSrcAddr : incoming.srcAddr = outgoing.destAddr
  peerDestAddr : incoming.destAddr = outgoing.srcAddr

theorem seIkeGetIPv4Address_init (addr : Addr) : seIkeGetIPv4Address (seIkeInitIPv4Address addr) = addr := by
  funext i
  have byte := ByteOrder.getD_ofFn addr i []
  rwa [append_nil] at byte

variable {sender peer : Sec κ} {outgoing incoming : IpsecSa κ} {here there : Addr} {data : List UInt8} {d : Datagram}
  {payload : List UInt8} {id : UInt16}

theorem Tunnel.ipv6 (tunnel : Tunnel sender peer outgoing incoming here there) : peer.ipv6 = sender.ipv6 := by
  rw [← (sender.family outgoing (getIPsecSa_mem tunnel.sends)).2,
    ← (peer.family incoming (getIPsecSa_mem tunnel.receives)).1, tunnel.peerSrcAddr]

theorem input_esp {esp : List UInt8} (delivers : Delivers (sentKey there here id seIpProtoEsp) esp d)
    (behind : Nat → UInt8) : seVpn4IPsecInputFromPhysical behind d =
      some (.espRecv (seIkeInitIPv4Address there) (seIkeInitIPv4Address here) esp) := by
  have protocol : d.protocol = seIpProtoEsp := delivers.protocol
  have destIp : d.destIp = there := delivers.destIp
  have srcIp : d.srcIp = here := delivers.srcIp
  rw [seVpn4IPsecInputFromPhysical, protocol, destIp, srcIp, delivers.data]
  rfl

theorem se4SendIp_roundTrips (fuel : Nat) {mtu : Nat} (id : UInt16) (there here : Addr) (protocol ttl : UInt8)
    (configured : 28 ≤ mtu ∧ mtu ≤ 1500) (some' : payload ≠ []) (small : payload.length ≤ 65535)
    (enough : payload.length ≤ fuel) (aligned : payload.length ≤ mtu - 20 ∨ 8 ∣ mtu - 20) :
    ∃ packets, se4SendIp fuel mtu id there here protocol ttl payload = some packets ∧
      (∀ packet ∈ packets, packet.length ≤ mtu) ∧
      ∀ memory tick isBroadcast, RoundTrips memory tick isBroadcast packets there here id protocol payload := by
  have positive := length_pos_of_ne_nil some'
  refine ⟨_, se4SendIp_eq (by omega) (by omega) some' small fuel enough, ?_, ?_⟩
  · intro packet member
    obtain ⟨j, -, rfl⟩ := mem_map.mp member
    rw [packetAt, length_packetOf, Ip6.length_slice]
    omega
  · intro memory tick isBroadcast
    by_cases whole : payload.length ≤ mtu - 20
    · have single : pieceCount payload.length (mtu - 20) = 1 := by
        have first := (@Ip6.lt_pieceCount (mtu - 20) 0 payload (by omega)).mpr (by omega)
        have second := mt (@Ip6.lt_pieceCount (mtu - 20) 1 payload (by omega)).mp (by omega)
        omega
      rw [single, range_one, map_singleton]
      exact roundTrips_one some' (by omega) whole
    · exact (roundTrips_several (by omega) (by omega) (by omega) small).mpr (aligned.resolve_left whole)

/-- What one end sends arrives unchanged, whatever the order in which the physical network brings the packets. -/
theorem tunnel_delivers (tunnel : Tunnel sender peer outgoing incoming here there) (crypto : Crypto κ)
    (memory : Nat → UInt8) (fuel mtu : Nat) (id : UInt16) (configured : 28 ≤ mtu ∧ mtu ≤ 1500)
    (small : espSize data.length ≤ 65535) (enough : espSize data.length ≤ fuel)
    (aligned : espSize data.length ≤ mtu - 20 ∨ 8 ∣ mtu - 20) :
    ∃ sent packets, sender.virtualIpRecvCallback crypto memory data = some (some sent) ∧
      seVpn4ClientSendEsp fuel mtu id sent.destAddr sent.srcAddr sent.esp = some packets ∧
      (∀ packet ∈ packets, packet.length ≤ mtu) ∧
      ∀ (buffer : Nat → UInt8) (tick : UInt64) (isBroadcast : Bool) (order : List Nat),
        order.Perm (range packets.length) →
          ∃ p d, receivePackets buffer tick isBroadcast Receiver.idle (order.map fun i => packets.getD i []) =
              some (p, [d]) ∧
            ∀ behind, ∃ destAddr srcAddr esp,
              seVpn4IPsecInputFromPhysical behind d = some (.espRecv destAddr srcAddr esp) ∧
                peer.espRecvCallback crypto destAddr srcAddr esp = some (some data) := by
  have padded := (padLen_spec data.length).2.2
  have length : (espPacket crypto sender.ipv6 outgoing data).length = espSize data.length := by
    rw [length_espPacket, espSize]
    omega
  have fits : data.length + 30 ≤ espSize data.length := by
    rw [espSize]
    omega
  rw [← length] at small enough aligned fits
  have some' := ne_nil_of_length_pos (Nat.lt_of_lt_of_le (Nat.succ_pos _) fits)
  obtain ⟨packets, goes, narrow, trips⟩ := se4SendIp_roundTrips fuel id there here seIpProtoEsp 0 configured some' small
    enough aligned
  refine ⟨_, packets, virtualIpRecvCallback_eq tunnel.sends memory (by omega), ?_, narrow, ?_⟩
  · rw [seVpn4ClientSendEsp, tunnel.srcAddr, tunnel.destAddr, seIkeGetIPv4Address_init, seIkeGetIPv4Address_init]
    exact goes
  · intro buffer tick isBroadcast order perm
    obtain ⟨p, d, comes, delivers⟩ := trips buffer tick isBroadcast order perm
    refine ⟨p, d, comes, fun behind => ⟨_, _, _, input_esp delivers behind, ?_⟩⟩
    rw [← tunnel.srcAddr, ← tunnel.destAddr, ← tunnel.ipv6]
    exact espRecvCallback_espPacket tunnel.receives tunnel.spi tunnel.hashKey tunnel.desKey tunnel.peerSrcAddr
      tunnel.peerDestAddr (by omega)

theorem tunnel_delivers_three : ∃ sent packets,
    (oneSec true [1, 1, 1, 1] [2, 2, 2, 2]).virtualIpRecvCallback clearCrypto (fun _ => 0) [0x45, 0, 9] =
        some (some sent) ∧
      seVpn4ClientSendEsp 99 1400 1 sent.destAddr sent.srcAddr sent.esp = some packets ∧
      ∃ p d, receivePackets (fun _ => 0) 0 false Receiver.idle
          ((range packets.length).map fun i => packets.getD i []) = some (p, [d]) ∧
        ∀ behind, ∃ destAddr srcAddr esp,
          seVpn4IPsecInputFromPhysical behind d = some (.espRecv destAddr srcAddr esp) ∧
            (oneSec false [2, 2, 2, 2] [1, 1, 1, 1]).espRecvCallback clearCrypto destAddr srcAddr esp =
              some (some [0x45, 0, 9]) := by
  have tunnel : Tunnel (oneSec true [1, 1, 1, 1] [2, 2, 2, 2]) (oneSec false [2, 2, 2, 2] [1, 1, 1, 1])
      (oneSa true [1, 1, 1, 1] [2, 2, 2, 2]) (oneSa false [2, 2, 2, 2] [1, 1, 1, 1])
      (fun _ => 1) (fun _ => 2) := ⟨rfl, rfl, rfl, rfl, rfl, rfl, rfl, rfl, rfl⟩
  obtain ⟨sent, packets, sends, goes, -, comes⟩ := @tunnel_delivers Unit _ _ _ _ _ _ [0x45, 0, 9] tunnel clearCrypto
    (fun _ => 0) 99 1400 1 (by decide) (by decide) (by decide) (by decide)
  exact ⟨sent, packets, sends, goes, comes (fun _ => 0) 0 false _ (Perm.refl _)⟩

end DisasVisor.Vpn.Vpn4
