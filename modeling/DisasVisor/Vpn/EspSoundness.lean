import Mathlib.Data.List.GetD
import DisasVisor.Vpn.EspRoundTrip

/-!
What `SeSecEspRecvCallback` delivers: from the packet of the other end its bytes, and from any packet
a part of the decrypted block, if the packet is authenticated.
-/

namespace DisasVisor.Vpn.Esp

open List
open UInt32 (toNat_sub toNat_add)

variable {κ : Type} {crypto : Crypto κ} {sa : IpsecSa κ} {front back bytes data : List UInt8}
  {start size : UInt32} {ipv6 : Bool}

structure ReceivedSizes (size : UInt32) (m : Nat) : Prop where
  block : (size - (4 + 4 + encIvSize + hashSize)).toNat = m
  hash : (4 + 4 + encIvSize + (size - (4 + 4 + encIvSize + hashSize))).toNat = 16 + m
  authenticated : (size - hashSize).toNat = 16 + m

variable {m : Nat} {packet : List UInt8} {s : Sec κ}

theorem receivedSizes_of (number : size.toNat = m + 28) : ReceivedSizes size m := by
  have bound := size.toNat_lt
  have head : (4 + 4 + encIvSize : UInt32).toNat = 16 := rfl
  have around : (4 + 4 + encIvSize + hashSize : UInt32).toNat = 28 := rfl
  have twelve : hashSize.toNat = 12 := rfl
  have block : (size - (4 + 4 + encIvSize + hashSize)).toNat = m := by
    rw [toNat_sub, around, number]
    omega
  refine ⟨block, ?_, ?_⟩
  · rw [toNat_add, head, block]
    omega
  · rw [toNat_sub, twelve, number]
    omega

theorem get_of_room {buf : List UInt8} (room : start.toNat + size.toNat ≤ buf.length) :
    get buf start size = some ((buf.drop start.toNat).take size.toNat) :=
  if_pos room

def openBlock (ipv6 : Bool) (payload : List UInt8) : Option (List UInt8) :=
  let padding := payload.getD (payload.length - 2) 0
  if payload.length ≥ 2 + padding.toNat ∧ payload.getD (payload.length - 1) 0 = nextHeaderFor ipv6 then
    some (payload.take (payload.length - (2 + padding.toNat)))
  else none

structure Authentic (crypto : Crypto κ) (sa : IpsecSa κ) (m : Nat) (packet : List UInt8) : Prop where
  spi : readUint (packet.take 4) = sa.spi
  whole : m % 8 = 0
  hash : packet.drop (16 + m) = crypto.macSha196 sa.hashKey (packet.take (16 + m))

def decrypted (crypto : Crypto κ) (sa : IpsecSa κ) (m : Nat) (packet : List UInt8) : List UInt8 :=
  crypto.des3Decrypt sa.desKey ((packet.drop 8).take 8) ((packet.drop 16).take m)

theorem length_decrypted (length : packet.length = m + 28) (whole : m % 8 = 0) :
    (decrypted crypto sa m packet).length = m := by
  have taken : ((packet.drop 16).take m).length = m := by
    rw [length_take, length_drop]
    omega
  rw [decrypted, crypto.length_decrypt _ _ _ (by rw [taken]; exact whole), taken]

theorem open_eq {payload : List UInt8} {blockSize : UInt32} (length : payload.length = m)
    (number : blockSize.toNat = m) (room : 8 ≤ m) :
    (do
      let padding ← payload[(blockSize - 2).toNat]?
      let next ← payload[(blockSize - 1).toNat]?
      if blockSize.toNat ≥ 2 + padding.toNat then
        let payloadSize := blockSize - (2 + padding.toUInt32)
        if next = nextHeaderFor ipv6 then
          let delivered ← get payload 0 payloadSize
          return some delivered
        else return none
      else return none : Option (Option (List UInt8))) = some (openBlock ipv6 payload) := by
  have two : (2 : UInt32).toNat = 2 := rfl
  have one := UInt32.toNat_one
  have zero := UInt32.toNat_zero
  have bound := blockSize.toNat_lt
  have beforeLast : (blockSize - 2).toNat = payload.length - 2 := by
    rw [toNat_sub, number, two]
    omega
  have last : (blockSize - 1).toNat = payload.length - 1 := by
    rw [toNat_sub, number, one]
    omega
  have read : ∀ i < m, payload[i]? = some (payload.getD i 0) := by
    intro i inside
    simp [List.getD, List.getElem?_eq_getElem (length ▸ inside)]
  rw [beforeLast, last, length, read (m - 2) (by omega), read (m - 1) (by omega)]
  simp only [Option.bind_eq_bind, Option.bind_some, openBlock, number, length]
  generalize payload.getD (m - 2) 0 = padding
  generalize payload.getD (m - 1) 0 = next
  by_cases enough : m ≥ 2 + padding.toNat
  · by_cases header : next = nextHeaderFor ipv6
    · have cut : (blockSize - (2 + padding.toUInt32)).toNat = m - (2 + padding.toNat) := by
        have small := padding.toNat_lt
        rw [toNat_sub, toNat_add, number, two, UInt8.toNat_toUInt32]
        omega
      rw [if_pos enough, if_pos header, if_pos ⟨enough, header⟩, get_of_room (by rw [zero, cut]; omega), cut]
      rfl
    · rw [if_pos enough, if_neg header, if_neg (fun both => header both.2)]
      rfl
  · rw [if_neg enough, if_neg (fun both => enough both.1)]
    rfl

open Classical in
theorem espRecvCallback_eq {destAddr srcAddr : IkeIpAddr} (found : s.getIPsecSa false = some sa)
    (dest : sa.destAddr = srcAddr) (src : sa.srcAddr = destAddr) (length : packet.length = m + 28) (room : 8 ≤ m)
    (small : packet.length < 2 ^ 32) :
    s.espRecvCallback crypto destAddr srcAddr packet =
      some (if Authentic crypto sa m packet then openBlock s.ipv6 (decrypted crypto sa m packet) else none) := by
  have number : packet.length.toUInt32.toNat = m + 28 := by
    simp only [Nat.toUInt32, UInt32.toNat_ofNat']
    omega
  have sizes := receivedSizes_of number
  have zero : (0 : UInt32).toNat = 0 := rfl
  have four : (4 : UInt32).toNat = 4 := rfl
  have eight : (4 + 4 : UInt32).toNat = 8 := rfl
  have ivSize : encIvSize.toNat = 8 := rfl
  have start : (4 + 4 + encIvSize : UInt32).toNat = 16 := rfl
  have twelve : hashSize.toNat = 12 := rfl
  have least : (4 + 4 + encIvSize + encBlockSize + hashSize : UInt32).toNat = 36 := rfl
  have long : packet.length.toUInt32 ≥ 4 + 4 + encIvSize + encBlockSize + hashSize := by
    rw [ge_iff_le, UInt32.le_iff_toNat_le, least, number]
    omega
  have spi : get packet 0 4 = some (packet.take 4) := get_of_room (by rw [zero, four]; omega)
  have iv : get packet (4 + 4) encIvSize = some ((packet.drop 8).take 8) := get_of_room (by rw [eight, ivSize]; omega)
  have hash : get packet (4 + 4 + encIvSize + (packet.length.toUInt32 -
      (4 + 4 + encIvSize + hashSize))) hashSize = some (packet.drop (16 + m)) := by
    rw [get_of_room (by rw [sizes.hash, twelve]; omega), sizes.hash, twelve,
      take_of_length_le (by rw [length_drop]; omega)]
  have authenticated : get packet 0 (packet.length.toUInt32 - hashSize) = some (packet.take (16 + m)) := by
    rw [get_of_room (by rw [zero, sizes.authenticated]; omega), sizes.authenticated]
    rfl
  have block : get packet (4 + 4 + encIvSize) (packet.length.toUInt32 -
      (4 + 4 + encIvSize + hashSize)) = some ((packet.drop 16).take m) := by
    rw [get_of_room (by rw [start, sizes.block]; omega), start, sizes.block]
  have positive : packet.length.toUInt32 - (4 + 4 + encIvSize + hashSize) > 0 := by
    rw [gt_iff_lt, UInt32.lt_iff_toNat_lt, sizes.block, zero]
    omega
  have divides : (packet.length.toUInt32 - (4 + 4 + encIvSize + hashSize)) % encBlockSize = 0 ↔ m % 8 = 0 := by
    rw [← UInt32.toNat_inj, UInt32.toNat_mod, sizes.block, zero]
    rfl
  unfold Sec.espRecvCallback
  simp only [found]
  rw [if_pos ⟨dest, src⟩, if_pos long, spi]
  simp only [Option.bind_eq_bind, Option.bind_some]
  by_cases same : readUint (packet.take 4) = sa.spi
  · rw [if_pos same, iv]
    simp only [Option.bind_some]
    by_cases whole : m % 8 = 0
    · rw [if_pos ⟨positive, divides.mpr whole⟩, hash, authenticated]
      simp only [Option.bind_some]
      by_cases genuine : packet.drop (16 + m) = crypto.macSha196 sa.hashKey (packet.take (16 + m))
      · rw [if_pos genuine, block, if_pos ⟨same, whole, genuine⟩]
        exact open_eq (length_decrypted length whole) sizes.block room
      · rw [if_neg genuine, if_neg (fun authentic => genuine authentic.hash)]
        rfl
    · rw [if_neg (fun both => whole (divides.mp both.2)), if_neg (fun authentic => whole authentic.whole)]
      rfl
  · rw [if_neg same, if_neg (fun authentic => same authentic.spi)]
    rfl

structure Accepted (crypto : Crypto κ) (sa : IpsecSa κ) (packet delivered : List UInt8) : Prop where
  long : 36 ≤ packet.length
  spi : readUint (packet.take 4) = sa.spi
  hash : packet.drop (packet.length - 12) = crypto.macSha196 sa.hashKey (packet.take (packet.length - 12))
  slice : delivered <+: decrypted crypto sa (packet.length - 28) packet

theorem openBlock_isPrefix {payload delivered : List UInt8}
    (opened : openBlock ipv6 payload = some delivered) : delivered <+: payload := by
  simp only [openBlock] at opened
  split at opened
  · cases opened
    exact take_prefix _ _
  · cases opened

theorem espRecvCallback_reads {destAddr srcAddr : IkeIpAddr} (found : s.getIPsecSa false = some sa)
    (small : packet.length < 2 ^ 32) (result : s.espRecvCallback crypto destAddr srcAddr packet ≠ some none) :
    sa.destAddr = srcAddr ∧ sa.srcAddr = destAddr ∧ 36 ≤ packet.length := by
  have least : (4 + 4 + encIvSize + encBlockSize + hashSize : UInt32).toNat = 36 := rfl
  have number : packet.length.toUInt32.toNat = packet.length := by
    simp only [Nat.toUInt32, UInt32.toNat_ofNat']
    omega
  simp only [Sec.espRecvCallback, found] at result
  by_cases addresses : sa.destAddr = srcAddr ∧ sa.srcAddr = destAddr
  · rw [if_pos addresses] at result
    by_cases long : packet.length.toUInt32 ≥ 4 + 4 + encIvSize + encBlockSize + hashSize
    · rw [ge_iff_le, UInt32.le_iff_toNat_le, least, number] at long
      exact ⟨addresses.1, addresses.2, long⟩
    · rw [if_neg long] at result
      exact absurd rfl result
  · rw [if_neg addresses] at result
    exact absurd rfl result

theorem espRecvCallback_sound {destAddr srcAddr : IkeIpAddr} (small : packet.length < 2 ^ 32) :
    ∃ result, s.espRecvCallback crypto destAddr srcAddr packet = some result ∧
      ∀ delivered, result = some delivered →
        ∃ sa, s.getIPsecSa false = some sa ∧ Accepted crypto sa packet delivered := by
  cases found : s.getIPsecSa false with
  | none => exact ⟨none, by simp [Sec.espRecvCallback, found], by simp⟩
  | some sa =>
    by_cases quiet : s.espRecvCallback crypto destAddr srcAddr packet = some none
    · exact ⟨none, quiet, by simp⟩
    · obtain ⟨dest, src, long⟩ := espRecvCallback_reads found small quiet
      have length : packet.length = packet.length - 28 + 28 := by omega
      refine ⟨_, espRecvCallback_eq found dest src length (by omega) small, ?_⟩
      intro delivered opened
      split at opened
      · rename_i authentic
        refine ⟨sa, rfl, long, authentic.spi, ?_, openBlock_isPrefix opened⟩
        rw [show packet.length - 12 = 16 + (packet.length - 28) by omega]
        exact authentic.hash
      · cases opened

theorem openBlock_espBlock (small : data.length + 33 < 2 ^ 32) : openBlock ipv6 (espBlock ipv6 data) = some data := by
  have spec := padLen_spec data.length
  have length := @length_espBlock data ipv6
  have ends : espBlock ipv6 data = data ++ paddingFrom (padLen data.length) 0 ++
      [UInt8.ofNat (padLen data.length), nextHeaderFor ipv6] := by
    simp [espBlock]
  have front : (data ++ paddingFrom (padLen data.length) 0).length = data.length + padLen data.length := by simp
  have padding : (espBlock ipv6 data).getD ((espBlock ipv6 data).length - 2) 0 = UInt8.ofNat (padLen data.length) := by
    rw [length, ends, getD_append_right _ _ _ _ (by omega), front]
    simp
  have next : (espBlock ipv6 data).getD ((espBlock ipv6 data).length - 1) 0 = nextHeaderFor ipv6 := by
    rw [length, ends, getD_append_right _ _ _ _ (by omega), front]
    rw [show data.length + padLen data.length + 2 - 1 - (data.length + padLen data.length) = 1 by
      omega]
    rfl
  have number : (UInt8.ofNat (padLen data.length)).toNat = padLen data.length := by
    rw [UInt8.toNat_ofNat']
    omega
  simp only [openBlock]
  rw [padding, next, number, if_pos ⟨by omega, rfl⟩, length,
    show data.length + padLen data.length + 2 - (2 + padLen data.length) = data.length by omega,
    espBlock, take_left]

theorem decrypted_espPacket {other : IpsecSa κ} (key : other.desKey = sa.desKey) :
    decrypted crypto other (data.length + padLen data.length + 2) (espPacket crypto ipv6 sa data) =
      espBlock ipv6 data := by
  have head : espPacket crypto ipv6 sa data = bytesOf sa.spi ++ endian32 (sa.seq + 1) ++
      (List.ofFn sa.nextIv ++ (espCipher crypto ipv6 sa data ++
        crypto.macSha196 sa.hashKey (espHead sa ++ espCipher crypto ipv6 sa data))) := by
    simp [espPacket, espHead]
  have iv : ((espPacket crypto ipv6 sa data).drop 8).take 8 = List.ofFn sa.nextIv := by
    have front : (bytesOf sa.spi ++ endian32 (sa.seq + 1)).length = 8 := rfl
    rw [head, drop_left' front, take_left' (by simp)]
  have block : ((espPacket crypto ipv6 sa data).drop 16).take
      (data.length + padLen data.length + 2) = espCipher crypto ipv6 sa data := by
    rw [espPacket, append_assoc, drop_left' length_espHead, take_left' length_espCipher]
  rw [decrypted, iv, block, key, espCipher, crypto.decrypt_encrypt _ _ _ length_espBlock_mod]

theorem authentic_espPacket {other : IpsecSa κ} (spi : other.spi = sa.spi) (key : other.hashKey = sa.hashKey) :
    Authentic crypto other (data.length + padLen data.length + 2) (espPacket crypto ipv6 sa data) := by
  have front : (espHead sa ++ espCipher crypto ipv6 sa data).length = 16 + (data.length + padLen data.length + 2) := by
    rw [length_append, length_espHead, length_espCipher]
  refine ⟨?_, (padLen_spec data.length).2.1, ?_⟩
  · rw [espPacket, espHead, append_assoc, append_assoc, append_assoc,
      take_left' (length_bytesOf _), readUint_bytesOf, spi]
  · rw [espPacket, drop_left' front, take_left' front, key]

theorem espRecvCallback_espPacket {incoming : IpsecSa κ} (found : s.getIPsecSa false = some incoming)
    (spi : incoming.spi = sa.spi) (hashKey : incoming.hashKey = sa.hashKey) (desKey : incoming.desKey = sa.desKey)
    (src : incoming.srcAddr = sa.destAddr) (dest : incoming.destAddr = sa.srcAddr) (small : data.length + 33 < 2 ^ 32) :
    s.espRecvCallback crypto sa.destAddr sa.srcAddr (espPacket crypto s.ipv6 sa data) = some (some data) := by
  have spec := padLen_spec data.length
  have length := @length_espPacket κ crypto sa data s.ipv6
  rw [espRecvCallback_eq found dest src length (by omega) (by omega),
    if_pos (authentic_espPacket spi hashKey), decrypted_espPacket desKey, openBlock_espBlock small]

theorem getIPsecSa_mem {outgoing : Bool} (found : s.getIPsecSa outgoing = some sa) : sa ∈ s.ipsecSaList :=
  mem_reverse.mp (mem_of_find?_eq_some found)

def IpsecSa.afterSend (crypto : Crypto κ) (ipv6 : Bool) (sa : IpsecSa κ) (data : List UInt8) : IpsecSa κ :=
  let cipher := espCipher crypto ipv6 sa data
  { sa with
    seq := sa.seq + 1
    nextIv := fun i => (cipher.drop (cipher.length - 8)).getD i 0
    transferBytes := sa.transferBytes + data.length.toUInt32.toUInt64 }

theorem virtualIpRecvCallback_eq (found : s.getIPsecSa true = some sa) (memory : Nat → UInt8)
    (small : data.length + 33 < 2 ^ 32) :
    s.virtualIpRecvCallback crypto memory data = some (some
      { destAddr := sa.destAddr, srcAddr := sa.srcAddr, esp := espPacket crypto s.ipv6 sa data,
        sa := sa.afterSend crypto s.ipv6 data }) := by
  have spec := padLen_spec data.length
  have sizes := sizes_of (toNat_size small) small
  have eight : encBlockSize.toNat = 8 := rfl
  have packet := @length_espPacket κ crypto sa data s.ipv6
  have cipher := @length_espCipher κ crypto sa data s.ipv6
  have start : (4 + 4 + encIvSize + dataBlockSizeFor data.length.toUInt32 - encBlockSize).toNat =
      16 + (data.length + padLen data.length + 2 - 8) := by
    rw [toNat_sub, sizes.hash, eight]
    omega
  have last : get (espPacket crypto s.ipv6 sa data)
      (4 + 4 + encIvSize + dataBlockSizeFor data.length.toUInt32 - encBlockSize) encBlockSize =
        some ((espCipher crypto s.ipv6 sa data).drop
          ((espCipher crypto s.ipv6 sa data).length - 8)) := by
    rw [get_of_room (by rw [start, eight, packet]; omega), start, eight, cipher, espPacket,
      append_assoc, ← drop_drop, drop_left' length_espHead,
      drop_append_of_le_length (by rw [cipher]; omega),
      take_left' (by rw [length_drop, cipher]; omega)]
  simp only [Sec.virtualIpRecvCallback, found, buildEsp_eq small, last, Option.bind_eq_bind,
    Option.bind_some, IpsecSa.afterSend]
  rfl

/-- A packet that one end sends for `data` is taken by the other end, which delivers `data`; and
from any packet only an authenticated one's slice is delivered. -/
theorem esp_round_trip_and_sound (crypto : Crypto κ) :
    (∀ (sender peer : Sec κ) (outgoing incoming : IpsecSa κ) (memory : Nat → UInt8) (data : List UInt8),
      sender.getIPsecSa true = some outgoing → peer.getIPsecSa false = some incoming →
      incoming.spi = outgoing.spi → incoming.hashKey = outgoing.hashKey →
      incoming.desKey = outgoing.desKey → incoming.srcAddr = outgoing.destAddr →
      incoming.destAddr = outgoing.srcAddr → data.length + 33 < 2 ^ 32 →
      ∃ sent, sender.virtualIpRecvCallback crypto memory data = some (some sent) ∧
        peer.espRecvCallback crypto sent.destAddr sent.srcAddr sent.esp = some (some data)) ∧
    ∀ (s : Sec κ) (destAddr srcAddr : IkeIpAddr) (packet : List UInt8), packet.length < 2 ^ 32 →
      ∃ result, s.espRecvCallback crypto destAddr srcAddr packet = some result ∧
        ∀ delivered, result = some delivered →
          ∃ sa, s.getIPsecSa false = some sa ∧ Accepted crypto sa packet delivered := by
  constructor
  · intro sender peer outgoing incoming memory data sends receives spi hashKey desKey src dest small
    have family : peer.ipv6 = sender.ipv6 := by
      have mine := (sender.family outgoing (getIPsecSa_mem sends)).2
      have its := (peer.family incoming (getIPsecSa_mem receives)).1
      rw [← mine, ← its, src]
    refine ⟨_, virtualIpRecvCallback_eq sends memory small, ?_⟩
    rw [← family]
    exact espRecvCallback_espPacket receives spi hashKey desKey src dest small
  · intro s destAddr srcAddr packet small
    exact espRecvCallback_sound small

def clearCrypto : Crypto Unit where
  des3Encrypt := fun _ _ data => data
  des3Decrypt := fun _ _ data => data
  macSha1 := fun key data i => UInt8.ofNat (key.length + data.length + i)
  length_encrypt := fun _ _ _ _ => rfl
  length_decrypt := fun _ _ _ _ => rfl
  decrypt_encrypt := fun _ _ _ _ => rfl

def oneSa (outgoing : Bool) (srcAddr destAddr : List UInt8) : IpsecSa Unit where
  srcAddr := { address := srcAddr, isIPv6 := false }
  destAddr := { address := destAddr, isIPv6 := false }
  outgoing := outgoing
  spi := 0x1234
  nextIv := fun _ => 7
  transferBytes := 0
  seq := 0
  hashKey := [1, 2]
  desKey := ()

def oneSec (outgoing : Bool) (srcAddr destAddr : List UInt8) : Sec Unit where
  ipv6 := false
  ipsecSaList := [oneSa outgoing srcAddr destAddr]
  family := by
    intro sa member
    rw [mem_singleton.mp member]
    exact ⟨rfl, rfl⟩

theorem esp_round_trip_and_sound_three : ∃ sent,
    (oneSec true [10, 0, 0, 1] [10, 0, 0, 2]).virtualIpRecvCallback clearCrypto (fun _ => 0)
      [0x45, 0, 9] = some (some sent) ∧
    (oneSec false [10, 0, 0, 2] [10, 0, 0, 1]).espRecvCallback clearCrypto sent.destAddr sent.srcAddr
      sent.esp = some (some [0x45, 0, 9]) :=
  (esp_round_trip_and_sound clearCrypto).1 (oneSec true [10, 0, 0, 1] [10, 0, 0, 2])
    (oneSec false [10, 0, 0, 2] [10, 0, 0, 1]) (oneSa true [10, 0, 0, 1] [10, 0, 0, 2])
    (oneSa false [10, 0, 0, 2] [10, 0, 0, 1]) (fun _ => 0) [0x45, 0, 9] rfl rfl rfl rfl rfl rfl rfl
    (by decide)

end DisasVisor.Vpn.Esp
