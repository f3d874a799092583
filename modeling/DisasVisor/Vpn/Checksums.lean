import DisasVisor.Lib.OnesComplement
import DisasVisor.Vpn.Ip6Slices
import DisasVisor.Vpn.Ip4Wire

/-!
The checksums of `vpn/lib/Se/SeIp4.c` and `SeIp6.c`. The loop adds the words up in an `int` and folds it
twice; from `2 ^ 31` on the sum is negative, the shifts copy its sign, and the checksum is one too large.
-/

namespace DisasVisor.Vpn

open OnesComplement

def complementSum (bytes : List UInt8) : UInt16 := ~~~UInt16.ofNat (sum (words bytes))

namespace Ip4

theorem checksumSum_toNat : ∀ buf : List UInt8,
    (checksumSum buf).toUInt32.toNat = (words buf).sum % 4294967296
  | [] => rfl
  | [a] => by
      have bound := a.toNat_lt
      change (UInt32.ofNat a.toNat).toNat = ([a.toNat].sum) % 4294967296
      rw [UInt32.toNat_ofNat', List.sum_singleton]
  | a :: b :: rest => by
      have later := checksumSum_toNat rest
      change (UInt32.ofNat (a.toNat + 256 * b.toNat) + (checksumSum rest).toUInt32).toNat = _
      rw [UInt32.toNat_add, UInt32.toNat_ofNat', later, words, List.sum_cons]
      omega

theorem toInt_shift (x : Int32) : (x >>> 16).toInt = x.toInt / 65536 := by
  change (x.toBitVec.sshiftRight 16).toInt = x.toInt / 65536
  rw [BitVec.toInt_sshiftRight, Int.shiftRight_eq_div_pow]
  rfl

theorem toInt_eq (x : Int32) : x.toInt =
    if x.toUInt32.toNat < 2147483648 then (x.toUInt32.toNat : Int) else x.toUInt32.toNat - 4294967296 := by
  have bound := x.toUInt32.toNat_lt
  change x.toBitVec.toInt = _
  rw [BitVec.toInt_eq_toNat_cond]
  change (if 2 * x.toUInt32.toNat < 2 ^ 32 then _ else _) = _
  split
  · rw [if_pos (by omega)]
    rfl
  · rw [if_neg (by omega)]
    rfl

theorem toInt_low (x : Int32) : (x &&& 0xffff).toInt = x.toInt % 65536 := by
  have low : (x &&& 0xffff).toUInt32.toNat = x.toUInt32.toNat % 65536 := by
    change (x.toUInt32 &&& 0xffff).toNat = _
    rw [UInt32.toNat_and]
    exact Nat.and_two_pow_sub_one_eq_mod _ 16
  rw [toInt_eq, toInt_eq x, low, if_pos (by omega)]
  split
  · omega
  · omega

theorem toInt_not (x : Int32) : ((~~~x).toUInt32.toUInt16.toNat : Int) = (-1 - x.toInt) % 65536 := by
  have bound := x.toUInt32.toNat_lt
  have complement : (~~~x).toUInt32.toNat = 4294967295 - x.toUInt32.toNat := by
    change (~~~x.toUInt32).toNat = _
    rw [UInt32.toNat_not]
    rfl
  rw [UInt32.toNat_toUInt16, complement, toInt_eq]
  split
  · omega
  · omega

def folded (sum : Int) : Int :=
  let first := sum / 65536 + sum % 65536
  first + first / 65536

theorem se4IpChecksum_folded (buf : List UInt8) :
    ((se4IpChecksum buf).toNat : Int) = (-1 - folded (checksumSum buf).toInt) % 65536 := by
  have lower := (checksumSum buf).le_toInt
  have upper := (checksumSum buf).toInt_lt
  have first : ((checksumSum buf >>> 16) + (checksumSum buf &&& 0xffff)).toInt =
      (checksumSum buf).toInt / 65536 + (checksumSum buf).toInt % 65536 := by
    rw [Int32.toInt_add, toInt_shift, toInt_low, Int.bmod_eq_of_le (by omega) (by omega)]
  rw [se4IpChecksum, toInt_not, Int32.toInt_add, toInt_shift, first, Int.bmod_eq_of_le (by omega) (by omega), folded]

theorem complementSum_toNat (buf : List UInt8) : (complementSum buf).toNat = 65535 - norm (words buf).sum := by
  have low := norm_lt (words buf).sum
  rw [complementSum, sum_eq (words_lt buf), UInt16.toNat_not, UInt16.toNat_ofNat_of_lt' low]
  rfl

theorem norm_fold (n : Nat) (positive : 0 < n) : norm n = (n / 65536 + n % 65536 - 1) % 65535 + 1 := by
  have same : n - 1 = n / 65536 * 65535 + (n / 65536 + n % 65536 - 1) := by omega
  rw [OnesComplement.norm, if_neg (by omega), same, Nat.mul_add_mod']

theorem carry_small (first : Nat) (some' : 0 < first) (bound : first < 98304) :
    (-1 - ((first : Int) + (first : Int) / 65536)) % 65536 = ((65535 - ((first - 1) % 65535 + 1) : Nat) : Int) := by
  by_cases carries : first < 65536
  · have quotient : (first : Int) / 65536 = 0 := by omega
    rw [quotient]
    omega
  · have quotient : (first : Int) / 65536 = 1 := by omega
    rw [quotient]
    omega

theorem carry_large (first : Nat) (lower : 32768 ≤ first) (upper : first < 131071) :
    (-1 - ((first : Int) - 65536 + ((first : Int) - 65536) / 65536)) % 65536 =
      ((65535 - ((first - 1) % 65535 + 1) + 1 : Nat) : Int) := by
  by_cases carries : first < 65536
  · have quotient : ((first : Int) - 65536) / 65536 = -1 := by omega
    rw [quotient]
    omega
  · have quotient : ((first : Int) - 65536) / 65536 = 0 := by omega
    rw [quotient]
    omega

theorem se4IpChecksum_small (buf : List UInt8) (small : (words buf).sum < 2147483648) :
    se4IpChecksum buf = complementSum buf := by
  have whole := checksumSum_toNat buf
  have positive : (checksumSum buf).toInt = (words buf).sum := by
    rw [toInt_eq, if_pos (by omega)]
    omega
  have result := se4IpChecksum_folded buf
  rw [positive, folded] at result
  apply UInt16.toNat_inj.mp
  rw [complementSum_toNat]
  by_cases none' : (words buf).sum = 0
  · rw [none'] at result ⊢
    have zero : OnesComplement.norm 0 = 0 := rfl
    omega
  · have first : ((words buf).sum : Int) / 65536 + ((words buf).sum : Int) % 65536 =
        (((words buf).sum / 65536 + (words buf).sum % 65536 : Nat) : Int) := by omega
    simp only [first] at result
    rw [carry_small _ (by omega) (by omega), ← norm_fold _ (by omega)] at result
    exact Int.ofNat_inj.mp result

theorem se4IpChecksum_large (buf : List UInt8) (large : 2147483648 ≤ (words buf).sum)
    (fits : (words buf).sum < 4294967296) : (se4IpChecksum buf).toNat = (complementSum buf).toNat + 1 := by
  have whole := checksumSum_toNat buf
  have negative : (checksumSum buf).toInt = (words buf).sum - 4294967296 := by
    rw [toInt_eq, if_neg (by omega)]
    omega
  have result := se4IpChecksum_folded buf
  rw [negative, folded] at result
  have first : (((words buf).sum : Int) - 4294967296) / 65536 + (((words buf).sum : Int) - 4294967296) % 65536 =
      (((words buf).sum / 65536 + (words buf).sum % 65536 : Nat) : Int) - 65536 := by omega
  simp only [first] at result
  rw [carry_large _ (by omega) (by omega), ← norm_fold _ (by omega)] at result
  rw [complementSum_toNat]
  exact Int.ofNat_inj.mp result

theorem se4IpChecksum_iff (buf : List UInt8) (fits : (words buf).sum < 4294967296) :
    se4IpChecksum buf = complementSum buf ↔ (words buf).sum < 2147483648 := by
  constructor
  · intro same
    by_contra large
    have one := se4IpChecksum_large buf (by omega) fits
    rw [same] at one
    omega
  · exact se4IpChecksum_small buf

end Ip4

def checksumField (checksum : UInt16) : List UInt8 := [checksum.toUInt8, (checksum >>> 8).toUInt8]

theorem words_checksumField (checksum : UInt16) : words (checksumField checksum) = [checksum.toNat] := by
  have bound := checksum.toNat_lt
  simp only [checksumField, words, UInt16.toNat_toUInt8, UInt16.toNat_shiftRight, List.cons.injEq, and_true]
  simp only [UInt16.reduceToNat, Nat.reduceMod, Nat.shiftRight_eq_div_pow]
  omega

variable {front back : List UInt8}

theorem words_sum_field (even : front.length % 2 = 0) (checksum : UInt16) :
    (words (front ++ checksumField checksum ++ back)).sum =
      (words front).sum + checksum.toNat + (words back).sum := by
  have pair : (front ++ checksumField checksum).length % 2 = 0 := by
    rw [List.length_append]
    simp only [checksumField, List.length_cons, List.length_nil]
    omega
  rw [words_sum_append _ _ pair, words_sum_append _ _ even, words_checksumField, List.sum_singleton]

theorem verifies_checksum_iff (even : front.length % 2 = 0) {checksum : UInt16}
    (fits : (words (front ++ checksumField 0 ++ back)).sum < 4294967296)
    (made : checksum = Ip4.se4IpChecksum (front ++ checksumField 0 ++ back) ∨
      Ip4.se4IpChecksum (front ++ checksumField 0 ++ back) = 0 ∧ checksum = 0xffff) :
    Verifies (front ++ checksumField checksum ++ back) ↔
      (words (front ++ checksumField 0 ++ back)).sum < 2147483648 := by
  have zero := UInt16.toNat_zero
  have most : (0xffff : UInt16).toNat = 65535 := rfl
  have without := @words_sum_field front back even 0
  have sum := @words_sum_field front back even checksum
  have low := norm_lt (words (front ++ checksumField 0 ++ back)).sum
  have same := norm_mod (words (front ++ checksumField 0 ++ back)).sum
  have none' := @norm_zero_iff (words (front ++ checksumField 0 ++ back)).sum
  have complement := Ip4.complementSum_toNat (front ++ checksumField 0 ++ back)
  rw [verifies_iff]
  by_cases small : (words (front ++ checksumField 0 ++ back)).sum < 2147483648
  · have right := Ip4.se4IpChecksum_small _ small
    rcases made with same' | ⟨nothing, other⟩
    · rw [same', right] at sum ⊢
      omega
    · rw [other] at sum ⊢
      rw [← right, nothing] at complement
      omega
  · have wrong := Ip4.se4IpChecksum_large _ (by omega) fits
    rcases made with same' | ⟨nothing, other⟩
    · rw [same'] at sum ⊢
      omega
    · rw [nothing] at wrong
      omega

/-!
The packets that `Se4SendUdp`, `Se4SendIcmp`, `Se6SendUdp` and `Se6SendIcmp` make: which of their checksums
a receiver accepts.
-/

open Reassembly List
open Ip6 (endian16 endian32 readEndian16)

def udpHeader (srcPort destPort packetLength checksum : UInt16) : List UInt8 :=
  endian16 srcPort ++ endian16 destPort ++ endian16 packetLength ++ checksumField checksum

def icmpHeader (type code : UInt8) (checksum : UInt16) : List UInt8 := [type, code] ++ checksumField checksum

namespace Ip4

def pseudoHeader (srcIp destIp : Addr) (packetLength : UInt16) : List UInt8 :=
  List.ofFn srcIp ++ List.ofFn destIp ++ [0, 0x11] ++ endian16 packetLength

def se4SendUdp (destIp : Addr) (destPort : UInt32) (srcIp : Addr) (srcPort : UInt32) (data : List UInt8) :
    Option (List UInt8) :=
  let udpPacketLength := 8 + data.length
  if udpPacketLength > seIp4MaxPayloadSize.toNat then none
  else
    let udp := udpHeader srcPort.toUInt16 destPort.toUInt16 (UInt16.ofNat udpPacketLength)
    let vh := pseudoHeader srcIp destIp (UInt16.ofNat udpPacketLength)
    let checksum := se4IpChecksum (vh ++ (udp 0 ++ data))
    let checksum := if checksum = 0 then 0xffff else checksum
    some (udp checksum ++ data)

def se4SendIcmp (type code : UInt8) (data : List UInt8) : List UInt8 :=
  icmpHeader type code (se4IpChecksum (icmpHeader type code 0 ++ data)) ++ data

end Ip4

namespace Ip6

def pseudoHeader (srcIp destIp : Addr) (protocol : UInt8) (size : Nat) : List UInt8 :=
  List.ofFn srcIp ++ List.ofFn destIp ++ endian32 (UInt32.ofNat size) ++ [0, 0, 0, protocol]

def se6SendUdp (destIp : Addr) (destPort : UInt32) (srcIp : Addr) (srcPort : UInt32) (data : List UInt8) :
    Option (List UInt8) :=
  let udpPacketLength := 8 + data.length
  if udpPacketLength > seIp6MaxPayloadSize.toNat then none
  else
    let udp := udpHeader srcPort.toUInt16 destPort.toUInt16 (UInt16.ofNat udpPacketLength)
    let checksum := se6CalcChecksum srcIp destIp 0x11 (udp 0 ++ data)
    let checksum := if checksum = 0 then 0xffff else checksum
    some (udp checksum ++ data)

def se6SendIcmp (srcIp destIp : Addr) (type code : UInt8) (data : List UInt8) : List UInt8 :=
  icmpHeader type code (se6CalcChecksum srcIp destIp 0x3a (icmpHeader type code 0 ++ data)) ++ data

end Ip6

def UdpVerifies (pseudo packet : List UInt8) : Prop := (packet.drop 6).take 2 ≠ [0, 0] ∧ Verifies (pseudo ++ packet)

def wordSum (bytes : List UInt8) : Nat := (words bytes).sum

variable {pseudo data : List UInt8}

theorem wordSum_le (bytes : List UInt8) : wordSum bytes ≤ 65535 * ((bytes.length + 1) / 2) := words_sum_le bytes

theorem udp_verifies_iff (even : pseudo.length % 2 = 0) (short : pseudo.length ≤ 40)
    (fits : data.length ≤ 65527) (srcPort destPort packetLength : UInt16) {checksum : UInt16}
    (made : checksum = (if Ip4.se4IpChecksum (pseudo ++ (udpHeader srcPort destPort packetLength 0 ++ data)) = 0
      then 0xffff else Ip4.se4IpChecksum (pseudo ++ (udpHeader srcPort destPort packetLength 0 ++ data)))) :
    UdpVerifies pseudo (udpHeader srcPort destPort packetLength checksum ++ data) ↔
      wordSum (pseudo ++ (udpHeader srcPort destPort packetLength 0 ++ data)) < 2147483648 := by
  let ports := endian16 srcPort ++ endian16 destPort ++ endian16 packetLength
  have six : ports.length = 6 := rfl
  have shape : ∀ sum, pseudo ++ (udpHeader srcPort destPort packetLength sum ++ data) =
      pseudo ++ ports ++ checksumField sum ++ data := by
    intro sum
    simp only [udpHeader, ports, append_assoc]
  have whole : (pseudo ++ ports).length % 2 = 0 := by
    rw [length_append]
    omega
  have bound := wordSum_le (pseudo ++ ports ++ checksumField 0 ++ data)
  have length : (pseudo ++ ports ++ checksumField 0 ++ data).length = pseudo.length + 8 + data.length := by
    simp only [length_append, six, checksumField, length_cons, length_nil]
  rw [length] at bound
  have field : ((udpHeader srcPort destPort packetLength checksum ++ data).drop 6).take 2 =
      checksumField checksum := rfl
  have nonzero : checksumField checksum ≠ [0, 0] := by
    intro zero
    have value := words_checksumField checksum
    rw [zero] at value
    have all : (0 : Nat) = checksum.toNat := head_eq_of_cons_eq value
    have none' : checksum = 0 := UInt16.toNat_inj.mp all.symm
    rw [none'] at made
    split at made
    · cases made
    · rename_i some'
      exact some' made.symm
  rw [shape] at made
  rw [UdpVerifies, field, shape, shape]
  have accepted := @verifies_checksum_iff _ data whole checksum
    (by rw [wordSum] at bound; omega) (by
      split at made
      · rename_i zero
        exact .inr ⟨zero, made⟩
      · exact .inl made)
  exact ⟨fun verifies => accepted.mp verifies.2, fun small => ⟨nonzero, accepted.mpr small⟩⟩

theorem icmp_verifies_iff (even : pseudo.length % 2 = 0) (short : pseudo.length ≤ 40)
    (fits : data.length ≤ 65531) (type code : UInt8) :
    Verifies (pseudo ++ (icmpHeader type code (Ip4.se4IpChecksum (pseudo ++ (icmpHeader type code 0 ++ data))) ++
        data)) ↔
      wordSum (pseudo ++ (icmpHeader type code 0 ++ data)) < 2147483648 := by
  have shape : ∀ sum, pseudo ++ (icmpHeader type code sum ++ data) =
      pseudo ++ [type, code] ++ checksumField sum ++ data := by
    intro sum
    simp only [icmpHeader, append_assoc]
  have whole : (pseudo ++ [type, code]).length % 2 = 0 := by
    rw [length_append]
    simp only [length_cons, length_nil]
    omega
  have bound := wordSum_le (pseudo ++ [type, code] ++ checksumField 0 ++ data)
  have length : (pseudo ++ [type, code] ++ checksumField 0 ++ data).length = pseudo.length + 4 + data.length := by
    simp only [length_append, checksumField, length_cons, length_nil]
  rw [length] at bound
  rw [shape, shape]
  exact verifies_checksum_iff whole (by rw [wordSum] at bound; omega) (.inl rfl)

namespace Ip4

variable {destIp srcIp : Addr}

variable {destPort srcPort : UInt32} {packet : List UInt8}

theorem se4SendUdp_verifies (sent : se4SendUdp destIp destPort srcIp srcPort data = some packet) :
    UdpVerifies (pseudoHeader srcIp destIp (UInt16.ofNat packet.length)) packet ↔
      wordSum (pseudoHeader srcIp destIp (UInt16.ofNat packet.length) ++ (packet.set 6 0).set 7 0) < 2147483648 := by
  have limit : seIp4MaxPayloadSize.toNat = 65535 := rfl
  simp only [se4SendUdp] at sent
  split at sent
  · cases sent
  · rename_i fits
    have same := Option.some.inj sent
    have length : packet.length = 8 + data.length := by
      rw [← same, length_append]
      rfl
    rw [length, ← same]
    have front : (pseudoHeader srcIp destIp (UInt16.ofNat (8 + data.length))).length = 12 := by
      simp [pseudoHeader, endian16]
    exact udp_verifies_iff (by omega) (by omega) (by omega) _ _ _ rfl

theorem se4SendIcmp_verifies {type code : UInt8}
    (fits : (se4SendIcmp type code data).length ≤ seIp4MaxPayloadSize.toNat) :
    Verifies (se4SendIcmp type code data) := by
  have limit : seIp4MaxPayloadSize.toNat = 65535 := rfl
  have length : (se4SendIcmp type code data).length = 4 + data.length := by
    rw [se4SendIcmp, length_append]
    rfl
  have bound := wordSum_le ([] ++ (icmpHeader type code 0 ++ data))
  have size : ([] ++ (icmpHeader type code 0 ++ data)).length = 4 + data.length := by
    rw [nil_append, length_append]
    rfl
  rw [size] at bound
  have accepted := @icmp_verifies_iff [] data rfl (by simp) (by omega) type code
  exact accepted.mpr (by omega)

theorem se4SendIcmp_parses (type code : UInt8) (data : List UInt8) :
    ∃ info, (se4ParseIpPacketICMPv4 (se4SendIcmp type code data)).flow = .next info ∧
      (info = none ↔ (type = 8 ∨ type = 0) ∧ data.length % 65536 < 4) := by
  have length : (se4SendIcmp type code data).length = 4 + data.length := by
    rw [se4SendIcmp, length_append]
    rfl
  let sum := se4IpChecksum (icmpHeader type code 0 ++ data)
  have low : (se4SendIcmp type code data).getD 2 0 = sum.toUInt8 := rfl
  have high : (se4SendIcmp type code data).getD 3 0 = (sum >>> 8).toUInt8 := rfl
  have first : (se4SendIcmp type code data).getD 0 0 = type := rfl
  have cleared : ((se4SendIcmp type code data).set 2 0).set 3 0 = icmpHeader type code 0 ++ data := rfl
  have matches' : ¬se4IpChecksum (icmpHeader type code 0 ++ data) ≠
      (sum >>> 8).toUInt8.toUInt16 <<< 8 ||| sum.toUInt8.toUInt16 := by
    rw [ByteOrder.join16]
    exact fun differs => differs rfl
  rw [se4ParseIpPacketICMPv4, if_neg (by omega)]
  simp only [low, high, first, cleared, length, if_neg matches', Traced.emit_bind, Nat.add_sub_cancel_left]
  by_cases echo : type = 8 ∨ type = 0
  · rw [if_pos echo]
    by_cases cut : data.length % 65536 < 4
    · rw [if_pos cut]
      exact ⟨none, rfl, by simp [echo, cut]⟩
    · rw [if_neg cut]
      exact ⟨_, rfl, by simp [cut]⟩
  · rw [if_neg echo]
    exact ⟨_, rfl, by simp [echo]⟩

theorem withChecksum_verifies (ip : Header) (zero : ip.checksum = 0) : Verifies (withChecksum ip).bytes := by
  let front := [ip.versionAndHeaderLength, ip.typeOfService, (ip.totalLength >>> 8).toUInt8,
    ip.totalLength.toUInt8, (ip.identification >>> 8).toUInt8, ip.identification.toUInt8,
    ip.flagsAndFlagmentOffset0, ip.flagsAndFlagmentOffset1, ip.timeToLive, ip.protocol]
  let back := List.ofFn ip.srcIP ++ List.ofFn ip.dstIP
  have before : ip.bytes = front ++ checksumField 0 ++ back := by
    rw [Header.bytes, zero, append_assoc]
    rfl
  have after : (withChecksum ip).bytes = front ++ checksumField (se4IpChecksum ip.bytes) ++ back := by
    rw [Header.bytes, append_assoc]
    rfl
  have bound := wordSum_le (front ++ checksumField 0 ++ back)
  have length : (front ++ checksumField 0 ++ back).length = 20 := by simp [front, back, checksumField]
  rw [wordSum, length] at bound
  rw [after]
  exact (verifies_checksum_iff (by simp [front]) (by omega) (.inl (by rw [before]))).mpr (by omega)

theorem se4SendIpFragment_verifies {id : UInt16} {total offset : Nat} {protocol ttl : UInt8}
    (sent : se4SendIpFragment destIp srcIp id total offset protocol ttl data = some packet) :
    Verifies (packet.take 20) ∧ se4IpCheckChecksum packet = true := by
  have some' : data ≠ [] := by
    intro none'
    rw [se4SendIpFragment, if_pos none'] at sent
    cases sent
  rw [se4SendIpFragment_eq some'] at sent
  have same := Option.some.inj sent
  rw [← same]
  refine ⟨?_, packetOf_summed⟩
  rw [packetOf, take_left' (by simp)]
  exact withChecksum_verifies _ rfl

end Ip4

namespace Ip6

variable {destIp srcIp : Addr}

theorem length_pseudoHeader (protocol : UInt8) (size : Nat) :
    (pseudoHeader srcIp destIp protocol size).length = 40 := by
  simp [pseudoHeader, endian32]

theorem se6CalcChecksum_eq (protocol : UInt8) (data : List UInt8) :
    se6CalcChecksum srcIp destIp protocol data =
      Ip4.se4IpChecksum (pseudoHeader srcIp destIp protocol data.length ++ data) := rfl

section

variable (sent : se6SendUdp destIp destPort srcIp srcPort data = some packet)
include sent

theorem se6SendUdp_verifies :
    UdpVerifies (pseudoHeader srcIp destIp 0x11 packet.length) packet ↔
      wordSum (pseudoHeader srcIp destIp 0x11 packet.length ++ (packet.set 6 0).set 7 0) < 2147483648 := by
  have limit : seIp6MaxPayloadSize.toNat = 65535 := rfl
  simp only [se6SendUdp] at sent
  split at sent
  · cases sent
  · rename_i fits
    have same := Option.some.inj sent
    have length : packet.length = 8 + data.length := by
      rw [← same, length_append]
      rfl
    have before : (udpHeader srcPort.toUInt16 destPort.toUInt16 (UInt16.ofNat (8 + data.length)) 0 ++ data).length =
        8 + data.length := by
      rw [length_append]
      rfl
    have front := @length_pseudoHeader destIp srcIp 0x11 (8 + data.length)
    rw [length, ← same]
    refine udp_verifies_iff (by omega) (by omega) (by omega) _ _ _ ?_
    rw [se6CalcChecksum_eq, before]

theorem se6SendUdp_parses (behind : Nat → UInt8) (id : UInt32) (hopLimit : UInt8) :
    (se6ParseIpPacketUDPv6 behind ⟨srcIp, destIp, id, 0x11, hopLimit, packet⟩).flow =
      .next (decide (destPort.toUInt16 ≠ 0)) := by
  have limit : seIp6MaxPayloadSize.toNat = 65535 := rfl
  simp only [se6SendUdp] at sent
  split at sent
  · cases sent
  · rename_i fits
    have same := Option.some.inj sent
    generalize chosen : (if se6CalcChecksum srcIp destIp 0x11
      (udpHeader srcPort.toUInt16 destPort.toUInt16 (UInt16.ofNat (8 + data.length)) 0 ++ data) = 0 then
        (0xffff : UInt16) else _) = checksum at same
    have length : packet.length = 8 + data.length := by
      rw [← same, length_append]
      rfl
    have size : (readEndian16 packet 4).toNat = packet.length := by
      have field : readEndian16 packet 4 = UInt16.ofNat (8 + data.length) := by
        rw [← same]
        exact ByteOrder.join16 _
      rw [field, length, UInt16.toNat_ofNat_of_lt' (by change _ < 65536; omega)]
    have port : readEndian16 packet 2 = destPort.toUInt16 := by
      rw [← same]
      exact ByteOrder.join16 _
    have stored : (packet.getD 7 0).toUInt16 <<< 8 ||| (packet.getD 6 0).toUInt16 = checksum := by
      rw [← same]
      exact ByteOrder.join16 _
    have cleared : (packet.set 6 0).set 7 0 =
        udpHeader srcPort.toUInt16 destPort.toUInt16 (UInt16.ofNat (8 + data.length)) 0 ++ data := by
      rw [← same]
      rfl
    rw [se6ParseIpPacketUDPv6]
    rw [if_neg (show ¬packet.length < 8 by omega)]
    simp only [size, port, stored, cleared, Traced.emit_bind, Nat.lt_irrefl, if_false, Nat.sub_self, range_zero,
      map_nil, append_nil, chosen, ne_eq, not_true_eq_false]
    by_cases none' : destPort.toUInt16 = 0
    · rw [if_pos none', decide_eq_false (not_not_intro none')]
      rfl
    · rw [if_neg none', decide_eq_true none']
      rfl

end

theorem se6SendIcmp_verifies {type code : UInt8}
    (fits : (se6SendIcmp srcIp destIp type code data).length ≤ seIp6MaxPayloadSize.toNat) :
    let packet := se6SendIcmp srcIp destIp type code data
    Verifies (pseudoHeader srcIp destIp 0x3a packet.length ++ packet) ↔
      wordSum (pseudoHeader srcIp destIp 0x3a packet.length ++ (packet.set 2 0).set 3 0) < 2147483648 := by
  intro packet
  have length : packet.length = 4 + data.length := by
    change (icmpHeader _ _ _ ++ data).length = _
    rw [length_append]
    rfl
  have before : (icmpHeader type code 0 ++ data).length = 4 + data.length := by
    rw [length_append]
    rfl
  have short : packet.length ≤ 65535 := fits
  have front := @length_pseudoHeader destIp srcIp 0x3a (4 + data.length)
  have shape : packet = icmpHeader type code (Ip4.se4IpChecksum
      (pseudoHeader srcIp destIp 0x3a (4 + data.length) ++ (icmpHeader type code 0 ++ data))) ++ data := by
    change icmpHeader _ _ (se6CalcChecksum _ _ _ _) ++ data = _
    rw [se6CalcChecksum_eq, before]
  rw [length, shape]
  exact icmp_verifies_iff (by omega) (by omega) (by omega) type code

theorem se6SendIcmp_parses (type code : UInt8) (data : List UInt8) (fuel : Nat) (id : UInt32) (hopLimit : UInt8) :
    let packet := se6SendIcmp srcIp destIp type code data
    (se6ParseIpPacketICMPv6 fuel ⟨srcIp, destIp, id, 0x3a, hopLimit, packet⟩).flow =
      (icmpByType fuel packet (data.length % 65536)).flow := by
  intro packet
  have length : packet.length = 4 + data.length := by
    change (icmpHeader _ _ _ ++ data).length = _
    rw [length_append]
    rfl
  let sum := se6CalcChecksum srcIp destIp 0x3a (icmpHeader type code 0 ++ data)
  have low : packet.getD 2 0 = sum.toUInt8 := rfl
  have high : packet.getD 3 0 = (sum >>> 8).toUInt8 := rfl
  have cleared : (packet.set 2 0).set 3 0 = icmpHeader type code 0 ++ data := rfl
  have matches' : ¬se6CalcChecksum srcIp destIp 0x3a (icmpHeader type code 0 ++ data) ≠
      (sum >>> 8).toUInt8.toUInt16 <<< 8 ||| sum.toUInt8.toUInt16 := by
    rw [ByteOrder.join16]
    exact fun differs => differs rfl
  rw [se6ParseIpPacketICMPv6, if_neg (show ¬packet.length < 4 by omega)]
  simp only [low, high, cleared, length, if_neg matches', Traced.emit_bind, Nat.add_sub_cancel_left]

end Ip6

theorem wordSum_small {bytes : List UInt8} (short : bytes.length ≤ 65575) : wordSum bytes < 4294967296 := by
  have bound := wordSum_le bytes
  omega

/-- The checksums are right, and a receiver takes them, as long as the sum is positive. The parsers repeat
the same sum and take every packet that was sent. -/
theorem checksums_exact (buf : List UInt8) :
    (buf.length ≤ 65575 →
      (Ip4.se4IpChecksum buf = complementSum buf ↔ wordSum buf < 2147483648)) ∧
    (∀ srcIp destIp protocol (data : List UInt8), data.length ≤ 65535 →
      (Ip6.se6CalcChecksum srcIp destIp protocol data =
          complementSum (Ip6.pseudoHeader srcIp destIp protocol data.length ++ data) ↔
        wordSum (Ip6.pseudoHeader srcIp destIp protocol data.length ++ data) < 2147483648)) ∧
    (∀ destIp destPort srcIp srcPort data packet, Ip4.se4SendUdp destIp destPort srcIp srcPort data = some packet →
      (UdpVerifies (Ip4.pseudoHeader srcIp destIp (UInt16.ofNat packet.length)) packet ↔
        wordSum (Ip4.pseudoHeader srcIp destIp (UInt16.ofNat packet.length) ++ (packet.set 6 0).set 7 0) <
          2147483648)) ∧
    (∀ type code data, (Ip4.se4SendIcmp type code data).length ≤ seIp4MaxPayloadSize.toNat →
      Verifies (Ip4.se4SendIcmp type code data) ∧
        ∃ info, (Ip4.se4ParseIpPacketICMPv4 (Ip4.se4SendIcmp type code data)).flow = .next info ∧
          (info = none ↔ (type = 8 ∨ type = 0) ∧ data.length < 4)) ∧
    (∀ destIp srcIp id total offset protocol ttl data packet,
      Ip4.se4SendIpFragment destIp srcIp id total offset protocol ttl data = some packet →
        Verifies (packet.take 20) ∧ Ip4.se4IpCheckChecksum packet = true) ∧
    (∀ destIp destPort srcIp srcPort data packet, Ip6.se6SendUdp destIp destPort srcIp srcPort data = some packet →
      (UdpVerifies (Ip6.pseudoHeader srcIp destIp 0x11 packet.length) packet ↔
        wordSum (Ip6.pseudoHeader srcIp destIp 0x11 packet.length ++ (packet.set 6 0).set 7 0) < 2147483648) ∧
      ∀ behind id hopLimit,
        (Ip6.se6ParseIpPacketUDPv6 behind ⟨srcIp, destIp, id, 0x11, hopLimit, packet⟩).flow =
          .next (decide (destPort.toUInt16 ≠ 0))) ∧
    (∀ srcIp destIp type code data, (Ip6.se6SendIcmp srcIp destIp type code data).length ≤ seIp6MaxPayloadSize.toNat →
      let packet := Ip6.se6SendIcmp srcIp destIp type code data
      (Verifies (Ip6.pseudoHeader srcIp destIp 0x3a packet.length ++ packet) ↔
        wordSum (Ip6.pseudoHeader srcIp destIp 0x3a packet.length ++ (packet.set 2 0).set 3 0) < 2147483648) ∧
      ∀ fuel id hopLimit,
        (Ip6.se6ParseIpPacketICMPv6 fuel ⟨srcIp, destIp, id, 0x3a, hopLimit, packet⟩).flow =
          (Ip6.icmpByType fuel packet data.length).flow) := by
  refine ⟨?_, ?_, ?_, ?_, ?_, ?_, ?_⟩
  · intro short
    exact Ip4.se4IpChecksum_iff buf (wordSum_small short)
  · intro srcIp destIp protocol data short
    have length := @Ip6.length_pseudoHeader destIp srcIp protocol data.length
    rw [Ip6.se6CalcChecksum_eq]
    exact Ip4.se4IpChecksum_iff _ (wordSum_small (by rw [length_append]; omega))
  · intro destIp destPort srcIp srcPort data packet sent
    exact Ip4.se4SendUdp_verifies sent
  · intro type code data fits
    have limit : seIp4MaxPayloadSize.toNat = 65535 := rfl
    have length : (Ip4.se4SendIcmp type code data).length = 4 + data.length := by
      rw [Ip4.se4SendIcmp, length_append]
      rfl
    obtain ⟨info, parsed, rejects⟩ := Ip4.se4SendIcmp_parses type code data
    rw [Nat.mod_eq_of_lt (by omega)] at rejects
    exact ⟨Ip4.se4SendIcmp_verifies fits, info, parsed, rejects⟩
  · intro destIp srcIp id total offset protocol ttl data packet sent
    exact Ip4.se4SendIpFragment_verifies sent
  · intro destIp destPort srcIp srcPort data packet sent
    exact ⟨Ip6.se6SendUdp_verifies sent, Ip6.se6SendUdp_parses sent⟩
  · intro srcIp destIp type code data fits packet
    have limit : seIp6MaxPayloadSize.toNat = 65535 := rfl
    have length : packet.length = 4 + data.length := by
      change (icmpHeader _ _ _ ++ data).length = _
      rw [length_append]
      rfl
    have short : packet.length ≤ 65535 := fits
    refine ⟨Ip6.se6SendIcmp_verifies fits, ?_⟩
    intro fuel id hopLimit
    rw [Ip6.se6SendIcmp_parses, Nat.mod_eq_of_lt (by omega)]

theorem checksums_exact_short :
    Ip4.se4IpChecksum [0x45, 0x00] = complementSum [0x45, 0x00] ∧
      Verifies (Ip4.se4SendIcmp 8 0 [0, 1, 0, 1]) :=
  ⟨((checksums_exact [0x45, 0x00]).1 (by decide)).mpr (by decide),
    ((checksums_exact []).2.2.2.1 8 0 [0, 1, 0, 1] (by decide)).1⟩

theorem wordSum_replicate (n : Nat) : wordSum (List.replicate (2 * n + 1) 0xff) = 65535 * n + 255 := by
  induction n with
  | zero => rfl
  | succ n ih =>
    have two : 2 * (n + 1) + 1 = (2 * n + 1) + 1 + 1 := by omega
    rw [two, replicate_succ, replicate_succ]
    simp only [wordSum, words, sum_cons] at ih ⊢
    rw [ih]
    have byte : (0xff : UInt8).toNat = 255 := rfl
    omega

/-- The largest packet, with nothing but ones: no receiver takes it. -/
theorem se4SendUdp_rejected :
    ∃ packet, Ip4.se4SendUdp (fun _ => 0xff) 0xffff (fun _ => 0xff) 0xffff (List.replicate 65527 0xff) = some packet ∧
      ¬UdpVerifies (Ip4.pseudoHeader (fun _ => 0xff) (fun _ => 0xff) (UInt16.ofNat packet.length)) packet ∧
      Ip4.se4IpChecksum (Ip4.pseudoHeader (fun _ => 0xff) (fun _ => 0xff) (UInt16.ofNat packet.length) ++
          (packet.set 6 0).set 7 0) ≠
        complementSum (Ip4.pseudoHeader (fun _ => 0xff) (fun _ => 0xff) (UInt16.ofNat packet.length) ++
          (packet.set 6 0).set 7 0) := by
  have limit : seIp4MaxPayloadSize.toNat = 65535 := rfl
  have size : (List.replicate 65527 (0xff : UInt8)).length = 65527 := length_replicate
  have ones : wordSum (List.replicate 65527 0xff) = 65535 * 32763 + 255 := wordSum_replicate 32763
  generalize List.replicate 65527 (0xff : UInt8) = data at size ones
  obtain ⟨packet, sent⟩ : ∃ packet, Ip4.se4SendUdp (fun _ => 0xff) 0xffff (fun _ => 0xff) 0xffff data = some packet := by
    simp only [Ip4.se4SendUdp]
    rw [if_neg (by omega)]
    exact ⟨_, rfl⟩
  have verifies := Ip4.se4SendUdp_verifies sent
  have checksum := Ip4.se4IpChecksum_iff
    (Ip4.pseudoHeader (fun _ => 0xff) (fun _ => 0xff) (UInt16.ofNat packet.length) ++ (packet.set 6 0).set 7 0)
  have sum : wordSum (Ip4.pseudoHeader (fun _ => 0xff) (fun _ => 0xff) (UInt16.ofNat packet.length) ++
      (packet.set 6 0).set 7 0) = 2147652092 := by
    simp only [Ip4.se4SendUdp] at sent
    rw [if_neg (by omega)] at sent
    have same := Option.some.inj sent
    have length : packet.length = 65535 := by
      rw [← same, length_append, size]
      rfl
    have cleared : (packet.set 6 0).set 7 0 = udpHeader 0xffff 0xffff (UInt16.ofNat (8 + data.length)) 0 ++ data := by
      rw [← same]
      rfl
    rw [length, cleared, size, ← append_assoc, wordSum, words_sum_append _ _ (by decide)]
    have head : (words (Ip4.pseudoHeader (fun _ => 0xff) (fun _ => 0xff) (UInt16.ofNat 65535) ++
        udpHeader 0xffff 0xffff (UInt16.ofNat (8 + 65527)) 0)).sum = 528632 := by decide
    rw [wordSum] at ones
    omega
  refine ⟨packet, sent, ?_, ?_⟩
  · rw [verifies, sum]
    decide
  · have large := checksum (by change wordSum _ < _; rw [sum]; decide)
    rw [Ne, large]
    change ¬wordSum _ < _
    rw [sum]
    decide

end DisasVisor.Vpn
