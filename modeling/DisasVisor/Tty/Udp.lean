import DisasVisor.Lib.OnesComplement

/-!
The datagrams that `core/tty.c` builds for the log.
-/

namespace DisasVisor.Tty

open OnesComplement

def u16Bytes (x : UInt16) : List UInt8 := [x.toUInt8, (x >>> 8).toUInt8]

def wshort (x : UInt16) : List UInt8 := [(x >>> 8).toUInt8, x.toUInt8]

/-- `mkudp`. The first 10 bytes, those of the addresses and so on stand in the order of the buffer. -/
def mkudp (ipchecksum : List UInt8 → UInt16) (src : Vector UInt8 4) (sport : UInt16) (dst : Vector UInt8 4)
    (dport : UInt16) (data : List UInt8) : List UInt8 :=
  let head := [0x45, 0x00] ++ wshort (UInt16.ofNat (data.length + 8 + 20)) ++ [0x00, 0x01, 0x00, 0x00, 0x40, 0x11]
  let addresses := src.toList ++ dst.toList
  let ports := wshort sport ++ wshort dport
  let length := wshort (UInt16.ofNat (data.length + 8))
  -- The protocol number stands in the place of the checksum.
  let sum := ~~~ipchecksum (addresses ++ ports ++ length ++ [0x00, 0x11] ++ data)
  let sum := ipchecksum (length ++ u16Bytes sum)
  let headSum := ipchecksum (head ++ [0x00, 0x00] ++ addresses)
  head ++ u16Bytes headSum ++ addresses ++ ports ++ length ++ u16Bytes sum ++ data

def complementSum (bytes : List UInt8) : UInt16 :=
  let rest := ~~~UInt16.ofNat (sum (words bytes))
  if rest = 0 then 0xFFFF else rest

/-- The result of `ipchecksum`. -/
def Computes (ipchecksum : List UInt8 → UInt16) : Prop := ∀ bytes, ipchecksum bytes = complementSum bytes

def pseudoHeader (src dst : Vector UInt8 4) (udpLength : UInt16) : List UInt8 :=
  src.toList ++ dst.toList ++ [0x00, 0x11] ++ wshort udpLength

theorem words_u16Bytes (x : UInt16) : words (u16Bytes x) = [x.toNat] := by
  have bound := x.toNat_lt
  simp only [u16Bytes, words, UInt16.toNat_toUInt8, UInt16.toNat_shiftRight, List.cons.injEq, and_true]
  simp only [UInt16.reduceToNat, Nat.reduceMod, Nat.shiftRight_eq_div_pow]
  omega

theorem netWords_wshort (x : UInt16) : netWords (wshort x) = [x.toNat] := by
  have bound := x.toNat_lt
  simp only [wshort, netWords, UInt16.toNat_toUInt8, UInt16.toNat_shiftRight, List.cons.injEq, and_true]
  simp only [UInt16.reduceToNat, Nat.reduceMod, Nat.shiftRight_eq_div_pow]
  omega

theorem toNat_not (x : UInt16) : (~~~x).toNat = 65535 - x.toNat := by
  rw [UInt16.toNat_not]
  rfl

variable {ipchecksum : List UInt8 → UInt16}

theorem checksum_sum (computes : Computes ipchecksum) (bytes : List UInt8) :
    (ipchecksum bytes).toNat ≠ 0 ∧ ((ipchecksum bytes).toNat + (words bytes).sum) % 65535 = 0 := by
  have low := norm_lt (words bytes).sum
  have same := norm_mod (words bytes).sum
  have rest : (~~~UInt16.ofNat (norm (words bytes).sum)).toNat = 65535 - norm (words bytes).sum := by
    rw [toNat_not, UInt16.toNat_ofNat_of_lt' low]
  rw [computes bytes, complementSum, sum_eq (words_lt bytes)]
  split
  · rename_i zero
    rw [zero] at rest
    have all := UInt16.toNat_zero
    have most : (0xFFFF : UInt16).toNat = 65535 := rfl
    rw [all] at rest
    rw [most]
    omega
  · rename_i nonzero
    have differs : (~~~UInt16.ofNat (norm (words bytes).sum)).toNat ≠ 0 := fun same => nonzero (UInt16.toNat_inj.mp same)
    omega

theorem verifies_checksum {front back : List UInt8} {sum : UInt16} (even : front.length % 2 = 0)
    (nonzero : sum.toNat ≠ 0) (whole : (sum.toNat + (words (front ++ back)).sum) % 65535 = 0) :
    Verifies (front ++ u16Bytes sum ++ back) := by
  have pair : (front ++ u16Bytes sum).length % 2 = 0 := by
    rw [List.length_append]
    simp only [u16Bytes, List.length_cons, List.length_nil]
    omega
  rw [words_append front back even, List.sum_append] at whole
  rw [verifies_iff, words_append _ _ pair, words_append _ _ even, words_u16Bytes, List.sum_append, List.sum_append,
    List.sum_singleton]
  omega

theorem verifies_udp (computes : Computes ipchecksum) {addresses ports length : List UInt8} (data : List UInt8)
    (eight : addresses.length = 8) (four : ports.length = 4) (two : length.length = 2) :
    Verifies (addresses ++ [0x00, 0x11] ++ length ++ (ports ++ length ++
      u16Bytes (ipchecksum (length ++ u16Bytes
        (~~~ipchecksum (addresses ++ ports ++ length ++ [0x00, 0x11] ++ data)))) ++ data)) := by
  obtain ⟨-, first⟩ := checksum_sum computes (addresses ++ ports ++ length ++ [0x00, 0x11] ++ data)
  obtain ⟨nonzero, second⟩ := checksum_sum computes
    (length ++ u16Bytes (~~~ipchecksum (addresses ++ ports ++ length ++ [0x00, 0x11] ++ data)))
  have bound := (ipchecksum (addresses ++ ports ++ length ++ [0x00, 0x11] ++ data)).toNat_lt
  have protocol : (words [0x00, 0x11]).sum = 0x1100 := by decide
  have order : addresses ++ [0x00, 0x11] ++ length ++ (ports ++ length ++
      u16Bytes (ipchecksum (length ++ u16Bytes
        (~~~ipchecksum (addresses ++ ports ++ length ++ [0x00, 0x11] ++ data)))) ++ data) =
      addresses ++ [0x00, 0x11] ++ length ++ ports ++ length ++
        u16Bytes (ipchecksum (length ++ u16Bytes
          (~~~ipchecksum (addresses ++ ports ++ length ++ [0x00, 0x11] ++ data)))) ++ data := by
    simp only [List.append_assoc]
  rw [order]
  refine verifies_checksum (by simp [eight, four, two]) nonzero ?_
  rw [words_sum_append _ _ (by simp [eight, four, two]), words_sum_append _ _ (by simp [eight, four, two]),
    words_sum_append _ _ (by simp [eight, four]), words_sum_append _ _ (by simp [eight]), protocol] at first
  rw [words_sum_append _ _ (by simp [two]), words_u16Bytes, List.sum_singleton, toNat_not] at second
  rw [words_sum_append _ _ (by simp [eight, four, two]), words_sum_append _ _ (by simp [eight, four, two]),
    words_sum_append _ _ (by simp [eight, two]), words_sum_append _ _ (by simp [eight]),
    words_sum_append _ _ (by simp [eight]), protocol]
  omega

/-- Both checksums of a datagram verify, and its lengths are those of its data. -/
theorem mkudp_verifies (computes : Computes ipchecksum) (src : Vector UInt8 4) (sport : UInt16)
    (dst : Vector UInt8 4) (dport : UInt16) (data : List UInt8) (fits : data.length + 28 < 65536) :
    let datagram := mkudp ipchecksum src sport dst dport data
    datagram.length = data.length + 28 ∧
      Verifies (datagram.take 20) ∧
      Verifies (pseudoHeader src dst (UInt16.ofNat (data.length + 8)) ++ datagram.drop 20) ∧
      netWords ((datagram.drop 2).take 2) = [data.length + 28] ∧
      netWords ((datagram.drop 24).take 2) = [data.length + 8] := by
  intro datagram
  have eight : (src.toList ++ dst.toList).length = 8 := by simp
  let head := [0x45, 0x00] ++ wshort (UInt16.ofNat (data.length + 8 + 20)) ++ [0x00, 0x01, 0x00, 0x00, 0x40, 0x11]
  let ports := wshort sport ++ wshort dport
  let length := wshort (UInt16.ofNat (data.length + 8))
  let both := ipchecksum (src.toList ++ dst.toList ++ ports ++ length ++ [0x00, 0x11] ++ data)
  let sum := ipchecksum (length ++ u16Bytes (~~~both))
  let headSum := ipchecksum (head ++ [0x00, 0x00] ++ (src.toList ++ dst.toList))
  have parts : datagram = (head ++ u16Bytes headSum ++ (src.toList ++ dst.toList)) ++
      (ports ++ length ++ u16Bytes sum ++ data) := by
    simp only [datagram, mkudp, List.append_assoc, head, ports, length, both, sum, headSum]
  have front : (head ++ u16Bytes headSum ++ (src.toList ++ dst.toList)).length = 20 := by
    rw [List.length_append, eight]
    rfl
  have takes : datagram.take 20 = head ++ u16Bytes headSum ++ (src.toList ++ dst.toList) := by
    rw [parts, List.take_left' front]
  have drops : datagram.drop 20 = ports ++ length ++ u16Bytes sum ++ data := by rw [parts, List.drop_left' front]
  refine ⟨?_, ?_, ?_, ?_, ?_⟩
  · rw [parts, List.length_append, front, List.length_append]
    simp only [ports, length, wshort, u16Bytes, List.length_append, List.length_cons, List.length_nil]
    omega
  · have even : head.length % 2 = 0 := by simp [head, wshort]
    have pair : (head ++ [0x00, 0x00]).length % 2 = 0 := by simp [head, wshort]
    obtain ⟨nonzero, whole⟩ := checksum_sum computes (head ++ [0x00, 0x00] ++ (src.toList ++ dst.toList))
    rw [takes]
    refine verifies_checksum even nonzero ?_
    rw [words_sum_append _ _ pair, words_sum_append _ _ even] at whole
    have zero : (words [0x00, 0x00]).sum = 0 := rfl
    rw [zero, Nat.add_zero] at whole
    rw [words_sum_append _ _ even]
    exact whole
  · rw [drops]
    exact verifies_udp computes data eight rfl rfl
  · have field : (datagram.drop 2).take 2 = wshort (UInt16.ofNat (data.length + 8 + 20)) := by
      rw [parts]
      rfl
    rw [field, netWords_wshort, UInt16.toNat_ofNat_of_lt' (show data.length + 8 + 20 < 65536 by omega)]
  · have later : datagram.drop 24 = (datagram.drop 20).drop 4 := by rw [List.drop_drop]
    have field : (datagram.drop 24).take 2 = wshort (UInt16.ofNat (data.length + 8)) := by
      rw [later, drops]
      rfl
    rw [field, netWords_wshort, UInt16.toNat_ofNat_of_lt' (show data.length + 8 < 65536 by omega)]

theorem mkudp_verifies_byte :
    Verifies ((mkudp complementSum #v[0, 0, 0, 0] 10 #v[0xE0, 0, 0, 1] 10101 [0x41]).take 20) :=
  (mkudp_verifies (fun _ => rfl) #v[0, 0, 0, 0] 10 #v[0xE0, 0, 0, 1] 10101 [0x41] (by decide)).2.1

end DisasVisor.Tty
