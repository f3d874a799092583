import DisasVisor.Vpn.Checksums

/-!
`Se4AdjustTcpMss` of `vpn/lib/Se/SeIp4.c`: the MSS option of a SYN packet on its way into the tunnel. The bytes
are those behind the MAC header, with whatever the link has padded.
-/

namespace DisasVisor.Vpn.Ip4

open OnesComplement List
open Ip6 (endian16 readEndian16)
open ByteOrder (getD_take)
open Option (bind_some)

def bytesAt (buf : List UInt8) (start size : Nat) : Option (List UInt8) :=
  if start + size ≤ buf.length then some ((buf.drop start).take size) else none

def putAt (buf : List UInt8) (start : Nat) (bytes : List UInt8) : Option (List UInt8) :=
  if start + bytes.length ≤ buf.length then
    some (buf.take start ++ bytes ++ buf.drop (start + bytes.length))
  else none

/-! The TCP header: its size is at byte 12, the flags are at 13, the checksum at 16, the options from 20 on. -/

def seTcpSyn : UInt8 := 2
def seTcpRst : UInt8 := 4
def seTcpPsh : UInt8 := 8
def seTcpAck : UInt8 := 16
def seTcpUrg : UInt8 := 32

def getHeaderSize (tcp : List UInt8) : Nat := (tcp.getD 12 0).toNat >>> 4 &&& 0x0f

def notSyn (tcp : List UInt8) : Bool :=
  let flag := tcp.getD 13 0
  flag &&& seTcpSyn = 0 ∨ flag &&& seTcpRst ≠ 0 ∨ flag &&& seTcpPsh ≠ 0 ∨ flag &&& seTcpAck ≠ 0 ∨ flag &&& seTcpUrg ≠ 0

def tcpPseudoHeader (ip : Header) (packetLength : Nat) : List UInt8 :=
  List.ofFn ip.srcIP ++ List.ofFn ip.dstIP ++ [0, ip.protocol] ++ endian16 (UInt16.ofNat packetLength)

/-- `Se4IpChecksum` of a buffer of any size: the loop counts an `int` down. -/
def se4IpChecksumSized (buf : List UInt8) : UInt16 :=
  if 2147483648 ≤ buf.length then 0xffff else se4IpChecksum buf

/-- The checksum anew, over the header and the payload up to the end of the buffer; `SeZeroMalloc` takes a
`UINT`, and a copy that does not fit in what it gives is written behind it. -/
def adjustChecksum (buf : List UInt8) (ipHeaderSize pSize : Nat) : Option (List UInt8) := do
  let buf ← putAt buf (ipHeaderSize + 16) (checksumField 0)
  let ip := readHeader (← bytesAt buf 0 20)
  let copy ← bytesAt buf ipHeaderSize pSize
  if (12 + pSize) % 4294967296 < 12 + pSize then none
  else putAt buf (ipHeaderSize + 16) (checksumField (se4IpChecksumSized (tcpPseudoHeader ip pSize ++ copy)))

/-- `Se4AdjustTcpMss`: the result and the buffer, or nothing where an access falls outside of one. -/
def se4AdjustTcpMss (buf : List UInt8) (mss : UInt32) : Option (Bool × List UInt8) := do
  if buf.length < 20 then return (false, buf)
  let ip := readHeader (← bytesAt buf 0 20)
  if ip.getVersion ≠ 4 then return (false, buf)
  if ip.protocol ≠ 0x06 then return (false, buf)
  let ipHeaderSize := ip.getHeaderLen * 4
  if buf.length < ipHeaderSize then return (false, buf)
  let pSize := buf.length - ipHeaderSize
  if pSize < 20 then return (false, buf)
  let tcp ← bytesAt buf ipHeaderSize 20
  let tcpHeaderSize := getHeaderSize tcp * 4
  if tcpHeaderSize < 20 then return (false, buf)
  if notSyn tcp then return (false, buf)
  if pSize < tcpHeaderSize then return (false, buf)
  if tcpHeaderSize - 20 < 4 then return (false, buf)
  let options ← bytesAt buf (ipHeaderSize + 20) 4
  if options.take 2 ≠ [0x02, 0x04] then return (false, buf)
  if (readEndian16 options 2).toUInt32 ≤ mss then return (false, buf)
  let changed ← putAt buf (ipHeaderSize + 22) (endian16 mss.toUInt16)
  return (true, ← adjustChecksum changed ipHeaderSize pSize)

def ipHeaderSize (buf : List UInt8) : Nat := (readHeader buf).getHeaderLen * 4

structure Looks (buf : List UInt8) (mss : UInt32) : Prop where
  version : (readHeader buf).getVersion = 4
  protocol : (readHeader buf).protocol = 0x06
  syn : notSyn (buf.drop (ipHeaderSize buf)) = false
  header : 24 ≤ getHeaderSize (buf.drop (ipHeaderSize buf)) * 4
  option : (buf.drop (ipHeaderSize buf + 20)).take 2 = [0x02, 0x04]
  above : mss < (readEndian16 buf (ipHeaderSize buf + 22)).toUInt32
  inside : ipHeaderSize buf + getHeaderSize (buf.drop (ipHeaderSize buf)) * 4 ≤ buf.length
  start : 20 ≤ buf.length

/-- What makes a packet of these bytes: an IP header of its full size, the front fragment, and a total length that
takes in the TCP header and lies in the buffer. -/
structure Packet (buf : List UInt8) : Prop where
  full : 20 ≤ ipHeaderSize buf
  front : (readHeader buf).getOffset = 0
  holds : ipHeaderSize buf + getHeaderSize (buf.drop (ipHeaderSize buf)) * 4 ≤ (readHeader buf).totalLength.toNat
  within : (readHeader buf).totalLength.toNat ≤ buf.length

def TcpVerifies (buf : List UInt8) : Prop :=
  let size := (readHeader buf).totalLength.toNat - ipHeaderSize buf
  Verifies (tcpPseudoHeader (readHeader buf) size ++ (buf.drop (ipHeaderSize buf)).take size)

structure Clamps (mss : UInt32) (buf out : List UInt8) : Prop where
  length : out.length = buf.length
  mss : (out.drop (ipHeaderSize buf + 22)).take 2 = endian16 mss.toUInt16
  others : ∀ i, i ≠ ipHeaderSize buf + 16 → i ≠ ipHeaderSize buf + 17 →
    i ≠ ipHeaderSize buf + 22 → i ≠ ipHeaderSize buf + 23 → out[i]? = buf[i]?

/-- No access falls outside, the result tells the SYN packets with a larger MSS, and these are clamped. -/
def Adjusts (buf : List UInt8) (mss : UInt32) : Prop :=
  ∃ result out, se4AdjustTcpMss buf mss = some (result, out) ∧
    (result = true ↔ Looks buf mss ∧ Packet buf) ∧
    (result = true → Clamps mss buf out ∧ TcpVerifies out) ∧
    (result = false → out = buf)

def surplus (buf : List UInt8) : Nat :=
  let total := (readHeader buf).totalLength.toNat
  wordSum (if (total - ipHeaderSize buf) % 2 = 0 then buf.drop total else 0 :: buf.drop total) +
    wordSum (endian16 (UInt16.ofNat (buf.length - ipHeaderSize buf)))

def cleared (buf : List UInt8) (mss : UInt32) : List UInt8 :=
  let tcp := buf.drop (ipHeaderSize buf)
  tcp.take 16 ++ (checksumField 0 ++ ((tcp.drop 18).take 4 ++ (endian16 mss.toUInt16 ++ tcp.drop 24)))

def covered (buf : List UInt8) (mss : UInt32) : List UInt8 :=
  tcpPseudoHeader (readHeader buf) (buf.length - ipHeaderSize buf) ++ cleared buf mss

/-- The carries that the `int` loses, or all of a sum whose loop does not run. -/
def lost (bytes : List UInt8) : Nat :=
  if 2147483648 ≤ bytes.length then wordSum bytes
  else wordSum bytes / 4294967296 + if 2147483648 ≤ wordSum bytes % 4294967296 then 1 else 0

def AddsUp (buf : List UInt8) (mss : UInt32) : Prop :=
  12 + (buf.length - ipHeaderSize buf) < 4294967296 ∧
    surplus buf % 65535 =
      (wordSum (endian16 (UInt16.ofNat ((readHeader buf).totalLength.toNat - ipHeaderSize buf))) +
        lost (covered buf mss)) % 65535

theorem se4IpChecksum_mod (bytes : List UInt8) :
    ((se4IpChecksum bytes).toNat + wordSum bytes % 4294967296) % 65535 =
      if 2147483648 ≤ wordSum bytes % 4294967296 then 1 else 0 := by
  have whole : (checksumSum bytes).toUInt32.toNat = wordSum bytes % 4294967296 := checksumSum_toNat bytes
  have result := se4IpChecksum_folded bytes
  have low : (se4IpChecksum bytes).toNat < 65536 := UInt16.toNat_lt _
  have bound : wordSum bytes % 4294967296 < 4294967296 := Nat.mod_lt _ (by decide)
  rw [toInt_eq, whole, folded] at result
  generalize wordSum bytes % 4294967296 = sum at result bound ⊢
  split
  · rename_i large
    have first : ((sum : Int) - 4294967296) / 65536 + ((sum : Int) - 4294967296) % 65536 =
        ((sum / 65536 + sum % 65536 : Nat) : Int) - 65536 := by omega
    rw [if_neg (by omega), first] at result
    by_cases carries : sum / 65536 + sum % 65536 < 65536
    · have quotient : (((sum / 65536 + sum % 65536 : Nat) : Int) - 65536) / 65536 = -1 := by omega
      rw [quotient] at result
      have value : (se4IpChecksum bytes).toNat + (sum / 65536 + sum % 65536) = 65536 := by omega
      omega
    · have quotient : (((sum / 65536 + sum % 65536 : Nat) : Int) - 65536) / 65536 = 0 := by omega
      rw [quotient] at result
      have value : (se4IpChecksum bytes).toNat + (sum / 65536 + sum % 65536) = 131071 := by omega
      omega
  · rename_i small
    have first : (sum : Int) / 65536 + (sum : Int) % 65536 = ((sum / 65536 + sum % 65536 : Nat) : Int) := by omega
    rw [if_pos (by omega), first] at result
    by_cases carries : sum / 65536 + sum % 65536 < 65536
    · have quotient : ((sum / 65536 + sum % 65536 : Nat) : Int) / 65536 = 0 := by omega
      rw [quotient] at result
      have value : (se4IpChecksum bytes).toNat + (sum / 65536 + sum % 65536) = 65535 := by omega
      omega
    · have quotient : ((sum / 65536 + sum % 65536 : Nat) : Int) / 65536 = 1 := by omega
      rw [quotient] at result
      have value : (se4IpChecksum bytes).toNat + (sum / 65536 + sum % 65536) = 131070 := by omega
      omega

theorem se4IpChecksumSized_mod (bytes : List UInt8) :
    ((se4IpChecksumSized bytes).toNat + wordSum bytes) % 65535 = lost bytes % 65535 := by
  rw [se4IpChecksumSized, lost]
  split
  · have ones : (0xffff : UInt16).toNat = 65535 := rfl
    rw [ones]
    omega
  · have loop := se4IpChecksum_mod bytes
    omega

theorem bytesAt_eq {buf : List UInt8} {start size : Nat} (fits : start + size ≤ buf.length) :
    bytesAt buf start size = some ((buf.drop start).take size) := if_pos fits

theorem bytesAt_front (buf : List UInt8) (start : 20 ≤ buf.length) : bytesAt buf 0 20 = some (buf.take 20) :=
  bytesAt_eq (by omega)

theorem putAt_append (front : List UInt8) {old new : List UInt8} (back : List UInt8) (start : Nat)
    (here : front.length = start) (same : new.length = old.length) :
    putAt (front ++ (old ++ back)) start new = some (front ++ (new ++ back)) := by
  subst start
  rw [putAt, if_pos (by simp only [length_append]; omega), same, ← drop_drop, take_left',
    drop_left, drop_left, append_assoc]
  rfl

theorem putAt_length {buf bytes out : List UInt8} {start : Nat} (put : putAt buf start bytes = some out) :
    out.length = buf.length := by
  unfold putAt at put
  split at put
  · cases put
    simp only [length_append, length_take, length_drop]
    omega
  · cases put

theorem putAt_others {buf bytes out : List UInt8} {start i : Nat} (put : putAt buf start bytes = some out)
    (outside : i < start ∨ start + bytes.length ≤ i) : out[i]? = buf[i]? := by
  unfold putAt at put
  split at put
  · rename_i fits
    have front : (buf.take start).length = start := length_take_of_le (by omega)
    rw [← Option.some.inj put, append_assoc]
    rcases outside with before | behind
    · rw [List.getElem?_append_left (by omega), List.getElem?_take_of_lt before]
    · rw [List.getElem?_append_right (by omega), List.getElem?_append_right (by omega), List.getElem?_drop, front]
      congr 1
      omega
  · cases put

theorem readHeader_congr {buf other : List UInt8} (same : buf.take 20 = other.take 20) :
    readHeader buf = readHeader other := by
  have byte : ∀ i, i < 20 → buf.getD i 0 = other.getD i 0 := by
    intro i small
    have entry := congrArg (fun bytes => bytes.getD i 0) same
    simpa only [getD_eq_getElem?_getD, List.getElem?_take_of_lt small] using entry
  simp only [readHeader, byte _ (show 0 < 20 by decide), byte _ (show 1 < 20 by decide),
    byte _ (show 2 < 20 by decide), byte _ (show 3 < 20 by decide), byte _ (show 4 < 20 by decide),
    byte _ (show 5 < 20 by decide), byte _ (show 6 < 20 by decide), byte _ (show 7 < 20 by decide),
    byte _ (show 8 < 20 by decide), byte _ (show 9 < 20 by decide), byte _ (show 10 < 20 by decide),
    byte _ (show 11 < 20 by decide), Header.mk.injEq, true_and]
  constructor
  · funext i
    exact byte _ (by omega)
  · funext i
    exact byte _ (by omega)

theorem readHeader_take (buf : List UInt8) : readHeader (buf.take 20) = readHeader buf :=
  readHeader_congr (by rw [take_take, Nat.min_self])

variable {buf : List UInt8} {mss : UInt32}

theorem getHeaderSize_take (tcp : List UInt8) : getHeaderSize (tcp.take 20) = getHeaderSize tcp := by
  rw [getHeaderSize, getHeaderSize, getD_take tcp (by decide)]

theorem notSyn_take (tcp : List UInt8) : notSyn (tcp.take 20) = notSyn tcp := by
  rw [notSyn, notSyn, getD_take tcp (by decide)]

theorem readEndian16_options (buf : List UInt8) (h : Nat) :
    readEndian16 ((buf.drop (h + 20)).take 4) 2 = readEndian16 buf (h + 22) := by
  unfold readEndian16
  rw [getD_take _ (by decide), getD_take _ (by decide)]
  simp only [getD_eq_getElem?_getD, List.getElem?_drop]

theorem se4AdjustTcpMss_cases (buf : List UInt8) (mss : UInt32) :
    (¬Looks buf mss ∧ se4AdjustTcpMss buf mss = some (false, buf)) ∨
    (Looks buf mss ∧ se4AdjustTcpMss buf mss =
      (putAt buf (ipHeaderSize buf + 22) (endian16 mss.toUInt16)).bind fun changed =>
        (adjustChecksum changed (ipHeaderSize buf) (buf.length - ipHeaderSize buf)).bind fun out =>
          some (true, out)) := by
  rw [se4AdjustTcpMss]
  by_cases start : buf.length < 20
  · rw [if_pos start]
    exact .inl ⟨fun looks => by have := looks.start; omega, rfl⟩
  rw [if_neg start, bytesAt_front buf (by omega)]
  simp only [bind, bind_some, pure, readHeader_take]
  by_cases version : (readHeader buf).getVersion ≠ 4
  · rw [if_pos version]
    exact .inl ⟨fun looks => version looks.version, rfl⟩
  rw [if_neg version]
  by_cases protocol : (readHeader buf).protocol ≠ 0x06
  · rw [if_pos protocol]
    exact .inl ⟨fun looks => protocol looks.protocol, rfl⟩
  rw [if_neg protocol]
  have size : (readHeader buf).getHeaderLen * 4 = ipHeaderSize buf := rfl
  rw [size]
  by_cases short : buf.length < ipHeaderSize buf
  · rw [if_pos short]
    exact .inl ⟨fun looks => by have := looks.inside; omega, rfl⟩
  rw [if_neg short]
  by_cases cut : buf.length - ipHeaderSize buf < 20
  · rw [if_pos cut]
    exact .inl ⟨fun looks => by have := looks.inside; have := looks.header; omega, rfl⟩
  rw [if_neg cut, bytesAt_eq (by omega : ipHeaderSize buf + 20 ≤ buf.length)]
  simp only [bind_some, getHeaderSize_take, notSyn_take]
  by_cases small : getHeaderSize (buf.drop (ipHeaderSize buf)) * 4 < 20
  · rw [if_pos small]
    exact .inl ⟨fun looks => by have := looks.header; omega, rfl⟩
  rw [if_neg small]
  by_cases flags : notSyn (buf.drop (ipHeaderSize buf)) = true
  · rw [if_pos flags]
    exact .inl ⟨fun looks => Bool.false_ne_true (looks.syn.symm.trans flags), rfl⟩
  rw [if_neg flags]
  by_cases beyond : buf.length - ipHeaderSize buf < getHeaderSize (buf.drop (ipHeaderSize buf)) * 4
  · rw [if_pos beyond]
    exact .inl ⟨fun looks => by have := looks.inside; omega, rfl⟩
  rw [if_neg beyond]
  by_cases bare : getHeaderSize (buf.drop (ipHeaderSize buf)) * 4 - 20 < 4
  · rw [if_pos bare]
    exact .inl ⟨fun looks => by have := looks.header; omega, rfl⟩
  rw [if_neg bare, bytesAt_eq (by omega : ipHeaderSize buf + 20 + 4 ≤ buf.length)]
  simp only [bind_some, readEndian16_options, take_take, Nat.reduceLeDiff, inf_of_le_left]
  by_cases kind : (buf.drop (ipHeaderSize buf + 20)).take 2 ≠ [0x02, 0x04]
  · rw [if_pos kind]
    exact .inl ⟨fun looks => kind looks.option, rfl⟩
  rw [if_neg kind]
  by_cases below : (readEndian16 buf (ipHeaderSize buf + 22)).toUInt32 ≤ mss
  · rw [if_pos below]
    exact .inl ⟨fun looks => UInt32.not_le.mpr looks.above below, rfl⟩
  rw [if_neg below]
  refine .inr ⟨?_, rfl⟩
  exact {
    version := not_not.mp version
    protocol := not_not.mp protocol
    syn := Bool.eq_false_iff.mpr flags
    header := by omega
    option := not_not.mp kind
    above := UInt32.not_le.mp below
    inside := by omega
    start := by omega }

theorem exists_split (bytes : List UInt8) (size : Nat) (fits : size ≤ bytes.length) :
    ∃ front back, bytes = front ++ back ∧ front.length = size :=
  ⟨bytes.take size, bytes.drop size, (take_append_drop size bytes).symm, length_take_of_le fits⟩

theorem exists_parts {h : Nat} (fits : h + 24 ≤ buf.length) : ∃ head ports sum pointer old rest,
    buf = head ++ (ports ++ (sum ++ (pointer ++ (old ++ rest)))) ∧ head.length = h ∧ ports.length = 16 ∧
      sum.length = 2 ∧ pointer.length = 4 ∧ old.length = 2 := by
  obtain ⟨head, tcp, rfl, headLength⟩ := exists_split buf h (by omega)
  rw [length_append] at fits
  obtain ⟨ports, tcp, rfl, portsLength⟩ := exists_split tcp 16 (by omega)
  rw [length_append] at fits
  obtain ⟨sum, tcp, rfl, sumLength⟩ := exists_split tcp 2 (by omega)
  rw [length_append] at fits
  obtain ⟨pointer, tcp, rfl, pointerLength⟩ := exists_split tcp 4 (by omega)
  rw [length_append] at fits
  obtain ⟨old, rest, rfl, oldLength⟩ := exists_split tcp 2 (by omega)
  exact ⟨head, ports, sum, pointer, old, rest, rfl, headLength, portsLength, sumLength, pointerLength, oldLength⟩

section Parts

variable {h : Nat} {head ports sum pointer old rest new : List UInt8}

theorem cleared_parts (parts : buf = head ++ (ports ++ (sum ++ (pointer ++ (old ++ rest)))))
    (headLength : head.length = ipHeaderSize buf) (portsLength : ports.length = 16) (sumLength : sum.length = 2)
    (pointerLength : pointer.length = 4) (oldLength : old.length = 2) :
    cleared buf mss = ports ++ (checksumField 0 ++ (pointer ++ (endian16 mss.toUInt16 ++ rest))) := by
  have tcp : buf.drop (ipHeaderSize buf) = ports ++ (sum ++ (pointer ++ (old ++ rest))) := by
    rw [← headLength]
    conv_lhs => rw [parts]
    exact drop_left
  have front : (ports ++ (sum ++ (pointer ++ (old ++ rest)))).take 16 = ports := take_left' portsLength
  have behind : (ports ++ (sum ++ (pointer ++ (old ++ rest)))).drop 18 = pointer ++ (old ++ rest) := by
    rw [← append_assoc]
    exact drop_left' (by rw [length_append]; omega)
  have last : (ports ++ (sum ++ (pointer ++ (old ++ rest)))).drop 24 = rest := by
    rw [← append_assoc, ← append_assoc, ← append_assoc]
    exact drop_left' (by simp only [length_append]; omega)
  rw [cleared, tcp, front, behind, last, take_left' pointerLength]

theorem put_mss (headLength : head.length = h) (portsLength : ports.length = 16) (sumLength : sum.length = 2)
    (pointerLength : pointer.length = 4) (same : new.length = old.length) :
    putAt (head ++ (ports ++ (sum ++ (pointer ++ (old ++ rest))))) (h + 22) new =
      some (head ++ (ports ++ (sum ++ (pointer ++ (new ++ rest))))) := by
  have put := putAt_append (head ++ (ports ++ (sum ++ pointer))) rest (h + 22)
    (by simp only [length_append]; omega) same
  simpa only [append_assoc] using put

theorem put_checksum (sum new : List UInt8) (headLength : head.length = h) (portsLength : ports.length = 16)
    (same : new.length = sum.length) (back : List UInt8) :
    putAt (head ++ (ports ++ (sum ++ back))) (h + 16) new = some (head ++ (ports ++ (new ++ back))) := by
  have put := putAt_append (head ++ ports) back (h + 16) (by rw [length_append]; omega) same
  simpa only [append_assoc] using put

end Parts

theorem clamped (looks : Looks buf mss) (full : 20 ≤ ipHeaderSize buf)
    (fits : 12 + (buf.length - ipHeaderSize buf) < 4294967296) : ∃ out ports back,
    se4AdjustTcpMss buf mss = some (true, out) ∧ Clamps mss buf out ∧ readHeader out = readHeader buf ∧
      out.drop (ipHeaderSize buf) = ports ++ (checksumField (se4IpChecksumSized (covered buf mss)) ++ back) ∧
      cleared buf mss = ports ++ (checksumField 0 ++ back) ∧ ports.length = 16 ∧
      ∀ size, 24 ≤ size → (cleared buf mss).drop size = buf.drop (ipHeaderSize buf + size) := by
  have room : ipHeaderSize buf + 24 ≤ buf.length := by
    have := looks.inside
    have := looks.header
    omega
  obtain ⟨head, ports, sum, pointer, old, rest, parts, headLength, portsLength, sumLength, pointerLength, oldLength⟩ :=
    exists_parts room
  have segment : cleared buf mss = _ := cleared_parts parts headLength portsLength sumLength pointerLength oldLength
  have two : (endian16 mss.toUInt16).length = 2 := rfl
  have field : ∀ sum, (checksumField sum).length = 2 := fun _ => rfl
  -- the three writes
  have first : putAt buf (ipHeaderSize buf + 22) (endian16 mss.toUInt16) =
      some (head ++ (ports ++ (sum ++ (pointer ++ (endian16 mss.toUInt16 ++ rest))))) := by
    conv_lhs => arg 1; rw [parts]
    exact put_mss headLength portsLength sumLength pointerLength (by omega)
  have second := put_checksum sum (checksumField 0) headLength portsLength (by rw [field]; omega)
    (pointer ++ (endian16 mss.toUInt16 ++ rest))
  have third := fun checksum => put_checksum (checksumField 0) (checksumField checksum) headLength
    portsLength rfl (pointer ++ (endian16 mss.toUInt16 ++ rest))
  rw [← segment] at second third
  have headers : ∀ tcp, readHeader (head ++ tcp) = readHeader buf := by
    intro tcp
    apply readHeader_congr
    conv_rhs => rw [parts]
    rw [take_append_of_le_length (by omega), take_append_of_le_length (by omega)]
  have length : (cleared buf mss).length = buf.length - ipHeaderSize buf := by
    rw [segment]
    conv_rhs => arg 1; rw [parts]
    simp only [length_append, two, field]
    omega
  have copied : bytesAt (head ++ cleared buf mss) (ipHeaderSize buf) (buf.length - ipHeaderSize buf) =
      some (cleared buf mss) := by
    rw [bytesAt_eq (by rw [length_append]; omega), ← headLength, drop_left, headLength, ← length, take_length]
  have sized : ¬(12 + (buf.length - ipHeaderSize buf)) % 4294967296 < 12 + (buf.length - ipHeaderSize buf) := by omega
  let checksum := se4IpChecksumSized (covered buf mss)
  have last := third checksum
  refine ⟨head ++ (ports ++ (checksumField checksum ++ (pointer ++ (endian16 mss.toUInt16 ++ rest)))), ports,
    pointer ++ (endian16 mss.toUInt16 ++ rest), ?_, ?_, headers _, ?_, segment, portsLength, ?_⟩
  · obtain ⟨other, -⟩ | ⟨-, code⟩ := se4AdjustTcpMss_cases buf mss
    · exact absurd looks other
    · rw [code, first, bind_some, adjustChecksum, second]
      simp only [bind, bind_some, copied]
      rw [bytesAt_front _ (by rw [length_append]; omega), bind_some, readHeader_take, headers, if_neg sized]
      change Option.bind (putAt _ _ (checksumField checksum)) _ = _
      rw [last, bind_some]
  · constructor
    · rw [putAt_length last, putAt_length second, putAt_length first]
    · rw [← append_assoc, ← append_assoc, ← append_assoc, drop_left' (by
        simp only [length_append, field]; omega)]
      exact take_left' two
    · intro i sum1 sum2 mss1 mss2
      rw [putAt_others last (by rw [field]; omega), putAt_others second (by rw [field]; omega),
        putAt_others first (by rw [two]; omega)]
  · rw [← headLength, drop_left]
  · intro size large
    have behind : ∀ front : List UInt8, front.length = 24 → (front ++ rest).drop size = rest.drop (size - 24) := by
      intro front length
      rw [drop_append, drop_eq_nil_of_le (by omega), length, nil_append]
    have inCopy := behind (ports ++ (checksumField 0 ++ (pointer ++ endian16 mss.toUInt16))) (by
      simp only [length_append, two, field]
      omega)
    have inBuf := behind (ports ++ (sum ++ (pointer ++ old))) (by
      simp only [length_append]
      omega)
    simp only [append_assoc] at inCopy inBuf
    rw [segment, inCopy, ← inBuf, ← headLength, ← drop_drop]
    conv_rhs => rw [parts]
    rw [drop_left]

theorem adjustChecksum_long {h size : Nat} (long : 4294967296 ≤ 12 + size) : adjustChecksum buf h size = none := by
  have wraps : (12 + size) % 4294967296 < 12 + size := by omega
  simp only [adjustChecksum, if_pos wraps, bind, Option.bind_fun_none]

theorem wordSum_append (front back : List UInt8) (even : front.length % 2 = 0) :
    wordSum (front ++ back) = wordSum front + wordSum back := words_sum_append front back even

theorem wordSum_field {ports : List UInt8} (length : ports.length = 16) (checksum : UInt16) (back : List UInt8) :
    wordSum (ports ++ (checksumField checksum ++ back)) = wordSum ports + checksum.toNat + wordSum back := by
  rw [← append_assoc]
  exact words_sum_field (by omega) checksum

theorem wordSum_pseudo (ip : Header) (size : Nat) (tcp : List UInt8) : wordSum (tcpPseudoHeader ip size ++ tcp) =
    wordSum (List.ofFn ip.srcIP ++ List.ofFn ip.dstIP ++ [0, ip.protocol]) +
      wordSum (endian16 (UInt16.ofNat size)) + wordSum tcp := by
  have addresses : (List.ofFn ip.srcIP ++ List.ofFn ip.dstIP ++ [0, ip.protocol]).length = 10 := by
    simp only [length_append, length_ofFn, length_cons, length_nil]
  have size' : (endian16 (UInt16.ofNat size)).length = 2 := rfl
  rw [tcpPseudoHeader, wordSum_append _ tcp (by rw [length_append]; omega), wordSum_append _ _ (by omega)]

theorem wordSum_protocol (ip : Header) (tcp : ip.protocol = 0x06) :
    0 < wordSum (List.ofFn ip.srcIP ++ List.ofFn ip.dstIP ++ [0, ip.protocol]) := by
  have addresses : (List.ofFn ip.srcIP ++ List.ofFn ip.dstIP).length = 8 := by simp only [length_append, length_ofFn]
  rw [wordSum_append _ _ (by omega), tcp]
  exact Nat.add_pos_right _ (by decide)

theorem take_field {ports : List UInt8} (length : ports.length = 16) (checksum : UInt16) (back : List UInt8)
    {size : Nat} (large : 18 ≤ size) : (ports ++ (checksumField checksum ++ back)).take size =
      ports ++ (checksumField checksum ++ back.take (size - 18)) := by
  have field : (checksumField checksum).length = 2 := rfl
  rw [take_append, take_append, take_of_length_le (by omega), take_of_length_le (by omega), length, field, Nat.sub_sub]

theorem tcpVerifies_iff (looks : Looks buf mss) (packet : Packet buf) {out ports back : List UInt8}
    (header : readHeader out = readHeader buf)
    (segment : out.drop (ipHeaderSize buf) = ports ++ (checksumField (se4IpChecksumSized (covered buf mss)) ++ back))
    (before : cleared buf mss = ports ++ (checksumField 0 ++ back)) (length : ports.length = 16)
    (behind : ∀ size, 24 ≤ size → (cleared buf mss).drop size = buf.drop (ipHeaderSize buf + size)) :
    TcpVerifies out ↔ surplus buf % 65535 =
      (wordSum (endian16 (UInt16.ofNat ((readHeader buf).totalLength.toNat - ipHeaderSize buf))) +
        lost (covered buf mss)) % 65535 := by
  have sameSize : ipHeaderSize out = ipHeaderSize buf := by rw [ipHeaderSize, header, ipHeaderSize]
  have holds := packet.holds
  have large := looks.header
  have total : ipHeaderSize buf + ((readHeader buf).totalLength.toNat - ipHeaderSize buf) =
      (readHeader buf).totalLength.toNat := by omega
  rw [TcpVerifies, sameSize, header, segment, surplus]
  generalize (readHeader buf).totalLength.toNat - ipHeaderSize buf = size at *
  have cut := words_sum_split (cleared buf mss) size
  rw [behind size (by omega), total, before] at cut
  rw [take_field length _ _ (by omega)] at cut ⊢
  have received := wordSum_pseudo (readHeader buf) size
    (ports ++ (checksumField (se4IpChecksumSized (covered buf mss)) ++ back.take (size - 18)))
  have sent := wordSum_pseudo (readHeader buf) (buf.length - ipHeaderSize buf) (cleared buf mss)
  have some' := wordSum_protocol (readHeader buf) looks.protocol
  have computed := se4IpChecksumSized_mod (covered buf mss)
  have zero := UInt16.toNat_zero
  change wordSum _ = wordSum _ + wordSum _ at cut
  rw [wordSum_field length, wordSum_field length] at cut
  rw [wordSum_field length] at received
  rw [before, wordSum_field length, ← before] at sent
  change wordSum (covered buf mss) = _ at sent
  rw [verifies_iff]
  change wordSum _ ≠ 0 ∧ wordSum _ % 65535 = 0 ↔ _
  rw [received]
  constructor
  · rintro ⟨-, multiple⟩
    omega
  · intro same
    exact ⟨by omega, by omega⟩

/-- The MSS is clamped as it should be exactly where the bytes that look like a SYN packet are one, and what is behind
its end adds up to nothing. -/
theorem adjusts_exact (buf : List UInt8) (mss : UInt32) :
    Adjusts buf mss ↔ (Looks buf mss → Packet buf ∧ AddsUp buf mss) := by
  constructor
  · rintro ⟨result, out, code, told, changed, -⟩ looks
    obtain ⟨other, -⟩ | ⟨-, shape⟩ := se4AdjustTcpMss_cases buf mss
    · exact absurd looks other
    · rw [code] at shape
      obtain ⟨written, -, rest⟩ := Option.bind_eq_some_iff.mp shape.symm
      obtain ⟨summed, checksum, same⟩ := Option.bind_eq_some_iff.mp rest
      have yes : result = true := (congrArg Prod.fst (Option.some.inj same)).symm
      have packet := (told.mp yes).2
      by_cases fits : 12 + (buf.length - ipHeaderSize buf) < 4294967296
      · obtain ⟨out', ports, back, code', -, header, segment, before, length, behind⟩ := clamped looks packet.full fits
        rw [code] at code'
        have same : out = out' := congrArg Prod.snd (Option.some.inj code')
        subst same
        exact ⟨packet, fits, (tcpVerifies_iff looks packet header segment before length behind).mp (changed yes).2⟩
      · rw [adjustChecksum_long (by omega)] at checksum
        cases checksum
  · intro condition
    by_cases looks : Looks buf mss
    · obtain ⟨packet, fits, adds⟩ := condition looks
      obtain ⟨out, ports, back, code, clamps, header, segment, before, length, behind⟩ := clamped looks packet.full fits
      refine ⟨true, out, code, iff_of_true rfl ⟨looks, packet⟩, ?_, ?_⟩
      · intro _
        exact ⟨clamps, (tcpVerifies_iff looks packet header segment before length behind).mpr adds⟩
      · intro no
        cases no
    · obtain ⟨-, code⟩ | ⟨other, -⟩ := se4AdjustTcpMss_cases buf mss
      · refine ⟨false, buf, code, iff_of_false Bool.false_ne_true (fun both => looks both.1), ?_, fun _ => rfl⟩
        intro no
        cases no
      · exact absurd other looks

def paddedSyn : List UInt8 :=
  [0x45, 0, 0, 44, 0, 1, 0x40, 0, 64, 6, 0, 0, 10, 0, 0, 1, 10, 0, 0, 2,
    0x04, 0, 0, 80, 0, 0, 0, 1, 0, 0, 0, 0, 0x60, 2, 0xff, 0xff, 0, 0, 0, 0, 2, 4, 0x05, 0xb4, 0, 0]

/-- The length of the segment in the checksum is 26, not 24. -/
theorem padded_rejected : ¬∀ (buf : List UInt8) (mss : UInt32), 1 ≤ mss → mss ≤ 65535 → Adjusts buf mss := by
  intro always
  obtain ⟨result, out, code, -, changed, -⟩ := always paddedSyn 1300 (by decide) (by decide)
  have clamped' : se4AdjustTcpMss paddedSyn 1300 =
      some (true, ((paddedSyn.set 42 0x05).set 43 0x14).set 36 0x80 |>.set 37 0x71) := by decide +kernel
  rw [clamped'] at code
  obtain ⟨rfl, rfl⟩ := Prod.mk.inj (Option.some.inj code)
  have verifies := (changed rfl).2
  exact absurd verifies (by unfold TcpVerifies; decide +kernel)

end DisasVisor.Vpn.Ip4
