import DisasVisor.Vpn.Ip4Packets
import DisasVisor.Vpn.ReassemblySoundness

/-!
What `Se4RecvIp` does with a packet, by the fragment that is in it: nothing, a call of `Se4CombineIp`
with the entry of its datagram, or one with a new entry.
-/

namespace DisasVisor.Vpn.Ip4

open Reassembly

abbrev Key := Addr × Addr × UInt16 × UInt8

def Combine.isFor (key : Key) (c : Combine) : Bool := c.key = key

variable {memory : Nat → UInt8} {tick : UInt64} {p : Receiver} {buf : List UInt8} {isBroadcast : Bool}
  {key : Key} {r : Received}

def accepted (buf : List UInt8) : Prop :=
  parseL3 buf = true ∧ se4IpCheckChecksum buf = true ∧
    (readHeader buf).getHeaderLen * 4 < (readHeader buf).totalLength.toNat ∧
    (readHeader buf).totalLength.toNat - (readHeader buf).getHeaderLen * 4 ≤
      buf.length - (readHeader buf).getHeaderLen * 4

def fragmented (buf : List UInt8) : Prop := ¬((readHeader buf).getOffset = 0 ∧ (readHeader buf).getFlags &&& 0x01 = 0)

instance (buf : List UInt8) : Decidable (accepted buf) := by unfold accepted; infer_instance

instance (buf : List UInt8) : Decidable (fragmented buf) := by unfold fragmented; infer_instance

def keyOf (buf : List UInt8) : Key :=
  ((readHeader buf).dstIP, (readHeader buf).srcIP, (readHeader buf).identification, (readHeader buf).protocol)

def payloadOf (buf : List UInt8) : List UInt8 :=
  (buf.drop ((readHeader buf).getHeaderLen * 4)).take
    ((readHeader buf).totalLength.toNat - (readHeader buf).getHeaderLen * 4)

def receivedOf (buf : List UInt8) : Received where
  offset := UInt32.ofNat ((readHeader buf).getOffset * 8)
  data := payloadOf buf
  last := (readHeader buf).getFlags &&& 0x01 = 0

theorem receivePacket_ignores (refused : ¬accepted buf) :
    receivePacket memory tick p buf isBroadcast = some (p, []) := by
  unfold receivePacket
  by_cases parses : parseL3 buf = true
  · rw [if_pos parses]
    unfold se4RecvIp
    dsimp only
    by_cases summed : se4IpCheckChecksum buf = true
    · rw [if_neg (not_not.mpr summed)]
      by_cases short : (readHeader buf).totalLength.toNat ≤ (readHeader buf).getHeaderLen * 4
      · rw [if_pos short]
      · rw [if_neg short, if_pos]
        by_contra within
        exact refused ⟨parses, summed, by omega, by omega⟩
    · rw [if_pos summed]
  · rw [if_neg parses]

theorem receivePacket_complete (accepts : accepted buf) (whole : ¬fragmented buf) :
    receivePacket memory tick p buf isBroadcast =
      some (p, se4RecvIpComplete (readHeader buf).srcIP (readHeader buf).dstIP
        (readHeader buf).identification (readHeader buf).protocol (readHeader buf).timeToLive
        isBroadcast (payloadOf buf)) := by
  obtain ⟨parses, summed, header, within⟩ := accepts
  unfold receivePacket se4RecvIp
  dsimp only
  rw [if_pos parses, if_neg (not_not.mpr summed), if_neg (Nat.not_le.mpr header),
    if_neg (Nat.not_lt.mpr within), if_pos (not_not.mp whole)]
  rfl

theorem receivePacket_fragment (accepts : accepted buf) (parts : fragmented buf) :
    receivePacket memory tick p buf isBroadcast =
      match Searches.locate (Combine.isFor (keyOf buf)) p.ipCombineList with
      | some (front, c, back) =>
        se4CombineEntry tick p front c back (receivedOf buf).offset (receivedOf buf).data (receivedOf buf).last
      | none =>
        match se4InsertIpCombine memory tick p (readHeader buf).srcIP (readHeader buf).dstIP
          (readHeader buf).identification (readHeader buf).protocol (readHeader buf).timeToLive
          isBroadcast with
        | none => some (p, [])
        | some (p, c) =>
          se4CombineEntry tick p p.ipCombineList c [] (receivedOf buf).offset (receivedOf buf).data
            (receivedOf buf).last := by
  obtain ⟨parses, summed, header, within⟩ := accepts
  unfold receivePacket se4RecvIp
  dsimp only
  rw [if_pos parses, if_neg (not_not.mpr summed), if_neg (Nat.not_le.mpr header),
    if_neg (Nat.not_lt.mpr within), if_neg parts]
  have same : (fun c : Combine => decide (c.key = ((readHeader buf).dstIP, (readHeader buf).srcIP,
      (readHeader buf).identification, (readHeader buf).protocol))) = Combine.isFor (keyOf buf) := rfl
  rw [same]
  cases Searches.locate (Combine.isFor (keyOf buf)) p.ipCombineList with
  | some found => rfl
  | none =>
    dsimp only
    cases se4InsertIpCombine memory tick p (readHeader buf).srcIP (readHeader buf).dstIP
      (readHeader buf).identification (readHeader buf).protocol (readHeader buf).timeToLive
      isBroadcast <;> rfl

theorem getOffset_le (h : Header) : h.getOffset ≤ 8191 := by
  have low : h.flagsAndFlagmentOffset0.toNat &&& 0x1f ≤ 0x1f := Nat.and_le_right
  have high := h.flagsAndFlagmentOffset1.toNat_lt
  unfold Header.getOffset
  omega

theorem toNat_receivedOf_offset : (receivedOf buf).offset.toNat = (readHeader buf).getOffset * 8 := by
  have bound := getOffset_le (readHeader buf)
  unfold receivedOf
  rw [UInt32.toNat_ofNat']
  omega

theorem receivedOf_bounds (accepts : accepted buf) : (receivedOf buf).data ≠ [] ∧
    (receivedOf buf).offset.toNat ≤ 65535 ∧ (receivedOf buf).data.length ≤ 65535 := by
  obtain ⟨-, -, header, within⟩ := accepts
  have bound := getOffset_le (readHeader buf)
  have total := (readHeader buf).totalLength.toNat_lt
  have length : (receivedOf buf).data.length =
      (readHeader buf).totalLength.toNat - (readHeader buf).getHeaderLen * 4 := by
    change (payloadOf buf).length = _
    unfold payloadOf
    rw [List.length_take, List.length_drop]
    omega
  refine ⟨?_, ?_, by omega⟩
  · apply List.ne_nil_of_length_pos
    omega
  · rw [toNat_receivedOf_offset]
    omega

end DisasVisor.Vpn.Ip4
