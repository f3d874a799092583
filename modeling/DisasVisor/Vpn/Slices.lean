import DisasVisor.Lib.Traced
import DisasVisor.Vpn.Ip4Fragments
import DisasVisor.Vpn.Ip6Delivery

/-!
What `SeParsePacket`, `Se4RecvEthPacket` and `Se6RecvEthPacket` touch of a frame: the bytes that they
read, the slices that they hand on, the subtractions and the values that are put in 16 bits.
-/

namespace DisasVisor.Vpn.Slices

open List

open Ip6 (readEndian16)
open Traced (always_pure always_emit_bind emit_bind always_bind)

/-- `size` bytes from `start` on are read or handed on; a difference of two `UINT`; a `UINT` that is
stored in a `USHORT`. -/
inductive Touch
  | read (start size : Nat)
  | slice (start size : Nat)
  | subtract (left right : Nat)
  | narrow (value : Nat)

def Touch.Safe (length : Nat) : Touch → Prop
  | .read start size => start + size ≤ length
  | .slice start size => start + size ≤ length
  | .subtract left right => right ≤ left
  | .narrow value => value < 65536

instance (length : Nat) : DecidablePred (Touch.Safe length)
  | .read start size => inferInstanceAs (Decidable (start + size ≤ length))
  | .slice start size => inferInstanceAs (Decidable (start + size ≤ length))
  | .subtract left right => inferInstanceAs (Decidable (right ≤ left))
  | .narrow value => inferInstanceAs (Decidable (value < 65536))

structure EthernetType where
  valid : Bool
  broadcast : Bool

def seEthParseEthernetPacket (frame : List UInt8) : Traced Touch EthernetType :=
  if 14 ≤ frame.length ∧ frame.length ≤ 1514 then do
    Traced.emit (.read 0 12)
    let macDst := frame.take 6
    let macSrc := (frame.drop 6).take 6
    let invalid := macSrc = List.replicate 6 0xff ∨ macSrc = List.replicate 6 0x00 ∨ macSrc = macDst
    let isBroadcast := macDst = List.replicate 6 0xff ∨ macDst.getD 0 0 &&& 0x01 ≠ 0
    pure ⟨¬invalid, isBroadcast⟩
  else pure ⟨false, false⟩

def layer3 (frame : List UInt8) : List UInt8 := frame.drop 14

inductive TypeL3
  | unknown
  | arpv4
  | ipv4
  | ipv6 (info : Ip6.PacketInfo)

def seParsePacketL3ARPv4 (frame : List UInt8) : Traced Touch (Option TypeL3) :=
  if (layer3 frame).length < 28 then pure none else pure (some .arpv4)

def seParsePacketL3IPv4 (frame : List UInt8) : Traced Touch (Option TypeL3) :=
  if (layer3 frame).length < 20 then pure none
  else do
    Traced.emit (.read 14 20)
    if Ip4.parseL3 (layer3 frame) then pure (some .ipv4) else pure none

def extHeaderTouches : Nat → UInt8 → UInt8 → Nat → List UInt8 → List Touch
  | 0, _, _, _, _ => []
  | fuel + 1, next, next2, start, buf =>
    let first := if buf.length > 8 then [Touch.read start 1] else []
    let next2 := if buf.length > 8 then buf.getD 0 0 else next2
    if next = Ip6.headerHop ∨ next = Ip6.headerEndpoint ∨ next = Ip6.headerRouting then
      if buf.length < 8 then first
      else
        let size := ((buf.getD 1 0).toNat + 1) * 8
        if buf.length < size then first ++ [.read start 2]
        else
          first ++ .read start 2 :: .slice start size :: .subtract buf.length size ::
            extHeaderTouches fuel next2 next2 (start + size) (buf.drop size)
    else if next = Ip6.headerFragment then
      if buf.length < 8 then first
      else
        first ++ .read start 8 :: .subtract buf.length 8 ::
          extHeaderTouches fuel next2 next2 (start + 8) (buf.drop 8)
    else if next ≠ Ip6.headerNone then first ++ [.slice start buf.length]
    else first

def seParsePacketL3IPv6 (frame : List UInt8) : Traced Touch (Option TypeL3) :=
  if (layer3 frame).length < 40 then pure none
  else do
    Traced.emit (.read 14 40)
    let header := Ip6.readHeader (layer3 frame)
    if header.versionAndTrafficClass1 >>> 4 &&& 0x0f ≠ 6 then pure none
    else do
      Traced.log (extHeaderTouches (layer3 frame).length header.nextHeader Ip6.headerNone 54 ((layer3 frame).drop 40))
      pure ((Ip6.parsePacket (layer3 frame)).map .ipv6)

def seParsePacketL2 (frame : List UInt8) : Traced Touch (Option TypeL3) :=
  if frame.length < 14 then pure none
  else do
    Traced.emit (.read 0 14)
    let protocol := readEndian16 frame 12
    if protocol = 0x0806 then seParsePacketL3ARPv4 frame
    else if protocol = 0x0800 then seParsePacketL3IPv4 frame
    else if protocol = 0x86dd then seParsePacketL3IPv6 frame
    else pure (some .unknown)

def seParsePacket (frame : List UInt8) : Traced Touch (Option (TypeL3 × Bool)) :=
  if frame.length = 0 then pure none
  else do
    let type ← seEthParseEthernetPacket frame
    if type.valid then do
      let parsed ← seParsePacketL2 frame
      pure (parsed.map fun typeL3 => (typeL3, type.broadcast))
    else pure none

variable {frame : List UInt8}

theorem layer3_length : (layer3 frame).length = frame.length - 14 := length_drop ..

theorem extHeaderTouches_safe {fuel start length : Nat} {next next2 : UInt8} {buf : List UInt8}
    (place : start + buf.length = length) :
    ∀ touch ∈ extHeaderTouches fuel next next2 start buf, touch.Safe length := by
  induction fuel generalizing start next next2 buf with
  | zero => simp [extHeaderTouches]
  | succ fuel ih =>
    have first : ∀ touch ∈ (if buf.length > 8 then [Touch.read start 1] else []), touch.Safe length := by
      intro touch member
      split at member
      · rw [mem_singleton.mp member]
        change start + 1 ≤ length
        omega
      · cases member
    have behind : ∀ size, size ≤ buf.length → start + size + (buf.drop size).length = length := by
      intro size le
      rw [length_drop]
      omega
    unfold extHeaderTouches
    dsimp only
    split
    · split
      · exact first
      · split
        · refine forall_mem_append.mpr ⟨first, forall_mem_singleton.mpr ?_⟩
          change start + 2 ≤ length
          omega
        · rename_i enough
          refine forall_mem_append.mpr ⟨first, forall_mem_cons.mpr ⟨?_,
            forall_mem_cons.mpr ⟨?_, forall_mem_cons.mpr ⟨?_, ih (behind _ (by omega))⟩⟩⟩⟩
          · change start + 2 ≤ length
            omega
          · change start + _ ≤ length
            omega
          · change _ ≤ buf.length
            omega
    · split
      · split
        · exact first
        · refine forall_mem_append.mpr ⟨first, forall_mem_cons.mpr ⟨?_,
            forall_mem_cons.mpr ⟨?_, ih (behind 8 (by omega))⟩⟩⟩
          · change start + 8 ≤ length
            omega
          · change 8 ≤ buf.length
            omega
      · split
        · refine forall_mem_append.mpr ⟨first, forall_mem_singleton.mpr ?_⟩
          change start + buf.length ≤ length
          omega
        · exact first

theorem seParsePacketL2_safe (frame : List UInt8) :
    Traced.Always (Touch.Safe frame.length) (seParsePacketL2 frame) := by
  have length := @layer3_length frame
  unfold seParsePacketL2
  split
  · exact always_pure _
  · rw [always_emit_bind]
    refine ⟨by change 0 + 14 ≤ frame.length; omega, ?_⟩
    dsimp only
    split
    · unfold seParsePacketL3ARPv4
      split <;> exact always_pure _
    · split
      · unfold seParsePacketL3IPv4
        split
        · exact always_pure _
        · rw [always_emit_bind]
          refine ⟨by change 14 + 20 ≤ frame.length; omega, ?_⟩
          split <;> exact always_pure _
      · split
        · unfold seParsePacketL3IPv6
          split
          · exact always_pure _
          · rw [always_emit_bind]
            refine ⟨by change 14 + 40 ≤ frame.length; omega, ?_⟩
            dsimp only
            split
            · exact always_pure _
            · rw [Traced.always_log_bind]
              refine ⟨extHeaderTouches_safe ?_, always_pure _⟩
              rw [length_drop]
              omega
        · exact always_pure _

def TypeL3.Parsed (packet : List UInt8) : TypeL3 → Prop
  | .unknown => True
  | .arpv4 => 28 ≤ packet.length
  | .ipv4 => Ip4.parseL3 packet = true
  | .ipv6 info => 40 ≤ packet.length ∧ Ip6.parsePacket packet = some info

theorem seParsePacketL2_parsed {typeL3 : TypeL3}
    (parsed : (seParsePacketL2 frame).flow = .next (some typeL3)) : typeL3.Parsed (layer3 frame) := by
  unfold seParsePacketL2 at parsed
  split at parsed
  · cases parsed
  · rw [emit_bind] at parsed
    dsimp only at parsed
    split at parsed
    · unfold seParsePacketL3ARPv4 at parsed
      split at parsed
      · cases parsed
      · rename_i enough
        cases parsed
        exact not_lt.mp enough
    · split at parsed
      · unfold seParsePacketL3IPv4 at parsed
        split at parsed
        · cases parsed
        · rw [emit_bind] at parsed
          dsimp only at parsed
          split at parsed
          · rename_i parses
            cases parsed
            exact parses
          · cases parsed
      · split at parsed
        · unfold seParsePacketL3IPv6 at parsed
          split at parsed
          · cases parsed
          · rename_i enough
            rw [emit_bind] at parsed
            dsimp only at parsed
            split at parsed
            · cases parsed
            · rw [Traced.log_bind] at parsed
              cases result : Ip6.parsePacket (layer3 frame) with
              | none => simp [result] at parsed
              | some info =>
                simp only [result, Option.map_some, Traced.flow_pure, Traced.Flow.next.injEq] at parsed
                cases parsed
                exact ⟨not_lt.mp enough, result⟩
        · cases parsed
          trivial

theorem seParsePacket_safe (frame : List UInt8) : Traced.Always (Touch.Safe frame.length) (seParsePacket frame) := by
  unfold seParsePacket
  split
  · exact always_pure _
  · rw [always_bind]
    constructor
    · unfold seEthParseEthernetPacket
      split
      · rw [always_emit_bind]
        exact ⟨by change 0 + 12 ≤ frame.length; omega, always_pure _⟩
      · exact always_pure _
    · intro type _
      split
      · rw [always_bind]
        exact ⟨seParsePacketL2_safe frame, fun _ _ => always_pure _⟩
      · exact always_pure _

end DisasVisor.Vpn.Slices
