import DisasVisor.Lib.Memory
import DisasVisor.VirtioNet.Receive

/-!
`virtio_net_send` of `drivers/net/virtio_net.c`: it scatters packets over the chains of
descriptors that the guest has made available, each behind a header of ten zero bytes.
-/

namespace DisasVisor.VirtioNet

open List

structure Packet where
  bytes : List UInt8
  int : bytes.length < 2 ^ 31

def fillDesc (packet : Packet) (desc : Desc) (len : Nat) (memory : Memory) : Nat × Memory :=
  let bufRing := desc.addr.toNat
  let descLen := desc.len.toNat
  let i := if len < 10 then min (10 - len) descLen else 0
  let memory := memory.writeBytes bufRing (List.replicate i 0)
  let len := len + i
  if 10 ≤ len ∧ i < descLen then
    let j := min ((packet.bytes.length + 2 ^ 32 - (len - 10)) % 2 ^ 32) (descLen - i)
    (len + j, memory.writeBytes (bufRing + i) ((packet.bytes.drop (len - 10)).take j))
  else (len, memory)

/-- The inner loop. `none` is a loop that has not come to its end after that many descriptors. -/
def fill (desc : UInt8 → Desc) (packet : Packet) : Nat → Nat → Nat → Memory → Option (Nat × Memory)
  | 0, ringTmp, len, memory => if ringTmp &&& 1 = 0 then some (len, memory) else none
  | fuel + 1, ringTmp, len, memory =>
    if ringTmp &&& 1 = 0 then some (len, memory)
    else
      let (len, memory) := fillDesc packet (desc (descIndex ringTmp)) len memory
      fill desc packet fuel (desc (descIndex ringTmp)).flagsNext.toNat len memory

structure Sending where
  p : VirtioRing
  memory : Memory
  lastTime : UInt64
  intr : Bool

def sendLoop (fuel : Nat) (now : UInt64) : List Packet → Sending → Option Sending
  | [], s => some s
  | packet :: rest, s =>
    if s.p.availIdx = s.p.usedIdx then some { s with lastTime := now }
    else do
      let idxU := s.p.usedIdx.toUInt8
      let ring := s.p.availRing idxU
      let (len, memory) ← fill s.p.desc packet fuel (ring.toNat <<< 16 ||| 1) 0 s.memory
      sendLoop fuel now rest
        { s with
          p := { s.p with
            usedRing := fun other => if other = idxU then (ring, len) else s.p.usedRing other
            usedIdx := s.p.usedIdx + 1 }
          memory := memory
          intr := true }

def virtioNetSend (fuel : Nat) (now : UInt64) (ready : Bool) (lastTime : UInt64) (p : VirtioRing)
    (packets : List Packet) (memory : Memory) : Option (Sending × Bool) :=
  if !ready then some ({ p, memory, lastTime, intr := false }, false)
  else do
    let s ← sendLoop fuel now packets { p, memory, lastTime, intr := false }
    pure (s, s.intr ∧ s.p.availFlags &&& 1 = 0)

def Packet.framed (packet : Packet) : List UInt8 := List.replicate 10 0 ++ packet.bytes

theorem Packet.length_framed (packet : Packet) : packet.framed.length = 10 + packet.bytes.length := by
  rw [framed, length_append, length_replicate]

def chainAddresses (desc : UInt8 → Desc) (indices : List UInt8) : List Nat :=
  indices.flatMap fun index => List.range' (desc index).addr.toNat (descLen desc index)

def capacity (desc : UInt8 → Desc) (indices : List UInt8) : Nat := (indices.map (descLen desc)).sum

theorem length_chainAddresses (desc : UInt8 → Desc) (indices : List UInt8) :
    (chainAddresses desc indices).length = capacity desc indices := by
  simp [chainAddresses, capacity, length_flatMap]

theorem take_min {α : Type} (bytes : List α) (count : Nat) :
    bytes.take (min bytes.length count) = bytes.take count := by
  by_cases fits : bytes.length ≤ count
  · rw [Nat.min_eq_left fits, take_of_length_le (Nat.le_refl _), take_of_length_le fits]
  · rw [Nat.min_eq_right (by omega)]

theorem fillDesc_framed (packet : Packet) (desc : Desc) {len : Nat} (short : len ≤ packet.framed.length)
    (memory : Memory) :
    fillDesc packet desc len memory =
      (len + min desc.len.toNat (packet.framed.length - len),
        memory.scatter ((List.range' desc.addr.toNat desc.len.toNat).zip (packet.framed.drop len))) := by
  have int := packet.int
  rw [Packet.length_framed] at short ⊢
  rw [Memory.scatter_block]
  simp only [fillDesc]
  by_cases header : len < 10
  · have rest : packet.framed.drop len = List.replicate (10 - len) 0 ++ packet.bytes := by
      rw [Packet.framed, drop_append_of_le_length (by rw [length_replicate]; omega), drop_replicate]
    rw [if_pos header, rest]
    by_cases small : desc.len.toNat ≤ 10 - len
    · have all : min (10 - len) desc.len.toNat = desc.len.toNat := Nat.min_eq_right small
      rw [all, if_neg (by omega), Nat.min_eq_left (by omega),
        take_append_of_le_length (by rw [length_replicate]; omega), take_replicate,
        Nat.min_eq_left small]
    · have all : min (10 - len) desc.len.toNat = 10 - len := Nat.min_eq_left (by omega)
      have left : (packet.bytes.length + 2 ^ 32 - (len + (10 - len) - 10)) % 2 ^ 32 = packet.bytes.length := by omega
      have start : len + (10 - len) - 10 = 0 := by omega
      rw [all, if_pos (by omega), left, start, drop_zero]
      have front : (List.replicate (10 - len) (0 : UInt8)).length = 10 - len := length_replicate
      have takes : (List.replicate (10 - len) (0 : UInt8) ++ packet.bytes).take desc.len.toNat =
          List.replicate (10 - len) 0 ++ packet.bytes.take (desc.len.toNat - (10 - len)) := by
        rw [take_append, front, take_of_length_le (by rw [front]; omega)]
      rw [takes, Memory.writeBytes_append, front, take_min]
      have count : len + (10 - len) + min packet.bytes.length (desc.len.toNat - (10 - len)) =
          len + min desc.len.toNat (10 + packet.bytes.length - len) := by omega
      rw [count]
  · have rest : packet.framed.drop len = packet.bytes.drop (len - 10) := by
      rw [Packet.framed, drop_append, length_replicate, drop_of_length_le (by
        rw [length_replicate]; omega), nil_append]
    have nothing : memory.writeBytes desc.addr.toNat (List.replicate 0 0) = memory := by
      rw [← Memory.scatter_range]
      rfl
    rw [if_neg header, rest, nothing, Nat.add_zero, Nat.add_zero, Nat.sub_zero]
    by_cases some' : 0 < desc.len.toNat
    · have left : (packet.bytes.length + 2 ^ 32 - (len - 10)) % 2 ^ 32 = 10 + packet.bytes.length - len := by omega
      have drops : 10 + packet.bytes.length - len = (packet.bytes.drop (len - 10)).length := by
        rw [length_drop]
        omega
      rw [if_pos ⟨by omega, some'⟩, left, drops, take_min, Nat.min_comm]
    · have zero : desc.len.toNat = 0 := by omega
      have empty : memory.writeBytes desc.addr.toNat [] = memory := nothing
      rw [if_neg (by omega), zero, Nat.zero_min, take_zero, empty, Nat.add_zero]

theorem zip_append_drop {α β : Type} (first second : List α) (bytes : List β) :
    (first ++ second).zip bytes = first.zip bytes ++ second.zip (bytes.drop first.length) := by
  induction first generalizing bytes with
  | nil => rfl
  | cons head first ih =>
    cases bytes with
    | nil => simp
    | cons byte bytes => simp [ih]

theorem fill_stop {desc : UInt8 → Desc} {packet : Packet} {ringTmp : Nat} (stops : ringTmp &&& 1 = 0)
    (fuel len : Nat) (memory : Memory) : fill desc packet fuel ringTmp len memory = some (len, memory) := by
  cases fuel <;> rw [fill, if_pos stops]

theorem drop_min {α : Type} (bytes : List α) (len count : Nat) :
    bytes.drop (len + min count (bytes.length - len)) = (bytes.drop len).drop count := by
  rw [drop_drop]
  by_cases fits : count ≤ bytes.length - len
  · rw [Nat.min_eq_left fits]
  · rw [Nat.min_eq_right (by omega), drop_of_length_le (by omega), drop_of_length_le (by omega)]

theorem fill_chain {desc : UInt8 → Desc} {index : UInt8} {indices : List UInt8}
    (chain : Chain (nextDesc desc) index indices) (packet : Packet) :
    ∀ ringTmp, ringTmp &&& 1 ≠ 0 → descIndex ringTmp = index →
      ∀ fuel, indices.length ≤ fuel → ∀ len memory, len ≤ packet.framed.length →
        fill desc packet fuel ringTmp len memory =
          some (len + min (capacity desc indices) (packet.framed.length - len),
            memory.scatter ((chainAddresses desc indices).zip (packet.framed.drop len))) := by
  induction chain with
  | @last index ends =>
    intro ringTmp flagged same fuel enough len memory short
    obtain ⟨fuel, rfl⟩ : ∃ more, fuel = more + 1 := ⟨fuel - 1, by simp only [length_singleton] at enough; omega⟩
    have stops := nextDesc_none ends
    rw [fill, if_neg flagged, same, fillDesc_framed packet _ short]
    refine (fill_stop stops _ _ _).trans ?_
    simp [capacity, chainAddresses, descLen]
  | @link index successor rest follows chain ih =>
    intro ringTmp flagged same fuel enough len memory short
    obtain ⟨fuel, rfl⟩ : ∃ more, fuel = more + 1 := ⟨fuel - 1, by simp only [length_cons] at enough; omega⟩
    obtain ⟨goes, successorIs⟩ := nextDesc_some follows
    rw [fill, if_neg flagged, same, fillDesc_framed packet _ short]
    have later := ih _ goes successorIs fuel (by simp only [length_cons] at enough; omega)
      (len + min (desc index).len.toNat (packet.framed.length - len))
      (memory.scatter ((List.range' (desc index).addr.toNat (desc index).len.toNat).zip
        (packet.framed.drop len))) (by omega)
    rw [drop_min] at later
    refine later.trans ?_
    have addresses : chainAddresses desc (index :: rest) =
        List.range' (desc index).addr.toNat (desc index).len.toNat ++ chainAddresses desc rest := rfl
    have room : capacity desc (index :: rest) = (desc index).len.toNat + capacity desc rest := rfl
    rw [addresses, room, zip_append_drop, Memory.scatter_append, length_range']
    congr 2
    omega

inductive Delivers : VirtioRing × Memory → List Packet → VirtioRing × Memory → Prop
  | all (state : VirtioRing × Memory) : Delivers state [] state
  | full {p : VirtioRing} {memory : Memory} {packets : List Packet} :
      p.availIdx = p.usedIdx → Delivers (p, memory) packets (p, memory)
  | packet {p : VirtioRing} {memory : Memory} {packet : Packet} {rest : List Packet}
      {indices : List UInt8} {final : VirtioRing × Memory} :
      p.availIdx ≠ p.usedIdx → Chain (nextDesc p.desc) (p.entry 0) indices →
        Delivers (p.use (min (capacity p.desc indices) (10 + packet.bytes.length)),
          memory.scatter ((chainAddresses p.desc indices).zip packet.framed)) rest final →
        Delivers (p, memory) (packet :: rest) final

theorem sendLoop_packet {s : Sending} {packet : Packet} {indices : List UInt8}
    (waiting : s.p.availIdx ≠ s.p.usedIdx) (chain : Chain (nextDesc s.p.desc) (s.p.entry 0) indices)
    (fuel : Nat) (enough : indices.length ≤ fuel) (now : UInt64) (rest : List Packet) :
    sendLoop fuel now (packet :: rest) s = sendLoop fuel now rest
      { s with
        p := s.p.use (min (capacity s.p.desc indices) (10 + packet.bytes.length))
        memory := s.memory.scatter ((chainAddresses s.p.desc indices).zip packet.framed)
        intr := true } := by
  have head : descIndex ((s.p.availRing s.p.usedIdx.toUInt8).toNat <<< 16 ||| 1) = s.p.entry 0 := by
    rw [descIndex_head, entry_zero]
  have filled := fill_chain chain packet _ (head_flagged _) head fuel enough 0 s.memory (Nat.zero_le _)
  rw [Nat.zero_add, Nat.sub_zero, Packet.length_framed, drop_zero] at filled
  simp only [sendLoop, if_neg waiting, filled, Option.bind_eq_bind, Option.bind_some]
  rfl

theorem sendLoop_delivers (packets : List Packet) :
    ∀ s : Sending, (∀ position < min packets.length s.p.pending,
      ∃ indices, Chain (nextDesc s.p.desc) (s.p.entry position) indices) →
      ∃ bound, ∀ fuel, bound ≤ fuel → ∀ now, ∃ sent, sendLoop fuel now packets s = some sent ∧
        Delivers (s.p, s.memory) packets (sent.p, sent.memory) ∧
        sent.p.usedIdx = s.p.usedIdx + UInt16.ofNat (min packets.length s.p.pending) ∧
        sent.p.availIdx = s.p.availIdx := by
  induction packets with
  | nil =>
    intro s _
    exact ⟨0, fun fuel _ now => ⟨s, rfl, Delivers.all _, by simp, rfl⟩⟩
  | cons packet rest ih =>
    intro s acyclic
    by_cases waiting : s.p.availIdx = s.p.usedIdx
    · refine ⟨0, fun fuel _ now => ⟨{ s with lastTime := now }, by rw [sendLoop, if_pos waiting],
        Delivers.full waiting, ?_, rfl⟩⟩
      have none' : s.p.pending = 0 := pending_zero.mpr waiting
      rw [none']
      simp
    · have one := pending_succ waiting
      have count : s.p.pending = (s.p.availIdx - (s.p.usedIdx + 1)).toNat + 1 := one
      obtain ⟨indices, chain⟩ := acyclic 0 (by rw [length_cons]; omega)
      obtain ⟨bound, later⟩ := ih
        { s with
          p := s.p.use (min (capacity s.p.desc indices) (10 + packet.bytes.length))
          memory := s.memory.scatter ((chainAddresses s.p.desc indices).zip packet.framed)
          intr := true } (by
        intro position inside
        have less : position + 1 < min (packet :: rest).length s.p.pending := by
          rw [length_cons, count]
          have pending : (s.p.use (min (capacity s.p.desc indices) (10 + packet.bytes.length))).pending =
              (s.p.availIdx - (s.p.usedIdx + 1)).toNat := rfl
          rw [pending] at inside
          omega
        rw [entry_use]
        exact acyclic (position + 1) less)
      refine ⟨max indices.length bound, fun fuel enough now => ?_⟩
      obtain ⟨sent, done, delivers, used, avail⟩ := later fuel (by omega) now
      refine ⟨sent, ?_, Delivers.packet waiting chain delivers, ?_, avail⟩
      · rw [sendLoop_packet waiting chain fuel (by omega) now rest, done]
      · rw [used]
        have pending : (s.p.use (min (capacity s.p.desc indices) (10 + packet.bytes.length))).pending =
            (s.p.availIdx - (s.p.usedIdx + 1)).toNat := rfl
        have usedIdx : (s.p.use (min (capacity s.p.desc indices) (10 + packet.bytes.length))).usedIdx =
            s.p.usedIdx + 1 := rfl
        rw [pending, usedIdx, length_cons, count, Nat.add_min_add_right, UInt16.ofNat_add,
          UInt16.add_assoc, UInt16.add_comm 1]
        rfl

theorem written (desc : UInt8 → Desc) (indices : List UInt8) (packet : Packet) (memory : Memory) :
    let places := (chainAddresses desc indices).zip packet.framed
    places.length = min (capacity desc indices) (10 + packet.bytes.length) ∧
      (∀ address, address ∉ (chainAddresses desc indices).take places.length →
        memory.scatter places address = memory address) ∧
      (((chainAddresses desc indices).take places.length).Nodup →
        ((chainAddresses desc indices).take places.length).map (fun address => memory.scatter places address) =
          packet.framed.take places.length) := by
  intro places
  have count : places.length = min (chainAddresses desc indices).length packet.framed.length := length_zip
  have addresses : places.map Prod.fst = (chainAddresses desc indices).take places.length := by
    rw [count]
    change ((chainAddresses desc indices).zip packet.framed).map Prod.fst = _
    rw [zip_eq_zip_take_min, map_fst_zip]
    rw [length_take, length_take]
    omega
  have bytes : places.map Prod.snd = packet.framed.take places.length := by
    rw [count]
    change ((chainAddresses desc indices).zip packet.framed).map Prod.snd = _
    rw [zip_eq_zip_take_min, map_snd_zip]
    rw [length_take, length_take]
    omega
  refine ⟨?_, fun address outside => ?_, fun distinct => ?_⟩
  · rw [count, length_chainAddresses, Packet.length_framed]
  · exact memory.scatter_other (addresses ▸ outside)
  · rw [← addresses] at distinct ⊢
    rw [← bytes, map_map]
    exact memory.scatter_map distinct

def splitRing : VirtioRing where
  desc index :=
    if index = 0 then { addr := 0x1000, len := 4, flagsNext := 0x10001 }
    else if index = 1 then { addr := 0x2000, len := 0, flagsNext := 0x20001 }
    else { addr := 0x3000, len := 20, flagsNext := 0 }
  availFlags := 0
  availIdx := 1
  availRing _ := 0
  usedIdx := 0
  usedRing _ := (0, 0)

def smallPacket : Packet where
  bytes := [1, 2, 3]
  int := by decide

end DisasVisor.VirtioNet
