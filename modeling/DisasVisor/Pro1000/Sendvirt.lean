import DisasVisor.Pro1000.Transmit
import DisasVisor.Lib.Words

/-!
The shadowed descriptor registers of `drivers/net/pro1000.c`, and the walk of
`guest_is_transmitting` through the guest's transmit ring.
-/

namespace DisasVisor.Pro1000

structure DescShadow where
  baseLow : Nat
  baseHigh : Nat
  len : Nat
  head : Nat
  tail : Nat
  lenBound : len ≤ 0xfff80
  headBound : head ≤ 0xffff
  tailBound : tail ≤ 0xffff

inductive Register where
  | baseLow
  | baseHigh
  | length
  | head
  | tail

def DescShadow.write (s : DescShadow) (register : Register) (dword : UInt32) : DescShadow :=
  match register with
  | .baseLow => { s with baseLow := (dword &&& ~~~0xf).toNat }
  | .baseHigh => { s with baseHigh := dword.toNat }
  | .length =>
    { s with
      len := dword.toNat &&& 0xfff80
      lenBound := Nat.and_le_right }
  | .head =>
    { s with
      head := dword.toNat &&& 0xffff
      headBound := Nat.and_le_right }
  | .tail =>
    { s with
      tail := dword.toNat &&& 0xffff
      tailBound := Nat.and_le_right }

def DescShadow.initial : DescShadow where
  baseLow := 0
  baseHigh := 0
  len := 0
  head := 0
  tail := 0
  lenBound := by decide
  headBound := by decide
  tailBound := by decide

def DescShadow.base (s : DescShadow) : Nat := s.baseLow + 2 ^ 32 * s.baseHigh

def DescShadow.next (s : DescShadow) (i : Nat) : Nat :=
  let i := (i + 1) % 2 ^ 32
  if s.len ≤ i * 16 % 2 ^ 32 then 0 else i

/-- The loop of `guest_is_transmitting`. `ring` is the descriptor at an address; `none` is a loop
that has not come to its end after that many descriptors, or passes for one of them. -/
def ringWalk (guest : Memory) (ring : Nat → Tdesc) (s : DescShadow) :
    Nat → Nat → Data2 → Option (Nat × Data2)
  | 0, i, d2 => if i = s.tail then some (i, d2) else none
  | fuel + 1, i, d2 =>
    if i = s.tail then some (i, d2)
    else do
      let d2 ← processTdesc fuel guest d2 (ring ((s.base + i * 16) % 2 ^ 64))
      ringWalk guest ring s fuel (s.next i) d2

structure Device where
  disable : Bool
  tctl : UInt32

def guestIsTransmitting (fuel : Nat) (guest : Memory) (ring : Nat → Tdesc) (device : Device)
    (s : DescShadow) (d2 : Data2) : Option (Nat × Data2) :=
  if device.disable then some (s.head, d2)
  else if device.tctl &&& 2 = 0 then some (s.head, d2)
  else ringWalk guest ring s fuel s.head d2

variable {guest : Memory} {s : DescShadow} {i : Nat}

theorem finishTdesc_mono {result : Data2} (fuel more : Nat) :
    ∀ driver, finishTdesc guest fuel driver = some result →
      finishTdesc guest (fuel + more) driver = some result := by
  induction fuel with
  | zero =>
    rintro ⟨d2, _ | ⟨td1, tdaddr, tdlen⟩⟩ finished
    · cases more <;> exact finished
    · simp [finishTdesc] at finished
  | succ fuel ih =>
    rintro ⟨d2, _ | ⟨td1, tdaddr, tdlen⟩⟩ finished
    · rw [Nat.succ_add]
      exact finished
    · rw [Nat.succ_add]
      exact ih _ finished

theorem ringWalk_mono {ring : Nat → Tdesc} {result : Nat × Data2} (fuel more : Nat) :
    ∀ i d2, ringWalk guest ring s fuel i d2 = some result →
      ringWalk guest ring s (fuel + more) i d2 = some result := by
  induction fuel with
  | zero =>
    intro i d2 finished
    by_cases reached : i = s.tail
    · cases more <;> simpa [ringWalk, reached] using finished
    · simp [ringWalk, reached] at finished
  | succ fuel ih =>
    intro i d2 finished
    rw [Nat.succ_add]
    by_cases reached : i = s.tail
    · simpa [ringWalk, reached] using finished
    · simp only [ringWalk, reached, if_false, Option.bind_eq_bind, Option.bind_eq_some_iff]
        at finished ⊢
      obtain ⟨between, processed, walked⟩ := finished
      exact ⟨between, finishTdesc_mono fuel more _ processed, ih _ _ walked⟩

theorem DescShadow.next_eq (s : DescShadow) (bound : i ≤ 0xffff) :
    s.next i = if s.len ≤ (i + 1) * 16 then 0 else i + 1 := by
  have small : (i + 1) % 2 ^ 32 = i + 1 := by omega
  have product : (i + 1) * 16 % 2 ^ 32 = (i + 1) * 16 := by omega
  simp only [DescShadow.next, small, product]

theorem DescShadow.next_le (s : DescShadow) (bound : i ≤ 0xffff) : s.next i ≤ 0xffff := by
  have len := s.lenBound
  rw [s.next_eq bound]
  split
  · omega
  · omega

def DescShadow.TailReached (s : DescShadow) : Prop := s.tail = 0 ∨ 16 * s.tail < s.len

theorem DescShadow.next_ne_tail (s : DescShadow) (missed : ¬ s.TailReached) (bound : i ≤ 0xffff) :
    s.next i ≠ s.tail := by
  simp only [DescShadow.TailReached] at missed
  rw [s.next_eq bound]
  split
  · omega
  · omega

def DescShadow.distance (s : DescShadow) (i : Nat) : Nat :=
  if i ≤ s.tail then s.tail - i else 2 ^ 16 - i + s.tail + 1

theorem DescShadow.distance_next (s : DescShadow) (reached : s.TailReached) (bound : i ≤ 0xffff) (apart : i ≠ s.tail) :
    s.distance (s.next i) < s.distance i := by
  have tail := s.tailBound
  simp only [DescShadow.TailReached] at reached
  rw [s.next_eq bound]
  simp only [DescShadow.distance]
  split_ifs <;> omega

theorem ringWalk_stuck {ring : Nat → Tdesc} (missed : ¬ s.TailReached) (fuel : Nat) :
    ∀ i d2, i ≤ 0xffff → i ≠ s.tail → ringWalk guest ring s fuel i d2 = none := by
  induction fuel with
  | zero =>
    intro i d2 _ apart
    rw [ringWalk, if_neg apart]
  | succ fuel ih =>
    intro i d2 bound apart
    rw [ringWalk, if_neg apart]
    cases processTdesc fuel guest d2 (ring ((s.base + i * 16) % 2 ^ 64)) with
    | none => rfl
    | some between => exact ih _ between (s.next_le bound) (s.next_ne_tail missed bound)

theorem ringWalk_reaches {ring : Nat → Tdesc}
    (terminates : ∀ d2 address, ∃ fuel result, processTdesc fuel guest d2 (ring address) = some result)
    (reached : s.TailReached) (distance : Nat) :
    ∀ i d2, i ≤ 0xffff → s.distance i ≤ distance →
      ∃ fuel result, ringWalk guest ring s fuel i d2 = some (s.tail, result) := by
  induction distance with
  | zero =>
    intro i d2 bound near
    have same : i = s.tail := by
      simp only [DescShadow.distance] at near
      split at near <;> omega
    exact ⟨0, d2, by rw [ringWalk, if_pos same, same]⟩
  | succ distance ih =>
    intro i d2 bound near
    by_cases apart : i = s.tail
    · exact ⟨0, d2, by rw [ringWalk, if_pos apart, apart]⟩
    · obtain ⟨passes, between, processed⟩ :=
        terminates d2 ((s.base + i * 16) % 2 ^ 64)
      have closer := s.distance_next reached bound apart
      obtain ⟨fuel, result, walked⟩ := ih (s.next i) between (s.next_le bound) (by omega)
      refine ⟨passes + fuel + 1, result, ?_⟩
      have longer := finishTdesc_mono passes fuel _ processed
      have further := ringWalk_mono fuel passes _ _ walked
      rw [ringWalk, if_neg apart, processTdesc, longer, Option.bind_eq_bind, Option.bind_some,
        Nat.add_comm passes fuel]
      exact further

def ProcessTerminates (guest : Memory) (ring : Nat → Tdesc) : Prop :=
  ∀ d2 address, ∃ fuel result, processTdesc fuel guest d2 (ring address) = some result

def nullTdesc : Tdesc := .legacy ⟨0, 0, false, false⟩

theorem nullTdesc_terminates (guest : Memory) : ProcessTerminates guest fun _ => nullTdesc := fun d2 _ => ⟨0, d2, rfl⟩

def sendvirtMaxsize : Nat := 1514

structure Rdesc where
  low : Nat
  high : Nat

namespace Rdesc

def len : BitField := ⟨0, 16⟩
def statusDd : BitField := ⟨32, 1⟩
def statusEop : BitField := ⟨33, 1⟩
def statusVp : BitField := ⟨35, 1⟩
def statusUdpcs : BitField := ⟨36, 1⟩
def statusTcpcs : BitField := ⟨37, 1⟩
def statusIpcs : BitField := ⟨38, 1⟩
def statusPif : BitField := ⟨39, 1⟩
def errCe : BitField := ⟨40, 1⟩
def errSe : BitField := ⟨41, 1⟩
def errSeq : BitField := ⟨42, 1⟩
def errTcpe : BitField := ⟨45, 1⟩
def errIpe : BitField := ⟨46, 1⟩
def errRxe : BitField := ⟨47, 1⟩
def vlantag : BitField := ⟨48, 16⟩

def addr (rd : Rdesc) : Nat := rd.low

def complete (rd : Rdesc) (length eop dd : Nat) : Rdesc :=
  { rd with
    high := BitField.setAll
      [(len, length), (statusPif, 0), (statusIpcs, 0), (statusTcpcs, 0), (statusUdpcs, 0),
        (statusVp, 0), (statusEop, eop), (statusDd, dd), (errRxe, 0), (errIpe, 0), (errTcpe, 0),
        (errSeq, 0), (errSe, 0), (errCe, 0), (vlantag, 0)] rd.high }

end Rdesc

namespace RdescExt1

def mrq : BitField := ⟨0, 32⟩
def rsshash : BitField := ⟨32, 32⟩
def exSta : BitField := ⟨0, 20⟩
def exErr : BitField := ⟨20, 12⟩
def len : BitField := ⟨32, 16⟩
def vlantag : BitField := ⟨48, 16⟩

def complete (rd1 : Rdesc) (status length : Nat) : Rdesc where
  low := BitField.setAll [(mrq, 0), (rsshash, 0)] rd1.low
  high := BitField.setAll [(exSta, status), (exErr, 0), (len, length), (vlantag, 0)] rd1.high

end RdescExt1

abbrev RingIndex : Type := { i : Nat // i ≤ 0xffff }

def DescShadow.nextIndex (s : DescShadow) (i : RingIndex) : RingIndex := ⟨s.next i.1, s.next_le i.2⟩

def DescShadow.setHead (s : DescShadow) (i : RingIndex) : DescShadow := { s with head := i.1, headBound := i.2 }

structure Receiver where
  rctl : UInt32
  rfctl : UInt32
  rdesc : DescShadow
  ring : Nat → Rdesc
  buffers : Memory
  interrupt : Bool

namespace Receiver

def bufsize (d2 : Receiver) : Nat :=
  let bufsize := if d2.rctl &&& 0x20000 ≠ 0 then 512 else 2048
  let bufsize := if d2.rctl &&& 0x10000 ≠ 0 then bufsize >>> 1 else bufsize
  if d2.rctl &&& 0x2000000 ≠ 0 then bufsize <<< 4 else bufsize

def asize (d2 : Receiver) : Nat := if d2.rctl &&& 0x4000000 ≠ 0 then 0 else 4

def extended (d2 : Receiver) : Bool := d2.rfctl &&& 0x8000 ≠ 0

def abuf : List UInt8 := [0, 0, 0, 0]

def address (d2 : Receiver) (i : RingIndex) : Nat := (d2.rdesc.base + i.1 * 16) % 2 ^ 64

def desc (d2 : Receiver) (i : RingIndex) : Rdesc := d2.ring (d2.address i)

def copies (d2 : Receiver) (pkt : List UInt8) (pktlen : Nat) : List UInt8 :=
  if pktlen ≤ d2.bufsize then
    if d2.asize < pktlen then pkt.take (pktlen - d2.asize) ++ abuf.take d2.asize
    else (abuf.drop (d2.asize - pktlen)).take pktlen
  else if d2.bufsize ≤ pktlen - d2.asize then pkt.take d2.bufsize
  else pkt.take (pktlen - d2.asize) ++ abuf.take (d2.bufsize - (pktlen - d2.asize))

def completes (d2 : Receiver) (rd : Rdesc) (pktlen : Nat) : Rdesc :=
  if pktlen ≤ d2.bufsize then
    if d2.extended then RdescExt1.complete rd 0x7 pktlen
    else rd.complete pktlen 1 1
  else
    if d2.extended then RdescExt1.complete rd 0x5 pktlen
    else rd.complete d2.bufsize 0 0

def copied (d2 : Receiver) (pktlen : Nat) : Nat :=
  if pktlen ≤ d2.bufsize then pktlen else d2.bufsize

def fillDesc (d2 : Receiver) (i : RingIndex) (pkt : List UInt8) (pktlen : Nat) : Receiver :=
  { d2 with
    buffers := d2.buffers.writeBytes (d2.desc i).addr (d2.copies pkt pktlen)
    ring := fun other =>
      if other = d2.address i then d2.completes (d2.desc i) pktlen else d2.ring other }

def extDone (d2 : Receiver) (i : RingIndex) : Bool := RdescExt1.exSta.get (d2.desc i).high &&& 1 ≠ 0

theorem bufsize_pos (d2 : Receiver) : 0 < d2.bufsize := by
  simp only [bufsize]
  split_ifs <;> decide

def fillLoop (d2 : Receiver) (i : RingIndex) (pkt : List UInt8) (pktlen : Nat) : Receiver × Option RingIndex :=
  if pktlen = 0 then (d2, some i)
  else if i.1 = d2.rdesc.tail then (d2, none)
  else if d2.extended ∧ d2.extDone i then (d2, none)
  else
    (d2.fillDesc i pkt pktlen).fillLoop (d2.rdesc.nextIndex i) (pkt.drop (d2.copied pktlen)) (pktlen - d2.copied pktlen)
termination_by pktlen
decreasing_by
  have positive := d2.bufsize_pos
  simp only [copied]
  split <;> omega

def sendvirt (d2 : Receiver) (pkt : List UInt8) : Receiver :=
  if sendvirtMaxsize < pkt.length then d2
  else if d2.bufsize = 32768 then d2
  else
    match d2.fillLoop ⟨d2.rdesc.head, d2.rdesc.headBound⟩ pkt (pkt.length + d2.asize) with
    | (d2, none) => d2
    | (d2, some i) => { d2 with rdesc := d2.rdesc.setHead i, interrupt := true }

def slot (d2 : Receiver) : Nat → RingIndex
  | 0 => ⟨d2.rdesc.head, d2.rdesc.headBound⟩
  | position + 1 => d2.rdesc.nextIndex (d2.slot position)

def sendVirtnic (d2 : Receiver) (packets : List (List UInt8)) : Receiver := packets.foldl sendvirt d2

end Receiver

/-!
What the guest finds in its receive ring behind `sendvirt`.
-/

open List

theorem Rdesc.len_complete (rd : Rdesc) (length eop dd : Nat) :
    Rdesc.len.get (rd.complete length eop dd).high = length % 2 ^ 16 := by
  apply BitField.get_setAll []
  simp only [forall_mem_cons]
  decide

theorem Rdesc.statusEop_complete (rd : Rdesc) (length eop dd : Nat) :
    Rdesc.statusEop.get (rd.complete length eop dd).high = eop % 2 := by
  apply BitField.get_setAll [_, _, _, _, _, _]
  simp only [forall_mem_cons]
  decide

theorem Rdesc.statusDd_complete (rd : Rdesc) (length eop dd : Nat) :
    Rdesc.statusDd.get (rd.complete length eop dd).high = dd % 2 := by
  apply BitField.get_setAll [_, _, _, _, _, _, _]
  simp only [forall_mem_cons]
  decide

theorem RdescExt1.len_complete (rd1 : Rdesc) (status length : Nat) :
    RdescExt1.len.get (RdescExt1.complete rd1 status length).high = length % 2 ^ 16 := by
  apply BitField.get_setAll [_, _]
  simp only [forall_mem_cons]
  decide

theorem RdescExt1.exSta_complete (rd1 : Rdesc) (status length : Nat) :
    RdescExt1.exSta.get (RdescExt1.complete rd1 status length).high = status % 2 ^ 20 := by
  apply BitField.get_setAll []
  simp only [forall_mem_cons]
  decide

namespace Receiver

def done (d2 : Receiver) (rd : Rdesc) : Bool :=
  if d2.extended then RdescExt1.exSta.get rd.high &&& 1 ≠ 0 else Rdesc.statusDd.get rd.high ≠ 0

def endOfPacket (d2 : Receiver) (rd : Rdesc) : Bool :=
  if d2.extended then RdescExt1.exSta.get rd.high &&& 2 ≠ 0 else Rdesc.statusEop.get rd.high ≠ 0

def length (d2 : Receiver) (rd : Rdesc) : Nat :=
  if d2.extended then RdescExt1.len.get rd.high else Rdesc.len.get rd.high

def Free (d2 : Receiver) (position : Nat) : Prop :=
  (d2.slot position).1 ≠ d2.rdesc.tail ∧ (d2.extended → d2.extDone (d2.slot position) = false)

def Available (d2 : Receiver) (count : Nat) : Prop := ∀ position < count, d2.Free position

def total (d2 : Receiver) (pkt : List UInt8) : Nat := pkt.length + d2.asize

def needed (d2 : Receiver) (pkt : List UInt8) : Nat := (d2.total pkt + d2.bufsize - 1) / d2.bufsize

structure Filled (d2 after : Receiver) (pkt : List UInt8) (count : Nat) : Prop where
  content : ((List.range count).flatMap fun position =>
    after.buffers.slice (d2.desc (d2.slot position)).addr
      (after.length (after.desc (d2.slot position)))) = pkt ++ List.replicate d2.asize 0
  done : ∀ position < count, after.done (after.desc (d2.slot position)) = true
  endOfPacket : ∀ position < count, (after.endOfPacket (after.desc (d2.slot position)) = true ↔ position + 1 = count)
  head : after.rdesc.head = (d2.slot count).1

structure Withheld (d2 after : Receiver) : Prop where
  done : ∀ other, after.done (after.ring other) = true → d2.done (d2.ring other) = true
  head : after.rdesc.head = d2.rdesc.head

def Delivers (d2 : Receiver) (pkt : List UInt8) : Prop :=
  (d2.Available (d2.needed pkt) → d2.Filled (d2.sendvirt pkt) pkt (d2.needed pkt)) ∧
    (¬ d2.Available (d2.needed pkt) → d2.Withheld (d2.sendvirt pkt))

variable {d2 : Receiver} {pkt : List UInt8}

theorem lt_needed (d2 : Receiver) (pkt : List UInt8) (position : Nat) :
    position < d2.needed pkt ↔ position * d2.bufsize < d2.total pkt := by
  have positive := d2.bufsize_pos
  rw [needed, Nat.lt_iff_add_one_le, Nat.le_div_iff_mul_le positive, Nat.add_mul, Nat.one_mul]
  omega

theorem distance_slot (reached : d2.rdesc.TailReached) {first second : Nat} (before : first < second)
    (apart : ∀ position < second, (d2.slot position).1 ≠ d2.rdesc.tail) :
    d2.rdesc.distance (d2.slot second).1 < d2.rdesc.distance (d2.slot first).1 := by
  induction second with
  | zero => exact absurd before (Nat.not_lt_zero _)
  | succ second ih =>
    have step := d2.rdesc.distance_next reached (d2.slot second).2 (apart second (Nat.lt_succ_self _))
    by_cases last : first = second
    · rw [last]
      exact step
    · have rest := ih (by omega) fun position below => apart position (by omega)
      exact Nat.lt_trans step rest

theorem address_injective {i j : RingIndex} (same : d2.address i = d2.address j) : i = j := by
  simp only [address] at same
  apply Subtype.ext
  omega

theorem address_slot_ne (reached : d2.rdesc.TailReached) {first second : Nat}
    (before : first < second) (available : d2.Available second) :
    d2.address (d2.slot first) ≠ d2.address (d2.slot second) := by
  intro same
  have closer := distance_slot reached before fun position below => (available position below).1
  rw [address_injective same] at closer
  exact Nat.lt_irrefl _ closer

def afterPasses (d2 : Receiver) (pkt : List UInt8) : Nat → Receiver
  | 0 => d2
  | passes + 1 =>
    (d2.afterPasses pkt passes).fillDesc (d2.slot passes) (pkt.drop (passes * d2.bufsize))
      (d2.total pkt - passes * d2.bufsize)

theorem afterPasses_registers (d2 : Receiver) (pkt : List UInt8) (passes : Nat) :
    ∃ buffers ring, d2.afterPasses pkt passes = { d2 with buffers := buffers, ring := ring } := by
  induction passes with
  | zero => exact ⟨d2.buffers, d2.ring, rfl⟩
  | succ passes ih =>
    obtain ⟨buffers, ring, same⟩ := ih
    rw [afterPasses, same]
    exact ⟨_, _, rfl⟩

theorem ring_fillDesc (d2 : Receiver) (i : RingIndex) (pkt : List UInt8) (pktlen other : Nat) :
    (d2.fillDesc i pkt pktlen).ring other =
      if other = d2.address i then d2.completes (d2.desc i) pktlen else d2.ring other :=
  rfl

theorem address_afterPasses (d2 : Receiver) (pkt : List UInt8) (passes : Nat) (i : RingIndex) :
    (d2.afterPasses pkt passes).address i = d2.address i := by
  obtain ⟨buffers, ring, same⟩ := d2.afterPasses_registers pkt passes
  rw [same]
  rfl

theorem extended_afterPasses (d2 : Receiver) (pkt : List UInt8) (passes : Nat) :
    (d2.afterPasses pkt passes).extended = d2.extended := by
  obtain ⟨buffers, ring, registers⟩ := d2.afterPasses_registers pkt passes
  rw [registers]
  rfl

theorem completes_afterPasses (d2 : Receiver) (pkt : List UInt8) (passes : Nat) (rd : Rdesc) (pktlen : Nat) :
    (d2.afterPasses pkt passes).completes rd pktlen = d2.completes rd pktlen := by
  obtain ⟨buffers, ring, same⟩ := d2.afterPasses_registers pkt passes
  rw [same]
  rfl

variable {passes position : Nat} {after : Receiver}

theorem ring_afterPasses {other : Nat} (missed : ∀ position < passes, other ≠ d2.address (d2.slot position)) :
    (d2.afterPasses pkt passes).ring other = d2.ring other := by
  induction passes with
  | zero => rfl
  | succ passes ih =>
    have apart := missed passes (Nat.lt_succ_self _)
    have earlier := ih fun position below => missed position (Nat.lt_succ_of_lt below)
    rw [afterPasses, ring_fillDesc, address_afterPasses, if_neg apart, earlier]

theorem desc_afterPasses_unreached (pkt : List UInt8) (reached : d2.rdesc.TailReached) (later : passes ≤ position)
    (available : d2.Available position) :
    (d2.afterPasses pkt passes).desc (d2.slot position) = d2.desc (d2.slot position) := by
  rw [desc, address_afterPasses]
  apply ring_afterPasses
  intro earlier below
  exact (address_slot_ne reached (by omega) available).symm

theorem desc_afterPasses (pkt : List UInt8) (reached : d2.rdesc.TailReached) (before : position < passes)
    (available : d2.Available passes) :
    (d2.afterPasses pkt passes).desc (d2.slot position) =
      d2.completes (d2.desc (d2.slot position)) (d2.total pkt - position * d2.bufsize) := by
  induction passes with
  | zero => exact absurd before (Nat.not_lt_zero _)
  | succ passes ih =>
    have fewer : d2.Available passes := fun other below => available other (by omega)
    rw [desc, address_afterPasses, afterPasses, ring_fillDesc, address_afterPasses]
    by_cases last : position = passes
    · rw [last, if_pos rfl, completes_afterPasses, desc_afterPasses_unreached pkt reached (Nat.le_refl _) fewer]
    · have apart := address_slot_ne reached (by omega : position < passes) fewer
      rw [if_neg apart, ← address_afterPasses d2 pkt passes]
      exact ih (by omega) fewer

theorem fillLoop_zero (d2 : Receiver) (i : RingIndex) (pkt : List UInt8) : d2.fillLoop i pkt 0 = (d2, some i) := by
  rw [fillLoop, if_pos rfl]

theorem free_afterPasses (pkt : List UInt8) (reached : d2.rdesc.TailReached) (available : d2.Available passes) :
    d2.Free passes ↔ ¬ (d2.slot passes).1 = (d2.afterPasses pkt passes).rdesc.tail ∧
      ¬ ((d2.afterPasses pkt passes).extended = true ∧
        (d2.afterPasses pkt passes).extDone (d2.slot passes) = true) := by
  have same := desc_afterPasses_unreached pkt reached (Nat.le_refl _) available
  obtain ⟨buffers, ring, registers⟩ := d2.afterPasses_registers pkt passes
  have tail : (d2.afterPasses pkt passes).rdesc.tail = d2.rdesc.tail := by rw [registers]
  have test : (d2.afterPasses pkt passes).extDone (d2.slot passes) = d2.extDone (d2.slot passes) := by
    rw [extDone, same]
    rfl
  rw [Free, tail, extended_afterPasses, test, not_and, Bool.not_eq_true]

section

variable (reached : d2.rdesc.TailReached)
include reached

theorem fillLoop_stuck (before : passes < d2.needed pkt)
    (available : d2.Available passes) (stuck : ¬ d2.Free passes) (rest : List UInt8) :
    (d2.afterPasses pkt passes).fillLoop (d2.slot passes) rest
      (d2.total pkt - passes * d2.bufsize) = (d2.afterPasses pkt passes, none) := by
  have left := (lt_needed d2 pkt passes).mp before
  rw [free_afterPasses pkt reached available] at stuck
  rw [fillLoop, if_neg (by omega)]
  by_cases tail : (d2.slot passes).1 = (d2.afterPasses pkt passes).rdesc.tail
  · rw [if_pos tail]
  · rw [if_neg tail, if_pos (by tauto)]

theorem fillLoop_pass (before : passes < d2.needed pkt) (available : d2.Available (passes + 1)) :
    (d2.afterPasses pkt passes).fillLoop (d2.slot passes) (pkt.drop (passes * d2.bufsize))
        (d2.total pkt - passes * d2.bufsize) =
      (d2.afterPasses pkt (passes + 1)).fillLoop (d2.slot (passes + 1))
        (pkt.drop ((passes + 1) * d2.bufsize)) (d2.total pkt - (passes + 1) * d2.bufsize) := by
  have left := (lt_needed d2 pkt passes).mp before
  have free := available passes (Nat.lt_succ_self _)
  have earlier : d2.Available passes := fun position below => available position (by omega)
  obtain ⟨apart, clear⟩ := (free_afterPasses pkt reached earlier).mp free
  rw [fillLoop, if_neg (by omega), if_neg apart, if_neg clear]
  obtain ⟨buffers, ring, registers⟩ := d2.afterPasses_registers pkt passes
  have sizes : (d2.afterPasses pkt passes).copied = d2.copied := by
    rw [registers]
    rfl
  have moves : (d2.afterPasses pkt passes).rdesc.nextIndex (d2.slot passes) = d2.slot (passes + 1) := by
    rw [registers]
    rfl
  rw [sizes, moves, ← afterPasses, Nat.add_mul, Nat.one_mul]
  by_cases last : d2.total pkt - passes * d2.bufsize ≤ d2.bufsize
  · have none : d2.total pkt - passes * d2.bufsize - d2.copied (d2.total pkt - passes * d2.bufsize) = 0 := by
      rw [copied, if_pos last, Nat.sub_self]
    rw [none, fillLoop_zero, Nat.sub_add_eq, Nat.sub_eq_zero_of_le last, fillLoop_zero]
  · rw [copied, if_neg last, drop_drop, Nat.sub_add_eq]

theorem fillLoop_available (available : d2.Available passes) (enough : passes ≤ d2.needed pkt) :
    d2.fillLoop (d2.slot 0) pkt (d2.total pkt) =
      (d2.afterPasses pkt passes).fillLoop (d2.slot passes) (pkt.drop (passes * d2.bufsize))
        (d2.total pkt - passes * d2.bufsize) := by
  induction passes with
  | zero =>
    rw [Nat.zero_mul, drop_zero, Nat.sub_zero]
    rfl
  | succ passes ih =>
    rw [ih (fun position below => available position (by omega)) (by omega)]
    exact fillLoop_pass reached enough available

theorem fillLoop_filled (available : d2.Available (d2.needed pkt)) :
    d2.fillLoop (d2.slot 0) pkt (d2.total pkt) =
      (d2.afterPasses pkt (d2.needed pkt), some (d2.slot (d2.needed pkt))) := by
  have done : d2.total pkt - d2.needed pkt * d2.bufsize = 0 := by
    have last := lt_needed d2 pkt (d2.needed pkt)
    omega
  rw [fillLoop_available reached available (Nat.le_refl _), done, fillLoop_zero]

end

theorem exists_stuck {count : Nat} (unavailable : ¬ d2.Available count) :
    ∃ passes < count, d2.Available passes ∧ ¬ d2.Free passes := by
  induction count with
  | zero => exact absurd (fun position below => absurd below (Nat.not_lt_zero _)) unavailable
  | succ count ih =>
    by_cases available : d2.Available count
    · refine ⟨count, Nat.lt_succ_self _, available, fun free => unavailable ?_⟩
      intro position below
      by_cases last : position = count
      · rw [last]
        exact free
      · exact available position (by omega)
    · obtain ⟨passes, before, rest⟩ := ih available
      exact ⟨passes, by omega, rest⟩

theorem done_completes (d2 : Receiver) (rd : Rdesc) (pktlen : Nat) :
    d2.done (d2.completes rd pktlen) = true ↔ pktlen ≤ d2.bufsize ∨ d2.extended = true := by
  by_cases last : pktlen ≤ d2.bufsize
  · by_cases mode : d2.extended = true
    · simp [done, completes, last, mode, RdescExt1.exSta_complete]
    · simp [done, completes, last, mode, Rdesc.statusDd_complete]
  · by_cases mode : d2.extended = true
    · simp [done, completes, last, mode, RdescExt1.exSta_complete]
    · simp [done, completes, last, mode, Rdesc.statusDd_complete]

theorem endOfPacket_completes (d2 : Receiver) (rd : Rdesc) (pktlen : Nat) :
    d2.endOfPacket (d2.completes rd pktlen) = true ↔ pktlen ≤ d2.bufsize := by
  by_cases last : pktlen ≤ d2.bufsize
  · by_cases mode : d2.extended = true
    · simp [endOfPacket, completes, last, mode, RdescExt1.exSta_complete]
    · simp [endOfPacket, completes, last, mode, Rdesc.statusEop_complete]
  · by_cases mode : d2.extended = true
    · simp [endOfPacket, completes, last, mode, RdescExt1.exSta_complete]
    · simp [endOfPacket, completes, last, mode, Rdesc.statusEop_complete]

theorem length_completes (d2 : Receiver) (rd : Rdesc) (pktlen : Nat) :
    d2.length (d2.completes rd pktlen) =
      (if pktlen ≤ d2.bufsize ∨ d2.extended = true then pktlen else d2.bufsize) % 2 ^ 16 := by
  by_cases last : pktlen ≤ d2.bufsize
  · by_cases mode : d2.extended = true
    · simp [length, completes, last, mode, RdescExt1.len_complete]
    · simp [length, completes, last, mode, Rdesc.len_complete]
  · by_cases mode : d2.extended = true
    · simp [length, completes, last, mode, RdescExt1.len_complete]
    · simp [length, completes, last, mode, Rdesc.len_complete]

theorem bufsize_bound (d2 : Receiver) : 256 ≤ d2.bufsize := by
  simp only [bufsize]
  split_ifs <;> decide

theorem asize_bound (d2 : Receiver) : d2.asize ≤ 4 := by
  simp only [asize]
  split_ifs <;> decide

theorem copies_drop (d2 : Receiver) (pkt : List UInt8) (start : Nat) (before : start < d2.total pkt) :
    d2.copies (pkt.drop start) (d2.total pkt - start) =
      ((pkt ++ List.replicate d2.asize 0).drop start).take d2.bufsize := by
  have large := d2.bufsize_bound
  have pad := d2.asize_bound
  simp only [total] at before
  have four : abuf = List.replicate 4 0 := rfl
  have zeros (count : Nat) : abuf.take count = List.replicate (min count 4) 0 := by rw [four, take_replicate]
  have last (count : Nat) : abuf.drop count = List.replicate (4 - count) 0 := by rw [four, drop_replicate]
  rw [total, copies, drop_append, take_append, length_drop, drop_replicate, take_replicate]
  by_cases short : pkt.length + d2.asize - start ≤ d2.bufsize
  · rw [if_pos short]
    by_cases inside : start < pkt.length
    · rw [if_pos (by omega), zeros, take_of_length_le, take_of_length_le]
      · congr 2
        omega
      · rw [length_drop]
        omega
      · rw [length_drop]
        omega
    · have none : pkt.drop start = [] := drop_eq_nil_of_le (by omega)
      rw [if_neg (by omega), none, take_nil, nil_append, last, take_replicate]
      congr 1
      omega
  · rw [if_neg short]
    have inside : start ≤ pkt.length := by omega
    by_cases whole : d2.bufsize ≤ pkt.length + d2.asize - start - d2.asize
    · have none : d2.bufsize - (pkt.length - start) = 0 := by omega
      rw [if_pos whole, none, Nat.zero_min, replicate_zero, append_nil]
    · rw [if_neg whole, zeros, take_of_length_le, take_of_length_le]
      · congr 2
        omega
      · rw [length_drop]
        omega
      · rw [length_drop]
        omega

theorem sendvirt_filled (size : d2.bufsize ≠ 32768) (small : pkt.length ≤ sendvirtMaxsize)
    (reached : d2.rdesc.TailReached) (available : d2.Available (d2.needed pkt)) :
    d2.sendvirt pkt =
      { d2.afterPasses pkt (d2.needed pkt) with
        rdesc := d2.rdesc.setHead (d2.slot (d2.needed pkt))
        interrupt := true } := by
  have looped := fillLoop_filled reached available
  rw [slot, total] at looped
  rw [sendvirt, if_neg (Nat.not_lt.mpr small), if_neg size, looped]
  obtain ⟨buffers, ring, registers⟩ := d2.afterPasses_registers pkt (d2.needed pkt)
  rw [registers]

theorem sendvirt_stuck (size : d2.bufsize ≠ 32768) (small : pkt.length ≤ sendvirtMaxsize)
    (reached : d2.rdesc.TailReached) (unavailable : ¬ d2.Available (d2.needed pkt)) :
    ∃ passes < d2.needed pkt, d2.Available passes ∧ ¬ d2.Free passes ∧ d2.sendvirt pkt = d2.afterPasses pkt passes := by
  obtain ⟨passes, before, available, stuck⟩ := exists_stuck unavailable
  have looped := fillLoop_available reached available (Nat.le_of_lt before)
  rw [fillLoop_stuck reached before available stuck, slot, total] at looped
  refine ⟨passes, before, available, stuck, ?_⟩
  rw [sendvirt, if_neg (Nat.not_lt.mpr small), if_neg size, looped]

section

variable (mode : after.extended = d2.extended)
include mode

theorem done_congr (rd : Rdesc) : after.done rd = d2.done rd := by
  rw [done, done, mode]

theorem endOfPacket_congr (rd : Rdesc) : after.endOfPacket rd = d2.endOfPacket rd := by
  rw [endOfPacket, endOfPacket, mode]

theorem length_congr (rd : Rdesc) : after.length rd = d2.length rd := by
  rw [length, length, mode]

end

section

variable (size : d2.bufsize ≠ 32768) (small : pkt.length ≤ sendvirtMaxsize) (reached : d2.rdesc.TailReached)
  (available : d2.Available (d2.needed pkt))
include size small reached available

theorem desc_sendvirt (before : position < d2.needed pkt) :
    (d2.sendvirt pkt).desc (d2.slot position) =
      d2.completes (d2.desc (d2.slot position)) (d2.total pkt - position * d2.bufsize) := by
  rw [sendvirt_filled size small reached available]
  have same : (d2.rdesc.setHead (d2.slot (d2.needed pkt))).base = d2.rdesc.base := rfl
  have written := desc_afterPasses pkt reached before available
  rw [desc, address_afterPasses] at written
  rw [desc, address, same]
  exact written

theorem sendvirt_extended : (d2.sendvirt pkt).extended = d2.extended := by
  rw [sendvirt_filled size small reached available]
  exact extended_afterPasses d2 pkt (d2.needed pkt)

end

theorem needed_pos (packet : d2.total pkt ≠ 0) : 0 < d2.needed pkt := by
  rw [lt_needed]
  omega

theorem total_bound (d2 : Receiver) (small : pkt.length ≤ sendvirtMaxsize) : d2.total pkt ≤ 1518 := by
  have pad := d2.asize_bound
  simp only [sendvirtMaxsize] at small
  simp only [total]
  omega

theorem total_mod (small : pkt.length ≤ sendvirtMaxsize) : d2.total pkt % 2 ^ 16 = d2.total pkt := by
  apply Nat.mod_eq_of_lt
  exact Nat.lt_of_le_of_lt (total_bound d2 small) (by decide)

section

variable (size : d2.bufsize ≠ 32768)
include size

variable (small : pkt.length ≤ sendvirtMaxsize)
include small

variable (reached : d2.rdesc.TailReached)
include reached

theorem filled_of_fits (available : d2.Available (d2.needed pkt))
    (fits : d2.total pkt ≤ d2.bufsize) : d2.Filled (d2.sendvirt pkt) pkt (d2.needed pkt) := by
  have mode := sendvirt_extended size small reached available
  have only : ∀ position < d2.needed pkt, position = 0 := by
    intro position before
    have second := lt_needed d2 pkt 1
    omega
  have first : ∀ position < d2.needed pkt, (d2.sendvirt pkt).desc (d2.slot position) =
      d2.completes (d2.desc (d2.slot position)) (d2.total pkt) := by
    intro position before
    rw [desc_sendvirt size small reached available before, only position before, Nat.zero_mul, Nat.sub_zero]
  have size16 : d2.total pkt % 2 ^ 16 = d2.total pkt := total_mod small
  constructor
  · by_cases none : d2.total pkt = 0
    · have nothing := lt_needed d2 pkt 0
      have zero : d2.needed pkt = 0 := by omega
      simp only [total, Nat.add_eq_zero_iff, length_eq_zero_iff] at none
      rw [zero, none.1, none.2]
      rfl
    · have one : d2.needed pkt = 1 := by
        have start := needed_pos none
        have second := lt_needed d2 pkt 1
        omega
      have start : 0 < d2.needed pkt := needed_pos none
      have bytes := copies_drop d2 pkt 0 (Nat.pos_of_ne_zero none)
      rw [drop_zero, drop_zero, Nat.sub_zero, take_of_length_le (by simpa [total] using fits)] at bytes
      have buffers : (d2.sendvirt pkt).buffers =
          d2.buffers.writeBytes (d2.desc (d2.slot 0)).addr (pkt ++ List.replicate d2.asize 0) := by
        rw [sendvirt_filled size small reached available, one, ← bytes]
        simp only [afterPasses, fillDesc, Nat.zero_mul, drop_zero, Nat.sub_zero]
      have whole : (pkt ++ List.replicate d2.asize 0).length = d2.total pkt := by
        rw [length_append, length_replicate, total]
      rw [one, range_one, flatMap_singleton, length_congr mode, first 0 start,
        length_completes, if_pos (.inl fits), size16, buffers, ← whole, Memory.slice_writeBytes]
  · intro position before
    rw [done_congr mode, first position before, done_completes]
    exact .inl fits
  · intro position before
    rw [endOfPacket_congr mode, first position before, endOfPacket_completes]
    have start := only position before
    have second := lt_needed d2 pkt 1
    omega
  · rw [sendvirt_filled size small reached available]
    rfl

theorem not_filled (available : d2.Available (d2.needed pkt))
    (long : d2.bufsize < d2.total pkt) : ¬ d2.Filled (d2.sendvirt pkt) pkt (d2.needed pkt) := by
  intro filled
  have mode := sendvirt_extended size small reached available
  have second : 1 < d2.needed pkt := (lt_needed d2 pkt 1).mpr (by omega)
  have start := desc_sendvirt size small reached available (by omega : 0 < d2.needed pkt)
  have next := desc_sendvirt size small reached available second
  rw [Nat.zero_mul, Nat.sub_zero] at start
  rw [Nat.one_mul] at next
  have done := filled.done 0 (by omega)
  rw [done_congr mode, start, done_completes] at done
  have extended : d2.extended = true := by
    rcases done with fits | extended
    · omega
    · exact extended
  have content := congrArg List.length filled.content
  obtain ⟨more, count⟩ : ∃ more, d2.needed pkt = more + 2 := ⟨d2.needed pkt - 2, by omega⟩
  rw [count, length_flatMap, range_succ_eq_map, range_succ_eq_map, map_cons,
    map_cons, map_cons, sum_cons, sum_cons, Memory.length_slice,
    Memory.length_slice, length_congr mode, length_congr mode, start, next, length_completes,
    length_completes, if_pos (.inr extended), if_pos (.inr extended), total_mod small,
    length_append, length_replicate, ← total] at content
  have bound := total_bound d2 small
  omega

theorem withheld_iff (unavailable : ¬ d2.Available (d2.needed pkt)) :
    d2.Withheld (d2.sendvirt pkt) ↔ ¬ d2.Free 0 ∨ d2.extended = false := by
  obtain ⟨passes, before, available, stuck, same⟩ := sendvirt_stuck size small reached unavailable
  rw [same]
  constructor
  · rintro ⟨withheld, -⟩
    by_contra both
    obtain ⟨free, extended⟩ : d2.Free 0 ∧ d2.extended = true := by
      simpa only [not_or, not_not, Bool.not_eq_false] using both
    have some : 0 < passes := by
      by_contra none
      have zero : passes = 0 := by omega
      rw [zero] at stuck
      exact stuck free
    have written := desc_afterPasses pkt reached some available
    rw [desc, address_afterPasses] at written
    have early := withheld (d2.address (d2.slot 0))
    rw [written, done_congr (extended_afterPasses d2 pkt passes), done_completes] at early
    have was := early (.inr extended)
    have clear := free.2 extended
    rw [done, if_pos extended] at was
    exact Bool.eq_false_iff.mp clear was
  · intro cause
    constructor
    · intro other
      by_cases visited : ∃ position < passes, other = d2.address (d2.slot position)
      · obtain ⟨position, below, rfl⟩ := visited
        have written := desc_afterPasses pkt reached below available
        rw [desc, address_afterPasses] at written
        rw [written, done_congr (extended_afterPasses d2 pkt passes), done_completes]
        have more := (lt_needed d2 pkt (position + 1)).mp (by omega)
        rw [Nat.add_mul, Nat.one_mul] at more
        rintro (last | extended)
        · omega
        · rcases cause with stuck | legacy
          · exact absurd (available 0 (by omega)) stuck
          · rw [extended] at legacy
            cases legacy
      · rw [ring_afterPasses (by simpa only [not_exists, not_and] using visited),
          done_congr (extended_afterPasses d2 pkt passes)]
        exact id
    · obtain ⟨buffers, ring, registers⟩ := d2.afterPasses_registers pkt passes
      rw [registers]

theorem delivers_of_fits (fits : d2.total pkt ≤ d2.bufsize) : d2.Delivers pkt := by
  refine ⟨fun available => filled_of_fits size small reached available fits, fun unavailable => ?_⟩
  rw [withheld_iff size small reached unavailable]
  refine .inl fun free => unavailable fun position before => ?_
  have second := lt_needed d2 pkt 1
  have first : position = 0 := by omega
  rw [first]
  exact free

end

/-- Delivery is as it should be exactly if the packet fits one buffer, or nothing is free, or the
legacy ring has too few buffers. -/
theorem sendvirt_delivers_iff (size : d2.bufsize ≠ 32768) (small : pkt.length ≤ sendvirtMaxsize)
    (reached : d2.rdesc.TailReached) :
    d2.Delivers pkt ↔ d2.total pkt ≤ d2.bufsize ∨ ¬ d2.Free 0 ∨
      d2.extended = false ∧ ¬ d2.Available (d2.needed pkt) := by
  by_cases fits : d2.total pkt ≤ d2.bufsize
  · exact iff_of_true (delivers_of_fits size small reached fits) (.inl fits)
  · have packet : d2.total pkt ≠ 0 := by omega
    constructor
    · rintro ⟨filled, withheld⟩
      have unavailable : ¬ d2.Available (d2.needed pkt) := fun available =>
        not_filled size small reached available (by omega) (filled available)
      rcases (withheld_iff size small reached unavailable).mp (withheld unavailable) with
        stuck | legacy
      · exact .inr (.inl stuck)
      · exact .inr (.inr ⟨legacy, unavailable⟩)
    · intro cause
      have unavailable : ¬ d2.Available (d2.needed pkt) := by
        rcases cause with short | stuck | ⟨-, unavailable⟩
        · exact absurd short fits
        · exact fun available => stuck (available 0 (needed_pos packet))
        · exact unavailable
      refine ⟨fun available => absurd available unavailable, fun _ => ?_⟩
      rw [withheld_iff size small reached unavailable]
      tauto

def smallBuffers : Receiver where
  rctl := 0x30000
  rfctl := 0
  rdesc :=
    { DescShadow.initial with
      len := 0x80
      lenBound := by decide
      tail := 7
      tailBound := by decide }
  ring := fun other => { low := 0x10000 + 16 * other, high := 0 }
  buffers := fun _ => 0
  interrupt := false

theorem sendvirt_delivers_short : smallBuffers.Delivers [1, 2, 3] :=
  (sendvirt_delivers_iff (by decide) (by decide) (.inr (by decide))).mpr (.inl (by decide))

theorem sendvirt_delivers_not_long :
    ¬ ∀ (d2 : Receiver) (pkt : List UInt8), d2.bufsize ≠ 32768 → pkt.length ≤ sendvirtMaxsize →
      16 * d2.rdesc.head < d2.rdesc.len → 16 * d2.rdesc.tail < d2.rdesc.len → d2.Delivers pkt := by
  intro delivers
  have size : smallBuffers.bufsize ≠ 32768 := by decide
  have small : (List.replicate 300 (7 : UInt8)).length ≤ sendvirtMaxsize := by
    rw [length_replicate]
    decide
  have whole : smallBuffers.total (List.replicate 300 7) = 304 := by
    rw [total, length_replicate]
    rfl
  have two : smallBuffers.needed (List.replicate 300 7) = 2 := by
    rw [needed, whole]
    rfl
  have available : smallBuffers.Available (smallBuffers.needed (List.replicate 300 7)) := by
    rw [two]
    rintro (_ | _ | position) before
    · exact ⟨by decide, fun extended => absurd extended (by decide)⟩
    · exact ⟨by decide, fun extended => absurd extended (by decide)⟩
    · omega
  have long : smallBuffers.bufsize < smallBuffers.total (List.replicate 300 7) := by
    rw [whole]
    decide
  exact not_filled size small (.inr (by decide)) available long
    ((delivers smallBuffers _ size small (by decide) (by decide)).1 available)

theorem fillLoop_registers (d2 : Receiver) (i : RingIndex) (pkt : List UInt8) (pktlen : Nat) :
    ∃ buffers ring, (d2.fillLoop i pkt pktlen).1 = { d2 with buffers := buffers, ring := ring } := by
  fun_induction fillLoop d2 i pkt pktlen with
  | case1 => exact ⟨_, _, rfl⟩
  | case2 => exact ⟨_, _, rfl⟩
  | case3 => exact ⟨_, _, rfl⟩
  | case4 d2 i pkt pktlen left apart clear ih =>
    obtain ⟨buffers, ring, same⟩ := ih
    exact ⟨buffers, ring, same⟩

theorem sendvirt_registers (d2 : Receiver) (pkt : List UInt8) :
    (d2.sendvirt pkt).bufsize = d2.bufsize ∧ (d2.sendvirt pkt).asize = d2.asize ∧
      ((d2.sendvirt pkt).rdesc.TailReached ↔ d2.rdesc.TailReached) := by
  obtain ⟨buffers, ring, same⟩ := d2.fillLoop_registers ⟨d2.rdesc.head, d2.rdesc.headBound⟩ pkt (pkt.length + d2.asize)
  rw [sendvirt]
  split_ifs
  · exact ⟨rfl, rfl, Iff.rfl⟩
  · exact ⟨rfl, rfl, Iff.rfl⟩
  · generalize d2.fillLoop _ pkt _ = result at same
    obtain ⟨after, index⟩ := result
    cases same
    cases index with
    | none => exact ⟨rfl, rfl, Iff.rfl⟩
    | some i => exact ⟨rfl, rfl, Iff.rfl⟩

theorem sendVirtnic_registers (d2 : Receiver) (packets : List (List UInt8)) :
    (d2.sendVirtnic packets).bufsize = d2.bufsize ∧ (d2.sendVirtnic packets).asize = d2.asize ∧
      ((d2.sendVirtnic packets).rdesc.TailReached ↔ d2.rdesc.TailReached) := by
  induction packets generalizing d2 with
  | nil => exact ⟨rfl, rfl, Iff.rfl⟩
  | cons pkt packets ih =>
    obtain ⟨bufsize, asize, reached⟩ := ih (d2.sendvirt pkt)
    obtain ⟨first, second, third⟩ := d2.sendvirt_registers pkt
    exact ⟨bufsize.trans first, asize.trans second, reached.trans third⟩

theorem sendVirtnic_delivers (size : d2.bufsize ≠ 32768) (small : pkt.length ≤ sendvirtMaxsize)
    (reached : d2.rdesc.TailReached) (fits : d2.total pkt ≤ d2.bufsize)
    (packets : List (List UInt8)) : (d2.sendVirtnic packets).Delivers pkt := by
  obtain ⟨bufsize, asize, same⟩ := d2.sendVirtnic_registers packets
  apply delivers_of_fits
  · rwa [bufsize]
  · exact small
  · rwa [same]
  · rwa [total, bufsize, asize]

theorem sendVirtnic_delivers_third : (smallBuffers.sendVirtnic [[1], [2]]).Delivers [1, 2, 3] :=
  sendVirtnic_delivers (by decide) (by decide) (.inr (by decide)) (by decide) [[1], [2]]

end Receiver

end DisasVisor.Pro1000
