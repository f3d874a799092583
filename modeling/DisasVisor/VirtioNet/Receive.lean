import DisasVisor.Lib.Segments

/-!
`virtio_net_recv` of `drivers/net/virtio_net.c`: it gathers the chains of
descriptors that the guest has made available in a packet buffer on the stack
and passes them to `recv_func`.
-/

namespace DisasVisor.VirtioNet

open List

def bufSize : Nat := 2048

/-- A descriptor; the lower half of `flagsNext` is the flags, the upper half the next index. -/
structure Desc where
  addr : UInt64
  len : UInt32
  flagsNext : UInt32

/-- `struct virtio_ring`. Its three tables have 256 entries. -/
structure VirtioRing where
  desc : UInt8 → Desc
  availFlags : UInt16
  availIdx : UInt16
  availRing : UInt8 → UInt16
  usedIdx : UInt16
  usedRing : UInt8 → UInt16 × Nat

/-- A copy into the packet buffer, or a call of `recv_func` together with the lengths of the
descriptors that its packet was gathered from. -/
inductive Event where
  | copy (start count : Nat)
  | receive (lengths : List Nat) (packetSize : Nat)
  deriving DecidableEq

def descIndex (ringTmp : Nat) : UInt8 := UInt8.ofNat (ringTmp >>> 16)

/-- The inner loop. `none` is a loop that has not come to its end after that many descriptors. -/
def gather (desc : UInt8 → Desc) :
    Nat → Nat → Nat → List Nat → List Event → Option (Nat × List Nat × List Event)
  | 0, ringTmp, len, lengths, log => if ringTmp &&& 1 = 0 then some (len, lengths, log) else none
  | fuel + 1, ringTmp, len, lengths, log =>
    if ringTmp &&& 1 = 0 then some (len, lengths, log)
    else
      let descLen := (desc (descIndex ringTmp)).len.toNat
      gather desc fuel (desc (descIndex ringTmp)).flagsNext.toNat ((len + descLen) % 2 ^ 32)
        (lengths ++ [descLen]) (log ++ [.copy len descLen])

def recvLoop (idxA : UInt16) : Nat → VirtioRing → List Event → Option (VirtioRing × List Event)
  | 0, p, log => if idxA = p.usedIdx then some (p, log) else none
  | fuel + 1, p, log =>
    if idxA = p.usedIdx then some (p, log)
    else do
      let idxU := p.usedIdx.toUInt8
      let ring := p.availRing idxU
      let (len, lengths, log) ← gather p.desc fuel (ring.toNat <<< 16 ||| 1) 0 [] log
      recvLoop idxA fuel
        { p with
          usedRing := fun other => if other = idxU then (ring, len) else p.usedRing other
          usedIdx := p.usedIdx + 1 }
        (log ++ [.receive lengths ((len + 2 ^ 32 - 10) % 2 ^ 32)])

def virtioNetRecv (fuel : Nat) (p : VirtioRing) : Option (VirtioRing × Bool × List Event) := do
  let (used, log) ← recvLoop p.availIdx fuel p []
  pure (used, p.availIdx ≠ p.usedIdx ∧ used.availFlags &&& 1 = 0, log)

def Event.Safe : Event → Prop
  | .copy start count => start + count ≤ bufSize
  | .receive lengths packetSize => packetSize + 10 = lengths.sum

theorem safe_copy (start count : Nat) : (Event.copy start count).Safe ↔ start + count ≤ bufSize := Iff.rfl

theorem safe_receive (lengths : List Nat) (packetSize : Nat) :
    (Event.receive lengths packetSize).Safe ↔ packetSize + 10 = lengths.sum :=
  Iff.rfl

def nextDesc (desc : UInt8 → Desc) (index : UInt8) : Option UInt8 :=
  if (desc index).flagsNext.toNat &&& 1 = 0 then none
  else some (descIndex (desc index).flagsNext.toNat)

def descLen (desc : UInt8 → Desc) (index : UInt8) : Nat := (desc index).len.toNat

theorem descIndex_head (ring : UInt16) : descIndex (ring.toNat <<< 16 ||| 1) = ring.toUInt8 := by
  have shifted : (ring.toNat <<< 16 ||| 1) >>> 16 = ring.toNat := by
    rw [Nat.shiftRight_or_distrib, Nat.shiftLeft_shiftRight]
    exact Nat.or_zero _
  rw [descIndex, shifted]
  rfl

theorem head_flagged (ring : UInt16) : (ring.toNat <<< 16 ||| 1) &&& 1 ≠ 0 := by
  rw [Nat.and_or_distrib_right, Nat.and_self]
  exact Nat.ne_of_gt Nat.right_le_or

theorem nextDesc_none {desc : UInt8 → Desc} {index : UInt8} (ends : nextDesc desc index = none) :
    (desc index).flagsNext.toNat &&& 1 = 0 := by
  by_contra goes
  rw [nextDesc, if_neg goes] at ends
  cases ends

theorem nextDesc_some {desc : UInt8 → Desc} {index successor : UInt8} (follows : nextDesc desc index = some successor) :
    (desc index).flagsNext.toNat &&& 1 ≠ 0 ∧ descIndex (desc index).flagsNext.toNat = successor := by
  unfold nextDesc at follows
  split at follows
  · cases follows
  · exact ⟨‹_›, Option.some.inj follows⟩

theorem gather_stop {desc : UInt8 → Desc} {ringTmp : Nat} (stops : ringTmp &&& 1 = 0)
    (fuel len : Nat) (lengths : List Nat) (log : List Event) :
    gather desc fuel ringTmp len lengths log = some (len, lengths, log) := by
  cases fuel <;> rw [gather, if_pos stops]

theorem gather_step {desc : UInt8 → Desc} {ringTmp : Nat} (flagged : ringTmp &&& 1 ≠ 0)
    (fuel len : Nat) (lengths : List Nat) (log : List Event) :
    gather desc (fuel + 1) ringTmp len lengths log =
      gather desc fuel (desc (descIndex ringTmp)).flagsNext.toNat
        ((len + descLen desc (descIndex ringTmp)) % 2 ^ 32)
        (lengths ++ [descLen desc (descIndex ringTmp)])
        (log ++ [.copy len (descLen desc (descIndex ringTmp))]) := by
  rw [gather, if_neg flagged]
  rfl

variable {indices : List UInt8} {idxA : UInt16} {p : VirtioRing}

theorem gather_chain {desc : UInt8 → Desc} {index : UInt8} (chain : Chain (nextDesc desc) index indices) :
    ∀ ringTmp, ringTmp &&& 1 ≠ 0 → descIndex ringTmp = index →
      ∀ fuel, indices.length ≤ fuel → ∀ len lengths log, ∃ total events,
        gather desc fuel ringTmp len lengths log =
          some (total, lengths ++ indices.map (descLen desc), log ++ events) ∧
        (len ≤ bufSize →
          ((∀ event ∈ events, event.Safe) ↔ len + (indices.map (descLen desc)).sum ≤ bufSize) ∧
          (len + (indices.map (descLen desc)).sum ≤ bufSize → total = len + (indices.map (descLen desc)).sum)) := by
  induction chain with
  | @last index ends =>
    intro ringTmp flagged same fuel enough len lengths log
    obtain ⟨fuel, rfl⟩ : ∃ more, fuel = more + 1 := ⟨fuel - 1, by simp only [length_singleton] at enough; omega⟩
    have stops := nextDesc_none ends
    refine ⟨(len + descLen desc index) % 2 ^ 32, [.copy len (descLen desc index)], ?_, ?_⟩
    · rw [gather_step flagged, same, gather_stop stops]
      rfl
    · intro bound
      simp only [map_cons, map_nil, sum_cons, sum_nil, Nat.add_zero, forall_mem_singleton, safe_copy, true_and]
      intro fits
      apply Nat.mod_eq_of_lt
      simp only [bufSize] at fits
      omega
  | @link index successor rest follows chain ih =>
    intro ringTmp flagged same fuel enough len lengths log
    obtain ⟨fuel, rfl⟩ : ∃ more, fuel = more + 1 := ⟨fuel - 1, by simp only [length_cons] at enough; omega⟩
    obtain ⟨goes, successorIs⟩ := nextDesc_some follows
    obtain ⟨total, events, gathered, safe⟩ := ih _ goes successorIs fuel
      (by simp only [length_cons] at enough; omega) ((len + descLen desc index) % 2 ^ 32)
      (lengths ++ [descLen desc index]) (log ++ [.copy len (descLen desc index)])
    refine ⟨total, .copy len (descLen desc index) :: events, ?_, ?_⟩
    · rw [gather_step flagged, same, gathered, map_cons, append_assoc,
        append_assoc]
      rfl
    · intro bound
      rw [map_cons, sum_cons, forall_mem_cons, safe_copy]
      by_cases inside : len + descLen desc index ≤ bufSize
      · have small : (len + descLen desc index) % 2 ^ 32 = len + descLen desc index := by
          simp only [bufSize] at inside
          omega
        rw [small] at safe
        obtain ⟨copies, whole⟩ := safe inside
        rw [copies]
        constructor
        · omega
        · intro fits
          rw [whole (by omega)]
          omega
      · constructor
        · omega
        · omega

theorem chain_of_gather {desc : UInt8 → Desc} (fuel : Nat) :
    ∀ ringTmp len lengths log result, ringTmp &&& 1 ≠ 0 →
      gather desc fuel ringTmp len lengths log = some result →
        ∃ indices, Chain (nextDesc desc) (descIndex ringTmp) indices ∧ indices.length ≤ fuel := by
  induction fuel with
  | zero =>
    intro ringTmp len lengths log result flagged gathered
    rw [gather, if_neg flagged] at gathered
    cases gathered
  | succ fuel ih =>
    intro ringTmp len lengths log result flagged gathered
    rw [gather_step flagged] at gathered
    by_cases goes : (desc (descIndex ringTmp)).flagsNext.toNat &&& 1 = 0
    · refine ⟨[descIndex ringTmp], Chain.last (by rw [nextDesc, if_pos goes]), ?_⟩
      simp only [length_singleton]
      omega
    · obtain ⟨indices, chain, short⟩ := ih _ _ _ _ _ goes gathered
      refine ⟨descIndex ringTmp :: indices, Chain.link (by rw [nextDesc, if_neg goes]) chain, ?_⟩
      simp only [length_cons]
      omega

def VirtioRing.pending (p : VirtioRing) : Nat := (p.availIdx - p.usedIdx).toNat

def VirtioRing.entry (p : VirtioRing) (position : Nat) : UInt8 :=
  (p.availRing (p.usedIdx + UInt16.ofNat position).toUInt8).toUInt8

def Deliverable (desc : UInt8 → Desc) (index : UInt8) : Prop :=
  ∃ indices, Chain (nextDesc desc) index indices ∧
    10 ≤ (indices.map (descLen desc)).sum ∧ (indices.map (descLen desc)).sum ≤ bufSize

theorem pending_succ {idxU : UInt16} (waiting : idxA ≠ idxU) : (idxA - idxU).toNat = (idxA - (idxU + 1)).toNat + 1 := by
  have different : idxA.toNat ≠ idxU.toNat := fun same => waiting (UInt16.toNat_inj.mp same)
  have boundA := idxA.toNat_lt
  have boundU := idxU.toNat_lt
  rw [UInt16.toNat_sub, UInt16.toNat_sub, UInt16.toNat_add]
  have one := UInt16.toNat_one
  rw [one]
  omega

theorem pending_zero {idxU : UInt16} : (idxA - idxU).toNat = 0 ↔ idxA = idxU := by
  have boundA := idxA.toNat_lt
  have boundU := idxU.toNat_lt
  rw [UInt16.toNat_sub, ← UInt16.toNat_inj]
  omega

def VirtioRing.use (p : VirtioRing) (len : Nat) : VirtioRing :=
  { p with
    usedRing := fun other =>
      if other = p.usedIdx.toUInt8 then (p.availRing p.usedIdx.toUInt8, len) else p.usedRing other
    usedIdx := p.usedIdx + 1 }

theorem recvLoop_step (waiting : idxA ≠ p.usedIdx) (fuel : Nat) (log : List Event) :
    recvLoop idxA (fuel + 1) p log =
      (gather p.desc fuel ((p.availRing p.usedIdx.toUInt8).toNat <<< 16 ||| 1) 0 [] log).bind
        fun result => recvLoop idxA fuel (p.use result.1)
          (result.2.2 ++ [.receive result.2.1 ((result.1 + 2 ^ 32 - 10) % 2 ^ 32)]) := by
  rw [recvLoop, if_neg waiting]
  rfl

theorem entry_zero (p : VirtioRing) : p.entry 0 = (p.availRing p.usedIdx.toUInt8).toUInt8 := by
  simp [VirtioRing.entry]

theorem entry_use (p : VirtioRing) (len position : Nat) : (p.use len).entry position = p.entry (position + 1) := by
  have shifted : p.usedIdx + 1 + UInt16.ofNat position = p.usedIdx + UInt16.ofNat (position + 1) := by
    rw [UInt16.ofNat_add, UInt16.add_assoc, UInt16.add_comm 1]
    rfl
  simp only [VirtioRing.entry, VirtioRing.use, shifted]

theorem recvLoop_chain (waiting : idxA ≠ p.usedIdx) (chain : Chain (nextDesc p.desc) (p.entry 0) indices) (fuel : Nat)
    (enough : indices.length ≤ fuel) (log : List Event) :
    ∃ total copies, recvLoop idxA (fuel + 1) p log =
        recvLoop idxA fuel (p.use total) (log ++ (copies ++
          [.receive (indices.map (descLen p.desc)) ((total + 2 ^ 32 - 10) % 2 ^ 32)])) ∧
      ((∀ event ∈ copies, event.Safe) ↔ (indices.map (descLen p.desc)).sum ≤ bufSize) ∧
      ((indices.map (descLen p.desc)).sum ≤ bufSize → total = (indices.map (descLen p.desc)).sum) := by
  have head : descIndex ((p.availRing p.usedIdx.toUInt8).toNat <<< 16 ||| 1) = p.entry 0 := by
    rw [descIndex_head, entry_zero]
  obtain ⟨total, copies, gathered, safe⟩ := gather_chain chain _ (head_flagged _) head fuel enough 0 [] log
  obtain ⟨fits, whole⟩ := safe (Nat.zero_le _)
  rw [Nat.zero_add] at fits whole
  refine ⟨total, copies, ?_, fits, whole⟩
  rw [recvLoop_step waiting, gathered, Option.bind_some, nil_append, append_assoc]

theorem deliverable_iff {desc : UInt8 → Desc} {index : UInt8} {total : Nat} {copies : List Event}
    (chain : Chain (nextDesc desc) index indices)
    (fits : (∀ event ∈ copies, event.Safe) ↔ (indices.map (descLen desc)).sum ≤ bufSize)
    (whole : (indices.map (descLen desc)).sum ≤ bufSize → total = (indices.map (descLen desc)).sum) :
    (∀ event ∈ copies ++ [.receive (indices.map (descLen desc)) ((total + 2 ^ 32 - 10) % 2 ^ 32)],
      event.Safe) ↔ Deliverable desc index := by
  rw [forall_mem_append, forall_mem_singleton, safe_receive, fits]
  constructor
  · rintro ⟨inside, size⟩
    have same := whole inside
    simp only [bufSize] at inside
    exact ⟨indices, chain, by omega, inside⟩
  · rintro ⟨others, otherChain, long, inside⟩
    rw [← chain.unique otherChain] at long inside
    have same := whole inside
    simp only [bufSize] at inside ⊢
    omega

theorem recvLoop_log (fuel : Nat) :
    ∀ p log used after, recvLoop idxA fuel p log = some (used, after) → ∃ events, after = log ++ events := by
  induction fuel with
  | zero =>
    intro p log used after finished
    by_cases done : idxA = p.usedIdx
    · rw [recvLoop, if_pos done] at finished
      cases finished
      exact ⟨[], (append_nil _).symm⟩
    · rw [recvLoop, if_neg done] at finished
      cases finished
  | succ fuel ih =>
    intro p log used after finished
    by_cases done : idxA = p.usedIdx
    · rw [recvLoop, if_pos done] at finished
      cases finished
      exact ⟨[], (append_nil _).symm⟩
    · have gathered := finished
      rw [recvLoop_step done, Option.bind_eq_some_iff] at gathered
      obtain ⟨result, first, -⟩ := gathered
      obtain ⟨indices, chain, short⟩ := chain_of_gather fuel _ _ _ _ _ (head_flagged _) first
      rw [descIndex_head, ← entry_zero] at chain
      obtain ⟨total, copies, step, -⟩ := recvLoop_chain done chain fuel short log
      rw [step] at finished
      obtain ⟨events, rfl⟩ := ih _ _ _ _ finished
      exact ⟨_, append_assoc _ _ _⟩

theorem deliverable_of_recvLoop (waiting : Nat) :
    ∀ fuel (p : VirtioRing) log used events, (idxA - p.usedIdx).toNat = waiting →
      recvLoop idxA fuel p log = some (used, log ++ events) → (∀ event ∈ events, event.Safe) →
        ∀ position < waiting, Deliverable p.desc (p.entry position) := by
  induction waiting with
  | zero =>
    intro fuel p log used events _ _ _ position inside
    exact absurd inside (Nat.not_lt_zero _)
  | succ waiting ih =>
    intro fuel p log used events count finished safe position inside
    have waits : idxA ≠ p.usedIdx := by
      intro done
      rw [done, UInt16.sub_self] at count
      cases count
    cases fuel with
    | zero =>
      rw [recvLoop, if_neg waits] at finished
      cases finished
    | succ fuel =>
      have gathered := finished
      rw [recvLoop_step waits, Option.bind_eq_some_iff] at gathered
      obtain ⟨result, first, -⟩ := gathered
      obtain ⟨indices, chain, short⟩ := chain_of_gather fuel _ _ _ _ _ (head_flagged _) first
      rw [descIndex_head, ← entry_zero] at chain
      obtain ⟨total, copies, step, fits, whole⟩ := recvLoop_chain waits chain fuel short log
      rw [step] at finished
      obtain ⟨later, split⟩ := recvLoop_log fuel _ _ _ _ finished
      rw [append_assoc, append_cancel_left_eq] at split
      rw [split] at safe finished
      rw [forall_mem_append] at safe
      have continued := finished.trans (congrArg (fun events => some (used, events)) (append_assoc _ _ _).symm)
      cases position with
      | zero => exact (deliverable_iff chain fits whole).mp safe.1
      | succ position =>
        rw [pending_succ waits, Nat.add_right_cancel_iff] at count
        have tail := ih fuel (p.use total) _ used later count continued safe.2 position
          (Nat.lt_of_succ_lt_succ inside)
        rwa [entry_use] at tail

theorem recvLoop_deliverable (waiting : Nat) :
    ∀ p : VirtioRing, (idxA - p.usedIdx).toNat = waiting →
      (∀ position < waiting, Deliverable p.desc (p.entry position)) →
        ∃ bound, ∀ fuel, bound ≤ fuel → ∀ log, ∃ used events,
          recvLoop idxA fuel p log = some (used, log ++ events) ∧ ∀ event ∈ events, event.Safe := by
  induction waiting with
  | zero =>
    intro p none _
    refine ⟨0, fun fuel _ log => ⟨p, [], ?_, by simp⟩⟩
    have done := pending_zero.mp none
    cases fuel <;> rw [recvLoop, if_pos done, append_nil]
  | succ waiting ih =>
    intro p count deliverable
    have waits : idxA ≠ p.usedIdx := by
      intro done
      rw [done, UInt16.sub_self] at count
      cases count
    obtain ⟨indices, chain, long, inside⟩ := deliverable 0 (Nat.succ_pos _)
    rw [pending_succ waits, Nat.add_right_cancel_iff] at count
    obtain ⟨bound, finishes⟩ := ih (p.use (indices.map (descLen p.desc)).sum) count (by
      intro position before
      rw [entry_use]
      exact deliverable (position + 1) (Nat.succ_lt_succ before))
    refine ⟨max indices.length bound + 1, fun fuel enough log => ?_⟩
    obtain ⟨fuel, rfl⟩ : ∃ more, fuel = more + 1 := ⟨fuel - 1, by omega⟩
    obtain ⟨total, copies, step, fits, whole⟩ := recvLoop_chain waits chain fuel (by omega) log
    have delivered := (deliverable_iff chain fits whole).mpr ⟨indices, chain, long, inside⟩
    rw [whole inside] at step delivered
    obtain ⟨used, events, finished, safe⟩ := finishes fuel (by omega) (log ++ _)
    refine ⟨used, _ ++ events, ?_, forall_mem_append.mpr ⟨delivered, safe⟩⟩
    rw [step, finished, append_assoc]

theorem deliverable_of_virtioNetRecv {fuel : Nat} {used : VirtioRing} {interrupt : Bool} {events : List Event}
    (finished : virtioNetRecv fuel p = some (used, interrupt, events)) (safe : ∀ event ∈ events, event.Safe) :
    ∀ position < p.pending, Deliverable p.desc (p.entry position) := by
  rw [virtioNetRecv, Option.bind_eq_bind, Option.bind_eq_some_iff] at finished
  obtain ⟨⟨after, log⟩, looped, same⟩ := finished
  cases same
  exact deliverable_of_recvLoop _ fuel p [] _ _ rfl looped safe

/-- The loop ends, its copies stay in the buffer and its packets have the right size exactly if
all the chains that wait are finite, with a length from 10 to the size of the buffer. -/
theorem virtioNetRecv_safe_iff (p : VirtioRing) :
    (∃ fuel used interrupt events, virtioNetRecv fuel p = some (used, interrupt, events) ∧
      ∀ event ∈ events, event.Safe) ↔
      ∀ position < p.pending, Deliverable p.desc (p.entry position) := by
  constructor
  · rintro ⟨fuel, used, interrupt, events, finished, safe⟩
    exact deliverable_of_virtioNetRecv finished safe
  · intro deliverable
    obtain ⟨bound, finishes⟩ := recvLoop_deliverable _ p rfl deliverable
    obtain ⟨used, events, finished, safe⟩ := finishes bound (Nat.le_refl _) []
    refine ⟨bound, used, decide (p.availIdx ≠ p.usedIdx ∧ used.availFlags &&& 1 = 0), events, ?_, safe⟩
    rw [virtioNetRecv, finished]
    rfl

def cyclicRing : VirtioRing where
  desc := fun _ => { addr := 0, len := 0, flagsNext := 1 }
  availFlags := 0
  availIdx := 1
  availRing := fun _ => 0
  usedIdx := 0
  usedRing := fun _ => (0, 0)

theorem virtioNetRecv_cyclicRing :
    ¬ ∃ fuel used interrupt events,
      virtioNetRecv fuel cyclicRing = some (used, interrupt, events) ∧
        ∀ event ∈ events, event.Safe := by
  rintro ⟨fuel, used, interrupt, events, finished, safe⟩
  obtain ⟨indices, chain, -⟩ := deliverable_of_virtioNetRecv finished safe 0 (by decide)
  have loops : nextDesc cyclicRing.desc (cyclicRing.entry 0) = some (cyclicRing.entry 0) := by decide
  exact Chain.not_of_self loops ⟨indices, chain⟩

end DisasVisor.VirtioNet
