import DisasVisor.Lib.Rings
import DisasVisor.Lib.Indices

/-!
The ring of receive descriptors of the physical NIC: `receive_physnic` passes what is between the tail and the head
to a callback, in batches.
-/

namespace DisasVisor.Pro1000

open Function List

def numOfRdesc : Nat := 256

instance : NeZero numOfRdesc := ⟨by decide⟩

def batchSize : Nat := 16

structure RxDesc where
  len : UInt16
  statusEop : Bool
  errCe : Bool
  errSe : Bool
  errSeq : Bool
  errRcv : Fin 4
  errTcpe : Bool
  errIpe : Bool
  errRxe : Bool

/-- The state that `receive_physnic` reads. `β` is a buffer. -/
structure RxRing (β : Type) where
  rd : Nat → RxDesc
  rbuf : Nat → β
  rbufPremap : Nat → Int
  secrc : Bool
  recvphysFunc : Bool

structure RxPacket (β : Type) where
  pkt : β
  pktsize : UInt32
  premap : Int
  deriving DecidableEq

structure Drain (β : Type) where
  t : Nat
  i : Nat
  pkt : Nat → β
  pktsize : Nat → UInt32
  pktPremap : Nat → Int
  calls : List (List (RxPacket β))

variable {β : Type}

structure Drained (β : Type) where
  calls : List (List (RxPacket β))
  tail : Nat

namespace Drain

def batch (drain : Drain β) : List (RxPacket β) :=
  (List.range drain.i).map fun k => ⟨drain.pkt k, drain.pktsize k, drain.pktPremap k⟩

def flush (drain : Drain β) (ring : RxRing β) : Drain β :=
  if ring.recvphysFunc then { drain with calls := drain.calls ++ [drain.batch] } else drain

def nextSlot (t : Nat) : Nat := if t + 1 ≥ numOfRdesc then 0 else t + 1

def size (ring : RxRing β) (t : Nat) : UInt32 :=
  if ring.secrc then (ring.rd t).len.toUInt32 else (ring.rd t).len.toUInt32 - 4

def take (drain : Drain β) (ring : RxRing β) (t : Nat) : Drain β :=
  let drain := { drain with
    t := t
    pkt := update drain.pkt drain.i (ring.rbuf t)
    pktsize := update drain.pktsize drain.i (size ring t)
    pktPremap := update drain.pktPremap drain.i (ring.rbufPremap t) }
  if ¬ (ring.rd t).statusEop then drain
  else if (ring.rd t).errCe then drain
  else if (ring.rd t).errSe then drain
  else if (ring.rd t).errRxe then drain
  else { drain with i := drain.i + 1 }

/-- The loop of `receive_physnic`; `none` is a loop that has not come to its end after so many rounds. -/
def run (ring : RxRing β) (h : Nat) : Nat → Drain β → Option (Drained β)
  | 0, _ => none
  | fuel + 1, drain =>
    let nt := nextSlot drain.t
    let drain := if h = nt ∨ drain.i = batchSize then drain.flush ring else drain
    if h = nt then some ⟨drain.calls, drain.t⟩
    else
      let drain := if drain.i = batchSize then { drain with i := 0 } else drain
      run ring h fuel (drain.take ring nt)

end Drain

/-- `receive_physnic` with the registers head and tail; `none` is an `ASSERT`. The arrays are those of `start`. -/
def receivePhysnic (ring : RxRing β) (start : Drain β) (h t : Nat) : Option (Drained β) :=
  if h < numOfRdesc ∧ t < numOfRdesc then Drain.run ring h numOfRdesc { start with t := t, i := 0, calls := [] }
  else none

def slotsBetween (h t : Nat) : List Nat :=
  Rings.window (fun slot : Fin numOfRdesc => slot.val) (t + 1) ((h + numOfRdesc - 1 - t) % numOfRdesc)

def RxDesc.Good (rd : RxDesc) : Prop := rd.statusEop = true ∧ rd.errCe = false ∧ rd.errSe = false ∧ rd.errRxe = false

instance (rd : RxDesc) : Decidable rd.Good := inferInstanceAs (Decidable (_ ∧ _ ∧ _ ∧ _))

def RxRing.packet (ring : RxRing β) (slot : Nat) : RxPacket β :=
  ⟨ring.rbuf slot, Drain.size ring slot, ring.rbufPremap slot⟩

def RxRing.due (ring : RxRing β) (h t : Nat) : List (RxPacket β) :=
  ((slotsBetween h t).filter fun slot => (ring.rd slot).Good).map ring.packet

structure Drained.Right (ring : RxRing β) (good : RxDesc → Bool) (h t : Nat) (out : Drained β) : Prop where
  passed : out.calls.flatten =
    if ring.recvphysFunc then ((slotsBetween h t).filter fun slot => good (ring.rd slot)).map ring.packet else []
  batches : ∀ call ∈ out.calls, call.length ≤ batchSize
  tail : out.tail = (h + numOfRdesc - 1) % numOfRdesc

variable {ring : RxRing β} {h t : Nat}

theorem nextSlot_eq (tail : t < numOfRdesc) : Drain.nextSlot t = (t + 1) % numOfRdesc := by
  unfold Drain.nextSlot
  split
  · rename_i wraps
    have whole : t + 1 = numOfRdesc := Nat.le_antisymm tail wraps
    rw [whole, Nat.mod_self]
  · rename_i inside
    rw [Nat.mod_eq_of_lt (Nat.lt_of_not_le inside)]

theorem nextSlot_lt (tail : t < numOfRdesc) : Drain.nextSlot t < numOfRdesc := by
  rw [nextSlot_eq tail]
  exact Nat.mod_lt _ (by decide)

theorem slotsBetween_nil (tail : t < numOfRdesc) (last : h = Drain.nextSlot t) : slotsBetween h t = [] := by
  have none : (h + numOfRdesc - 1 - t) % numOfRdesc = 0 := by
    rw [nextSlot_eq tail] at last
    simp only [numOfRdesc] at *
    omega
  rw [slotsBetween, none]
  rfl

theorem slotsBetween_cons (head : h < numOfRdesc) (tail : t < numOfRdesc) (more : h ≠ Drain.nextSlot t) :
    slotsBetween h t = Drain.nextSlot t :: slotsBetween h (Drain.nextSlot t) := by
  obtain ⟨left, moved⟩ : (h + numOfRdesc - 1 - t) % numOfRdesc =
        (h + numOfRdesc - 1 - Drain.nextSlot t) % numOfRdesc + 1 ∧
      (t + 1 + 1) % numOfRdesc = (Drain.nextSlot t + 1) % numOfRdesc := by
    rw [nextSlot_eq tail] at more ⊢
    simp only [numOfRdesc] at *
    omega
  rw [slotsBetween, left, Rings.window_cons, Rings.window_congr _ _ _ moved, nextSlot_eq tail]
  rfl

namespace Drain

variable {drain : Drain β}

theorem length_batch : drain.batch.length = drain.i := by
  simp [batch]

theorem batch_update (slot : Nat) (place : Nat) (count : Nat) (behind : count ≤ place) :
    ((List.range count).map fun k => (⟨update drain.pkt place (ring.rbuf slot) k,
      update drain.pktsize place (size ring slot) k,
      update drain.pktPremap place (ring.rbufPremap slot) k⟩ : RxPacket β)) =
    (List.range count).map fun k => ⟨drain.pkt k, drain.pktsize k, drain.pktPremap k⟩ := by
  apply map_congr_left
  intro k member
  have other : k ≠ place := by
    have below := mem_range.mp member
    omega
  rw [update_of_ne other, update_of_ne other, update_of_ne other]

theorem take_spec (drain : Drain β) (ring : RxRing β) (t : Nat) :
    (drain.take ring t).t = t ∧ (drain.take ring t).calls = drain.calls ∧
      (drain.take ring t).batch = drain.batch ++ (if (ring.rd t).Good then [ring.packet t] else []) := by
  have kept := @batch_update β ring drain t drain.i drain.i (Nat.le_refl _)
  unfold take
  dsimp only
  split
  · rename_i bad
    rw [if_neg fun good : (ring.rd t).Good => bad good.1, append_nil]
    exact ⟨rfl, rfl, kept⟩
  · split
    · rename_i bad
      rw [if_neg fun good : (ring.rd t).Good => Bool.false_ne_true (good.2.1.symm.trans bad), append_nil]
      exact ⟨rfl, rfl, kept⟩
    · split
      · rename_i bad
        rw [if_neg fun good : (ring.rd t).Good => Bool.false_ne_true (good.2.2.1.symm.trans bad), append_nil]
        exact ⟨rfl, rfl, kept⟩
      · split
        · rename_i bad
          rw [if_neg fun good : (ring.rd t).Good => Bool.false_ne_true (good.2.2.2.symm.trans bad), append_nil]
          exact ⟨rfl, rfl, kept⟩
        · rename_i eop ce se rxe
          have good : (ring.rd t).Good := by
            simp only [RxDesc.Good]
            simp only [Bool.not_eq_true, Bool.not_eq_false] at eop ce se rxe
            exact ⟨eop, ce, se, rxe⟩
          rw [if_pos good]
          refine ⟨rfl, rfl, ?_⟩
          rw [batch, range_succ, map_append, kept, map_singleton]
          dsimp only
          rw [update_self, update_self, update_self]
          rfl

def gathered (drain : Drain β) : List (RxPacket β) := drain.calls.flatten ++ drain.batch

theorem flush_spec (drain : Drain β) (ring : RxRing β) (small : drain.i ≤ batchSize)
    (batches : ∀ call ∈ drain.calls, call.length ≤ batchSize) :
    (ring.recvphysFunc = true → (drain.flush ring).calls.flatten = drain.gathered) ∧
      (ring.recvphysFunc = false → (drain.flush ring).calls = drain.calls) ∧
      (∀ call ∈ (drain.flush ring).calls, call.length ≤ batchSize) ∧ (drain.flush ring).t = drain.t ∧
      (drain.flush ring).i = drain.i := by
  unfold flush
  split
  · rename_i registered
    refine ⟨fun _ => ?_, fun none => ?_, ?_, rfl, rfl⟩
    · simp [gathered]
    · rw [registered] at none
      cases none
    · intro call member
      rcases mem_append.mp member with before | now
      · exact batches call before
      · rw [mem_singleton.mp now, length_batch]
        exact small
  · rename_i none
    exact ⟨fun registered => absurd registered none, fun _ => rfl, batches, rfl, rfl⟩

structure Done (ring : RxRing β) (h : Nat) (drain : Drain β) (out : Drained β) : Prop where
  passed : ring.recvphysFunc = true → out.calls.flatten = drain.gathered ++ ring.due h drain.t
  kept : ring.recvphysFunc = false → out.calls = drain.calls
  batches : ∀ call ∈ out.calls, call.length ≤ batchSize
  tail : out.tail = (h + numOfRdesc - 1) % numOfRdesc

theorem due_cons (head : h < numOfRdesc) (tail : t < numOfRdesc) (more : h ≠ nextSlot t) :
    ring.due h t = (if (ring.rd (nextSlot t)).Good then [ring.packet (nextSlot t)] else []) ++
      ring.due h (nextSlot t) := by
  rw [RxRing.due, slotsBetween_cons head tail more, filter_cons]
  by_cases good : (ring.rd (nextSlot t)).Good
  · rw [if_pos (decide_eq_true good), if_pos good]
    rfl
  · rw [if_neg (by simpa using good), if_neg good]
    rfl

theorem Done.round {before : Drain β} {out : Drained β} (head : h < numOfRdesc) (tail : drain.t < numOfRdesc)
    (more : h ≠ nextSlot drain.t) (whole : ring.recvphysFunc = true → before.gathered = drain.gathered)
    (kept : ring.recvphysFunc = false → before.calls = drain.calls)
    (done : Done ring h (before.take ring (nextSlot drain.t)) out) : Done ring h drain out := by
  obtain ⟨next, same, taken⟩ := take_spec before ring (nextSlot drain.t)
  refine ⟨fun registered => ?_, fun none => ?_, done.batches, done.tail⟩
  · rw [done.passed registered, next, gathered, same, taken, due_cons head tail more, ← whole registered, gathered]
    simp only [append_assoc]
  · rw [done.kept none, same, kept none]

theorem take_small (room : drain.i < batchSize) : (drain.take ring t).i ≤ batchSize := by
  obtain ⟨-, -, taken⟩ := take_spec drain ring t
  have length := congrArg List.length taken
  rw [length_batch, length_append, length_batch] at length
  have one : (if (ring.rd t).Good then [ring.packet t] else []).length ≤ 1 := by
    split
    · exact Nat.le_refl _
    · exact Nat.zero_le _
  omega

theorem run_done (head : h < numOfRdesc) (fuel : Nat) : ∀ {drain : Drain β}, drain.t < numOfRdesc →
    drain.i ≤ batchSize → (slotsBetween h drain.t).length < fuel →
      (∀ call ∈ drain.calls, call.length ≤ batchSize) → ∃ out, run ring h fuel drain = some out ∧ Done ring h drain out := by
  induction fuel with
  | zero =>
    intro drain _ _ enough
    exact absurd enough (Nat.not_lt_zero _)
  | succ fuel ih =>
    intro drain tail small enough batches
    obtain ⟨passes, keeps, calls, same, index⟩ := flush_spec drain ring small batches
    rw [run]
    by_cases last : h = nextSlot drain.t
    · refine ⟨⟨(drain.flush ring).calls, (drain.flush ring).t⟩, ?_, ?_, keeps, calls, ?_⟩
      · simp only [last, true_or, if_true]
      · intro registered
        rw [RxRing.due, slotsBetween_nil tail last]
        simpa using passes registered
      · rw [same]
        rw [nextSlot_eq tail] at last
        simp only [numOfRdesc] at *
        omega
    · rw [slotsBetween_cons head tail last, length_cons] at enough
      have goesOn (before : Drain β) (room : before.i < batchSize)
          (small : ∀ call ∈ before.calls, call.length ≤ batchSize) :
          ∃ out, run ring h fuel (before.take ring (nextSlot drain.t)) = some out ∧
            Done ring h (before.take ring (nextSlot drain.t)) out := by
        obtain ⟨next, calls, -⟩ := take_spec before ring (nextSlot drain.t)
        refine ih ?_ (take_small room) ?_ ?_
        · rw [next]
          exact nextSlot_lt tail
        · rw [next]
          exact Nat.lt_of_succ_lt_succ enough
        · rw [calls]
          exact small
      by_cases full : drain.i = batchSize
      · have positive : 0 < batchSize := by decide
        obtain ⟨out, runs, done⟩ := goesOn { drain.flush ring with i := 0 } positive calls
        refine ⟨out, ?_, Done.round head tail last ?_ ?_ done⟩
        · simp only [last, full, index, or_true, if_true, if_false]
          exact runs
        · intro registered
          simpa [gathered, batch] using passes registered
        · exact keeps
      · obtain ⟨out, runs, done⟩ := goesOn drain (Nat.lt_of_le_of_ne small full) batches
        refine ⟨out, ?_, done.round head tail last (fun _ => rfl) fun _ => rfl⟩
        simp only [last, full, or_self, if_false]
        exact runs

end Drain

theorem length_slotsBetween (h t : Nat) : (slotsBetween h t).length < numOfRdesc := by
  rw [slotsBetween, Rings.length_window]
  exact Nat.mod_lt _ (by decide)

/-- Each descriptor that ends a packet and has no CRC, symbol or RX data error comes to the callback once, in the
order of the ring. -/
theorem receivePhysnic_right (ring : RxRing β) (start : Drain β) (h t : Fin numOfRdesc) :
    ∃ out, receivePhysnic ring start h.val t.val = some out ∧ out.Right ring (fun rd => rd.Good) h.val t.val := by
  obtain ⟨out, runs, done⟩ := @Drain.run_done β ring h.val h.isLt numOfRdesc
    { start with t := t.val, i := 0, calls := [] } t.isLt (Nat.zero_le _) (length_slotsBetween h.val t.val)
    (forall_mem_nil _)
  refine ⟨out, ?_, ?_, done.batches, done.tail⟩
  · rw [receivePhysnic, if_pos ⟨h.isLt, t.isLt⟩]
    exact runs
  · split
    · rename_i registered
      exact done.passed registered
    · rename_i none
      rw [done.kept (by simpa using none)]
      rfl

def RxDesc.errorFree (rd : RxDesc) : Bool :=
  rd.statusEop && !rd.errCe && !rd.errSe && !rd.errSeq && rd.errRcv == 0 && !rd.errTcpe && !rd.errIpe && !rd.errRxe

/-- A packet with a wrong TCP checksum comes to the callback. -/
theorem receivePhysnic_passes_errors : ¬ ∀ (ring : RxRing Nat) (start : Drain Nat) (h t : Fin numOfRdesc),
    ∃ out, receivePhysnic ring start h.val t.val = some out ∧ out.Right ring RxDesc.errorFree h.val t.val := by
  intro all
  let ring : RxRing Nat := ⟨fun _ => ⟨60, true, false, false, false, 0, true, false, false⟩, id, fun _ => 0, true, true⟩
  obtain ⟨out, runs, right⟩ := all ring ⟨0, 0, fun _ => 0, fun _ => 0, fun _ => 0, []⟩ 2 0
  have one : some out = some ⟨[[⟨1, 60, 0⟩]], 1⟩ := runs.symm.trans rfl
  cases one
  exact absurd (congrArg List.length right.passed) (by decide)

end DisasVisor.Pro1000
