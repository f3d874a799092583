import DisasVisor.Rtl8169.Receive
import Mathlib.Data.List.Rotate
import Mathlib.Data.List.Iterate

/-!
What the VMM sends by `drivers/net/rtl8169.c`: packets to the NIC through the shadow transmit ring, and to the
guest through its receive ring.
-/

namespace DisasVisor.Rtl8169

open Function (update update_self update_of_ne)
open List

structure Transmitter where
  ring : Nat → Desc
  tnbuf : Nat → List UInt8
  sent : List (Nat × List UInt8)

namespace Transmitter

def put (s : Transmitter) (i : Nat) (packet : List UInt8) : Transmitter where
  ring := update s.ring i ⟨true, (s.ring i).eor, true, true, packet.length⟩
  tnbuf := update s.tnbuf i (packet ++ (s.tnbuf i).drop packet.length)
  sent := s.sent ++ [(i, packet)]

/-- The loop of `SendPhysicalNic`; `none` is a loop that is not at its end after that many turns. -/
def sendLoop : Nat → Transmitter → Nat → List (List UInt8) → Option (Transmitter × Nat)
  | _, s, i, [] => some (s, i)
  | 0, _, _, _ :: _ => none
  | turns + 1, s, i, packet :: rest =>
    if (s.ring i).own then sendLoop turns s ((s.ring i).next i) (packet :: rest)
    else if packet.length ≥ 4096 then sendLoop turns s i rest
    else sendLoop turns (s.put i packet) ((s.ring i).next i) rest

def sendPhysicalNic (turns : Nat) (sendenabled : Bool) (s : Transmitter) (sendindex : Nat)
    (packets : List (List UInt8)) : Option (Transmitter × Nat) :=
  if sendenabled then sendLoop turns s sendindex packets else some (s, sendindex)

/-- How many free descriptors the packets take: one that is too large takes none, but is passed over at one. -/
def needed : List (List UInt8) → Nat
  | [] => 0
  | packet :: rest => if packet.length ≥ 4096 then max 1 (needed rest) else needed rest + 1

def free (s : Transmitter) (places : List Nat) : Nat := places.countP fun p => !(s.ring p).own

/-- The packets of less than 4096 bytes are in free descriptors, one after another in the order of the ring;
no other descriptor has changed. -/
def Placed (s t : Transmitter) (order : List Nat) (packets : List (List UInt8)) : Prop :=
  ∃ puts, t.sent = s.sent ++ puts ∧ puts.map Prod.snd = packets.filter (·.length < 4096) ∧ puts.map Prod.fst <+ order ∧
    (∀ put ∈ puts, (s.ring put.1).own = false ∧
      t.ring put.1 = ⟨true, (s.ring put.1).eor, true, true, put.2.length⟩ ∧
      (t.tnbuf put.1).take put.2.length = put.2) ∧
    ∀ p ∉ puts.map Prod.fst, t.ring p = s.ring p ∧ t.tnbuf p = s.tnbuf p

def Sends (s : Transmitter) (order : List Nat) (i : Nat) (packets : List (List UInt8)) : Prop :=
  ∃ turns t j, sendPhysicalNic turns true s i packets = some (t, j) ∧ s.Placed t order packets

variable {s t : Transmitter} {i size : Nat} {packet : List UInt8} {packets : List (List UInt8)} {places : List Nat}

theorem free_put_of_not_mem (away : i ∉ places) : (s.put i packet).free places = s.free places :=
  countP_congr fun p member => by
    have other : p ≠ i := ne_of_mem_of_not_mem member away
    dsimp only [put]
    rw [update_of_ne other]

theorem free_put (nodup : places.Nodup) (member : i ∈ places) (own : (s.ring i).own = false) :
    s.free places = (s.put i packet).free places + 1 := by
  have front := perm_cons_erase member
  have here : (s.put i packet).free (i :: places.erase i) = (s.put i packet).free (places.erase i) := by
    refine countP_cons_of_neg ?_
    dsimp only [put]
    rw [update_self]
    exact Bool.false_ne_true
  have before : s.free (i :: places.erase i) = s.free (places.erase i) + 1 :=
    countP_cons_of_pos (by rw [own]; rfl)
  have same (u : Transmitter) : u.free places = u.free (i :: places.erase i) := front.countP_eq _
  rw [same, same (s.put i packet), before, here, free_put_of_not_mem nodup.not_mem_erase]

def after (size p : Nat) : Nat := if p + 1 = size then 0 else p + 1

/-- The end of the ring is after `size` descriptors. -/
def Ends (s : Transmitter) (size : Nat) : Prop := ∀ p, (s.ring p).eor = true ↔ p + 1 = size

theorem Ends.next (ends : s.Ends size) (p : Nat) : (s.ring p).next p = after size p := if_congr (ends p) rfl rfl

theorem Ends.put (ends : s.Ends size) (i : Nat) (packet : List UInt8) : (s.put i packet).Ends size :=
  Receiver.ends_update ends rfl

theorem after_lt (inside : i < size) : after size i < size := by
  unfold after
  split
  · exact Nat.zero_lt_of_lt inside
  · omega

theorem sendLoop_never (ends : s.Ends size) (inside : i < size) (full : s.free (range size) < needed packets)
    (turns : Nat) : sendLoop turns s i packets = none := by
  induction turns generalizing s i packets with
  | zero =>
    cases packets with
    | nil => exact absurd full (Nat.not_lt_zero _)
    | cons packet rest => rfl
  | succ turns ih =>
    cases packets with
    | nil => exact absurd full (Nat.not_lt_zero _)
    | cons packet rest =>
      rw [sendLoop]
      split
      · rw [ends.next]
        exact ih ends (after_lt inside) full
      · rename_i own
        have counted := @free_put s i packet (range size) nodup_range (mem_range.mpr inside) (Bool.eq_false_of_not_eq_true own)
        rw [needed] at full
        split
        · rename_i large
          rw [if_pos large] at full
          exact ih ends inside (by omega)
        · rename_i small
          rw [if_neg small] at full
          rw [ends.next]
          exact ih (ends.put i packet) (after_lt inside) (by omega)

theorem Placed.large (large : packet.length ≥ 4096) (placed : s.Placed t places packets) :
    s.Placed t places (packet :: packets) := by
  obtain ⟨puts, sent, same, written⟩ := placed
  refine ⟨puts, sent, ?_, written⟩
  rw [same, filter_cons_of_neg (by simpa using large)]

theorem Placed.small (own : (s.ring i).own = false) (small : ¬packet.length ≥ 4096) (away : i ∉ places)
    (placed : (s.put i packet).Placed t places packets) : s.Placed t (i :: places) (packet :: packets) := by
  obtain ⟨puts, sent, same, order, written, kept⟩ := placed
  have apart : i ∉ puts.map Prod.fst := fun member => away (order.subset member)
  refine ⟨(i, packet) :: puts, ?_, ?_, order.cons_cons i, ?_, ?_⟩
  · rw [sent, put, append_assoc, singleton_append]
  · rw [map_cons, same, filter_cons_of_pos (by simpa using small)]
  · intro later member
    rcases mem_cons.mp member with rfl | member
    · refine ⟨own, (kept i apart).1.trans (update_self _ _ _), ?_⟩
      have buffer : t.tnbuf i = packet ++ (s.tnbuf i).drop packet.length := (kept i apart).2.trans (update_self _ _ _)
      dsimp only
      rw [buffer, take_left]
    · have other : later.1 ≠ i := ne_of_mem_of_not_mem (mem_map_of_mem member) apart
      have before := written later member
      dsimp only [put] at before
      rwa [update_of_ne other] at before
  · intro p outside
    rw [map_cons, mem_cons, not_or] at outside
    have before := kept p outside.2
    dsimp only [put] at before
    rwa [update_of_ne outside.1, update_of_ne outside.1] at before

theorem Placed.nothing (s : Transmitter) (places : List Nat) : s.Placed s places [] :=
  ⟨[], (append_nil _).symm, rfl, nil_sublist places, fun _ member => absurd member not_mem_nil, fun _ _ => ⟨rfl, rfl⟩⟩

theorem sendLoop_places (places : List Nat) : ∀ (s : Transmitter) packets i, s.Ends size → places.Nodup →
    places.IsChain (fun p q => q = after size p) → (∀ p ∈ places.head?, p = i) → needed packets ≤ s.free places →
      ∃ turns t j, sendLoop turns s i packets = some (t, j) ∧ s.Placed t places packets := by
  induction places with
  | nil =>
    intro s packets i _ _ _ _ enough
    cases packets with
    | nil => exact ⟨0, s, i, rfl, .nothing s []⟩
    | cons packet more =>
      have some' : 1 ≤ needed (packet :: more) := by
        rw [needed]
        split
        · exact Nat.le_max_left 1 _
        · exact Nat.succ_pos _
      exact absurd (Nat.le_trans some' enough) (Nat.not_succ_le_zero 0)
  | cons p places ih =>
    intro s packets i ends nodup chain head enough
    obtain rfl := head p rfl
    obtain ⟨away, nodup⟩ := nodup_cons.mp nodup
    obtain ⟨next, chain⟩ := isChain_cons.mp chain
    induction packets with
    | nil => exact ⟨0, s, p, rfl, .nothing s _⟩
    | cons packet more later =>
      by_cases own : (s.ring p).own = true
      · rw [free, countP_cons_of_neg (by rw [own]; exact Bool.false_ne_true)] at enough
        obtain ⟨turns, t, j, done, puts, sent, same, order, written⟩ := ih s _ _ ends nodup chain next enough
        exact ⟨turns + 1, t, j, by rw [sendLoop, if_pos own, ends.next, done], puts, sent, same, order.cons p, written⟩
      · rw [needed] at enough
        by_cases large : packet.length ≥ 4096
        · rw [if_pos large] at enough
          obtain ⟨turns, t, j, done, placed⟩ := later (Nat.le_trans (Nat.le_max_right 1 _) enough)
          exact ⟨turns + 1, t, j, by rw [sendLoop, if_neg own, if_pos large, done], placed.large large⟩
        · have own' := Bool.eq_false_of_not_eq_true own
          have free' : s.free (p :: places) = s.free places + 1 := countP_cons_of_pos (by rw [own']; rfl)
          rw [if_neg large, free', ← free_put_of_not_mem away] at enough
          obtain ⟨turns, t, j, done, placed⟩ := ih (s.put p packet) more _ (ends.put p packet) nodup chain next
            (Nat.le_of_succ_le_succ enough)
          exact ⟨turns + 1, t, j, by rw [sendLoop, if_neg own, if_neg large, ends.next, done],
            placed.small own' large away⟩

def ringFrom (size i : Nat) : List Nat := (range size).rotate i

theorem ringFrom_chain (size i : Nat) : (ringFrom size i).IsChain fun p q => q = after size p := by
  rw [isChain_iff_getElem]
  intro k below
  have long : k + 1 < size := by rwa [ringFrom, length_rotate, length_range] at below
  simp only [ringFrom, getElem_rotate, length_range, getElem_range, after]
  have step : (k + 1 + i) % size = ((k + i) % size + 1) % size := by
    rw [Nat.mod_add_mod, Nat.add_right_comm]
  have inside := Nat.mod_lt (k + i) (Nat.zero_lt_of_lt long)
  rw [step]
  split
  · rename_i last
    rw [last, Nat.mod_self]
  · exact Nat.mod_eq_of_lt (by omega)

theorem ringFrom_head (inside : i < size) : ∀ p ∈ (ringFrom size i).head?, p = i := by
  intro p first
  rw [head?_eq_getElem?, Option.mem_def, getElem?_eq_some_iff] at first
  obtain ⟨below, same⟩ := first
  rw [← same]
  simp only [ringFrom, getElem_rotate, length_range, getElem_range, Nat.zero_add]
  exact Nat.mod_eq_of_lt inside

/-- `SendPhysicalNic` ends exactly if the ring has the descriptors that the packets need. -/
theorem sends_iff (ends : s.Ends size) (inside : i < size) :
    s.Sends (ringFrom size i) i packets ↔ needed packets ≤ s.free (range size) := by
  have same : s.free (ringFrom size i) = s.free (range size) := (rotate_perm _ _).countP_eq _
  constructor
  · rintro ⟨turns, t, j, done, -⟩
    by_contra full
    have never := sendLoop_never ends inside (Nat.not_le.mp full) turns
    rw [sendPhysicalNic, if_pos rfl, never] at done
    exact absurd done.symm (Option.some_ne_none _)
  · intro enough
    exact sendLoop_places _ s packets i ends (nodup_rotate.mpr nodup_range) (ringFrom_chain size i)
      (ringFrom_head inside) (same ▸ enough)

end Transmitter

/-! The receive ring of the guest -/

def rxdescMaxNum : Nat := 512

variable {desc : Nat → Option Desc} {mapped : Nat → Bool} {size : Nat}

/-- `rtl8169_send_virt_nic`: the next `RxDescNum`, and the descriptor that took the packet, into whose buffer
all of it went. `desc` and `mapped` are what `mapmem_gphys` answers for a descriptor and for its buffer. -/
def sendVirtNic (desc : Nat → Option Desc) (mapped : Nat → Bool) (size : Nat) : Nat → Nat → Nat × Option (Nat × Desc)
  | 0, n => (n, none)
  | turns + 1, n =>
    match desc n with
    | none => if n ≠ 0 then sendVirtNic desc mapped size turns 0 else (n, none)
    | some d =>
      if d.own ∧ mapped n then
        (d.next n, some (n, ⟨false, d.eor || (size + 4).testBit 30, true, true, (size + 4) % 2 ^ 14⟩))
      else sendVirtNic desc mapped size turns (d.next n)

def takes (desc : Nat → Option Desc) (mapped : Nat → Bool) (n : Nat) : Bool := (desc n).any Desc.own && mapped n

def guestNext (desc : Nat → Option Desc) (n : Nat) : Nat := (desc n).elim 0 fun d => d.next n

/-- The descriptors in the order of the ring, from `RxDescNum` on. -/
def guestRing (desc : Nat → Option Desc) (n : Nat) : List Nat := iterate (guestNext desc) n rxdescMaxNum

theorem no_taker_at_zero (none' : desc 0 = none) (turns : Nat) :
    (iterate (guestNext desc) 0 turns).find? (takes desc mapped) = none := by
  have next : guestNext desc 0 = 0 := by rw [guestNext, none']; rfl
  have notTaken : takes desc mapped 0 = false := by rw [takes, none']; rfl
  induction turns with
  | zero => rfl
  | succ turns ih => rw [iterate, find?_cons, notTaken, next, ih]

theorem sendVirtNic_taker (size turns : Nat) : ∀ n, (sendVirtNic desc mapped size turns n).2.map Prod.fst =
    (iterate (guestNext desc) n turns).find? (takes desc mapped) := by
  induction turns with
  | zero => exact fun n => rfl
  | succ turns ih =>
    intro n
    rw [sendVirtNic, iterate, find?_cons]
    cases here : desc n with
    | none =>
      have notTaken : takes desc mapped n = false := by rw [takes, here]; rfl
      have next : guestNext desc n = 0 := by rw [guestNext, here]; rfl
      rw [notTaken, next]
      dsimp only
      split
      · exact ih 0
      · rename_i zero
        rw [not_not] at zero
        exact (no_taker_at_zero (zero ▸ here) turns).symm
    | some d =>
      have taken : takes desc mapped n = (d.own && mapped n) := by rw [takes, here]; rfl
      have next : guestNext desc n = d.next n := by rw [guestNext, here]; rfl
      rw [taken, next]
      dsimp only
      split
      · rename_i both
        rw [both.1, both.2]
        rfl
      · rename_i neither
        rw [← Bool.and_eq_true, Bool.not_eq_true] at neither
        rw [neither, ih]

def Bounded (desc : Nat → Option Desc) (mapped : Nat → Bool) (size n : Nat) : Prop :=
  ∀ p written, (sendVirtNic desc mapped size rxdescMaxNum n).2 = some (p, written) → ∀ d ∈ desc p, size ≤ d.len

theorem bounded_iff (size n : Nat) : Bounded desc mapped size n ↔
    ∀ p ∈ (guestRing desc n).find? (takes desc mapped), ∀ d ∈ desc p, size ≤ d.len := by
  unfold Bounded guestRing
  rw [← sendVirtNic_taker size]
  constructor
  · intro bounded p taken
    obtain ⟨⟨p', written⟩, sent, rfl⟩ := Option.map_eq_some_iff.mp taken
    exact bounded p' written sent
  · intro long p written sent
    exact long p (Option.map_eq_some_iff.mpr ⟨_, sent, rfl⟩)

/-- What the three functions do with the rings, and when. -/
theorem rings_iff (positive : 0 < size) (fits : size ≤ rxdescArrayNum) :
    (∀ events s, Transitions.Run Receiver.Step (Receiver.start size) events s → s.Passes) ∧
      (∀ desc mapped packet n, Bounded desc mapped packet n ↔
        ∀ p ∈ (guestRing desc n).find? (takes desc mapped), ∀ d ∈ desc p, packet ≤ d.len) ∧
      ∀ (s : Transmitter) i packets, s.Ends size → i < size →
        (s.Sends (Transmitter.ringFrom size i) i packets ↔ Transmitter.needed packets ≤ s.free (range size)) :=
  ⟨fun _ _ run => Receiver.passes_of_run positive fits run, fun _ _ => bounded_iff,
    fun _ _ _ ends inside => Transmitter.sends_iff ends inside⟩

def freeRing (size : Nat) : Transmitter where
  ring := fun i => ⟨false, i + 1 = size, false, false, 0xFFF⟩
  tnbuf := fun _ => []
  sent := []

theorem rings_sample : (freeRing 2).Sends (Transmitter.ringFrom 2 1) 1 [[1], [2]] :=
  ((rings_iff (by decide) (by decide)).2.2 (freeRing 2) 1 [[1], [2]] (fun _ => decide_eq_true_iff) (by decide)).mpr
    (by decide)

def wrappedEvents : List Event :=
  [.filled [1, 0, 0, 0, 0] 5 true, .polled false, .scanned, .scanned, .filled [2, 0, 0, 0, 0] 5 true,
    .filled [3, 0, 0, 0, 0] 5 true, .polled false, .scanned]

theorem rings_wrapped : ∃ s, wrappedEvents.foldlM Receiver.step (Receiver.start 2) = some s ∧
    s.passed = [[1], [3]] ∧ ¬s.Passes :=
  ⟨_, rfl, rfl, fun passes => absurd passes.inOrder (by decide)⟩

end DisasVisor.Rtl8169
