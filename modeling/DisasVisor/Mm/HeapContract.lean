import DisasVisor.Mm.HeapCalls
import DisasVisor.Mm.PageBlocks

/-!
The contract of the heap over whole runs of its callers.
-/

namespace DisasVisor.Mm

open Function Buddy Transitions
open Option (some.injEq)

structure HeapState where
  heap : Heap
  live : Nat → Option Nat

inductive HeapEvent where
  | alloc (len : UInt32)
  | allocPages (n : Int32)
  | realloc (virt : Nat) (len : UInt32)
  | free (virt : Nat)
  | freePage (virt : Nat)
  | store (address : Nat) (byte : UInt8)

namespace HeapState

def give (live : Nat → Option Nat) (heap : Heap) (r : Nat) : HeapState where
  heap := heap
  live := update live r (some (heap.getAllocLen r).1)

/-- A call with its result; `none` is a panic, or a pointer that is not live. -/
def step (s : HeapState) : HeapEvent → Option (HeapState × Nat)
  | .alloc len =>
    match s.heap.alloc len with
    | none => none
    | some (r, heap) => some (give s.live heap r, r)
  | .allocPages n =>
    match s.heap.allocPages n with
    | none => none
    | some (r, heap) => some (give s.live heap r, r)
  | .realloc virt len =>
    if virt ≠ 0 ∧ s.live virt = none then none
    else
      match s.heap.realloc virt len with
      | none => none
      | some (r, heap) =>
        let live := update s.live virt none
        if r = 0 then some ({ heap := heap, live := live }, r)
        else some (give live heap r, r)
  | .free virt =>
    match s.live virt with
    | none => none
    | some _ =>
      match s.heap.free virt with
      | none => none
      | some heap => some ({ heap := heap, live := update s.live virt none }, 0)
  | .freePage virt =>
    match s.live virt with
    | none => none
    | some _ => some ({ heap := s.heap.freePage virt, live := update s.live virt none }, 0)
  | .store address byte =>
    some ({ s with
      heap := { s.heap with memory := update s.heap.memory address byte } }, 0)

/-- The number of bytes of a request is computed without overflow, or the result of the overflow
is too large; and `free_page` gets a page. -/
def Fits : HeapEvent → Prop
  | .alloc len => Representable len
  | .allocPages n => (n * 4096).toInt = n.toInt * 4096 ∨ 2 ^ 24 < (n * 4096).toInt
  | .realloc _ len => Representable len
  | .free _ => True
  | .freePage virt => virt % pagesize = 0
  | .store _ _ => True

def Step (s : HeapState) (event : HeapEvent) (t : HeapState) : Prop := ∃ r, s.step event = some (t, r)

def FitStep (s : HeapState) (event : HeapEvent) (t : HeapState) : Prop := s.Step event t ∧ Fits event

def boot (image : Image) : HeapState where
  heap := {
    buddy := mmInitGlobal image.head image.stop
    alloclist := fun _ => []
    header := fun _ => { n := 0, data := fun _ => 0 }
    memory := fun _ => 0 }
  live _ := none

def Disjoint (v u w x : Nat) : Prop := v + u ≤ w ∨ w + x ≤ v

structure Gets (s : HeapState) (len r : Nat) (t : HeapState) : Prop where
  nonnull : r ≠ 0
  fresh : s.live r = none
  size : ∃ u, len ≤ u ∧ t.live = update s.live r (some u)

def Result (s : HeapState) (r : Nat) (t : HeapState) : HeapEvent → Prop
  | .alloc len => Gets s len.toNat r t
  | .allocPages n => Gets s (n.toInt * 4096).toNat r t
  | .realloc virt len =>
    (virt = 0 ∧ len = 0 ∧ r = 0 ∧ t.live = s.live) ∨ (virt = 0 ∧ Gets s len.toNat r t) ∨
      (len = 0 ∧ r = 0 ∧ t.live = update s.live virt none) ∨
      ∃ old u, s.live virt = some old ∧ r ≠ 0 ∧ (r = virt ∨ s.live r = none) ∧
        len.toNat ≤ u ∧ t.live = update (update s.live virt none) r (some u) ∧
        ∀ i, i < min old len.toNat → t.heap.memory (r + i) = s.heap.memory (virt + i)
  | .free virt => t.live = update s.live virt none
  | .freePage virt => t.live = update s.live virt none
  | .store _ _ => t.live = s.live

def TooLarge : HeapEvent → Prop
  | .alloc len => 2 ^ 24 < len.toNat
  | .allocPages n => 2 ^ 24 < n.toInt * 4096
  | .realloc _ len => 2 ^ 24 < len.toNat
  | _ => False

def allocs (s : HeapState) (len : UInt32) : Nat → Option HeapState
  | 0 => some s
  | m + 1 =>
    match s.step (.alloc len) with
    | none => none
    | some (t, _) => t.allocs len m

structure Sound (s : HeapState) : Prop where
  disjoint : ∀ v u w x, s.live v = some u → s.live w = some x → v ≠ w → Disjoint v u w x
  headers : ∀ f, IsSlab s.heap s.live f → ∃ i off, (s.heap.header f).OfClass i off ∧
    ∀ v u, s.live v = some u → Disjoint v u (pageToVirt f) (alloclistHeadersize i)
  result : ∀ event t r, Fits event → s.step event = some (t, r) → Result s r t event
  panics : ∀ event, Fits event → TooLarge event → s.step event = none
  reusable : ∀ v u, s.live v = some u → v % pagesize ≠ 0 →
    ∃ t, s.step (.free v) = some (t, 0) ∧ ∃ m last after,
      t.allocs (UInt32.ofNat u) m = some last ∧
        last.step (.alloc (UInt32.ofNat u)) = some (after, v)

variable {s t : HeapState} {r : Nat}

variable {u virt v f i : Nat} {len : UInt32}

theorem give_live {heap : Heap} {live : Nat → Option Nat} (ordered : Ordered heap (update live r (some u)) none) :
    (give live heap r).live = update live r (some u) := by
  have size : (heap.getAllocLen r).1 = u := getAllocLen_live ordered (by simp)
  rw [give, size]

theorem gets_provided {len : Nat} {heap : Heap} (enough : len ≤ u) (provided : Provided s.heap s.live r u heap) :
    Ordered (give s.live heap r).heap (give s.live heap r).live none ∧ Gets s len r (give s.live heap r) := by
  have live := give_live provided.ordered
  refine ⟨?_, provided.nonnull, provided.fresh, u, enough, live⟩
  rw [live]
  exact provided.ordered

section

variable (ordered : Ordered s.heap s.live none)

include ordered

theorem step_alloc (fits : Representable len) (steps : s.step (.alloc len) = some (t, r)) :
    Ordered t.heap t.live none ∧ Gets s len.toNat r t ∧ len.toNat ≤ 2 ^ 24 := by
  unfold step at steps
  cases ran : s.heap.alloc len with
  | none => simp only [ran, reduceCtorEq] at steps
  | some result =>
    obtain ⟨q, heap⟩ := result
    simp only [ran] at steps
    cases steps
    obtain ⟨u, enough, most, provided⟩ := alloc_provided ordered fits ran
    obtain ⟨after, gets⟩ := gets_provided enough provided
    exact ⟨after, gets, by omega⟩

theorem step_allocPages {n : Int32} (fits : Fits (.allocPages n)) (steps : s.step (.allocPages n) = some (t, r)) :
    Ordered t.heap t.live none ∧ Gets s (n.toInt * 4096).toNat r t ∧ n.toInt * 4096 ≤ 2 ^ 24 := by
  unfold step at steps
  cases ran : s.heap.allocPages n with
  | none => simp only [ran, reduceCtorEq] at steps
  | some result =>
    obtain ⟨q, heap⟩ := result
    simp only [ran] at steps
    cases steps
    obtain ⟨i, small, enough, provided⟩ := allocPages_provided ordered ran
    have most := allocsize_le small
    rcases fits with exact | large
    · rw [exact] at enough
      obtain ⟨after, gets⟩ := gets_provided (show (n.toInt * 4096).toNat ≤ allocsize i by omega) provided
      exact ⟨after, gets, by omega⟩
    · omega

theorem step_free (steps : s.step (.free virt) = some (t, r)) :
    Ordered t.heap t.live none ∧ t.live = update s.live virt none := by
  unfold step at steps
  cases isLive : s.live virt with
  | none => simp only [isLive, reduceCtorEq] at steps
  | some u =>
    obtain ⟨heap, freed, released⟩ := free_released ordered isLive
    simp only [isLive, freed] at steps
    cases steps
    exact ⟨released.ordered, rfl⟩

theorem step_freePage (page : virt % pagesize = 0) (steps : s.step (.freePage virt) = some (t, r)) :
    Ordered t.heap t.live none ∧ t.live = update s.live virt none := by
  unfold step at steps
  cases isLive : s.live virt with
  | none => simp only [isLive, reduceCtorEq] at steps
  | some u =>
    simp only [isLive] at steps
    cases steps
    rcases ordered.kind isLive with ⟨f, rfl, -⟩ | ⟨f, i, off, k, -, -, -, -, -, -, -, -, nonzero⟩
    · exact ⟨ordered.freePages isLive, rfl⟩
    · exact absurd page nonzero

theorem live_nonnull : s.live 0 = none := by
  cases isLive : s.live 0 with
  | none => rfl
  | some u =>
    rcases ordered.kind isLive with ⟨f, same, -⟩ | ⟨f, i, off, k, -, -, -, -, same, -⟩
    · exact absurd same.symm (pageToVirt_ne_zero f)
    · have page := pageToVirt_ne_zero f
      unfold slotAddr at same
      omega

theorem step_realloc_null (fits : Representable len) (steps : s.step (.realloc 0 len) = some (t, r)) :
    Ordered t.heap t.live none ∧ Result s r t (.realloc 0 len) ∧ len.toNat ≤ 2 ^ 24 := by
  have null := live_nonnull ordered
  have same : update s.live 0 none = s.live := by
    rw [← null]
    exact Function.update_eq_self 0 s.live
  unfold step Heap.realloc at steps
  simp only [ne_eq, not_true_eq_false, false_and, if_false, true_and, if_true, same] at steps
  by_cases zero : len = 0
  · simp only [if_pos zero, if_true] at steps
    cases steps
    exact ⟨ordered, .inl ⟨rfl, zero, rfl, rfl⟩, by rw [zero]; decide⟩
  · simp only [if_neg zero] at steps
    cases ran : s.heap.alloc len with
    | none => simp only [ran, reduceCtorEq] at steps
    | some result =>
      obtain ⟨q, heap⟩ := result
      obtain ⟨u, enough, most, provided⟩ := alloc_provided ordered fits ran
      simp only [ran, if_neg provided.nonnull] at steps
      cases steps
      obtain ⟨after, gets⟩ := gets_provided enough provided
      exact ⟨after, .inr (.inl ⟨rfl, gets⟩), by omega⟩

theorem live_small (isLive : s.live v = some u) : u ≤ 2 ^ 24 := by
  rcases ordered.pointers v u isLive with ⟨f, page, type, -, size⟩ | ⟨f, i, off, k, -, of, -, -, -, size⟩
  · rw [size]
    exact allocsize_le (ordered.tidy.small f ⟨page, by simp [type]⟩)
  · rw [size]
    exact alloclistSize_le of.small

theorem step_realloc (fits : Representable len) (steps : s.step (.realloc virt len) = some (t, r)) :
    Ordered t.heap t.live none ∧ Result s r t (.realloc virt len) ∧ len.toNat ≤ 2 ^ 24 := by
  by_cases null : virt = 0
  · subst null
    exact step_realloc_null ordered fits steps
  unfold step at steps
  cases isLive : s.live virt with
  | none => simp only [isLive, null, ne_eq, not_false_eq_true, and_self, if_true, reduceCtorEq] at steps
  | some old =>
    simp only [isLive, reduceCtorEq, and_false, if_false] at steps
    cases ran : s.heap.realloc virt len with
    | none => simp only [ran, reduceCtorEq] at steps
    | some result =>
      obtain ⟨q, heap⟩ := result
      by_cases zero : len = 0
      · obtain ⟨freed, isFreed, released⟩ := free_released ordered isLive
        have shape := ran
        rw [Heap.realloc] at shape
        simp only [null, zero, false_and, if_false, if_true, isFreed, some.injEq, Prod.mk.injEq] at shape
        obtain ⟨rfl, rfl⟩ := shape
        simp only [ran, if_true, some.injEq, Prod.mk.injEq] at steps
        obtain ⟨rfl, rfl⟩ := steps
        exact ⟨released.ordered, .inr (.inr (.inl ⟨zero, rfl, rfl⟩)), by rw [zero]; decide⟩
      · rcases realloc_cases ordered isLive null zero fits ran with
          ⟨rfl, rfl, enough⟩ | ⟨u, copied, enough, most, prefix', moved⟩
        · simp only [ran, if_neg null, some.injEq, Prod.mk.injEq] at steps
          obtain ⟨rfl, rfl⟩ := steps
          have back : update s.live q (some old) = s.live := by
            rw [← isLive]
            exact Function.update_eq_self q s.live
          have again : Ordered s.heap (update (update s.live q none) q (some old)) none := by
            rwa [Function.update_idem, back]
          have live := give_live again
          refine ⟨?_, .inr (.inr (.inr ⟨old, old, isLive, null, .inl rfl, enough, live,
            fun i _ => rfl⟩)), ?_⟩
          · rw [live]
            exact again
          · exact Nat.le_trans enough (live_small ordered isLive)
        · simp only [ran, if_neg moved.nonnull, some.injEq, Prod.mk.injEq] at steps
          obtain ⟨rfl, rfl⟩ := steps
          have other : virt ≠ q := by
            rintro rfl
            rw [moved.fresh] at isLive
            cases isLive
          have again := moved.ordered
          rw [Function.update_comm other.symm] at again
          have live := give_live again
          refine ⟨?_, .inr (.inr (.inr ⟨old, u, isLive, moved.nonnull, .inr moved.fresh,
            enough, live, fun i small => moved.memory i (by omega)⟩)), by omega⟩
          rw [live]
          exact again

theorem step_spec {event : HeapEvent} (fits : Fits event)
    (steps : s.step event = some (t, r)) : Ordered t.heap t.live none ∧ Result s r t event ∧ ¬TooLarge event := by
  cases event with
  | alloc len =>
    obtain ⟨after, gets, most⟩ := step_alloc ordered fits steps
    exact ⟨after, gets, Nat.not_lt.mpr most⟩
  | allocPages n =>
    obtain ⟨after, gets, most⟩ := step_allocPages ordered fits steps
    exact ⟨after, gets, Int.not_lt.mpr most⟩
  | realloc virt len =>
    obtain ⟨after, result, most⟩ := step_realloc ordered fits steps
    exact ⟨after, result, Nat.not_lt.mpr most⟩
  | free virt =>
    obtain ⟨after, live⟩ := step_free ordered steps
    exact ⟨after, live, fun impossible => impossible⟩
  | freePage virt =>
    obtain ⟨after, live⟩ := step_freePage ordered fits steps
    exact ⟨after, live, fun impossible => impossible⟩
  | store address byte =>
    simp only [step] at steps
    cases steps
    exact ⟨ordered.memory_congr _, rfl, fun impossible => impossible⟩

theorem pointer_block (isLive : s.live v = some u) :
    ∃ f, s.heap.buddy.IsHead f ∧ pageToVirt f ≤ v ∧
      v + u ≤ pageToVirt f + pagesize * 2 ^ s.heap.buddy.order f ∧
      (v = pageToVirt f ∨ IsSlab s.heap s.live f ∧ ∃ i off k, (s.heap.header f).OfClass i off ∧
        k < alloclistDatabit i ∧ alloclistHeadersize i ≤ k * alloclistSize i ∧
        v = slotAddr f i k ∧ u = alloclistSize i) := by
  rcases ordered.pointers v u isLive with ⟨f, page, type, rfl, size⟩ | ⟨f, i, off, k, slab, of, slot, above, rfl, size⟩
  · refine ⟨f, ⟨page, by simp [type]⟩, Nat.le_refl _, ?_, .inl rfl⟩
    rw [size, allocsize, Nat.shiftLeft_eq]
  · have order := (ordered.slab f slab).1
    have fits := slot_fits slot
    refine ⟨f, ⟨slab.1, by simp [slab.2.1]⟩, ?_, ?_, .inr ⟨slab, i, off, k, of, slot, above, rfl, size⟩⟩
    · unfold slotAddr
      omega
    · rw [order, size]
      unfold slotAddr
      omega

end

theorem disjoint_of_away {g m n w x : Nat} (away : Away f m g n)
    (inF : pageToVirt f ≤ v ∧ v + u ≤ pageToVirt f + pagesize * 2 ^ m)
    (inG : pageToVirt g ≤ w ∧ w + x ≤ pageToVirt g + pagesize * 2 ^ n) : Disjoint v u w x := by
  unfold Disjoint
  unfold Away at away
  simp only [pageToVirt] at inF inG
  rcases away with below | above
  · have scaled := Nat.mul_le_mul_left pagesize below
    rw [Nat.mul_add] at scaled
    omega
  · have scaled := Nat.mul_le_mul_left pagesize above
    rw [Nat.mul_add] at scaled
    omega

theorem disjoint_slots {k l : Nat} (ne : k ≠ l) :
    Disjoint (slotAddr f i k) (alloclistSize i) (slotAddr f i l) (alloclistSize i) := by
  unfold Disjoint slotAddr
  rcases Nat.lt_or_gt_of_ne ne with less | greater
  · have scaled := Nat.mul_le_mul_right (alloclistSize i) (Nat.succ_le_of_lt less)
    rw [Nat.succ_mul] at scaled
    omega
  · have scaled := Nat.mul_le_mul_right (alloclistSize i) (Nat.succ_le_of_lt greater)
    rw [Nat.succ_mul] at scaled
    omega

theorem sound_disjoint (ordered : Ordered s.heap s.live none) {w x : Nat} (vLive : s.live v = some u)
    (wLive : s.live w = some x) (ne : v ≠ w) : Disjoint v u w x := by
  obtain ⟨f, fHead, fLow, fHigh, fKind⟩ := pointer_block ordered vLive
  obtain ⟨g, gHead, gLow, gHigh, gKind⟩ := pointer_block ordered wLive
  by_cases same : f = g
  · subst same
    rcases fKind with rfl | ⟨slab, i, off, k, of, slot, above, rfl, rfl⟩
    · rcases gKind with rfl | ⟨slab, -⟩
      · exact absurd rfl ne
      · rw [slab.2.2] at vLive
        cases vLive
    · rcases gKind with rfl | ⟨-, j, off', l, of', slot', above', rfl, rfl⟩
      · rw [slab.2.2] at wLive
        cases wLive
      · obtain ⟨rfl, -⟩ := of.unique of'
        refine disjoint_slots ?_
        rintro rfl
        exact ne rfl
  · exact disjoint_of_away (ordered.tidy.away fHead gHead same) ⟨fLow, fHigh⟩ ⟨gLow, gHigh⟩

theorem headersize_le (small : i < numOfAlloclist) : alloclistHeadersize i ≤ pagesize := by
  have all : ∀ i, i < numOfAlloclist → alloclistHeadersize i ≤ pagesize := by decide
  exact all i small

theorem sound_headers (ordered : Ordered s.heap s.live none) (slab : IsSlab s.heap s.live f) :
    ∃ i off, (s.heap.header f).OfClass i off ∧
      ∀ v u, s.live v = some u → Disjoint v u (pageToVirt f) (alloclistHeadersize i) := by
  obtain ⟨order, i, off, of⟩ := ordered.slab f slab
  refine ⟨i, off, of, ?_⟩
  intro v u isLive
  obtain ⟨g, gHead, gLow, gHigh, gKind⟩ := pointer_block ordered isLive
  by_cases same : g = f
  · subst same
    rcases gKind with rfl | ⟨-, j, off', k, of', slot, above, rfl, rfl⟩
    · rw [slab.2.2] at isLive
      cases isLive
    · obtain ⟨rfl, -⟩ := of.unique of'
      refine .inr ?_
      unfold slotAddr
      omega
  · have fHead : s.heap.buddy.IsHead f := ⟨slab.1, by simp [slab.2.1]⟩
    have small := headersize_le of.small
    exact disjoint_of_away (ordered.tidy.away gHead fHead same) ⟨gLow, gHigh⟩ ⟨Nat.le_refl _, by rw [order]; omega⟩

theorem reallocated (small : i < numOfAlloclist) (count : Nat) : ∀ {s : HeapState},
    Ordered s.heap s.live none → (freeSlots s.heap s.live i).card = count →
    ∀ slot, slot ∈ freeSlots s.heap s.live i → ∃ m last after,
      s.allocs (UInt32.ofNat (alloclistSize i)) m = some last ∧
        last.step (.alloc (UInt32.ofNat (alloclistSize i))) = some (after, slotAddr slot.1 i slot.2) := by
  induction count with
  | zero =>
    intro s _ none slot member
    rw [Finset.card_eq_zero] at none
    rw [none] at member
    cases member
  | succ count ih =>
    intro s ordered card slot member
    obtain ⟨taken, heap, takenFree, ran, after, rest⟩ := alloc_reuses small ordered ⟨slot, member⟩
    have live := give_live after
    have steps : s.step (.alloc (UInt32.ofNat (alloclistSize i))) =
        some (give s.live heap (slotAddr taken.1 i taken.2), slotAddr taken.1 i taken.2) := by
      rw [step, ran]
    by_cases same : taken = slot
    · subst same
      exact ⟨0, s, _, rfl, steps⟩
    · have next : Ordered (give s.live heap (slotAddr taken.1 i taken.2)).heap
          (give s.live heap (slotAddr taken.1 i taken.2)).live none := by
        rw [live]
        exact after
      have fewer : freeSlots (give s.live heap (slotAddr taken.1 i taken.2)).heap
          (give s.live heap (slotAddr taken.1 i taken.2)).live i =
            (freeSlots s.heap s.live i).erase taken := by
        rw [live]
        exact rest
      obtain ⟨m, last, final, allocated, found⟩ := ih next
        (by rw [fewer, Finset.card_erase_of_mem takenFree, card]; rfl) slot
        (by rw [fewer]; exact Finset.mem_erase.mpr ⟨Ne.symm same, member⟩)
      refine ⟨m + 1, last, final, ?_, found⟩
      rw [allocs, steps]
      exact allocated

theorem sound_reusable (ordered : Ordered s.heap s.live none) (isLive : s.live v = some u) (isSlot : v % pagesize ≠ 0) :
    ∃ t, s.step (.free v) = some (t, 0) ∧ ∃ m last after,
      t.allocs (UInt32.ofNat u) m = some last ∧ last.step (.alloc (UInt32.ofNat u)) = some (after, v) := by
  obtain ⟨heap, freed, released⟩ := free_released ordered isLive
  have same := free_sameSlabs ordered isLive isSlot freed
  have steps : s.step (.free v) = some ({ heap := heap, live := update s.live v none }, 0) := by
    simp only [step, isLive, freed]
  refine ⟨_, steps, ?_⟩
  rcases ordered.kind isLive with ⟨f, -, zero, -⟩ | ⟨f, i, off, k, slab, of, slot, above, rfl, rfl, -⟩
  · exact absurd zero isSlot
  · have page : update s.live (slotAddr f i k) none (pageToVirt f) =
        s.live (pageToVirt f) := update_of_ne (slotAddr_ne_page slot above f).symm _ _
    have free : (f, k) ∈ freeSlots heap (update s.live (slotAddr f i k) none) i := by
      rw [mem_freeSlots]
      refine ⟨⟨⟨slab.1, ?_, ?_⟩, (same.classes f i).mpr ⟨off, of⟩⟩, slot, above, by simp⟩
      · rw [same.buddy]
        exact slab.2.1
      · rw [page]
        exact slab.2.2
    exact reallocated of.small _ released.ordered rfl (f, k) free

theorem sound (ordered : Ordered s.heap s.live none) : Sound s where
  disjoint _ _ _ _ vLive wLive ne := sound_disjoint ordered vLive wLive ne
  headers _ slab := sound_headers ordered slab
  result _ _ _ fits steps := (step_spec ordered fits steps).2.1
  panics event fits large := by
    cases steps : s.step event with
    | none => rfl
    | some result => exact absurd large (step_spec ordered fits steps).2.2
  reusable _ _ isLive slot := sound_reusable ordered isLive slot

theorem ordered_start {buddy : Buddy} {memory : Nat → UInt8} {header : Nat → Allocdata}
    (tidy : buddy.Tidy) (none' : ∀ f, buddy.type f ≠ .allocated) :
    Ordered { buddy := buddy, alloclist := fun _ => [], header := header, memory := memory } (fun _ => none) none := by
  have notSlab : ∀ f, ¬IsSlab
      { buddy := buddy, alloclist := fun _ => [], header := header, memory := memory }
      (fun _ => none) f := fun f slab => none' f slab.2.1
  refine ⟨tidy, ?_, ?_, ?_, ?_, ?_, fun _ => List.nodup_nil, ?_⟩
  · exact fun f slab => absurd slab (notSlab f)
  · exact fun f _ _ slab => absurd slab (notSlab f)
  · exact fun f _ slab => absurd slab (notSlab f)
  · exact fun f _ slab => absurd slab (notSlab f)
  · exact fun f i member => by cases member
  · exact fun v u isLive => by cases isLive

theorem ordered_boot (image : Image) : Ordered (boot image).heap (boot image).live none := by
  have booting := booting_mmInitGlobal image.head image.stop
  rw [boot]
  refine ordered_start booting.tidy ?_
  intro f type
  have reserved := (booting.reserved f (.inl type)).1
  rw [type] at reserved
  cases reserved

theorem ordered_run {image : Image} {events : List HeapEvent} {after : HeapState}
    (run : Run FitStep (boot image) events after) : Ordered after.heap after.live none := by
  refine run.keeps (fun s => Ordered s.heap s.live none) ?_ (ordered_boot image)
  rintro before event next ⟨⟨r, steps⟩, fits⟩ ordered
  exact (step_spec ordered fits steps).1

theorem boot_threePages : boot largeImage = { boot largeImage with heap := {
    (boot largeImage).heap with
      buddy := ((reservedPages.mmPageFree 32765).mmPageFree 32766).mmPageFree 32767 } } := by
  have booted : mmInitGlobal largeImage.head largeImage.stop =
      ((reservedPages.mmPageFree 32765).mmPageFree 32766).mmPageFree 32767 := by
    rw [← boot_buddy, boot_largeImage]
  rw [boot, booted]

/-- As long as the size of every request is computed without overflow, the heap keeps its contract
with its callers. -/
theorem heap_contract (image : Image) {events : List HeapEvent} {after : HeapState}
    (run : Run FitStep (boot image) events after) : Sound after :=
  sound (ordered_run run)

theorem heap_contract_slot : ∃ after, (boot largeImage).step (.alloc 100) = some (after, pageToVirt 32765 + 128) ∧
    Sound after := by
  obtain ⟨after, steps⟩ : ∃ after, (boot largeImage).step (.alloc 100) = some (after, pageToVirt 32765 + 128) := by
    rw [boot_threePages]
    exact ⟨_, rfl⟩
  exact ⟨after, steps, heap_contract largeImage
    (Run.cons ⟨⟨_, steps⟩, show (100 : Nat) ≤ 0x7FFFF000 by decide⟩ (Run.nil _))⟩

theorem large_request_page : ∃ t, (boot largeImage).step (.alloc 0x80000000) =
    some (t, pageToVirt 32765) ∧ t.live (pageToVirt 32765) = some 4096 := by
  rw [boot_threePages]
  exact ⟨_, rfl, by decide⟩

/-- The number of bytes of a request of 2 GiB is negative, and it gets one page. -/
theorem single_page_for_large_request :
    ¬∀ image event t r, (boot image).step event = some (t, r) → Result (boot image) r t event := by
  intro always
  obtain ⟨t, steps, live⟩ := large_request_page
  obtain ⟨-, -, u, enough, after⟩ := always largeImage (.alloc 0x80000000) t _ steps
  rw [after, update_self, some.injEq] at live
  rw [live] at enough
  exact absurd enough (by decide)

end HeapState

end DisasVisor.Mm
