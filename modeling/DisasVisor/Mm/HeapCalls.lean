import Mathlib.Data.Finset.Prod
import DisasVisor.Mm.HeapInvariant

/-!
What `alloc_pages`, `alloc`, `free` and `realloc` do to an ordered heap.
-/

namespace DisasVisor.Mm

open Function Buddy Allocdata
open Option (some.injEq)

structure Provided (s : Heap) (live : Nat → Option Nat) (r u : Nat) (t : Heap) : Prop where
  ordered : Ordered t (update live r (some u)) none
  fresh : live r = none
  memory : t.memory = s.memory
  nonnull : r ≠ 0

variable {s t : Heap} {live : Nat → Option Nat} {f i k r : Nat}

theorem pageToVirt_ne_zero (f : Nat) : pageToVirt f ≠ 0 := by
  rw [pageToVirt, vmmStartVirt]
  omega

theorem allocPages_given (ordered : Ordered s live none) {n : Int32} (ran : s.allocPages n = some (r, t)) :
    ∃ i p b, i < numOfAllocsize ∧ (n * 4096).toInt ≤ allocsize i ∧ Given s.buddy i p b ∧
      r = pageToVirt p ∧ t = { s with buddy := b } := by
  unfold Heap.allocPages at ran
  cases search : (List.range numOfAllocsize).find? (fun i => (n * 4096).toInt ≤ allocsize i) with
  | none => simp only [search, reduceCtorEq] at ran
  | some i =>
    obtain ⟨enough, member, -⟩ := List.find?_range_eq_some.mp search
    rw [List.mem_range] at member
    cases given : s.buddy.mmPageAlloc i with
    | none => simp only [search, given, reduceCtorEq] at ran
    | some result =>
      obtain ⟨p, b⟩ := result
      simp only [search, given, some.injEq, Prod.mk.injEq] at ran
      exact ⟨i, p, b, member, of_decide_eq_true enough,
        given_mmPageAlloc ordered.tidy (by omega) given, ran.1.symm, ran.2.symm⟩

theorem allocPages_provided (ordered : Ordered s live none) {n : Int32} (ran : s.allocPages n = some (r, t)) :
    ∃ i, i < numOfAllocsize ∧ (n * 4096).toInt ≤ allocsize i ∧ Provided s live r (allocsize i) t := by
  obtain ⟨i, p, b, small, enough, given, rfl, rfl⟩ := allocPages_given ordered ran
  exact ⟨i, small, enough, ordered.givePages given, ordered.not_live_of_fresh given, rfl, pageToVirt_ne_zero p⟩

theorem takeSlot_some (slot : k < alloclistDatabit i)
    (above : alloclistHeadersize i ≤ k * alloclistSize i) (d : Allocdata) :
    s.takeSlot i f (k * alloclistSize i) d =
      some (slotAddr f i k, (s.setHeader f d).setAlloclist i (f :: s.alloclist i)) := by
  have header := headersize_pos i
  have fits := slot_fits slot
  have positive := alloclistSize_pos i
  unfold Heap.takeSlot
  rw [if_pos ⟨by omega, by omega⟩]
  rfl

structure TookSlot (s : Heap) (live : Nat → Option Nat) (i r : Nat) (t : Heap) : Prop where
  provided : Provided s live r (alloclistSize i) t
  isSlot : ∃ f k, k < alloclistDatabit i ∧ alloclistHeadersize i ≤ k * alloclistSize i ∧
    r = slotAddr f i k ∧ IsSlab t live f ∧ ∃ off, (t.header f).OfClass i off

theorem alloclistNew_given (ordered : Ordered s live none) (ran : s.alloclistNew i = some (f, t)) :
    ∃ b, Given s.buddy 0 f b ∧ t = { s with buddy := b }.setHeader f (Allocdata.new i) := by
  have order : (List.range numOfAllocsize).find?
      (fun i => ((1 : Int32) * 4096).toInt ≤ allocsize i) = some 0 := by decide
  unfold Heap.alloclistNew Heap.allocPages at ran
  simp only [order] at ran
  cases given : s.buddy.mmPageAlloc 0 with
  | none => simp only [given, reduceCtorEq] at ran
  | some result =>
    obtain ⟨p, b⟩ := result
    simp only [given, virtToPage_pageToVirt] at ran
    cases ran
    exact ⟨b, given_mmPageAlloc ordered.tidy (Nat.zero_le _) given, rfl⟩

theorem tookSlot_current (ordered : Ordered s live (some f)) (slab : IsSlab s live f)
    (of : (s.header f).OfClass i false) (slot : k < alloclistDatabit i) (free : ¬(s.header f).Used k)
    (ran : s.takeSlot i f (k * alloclistSize i) ((s.header f).mark (k / 8) (k % 8)) =
      some (r, t)) : TookSlot s live i r t := by
  obtain ⟨after, above, fresh⟩ := ordered.take slab of slot free
  rw [takeSlot_some slot above] at ran
  cases ran
  have nonnull : slotAddr f i k ≠ 0 := by
    have page := pageToVirt_ne_zero f
    unfold slotAddr
    omega
  refine ⟨⟨after, fresh, rfl, nonnull⟩, f, k, slot, above, rfl, slab, false, ?_⟩
  simpa using of.congr mark_n

theorem TookSlot.memory_congr {u : Heap} (took : TookSlot u live i r t)
    (same : u.memory = s.memory) : TookSlot s live i r t :=
  ⟨⟨took.provided.ordered, took.provided.fresh, took.provided.memory.trans same, took.provided.nonnull⟩, took.isSlot⟩

theorem allocLoop_spec (small : i < numOfAlloclist) (list : List Nat) : ∀ {s : Heap},
    Ordered s live none → s.alloclist i = list → s.allocLoop i list = some (r, t) →
    TookSlot s live i r t := by
  induction list with
  | nil =>
    intro s ordered _ ran
    unfold Heap.allocLoop at ran
    cases new : s.alloclistNew i with
    | none => simp only [new, reduceCtorEq] at ran
    | some result =>
      obtain ⟨f, u⟩ := result
      obtain ⟨b, given, rfl⟩ := alloclistNew_given ordered new
      obtain ⟨after, slab⟩ := ordered.newSlab given small
      simp only [new, Heap.header_setHeader] at ran
      rcases alloc_cases (Allocdata.new i) i with ⟨k, slot, free, found⟩ | ⟨full, -⟩
      · simp only [found] at ran
        refine TookSlot.memory_congr (tookSlot_current after slab ?_ slot ?_ ?_) rfl
        · simpa using ofClass_new small
        · simpa using free
        · simpa using ran
      · simp only [full, reduceCtorEq] at ran
  | cons f rest ih =>
    intro s ordered listed ran
    have popped := ordered.pop listed
    obtain ⟨slab, of, -⟩ := ordered.members f i (by simp [listed])
    unfold Heap.allocLoop at ran
    simp only [Heap.header_setAlloclist] at ran
    rcases alloc_cases (s.header f) i with ⟨k, slot, free, found⟩ | ⟨full, used⟩
    · simp only [found] at ran
      exact (tookSlot_current popped slab of slot free ran).memory_congr rfl
    · simp only [full] at ran
      have flagged := popped.flag slab of used
      refine (ih flagged ?_ ran).memory_congr rfl
      simp [Heap.setAlloclist]

def Representable (len : UInt32) : Prop := len.toNat ≤ 0x7FFFF000

instance (len : UInt32) : Decidable (Representable len) := by
  unfold Representable
  infer_instance

variable {len : UInt32} {p u : Nat}

theorem pages_of_len (representable : Representable len) :
    (len.toNat : Int) ≤ (((len + 4095) / 4096).toInt32 * 4096).toInt := by
  unfold Representable at representable
  have page : (4096 : UInt32).toNat = 4096 := rfl
  have round : (4095 : UInt32).toNat = 4095 := rfl
  generalize count : (len + 4095) / 4096 = n
  have countNat : n.toNat = (len.toNat + 4095) / 4096 := by
    rw [← count, UInt32.toNat_div, UInt32.toNat_add, page, round, Nat.mod_eq_of_lt (by omega)]
  have signed : n.toInt32.toInt = n.toNat := by
    change n.toBitVec.toInt = n.toNat
    rw [BitVec.toInt_eq_toNat_of_lt (by change 2 * n.toNat < 2 ^ 32; omega)]
    rfl
  have factor : (4096 : Int32).toInt = 4096 := rfl
  rw [Int32.toInt_mul, signed, factor, Int.bmod_eq_of_le (by omega) (by omega)]
  omega

theorem allocsize_le {i : Nat} (small : i < numOfAllocsize) : allocsize i ≤ 2 ^ 24 := by
  have all : ∀ i, i < numOfAllocsize → allocsize i ≤ 2 ^ 24 := by decide
  exact all i small

theorem alloclistSize_le {i : Nat} (small : i < numOfAlloclist) : alloclistSize i ≤ 2 ^ 24 := by
  have all : ∀ i, i < numOfAlloclist → alloclistSize i ≤ 2 ^ 24 := by decide
  exact all i small

theorem alloc_provided (ordered : Ordered s live none) (representable : Representable len)
    (ran : s.alloc len = some (r, t)) : ∃ u, len.toNat ≤ u ∧ u ≤ 2 ^ 24 ∧ Provided s live r u t := by
  unfold Heap.alloc at ran
  cases search : (List.range numOfAlloclist).find? (fun i => len.toNat ≤ alloclistSize i) with
  | none =>
    simp only [search] at ran
    obtain ⟨i, small, enough, provided⟩ := allocPages_provided ordered ran
    have pages := pages_of_len representable
    exact ⟨allocsize i, by omega, allocsize_le small, provided⟩
  | some i =>
    obtain ⟨enough, member, -⟩ := List.find?_range_eq_some.mp search
    rw [List.mem_range] at member
    simp only [search] at ran
    exact ⟨alloclistSize i, of_decide_eq_true enough, alloclistSize_le member,
      (allocLoop_spec member _ ordered rfl ran).provided⟩

theorem Ordered.kind (ordered : Ordered s live none) (isLive : live p = some u) :
    (∃ f, p = pageToVirt f ∧ p % pagesize = 0 ∧ u = allocsize (s.buddy.order f)) ∨
      ∃ f i off k, IsSlab s live f ∧ (s.header f).OfClass i off ∧ k < alloclistDatabit i ∧
        alloclistHeadersize i ≤ k * alloclistSize i ∧ p = slotAddr f i k ∧ u = alloclistSize i ∧
        virtToPage p = f ∧ p % pagesize = k * alloclistSize i ∧ p % pagesize ≠ 0 := by
  rcases ordered.pointers p u isLive with ⟨f, -, -, rfl, size⟩ | ⟨f, i, off, k, slab, of, slot, above, rfl, size⟩
  · have zero := @pageToVirt_mod f 0 (by decide)
    exact .inl ⟨f, rfl, zero, size⟩
  · have header := headersize_pos i
    have fits := slot_fits slot
    have positive := alloclistSize_pos i
    have offset := @pageToVirt_mod f (k * alloclistSize i) (by omega)
    exact .inr ⟨f, i, off, k, slab, of, slot, above, rfl, size, virtToPage_add f (by omega),
      offset, by unfold slotAddr; omega⟩

structure Released (s : Heap) (live : Nat → Option Nat) (p : Nat) (t : Heap) : Prop where
  ordered : Ordered t (update live p none) none
  memory : t.memory = s.memory

section

variable (ordered : Ordered s live none)
include ordered

theorem free_released (isLive : live p = some u) : ∃ t, s.free p = some t ∧ Released s live p t := by
  rcases ordered.kind isLive with ⟨f, rfl, zero, -⟩ |
    ⟨f, i, off, k, slab, of, slot, above, rfl, -, page, offset, nonzero⟩
  · refine ⟨s.freePage (pageToVirt f), ?_, ordered.freePages isLive, rfl⟩
    rw [Heap.free]
    simp only [if_pos zero]
  · have size := ordered.slot_size of slot above isLive
    rw [size] at isLive
    have used := (ordered.slots f i off slab of k slot).mpr (.inr isLive)
    rw [offset] at nonzero
    rw [Heap.free]
    simp only [page, offset, if_neg nonzero, of.flagged]
    cases off with
    | false =>
      obtain ⟨d, cleared, same, rest⟩ := free_spec (alloclistSize_pos i) used
      refine ⟨s.setHeader f d, ?_, ordered.clear slab of slot above same rest, rfl⟩
      simp only [Bool.false_eq_true, if_false, of.toNat, cleared]
    | true =>
      have listed := ordered.unflag slab of
      have of' := of.clearFlag
      have used' : (s.header f).clearFlag.Used k := by
        rw [used_clearFlag]
        exact used
      obtain ⟨d, cleared, same, rest⟩ := free_spec (alloclistSize_pos i) used'
      have slab' : IsSlab ((s.setHeader f (s.header f).clearFlag).setAlloclist i (f :: s.alloclist i)) live f := slab
      refine ⟨((s.setHeader f (s.header f).clearFlag).setAlloclist i
          (f :: s.alloclist i)).setHeader f d, ?_,
        listed.clear slab' (by simpa using of') slot above (by simpa using same) (by simpa using rest), rfl⟩
      simp [of'.toNat, cleared]

theorem getAllocLen_live (isLive : live p = some u) : (s.getAllocLen p).1 = u := by
  rcases ordered.kind isLive with ⟨f, rfl, zero, size⟩ |
    ⟨f, i, off, k, slab, of, slot, above, rfl, size, page, offset, nonzero⟩
  · rw [Heap.getAllocLen]
    simp only [if_pos zero, virtToPage_pageToVirt]
    exact size.symm
  · rw [Heap.getAllocLen]
    simp only [if_neg nonzero, page, of.class_eq]
    exact size.symm

theorem Ordered.memory_congr (memory : Nat → UInt8) : Ordered { s with memory := memory } live none :=
  ⟨ordered.tidy, ordered.slab, ordered.slots, ordered.full, ordered.listed, ordered.members,
    ordered.nodup, ordered.pointers⟩

end

structure Moved (s : Heap) (live : Nat → Option Nat) (p r u copied : Nat) (t : Heap) : Prop where
  ordered : Ordered t (update (update live r (some u)) p none) none
  fresh : live r = none
  nonnull : r ≠ 0
  memory : ∀ i, i < copied → t.memory (r + i) = s.memory (p + i)

theorem move_moved (ordered : Ordered s live none) {old : Nat} (isLive : live p = some old)
    (representable : Representable len) {copied : Nat} (ran : s.move p len copied = some (r, t)) :
    ∃ u, len.toNat ≤ u ∧ u ≤ 2 ^ 24 ∧ Moved s live p r u copied t := by
  unfold Heap.move at ran
  cases allocated : s.alloc len with
  | none => simp only [allocated, reduceCtorEq] at ran
  | some result =>
    obtain ⟨q, v⟩ := result
    obtain ⟨u, enough, most, provided⟩ := alloc_provided ordered representable allocated
    have other : p ≠ q := by
      rintro rfl
      rw [provided.fresh] at isLive
      cases isLive
    have copiedHeap : Ordered (v.memcpy q p copied) (update live q (some u)) none := provided.ordered.memory_congr _
    have still : update live q (some u) p = some old := by rw [update_of_ne other, isLive]
    obtain ⟨w, freed, released⟩ := free_released copiedHeap still
    simp only [allocated, freed] at ran
    cases ran
    refine ⟨u, enough, most, released.ordered, provided.fresh, provided.nonnull, ?_⟩
    intro i small
    rw [released.memory]
    unfold Heap.memcpy
    simp only
    rw [if_pos ⟨by omega, by omega⟩, provided.memory]
    congr 1
    omega

theorem realloc_cases (ordered : Ordered s live none) {old : Nat} (isLive : live p = some old) (null : p ≠ 0)
    (positive : len ≠ 0) (representable : Representable len) (ran : s.realloc p len = some (r, t)) :
    (r = p ∧ t = s ∧ len.toNat ≤ old) ∨
      ∃ u copied, len.toNat ≤ u ∧ u ≤ 2 ^ 24 ∧ min old len.toNat ≤ copied ∧ Moved s live p r u copied t := by
  have size := getAllocLen_live ordered isLive
  unfold Heap.realloc at ran
  generalize s.getAllocLen p = lens at size ran
  obtain ⟨oldlen, n, pagemode⟩ := lens
  simp only at size
  subst size
  simp only [null, positive, false_and, if_false] at ran
  by_cases same : oldlen = len.toNat
  · simp only [if_pos same, some.injEq, Prod.mk.injEq] at ran
    exact .inl ⟨ran.1.symm, ran.2.symm, by omega⟩
  · simp only [if_neg same] at ran
    by_cases extend : oldlen < len.toNat
    · simp only [if_pos extend] at ran
      obtain ⟨u, enough, most, moved⟩ := move_moved ordered isLive representable ran
      exact .inr ⟨u, oldlen, enough, most, by omega, moved⟩
    · simp only [if_neg extend] at ran
      generalize (if pagemode = true then
          if n > 0 then allocsize (n - 1) else alloclistSize (numOfAlloclist - 1)
        else if n > 0 then alloclistSize (n - 1) else alloclistSize 0) = smaller at ran
      split at ran
      · simp only [some.injEq, Prod.mk.injEq] at ran
        exact .inl ⟨ran.1.symm, ran.2.symm, by omega⟩
      · obtain ⟨u, enough, most, moved⟩ := move_moved ordered isLive representable ran
        exact .inr ⟨u, len.toNat, enough, most, by omega, moved⟩

def IsSlabOf (s : Heap) (live : Nat → Option Nat) (i f : Nat) : Prop :=
  IsSlab s live f ∧ ∃ off, (s.header f).OfClass i off

def IsFreeSlot (s : Heap) (live : Nat → Option Nat) (i : Nat) (slot : Nat × Nat) : Prop :=
  IsSlabOf s live i slot.1 ∧ slot.2 < alloclistDatabit i ∧
    alloclistHeadersize i ≤ slot.2 * alloclistSize i ∧ live (slotAddr slot.1 i slot.2) = none

noncomputable def freeSlots (s : Heap) (live : Nat → Option Nat) (i : Nat) : Finset (Nat × Nat) :=
  @Finset.filter _ (IsFreeSlot s live i) (Classical.decPred _)
    (Finset.range numOfPages ×ˢ Finset.range (alloclistDatabit i))

variable {g l : Nat}

theorem mem_freeSlots {slot : Nat × Nat} : slot ∈ freeSlots s live i ↔ IsFreeSlot s live i slot := by
  simp only [freeSlots, Finset.mem_filter, Finset.mem_product, Finset.mem_range]
  constructor
  · intro both
    exact both.2
  · intro free
    obtain ⟨⟨slab, of⟩, rest⟩ := free
    exact ⟨⟨slab.1, rest.1⟩, ⟨slab, of⟩, rest⟩

attribute [irreducible] freeSlots

structure SameSlabs (s t : Heap) : Prop where
  buddy : t.buddy = s.buddy
  classes : ∀ h j, (∃ off, (t.header h).OfClass j off) ↔ ∃ off, (s.header h).OfClass j off

theorem sameSlabs_setHeader {off off' : Bool} {d : Allocdata} (of : (s.header f).OfClass i off)
    (of' : d.OfClass i off') : SameSlabs s (s.setHeader f d) := by
  refine ⟨rfl, ?_⟩
  intro h j
  by_cases here : h = f
  · subst here
    rw [Heap.header_setHeader]
    constructor
    · rintro ⟨other, ofJ⟩
      obtain ⟨rfl, -⟩ := of'.unique ofJ
      exact ⟨off, of⟩
    · rintro ⟨other, ofJ⟩
      obtain ⟨rfl, -⟩ := of.unique ofJ
      exact ⟨off', of'⟩
  · have same : (s.setHeader f d).header h = s.header h := by simp [Heap.setHeader, here]
    rw [same]

theorem allocLoop_reuses (list : List Nat) : ∀ {s : Heap},
    Ordered s live none → s.alloclist i = list →
    (∃ f, f ∈ list ∧ ∃ k, k < alloclistDatabit i ∧ ¬(s.header f).Used k) →
    ∃ g l t, s.allocLoop i list = some (slotAddr g i l, t) ∧ IsFreeSlot s live i (g, l) ∧ SameSlabs s t := by
  induction list with
  | nil =>
    rintro s - - ⟨f, member, -⟩
    cases member
  | cons f rest ih =>
    intro s ordered listed
    rintro ⟨h, member, m, mSlot, mFree⟩
    have popped := ordered.pop listed
    obtain ⟨slab, of, -⟩ := ordered.members f i (by simp [listed])
    have distinct := ordered.nodup i
    rw [listed, List.nodup_cons] at distinct
    unfold Heap.allocLoop
    simp only [Heap.header_setAlloclist]
    rcases alloc_cases (s.header f) i with ⟨k, slot, free, found⟩ | ⟨full, used⟩
    · obtain ⟨-, above, fresh⟩ := popped.take slab of slot free
      simp only [found, takeSlot_some slot above]
      have marked : ((s.header f).mark (k / 8) (k % 8)).OfClass i false := of.congr mark_n
      exact ⟨f, k, _, rfl, ⟨⟨slab, false, of⟩, slot, above, fresh⟩,
        rfl, (sameSlabs_setHeader of marked).classes⟩
    · have other : h ≠ f := by
        rintro rfl
        exact mFree (used m mSlot)
      have later : h ∈ rest := by
        rcases List.mem_cons.mp member with same | later
        · exact absurd same other
        · exact later
      have flagged : Ordered ((s.setAlloclist i rest).setHeader f (s.header f).setFlag) live none :=
        popped.flag slab of used
      have same := sameSlabs_setHeader of of.setFlag
      have unchanged : ((s.setAlloclist i rest).setHeader f (s.header f).setFlag).header h =
          s.header h := by simp [Heap.setHeader, other]
      obtain ⟨g, l, t, ran, free, after⟩ := ih flagged (by simp [Heap.setAlloclist])
        ⟨h, later, m, mSlot, by rwa [unchanged]⟩
      simp only [full]
      refine ⟨g, l, t, ran, ?_, ⟨after.buddy.trans same.buddy, fun j c =>
        (after.classes j c).trans (same.classes j c)⟩⟩
      obtain ⟨⟨gSlab, gOf⟩, rest⟩ := free
      exact ⟨⟨gSlab, (same.classes g i).mp gOf⟩, rest⟩

theorem class_of_size (small : i < numOfAlloclist) :
    (List.range numOfAlloclist).find?
      (fun j => (UInt32.ofNat (alloclistSize i)).toNat ≤ alloclistSize j) = some i := by
  have all : ∀ i, i < numOfAlloclist → (List.range numOfAlloclist).find?
      (fun j => (UInt32.ofNat (alloclistSize i)).toNat ≤ alloclistSize j) = some i := by decide
  exact all i small

theorem alloc_reuses (small : i < numOfAlloclist) (ordered : Ordered s live none)
    (free : (freeSlots s live i).Nonempty) :
    ∃ slot t, slot ∈ freeSlots s live i ∧
      s.alloc (UInt32.ofNat (alloclistSize i)) = some (slotAddr slot.1 i slot.2, t) ∧
      Ordered t (update live (slotAddr slot.1 i slot.2) (some (alloclistSize i))) none ∧
      freeSlots t (update live (slotAddr slot.1 i slot.2) (some (alloclistSize i))) i =
        (freeSlots s live i).erase slot := by
  obtain ⟨⟨h, m⟩, member⟩ := free
  rw [mem_freeSlots] at member
  obtain ⟨⟨slab, off, of⟩, slot, above, notLive⟩ := member
  simp only at slab of slot above notLive
  have notUsed : ¬(s.header h).Used m := by
    rw [ordered.slots h i off slab of m slot, notLive]
    simp
    omega
  have listed : h ∈ s.alloclist i := by
    cases off with
    | false => exact ordered.listed h i slab of (by simp)
    | true => exact absurd (ordered.full h i slab of m slot) notUsed
  obtain ⟨g, l, t, ran, found, same⟩ := allocLoop_reuses _ ordered rfl ⟨h, listed, m, slot, notUsed⟩
  have took := allocLoop_spec small _ ordered rfl ran
  refine ⟨(g, l), t, mem_freeSlots.mpr found, ?_, took.provided.ordered, ?_⟩
  · rw [Heap.alloc, class_of_size small]
    exact ran
  · ext ⟨f, k⟩
    rw [Finset.mem_erase, mem_freeSlots, mem_freeSlots]
    obtain ⟨-, lSlot, lAbove, -⟩ := found
    have pages : ∀ v, update live (slotAddr g i l) (some (alloclistSize i)) (pageToVirt v) = live (pageToVirt v) :=
      fun v => update_of_ne (slotAddr_ne_page lSlot lAbove v).symm _ _
    unfold IsFreeSlot IsSlabOf IsSlab
    rw [same.buddy, same.classes, pages]
    simp only
    constructor
    · rintro ⟨isSlab, kSlot, kAbove, none⟩
      by_cases here : (f, k) = (g, l)
      · cases here
        simp at none
      · have away : slotAddr f i k ≠ slotAddr g i l := by
          intro eq
          obtain ⟨rfl, rfl⟩ := slotAddr_inj kSlot lSlot eq
          exact here rfl
        rw [update_of_ne away] at none
        exact ⟨here, isSlab, kSlot, kAbove, none⟩
    · rintro ⟨here, isSlab, kSlot, kAbove, none⟩
      have away : slotAddr f i k ≠ slotAddr g i l := by
        intro eq
        obtain ⟨rfl, rfl⟩ := slotAddr_inj kSlot lSlot eq
        exact here rfl
      rw [update_of_ne away]
      exact ⟨isSlab, kSlot, kAbove, none⟩

theorem free_sameSlabs (ordered : Ordered s live none) (isLive : live p = some u) (slot : p % pagesize ≠ 0)
    (freed : s.free p = some t) : SameSlabs s t := by
  rcases ordered.kind isLive with ⟨f, -, zero, -⟩ |
    ⟨f, i, off, k, slab, of, lSlot, above, rfl, size, page, offset, nonzero⟩
  · exact absurd zero slot
  · rw [offset] at nonzero
    rw [size] at isLive
    have used := (ordered.slots f i off slab of k lSlot).mpr (.inr isLive)
    rw [Heap.free] at freed
    simp only [page, offset, if_neg nonzero, of.flagged] at freed
    cases off with
    | false =>
      obtain ⟨d, cleared, same, -⟩ := free_spec (alloclistSize_pos i) used
      simp only [Bool.false_eq_true, if_false, of.toNat, cleared] at freed
      cases freed
      exact sameSlabs_setHeader of (of.congr same)
    | true =>
      have of' := of.clearFlag
      have used' : (s.header f).clearFlag.Used k := by
        rw [used_clearFlag]
        exact used
      obtain ⟨d, cleared, same, -⟩ := free_spec (alloclistSize_pos i) used'
      simp only [if_true, of'.toNat, Heap.header_setAlloclist, Heap.header_setHeader, cleared] at freed
      cases freed
      have first := sameSlabs_setHeader of of'
      have onList : ((s.setHeader f (s.header f).clearFlag).header f).OfClass i false := by
        rw [Heap.header_setHeader]
        exact of'
      have second := sameSlabs_setHeader onList (of'.congr same)
      exact ⟨rfl, fun h j => (second.classes h j).trans (first.classes h j)⟩

end DisasVisor.Mm
