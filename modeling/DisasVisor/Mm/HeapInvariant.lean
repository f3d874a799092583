import DisasVisor.Mm.Heap

/-!
Which page each live pointer of the heap belongs to, and what the operations of the heap do to the
slots and the lists.
-/

namespace DisasVisor.Mm

open Function Buddy Allocdata

def slotAddr (f i k : Nat) : Nat := pageToVirt f + k * alloclistSize i

def IsSlab (s : Heap) (live : Nat → Option Nat) (f : Nat) : Prop :=
  f < numOfPages ∧ s.buddy.type f = .allocated ∧ live (pageToVirt f) = none

/-- Each live pointer is a block of pages or a slot, and the headers know the slots. The current
page, if there is one, is off its list while `alloc` works on it. -/
structure Ordered (s : Heap) (live : Nat → Option Nat) (current : Option Nat) : Prop where
  tidy : s.buddy.Tidy
  slab : ∀ f, IsSlab s live f → s.buddy.order f = 0 ∧ ∃ i off, (s.header f).OfClass i off
  slots : ∀ f i off, IsSlab s live f → (s.header f).OfClass i off → ∀ k, k < alloclistDatabit i →
    ((s.header f).Used k ↔ k * alloclistSize i < alloclistHeadersize i ∨
      live (slotAddr f i k) = some (alloclistSize i))
  full : ∀ f i, IsSlab s live f → (s.header f).OfClass i true → ∀ k, k < alloclistDatabit i → (s.header f).Used k
  listed : ∀ f i, IsSlab s live f → (s.header f).OfClass i false → current ≠ some f → f ∈ s.alloclist i
  members : ∀ f i, f ∈ s.alloclist i → IsSlab s live f ∧ (s.header f).OfClass i false ∧ current ≠ some f
  nodup : ∀ i, (s.alloclist i).Nodup
  pointers : ∀ v u, live v = some u →
    (∃ f, f < numOfPages ∧ s.buddy.type f = .allocated ∧ v = pageToVirt f ∧
        u = allocsize (s.buddy.order f)) ∨
      ∃ f i off k, IsSlab s live f ∧ (s.header f).OfClass i off ∧ k < alloclistDatabit i ∧
        alloclistHeadersize i ≤ k * alloclistSize i ∧ v = slotAddr f i k ∧ u = alloclistSize i

variable {s : Heap} {live : Nat → Option Nat} {current : Option Nat} {f g i j k l : Nat}

theorem pageToVirt_mod (f : Nat) {offset : Nat} (small : offset < pagesize) :
    (pageToVirt f + offset) % pagesize = offset := by
  rw [pagesize] at small
  rw [pageToVirt, vmmStartVirt, pagesize]
  omega

theorem virtToPage_add (f : Nat) {offset : Nat} (small : offset < pagesize) :
    virtToPage (pageToVirt f + offset) = f := by
  rw [pagesize] at small
  rw [virtToPage, pageToVirt, vmmStartVirt, pagesize, Nat.shiftRight_eq_div_pow]
  omega

theorem virtToPage_pageToVirt (f : Nat) : virtToPage (pageToVirt f) = f := @virtToPage_add f 0 (by decide)

theorem alloclistSize_pos (i : Nat) : 0 < alloclistSize i := Nat.mul_pos (Nat.two_pow_pos i) (by decide)

theorem slot_fits (slot : k < alloclistDatabit i) : k * alloclistSize i + alloclistSize i ≤ pagesize := by
  have whole := Nat.div_mul_le_self pagesize (alloclistSize i)
  calc k * alloclistSize i + alloclistSize i = (k + 1) * alloclistSize i := (Nat.succ_mul _ _).symm
    _ ≤ pagesize / alloclistSize i * alloclistSize i := Nat.mul_le_mul_right _ slot
    _ ≤ pagesize := whole

theorem slotAddr_inj (fSlot : k < alloclistDatabit i)
    (gSlot : l < alloclistDatabit i) (same : slotAddr f i k = slotAddr g i l) : f = g ∧ k = l := by
  have positive := alloclistSize_pos i
  have fFits := slot_fits fSlot
  have gFits := slot_fits gSlot
  have page : f = g := by
    rw [← @virtToPage_add f (k * alloclistSize i) (by omega), ← @virtToPage_add g (l * alloclistSize i) (by omega)]
    exact congrArg virtToPage same
  subst page
  refine ⟨rfl, ?_⟩
  unfold slotAddr at same
  exact Nat.eq_of_mul_eq_mul_right positive (by omega)

theorem headersize_pos (i : Nat) : 0 < alloclistHeadersize i := by
  unfold alloclistHeadersize
  omega

theorem slotAddr_ne_page (slot : k < alloclistDatabit i)
    (above : alloclistHeadersize i ≤ k * alloclistSize i) (g : Nat) : slotAddr f i k ≠ pageToVirt g := by
  intro same
  have positive := alloclistSize_pos i
  have header := headersize_pos i
  have fits := slot_fits slot
  have offset := @pageToVirt_mod f (k * alloclistSize i) (by omega)
  have zero := @pageToVirt_mod g 0 (by decide)
  rw [Nat.add_zero] at zero
  unfold slotAddr at same
  rw [same, zero] at offset
  omega

theorem pageToVirt_inj (same : pageToVirt f = pageToVirt g) : f = g := by
  rw [← virtToPage_pageToVirt f, same, virtToPage_pageToVirt]

variable {u p : Nat} {t : Buddy}

section

variable (ordered : Ordered s live current)
include ordered

theorem Ordered.page_live (isLive : live (pageToVirt f) = some u) :
    f < numOfPages ∧ s.buddy.type f = .allocated ∧ u = allocsize (s.buddy.order f) := by
  rcases ordered.pointers _ u isLive with ⟨g, page, type, same, size⟩ | ⟨g, i, off, k, -, of, slot, above, same, -⟩
  · rw [pageToVirt_inj same]
    exact ⟨page, type, size⟩
  · exact absurd same.symm (slotAddr_ne_page slot above f)

theorem Ordered.page_none (free : f < numOfPages → s.buddy.type f ≠ .allocated) : live (pageToVirt f) = none := by
  cases isLive : live (pageToVirt f) with
  | none => rfl
  | some u =>
    obtain ⟨page, type, -⟩ := ordered.page_live isLive
    exact absurd type (free page)

theorem Ordered.pages {live' : Nat → Option Nat} (tidy : t.Tidy)
    (keeps : Keeps s.buddy t p) (others : ∀ v, v ≠ pageToVirt p → live' v = live v) (notSlab : ¬IsSlab s live p)
    (notSlab' : ¬IsSlab { s with buddy := t } live' p) (pointer : ∀ u, live' (pageToVirt p) = some u →
      p < numOfPages ∧ t.type p = .allocated ∧ u = allocsize (t.order p)) :
    Ordered { s with buddy := t } live' current := by
  have same : ∀ f, IsSlab { s with buddy := t } live' f ↔ IsSlab s live f := by
    intro f
    by_cases here : f = p
    · subst here
      exact ⟨fun slab => absurd slab notSlab', fun slab => absurd slab notSlab⟩
    · have virt : pageToVirt f ≠ pageToVirt p := fun eq => here (pageToVirt_inj eq)
      unfold IsSlab
      rw [others _ virt]
      constructor
      · rintro ⟨page, type, notLive⟩
        have before := (keeps f here (.inr (.inl type))).1
        exact ⟨page, before.symm.trans type, notLive⟩
      · rintro ⟨page, type, notLive⟩
        have after := (keeps f here (.inl (.inl type))).1
        exact ⟨page, after.trans type, notLive⟩
  have slotSame : ∀ f i k, k < alloclistDatabit i → alloclistHeadersize i ≤ k * alloclistSize i →
      live' (slotAddr f i k) = live (slotAddr f i k) :=
    fun f i k slot above => others _ (slotAddr_ne_page slot above p)
  refine ⟨tidy, ?_, ?_, ?_, ?_, ?_, ordered.nodup, ?_⟩
  · intro f slab
    have old := (same f).mp slab
    have other : f ≠ p := by
      rintro rfl
      exact notSlab old
    obtain ⟨order, header⟩ := ordered.slab f old
    have type := (keeps f other (.inl (.inl old.2.1))).2
    exact ⟨type.trans order, header⟩
  · intro f i off slab of k slot
    have before := ordered.slots f i off ((same f).mp slab) of k slot
    by_cases under : k * alloclistSize i < alloclistHeadersize i
    · simp only [under, true_or] at before ⊢
      exact before
    · rw [slotSame f i k slot (by omega)]
      exact before
  · exact fun f i slab of => ordered.full f i ((same f).mp slab) of
  · exact fun f i slab of other => ordered.listed f i ((same f).mp slab) of other
  · intro f i member
    obtain ⟨slab, rest⟩ := ordered.members f i member
    exact ⟨(same f).mpr slab, rest⟩
  · intro v u isLive
    by_cases atPage : v = pageToVirt p
    · subst atPage
      obtain ⟨page, type, size⟩ := pointer u isLive
      exact .inl ⟨p, page, type, rfl, size⟩
    · rw [others v atPage] at isLive
      rcases ordered.pointers v u isLive with ⟨f, page, type, rfl, size⟩ | ⟨f, i, off, k, slab, rest⟩
      · have other : f ≠ p := by
          rintro rfl
          exact atPage rfl
        obtain ⟨sameType, sameOrder⟩ := keeps f other (.inl (.inl type))
        exact .inl ⟨f, page, sameType.trans type, rfl, by rw [size]; exact congrArg _ sameOrder.symm⟩
      · exact .inr ⟨f, i, off, k, (same f).mpr slab, rest⟩

theorem Ordered.not_live_of_fresh {n : Nat} (given : Given s.buddy n p t) : live (pageToVirt p) = none :=
  ordered.page_none (fun _ type => given.fresh (.inl type))

theorem Ordered.givePages {n : Nat} (given : Given s.buddy n p t) :
    Ordered { s with buddy := t } (update live (pageToVirt p) (some (allocsize n))) current := by
  refine ordered.pages given.tidy given.keeps ?_ ?_ ?_ ?_
  · intro v other
    rw [update_of_ne other]
  · exact fun slab => given.fresh (.inl slab.2.1)
  · rintro ⟨-, -, notLive⟩
    simp at notLive
  · intro u isLive
    simp only [update_self, Option.some.injEq] at isLive
    exact ⟨given.page, given.type, by rw [given.order, isLive]⟩

end

theorem Ordered.freePages (ordered : Ordered s live none) (isLive : live (pageToVirt p) = some u) :
    Ordered (s.freePage (pageToVirt p)) (update live (pageToVirt p) none) none := by
  obtain ⟨page, type, -⟩ := ordered.page_live isLive
  obtain ⟨tidy, gone, keeps, -⟩ := freed_mmPageFree ordered.tidy page (.inl type)
  unfold Heap.freePage
  rw [virtToPage_pageToVirt]
  refine ordered.pages tidy keeps ?_ ?_ ?_ ?_
  · intro v other
    rw [update_of_ne other]
  · rintro ⟨-, -, notLive⟩
    rw [isLive] at notLive
    cases notLive
  · exact fun slab => gone (.inl slab.2.1)
  · intro w still
    simp at still

def OffSlots (f i v : Nat) : Prop :=
  ∀ k, k < alloclistDatabit i → alloclistHeadersize i ≤ k * alloclistSize i → v ≠ slotAddr f i k

theorem Ordered.setSlab {off off' : Bool} {current' : Option Nat} {d : Allocdata}
    {lists : Nat → List Nat} {live' : Nat → Option Nat} (ordered : Ordered s live current)
    (slab : IsSlab s live f) (of : (s.header f).OfClass i off) (of' : d.OfClass i off')
    (currents : ∀ g, g ≠ f → current ≠ some g ∧ current' ≠ some g) (others : ∀ v, OffSlots f i v → live' v = live v)
    (used : ∀ k, k < alloclistDatabit i → (d.Used k ↔
      k * alloclistSize i < alloclistHeadersize i ∨ live' (slotAddr f i k) = some (alloclistSize i)))
    (sizes : ∀ k u, k < alloclistDatabit i → live' (slotAddr f i k) = some u →
      alloclistHeadersize i ≤ k * alloclistSize i → u = alloclistSize i)
    (full : off' = true → ∀ k, k < alloclistDatabit i → d.Used k)
    (otherLists : ∀ g j, g ≠ f → (g ∈ lists j ↔ g ∈ s.alloclist j))
    (place : ∀ j, f ∈ lists j ↔ j = i ∧ off' = false ∧ current' ≠ some f) (nodup : ∀ j, (lists j).Nodup) :
    Ordered { s with header := update s.header f d, alloclist := lists } live' current' := by
  have pages : ∀ g, live' (pageToVirt g) = live (pageToVirt g) :=
    fun g => others _ (fun k slot above => (slotAddr_ne_page slot above g).symm)
  have same : ∀ g, IsSlab { s with header := update s.header f d, alloclist := lists } live' g ↔ IsSlab s live g := by
    intro g
    unfold IsSlab
    rw [pages]
  have elsewhere : ∀ g j k, g ≠ f → k < alloclistDatabit j →
      alloclistHeadersize j ≤ k * alloclistSize j → live' (slotAddr g j k) = live (slotAddr g j k) := by
    intro g j k ne slot above
    apply others
    intro l lSlot _ eq
    apply ne
    have gFits := slot_fits slot
    have fFits := slot_fits lSlot
    have gPositive := alloclistSize_pos j
    have fPositive := alloclistSize_pos i
    rw [← @virtToPage_add g (k * alloclistSize j) (by omega), ← @virtToPage_add f (l * alloclistSize i) (by omega)]
    exact congrArg virtToPage eq
  refine ⟨ordered.tidy, ?_, ?_, ?_, ?_, ?_, nodup, ?_⟩
  · intro g isSlab
    obtain ⟨order, j, other, ofG⟩ := ordered.slab g ((same g).mp isSlab)
    refine ⟨order, ?_⟩
    by_cases here : g = f
    · subst here
      exact ⟨i, off', by simpa using of'⟩
    · exact ⟨j, other, by simpa [here] using ofG⟩
  · intro g j other isSlab ofG k slot
    by_cases here : g = f
    · subst here
      simp only [update_self] at ofG ⊢
      obtain ⟨rfl, -⟩ := of'.unique ofG
      exact used k slot
    · simp only [update_of_ne here] at ofG ⊢
      have before := ordered.slots g j other ((same g).mp isSlab) ofG k slot
      by_cases under : k * alloclistSize j < alloclistHeadersize j
      · simp only [under, true_or] at before ⊢
        exact before
      · rw [elsewhere g j k here slot (by omega)]
        exact before
  · intro g j isSlab ofG
    by_cases here : g = f
    · subst here
      simp only [update_self] at ofG ⊢
      obtain ⟨rfl, isOff⟩ := of'.unique ofG
      exact full isOff
    · simp only [update_of_ne here] at ofG ⊢
      exact ordered.full g j ((same g).mp isSlab) ofG
  · intro g j isSlab ofG notCurrent
    by_cases here : g = f
    · subst here
      simp only [update_self] at ofG
      obtain ⟨rfl, isOn⟩ := of'.unique ofG
      exact (place i).mpr ⟨rfl, isOn, notCurrent⟩
    · simp only [update_of_ne here] at ofG
      exact (otherLists g j here).mpr (ordered.listed g j ((same g).mp isSlab) ofG (currents g here).1)
  · intro g j member
    by_cases here : g = f
    · subst here
      obtain ⟨rfl, rfl, notCurrent⟩ := (place j).mp member
      exact ⟨(same g).mpr slab, by simpa using of', notCurrent⟩
    · obtain ⟨isSlab, ofG, -⟩ := ordered.members g j ((otherLists g j here).mp member)
      exact ⟨(same g).mpr isSlab, by simpa [here] using ofG, (currents g here).2⟩
  · intro v u isLive
    by_cases ofSlots : OffSlots f i v
    · rw [others v ofSlots] at isLive
      rcases ordered.pointers v u isLive with isPage | ⟨g, j, other, k, isSlab, ofG, slot, above, rfl, size⟩
      · exact .inl isPage
      · have here : g ≠ f := by
          rintro rfl
          obtain ⟨rfl, -⟩ := of.unique ofG
          exact ofSlots k slot above rfl
        exact .inr ⟨g, j, other, k, (same g).mpr isSlab, by simpa [here] using ofG, slot, above,
          rfl, size⟩
    · simp only [OffSlots, not_forall] at ofSlots
      obtain ⟨k, slot, above, isSlot⟩ := ofSlots
      rw [ne_eq, not_not] at isSlot
      subst isSlot
      exact .inr ⟨f, i, off', k, (same f).mpr slab, by simpa using of', slot, above, rfl, sizes k u slot isLive above⟩

theorem slotAddr_page (slot : k < alloclistDatabit i) {g j l : Nat} (lSlot : l < alloclistDatabit j)
    (same : slotAddr f i k = slotAddr g j l) : f = g := by
  have kFits := slot_fits slot
  have lFits := slot_fits lSlot
  have kPositive := alloclistSize_pos i
  have lPositive := alloclistSize_pos j
  rw [← @virtToPage_add f (k * alloclistSize i) (by omega), ← @virtToPage_add g (l * alloclistSize j) (by omega)]
  exact congrArg virtToPage same

theorem Ordered.slot_size {off : Bool} (ordered : Ordered s live current) (of : (s.header f).OfClass i off)
    (slot : k < alloclistDatabit i) (above : alloclistHeadersize i ≤ k * alloclistSize i)
    (isLive : live (slotAddr f i k) = some u) : u = alloclistSize i := by
  rcases ordered.pointers _ u isLive with ⟨g, -, -, same, -⟩ | ⟨g, j, other, l, -, ofG, lSlot, -, same, size⟩
  · exact absurd same (slotAddr_ne_page slot above g)
  · obtain rfl := slotAddr_page slot lSlot same
    obtain ⟨rfl, -⟩ := of.unique ofG
    exact size

theorem Ordered.pop {rest : List Nat} (ordered : Ordered s live none)
    (list : s.alloclist i = f :: rest) : Ordered (s.setAlloclist i rest) live (some f) := by
  obtain ⟨slab, of, -⟩ := ordered.members f i (by simp [list])
  have distinct := ordered.nodup i
  rw [list, List.nodup_cons] at distinct
  have same : s.setAlloclist i rest = { s with
      header := update s.header f (s.header f),
      alloclist := update s.alloclist i rest } := by
    rw [Function.update_eq_self]
    rfl
  rw [same]
  refine ordered.setSlab slab of of ?_ (fun v _ => rfl) (ordered.slots f i false slab of) ?_ ?_ ?_ ?_ ?_
  · intro g ne
    simp [Ne.symm ne]
  · exact fun k u slot isLive above => ordered.slot_size of slot above isLive
  · intro isOff
    cases isOff
  · intro g j ne
    by_cases here : j = i
    · subst here
      simp [list, ne]
    · simp [here]
  · intro j
    simp only [ne_eq, not_true_eq_false, and_false, iff_false]
    by_cases here : j = i
    · subst here
      simpa using distinct.1
    · simp only [update_of_ne here]
      intro member
      exact here ((ordered.members f j member).2.1.unique of).1
  · intro j
    by_cases here : j = i
    · subst here
      simpa using distinct.2
    · simp only [update_of_ne here]
      exact ordered.nodup j

section

variable (ordered : Ordered s live (some f))
include ordered

theorem Ordered.not_listed (j : Nat) : f ∉ s.alloclist j :=
  fun member => (ordered.members f j member).2.2 rfl

theorem Ordered.flag (slab : IsSlab s live f)
    (of : (s.header f).OfClass i false) (full : ∀ k, k < alloclistDatabit i → (s.header f).Used k) :
    Ordered (s.setHeader f (s.header f).setFlag) live none := by
  refine ordered.setSlab slab of of.setFlag ?_ (fun v _ => rfl) ?_ ?_ (fun _ => full)
    (fun g j _ => Iff.rfl) ?_ ordered.nodup
  · intro g ne
    simp [Ne.symm ne]
  · intro k slot
    rw [used_setFlag]
    exact ordered.slots f i false slab of k slot
  · exact fun k u slot isLive above => ordered.slot_size of slot above isLive
  · intro j
    simp [ordered.not_listed j]

theorem Ordered.take (slab : IsSlab s live f)
    (of : (s.header f).OfClass i false) (slot : k < alloclistDatabit i) (free : ¬(s.header f).Used k) :
    Ordered ((s.setHeader f ((s.header f).mark (k / 8) (k % 8))).setAlloclist i
      (f :: s.alloclist i)) (update live (slotAddr f i k) (some (alloclistSize i))) none ∧
      alloclistHeadersize i ≤ k * alloclistSize i ∧ live (slotAddr f i k) = none := by
  have before := ordered.slots f i false slab of k slot
  simp only [free, false_iff, not_or, Nat.not_lt] at before
  obtain ⟨above, notSize⟩ := before
  have fresh : live (slotAddr f i k) = none := by
    cases isLive : live (slotAddr f i k) with
    | none => rfl
    | some u =>
      rw [ordered.slot_size of slot above isLive] at isLive
      exact absurd isLive notSize
  refine ⟨?_, above, fresh⟩
  have marked : ∀ l, ((s.header f).mark (k / 8) (k % 8)).Used l ↔ l = k ∨ (s.header f).Used l := by
    intro l
    rw [used_mark (Nat.mod_lt _ (by omega)), Nat.div_add_mod']
  refine ordered.setSlab slab of (of.congr mark_n) ?_ ?_ ?_ ?_ ?_ ?_ ?_ ?_
  · intro g ne
    simp [Ne.symm ne]
  · intro v off
    rw [update_of_ne (off k slot above)]
  · intro l lSlot
    rw [marked]
    by_cases here : l = k
    · subst here
      simp
    · have away : slotAddr f i l ≠ slotAddr f i k := fun eq => here (slotAddr_inj lSlot slot eq).2
      rw [update_of_ne away]
      simp only [here, false_or]
      exact ordered.slots f i false slab of l lSlot
  · intro l u lSlot isLive lAbove
    by_cases here : l = k
    · subst here
      simp only [update_self, Option.some.injEq] at isLive
      exact isLive.symm
    · have away : slotAddr f i l ≠ slotAddr f i k := fun eq => here (slotAddr_inj lSlot slot eq).2
      rw [update_of_ne away] at isLive
      exact ordered.slot_size of lSlot lAbove isLive
  · intro isOff
    cases isOff
  · intro g j ne
    by_cases here : j = i
    · subst here
      simp [ne]
    · simp [here]
  · intro j
    by_cases here : j = i
    · subst here
      simp
    · simp [here, ordered.not_listed j]
  · intro j
    by_cases here : j = i
    · subst here
      simp [ordered.not_listed j, ordered.nodup j]
    · simpa [here] using ordered.nodup j

end

theorem Ordered.unflag (ordered : Ordered s live none) (slab : IsSlab s live f) (of : (s.header f).OfClass i true) :
    Ordered ((s.setHeader f (s.header f).clearFlag).setAlloclist i (f :: s.alloclist i)) live none := by
  have absent : ∀ j, f ∉ s.alloclist j := by
    intro j member
    have isOn := (ordered.members f j member).2.1
    have contradiction := (isOn.unique of).2
    cases contradiction
  refine ordered.setSlab slab of of.clearFlag ?_ (fun v _ => rfl) ?_ ?_ ?_ ?_ ?_ ?_
  · intro g ne
    simp
  · intro k slot
    rw [used_clearFlag]
    exact ordered.slots f i true slab of k slot
  · exact fun k u slot isLive above => ordered.slot_size of slot above isLive
  · intro isOff
    cases isOff
  · intro g j ne
    by_cases here : j = i
    · subst here
      simp [ne]
    · simp [here]
  · intro j
    by_cases here : j = i
    · subst here
      simp
    · simp [here, absent j]
  · intro j
    by_cases here : j = i
    · subst here
      simp [absent j, ordered.nodup j]
    · simpa [here] using ordered.nodup j

theorem Ordered.clear {d : Allocdata} (ordered : Ordered s live none) (slab : IsSlab s live f)
    (of : (s.header f).OfClass i false) (slot : k < alloclistDatabit i)
    (above : alloclistHeadersize i ≤ k * alloclistSize i) (same : d.n = (s.header f).n)
    (cleared : ∀ l, d.Used l ↔ (s.header f).Used l ∧ l ≠ k) :
    Ordered (s.setHeader f d) (update live (slotAddr f i k) none) none := by
  refine ordered.setSlab slab of (of.congr same) ?_ ?_ ?_ ?_ ?_ (fun g j _ => Iff.rfl) ?_ ordered.nodup
  · intro g ne
    simp
  · intro v off
    rw [update_of_ne (off k slot above)]
  · intro l lSlot
    rw [cleared]
    by_cases here : l = k
    · subst here
      simp
      omega
    · have away : slotAddr f i l ≠ slotAddr f i k := fun eq => here (slotAddr_inj lSlot slot eq).2
      rw [update_of_ne away]
      simp only [here, ne_eq, not_false_eq_true, and_true]
      exact ordered.slots f i false slab of l lSlot
  · intro l u lSlot isLive lAbove
    by_cases here : l = k
    · subst here
      simp at isLive
    · have away : slotAddr f i l ≠ slotAddr f i k := fun eq => here (slotAddr_inj lSlot slot eq).2
      rw [update_of_ne away] at isLive
      exact ordered.slot_size of lSlot lAbove isLive
  · intro isOff
    cases isOff
  · intro j
    constructor
    · intro member
      obtain ⟨-, ofJ, -⟩ := ordered.members f j member
      exact ⟨(ofJ.unique of).1, rfl, by simp⟩
    · rintro ⟨rfl, -, -⟩
      exact ordered.listed f j slab of (by simp)

theorem Ordered.slot_none (ordered : Ordered s live current)
    (fresh : s.buddy.type f ≠ .allocated) (slot : k < alloclistDatabit i)
    (above : alloclistHeadersize i ≤ k * alloclistSize i) : live (slotAddr f i k) = none := by
  cases isLive : live (slotAddr f i k) with
  | none => rfl
  | some u =>
    exfalso
    rcases ordered.pointers _ u isLive with ⟨g, -, -, same, -⟩ | ⟨g, j, other, l, slab, -, lSlot, -, same, -⟩
    · exact slotAddr_ne_page slot above g same
    · rw [slotAddr_page slot lSlot same] at fresh
      exact fresh slab.2.1

theorem Ordered.newSlab (ordered : Ordered s live none) (given : Given s.buddy 0 f t) (small : i < numOfAlloclist) :
    Ordered ({ s with buddy := t }.setHeader f (Allocdata.new i)) live (some f) ∧
      IsSlab ({ s with buddy := t }.setHeader f (Allocdata.new i)) live f := by
  have fresh : s.buddy.type f ≠ .allocated := fun type => given.fresh (.inl type)
  have notLive := ordered.page_none (fun _ => fresh)
  have isSlab : IsSlab ({ s with buddy := t }.setHeader f (Allocdata.new i)) live f := ⟨given.page, given.type, notLive⟩
  have old : ∀ g, g ≠ f → (IsSlab ({ s with buddy := t }.setHeader f (Allocdata.new i)) live g ↔ IsSlab s live g) := by
    intro g ne
    constructor
    · rintro ⟨page, type, none⟩
      exact ⟨page, (given.keeps g ne (.inr (.inl type))).1.symm.trans type, none⟩
    · rintro ⟨page, type, none⟩
      exact ⟨page, (given.keeps g ne (.inl (.inl type))).1.trans type, none⟩
  have notOld : ¬IsSlab s live f := fun slab => fresh slab.2.1
  have header : ∀ g, g ≠ f → ({ s with buddy := t }.setHeader f (Allocdata.new i)).header g = s.header g :=
    fun g ne => update_of_ne ne _ _
  have new := ofClass_new small
  refine ⟨⟨given.tidy, ?_, ?_, ?_, ?_, ?_, ordered.nodup, ?_⟩, isSlab⟩
  · intro g slab
    by_cases here : g = f
    · subst here
      exact ⟨given.order, i, false, by simpa using new⟩
    · rw [header g here]
      obtain ⟨order, rest⟩ := ordered.slab g ((old g here).mp slab)
      have type := ((old g here).mp slab).2.1
      exact ⟨(given.keeps g here (.inl (.inl type))).2.trans order, rest⟩
  · intro g j off slab of k slot
    by_cases here : g = f
    · subst here
      rw [Heap.header_setHeader] at of ⊢
      obtain ⟨rfl, -⟩ := new.unique of
      rw [used_new]
      by_cases under : k * alloclistSize i < alloclistHeadersize i
      · simp [under, slot]
      · rw [ordered.slot_none fresh slot (by omega)]
        simp [under]
    · rw [header g here] at of ⊢
      exact ordered.slots g j off ((old g here).mp slab) of k slot
  · intro g j slab of
    by_cases here : g = f
    · subst here
      rw [Heap.header_setHeader] at of
      have contradiction := (new.unique of).2
      cases contradiction
    · rw [header g here] at of ⊢
      exact ordered.full g j ((old g here).mp slab) of
  · intro g j slab of notCurrent
    have here : g ≠ f := by
      rintro rfl
      exact notCurrent rfl
    rw [header g here] at of
    exact ordered.listed g j ((old g here).mp slab) of (by simp)
  · intro g j member
    obtain ⟨slab, of, -⟩ := ordered.members g j member
    have here : g ≠ f := by
      rintro rfl
      exact notOld slab
    exact ⟨(old g here).mpr slab, by rwa [header g here], by simpa using here.symm⟩
  · intro v u isLive
    rcases ordered.pointers v u isLive with ⟨g, page, type, same, size⟩ | ⟨g, j, off, k, slab, of, rest⟩
    · have here : g ≠ f := by
        rintro rfl
        exact fresh type
      obtain ⟨sameType, sameOrder⟩ := given.keeps g here (.inl (.inl type))
      exact .inl ⟨g, page, sameType.trans type, same, by rw [size]; exact congrArg _ sameOrder.symm⟩
    · have here : g ≠ f := by
        rintro rfl
        exact notOld slab
      exact .inr ⟨g, j, off, k, (old g here).mpr slab, by rwa [header g here], rest⟩

end DisasVisor.Mm
