import DisasVisor.Mm.Buddy

/-!
The pages of the allocator as blocks, and what each of its steps does to them.
-/

namespace DisasVisor.Mm.Buddy

open List

def IsHead (s : Buddy) (f : Nat) : Prop := f < numOfPages ∧ s.type f ≠ .notHead

/-- The blocks tile the pages, and the free lists have each free block of their order once. A page
inside a block still has the order at which it was merged. -/
structure Tidy (s : Buddy) : Prop where
  tiling : Dyadic.Tiling numOfPages s.IsHead s.order
  small : ∀ f, s.IsHead f → s.order f < numOfAllocsize
  stale : ∀ g, g < numOfPages → s.type g = .notHead → 2 ^ s.order g ∣ g ∧ ¬2 ^ (s.order g + 1) ∣ g
  listed : ∀ n f, f ∈ s.freepage n ↔ f < numOfPages ∧ s.type f = .free ∧ s.order f = n
  nodup : ∀ n, (s.freepage n).Nodup

def Held (s : Buddy) (f : Nat) : Prop := s.type f = .allocated ∨ s.type f = .reserved

variable {s : Buddy} {p n f : Nat}

theorem Held.ne_notHead (held : s.Held f) : s.type f ≠ .notHead := by
  rcases held with type | type
  · simp [type]
  · simp [type]

theorem Held.ne_free (held : s.Held f) : s.type f ≠ .free := by
  rcases held with type | type
  · simp [type]
  · simp [type]

theorem eq_of_stale {g a b : Nat} (a1 : 2 ^ a ∣ g) (a2 : ¬2 ^ (a + 1) ∣ g) (b1 : 2 ^ b ∣ g)
    (b2 : ¬2 ^ (b + 1) ∣ g) : a = b := by
  rcases Nat.lt_trichotomy a b with less | same | greater
  · exact absurd (Nat.dvd_trans (Nat.pow_dvd_pow 2 less) b1) a2
  · exact same
  · exact absurd (Nat.dvd_trans (Nat.pow_dvd_pow 2 greater) a1) b2

theorem takePage_none (empty : s.takePage n = none) : s.freepage n = [] := by
  unfold takePage pop at empty
  cases list : s.freepage n with
  | nil => rfl
  | cons p rest => simp [list] at empty

structure Took (s : Buddy) (n p : Nat) (t : Buddy) : Prop where
  page : p < numOfPages
  free : s.type p = .free
  order : s.order p = n
  list : s.freepage n = p :: t.freepage n
  types : ∀ f, t.type f = if f = p then .allocated else s.type f
  orders : ∀ f, t.order f = s.order f
  lists : ∀ k, k ≠ n → t.freepage k = s.freepage k

variable {t : Buddy} {l : Nat}

theorem Tidy.takePage (tidy : s.Tidy) {oldType : PageType} (took : s.takePage n = some (p, oldType, t)) :
    oldType = .free ∧ Took s n p t := by
  unfold Buddy.takePage pop at took
  cases list : s.freepage n with
  | nil => simp [list] at took
  | cons head rest =>
    simp only [list, Option.some.injEq, Prod.mk.injEq] at took
    obtain ⟨rfl, rfl, rfl⟩ := took
    obtain ⟨page, free, order⟩ := (tidy.listed n head).mp (by simp [list])
    refine ⟨by simpa using free, page, free, order, ?_, ?_, ?_, ?_⟩
    · simp [list]
    · intro f
      simp
    · intro f
      simp
    · intro k other
      simp [other]

theorem Took.tidy (took : Took s n p t) (tidy : s.Tidy) : t.Tidy := by
  obtain ⟨page, free, order, list, types, orders, lists⟩ := took
  have heads : ∀ f, t.IsHead f ↔ s.IsHead f := by
    intro f
    unfold IsHead
    rw [types]
    by_cases same : f = p
    · simp [same, free]
    · simp [same]
  have distinct := tidy.nodup n
  rw [list, nodup_cons] at distinct
  constructor
  · exact tidy.tiling.congr heads (fun f _ => orders f)
  · intro f isHead
    rw [orders]
    exact tidy.small f ((heads f).mp isHead)
  · intro g small type
    rw [orders]
    rw [types] at type
    split at type
    · cases type
    · exact tidy.stale g small type
  · intro k f
    rw [types, orders]
    have before := tidy.listed k f
    by_cases same : f = p
    · subst same
      rw [if_pos rfl]
      constructor
      · intro member
        by_cases here : k = n
        · subst here
          exact absurd member distinct.1
        · rw [lists k here, before] at member
          exact absurd (member.2.2.symm.trans order) here
      · rintro ⟨-, type, -⟩
        cases type
    · rw [if_neg same, ← before]
      by_cases here : k = n
      · subst here
        rw [list, mem_cons]
        simp [same]
      · rw [lists k here]
  · intro k
    by_cases here : k = n
    · subst here
      exact distinct.2
    · rw [lists k here]
      exact tidy.nodup k

theorem Tidy.fits (tidy : s.Tidy) (isHead : s.IsHead p) : p + 2 ^ s.order p ≤ numOfPages := by
  have aligned := tidy.tiling.aligned p isHead
  have small : s.order p ≤ 15 := by
    have := tidy.small p isHead
    rw [numOfAllocsize] at this
    omega
  have page : p < 0 + 2 ^ 15 := by
    rw [Nat.zero_add]
    exact isHead.1
  have room := Dyadic.aligned_room small (Nat.dvd_zero _) aligned page
  rw [Nat.zero_add] at room
  exact room

structure Halved (s : Buddy) (n p : Nat) (t : Buddy) : Prop where
  types : ∀ f, t.type f = if f = p ∨ f = p + 2 ^ n then .free else s.type f
  orders : ∀ f, t.order f = if f = p then n else s.order f
  list : t.freepage n = s.freepage n ++ [p, p + 2 ^ n]
  lists : ∀ k, k ≠ n → t.freepage k = s.freepage k

theorem halved_putHalves (page : p < numOfPages) (small : n < 12) (aligned : 2 ^ (n + 1) ∣ p) :
    Halved s n p (s.putHalves n p) := by
  have upper : buddyOf p n = p + 2 ^ n := by rw [buddyOf_eq page small, Dyadic.xor_two_pow_lower aligned]
  unfold putHalves
  simp only [upper, add]
  constructor
  · intro f
    simp only [type_setList, type_setType, type_setAllocsize]
    by_cases low : f = p
    · simp [low]
    · simp [low]
  · intro f
    simp
  · simp
  · intro k other
    simp [other]

theorem Halved.tidy (halved : Halved s n p t) (tidy : s.Tidy) (page : p < numOfPages) (held : s.Held p)
    (order : s.order p = n + 1) : t.Tidy := by
  obtain ⟨types, orders, list, lists⟩ := halved
  have isHead : s.IsHead p := ⟨page, held.ne_notHead⟩
  have aligned := tidy.tiling.aligned p isHead
  have fits := tidy.fits isHead
  have inside := tidy.tiling.inside p isHead
  have room := tidy.small p isHead
  have positive : 0 < 2 ^ n := Nat.two_pow_pos n
  rw [order] at aligned fits inside room
  rw [Nat.pow_succ] at fits inside
  have upperPage : p + 2 ^ n < numOfPages := by omega
  have upperInside : s.type (p + 2 ^ n) = .notHead := by
    by_contra isOther
    exact inside (p + 2 ^ n) (by omega) (by omega) ⟨upperPage, isOther⟩
  have upperOrder : s.order (p + 2 ^ n) = n := by
    obtain ⟨stale, maximal⟩ := tidy.stale _ upperPage upperInside
    exact eq_of_stale stale maximal (Dyadic.upper_aligned aligned) (Dyadic.upper_not_aligned aligned)
  have heads : ∀ f, t.IsHead f ↔ s.IsHead f ∨ f = p + 2 ^ n := by
    intro f
    unfold IsHead
    rw [types]
    by_cases half : f = p ∨ f = p + 2 ^ n
    · rw [if_pos half]
      rcases half with rfl | rfl
      · simp [page, held.ne_notHead]
      · simp [upperPage]
    · rw [if_neg half]
      simp [(not_or.mp half).2]
  have upperNew : t.order (p + 2 ^ n) = n := by rw [orders, if_neg (by omega), upperOrder]
  constructor
  · refine tidy.tiling.split isHead order upperPage heads ⟨by rw [orders, if_pos rfl], upperNew⟩ ?_
    intro f _ other
    rw [orders, if_neg other]
  · intro f isNew
    rcases (heads f).mp isNew with old | rfl
    · rw [orders]
      split
      · rw [numOfAllocsize] at room ⊢
        omega
      · exact tidy.small f old
    · rw [upperNew]
      omega
  · intro g small type
    rw [types] at type
    split at type
    · cases type
    · rename_i other
      rw [orders, if_neg (not_or.mp other).1]
      exact tidy.stale g small type
  · intro k f
    rw [types]
    by_cases half : f = p ∨ f = p + 2 ^ n
    · have newOrder : t.order f = n := by
        rcases half with rfl | rfl
        · rw [orders, if_pos rfl]
        · exact upperNew
      have newPage : f < numOfPages := by
        rcases half with rfl | rfl
        · exact page
        · exact upperPage
      rw [if_pos half, newOrder]
      by_cases here : k = n
      · subst here
        rw [list, mem_append]
        simp only [mem_cons, not_mem_nil, or_false]
        exact ⟨fun _ => ⟨newPage, trivial, trivial⟩, fun _ => .inr half⟩
      · rw [lists k here, tidy.listed k f]
        constructor
        · rintro ⟨-, type, -⟩
          rcases half with rfl | rfl
          · exact absurd type held.ne_free
          · rw [upperInside] at type
            cases type
        · rintro ⟨-, -, same⟩
          exact absurd same.symm here
    · rw [if_neg half, orders, if_neg (not_or.mp half).1, ← tidy.listed k f]
      by_cases here : k = n
      · subst here
        rw [list, mem_append]
        simp [half]
      · rw [lists k here]
  · intro k
    by_cases here : k = n
    · subst here
      rw [list, nodup_append]
      refine ⟨tidy.nodup k, by simp, ?_⟩
      intro f old g new
      obtain ⟨-, type, -⟩ := (tidy.listed k f).mp old
      rintro rfl
      simp only [mem_cons, not_mem_nil, or_false] at new
      rcases new with rfl | rfl
      · exact held.ne_free type
      · rw [upperInside] at type
        cases type
    · rw [lists k here]
      exact tidy.nodup k

theorem Tidy.release (tidy : s.Tidy) (page : p < numOfPages) (held : s.Held p) :
    ((s.setType p .free).add (s.order p) p).Tidy := by
  have heads : ∀ f, ((s.setType p .free).add (s.order p) p).IsHead f ↔ s.IsHead f := by
    intro f
    unfold IsHead add
    by_cases same : f = p
    · simp [same, held.ne_notHead]
    · simp [same]
  constructor
  · exact tidy.tiling.congr heads (fun f _ => by simp [add])
  · intro f isHead
    simpa [add] using tidy.small f ((heads f).mp isHead)
  · intro g small type
    have old : s.type g = .notHead := by
      by_cases same : g = p
      · simp [same, add] at type
      · simpa [same, add] using type
    simpa [add] using tidy.stale g small old
  · intro k f
    have before := tidy.listed k f
    by_cases same : f = p
    · subst same
      have fresh : f ∉ s.freepage k := fun member => held.ne_free (before.mp member).2.1
      by_cases here : k = s.order f
      · simp [add, here, page]
      · simp [add, here, fresh]
        exact fun _ same => here same.symm
    · by_cases here : k = s.order p
      · simp only [add, freepage_setList, here, if_true, freepage_setType, mem_append,
          mem_singleton, same, or_false, type_setList, type_setType, if_false, order_setList,
          order_setType]
        rw [← here]
        exact before
      · simpa [add, here, same] using before
  · intro k
    by_cases here : k = s.order p
    · simp only [add, freepage_setList, here, if_true, freepage_setType]
      rw [nodup_append]
      refine ⟨tidy.nodup _, by simp, ?_⟩
      intro f old g new
      rw [mem_singleton] at new
      rintro rfl
      rw [new] at old
      exact held.ne_free ((tidy.listed _ p).mp old).2.1
    · simpa [add, here] using tidy.nodup k

structure Joined (s : Buddy) (n l : Nat) (t : Buddy) : Prop where
  types : ∀ f, t.type f = if f = l + 2 ^ n then .notHead else s.type f
  orders : ∀ f, t.order f = if f = l then n + 1 else s.order f
  removed : ∀ f, f ∈ t.freepage n ↔ f ∈ s.freepage n ∧ f ≠ l ∧ f ≠ l + 2 ^ n
  distinct : (t.freepage n).Nodup
  list : t.freepage (n + 1) = s.freepage (n + 1) ++ [l]
  lists : ∀ k, k ≠ n → k ≠ n + 1 → t.freepage k = s.freepage k

theorem joined_joinPages (tidy : s.Tidy) (lower : l ∈ s.freepage n) : Joined s n l (s.joinPages n l (l + 2 ^ n)) := by
  obtain ⟨-, -, lOrder⟩ := (tidy.listed n l).mp lower
  have nodup := tidy.nodup n
  unfold joinPages add del
  constructor
  · intro f
    simp
  · intro f
    simp [lOrder]
  · intro f
    simp [lOrder, nodup.erase l, List.Nodup.mem_erase_iff, nodup]
    tauto
  · simpa [lOrder] using (nodup.erase l).erase (l + 2 ^ n)
  · simp [lOrder]
  · intro k here next
    simp [lOrder, here, next]

theorem mergeLoop_cases (tidy : s.Tidy) (listed : p ∈ s.freepage n) (small : n < 12) (room : Nat) :
    (∃ l t, (p = l ∨ p = l + 2 ^ n) ∧ 2 ^ (n + 1) ∣ l ∧ l ∈ s.freepage n ∧
        l + 2 ^ n ∈ s.freepage n ∧ Joined s n l t ∧
        mergeLoop (room + 1) s n p = mergeLoop room t (n + 1) l) ∨
      (mergeLoop (room + 1) s n p = s ∧ buddyOf p n ∉ s.freepage n) := by
  obtain ⟨page, free, order⟩ := (tidy.listed n p).mp listed
  have isHead : s.IsHead p := ⟨page, by simp [free]⟩
  have aligned := tidy.tiling.aligned p isHead
  have fits := tidy.fits isHead
  rw [order] at aligned fits
  rw [mergeLoop]
  simp only [virt_and_size page small]
  rcases Dyadic.lower_or_upper aligned with even | ⟨l, even, rfl⟩
  · have upper : buddyOf p n = p + 2 ^ n := by rw [buddyOf_eq page small, Dyadic.xor_two_pow_lower even]
    have room2 : p + 2 ^ (n + 1) ≤ numOfPages := by
      have reach := @Dyadic.aligned_room 0 p (n + 1) 15 (by omega) (Nat.dvd_zero _) even (by
        rw [Nat.zero_add]
        exact page)
      rw [Nat.zero_add] at reach
      exact reach
    have upperPage : p + 2 ^ n < numOfPages := by
      rw [Nat.pow_succ] at room2
      omega
    have condition : s.type (p + 2 ^ n) = .free ∧ s.order (p + 2 ^ n) = n ↔ p + 2 ^ n ∈ s.freepage n := by
      rw [tidy.listed]
      simp [upperPage]
    rw [upper]
    simp only [condition, Dyadic.testBit_lower even, Bool.false_eq_true, if_false]
    by_cases both : p + 2 ^ n ∈ s.freepage n
    · have joined := joined_joinPages tidy listed
      refine .inl ⟨p, _, .inl rfl, even, listed, both, joined, ?_⟩
      rw [if_pos both, joined.orders, if_pos rfl]
    · exact .inr ⟨if_neg both, both⟩
  · have positive : 0 < 2 ^ n := Nat.two_pow_pos n
    have lower : buddyOf (l + 2 ^ n) n = l := by rw [buddyOf_eq page small, Dyadic.xor_two_pow_upper even]
    have condition : s.type l = .free ∧ s.order l = n ↔ l ∈ s.freepage n := by
      rw [tidy.listed]
      simp
      omega
    rw [lower]
    simp only [condition, Dyadic.testBit_upper even, if_true]
    by_cases both : l ∈ s.freepage n
    · have joined := joined_joinPages tidy both
      refine .inl ⟨l, _, .inr rfl, even, both, listed, joined, ?_⟩
      rw [if_pos both, joined.orders, if_pos rfl]
    · exact .inr ⟨if_neg both, both⟩

theorem Joined.tidy (joined : Joined s n l t) (tidy : s.Tidy) (small : n < 12) (aligned : 2 ^ (n + 1) ∣ l)
    (lower : l ∈ s.freepage n) (upper : l + 2 ^ n ∈ s.freepage n) : t.Tidy := by
  obtain ⟨types, orders, removed, distinct, list, lists⟩ := joined
  obtain ⟨lPage, lFree, lOrder⟩ := (tidy.listed n l).mp lower
  obtain ⟨uPage, uFree, uOrder⟩ := (tidy.listed n _).mp upper
  have positive : 0 < 2 ^ n := Nat.two_pow_pos n
  have heads : ∀ f, t.IsHead f ↔ s.IsHead f ∧ f ≠ l + 2 ^ n := by
    intro f
    unfold IsHead
    rw [types]
    by_cases up : f = l + 2 ^ n
    · simp [up]
    · simp [up]
  constructor
  · refine tidy.tiling.merge ⟨lPage, by simp [lFree]⟩ ⟨uPage, by simp [uFree]⟩ lOrder uOrder aligned
      heads (by rw [orders, if_pos rfl]) ?_
    intro f _ other
    rw [orders, if_neg other]
  · intro f isHead
    rw [orders]
    split
    · rw [numOfAllocsize]
      omega
    · exact tidy.small f ((heads f).mp isHead).1
  · intro g gPage type
    rw [types] at type
    by_cases up : g = l + 2 ^ n
    · rw [orders, if_neg (by omega), up, uOrder]
      exact ⟨Dyadic.upper_aligned aligned, Dyadic.upper_not_aligned aligned⟩
    · rw [if_neg up] at type
      have other : g ≠ l := by
        rintro rfl
        rw [lFree] at type
        cases type
      rw [orders, if_neg other]
      exact tidy.stale g gPage type
  · intro k f
    have before := tidy.listed k f
    rw [types, orders]
    by_cases up : f = l + 2 ^ n
    · rw [if_pos up]
      constructor
      · intro member
        exfalso
        by_cases here : k = n
        · subst here
          exact ((removed f).mp member).2.2 up
        · by_cases next : k = n + 1
          · subst next
            rw [list, mem_append, mem_singleton, tidy.listed, up, uOrder] at member
            omega
          · rw [lists k here next, before, up, uOrder] at member
            exact here member.2.2.symm
      · rintro ⟨-, type, -⟩
        cases type
    · rw [if_neg up]
      by_cases low : f = l
      · subst low
        rw [if_pos rfl]
        constructor
        · intro member
          refine ⟨lPage, lFree, ?_⟩
          by_cases here : k = n
          · subst here
            exact absurd rfl ((removed f).mp member).2.1
          · by_cases next : k = n + 1
            · exact next.symm
            · rw [lists k here next, before, lOrder] at member
              exact absurd member.2.2.symm here
        · rintro ⟨-, -, rfl⟩
          rw [list]
          simp
      · rw [if_neg low, ← before]
        by_cases here : k = n
        · subst here
          rw [removed]
          simp [low, up]
        · by_cases next : k = n + 1
          · subst next
            rw [list, mem_append, mem_singleton]
            simp [low]
          · rw [lists k here next]
  · intro k
    by_cases here : k = n
    · subst here
      exact distinct
    · by_cases next : k = n + 1
      · subst next
        rw [list, nodup_append]
        refine ⟨tidy.nodup _, by simp, ?_⟩
        intro f old g new
        rw [mem_singleton] at new
        rintro rfl
        rw [new, tidy.listed, lOrder] at old
        omega
      · rw [lists k here next]
        exact tidy.nodup k

def Keeps (s t : Buddy) (p : Nat) : Prop :=
  ∀ f, f ≠ p → s.Held f ∨ t.Held f → t.type f = s.type f ∧ t.order f = s.order f

theorem held_congr (same : t.type f = s.type f) : t.Held f ↔ s.Held f := by
  unfold Held
  rw [same]

theorem Keeps.held (keeps : Keeps s t p) (other : f ≠ p) : t.Held f ↔ s.Held f :=
  ⟨fun held => (held_congr (keeps f other (.inr held)).1).mp held,
    fun held => (held_congr (keeps f other (.inl held)).1).mpr held⟩

theorem Keeps.trans {u : Buddy} (first : Keeps s t p) (second : Keeps t u p) : Keeps s u p := by
  intro f other held
  have heldThere : t.Held f := by
    rcases held with before | after
    · exact (first.held other).mpr before
    · exact (second.held other).mp after
  obtain ⟨type, order⟩ := first f other (.inr heldThere)
  obtain ⟨type', order'⟩ := second f other (.inl heldThere)
  exact ⟨type'.trans type, order'.trans order⟩

theorem Took.keeps (took : Took s n p t) : Keeps s t p := by
  intro f other _
  rw [took.types, if_neg other, took.orders]
  exact ⟨rfl, rfl⟩

theorem Joined.keeps (joined : Joined s n l t) (tidy : s.Tidy) (lower : l ∈ s.freepage n)
    (upper : l + 2 ^ n ∈ s.freepage n) : Keeps s t p := by
  intro f _ held
  obtain ⟨-, lFree, -⟩ := (tidy.listed n l).mp lower
  obtain ⟨-, uFree, -⟩ := (tidy.listed n _).mp upper
  have notUpper : f ≠ l + 2 ^ n := by
    rintro rfl
    rcases held with before | after
    · exact before.ne_free uFree
    · exact after.ne_notHead (by rw [joined.types, if_pos rfl])
  have notLower : f ≠ l := by
    rintro rfl
    rcases held with before | after
    · exact before.ne_free lFree
    · exact after.ne_free (by rw [joined.types, if_neg notUpper, lFree])
  rw [joined.types, if_neg notUpper, joined.orders, if_neg notLower]
  exact ⟨rfl, rfl⟩

theorem Halved.keeps (halved : Halved s n p t) (upper : s.type (p + 2 ^ n) = .notHead) : Keeps s t p := by
  intro f other held
  have notUpper : f ≠ p + 2 ^ n := by
    rintro rfl
    rcases held with before | after
    · exact before.ne_notHead upper
    · exact after.ne_free (by rw [halved.types, if_pos (.inr rfl)])
  rw [halved.types, if_neg (not_or.mpr ⟨other, notUpper⟩), halved.orders, if_neg other]
  exact ⟨rfl, rfl⟩

theorem Tidy.upper_inside (tidy : s.Tidy) (page : p < numOfPages) (held : s.Held p)
    (order : s.order p = n + 1) : s.type (p + 2 ^ n) = .notHead := by
  have isHead : s.IsHead p := ⟨page, held.ne_notHead⟩
  have fits := tidy.fits isHead
  have inside := tidy.tiling.inside p isHead
  have positive : 0 < 2 ^ n := Nat.two_pow_pos n
  rw [order, Nat.pow_succ] at fits inside
  by_contra isOther
  exact inside (p + 2 ^ n) (by omega) (by omega) ⟨by omega, isOther⟩

/-- Free buddies of one order, below the largest, are merged, but for those of the page `p`. -/
def MergedBut (s : Buddy) (p : Nat) : Prop :=
  ∀ n f, n < 12 → f ∈ s.freepage n → buddyOf f n ∈ s.freepage n → f = p ∨ buddyOf f n = p

def Merged (s : Buddy) : Prop := ∀ n f, n < 12 → f ∈ s.freepage n → buddyOf f n ∉ s.freepage n

theorem buddyOf_buddyOf (page : p < numOfPages) (other : buddyOf p n < numOfPages)
    (small : n < 12) : buddyOf (buddyOf p n) n = p := by
  rw [buddyOf_eq other small, buddyOf_eq page small, Nat.xor_assoc, Nat.xor_self, Nat.xor_zero]

theorem Tidy.same_order (tidy : s.Tidy) {k : Nat} (one : f ∈ s.freepage n) (two : f ∈ s.freepage k) : n = k := by
  obtain ⟨-, -, rfl⟩ := (tidy.listed n f).mp one
  exact ((tidy.listed k f).mp two).2.2

theorem Joined.mergedBut (joined : Joined s n l t) (tidy : s.Tidy) (half : p = l ∨ p = l + 2 ^ n)
    (listed : p ∈ s.freepage n) (merged : MergedBut s p) : MergedBut t l := by
  intro k f small member other
  by_cases here : k = n
  · subst here
    obtain ⟨old, notLower, notUpper⟩ := (joined.removed f).mp member
    obtain ⟨oldOther, otherLower, otherUpper⟩ := (joined.removed _).mp other
    rcases merged k f small old oldOther with rfl | same
    · rcases half with rfl | rfl
      · exact absurd rfl notLower
      · exact absurd rfl notUpper
    · rw [same] at otherLower otherUpper
      rcases half with rfl | rfl
      · exact absurd rfl otherLower
      · exact absurd rfl otherUpper
  · have away : ∀ g, g ∈ s.freepage k → g ≠ p := by
      rintro g inList rfl
      exact here (tidy.same_order inList listed)
    by_cases next : k = n + 1
    · subst next
      rw [joined.list, mem_append, mem_singleton] at member other
      rcases member with old | rfl
      · rcases other with oldOther | same
        · rcases merged _ f small old oldOther with same | same
          · exact absurd same (away f old)
          · exact absurd same (away _ oldOther)
        · exact .inr same
      · exact .inl rfl
    · rw [joined.lists k here next] at member other
      rcases merged k f small member other with same | same
      · exact absurd same (away f member)
      · exact absurd same (away _ other)

theorem MergedBut.merged (merged : MergedBut s p) (tidy : s.Tidy) (listed : p ∈ s.freepage n)
    (alone : n < 12 → buddyOf p n ∉ s.freepage n) : Merged s := by
  intro k f small member other
  rcases merged k f small member other with rfl | same
  · have order := tidy.same_order listed member
    subst order
    exact alone small other
  · rw [same] at other
    have order := tidy.same_order listed other
    subst order
    have page := ((tidy.listed n f).mp member).1
    have back : buddyOf p n = f := by
      rw [← same, buddyOf_buddyOf page (by rw [same]; exact ((tidy.listed n p).mp other).1) small]
    exact alone small (by rwa [back])

theorem mergeLoop_spec (room : Nat) : ∀ {s : Buddy} {n p : Nat}, s.Tidy → p ∈ s.freepage n →
    n + room = 12 → (mergeLoop room s n p).Tidy ∧ (∀ f, Keeps s (mergeLoop room s n p) f) ∧
      (MergedBut s p → Merged (mergeLoop room s n p)) := by
  induction room with
  | zero =>
    intro s n p tidy listed top
    refine ⟨tidy, fun f g _ _ => ⟨rfl, rfl⟩, fun merged => ?_⟩
    exact merged.merged tidy listed (fun small => by omega)
  | succ room ih =>
    intro s n p tidy listed top
    have small : n < 12 := by omega
    rcases mergeLoop_cases tidy listed small room with
      ⟨l, t, half, aligned, lower, upper, joined, goes⟩ | ⟨ends, alone⟩
    · rw [goes]
      have next := joined.tidy tidy small aligned lower upper
      have member : l ∈ t.freepage (n + 1) := by
        rw [joined.list]
        simp
      obtain ⟨tidy', keeps, merged⟩ := ih next member (by omega)
      refine ⟨tidy', fun f => (joined.keeps tidy lower upper).trans (keeps f), fun before => ?_⟩
      exact merged (joined.mergedBut tidy half listed before)
    · rw [ends]
      refine ⟨tidy, fun f g _ _ => ⟨rfl, rfl⟩, fun merged => ?_⟩
      exact merged.merged tidy listed (fun _ => alone)

structure Freed (s : Buddy) (p : Nat) (t : Buddy) : Prop where
  tidy : t.Tidy
  gone : ¬t.Held p
  keeps : Keeps s t p
  merged : s.Merged → t.Merged

theorem freed_mmPageFree (tidy : s.Tidy) (page : p < numOfPages) (held : s.Held p) : Freed s p (s.mmPageFree p) := by
  have start := tidy.release page held
  have order := tidy.small p ⟨page, held.ne_notHead⟩
  have listed : p ∈ ((s.setType p .free).add (s.order p) p).freepage (s.order p) := by simp [add]
  have room : s.order p + (numOfAllocsize - 1 - s.order p) = 12 := by
    rw [numOfAllocsize] at order ⊢
    omega
  obtain ⟨after, keeps, merged⟩ := mergeLoop_spec _ start listed room
  have first : Keeps s ((s.setType p .free).add (s.order p) p) p := by
    intro f other _
    simp [add, other]
  refine ⟨after, ?_, first.trans (keeps p), ?_⟩
  · intro still
    have before := ((keeps (p + 1)).held (Nat.ne_of_lt (Nat.lt_succ_self p))).mp still
    exact before.ne_free (by simp [add])
  · intro before
    apply merged
    intro k f small member other
    by_contra away
    rw [not_or] at away
    have old : ∀ g, g ≠ p → g ∈ ((s.setType p .free).add (s.order p) p).freepage k → g ∈ s.freepage k := by
      intro g distinct inList
      by_cases here : k = s.order p
      · simpa [add, here, distinct] using inList
      · simpa [add, here] using inList
    exact before k f small (old f away.1 member) (old _ away.2 other)

structure Given (s : Buddy) (n p : Nat) (t : Buddy) : Prop where
  tidy : t.Tidy
  page : p < numOfPages
  fresh : ¬s.Held p
  type : t.type p = .allocated
  order : t.order p = n
  keeps : Keeps s t p

theorem Took.given (took : Took s n p t) (tidy : s.Tidy) : Given s n p t where
  tidy := took.tidy tidy
  page := took.page
  fresh held := held.ne_free took.free
  type := by rw [took.types, if_pos rfl]
  order := by rw [took.orders, took.order]
  keeps := took.keeps

theorem Tidy.aligned (tidy : s.Tidy) (page : p < numOfPages) (held : s.Held p) (order : s.order p = n + 1) :
    2 ^ (n + 1) ∣ p := by
  have aligned := tidy.tiling.aligned p ⟨page, held.ne_notHead⟩
  rwa [order] at aligned

theorem Tidy.halved (tidy : s.Tidy) (page : p < numOfPages) (held : s.Held p) (order : s.order p = n + 1)
    (small : n < 12) : Halved s n p (s.putHalves n p) :=
  halved_putHalves page small (tidy.aligned page held order)

theorem takePage_putHalves (tidy : s.Tidy) (page : p < numOfPages) (held : s.Held p)
    (order : s.order p = n + 1) (small : n < 12) :
    (s.putHalves n p).Tidy ∧ Keeps s (s.putHalves n p) p ∧ ¬(s.putHalves n p).Held p ∧
      ∃ q t, (s.putHalves n p).takePage n = some (q, .free, t) ∧ Took (s.putHalves n p) n q t := by
  have halved := tidy.halved page held order small
  have after := halved.tidy tidy page held order
  refine ⟨after, halved.keeps (tidy.upper_inside page held order), ?_, ?_⟩
  · exact fun still => still.ne_free (by rw [halved.types, if_pos (.inl rfl)])
  · cases taken : (s.putHalves n p).takePage n with
    | none =>
      have empty := takePage_none taken
      rw [halved.list] at empty
      simp at empty
    | some result =>
      obtain ⟨q, oldType, t⟩ := result
      obtain ⟨rfl, took⟩ := after.takePage taken
      exact ⟨q, t, rfl, took⟩

theorem mmPageAllocLoop_given (room : Nat) : ∀ {s t : Buddy} {n p : Nat}, s.Tidy → n + room = 13 →
    mmPageAllocLoop room s n = some (p, t) → Given s n p t := by
  induction room with
  | zero =>
    intro s t n p _ _ ran
    cases ran
  | succ room ih =>
    intro s t n p tidy top ran
    rw [mmPageAllocLoop] at ran
    cases taken : s.takePage n with
    | some result =>
      obtain ⟨q, oldType, u⟩ := result
      obtain ⟨rfl, took⟩ := tidy.takePage taken
      simp only [taken, if_true, Option.some.injEq, Prod.mk.injEq] at ran
      obtain ⟨rfl, rfl⟩ := ran
      exact took.given tidy
    | none =>
      cases larger : mmPageAllocLoop room s (n + 1) with
      | none => simp [taken, larger] at ran
      | some result =>
        obtain ⟨q, u⟩ := result
        have small : n < 12 := by
          cases room with
          | zero => cases larger
          | succ room => omega
        have given := ih tidy (by omega) larger
        have qHeld : u.Held q := .inl given.type
        obtain ⟨after, keeps, gone, r, v, takes, took⟩ :=
          takePage_putHalves given.tidy given.page qHeld given.order small
        simp only [taken, larger, takes, if_true, Option.some.injEq, Prod.mk.injEq] at ran
        obtain ⟨rfl, rfl⟩ := ran
        have last := took.given after
        have halves : Keeps s (u.putHalves n q) q := given.keeps.trans keeps
        have all : Keeps s (u.putHalves n q) r := by
          intro f other held
          by_cases same : f = q
          · subst same
            rcases held with before | still
            · exact absurd before given.fresh
            · exact absurd still gone
          · exact halves f same held
        refine ⟨last.tidy, last.page, ?_, last.type, last.order, all.trans last.keeps⟩
        intro before
        by_cases same : r = q
        · exact given.fresh (same ▸ before)
        · exact last.fresh ((halves.held same).mpr before)

theorem given_mmPageAlloc (tidy : s.Tidy) (small : n ≤ numOfAllocsize) (ran : s.mmPageAlloc n = some (p, t)) :
    Given s n p t :=
  mmPageAllocLoop_given _ tidy (Nat.add_sub_cancel' small) ran

theorem tidy_reservedPages : reservedPages.Tidy where
  tiling := {
    bounded := fun f isHead => isHead.1
    aligned := fun f _ => ⟨f, (Nat.one_mul f).symm⟩
    inside := fun f _ g after before => by
      change g < f + 2 ^ 0 at before
      omega
    covered := fun g page => ⟨g, ⟨page, by simp [type, reservedPages]⟩, Nat.le_refl g, by
      change g < g + 2 ^ 0
      omega⟩ }
  small := fun f _ => by simp [order, reservedPages, numOfAllocsize]
  stale := fun g _ inside => by simp [type, reservedPages] at inside
  listed := fun n f => by simp [reservedPages, type]
  nodup := fun n => nodup_nil

def Kept (imageHead imageEnd i : Nat) : Prop :=
  (imageHead ≤ pageToVirt i ∧ pageToVirt i < imageEnd) ∨ i < panicmemStart imageEnd + numOfPanicmemPages

structure Booting (imageHead imageEnd next : Nat) (s : Buddy) : Prop where
  tidy : s.Tidy
  merged : s.Merged
  held : ∀ f, s.Held f ↔ next ≤ f ∨ Kept imageHead imageEnd f
  reserved : ∀ f, s.Held f → s.type f = .reserved ∧ s.order f = 0

theorem booting_mmInitGlobal (imageHead imageEnd : Nat) :
    Booting imageHead imageEnd numOfPages (mmInitGlobal imageHead imageEnd) := by
  unfold mmInitGlobal
  suffices all : ∀ next, next ≤ numOfPages → Booting imageHead imageEnd next
      ((List.range next).foldl
        (fun s i =>
          if imageHead ≤ pageToVirt i ∧ pageToVirt i < imageEnd then s
          else if i < panicmemStart imageEnd + numOfPanicmemPages then s
          else s.mmPageFree i) reservedPages) from all numOfPages (Nat.le_refl _)
  intro next
  induction next with
  | zero =>
    intro _
    refine ⟨tidy_reservedPages, fun n f _ member => by simp [reservedPages] at member, ?_, ?_⟩
    · intro f
      simp [Held, type, reservedPages]
    · intro f _
      exact ⟨rfl, rfl⟩
  | succ next ih =>
    intro small
    have before := ih (by omega)
    rw [range_succ, foldl_append]
    generalize (List.range next).foldl
      (fun s i =>
        if imageHead ≤ pageToVirt i ∧ pageToVirt i < imageEnd then s
        else if i < panicmemStart imageEnd + numOfPanicmemPages then s
        else s.mmPageFree i) reservedPages = s at before ⊢
    simp only [foldl_cons, foldl_nil]
    by_cases kept : Kept imageHead imageEnd next
    · have skipped : (if imageHead ≤ pageToVirt next ∧ pageToVirt next < imageEnd then s
          else if next < panicmemStart imageEnd + numOfPanicmemPages then s
          else s.mmPageFree next) = s := by
        rcases kept with image | panic
        · rw [if_pos image]
        · simp [panic]
      rw [skipped]
      refine ⟨before.tidy, before.merged, fun f => ?_, before.reserved⟩
      rw [before.held]
      constructor
      · rintro (later | isKept)
        · rcases Nat.eq_or_lt_of_le later with rfl | more
          · exact .inr kept
          · exact .inl more
        · exact .inr isKept
      · rintro (later | isKept)
        · exact .inl (by omega)
        · exact .inr isKept
    · have goes : (if imageHead ≤ pageToVirt next ∧ pageToVirt next < imageEnd then s
          else if next < panicmemStart imageEnd + numOfPanicmemPages then s
          else s.mmPageFree next) = s.mmPageFree next := by
        rw [Kept, not_or] at kept
        rw [if_neg kept.1, if_neg kept.2]
      rw [goes]
      have held := (before.held next).mpr (.inl (Nat.le_refl _))
      obtain ⟨tidy, gone, keeps, merged⟩ := freed_mmPageFree before.tidy (by omega) held
      refine ⟨tidy, merged before.merged, fun f => ?_, fun f isHeld => ?_⟩
      · by_cases same : f = next
        · subst same
          simp only [gone, false_iff, not_or]
          exact ⟨by omega, kept⟩
        · rw [keeps.held same, before.held]
          constructor
          · rintro (later | isKept)
            · exact .inl (by omega)
            · exact .inr isKept
          · rintro (later | isKept)
            · exact .inl (by omega)
            · exact .inr isKept
      · have same : f ≠ next := by
          rintro rfl
          exact gone isHeld
        obtain ⟨type, order⟩ := keeps f same (.inr isHeld)
        rw [type, order]
        exact before.reserved f ((keeps.held same).mp isHeld)

end DisasVisor.Mm.Buddy
