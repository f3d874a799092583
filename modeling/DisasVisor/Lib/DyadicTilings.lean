import Mathlib.Data.Nat.Bitwise

/-!
Tilings of `[0, size)` by aligned blocks whose lengths are powers of two. Each block has a head, its
first cell, and an order; two halves of a block are buddies.
-/

namespace Dyadic

structure Tiling (size : Nat) (head : Nat → Prop) (order : Nat → Nat) : Prop where
  bounded : ∀ f, head f → f < size
  aligned : ∀ f, head f → 2 ^ order f ∣ f
  inside : ∀ f, head f → ∀ g, f < g → g < f + 2 ^ order f → ¬head g
  covered : ∀ g, g < size → ∃ f, head f ∧ f ≤ g ∧ g < f + 2 ^ order f

variable {size : Nat} {head : Nat → Prop} {order : Nat → Nat}

theorem Tiling.unique (tiling : Tiling size head order) {f g a : Nat} (fHead : head f)
    (gHead : head g) (inF : f ≤ a ∧ a < f + 2 ^ order f) (inG : g ≤ a ∧ a < g + 2 ^ order g) : f = g := by
  rcases Nat.lt_trichotomy f g with below | same | above
  · exact absurd gHead (tiling.inside f fHead g below (by omega))
  · exact same
  · exact absurd fHead (tiling.inside g gHead f above (by omega))

theorem Tiling.congr {head' : Nat → Prop} {order' : Nat → Nat} (tiling : Tiling size head order)
    (heads : ∀ f, head' f ↔ head f) (orders : ∀ f, head f → order' f = order f) : Tiling size head' order' := by
  constructor
  · intro f isHead
    exact tiling.bounded f ((heads f).mp isHead)
  · intro f isHead
    rw [orders f ((heads f).mp isHead)]
    exact tiling.aligned f ((heads f).mp isHead)
  · intro f isHead g after before gHead
    rw [orders f ((heads f).mp isHead)] at before
    exact tiling.inside f ((heads f).mp isHead) g after before ((heads g).mp gHead)
  · intro g small
    obtain ⟨f, isHead, low, high⟩ := tiling.covered g small
    exact ⟨f, (heads f).mpr isHead, low, by rwa [orders f isHead]⟩

theorem aligned_room {f g n k : Nat} (order : n ≤ k) (fAligned : 2 ^ k ∣ f) (gAligned : 2 ^ n ∣ g)
    (below : g < f + 2 ^ k) : g + 2 ^ n ≤ f + 2 ^ k := by
  obtain ⟨i, rfl⟩ : 2 ^ n ∣ f := Nat.dvd_trans (Nat.pow_dvd_pow 2 order) fAligned
  obtain ⟨j, rfl⟩ := gAligned
  obtain ⟨c, power⟩ := Nat.pow_dvd_pow 2 order
  rw [power, ← Nat.mul_add] at below ⊢
  have less : j < i + c := Nat.lt_of_mul_lt_mul_left below
  calc 2 ^ n * j + 2 ^ n = 2 ^ n * (j + 1) := (Nat.mul_succ _ _).symm
    _ ≤ 2 ^ n * (i + c) := Nat.mul_le_mul_left _ less

theorem aligned_nested {f g n k a : Nat} (order : n ≤ k) (fAligned : 2 ^ k ∣ f)
    (gAligned : 2 ^ n ∣ g) (inF : f ≤ a ∧ a < f + 2 ^ k) (inG : g ≤ a ∧ a < g + 2 ^ n) :
    f ≤ g ∧ g + 2 ^ n ≤ f + 2 ^ k := by
  refine ⟨?_, aligned_room order fAligned gAligned (by omega)⟩
  by_contra before
  have reach := aligned_room (Nat.le_refl n) gAligned
    (Nat.dvd_trans (Nat.pow_dvd_pow 2 order) fAligned) (show f < g + 2 ^ n by omega)
  omega

theorem upper_aligned {f n : Nat} (aligned : 2 ^ (n + 1) ∣ f) : 2 ^ n ∣ f + 2 ^ n :=
  Nat.dvd_add (Nat.dvd_trans (Nat.pow_dvd_pow 2 (Nat.le_succ n)) aligned) (Nat.dvd_refl _)

theorem upper_not_aligned {f n : Nat} (aligned : 2 ^ (n + 1) ∣ f) : ¬2 ^ (n + 1) ∣ f + 2 ^ n := by
  intro upper
  have half := (Nat.dvd_add_right aligned).mp upper
  have positive : 0 < 2 ^ n := Nat.two_pow_pos n
  have bound := Nat.le_of_dvd positive half
  rw [Nat.pow_succ] at bound
  omega

section

variable {head' : Nat → Prop} {order' : Nat → Nat} {p n : Nat}

theorem Tiling.split (tiling : Tiling size head order) (pHead : head p) (pOrder : order p = n + 1)
    (fits : p + 2 ^ n < size) (heads : ∀ f, head' f ↔ head f ∨ f = p + 2 ^ n)
    (halves : order' p = n ∧ order' (p + 2 ^ n) = n)
    (others : ∀ f, head f → f ≠ p → order' f = order f) : Tiling size head' order' := by
  have aligned := tiling.aligned p pHead
  have inside := tiling.inside p pHead
  rw [pOrder] at aligned inside
  rw [Nat.pow_succ] at inside
  have positive : 0 < 2 ^ n := Nat.two_pow_pos n
  obtain ⟨pHalf, qHalf⟩ := halves
  have qNew : ¬head (p + 2 ^ n) := inside _ (by omega) (by omega)
  constructor
  · intro f isHead
    rcases (heads f).mp isHead with old | rfl
    · exact tiling.bounded f old
    · exact fits
  · intro f isHead
    rcases (heads f).mp isHead with old | rfl
    · by_cases same : f = p
      · rw [same, pHalf]
        exact Nat.dvd_trans (Nat.pow_dvd_pow 2 (Nat.le_succ n)) aligned
      · rw [others f old same]
        exact tiling.aligned f old
    · rw [qHalf]
      exact upper_aligned aligned
  · intro f isHead g after before
    rw [heads]
    rintro (gOld | rfl)
    · rcases (heads f).mp isHead with old | rfl
      · by_cases same : f = p
        · rw [same, pHalf] at before
          exact inside g (by omega) (by omega) gOld
        · rw [others f old same] at before
          exact tiling.inside f old g after before gOld
      · rw [qHalf] at before
        exact inside g (by omega) (by omega) gOld
    · rcases (heads f).mp isHead with old | rfl
      · by_cases same : f = p
        · rw [same, pHalf] at before
          omega
        · rw [others f old same] at before
          have one := tiling.unique old pHead ⟨Nat.le_of_lt after, before⟩
            ⟨by omega, by rw [pOrder, Nat.pow_succ]; omega⟩
          exact same one
      · omega
  · intro g small
    obtain ⟨f, fHead, low, high⟩ := tiling.covered g small
    by_cases same : f = p
    · subst same
      rw [pOrder, Nat.pow_succ] at high
      by_cases lower : g < f + 2 ^ n
      · exact ⟨f, (heads f).mpr (.inl fHead), low, by rw [pHalf]; exact lower⟩
      · exact ⟨f + 2 ^ n, (heads _).mpr (.inr rfl), by omega, by rw [qHalf]; omega⟩
    · exact ⟨f, (heads f).mpr (.inl fHead), low, by rw [others f fHead same]; exact high⟩

theorem Tiling.merge (tiling : Tiling size head order) (pHead : head p)
    (qHead : head (p + 2 ^ n)) (pOrder : order p = n) (qOrder : order (p + 2 ^ n) = n)
    (aligned : 2 ^ (n + 1) ∣ p) (heads : ∀ f, head' f ↔ head f ∧ f ≠ p + 2 ^ n)
    (whole : order' p = n + 1) (others : ∀ f, head' f → f ≠ p → order' f = order f) : Tiling size head' order' := by
  have positive : 0 < 2 ^ n := Nat.two_pow_pos n
  have lower := tiling.inside p pHead
  have upper := tiling.inside (p + 2 ^ n) qHead
  rw [pOrder] at lower
  rw [qOrder] at upper
  constructor
  · intro f isHead
    exact tiling.bounded f ((heads f).mp isHead).1
  · intro f isHead
    by_cases same : f = p
    · rw [same, whole]
      exact aligned
    · rw [others f isHead same]
      exact tiling.aligned f ((heads f).mp isHead).1
  · intro f isHead g after before gHead
    obtain ⟨gOld, gOther⟩ := (heads g).mp gHead
    by_cases same : f = p
    · rw [same, whole, Nat.pow_succ] at before
      rw [same] at after
      rcases Nat.lt_trichotomy g (p + 2 ^ n) with low | here | high
      · exact lower g after low gOld
      · exact gOther here
      · exact upper g high (by omega) gOld
    · rw [others f isHead same] at before
      exact tiling.inside f ((heads f).mp isHead).1 g after before gOld
  · intro g small
    have pKeeps : head' p := (heads p).mpr ⟨pHead, by omega⟩
    obtain ⟨f, fHead, low, high⟩ := tiling.covered g small
    by_cases upperHalf : f = p + 2 ^ n
    · subst upperHalf
      rw [qOrder] at high
      exact ⟨p, pKeeps, by omega, by rw [whole, Nat.pow_succ]; omega⟩
    · by_cases same : f = p
      · subst same
        rw [pOrder] at high
        exact ⟨f, pKeeps, low, by rw [whole, Nat.pow_succ]; omega⟩
      · have keeps := (heads f).mpr ⟨fHead, upperHalf⟩
        exact ⟨f, keeps, low, by rw [others f keeps same]; exact high⟩

end

/-! Heads as bit patterns: the buddy of a block differs from it in one bit. -/

theorem xor_two_pow_lower {f n : Nat} (aligned : 2 ^ (n + 1) ∣ f) : f ^^^ 2 ^ n = f + 2 ^ n := by
  obtain ⟨c, rfl⟩ := aligned
  have low : 2 ^ n < 2 ^ (n + 1) := Nat.pow_lt_pow_right (by omega) (Nat.lt_succ_self n)
  rw [Nat.mul_comm, ← Nat.shiftLeft_eq, Nat.shiftLeft_add_eq_or_of_lt low]
  apply Nat.eq_of_testBit_eq
  intro i
  rw [Nat.testBit_xor, Nat.testBit_or, Nat.testBit_shiftLeft, Nat.testBit_two_pow]
  by_cases bit : n = i
  · simp [← bit]
  · simp [bit]

theorem xor_two_pow_upper {f n : Nat} (aligned : 2 ^ (n + 1) ∣ f) : (f + 2 ^ n) ^^^ 2 ^ n = f := by
  rw [← xor_two_pow_lower aligned, Nat.xor_assoc, Nat.xor_self, Nat.xor_zero]

theorem lower_or_upper {f n : Nat} (aligned : 2 ^ n ∣ f) : 2 ^ (n + 1) ∣ f ∨ ∃ g, 2 ^ (n + 1) ∣ g ∧ f = g + 2 ^ n := by
  obtain ⟨c, rfl⟩ := aligned
  rcases Nat.even_or_odd' c with ⟨d, rfl | rfl⟩
  · exact .inl ⟨d, by rw [Nat.pow_succ, Nat.mul_assoc]⟩
  · refine .inr ⟨2 ^ (n + 1) * d, Nat.dvd_mul_right _ _, ?_⟩
    rw [Nat.pow_succ, Nat.mul_add, Nat.mul_one, Nat.mul_assoc]

theorem testBit_lower {f n : Nat} (aligned : 2 ^ (n + 1) ∣ f) : f.testBit n = false := by
  obtain ⟨c, rfl⟩ := aligned
  rw [Nat.mul_comm, ← Nat.shiftLeft_eq, Nat.testBit_shiftLeft]
  simp

theorem testBit_upper {f n : Nat} (aligned : 2 ^ (n + 1) ∣ f) : (f + 2 ^ n).testBit n = true := by
  rw [← xor_two_pow_lower aligned, Nat.testBit_xor, testBit_lower aligned]
  simp

end Dyadic
