import Mathlib.Order.Interval.Finset.Nat
import Mathlib.Algebra.GroupWithZero.Nat

/-!
Lists of intervals of natural numbers, each given by its start and its length: what they cover, and
how the sum of the lengths of intervals that are apart counts it.
-/

namespace Intervals

abbrev Interval := Nat × Nat

def Has (r : Interval) (x : Nat) : Prop := r.1 ≤ x ∧ x < r.1 + r.2

def Covers (rs : List Interval) (x : Nat) : Prop := ∃ r ∈ rs, Has r x

def Apart (rs : List Interval) : Prop := rs.Pairwise fun a b => ∀ x, Has a x → ¬Has b x

def total (rs : List Interval) : Nat := (rs.map Prod.snd).sum

def cover : List Interval → Finset Nat
  | [] => ∅
  | r :: rs => Finset.Ico r.1 (r.1 + r.2) ∪ cover rs

variable {r : Interval} {rs : List Interval} {x n : Nat}

@[simp] theorem covers_nil : ¬Covers [] x := by
  simp [Covers]

@[simp] theorem covers_cons : Covers (r :: rs) x ↔ Has r x ∨ Covers rs x := by
  simp [Covers]

@[simp] theorem total_nil : total [] = 0 := rfl

@[simp] theorem total_cons : total (r :: rs) = r.2 + total rs := by
  simp [total]

@[simp] theorem mem_cover : x ∈ cover rs ↔ Covers rs x := by
  induction rs with
  | nil => simp [cover]
  | cons r rs ih => simp [cover, ih, Has]

theorem covers_append {ss : List Interval} : Covers (rs ++ ss) x ↔ Covers rs x ∨ Covers ss x := by
  induction rs with
  | nil => simp
  | cons r rs ih => simp [ih, or_assoc]

theorem apart_nil : Apart [] := List.Pairwise.nil

theorem apart_cons : Apart (r :: rs) ↔ (∀ x, Has r x → ¬Covers rs x) ∧ Apart rs := by
  unfold Apart
  rw [List.pairwise_cons]
  constructor
  · rintro ⟨first, rest⟩
    refine ⟨?_, rest⟩
    rintro x inside ⟨s, member, covered⟩
    exact first s member x inside covered
  · rintro ⟨first, rest⟩
    refine ⟨?_, rest⟩
    intro s member x inside covered
    exact first x inside ⟨s, member, covered⟩

theorem apart_concat (apart : Apart rs) (free : ∀ x, Has r x → ¬Covers rs x) : Apart (rs ++ [r]) := by
  refine List.pairwise_append.mpr ⟨apart, List.pairwise_singleton _ _, ?_⟩
  intro s member t last x inside known
  rw [List.mem_singleton.mp last] at known
  exact free x known ⟨s, member, inside⟩

theorem card_cover (apart : Apart rs) : (cover rs).card = total rs := by
  induction rs with
  | nil => rfl
  | cons r rs ih =>
    obtain ⟨first, rest⟩ := apart_cons.mp apart
    have disjoint : Disjoint (Finset.Ico r.1 (r.1 + r.2)) (cover rs) := by
      rw [Finset.disjoint_left]
      intro x inside covered
      exact first x (Finset.mem_Ico.mp inside) (mem_cover.mp covered)
    rw [cover, Finset.card_union_of_disjoint disjoint, Nat.card_Ico, ih rest, total_cons]
    omega

theorem cover_subset (below : ∀ x, Covers rs x → x < n) : cover rs ⊆ Finset.range n := by
  intro x covered
  exact Finset.mem_range.mpr (below x (mem_cover.mp covered))

theorem total_le (apart : Apart rs) (below : ∀ x, Covers rs x → x < n) : total rs ≤ n := by
  have card := Finset.card_le_card (cover_subset below)
  rwa [card_cover apart, Finset.card_range] at card

theorem covers_of_total (apart : Apart rs) (below : ∀ x, Covers rs x → x < n)
    (all : total rs = n) : ∀ x < n, Covers rs x := by
  intro x less
  have same : cover rs = Finset.range n := by
    refine Finset.eq_of_subset_of_card_le (cover_subset below) ?_
    rw [Finset.card_range, card_cover apart, all]
  rw [← mem_cover, same]
  exact Finset.mem_range.mpr less

theorem total_of_covers (apart : Apart rs) (all : ∀ x, Covers rs x ↔ x < n) : total rs = n := by
  have same : cover rs = Finset.range n := by
    ext x
    rw [mem_cover, all, Finset.mem_range]
  rw [← card_cover apart, same, Finset.card_range]

theorem total_eq_card {ss : List Interval} (apart : Apart rs)
    (same : ∀ x, Covers rs x ↔ Covers ss x) : total rs = (cover ss).card := by
  rw [← card_cover apart]
  congr 1
  ext x
  rw [mem_cover, mem_cover, same]

end Intervals
