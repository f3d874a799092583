import Mathlib.Data.Int.Interval
import Mathlib.Order.Interval.Finset.Nat

/-!
Arrays as functions on the integers: parts of them that are put in another order, and the ranges that
are left to be sorted.
-/

namespace Rearrangements

open Function

variable {α : Type*} {low high low' high' i j : ℤ} {a b c : ℤ → α}

/-- The elements from `low` to `high` are put in another order, and no others. -/
def Rearranged (low high : ℤ) (a b : ℤ → α) : Prop :=
  ∃ order : Equiv.Perm ℤ, (∀ i, order i ≠ i → low ≤ i ∧ i ≤ high) ∧ b = a ∘ order

theorem Rearranged.refl : Rearranged low high a a := ⟨Equiv.refl ℤ, fun i moved => absurd rfl moved, rfl⟩

theorem Rearranged.trans (first : Rearranged low high a b) (second : Rearranged low high b c) :
    Rearranged low high a c := by
  obtain ⟨order, inside, rfl⟩ := first
  obtain ⟨order', inside', rfl⟩ := second
  refine ⟨order'.trans order, ?_, rfl⟩
  intro i moved
  by_cases fixed : order' i = i
  · refine inside i ?_
    rwa [Equiv.trans_apply, fixed] at moved
  · exact inside' i fixed

theorem Rearranged.mono (part : Rearranged low high a b) (lower : low' ≤ low) (upper : high ≤ high') :
    Rearranged low' high' a b := by
  obtain ⟨order, inside, rfl⟩ := part
  refine ⟨order, ?_, rfl⟩
  intro i moved
  have bounds := inside i moved
  omega

theorem rearranged_swap (lowI : low ≤ i) (highI : i ≤ high) (lowJ : low ≤ j) (highJ : j ≤ high) :
    Rearranged low high a (update (update a i (a j)) j (a i)) := by
  refine ⟨Equiv.swap i j, ?_, ?_⟩
  · intro k moved
    by_cases atI : k = i
    · omega
    · by_cases atJ : k = j
      · omega
      · exact absurd (Equiv.swap_apply_of_ne_of_ne atI atJ) moved
  · funext k
    by_cases atJ : k = j
    · simp [atJ]
    · by_cases atI : k = i
      · subst atI
        simp [update_of_ne atJ]
      · simp [update_of_ne atJ, update_of_ne atI, Equiv.swap_apply_of_ne_of_ne atI atJ]

theorem Rearranged.frame (part : Rearranged low high a b) (outside : i < low ∨ high < i) : b i = a i := by
  obtain ⟨order, inside, rfl⟩ := part
  have fixed : order i = i := by
    by_contra moved
    have bounds := inside i moved
    omega
  exact congrArg a fixed

theorem Rearranged.inside (part : Rearranged low high a b) (lower : low ≤ i) (upper : i ≤ high) :
    ∃ j, low ≤ j ∧ j ≤ high ∧ b i = a j := by
  obtain ⟨order, inside, rfl⟩ := part
  refine ⟨order i, ?_⟩
  by_cases fixed : order (order i) = order i
  · have same := order.injective fixed
    rw [same]
    exact ⟨lower, upper, congrArg a same⟩
  · have bounds := inside (order i) fixed
    exact ⟨bounds.1, bounds.2, rfl⟩

def before (a : ℤ → α) (count : ℕ) : Multiset α := (Multiset.range count).map fun i : ℕ => a i

theorem mem_before {count : ℕ} {x : α} : x ∈ before a count ↔ ∃ i : ℤ, 0 ≤ i ∧ i < count ∧ a i = x := by
  simp only [before, Multiset.mem_map, Multiset.mem_range]
  constructor
  · rintro ⟨i, bound, same⟩
    exact ⟨i, by omega, by omega, same⟩
  · rintro ⟨i, positive, bound, same⟩
    exact ⟨i.toNat, by omega, by rw [Int.toNat_of_nonneg positive]; exact same⟩

theorem before_congr {count : ℕ} (same : ∀ i : ℤ, 0 ≤ i → i < count → b i = a i) : before b count = before a count := by
  refine Multiset.map_congr rfl ?_
  intro i member
  exact same i (by omega) (by simpa using member)

theorem before_succ (count : ℕ) : before a (count + 1) = a count ::ₘ before a count := by
  rw [before, Multiset.range_succ, Multiset.map_cons]
  rfl

theorem before_insert {count : ℕ} {place : ℤ} {x : α} (lower : 0 ≤ place) (upper : place ≤ count)
    (front : ∀ i : ℤ, 0 ≤ i → i < place → b i = a i) (here : b place = x)
    (back : ∀ i : ℤ, place ≤ i → i < count → b (i + 1) = a i) : before b (count + 1) = x ::ₘ before a count := by
  induction count generalizing x with
  | zero =>
    have first : place = 0 := by omega
    subst first
    rw [before_succ]
    simp [before, ← here]
  | succ count ih =>
    by_cases last : place = ((count + 1 : ℕ) : ℤ)
    · subst last
      rw [before_succ, here, before_congr fun i positive bound => front i positive bound]
    · have smaller := ih (by omega) here fun i above bound => back i above (by omega)
      have end' : b ((count + 1 : ℕ) : ℤ) = a count := by
        have moved := back count (by omega) (by omega)
        exact_mod_cast moved
      rw [before_succ, smaller, end', before_succ, Multiset.cons_swap]

theorem before_remove {count : ℕ} {place : ℤ} {x : α} (lower : 0 ≤ place) (upper : place ≤ count)
    (front : ∀ i : ℤ, 0 ≤ i → i < place → b i = a i) (here : a place = x)
    (back : ∀ i : ℤ, place ≤ i → i < count → b i = a (i + 1)) : before a (count + 1) = x ::ₘ before b count :=
  before_insert lower upper (fun i positive bound => (front i positive bound).symm) here
    fun i above bound => (back i above bound).symm

theorem Rearranged.before_eq {count : ℕ} (part : Rearranged 0 (count - 1) a b) : before b count = before a count := by
  obtain ⟨order, inside, rfl⟩ := part
  have places : ∀ c : ℤ → α, before c count = (Finset.Ico (0 : ℤ) count).val.map c := by
    intro c
    have cast : Finset.Ico (0 : ℤ) count = (Finset.range count).map Nat.castEmbedding := by
      ext i
      simp only [Finset.mem_Ico, Finset.mem_map, Finset.mem_range, Nat.castEmbedding_apply]
      constructor
      · rintro ⟨positive, bound⟩
        exact ⟨i.toNat, by omega, by omega⟩
      · rintro ⟨k, bound, rfl⟩
        omega
    rw [cast, Finset.map_val, Multiset.map_map]
    rfl
  have onto : (Finset.Ico (0 : ℤ) count).map (order : ℤ ↪ ℤ) = Finset.Ico (0 : ℤ) count := by
    refine Finset.map_perm ?_
    intro i moved
    have bounds := inside i moved
    simp only [Finset.coe_Ico, Set.mem_Ico]
    omega
  rw [places, places, ← Multiset.map_map]
  have image := congrArg Finset.val onto
  rw [Finset.map_val] at image
  exact congrArg (Multiset.map a) image

section

variable {r : α → α → Prop} {count : ℤ} {left parts rest : List (ℤ × ℤ)} {span : ℤ × ℤ}

def SortedBut (r : α → α → Prop) (count : ℤ) (left : List (ℤ × ℤ)) (a : ℤ → α) : Prop :=
  ∀ i j, 0 ≤ i → i < j → j < count → r (a i) (a j) ∨ ∃ span ∈ left, span.1 ≤ i ∧ j ≤ span.2

structure Spans (count : ℤ) (left : List (ℤ × ℤ)) : Prop where
  apart : left.Pairwise fun s t => s.2 < t.1 ∨ t.2 < s.1
  inside : ∀ span ∈ left, 0 ≤ span.1 ∧ span.1 < span.2 ∧ span.2 < count

theorem sortedBut_nil : SortedBut r count [] a ↔ ∀ i j, 0 ≤ i → i < j → j < count → r (a i) (a j) := by
  simp [SortedBut]

theorem SortedBut.split (sorted : SortedBut r count (span :: rest) a) (spans : Spans count (span :: rest))
    (moved : Rearranged span.1 span.2 a b)
    (parts_cover : ∀ i j, span.1 ≤ i → i < j → j ≤ span.2 → r (b i) (b j) ∨ ∃ part ∈ parts, part.1 ≤ i ∧ j ≤ part.2) :
    SortedBut r count (parts ++ rest) b := by
  have apart := (List.pairwise_cons.mp spans.apart).1
  intro i j positive order bound
  -- both places are taken back to where the elements were
  have back : ∀ k, ∃ k', b k = a k' ∧ (k' = k ∨ (span.1 ≤ k ∧ k ≤ span.2 ∧ span.1 ≤ k' ∧ k' ≤ span.2)) := by
    intro k
    by_cases inside : span.1 ≤ k ∧ k ≤ span.2
    · obtain ⟨k', lower, upper, same⟩ := moved.inside inside.1 inside.2
      exact ⟨k', same, .inr ⟨inside.1, inside.2, lower, upper⟩⟩
    · exact ⟨k, moved.frame (by omega), .inl rfl⟩
  have bounds := spans.inside span List.mem_cons_self
  by_cases both : span.1 ≤ i ∧ j ≤ span.2
  · rcases parts_cover i j both.1 order both.2 with inOrder | ⟨part, member, covers⟩
    · exact .inl inOrder
    · exact .inr ⟨part, List.mem_append_left _ member, covers⟩
  · obtain ⟨i', sameI, whereI⟩ := back i
    obtain ⟨j', sameJ, whereJ⟩ := back j
    rw [sameI, sameJ]
    rcases sorted i' j' (by omega) (by omega) (by omega) with inOrder | ⟨other, member, covers⟩
    · exact .inl inOrder
    · rcases List.mem_cons.mp member with rfl | later
      · omega
      · have away := apart other later
        exact .inr ⟨other, List.mem_append_right _ later, by omega, by omega⟩

theorem Spans.split (spans : Spans count (span :: rest)) (apart : parts.Pairwise fun s t =>
    s.2 < t.1 ∨ t.2 < s.1) (within : ∀ part ∈ parts, span.1 ≤ part.1 ∧ part.1 < part.2 ∧
      part.2 ≤ span.2) : Spans count (parts ++ rest) := by
  have away := (List.pairwise_cons.mp spans.apart).1
  have bounds := spans.inside span List.mem_cons_self
  refine ⟨List.pairwise_append.mpr ⟨apart, spans.apart.of_cons, ?_⟩, ?_⟩
  · intro part member other later
    have inSpan := within part member
    have outside := away other later
    omega
  · intro other member
    rcases List.mem_append.mp member with isPart | later
    · have inSpan := within other isPart
      omega
    · exact spans.inside other (List.mem_cons_of_mem _ later)

end

end Rearrangements
