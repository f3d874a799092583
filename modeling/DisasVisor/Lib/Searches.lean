import Mathlib.Data.List.Basic
import Mathlib.Order.Lattice

/-!
Searches in a list that keep the place of what they find, so that it can be changed there or
taken out; and the search for the first iterate of a function at which a loop stops.
-/

namespace Searches

open List

variable {α : Type*} {p : α → Bool} {x : α} {xs front back : List α}

def locate (p : α → Bool) : List α → Option (List α × α × List α)
  | [] => none
  | x :: xs =>
    if p x then some ([], x, xs)
    else
      match locate p xs with
      | none => none
      | some (front, y, back) => some (x :: front, y, back)

theorem locate_some (found : locate p xs = some (front, x, back)) :
    xs = front ++ x :: back ∧ p x = true ∧ ∀ y ∈ front, p y = false := by
  induction xs generalizing front with
  | nil => cases found
  | cons y ys ih =>
    unfold locate at found
    by_cases passes : p y = true
    · simp only [passes, if_true] at found
      cases found
      exact ⟨rfl, passes, by simp⟩
    · cases later : locate p ys with
      | none => simp [passes, later] at found
      | some result =>
        obtain ⟨front', z, back'⟩ := result
        simp only [passes, later, Bool.false_eq_true, if_false] at found
        cases found
        obtain ⟨rfl, passesLater, before⟩ := ih later
        refine ⟨rfl, passesLater, ?_⟩
        intro w member
        rcases mem_cons.mp member with rfl | earlier
        · simpa using passes
        · exact before w earlier

theorem locate_none : locate p xs = none ↔ ∀ x ∈ xs, p x = false := by
  induction xs with
  | nil => simp [locate]
  | cons y ys ih =>
    unfold locate
    by_cases passes : p y = true
    · simp [passes]
    · cases later : locate p ys with
      | none => simpa [passes, later] using ih.mp later
      | some result =>
        have some' : ¬∀ x ∈ ys, p x = false := by
          rw [← ih, later]
          exact Option.some_ne_none _
        simpa [passes] using some'

theorem locate_only (passes : p x = true) (front' : ∀ y ∈ front, p y = false) :
    locate p (front ++ x :: back) = some (front, x, back) := by
  induction front with
  | nil => simp [locate, passes]
  | cons y ys ih =>
    have fails := front' y mem_cons_self
    have later := ih fun z member => front' z (mem_cons_of_mem y member)
    simp [locate, fails, later]

def insertBefore (later : α → Bool) (x : α) (xs : List α) : List α :=
  match locate later xs with
  | some (front, y, back) => front ++ x :: y :: back
  | none => xs ++ [x]

theorem insertBefore_perm (later : α → Bool) (x : α) (xs : List α) : (insertBefore later x xs).Perm (x :: xs) := by
  unfold insertBefore
  cases found : locate later xs with
  | none => exact perm_append_singleton x xs
  | some result =>
    obtain ⟨front, y, back⟩ := result
    rw [(locate_some found).1]
    exact perm_middle

theorem mem_insertBefore {later : α → Bool} {y : α} : y ∈ insertBefore later x xs ↔ y = x ∨ y ∈ xs := by
  rw [(insertBefore_perm later x xs).mem_iff, mem_cons]

theorem locate_congr {q : α → Bool} (same : ∀ y ∈ xs, p y = q y) : locate p xs = locate q xs := by
  induction xs with
  | nil => rfl
  | cons y ys ih =>
    have first := same y mem_cons_self
    have rest := ih fun z member => same z (mem_cons_of_mem y member)
    simp only [locate, first, rest]

theorem insertBefore_congr {q : α → Bool} (same : ∀ y ∈ xs, p y = q y) : insertBefore p x xs = insertBefore q x xs := by
  rw [insertBefore, locate_congr same, insertBefore]

theorem insertBefore_sorted {β : Type*} [LinearOrder β] (key : α → β) (x : α) {xs : List α}
    (sorted : xs.Pairwise fun y z => key y ≤ key z) :
    (insertBefore (fun y => decide (key x < key y)) x xs).Pairwise fun y z => key y ≤ key z := by
  unfold insertBefore
  cases found : locate (fun y => decide (key x < key y)) xs with
  | none =>
    have before := locate_none.mp found
    simp only [decide_eq_false_iff_not, not_lt] at before
    rw [pairwise_append]
    exact ⟨sorted, pairwise_singleton _ _, by simpa using before⟩
  | some result =>
    obtain ⟨front, y, back⟩ := result
    obtain ⟨rfl, later, before⟩ := locate_some found
    simp only [decide_eq_false_iff_not, not_lt, decide_eq_true_eq] at later before
    rw [pairwise_append] at sorted ⊢
    obtain ⟨frontSorted, backSorted, across⟩ := sorted
    refine ⟨frontSorted, pairwise_cons.mpr ⟨?_, backSorted⟩, ?_⟩
    · intro z member
      rcases mem_cons.mp member with rfl | inBack
      · exact le_of_lt later
      · exact le_trans (le_of_lt later) ((pairwise_cons.mp backSorted).1 z inBack)
    · intro w inFront z member
      rcases mem_cons.mp member with rfl | old
      · exact before w inFront
      · exact across w inFront z old

def advance (goesOn : α → Bool) (next : α → α) : Nat → α → Option α
  | 0, _ => none
  | fuel + 1, value => if goesOn value then advance goesOn next fuel (next value) else some value

theorem advance_some {goesOn : α → Bool} {next : α → α} {first last : α} {fuel : Nat}
    (ended : advance goesOn next fuel first = some last) :
    ∃ m, m < fuel ∧ last = next^[m] first ∧ goesOn last = false ∧ ∀ l, l < m → goesOn (next^[l] first) = true := by
  induction fuel generalizing first with
  | zero => cases ended
  | succ fuel ih =>
    unfold advance at ended
    cases on : goesOn first with
    | true =>
      simp only [on, if_true] at ended
      obtain ⟨m, bound, same, stops, before⟩ := ih ended
      refine ⟨m + 1, by omega, same, stops, ?_⟩
      intro l below
      cases l with
      | zero => exact on
      | succ l => exact before l (by omega)
    | false =>
      simp only [on, Bool.false_eq_true, if_false] at ended
      cases ended
      exact ⟨0, by omega, rfl, on, fun l below => by omega⟩

section

variable [DecidableEq α] {d : α}

theorem idxOf_erase_le (other : x ≠ d) : (xs.erase x).idxOf d ≤ xs.idxOf d := by
  induction xs with
  | nil => exact Nat.le_refl _
  | cons y ys ih =>
    by_cases first : y = x
    · subst first
      rw [erase_cons_head, idxOf_cons_ne _ other]
      exact Nat.le_succ _
    · rw [erase_cons_tail (by simpa using first), idxOf_cons, idxOf_cons]
      cases y == d with
      | true => exact Nat.le_refl _
      | false => exact Nat.succ_le_succ ih

/-- Before an element that passes, what the search finds goes out of its way. -/
theorem idxOf_erase_find (found : xs.find? p = some x) (other : x ≠ d) (passes : p d = true) :
    (xs.erase x).idxOf d + 1 = xs.idxOf d := by
  induction xs with
  | nil => cases found
  | cons y ys ih =>
    by_cases first : p y = true
    · rw [find?_cons_of_pos first] at found
      cases found
      rw [erase_cons_head, idxOf_cons_ne _ other]
    · rw [find?_cons_of_neg first] at found
      have next : y ≠ x := by
        rintro rfl
        exact first (find?_some found)
      have behind : y ≠ d := by
        rintro rfl
        exact first passes
      rw [erase_cons_tail (by simpa using next), idxOf_cons_ne _ behind, idxOf_cons_ne _ behind]
      exact congrArg Nat.succ (ih found)

end

end Searches
