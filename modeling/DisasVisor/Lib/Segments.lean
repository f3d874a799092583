import Mathlib.Data.List.Nodup
import Mathlib.Data.List.SplitBy
import Mathlib.Algebra.GroupWithZero.Nat

/-!
Lists that are taken apart: at one item, and by a test whose items are erased one after the other.
-/

namespace Splits

open List

variable {α β κ : Type*}

theorem append_eq_split {xs ys before after : List α} {a : α} (same : xs ++ ys = before ++ a :: after) :
    (∃ mid, xs = before ++ a :: mid ∧ after = mid ++ ys) ∨ ∃ mid, before = xs ++ mid ∧ ys = mid ++ a :: after := by
  rcases append_eq_append_iff.mp same with ⟨mid, is, later⟩ | ⟨mid, is, later⟩
  · exact .inr ⟨mid, is, later⟩
  · cases mid with
    | nil => exact .inr ⟨[], by rw [is, append_nil, append_nil], later.symm⟩
    | cons b mid =>
      rw [cons_append, List.cons.injEq] at later
      exact .inl ⟨mid, by rw [is, later.1], later.2⟩

theorem eraseP_key [DecidableEq κ] {key : α → κ} {front back : List α} {a : α}
    (keys : ((front ++ a :: back).map key).Nodup) :
    (front ++ a :: back).eraseP (fun b => key b = key a) = front ++ back := by
  have other : ∀ b ∈ front, ¬ (decide (key b = key a)) = true := by
    intro b member same
    rw [map_append, map_cons, nodup_append] at keys
    exact keys.2.2 _ (mem_map_of_mem member) _ mem_cons_self (of_decide_eq_true same)
  rw [eraseP_append_right _ other, eraseP_cons_of_pos]
  exact decide_eq_true rfl

theorem filter_flatMap_single {items : List α} {parts : α → List β} {test : β → Bool} {a : α}
    (nodup : items.Nodup) (member : a ∈ items) (others : ∀ b ∈ items, b ≠ a → (parts b).filter test = []) :
    (items.flatMap parts).filter test = (parts a).filter test := by
  obtain ⟨front, back, rfl⟩ := append_of_mem member
  rw [nodup_append, nodup_cons] at nodup
  have before : (front.flatMap parts).filter test = [] := by
    rw [filter_flatMap, flatMap_eq_nil_iff]
    intro b inside
    have apart := nodup.2.2 b inside a mem_cons_self
    exact others b (mem_append_left _ inside) apart
  have behind : (back.flatMap parts).filter test = [] := by
    rw [filter_flatMap, flatMap_eq_nil_iff]
    intro b inside
    refine others b (mem_append_right _ (mem_cons_of_mem _ inside)) ?_
    rintro rfl
    exact nodup.2.1.1 inside
  rw [flatMap_append, flatMap_cons, filter_append, filter_append, before, behind, nil_append, append_nil]

end Splits

/-!
The longest segments of a list whose neighbours are related, element by element.
-/

namespace Segments

open List

variable {α : Type*} {r : α → α → Bool}

theorem splitBy_cons (first : α) (list : List α) :
    ∃ run rest, List.splitBy r (first :: list) = (first :: run) :: rest := by
  have whole := flatten_splitBy r (first :: list)
  have nonempty := nil_notMem_splitBy r (first :: list)
  generalize List.splitBy r (first :: list) = parts at whole nonempty
  rcases parts with _ | ⟨_ | ⟨head, run⟩, rest⟩
  · cases whole
  · exact absurd mem_cons_self nonempty
  · rw [flatten_cons, cons_append, List.cons.injEq] at whole
    exact ⟨run, rest, by rw [whole.1]⟩

theorem splitBy_apart {last next : α} (apart : r last next = false) (list : List α) :
    List.splitBy r (last :: next :: list) = [last] :: List.splitBy r (next :: list) :=
  splitBy_append_cons (l := [last]) list (by simpa using apart)

theorem splitBy_joined {last next : α} (joined : r last next = true) (list : List α) :
    ∃ run rest, List.splitBy r (next :: list) = (next :: run) :: rest ∧
      List.splitBy r (last :: next :: list) = (last :: next :: run) :: rest := by
  obtain ⟨run, rest, split⟩ := splitBy_cons (r := r) next list
  have parts := splitBy_eq_iff.mp split
  obtain ⟨whole, nonempty, chains, ends⟩ := parts
  refine ⟨run, rest, split, splitBy_eq_iff.mpr ⟨?_, ?_, ?_, ?_⟩⟩
  · rw [whole]
    rfl
  · simpa using nonempty
  · rw [forall_mem_cons] at chains ⊢
    exact ⟨isChain_cons_cons.mpr ⟨joined, chains.1⟩, chains.2⟩
  · rw [isChain_cons] at ends ⊢
    refine ⟨fun part member => ?_, ends.2⟩
    obtain ⟨left, right, separate⟩ := ends.1 part member
    exact ⟨by simp, right, by simpa using separate⟩

theorem exists_segment {list : List α} {x : α} (member : x ∈ list) :
    ∃ (k : ℕ) (segment : List α), (List.splitBy r list)[k]? = some segment ∧ x ∈ segment := by
  rw [← flatten_splitBy r list, mem_flatten] at member
  obtain ⟨segment, among, member⟩ := member
  obtain ⟨k, place⟩ := mem_iff_getElem?.mp among
  exact ⟨k, segment, place, member⟩

theorem getElem?_takeWhile {p : α → Bool} {x : α} (list : List α) : ∀ k : ℕ, (list.takeWhile p)[k]? = some x ↔
    list[k]? = some x ∧ ∀ j ≤ k, ∀ y, list[j]? = some y → p y = true := by
  induction list with
  | nil => simp
  | cons first list ih =>
    intro k
    by_cases passes : p first = true
    · rw [takeWhile_cons_of_pos passes]
      cases k with
      | zero =>
        simp only [List.getElem?_cons_zero, Option.some.injEq, Nat.le_zero, forall_eq]
        constructor
        · rintro rfl
          exact ⟨rfl, fun y same => same ▸ passes⟩
        · exact And.left
      | succ k =>
        rw [List.getElem?_cons_succ, List.getElem?_cons_succ, ih k]
        refine and_congr_right fun _ => ⟨fun all j bound y place => ?_, fun all j bound y place => ?_⟩
        · cases j with
          | zero => cases place; exact passes
          | succ j => exact all j (by omega) y place
        · exact all (j + 1) (by omega) y place
    · rw [takeWhile_cons_of_neg passes]
      refine ⟨fun none => by simp at none, fun both => ?_⟩
      exact absurd (both.2 0 (by omega) first rfl) passes

end Segments

/-!
Finite chains of links in a table where every entry names at most one successor.
-/

inductive Chain {ι : Type} (next : ι → Option ι) : ι → List ι → Prop where
  | last {index : ι} (ends : next index = none) : Chain next index [index]
  | link {index successor : ι} {rest : List ι} (follows : next index = some successor)
      (chain : Chain next successor rest) : Chain next index (index :: rest)

namespace Chain

variable {ι : Type} {next : ι → Option ι} {index : ι} {first second : List ι}

theorem unique (left : Chain next index first) (right : Chain next index second) : first = second := by
  induction left generalizing second with
  | last ends =>
    cases right with
    | last => rfl
    | link follows => simp [ends] at follows
  | link follows chain ih =>
    cases right with
    | last ends => simp [ends] at follows
    | link follows' chain' =>
      rw [follows] at follows'
      cases follows'
      rw [ih chain']

theorem nonempty (chain : Chain next index first) : first ≠ [] := by
  cases chain <;> exact List.cons_ne_nil _ _

theorem not_of_self (loops : next index = some index) : ¬ ∃ indices, Chain next index indices := by
  rintro ⟨indices, chain⟩
  induction indices with
  | nil => exact chain.nonempty rfl
  | cons head rest ih =>
    cases chain with
    | last ends => simp [ends] at loops
    | link follows chain =>
      rw [loops] at follows
      cases follows
      exact ih chain

end Chain
