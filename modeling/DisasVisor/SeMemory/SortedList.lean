import Mathlib.Algebra.Order.Ring.Pow
import Mathlib.Tactic.Linarith
import DisasVisor.SeMemory.QSort

/-!
`SeQSort` sorts within its stacks, and `SeBSearch` finds what is in a sorted array.
-/

namespace DisasVisor.SeMemory

open Rearrangements
open Option (bind_eq_bind bind_some)

variable {α : Type} {compareFunction : α → α → ℤ} {base : ℤ → α} {low high low2 high2 count : ℤ}
  {fuel turns num : ℕ} {stack parts : List (ℤ × ℤ)} {span : ℤ × ℤ}

def Sorted (compareFunction : α → α → ℤ) (base : ℤ → α) (num : ℕ) : Prop :=
  ∀ i j : ℤ, 0 ≤ i → i < j → j < num → compareFunction (base i) (base j) ≤ 0

def Shallow (count : ℤ) : List (ℤ × ℤ) → Prop
  | [] => True
  | part :: rest => 2 ^ rest.length * (part.2 - part.1 + 1) ≤ count ∧ Shallow count rest

def weight : List (ℤ × ℤ) → ℤ
  | [] => 0
  | part :: rest => part.2 - part.1 + weight rest

theorem weight_append : weight (parts ++ stack) = weight parts + weight stack := by
  induction parts with
  | nil => simp [weight]
  | cons part parts ih =>
    rw [List.cons_append, weight, weight, ih]
    omega

theorem weight_nonneg (inside : ∀ part ∈ stack, part.1 < part.2) : 0 ≤ weight stack := by
  induction stack with
  | nil => exact le_refl _
  | cons part stack ih =>
    have rest := ih fun other member => inside other (List.mem_cons_of_mem _ member)
    have first := inside part List.mem_cons_self
    rw [weight]
    omega

theorem push_shallow {part : ℤ × ℤ} (shallow : Shallow count (span :: stack)) (order : span.1 < span.2)
    (bound : count < 0x20000000) : push stack part = some (part :: stack) := by
  have room : stack.length < seQsortStacksize := by
    have two : (2 : ℤ) ^ stack.length * 2 ≤ 2 ^ stack.length * (span.2 - span.1 + 1) :=
      mul_le_mul_of_nonneg_left (by omega) (by positivity)
    have top := shallow.1
    have small : (2 : ℤ) ^ (stack.length + 1) < 2 ^ 29 := by
      rw [pow_succ]
      omega
    have depth := (pow_lt_pow_iff_right₀ (by omega : (1 : ℤ) < 2)).mp small
    simp only [seQsortStacksize]
    omega
  exact if_pos room

theorem Shallow.replace {part : ℤ × ℤ} (shallow : Shallow count (span :: stack))
    (shorter : part.2 - part.1 ≤ span.2 - span.1) : Shallow count (part :: stack) := by
  refine ⟨le_trans ?_ shallow.1, shallow.2⟩
  exact mul_le_mul_of_nonneg_left (by omega) (by positivity)

theorem Shallow.halve {small large : ℤ × ℤ} (shallow : Shallow count (span :: stack))
    (shorter : large.2 - large.1 ≤ span.2 - span.1) (half : 2 * (small.2 - small.1 + 1) ≤ span.2 - span.1 + 1) :
    Shallow count (small :: large :: stack) := by
  refine ⟨le_trans ?_ shallow.1, shallow.replace shorter⟩
  rw [List.length_cons, pow_succ, mul_assoc]
  exact mul_le_mul_of_nonneg_left half (by positivity)

theorem choose_spec (shallow : Shallow count ((low, high) :: stack)) (bound : count < 0x20000000)
    (order : low < high) (lowMoved : low < low2) (highMoved : high2 < high) (crossed : high2 < low2) :
    ∃ parts, choose low high low2 high2 stack = some ((parts ++ stack).head?, (parts ++ stack).tail) ∧
      Shallow count (parts ++ stack) ∧ parts.Pairwise (fun s t => s.2 < t.1 ∨ t.2 < s.1) ∧
      weight parts < high - low ∧
      (∀ part ∈ parts, low ≤ part.1 ∧ part.1 < part.2 ∧ part.2 ≤ high) ∧
      (low < high2 → (low, high2) ∈ parts) ∧ (low2 < high → (low2, high) ∈ parts) := by
  have pushed : ∀ part, push stack part = some (part :: stack) := fun part =>
    push_shallow shallow order bound
  have left := @Shallow.replace count stack (low, high) (low, high2) shallow (show high2 - low ≤ high - low by omega)
  have right := @Shallow.replace count stack (low, high) (low2, high) shallow (show high - low2 ≤ high - low by omega)
  unfold choose
  by_cases longer : high2 - low ≥ high - low2
  · rw [if_pos longer]
    by_cases hasLeft : low < high2
    · simp only [if_pos hasLeft, pushed, bind_eq_bind, bind_some]
      by_cases hasRight : low2 < high
      · refine ⟨[(low2, high), (low, high2)], by rw [if_pos hasRight]; rfl, ?_, ?_⟩
        · exact shallow.halve (show high2 - low ≤ high - low by omega)
            (show 2 * (high - low2 + 1) ≤ high - low + 1 by omega)
        · simp [weight]
          omega
      · refine ⟨[(low, high2)], by rw [if_neg hasRight]; rfl, left, ?_⟩
        simp [weight]
        omega
    · simp only [if_neg hasLeft, bind_eq_bind, bind_some]
      have notRight : ¬low2 < high := by omega
      refine ⟨[], by rw [if_neg notRight]; rfl, shallow.2, ?_⟩
      simp [weight]
      omega
  · rw [if_neg longer]
    by_cases hasRight : low2 < high
    · simp only [if_pos hasRight, pushed, bind_eq_bind, bind_some]
      by_cases hasLeft : low < high2
      · refine ⟨[(low, high2), (low2, high)], by rw [if_pos hasLeft]; rfl, ?_, ?_⟩
        · exact shallow.halve (show high - low2 ≤ high - low by omega)
            (show 2 * (high2 - low + 1) ≤ high - low + 1 by omega)
        · simp [weight]
          omega
      · refine ⟨[(low2, high)], by rw [if_neg hasLeft]; rfl, right, ?_⟩
        simp [weight]
        omega
    · simp only [if_neg hasRight, bind_eq_bind, bind_some]
      have notLeft : ¬low < high2 := by omega
      refine ⟨[], by rw [if_neg notLeft]; rfl, shallow.2, ?_⟩
      simp [weight]
      omega

section

variable (compares : Compares compareFunction)
include compares

theorem sortLoop_spec (bound : count < 0x20000000) (enough : count + 1 ≤ fuel)
    (spans : Spans count (span :: stack)) (shallow : Shallow count (span :: stack))
    (sorted : SortedBut (fun x y => compareFunction x y ≤ 0) count (span :: stack) base)
    (enoughTurns : weight (span :: stack) ≤ turns) :
    ∃ base', sortLoop compareFunction fuel turns base span stack = some base' ∧
      Rearranged 0 (count - 1) base base' ∧
      SortedBut (fun x y => compareFunction x y ≤ 0) count [] base' := by
  induction turns generalizing span stack base with
  | zero =>
    have first := (spans.inside span List.mem_cons_self).2.1
    have rest := @weight_nonneg stack fun part member =>
      (spans.inside part (List.mem_cons_of_mem _ member)).2.1
    rw [weight] at enoughTurns
    omega
  | succ turns ih =>
    obtain ⟨low, high⟩ := span
    obtain ⟨lower, order, upper⟩ := spans.inside (low, high) List.mem_cons_self
    simp only at lower order upper
    obtain ⟨s, result, moved, lowMoved, highMoved, crossed, cover⟩ := @partition_spec α
      compareFunction base low high fuel compares order (by omega) (by omega)
    obtain ⟨parts, chosen, shallow', apart, lighter, within, isLeft, isRight⟩ :=
      choose_spec shallow bound order lowMoved highMoved crossed
    have sorted' := sorted.split spans moved fun i j above less below => by
      rcases cover i j above less below with inOrder | inLow | inHigh
      · exact .inl inOrder
      · exact .inr ⟨(low, s.high2), isLeft (by omega), above, inLow⟩
      · exact .inr ⟨(s.low2, high), isRight (by omega), inHigh, below⟩
    have spans' := spans.split apart within
    have widened : Rearranged 0 (count - 1) base s.base := moved.mono lower (by omega)
    unfold sortLoop
    simp only [result, chosen, bind_eq_bind, bind_some]
    cases isNext : parts ++ stack with
    | nil =>
      rw [isNext] at sorted'
      exact ⟨s.base, rfl, widened, sorted'⟩
    | cons next rest =>
      rw [isNext] at sorted' spans' shallow'
      have less : weight (next :: rest) ≤ turns := by
        rw [← isNext, weight_append]
        simp only [weight] at enoughTurns
        omega
      obtain ⟨base', result', moved', sorted''⟩ := ih spans' shallow' sorted' less
      exact ⟨base', result', widened.trans moved', sorted''⟩

theorem seQSort_spec (bound : num < 0x20000000) (enough : num + 1 ≤ fuel) :
    ∃ base', seQSort compareFunction fuel base num = some base' ∧ Rearranged 0 (num - 1) base base' ∧
      Sorted compareFunction base' num := by
  unfold seQSort
  by_cases few : num ≤ 1
  · rw [if_pos few]
    refine ⟨base, rfl, Rearranged.refl, ?_⟩
    intro i j positive less below
    omega
  · rw [if_neg few, scale_eq (by omega) (by omega)]
    have spans : Spans num [((0 : ℤ), (num : ℤ) - 1)] := by
      refine ⟨List.pairwise_singleton _ _, ?_⟩
      simp
      omega
    obtain ⟨base', result, moved, sorted⟩ := @sortLoop_spec α compareFunction base num fuel fuel []
      (0, (num : ℤ) - 1) compares (by omega) (by omega) spans (by simp [Shallow])
      (fun i j positive less below => .inr ⟨_, List.mem_singleton_self _, positive, by
        simp only
        omega⟩) (by simp [weight]; omega)
    exact ⟨base', result, moved, sortedBut_nil.mp sorted⟩

/-- Of the elements before `total` only those from `low` on, `num` of them, can be equal to the key. -/
structure Remains (compareFunction : α → α → ℤ) (key : α) (base : ℤ → α) (total num : ℕ) (low : ℤ) :
    Prop where
  lower : 0 ≤ low
  upper : low + num ≤ total
  before : ∀ i, 0 ≤ i → i < low → compareFunction key (base i) ≠ 0
  behind : ∀ i, low + num ≤ i → i < total → compareFunction key (base i) ≠ 0

def Found (compareFunction : α → α → ℤ) (key : α) (base : ℤ → α) (total : ℕ) : Option ℤ → Prop
  | none => ∀ i : ℤ, 0 ≤ i → i < total → compareFunction key (base i) ≠ 0
  | some i => 0 ≤ i ∧ i < total ∧ compareFunction key (base i) = 0

theorem searchLoop_spec {key : α} {total : ℕ} (bound : total < 0x20000000)
    (sorted : Sorted compareFunction base total) (remains : Remains compareFunction key base total num low)
    (isHigh : num = 0 ∨ high = low + num - 1) (enough : num < turns) :
    ∃ r, searchLoop compareFunction key base turns low high num = some r ∧ Found compareFunction key base total r := by
  induction turns generalizing low high num with
  | zero => omega
  | succ turns ih =>
    obtain ⟨lower, upper, before, behind⟩ := remains
    have nothing : num = 0 → Found compareFunction key base total none := by
      intro isZero i positive less
      by_cases early : i < low
      · exact before i positive early
      · exact behind i (by omega) less
    unfold searchLoop
    by_cases inRange : low ≤ high
    swap
    · rw [if_neg inRange]
      exact ⟨none, rfl, nothing (by omega)⟩
    rw [if_pos inRange]
    by_cases many : num / 2 ≠ 0
    · rw [if_pos many]
      generalize isLeft : (if num % 2 ≠ 0 then num / 2 else num / 2 - 1) = left
      have sizes : left + num / 2 + 1 = num := by split at isLeft <;> omega
      have isScale : scale (left : ℤ) = left := scale_eq (by omega) (by omega)
      simp only [isScale]
      by_cases equal : compareFunction key (base (low + left)) = 0
      · rw [if_pos equal]
        exact ⟨_, rfl, by omega, by omega, equal⟩
      · rw [if_neg equal]
        by_cases less : compareFunction key (base (low + left)) < 0
        · rw [if_pos less]
          refine ih ⟨lower, by omega, before, ?_⟩ (by omega) (by omega)
          intro i above below
          have smaller : compareFunction key (base i) < 0 := by
            by_cases here : i = low + left
            · rw [here]
              exact less
            · exact compares.lt_of_lt_of_le less (sorted _ i (by omega) (by omega) below)
          omega
        · rw [if_neg less]
          refine ih ⟨by omega, by omega, ?_, ?_⟩ (by omega) (by omega)
          · intro i positive below
            have greater : compareFunction (base i) key < 0 := by
              have here := (compares.swap key (base (low + left))).mp (by omega)
              by_cases same : i = low + left
              · rw [same]
                exact here
              · exact compares.lt_of_le_of_lt (sorted i _ positive (by omega) (by omega)) here
            have turned := (compares.swap key (base i)).mpr greater
            omega
          · intro i above below
            exact behind i (by omega) below
    · rw [if_neg many]
      by_cases one : num ≠ 0
      · rw [if_pos one]
        by_cases equal : compareFunction key (base low) = 0
        · rw [if_pos equal]
          exact ⟨_, rfl, lower, by omega, equal⟩
        · rw [if_neg equal]
          refine ⟨none, rfl, ?_⟩
          intro i positive less
          by_cases early : i < low
          · exact before i positive early
          · by_cases here : i = low
            · rw [here]
              exact equal
            · exact behind i (by omega) less
      · rw [if_neg one]
        exact ⟨none, rfl, nothing (by omega)⟩

theorem seBSearch_spec {key : α} (bound : num < 0x20000000) (sorted : Sorted compareFunction base num)
    (enough : num < fuel) :
    ∃ r, seBSearch compareFunction fuel key base num = some r ∧ Found compareFunction key base num r := by
  unfold seBSearch
  refine searchLoop_spec compares bound sorted ⟨le_refl 0, by omega, by omega, by omega⟩ ?_ enough
  by_cases none' : num = 0
  · exact .inl none'
  · right
    rw [if_neg none', scale_eq (by omega) (by omega)]
    omega

end

/-!
`SE_LIST` of `vpn/lib/Se/SeMemory.c`: an array of pointers with a lazy flag that it is sorted. A
pointer is its address, and 0 is `NULL`.
-/

open Function

structure SeList where
  numItem : ℕ
  numReserved : ℕ
  p : ℤ → ℕ
  /-- How many bytes `p` points to. -/
  allocated : ℕ
  cmp : Option (ℕ → ℕ → ℤ)
  sorted : Bool

def seInitNumReserved : ℕ := 32

def uint (n : ℕ) : ℕ := n % 0x100000000

def seNewList (cmp : Option (ℕ → ℕ → ℤ)) : SeList where
  numItem := 0
  numReserved := seInitNumReserved
  p := fun _ => 0
  allocated := uint (8 * seInitNumReserved)
  cmp := cmp
  sorted := true

def seToArray (o : SeList) : (ℤ → ℕ) × ℕ := (fun i => if 0 ≤ i ∧ i < o.numItem then o.p i else 0, uint (8 * o.numItem))

def seCloneList (o : SeList) : SeList :=
  { seNewList o.cmp with
    p := (seToArray o).1, allocated := (seToArray o).2
    numItem := o.numItem, numReserved := o.numItem, sorted := o.sorted }

def grow (o : SeList) : SeList :=
  let numItem := uint (o.numItem + 1)
  if numItem > o.numReserved then
    { o with
      numItem := numItem, numReserved := uint (o.numReserved * 2)
      allocated := uint (8 * uint (o.numReserved * 2)) }
  else { o with numItem := numItem }

def seAdd (o : SeList) (p : ℕ) : SeList :=
  if p = 0 then o
  else { grow o with p := update o.p o.numItem p, sorted := false }

def seSort (fuel : ℕ) (o : SeList) : Option SeList :=
  match o.cmp with
  | none => some o
  | some cmp => (seQSort cmp fuel o.p o.numItem).map fun p => { o with p := p, sorted := true }

def sortFirst (fuel : ℕ) (o : SeList) : Option SeList :=
  if o.sorted = false then seSort fuel o else some o

def findPos (cmp : ℕ → ℕ → ℤ) (a : ℤ → ℕ) (p : ℕ) : ℕ → ℤ → ℤ → Option ℤ
  | 0, _, _ => none
  | turns + 1, low, high =>
    if low ≤ high then
      let middle := (low + high) / 2
      let ret := cmp (a middle) p
      if ret = 0 then some middle
      else if ret > 0 then findPos cmp a p turns low (middle - 1)
      else findPos cmp a p turns (middle + 1) high
    else some low

def moveUp (pos : ℤ) : ℕ → (ℤ → ℕ) → ℤ → ℕ
  | 0, a => a
  | count + 1, a => moveUp pos count (update a (pos + count + 1) (a (pos + count)))

def moveDown : ℕ → ℤ → (ℤ → ℕ) → ℤ → ℕ
  | 0, _, a => a
  | count + 1, i, a => moveDown count (i + 1) (update a i (a (i + 1)))

def seInsert (fuel : ℕ) (o : SeList) (p : ℕ) : Option SeList :=
  if p = 0 then some o
  else
    match o.cmp with
    | none => some (seAdd o p)
    | some cmp => do
        let o ← sortFirst fuel o
        let pos ← findPos cmp o.p p fuel 0 (o.numItem - 1)
        let a := moveUp pos (o.numItem - pos).toNat o.p
        some { grow o with p := update a pos p }

def firstAt (a : ℤ → ℕ) (p : ℕ) : ℕ → ℤ → Option ℤ
  | 0, _ => none
  | count + 1, i => if a i = p then some i else firstAt a p count (i + 1)

def seDelete (o : SeList) (p : ℕ) : Bool × SeList :=
  if p = 0 then (false, o)
  else
    match firstAt o.p p o.numItem 0 with
    | none => (false, o)
    | some n =>
      let o := { o with
        p := moveDown (o.numItem - 1 - n).toNat n o.p
        numItem := o.numItem - 1 }
      if o.numItem * 2 ≤ o.numReserved ∧ o.numReserved > seInitNumReserved * 2 then
        (true, { o with
          numReserved := o.numReserved / 2, allocated := uint (8 * (o.numReserved / 2)) })
      else (true, o)

def seSearch (fuel : ℕ) (o : SeList) (target : ℕ) : Option (ℕ × SeList) :=
  if target = 0 then some (0, o)
  else
    match o.cmp with
    | none => some (0, o)
    | some cmp => do
        let o ← sortFirst fuel o
        let ret ← seBSearch cmp fuel target o.p o.numItem
        match ret with
        | none => some (0, o)
        | some i => some (o.p i, o)

inductive ListCall where
  | add (p : ℕ)
  | insert (p : ℕ)
  | delete (p : ℕ)
  | search (target : ℕ)
  | sort
  | clone

def ListCall.run (fuel : ℕ) (o : SeList) : ListCall → Option SeList
  | add p => some (seAdd o p)
  | insert p => seInsert fuel o p
  | delete p => some (seDelete o p).2
  | search target => (seSearch fuel o target).map Prod.snd
  | sort => seSort fuel o
  | clone => some (seCloneList o)

end DisasVisor.SeMemory
