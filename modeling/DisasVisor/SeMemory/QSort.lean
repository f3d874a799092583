import Mathlib.Tactic.Ring
import DisasVisor.Lib.Rearrangements

/-!
`SeQSort` and `SeBSearch` of `vpn/lib/Se/SeMemory.c` for an array of pointers. A place in the array
is counted in elements from its start, and may be one before it.
-/

namespace DisasVisor.SeMemory

variable {α : Type}

def scale (n : ℤ) : ℤ := (8 * n) % 0x100000000 / 8

def seFastSwap (p : ℤ → α) (a b : ℤ) : ℤ → α :=
  if a = b then p else Function.update (Function.update p a (p b)) b (p a)

/-- `do i += step while (go i)`; `none` is that the fuel does not suffice. -/
def doWhile (step : ℤ) (go : ℤ → Bool) : ℕ → ℤ → Option ℤ
  | 0, _ => none
  | fuel + 1, i => if go (i + step) then doWhile step go fuel (i + step) else some (i + step)

structure Partition (α : Type) where
  base : ℤ → α
  middle : ℤ
  low2 : ℤ
  high2 : ℤ

def seQsortStacksize : ℕ := 8 * 8 - 2

section

variable (compareFunction : α → α → ℤ) (fuel : ℕ)

def orderThree (base : ℤ → α) (low middle high : ℤ) : ℤ → α :=
  let base := if compareFunction (base low) (base middle) > 0 then seFastSwap base low middle else base
  let base := if compareFunction (base low) (base high) > 0 then seFastSwap base low high else base
  if compareFunction (base middle) (base high) > 0 then seFastSwap base middle high else base

def scanUp (base : ℤ → α) (high middle low2 : ℤ) : Option ℤ := do
  let low2 ← if middle > low2 then
      doWhile 1 (fun l => l < middle ∧ compareFunction (base l) (base middle) ≤ 0) fuel low2
    else some low2
  if middle ≤ low2 then
    doWhile 1 (fun l => l ≤ high ∧ compareFunction (base l) (base middle) ≤ 0) fuel low2
  else some low2

def scanDown (base : ℤ → α) (middle high2 : ℤ) : Option ℤ :=
  doWhile (-1) (fun h => h > middle ∧ compareFunction (base h) (base middle) > 0) fuel high2

def swapLoop (high : ℤ) : ℕ → Partition α → Option (Partition α)
  | 0, _ => none
  | turns + 1, s => do
      let low2 ← scanUp compareFunction fuel s.base high s.middle s.low2
      let high2 ← scanDown compareFunction fuel s.base s.middle s.high2
      if high2 < low2 then some { s with low2 := low2, high2 := high2 }
      else
        let base := seFastSwap s.base low2 high2
        let middle := if s.middle = high2 then low2 else s.middle
        swapLoop high turns ⟨base, middle, low2, high2⟩

def passEqual (base : ℤ → α) (low middle high2 : ℤ) : Option ℤ := do
  let high2 ← if middle < high2 then
      doWhile (-1) (fun h => h > middle ∧ compareFunction (base h) (base middle) = 0) fuel high2
    else some high2
  if middle ≥ high2 then
    doWhile (-1) (fun h => h > low ∧ compareFunction (base h) (base middle) = 0) fuel high2
  else some high2

def partition (base : ℤ → α) (low high : ℤ) : Option (Partition α) := do
  let size := scale (high - low) + 1
  let middle := low + scale (size / 2)
  let base := orderThree compareFunction base low middle high
  let s ← swapLoop compareFunction fuel high fuel ⟨base, middle, low, high⟩
  let high2 ← passEqual compareFunction fuel s.base low s.middle (s.high2 + 1)
  some { s with high2 := high2 }

def push (stack : List (ℤ × ℤ)) (part : ℤ × ℤ) : Option (List (ℤ × ℤ)) :=
  if stack.length < seQsortStacksize then some (part :: stack) else none

def choose (low high low2 high2 : ℤ) (stack : List (ℤ × ℤ)) : Option (Option (ℤ × ℤ) × List (ℤ × ℤ)) :=
  if high2 - low ≥ high - low2 then do
    let stack ← if low < high2 then push stack (low, high2) else some stack
    if low2 < high then some (some (low2, high), stack) else some (stack.head?, stack.tail)
  else do
    let stack ← if low2 < high then push stack (low2, high) else some stack
    if low < high2 then some (some (low, high2), stack) else some (stack.head?, stack.tail)

def sortLoop : ℕ → (ℤ → α) → ℤ × ℤ → List (ℤ × ℤ) → Option (ℤ → α)
  | 0, _, _, _ => none
  | turns + 1, base, (low, high), stack => do
      let s ← partition compareFunction fuel base low high
      let (next, stack) ← choose low high s.low2 s.high2 stack
      match next with
      | none => some s.base
      | some part => sortLoop turns s.base part stack

def seQSort (base : ℤ → α) (num : ℕ) : Option (ℤ → α) :=
  if num ≤ 1 then some base else sortLoop compareFunction fuel fuel base (0, scale (num - 1)) []

def searchLoop (key : α) (base : ℤ → α) : ℕ → ℤ → ℤ → ℕ → Option (Option ℤ)
  | 0, _, _, _ => none
  | turns + 1, low, high, num =>
    if low ≤ high then
      if num / 2 ≠ 0 then
        let left := if num % 2 ≠ 0 then num / 2 else num / 2 - 1
        let middle := low + scale left
        let ret := compareFunction key (base middle)
        if ret = 0 then some (some middle)
        else if ret < 0 then searchLoop key base turns low (middle - 1) left
        else searchLoop key base turns (middle + 1) high (num / 2)
      else if num ≠ 0 then
        if compareFunction key (base low) = 0 then some (some low) else some none
      else some none
    else some none

def seBSearch (key : α) (base : ℤ → α) (num : ℕ) : Option (Option ℤ) :=
  searchLoop compareFunction key base fuel 0 (scale (if num = 0 then 0xFFFFFFFF else num - 1)) num

end

/-!
One partition of `SeQSort`: the elements before `low2` are not greater than those behind `high2`.
-/

open Option (bind_eq_bind bind_some)
open Function Rearrangements

variable {compareFunction : α → α → ℤ} {base : ℤ → α} {low high middle i limit : ℤ} {fuel : ℕ} {x y z : α}

structure Compares (compareFunction : α → α → ℤ) : Prop where
  swap : ∀ x y, 0 < compareFunction x y ↔ compareFunction y x < 0
  trans : ∀ x y z, compareFunction x y ≤ 0 → compareFunction y z ≤ 0 → compareFunction x z ≤ 0

namespace Compares

variable (compares : Compares compareFunction)
include compares

theorem refl (x : α) : compareFunction x x = 0 := by
  have same := compares.swap x x
  omega

theorem total (notLe : ¬compareFunction x y ≤ 0) : compareFunction y x ≤ 0 := by
  have less := (compares.swap x y).mp (by omega)
  omega

theorem symm (equal : compareFunction x y = 0) : compareFunction y x = 0 := by
  have forward := compares.swap x y
  have backward := compares.swap y x
  omega

theorem lt_of_lt_of_le (less : compareFunction x y < 0) (le : compareFunction y z ≤ 0) : compareFunction x z < 0 := by
  have greater := (compares.swap y x).mpr less
  by_contra notLess
  have back : compareFunction z x ≤ 0 := by
    have turned := compares.swap z x
    omega
  have contrary := compares.trans y z x le back
  omega

theorem lt_of_le_of_lt (le : compareFunction x y ≤ 0) (less : compareFunction y z < 0) : compareFunction x z < 0 := by
  have greater := (compares.swap z y).mpr less
  by_contra notLess
  have back : compareFunction z x ≤ 0 := by
    have turned := compares.swap z x
    omega
  have contrary := compares.trans z x y back le
  omega

end Compares

variable {go : ℤ → Bool} {step : ℤ}

theorem doWhile_stops (count : ℕ) (enough : count < fuel) (stop : go (i + step * (count + 1)) = false) :
    ∃ first ≤ count, doWhile step go fuel i = some (i + step * (first + 1)) ∧
      go (i + step * (first + 1)) = false ∧ ∀ k < first, go (i + step * (k + 1)) = true := by
  induction fuel generalizing i count with
  | zero => omega
  | succ fuel ih =>
    unfold doWhile
    by_cases onward : go (i + step) = true
    · obtain ⟨count, rfl⟩ : ∃ previous, count = previous + 1 := by
        refine ⟨count - 1, ?_⟩
        by_contra none'
        have isZero : count = 0 := by omega
        subst isZero
        rw [Nat.cast_zero, zero_add, mul_one, onward] at stop
        cases stop
      have shift : ∀ k : ℕ, i + step + step * (k + 1) = i + step * ((k + 1 : ℕ) + 1) := by
        intro k
        push_cast
        ring
      obtain ⟨first, le, result, here, earlier⟩ := @ih (i + step) count (by omega) (by
        rw [shift]
        exact stop)
      refine ⟨first + 1, by omega, ?_, ?_, ?_⟩
      · rw [if_pos onward, result, shift]
      · rw [← shift]
        exact here
      · intro k below
        cases k with
        | zero => simpa using onward
        | succ k =>
          rw [← shift]
          exact earlier k (by omega)
    · refine ⟨0, Nat.zero_le _, ?_, by simpa using onward, by omega⟩
      rw [if_neg onward]
      simp

theorem doWhile_up (below : i < limit) (enough : limit - i ≤ fuel) (stop : go limit = false) :
    ∃ r, doWhile 1 go fuel i = some r ∧ i < r ∧ r ≤ limit ∧ go r = false ∧ ∀ k, i < k → k < r → go k = true := by
  obtain ⟨first, le, result, here, earlier⟩ := @doWhile_stops i fuel go 1 (limit - i - 1).toNat
    (by omega) (by
      rw [show i + 1 * (((limit - i - 1).toNat : ℤ) + 1) = limit by omega]
      exact stop)
  refine ⟨_, result, by omega, by omega, here, ?_⟩
  intro k above before
  have at' := earlier (k - i - 1).toNat (by omega)
  rwa [show i + 1 * (((k - i - 1).toNat : ℤ) + 1) = k by omega] at at'

theorem doWhile_down (above : limit < i) (enough : i - limit ≤ fuel) (stop : go limit = false) :
    ∃ r, doWhile (-1) go fuel i = some r ∧ r < i ∧ limit ≤ r ∧ go r = false ∧ ∀ k, r < k → k < i → go k = true := by
  obtain ⟨first, le, result, here, earlier⟩ := @doWhile_stops i fuel go (-1) (i - limit - 1).toNat
    (by omega) (by
      rw [show i + -1 * (((i - limit - 1).toNat : ℤ) + 1) = limit by omega]
      exact stop)
  refine ⟨_, result, by omega, by omega, here, ?_⟩
  intro k below before
  have at' := earlier (i - k - 1).toNat (by omega)
  rwa [show i + -1 * (((i - k - 1).toNat : ℤ) + 1) = k by omega] at at'

section

variable (compares : Compares compareFunction)
include compares

theorem scanUp_spec {low2 : ℤ} (inside : low2 ≤ high) (middleInside : middle ≤ high)
    (enough : high + 1 - low2 ≤ fuel) :
    ∃ r, scanUp compareFunction fuel base high middle low2 = some r ∧ low2 < r ∧ r ≤ high + 1 ∧
      (∀ k, low2 < k → k < r → compareFunction (base k) (base middle) ≤ 0) ∧
      (r ≤ high → 0 < compareFunction (base r) (base middle)) := by
  -- the second scan starts at `middle` or behind it
  have second : ∀ start, middle ≤ start → start ≤ high → low2 ≤ start →
      (∀ k, low2 < k → k ≤ start → compareFunction (base k) (base middle) ≤ 0) →
      ∃ r, doWhile 1 (fun l => l ≤ high ∧ compareFunction (base l) (base middle) ≤ 0) fuel start =
        some r ∧ low2 < r ∧ r ≤ high + 1 ∧
        (∀ k, low2 < k → k < r → compareFunction (base k) (base middle) ≤ 0) ∧
        (r ≤ high → 0 < compareFunction (base r) (base middle)) := by
    intro start _ startInside behind passed
    obtain ⟨r, result, after, bound, stop, between⟩ := @doWhile_up start (high + 1) fuel
      (fun l => l ≤ high ∧ compareFunction (base l) (base middle) ≤ 0) (by omega) (by omega) (by simp)
    simp only [decide_eq_false_iff_not, decide_eq_true_eq] at stop between
    refine ⟨r, result, by omega, bound, ?_, ?_⟩
    · intro k above below
      by_cases early : k ≤ start
      · exact passed k above early
      · exact (between k (by omega) below).2
    · intro inRange
      by_contra notGreater
      exact stop ⟨inRange, by omega⟩
  unfold scanUp
  by_cases ahead : middle > low2
  · rw [if_pos ahead]
    obtain ⟨r, result, after, bound, stop, between⟩ := @doWhile_up low2 middle fuel
      (fun l => l < middle ∧ compareFunction (base l) (base middle) ≤ 0) ahead (by omega) (by simp)
    simp only [decide_eq_false_iff_not, decide_eq_true_eq] at stop between
    simp only [result, bind_eq_bind, bind_some]
    by_cases atMiddle : middle ≤ r
    · have isMiddle : r = middle := by omega
      subst isMiddle
      rw [if_pos (le_refl r)]
      refine second r (le_refl r) middleInside (by omega) ?_
      intro k above below
      by_cases here : k = r
      · rw [here, compares.refl]
      · exact (between k above (by omega)).2
    · rw [if_neg atMiddle]
      refine ⟨r, rfl, after, by omega, ?_, ?_⟩
      · intro k above below
        exact (between k above below).2
      · intro _
        by_contra notGreater
        exact stop ⟨by omega, by omega⟩
  · simp only [if_neg ahead, bind_eq_bind, bind_some]
    rw [if_pos (by omega)]
    exact second low2 (by omega) inside (le_refl _) (by omega)

theorem scanDown_spec {high2 : ℤ} (ahead : middle < high2) (enough : high2 - middle ≤ fuel) :
    ∃ r, scanDown compareFunction fuel base middle high2 = some r ∧ middle ≤ r ∧ r < high2 ∧
      (∀ k, r < k → k < high2 → 0 < compareFunction (base k) (base middle)) ∧
      compareFunction (base r) (base middle) ≤ 0 := by
  obtain ⟨r, result, before, bound, stop, between⟩ := @doWhile_down high2 middle fuel
    (fun h => h > middle ∧ compareFunction (base h) (base middle) > 0) ahead enough (by simp)
  simp only [decide_eq_false_iff_not, decide_eq_true_eq] at stop between
  refine ⟨r, result, bound, before, fun k above below => (between k above below).2, ?_⟩
  by_cases atMiddle : r = middle
  · rw [atMiddle, compares.refl]
  · by_contra greater
    exact stop ⟨by omega, by omega⟩

theorem passEqual_spec {high2 : ℤ} (behind : middle ≤ high2) (enough : high2 - low + 1 ≤ fuel)
    (inside : low ≤ middle) :
    ∃ r, passEqual compareFunction fuel base low middle high2 = some r ∧ r < high2 ∧
      ∀ k, r < k → k < high2 → compareFunction (base k) (base middle) = 0 := by
  -- the second scan starts at `middle`
  have second : ∃ r, doWhile (-1) (fun h => h > low ∧ compareFunction (base h) (base middle) = 0) fuel
      middle = some r ∧ r < middle ∧
      ∀ k, r < k → k < middle → compareFunction (base k) (base middle) = 0 := by
    obtain ⟨r, result, before, _, _, between⟩ := @doWhile_down middle (min low (middle - 1)) fuel
      (fun h => h > low ∧ compareFunction (base h) (base middle) = 0) (by omega) (by omega)
      (by simp)
    simp only [decide_eq_true_eq] at between
    exact ⟨r, result, before, fun k above below => (between k above below).2⟩
  obtain ⟨r', result', before', between'⟩ := second
  unfold passEqual
  by_cases ahead : middle < high2
  · obtain ⟨r, result, before, bound, _, between⟩ := @doWhile_down high2 middle fuel
      (fun h => h > middle ∧ compareFunction (base h) (base middle) = 0) ahead (by omega) (by simp)
    simp only [decide_eq_true_eq] at between
    simp only [if_pos ahead, result, bind_eq_bind, bind_some]
    by_cases atMiddle : middle ≥ r
    · have isMiddle : r = middle := by omega
      rw [if_pos atMiddle, isMiddle, result']
      refine ⟨r', rfl, by omega, ?_⟩
      intro k above below
      by_cases here : k = middle
      · rw [here, compares.refl]
      · by_cases early : k < middle
        · exact between' k above early
        · exact (between k (by omega) below).2
    · rw [if_neg atMiddle]
      exact ⟨r, rfl, before, fun k above below => (between k above below).2⟩
  · have isMiddle : high2 = middle := by omega
    simp only [if_neg ahead, bind_eq_bind, bind_some]
    rw [if_pos (by omega), isMiddle, result']
    exact ⟨r', rfl, before', between'⟩

structure Sides (compareFunction : α → α → ℤ) (low high : ℤ) (s : Partition α) : Prop where
  lower : low ≤ s.middle
  small : ∀ k, low ≤ k → k < s.low2 → compareFunction (s.base k) (s.base s.middle) ≤ 0
  large : ∀ k, s.high2 < k → k ≤ high → compareFunction (s.base s.middle) (s.base k) ≤ 0

structure AtTurn (compareFunction : α → α → ℤ) (low high : ℤ) (s : Partition α) : Prop where
  sides : Sides compareFunction low high s
  lowInside : low ≤ s.low2
  order : s.low2 < s.high2
  highInside : s.high2 ≤ high
  ahead : s.middle < s.high2
  smallHere : compareFunction (s.base s.low2) (s.base s.middle) ≤ 0
  largeHere : compareFunction (s.base s.middle) (s.base s.high2) ≤ 0

structure Parted (compareFunction : α → α → ℤ) (low high : ℤ) (s : Partition α) : Prop where
  sides : Sides compareFunction low high s
  crossed : s.high2 < s.low2
  lowMoved : low < s.low2
  highMoved : s.high2 < high
  behind : s.middle ≤ s.high2 + 1

omit compares in
theorem seFastSwap_eq (a b : ℤ) : seFastSwap base a b = update (update base a (base b)) b (base a) := by
  unfold seFastSwap
  split
  · rename_i same
    rw [same, Function.update_eq_self, Function.update_eq_self]
  · rfl

omit compares in
theorem seFastSwap_rearranged {a b : ℤ} (lowA : low ≤ a) (highA : a ≤ high) (lowB : low ≤ b)
    (highB : b ≤ high) : Rearranged low high base (seFastSwap base a b) := by
  rw [seFastSwap_eq]
  exact rearranged_swap lowA highA lowB highB

theorem swapTurn {s : Partition α} (at' : AtTurn compareFunction low high s) (enough : high + 1 - low ≤ fuel) :
    ∃ low2 high2, scanUp compareFunction fuel s.base high s.middle s.low2 = some low2 ∧
      scanDown compareFunction fuel s.base s.middle s.high2 = some high2 ∧
      s.low2 < low2 ∧ high2 < s.high2 ∧
      (high2 < low2 → Parted compareFunction low high { s with low2 := low2, high2 := high2 }) ∧
      (¬high2 < low2 → AtTurn compareFunction low high ⟨seFastSwap s.base low2 high2,
        if s.middle = high2 then low2 else s.middle, low2, high2⟩ ∧ low ≤ low2 ∧ high2 ≤ high) := by
  obtain ⟨⟨lower, small, large⟩, lowInside, order, highInside, ahead, smallHere, largeHere⟩ := at'
  obtain ⟨low2, up, after, upBound, passedUp, stopUp⟩ := @scanUp_spec α compareFunction s.base high
    s.middle fuel compares s.low2 (by omega) (by omega) (by omega)
  obtain ⟨high2, down, downBound, before, passedDown, stopDown⟩ := @scanDown_spec α compareFunction
    s.base s.middle fuel compares s.high2 ahead (by omega)
  have smaller : ∀ k, low ≤ k → k < low2 → compareFunction (s.base k) (s.base s.middle) ≤ 0 := by
    intro k above below
    by_cases early : k < s.low2
    · exact small k above early
    · by_cases here : k = s.low2
      · rw [here]
        exact smallHere
      · exact passedUp k (by omega) below
  have larger : ∀ k, high2 < k → k ≤ high → compareFunction (s.base s.middle) (s.base k) ≤ 0 := by
    intro k above below
    by_cases late : s.high2 < k
    · exact large k late below
    · by_cases here : k = s.high2
      · rw [here]
        exact largeHere
      · have greater := passedDown k above (by omega)
        exact compares.total (by omega)
  refine ⟨low2, high2, up, down, after, before, ?_, ?_⟩
  · intro crossed
    exact ⟨⟨lower, smaller, larger⟩, crossed, show low < low2 by omega, show high2 < high by omega,
      show s.middle ≤ high2 + 1 by omega⟩
  · intro apart
    have greater := stopUp (by omega)
    have distinct : low2 ≠ high2 := by
      rintro same
      rw [same] at greater
      omega
    have notMiddle : s.middle ≠ low2 := by
      intro same
      rw [← same, compares.refl] at greater
      omega
    refine ⟨?_, by omega, by omega⟩
    -- where the element at `middle` is after the swap
    have pivot : (seFastSwap s.base low2 high2) (if s.middle = high2 then low2 else s.middle) = s.base s.middle := by
      rw [seFastSwap_eq]
      by_cases moved : s.middle = high2
      · rw [if_pos moved, update_of_ne distinct, update_self, moved]
      · rw [if_neg moved, update_of_ne moved, update_of_ne notMiddle]
    have atLow : seFastSwap s.base low2 high2 low2 = s.base high2 := by
      rw [seFastSwap_eq, update_of_ne distinct, update_self]
    have atHigh : seFastSwap s.base low2 high2 high2 = s.base low2 := by rw [seFastSwap_eq, update_self]
    have others : ∀ k, k ≠ low2 → k ≠ high2 → seFastSwap s.base low2 high2 k = s.base k := by
      intro k notLow notHigh
      rw [seFastSwap_eq, update_of_ne notHigh, update_of_ne notLow]
    refine ⟨⟨?_, ?_, ?_⟩, show low ≤ low2 by omega, show low2 < high2 by omega,
      show high2 ≤ high by omega, ?_, ?_, ?_⟩
    · change low ≤ if s.middle = high2 then low2 else s.middle
      split <;> omega
    · intro k above (below : k < low2)
      simp only [pivot]
      rw [others k (by omega) (by omega)]
      exact smaller k above below
    · intro k (above : high2 < k) below
      simp only [pivot]
      rw [others k (by omega) (by omega)]
      exact larger k above below
    · change (if s.middle = high2 then low2 else s.middle) < high2
      split <;> omega
    · simp only [pivot, atLow]
      exact stopDown
    · simp only [pivot, atHigh]
      exact compares.total (by omega)

theorem swapLoop_spec {s : Partition α} {turns : ℕ} (at' : AtTurn compareFunction low high s)
    (enough : high + 1 - low ≤ fuel) (enoughTurns : s.high2 - s.low2 ≤ turns) :
    ∃ s', swapLoop compareFunction fuel high turns s = some s' ∧
      Rearranged low high s.base s'.base ∧ Parted compareFunction low high s' := by
  induction turns generalizing s with
  | zero =>
    have order := at'.order
    omega
  | succ turns ih =>
    obtain ⟨low2, high2, up, down, after, before, meet, swapped⟩ := swapTurn compares at' enough
    unfold swapLoop
    simp only [up, down, bind_eq_bind, bind_some]
    by_cases crossed : high2 < low2
    · rw [if_pos crossed]
      exact ⟨_, rfl, Rearranged.refl, meet crossed⟩
    · rw [if_neg crossed]
      obtain ⟨next, lowIn, highIn⟩ := swapped crossed
      obtain ⟨s', result, moved, parted⟩ := ih next (show high2 - low2 ≤ turns by omega)
      refine ⟨s', result, ?_, parted⟩
      exact (seFastSwap_rearranged lowIn (by omega) (by omega) highIn).trans moved

theorem swapLoop_two {turns : ℕ} (enough : 2 ≤ fuel) (positive : 0 < turns) (isHigh : high = low + 1)
    (order : compareFunction (base low) (base high) ≤ 0) :
    ∃ s', swapLoop compareFunction fuel high turns ⟨base, high, low, high⟩ = some s' ∧
      Rearranged low high base s'.base ∧ Parted compareFunction low high s' := by
  obtain ⟨turns, rfl⟩ : ∃ previous, turns = previous + 1 := ⟨turns - 1, by omega⟩
  obtain ⟨low2, up, after, upBound, passed, stop⟩ := @scanUp_spec α compareFunction base high high fuel
    compares low (by omega) (le_refl _) (by omega)
  obtain ⟨high2, down, before, downBound, _, _⟩ := @doWhile_down high (high - 1) fuel
    (fun h => h > high ∧ compareFunction (base h) (base high) > 0) (by omega) (by omega) (by simp)
  unfold swapLoop scanDown
  simp only [up, down, bind_eq_bind, bind_some]
  rw [if_pos (by omega)]
  refine ⟨_, rfl, Rearranged.refl, ⟨show low ≤ high by omega, ?_, ?_⟩, show high2 < low2 by omega,
    show low < low2 by omega, show high2 < high by omega, show high ≤ high2 + 1 by omega⟩
  · intro k above below
    by_cases first : k = low
    · rw [first]
      exact order
    · exact passed k (by omega) below
  · intro k (above : high2 < k) below
    have last : k = high := by omega
    simp only [last, compares.refl, le_refl]

theorem ordered_swap {i j : ℤ} (apart : i ≠ j) {base' : ℤ → α} (isSwap : (if compareFunction (base i)
    (base j) > 0 then seFastSwap base i j else base) = base') :
    compareFunction (base' i) (base' j) ≤ 0 ∧
      ((base' i = base i ∧ base' j = base j) ∨
        (base' i = base j ∧ base' j = base i ∧ compareFunction (base j) (base i) ≤ 0)) ∧
      ∀ k, k ≠ i → k ≠ j → base' k = base k := by
  by_cases wrong : compareFunction (base i) (base j) > 0
  · rw [if_pos wrong, seFastSwap_eq] at isSwap
    subst isSwap
    have less : compareFunction (base j) (base i) ≤ 0 := compares.total (by omega)
    simp only [update_self, update_of_ne apart]
    refine ⟨less, .inr ⟨trivial, trivial, less⟩, ?_⟩
    intro k notI notJ
    rw [update_of_ne notJ, update_of_ne notI]
  · rw [if_neg wrong] at isSwap
    subst isSwap
    exact ⟨by omega, .inl ⟨rfl, rfl⟩, fun _ _ _ => rfl⟩

omit compares in
theorem rearranged_ite {c : Prop} [Decidable c] {i j : ℤ} (lowI : low ≤ i) (highI : i ≤ high)
    (lowJ : low ≤ j) (highJ : j ≤ high) : Rearranged low high base (if c then seFastSwap base i j else base) := by
  split
  · exact seFastSwap_rearranged lowI highI lowJ highJ
  · exact Rearranged.refl

theorem orderThree_spec (lower : low < middle) (upper : middle ≤ high) :
    Rearranged low high base (orderThree compareFunction base low middle high) ∧
      compareFunction (orderThree compareFunction base low middle high low)
        (orderThree compareFunction base low middle high middle) ≤ 0 ∧
      compareFunction (orderThree compareFunction base low middle high middle)
        (orderThree compareFunction base low middle high high) ≤ 0 := by
  unfold orderThree
  constructor
  · exact ((rearranged_ite (by omega) (by omega) (by omega) upper).trans (rearranged_ite (by omega)
      (by omega) (by omega) (by omega))).trans (rearranged_ite (by omega) upper (by omega) (by omega))
  · generalize isFirst : (if compareFunction (base low) (base middle) > 0 then
      seFastSwap base low middle else base) = first
    obtain ⟨order, _, _⟩ := ordered_swap compares (by omega) isFirst
    generalize isSecond : (if compareFunction (first low) (first high) > 0 then
      seFastSwap first low high else first) = second
    obtain ⟨order', values', kept'⟩ := ordered_swap compares (by omega) isSecond
    by_cases same : middle = high
    · subst same
      have notLess : ¬compareFunction (first low) (first middle) > 0 := by omega
      rw [if_neg notLess] at isSecond
      rw [if_neg (by rw [compares.refl]; omega), ← isSecond]
      exact ⟨order, by rw [compares.refl]⟩
    · have least : compareFunction (second low) (second middle) ≤ 0 := by
        rw [kept' middle (by omega) same]
        rcases values' with ⟨atLow, -⟩ | ⟨atLow, -, less⟩
        · rw [atLow]
          exact order
        · rw [atLow]
          exact compares.trans _ _ _ less order
      generalize isThird : (if compareFunction (second middle) (second high) > 0 then
        seFastSwap second middle high else second) = third
      obtain ⟨order'', values'', kept''⟩ := ordered_swap compares same isThird
      refine ⟨?_, order''⟩
      rw [kept'' low (by omega) (by omega)]
      rcases values'' with ⟨atMiddle, -⟩ | ⟨atMiddle, -, -⟩
      · rw [atMiddle]
        exact least
      · rw [atMiddle]
        exact order'

omit compares in
theorem scale_eq {n : ℤ} (positive : 0 ≤ n) (bound : n < 0x20000000) : scale n = n := by
  unfold scale
  rw [Int.emod_eq_of_lt (by omega) (by omega)]
  omega

theorem partition_spec (order : low < high) (bound : high - low < 0x20000000) (enough : high + 2 - low ≤ fuel) :
    ∃ s, partition compareFunction fuel base low high = some s ∧ Rearranged low high base s.base ∧
      low < s.low2 ∧ s.high2 < high ∧ s.high2 < s.low2 ∧
      ∀ i j, low ≤ i → i < j → j ≤ high → compareFunction (s.base i) (s.base j) ≤ 0 ∨ j ≤ s.high2 ∨ s.low2 ≤ i := by
  have size : scale (high - low) = high - low := scale_eq (by omega) bound
  have half : scale ((high - low + 1) / 2) = (high - low + 1) / 2 := scale_eq (by omega) (by omega)
  generalize isMiddle : low + (high - low + 1) / 2 = middle
  obtain ⟨ordered, least, greatest⟩ := @orderThree_spec α compareFunction base low high middle compares
    (by omega) (by omega)
  generalize isBase : orderThree compareFunction base low middle high = base' at ordered least greatest
  have looped : ∃ s, swapLoop compareFunction fuel high fuel ⟨base', middle, low, high⟩ = some s ∧
      Rearranged low high base' s.base ∧ Parted compareFunction low high s := by
    by_cases two : high = low + 1
    · have last : middle = high := by omega
      rw [last] at least ⊢
      exact swapLoop_two compares (by omega) (by omega) two least
    · refine swapLoop_spec compares ⟨⟨show low ≤ middle by omega, ?_, ?_⟩, le_refl low, order,
        le_refl high, show middle < high by omega, least, greatest⟩ (by omega)
        (show high - low ≤ fuel by omega)
      · intro k above (below : k < low)
        omega
      · intro k (above : high < k) below
        omega
  obtain ⟨s, result, moved, sides, crossed, lowMoved, highMoved, behind⟩ := looped
  obtain ⟨high2, passed, before, equal⟩ := @passEqual_spec α compareFunction s.base low s.middle fuel
    compares (s.high2 + 1) behind (by omega) sides.lower
  refine ⟨{ s with high2 := high2 }, ?_, ordered.trans moved, lowMoved, show high2 < high by omega,
    show high2 < s.low2 by omega, ?_⟩
  · unfold partition
    simp only [size, half, isMiddle, isBase, result, passed, bind_eq_bind, bind_some]
  · intro i j lower less upper
    by_cases inUpper : s.low2 ≤ i
    · exact .inr (.inr inUpper)
    · by_cases inLower : j ≤ high2
      · exact .inr (.inl inLower)
      · have small := sides.small i lower (by omega)
        have large : compareFunction (s.base s.middle) (s.base j) ≤ 0 := by
          by_cases late : s.high2 < j
          · exact sides.large j late upper
          · exact le_of_eq (compares.symm (equal j (by omega) (by omega)))
        exact .inl (compares.trans _ _ _ small large)

end

end DisasVisor.SeMemory
