import Mathlib.Data.List.Range
import Mathlib.Algebra.Group.Nat.Defs

/-!
The search of `mm_process_map_stack` for the pages of a stack, from the top of the user area down.
-/

namespace DisasVisor.Process

open Option (some.inj)
open UInt32 (toNat_toUInt64 toNat_mul)

/-- Which pages are present, and which of them are stack pages that were unmapped. No page of the
VMM is an unmapped stack page. -/
structure StackPages where
  present : UInt64 → Bool
  available1 : UInt64 → Bool
  kernel : ∀ virt, 0x40000000 ≤ virt → present virt = true → available1 virt = false

namespace StackPages

variable (pages : StackPages)

def allocStackSub (virt : UInt64) : Bool := !pages.present virt || pages.available1 virt

inductive Check
  | low
  | used (i : UInt32)
  | fits
  deriving DecidableEq

def check (virt : UInt64) : List UInt32 → Check
  | [] => .fits
  | i :: rest =>
    if virt - (i * 4096).toUInt64 ≤ 0x20000000 then .low
    else if !pages.allocStackSub (virt - (i * 4096).toUInt64) then .used i
    else check virt rest

def pageNumbers (npages : UInt32) : List UInt32 := (List.range npages.toNat).map UInt32.ofNat

def search (npages : UInt32) (align : Bool) : Nat → UInt64 → Option UInt64
  | 0, _ => none
  | fuel + 1, virt =>
    let virt := virt - 4096
    match pages.check virt (pageNumbers npages) with
    | .low => some 0
    | .used i =>
      if align then search npages align fuel (virt - (4096 * npages).toUInt64)
      else search npages align fuel (virt - (i * 4096).toUInt64)
    | .fits => some virt

def stackTop (npages : UInt32) (align : Bool) : UInt64 :=
  if align then (0x40000000 - 4096 * npages).toUInt64 else 0x40000000 - 4096

def mmProcessMapStack (fuel : Nat) (len : UInt32) (noalloc align : Bool) : Option UInt64 :=
  let npages := (len + 4095) >>> 12
  match pages.search npages align fuel (stackTop npages align) with
  | none => none
  | some 0 => some 0
  | some virt =>
    if noalloc ∧ (pageNumbers npages).any fun i => !pages.present (virt - (i * 4096).toUInt64) then
      some 0
    else some (virt + 4096)

variable {pages} {npages len : UInt32} {align noalloc : Bool} {fuel : Nat} {virt r : UInt64}

theorem pageNumbers_cons (some' : npages ≠ 0) : ∃ rest, pageNumbers npages = 0 :: rest := by
  have positive : npages.toNat ≠ 0 := by
    intro zero
    exact some' (UInt32.toNat_inj.mp zero)
  obtain ⟨count, succ⟩ := Nat.exists_eq_succ_of_ne_zero positive
  rw [pageNumbers, succ, List.range_succ_eq_map, List.map_cons]
  exact ⟨_, rfl⟩

theorem check_high (some' : npages ≠ 0) (high : pages.check virt (pageNumbers npages) ≠ .low) : 0x20000000 < virt := by
  obtain ⟨rest, numbers⟩ := pageNumbers_cons some'
  rw [numbers, check] at high
  by_contra low
  have first : virt - ((0 : UInt32) * 4096).toUInt64 ≤ 0x20000000 := by
    rw [UInt64.not_lt] at low
    simpa using low
  rw [if_pos first] at high
  exact high rfl

theorem check_fits (some' : npages ≠ 0) (fits : pages.check virt (pageNumbers npages) = .fits) :
    pages.allocStackSub virt = true := by
  obtain ⟨rest, numbers⟩ := pageNumbers_cons some'
  rw [numbers, check] at fits
  split at fits
  · cases fits
  · split at fits
    · cases fits
    · rename_i usable
      simpa using usable

theorem check_fits_all {numbers : List UInt32} (fits : pages.check virt numbers = .fits) :
    ∀ i ∈ numbers, pages.allocStackSub (virt - (i * 4096).toUInt64) = true := by
  induction numbers with
  | nil => simp
  | cons k rest ih =>
    rw [check] at fits
    split at fits
    · cases fits
    · split at fits
      · cases fits
      · rename_i usable
        intro i member
        rcases List.mem_cons.mp member with same | later
        · rw [same]
          simpa using usable
        · exact ih fits i later

theorem search_fits (found : pages.search npages align fuel virt = some r) :
    r = 0 ∨ pages.check r (pageNumbers npages) = .fits := by
  induction fuel generalizing virt with
  | zero => exact absurd found (by simp [search])
  | succ fuel ih =>
    rw [search] at found
    split at found
    · exact .inl (some.inj found).symm
    · split at found
      · exact ih found
      · exact ih found
    · rename_i fits
      exact .inr (some.inj found ▸ fits)

theorem search_place (some' : npages ≠ 0) (inv : UInt64 → Prop)
    (next : ∀ virt step, inv virt → 0x20000000 < virt - 4096 →
      (step = (4096 * npages).toUInt64 ∨ ∃ i ∈ pageNumbers npages, step = (i * 4096).toUInt64) →
      inv (virt - 4096 - step)) (start : inv virt) (found : pages.search npages align fuel virt = some r) :
    r = 0 ∨ ∃ from', inv from' ∧ r = from' - 4096 ∧ 0x20000000 < r ∧ pages.allocStackSub r = true := by
  induction fuel generalizing virt with
  | zero => exact absurd found (by simp [search])
  | succ fuel ih =>
    rw [search] at found
    split at found
    · exact .inl (some.inj found).symm
    · rename_i i used
      have high := check_high some' (by rw [used]; simp)
      have member : i ∈ pageNumbers npages := by
        have inside : ∀ (numbers : List UInt32), pages.check (virt - 4096) numbers = .used i → i ∈ numbers := by
          intro numbers
          induction numbers with
          | nil => simp [check]
          | cons k rest later =>
            intro is
            rw [check] at is
            split at is
            · cases is
            · split at is
              · exact (Check.used.inj is) ▸ List.mem_cons_self
              · exact List.mem_cons_of_mem k (later is)
        exact inside _ used
      split at found
      · exact ih (next virt _ start high (.inl rfl)) found
      · exact ih (next virt _ start high (.inr ⟨i, member, rfl⟩)) found
    · rename_i fits
      cases found
      exact .inr ⟨virt, start, rfl, check_high some' (by rw [fits]; simp), check_fits some' fits⟩

theorem step_aligned {step : UInt64}
    (isStep : step = (4096 * npages).toUInt64 ∨ ∃ i ∈ pageNumbers npages, step = (i * 4096).toUInt64) :
    step.toNat % 4096 = 0 := by
  rcases isStep with rfl | ⟨i, -, rfl⟩
  · simp only [toNat_toUInt64, toNat_mul]
    simp only [UInt32.reduceToNat]
    omega
  · simp only [toNat_toUInt64, toNat_mul]
    simp only [UInt32.reduceToNat]
    omega

theorem step_small {step : UInt64} (few : npages.toNat ≤ 2 ^ 17)
    (isStep : step = (4096 * npages).toUInt64 ∨ ∃ i ∈ pageNumbers npages, step = (i * 4096).toUInt64) :
    step.toNat ≤ 2 ^ 29 := by
  rcases isStep with rfl | ⟨i, member, rfl⟩
  · simp only [toNat_toUInt64, toNat_mul]
    simp only [UInt32.reduceToNat]
    omega
  · obtain ⟨k, inside, rfl⟩ := List.mem_map.mp member
    rw [List.mem_range] at inside
    simp only [toNat_toUInt64, toNat_mul, UInt32.toNat_ofNat']
    simp only [UInt32.reduceToNat]
    omega

theorem aligned_sub {a b : UInt64} (first : a.toNat % 4096 = 0) (second : b.toNat % 4096 = 0) :
    (a - b).toNat % 4096 = 0 := by
  have bound := b.toNat_lt
  rw [UInt64.toNat_sub]
  omega

theorem stackTop_aligned : (stackTop npages align).toNat % 4096 = 0 := by
  rw [stackTop]
  split
  · rw [toNat_toUInt64, UInt32.toNat_sub, toNat_mul]
    simp only [UInt32.reduceToNat]
    omega
  · rfl

theorem stackTop_inside (few : npages.toNat ≤ 2 ^ 17) :
    4096 ≤ (stackTop npages align).toNat ∧ (stackTop npages align).toNat ≤ 0x40000000 := by
  rw [stackTop]
  split
  · rw [toNat_toUInt64, UInt32.toNat_sub, toNat_mul]
    simp only [UInt32.reduceToNat]
    omega
  · simp

section

variable (some' : npages ≠ 0)
include some'

section

variable (found : pages.search npages align fuel (stackTop npages align) = some r)
include found

theorem search_from_aligned : r = 0 ∨ ∃ from' : UInt64,
      from'.toNat % 4096 = 0 ∧ r = from' - 4096 ∧ 0x20000000 < r ∧ pages.allocStackSub r = true :=
  search_place some' (fun virt => virt.toNat % 4096 = 0)
    (fun _ _ aligned _ isStep => aligned_sub (aligned_sub aligned rfl) (step_aligned isStep)) stackTop_aligned found

theorem search_aligned : r = 0 ∨ r.toNat % 4096 = 0 := by
  rcases search_from_aligned some' found with zero | ⟨from', aligned, same, -, -⟩
  · exact .inl zero
  · exact .inr (same ▸ aligned_sub aligned rfl)

theorem search_present (nonzero : r ≠ 0)
    (present : pages.present r = true) : 0x20000000 < r.toNat ∧ r.toNat ≤ 0x3FFFF000 := by
  rcases search_from_aligned some' found with zero | ⟨from', aligned, same, high, usable⟩
  · exact absurd zero nonzero
  · have below : r < 0x40000000 := by
      by_contra above
      have kernel := pages.kernel r (UInt64.not_lt.mp above) present
      simp [allocStackSub, present, kernel] at usable
    have multiple : r.toNat % 4096 = 0 := same ▸ aligned_sub aligned rfl
    rw [UInt64.lt_iff_toNat_lt] at below high
    simp only [UInt64.reduceToNat] at below high
    omega

end

theorem search_short (few : npages.toNat ≤ 2 ^ 17)
    (found : pages.search npages align fuel (stackTop npages align) = some r) (nonzero : r ≠ 0) :
    0x20000000 < r.toNat ∧ r.toNat ≤ 0x3FFFF000 := by
  have next : ∀ virt step : UInt64,
      virt.toNat % 4096 = 0 ∧ 4096 ≤ virt.toNat ∧ virt.toNat ≤ 0x40000000 →
      0x20000000 < virt - 4096 →
      (step = (4096 * npages).toUInt64 ∨ ∃ i ∈ pageNumbers npages, step = (i * 4096).toUInt64) →
      (virt - 4096 - step).toNat % 4096 = 0 ∧ 4096 ≤ (virt - 4096 - step).toNat ∧
        (virt - 4096 - step).toNat ≤ 0x40000000 := by
    intro virt step inside high isStep
    have bound := step_small few isStep
    have aligned := step_aligned isStep
    rw [UInt64.lt_iff_toNat_lt, UInt64.toNat_sub] at high
    rw [UInt64.toNat_sub, UInt64.toNat_sub]
    simp only [UInt64.reduceToNat] at high ⊢
    omega
  rcases search_place some' _ next ⟨stackTop_aligned, stackTop_inside few⟩ found with
    zero | ⟨from', inside, same, high, -⟩
  · exact absurd zero nonzero
  · rw [UInt64.lt_iff_toNat_lt] at high
    have back := UInt64.toNat_sub from' 4096
    rw [← same] at back
    simp only [UInt64.reduceToNat] at high back
    omega

end

theorem mmProcessMapStack_top (small : noalloc = true ∨ len ≤ 0x20000000)
    (found : pages.mmProcessMapStack fuel len noalloc align = some r) :
    r = 0 ∨ 0x20001000 ≤ r.toNat ∧ r.toNat ≤ 0x40000000 := by
  by_cases none' : (len + 4095) >>> 12 = 0
  · refine .inr ?_
    cases fuel with
    | zero => simp [mmProcessMapStack, search] at found
    | succ fuel =>
      cases align with
      | true =>
        simp [mmProcessMapStack, none', search, pageNumbers, check, stackTop] at found
        rw [← found]
        decide
      | false =>
        simp [mmProcessMapStack, none', search, pageNumbers, check, stackTop] at found
        rw [← found]
        decide
  · obtain ⟨rest, numbers⟩ := pageNumbers_cons none'
    simp only [mmProcessMapStack] at found
    split at found
    · cases found
    · exact .inl (some.inj found).symm
    · rename_i place nonzero searched
      split at found
      · exact .inl (some.inj found).symm
      · rename_i keeps
        have differs : place ≠ 0 := nonzero
        have inside : 0x20000000 < place.toNat ∧ place.toNat ≤ 0x3FFFF000 := by
          rcases small with noalloc' | short
          · refine search_present none' searched differs ?_
            by_contra absent
            refine keeps ⟨noalloc', ?_⟩
            rw [numbers, List.any_cons, Bool.or_eq_true]
            exact .inl (by simpa using absent)
          · refine search_short none' ?_ searched differs
            rw [UInt32.le_iff_toNat_le] at short
            rw [UInt32.toNat_shiftRight, UInt32.toNat_add, Nat.shiftRight_eq_div_pow]
            simp only [UInt32.reduceToNat, Nat.reduceMod, Nat.reducePow] at short ⊢
            omega
        refine .inr ?_
        rw [← some.inj found, UInt64.toNat_add]
        simp only [UInt64.reduceToNat]
        omega

end StackPages

def mmProcessUnmapStack (virt : UInt64) (len : UInt32) : Int :=
  let virt := virt - len.toUInt64
  if virt ≥ 0x40000000 then -1
  else if virt + len.toUInt64 ≥ 0x40000000 then -1
  else if virt ≥ virt + len.toUInt64 then -1
  else 0

end DisasVisor.Process
