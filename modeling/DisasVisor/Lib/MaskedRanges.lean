import Mathlib.Data.Nat.Bitwise

/-!
Blocks of words and the ranges that a mask cuts out of them. A block has all words that agree above
some low bits; a word is in a range when it agrees with a value in the bits of the mask.
-/

namespace MaskedRanges

open BitVec (getLsbD_and getLsbD_not getLsbD_of_ge eq_of_getLsbD_eq getLsbD_or toNat_and)

variable {w : Nat} {low p x mask value : BitVec w}

def InBlock (low p x : BitVec w) : Prop := x &&& ~~~low = p

def InRange (mask value x : BitVec w) : Prop := mask &&& x = value

def Meets (low p mask value : BitVec w) : Prop := value &&& ~~~low = mask &&& p &&& ~~~low

theorem InBlock.bit (inside : InBlock low p x) (i : Nat) : p.getLsbD i = (x.getLsbD i && !low.getLsbD i) := by
  by_cases bound : i < w
  · rw [← inside, getLsbD_and, getLsbD_not, decide_eq_true bound, Bool.true_and]
  · rw [getLsbD_of_ge _ _ (by omega), getLsbD_of_ge _ _ (by omega), Bool.false_and]

theorem inBlock_of_bits (bits : ∀ i, p.getLsbD i = (x.getLsbD i && !low.getLsbD i)) : InBlock low p x := by
  apply eq_of_getLsbD_eq
  intro i bound
  rw [bits, getLsbD_and, getLsbD_not, decide_eq_true bound, Bool.true_and]

theorem InBlock.first (inside : InBlock low p x) : InBlock low p p := by
  apply inBlock_of_bits
  intro i
  rw [inside.bit i]
  cases x.getLsbD i <;> cases low.getLsbD i <;> rfl

theorem InBlock.last (aligned : InBlock low p p) : InBlock low p (p ||| low) := by
  apply inBlock_of_bits
  intro i
  have first := aligned.bit i
  rw [getLsbD_or]
  revert first
  cases p.getLsbD i <;> cases low.getLsbD i <;> simp

section

variable (inside : InBlock low p x)
include inside

theorem InBlock.le_last : x ≤ p ||| low := by
  have part : x &&& (p ||| low) = x := by
    apply eq_of_getLsbD_eq
    intro i bound
    rw [getLsbD_and, getLsbD_or, inside.bit i]
    cases x.getLsbD i <;> cases low.getLsbD i <;> rfl
  rw [← part, BitVec.le_def, toNat_and]
  exact Nat.and_le_right

theorem InBlock.first_le : p ≤ x := by
  rw [← inside, BitVec.le_def, toNat_and]
  exact Nat.and_le_left

theorem InBlock.range_iff (wide : mask &&& low = 0) : InRange mask value x ↔ InRange mask value p := by
  have same : mask &&& x = mask &&& p := by
    apply eq_of_getLsbD_eq
    intro i bound
    have apart := congrArg (fun word => word.getLsbD i) wide
    simp only [getLsbD_and] at apart
    rw [getLsbD_and, getLsbD_and, inside.bit i]
    revert apart
    cases mask.getLsbD i <;> cases low.getLsbD i <;> simp
  rw [InRange, InRange, same]

theorem InBlock.meets (hit : InRange mask value x) : Meets low p mask value := by
  apply eq_of_getLsbD_eq
  intro i bound
  rw [← hit]
  simp only [getLsbD_and, getLsbD_not, inside.bit i]
  cases mask.getLsbD i <;> cases low.getLsbD i <;> simp

end

theorem Meets.hits (meets : Meets low p mask value) (aligned : InBlock low p p) (within : mask &&& value = value) :
    InBlock low p (p ||| (value &&& low)) ∧ InRange mask value (p ||| (value &&& low)) := by
  constructor
  · apply inBlock_of_bits
    intro i
    have first := aligned.bit i
    rw [getLsbD_or, getLsbD_and]
    revert first
    cases p.getLsbD i <;> cases low.getLsbD i <;> simp
  · apply eq_of_getLsbD_eq
    intro i bound
    have upper := congrArg (fun word => word.getLsbD i) meets
    have part := congrArg (fun word => word.getLsbD i) within
    have first := aligned.bit i
    simp only [getLsbD_and, getLsbD_not, decide_eq_true bound, Bool.true_and] at upper part
    rw [getLsbD_and, getLsbD_or, getLsbD_and]
    revert upper part first
    cases mask.getLsbD i <;> cases value.getLsbD i <;> cases p.getLsbD i <;> cases low.getLsbD i <;> simp

def lowMask (w k : Nat) : BitVec w := BitVec.ofNat w (2 ^ k - 1)

theorem getLsbD_lowMask (k i : Nat) : (lowMask w k).getLsbD i = (decide (i < w) && decide (i < k)) := by
  rw [lowMask, BitVec.getLsbD_ofNat, Nat.testBit_two_pow_sub_one]

theorem toNat_and_not_lowMask (k : Nat) (x : BitVec w) : (x &&& ~~~lowMask w k).toNat = x.toNat / 2 ^ k * 2 ^ k := by
  apply Nat.eq_of_testBit_eq
  intro i
  rw [Nat.testBit_mul_two_pow, Nat.testBit_div_two_pow, BitVec.testBit_toNat, getLsbD_and, getLsbD_not,
    getLsbD_lowMask, BitVec.testBit_toNat]
  by_cases bound : i < w
  · by_cases high : k ≤ i
    · have place : i - k + k = i := by omega
      have notLow : ¬i < k := by omega
      simp [bound, high, place, notLow]
    · have isLow : i < k := by omega
      simp [bound, high, isLow]
  · rw [getLsbD_of_ge x i (by omega), Bool.false_and]
    by_cases high : k ≤ i
    · have place : i - k + k = i := by omega
      rw [place, getLsbD_of_ge x i (by omega), Bool.and_false]
    · rw [decide_eq_false high, Bool.false_and]

theorem inBlock_lowMask {k : Nat} (aligned : p &&& lowMask w k = 0) :
    InBlock (lowMask w k) p x ↔ p.toNat ≤ x.toNat ∧ x.toNat < p.toNat + 2 ^ k := by
  have positive := Nat.two_pow_pos k
  have self : p &&& ~~~lowMask w k = p := by
    apply eq_of_getLsbD_eq
    intro i bound
    have apart := congrArg (fun word => word.getLsbD i) aligned
    simp only [getLsbD_and] at apart
    rw [getLsbD_and, getLsbD_not, decide_eq_true bound, Bool.true_and]
    revert apart
    cases p.getLsbD i <;> cases (lowMask w k).getLsbD i <;> simp
  have start : p.toNat / 2 ^ k * 2 ^ k = p.toNat := by rw [← toNat_and_not_lowMask, self]
  have split := Nat.div_add_mod' x.toNat (2 ^ k)
  rw [InBlock, ← BitVec.toNat_inj, toNat_and_not_lowMask]
  constructor
  · intro same
    omega
  · rintro ⟨above, under⟩
    have quotient : x.toNat / 2 ^ k = p.toNat / 2 ^ k := by
      apply Nat.div_eq_of_lt_le
      · rw [start]
        exact above
      · rw [Nat.succ_mul, start]
        exact under
    rw [quotient, start]

end MaskedRanges
