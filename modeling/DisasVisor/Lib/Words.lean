import Mathlib.Data.Nat.Bitwise

/-!
Values of machine integers where a conversion keeps them.
-/

namespace Integers

theorem toInt_toInt32 {x : UInt32} (small : x.toNat < 2 ^ 31) : x.toInt32.toInt = x.toNat := by
  have bits : x.toInt32.toInt = x.toBitVec.toInt := rfl
  rw [bits, BitVec.toInt_eq_toNat_of_lt]
  · rfl
  · have same : x.toBitVec.toNat = x.toNat := rfl
    omega

theorem toNat_toUInt32 {x : Int32} (nonneg : 0 ≤ x.toInt) :
    (x.toUInt32.toNat : Int) = x.toInt ∧ x.toUInt32.toNat < 2 ^ 31 := by
  have bits : x.toInt = x.toUInt32.toBitVec.toInt := rfl
  have bound := x.toUInt32.toNat_lt
  have same : x.toUInt32.toBitVec.toNat = x.toUInt32.toNat := rfl
  rw [BitVec.toInt_eq_toNat_cond, same] at bits
  split at bits
  · omega
  · omega

theorem toNat_toUInt64 {x : Int32} (nonneg : 0 ≤ x.toInt) : (x.toInt64.toUInt64.toNat : Int) = x.toInt := by
  have wide : x.toInt64.toInt = x.toInt := Int32.toInt_toInt64 x
  have bits : x.toInt64.toInt = x.toInt64.toUInt64.toBitVec.toInt := rfl
  have bound := x.toInt64.toUInt64.toNat_lt
  have same : x.toInt64.toUInt64.toBitVec.toNat = x.toInt64.toUInt64.toNat := rfl
  have small := x.toInt_lt
  rw [BitVec.toInt_eq_toNat_cond, same] at bits
  split at bits
  · omega
  · omega

end Integers

/-!
Masks on 64-bit words as arithmetic on their values: the bits from a place up, the bits below it,
and the two put together.
-/

namespace Words

variable {x y m : UInt64} {k : Nat}

theorem toNat_and_bits {n : Nat} (mask : m.toNat = (2 ^ n - 1) * 2 ^ k) :
    (x &&& m).toNat = x.toNat / 2 ^ k % 2 ^ n * 2 ^ k := by
  have shifted : x.toNat &&& (2 ^ n - 1) <<< k = (x.toNat >>> k &&& (2 ^ n - 1)) <<< k := by
    apply Nat.eq_of_testBit_eq
    intro i
    simp only [Nat.testBit_and, Nat.testBit_shiftLeft, Nat.testBit_shiftRight]
    by_cases low : k ≤ i
    · simp [low]
    · simp [low]
  rw [UInt64.toNat_and, mask, ← Nat.shiftLeft_eq, shifted, Nat.and_two_pow_sub_one_eq_mod,
    Nat.shiftRight_eq_div_pow, Nat.shiftLeft_eq]

theorem toNat_and_high (mask : m.toNat = (2 ^ (64 - k) - 1) * 2 ^ k) (le : k ≤ 64) :
    (x &&& m).toNat = x.toNat / 2 ^ k * 2 ^ k := by
  have small : x.toNat / 2 ^ k < 2 ^ (64 - k) := by
    rw [Nat.div_lt_iff_lt_mul (Nat.two_pow_pos k), ← Nat.pow_add, Nat.sub_add_cancel le]
    exact x.toNat_lt
  rw [toNat_and_bits mask, Nat.mod_eq_of_lt small]

theorem toNat_and_low (mask : m.toNat = 2 ^ k - 1) : (x &&& m).toNat = x.toNat % 2 ^ k := by
  rw [UInt64.toNat_and, mask, Nat.and_two_pow_sub_one_eq_mod]

theorem toNat_shiftRight (n : UInt64) (small : n.toNat < 64) : (x >>> n).toNat = x.toNat / 2 ^ n.toNat := by
  rw [UInt64.toNat_shiftRight, Nat.mod_eq_of_lt small, Nat.shiftRight_eq_div_pow]

theorem toNat_or (high : x.toNat % 2 ^ k = 0) (low : y.toNat < 2 ^ k) : (x ||| y).toNat = x.toNat + y.toNat := by
  obtain ⟨a, isMultiple⟩ := Nat.dvd_of_mod_eq_zero high
  rw [UInt64.toNat_or, isMultiple, Nat.two_pow_add_eq_or_of_lt low]

theorem toNat_or_low (mask : m.toNat = 2 ^ k - 1) : (x ||| m).toNat = x.toNat / 2 ^ k * 2 ^ k + (2 ^ k - 1) := by
  have positive := Nat.two_pow_pos k
  have low : 2 ^ k - 1 < 2 ^ k := by omega
  rw [UInt64.toNat_or, mask, Nat.mul_comm, Nat.two_pow_add_eq_or_of_lt low]
  apply Nat.eq_of_testBit_eq
  intro i
  rw [Nat.testBit_or, Nat.testBit_or, Nat.testBit_two_pow_sub_one, Nat.mul_comm, ← Nat.shiftLeft_eq,
    ← Nat.shiftRight_eq_div_pow, Nat.testBit_shiftLeft, Nat.testBit_shiftRight]
  by_cases below : i < k
  · simp [below]
  · simp [below, Nat.le_of_not_lt below]

theorem and_bit_ne_zero (mask : m.toNat = 2 ^ k) : x &&& m ≠ 0 ↔ x.toNat / 2 ^ k % 2 = 1 := by
  have zero := UInt64.toNat_zero
  have bit := Nat.testBit_eq_decide_div_mod_eq (x := x.toNat) (i := k)
  rw [ne_eq, ← UInt64.toNat_inj, UInt64.toNat_and, mask, zero, Nat.and_two_pow, bit]
  by_cases odd : x.toNat / 2 ^ k % 2 = 1
  · simp [odd]
  · simp [odd]

theorem and_bit_eq_zero (mask : m.toNat = 2 ^ k) : x &&& m = 0 ↔ x.toNat / 2 ^ k % 2 = 0 := by
  have bit := @and_bit_ne_zero x m k mask
  constructor
  · intro none'
    have even : ¬x.toNat / 2 ^ k % 2 = 1 := fun odd => bit.mpr odd none'
    omega
  · intro even
    by_contra some'
    have odd := bit.mp some'
    omega

end Words

/-!
Bit fields of a word: what reads a field behind writes to it and to others.
-/

structure BitField where
  start : Nat
  width : Nat

namespace BitField

def get (field : BitField) (word : Nat) : Nat := word / 2 ^ field.start % 2 ^ field.width

def set (field : BitField) (value word : Nat) : Nat :=
  2 ^ field.start *
    (2 ^ field.width * (word / 2 ^ (field.start + field.width)) + value % 2 ^ field.width) +
      word % 2 ^ field.start

def setAll (fields : List (BitField × Nat)) (word : Nat) : Nat :=
  fields.foldl (fun word change => change.1.set change.2 word) word

def Disjoint (field other : BitField) : Prop :=
  field.start + field.width ≤ other.start ∨ other.start + other.width ≤ field.start

instance (field other : BitField) : Decidable (field.Disjoint other) := inferInstanceAs (Decidable (_ ∨ _))

theorem testBit_get (field : BitField) (word bit : Nat) :
    (field.get word).testBit bit = (decide (bit < field.width) && word.testBit (bit + field.start)) := by
  rw [get, Nat.testBit_mod_two_pow, Nat.testBit_div_two_pow]

theorem testBit_set (field : BitField) (value word bit : Nat) :
    (field.set value word).testBit bit =
      if bit < field.start then word.testBit bit
      else if bit - field.start < field.width then value.testBit (bit - field.start)
      else word.testBit bit := by
  rw [set, Nat.testBit_two_pow_mul_add _ (Nat.mod_lt _ (Nat.two_pow_pos _)),
    Nat.testBit_two_pow_mul_add _ (Nat.mod_lt _ (Nat.two_pow_pos _)), Nat.testBit_mod_two_pow,
    Nat.testBit_mod_two_pow, Nat.testBit_div_two_pow]
  by_cases below : bit < field.start
  · simp only [below, if_true, decide_true, Bool.true_and]
  · simp only [below, if_false]
    by_cases inside : bit - field.start < field.width
    · simp only [inside, if_true, decide_true, Bool.true_and]
    · have same : bit - field.start - field.width + (field.start + field.width) = bit := by omega
      simp only [inside, if_false, same]

theorem get_set (field : BitField) (value word : Nat) : field.get (field.set value word) = value % 2 ^ field.width := by
  apply Nat.eq_of_testBit_eq
  intro bit
  rw [testBit_get, testBit_set, Nat.testBit_mod_two_pow, Nat.add_sub_cancel]
  by_cases inside : bit < field.width
  · simp [inside]
  · simp [inside]

theorem get_set_of_disjoint {field other : BitField} (disjoint : field.Disjoint other)
    (value word : Nat) : field.get (other.set value word) = field.get word := by
  apply Nat.eq_of_testBit_eq
  intro bit
  rw [testBit_get, testBit_get, testBit_set]
  by_cases inside : bit < field.width
  · by_cases below : bit + field.start < other.start
    · simp only [below, if_true]
    · have above : ¬ bit + field.start - other.start < other.width := by
        unfold Disjoint at disjoint
        omega
      simp only [below, above, if_false]
  · simp only [inside, decide_false, Bool.false_and]

theorem get_setAll_of_disjoint {field : BitField} {fields : List (BitField × Nat)}
    (disjoint : ∀ change ∈ fields, field.Disjoint change.1) (word : Nat) :
    field.get (setAll fields word) = field.get word := by
  induction fields generalizing word with
  | nil => rfl
  | cons change rest ih =>
    obtain ⟨first, others⟩ := List.forall_mem_cons.mp disjoint
    rw [setAll, List.foldl_cons, ← setAll, ih others, get_set_of_disjoint first]

theorem get_setAll {field : BitField} {value : Nat} (before : List (BitField × Nat))
    {after : List (BitField × Nat)} (disjoint : ∀ change ∈ after, field.Disjoint change.1) (word : Nat) :
    field.get (setAll (before ++ (field, value) :: after) word) = value % 2 ^ field.width := by
  rw [setAll, List.foldl_append, List.foldl_cons, ← setAll, get_setAll_of_disjoint disjoint, get_set]

end BitField

/-!
The bytes of a word from the highest to the lowest, put together again.
-/

namespace ByteOrder

theorem getD_drop (buf : List UInt8) (n i : Nat) : buf.getD (n + i) 0 = (buf.drop n).getD i 0 := by
  rw [List.getD_eq_getElem?_getD, List.getD_eq_getElem?_getD, List.getElem?_drop]

theorem getD_take (buf : List UInt8) {n i : Nat} (below : i < n) : (buf.take n).getD i 0 = buf.getD i 0 := by
  rw [List.getD_eq_getElem?_getD, List.getD_eq_getElem?_getD, List.getElem?_take_of_lt below]

theorem getD_ofFn {n : Nat} (addr : Fin n → UInt8) (i : Fin n) (rest : List UInt8) :
    (List.ofFn addr ++ rest).getD i 0 = addr i := by
  rw [List.getD_eq_getElem?_getD, List.getElem?_append_left (by simp), List.getElem?_ofFn]
  simp

theorem join16 (x : UInt16) : (x >>> 8).toUInt8.toUInt16 <<< 8 ||| x.toUInt8.toUInt16 = x := by
  have bound := x.toNat_lt
  have eight : (8 : UInt16).toNat % 16 = 8 := rfl
  apply UInt16.toNat_inj.mp
  simp only [UInt16.toNat_or, UInt16.toNat_shiftLeft, UInt8.toNat_toUInt16, UInt16.toNat_toUInt8,
    UInt16.toNat_shiftRight, eight, Nat.shiftRight_eq_div_pow]
  have high : (x.toNat / 2 ^ 8 % 2 ^ 8) <<< 8 < 2 ^ 16 := by
    rw [Nat.shiftLeft_eq]
    omega
  rw [Nat.mod_eq_of_lt high, ← Nat.shiftLeft_add_eq_or_of_lt (Nat.mod_lt _ (by omega)), Nat.shiftLeft_eq]
  omega

theorem toNat_join16 (high low : UInt8) :
    (high.toUInt16 <<< 8 ||| low.toUInt16).toNat = 256 * high.toNat + low.toNat := by
  have first := high.toNat_lt
  have second := low.toNat_lt
  have eight : (8 : UInt16).toNat % 16 = 8 := rfl
  simp only [UInt16.toNat_or, UInt16.toNat_shiftLeft, UInt8.toNat_toUInt16, eight]
  rw [Nat.shiftLeft_eq, Nat.mod_eq_of_lt (by omega), Nat.mul_comm, Nat.two_pow_add_eq_or_of_lt second]

theorem join32 (x : UInt32) :
    (x >>> 24).toUInt8.toUInt32 <<< 24 ||| (x >>> 16).toUInt8.toUInt32 <<< 16 |||
      (x >>> 8).toUInt8.toUInt32 <<< 8 ||| x.toUInt8.toUInt32 = x := by
  have bound := x.toNat_lt
  have eight : (8 : UInt32).toNat % 32 = 8 := rfl
  have sixteen : (16 : UInt32).toNat % 32 = 16 := rfl
  have twentyFour : (24 : UInt32).toNat % 32 = 24 := rfl
  have byte : ∀ n, n % 2 ^ 8 < 2 ^ 8 := fun n => Nat.mod_lt n (by omega)
  have place : ∀ n k, k ≤ 24 → (n % 2 ^ 8) <<< k % 2 ^ 32 = n % 2 ^ 8 * 2 ^ k := by
    intro n k le
    have most : 2 ^ k ≤ 2 ^ 24 := Nat.pow_le_pow_right (by omega) le
    rw [Nat.shiftLeft_eq, Nat.mod_eq_of_lt]
    calc n % 2 ^ 8 * 2 ^ k < 2 ^ 8 * 2 ^ k := Nat.mul_lt_mul_of_pos_right (byte n) (Nat.two_pow_pos k)
      _ ≤ 2 ^ 8 * 2 ^ 24 := Nat.mul_le_mul_left _ most
  have put : ∀ a k b, b < 2 ^ k → a * 2 ^ k ||| b = a * 2 ^ k + b := by
    intro a k b below
    rw [Nat.mul_comm, Nat.two_pow_add_eq_or_of_lt below]
  apply UInt32.toNat_inj.mp
  simp only [UInt32.toNat_or, UInt32.toNat_shiftLeft, UInt8.toNat_toUInt32, UInt32.toNat_toUInt8,
    UInt32.toNat_shiftRight, eight, sixteen, twentyFour, Nat.shiftRight_eq_div_pow]
  rw [place _ 24 (by omega), place _ 16 (by omega), place _ 8 (by omega), put _ 24 _ (by omega),
    show x.toNat / 2 ^ 24 % 2 ^ 8 * 2 ^ 24 + x.toNat / 2 ^ 16 % 2 ^ 8 * 2 ^ 16 =
      x.toNat / 2 ^ 16 % 2 ^ 16 * 2 ^ 16 by omega, put _ 16 _ (by omega),
    show x.toNat / 2 ^ 16 % 2 ^ 16 * 2 ^ 16 + x.toNat / 2 ^ 8 % 2 ^ 8 * 2 ^ 8 =
      x.toNat / 2 ^ 8 % 2 ^ 24 * 2 ^ 8 by omega, put _ 8 _ (byte _)]
  omega

end ByteOrder
