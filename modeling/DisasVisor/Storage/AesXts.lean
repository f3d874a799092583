import Mathlib.Algebra.Polynomial.Div
import Mathlib.Tactic.IntervalCases
import Mathlib.Tactic.LinearCombination
import DisasVisor.Lib.Memory
import Mathlib.Algebra.Field.ZMod

/-!
The sector cipher of `storage/lib/crypto/aes_xts.c`: decryption inverts encryption, and the tweak of a block is
multiplied by the generator of GF(2^128) from block to block.
-/

namespace DisasVisor.Storage.AesXts

open Polynomial

/-- 16 bytes as the two words of a `core_mem_t` pointer. -/
@[ext] structure Block where
  low : BitVec 64
  high : BitVec 64
  deriving DecidableEq

def qword (memory : Memory) (address : Nat) : BitVec 64 :=
  BitVec.ofNat 64 (memory.dword address + 2 ^ 32 * memory.dword (address + 4))

def setQword (memory : Memory) (address : Nat) (value : BitVec 64) : Memory :=
  (memory.setDword address value.toNat).setDword (address + 4) (value.toNat / 2 ^ 32)

def block (memory : Memory) (address : Nat) : Block := ⟨qword memory address, qword memory (address + 8)⟩

def setBlock (memory : Memory) (address : Nat) (b : Block) : Memory :=
  setQword (setQword memory address b.low) (address + 8) b.high

def xor128 (src1 src2 : Block) : Block := ⟨src1.low ^^^ src2.low, src1.high ^^^ src2.high⟩

def movzx128 (src : UInt64) : Block := ⟨src.toBitVec, 0⟩

def shl128 (src : Block) : Block × Bool :=
  (⟨src.low <<< 1, src.high <<< 1 ||| (BitVec.ofBool src.low.msb).setWidth 64⟩, src.high.msb)

def gfMul128 (src : Block) : Block :=
  let (dst, carry) := shl128 src
  if carry then { dst with low := dst.low ^^^ 0x87 } else dst

def cryptLoop (crypt : Block → Block) : Nat → Block → Nat → Nat → Memory → Memory
  | 0, _, _, _, memory => memory
  | n + 1, tweak, dst, src, memory =>
    let merged := setBlock memory dst (xor128 (block memory src) tweak)
    let crypted := setBlock merged dst (crypt (block merged dst))
    let memory := setBlock crypted dst (xor128 (block crypted dst) tweak)
    cryptLoop crypt n (gfMul128 tweak) (dst + 16) (src + 16) memory

def aesXtsCrypt (encTweak crypt : Block → Block) (memory : Memory) (dst src : Nat) (lba : UInt64)
    (sectorSize : UInt32) : Option Memory :=
  if sectorSize % 16 = 0 then
    some (cryptLoop crypt (sectorSize.toInt32.toInt.toNat / 16) (encTweak (movzx128 lba)) dst src memory)
  else none

/-- The AES functions, for the schedules `κ` and `δ` of the two directions. -/
structure Aes (κ δ : Type) where
  encSetkey : List UInt8 → Int → κ
  decSetkey : List UInt8 → Int → δ
  enc : κ → Block → Block
  dec : δ → Block → Block

variable {κ δ : Type}

def Aes.Inverse (aes : Aes κ δ) : Prop :=
  ∀ key bits, Function.LeftInverse (aes.dec (aes.decSetkey key bits)) (aes.enc (aes.encSetkey key bits)) ∧
    Function.RightInverse (aes.dec (aes.decSetkey key bits)) (aes.enc (aes.encSetkey key bits))

structure AesXtsKeyctx (κ δ : Type) where
  encryptTweakKey : κ
  encryptKey : κ
  decryptTweakKey : κ
  decryptKey : δ

def aesXtsSetkey (aes : Aes κ δ) (key : List UInt8) (bits : Int) : AesXtsKeyctx κ δ :=
  let keybit := bits.tdiv 2
  let keylen := (keybit.tdiv 8).toNat
  { encryptTweakKey := aes.encSetkey (key.drop keylen) keybit
    encryptKey := aes.encSetkey key keybit
    decryptTweakKey := aes.encSetkey (key.drop keylen) keybit
    decryptKey := aes.decSetkey key keybit }

def aesXtsEncrypt (aes : Aes κ δ) (k : AesXtsKeyctx κ δ) (memory : Memory) (dst src : Nat) (lba : UInt64)
    (sectorSize : Int32) : Option Memory :=
  aesXtsCrypt (aes.enc k.encryptTweakKey) (aes.enc k.encryptKey) memory dst src lba sectorSize.toUInt32

def aesXtsDecrypt (aes : Aes κ δ) (k : AesXtsKeyctx κ δ) (memory : Memory) (dst src : Nat) (lba : UInt64)
    (sectorSize : Int32) : Option Memory :=
  aesXtsCrypt (aes.enc k.decryptTweakKey) (aes.dec k.decryptKey) memory dst src lba sectorSize.toUInt32

variable {memory : Memory} {address other : Nat} {b tweak : Block}

theorem setQword_outside {value : BitVec 64} (outside : other < address ∨ address + 8 ≤ other) :
    setQword memory address value other = memory other := by
  rw [setQword, Memory.setDword_outside _ _ (by omega), Memory.setDword_outside _ _ (by omega)]

theorem qword_congr {memory' : Memory} (same : ∀ i < 8, memory (address + i) = memory' (address + i)) :
    qword memory address = qword memory' address := by
  unfold qword
  rw [memory.dword_congr fun i inside => same i (by omega), @Memory.dword_congr memory _ (address + 4) ?_]
  intro i inside
  rw [Nat.add_assoc]
  exact same (4 + i) (by omega)

theorem qword_setQword {value : BitVec 64} : qword (setQword memory address value) address = value := by
  have low : (setQword memory address value).dword address = value.toNat % 2 ^ 32 := by
    rw [← memory.dword_setDword address value.toNat]
    exact Memory.dword_congr _ fun i inside => Memory.setDword_outside _ _ (by omega)
  have high := (memory.setDword address value.toNat).dword_setDword (address + 4) (value.toNat / 2 ^ 32)
  unfold qword
  rw [low, show (setQword memory address value).dword (address + 4) = _ from high]
  apply BitVec.eq_of_toNat_eq
  rw [BitVec.toNat_ofNat]
  omega

theorem setBlock_outside (outside : other < address ∨ address + 16 ≤ other) :
    setBlock memory address b other = memory other := by
  rw [setBlock, setQword_outside (by omega), setQword_outside (by omega)]

theorem block_setBlock : block (setBlock memory address b) address = b := by
  have low : qword (setBlock memory address b) address = b.low := by
    rw [← @qword_setQword memory address b.low]
    exact qword_congr fun i inside => setQword_outside (by omega)
  exact Block.ext low qword_setQword

theorem block_setBlock_other (apart : other + 16 ≤ address ∨ address + 16 ≤ other) :
    block (setBlock memory address b) other = block memory other :=
  Block.ext (qword_congr fun i inside => setBlock_outside (by omega))
    (qword_congr fun i inside => setBlock_outside (by omega))

def Apart (dst src n : Nat) : Prop := dst = src ∨ dst + 16 * n ≤ src ∨ src + 16 * n ≤ dst

theorem cryptLoop_outside {crypt : Block → Block} (n : Nat) : ∀ {tweak dst src memory},
    other < dst ∨ dst + 16 * n ≤ other → cryptLoop crypt n tweak dst src memory other = memory other := by
  induction n with
  | zero => intros; rfl
  | succ n ih =>
    intro tweak dst src memory outside
    unfold cryptLoop
    dsimp only
    rw [ih (by omega), setBlock_outside (by omega), setBlock_outside (by omega), setBlock_outside (by omega)]

theorem cryptLoop_block {crypt : Block → Block} (n : Nat) : ∀ {tweak dst src memory}, Apart dst src n →
    ∀ j < n, block (cryptLoop crypt n tweak dst src memory) (dst + 16 * j) =
      xor128 (crypt (xor128 (block memory (src + 16 * j)) (gfMul128^[j] tweak))) (gfMul128^[j] tweak) := by
  induction n with
  | zero =>
    intro tweak dst src memory _ j inside
    omega
  | succ n ih =>
    intro tweak dst src memory apart j inside
    unfold cryptLoop
    simp only [block_setBlock]
    cases j with
    | zero =>
      have first (m : Memory) : block (cryptLoop crypt n (gfMul128 tweak) (dst + 16) (src + 16) m) dst =
          block m dst :=
        Block.ext (qword_congr fun i less => cryptLoop_outside n (by omega))
          (qword_congr fun i less => cryptLoop_outside n (by omega))
      simp only [Nat.mul_zero, Nat.add_zero]
      rw [first, block_setBlock]
      rfl
    | succ j =>
      have next : dst + 16 * (j + 1) = dst + 16 + 16 * j := by omega
      have source : src + 16 * (j + 1) = src + 16 + 16 * j := by omega
      have later : Apart (dst + 16) (src + 16) n := by
        unfold Apart at apart ⊢
        omega
      unfold Apart at apart
      rw [next, source, ih later j (by omega), block_setBlock_other (by omega),
        block_setBlock_other (by omega), block_setBlock_other (by omega)]
      rfl

theorem xor128_xor128 (a b : Block) : xor128 (xor128 a b) b = a := by
  simp [xor128, BitVec.xor_assoc]

def Block.bits (b : Block) : BitVec 128 := b.high ++ b.low

noncomputable def poly (bits : BitVec 128) : (ZMod 2)[X] := ∑ i ∈ Finset.range 128, if bits.getLsbD i then X ^ i else 0

noncomputable def xtsModulus : (ZMod 2)[X] := X ^ 128 + (X ^ 7 + X ^ 2 + X + 1)

theorem coeff_poly (bits : BitVec 128) (n : Nat) : (poly bits).coeff n = if bits.getLsbD n then 1 else 0 := by
  have term (i : Nat) : (if bits.getLsbD i then X ^ i else 0 : (ZMod 2)[X]).coeff n =
      if n = i then if bits.getLsbD n then 1 else 0 else 0 := by
    split
    · rename_i set'
      rw [coeff_X_pow]
      by_cases same : n = i
      · rw [if_pos same, if_pos same, same, if_pos set']
      · rw [if_neg same, if_neg same]
    · rename_i clear
      by_cases same : n = i
      · rw [if_pos same, same, if_neg clear, coeff_zero]
      · rw [if_neg same, coeff_zero]
  unfold poly
  rw [finsetSum_coeff, Finset.sum_congr rfl fun i _ => term i, Finset.sum_ite_eq]
  split
  · rfl
  · rename_i beyond
    rw [Finset.mem_range, not_lt] at beyond
    rw [BitVec.getLsbD_of_ge _ _ beyond]
    rfl

theorem poly_xor (x y : BitVec 128) : poly (x ^^^ y) = poly x + poly y := by
  ext n
  rw [coeff_add, coeff_poly, coeff_poly, coeff_poly, BitVec.getLsbD_xor]
  cases x.getLsbD n <;> cases y.getLsbD n <;> decide

theorem poly_shiftLeft (x : BitVec 128) : poly x * X = poly (x <<< 1) + if x.msb then X ^ 128 else 0 := by
  ext n
  have last : x.msb = x.getLsbD 127 := BitVec.msb_eq_getLsbD_last x
  have top : (if x.msb then X ^ 128 else 0 : (ZMod 2)[X]).coeff n = if n = 128 ∧ x.msb then 1 else 0 := by
    split
    · rename_i set'
      simp [coeff_X_pow, set']
    · rename_i clear
      simp [clear]
  rw [coeff_add, coeff_poly, top, BitVec.getLsbD_shiftLeft]
  cases n with
  | zero => simp
  | succ n =>
    rw [coeff_mul_X, coeff_poly]
    rcases lt_trichotomy n 127 with low | same | high
    · have inside : n + 1 < 128 := by omega
      simp [low.ne, inside]
    · subst same
      simp [last]
    · have beyond : ¬n + 1 < 128 := by omega
      rw [BitVec.getLsbD_of_ge x n high]
      simp [high.ne', beyond]

theorem poly_feedback : poly 0x87#128 = X ^ 7 + X ^ 2 + X + 1 := by
  ext n
  rw [coeff_poly]
  by_cases low : n < 8
  · interval_cases n <;> simp [coeff_X_pow, coeff_X, coeff_one]
  · have clear : (0x87#128).getLsbD n = false :=
      Nat.testBit_lt_two_pow (Nat.lt_of_lt_of_le (by decide : (0x87#128).toNat < 2 ^ 8)
        (Nat.pow_le_pow_right (by decide) (not_lt.mp low)))
    have not7 : n ≠ 7 := by omega
    have not2 : n ≠ 2 := by omega
    have not1 : 1 ≠ n := by omega
    have not0 : n ≠ 0 := by omega
    simp [clear, coeff_X_pow, coeff_X, coeff_one, not7, not2, not1, not0]

theorem getLsbD_bits (b : Block) (i : Nat) :
    b.bits.getLsbD i = if i < 64 then b.low.getLsbD i else b.high.getLsbD (i - 64) := BitVec.getLsbD_append

theorem bits_gfMul128 (b : Block) : (gfMul128 b).bits = b.bits <<< 1 ^^^ if b.bits.msb then 0x87#128 else 0#128 := by
  have top : b.bits.msb = b.high.msb := by
    rw [BitVec.msb_eq_getLsbD_last, BitVec.msb_eq_getLsbD_last, getLsbD_bits]
    rfl
  have shifted : (shl128 b).1.bits = b.bits <<< 1 := by
    apply BitVec.eq_of_getLsbD_eq
    intro i inside
    rw [BitVec.getLsbD_shiftLeft, getLsbD_bits, getLsbD_bits]
    unfold shl128
    dsimp only
    rw [BitVec.msb_eq_getLsbD_last]
    by_cases half : i < 64
    · have before : i - 1 < 64 := by omega
      simp [half, inside, before]
    · by_cases first : i = 64
      · subst first
        simp
      · have before : ¬i - 1 < 64 := by omega
        have place : i - 1 - 64 = i - 64 - 1 := by omega
        have inner : i - 64 < 64 := by omega
        have nonzero : ¬i - 64 < 1 := by omega
        have notFirst : i - 64 ≠ 0 ∧ i ≠ 0 := by omega
        have same := BitVec.getLsbD_eq_getElem (x := b.high) (by omega : i - 64 - 1 < 64)
        simp [half, inside, before, place, inner, nonzero, notFirst, same, BitVec.getLsbD_ofBool]
  have carry : (shl128 b).2 = b.high.msb := rfl
  unfold gfMul128
  dsimp only
  rw [top, ← shifted, carry]
  split
  · apply BitVec.eq_of_getLsbD_eq
    intro i inside
    rw [BitVec.getLsbD_xor, getLsbD_bits, getLsbD_bits]
    dsimp only
    split
    · rw [BitVec.getLsbD_xor]
      congr 1
    · rename_i half
      have clear : (0x87#128).getLsbD i = false :=
        Nat.testBit_lt_two_pow (Nat.lt_of_lt_of_le (by decide : (0x87#128).toNat < 2 ^ 8)
          (Nat.pow_le_pow_right (by decide) (by omega)))
      rw [clear, Bool.xor_false]
  · exact (BitVec.xor_zero).symm

theorem degree_poly (bits : BitVec 128) : (poly bits).degree < ((128 : Nat) : WithBot Nat) := by
  refine (degree_lt_iff_coeff_zero _ 128).mpr fun n high => ?_
  rw [coeff_poly, BitVec.getLsbD_of_ge _ _ high]
  rfl

theorem degree_feedback : (X ^ 7 + X ^ 2 + X + 1 : (ZMod 2)[X]).degree < ((128 : Nat) : WithBot Nat) := by
  rw [← poly_feedback]
  exact degree_poly _

theorem monic_xtsModulus : xtsModulus.Monic := by
  unfold xtsModulus
  exact monic_X_pow_add degree_feedback

theorem degree_poly_lt (bits : BitVec 128) : (poly bits).degree < xtsModulus.degree := by
  have leading : xtsModulus.degree = ((128 : Nat) : WithBot Nat) := by
    unfold xtsModulus
    rw [degree_add_eq_left_of_degree_lt (by rw [degree_X_pow]; exact degree_feedback), degree_X_pow]
  rw [leading]
  exact degree_poly bits

theorem poly_gfMul128 (b : Block) : poly (gfMul128 b).bits = (poly b.bits * X) %ₘ xtsModulus := by
  have parts : poly (gfMul128 b).bits + xtsModulus * (if b.bits.msb then 1 else 0) = poly b.bits * X := by
    rw [bits_gfMul128, poly_xor, poly_shiftLeft]
    split
    · rw [poly_feedback, mul_one]
      unfold xtsModulus
      have two : (2 : (ZMod 2)[X]) = 0 := CharP.cast_eq_zero (ZMod 2)[X] 2
      linear_combination (X ^ 7 + X ^ 2 + X + 1) * two
    · have none' : poly 0#128 = 0 := by
        ext n
        simp [coeff_poly]
      rw [none', mul_zero, add_zero]
  have small := degree_poly_lt (gfMul128 b).bits
  have monic := monic_xtsModulus
  generalize xtsModulus = g at *
  have unique := div_modByMonic_unique _ _ monic ⟨parts, small⟩
  exact unique.2.symm

theorem poly_tweak (tweak : Block) (j : Nat) :
    poly (gfMul128^[j] tweak).bits = (poly tweak.bits * X ^ j) %ₘ xtsModulus := by
  induction j with
  | zero =>
    rw [pow_zero, mul_one, (modByMonic_eq_self_iff monic_xtsModulus).mpr (degree_poly_lt _)]
    rfl
  | succ j ih =>
    rw [Function.iterate_succ_apply', poly_gfMul128, ih]
    apply modByMonic_eq_of_dvd_sub monic_xtsModulus
    rw [modByMonic_eq_sub_mul_div _ xtsModulus, pow_succ]
    exact ⟨-((poly tweak.bits * X ^ j) /ₘ xtsModulus * X), by ring⟩

theorem aesXtsCrypt_eq {encTweak crypt : Block → Block} {dst src : Nat} {lba : UInt64} {sectorSize : Int32}
    (whole : sectorSize.toInt % 16 = 0) :
    aesXtsCrypt encTweak crypt memory dst src lba sectorSize.toUInt32 =
      some (cryptLoop crypt (sectorSize.toInt.toNat / 16) (encTweak (movzx128 lba)) dst src memory) := by
  have multiple : sectorSize.toUInt32 % 16 = 0 := by
    have signed : sectorSize.toInt = _ := BitVec.toInt_eq_toNat_cond sectorSize.toBitVec
    have unsigned : sectorSize.toUInt32.toNat = sectorSize.toBitVec.toNat := rfl
    apply UInt32.toNat_inj.mp
    rw [UInt32.toNat_mod]
    change sectorSize.toUInt32.toNat % 16 = 0
    split at signed
    · omega
    · omega
  unfold aesXtsCrypt
  rw [if_pos multiple]
  rfl

/-- What a sector becomes, with the tweak of each block from the polynomials over GF(2), and that it comes
back. -/
theorem aesXts_exact (aes : Aes κ δ) (inverse : aes.Inverse) (key : List UInt8) (bits : Int) (lba : UInt64)
    (sectorSize : Int32) (whole : sectorSize.toInt % 16 = 0) (memory : Memory) (dst src out : Nat)
    (there : Apart dst src (sectorSize.toInt.toNat / 16)) (back : Apart out dst (sectorSize.toInt.toNat / 16)) :
    ∃ encrypted decrypted,
      aesXtsEncrypt aes (aesXtsSetkey aes key bits) memory dst src lba sectorSize = some encrypted ∧
      aesXtsDecrypt aes (aesXtsSetkey aes key bits) encrypted out dst lba sectorSize = some decrypted ∧
      ∀ j < sectorSize.toInt.toNat / 16, block decrypted (out + 16 * j) = block memory (src + 16 * j) ∧
        ∃ tweak : Block,
          poly tweak.bits = (poly (aes.enc (aesXtsSetkey aes key bits).encryptTweakKey (movzx128 lba)).bits * X ^ j) %ₘ
            xtsModulus ∧
          block encrypted (dst + 16 * j) =
            xor128 (aes.enc (aesXtsSetkey aes key bits).encryptKey (xor128 (block memory (src + 16 * j)) tweak)) tweak := by
  refine ⟨_, _, aesXtsCrypt_eq whole, aesXtsCrypt_eq whole, ?_⟩
  intro j inside
  have one := @cryptLoop_block (aes.enc (aesXtsSetkey aes key bits).encryptKey) _
    (aes.enc (aesXtsSetkey aes key bits).encryptTweakKey (movzx128 lba)) _ _ memory there j inside
  refine ⟨?_, _, poly_tweak _ j, one⟩
  have same : (aesXtsSetkey aes key bits).decryptTweakKey = (aesXtsSetkey aes key bits).encryptTweakKey := rfl
  rw [cryptLoop_block _ back j inside, one, same, xor128_xor128]
  exact (congrArg (xor128 · _) ((inverse key (bits.tdiv 2)).1 _)).trans (xor128_xor128 _ _)

def zeroKeyAes : Aes Unit Unit where
  encSetkey _ _ := ()
  decSetkey _ _ := ()
  enc _ := Equiv.swap ⟨0, 0⟩ ⟨0x3B2C8AEFD44BE966, 0x2E2B34CA59FA4C88⟩
  dec _ := Equiv.swap ⟨0, 0⟩ ⟨0x3B2C8AEFD44BE966, 0x2E2B34CA59FA4C88⟩

theorem zeroKeyAes_inverse : zeroKeyAes.Inverse := fun _ _ =>
  ⟨(Equiv.swap _ _).left_inv, (Equiv.swap _ _).right_inv⟩

def tweakSector : Memory := setBlock (fun _ => 0) 0 ⟨0x3B2C8AEFD44BE966, 0x2E2B34CA59FA4C88⟩

theorem aesXts_exact_zeroKey : ∃ encrypted decrypted,
    aesXtsEncrypt zeroKeyAes (aesXtsSetkey zeroKeyAes (List.replicate 32 0) 256) tweakSector 0 0 0 16 =
      some encrypted ∧
    aesXtsDecrypt zeroKeyAes (aesXtsSetkey zeroKeyAes (List.replicate 32 0) 256) encrypted 0 0 0 16 = some decrypted ∧
    block decrypted 0 = block tweakSector 0 := by
  obtain ⟨encrypted, decrypted, there, back, blocks⟩ :=
    aesXts_exact zeroKeyAes zeroKeyAes_inverse (List.replicate 32 0) 256 0 16 (by decide) tweakSector 0 0 0
      (.inl rfl) (.inl rfl)
  exact ⟨encrypted, decrypted, there, back, (blocks 0 (by decide)).1⟩

end DisasVisor.Storage.AesXts
