import Mathlib.Data.Nat.ModEq
import Mathlib.Tactic.Ring

/-!
Sums of 16-bit words in one's complement arithmetic, where a carry comes back in at the low end.
-/

namespace OnesComplement

open List

def add (a b : Nat) : Nat := (a + b) % 65536 + (a + b) / 65536

def sum (words : List Nat) : Nat := words.foldl add 0

def words : List UInt8 → List Nat
  | [] => []
  | [low] => [low.toNat]
  | low :: high :: rest => (low.toNat + 256 * high.toNat) :: words rest

def netWords : List UInt8 → List Nat
  | [] => []
  | [high] => [256 * high.toNat]
  | high :: low :: rest => (256 * high.toNat + low.toNat) :: netWords rest

def Verifies (bytes : List UInt8) : Prop := sum (netWords bytes) = 0xFFFF

instance (bytes : List UInt8) : Decidable (Verifies bytes) :=
  inferInstanceAs (Decidable (sum (netWords bytes) = 0xFFFF))

/-- The representative of a sum: zero only for a sum without any carry or word, else from 1 to `0xFFFF`. -/
def norm (n : Nat) : Nat := if n = 0 then 0 else (n - 1) % 65535 + 1

theorem norm_lt (n : Nat) : norm n < 65536 := by
  rw [norm]
  split
  · omega
  · omega

theorem norm_zero_iff {n : Nat} : norm n = 0 ↔ n = 0 := by
  rw [norm]
  split
  · simpa
  · omega

theorem norm_mod (n : Nat) : norm n % 65535 = n % 65535 := by
  rw [norm]
  split
  · omega
  · omega

theorem add_norm (n word : Nat) (small : word < 65536) : add (norm n) word = norm (n + word) := by
  have low := norm_lt n
  have rest := norm_mod n
  by_cases none' : n = 0
  · subst none'
    rw [norm, if_pos rfl, add, norm]
    split
    · omega
    · omega
  · have some' : norm n ≠ 0 := fun zero => none' (norm_zero_iff.mp zero)
    rw [add]
    have right : norm (n + word) = (n + word - 1) % 65535 + 1 := if_neg (by omega)
    rw [right]
    omega

theorem foldl_add (list : List Nat) (small : ∀ word ∈ list, word < 65536) (n : Nat) :
    list.foldl add (norm n) = norm (n + list.sum) := by
  induction list generalizing n with
  | nil => rfl
  | cons word rest ih =>
    rw [foldl_cons, add_norm n word (small word mem_cons_self),
      ih (fun other member => small other (mem_cons_of_mem word member)), sum_cons, Nat.add_assoc]

theorem sum_eq {list : List Nat} (small : ∀ word ∈ list, word < 65536) : sum list = norm list.sum := by
  have folded := foldl_add list small 0
  rw [Nat.zero_add] at folded
  exact folded

theorem words_lt : ∀ bytes : List UInt8, ∀ word ∈ words bytes, word < 65536
  | [], word, member => by cases member
  | [low], word, member => by
      rw [mem_singleton.mp member]
      have := low.toNat_lt
      omega
  | low :: high :: rest, word, member => by
      rcases mem_cons.mp member with same | later
      · have := low.toNat_lt
        have := high.toNat_lt
        omega
      · exact words_lt rest word later

theorem netWords_lt : ∀ bytes : List UInt8, ∀ word ∈ netWords bytes, word < 65536
  | [], word, member => by cases member
  | [high], word, member => by
      rw [mem_singleton.mp member]
      have := high.toNat_lt
      omega
  | high :: low :: rest, word, member => by
      rcases mem_cons.mp member with same | later
      · have := low.toNat_lt
        have := high.toNat_lt
        omega
      · exact netWords_lt rest word later

theorem words_append : ∀ front back : List UInt8, front.length % 2 = 0 →
    words (front ++ back) = words front ++ words back
  | [], back, _ => rfl
  | [low], back, even => by
      rw [length_singleton] at even
      omega
  | low :: high :: rest, back, even => by
      rw [length_cons, length_cons] at even
      have later := words_append rest back (by omega)
      simp only [cons_append, words, later]

theorem words_sum_append (front back : List UInt8) (even : front.length % 2 = 0) :
    (words (front ++ back)).sum = (words front).sum + (words back).sum := by
  rw [words_append front back even, sum_append]

theorem words_sum_split : ∀ (bytes : List UInt8) (size : Nat), (words bytes).sum =
    (words (bytes.take size)).sum + (words (if size % 2 = 0 then bytes.drop size else 0 :: bytes.drop size)).sum
  | bytes, 0 => by
      rw [if_pos (Nat.zero_mod 2), take_zero, drop_zero, words, sum_nil, Nat.zero_add]
  | [], size + 1 => by
      rw [take_nil, drop_nil]
      split
      · rfl
      · rfl
  | [_], 1 => by simp [words]
  | low :: high :: rest, 1 => by
      simp only [take_succ_cons, take_zero, drop_succ_cons, drop_zero, Nat.one_mod,
        one_ne_zero, if_false, words, sum_cons, sum_nil, UInt8.toNat_zero]
      omega
  | [_], size + 2 => by
      simp only [take_succ_cons, take_nil, drop_succ_cons, drop_nil]
      split
      · rfl
      · rfl
  | low :: high :: rest, size + 2 => by
      have later := words_sum_split rest size
      simp only [take_succ_cons, drop_succ_cons, words, sum_cons, Nat.add_mod_right, later]
      omega

theorem words_sum_modEq : ∀ bytes : List UInt8,
    (words bytes).sum ≡ 256 * (netWords bytes).sum [MOD 65535]
  | [] => Nat.ModEq.refl _
  | [low] => by
      simp only [words, netWords, sum_singleton, Nat.ModEq]
      omega
  | low :: high :: rest => by
      have later := words_sum_modEq rest
      simp only [words, netWords, sum_cons, Nat.ModEq] at later ⊢
      omega

theorem sum_zero_iff : ∀ bytes : List UInt8, (words bytes).sum = 0 ↔ (netWords bytes).sum = 0
  | [] => Iff.rfl
  | [low] => by
      simp only [words, netWords, sum_singleton]
      omega
  | low :: high :: rest => by
      have later := sum_zero_iff rest
      simp only [words, netWords, sum_cons]
      omega

theorem verifies_iff (bytes : List UInt8) : Verifies bytes ↔ (words bytes).sum ≠ 0 ∧ (words bytes).sum % 65535 = 0 := by
  have order := words_sum_modEq bytes
  have zero := sum_zero_iff bytes
  rw [Verifies, sum_eq (netWords_lt bytes), norm]
  rw [Nat.ModEq] at order
  split
  · omega
  · omega

theorem words_sum_le : ∀ bytes : List UInt8, (words bytes).sum ≤ 65535 * ((bytes.length + 1) / 2)
  | [] => Nat.zero_le _
  | [low] => by
      have := low.toNat_lt
      simp only [words, sum_singleton, length_singleton]
      omega
  | low :: high :: rest => by
      have later := words_sum_le rest
      have := low.toNat_lt
      have := high.toNat_lt
      simp only [words, sum_cons, length_cons]
      omega

end OnesComplement
