import Mathlib.Data.List.Basic
import Mathlib.Tactic.Ring

/-!
Byte-addressed memory as a function, with blocks of bytes and with 16-bit and
32-bit words in both byte orders.
-/

def Memory : Type := Nat → UInt8

namespace Memory

open List

def slice (memory : Memory) (start count : Nat) : List UInt8 :=
  (List.range count).map fun offset => memory (start + offset)

def write (memory : Memory) (address : Nat) (byte : UInt8) : Memory :=
  fun other => if other = address then byte else memory other

/-- Write `count` bytes from `start` on, the byte at `start + offset` being `bytes offset`. -/
def blit (memory : Memory) (start count : Nat) (bytes : Nat → UInt8) : Memory :=
  fun other => if start ≤ other ∧ other < start + count then bytes (other - start) else memory other

def word (memory : Memory) (address : Nat) : Nat := (memory address).toNat + 256 * (memory (address + 1)).toNat

def setWord (memory : Memory) (address value : Nat) : Memory :=
  (memory.write address (UInt8.ofNat value)).write (address + 1) (UInt8.ofNat (value / 256))

def dword (memory : Memory) (address : Nat) : Nat := memory.word address + 65536 * memory.word (address + 2)

def setDword (memory : Memory) (address value : Nat) : Memory :=
  (memory.setWord address value).setWord (address + 2) (value / 65536)

def netWord (memory : Memory) (address : Nat) : Nat := 256 * (memory address).toNat + (memory (address + 1)).toNat

def netDword (memory : Memory) (address : Nat) : Nat := 65536 * memory.netWord address + memory.netWord (address + 2)

variable (memory : Memory)

@[simp] theorem length_slice (start count : Nat) : (memory.slice start count).length = count := by
  simp [slice]

@[simp] theorem slice_zero (start : Nat) : memory.slice start 0 = [] := rfl

theorem getElem?_slice (start count offset : Nat) (inside : offset < count) :
    (memory.slice start count)[offset]? = some (memory (start + offset)) := by
  simp [slice, inside]

theorem slice_add (start first second : Nat) :
    memory.slice start (first + second) = memory.slice start first ++ memory.slice (start + first) second := by
  simp only [slice, range_add, map_append, map_map, Function.comp_def, Nat.add_assoc]

theorem drop_slice (start count dropped : Nat) :
    (memory.slice start count).drop dropped = memory.slice (start + dropped) (count - dropped) := by
  by_cases short : dropped ≤ count
  · obtain ⟨rest, rfl⟩ := Nat.exists_eq_add_of_le short
    rw [slice_add, drop_left' (memory.length_slice _ _), Nat.add_sub_cancel_left]
  · have none : count - dropped = 0 := by omega
    rw [none, slice_zero, drop_eq_nil_iff, length_slice]
    omega

variable {other : Memory} {start count address place : Nat}

theorem slice_congr {otherStart : Nat}
    (same : ∀ offset < count, memory (start + offset) = other (otherStart + offset)) :
    memory.slice start count = other.slice otherStart count := by
  simp only [slice]
  apply map_congr_left
  intro offset member
  exact same offset (mem_range.mp member)

theorem blit_inside {other : Nat} (bytes : Nat → UInt8) (above : start ≤ other) (below : other < start + count) :
    memory.blit start count bytes other = bytes (other - start) := by
  simp only [blit, above, below, and_self, if_true]

theorem blit_outside {other : Nat} (bytes : Nat → UInt8) (outside : other < start ∨ start + count ≤ other) :
    memory.blit start count bytes other = memory other := by
  have missed : ¬ (start ≤ other ∧ other < start + count) := by omega
  simp only [blit, missed, if_false]

def writeBytes (start : Nat) (bytes : List UInt8) : Memory :=
  memory.blit start bytes.length fun offset => bytes.getD offset 0

theorem slice_writeBytes (start : Nat) (bytes : List UInt8) :
    (memory.writeBytes start bytes).slice start bytes.length = bytes := by
  apply ext_getElem?
  intro offset
  by_cases inside : offset < bytes.length
  · rw [getElem?_slice _ _ _ _ inside, writeBytes, blit_inside _ _ (by omega) (by omega),
      Nat.add_sub_cancel_left, getD_eq_getElem?_getD, List.getElem?_eq_getElem inside]
    rfl
  · rw [List.getElem?_eq_none (by rw [length_slice]; omega), List.getElem?_eq_none (by omega)]

def scatter (places : List (Nat × UInt8)) : Memory :=
  places.foldl (fun memory place => memory.write place.1 place.2) memory

theorem scatter_append (first second : List (Nat × UInt8)) :
    memory.scatter (first ++ second) = (memory.scatter first).scatter second :=
  foldl_append

theorem scatter_other {places : List (Nat × UInt8)} (outside : address ∉ places.map Prod.fst) :
    memory.scatter places address = memory address := by
  induction places generalizing memory with
  | nil => rfl
  | cons place places ih =>
    rw [map_cons, mem_cons, not_or] at outside
    have different : address ≠ place.1 := outside.1
    exact (ih (memory.write place.1 place.2) outside.2).trans (if_neg different)

theorem scatter_map {places : List (Nat × UInt8)} (distinct : (places.map Prod.fst).Nodup) :
    places.map (fun place => memory.scatter places place.1) = places.map Prod.snd := by
  induction places generalizing memory with
  | nil => rfl
  | cons place places ih =>
    rw [map_cons, nodup_cons] at distinct
    rw [map_cons, map_cons]
    congr 1
    · exact ((memory.write place.1 place.2).scatter_other distinct.1).trans (if_pos rfl)
    · exact ih (memory.write place.1 place.2) distinct.2

theorem writeBytes_cons (start : Nat) (byte : UInt8) (bytes : List UInt8) :
    memory.writeBytes start (byte :: bytes) = (memory.write start byte).writeBytes (start + 1) bytes := by
  funext other
  simp only [writeBytes, blit, write, length_cons]
  by_cases first : other = start
  · simp [first]
  · by_cases later : start + 1 ≤ other ∧ other < start + 1 + bytes.length
    · rw [if_pos (by omega), if_pos later]
      obtain ⟨offset, same⟩ : ∃ offset, other - start = offset + 1 := ⟨other - start - 1, by omega⟩
      rw [same, getD_cons_succ]
      congr 1
      omega
    · rw [if_neg (by omega), if_neg later, if_neg first]

theorem scatter_range (start : Nat) (bytes : List UInt8) :
    memory.scatter ((List.range' start bytes.length).zip bytes) = memory.writeBytes start bytes := by
  induction bytes generalizing memory start with
  | nil =>
    funext other
    simp only [scatter, writeBytes, blit, length_nil, List.range'_zero, zip_nil_left, foldl_nil]
    rw [if_neg (by omega)]
  | cons byte bytes ih =>
    rw [writeBytes_cons, ← ih, length_cons, List.range'_succ, zip_cons_cons]
    rfl

theorem writeBytes_append (start : Nat) (first second : List UInt8) :
    memory.writeBytes start (first ++ second) =
      (memory.writeBytes start first).writeBytes (start + first.length) second := by
  rw [← scatter_range, ← scatter_range, ← scatter_range, length_append, ← List.range'_append_1,
    zip_append (by rw [length_range']), scatter_append]

theorem scatter_block (start count : Nat) (bytes : List UInt8) :
    memory.scatter ((List.range' start count).zip bytes) = memory.writeBytes start (bytes.take count) := by
  rw [← scatter_range, zip_eq_zip_take_min, length_range', length_take]
  congr 2
  · rw [take_range'_of_length_ge (Nat.min_le_left _ _)]
  · by_cases short : count ≤ bytes.length
    · rw [Nat.min_eq_left short]
    · rw [Nat.min_eq_right (by omega), take_of_length_le (Nat.le_refl _), take_of_length_le (by omega)]

@[simp] theorem write_same (address : Nat) (byte : UInt8) : memory.write address byte address = byte := by
  simp [write]

theorem write_other {other : Nat} (byte : UInt8) (different : other ≠ address) :
    memory.write address byte other = memory other := by
  simp [write, different]

theorem setWord_outside {other : Nat} (value : Nat) (outside : other < address ∨ address + 2 ≤ other) :
    memory.setWord address value other = memory other := by
  rw [setWord, write_other _ _ (by omega), write_other _ _ (by omega)]

theorem setDword_outside {other : Nat} (value : Nat) (outside : other < address ∨ address + 4 ≤ other) :
    memory.setDword address value other = memory other := by
  rw [setDword, setWord_outside _ _ (by omega), setWord_outside _ _ (by omega)]

theorem setDword_congr (value : Nat) (same : place < address ∨ address + 4 ≤ place → other place = memory place) :
    other.setDword address value place = memory.setDword address value place := by
  by_cases inside : place < address ∨ address + 4 ≤ place
  · rw [setDword_outside _ _ inside, setDword_outside _ _ inside, same inside]
  · have four : place = address ∨ place = address + 1 ∨ place = address + 2 ∨
        place = address + 2 + 1 := by omega
    simp only [setDword, setWord, write]
    rcases four with rfl | rfl | rfl | rfl
    · simp
    · simp
    · simp
    · simp

theorem setWord_low (address value : Nat) : memory.setWord address value address = UInt8.ofNat value := by
  rw [setWord, write_other _ _ (by omega), write_same]

theorem setWord_high (address value : Nat) :
    memory.setWord address value (address + 1) = UInt8.ofNat (value / 256) := by
  rw [setWord, write_same]

theorem word_setWord (address value : Nat) : (memory.setWord address value).word address = value % 2 ^ 16 := by
  rw [word, setWord_low, setWord_high, UInt8.toNat_ofNat', UInt8.toNat_ofNat']
  omega

theorem dword_setDword (address value : Nat) : (memory.setDword address value).dword address = value % 2 ^ 32 := by
  have low : (memory.setDword address value).word address = value % 2 ^ 16 := by
    rw [← memory.word_setWord address value, word, word, setDword,
      setWord_outside (memory.setWord address value) _ (by omega : _ ∨ _),
      setWord_outside (memory.setWord address value) _ (by omega : _ ∨ _)]
  have high : (memory.setDword address value).word (address + 2) = value / 65536 % 2 ^ 16 := by
    rw [setDword, word_setWord]
  rw [dword, low, high]
  omega

theorem word_lt (address : Nat) : memory.word address < 2 ^ 16 := by
  have low := (memory address).toNat_lt
  have high := (memory (address + 1)).toNat_lt
  simp only [word]
  omega

theorem netWord_lt (address : Nat) : memory.netWord address < 2 ^ 16 := by
  have low := (memory (address + 1)).toNat_lt
  have high := (memory address).toNat_lt
  simp only [netWord]
  omega

theorem dword_congr (same : ∀ offset < 4, memory (address + offset) = other (address + offset)) :
    memory.dword address = other.dword address := by
  have first := same 0 (by omega)
  rw [Nat.add_zero] at first
  simp only [dword, word, Nat.add_assoc, first, same 1 (by omega), same 2 (by omega), same 3 (by omega)]

theorem netWord_congr (same : ∀ offset < 2, memory (address + offset) = other (place + offset)) :
    memory.netWord address = other.netWord place := by
  have high := same 0 (by omega)
  have low := same 1 (by omega)
  rw [Nat.add_zero, Nat.add_zero] at high
  rw [netWord, netWord, high, low]

theorem netDword_congr (same : ∀ offset < 4, memory (address + offset) = other (place + offset)) :
    memory.netDword address = other.netDword place := by
  have high : memory.netWord address = other.netWord place :=
    memory.netWord_congr fun offset inside => same offset (by omega)
  have low : memory.netWord (address + 2) = other.netWord (place + 2) := by
    apply memory.netWord_congr
    intro offset inside
    rw [Nat.add_assoc, Nat.add_assoc]
    exact same (2 + offset) (by omega)
  rw [netDword, netDword, high, low]

theorem netDword_lt (address : Nat) : memory.netDword address < 2 ^ 32 := by
  have high := memory.netWord_lt address
  have low := memory.netWord_lt (address + 2)
  simp only [netDword]
  omega

end Memory

def swapWord (value : Nat) : Nat := value % 256 * 256 + value / 256 % 256

def swapDword (value : Nat) : Nat := swapWord value * 65536 + swapWord (value / 65536)

theorem swapWord_bytes {low high : Nat} (lowBound : low < 256) (highBound : high < 256) :
    swapWord (low + 256 * high) = high + 256 * low := by
  simp only [swapWord]
  omega

theorem word_bytes (value : Nat) : value % 256 + 256 * (value / 256 % 256) = value % 2 ^ 16 := (Nat.mod_mul).symm

theorem swapWord_mod (value : Nat) : swapWord (value % 2 ^ 16) = swapWord value := by
  rw [← word_bytes, swapWord_bytes (Nat.mod_lt _ (by decide)) (Nat.mod_lt _ (by decide)), swapWord]
  omega

theorem swapWord_lt (value : Nat) : swapWord value < 2 ^ 16 := by
  simp only [swapWord]
  omega

theorem swapWord_swapWord (value : Nat) : swapWord (swapWord value) = value % 2 ^ 16 := by
  have bytes : swapWord value = value / 256 % 256 + 256 * (value % 256) := by
    simp only [swapWord]
    omega
  rw [bytes, swapWord_bytes (Nat.mod_lt _ (by decide)) (Nat.mod_lt _ (by decide)), word_bytes]

theorem swapWord_word (memory : Memory) (address : Nat) : swapWord (memory.word address) = memory.netWord address := by
  rw [Memory.word, swapWord_bytes (memory address).toNat_lt (memory (address + 1)).toNat_lt,
    Memory.netWord, Nat.add_comm]

theorem swapDword_words {low high : Nat} (bound : low < 2 ^ 16) :
    swapDword (low + 65536 * high) = swapWord high + 65536 * swapWord low := by
  have lowPart : (low + 65536 * high) % 2 ^ 16 = low := by omega
  have highPart : (low + 65536 * high) / 65536 = high := by omega
  rw [swapDword, ← swapWord_mod (low + 65536 * high), lowPart, highPart]
  omega

theorem swapDword_dword (memory : Memory) (address : Nat) :
    swapDword (memory.dword address) = memory.netDword address := by
  rw [Memory.dword, swapDword_words (memory.word_lt _), swapWord_word, swapWord_word, Memory.netDword]
  omega

theorem swapDword_swapDword (value : Nat) : swapDword (swapDword value) = value % 2 ^ 32 := by
  have words : swapDword value = swapWord (value / 65536) + 65536 * swapWord value := by
    simp only [swapDword]
    omega
  rw [words, swapDword_words (swapWord_lt _), swapWord_swapWord, swapWord_swapWord]
  omega

theorem netWord_setWord_swapWord (memory : Memory) (address value : Nat) :
    (memory.setWord address (swapWord value)).netWord address = value % 2 ^ 16 := by
  rw [← swapWord_word, Memory.word_setWord, swapWord_mod, swapWord_swapWord]

theorem netDword_setDword_swapDword (memory : Memory) (address value : Nat) :
    (memory.setDword address (swapDword value)).netDword address = value % 2 ^ 32 := by
  have low := swapWord_lt value
  have high := swapWord_lt (value / 65536)
  have fits : swapDword value % 2 ^ 32 = swapDword value := by
    apply Nat.mod_eq_of_lt
    simp only [swapDword]
    omega
  rw [← swapDword_dword, Memory.dword_setDword, fits, swapDword_swapDword]
