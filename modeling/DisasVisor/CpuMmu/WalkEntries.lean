import DisasVisor.CpuMmu.PageWalk

/-!
Entries of page tables: the masks of `core/cpu_mmu.c` and of the cursor are those of the walk, and
what is made of an entry of a large page for the levels below it.
-/

namespace DisasVisor.CpuMmu

open Mm
open BitVec (eq_of_getLsbD_eq getLsbD_and getLsbD_xor getLsbD_or getLsbD_shiftLeft getLsbD_ushiftRight)

variable {e virt : Word} {nbits low high i : Nat}

theorem and_bit_ne_zero {c : Word} {k : Nat} (bound : k < 64) (isBit : c = BitVec.twoPow 64 k) :
    e &&& c ≠ 0 ↔ e.getLsbD k = true := by
  have nonzero : BitVec.twoPow 64 k ≠ 0 := by
    intro zero
    have bit := congrArg (fun w => BitVec.getLsbD w k) zero
    simp [BitVec.getLsbD_twoPow, bound] at bit
  rw [isBit, BitVec.and_twoPow]
  cases e.getLsbD k
  · simp
  · simpa using nonzero

theorem and_bit_eq_zero {c : Word} {k : Nat} (bound : k < 64) (isBit : c = BitVec.twoPow 64 k) :
    e &&& c = 0 ↔ ¬e.getLsbD k = true := by
  rw [← and_bit_ne_zero bound isBit, ne_eq, not_not]

theorem bits_getLsbD (order : low ≤ high) (bound : high < 64) :
    (bits low high).getLsbD i = decide (low ≤ i ∧ i ≤ high) := by
  have split : 2 ^ (high + 1) - 2 ^ low = (2 ^ (high + 1 - low) - 1) * 2 ^ low := by
    rw [Nat.sub_mul, ← Nat.pow_add, Nat.sub_add_cancel (by omega), Nat.one_mul]
  rw [bits, BitVec.getLsbD_ofNat, split, Nat.testBit_mul_two_pow, Nat.testBit_two_pow_sub_one]
  by_cases inside : low ≤ i ∧ i ≤ high
  · simp [inside]
    omega
  · simp only [inside, decide_false]
    by_cases above : low ≤ i
    · simp
      omega
    · simp [above]

theorem and_eq_zero_iff {m : Word} : e &&& m = 0 ↔ ∀ i < 64, m.getLsbD i = true → e.getLsbD i = false := by
  constructor
  · intro zero i bound inMask
    have bit := congrArg (fun w => BitVec.getLsbD w i) zero
    simpa [inMask] using bit
  · intro apart
    apply eq_of_getLsbD_eq
    intro i bound
    cases inMask : m.getLsbD i with
    | false => simp [inMask]
    | true => simp [apart i bound inMask]

structure Suits (d : GetPteData) (p : Paging) (a : Access) : Prop where
  pae : d.pae = decide (p.format.levels ≠ 2)
  pse : d.pse = decide (p.format ≠ .bits32 false)
  wp : d.wp = p.wp
  nxe : d.nxe = p.nxe
  write : d.write = a.write
  user : d.user = a.user
  exec : d.exec = a.exec

def reservedMask (nbits : Nat) (nxe : Bool) (levels row : Nat) : Word :=
  reservedBitTable nxe levels row ^^^ (getPteAddrMask nbits ^^^ pteAddrMask64)

theorem getPteAddrMask_eq (low : 32 ≤ nbits) (high : nbits ≤ 48) : getPteAddrMask nbits = bits 12 (nbits - 1) := by
  interval_cases nbits <;> decide

def reservedRow (levels level : Nat) (e : Word) : Nat :=
  if level = 2 ∧ e.getLsbD 7 then 0 else if level = 3 ∧ levels = 4 ∧ e.getLsbD 7 then 5 else level

variable {d : GetPteData} {level : Nat} {f : Format}

theorem testPmapEntryReservedBit_eq {levels : Nat} (checked : d.pae = true ∨ d.pse = true)
    (some' : reservedMask nbits d.nxe levels (reservedRow levels level e) ≠ 0xFFFFFFFFFFFFFFFF) :
    testPmapEntryReservedBit (getPteAddrMask nbits) d e level levels = some
      (decide (e &&& reservedMask nbits d.nxe levels (reservedRow levels level e) ≠ 0)) := by
  have ps : e &&& pdePsBit ≠ 0 ↔ e.getLsbD 7 = true := and_bit_ne_zero (by omega) rfl
  have row : (if (if level = 2 ∧ e.getLsbD 7 = true then 0 else level) = 3 ∧ levels = 4 ∧
      e.getLsbD 7 = true then 5 else if level = 2 ∧ e.getLsbD 7 = true then 0 else level) =
        reservedRow levels level e := by
    unfold reservedRow
    by_cases large : level = 2 ∧ e.getLsbD 7 = true
    · simp only [if_pos large]
      rfl
    · simp only [if_neg large]
  have notPlain : ¬(¬d.pae = true ∧ ¬d.pse = true) := by
    rcases checked with isPae | isPse
    · simp [isPae]
    · simp [isPse]
  unfold testPmapEntryReservedBit
  rw [if_neg notPlain]
  simp only [ps, row]
  exact if_neg some'

theorem reservedMask_eq (lowBits : 32 ≤ nbits) (highBits : nbits ≤ 48) (nxe : Bool) (positive : 0 < level)
    (le : level ≤ f.levels) (wide : f.levels ≠ 2) :
    reservedMask nbits nxe f.levels (reservedRow f.levels level e) = f.reserved nbits nxe level e ∧
      f.reserved nbits nxe level e ≠ 0xFFFFFFFFFFFFFFFF := by
  obtain ⟨n, isBits, few⟩ : ∃ n, nbits = 32 + n ∧ n < 17 := ⟨nbits - 32, by omega, by omega⟩
  subst isBits
  cases f with
  | bits32 pse => exact absurd rfl wide
  | pae =>
    simp only [Format.levels, reservedRow, Format.reserved] at le ⊢
    generalize e.getLsbD 7 = large
    revert n nxe large
    interval_cases level
    · decide +kernel
    · decide +kernel
    · decide +kernel
  | long =>
    simp only [Format.levels, reservedRow, Format.reserved] at le ⊢
    generalize e.getLsbD 7 = large
    revert n nxe large
    interval_cases level
    · decide +kernel
    · decide +kernel
    · decide +kernel
    · decide +kernel

theorem addrMask_low (lowBits : 32 ≤ nbits) (highBits : nbits ≤ 48) :
    (getPteAddrMask nbits ^^^ pteAddrMask64) &&& bits 0 (min 36 nbits - 1) = 0 := by
  interval_cases nbits <;> decide +kernel

theorem addrMask_getLsbD (lowBits : 32 ≤ nbits) (highBits : nbits ≤ 48)
    (inMask : (getPteAddrMask nbits ^^^ pteAddrMask64).getLsbD i = true) : min 36 nbits ≤ i := by
  by_contra below
  have isLow : (bits 0 (min 36 nbits - 1)).getLsbD i = true := by
    rw [bits_getLsbD (by omega) (by omega)]
    exact decide_eq_true ⟨by omega, by omega⟩
  have clear := and_eq_zero_iff.mp (addrMask_low lowBits highBits) i (by omega) isLow
  rw [inMask] at clear
  cases clear

theorem high_bit (small : e < 0x100000000) (above : 32 ≤ i) : e.getLsbD i = false :=
  Nat.testBit_lt_two_pow (Nat.lt_of_lt_of_le (show e.toNat < 2 ^ 32 from small) (Nat.pow_le_pow_right (by omega) above))

theorem and_addrMask {m : Word} (lowBits : 32 ≤ nbits) (highBits : nbits ≤ 48)
    (small : ∀ i, min 36 nbits ≤ i → e.getLsbD i = false) :
    e &&& (m ^^^ (getPteAddrMask nbits ^^^ pteAddrMask64)) = e &&& m := by
  apply eq_of_getLsbD_eq
  intro i bound
  simp only [getLsbD_and, getLsbD_xor]
  cases inMask : (getPteAddrMask nbits).getLsbD i ^^ pteAddrMask64.getLsbD i with
  | false => rw [Bool.xor_false]
  | true =>
    have high := addrMask_getLsbD lowBits highBits (by rw [getLsbD_xor]; exact inMask)
    rw [small i high, Bool.false_and, Bool.false_and]

theorem reservedMask_small {row : Nat} (lowBits : 32 ≤ nbits) (highBits : nbits ≤ 48) (nxe : Bool)
    (bound : row ≤ 2) : reservedMask nbits nxe 2 row ≠ 0xFFFFFFFFFFFFFFFF := by
  obtain ⟨n, isBits, few⟩ : ∃ n, nbits = 32 + n ∧ n < 17 := ⟨nbits - 32, by omega, by omega⟩
  subst isBits
  revert n nxe
  interval_cases row
  · decide +kernel
  · decide +kernel
  · decide +kernel

theorem reservedTest {p : Paging} {a : Access} (suits : Suits d p a) (lowBits : 32 ≤ p.nbits)
    (highBits : p.nbits ≤ 48) (positive : 0 < level) (le : level ≤ p.format.levels)
    (small : p.format.levels = 2 → e < 0x100000000) :
    testPmapEntryReservedBit (getPteAddrMask p.nbits) d e level p.format.levels =
      some (decide (e &&& p.format.reserved p.nbits p.nxe level e ≠ 0)) := by
  by_cases wide : p.format.levels = 2
  · have high := fun i above => @high_bit e i (small wide) above
    have isPae : d.pae = false := by simp [suits.pae, wide]
    rw [wide] at le
    cases isFormat : p.format with
    | pae => exact absurd (isFormat ▸ wide) (by decide)
    | long => exact absurd (isFormat ▸ wide) (by decide)
    | bits32 pse =>
      cases pse with
      | false =>
        have isPse : d.pse = false := by simp [suits.pse, isFormat]
        simp [testPmapEntryReservedBit, isPae, isPse, Format.reserved]
      | true =>
        have isPse : d.pse = true := by simp [suits.pse, isFormat]
        have rowBound : reservedRow 2 level e ≤ 2 := by
          unfold reservedRow
          split
          · omega
          · split <;> omega
        rw [show (Format.bits32 true).levels = 2 from rfl, testPmapEntryReservedBit_eq (.inr isPse)
          (reservedMask_small lowBits highBits d.nxe rowBound), reservedMask,
          and_addrMask lowBits highBits fun i above => high i (by omega)]
        have table : reservedBitTable d.nxe 2 (reservedRow 2 level e) =
            (Format.bits32 true).reserved p.nbits p.nxe level e := by
          unfold reservedRow
          simp only [Format.reserved]
          generalize e.getLsbD 7 = large
          interval_cases level
          · cases d.nxe <;> cases large <;> decide
          · cases d.nxe <;> cases large <;> decide
        rw [table]
  · have isPae : d.pae = true := by simp [suits.pae, wide]
    obtain ⟨mask, notAll⟩ := @reservedMask_eq e p.nbits level p.format lowBits highBits d.nxe positive le wide
    rw [testPmapEntryReservedBit_eq (.inl isPae) (mask ▸ notAll), mask, suits.nxe]

def SameFlags (e e' : Word) : Prop := ∀ i, i < 7 ∨ i = 63 → e'.getLsbD i = e.getLsbD i

theorem SameFlags.trans {e' e'' : Word} (same : SameFlags e e') (next : SameFlags e' e'') : SameFlags e e'' :=
  fun i flag => (next i flag).trans (same i flag)

theorem sameFlags_pdeOfPdpe : SameFlags e (pdeOfPdpe e virt) := by
  intro i flag
  rw [pdeOfPdpe_bit e virt i (by omega), if_neg (by omega)]

theorem sameFlags_handlePdePsBit {levels : Nat} (small : levels = 2 → e < 0x100000000) :
    SameFlags e (handlePdePsBit levels e virt) := by
  intro i flag
  by_cases wide : levels = 2
  · subst wide
    rw [handlePdePsBit_bit_4m e virt (small rfl) i (by omega), if_neg (by omega), if_neg (by omega), if_neg (by omega)]
  · rw [handlePdePsBit_bit levels wide e virt i (by omega), if_neg (by omega), if_neg (by omega)]

theorem ofEntry_sameFlags {e' : Word} {nxe : Bool} (same : SameFlags e e') :
    Rights.ofEntry nxe e' = Rights.ofEntry nxe e := by
  unfold Rights.ofEntry
  rw [same 1 (by omega), same 2 (by omega), same 63 (by omega)]

theorem reserved_pdeOfPdpe (lowBits : 32 ≤ nbits) (highBits : nbits ≤ 48) {nxe : Bool}
    (large : e.getLsbD 7 = true) (fine : e &&& Format.long.reserved nbits nxe 3 e = 0) :
    pdeOfPdpe e virt &&& Format.long.reserved nbits nxe 2 (pdeOfPdpe e virt) = 0 := by
  have large' : (pdeOfPdpe e virt).getLsbD 7 = true := by
    rw [pdeOfPdpe_bit e virt 7 (by omega), if_neg (by omega), large]
  rw [and_eq_zero_iff] at fine ⊢
  intro i bound inMask
  have inMask' : (Format.long.reserved nbits nxe 3 e).getLsbD i = true ∧ ¬(21 ≤ i ∧ i < 30) := by
    simp only [Format.reserved, large', large, if_true, getLsbD_or, Bool.or_eq_true,
      bits_getLsbD (show nbits ≤ 51 by omega) (show 51 < 64 by omega),
      bits_getLsbD (show 13 ≤ 20 by omega) (show 20 < 64 by omega),
      bits_getLsbD (show 13 ≤ 29 by omega) (show 29 < 64 by omega), decide_eq_true_eq] at inMask ⊢
    rcases inMask with (address | top) | low
    · exact ⟨.inl (.inl address), by omega⟩
    · refine ⟨.inl (.inr top), ?_⟩
      cases nxe with
      | true => simp at top
      | false =>
        have isTop : 63 ≤ i ∧ i ≤ 63 := by simpa [bits_getLsbD (Nat.le_refl 63) (show 63 < 64 by omega)] using top
        omega
    · exact ⟨.inr (by omega), by omega⟩
  rw [pdeOfPdpe_bit e virt i bound, if_neg inMask'.2]
  exact fine i bound inMask'.1

theorem reserved_handlePdePsBit (wide : f.levels ≠ 2) (lowBits : 32 ≤ nbits) (highBits : nbits ≤ 48) {nxe : Bool}
    (fine : e &&& f.reserved nbits nxe 2 e = 0) :
    handlePdePsBit f.levels e virt &&& f.reserved nbits nxe 1 (handlePdePsBit f.levels e virt) = 0 := by
  rw [and_eq_zero_iff] at fine ⊢
  intro i bound inMask
  have inMask' : (f.reserved nbits nxe 2 e).getLsbD i = true ∧ 21 ≤ i := by
    cases f with
    | bits32 pse => exact absurd rfl wide
    | pae =>
      have one : (1 : Nat) ≠ 3 := by omega
      have two : (2 : Nat) ≠ 3 := by omega
      have order : nbits ≤ if nxe then 62 else 63 := by split <;> omega
      have top : (if nxe then 62 else 63) < 64 := by split <;> omega
      simp only [Format.reserved, one, two, if_false, false_and, getLsbD_or, Bool.or_eq_true,
        bits_getLsbD order top, decide_eq_true_eq] at inMask ⊢
      rcases inMask with address | none'
      · exact ⟨.inl address, by omega⟩
      · simp at none'
    | long =>
      simp only [Format.reserved, getLsbD_or, Bool.or_eq_true,
        bits_getLsbD (show nbits ≤ 51 by omega) (show 51 < 64 by omega),
        decide_eq_true_eq] at inMask ⊢
      rcases inMask with (address | top) | none'
      · exact ⟨.inl (.inl address), by omega⟩
      · refine ⟨.inl (.inr top), ?_⟩
        cases nxe with
        | true => simp at top
        | false =>
          have isTop : 63 ≤ i ∧ i ≤ 63 := by simpa [bits_getLsbD (Nat.le_refl 63) (show 63 < 64 by omega)] using top
          omega
      · simp at none'
  rw [handlePdePsBit_bit f.levels wide e virt i bound, if_neg (by omega), if_neg (by omega)]
  exact fine i bound inMask'.1

theorem reservedTest_4m (lowBits : 32 ≤ nbits) (highBits : nbits ≤ 48) (isPse : d.pse = true)
    (small : e < 0x100000000) (near : ∀ i, min 36 nbits ≤ i → i < 40 → e.getLsbD (i - 19) = false) :
    testPmapEntryReservedBit (getPteAddrMask nbits) d (handlePdePsBit 2 e virt) 1 2 = some false := by
  have row : reservedRow 2 1 (handlePdePsBit 2 e virt) = 1 := rfl
  have clear : ∀ i, min 36 nbits ≤ i → (handlePdePsBit 2 e virt).getLsbD i = false := by
    intro i above
    by_cases bound : i < 64
    · rw [handlePdePsBit_bit_4m e virt small i bound, if_neg (by omega), if_neg (by omega)]
      split
      · exact near i above (by omega)
      · exact high_bit small (by omega)
    · exact BitVec.getLsbD_of_ge _ _ (by omega)
  have notAll := reservedMask_small lowBits highBits d.nxe (show 1 ≤ 2 by omega)
  rw [← row] at notAll
  rw [testPmapEntryReservedBit_eq (.inr isPse) notAll, row, reservedMask, and_addrMask lowBits highBits clear]
  simp [reservedBitTable]

theorem index_of_eight (v : Word) (shift : Nat) :
    (v >>> shift) &&& 0xFF8#64 = ((v >>> (shift + 3)) &&& bits 0 8) <<< 3 := by
  have mask : 0xFF8#64 = bits 0 8 <<< 3 := by decide
  rw [mask, BitVec.shiftLeft_and_distrib, BitVec.shiftRight_add]
  apply eq_of_getLsbD_eq
  intro i bound
  simp only [getLsbD_and, getLsbD_shiftLeft, getLsbD_ushiftRight, bound,
    decide_true, Bool.true_and]
  by_cases low : i < 3
  · simp [low]
  · rw [show 3 + (i - 3) = i by omega]
    simp [low]

theorem index_of_four (v : Word) (shift : Nat) :
    (v >>> shift) &&& 0xFFC#64 = ((v >>> (shift + 2)) &&& bits 0 9) <<< 2 := by
  have mask : 0xFFC#64 = bits 0 9 <<< 2 := by decide
  rw [mask, BitVec.shiftLeft_and_distrib, BitVec.shiftRight_add]
  apply eq_of_getLsbD_eq
  intro i bound
  simp only [getLsbD_and, getLsbD_shiftLeft, getLsbD_ushiftRight, bound,
    decide_true, Bool.true_and]
  by_cases low : i < 2
  · simp [low]
  · rw [show 2 + (i - 2) = i by omega]
    simp [low]

theorem index_top_pae (small : virt < 0x100000000) : (virt >>> 30) &&& bits 0 8 = (virt >>> 30) &&& bits 0 1 := by
  apply eq_of_getLsbD_eq
  intro i bound
  simp only [getLsbD_and, getLsbD_ushiftRight,
    bits_getLsbD (show 0 ≤ 8 by omega) (show 8 < 64 by omega),
    bits_getLsbD (show 0 ≤ 1 by omega) (show 1 < 64 by omega)]
  by_cases low : i ≤ 1
  · simp [low, show i ≤ 8 by omega]
  · rw [high_bit small (by omega), Bool.false_and, Bool.false_and]

theorem pmapEntryaddr_walk (positive : 0 < level) (le : level ≤ f.levels) (linear : f = .pae → virt < 0x100000000) :
    pmapEntryaddr f.levels (level - 1) e virt = f.entryAddress level
      (if f = .pae ∧ level = 3 then e &&& bits 5 31 else e &&& bits 12 47) virt := by
  have page : (0x0000FFFFFFFFF000 : Word) = bits 12 47 := by decide
  have line : (0xFFFFFFE0 : Word) = bits 5 31 := by decide
  unfold pmapEntryaddr Format.entryAddress Format.index
  rw [page, line]
  cases f with
  | bits32 pse =>
    have shift : 10 + 10 * (level - 1) + 2 = 10 * (level - 1) + 12 := by omega
    simp [Format.levels, index_of_four, shift]
  | pae =>
    have shift : 9 + 9 * (level - 1) + 3 = 9 * (level - 1) + 12 := by omega
    by_cases top : level = 3
    · subst top
      simp [Format.levels, index_of_eight, index_top_pae (linear rfl)]
    · have lower : ¬level - 1 = 2 := by omega
      simp [Format.levels, index_of_eight, shift, top, lower]
  | long =>
    have shift : 9 + 9 * (level - 1) + 3 = 9 * (level - 1) + 12 := by omega
    simp [Format.levels, index_of_eight, shift]

theorem root_walk {cr3 : Word} (m : Pmap) (small : f.levels = 2 → cr3 < 0x100000000) :
    (if f = .pae ∧ f.levels = 3 then (pmapOpenGuest m cr3 f.levels).entry f.levels &&& bits 5 31
      else (pmapOpenGuest m cr3 f.levels).entry f.levels &&& bits 12 47) = f.root cr3 := by
  apply eq_of_getLsbD_eq
  intro i bound
  cases f with
  | bits32 pse =>
    have high := fun above => @high_bit cr3 i (small rfl) above
    simp only [pmapOpenGuest, Format.levels, Format.root, Function.update_self]
    interval_cases i <;> simp_all [bits, cr3PwtBit, cr3PcdBit, pdePBit]
  | pae =>
    simp only [pmapOpenGuest, Format.levels, Format.root, Function.update_self]
    interval_cases i <;> simp [bits, cr3PwtBit, cr3PcdBit, pdePBit]
  | long =>
    simp only [pmapOpenGuest, Format.levels, Format.root, Function.update_self]
    interval_cases i <;> simp [bits, cr3PwtBit, cr3PcdBit, pdePBit]

def SameButUse (e e' : Word) : Prop := ∀ i, i ≠ 5 → i ≠ 6 → e'.getLsbD i = e.getLsbD i

variable {e' : Word}

theorem sameButUse_or (f : Format) (write : Bool) (level : Nat) (k : Word) :
    SameButUse e (e ||| f.usedBits write level k) := by
  intro i notA notD
  rw [getLsbD_or]
  unfold Format.usedBits
  split
  · simp
  · split
    · rw [bits_getLsbD (by omega) (by omega), decide_eq_false (by omega), Bool.or_false]
    · rw [bits_getLsbD (by omega) (by omega), decide_eq_false (by omega), Bool.or_false]

section

variable (lowBits : 32 ≤ nbits) (highBits : nbits ≤ 48) (same : SameButUse e e')
include lowBits highBits same

theorem frame_page (f : Format) : e' &&& getPteAddrMask nbits = f.frame nbits 1 e virt := by
  have isFrame : f.frame nbits 1 e virt = e &&& bits 12 (nbits - 1) := by cases f <;> rfl
  rw [isFrame, getPteAddrMask_eq lowBits highBits]
  apply eq_of_getLsbD_eq
  intro i bound
  rw [getLsbD_and, getLsbD_and, bits_getLsbD (by omega) (by omega)]
  by_cases inside : 12 ≤ i ∧ i ≤ nbits - 1
  · rw [same i (by omega) (by omega)]
  · simp only [inside, decide_false, Bool.and_false]

omit same in
theorem frame_bits {value : Word} {k : Nat} (large : 12 < k) (less : k ≤ nbits - 1)
    (low : ∀ i, 12 ≤ i → i < k → value.getLsbD i = virt.getLsbD i)
    (high : ∀ i, k ≤ i → i ≤ nbits - 1 → value.getLsbD i = e.getLsbD i) :
    value &&& getPteAddrMask nbits = (e &&& bits k (nbits - 1)) ||| (virt &&& bits 12 (k - 1)) := by
  rw [getPteAddrMask_eq lowBits highBits]
  apply eq_of_getLsbD_eq
  intro i bound
  simp only [getLsbD_and, getLsbD_or, bits_getLsbD (show 12 ≤ nbits - 1 by omega) (show nbits - 1 < 64 by omega),
    bits_getLsbD less (show nbits - 1 < 64 by omega), bits_getLsbD (show 12 ≤ k - 1 by omega) (show k - 1 < 64 by omega)]
  by_cases inside : 12 ≤ i ∧ i ≤ nbits - 1
  · by_cases below : i < k
    · simp [low i inside.1 below, inside, show ¬k ≤ i by omega, show i ≤ k - 1 by omega]
    · simp [high i (by omega) inside.2, inside, show k ≤ i by omega, show ¬i ≤ k - 1 by omega]
  · simp [inside, show ¬(k ≤ i ∧ i ≤ nbits - 1) by omega, show ¬(12 ≤ i ∧ i ≤ k - 1) by omega]

theorem frame_2m (wide : f.levels ≠ 2) :
    handlePdePsBit f.levels e' virt &&& getPteAddrMask nbits = f.frame nbits 2 e virt := by
  have isFrame : f.frame nbits 2 e virt = (e &&& bits 21 (nbits - 1)) ||| (virt &&& bits 12 20) := by
    cases f with
    | bits32 pse => exact absurd rfl wide
    | pae => rfl
    | long => rfl
  rw [isFrame]
  refine frame_bits (k := 21) lowBits highBits (by omega) (by omega) (fun i above below => ?_)
    fun i above below => ?_
  · rw [handlePdePsBit_bit f.levels wide e' virt i (by omega), if_neg (by omega), if_pos (by omega)]
  · rw [handlePdePsBit_bit f.levels wide e' virt i (by omega), if_neg (by omega), if_neg (by omega),
      same i (by omega) (by omega)]

theorem frame_1g : handlePdePsBit 4 (pdeOfPdpe e' virt) virt &&& getPteAddrMask nbits =
    Format.long.frame nbits 3 e virt := by
  refine frame_bits (k := 30) lowBits highBits (by omega) (by omega) (fun i above below => ?_)
    fun i above below => ?_
  · rw [handlePdePsBit_bit 4 (by omega) (pdeOfPdpe e' virt) virt i (by omega), if_neg (by omega),
      pdeOfPdpe_bit e' virt i (by omega)]
    by_cases lower : i < 21
    · rw [if_pos (by omega)]
    · rw [if_neg (by omega), if_pos (by omega)]
  · rw [handlePdePsBit_bit 4 (by omega) (pdeOfPdpe e' virt) virt i (by omega), if_neg (by omega),
      if_neg (by omega), pdeOfPdpe_bit e' virt i (by omega), if_neg (by omega), same i (by omega) (by omega)]

omit highBits in
theorem frame_4m (highBits : nbits ≤ 48) (small' : e' < 0x100000000)
    (near : ∀ i, min 36 nbits ≤ i → i < 40 → e.getLsbD (i - 19) = false) (pse : Bool) :
    handlePdePsBit 2 e' virt &&& getPteAddrMask nbits = (Format.bits32 pse).frame nbits 2 e virt := by
  have isFrame : (Format.bits32 pse).frame nbits 2 e virt =
      (e &&& bits 22 31) ||| (((e >>> 13) &&& bits 0 7) <<< 32) ||| (virt &&& bits 12 21) := rfl
  rw [isFrame, getPteAddrMask_eq lowBits highBits]
  apply eq_of_getLsbD_eq
  intro i bound
  simp only [getLsbD_and, getLsbD_or, getLsbD_shiftLeft,
    getLsbD_ushiftRight, handlePdePsBit_bit_4m e' virt small' i bound,
    bits_getLsbD (show 12 ≤ nbits - 1 by omega) (show nbits - 1 < 64 by omega),
    bits_getLsbD (show 22 ≤ 31 by omega) (show 31 < 64 by omega),
    bits_getLsbD (show 0 ≤ 7 by omega) (show 7 < 64 by omega),
    bits_getLsbD (show 12 ≤ 21 by omega) (show 21 < 64 by omega)]
  by_cases low : 12 ≤ i ∧ i ≤ 21
  · rw [if_neg (by omega), if_pos (by omega), decide_eq_true (show 12 ≤ i ∧ i ≤ nbits - 1 by omega),
      decide_eq_false (show ¬(22 ≤ i ∧ i ≤ 31) by omega), decide_eq_true low]
    simp [show i < 32 by omega]
  · rw [decide_eq_false low]
    by_cases middle : 22 ≤ i ∧ i ≤ 31
    · rw [if_neg (by omega), if_neg (by omega), if_neg (by omega), same i (by omega) (by omega),
        decide_eq_true (show 12 ≤ i ∧ i ≤ nbits - 1 by omega), decide_eq_true middle]
      simp [show i < 32 by omega]
    · rw [decide_eq_false middle]
      by_cases upper : 32 ≤ i ∧ i < 40
      · have shifted : 13 + (i - 32) = i - 19 := by omega
        rw [if_neg (by omega), if_neg (by omega), if_pos upper, same (i - 19) (by omega) (by omega),
          shifted, decide_eq_true (show 0 ≤ i - 32 ∧ i - 32 ≤ 7 by omega)]
        by_cases inside : 12 ≤ i ∧ i ≤ nbits - 1
        · simp [inside, bound, show ¬i < 32 by omega]
        · simp [near i (by omega) upper.2]
      · by_cases beyond : 40 ≤ i
        · rw [if_neg (by omega), if_neg (by omega), if_neg upper, high_bit small' (by omega),
            decide_eq_false (show ¬(0 ≤ i - 32 ∧ i - 32 ≤ 7) by omega)]
          simp
        · rw [decide_eq_false (show ¬(12 ≤ i ∧ i ≤ nbits - 1) by omega)]
          simp [show i < 32 by omega]

end

end DisasVisor.CpuMmu
