import Mathlib.Data.List.Range
import DisasVisor.Ata.BusMaster

/-!
The PRD table for a command of the VMM, `make_prd_entries` of `ata_core.c`: when it describes the buffer, in
regions that the bus master can take.
-/

namespace DisasVisor.Ata

open List

structure HcAtacmd where
  bufPhys : UInt64
  bufLen : Nat
  write : Bool
  isInt : bufLen < 2 ^ 31

structure PrdEntry where
  base : UInt32
  count : UInt16
  eot : Bool
  deriving DecidableEq

structure MadePrd where
  prd : List PrdEntry
  read : Nat

def HcAtacmd.replaced (cmd : HcAtacmd) : Bool :=
  cmd.bufPhys = 0 || cmd.bufPhys.toNat % 2 = 1 || cmd.bufLen % 2 = 1 || cmd.bufLen ≤ 1

def HcAtacmd.evenLen (cmd : HcAtacmd) : Nat :=
  if cmd.bufLen ≤ 1 then 2 else if cmd.bufLen % 2 = 1 then cmd.bufLen + 1 else cmd.bufLen

def HcAtacmd.transferPhys (cmd : HcAtacmd) (alloc2 : Nat → UInt64) : UInt64 :=
  if cmd.replaced then alloc2 cmd.evenLen else cmd.bufPhys

def makePrdEntries (cmd : HcAtacmd) (alloc2 : Nat → UInt64) : MadePrd :=
  let bufPhys := cmd.transferPhys alloc2
  let bufLen := if cmd.replaced then cmd.evenLen else cmd.bufLen
  let n := (bufLen - 1) / ataBmBufsize
  let base (i : Nat) : UInt32 := (bufPhys + UInt64.ofNat (ataBmBufsize * i)).toUInt32
  { prd := (List.range n).map (fun i => ⟨base i, 0, false⟩) ++
      [⟨base n, UInt16.ofNat (bufLen % ataBmBufsize), true⟩]
    read := if cmd.replaced ∧ cmd.write then bufLen else 0 }

def PrdEntry.region (entry : PrdEntry) : List Nat := List.range' entry.base.toNat (ataGet16bitCount entry.count)

structure MadePrd.Valid (made : MadePrd) (cmd : HcAtacmd) (bufPhys : Nat) : Prop where
  describes : made.prd.flatMap PrdEntry.region = List.range' bufPhys cmd.evenLen
  endOfTable : ∃ init last, made.prd = init ++ [last] ∧ last.eot = true ∧ ∀ entry ∈ init, entry.eot = false
  boundaries : ∀ entry ∈ made.prd, ∀ x ∈ entry.region, ∀ y ∈ entry.region, x / 65536 = y / 65536
  reads : made.read ≤ cmd.bufLen

variable {cmd : HcAtacmd} {alloc2 : Nat → UInt64}

theorem evenLen_bounds (cmd : HcAtacmd) : 2 ≤ cmd.evenLen ∧ cmd.evenLen < 2 ^ 32 := by
  have isInt := cmd.isInt
  unfold HcAtacmd.evenLen
  split
  · omega
  · split
    · omega
    · omega

theorem evenLen_kept (kept : ¬cmd.replaced = true) : cmd.evenLen = cmd.bufLen := by
  simp only [HcAtacmd.replaced, Bool.or_eq_true, decide_eq_true_eq, not_or] at kept
  unfold HcAtacmd.evenLen
  rw [if_neg kept.2, if_neg kept.1.2]

theorem makePrdEntries_eq : makePrdEntries cmd alloc2 =
    { prd := (List.range ((cmd.evenLen - 1) / 65536)).map (fun i =>
        ⟨(cmd.transferPhys alloc2 + UInt64.ofNat (65536 * i)).toUInt32, 0, false⟩) ++
        [⟨(cmd.transferPhys alloc2 + UInt64.ofNat (65536 * ((cmd.evenLen - 1) / 65536))).toUInt32,
          UInt16.ofNat (cmd.evenLen % 65536), true⟩]
      read := if cmd.replaced ∧ cmd.write then cmd.evenLen else 0 } := by
  unfold makePrdEntries
  by_cases replaced : cmd.replaced = true
  · simp only [replaced, if_true]
    rfl
  · simp only [replaced, evenLen_kept replaced]
    rfl

theorem last_count {len : Nat} (some' : 2 ≤ len) :
    ataGet16bitCount (UInt16.ofNat (len % 65536)) = len - 65536 * ((len - 1) / 65536) := by
  unfold ataGet16bitCount
  have small : (UInt16.ofNat (len % 65536)).toNat = len % 65536 := by
    rw [UInt16.toNat_ofNat']
    omega
  split
  · rename_i zero
    rw [zero] at small
    have : (0 : UInt16).toNat = 0 := rfl
    omega
  · rename_i nonzero
    have : len % 65536 ≠ 0 := by
      intro zero
      exact nonzero (UInt16.toNat_inj.mp (small.trans zero))
    rw [small]
    omega

theorem toNat_base {phys : UInt64} {i : Nat} :
    ((phys + UInt64.ofNat (65536 * i)).toUInt32).toNat = (phys.toNat + 65536 * i) % 2 ^ 32 := by
  rw [UInt64.toNat_toUInt32, UInt64.toNat_add, UInt64.toNat_ofNat']
  omega

theorem flatMap_full (b n : Nat) :
    (List.range n).flatMap (fun i => List.range' (b + 65536 * i) 65536) = List.range' b (65536 * n) := by
  induction n with
  | zero => rfl
  | succ n ih => rw [range_succ, flatMap_append, ih, flatMap_singleton, Nat.mul_succ, ← List.range'_append_1]

theorem region_crosses {base count : Nat} :
    (∀ x ∈ List.range' base count, ∀ y ∈ List.range' base count, x / 65536 = y / 65536) ↔
      base % 65536 + count ≤ 65536 ∨ count = 0 := by
  constructor
  · intro together
    by_contra crosses
    have same := together base (by rw [mem_range'_1]; omega) (base + (count - 1)) (by
      rw [mem_range'_1]
      omega)
    omega
  · intro short x first y second
    rw [mem_range'_1] at first second
    omega

theorem region_block {phys : UInt64} {i : Nat} :
    PrdEntry.region ⟨(phys + UInt64.ofNat (65536 * i)).toUInt32, 0, false⟩ =
      List.range' ((phys.toNat + 65536 * i) % 2 ^ 32) 65536 := by
  unfold PrdEntry.region
  rw [toNat_base]
  rfl

theorem region_rest {phys : UInt64} {len : Nat} (some' : 2 ≤ len) :
    PrdEntry.region ⟨(phys + UInt64.ofNat (65536 * ((len - 1) / 65536))).toUInt32,
      UInt16.ofNat (len % 65536), true⟩ =
      List.range' ((phys.toNat + 65536 * ((len - 1) / 65536)) % 2 ^ 32) (len - 65536 * ((len - 1) / 65536)) := by
  unfold PrdEntry.region
  rw [toNat_base, last_count some']

theorem MadePrd.Valid.below {made : MadePrd} {phys : Nat} (valid : made.Valid cmd phys) :
    phys + cmd.evenLen ≤ 2 ^ 32 := by
  have some' := (evenLen_bounds cmd).1
  have last : phys + (cmd.evenLen - 1) ∈ made.prd.flatMap PrdEntry.region := by
    rw [valid.describes, mem_range'_1]
    omega
  obtain ⟨entry, member, inside⟩ := mem_flatMap.mp last
  have within := mem_range'_1.mp inside
  have same := valid.boundaries entry member _ inside entry.base.toNat (by
    unfold PrdEntry.region
    rw [mem_range'_1]
    omega)
  have small := entry.base.toNat_lt
  omega

/-- The table is valid exactly when the buffer that is transferred lies below 4 GiB, is in one block of
64 KiB or starts one, and no length is rounded up for a write. -/
theorem makePrdEntries_valid_iff (cmd : HcAtacmd) (alloc2 : Nat → UInt64) :
    (makePrdEntries cmd alloc2).Valid cmd (cmd.transferPhys alloc2).toNat ↔
      (cmd.transferPhys alloc2).toNat + cmd.evenLen ≤ 2 ^ 32 ∧
        ((cmd.transferPhys alloc2).toNat % 65536 = 0 ∨
          (cmd.transferPhys alloc2).toNat % 65536 + cmd.evenLen ≤ 65536) ∧
        (cmd.write = true → cmd.bufLen ≠ 0 ∧ cmd.bufLen % 2 = 0) := by
  obtain ⟨some', small⟩ := evenLen_bounds cmd
  have reads : (makePrdEntries cmd alloc2).read ≤ cmd.bufLen ↔
      (cmd.write = true → cmd.bufLen ≠ 0 ∧ cmd.bufLen % 2 = 0) := by
    rw [makePrdEntries_eq]
    by_cases write : cmd.write = true
    · by_cases replaced : cmd.replaced = true
      · simp only [replaced, write, and_self, if_true, forall_const]
        unfold HcAtacmd.evenLen
        split
        · omega
        · split
          · omega
          · omega
      · have even := replaced
        simp only [HcAtacmd.replaced, Bool.or_eq_true, decide_eq_true_eq, not_or] at even
        simp only [replaced, Bool.false_eq_true, false_and, if_false, Nat.zero_le, true_iff]
        omega
    · simp [write]
  constructor
  · intro valid
    refine ⟨valid.below, ?_, reads.mp valid.reads⟩
    have together := valid.boundaries
    rw [makePrdEntries_eq] at together
    by_cases one : (cmd.evenLen - 1) / 65536 = 0
    · have last := together _ (mem_append_right _ mem_cons_self)
      rw [region_rest some', one, region_crosses] at last
      omega
    · have first := together _ (mem_append_left _ (mem_map.mpr
        ⟨0, mem_range.mpr (Nat.pos_of_ne_zero one), rfl⟩))
      rw [region_block, region_crosses] at first
      omega
  · rintro ⟨below, aligned, even⟩
    have place : ∀ i ≤ (cmd.evenLen - 1) / 65536,
        ((cmd.transferPhys alloc2).toNat + 65536 * i) % 2 ^ 32 = (cmd.transferPhys alloc2).toNat + 65536 * i := by
      intro i least
      omega
    refine ⟨?_, ?_, ?_, reads.mpr even⟩
    · rw [makePrdEntries_eq, flatMap_append, flatMap_singleton, flatMap_map,
        region_rest some', place _ (Nat.le_refl _)]
      have blocks : ∀ i ∈ List.range ((cmd.evenLen - 1) / 65536),
          PrdEntry.region ⟨(cmd.transferPhys alloc2 + UInt64.ofNat (65536 * i)).toUInt32, 0, false⟩ =
            List.range' ((cmd.transferPhys alloc2).toNat + 65536 * i) 65536 := by
        intro i member
        rw [region_block, place i (Nat.le_of_lt (mem_range.mp member))]
      rw [flatMap_congr blocks, flatMap_full, List.range'_append_1]
      congr 1
      omega
    · refine ⟨_, _, congrArg MadePrd.prd makePrdEntries_eq, rfl, ?_⟩
      intro entry member
      obtain ⟨i, -, rfl⟩ := mem_map.mp member
      rfl
    · rw [makePrdEntries_eq]
      intro entry member
      rcases mem_append.mp member with block | last
      · obtain ⟨i, inside, rfl⟩ := mem_map.mp block
        have less := mem_range.mp inside
        rw [region_block, place i (Nat.le_of_lt less), region_crosses]
        omega
      · rw [mem_singleton.mp last, region_rest some', place _ (Nat.le_refl _), region_crosses]
        omega

/-- A buffer in the middle of 64 KiB that reaches into the next. -/
theorem makePrdEntries_crosses :
    ¬(makePrdEntries ⟨0xF000, 8192, false, by decide⟩ fun _ => 0).Valid ⟨0xF000, 8192, false, by decide⟩ 0xF000 := by
  intro valid
  have crosses := valid.boundaries ⟨0xF000, 8192, true⟩ (by decide) 0xF000 (by
    rw [PrdEntry.region, mem_range'_1]
    decide) 0x10000 (by
    rw [PrdEntry.region, mem_range'_1]
    decide)
  exact absurd crosses (by decide)

end DisasVisor.Ata
