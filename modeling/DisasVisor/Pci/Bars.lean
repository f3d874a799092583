import Mathlib.Data.List.Basic
import Mathlib.Algebra.Group.Nat.Defs

/-!
Which writes to the base address registers `pci_get_modifying_bar_info` of `drivers/pci_core.c` takes for a
move of the region.
-/

namespace DisasVisor.Pci

structure BarMasks where
  type : UInt8
  mask : ℕ → UInt32

inductive BarInfoType
  | mem
  | io
  deriving DecidableEq

structure BarInfo where
  type : BarInfoType
  base : ℕ
  len : ℕ
  deriving DecidableEq

def isType64 (mask : UInt32) : Bool := mask &&& 7 = 4

def address (low high : UInt32) : ℕ := low.toNat + 2 ^ 32 * high.toNat

namespace BarMasks

variable (dev : BarMasks)

def flag64 : ℕ → Bool
  | 0 => false
  | i + 1 => !flag64 i && isType64 (dev.mask i)

def valid (i : ℕ) : Bool := i < 6 && dev.type = 0 && !dev.flag64 i

def isMem (n : ℕ) : Bool := dev.mask n &&& 1 = 0

def barType (n : ℕ) : BarInfoType := if dev.isMem n then .mem else .io

def wide (n : ℕ) : Bool := dev.isMem n && (dev.mask n &&& 6 = 4) && n + 1 < 6

def addressMask (n : ℕ) : UInt32 := dev.mask n &&& if dev.isMem n then 0xFFFFFFF0 else 0x0000FFFC

def high (regs : ℕ → UInt32) (n : ℕ) : UInt32 := if dev.wide n then regs (n + 1) else 0

def base (regs : ℕ → UInt32) (n : ℕ) : ℕ := address (regs n &&& dev.addressMask n) (dev.high regs n)

def newbase (regs : ℕ → UInt32) (n i : ℕ) (data : UInt32) : ℕ :=
  if i = n then address (data &&& dev.addressMask n) (dev.high regs n)
  else if i = n + 1 then address (regs n &&& dev.addressMask n) data
  else dev.base regs n

def lowestBit (mask : UInt32) : ℕ := (mask &&& (~~~mask + 1)).toNat

/-- `pci_get_bar_info_internal`: the base before the write, and what it makes of the write. -/
def pciGetBarInfoInternal (regs : ℕ → UInt32) (n i : ℕ) (data : UInt32) : Option (ℕ × BarInfo) :=
  if !dev.valid n then none
  else if dev.addressMask n = 0 then none
  else
    let newbase := dev.newbase regs n i data
    if newbase = (dev.addressMask n).toNat ∨ 2 ^ 63 ≤ newbase then none
    else some (dev.base regs n, ⟨dev.barType n, newbase, lowestBit (dev.addressMask n)⟩)

def owner (i : ℕ) : ℕ :=
  if !dev.valid i ∧ 0 < i ∧ dev.valid (i - 1) ∧ isType64 (dev.mask (i - 1)) then i - 1 else i

/-- `pci_get_modifying_bar_info` of a device with these registers: the outer `none` is its panic. -/
def pciGetModifyingBarInfo (regs : ℕ → UInt32) (iosize offset : ℕ) (data : UInt32) : Option (Option (ℕ × BarInfo)) :=
  if 0x10 ≤ offset + iosize - 1 ∧ offset < 0x28 then
    if offset % 4 ≠ 0 ∨ iosize ≠ 4 ∨ offset < 0x10 then none
    else
      let n := dev.owner ((offset - 0x10) / 4)
      match dev.pciGetBarInfoInternal regs n ((offset - 0x10) / 4) data with
      | none => some none
      | some (base, info) => if base = info.base then some none else some (some (n, info))
  else some none

def written (regs : ℕ → UInt32) (i : ℕ) (data : UInt32) (j : ℕ) : UInt32 :=
  if j = i then
    if dev.valid i then (data ||| ~~~dev.addressMask i) &&& dev.mask i else data &&& dev.mask i
  else regs j

def size (n : ℕ) : ℕ :=
  if dev.addressMask n ≠ 0 then lowestBit (dev.addressMask n)
  else if dev.wide n then 2 ^ 32 * lowestBit (dev.mask (n + 1)) else 0

def expected (regs : ℕ → UInt32) (i : ℕ) (data : UInt32) : Option (ℕ × BarInfo) :=
  let n := dev.owner i
  let moved := dev.base (dev.written regs i data) n
  if !dev.valid n ∨ data = 0xFFFFFFFF ∨ moved = dev.base regs n then none
  else some (n, ⟨dev.barType n, moved, dev.size n⟩)

def Reports (regs : ℕ → UInt32) (i : ℕ) (data : UInt32) : Prop :=
  dev.pciGetModifyingBarInfo regs 4 (0x10 + 4 * i) data = some (dev.expected regs i data)

/-- A probe of the low half finds nothing in the high half, or the top bit there, or all ones in the low half
already. A move goes below `2 ^ 63`, not to the mask itself, and a high half has no bits outside its mask. -/
def Trackable (regs : ℕ → UInt32) (i : ℕ) (data : UInt32) : Prop :=
  let n := dev.owner i
  let mask := dev.addressMask n
  let newbase := dev.newbase regs n i data
  let moved := dev.base (dev.written regs i data) n
  if !dev.valid n then True
  else if data = 0xFFFFFFFF then
    i ≠ n ∨ mask = 0 ∨ dev.high regs n = 0 ∨ 2 ^ 31 ≤ (dev.high regs n).toNat ∨ regs n &&& mask = mask
  else if moved = dev.base regs n then mask = 0 ∨ newbase = mask.toNat ∨ 2 ^ 63 ≤ newbase ∨ newbase = moved
  else mask ≠ 0 ∧ newbase = moved ∧ moved ≠ mask.toNat ∧ moved < 2 ^ 63

def Each (p : (ℕ → UInt32) → ℕ → UInt32 → Prop) (regs : ℕ → UInt32) : List (Fin 6 × UInt32) → Prop
  | [] => True
  | (i, data) :: writes => p regs i data ∧ Each p (dev.written regs i data) writes

variable {dev} {regs : ℕ → UInt32} {n i : ℕ} {data : UInt32}

def Takes (dev : BarMasks) (regs : ℕ → UInt32) (n i : ℕ) (data : UInt32) : Prop :=
  dev.addressMask n ≠ 0 ∧ dev.newbase regs n i data ≠ (dev.addressMask n).toNat ∧
    dev.newbase regs n i data < 2 ^ 63 ∧ dev.base regs n ≠ dev.newbase regs n i data

instance : Decidable (Takes dev regs n i data) := inferInstanceAs (Decidable (_ ∧ _ ∧ _ ∧ _))

theorem pciGetModifyingBarInfo_eq (inside : i < 6) : dev.pciGetModifyingBarInfo regs 4 (0x10 + 4 * i) data =
    some (if dev.valid (dev.owner i) = true ∧ dev.Takes regs (dev.owner i) i data then
      some (dev.owner i, ⟨dev.barType (dev.owner i), dev.newbase regs (dev.owner i) i data,
        lowestBit (dev.addressMask (dev.owner i))⟩)
    else none) := by
  have register : (0x10 + 4 * i - 0x10) / 4 = i := by omega
  unfold pciGetModifyingBarInfo pciGetBarInfoInternal Takes
  rw [if_pos (by omega), if_neg (by omega), register]
  dsimp only
  cases valid : dev.valid (dev.owner i) with
  | false => simp
  | true =>
    by_cases zero : dev.addressMask (dev.owner i) = 0
    · simp [zero]
    · by_cases probe : dev.newbase regs (dev.owner i) i data = (dev.addressMask (dev.owner i)).toNat ∨
        2 ^ 63 ≤ dev.newbase regs (dev.owner i) i data
      · have untaken : ¬(dev.newbase regs (dev.owner i) i data ≠ (dev.addressMask (dev.owner i)).toNat ∧
            dev.newbase regs (dev.owner i) i data < 2 ^ 63 ∧
            dev.base regs (dev.owner i) ≠ dev.newbase regs (dev.owner i) i data) := by
          rintro ⟨other, bound, -⟩
          exact probe.elim other (Nat.not_le.mpr bound)
        rw [if_neg (by simp), if_neg zero, if_pos probe, if_neg (fun taken => untaken taken.2.2)]
      · obtain ⟨other, bound⟩ := not_or.mp probe
        rw [if_neg (by simp), if_neg zero, if_neg probe]
        by_cases same : dev.base regs (dev.owner i) = dev.newbase regs (dev.owner i) i data
        · rw [if_neg (fun taken => taken.2.2.2.2 same)]
          exact if_pos same
        · rw [if_pos ⟨rfl, zero, other, Nat.not_le.mp bound, same⟩]
          exact if_neg same

theorem owner_cases (inside : i < 6) (valid : dev.valid (dev.owner i) = true) :
    dev.owner i = i ∧ dev.valid i = true ∨
      i = dev.owner i + 1 ∧ dev.valid i = false ∧ dev.wide (dev.owner i) = true := by
  unfold owner at valid ⊢
  split_ifs with upper
  · obtain ⟨invalid, positive, -, type⟩ := upper
    refine .inr ⟨by omega, by simpa using invalid, ?_⟩
    unfold isType64 at type
    have same := of_decide_eq_true type
    have low : dev.mask (i - 1) &&& 1 = 0 := by
      rw [show (1 : UInt32) = 7 &&& 1 from rfl, ← UInt32.and_assoc, same]
      rfl
    have middle : dev.mask (i - 1) &&& 6 = 4 := by
      rw [show (6 : UInt32) = 7 &&& 6 from rfl, ← UInt32.and_assoc, same]
      rfl
    unfold wide isMem
    rw [low, middle]
    simpa using (by omega : i - 1 + 1 < 6)
  · rw [if_neg upper] at valid
    exact .inl ⟨rfl, valid⟩

theorem address_lt (low high : UInt32) : low.toNat < 2 ^ 32 ∧ address low high = low.toNat + 2 ^ 32 * high.toNat :=
  ⟨low.toNat_lt, rfl⟩

theorem takes_probe (inside : i < 6) (valid : dev.valid (dev.owner i) = true) :
    dev.Takes regs (dev.owner i) i 0xFFFFFFFF ↔
    ¬(i ≠ dev.owner i ∨ dev.addressMask (dev.owner i) = 0 ∨ dev.high regs (dev.owner i) = 0 ∨
      2 ^ 31 ≤ (dev.high regs (dev.owner i)).toNat ∨
      regs (dev.owner i) &&& dev.addressMask (dev.owner i) = dev.addressMask (dev.owner i)) := by
  unfold Takes
  rcases owner_cases inside valid with ⟨own, -⟩ | ⟨upper, -, -⟩
  · have ones : (0xFFFFFFFF : UInt32) &&& dev.addressMask i = dev.addressMask i := by
      rw [UInt32.and_comm]
      exact UInt32.and_neg_one
    rw [own]
    unfold newbase base
    rw [if_pos rfl, ones]
    have new := address_lt (dev.addressMask i) (dev.high regs i)
    have old := address_lt (regs i &&& dev.addressMask i) (dev.high regs i)
    rw [new.2, old.2, ← UInt32.toNat_inj (a := dev.high regs i), ← UInt32.toNat_inj (a := regs i &&& dev.addressMask i)]
    have zero := UInt32.toNat_zero
    rw [zero]
    constructor
    · rintro ⟨some', atMask, below, moved⟩ (other | none' | low | top | same)
      · exact other rfl
      · exact some' none'
      · omega
      · omega
      · omega
    · intro none'
      simp only [not_or] at none'
      exact ⟨none'.2.1, by omega, by omega, by omega⟩
  · have top : (0xFFFFFFFF : UInt32).toNat = 2 ^ 32 - 1 := rfl
    have different : i ≠ dev.owner i := by omega
    refine iff_of_false ?_ (not_not.mpr (.inl different))
    rintro ⟨-, -, below, -⟩
    unfold newbase at below
    rw [if_neg different, if_pos upper, (address_lt _ _).2, top] at below
    omega

theorem reports_iff (inside : i < 6) : dev.Reports regs i data ↔ dev.Trackable regs i data := by
  unfold Reports Trackable expected
  rw [pciGetModifyingBarInfo_eq inside]
  dsimp only
  cases valid : dev.valid (dev.owner i) with
  | false => simp
  | true =>
    simp only [Bool.not_true, Bool.false_eq_true, false_or, if_false, true_and, Option.some.injEq]
    by_cases probe : data = 0xFFFFFFFF
    · subst probe
      have probed := @takes_probe dev regs i inside valid
      rw [if_pos rfl]
      by_cases takes : dev.Takes regs (dev.owner i) i 0xFFFFFFFF
      · rw [if_pos takes, if_pos (.inl rfl)]
        exact iff_of_false (Option.some_ne_none _) (probed.mp takes)
      · rw [if_neg takes, if_pos (.inl rfl)]
        exact iff_of_true rfl (not_not.mp fun missed => takes (probed.mpr missed))
    · by_cases still : dev.base (dev.written regs i data) (dev.owner i) = dev.base regs (dev.owner i)
      · by_cases takes : dev.Takes regs (dev.owner i) i data
        · rw [if_pos takes, if_pos (.inr still), if_neg probe, if_pos still]
          obtain ⟨some', notMask, below, moves⟩ := takes
          refine iff_of_false (Option.some_ne_none _) ?_
          rintro (none' | atMask | above | same)
          · exact some' none'
          all_goals omega
        · rw [if_neg takes, if_pos (.inr still), if_neg probe, if_pos still]
          refine iff_of_true rfl ?_
          by_contra trackable
          simp only [not_or] at trackable
          exact takes ⟨trackable.1, trackable.2.1, by omega, by omega⟩
      · have expects : ¬(data = 0xFFFFFFFF ∨
          dev.base (dev.written regs i data) (dev.owner i) = dev.base regs (dev.owner i)) := not_or.mpr ⟨probe, still⟩
        by_cases takes : dev.Takes regs (dev.owner i) i data
        · rw [if_pos takes, if_neg expects, if_neg probe, if_neg still]
          obtain ⟨some', notMask, below, moves⟩ := takes
          unfold size
          rw [if_pos some']
          constructor
          · intro same
            have new := congrArg (fun answer => BarInfo.base answer.2) (Option.some.inj same)
            dsimp only at new
            exact ⟨some', new, by omega, by omega⟩
          · rintro ⟨-, new, -, -⟩
            rw [new]
        · rw [if_neg takes, if_neg expects, if_neg probe, if_neg still]
          refine iff_of_false (Option.some_ne_none _).symm ?_
          rintro ⟨some', new, notMask, below⟩
          exact takes ⟨some', by omega, by omega, by omega⟩

/-- Over a sequence of writes each one is reported as it should be exactly when each one is trackable. -/
theorem bars_exact (dev : BarMasks) (regs : ℕ → UInt32) (writes : List (Fin 6 × UInt32)) :
    dev.Each dev.Reports regs writes ↔ dev.Each dev.Trackable regs writes := by
  induction writes generalizing regs with
  | nil => exact Iff.rfl
  | cons write writes ih => exact and_congr (reports_iff write.1.isLt) (ih _)

end BarMasks

def nic : BarMasks := ⟨0, fun i => if i = 0 then 0xFFFE0004 else 0xFFFFFFFF⟩

theorem probe_moves : ¬nic.Each nic.Reports (fun i => if i = 0 then 0xC0000004 else 1) [(0, 0xFFFFFFFF)] ∧
    nic.pciGetModifyingBarInfo (fun i => if i = 0 then 0xC0000004 else 1) 4 0x10 0xFFFFFFFF =
      some (some (0, ⟨.mem, 0x1FFFE0000, 0x20000⟩)) := by
  have answer : nic.pciGetModifyingBarInfo (fun i => if i = 0 then 0xC0000004 else 1) 4 0x10 0xFFFFFFFF =
      some (some (0, ⟨.mem, 0x1FFFE0000, 0x20000⟩)) := by decide
  refine ⟨?_, answer⟩
  rintro ⟨reports, -⟩
  have probe : nic.expected (fun i => if i = 0 then 0xC0000004 else 1) 0 0xFFFFFFFF = none := by decide
  have same := answer.symm.trans reports
  rw [show ((0 : Fin 6) : ℕ) = 0 from rfl, probe] at same
  cases same

end DisasVisor.Pci
