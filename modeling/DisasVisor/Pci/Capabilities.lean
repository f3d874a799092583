import DisasVisor.Lib.Loops
import DisasVisor.Lib.Memory

/-!
The walks over the capability list of a device: `pci_msi_init` of `drivers/pci_core.c` and `read_satacap` of
`drivers/ata/ahci.c`. Only the device says where the list ends.
-/

namespace DisasVisor.Pci

variable {read : UInt8 → ℕ} {id : ℕ} {cap t : UInt8} {config : Memory}

def capPass (read : UInt8 → ℕ) (id : ℕ) (cap : UInt8) : UInt8 ⊕ Option UInt8 :=
  if cap < 0x40 then .inr none
  else if read cap % 256 = id then .inr (some cap)
  else .inl (UInt8.ofNat (read cap / 256))

def readCapval (config : Memory) (cap : UInt8) : ℕ := config.dword cap.toNat

def readSatacr0 (config : Memory) (cap : UInt8) : ℕ := config.dword (cap.toNat / 4 * 4)

def pciMsiInit (config : Memory) (fuel : ℕ) : Option (Option UInt8) :=
  if config.dword 0x4 / 0x100000 % 2 = 0 then some none
  else Passes.run (capPass (readCapval config) 0x05) fuel (config 0x34)

def readSatacap (config : Memory) (fuel : ℕ) : Option (Option UInt8) :=
  Passes.run (capPass (readSatacr0 config) 0x12) fuel (config 0x34)

def pointer (read : UInt8 → ℕ) (first : UInt8) : ℕ → UInt8
  | 0 => first
  | n + 1 => UInt8.ofNat (read (pointer read first n) / 256)

def Unmet (read : UInt8 → ℕ) (id : ℕ) (first : UInt8) (n : ℕ) : Prop :=
  ∀ k < n, 0x40 ≤ pointer read first k ∧ read (pointer read first k) % 256 ≠ id

def IsFirst (read : UInt8 → ℕ) (id : ℕ) (first : UInt8) : Option UInt8 → Prop
  | none => ∃ n, Unmet read id first n ∧ pointer read first n < 0x40
  | some cap => ∃ n, Unmet read id first n ∧ pointer read first n = cap ∧ 0x40 ≤ cap ∧ read cap % 256 = id

def NoCycle (read : UInt8 → ℕ) (id : ℕ) (first : UInt8) : Prop :=
  ∀ m n, m < n → Unmet read id first n → pointer read first m ≠ pointer read first n

theorem capPass_next (atCap : 0x40 ≤ cap) (other : read cap % 256 ≠ id) :
    capPass read id cap = .inl (UInt8.ofNat (read cap / 256)) := by
  rw [capPass, if_neg (UInt8.not_lt.mpr atCap), if_neg other]

theorem capPass_inl (goes : capPass read id cap = .inl t) :
    0x40 ≤ cap ∧ read cap % 256 ≠ id ∧ t = UInt8.ofNat (read cap / 256) := by
  unfold capPass at goes
  split at goes
  · cases goes
  · split at goes
    · cases goes
    · cases goes
      exact ⟨UInt8.not_lt.mp ‹_›, ‹_›, rfl⟩

theorem unmet_succ {n : ℕ} : Unmet read id cap (n + 1) ↔
    Unmet read id cap n ∧ 0x40 ≤ pointer read cap n ∧ read (pointer read cap n) % 256 ≠ id :=
  Nat.forall_lt_succ_right

theorem after_capPass (n : ℕ) :
    Passes.after (capPass read id) n cap = some t ↔ Unmet read id cap n ∧ t = pointer read cap n := by
  induction n generalizing t with
  | zero =>
    constructor
    · intro same
      cases same
      exact ⟨fun k less => absurd less (Nat.not_lt_zero k), rfl⟩
    · rintro ⟨-, rfl⟩
      rfl
  | succ n ih =>
    rw [Passes.after_add, Option.bind_eq_some_iff, unmet_succ]
    constructor
    · rintro ⟨last, reached, next⟩
      obtain ⟨unmet, rfl⟩ := ih.mp reached
      rw [Passes.after] at next
      split at next
      · obtain ⟨atCap, other, rfl⟩ := capPass_inl ‹_›
        cases next
        exact ⟨⟨unmet, atCap, other⟩, rfl⟩
      · cases next
    · rintro ⟨⟨unmet, atCap, other⟩, rfl⟩
      exact ⟨_, ih.mpr ⟨unmet, rfl⟩, Passes.after_next (capPass_next atCap other) 0⟩

theorem distinct_iff : Passes.Distinct (capPass read id) cap ↔ NoCycle read id cap := by
  constructor
  · intro distinct m n less unmet same
    have before : Unmet read id cap m := fun k small => unmet k (by omega)
    exact distinct m n _ less ((after_capPass m).mpr ⟨before, rfl⟩) ((after_capPass n).mpr ⟨unmet, same⟩)
  · intro noCycle m n t less here again
    obtain ⟨unmet, rfl⟩ := (after_capPass n).mp again
    exact noCycle m n less unmet ((after_capPass m).mp here).2.symm

theorem reaches_pointer (reached : Passes.Reaches (capPass read id) cap t) :
    ∃ n, Unmet read id cap n ∧ t = pointer read cap n := by
  induction reached with
  | start => exact ⟨0, fun k less => absurd less (Nat.not_lt_zero k), rfl⟩
  | next _ goes ih =>
    obtain ⟨n, unmet, rfl⟩ := ih
    obtain ⟨atCap, other, rfl⟩ := capPass_inl goes
    exact ⟨n + 1, unmet_succ.mpr ⟨unmet, atCap, other⟩, rfl⟩

theorem run_isFirst {fuel : ℕ} {result : Option UInt8}
    (done : Passes.run (capPass read id) fuel cap = some result) : IsFirst read id cap result := by
  obtain ⟨last, reached, leaves⟩ := Passes.run_cases done
  obtain ⟨n, unmet, rfl⟩ := reaches_pointer reached
  unfold capPass at leaves
  split at leaves
  · cases leaves
    exact ⟨n, unmet, ‹_›⟩
  · split at leaves
    · cases leaves
      exact ⟨n, unmet, rfl, UInt8.not_lt.mp ‹_›, ‹_›⟩
    · cases leaves

theorem walk_exact : (∃ fuel result, Passes.run (capPass read id) fuel cap = some result ∧ IsFirst read id cap result) ↔
    NoCycle read id cap := by
  have finite : Finite UInt8 := Finite.of_injective UInt8.toFin fun _ _ same => UInt8.toFin_inj.mp same
  rw [← distinct_iff, ← Passes.ends_iff_distinct]
  constructor
  · rintro ⟨fuel, result, done, -⟩
    exact ⟨fuel, result, done⟩
  · rintro ⟨fuel, result, done⟩
    exact ⟨fuel, result, done, run_isFirst done⟩

def HasList (config : Memory) : Prop := config.dword 0x4 / 0x100000 % 2 ≠ 0

def MsiFound (config : Memory) : Prop :=
  ∃ fuel result, pciMsiInit config fuel = some result ∧
    if config.dword 0x4 / 0x100000 % 2 = 0 then result = none
    else IsFirst (readCapval config) 0x05 (config 0x34) result

def SatacapFound (config : Memory) : Prop :=
  ∃ fuel result, readSatacap config fuel = some result ∧ IsFirst (readSatacr0 config) 0x12 (config 0x34) result

theorem capability_walks_exact (config : Memory) :
    (MsiFound config ↔ (HasList config → NoCycle (readCapval config) 0x05 (config 0x34))) ∧
      (SatacapFound config ↔ NoCycle (readSatacr0 config) 0x12 (config 0x34)) := by
  constructor
  · unfold MsiFound pciMsiInit HasList
    by_cases listed : config.dword 0x4 / 0x100000 % 2 = 0
    · simp [listed]
    · simp only [if_neg listed]
      rw [walk_exact]
      exact ⟨fun noCycle _ => noCycle, fun noCycle => noCycle listed⟩
  · exact walk_exact

def selfLinked : Memory := Memory.scatter (fun _ => 0) [(0x06, 0x10), (0x34, 0x40), (0x40, 0x01), (0x41, 0x40)]

theorem selfLinked_never_found : ¬MsiFound selfLinked ∧ ¬SatacapFound selfLinked := by
  have endless (read : UInt8 → ℕ) (id : ℕ) (back : pointer read 0x40 1 = 0x40) (other : read 0x40 % 256 ≠ id)
      (found : ∃ fuel result, Passes.run (capPass read id) fuel 0x40 = some result ∧ IsFirst read id 0x40 result) :
      False := by
    have unmet : Unmet read id 0x40 1 := by
      intro k less
      obtain rfl : k = 0 := by omega
      exact ⟨UInt8.le_refl 0x40, other⟩
    exact walk_exact.mp found 0 1 Nat.zero_lt_one unmet back.symm
  exact ⟨endless (readCapval selfLinked) 0x05 (by decide) (by decide),
    endless (readSatacr0 selfLinked) 0x12 (by decide) (by decide)⟩

end DisasVisor.Pci
