import DisasVisor.Storage.Contract

/-!
An access to the start of a longer buffer: it stays inside of what it has to handle, whatever its first sector,
and leaves the rest of the buffer.
-/

namespace DisasVisor.Storage

open Integers List

variable {κ : Type} {keys : List (StorageKeys κ)} {key : StorageKeys κ} {write : Bool} {sectorSize : Int32}
  {m size : Nat} {src out : List UInt8} (tail : List UInt8) {p q r : Pass}

structure Room (sectorSize : Int32) (p : Pass) : Prop where
  positive : 0 < sectorSize.toInt
  bytes : p.count.toNat * sectorSize.toInt.toNat ≤ p.src.length
  fits : p.count.toNat * sectorSize.toInt.toNat < 2 ^ 32
  small : p.count.toNat < 2 ^ 31

structure Within (sectorSize : Int32) (p q : Pass) : Prop where
  room : Room sectorSize q
  count : q.count.toNat ≤ p.count.toNat
  total : q.dst.length + q.src.length = p.dst.length + p.src.length

theorem Within.trans (first : Within sectorSize p q) (second : Within sectorSize q r) : Within sectorSize p r :=
  ⟨second.room, Nat.le_trans second.count first.count, second.total.trans first.total⟩

theorem Room.less (room : Room sectorSize p) (less : m ≤ p.count.toNat) :
    m * sectorSize.toInt.toNat + (p.count.toNat - m) * sectorSize.toInt.toNat ≤ p.src.length ∧
      m * sectorSize.toInt.toNat + (p.count.toNat - m) * sectorSize.toInt.toNat < 2 ^ 32 := by
  rw [← Nat.add_mul, Nat.add_sub_cancel' less]
  exact ⟨room.bytes, room.fits⟩

theorem Room.after (room : Room sectorSize p) (less : m ≤ p.count.toNat) (count : q.count.toNat = p.count.toNat - m)
    (length : q.src.length = p.src.length - m * sectorSize.toInt.toNat)
    (done : q.dst.length = p.dst.length + m * sectorSize.toInt.toNat) : Within sectorSize p q := by
  obtain ⟨bytes, fits⟩ := room.less less
  have small := room.small
  refine ⟨⟨room.positive, ?_, ?_, by omega⟩, by omega, by omega⟩
  · rw [count]
    omega
  · rw [count]
    omega

theorem copyLoop_within (low : UInt64) (fuel : Nat) : ∀ {p}, Room sectorSize p → p.count.toNat < fuel →
    ∃ q, p.copyLoop low sectorSize fuel = some q ∧ Within sectorSize p q := by
  induction fuel with
  | zero =>
    intro p _ enough
    exact absurd enough (Nat.not_lt_zero _)
  | succ fuel ih =>
    intro p room enough
    have zero := UInt32.toNat_zero
    unfold Pass.copyLoop
    by_cases goesOn : p.count > 0 ∧ low > p.lba
    · rw [if_pos goesOn]
      obtain ⟨left, below⟩ := goesOn
      rw [gt_iff_lt, UInt32.lt_iff_toNat_lt, zero] at left
      rw [gt_iff_lt, UInt64.lt_iff_toNat_lt] at below
      have reach : 0 < (low - p.lba).toNat := by
        have bound := low.toNat_lt
        rw [UInt64.toNat_sub]
        omega
      obtain ⟨m, chunk, taken, less, -⟩ := @chunk_bounds (low - p.lba) p.count room.small left reach
      dsimp only
      generalize minInt p.count.toInt32 _ = subCount at chunk ⊢
      obtain ⟨bytes, fits⟩ := room.less less
      have length := toNat_copied room.positive chunk (by omega)
      have taken' := (toNat_toUInt32 (show 0 ≤ subCount.toInt by omega)).1
      have copies : p.copy subCount (subCount * sectorSize).toUInt32 = some
          ⟨p.lba + subCount.toInt64.toUInt64, p.count - subCount.toUInt32,
            p.src.drop (m * sectorSize.toInt.toNat), p.dst ++ p.src.take (m * sectorSize.toInt.toNat)⟩ := by
        rw [Pass.copy, length, if_neg (by omega)]
      have count : (p.count - subCount.toUInt32).toNat = p.count.toNat - m := by
        have bound := p.count.toNat_lt
        rw [UInt32.toNat_sub]
        omega
      have within : Within sectorSize p ⟨p.lba + subCount.toInt64.toUInt64, p.count - subCount.toUInt32,
          p.src.drop (m * sectorSize.toInt.toNat), p.dst ++ p.src.take (m * sectorSize.toInt.toNat)⟩ := by
        refine room.after less count (length_drop ..) ?_
        rw [length_append, length_take, Nat.min_eq_left (by omega)]
      obtain ⟨q, loops, later⟩ := ih within.room (by dsimp only; omega)
      rw [copies]
      exact ⟨q, loops, within.trans later⟩
    · rw [if_neg goesOn]
      exact ⟨p, rfl, ⟨room, Nat.le_refl _, rfl⟩⟩

variable {crypt : UInt64 → List UInt8 → List UInt8} {fuel i : Nat} {access : StorageAccess}

section

variable (keeps : ∀ lba sector, (crypt lba sector).length = sector.length)
include keeps

theorem cryptRun_within (m : Nat) :
    ∀ {p}, m * size ≤ p.src.length → ∃ q, Pass.cryptRun crypt size m p = some q ∧ q.count = p.count ∧
      q.src.length = p.src.length - m * size ∧ q.dst.length = p.dst.length + m * size := by
  induction m with
  | zero =>
    intro p _
    exact ⟨p, rfl, rfl, by omega, by omega⟩
  | succ m ih =>
    intro p bytes
    rw [Nat.succ_mul] at bytes
    obtain ⟨q, runs, count, left, done⟩ := @ih
      ⟨p.lba + 1, p.count, p.src.drop size, p.dst ++ crypt p.lba (p.src.take size)⟩ (by
        rw [length_drop]
        omega)
    rw [length_drop] at left
    rw [length_append, keeps, length_take, Nat.min_eq_left (by omega)] at done
    refine ⟨q, ?_, count, ?_, ?_⟩
    · rw [Pass.cryptRun, if_neg (by omega), runs]
    · rw [Nat.succ_mul]
      omega
    · rw [Nat.succ_mul]
      omega

theorem cryptLoop_within (high : UInt64) (fuel : Nat) :
    ∀ {p}, Room sectorSize p → p.count.toNat < fuel →
      ∃ q, p.cryptLoop crypt high sectorSize fuel = some q ∧ Within sectorSize p q := by
  induction fuel with
  | zero =>
    intro p _ enough
    exact absurd enough (Nat.not_lt_zero _)
  | succ fuel ih =>
    intro p room enough
    have zero := UInt32.toNat_zero
    unfold Pass.cryptLoop
    by_cases goesOn : p.count > 0 ∧ high ≥ p.lba
    · rw [if_pos goesOn]
      obtain ⟨left, -⟩ := goesOn
      rw [gt_iff_lt, UInt32.lt_iff_toNat_lt, zero] at left
      obtain ⟨m, chunk, taken, less, -⟩ := @chunk_succ_bounds (high - p.lba) p.count room.small left
      dsimp only
      generalize minInt p.count.toInt32 _ = subCount at chunk ⊢
      obtain ⟨bytes, fits⟩ := room.less less
      have taken' := (toNat_toUInt32 (show 0 ≤ subCount.toInt by omega)).1
      have chunk' : subCount.toInt.toNat = m := by omega
      obtain ⟨q, runs, same, left', done⟩ := cryptRun_within keeps m
        (show m * sectorSize.toInt.toNat ≤ (Pass.src { p with count := p.count - subCount.toUInt32 }).length by
          dsimp only
          omega)
      have count : q.count.toNat = p.count.toNat - m := by
        have bound := p.count.toNat_lt
        rw [same, UInt32.toNat_sub]
        omega
      have within : Within sectorSize p q := room.after less count left' done
      obtain ⟨r, loops, later⟩ := ih within.room (by omega)
      rw [chunk', runs]
      exact ⟨r, loops, within.trans later⟩
    · rw [if_neg goesOn]
      exact ⟨p, rfl, ⟨room, Nat.le_refl _, rfl⟩⟩

end

theorem keysLoop_within (keeps : KeepsLength keys) :
    ∀ {p}, Room sectorSize p → p.count.toNat < fuel →
      ∃ q, keysLoop write sectorSize fuel keys p = some q ∧ Within sectorSize p q := by
  induction keys with
  | nil =>
    intro p room _
    exact ⟨p, rfl, ⟨room, Nat.le_refl _, rfl⟩⟩
  | cons key keys ih =>
    intro p room enough
    rw [keysLoop]
    by_cases done : p.count = 0
    · rw [if_pos done]
      exact ⟨p, rfl, ⟨room, Nat.le_refl _, rfl⟩⟩
    · obtain ⟨q, copies, copied⟩ := copyLoop_within key.lbaLow fuel room enough
      have less := copied.count
      obtain ⟨r, crypts, crypted⟩ := cryptLoop_within (keeps key mem_cons_self write) key.lbaHigh fuel
        copied.room (by omega)
      have less' := crypted.count
      obtain ⟨s, loops, later⟩ := ih (fun other member => keeps other (mem_cons_of_mem _ member))
        crypted.room (by omega)
      rw [if_neg done]
      simp only [copies, crypts]
      exact ⟨s, loops, (copied.trans crypted).trans later⟩

theorem storageHandleSectors_within (keeps : KeepsLength keys) (positive : 0 < access.sectorSize.toInt)
    (small : access.count.toNat < 2 ^ 31) (fits : access.count.toNat * access.sectorSize.toInt.toNat < 2 ^ 32)
    (bytes : access.count.toNat * access.sectorSize.toInt.toNat ≤ src.length) :
    ∃ out, storageHandleSectors keys access true src = some out ∧ out.length = src.length := by
  have room : Room access.sectorSize ⟨access.lba, access.count, src, []⟩ := ⟨positive, bytes, fits, small⟩
  obtain ⟨q, loops, within⟩ : ∃ q, keysLoop access.write access.sectorSize (access.count.toNat + 1) keys
      ⟨access.lba, access.count, src, []⟩ = some q ∧ Within access.sectorSize ⟨access.lba, access.count, src, []⟩ q :=
    keysLoop_within keeps room (Nat.lt_succ_self _)
  have total := within.total
  rw [length_nil, Nat.zero_add] at total
  refine ⟨q.dst ++ q.src, ?_, ?_⟩
  · unfold storageHandleSectors
    simp only [loops]
    rfl
  · rw [length_append]
    exact total

def Pass.extend (p : Pass) (tail : List UInt8) : Pass := { p with src := p.src ++ tail }

theorem copy_extend {subCount : Int32} {bytes : UInt32} (copies : p.copy subCount bytes = some q) :
    (p.extend tail).copy subCount bytes = some (q.extend tail) := by
  rw [Pass.copy] at copies
  split at copies
  · cases copies
  · rename_i enough
    cases copies
    rw [Pass.copy, if_neg (by rw [Pass.extend, length_append]; omega)]
    simp only [Pass.extend]
    rw [drop_append_of_le_length (by omega), take_append_of_le_length (by omega)]

theorem copyLoop_extend {low : UInt64} (fuel : Nat) : ∀ {p : Pass}, p.copyLoop low sectorSize fuel = some q →
    (p.extend tail).copyLoop low sectorSize fuel = some (q.extend tail) := by
  induction fuel with
  | zero =>
    intro p loops
    cases loops
  | succ fuel ih =>
    intro p loops
    rw [Pass.copyLoop] at loops ⊢
    split at loops
    · rename_i goesOn
      rw [if_pos (by exact goesOn)]
      dsimp only [Pass.extend] at loops ⊢
      generalize minInt p.count.toInt32 _ = subCount at loops ⊢
      split at loops
      · cases loops
      · rename_i s copies
        have extended := copy_extend tail copies
        rw [Pass.extend] at extended
        rw [extended]
        exact ih loops
    · rename_i stops
      cases loops
      rw [if_neg (by exact stops)]

theorem cryptRun_extend (m : Nat) :
    ∀ {p}, Pass.cryptRun crypt size m p = some q →
      Pass.cryptRun crypt size m (p.extend tail) = some (q.extend tail) := by
  induction m with
  | zero =>
    intro p runs
    cases runs
    rfl
  | succ m ih =>
    intro p runs
    rw [Pass.cryptRun] at runs
    split at runs
    · cases runs
    · rename_i enough
      have rest := ih runs
      rw [Pass.cryptRun, if_neg (by rw [Pass.extend, length_append]; omega)]
      simp only [Pass.extend] at rest ⊢
      rw [drop_append_of_le_length (by omega), take_append_of_le_length (by omega)]
      exact rest

theorem cryptLoop_extend {high : UInt64} (fuel : Nat) :
    ∀ {p : Pass}, p.cryptLoop crypt high sectorSize fuel = some q →
      (p.extend tail).cryptLoop crypt high sectorSize fuel = some (q.extend tail) := by
  induction fuel with
  | zero =>
    intro p loops
    cases loops
  | succ fuel ih =>
    intro p loops
    rw [Pass.cryptLoop] at loops ⊢
    split at loops
    · rename_i goesOn
      rw [if_pos (by exact goesOn)]
      dsimp only [Pass.extend] at loops ⊢
      generalize minInt p.count.toInt32 _ = subCount at loops ⊢
      split at loops
      · cases loops
      · rename_i s runs
        have extended := cryptRun_extend tail _ runs
        rw [Pass.extend] at extended
        rw [extended]
        exact ih loops
    · rename_i stops
      cases loops
      rw [if_neg (by exact stops)]

theorem keysLoop_extend : ∀ {p}, keysLoop write sectorSize fuel keys p = some q →
    keysLoop write sectorSize fuel keys (p.extend tail) = some (q.extend tail) := by
  induction keys with
  | nil =>
    intro p loops
    cases loops
    rfl
  | cons key keys ih =>
    intro p loops
    rw [keysLoop] at loops ⊢
    split at loops
    · rename_i done
      cases loops
      rw [if_pos (by exact done)]
    · rename_i left
      rw [if_neg (by exact left)]
      split at loops
      · cases loops
      · rename_i r copies
        rw [copyLoop_extend tail fuel copies]
        dsimp only
        split at loops
        · cases loops
        · rename_i s crypts
          rw [cryptLoop_extend tail fuel crypts]
          exact ih loops

theorem storageHandleSectors_extend (handles : storageHandleSectors keys access true src = some out) :
    storageHandleSectors keys access true (src ++ tail) = some (out ++ tail) := by
  unfold storageHandleSectors at handles ⊢
  dsimp only at handles ⊢
  split at handles
  · cases handles
  · rename_i q loops
    have extended := keysLoop_extend tail loops
    rw [Pass.extend] at extended
    cases handles
    rw [extended]
    simp [Pass.extend, append_assoc]

theorem storageHandleSectors_front (valid : access.Valid)
    (bytes : access.count.toNat * access.sectorSize.toInt.toNat ≤ src.length) :
    storageHandleSectors keys access true src = some
      (sectors keys access.write access.sectorSize.toInt.toNat access.lba.toNat access.count.toNat
        (src.take (access.count.toNat * access.sectorSize.toInt.toNat)) ++
        src.drop (access.count.toNat * access.sectorSize.toInt.toNat)) := by
  have length : (src.take (access.count.toNat * access.sectorSize.toInt.toNat)).length =
      access.count.toNat * access.sectorSize.toInt.toNat := by
    rw [length_take, Nat.min_eq_left bytes]
  have whole := storageHandleSectors_extend (src.drop (access.count.toNat * access.sectorSize.toInt.toNat))
    (@storageHandleSectors_eq κ keys _ access valid true length)
  rwa [take_append_drop] at whole

def Pass.total (p : Pass) : Nat := p.dst.length + p.src.length

theorem copyLoop_total {low : UInt64} (fuel : Nat) : ∀ {p : Pass}, p.copyLoop low sectorSize fuel = some q →
    q.total = p.total := by
  induction fuel with
  | zero =>
    intro p loops
    cases loops
  | succ fuel ih =>
    intro p loops
    rw [Pass.copyLoop] at loops
    split at loops
    · dsimp only at loops
      generalize minInt p.count.toInt32 _ = subCount at loops
      split at loops
      · cases loops
      · rename_i s copies
        rw [ih loops]
        rw [Pass.copy] at copies
        split at copies
        · cases copies
        · rename_i enough
          cases copies
          simp only [Pass.total, length_append, length_take, length_drop]
          omega
    · cases loops
      rfl

section

variable (keeps : ∀ lba sector, (crypt lba sector).length = sector.length)
include keeps

theorem cryptRun_total (m : Nat) : ∀ {p}, Pass.cryptRun crypt size m p = some q → q.total = p.total := by
  induction m with
  | zero =>
    intro p runs
    cases runs
    rfl
  | succ m ih =>
    intro p runs
    rw [Pass.cryptRun] at runs
    split at runs
    · cases runs
    · rename_i enough
      rw [ih runs]
      simp only [Pass.total, length_append, keeps, length_take, length_drop]
      omega

theorem cryptLoop_total {high : UInt64} (fuel : Nat) :
    ∀ {p : Pass}, p.cryptLoop crypt high sectorSize fuel = some q → q.total = p.total := by
  induction fuel with
  | zero =>
    intro p loops
    cases loops
  | succ fuel ih =>
    intro p loops
    rw [Pass.cryptLoop] at loops
    split at loops
    · dsimp only at loops
      generalize minInt p.count.toInt32 _ = subCount at loops
      split at loops
      · cases loops
      · rename_i s runs
        rw [ih loops, cryptRun_total keeps _ runs]
        rfl
    · cases loops
      rfl

end

theorem keysLoop_total (keeps : KeepsLength keys) : ∀ {p},
    keysLoop write sectorSize fuel keys p = some q → q.total = p.total := by
  induction keys with
  | nil =>
    intro p loops
    cases loops
    rfl
  | cons key keys ih =>
    intro p loops
    rw [keysLoop] at loops
    split at loops
    · cases loops
      rfl
    · split at loops
      · cases loops
      · rename_i r copies
        split at loops
        · cases loops
        · rename_i s crypts
          rw [ih (fun other member => keeps other (mem_cons_of_mem _ member)) loops,
            cryptLoop_total (keeps key mem_cons_self write) fuel crypts, copyLoop_total fuel copies]

theorem storageHandleSectors_length (keeps : KeepsLength keys)
    (handles : storageHandleSectors keys access true src = some out) : out.length = src.length := by
  unfold storageHandleSectors at handles
  dsimp only at handles
  split at handles
  · cases handles
  · rename_i q loops
    have total := keysLoop_total keeps loops
    cases handles
    simpa [Pass.total] using total

def store (disk : Nat → List UInt8) (size lba count : Nat) (bytes : List UInt8) (x : Nat) : List UInt8 :=
  if lba ≤ x ∧ x < lba + count then sector size (x - lba) bytes else disk x

def note (written : Nat → Option (List UInt8)) (size lba count : Nat) (bytes : List UInt8) (x : Nat) :
    Option (List UInt8) :=
  if lba ≤ x ∧ x < lba + count then some (sector size (x - lba) bytes) else written x

def fetch (disk : Nat → List UInt8) (lba count : Nat) : List UInt8 := (List.range count).flatMap fun i => disk (lba + i)

def encrypted {κ : Type} (keys : List (StorageKeys κ)) (x : Nat) (plain : List UInt8) : List UInt8 :=
  handled true (fate keys x) x plain

variable {disk : Nat → List UInt8}

theorem length_fetch (length : ∀ x, (disk x).length = size) (lba count : Nat) :
    (fetch disk lba count).length = count * size := by
  simp [fetch, length_flatMap, length]

theorem sector_append {count : Nat} {bytes tail : List UInt8} (enough : count * size ≤ bytes.length)
    (less : i < count) : sector size i (bytes ++ tail) = sector size i bytes := by
  have bound : (i + 1) * size ≤ count * size := Nat.mul_le_mul_right size less
  rw [Nat.succ_mul] at bound
  rw [sector, sector, drop_append_of_le_length (by omega), take_append_of_le_length (by rw [length_drop]; omega)]

theorem sector_behind {count : Nat} {bytes tail : List UInt8} (length : bytes.length = count * size) :
    sector size (count + i) (bytes ++ tail) = sector size i tail := by
  rw [sector, sector, Nat.add_mul, ← length, ← drop_drop, drop_left]

theorem sector_drop (size i count : Nat) (bytes : List UInt8) :
    sector size i (bytes.drop (count * size)) = sector size (count + i) bytes := by
  rw [sector, sector, drop_drop, Nat.add_mul]

theorem sector_take {count : Nat} (bytes : List UInt8) (less : i < count) :
    sector size i (bytes.take (count * size)) = sector size i bytes := by
  have bound : (i + 1) * size ≤ count * size := Nat.mul_le_mul_right size less
  rw [Nat.succ_mul] at bound
  rw [sector, sector, drop_take, take_take, Nat.min_eq_left (by omega)]

theorem length_sector {bytes : List UInt8} (enough : (i + 1) * size ≤ bytes.length) :
    (sector size i bytes).length = size := by
  rw [Nat.succ_mul] at enough
  rw [sector, length_take, length_drop]
  omega

theorem sector_fetch (length : ∀ x, (disk x).length = size) (i : Nat) :
    ∀ lba count, i < count → sector size i (fetch disk lba count) = disk (lba + i) := by
  induction i with
  | zero =>
    intro lba count less
    obtain ⟨count, rfl⟩ := Nat.exists_eq_succ_of_ne_zero (Nat.ne_of_gt less)
    rw [fetch, range_succ_eq_map, flatMap_cons, sector, Nat.zero_mul, drop_zero, ← length (lba + 0), take_left]
  | succ i ih =>
    intro lba count less
    obtain ⟨count, rfl⟩ := Nat.exists_eq_succ_of_ne_zero (Nat.ne_of_gt (Nat.zero_lt_of_lt less))
    have rest := ih (lba + 1) count (by omega)
    have split : fetch disk lba (count + 1) = disk lba ++ fetch disk (lba + 1) count := by
      rw [fetch, range_succ_eq_map, flatMap_cons, flatMap_map, Nat.add_zero]
      congr 1
      rw [fetch]
      congr 1
      funext j
      rw [Nat.succ_eq_add_one, Nat.add_assoc, Nat.add_comm 1 j]
    have first : (disk lba).length = 1 * size := by rw [length, Nat.one_mul]
    rw [split, Nat.add_comm i 1, sector_behind first, rest, Nat.add_assoc]

theorem handled_encrypted
    (inverse : ∀ key ∈ keys, ∀ lba sector, key.crypt false lba (key.crypt true lba sector) = sector)
    (x : Nat) (plain : List UInt8) : handled false (fate keys x) x (encrypted keys x plain) = plain := by
  rw [encrypted]
  cases found : fate keys x with
  | none => rfl
  | some key => exact inverse key (fate_some found).1 _ _

end DisasVisor.Storage
