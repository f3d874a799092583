import DisasVisor.Lib.Words
import DisasVisor.Storage.Sectors

/-!
What `storage_handle_sectors` does to each sector, and for which key ranges it covers them.
-/

namespace DisasVisor.Storage

open Integers List

variable {κ : Type}

namespace StorageKeys

def Contains (key : StorageKeys κ) (x : Nat) : Prop := key.lbaLow.toNat ≤ x ∧ x ≤ key.lbaHigh.toNat

def stops (key : StorageKeys κ) (x : Nat) : Bool := x < key.lbaLow.toNat ∨ x ≤ key.lbaHigh.toNat

end StorageKeys

def fate (keys : List (StorageKeys κ)) (x : Nat) : Option (StorageKeys κ) :=
  match keys.find? (fun key => key.stops x) with
  | none => none
  | some key => if x < key.lbaLow.toNat then none else some key

def handled (write : Bool) (key : Option (StorageKeys κ)) (x : Nat) (sector : List UInt8) : List UInt8 :=
  match key with
  | none => sector
  | some key => key.crypt write (UInt64.ofNat x) sector

def sectors (keys : List (StorageKeys κ)) (write : Bool) (size : Nat) :
    Nat → Nat → List UInt8 → List UInt8
  | _, 0, src => src
  | x, count + 1, src =>
    handled write (fate keys x) x (src.take size) ++ sectors keys write size (x + 1) count (src.drop size)

variable {keys : List (StorageKeys κ)} {key : StorageKeys κ} {write : Bool} {x y size count m : Nat}
  {src : List UInt8} {p q : Pass} {sectorSize : Int32}

theorem sectors_copied (less : m ≤ count) (copied : ∀ y, x ≤ y → y < x + m → fate keys y = none) :
    sectors keys write size x count src =
      src.take (m * size) ++ sectors keys write size (x + m) (count - m) (src.drop (m * size)) := by
  induction m generalizing x count src with
  | zero => simp
  | succ m ih =>
    cases count with
    | zero => omega
    | succ count =>
      rw [sectors, copied x (Nat.le_refl x) (by omega), handled,
        ih (show m ≤ count by omega) fun y low high => copied y (by omega) (by omega),
        ← append_assoc, ← take_add, drop_drop]
      rw [show size + m * size = (m + 1) * size by rw [Nat.succ_mul]; omega,
        show x + 1 + m = x + (m + 1) by omega, show count + 1 - (m + 1) = count - m by omega]

theorem toInt_minInt (a b : Int32) : (minInt a b).toInt = min a.toInt b.toInt := by
  unfold minInt
  simp only [Int32.lt_iff_toInt_lt]
  split <;> omega

theorem chunk_bounds {limit : UInt64} {count : UInt32} (small : count.toNat < 2 ^ 31)
    (left : 0 < count.toNat) (reach : 0 < limit.toNat) :
    ∃ m : Nat,
      (minInt count.toInt32 (if limit > 65535 then 65535 else limit.toUInt32.toInt32)).toInt = m ∧
        0 < m ∧ m ≤ count.toNat ∧ m ≤ limit.toNat := by
  have top : (65535 : UInt64).toNat = 65535 := rfl
  have top' : (65535 : Int32).toInt = 65535 := rfl
  rw [toInt_minInt, toInt_toInt32 small]
  simp only [gt_iff_lt, UInt64.lt_iff_toNat_lt, top]
  split
  · rw [top']
    exact ⟨(min (count.toNat : Int) 65535).toNat, by omega⟩
  · have low : limit.toUInt32.toNat = limit.toNat := by
      rw [UInt64.toNat_toUInt32]
      omega
    rw [toInt_toInt32 (by omega), low]
    exact ⟨(min (count.toNat : Int) limit.toNat).toNat, by omega⟩

theorem chunk_succ_bounds {limit : UInt64} {count : UInt32} (small : count.toNat < 2 ^ 31)
    (left : 0 < count.toNat) :
    ∃ m : Nat,
      (minInt count.toInt32
        (if limit ≥ 65535 then 65535 else limit.toUInt32.toInt32 + 1)).toInt = m ∧
        0 < m ∧ m ≤ count.toNat ∧ m ≤ limit.toNat + 1 := by
  have top : (65535 : UInt64).toNat = 65535 := rfl
  have top' : (65535 : Int32).toInt = 65535 := rfl
  have one : (1 : Int32).toInt = 1 := rfl
  rw [toInt_minInt, toInt_toInt32 small]
  simp only [ge_iff_le, UInt64.le_iff_toNat_le, top]
  split
  · rw [top']
    exact ⟨(min (count.toNat : Int) 65535).toNat, by omega⟩
  · have low : limit.toUInt32.toNat = limit.toNat := by
      rw [UInt64.toNat_toUInt32]
      omega
    rw [Int32.toInt_add, one, toInt_toInt32 (by omega), low, Int.bmod_eq_of_le (by omega) (by omega)]
    exact ⟨(min (count.toNat : Int) (limit.toNat + 1)).toNat, by omega⟩

structure Fit (sectorSize : Int32) (p : Pass) (x : Nat) : Prop where
  positive : 0 < sectorSize.toInt
  bytes : p.src.length = p.count.toNat * sectorSize.toInt.toNat
  fits : p.src.length < 2 ^ 32
  small : p.count.toNat < 2 ^ 31
  high : x + p.count.toNat ≤ 2 ^ 64
  lba : 0 < p.count.toNat → p.lba.toNat = x

structure Advances (keys : List (StorageKeys κ)) (write : Bool) (sectorSize : Int32) (p : Pass)
    (x : Nat) (q : Pass) (y : Nat) : Prop where
  fit : Fit sectorSize q y
  forward : x ≤ y
  count : q.count.toNat + (y - x) = p.count.toNat
  same : q.dst ++ sectors keys write sectorSize.toInt.toNat y q.count.toNat q.src =
    p.dst ++ sectors keys write sectorSize.toInt.toNat x p.count.toNat p.src

theorem Advances.refl (fit : Fit sectorSize p x) : Advances keys write sectorSize p x p x :=
  ⟨fit, Nat.le_refl x, by omega, rfl⟩

theorem Advances.trans {r : Pass} {z : Nat} (first : Advances keys write sectorSize p x q y)
    (second : Advances keys write sectorSize q y r z) : Advances keys write sectorSize p x r z := by
  have forward := first.forward
  have forward' := second.forward
  have count := first.count
  have count' := second.count
  exact ⟨second.fit, by omega, by omega, second.same.trans first.same⟩

theorem Fit.bytes_le (fit : Fit sectorSize p x) (less : m ≤ p.count.toNat) :
    m * sectorSize.toInt.toNat ≤ p.src.length := by
  rw [fit.bytes]
  exact Nat.mul_le_mul_right _ less

theorem Fit.after (fit : Fit sectorSize p x) (less : m ≤ p.count.toNat) (qCount :
    q.count.toNat = p.count.toNat - m) (qLba : q.lba.toNat = (p.lba.toNat + m) % 2 ^ 64)
    (qSrc : q.src = p.src.drop (m * sectorSize.toInt.toNat)) : Fit sectorSize q (x + m) := by
  have bytes := fit.bytes
  have small := fit.small
  have high := fit.high
  have fits := fit.fits
  refine ⟨fit.positive, ?_, ?_, by omega, by omega, ?_⟩
  · rw [qSrc, length_drop, bytes, qCount, Nat.sub_mul]
  · rw [qSrc, length_drop]
    omega
  · intro rest
    rw [qLba, fit.lba (by omega), Nat.mod_eq_of_lt (by omega)]

theorem toNat_copied {subCount : Int32} (positive : 0 < sectorSize.toInt)
    (chunk : subCount.toInt = m) (fits : m * sectorSize.toInt.toNat < 2 ^ 32) :
    (subCount * sectorSize).toUInt32.toNat = m * sectorSize.toInt.toNat := by
  have first := (toNat_toUInt32 (show 0 ≤ subCount.toInt by omega)).1
  have second := (toNat_toUInt32 (Int.le_of_lt positive)).1
  have product : (subCount * sectorSize).toUInt32 = subCount.toUInt32 * sectorSize.toUInt32 := rfl
  have count : subCount.toUInt32.toNat = m := by omega
  have size : sectorSize.toUInt32.toNat = sectorSize.toInt.toNat := by omega
  rw [product, UInt32.toNat_mul, count, size, Nat.mod_eq_of_lt fits]

theorem copy_advances {subCount : Int32} (fit : Fit sectorSize p x) (chunk : subCount.toInt = m)
    (less : m ≤ p.count.toNat) (copied : ∀ y, x ≤ y → y < x + m → fate keys y = none) :
    ∃ q, p.copy subCount (subCount * sectorSize).toUInt32 = some q ∧ Advances keys write sectorSize p x q (x + m) := by
  have bytes := fit.bytes_le less
  have fits := fit.fits
  have size := toNat_copied fit.positive chunk (show m * sectorSize.toInt.toNat < 2 ^ 32 by omega)
  have count := (toNat_toUInt32 (show 0 ≤ subCount.toInt by omega)).1
  have step := toNat_toUInt64 (show 0 ≤ subCount.toInt by omega)
  have bound := p.count.toNat_lt
  unfold Pass.copy
  rw [size, if_neg (by omega)]
  have qCount : (p.count - subCount.toUInt32).toNat = p.count.toNat - m := by
    rw [UInt32.toNat_sub]
    omega
  refine ⟨_, rfl, fit.after less qCount ?_ rfl, by omega, ?_, ?_⟩
  · rw [UInt64.toNat_add]
    omega
  · simp only [qCount]
    omega
  · simp only [qCount]
    rw [sectors_copied less copied, append_assoc]

theorem copyLoop_advances (write : Bool) (fuel : Nat) : ∀ {p x}, Fit sectorSize p x → p.count.toNat < fuel →
    (∀ y, x ≤ y → y < key.lbaLow.toNat → fate keys y = none) →
      ∃ q y, p.copyLoop key.lbaLow sectorSize fuel = some q ∧
        Advances keys write sectorSize p x q y ∧ (0 < q.count.toNat → key.lbaLow.toNat ≤ y) := by
  induction fuel with
  | zero =>
    intro p x _ fuel
    omega
  | succ fuel ih =>
    intro p x fit enough copied
    have zero := UInt32.toNat_zero
    unfold Pass.copyLoop
    by_cases goesOn : p.count > 0 ∧ key.lbaLow > p.lba
    · rw [if_pos goesOn]
      obtain ⟨left, below⟩ := goesOn
      rw [gt_iff_lt, UInt32.lt_iff_toNat_lt, zero] at left
      rw [gt_iff_lt, UInt64.lt_iff_toNat_lt, fit.lba left] at below
      have limit : (key.lbaLow - p.lba).toNat = key.lbaLow.toNat - x := by
        have bound := key.lbaLow.toNat_lt
        rw [UInt64.toNat_sub, fit.lba left]
        omega
      obtain ⟨m, chunk, taken, less, reach⟩ := @chunk_bounds (key.lbaLow - p.lba) p.count fit.small left (by omega)
      rw [limit] at reach
      dsimp only
      generalize minInt p.count.toInt32 _ = subCount at chunk ⊢
      obtain ⟨q, copies, advances⟩ :
          ∃ q, p.copy subCount (subCount * sectorSize).toUInt32 = some q ∧
            Advances keys write sectorSize p x q (x + m) :=
        copy_advances fit chunk less fun y low _ => copied y low (by omega)
      have count := advances.count
      obtain ⟨r, z, loops, later, ends⟩ := ih advances.fit (by omega) fun y low =>
        copied y (by omega)
      simp only [copies]
      exact ⟨r, z, loops, advances.trans later, ends⟩
    · rw [if_neg goesOn]
      refine ⟨p, x, rfl, Advances.refl fit, ?_⟩
      intro left
      by_contra below
      refine goesOn ⟨UInt32.lt_iff_toNat_lt.mpr left, UInt64.lt_iff_toNat_lt.mpr ?_⟩
      rw [fit.lba left]
      omega

structure Crypted (keys : List (StorageKeys κ)) (write : Bool) (size total m : Nat) (p : Pass)
    (x : Nat) (q : Pass) : Prop where
  count : q.count = p.count
  lba : q.lba.toNat = (p.lba.toNat + m) % 2 ^ 64
  src : q.src = p.src.drop (m * size)
  same : q.dst ++ sectors keys write size (x + m) (total - m) q.src = p.dst ++ sectors keys write size x total p.src

theorem cryptRun_crypted (m : Nat) : ∀ {p x total}, m * size ≤ p.src.length → m ≤ total →
    x + m ≤ 2 ^ 64 → (0 < m → p.lba.toNat = x) →
      (∀ y, x ≤ y → y < x + m → fate keys y = some key) →
        ∃ q, Pass.cryptRun (key.crypt write) size m p = some q ∧ Crypted keys write size total m p x q := by
  induction m with
  | zero =>
    intro p x total _ _ _ _ _
    have bound := p.lba.toNat_lt
    exact ⟨p, rfl, rfl, by omega, by simp, by simp⟩
  | succ m ih =>
    intro p x total bytes less high lba covered
    have start := lba (by omega)
    have word : UInt64.ofNat x = p.lba := by rw [← start, UInt64.ofNat_toNat]
    have one := UInt64.toNat_one
    have next : (p.lba + 1).toNat = (p.lba.toNat + 1) % 2 ^ 64 := by rw [UInt64.toNat_add, one]
    rw [Nat.succ_mul] at bytes
    obtain ⟨rest, rfl⟩ : ∃ rest, total = rest + 1 := ⟨total - 1, by omega⟩
    unfold Pass.cryptRun
    rw [if_neg (by omega)]
    have follows : 0 < m → (p.lba + 1).toNat = x + 1 := by
      intro _
      rw [next, start, Nat.mod_eq_of_lt (by omega)]
    have left : m * size ≤ (p.src.drop size).length := by
      rw [length_drop]
      omega
    obtain ⟨q, runs, crypted⟩ := @ih
      ⟨p.lba + 1, p.count, p.src.drop size, p.dst ++ key.crypt write p.lba (p.src.take size)⟩
      (x + 1) rest left (by omega) (by omega) follows fun y low high => covered y (by omega) (by omega)
    refine ⟨q, runs, crypted.count, ?_, ?_, ?_⟩
    · rw [crypted.lba, next]
      omega
    · rw [crypted.src, drop_drop, Nat.succ_mul, Nat.add_comm]
    · have same := crypted.same
      rw [show x + (m + 1) = x + 1 + m by omega, show rest + 1 - (m + 1) = rest - m by omega, same,
        sectors, covered x (Nat.le_refl x) (by omega), handled, word, append_assoc]

theorem crypt_advances {subCount : UInt32} (fit : Fit sectorSize p x) (chunk : subCount.toNat = m)
    (less : m ≤ p.count.toNat) (covered : ∀ y, x ≤ y → y < x + m → fate keys y = some key) :
    ∃ q, Pass.cryptRun (key.crypt write) sectorSize.toInt.toNat m { p with count := p.count - subCount } = some q ∧
      Advances keys write sectorSize p x q (x + m) := by
  have bound := p.count.toNat_lt
  have high := fit.high
  have rest : (p.count - subCount).toNat = p.count.toNat - m := by
    rw [UInt32.toNat_sub]
    omega
  obtain ⟨q, runs, crypted⟩ := @cryptRun_crypted κ keys key write sectorSize.toInt.toNat m
    { p with count := p.count - subCount } x p.count.toNat (fit.bytes_le less) less (by omega)
    (fun some => fit.lba (by omega)) covered
  have count : q.count.toNat = p.count.toNat - m := by
    rw [crypted.count]
    exact rest
  have same := crypted.same
  refine ⟨q, runs, fit.after less count crypted.lba crypted.src, by omega, by omega, ?_⟩
  rw [count]
  exact same

theorem cryptLoop_advances (write : Bool) (fuel : Nat) : ∀ {p x}, Fit sectorSize p x → p.count.toNat < fuel →
    (0 < p.count.toNat → ∀ y, x ≤ y → y ≤ key.lbaHigh.toNat → fate keys y = some key) →
      ∃ q y, p.cryptLoop (key.crypt write) key.lbaHigh sectorSize fuel = some q ∧
        Advances keys write sectorSize p x q y ∧ (0 < q.count.toNat → key.lbaHigh.toNat < y) := by
  induction fuel with
  | zero =>
    intro p x _ fuel
    omega
  | succ fuel ih =>
    intro p x fit enough covered
    have zero := UInt32.toNat_zero
    unfold Pass.cryptLoop
    by_cases goesOn : p.count > 0 ∧ key.lbaHigh ≥ p.lba
    · rw [if_pos goesOn]
      obtain ⟨left, below⟩ := goesOn
      rw [gt_iff_lt, UInt32.lt_iff_toNat_lt, zero] at left
      rw [ge_iff_le, UInt64.le_iff_toNat_le, fit.lba left] at below
      have limit : (key.lbaHigh - p.lba).toNat = key.lbaHigh.toNat - x := by
        have bound := key.lbaHigh.toNat_lt
        rw [UInt64.toNat_sub, fit.lba left]
        omega
      obtain ⟨m, chunk, taken, less, reach⟩ := @chunk_succ_bounds (key.lbaHigh - p.lba) p.count fit.small left
      rw [limit] at reach
      dsimp only
      generalize minInt p.count.toInt32 _ = subCount at chunk ⊢
      have times : subCount.toInt.toNat = m := by omega
      have number : subCount.toUInt32.toNat = m := by
        have number := (toNat_toUInt32 (show 0 ≤ subCount.toInt by omega)).1
        omega
      obtain ⟨q, crypts, advances⟩ :
          ∃ q, Pass.cryptRun (key.crypt write) sectorSize.toInt.toNat m
              { p with count := p.count - subCount.toUInt32 } = some q ∧
            Advances keys write sectorSize p x q (x + m) :=
        crypt_advances fit number less fun y low _ => covered left y low (by omega)
      have count := advances.count
      obtain ⟨r, z, loops, later, ends⟩ := ih advances.fit (by omega) fun _ y low high =>
        covered left y (by omega) high
      rw [times]
      simp only [crypts]
      exact ⟨r, z, loops, advances.trans later, ends⟩
    · rw [if_neg goesOn]
      refine ⟨p, x, rfl, Advances.refl fit, ?_⟩
      intro left
      by_contra below
      refine goesOn ⟨UInt32.lt_iff_toNat_lt.mpr left, UInt64.le_iff_toNat_le.mpr ?_⟩
      rw [fit.lba left]
      omega

theorem fate_above (above : key.lbaHigh.toNat < x) (reached : key.lbaLow.toNat ≤ x) :
    fate (key :: keys) x = fate keys x := by
  have passed : key.stops x = false := by
    simp only [StorageKeys.stops, decide_eq_false_iff_not]
    omega
  simp [fate, passed]

theorem fate_below (below : x < key.lbaLow.toNat) : fate (key :: keys) x = none := by
  have stops : key.stops x = true := by
    simp only [StorageKeys.stops, decide_eq_true_eq]
    omega
  simp [fate, stops, below]

theorem fate_inside (inside : key.Contains x) : fate (key :: keys) x = some key := by
  obtain ⟨low, high⟩ := inside
  have stops : key.stops x = true := by
    simp only [StorageKeys.stops, decide_eq_true_eq]
    omega
  simp [fate, stops, Nat.not_lt.mpr low]

theorem keysLoop_advances {fuel : Nat} {rest : List (StorageKeys κ)} : ∀ {p x},
    Fit sectorSize p x → p.count.toNat < fuel →
      (0 < p.count.toNat → ∀ y, x ≤ y → fate keys y = fate rest y) →
        ∃ q y, keysLoop write sectorSize fuel rest p = some q ∧
          Advances keys write sectorSize p x q y ∧ (0 < q.count.toNat → ∀ z, y ≤ z → fate keys z = none) := by
  induction rest with
  | nil =>
    intro p x fit _ same
    exact ⟨p, x, rfl, Advances.refl fit, fun left z beyond => same left z beyond⟩
  | cons key rest ih =>
    intro p x fit enough same
    have zero := UInt32.toNat_zero
    unfold keysLoop
    split
    · rename_i finished
      refine ⟨p, x, rfl, Advances.refl fit, ?_⟩
      intro left
      rw [finished, zero] at left
      omega
    · rename_i unfinished
      have left : 0 < p.count.toNat := by
        have differs : p.count.toNat ≠ 0 := fun equal =>
          unfinished (UInt32.toNat_inj.mp (equal.trans zero.symm))
        omega
      obtain ⟨q, y, copies, copied, reached⟩ := copyLoop_advances write fuel fit enough
        fun y low below => (same left y low).trans (fate_below below)
      have forward := copied.forward
      have count := copied.count
      obtain ⟨r, z, crypts, crypted, passed⟩ := cryptLoop_advances write fuel copied.fit
        (by omega) fun some y' low high =>
          (same left y' (by omega)).trans (fate_inside ⟨by have := reached some; omega, high⟩)
      have forward' := crypted.forward
      have count' := crypted.count
      obtain ⟨s, last, loops, later, ends⟩ := ih crypted.fit (by omega) fun some z' beyond => by
        have above := passed some
        have start := reached (by omega)
        exact (same left z' (by omega)).trans (fate_above (by omega) (by omega))
      simp only [copies, crypts]
      exact ⟨s, last, loops, (copied.trans crypted).trans later, ends⟩

/-- An access to sectors that are on the device, with a buffer of a size that an `unsigned int`
has. -/
structure StorageAccess.Valid (access : StorageAccess) : Prop where
  positive : 0 < access.sectorSize.toInt
  fits : access.count.toNat * access.sectorSize.toInt.toNat < 2 ^ 32
  small : access.count.toNat < 2 ^ 31
  high : access.lba.toNat + access.count.toNat ≤ 2 ^ 64

theorem storageHandleSectors_eq {access : StorageAccess} (valid : access.Valid) (inPlace : Bool)
    (bytes : src.length = access.count.toNat * access.sectorSize.toInt.toNat) :
    storageHandleSectors keys access inPlace src = some (sectors keys access.write
      access.sectorSize.toInt.toNat access.lba.toNat access.count.toNat src) := by
  have fits := valid.fits
  have fit : Fit access.sectorSize ⟨access.lba, access.count, src, []⟩ access.lba.toNat :=
    ⟨valid.positive, bytes, by simp only [bytes]; exact fits, valid.small, valid.high, fun _ => rfl⟩
  obtain ⟨q, y, loops, advances, rest⟩ := @keysLoop_advances κ keys access.write
    access.sectorSize _ keys _ _ fit (Nat.lt_succ_self _) fun _ _ _ => rfl
  have copied : sectors keys access.write access.sectorSize.toInt.toNat y q.count.toNat q.src = q.src := by
    by_cases left : 0 < q.count.toNat
    · rw [sectors_copied (Nat.le_refl _) fun z beyond _ => rest left z beyond, Nat.sub_self, sectors, take_append_drop]
    · rw [show q.count.toNat = 0 by omega, sectors]
  have same := advances.same
  rw [copied, nil_append] at same
  have size : (q.count * access.sectorSize.toUInt32).toNat = q.src.length := by
    have sectorSize := (toNat_toUInt32 (Int.le_of_lt valid.positive)).1
    have left := advances.fit.bytes
    have bound := advances.fit.fits
    rw [UInt32.toNat_mul, show access.sectorSize.toUInt32.toNat = access.sectorSize.toInt.toNat by omega,
      ← left, Nat.mod_eq_of_lt bound]
  unfold storageHandleSectors
  simp only [loops, size]
  rw [if_neg (Nat.lt_irrefl _), take_length, same, ite_self]

end DisasVisor.Storage
