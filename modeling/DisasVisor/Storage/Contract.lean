import DisasVisor.Storage.Coverage

/-!
What the storage encryption promises for the ranges of a configuration, and for which orders of the
ranges the single pass of `storage_handle_sectors` keeps the promise.
-/

namespace DisasVisor.Storage

open List

variable {κ : Type}

def selects (init : StorageInit) (conf : StorageKeysConf) : Bool :=
  (storageMatchGuid init.guid conf.guid || storageMatchBusid init conf) && init.matchExtend conf.extend == some true

def selected (init : StorageInit) (confs : List StorageKeysConf) : List StorageKeysConf := confs.filter (selects init)

def Accepts (init : StorageInit) (confs : List StorageKeysConf) : Prop :=
  ∀ conf ∈ confs, storageMatchGuid init.guid conf.guid ∨ storageMatchBusid init conf →
    init.matchExtend conf.extend ≠ none

def Known (init : StorageInit) (confs : List StorageKeysConf)
    (cryptoFind : String → Option (Crypto κ)) (crypto : String → Crypto κ) : Prop :=
  ∀ conf ∈ selected init confs, cryptoFind conf.cryptoName = some (crypto conf.cryptoName)

def StorageKeysConf.key (conf : StorageKeysConf) (crypto : String → Crypto κ)
    (cfgKeys : UInt8 → List UInt8) : StorageKeys κ where
  lbaLow := conf.lbaLow
  lbaHigh := conf.lbaHigh
  crypto := crypto conf.cryptoName
  keyctx := (crypto conf.cryptoName).setkey (cfgKeys conf.keyindex) conf.keybits

variable {init : StorageInit} {confs : List StorageKeysConf} {crypto : String → Crypto κ}
  {cryptoFind : String → Option (Crypto κ)} {cfgKeys : UInt8 → List UInt8}

theorem selected_skip {conf : StorageKeysConf} (skipped : selects init conf = false) :
    selected init (conf :: confs) = selected init confs :=
  filter_cons_of_neg (by simp [skipped])

theorem storageSetKeysLoop_eq (accepts : Accepts init confs)
    (known : Known init confs cryptoFind crypto) {keys : List (StorageKeys κ)} :
    keys.length ≤ storageMaxKeysPerDevice →
      storageSetKeysLoop cryptoFind cfgKeys init confs keys =
        if keys.length + (selected init confs).length ≤ storageMaxKeysPerDevice then
          some (keys ++ (selected init confs).map fun conf => conf.key crypto cfgKeys)
        else none := by
  induction confs generalizing keys with
  | nil =>
    intro room
    simp [storageSetKeysLoop, selected, room]
  | cons conf confs ih =>
    intro room
    have extend := accepts conf (mem_cons_self ..)
    have rest : Accepts init confs := fun conf member => accepts conf (mem_cons_of_mem _ member)
    unfold storageSetKeysLoop
    split
    · rename_i other
      have skipped : selects init conf = false := by
        simp only [selects]
        simp [other.1, other.2]
      rw [selected_skip skipped]
      exact ih rest (fun conf member => known conf (by rwa [selected_skip skipped])) room
    · rename_i device
      have device : storageMatchGuid init.guid conf.guid ∨ storageMatchBusid init conf := by
        by_contra neither
        exact device ⟨fun guid => neither (.inl guid), fun busid => neither (.inr busid)⟩
      cases matched : init.matchExtend conf.extend with
      | none => exact absurd matched (extend device)
      | some accepted =>
        cases accepted with
        | false =>
          have skipped : selects init conf = false := by simp [selects, matched]
          rw [selected_skip skipped]
          exact ih rest (fun conf member => known conf (by rwa [selected_skip skipped])) room
        | true =>
          have taken : selects init conf = true := by simp [selects, matched, device]
          have more : selected init (conf :: confs) = conf :: selected init confs := filter_cons_of_pos taken
          have name := known conf (by simp [more])
          have others : Known init confs cryptoFind crypto := fun conf member =>
            known conf (by rw [more]; exact mem_cons_of_mem _ member)
          simp only [more, length_cons, map_cons, name]
          split
          · rename_i free
            rw [ih rest others (by simp only [length_append, length_singleton]; omega)]
            simp only [length_append, length_singleton, append_assoc, singleton_append, StorageKeysConf.key]
            congr 2
            omega
          · rw [if_neg (by omega)]

theorem storageSetKeys_eq (accepts : Accepts init confs) (known : Known init confs cryptoFind crypto) :
    storageSetKeys cryptoFind cfgKeys init confs =
      if (selected init confs).length ≤ storageMaxKeysPerDevice then
        some ((selected init confs).map fun conf => conf.key crypto cfgKeys)
      else none := by
  have loop := @storageSetKeysLoop_eq κ init confs crypto cryptoFind cfgKeys accepts known [] (Nat.zero_le _)
  simpa [storageSetKeys] using loop

def InOrder (ranges : List (UInt64 × UInt64)) (x : Nat) : Prop :=
  ∀ before range after, ranges = before ++ range :: after →
    (range.1.toNat ≤ x ∧ x ≤ range.2.toNat) →
      (∀ other ∈ before, ¬(other.1.toNat ≤ x ∧ x ≤ other.2.toNat)) →
        ∀ other ∈ before, other.1.toNat ≤ x

def StorageKeys.range (key : StorageKeys κ) : UInt64 × UInt64 := (key.lbaLow, key.lbaHigh)

variable {keys : List (StorageKeys κ)} {x : Nat}

theorem first_key : (∃ key ∈ keys, key.Contains x) → ∃ before key after,
    keys = before ++ key :: after ∧ key.Contains x ∧ ∀ other ∈ before, ¬other.Contains x := by
  classical
  intro contained
  obtain ⟨key, found⟩ : ∃ key, keys.find? (fun key => decide (key.Contains x)) = some key :=
    Option.isSome_iff_exists.mp (List.find?_isSome.mpr (by simpa using contained))
  obtain ⟨contains, before, after, split, others⟩ := List.find?_eq_some_iff_append.mp found
  exact ⟨before, key, after, split, by simpa using contains, by simpa using others⟩

theorem fate_some {key : StorageKeys κ} (found : fate keys x = some key) : key ∈ keys ∧ key.Contains x := by
  unfold fate at found
  cases search : keys.find? fun key => key.stops x with
  | none => simp [search] at found
  | some first =>
    rw [search] at found
    dsimp only at found
    split at found
    · cases found
    · cases found
      have stops := List.find?_some search
      simp only [StorageKeys.stops, decide_eq_true_eq] at stops
      exact ⟨mem_of_find?_eq_some search, by omega, by omega⟩

theorem fate_skip {key : StorageKeys κ} (low : key.lbaLow.toNat ≤ x) (other : ¬key.Contains x) :
    fate (key :: keys) x = fate keys x :=
  fate_above (by simp only [StorageKeys.Contains] at other; omega) low

theorem fate_skips {before : List (StorageKeys κ)} (low : ∀ other ∈ before, other.lbaLow.toNat ≤ x)
    (others : ∀ other ∈ before, ¬other.Contains x) : fate (before ++ keys) x = fate keys x := by
  induction before with
  | nil => rfl
  | cons other before ih =>
    rw [cons_append, fate_skip (low other (mem_cons_self ..)) (others other (mem_cons_self ..))]
    exact ih (fun key member => low key (mem_cons_of_mem _ member))
      fun key member => others key (mem_cons_of_mem _ member)

theorem fate_blocked {before : List (StorageKeys κ)} {blocking : StorageKeys κ}
    (member : blocking ∈ before) (above : x < blocking.lbaLow.toNat)
    (others : ∀ other ∈ before, ¬other.Contains x) : fate (before ++ keys) x = none := by
  induction before with
  | nil => cases member
  | cons other before ih =>
    rw [cons_append]
    by_cases below : x < other.lbaLow.toNat
    · exact fate_below below
    · rw [fate_skip (by omega) (others other (mem_cons_self ..))]
      refine ih ?_ fun key member => others key (mem_cons_of_mem _ member)
      cases member with
      | head => omega
      | tail _ member => exact member

theorem fate_inOrder (inOrder : InOrder (keys.map StorageKeys.range) x)
    (contained : ∃ key ∈ keys, key.Contains x) : ∃ key, fate keys x = some key := by
  obtain ⟨before, key, after, rfl, contains, others⟩ := first_key contained
  have low : ∀ other ∈ before, other.lbaLow.toNat ≤ x := by
    intro other member
    refine inOrder (before.map StorageKeys.range) key.range (after.map StorageKeys.range)
      (by simp) contains ?_ other.range (mem_map_of_mem member)
    intro range listed
    obtain ⟨earlier, early, rfl⟩ := mem_map.mp listed
    exact others earlier early
  exact ⟨key, by rw [fate_skips low others, fate_inside contains]⟩

theorem fate_not_inOrder (outOfOrder : ¬InOrder (keys.map StorageKeys.range) x) :
    (∃ key ∈ keys, key.Contains x) ∧ fate keys x = none := by
  simp only [InOrder, not_forall] at outOfOrder
  obtain ⟨before, range, after, split, contains, others, blocking, member, above⟩ := outOfOrder
  obtain ⟨before, rest, rfl, rfl, tail⟩ := map_eq_append_iff.mp split
  obtain ⟨key, after, rfl, rfl, rfl⟩ := map_eq_cons_iff.mp tail
  obtain ⟨blocker, listed, rfl⟩ := mem_map.mp member
  refine ⟨⟨key, by simp, contains⟩, fate_blocked listed (Nat.lt_of_not_le above) ?_⟩
  intro other earlier
  exact others other.range (mem_map_of_mem earlier)

def sector (size i : Nat) (buf : List UInt8) : List UInt8 := (buf.drop (i * size)).take size

def KeepsLength (keys : List (StorageKeys κ)) : Prop :=
  ∀ key ∈ keys, ∀ write lba sector, (key.crypt write lba sector).length = sector.length

variable {write : Bool} {size count more : Nat} {src : List UInt8}

theorem length_handled (keeps : KeepsLength keys) : (handled write (fate keys x) x src).length = src.length := by
  cases found : fate keys x with
  | none => rfl
  | some key => exact keeps key (fate_some found).1 write _ src

theorem length_sectors (keeps : KeepsLength keys) (bytes : src.length = count * size) :
    (sectors keys write size x count src).length = src.length := by
  induction count generalizing x src with
  | zero => rfl
  | succ count ih =>
    rw [Nat.succ_mul] at bytes
    rw [sectors, length_append, length_handled keeps, ih (by rw [length_drop]; omega), length_take, length_drop]
    omega

theorem sector_sectors (keeps : KeepsLength keys) {i : Nat} (bytes : src.length = count * size)
    (less : i < count) : sector size i (sectors keys write size x count src) =
      handled write (fate keys (x + i)) (x + i) (sector size i src) := by
  induction i generalizing x count src with
  | zero =>
    cases count with
    | zero => omega
    | succ count =>
      rw [Nat.succ_mul] at bytes
      have first : (handled write (fate keys x) x (src.take size)).length = size := by
        rw [length_handled keeps, length_take]
        omega
      rw [sectors, sector, sector, Nat.zero_mul, drop_zero, drop_zero, Nat.add_zero]
      exact take_left' first
  | succ i ih =>
    cases count with
    | zero => omega
    | succ count =>
      rw [Nat.succ_mul] at bytes
      have first : (handled write (fate keys x) x (src.take size)).length = size := by
        rw [length_handled keeps, length_take]
        omega
      have rest := @ih (x + 1) count (src.drop size) (by rw [length_drop]; omega) (by omega)
      rw [sector, sector, drop_drop] at rest
      rw [sectors, sector, sector, Nat.succ_mul, Nat.add_comm (i * size) size, ← drop_drop,
        drop_left' first, rest, show x + 1 + i = x + (i + 1) by omega]

theorem sectors_add (enough : count * size ≤ src.length) :
    sectors keys write size x (count + more) src =
      sectors keys write size x count (src.take (count * size)) ++
        sectors keys write size (x + count) more (src.drop (count * size)) := by
  induction count generalizing x src with
  | zero => simp [sectors]
  | succ count ih =>
    have product : (count + 1) * size = size + count * size := by rw [Nat.succ_mul, Nat.add_comm]
    rw [product] at enough
    rw [show count + 1 + more = count + more + 1 by omega, sectors, sectors,
      ih (by rw [length_drop]; omega), append_assoc, product, take_take,
      Nat.min_eq_left (by omega), ← drop_drop, drop_take, Nat.add_sub_cancel_left,
      show x + 1 + count = x + (count + 1) by omega]

theorem sectors_read (keeps : KeepsLength keys)
    (inverse : ∀ key ∈ keys, ∀ lba sector, key.crypt false lba (key.crypt true lba sector) = sector)
    (bytes : src.length = count * size) :
    sectors keys false size x count (sectors keys true size x count src) = src := by
  induction count generalizing x src with
  | zero => rfl
  | succ count ih =>
    rw [Nat.succ_mul] at bytes
    have first : (handled true (fate keys x) x (src.take size)).length = size := by
      rw [length_handled keeps, length_take]
      omega
    have back : handled false (fate keys x) x (handled true (fate keys x) x (src.take size)) = src.take size := by
      cases found : fate keys x with
      | none => rfl
      | some key => exact inverse key (fate_some found).1 _ _
    rw [sectors, sectors, take_left' first, drop_left' first, back, ih (by rw [length_drop]; omega), take_append_drop]

structure Covered (keys : List (StorageKeys κ)) (access : StorageAccess) (src out : List UInt8) :
    Prop where
  length : out.length = src.length
  inside : ∀ i < access.count.toNat, (∃ key ∈ keys, key.Contains (access.lba.toNat + i)) →
    ∃ key ∈ keys, key.Contains (access.lba.toNat + i) ∧
      sector access.sectorSize.toInt.toNat i out =
        key.crypt access.write (UInt64.ofNat (access.lba.toNat + i))
          (sector access.sectorSize.toInt.toNat i src)
  outside : ∀ i < access.count.toNat, (¬∃ key ∈ keys, key.Contains (access.lba.toNat + i)) →
    sector access.sectorSize.toInt.toNat i out = sector access.sectorSize.toInt.toNat i src

def Splits (keys : List (StorageKeys κ)) (access : StorageAccess) (inPlace : Bool) (src out : List UInt8) : Prop :=
  ∀ first second : UInt32, first.toNat + second.toNat = access.count.toNat →
    ∃ low high,
      storageHandleSectors keys ⟨access.lba, first, access.sectorSize, access.write⟩ inPlace
        (src.take (first.toNat * access.sectorSize.toInt.toNat)) = some low ∧
      storageHandleSectors keys
        ⟨access.lba + first.toUInt64, second, access.sectorSize, access.write⟩ inPlace
        (src.drop (first.toNat * access.sectorSize.toInt.toNat)) = some high ∧
      out = low ++ high

def ReadsBack (keys : List (StorageKeys κ)) (access : StorageAccess) (inPlace : Bool) (src out : List UInt8) : Prop :=
  access.write = true →
    (∀ key ∈ keys, ∀ lba sector, key.crypt false lba (key.crypt true lba sector) = sector) →
      storageHandleSectors keys ⟨access.lba, access.count, access.sectorSize, false⟩ inPlace out =
        some src

def StorageContract (init : StorageInit) (confs : List StorageKeysConf) (access : StorageAccess) : Prop :=
  ∀ (κ : Type) (cryptoFind : String → Option (Crypto κ)) (crypto : String → Crypto κ)
    (cfgKeys : UInt8 → List UInt8), Known init confs cryptoFind crypto →
      KeepsLength ((selected init confs).map fun conf => conf.key crypto cfgKeys) →
        ∃ keys, storageSetKeys cryptoFind cfgKeys init confs = some keys ∧
          ∀ inPlace src, src.length = access.count.toNat * access.sectorSize.toInt.toNat →
            ∃ out, storageHandleSectors keys access inPlace src = some out ∧
              Covered keys access src out ∧ Splits keys access inPlace src out ∧
              ReadsBack keys access inPlace src out

variable {access : StorageAccess} {inPlace : Bool} {out : List UInt8}

section

variable (valid : access.Valid)
include valid

theorem covered (keeps : KeepsLength keys) (inOrder : ∀ i < access.count.toNat,
      InOrder (keys.map StorageKeys.range) (access.lba.toNat + i))
    (bytes : src.length = access.count.toNat * access.sectorSize.toInt.toNat) :
    Covered keys access src (sectors keys access.write access.sectorSize.toInt.toNat
      access.lba.toNat access.count.toNat src) := by
  refine ⟨length_sectors keeps bytes, ?_, ?_⟩
  · intro i less contained
    obtain ⟨key, found⟩ := fate_inOrder (inOrder i less) contained
    obtain ⟨member, contains⟩ := fate_some found
    refine ⟨key, member, contains, ?_⟩
    rw [sector_sectors keeps bytes less, found, handled]
  · intro i less free
    rw [sector_sectors keeps bytes less]
    cases found : fate keys (access.lba.toNat + i) with
    | none => rfl
    | some key =>
      obtain ⟨member, contains⟩ := fate_some found
      exact absurd ⟨key, member, contains⟩ free

theorem StorageAccess.Valid.fewer {part : StorageAccess}
    (size : part.sectorSize = access.sectorSize) (less : part.count.toNat ≤ access.count.toNat)
    (high : part.lba.toNat + part.count.toNat ≤ 2 ^ 64) : part.Valid := by
  have fits := valid.fits
  have small := valid.small
  have product : part.count.toNat * access.sectorSize.toInt.toNat ≤
      access.count.toNat * access.sectorSize.toInt.toNat := Nat.mul_le_mul_right _ less
  refine ⟨?_, ?_, by omega, high⟩
  · rw [size]
    exact valid.positive
  · rw [size]
    omega

theorem splits (bytes : src.length = access.count.toNat * access.sectorSize.toInt.toNat) :
    Splits keys access inPlace src (sectors keys access.write access.sectorSize.toInt.toNat
      access.lba.toNat access.count.toNat src) := by
  intro first second total
  have ends := valid.high
  have product : first.toNat * access.sectorSize.toInt.toNat +
      second.toNat * access.sectorSize.toInt.toNat = src.length := by
    rw [bytes, ← total, Nat.add_mul]
  have middle : (access.lba + first.toUInt64).toNat = (access.lba.toNat + first.toNat) % 2 ^ 64 := by
    rw [UInt64.toNat_add, UInt32.toNat_toUInt64]
  have lowValid : StorageAccess.Valid ⟨access.lba, first, access.sectorSize, access.write⟩ :=
    valid.fewer rfl (by simp only; omega) (by simp only; omega)
  have highValid : StorageAccess.Valid ⟨access.lba + first.toUInt64, second, access.sectorSize, access.write⟩ :=
    valid.fewer rfl (by simp only; omega) (by simp only [middle]; omega)
  refine ⟨_, _, storageHandleSectors_eq lowValid inPlace ?_, storageHandleSectors_eq highValid inPlace ?_, ?_⟩
  · simp only [length_take]
    omega
  · simp only [length_drop]
    omega
  · rw [← total, sectors_add (by omega)]
    congr 1
    simp only [middle]
    by_cases rest : second.toNat = 0
    · rw [rest, sectors, sectors]
    · rw [Nat.mod_eq_of_lt (by omega)]

theorem readsBack (keeps : KeepsLength keys)
    (bytes : src.length = access.count.toNat * access.sectorSize.toInt.toNat) :
    ReadsBack keys access inPlace src (sectors keys access.write access.sectorSize.toInt.toNat
      access.lba.toNat access.count.toNat src) := by
  intro written inverse
  have readValid : StorageAccess.Valid ⟨access.lba, access.count, access.sectorSize, false⟩ :=
    ⟨valid.positive, valid.fits, valid.small, valid.high⟩
  rw [written, storageHandleSectors_eq readValid inPlace ((length_sectors keeps bytes).trans bytes),
    sectors_read keeps inverse bytes]

end

def bump : Crypto Unit where
  encrypt := fun _ _ sector => sector.map (· + 1)
  decrypt := fun _ _ sector => sector.map (· + 1)
  setkey := fun _ _ => ()

theorem crypt_bump {key : StorageKeys Unit} (cipher : key.crypto = bump) (write : Bool) (lba : UInt64)
    (sector : List UInt8) : key.crypt write lba sector = sector.map (· + 1) := by
  unfold StorageKeys.crypt
  cases write <;> simp [cipher, bump]

theorem inOrder_of_covered {keys : List (StorageKeys Unit)}
    (cipher : ∀ key ∈ keys, key.crypto = bump) (valid : access.Valid) (covered : Covered keys access
      (List.replicate (access.count.toNat * access.sectorSize.toInt.toNat) 0)
      (sectors keys access.write access.sectorSize.toInt.toNat access.lba.toNat access.count.toNat
        (List.replicate (access.count.toNat * access.sectorSize.toInt.toNat) 0)))
    {i : Nat} (less : i < access.count.toNat) : InOrder (keys.map StorageKeys.range) (access.lba.toNat + i) := by
  by_contra outOfOrder
  have positive := valid.positive
  have keeps : KeepsLength keys := by
    intro key member write lba sector
    rw [crypt_bump (cipher key member), length_map]
  obtain ⟨contained, missed⟩ := fate_not_inOrder outOfOrder
  obtain ⟨key, member, _, same⟩ := covered.inside i less contained
  rw [sector_sectors keeps (length_replicate ..) less, missed, handled, crypt_bump (cipher key member)] at same
  have room : (i + 1) * access.sectorSize.toInt.toNat ≤
      access.count.toNat * access.sectorSize.toInt.toNat := Nat.mul_le_mul_right _ less
  rw [Nat.succ_mul] at room
  have zeros : sector access.sectorSize.toInt.toNat i
      (List.replicate (access.count.toNat * access.sectorSize.toInt.toNat) (0 : UInt8)) =
        List.replicate access.sectorSize.toInt.toNat 0 := by
    rw [sector, drop_replicate, take_replicate, Nat.min_eq_left (by omega)]
  rw [zeros, map_replicate, replicate_inj] at same
  rcases same.2 with none | equal
  · omega
  · cases equal

theorem map_range_key (crypto : String → Crypto κ) (cfgKeys : UInt8 → List UInt8) :
    ((selected init confs).map fun conf => conf.key crypto cfgKeys).map StorageKeys.range =
      (selected init confs).map fun conf => (conf.lbaLow, conf.lbaHigh) := by
  rw [map_map]
  rfl

theorem contract_inOrder (accepts : Accepts init confs) (valid : access.Valid)
    (contract : StorageContract init confs access) :
    (selected init confs).length ≤ storageMaxKeysPerDevice ∧
      ∀ i < access.count.toNat,
        InOrder ((selected init confs).map fun conf => (conf.lbaLow, conf.lbaHigh)) (access.lba.toNat + i) := by
  have cipher : ∀ key ∈ (selected init confs).map fun conf =>
      conf.key (fun _ => bump) (fun _ => []), key.crypto = bump := by
    intro key member
    obtain ⟨conf, _, rfl⟩ := mem_map.mp member
    rfl
  have known : Known init confs (fun _ => some bump) fun _ => bump := fun _ _ => rfl
  obtain ⟨keys, set, handles⟩ := contract Unit (fun _ => some bump) (fun _ => bump) (fun _ => [])
    known fun key member write lba sector => by
      rw [crypt_bump (cipher key member), length_map]
  rw [storageSetKeys_eq accepts known] at set
  split at set
  · rename_i room
    cases set
    refine ⟨room, ?_⟩
    intro i less
    obtain ⟨out, handled, covered, _⟩ := handles false _ (length_replicate (a := (0 : UInt8)))
    rw [storageHandleSectors_eq valid false (length_replicate ..)] at handled
    cases handled
    rw [← map_range_key (fun _ => bump) fun _ => []]
    exact inOrder_of_covered cipher valid covered less
  · cases set

theorem inOrder_contract (accepts : Accepts init confs) (valid : access.Valid)
    (room : (selected init confs).length ≤ storageMaxKeysPerDevice) (inOrder : ∀ i < access.count.toNat,
      InOrder ((selected init confs).map fun conf => (conf.lbaLow, conf.lbaHigh))
        (access.lba.toNat + i)) : StorageContract init confs access := by
  intro κ cryptoFind crypto cfgKeys known keeps
  refine ⟨_, (storageSetKeys_eq accepts known).trans (if_pos room), ?_⟩
  intro inPlace src bytes
  refine ⟨_, storageHandleSectors_eq valid inPlace bytes, covered valid keeps ?_ bytes,
    splits valid bytes, readsBack valid keeps bytes⟩
  rw [map_range_key]
  exact inOrder

theorem inOrder_of_sorted {ranges : List (UInt64 × UInt64)}
    (sorted : ranges.Pairwise fun a b => a.1.toNat ≤ b.1.toNat) : InOrder ranges x := by
  rintro before range after rfl ⟨low, _⟩ _ other member
  have below := (pairwise_append.mp sorted).2.2 other member range (mem_cons_self ..)
  omega

/-- The device keeps its promise for an access exactly when it has room for the keys and, for each
sector of the access, no range above the sector stands before the first range that has it. -/
theorem storage_handle_sectors_contract (init : StorageInit) (confs : List StorageKeysConf)
    (access : StorageAccess) (accepts : Accepts init confs) (valid : access.Valid) :
    StorageContract init confs access ↔
      (selected init confs).length ≤ storageMaxKeysPerDevice ∧
      ∀ i < access.count.toNat,
        InOrder ((selected init confs).map fun conf => (conf.lbaLow, conf.lbaHigh))
          (access.lba.toNat + i) :=
  ⟨contract_inOrder accepts valid, fun ⟨room, inOrder⟩ =>
    inOrder_contract accepts valid room inOrder⟩

def disk : StorageInit where
  guid := anyguid
  type := .ata
  hostId := 0
  deviceId := 0
  matchExtend := fun _ => some true

def entry (low high : UInt64) : StorageKeysConf where
  guid := anyguid
  type := .any
  hostId := storageHostIdAny
  deviceId := storageDeviceIdAny
  lbaLow := low
  lbaHigh := high
  cryptoName := "aes-xts"
  keyindex := 0
  keybits := 256
  extend := ""

def sectorWrite (lba : UInt64) : StorageAccess where
  lba := lba
  count := 1
  sectorSize := 512
  write := true

theorem sectorWrite_valid {lba : UInt64} (small : lba.toNat < 2 ^ 63) : (sectorWrite lba).Valid := by
  have one := UInt32.toNat_one
  have size : (512 : Int32).toInt = 512 := rfl
  refine ⟨?_, ?_, ?_, ?_⟩ <;> simp only [sectorWrite, one, size] <;> omega

theorem storage_handle_sectors_contract_sorted : StorageContract disk [entry 0 50, entry 100 200] (sectorWrite 120) :=
  (storage_handle_sectors_contract disk [entry 0 50, entry 100 200] (sectorWrite 120)
    (fun _ _ _ => by simp [disk]) (sectorWrite_valid (by decide))).mpr
    ⟨by decide, fun _ _ => inOrder_of_sorted (by decide)⟩

/-- The higher range first: a sector of the other one is written as it is. -/
theorem higher_range_first : Accepts disk [entry 100 200, entry 0 50] ∧ (sectorWrite 0).Valid ∧
    ¬StorageContract disk [entry 100 200, entry 0 50] (sectorWrite 0) := by
  have accepts : Accepts disk [entry 100 200, entry 0 50] := fun _ _ _ => by simp [disk]
  have valid : (sectorWrite 0).Valid := sectorWrite_valid (by decide)
  refine ⟨accepts, valid, ?_⟩
  intro contract
  have inOrder := (contract_inOrder accepts valid contract).2 0 (by decide)
  have low := inOrder [(100, 200)] (0, 50) [] rfl (by decide) (forall_mem_singleton.mpr (by decide))
    (100, 200) (mem_singleton_self _)
  exact absurd low (by decide)

end DisasVisor.Storage
