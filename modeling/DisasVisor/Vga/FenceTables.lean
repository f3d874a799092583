import DisasVisor.Vga.IntelOverruns

/-!
The table of fences: what the two builds make of the same registers, and what it should be.
-/

namespace DisasVisor.Vga

open Function List

variable {reg : Registers} {offset off : Nat} {data : VgaFuncData} {i : Nat}

/-- The loop body of a build without `USE_64BIT`. -/
def readFence1W32 (reg : Registers) (offset off : Nat) (data : VgaFuncData) (i : Nat) : Option VgaFuncData :=
  let fencel := (reg (offset + 8 * i)).toNat
  if fencel &&& 0x1 = 0 then some data
  else if fencel &&& 0xFFFFF000 ≥ u32 (off + data.vramMappedLen) then some data
  else
    let fenceh := (reg (offset + 8 * i + 4)).toNat
    if fenceh ||| 0xFFF < off then some data
    else if fencel &&& 0x2 ≠ 0 then none
    else if data.nfence ≥ maxNfence then none
    else
      let fencepitch := 128 + (u32 (fenceh <<< 7) &&& 0x1FF80)
      let lowerBound := fencel &&& 0xFFFFF000
      let start := if lowerBound ≤ off then 0 else lowerBound - off
      some { data with
        fence := update data.fence data.nfence ⟨start, u32 ((fenceh ||| 0xFFF) - off + 1), fencepitch⟩
        fence0 := if start = 0 then some data.nfence else data.fence0
        nfence := data.nfence + 1 }

def vgaIntelReadFenceW32 (data : VgaFuncData) (reg : Registers) (offset off : Nat) : Option VgaFuncData :=
  if data.regLen.toNat < offset + 16 * 8 then some data
  else (range 16).foldlM (readFence1W32 reg offset off) data

def VgaFuncData.table (data : VgaFuncData) : List Fence := (range data.nfence).map data.fence

def lowerBound (reg : Registers) (offset i : Nat) : Nat := (reg (offset + 8 * i)).toNat &&& 0xFFFFF000

def upperBound (reg : Registers) (offset i : Nat) : Nat := (reg (offset + 8 * i + 4)).toNat ||| 0xFFF

def isValid (reg : Registers) (offset i : Nat) : Prop := (reg (offset + 8 * i)).toNat &&& 0x1 ≠ 0

instance : DecidablePred (isValid reg offset) := fun _ => inferInstanceAs (Decidable (_ ≠ _))

/-- The fence has a part of the `len` bytes from `off` on. -/
def Intersects (reg : Registers) (offset off len i : Nat) : Prop :=
  isValid reg offset i ∧ lowerBound reg offset i < off + len ∧ off ≤ upperBound reg offset i

instance (len : Nat) : DecidablePred (Intersects reg offset off len) := fun _ => inferInstanceAs (Decidable (_ ∧ _ ∧ _))

def fenceOf (reg : Registers) (offset off i : Nat) : Fence :=
  ⟨lowerBound reg offset i - off, upperBound reg offset i - off + 1,
    128 * (((reg (offset + 8 * i + 4)).toNat &&& 0x3FF) + 1)⟩

def fenceTable (reg : Registers) (offset off len : Nat) : List Fence :=
  ((range 16).filter (Intersects reg offset off len)).map (fenceOf reg offset off)

structure Agrees (reg : Registers) (offset off : Nat) (data wide narrow : VgaFuncData) : Prop where
  same : wide.table = narrow.table ∧ wide.fence0 = narrow.fence0
  table : wide.table = fenceTable reg offset off data.vramMappedLen
  notEmpty : ∀ f ∈ wide.table, f.start < f.stop
  contains : (∃ i < 16, Intersects reg offset off data.vramMappedLen i ∧ lowerBound reg offset i ≤ off) →
    ∃ k < wide.nfence, wide.fence0 = some k ∧ (wide.fence k).start = 0

theorem upperBound_eq (reg : Registers) (offset i : Nat) :
    upperBound reg offset i = ((reg (offset + 8 * i + 4)).toNat &&& 0xFFFFF000) + 0xFFF := by
  have small := (reg (offset + 8 * i + 4)).toNat_lt
  unfold upperBound
  generalize (reg (offset + 8 * i + 4)).toNat = x at small ⊢
  have low : (x &&& 0xFFFFF000) % 2 ^ 12 = 0 := by
    rw [Nat.and_mod_two_pow]
    exact Nat.and_zero _
  have parts := Nat.div_add_mod (x &&& 0xFFFFF000) (2 ^ 12)
  rw [low, Nat.add_zero] at parts
  have whole : 0xFFFFF000 ||| 0xFFF = 2 ^ 32 - 1 := by decide
  rw [← parts, Nat.two_pow_add_eq_or_of_lt (by decide), parts, Nat.or_comm (x &&& _), Nat.or_and_distrib_left,
    Nat.or_comm 0xFFF 0xFFFFF000, whole, Nat.and_two_pow_sub_one_eq_mod,
    Nat.mod_eq_of_lt (Nat.or_lt_two_pow (by decide) small), Nat.or_comm]

/-- What `vga_intel_read_fence` records with `USE_64BIT`. -/
def Taken (reg : Registers) (offset off len i : Nat) : Prop :=
  isValid reg offset i ∧ lowerBound reg offset i < off + len

instance (len : Nat) : DecidablePred (Taken reg offset off len) := fun _ => inferInstanceAs (Decidable (_ ∧ _))

def recordedStop (reg : Registers) (offset off i : Nat) : Nat :=
  u32 (((reg (offset + 8 * i + 4)).toNat &&& 0xFFFFF000) + 2 ^ 32 - off + 1)

theorem table_record (data : VgaFuncData) (f : Fence) (fence0 : Option Nat) :
    VgaFuncData.table { data with fence := update data.fence data.nfence f, fence0, nfence := data.nfence + 1 } =
      data.table ++ [f] := by
  unfold VgaFuncData.table
  rw [range_succ, map_append, map_singleton]
  dsimp only
  rw [update_self]
  congr 1
  refine map_congr_left fun i below => update_of_ne ?_ _ _
  exact Nat.ne_of_lt (mem_range.mp below)

theorem readFence1_step (room : data.nfence < maxNfence) (i : Nat) : ∃ data',
    readFence1 reg offset off data i = some data' ∧ data'.vramMappedLen = data.vramMappedLen ∧
      data'.nfence ≤ data.nfence + 1 ∧ data'.table.map Fence.stop = data.table.map Fence.stop ++
        if Taken reg offset off data.vramMappedLen i then [recordedStop reg offset off i] else [] := by
  unfold readFence1
  dsimp only
  by_cases invalid : (reg (offset + 8 * i)).toNat &&& 0x1 = 0
  · rw [if_pos invalid, if_neg fun taken : Taken reg offset off _ i => taken.1 invalid]
    exact ⟨data, rfl, rfl, Nat.le_succ _, (append_nil _).symm⟩
  · rw [if_neg invalid, if_neg (Nat.not_le.mpr room)]
    split
    · rename_i above
      rw [if_neg fun taken : Taken reg offset off _ i => absurd taken.2 (Nat.not_lt.mpr above)]
      exact ⟨data, rfl, rfl, Nat.le_succ _, (append_nil _).symm⟩
    · rename_i below
      have taken : Taken reg offset off data.vramMappedLen i := ⟨invalid, Nat.not_le.mp below⟩
      rw [if_pos taken]
      refine ⟨_, rfl, rfl, Nat.le_refl _, ?_⟩
      rw [table_record, map_append]
      rfl

theorem readFence_stops (reg : Registers) (offset off : Nat) (fences : List Nat) : ∀ data : VgaFuncData,
    data.nfence + fences.length ≤ maxNfence → ∃ data',
      fences.foldlM (readFence1 reg offset off) data = some data' ∧ data'.table.map Fence.stop =
        data.table.map Fence.stop ++
          (fences.filter (Taken reg offset off data.vramMappedLen)).map (recordedStop reg offset off) := by
  induction fences with
  | nil => exact fun data _ => ⟨data, rfl, (append_nil _).symm⟩
  | cons i fences ih =>
    intro data room
    rw [length_cons] at room
    obtain ⟨next, reads, same, nfence, stops⟩ := @readFence1_step reg offset off data (by omega) i
    obtain ⟨data', rest, more⟩ := ih next (by omega)
    refine ⟨data', ?_, ?_⟩
    · rw [foldlM_cons, reads]
      exact rest
    · rw [more, stops, same, append_assoc, filter_cons]
      simp only [decide_eq_true_eq]
      split
      · rfl
      · rfl

theorem foldlM_skips {σ ι : Type} {step : σ → ι → Option σ} {s : σ} (items : List ι)
    (skips : ∀ i ∈ items, step s i = some s) : items.foldlM step s = some s := by
  induction items with
  | nil => rfl
  | cons i items ih =>
    rw [foldlM_cons, skips i mem_cons_self]
    exact ih fun j member => skips j (mem_cons_of_mem i member)

theorem readFence1_skips (above : isValid reg offset i → off + data.vramMappedLen ≤ lowerBound reg offset i)
    (room : data.nfence < maxNfence) :
    readFence1 reg offset off data i = some data ∧ readFence1W32 reg offset off data i = some data := by
  unfold readFence1 readFence1W32
  dsimp only
  by_cases invalid : (reg (offset + 8 * i)).toNat &&& 0x1 = 0
  · rw [if_pos invalid, if_pos invalid]
    exact ⟨rfl, rfl⟩
  · have behind := above invalid
    unfold lowerBound at behind
    have behind' : u32 (off + data.vramMappedLen) ≤ (reg (offset + 8 * i)).toNat &&& 0xFFFFF000 :=
      Nat.le_trans (Nat.mod_le _ _) behind
    rw [if_neg invalid, if_neg invalid, if_neg (Nat.not_le.mpr room), if_pos behind, if_pos behind']
    exact ⟨rfl, rfl⟩

theorem filter_intersects (reg : Registers) (offset off len : Nat) (fences : List Nat) :
    (fences.filter (Intersects reg offset off len)).Sublist (fences.filter (Taken reg offset off len)) := by
  refine monotone_filter_right fences fun i meets => ?_
  obtain ⟨valid, below, -⟩ := of_decide_eq_true meets
  exact decide_eq_true ⟨valid, below⟩

theorem recordedStop_ne (off : UInt32) (meets : off.toNat ≤ upperBound reg offset i) :
    recordedStop reg offset off.toNat i ≠ upperBound reg offset i - off.toNat + 1 := by
  rw [upperBound_eq] at meets ⊢
  unfold recordedStop u32
  omega

/-- Both builds record what they should exactly when every valid fence begins behind the mapped part. -/
theorem fence_tables_iff (data : VgaFuncData) (reg : Registers) (offset : Nat) (off : UInt32)
    (mapped : offset + 16 * 8 ≤ data.regLen.toNat) :
    (∃ wide narrow, vgaIntelReadFence { data with nfence := 0, fence0 := none } reg offset off.toNat = some wide ∧
        vgaIntelReadFenceW32 { data with nfence := 0, fence0 := none } reg offset off.toNat = some narrow ∧
        Agrees reg offset off.toNat data wide narrow) ↔
      ∀ i < 16, isValid reg offset i → off.toNat + data.vramMappedLen ≤ lowerBound reg offset i := by
  unfold vgaIntelReadFence vgaIntelReadFenceW32
  rw [if_neg (by dsimp only; omega), if_neg (by dsimp only; omega)]
  constructor
  · rintro ⟨wide, narrow, reads, -, agrees⟩ i member valid
    by_contra below
    obtain ⟨wide', reads', stops⟩ := readFence_stops reg offset off.toNat (range 16)
      { data with nfence := 0, fence0 := none } (Nat.le_refl 16)
    rw [reads, Option.some.injEq] at reads'
    subst reads'
    rw [agrees.table, fenceTable, map_map] at stops
    change _ = [] ++ _ at stops
    rw [nil_append] at stops
    -- as many fences have a part as are recorded, so they are the same ones
    have length := congrArg List.length stops
    rw [length_map, length_map] at length
    have same := (filter_intersects reg offset off.toNat data.vramMappedLen (range 16)).eq_of_length length
    dsimp only at stops
    rw [same] at stops
    have taken : i ∈ (range 16).filter (Taken reg offset off.toNat data.vramMappedLen) :=
      mem_filter.mpr ⟨mem_range.mpr member, decide_eq_true ⟨valid, Nat.not_le.mp below⟩⟩
    have both := map_inj_left.mp stops i taken
    rw [← same] at taken
    have meets := of_decide_eq_true (mem_filter.mp taken).2
    exact recordedStop_ne off meets.2.2 both.symm
  · intro above
    have skips (i : Nat) (member : i ∈ range 16) := @readFence1_skips reg offset off.toNat
      { data with nfence := 0, fence0 := none } i (above i (mem_range.mp member)) (Nat.succ_pos 15)
    have none' (i : Nat) (member : i < 16) : ¬ Intersects reg offset off.toNat data.vramMappedLen i :=
      fun meets => Nat.not_lt.mpr (above i member meets.1) meets.2.1
    refine ⟨_, _, foldlM_skips _ fun i member => (skips i member).1,
      foldlM_skips _ fun i member => (skips i member).2, ⟨rfl, rfl⟩, ?_, ?_, ?_⟩
    · rw [fenceTable, filter_eq_nil_iff.mpr fun i member meets =>
        none' i (mem_range.mp member) (of_decide_eq_true meets)]
      rfl
    · exact fun f member => (not_mem_nil member).elim
    · rintro ⟨i, member, meets, -⟩
      exact (none' i member meets).elim

def oneFence (low : UInt32) : Registers := fun place => if place = 0x100000 then low else 0

def fencedData : VgaFuncData := { sampleData with regLen := 0x100080, vramMappedLen := 4096 }

/-- A valid fence behind the page that is mapped. -/
theorem fence_tables_behind : ∃ wide narrow,
    vgaIntelReadFence fencedData (oneFence 0x1001) 0x100000 (0 : UInt32).toNat = some wide ∧
      vgaIntelReadFenceW32 fencedData (oneFence 0x1001) 0x100000 (0 : UInt32).toNat = some narrow ∧
      Agrees (oneFence 0x1001) 0x100000 (0 : UInt32).toNat fencedData wide narrow :=
  (fence_tables_iff fencedData (oneFence 0x1001) 0x100000 0 (by decide)).mpr (by decide)

/-- The fence of the page that is mapped ends at 1, not at 4096. -/
theorem fence_ends_early : ¬ ∃ wide narrow,
    vgaIntelReadFence fencedData (oneFence 1) 0x100000 0 = some wide ∧
      vgaIntelReadFenceW32 fencedData (oneFence 1) 0x100000 0 = some narrow ∧
      Agrees (oneFence 1) 0x100000 0 fencedData wide narrow := by
  rintro ⟨wide, narrow, reads, -, agrees⟩
  obtain ⟨wide', reads', stops⟩ := readFence_stops (oneFence 1) 0x100000 0 (range 16) fencedData (Nat.le_refl 16)
  unfold vgaIntelReadFence at reads
  rw [if_neg (by decide), reads'] at reads
  rw [Option.some.inj reads, agrees.table] at stops
  exact absurd stops (by decide)

end DisasVisor.Vga
