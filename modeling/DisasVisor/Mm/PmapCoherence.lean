import DisasVisor.Mm.Pmap

/-!
When the cursor's cached entries are those of a walk from the root.
-/

namespace DisasVisor.Mm

open Function

variable {tables : Tables} {m : Pmap} {cr3 addr : Word} {levels : Nat}

def Descends (level : Nat) (e : Word) : Prop :=
  e &&& pdePBit ≠ 0 ∧ ¬(level = 2 ∧ e &&& pdePsBit ≠ 0) ∧ ¬(level = 1 ∧ e &&& pdePsBit ≠ 0)

instance (level : Nat) (e : Word) : Decidable (Descends level e) := inferInstanceAs (Decidable (_ ∧ _ ∧ _))

def walk (tables : Tables) (levels : Nat) (addr : Word) (curlevel : Nat) : Nat → Word → Word
  | 0, e => e
  | below + 1, e =>
    let level := curlevel + below + 1
    if e &&& pdePBit = 0 then 0
    else if level = 2 ∧ e &&& pdePsBit ≠ 0 then
      if curlevel = 0 then handlePdePsBit levels (pdeOfPdpe e addr) addr else pdeOfPdpe e addr
    else if level = 1 ∧ e &&& pdePsBit ≠ 0 then handlePdePsBit levels e addr
    else walk tables levels addr curlevel below (pmapRd levels tables (pmapEntryaddr levels (level - 1) e addr))

structure Coherent (tables : Tables) (levels : Nat) (cr3 : Word) (m : Pmap) : Prop where
  levels_eq : m.levels = levels
  readlevel_le : m.readlevel ≤ levels
  curlevel_lt : m.curlevel < levels
  root : m.entry levels = rootEntry cr3
  descends : ∀ k, m.readlevel ≤ k → k < levels → Descends (k + 1) (m.entry (k + 1))
  entryaddr : ∀ k, m.readlevel ≤ k → k < levels → m.entryaddr k = pmapEntryaddr levels k (m.entry (k + 1)) m.curaddr
  entry : ∀ k, m.readlevel ≤ k → k < levels → m.entry k = pmapRd levels tables (m.entryaddr k)

variable {e : Word} {after : Tables × Pmap} {alloc : Tables → Pmap → Word}

theorem walk_descends {curlevel below : Nat} (down : Descends (curlevel + below + 1) e) :
    walk tables levels addr curlevel (below + 1) e =
      walk tables levels addr curlevel below
        (pmapRd levels tables (pmapEntryaddr levels (curlevel + below) e addr)) := by
  rw [walk, if_neg down.1, if_neg down.2.1, if_neg down.2.2]
  rfl

theorem Coherent.walk_root (coherent : Coherent tables levels cr3 m) (below : Nat) :
    m.readlevel ≤ m.curlevel + below → m.curlevel + below ≤ levels →
      walk tables levels m.curaddr m.curlevel (levels - m.curlevel) (rootEntry cr3) =
        walk tables levels m.curaddr m.curlevel below (m.entry (m.curlevel + below)) := by
  generalize gap : levels - (m.curlevel + below) = above
  induction above generalizing below with
  | zero =>
    intro _ bound
    have top : m.curlevel + below = levels := by omega
    rw [top, coherent.root, ← top]
    simp
  | succ above ih =>
    intro read bound
    have inside : m.curlevel + below < levels := by omega
    rw [ih (below + 1) (by omega) (by omega) (by omega), ← Nat.add_assoc,
      walk_descends (coherent.descends _ read inside), ← coherent.entryaddr _ read inside,
      ← coherent.entry _ read inside]

theorem pmapReadLoop_walk (below : Nat) : ∀ m : Pmap, m.readlevel = m.curlevel + below →
    (pmapReadLoop tables below m).1 = walk tables m.levels m.curaddr m.curlevel below (m.entry m.readlevel) := by
  induction below with
  | zero =>
    intro m read
    simp only [pmapReadLoop, walk, read, Nat.add_zero]
  | succ below ih =>
    intro m read
    simp only [pmapReadLoop, walk]
    rw [← Nat.add_assoc] at read
    rw [read]
    split
    · rfl
    · split
      · rfl
      · split
        · rfl
        · have next := ih (m.descend tables) (by simp [Pmap.descend, read])
          rw [next]
          simp [Pmap.descend, read]

theorem descend_coherent (coherent : Coherent tables levels cr3 m) (more : 0 < m.readlevel)
    (down : Descends m.readlevel (m.entry m.readlevel)) :
    Coherent tables levels cr3 (m.descend tables) where
  levels_eq := coherent.levels_eq
  readlevel_le := by
    have bound := coherent.readlevel_le
    simp only [Pmap.descend]
    omega
  curlevel_lt := coherent.curlevel_lt
  root := by
    have bound := coherent.readlevel_le
    have other : levels ≠ m.readlevel - 1 := by omega
    simpa [Pmap.descend, other] using coherent.root
  descends k low high := by
    simp only [Pmap.descend] at low ⊢
    have other : k + 1 ≠ m.readlevel - 1 := by omega
    rw [update_of_ne other]
    by_cases first : k + 1 = m.readlevel
    · rwa [first]
    · exact coherent.descends k (by omega) high
  entryaddr k low high := by
    simp only [Pmap.descend] at low ⊢
    have other : k + 1 ≠ m.readlevel - 1 := by omega
    rw [update_of_ne other]
    by_cases first : k + 1 = m.readlevel
    · have same : k = m.readlevel - 1 := by omega
      rw [same, update_self, coherent.levels_eq, ← same, first]
    · rw [update_of_ne (by omega)]
      exact coherent.entryaddr k (by omega) high
  entry k low high := by
    simp only [Pmap.descend] at low ⊢
    by_cases first : k + 1 = m.readlevel
    · have same : k = m.readlevel - 1 := by omega
      rw [same, update_self, update_self, coherent.levels_eq]
    · rw [update_of_ne (by omega), update_of_ne (by omega)]
      exact coherent.entry k (by omega) high

theorem pmapReadLoop_coherent (below : Nat) : ∀ m : Pmap,
    Coherent tables levels cr3 m → m.readlevel = m.curlevel + below →
    Coherent tables levels cr3 (pmapReadLoop tables below m).2 ∧
      (pmapReadLoop tables below m).2.curaddr = m.curaddr ∧
      (pmapReadLoop tables below m).2.curlevel = m.curlevel ∧
      (pmapReadLoop tables below m).2.readlevel ≤ m.readlevel ∧
      (Descends m.readlevel (m.entry m.readlevel) → 0 < below →
        (pmapReadLoop tables below m).2.readlevel < m.readlevel) := by
  induction below with
  | zero =>
    intro m coherent _
    exact ⟨coherent, rfl, rfl, le_refl _, by omega⟩
  | succ below ih =>
    intro m coherent read
    simp only [pmapReadLoop]
    split
    · rename_i absent
      exact ⟨coherent, rfl, rfl, le_refl _, fun down _ => absurd absent down.1⟩
    · split
      · rename_i large
        exact ⟨coherent, rfl, rfl, le_refl _, fun down _ => absurd large down.2.1⟩
      · split
        · rename_i large
          exact ⟨coherent, rfl, rfl, le_refl _, fun down _ => absurd large down.2.2⟩
        · rename_i present small smaller
          have next := descend_coherent coherent (by omega) ⟨present, small, smaller⟩
          obtain ⟨kept, addr, level, lower, _⟩ := ih _ next (by simp [Pmap.descend, read])
          refine ⟨kept, addr, level, ?_, fun _ _ => ?_⟩
          · exact lower.trans (by simp [Pmap.descend])
          · exact lt_of_le_of_lt lower (by simp only [Pmap.descend]; omega)

theorem pmapRead_walk (coherent : Coherent tables levels cr3 m) :
    (pmapRead tables m).1 = walk tables levels m.curaddr m.curlevel (levels - m.curlevel) (rootEntry cr3) := by
  have high := coherent.readlevel_le
  have low := coherent.curlevel_lt
  by_cases cached : m.readlevel ≤ m.curlevel
  · rw [coherent.walk_root 0 (by omega) (by omega), pmapRead, Nat.sub_eq_zero_of_le cached]
    rfl
  · have read : m.readlevel = m.curlevel + (m.readlevel - m.curlevel) := by omega
    rw [coherent.walk_root (m.readlevel - m.curlevel) (by omega) (by omega), pmapRead,
      pmapReadLoop_walk _ m read, coherent.levels_eq, ← read]

theorem pmapRead_coherent (coherent : Coherent tables levels cr3 m) :
    Coherent tables levels cr3 (pmapRead tables m).2 := by
  by_cases cached : m.readlevel ≤ m.curlevel
  · rw [pmapRead, Nat.sub_eq_zero_of_le cached]
    exact coherent
  · exact (pmapReadLoop_coherent _ m coherent (by omega)).1

theorem pmapOpenVmm_coherent (m : Pmap) (some : 0 < levels) :
    Coherent tables levels cr3 (pmapOpenVmm m cr3 levels) where
  levels_eq := rfl
  readlevel_le := le_refl levels
  curlevel_lt := Nat.sub_lt some (by omega)
  root := by simp [pmapOpenVmm]
  descends k low high := absurd high (Nat.not_lt.mpr low)
  entryaddr k low high := absurd high (Nat.not_lt.mpr low)
  entry k low high := absurd high (Nat.not_lt.mpr low)

theorem index_eq_of_mask (a b mask index : Word) (shift : Nat)
    (covered : (mask >>> shift) &&& index = index) (same : a &&& mask = b &&& mask) :
    (a >>> shift) &&& index = (b >>> shift) &&& index := by
  have through : ∀ x : Word, (x >>> shift) &&& index = ((x &&& mask) >>> shift) &&& index := by
    intro x
    rw [BitVec.ushiftRight_and_distrib, BitVec.and_assoc, covered]
  rw [through a, through b, same]

def unmaskedBits : Word := 0x7F00000000

theorem pmapEntryaddr_eq (depth : levels = 2 ∨ levels = 3 ∨ levels = 4) {a b : Word} {r k : Nat} (above : r ≤ k)
    (inside : k < levels) (same : a &&& pmapMask levels r = b &&& pmapMask levels r)
    (high : levels = 3 → a &&& unmaskedBits = b &&& unmaskedBits) :
    pmapEntryaddr levels k e a = pmapEntryaddr levels k e b := by
  rcases depth with rfl | rfl | rfl
  · have index : (a >>> (10 + 10 * k)) &&& 0xFFC = (b >>> (10 + 10 * k)) &&& 0xFFC := by
      refine index_eq_of_mask a b _ _ _ ?_ same
      interval_cases k <;> interval_cases r <;> rfl
    simp only [pmapEntryaddr, if_true, index]
  · have both : a &&& (pmapMask 3 r ||| unmaskedBits) = b &&& (pmapMask 3 r ||| unmaskedBits) := by
      rw [BitVec.and_or_distrib_left, same, high rfl, ← BitVec.and_or_distrib_left]
    have index : (a >>> (9 + 9 * k)) &&& 0xFF8 = (b >>> (9 + 9 * k)) &&& 0xFF8 := by
      refine index_eq_of_mask a b _ _ _ ?_ both
      interval_cases k <;> interval_cases r <;> rfl
    simp only [pmapEntryaddr, if_neg (show ¬3 = 2 by omega), index]
  · have index : (a >>> (9 + 9 * k)) &&& 0xFF8 = (b >>> (9 + 9 * k)) &&& 0xFF8 := by
      refine index_eq_of_mask a b _ _ _ ?_ same
      interval_cases k <;> interval_cases r <;> rfl
    simp only [pmapEntryaddr, if_neg (show ¬4 = 2 by omega), index]

theorem pmapSeekLoop_spec (virtaddr : Word) (above : Nat) : ∀ m : Pmap, ∃ r,
    pmapSeekLoop virtaddr above m = { m with readlevel := r } ∧ m.readlevel ≤ r ∧
      r ≤ m.readlevel + above ∧ (r < m.readlevel + above →
        m.curaddr &&& pmapMask m.levels r = virtaddr &&& pmapMask m.levels r) := by
  induction above with
  | zero =>
    intro m
    exact ⟨m.readlevel, rfl, le_refl _, le_refl _, fun below => absurd below (lt_irrefl _)⟩
  | succ above ih =>
    intro m
    simp only [pmapSeekLoop]
    split
    · rename_i same
      exact ⟨m.readlevel, rfl, le_refl _, by omega, fun _ => same⟩
    · obtain ⟨r, eq, low, high, masked⟩ := ih { m with readlevel := m.readlevel + 1 }
      simp only at low high masked
      exact ⟨r, eq, by omega, by omega, fun below => masked (by omega)⟩

def SeekKeepsIndex (m : Pmap) (virtaddr : Word) : Prop :=
  m.levels = 3 → m.readlevel < 3 → m.curaddr &&& 0xC0000000 = virtaddr &&& 0xC0000000 →
    m.curaddr &&& unmaskedBits = virtaddr &&& unmaskedBits

theorem pmapSeek_coherent (depth : levels = 2 ∨ levels = 3 ∨ levels = 4)
    (coherent : Coherent tables levels cr3 m) {virtaddr : Word} {level : Nat}
    (some : 0 < level) (inside : level ≤ levels) (keeps : SeekKeepsIndex m virtaddr) :
    Coherent tables levels cr3 (pmapSeek m virtaddr level) := by
  obtain ⟨r, eq, low, high, masked⟩ := pmapSeekLoop_spec virtaddr (m.levels - m.readlevel)
    { m with curlevel := level - 1 }
  have bound := coherent.readlevel_le
  simp only [coherent.levels_eq] at low high masked
  have top : r ≤ levels := by omega
  have moved : pmapSeek m virtaddr level = { m with curlevel := level - 1, readlevel := r, curaddr := virtaddr } := by
    simp only [pmapSeek, eq]
  rw [moved]
  constructor
  · exact coherent.levels_eq
  · exact top
  · simp only
    omega
  · exact coherent.root
  · intro k kept below
    exact coherent.descends k (low.trans kept) below
  · intro k kept below
    simp only at kept ⊢
    have same := masked (by omega)
    rw [coherent.entryaddr k (low.trans kept) below]
    refine pmapEntryaddr_eq depth kept below same ?_
    rintro rfl
    refine keeps coherent.levels_eq (by omega) ?_
    have part : ∀ x : Word, x &&& 0xC0000000 = (x &&& pmapMask 3 r) &&& 0xC0000000 := by
      intro x
      rw [BitVec.and_assoc]
      have small : r < 3 := by omega
      interval_cases r <;> rfl
    rw [part m.curaddr, part virtaddr, same]
  · intro k kept below
    exact coherent.entry k (low.trans kept) below

theorem pmapRd_update (levels : Nat) (tables : Tables) (a e : Word) (fits : levels = 2 → e < 0x100000000) :
    pmapRd levels (update tables a e) a = e := by
  unfold pmapRd
  split
  · rename_i two
    have small : e.toNat < 2 ^ 32 := fits two
    apply BitVec.eq_of_toNat_eq
    simp only [update_self, BitVec.toNat_setWidth]
    omega
  · exact update_self a e tables

theorem pmapRd_update_of_ne (levels : Nat) (tables : Tables) {a b : Word} (e : Word)
    (other : b ≠ a) : pmapRd levels (update tables a e) b = pmapRd levels tables b := by
  simp only [pmapRd, update_of_ne other]

/-- What a `pmap_write` of the entry has to leave alone: the value fits an entry of two levels,
the other cached entries are not in the same place unless they already have the value, and
cached entries below are in the table that the new entry points to. -/
def WriteKeepsWalk (m : Pmap) (e : Word) : Prop :=
  (m.levels = 2 → e < 0x100000000) ∧
    (∀ k, m.readlevel ≤ k → k < m.levels → k ≠ m.curlevel →
      m.entryaddr k = m.entryaddr m.curlevel → e = m.entry k) ∧
    (m.readlevel < m.curlevel → Descends m.curlevel e ∧
      pmapEntryaddr m.levels (m.curlevel - 1) e m.curaddr = m.entryaddr (m.curlevel - 1))

theorem pmapWrite_coherent (coherent : Coherent tables levels cr3 m) {attrmask : Word}
    (written : pmapWrite tables m e attrmask = some after) (keeps : WriteKeepsWalk m (pmapWriteEntry m e attrmask)) :
    Coherent after.1 levels cr3 after.2 ∧
      after.2 = { m with
        entry := update m.entry m.curlevel (pmapWriteEntry m e attrmask) } := by
  unfold pmapWrite at written
  split at written
  · rename_i cached
    cases written
    refine ⟨?_, rfl⟩
    obtain ⟨fits, apart, chain⟩ := keeps
    rw [coherent.levels_eq] at fits apart chain
    generalize pmapWriteEntry m e attrmask = new at fits apart chain ⊢
    have inside := coherent.curlevel_lt
    constructor
    · exact coherent.levels_eq
    · exact coherent.readlevel_le
    · exact inside
    · simpa [Nat.ne_of_gt inside] using coherent.root
    · intro k low high
      simp only at low ⊢
      by_cases here : k + 1 = m.curlevel
      · rw [here, update_self]
        exact (chain (by omega)).1
      · rw [update_of_ne here]
        exact coherent.descends k low high
    · intro k low high
      simp only at low ⊢
      by_cases here : k + 1 = m.curlevel
      · rw [here, update_self]
        have below : k = m.curlevel - 1 := by omega
        rw [below, (chain (by omega)).2]
      · rw [update_of_ne here]
        exact coherent.entryaddr k low high
    · intro k low high
      simp only at low ⊢
      by_cases here : k = m.curlevel
      · rw [here, update_self, pmapRd_update _ _ _ _ fits]
      · rw [update_of_ne here]
        by_cases place : m.entryaddr k = m.entryaddr m.curlevel
        · rw [place, pmapRd_update _ _ _ _ fits, apart k low high here place]
        · rw [pmapRd_update_of_ne _ _ _ place]
          exact coherent.entry k low high
  · cases written

/-- `alloc_page` returns a page in which no cached entry is, below 4 GiB when entries have four
bytes. -/
def FreshPages (alloc : Tables → Pmap → Word) (levels : Nat) : Prop :=
  ∀ tables m, (levels = 2 → alloc tables m < 0x100000000) ∧
    ∀ k, m.readlevel ≤ k → k < levels → ¬m.entryaddr k - alloc tables m < 4096

theorem clearPage_coherent (coherent : Coherent tables levels cr3 m) {phys : Word}
    (fresh : ∀ k, m.readlevel ≤ k → k < levels → ¬m.entryaddr k - phys < 4096) :
    Coherent (clearPage tables phys) levels cr3 m := by
  refine { coherent with entry := fun k low high => ?_ }
  rw [coherent.entry k low high, pmapRd, pmapRd, clearPage, if_neg (fresh k low high)]

theorem pmapWriteEntry_descends (m : Pmap) (phys : Word) (level : Nat) :
    Descends level (pmapWriteEntry m (phys ||| pdePBit) pdePBit) := by
  have present : (pmapWriteEntry m (phys ||| pdePBit) pdePBit).getLsbD 0 = true := by simp [pmapWriteEntry, pdePBit]
  have small : (pmapWriteEntry m (phys ||| pdePBit) pdePBit).getLsbD 7 = false := by
    simp only [pmapWriteEntry]
    split
    · simp [pdePBit]
    · split <;> simp [pdePBit, pteRwBit, pteUsBit, pteABit, pteDBit]
  have flag : pmapWriteEntry m (phys ||| pdePBit) pdePBit &&& pdePBit ≠ 0 := by
    intro absent
    have bit := congrArg (fun e : Word => e.getLsbD 0) absent
    simp [pdePBit] at bit present
    rw [present] at bit
    cases bit
  have noPage : pmapWriteEntry m (phys ||| pdePBit) pdePBit &&& pdePsBit = 0 := by
    rw [show pdePsBit = BitVec.twoPow 64 7 from rfl, BitVec.and_twoPow, small]
    rfl
  exact ⟨flag, fun large => large.2 noPage, fun large => large.2 noPage⟩

theorem pmapWriteEntry_fits (m : Pmap) {phys : Word} (fits : phys < 0x100000000) :
    pmapWriteEntry m (phys ||| pdePBit) pdePBit < 0x100000000 := by
  have address : (phys ||| pdePBit).toNat < 2 ^ 32 := by
    rw [BitVec.toNat_or]
    exact Nat.or_lt_two_pow fits (by decide)
  have attributes : ∀ attrdef : Word, attrdef.toNat < 2 ^ 32 →
      ((phys ||| pdePBit) &&& (~~~0xFFF ||| pdePBit) ||| (attrdef &&& ~~~pdePBit)).toNat <
        2 ^ 32 := by
    intro attrdef small
    rw [BitVec.toNat_or, BitVec.toNat_and, BitVec.toNat_and]
    exact Nat.or_lt_two_pow (lt_of_le_of_lt Nat.and_le_left address) (lt_of_le_of_lt Nat.and_le_left small)
  simp only [pmapWriteEntry]
  split
  · exact attributes _ (by decide)
  · split
    · exact attributes _ (by decide)
    · exact attributes _ (by decide)

theorem pmapAllocEntry_coherent (fresh : FreshPages alloc levels) (coherent : Coherent tables levels cr3 m)
    (above : m.curlevel < m.readlevel) (absent : m.entry m.readlevel &&& pdePBit = 0) :
    ∃ after, pmapAllocEntry alloc tables m m.curlevel = some after ∧
      Coherent after.1 levels cr3 after.2 ∧ after.2.curlevel = m.curlevel ∧
      after.2.readlevel = m.readlevel ∧ after.2.curaddr = m.curaddr ∧
      Descends m.readlevel (after.2.entry m.readlevel) := by
  have bound := coherent.readlevel_le
  have inside : m.readlevel < levels := by
    rcases Nat.lt_or_ge m.readlevel levels with below | top
    · exact below
    · have same : m.readlevel = levels := by omega
      rw [same, coherent.root, rootEntry] at absent
      have bit := congrArg (fun e : Word => e.getLsbD 0) absent
      simp [pdePBit] at bit
  obtain ⟨fits, apart⟩ := fresh tables m
  let here : Pmap := { m with curlevel := m.readlevel }
  have cleared : Coherent (clearPage tables (alloc tables m)) levels cr3 here := by
    have kept := clearPage_coherent coherent apart
    exact { kept with curlevel_lt := inside }
  have keeps : WriteKeepsWalk here (pmapWriteEntry here (alloc tables m ||| pdePBit) pdePBit) := by
    refine ⟨?_, ?_, fun below => absurd below (lt_irrefl _)⟩
    · intro two
      exact pmapWriteEntry_fits here (fits (coherent.levels_eq.symm.trans two))
    · -- a cached entry above is present, so it is not where the absent one is
      intro k low high other place
      have up : m.readlevel < k := lt_of_le_of_ne low (Ne.symm other)
      have deep : k < levels := lt_of_lt_of_eq high coherent.levels_eq
      have down := coherent.descends (k - 1) (by omega) (by omega)
      have value := coherent.entry k low deep
      have lower := coherent.entry m.readlevel (le_refl _) inside
      rw [show k - 1 + 1 = k by omega, value, show m.entryaddr k = m.entryaddr m.readlevel from place, ← lower] at down
      exact absurd absent down.1
  have written : pmapWrite (clearPage tables (alloc tables m)) here
      (alloc tables m ||| pdePBit) pdePBit = some (update
        (clearPage tables (alloc tables m)) (here.entryaddr here.curlevel)
        (pmapWriteEntry here (alloc tables m ||| pdePBit) pdePBit),
        { here with entry := update here.entry here.curlevel
                      (pmapWriteEntry here (alloc tables m ||| pdePBit) pdePBit) }) := by
    rw [pmapWrite, if_pos (show here.readlevel ≤ here.curlevel from le_refl _)]
  obtain ⟨after, _⟩ := pmapWrite_coherent cleared written keeps
  refine ⟨_, by rw [pmapAllocEntry, written]; rfl, ?_, rfl, rfl, rfl, ?_⟩
  · exact { after with curlevel_lt := coherent.curlevel_lt }
  · simp only [here, update_self]
    exact pmapWriteEntry_descends _ _ _

def SamePosition (m after : Pmap) : Prop := after.curaddr = m.curaddr ∧ after.curlevel = m.curlevel

section

variable (fresh : FreshPages alloc levels)
include fresh

theorem pmapAllocEntry_read (coherent : Coherent tables levels cr3 m)
    (above : m.curlevel < m.readlevel) (absent : m.entry m.readlevel &&& pdePBit = 0) :
    ∃ after, pmapAllocEntry alloc tables m m.curlevel = some after ∧
      Coherent after.1 levels cr3 (pmapRead after.1 after.2).2 ∧
      SamePosition m (pmapRead after.1 after.2).2 ∧
      (pmapRead after.1 after.2).2.readlevel < m.readlevel := by
  obtain ⟨after, made, kept, level, read, addr, down⟩ := pmapAllocEntry_coherent fresh coherent above absent
  obtain ⟨next, addr', level', _, lower⟩ := pmapReadLoop_coherent
    (after.2.readlevel - after.2.curlevel) after.2 kept (by omega)
  refine ⟨after, made, next, ⟨addr'.trans addr, level'.trans level⟩, ?_⟩
  rw [← read]
  exact lower (by rwa [read]) (by omega)

theorem pmapAutoallocLoop_coherent (missing : Nat) :
    ∀ (tables : Tables) (m : Pmap), Coherent tables levels cr3 m →
    m.curlevel < m.readlevel → m.entry m.readlevel &&& pdePBit = 0 →
    ∀ after, pmapAutoallocLoop alloc m.curlevel missing tables m = some after →
      Coherent after.1 levels cr3 after.2 ∧ SamePosition m after.2 := by
  induction missing with
  | zero =>
    intro tables m _ _ _ after ran
    cases ran
  | succ missing ih =>
    intro tables m coherent above absent after ran
    obtain ⟨entered, made, next, ⟨addr, level⟩, _⟩ := pmapAllocEntry_read fresh coherent above absent
    simp only [pmapAutoallocLoop, made, Option.bind_eq_bind, Option.bind_some] at ran
    generalize (pmapRead entered.1 entered.2).2 = m' at next addr level ran
    split at ran
    · cases ran
      exact ⟨next, addr, level⟩
    · split at ran
      · cases ran
      · rename_i more gone
        have gone : m'.entry m'.readlevel &&& pdePBit = 0 := by simpa using gone
        rw [← level] at ran more
        obtain ⟨kept, addr', level'⟩ := ih _ m' next (by omega) gone after ran
        exact ⟨kept, addr'.trans addr, level'.trans level⟩

theorem pmapAutoalloc_coherent (coherent : Coherent tables levels cr3 m)
    (ran : pmapAutoalloc alloc tables m = some after) :
    Coherent after.1 levels cr3 after.2 ∧ SamePosition m after.2 := by
  simp only [pmapAutoalloc] at ran
  split at ran
  · cases ran
    exact ⟨coherent, rfl, rfl⟩
  · rename_i above
    split at ran
    · rename_i absent
      exact pmapAutoallocLoop_coherent fresh _ tables m coherent (by omega) absent after ran
    · obtain ⟨next, addr, level, _⟩ := pmapReadLoop_coherent (m.readlevel - m.curlevel) m coherent
        (by omega)
      change Coherent tables levels cr3 (pmapRead tables m).2 at next
      change (pmapRead tables m).2.curaddr = _ at addr
      change (pmapRead tables m).2.curlevel = _ at level
      generalize (pmapRead tables m).2 = m' at next addr level ran
      split at ran
      · cases ran
        exact ⟨next, addr, level⟩
      · split at ran
        · cases ran
        · rename_i more gone
          have gone : m'.entry m'.readlevel &&& pdePBit = 0 := by simpa using gone
          rw [← level] at ran more
          obtain ⟨kept, addr', level'⟩ := pmapAutoallocLoop_coherent fresh _ tables m' next (by omega) gone after ran
          exact ⟨kept, addr'.trans addr, level'.trans level⟩

end

inductive PmapCall
  | seek (virtaddr : Word) (level : Nat)
  | read
  | write (e attrmask : Word)
  | autoalloc (alloc : Tables → Pmap → Word)

def pmapCall (state : Tables × Pmap) : PmapCall → Option (Tables × Pmap)
  | .seek virtaddr level =>
    if 0 < level ∧ level ≤ state.2.levels then some (state.1, pmapSeek state.2 virtaddr level)
    else none
  | .read => some (state.1, (pmapRead state.1 state.2).2)
  | .write e attrmask => pmapWrite state.1 state.2 e attrmask
  | .autoalloc alloc => pmapAutoalloc alloc state.1 state.2

def KeepsCoherence (m : Pmap) : PmapCall → Prop
  | .seek virtaddr _ => SeekKeepsIndex m virtaddr
  | .read => True
  | .write e attrmask => WriteKeepsWalk m (pmapWriteEntry m e attrmask)
  | .autoalloc alloc => FreshPages alloc m.levels

theorem pmapCall_coherent (depth : levels = 2 ∨ levels = 3 ∨ levels = 4) {before : Tables × Pmap} {call : PmapCall}
    (step : pmapCall before call = some after) (keeps : KeepsCoherence before.2 call)
    (coherent : Coherent before.1 levels cr3 before.2) : Coherent after.1 levels cr3 after.2 := by
  cases call with
  | seek virtaddr level =>
    simp only [pmapCall] at step
    split at step
    · rename_i bounds
      cases step
      rw [coherent.levels_eq] at bounds
      exact pmapSeek_coherent depth coherent bounds.1 bounds.2 keeps
    · cases step
  | read =>
    simp only [pmapCall] at step
    cases step
    exact pmapRead_coherent coherent
  | write e attrmask => exact (pmapWrite_coherent coherent step keeps).1
  | autoalloc alloc =>
    simp only [KeepsCoherence, coherent.levels_eq] at keeps
    exact (pmapAutoalloc_coherent keeps coherent step).1

def PmapRun (before : Tables × Pmap) (calls : List PmapCall) (after : Tables × Pmap) : Prop :=
  Transitions.Run (fun before call after => pmapCall before call = some after) before calls after

def CoherentRun (before : Tables × Pmap) (calls : List PmapCall) (after : Tables × Pmap) : Prop :=
  Transitions.Run (fun before call after =>
    pmapCall before call = some after ∧ KeepsCoherence before.2 call) before calls after

def freshRead (junk : Pmap) (cr3 : Word) (levels : Nat) (tables : Tables) (m : Pmap) : Word :=
  (pmapRead tables (pmapSeek (pmapOpenVmm junk cr3 levels) m.curaddr (m.curlevel + 1))).1

theorem freshRead_walk (depth : levels = 2 ∨ levels = 3 ∨ levels = 4) (junk : Pmap) (inside : m.curlevel < levels) :
    freshRead junk cr3 levels tables m =
      walk tables levels m.curaddr m.curlevel (levels - m.curlevel) (rootEntry cr3) := by
  have opened : Coherent tables levels cr3 (pmapOpenVmm junk cr3 levels) := pmapOpenVmm_coherent junk (by omega)
  have keeps : SeekKeepsIndex (pmapOpenVmm junk cr3 levels) m.curaddr := by
    intro three below
    simp only [pmapOpenVmm] at three below
    omega
  have sought : Coherent tables levels cr3 (pmapSeek (pmapOpenVmm junk cr3 levels) m.curaddr (m.curlevel + 1)) :=
    pmapSeek_coherent depth opened (by omega) (by omega) keeps
  obtain ⟨r, eq, _⟩ := pmapSeekLoop_spec m.curaddr
    ((pmapOpenVmm junk cr3 levels).levels - (pmapOpenVmm junk cr3 levels).readlevel)
    { pmapOpenVmm junk cr3 levels with curlevel := m.curlevel + 1 - 1 }
  rw [freshRead, pmapRead_walk sought]
  simp only [pmapSeek, eq]
  rfl

/-- In every run of calls that leave no stale entry, `pmap_read` returns what a fresh walk from
the root returns for the cursor's address and level. -/
theorem pmap_read_fresh (depth : levels = 2 ∨ levels = 3 ∨ levels = 4) (stack junk : Pmap)
    {calls : List PmapCall} {after : Tables × Pmap}
    (run : CoherentRun (tables, pmapOpenVmm stack cr3 levels) calls after) :
    (pmapRead after.1 after.2).1 = freshRead junk cr3 levels after.1 after.2 ∧
      (pmapRead after.1 after.2).1 = walk after.1 levels after.2.curaddr after.2.curlevel
        (levels - after.2.curlevel) (rootEntry cr3) := by
  have coherent : Coherent after.1 levels cr3 after.2 := by
    refine run.keeps (fun state => Coherent state.1 levels cr3 state.2) ?_ (pmapOpenVmm_coherent stack (by omega))
    rintro before call next ⟨step, keeps⟩ coherent
    exact pmapCall_coherent depth step keeps coherent
  rw [freshRead_walk depth junk coherent.curlevel_lt]
  exact ⟨pmapRead_walk coherent, pmapRead_walk coherent⟩

def twoTables : Tables := fun addr =>
  if addr = 0x1000 then 0x2001 else if addr = 0x2000 then 0x5001 else 0

def stackPmap : Pmap :=
  { entry := fun _ => 0, entryaddr := fun _ => 0, curaddr := 0, curlevel := 0, readlevel := 0,
    levels := 0 }

def staleCalls : List PmapCall := [.seek 0 1, .read, .seek 0 2, .write 0 0, .seek 0 1]

/-- A cursor may return an entry of a table that is not mapped any more. -/
theorem pmap_read_stale : ∃ after, PmapRun (twoTables, pmapOpenVmm stackPmap 0x1000 2) staleCalls
    after ∧ (pmapRead after.1 after.2).1 = 0x5001 ∧
      freshRead stackPmap 0x1000 2 after.1 after.2 = 0 :=
  ⟨_, .cons rfl (.cons rfl (.cons rfl (.cons rfl (.cons rfl (.nil _))))), by decide, by decide⟩

theorem pmap_read_fresh_page : ∃ after,
    CoherentRun (twoTables, pmapOpenVmm stackPmap 0x1000 2) [.seek 0 1, .read, .seek 0x1000 1]
      after ∧ (pmapRead after.1 after.2).1 = freshRead stackPmap 0x1000 2 after.1 after.2 := by
  have run : ∃ after, CoherentRun (twoTables, pmapOpenVmm stackPmap 0x1000 2)
      [.seek 0 1, .read, .seek 0x1000 1] after := by
    refine ⟨_, .cons ⟨rfl, ?_⟩ (.cons ⟨rfl, trivial⟩ (.cons ⟨rfl, ?_⟩ (.nil _)))⟩
    · intro three
      cases three
    · intro three
      cases three
  obtain ⟨after, run⟩ := run
  exact ⟨after, run, (pmap_read_fresh (.inl rfl) stackPmap stackPmap run).1⟩

end DisasVisor.Mm
