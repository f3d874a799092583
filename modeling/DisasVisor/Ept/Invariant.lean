import DisasVisor.Ept.Guest
import DisasVisor.Ept.Violation

/-!
The mappings of `core/vt_ept.c` in every state of a guest: what they map, that no registered range
is mapped, and where the cursor is.
-/

namespace DisasVisor.Ept

open RadixTables Mmio

variable {vmm : Vmm} {ept ept' : VtEpt vmm} {ok4 ok2 ok4' ok2' : UInt64 → UInt64 → Prop}
  {g gphys page e : UInt64} {level : Nat} {mtrr : Mtrr} {mmio mmio' : MmioData} {S : Nat → Prop}

def FreeBlock (mmio : MmioData) (g : UInt64) : Prop :=
  mmio.Free (g.toNat / 2 ^ 21 * 2 ^ 21) (g.toNat / 2 ^ 21 * 2 ^ 21 + 2 ^ 21)

def OkPage (vmm : Vmm) (mmio : MmioData) (g e : UInt64) : Prop :=
  ∃ g' mtrr, g'.toNat < vmm.limit ∧ radix.Agree 0 g g' ∧ FreePage mmio g' ∧ e = pageLeaf vmm mtrr g'

def OkLarge (vmm : Vmm) (mmio : MmioData) (g e : UInt64) : Prop :=
  ∃ g' mtrr, g'.toNat < vmm.limit ∧ radix.Agree 1 g g' ∧ FreeBlock mmio g' ∧
    vmm.gp2hp2m (g' &&& ~~~0x1FFFFF) ≠ gmmGp2hp2mFail ∧ e = leaf2m vmm mtrr g'

theorem fits_ok (listed : mmio.Listed) : Fits vmm mtrr mmio (OkPage vmm mmio) (OkLarge vmm mmio) := by
  refine ⟨fun gphys bound free g agree => ⟨gphys, mtrr, bound, agree.symm, free, rfl⟩,
    fun gphys bound able g agree => ⟨gphys, mtrr, bound, agree.symm, ?_, able.inside, rfl⟩⟩
  have limit := vmm.limit_le
  have size : pagesize2m.toNat = 2 ^ 21 := rfl
  have block := @toNat_block gphys
  have free := (MmioData.mmioRange_eq_zero listed (by rw [size]; omega) (by rw [block, size]; omega)).mp able.free
  rwa [block, size] at free

theorem Sound.imp (sound : Sound ept ok4 ok2)
    (leaf : ∀ g page, ept.TableAt 0 g page → IsPresent (ept.entry 0 g page) →
      ok4 g (ept.entry 0 g page) → ok4' g (ept.entry 0 g page))
    (large : ∀ g page, ept.TableAt 1 g page → IsPresent (ept.entry 1 g page) →
      ok2 g (ept.entry 1 g page) → ok2' g (ept.entry 1 g page)) : Sound ept ok4' ok2' := by
  refine ⟨sound.count, sound.apart, sound.walk, sound.links, ?_, ?_⟩
  · intro level g page at' positive present isLarge
    obtain ⟨rfl, ok⟩ := sound.large level g page at' positive present isLarge
    exact ⟨rfl, large g page at' present ok⟩
  · exact fun g page at' present => leaf g page at' present (sound.leaf g page at' present)

theorem physInVmm_iff (phys : UInt64) : vmm.physInVmm phys = true ↔
    vmm.vmmStartPhys.toNat ≤ phys.toNat ∧ phys.toNat < vmm.vmmStartPhys.toNat + vmmsizeAll.toNat := by
  have fits := vmm.fits
  have high : (vmm.vmmStartPhys + vmmsizeAll).toNat = vmm.vmmStartPhys.toNat + vmmsizeAll.toNat := by
    rw [UInt32.toNat_add]
    omega
  simp only [Vmm.physInVmm, ge_iff_le, UInt64.le_iff_toNat_le, UInt64.lt_iff_toNat_lt,
    UInt32.toNat_toUInt64, high, decide_eq_true_eq]

theorem physInVmm_congr {x y : UInt64} (same : x.toNat / 2 ^ 21 = y.toNat / 2 ^ 21) :
    vmm.physInVmm x = vmm.physInVmm y := by
  have aligned := vmm.aligned
  have size : vmmsizeAll.toNat = 2 ^ 27 := rfl
  rw [Bool.eq_iff_iff, physInVmm_iff, physInVmm_iff, size]
  omega

theorem gp2hp_page {x y : UInt64} (same : x.toNat / 2 ^ 12 = y.toNat / 2 ^ 12) :
    (vmm.gp2hp x).1.toNat / 2 ^ 12 = (vmm.gp2hp y).1.toNat / 2 ^ 12 ∧ (vmm.gp2hp x).2 = (vmm.gp2hp y).2 := by
  have inVmm : vmm.physInVmm x = vmm.physInVmm y := physInVmm_congr (by omega)
  unfold Vmm.gp2hp
  rw [inVmm]
  split
  · exact ⟨rfl, rfl⟩
  · exact ⟨same, rfl⟩

theorem gp2hp_lt (bound : g.toNat < vmm.limit) : (vmm.gp2hp g).1.toNat < 2 ^ vmm.nbits := by
  have fits := vmm.fits
  have inside := vmm.blankInside
  have wide : 2 ^ 32 ≤ 2 ^ vmm.nbits := Nat.pow_le_pow_right (by omega) vmm.nbitsBounds.1
  have limit : vmm.limit ≤ 2 ^ vmm.nbits := Nat.pow_le_pow_right (by omega) (Nat.min_le_left _ _)
  unfold Vmm.gp2hp
  split
  · simp only
    omega
  · simp only
    omega

theorem toNat_and_pteAddrMask (x : UInt64) :
    (x &&& vmm.pteAddrMask).toNat = x.toNat / 2 ^ 12 % 2 ^ (vmm.nbits - 12) * 2 ^ 12 := by
  obtain ⟨low, high⟩ := vmm.nbitsBounds
  apply Words.toNat_and_bits
  unfold Vmm.pteAddrMask
  generalize vmm.nbits = n at *
  interval_cases n <;> decide

theorem toNat_masked {x : UInt64} (small : x.toNat < 2 ^ vmm.nbits) :
    (x &&& vmm.pteAddrMask).toNat = x.toNat / 2 ^ 12 * 2 ^ 12 := by
  obtain ⟨low, high⟩ := vmm.nbitsBounds
  have fits : x.toNat / 2 ^ 12 < 2 ^ (vmm.nbits - 12) := by
    rw [Nat.div_lt_iff_lt_mul (Nat.two_pow_pos 12), ← Nat.pow_add, Nat.sub_add_cancel (by omega)]
    exact small
  rw [toNat_and_pteAddrMask, Nat.mod_eq_of_lt fits]

theorem span_small (notLarge : ¬IsLarge e) (small : e.toNat < 2 ^ vmm.nbits) :
    (span vmm.pteAddrMask e).1.toNat = e.toNat / 2 ^ 12 * 2 ^ 12 ∧
      (span vmm.pteAddrMask e).2.toNat = e.toNat / 2 ^ 12 * 2 ^ 12 + (2 ^ 12 - 1) := by
  have masked := toNat_masked small
  simp only [span]
  rw [if_neg (show ¬(e &&& epteLarge ≠ 0) from notLarge)]
  refine ⟨masked, ?_⟩
  change ((e &&& vmm.pteAddrMask) ||| 0o7777).toNat = _
  rw [@Words.toNat_or_low _ 0o7777 12 rfl, masked]
  omega

theorem span_large (large : IsLarge e) (small : e.toNat < 2 ^ vmm.nbits) :
    (span vmm.pteAddrMask e).1.toNat = e.toNat / 2 ^ 21 * 2 ^ 21 ∧
      (span vmm.pteAddrMask e).2.toNat = e.toNat / 2 ^ 21 * 2 ^ 21 + (2 ^ 21 - 1) := by
  have masked := toNat_masked small
  simp only [span]
  rw [if_pos (show e &&& epteLarge ≠ 0 from large)]
  constructor
  · change ((e &&& vmm.pteAddrMask) &&& ~~~0o7777777).toNat = _
    rw [@Words.toNat_and_high _ (~~~0o7777777) 21 rfl (by omega), masked]
    omega
  · change (((e &&& vmm.pteAddrMask) ||| 0o7777) ||| 0o7777777).toNat = _
    rw [@Words.toNat_or_low _ 0o7777777 21 rfl, @Words.toNat_or_low _ 0o7777 12 rfl, masked]
    omega

variable {x : Nat} {gpst gpend : UInt64}

theorem blockEnd_lt {k n : Nat} (le : k ≤ n) (small : x < 2 ^ n) : x / 2 ^ k * 2 ^ k + 2 ^ k ≤ 2 ^ n := by
  have block : x / 2 ^ k < 2 ^ (n - k) := by
    rw [Nat.div_lt_iff_lt_mul (Nat.two_pow_pos k), ← Nat.pow_add, Nat.sub_add_cancel le]
    exact small
  calc x / 2 ^ k * 2 ^ k + 2 ^ k = (x / 2 ^ k + 1) * 2 ^ k := by rw [Nat.add_mul, Nat.one_mul]
    _ ≤ 2 ^ (n - k) * 2 ^ k := Nat.mul_le_mul_right _ block
    _ = 2 ^ n := by rw [← Nat.pow_add, Nat.sub_add_cancel le]

theorem span_pageLeaf (bound : g.toNat < vmm.limit) :
    (span vmm.pteAddrMask (pageLeaf vmm mtrr g)).1.toNat = (vmm.gp2hp g).1.toNat / 2 ^ 12 * 2 ^ 12 ∧
      (span vmm.pteAddrMask (pageLeaf vmm mtrr g)).2.toNat =
        (vmm.gp2hp g).1.toNat / 2 ^ 12 * 2 ^ 12 + (2 ^ 12 - 1) := by
  have bits := vmm.nbitsBounds
  have valid : (mtrr.getGmtrrType g).toNat < 8 := mtrr.valid g
  have rest : (if (vmm.gp2hp g).2 then 5 else 7) < 8 := by split <;> omega
  have value := @toNat_pageLeaf vmm g mtrr
  have last := blockEnd_lt (show 12 ≤ vmm.nbits by omega) (gp2hp_lt bound)
  have small : (pageLeaf vmm mtrr g).toNat < 2 ^ vmm.nbits := by omega
  have same : (pageLeaf vmm mtrr g).toNat / 2 ^ 12 = (vmm.gp2hp g).1.toNat / 2 ^ 12 := by omega
  rw [← same]
  exact span_small pageLeaf_spec.2.1 small

theorem span_leaf2m (bound : g.toNat < vmm.limit) (succeeds : vmm.gp2hp2m (g &&& ~~~0x1FFFFF) ≠ gmmGp2hp2mFail) :
    (span vmm.pteAddrMask (leaf2m vmm mtrr g)).1.toNat = g.toNat / 2 ^ 21 * 2 ^ 21 ∧
      (span vmm.pteAddrMask (leaf2m vmm mtrr g)).2.toNat = g.toNat / 2 ^ 21 * 2 ^ 21 + (2 ^ 21 - 1) := by
  have bits := vmm.nbitsBounds
  have valid : (mtrr.getGmtrrType (g &&& ~~~0x1FFFFF)).toNat < 8 := mtrr.valid _
  have value := @toNat_leaf2m vmm g mtrr succeeds
  have limit : vmm.limit ≤ 2 ^ vmm.nbits := Nat.pow_le_pow_right (by omega) (Nat.min_le_left _ _)
  have last := blockEnd_lt (show 21 ≤ vmm.nbits by omega) (Nat.lt_of_lt_of_le bound limit)
  have small : (leaf2m vmm mtrr g).toNat < 2 ^ vmm.nbits := by omega
  have same : (leaf2m vmm mtrr g).toNat / 2 ^ 21 = g.toNat / 2 ^ 21 := by omega
  rw [← same]
  exact span_large (leaf2m_spec succeeds).2.1 small

theorem toNat_tbl_le (pages : TablePages vmm) {i : Nat} (used : i < numOfEptbl) :
    (pages.tbl i).toNat + 2 ^ 12 ≤ 2 ^ 32 := by
  have inside := (physInVmm_iff _).mp (pages.inside i used)
  have whole := pages.tblAligned i used
  have fits := vmm.fits
  omega

theorem not_overlaps_link (pages : TablePages vmm) {i : Nat} (used : i < numOfEptbl) (table : IsTable e)
    (same : e &&& ~~~0xFFF = pages.tbl i) (host : HostPages vmm gpst gpend x) : ¬Overlaps vmm.pteAddrMask e x := by
  rintro ⟨-, low, high⟩
  have bits := vmm.nbitsBounds
  have wide : 2 ^ 32 ≤ 2 ^ vmm.nbits := Nat.pow_le_pow_right (by omega) bits.1
  have below := toNat_tbl_le pages used
  have page := @Words.toNat_and_high e (~~~0xFFF) 12 rfl (by omega)
  rw [same] at page
  have notLarge : ¬IsLarge e := fun large => large table.2
  obtain ⟨first, last⟩ := @span_small vmm e notLarge (by omega)
  obtain ⟨q, -, -, isHost⟩ := host
  have samePage : (vmm.gp2hp q).1.toNat / 2 ^ 12 = (pages.tbl i).toNat / 2 ^ 12 := by omega
  have inside := pages.inside i used
  unfold Vmm.gp2hp at samePage
  split at samePage
  · have blank := vmm.blankAligned
    have notBlank := pages.notBlank i used
    exact notBlank (UInt64.toNat_inj.mp (by simp only at samePage; omega))
  · rename_i outside
    simp only at samePage
    exact outside ((physInVmm_congr (by omega)).trans inside)

theorem Sound.wiped (sound : Sound ept ok4 ok2) (wiped : Wiped (HostPages vmm gpst gpend) ept ept') :
    Sound ept' ok4 ok2 := by
  have present : ∀ {level g page}, IsPresent (ept'.entry level g page) →
      ept'.entry level g page = ept.entry level g page := by
    intro level g page isPresent
    refine (wiped.mem page (radix.index level g)).resolve_right ?_
    rintro ⟨zero, -⟩
    rw [VtEpt.entry, zero] at isPresent
    exact not_isPresent_zero isPresent
  have child : ∀ level g page, ept.TableAt (level + 1) g page →
      radix.child (ept'.entry (level + 1) g page) = radix.child (ept.entry (level + 1) g page) := by
    intro level g page at'
    rcases wiped.mem page (radix.index (level + 1) g) with same | ⟨zero, x, host, overlaps⟩
    · exact congrArg radix.child same
    · have notTable : ¬IsTable (ept.entry (level + 1) g page) := by
        intro table
        obtain ⟨i, used, same⟩ := sound.links _ _ _ at' (Nat.succ_pos _) table
        exact not_overlaps_link ept.pages (Nat.lt_of_lt_of_le used sound.count) table same host overlaps
      rw [child_eq_none.mpr notTable, VtEpt.entry, zero, child_eq_none.mpr not_isTable_zero]
  have tableAt : ∀ {level g page}, ept'.TableAt level g page ↔ ept.TableAt level g page := by
    intro level g page
    unfold VtEpt.TableAt
    rw [wiped.pages]
    exact Radix.tableAt_iff_of_child child
  refine ⟨wiped.cnt ▸ sound.count, ?_, ⟨wiped.level ▸ sound.walk.level_le, ?_⟩, ?_, ?_, ?_⟩
  · rw [wiped.pages]
    exact Radix.apart_of_child sound.apart child
  · intro level low high
    rw [wiped.level] at low
    obtain ⟨page, at', isEntry⟩ := sound.walk.entries level low high
    rw [wiped.entries, wiped.address]
    exact ⟨page, tableAt.mpr at', isEntry⟩
  · intro level g page at' positive table
    rw [present table.1, wiped.pages, wiped.cnt] at *
    exact sound.links level g page (tableAt.mp at') positive table
  · intro level g page at' positive isPresent large
    rw [present isPresent] at *
    exact sound.large level g page (tableAt.mp at') positive isPresent large
  · intro g page at' isPresent
    rw [present isPresent] at *
    exact sound.leaf g page (tableAt.mp at') isPresent

theorem Sound.in_pool (sound : Sound ept ok4 ok2) (at' : ept.TableAt level g page)
    (lower : level < 3) : ∃ i < ept.cnt, page = ept.pages.tbl i := by
  refine (sound.page_or at').resolve_left ?_
  rintro rfl
  obtain ⟨isTop, -⟩ := sound.apart _ _ _ _ _ at' (.top g)
  exact Nat.ne_of_lt lower isTop

theorem Sound.not_overlaps (sound : Sound ept ok4 ok2) (at' : ept.TableAt level g page) (lower : level < 3)
    (clean : Clean S ept) (member : S x) : ¬Overlaps vmm.pteAddrMask (ept.entry level g page) x := by
  obtain ⟨i, used, rfl⟩ := sound.in_pool at' lower
  have index := @toNat_tableIndex g (level + 1) (by omega)
  refine clean i used (radix.index level g) (UInt64.lt_iff_toNat_lt.mpr ?_) x member
  change (tableIndex g (level + 1)).toNat < 512
  omega

def Flushed (low high : Nat) (ept : VtEpt vmm) : Prop :=
  ∀ x, low ≤ x → x < high → ∃ q : UInt64, q.toNat / 2 ^ 12 = x / 2 ^ 12 ∧ Clean (fun y => y = (vmm.gp2hp q).1.toNat) ept

theorem flushed_of_flush {current : Nat} {spt : Nat → UInt64 → UInt64 → Bool} {vcpus : List Nat}
    {epts epts' : Nat → VtEpt vmm} (le : gpst.toNat ≤ gpend.toNat) (bound : gpend.toNat < 2 ^ 64 - 2 ^ 12)
    (result : flushTlbEntry current spt vcpus gpst gpend epts = some (false, epts')) {v : Nat} (member : v ∈ vcpus) :
    Flushed gpst.toNat (gpend.toNat + 1) (epts' v) := by
  intro x low high
  obtain ⟨-, clean⟩ := flushTlbEntry_spec le bound result
  by_cases first : gpst.toNat < x / 2 ^ 12 * 2 ^ 12
  · obtain ⟨q, isPage⟩ : ∃ q : UInt64, q.toNat = x / 2 ^ 12 * 2 ^ 12 :=
      ⟨UInt64.ofNat (x / 2 ^ 12 * 2 ^ 12), by rw [UInt64.toNat_ofNat']; omega⟩
    exact ⟨q, by omega, clean rfl v member q (.inr ⟨by omega, by omega⟩) (by omega)⟩
  · exact ⟨gpst, by omega, clean rfl v member gpst (.inl rfl) le⟩

section

variable {low high : Nat} (sound : Sound ept ok4 ok2) (flushed : Flushed low high ept)
include sound flushed

theorem page_apart (at' : ept.TableAt 0 g page) {g' : UInt64} (bound : g'.toNat < vmm.limit)
    (isLeaf : ept.entry 0 g page = pageLeaf vmm mtrr g') (first : low ≤ x) (last : x < high) :
    x / 2 ^ 12 ≠ g'.toNat / 2 ^ 12 := by
  intro inPage
  obtain ⟨q, samePage, clean⟩ := flushed x first last
  obtain ⟨spanFirst, spanLast⟩ := @span_pageLeaf vmm g' mtrr bound
  obtain ⟨host, -⟩ := @gp2hp_page vmm q g' (samePage.trans inPage)
  refine sound.not_overlaps at' (by omega) clean rfl ?_
  rw [isLeaf]
  exact ⟨pageLeaf_spec.1, by omega, by omega⟩

theorem block_apart (at' : ept.TableAt 1 g page) {g' : UInt64} (bound : g'.toNat < vmm.limit)
    (succeeds : vmm.gp2hp2m (g' &&& ~~~0x1FFFFF) ≠ gmmGp2hp2mFail) (isLeaf : ept.entry 1 g page = leaf2m vmm mtrr g')
    (first : low ≤ x) (last : x < high) : x / 2 ^ 21 ≠ g'.toNat / 2 ^ 21 := by
  intro inBlock
  obtain ⟨q, samePage, clean⟩ := flushed x first last
  obtain ⟨spanFirst, spanLast⟩ := @span_leaf2m vmm g' mtrr bound succeeds
  have outside := (gp2hp2m_block.resolve_left succeeds).2
  have block := @toNat_block g'
  have host : vmm.gp2hp q = (q, false) := by
    have outside' : vmm.physInVmm q = false := (physInVmm_congr (by omega)).trans outside
    unfold Vmm.gp2hp
    rw [outside']
    rfl
  refine sound.not_overlaps at' (by omega) clean rfl ?_
  rw [isLeaf, host]
  exact ⟨(leaf2m_spec succeeds).1, by simp only; omega, by simp only; omega⟩

end

def Grows (low high : Nat) (mmio mmio' : MmioData) : Prop :=
  ∀ p, mmio'.Registered p → ∀ x, (mmio'.handles p).Covers x →
    (mmio.Registered p ∧ (mmio.handles p).Covers x) ∨ (low ≤ x ∧ x < high)

theorem Grows.free {low high a b : Nat} (grows : Grows low high mmio mmio') (free : mmio.Free a b)
    (apart : ∀ x, low ≤ x → x < high → a ≤ x → b ≤ x) : mmio'.Free a b := by
  intro p registered x covers
  rcases grows p registered x covers with ⟨old, covered⟩ | ⟨first, last⟩
  · exact free p old x covered
  · have beyond := apart x first last
    omega

theorem Sound.grows {low high : Nat} (grows : Grows low high mmio mmio')
    (sound : Sound ept (OkPage vmm mmio) (OkLarge vmm mmio)) (flushed : Flushed low high ept) :
    Sound ept (OkPage vmm mmio') (OkLarge vmm mmio') := by
  refine sound.imp ?_ ?_
  · rintro g page at' - ⟨g', mtrr, bound, agree, free, isLeaf⟩
    refine ⟨g', mtrr, bound, agree, grows.free free ?_, isLeaf⟩
    intro x first last inPage
    by_contra inside
    exact page_apart sound flushed at' bound isLeaf first last (by omega)
  · rintro g page at' - ⟨g', mtrr, bound, agree, free, succeeds, isLeaf⟩
    refine ⟨g', mtrr, bound, agree, grows.free free ?_, succeeds, isLeaf⟩
    intro x first last inBlock
    by_contra inside
    exact block_apart sound flushed at' bound succeeds isLeaf first last (by omega)

/-!
Runs of a guest: in every state the tables of every virtual processor map what they have to, no
registered range is mapped, and the cursors go on to where a walk from the top goes.
-/

open Transitions

variable {vcpus : List Nat} {s t : Guest vmm}

def VtEpt.freshWalk (ept : VtEpt vmm) (gphys : UInt64) : VtEpt vmm := curMove { ept with curLevel := eptLevels } gphys

structure Right (mmio : MmioData) (ept : VtEpt vmm) : Prop where
  leaf : ∀ g page, g.toNat < 2 ^ 48 → ept.TableAt 0 g page → IsPresent (ept.entry 0 g page) →
    ept.entry 0 g page &&& ~~~0xFFF = (vmm.gp2hp g).1 &&& ~~~0xFFF ∧
      (ept.entry 0 g page &&& epteWrite ≠ 0 ↔ (vmm.gp2hp g).2 = false) ∧ FreePage mmio g
  large : ∀ level g page, 0 < level → g.toNat < 2 ^ 48 → ept.TableAt level g page →
    IsPresent (ept.entry level g page) → IsLarge (ept.entry level g page) →
    level = 1 ∧ vmm.gp2hp2m (g &&& ~~~0x1FFFFF) ≠ gmmGp2hp2mFail ∧
      ept.entry level g page &&& ~~~0xFFF = vmm.gp2hp2m (g &&& ~~~0x1FFFFF) ∧ FreeBlock mmio g
  cursor : ept.OnWalk
  moves : ∀ gphys, (curMove ept gphys).curLevel = (ept.freshWalk gphys).curLevel ∧
    (curMove ept gphys).curEntry (curMove ept gphys).curLevel =
      (ept.freshWalk gphys).curEntry (ept.freshWalk gphys).curLevel
  linkedOnce : radix.Apart ept.mem ept.pages.ncr3tbl
  inPool : ∀ level g page, ept.TableAt level g page → level < 3 → ∃ i < ept.cnt, page = ept.pages.tbl i
  count : ept.cnt ≤ numOfEptbl

theorem moves_of_onWalk (walk : ept.OnWalk) (gphys : UInt64) :
    (curMove ept gphys).curLevel = (ept.freshWalk gphys).curLevel ∧
      (curMove ept gphys).curEntry (curMove ept gphys).curLevel =
        (ept.freshWalk gphys).curEntry (ept.freshWalk gphys).curLevel := by
  have top : ({ ept with curLevel := eptLevels } : VtEpt vmm).OnWalk := by
    refine ⟨Nat.le_refl _, fun level low high => ?_⟩
    simp only at low
    omega
  obtain ⟨page, ends, isEntry⟩ := (curMove_spec walk gphys).endsAt
  obtain ⟨page', ends', isEntry'⟩ := (curMove_spec top gphys).endsAt
  obtain ⟨sameLevel, samePage⟩ := ends.unique ends'
  refine ⟨sameLevel, isEntry.trans ?_⟩
  rw [sameLevel, samePage]
  exact isEntry'.symm

theorem Sound.right (sound : Sound ept (OkPage vmm mmio) (OkLarge vmm mmio)) : Right mmio ept := by
  have limit := vmm.limit_le
  refine ⟨?_, ?_, sound.walk, moves_of_onWalk sound.walk, sound.apart,
    fun level g page at' lower => sound.in_pool at' lower, sound.count⟩
  · intro g page small at' present
    obtain ⟨g', mtrr, bound, agree, free, isLeaf⟩ := sound.leaf g page at' present
    have samePage := div_of_agree small (by omega) (show 0 ≤ 3 by omega) agree
    rw [show 9 * 0 + 12 = 12 from rfl] at samePage
    obtain ⟨-, -, host, writable⟩ := @pageLeaf_spec vmm g' mtrr
    obtain ⟨hostPage, fakerom⟩ := @gp2hp_page vmm g g' samePage
    rw [isLeaf, fakerom, host]
    refine ⟨?_, writable, ?_⟩
    · apply UInt64.toNat_inj.mp
      rw [@Words.toNat_and_high _ (~~~0xFFF) 12 rfl (by omega),
        @Words.toNat_and_high _ (~~~0xFFF) 12 rfl (by omega), hostPage]
    · unfold FreePage at free ⊢
      rwa [samePage]
  · intro level g page positive small at' present large
    obtain ⟨isOne, g', mtrr, bound, agree, free, succeeds, isLeaf⟩ :=
      sound.large level g page at' positive present large
    have sameBlock := div_of_agree small (by omega) (show 1 ≤ 3 by omega) agree
    rw [show 9 * 1 + 12 = 21 from rfl] at sameBlock
    have block : g &&& ~~~0x1FFFFF = g' &&& ~~~0x1FFFFF := by
      apply UInt64.toNat_inj.mp
      rw [toNat_block, toNat_block, sameBlock]
    rw [block, isLeaf]
    refine ⟨isOne, succeeds, (leaf2m_spec succeeds).2.2, ?_⟩
    unfold FreeBlock at free ⊢
    rwa [sameBlock]

theorem vtEptClearAll_sound (ept : VtEpt vmm) : Sound (vtEptClearAll ept) ok4 ok2 := by
  refine sound_of_empty (fun i => ?_) rfl ⟨Nat.le_refl _, fun level low high => ?_⟩
  · simp [vtEptClearAll, VtEpt.zero]
  · simp only [vtEptClearAll] at low
    omega

theorem map1mbLoop_spec (listed : mmio.Listed) (fits : Fits vmm mtrr mmio ok4 ok2) (ns : List Nat)
    (bound : ∀ n ∈ ns, n < 256) : ∀ {ept : VtEpt vmm}, Sound ept ok4 ok2 →
      map1mbLoop mtrr mmio ns ept = some ept' → Sound ept' ok4 ok2 := by
  induction ns with
  | nil =>
    intro ept sound result
    rwa [← Option.some.inj result]
  | cons n ns ih =>
    intro ept sound result
    obtain ⟨first, page, rest⟩ := Option.bind_eq_some_iff.mp result
    refine ih (fun m member => bound m (List.mem_cons_of_mem _ member)) ?_ rest
    unfold map1mbPage at page
    have small := bound n (List.mem_cons_self ..)
    have address : (UInt64.ofNat (n * 4096)).toNat = n * 4096 := by
      rw [UInt64.toNat_ofNat']
      omega
    have limit : 2 ^ 32 ≤ vmm.limit := Nat.pow_le_pow_right (by omega) (Nat.le_min.mpr ⟨vmm.nbitsBounds.1, by omega⟩)
    have below : (UInt64.ofNat (n * 4096)).toNat < vmm.limit := by omega
    cases access : mmio.mmioAccessPage (UInt64.ofNat (n * 4096)) with
    | true =>
      rw [access, if_pos rfl] at page
      rwa [← Option.some.inj page]
    | false =>
      rw [access, if_neg Bool.false_ne_true] at page
      exact (vtEptMapPage_spec listed fits sound below (freePage_of_access listed below access) page).1

theorem Sound.shrinks {mmio' : MmioData} (shrinks : mmio.Shrinks mmio')
    (sound : Sound ept (OkPage vmm mmio) (OkLarge vmm mmio)) :
    Sound ept (OkPage vmm mmio') (OkLarge vmm mmio') := by
  have grows : Grows 0 0 mmio mmio' := by
    intro p registered x covers
    obtain ⟨old, same⟩ := shrinks p registered
    exact .inl ⟨old, same ▸ covers⟩
  exact Sound.grows grows sound fun x _ none' => absurd none' (Nat.not_lt_zero x)

/-- The addresses of a violation are those that the tables translate, and ranges that are registered
are not empty and end before the last page. -/
def Addressed (vmm : Vmm) : GuestEvent → Prop
  | .violation _ _ gphys => gphys.toNat < vmm.limit
  | .register _ _ gphys len _ _ => 0 < len.toNat ∧ gphys.toNat + len.toNat ≤ 2 ^ 64 - 2 ^ 12
  | _ => True

structure Guest.Kept (vcpus : List Nat) (s : Guest vmm) : Prop where
  listed : s.mmio.Listed
  flagged : s.mmio.Flagged
  sound : ∀ i ∈ vcpus, Sound (s.ept i) (OkPage vmm s.mmio) (OkLarge vmm s.mmio)

theorem Guest.Kept.setEpt (kept : s.Kept vcpus) {i : Nat}
    (sound : Sound ept (OkPage vmm s.mmio) (OkLarge vmm s.mmio)) : (s.setEpt i ept).Kept vcpus := by
  refine ⟨kept.listed, kept.flagged, fun v member => ?_⟩
  unfold Guest.setEpt
  by_cases here : v = i
  · subst here
    simpa using sound
  · simpa [here] using kept.sound v member

theorem Guest.Kept.shrinks (kept : s.Kept vcpus) {mmio' : MmioData}
    (shrinks : s.mmio.Shrinks mmio') (listed : mmio'.Listed) (flagged : mmio'.Flagged) :
    ({ s with mmio := mmio' } : Guest vmm).Kept vcpus :=
  ⟨listed, flagged, fun i member => (kept.sound i member).shrinks shrinks⟩

theorem grows_register {p : Nat} {len : UInt32} {unlockedHandler fails : Bool} :
    Grows gphys.toNat (if fails then gphys.toNat else gphys.toNat + len.toNat) mmio
      (mmio.register p gphys len unlockedHandler fails) := by
  unfold MmioData.register
  by_cases meets : mmio.handle.any fun q => (rangecheck (mmio.handles q) gphys len).isSome
  · rw [if_pos meets]
    exact fun q registered x covers => .inl ⟨registered, covers⟩
  · rw [if_neg meets]
    cases fails with
    | true => exact fun q registered x covers => .inl ⟨registered, covers⟩
    | false =>
      simp only [Bool.false_eq_true, if_false, MmioData.addAll_eq]
      rintro q ⟨member, registered⟩ x covers
      by_cases isNew : q = p
      · subst isNew
        simp only [Function.update_self] at covers
        exact .inr covers
      · simp only [Function.update_of_ne isNew] at registered covers
        refine .inl ⟨⟨?_, registered⟩, covers⟩
        simpa [isNew] using member

theorem Guest.Kept.register (kept : s.Kept vcpus) {i p : Nat} {len : UInt32}
    {unlockedHandler : Bool} {spt : Nat → UInt64 → UInt64 → Bool} (fresh : p ∉ s.mmio.handle)
    (positive : 0 < len.toNat) (fits : gphys.toNat + len.toNat ≤ 2 ^ 64 - 2 ^ 12)
    (result : s.register vcpus i p gphys len unlockedHandler spt = some t) : t.Kept vcpus := by
  unfold Guest.register at result
  split at result
  · exact Option.some.inj result ▸ kept
  · obtain ⟨⟨fails, epts⟩, flush, rfl⟩ := Option.map_eq_some_iff.mp result
    have plain : Plain gphys len := ⟨positive, by omega⟩
    have last := toNat_last plain
    obtain ⟨wiped, -⟩ := flushTlbEntry_spec (by omega) (by omega) flush
    refine ⟨kept.listed.register fresh plain, kept.flagged.register _ _, fun v member => ?_⟩
    refine Sound.grows grows_register ((kept.sound v member).wiped (wiped v)) ?_
    cases fails with
    | true => exact fun x low high => absurd high (by simp only [if_true]; omega)
    | false =>
      have flushed := flushed_of_flush (by omega) (by omega) flush member
      rw [last] at flushed
      exact fun x low high => flushed x low (by simp only [Bool.false_eq_true, if_false] at high; omega)

theorem Guest.Kept.step (kept : s.Kept vcpus) {event : GuestEvent} (step : s.Step vcpus event t)
    (addressed : Addressed vmm event) : t.Kept vcpus := by
  cases step with
  | @violation i write gphys ept handled member result =>
    exact kept.setEpt (vtEptViolation_spec kept.listed (fits_ok kept.listed) (kept.sound i member) addressed result).1
  | @clearAll i mtrr member =>
    have cleared := kept.setEpt (i := i) (vtEptClearAll_sound (s.ept i))
    exact ⟨cleared.listed, cleared.flagged, cleared.sound⟩
  | @map1mb i ept member result =>
    exact kept.setEpt (map1mbLoop_spec kept.listed (fits_ok kept.listed) _
      (fun n inRange => List.mem_range.mp inRange) (vtEptClearAll_sound _) result)
  | register member fresh result => exact kept.register fresh addressed.1 addressed.2 result
  | @unregister p held registered =>
    have step : s.mmio.Step (.unregister p held) (s.mmio.unregister p held) := .unregister registered
    obtain ⟨listed, flagged⟩ := kept.listed.step kept.flagged ⟨step, trivial⟩
    exact kept.shrinks (MmioData.shrinks_unregister s.mmio p held) listed flagged
  | @unlock held =>
    have step : s.mmio.Step (.unlock held) (s.mmio.unlock held) := .unlock
    obtain ⟨listed, flagged⟩ := kept.listed.step kept.flagged ⟨step, trivial⟩
    exact kept.shrinks (MmioData.shrinks_unlock s.mmio held) listed flagged

def guestInit (pages : Nat → TablePages vmm) (curGphys : Nat → UInt64)
    (curEntry : Nat → Nat → EntryPtr) (mem : Nat → UInt64 → UInt64 → UInt64) (mtrr : Nat → Mtrr) :
    Guest vmm where
  mmio := mmioInit
  ept i := vtEptInit (pages i) (curGphys i) (curEntry i) (mem i)
  mtrr := mtrr

/-- In every state of a run, the tables of every virtual processor are right. -/
theorem ept_right (vcpus : List Nat) (pages : Nat → TablePages vmm) (curGphys : Nat → UInt64)
    (curEntry : Nat → Nat → EntryPtr) (mem : Nat → UInt64 → UInt64 → UInt64) (mtrr : Nat → Mtrr)
    {events : List GuestEvent}
    (run : Run (fun before event after => Guest.Step vcpus before event after ∧ Addressed vmm event)
      (guestInit pages curGphys curEntry mem mtrr) events s) : ∀ i ∈ vcpus, Right s.mmio (s.ept i) := by
  have kept : s.Kept vcpus := by
    refine run.keeps (Guest.Kept vcpus) ?_ ?_
    · rintro before event after ⟨step, addressed⟩ kept
      exact kept.step step addressed
    · refine ⟨MmioData.listed_init.1, MmioData.listed_init.2, fun i _ => ?_⟩
      refine sound_of_empty (fun j => ?_) rfl ⟨Nat.le_refl _, fun level low high => ?_⟩
      · simp [guestInit, vtEptInit, VtEpt.zero]
      · simp only [guestInit, vtEptInit, VtEpt.zero] at low
        omega
  exact fun i member => (kept.sound i member).right

def guestAt256m : Guest vmmAt256m :=
  guestInit (fun _ => pagesAt256m) (fun _ => 0) (fun _ _ => ⟨0, 0⟩) (fun _ _ _ => 0)
    fun _ => mixedTypes

theorem violationAt256m (gphys : UInt64) (P : VtEpt vmmAt256m → Bool)
    (holds : (vtEptViolation mixedTypes mmioInit (guestAt256m.ept 0) false gphys).any
      (fun result => P result.1) = true) :
    ∃ s, guestAt256m.Step [0] (.violation 0 false gphys) s ∧ P (s.ept 0) = true := by
  cases result : vtEptViolation mixedTypes mmioInit (guestAt256m.ept 0) false gphys with
  | none =>
    rw [result] at holds
    cases holds
  | some after =>
    obtain ⟨ept, handled⟩ := after
    rw [result, Option.any_some] at holds
    exact ⟨_, .violation (List.mem_singleton.mpr rfl) result, holds⟩

theorem ept_right_page : ∃ s, guestAt256m.Step [0] (.violation 0 false 0) s ∧ Right s.mmio (s.ept 0) := by
  obtain ⟨s, step, -⟩ := violationAt256m 0 (fun _ => true) (by decide +kernel)
  have addressed : Addressed vmmAt256m (.violation 0 false 0) := by
    unfold Addressed
    decide
  exact ⟨s, step, ept_right [0] (fun _ => pagesAt256m) (fun _ => 0) (fun _ _ => ⟨0, 0⟩)
    (fun _ _ _ => 0) (fun _ => mixedTypes) (Run.cons ⟨step, addressed⟩ (Run.nil _)) 0
    (List.mem_singleton.mpr rfl)⟩

/-- After the first violation the cursor is not where a walk for its address ends; and after one at
2 ^ 48 that address is mapped for address 0. -/
theorem cursor_behind_and_address_cut :
    (∃ s, guestAt256m.Step [0] (.violation 0 false 0) s ∧
      (s.ept 0).curLevel ≠ ((s.ept 0).freshWalk (s.ept 0).curGphys).curLevel) ∧
    ∃ s, guestAt256m.Step [0] (.violation 0 false 0x1000000000000) s ∧
      ((s.ept 0).freshWalk 0).curLevel = 0 ∧
      ((s.ept 0).freshWalk 0).read (((s.ept 0).freshWalk 0).curEntry 0) &&& ~~~0xFFF ≠
        (vmmAt256m.gp2hp 0).1 &&& ~~~0xFFF := by
  constructor
  · obtain ⟨s, step, behind⟩ := violationAt256m 0
      (fun ept => ept.curLevel ≠ (ept.freshWalk ept.curGphys).curLevel) (by decide +kernel)
    exact ⟨s, step, of_decide_eq_true behind⟩
  · obtain ⟨s, step, cut⟩ := violationAt256m 0x1000000000000
      (fun ept => (ept.freshWalk 0).curLevel = 0 ∧
        (ept.freshWalk 0).read ((ept.freshWalk 0).curEntry 0) &&& ~~~0xFFF ≠
          (vmmAt256m.gp2hp 0).1 &&& ~~~0xFFF) (by decide +kernel)
    exact ⟨s, step, of_decide_eq_true cut⟩

end DisasVisor.Ept
