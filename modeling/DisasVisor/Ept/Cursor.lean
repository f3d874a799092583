import Mathlib.Tactic.IntervalCases
import DisasVisor.Ept.Tables

/-!
The cursor of `core/vt_ept.c`: after `cur_move` it is where a walk from the top table ends.
-/

namespace DisasVisor.Ept

open Function RadixTables

variable {vmm : Vmm}

def IsTable (e : UInt64) : Prop := e &&& epteRead ≠ 0 ∧ e &&& epteLarge = 0

instance (e : UInt64) : Decidable (IsTable e) := inferInstanceAs (Decidable (_ ∧ _))

def radix : Radix UInt64 UInt64 UInt64 UInt64 where
  top := 3
  index level gphys := tableIndex gphys (level + 1)
  child e := if IsTable e then some (e &&& ~~~0xFFF) else none

theorem child_eq_none {e : UInt64} : radix.child e = none ↔ ¬IsTable e := by
  simp only [radix]
  split <;> simp_all

theorem child_of_isTable {e : UInt64} (table : IsTable e) : radix.child e = some (e &&& ~~~0xFFF) := if_pos table

namespace VtEpt

def TableAt (ept : VtEpt vmm) (level : Nat) (gphys page : UInt64) : Prop :=
  radix.TableAt ept.mem ept.pages.ncr3tbl level gphys page

def entry (ept : VtEpt vmm) (level : Nat) (gphys page : UInt64) : UInt64 := ept.mem page (radix.index level gphys)

structure OnWalk (ept : VtEpt vmm) : Prop where
  level_le : ept.curLevel ≤ eptLevels
  entries : ∀ level, ept.curLevel ≤ level → level < eptLevels →
    ∃ page, ept.TableAt level ept.curGphys page ∧
      ept.curEntry level = ⟨page, radix.index level ept.curGphys⟩

end VtEpt

variable {ept ept' : VtEpt vmm} {gphys curGphys page : UInt64} {level : Nat}

theorem toNat_tableIndex (bound : level ≤ 6) :
    (tableIndex gphys level).toNat = gphys.toNat / 2 ^ (9 * level + 3) % 512 := by
  have amount : (UInt64.ofNat (9 * level + 3)).toNat = 9 * level + 3 := by
    rw [UInt64.toNat_ofNat']
    omega
  rw [tableIndex, @Words.toNat_and_low _ 0x1FF 9 rfl, Words.toNat_shiftRight _ (by omega), amount]
  rfl

theorem toNat_and_moveMask (bound : level < eptLevels) :
    (gphys &&& moveMask level).toNat = gphys.toNat / 2 ^ (9 * level + 12) * 2 ^ (9 * level + 12) := by
  unfold eptLevels at bound
  apply Words.toNat_and_high
  · interval_cases level <;> rfl
  · omega

theorem div_eq_of_mask (bound : level < eptLevels) (same : gphys &&& moveMask level = curGphys &&& moveMask level) :
    gphys.toNat / 2 ^ (9 * level + 12) = curGphys.toNat / 2 ^ (9 * level + 12) := by
  have values := congrArg UInt64.toNat same
  rw [toNat_and_moveMask bound, toNat_and_moveMask bound] at values
  exact Nat.eq_of_mul_eq_mul_right (Nat.two_pow_pos _) values

theorem agree_of_div {g g' : UInt64} (same : g.toNat / 2 ^ (9 * level + 12) = g'.toNat / 2 ^ (9 * level + 12)) :
    radix.Agree level g g' := by
  intro m low high
  have le : m ≤ 3 := high
  have split : 9 * (m + 1) + 3 = 9 * level + 12 + 9 * (m - level) := by omega
  apply UInt64.toNat_inj.mp
  simp only [radix]
  rw [toNat_tableIndex (by omega), toNat_tableIndex (by omega), split, Nat.pow_add,
    ← Nat.div_div_eq_div_mul, ← Nat.div_div_eq_div_mul, same]

theorem div_of_agree {g g' : UInt64} (small : g.toNat < 2 ^ 48) (small' : g'.toNat < 2 ^ 48)
    (bound : level ≤ 3) (agree : radix.Agree level g g') :
    g.toNat / 2 ^ (9 * level + 12) = g'.toNat / 2 ^ (9 * level + 12) := by
  have digits : ∀ m, level ≤ m → m ≤ 3 → g.toNat / 2 ^ (9 * m + 12) % 512 = g'.toNat / 2 ^ (9 * m + 12) % 512 := by
    intro m low high
    have index := congrArg UInt64.toNat (agree m low high)
    simp only [radix] at index
    rwa [toNat_tableIndex (by omega), toNat_tableIndex (by omega)] at index
  have step : ∀ left, left ≤ 4 - level →
      g.toNat / 2 ^ (9 * (4 - left) + 12) = g'.toNat / 2 ^ (9 * (4 - left) + 12) := by
    intro left
    induction left with
    | zero =>
      intro _
      rw [Nat.div_eq_of_lt small, Nat.div_eq_of_lt small']
    | succ left ih =>
      intro le
      have upper := ih (by omega)
      have digit := digits (4 - (left + 1)) (by omega) (by omega)
      have exponent : 9 * (4 - left) + 12 = 9 * (4 - (left + 1)) + 12 + 9 := by omega
      rw [exponent, Nat.pow_add, ← Nat.div_div_eq_div_mul, ← Nat.div_div_eq_div_mul] at upper
      omega
  have last := step (4 - level) (Nat.le_refl _)
  rwa [show 4 - (4 - level) = level by omega] at last

theorem physToVirt_eq (e : UInt64) (bound : level ≤ 3) :
    physToVirt ((e &&& ~~~0xFFF) ||| ((gphys >>> UInt64.ofNat (9 * level)) &&& 0xFF8)) =
      { page := e &&& ~~~0xFFF, index := tableIndex gphys level } := by
  have amount : (UInt64.ofNat (9 * level)).toNat = 9 * level := by
    rw [UInt64.toNat_ofNat']
    omega
  have tableNat := @Words.toNat_and_high e (~~~0xFFF) 12 rfl (by omega)
  have shifted : (gphys >>> UInt64.ofNat (9 * level)).toNat = gphys.toNat / 2 ^ (9 * level) := by
    rw [Words.toNat_shiftRight _ (by omega), amount]
  have place : ((gphys >>> UInt64.ofNat (9 * level)) &&& 0xFF8).toNat =
      gphys.toNat / 2 ^ (9 * level) / 8 % 512 * 8 := by
    have split : (0xFF8 : UInt64) = 0xFFF &&& ~~~7 := rfl
    rw [split, ← UInt64.and_assoc, @Words.toNat_and_high _ (~~~7) 3 rfl (by omega),
      @Words.toNat_and_low _ 0xFFF 12 rfl, shifted]
    omega
  have sum := @Words.toNat_or (e &&& ~~~0xFFF)
    ((gphys >>> UInt64.ofNat (9 * level)) &&& 0xFF8) 12 (by rw [tableNat]; omega)
    (by rw [place]; omega)
  have three : (3 : UInt64).toNat = 3 := rfl
  unfold physToVirt
  congr 1
  · apply UInt64.toNat_inj.mp
    rw [@Words.toNat_and_high _ (~~~0xFFF) 12 rfl (by omega), sum, tableNat, place]
    omega
  · apply UInt64.toNat_inj.mp
    rw [Words.toNat_shiftRight _ (by decide), @Words.toNat_and_low _ 0xFFF 12 rfl, sum, tableNat,
      place, three, toNat_tableIndex (by omega), Nat.pow_add, ← Nat.div_div_eq_div_mul]
    omega

theorem seekUp_spec (left : Nat) : ∀ {level}, level + left = eptLevels →
    level ≤ seekUp gphys curGphys left level ∧ seekUp gphys curGphys left level ≤ eptLevels ∧
      (seekUp gphys curGphys left level < eptLevels →
        radix.Agree (seekUp gphys curGphys left level) curGphys gphys) := by
  induction left with
  | zero =>
    intro level isTop
    exact ⟨Nat.le_refl _, by rw [seekUp]; omega, fun below => by rw [seekUp] at below; omega⟩
  | succ left ih =>
    intro level isTop
    unfold seekUp
    by_cases differ : gphys &&& moveMask level ≠ curGphys &&& moveMask level
    · rw [if_pos differ]
      obtain ⟨low, high, agree⟩ := @ih (level + 1) (by omega)
      exact ⟨by omega, high, agree⟩
    · rw [if_neg differ]
      refine ⟨Nat.le_refl _, by omega, fun below => ?_⟩
      exact (agree_of_div (div_eq_of_mask below (not_not.mp differ))).symm

structure Moved (ept ept' : VtEpt vmm) (gphys : UInt64) : Prop where
  pages : ept'.pages = ept.pages
  cnt : ept'.cnt = ept.cnt
  cleared : ept'.cleared = ept.cleared
  mem : ept'.mem = ept.mem
  address : ept'.curGphys = gphys
  walk : ept'.OnWalk
  low : ept'.curLevel < eptLevels
  ends : ept'.curLevel = 0 ∨ ¬IsTable (ept'.read (ept'.curEntry ept'.curLevel))

theorem Moved.tableAt (moved : Moved ept ept' gphys) {g : UInt64} :
    ept'.TableAt level g page ↔ ept.TableAt level g page := by
  unfold VtEpt.TableAt
  rw [moved.pages, moved.mem]

theorem Moved.entry (moved : Moved ept ept' gphys) (g : UInt64) : ept'.entry level g page = ept.entry level g page := by
  unfold VtEpt.entry
  rw [moved.mem]

theorem seekDown_spec (level : Nat) : ∀ {ept : VtEpt vmm} {page}, level < eptLevels →
    ept.curLevel = level → ept.OnWalk →
    ept.curEntry level = ⟨page, radix.index level ept.curGphys⟩ →
    ept.TableAt level ept.curGphys page →
      Moved ept (seekDown ept.curGphys level ept ⟨page, radix.index level ept.curGphys⟩) ept.curGphys := by
  induction level with
  | zero =>
    intro ept page bound isLevel walk _ _
    exact ⟨rfl, rfl, rfl, rfl, rfl, walk, by rw [seekDown, isLevel]; exact bound, .inl isLevel⟩
  | succ level ih =>
    intro ept page bound isLevel walk here at'
    have unfolded : eptLevels = 4 := rfl
    unfold seekDown
    by_cases stop : ept.read ⟨page, radix.index (level + 1) ept.curGphys⟩ &&& epteRead = 0 ∨
        ept.read ⟨page, radix.index (level + 1) ept.curGphys⟩ &&& epteLarge ≠ 0
    · rw [if_pos stop]
      refine ⟨rfl, rfl, rfl, rfl, rfl, walk, by omega, .inr ?_⟩
      rw [isLevel, here]
      rintro ⟨isRead, notLarge⟩
      rcases stop with notRead | large
      · exact isRead notRead
      · exact large notLarge
    · rw [if_neg stop]
      have table : IsTable (ept.entry (level + 1) ept.curGphys page) :=
        ⟨fun notRead => stop (.inl notRead), not_not.mp fun large => stop (.inr large)⟩
      have below : ept.TableAt level ept.curGphys (ept.entry (level + 1) ept.curGphys page &&& ~~~0xFFF) :=
        .down at' (child_of_isTable table)
      have pointer := @physToVirt_eq ept.curGphys (level + 1) (ept.entry (level + 1) ept.curGphys page) (by omega)
      simp only [VtEpt.read]
      rw [show ept.mem page (radix.index (level + 1) ept.curGphys) =
        ept.entry (level + 1) ept.curGphys page from rfl, pointer]
      have walk' : ({ ept with
          curLevel := level
          curEntry := update ept.curEntry level
            ⟨ept.entry (level + 1) ept.curGphys page &&& ~~~0xFFF,
              tableIndex ept.curGphys (level + 1)⟩ } : VtEpt vmm).OnWalk := by
        refine ⟨Nat.le_of_lt (Nat.lt_of_succ_lt bound), ?_⟩
        intro m low high
        rcases Nat.eq_or_lt_of_le low with rfl | above
        · exact ⟨_, below, update_self _ _ _⟩
        · have notSame : m ≠ level := Nat.ne_of_gt above
          obtain ⟨upper, upperAt, isEntry⟩ := walk.entries m (isLevel ▸ above) high
          exact ⟨upper, upperAt, (update_of_ne notSame _ _).trans isEntry⟩
      have moved := ih (by omega) rfl walk' (update_self _ _ _) below
      exact ⟨moved.pages, moved.cnt, moved.cleared, moved.mem, moved.address, moved.walk, moved.low, moved.ends⟩

theorem curMove_spec (walk : ept.OnWalk) (gphys : UInt64) : Moved ept (curMove ept gphys) gphys := by
  have unfolded : eptLevels = 4 := rfl
  have le := walk.level_le
  obtain ⟨low, high, agree⟩ := @seekUp_spec gphys ept.curGphys (eptLevels - ept.curLevel) ept.curLevel (by omega)
  unfold curMove
  generalize seekUp gphys ept.curGphys (eptLevels - ept.curLevel) ept.curLevel = level at *
  have walk' : ({ ept with curLevel := level, curGphys := gphys } : VtEpt vmm).OnWalk := by
    refine ⟨high, ?_⟩
    intro m above below
    have above' : level ≤ m := above
    obtain ⟨page, at', isEntry⟩ := walk.entries m (Nat.le_trans low above) below
    have agrees := agree (Nat.lt_of_le_of_lt above below)
    refine ⟨page, at'.congr (agrees.mono (by omega)), ?_⟩
    rw [isEntry, agrees m above at'.level_le]
  by_cases atBottom : level = 0
  · simp only [if_pos atBottom]
    exact ⟨rfl, rfl, rfl, rfl, rfl, walk', by simp only [atBottom]; decide, .inl atBottom⟩
  · simp only [if_neg atBottom]
    by_cases atTop : level ≥ eptLevels
    · simp only [if_pos atTop]
      have root : ({ ept with curLevel := level, curGphys := gphys } : VtEpt vmm).TableAt 3 gphys
          ept.pages.ncr3tbl := Radix.TableAt.top gphys
      have here : update ept.curEntry 3 ⟨ept.pages.ncr3tbl, tableIndex gphys eptLevels⟩ 3 =
          ⟨ept.pages.ncr3tbl, radix.index 3 gphys⟩ := update_self _ _ _
      have walk'' : ({ ept with
          curLevel := eptLevels - 1
          curGphys := gphys
          curEntry := update ept.curEntry (eptLevels - 1)
            ⟨ept.pages.ncr3tbl, tableIndex gphys eptLevels⟩ } : VtEpt vmm).OnWalk := by
        refine ⟨Nat.sub_le _ _, ?_⟩
        intro m above below
        have isThree : m = 3 := by
          simp only at above
          omega
        subst isThree
        exact ⟨_, root, here⟩
      have moved := seekDown_spec 3 (by omega) rfl walk'' here root
      exact ⟨moved.pages, moved.cnt, moved.cleared, moved.mem, moved.address, moved.walk, moved.low, moved.ends⟩
    · simp only [if_neg atTop]
      obtain ⟨page, at', isEntry⟩ := walk'.entries level (Nat.le_refl _) (by omega)
      have moved := @seekDown_spec vmm level { ept with curLevel := level, curGphys := gphys } page
        (by omega) rfl walk' isEntry at'
      rw [← isEntry] at moved
      exact ⟨moved.pages, moved.cnt, moved.cleared, moved.mem, moved.address, moved.walk, moved.low, moved.ends⟩

/-!
What the tables of `core/vt_ept.c` keep while they are filled: a table is linked at one place, and
the leaves are what they are said to be.
-/

variable {ok4 ok2 : UInt64 → UInt64 → Prop} {e : UInt64}

def IsPresent (e : UInt64) : Prop := e &&& epteRead ≠ 0

def IsLarge (e : UInt64) : Prop := e &&& epteLarge ≠ 0

/-- The tables and the cursor are right, and leaves are as `ok4` and `ok2` say for the addresses
that lead to them. -/
structure Sound (ept : VtEpt vmm) (ok4 ok2 : UInt64 → UInt64 → Prop) : Prop where
  count : ept.cnt ≤ numOfEptbl
  apart : radix.Apart ept.mem ept.pages.ncr3tbl
  walk : ept.OnWalk
  links : ∀ level g page, ept.TableAt level g page → 0 < level → IsTable (ept.entry level g page) →
    ∃ i < ept.cnt, ept.entry level g page &&& ~~~0xFFF = ept.pages.tbl i
  large : ∀ level g page, ept.TableAt level g page → 0 < level →
    IsPresent (ept.entry level g page) → IsLarge (ept.entry level g page) →
      level = 1 ∧ ok2 g (ept.entry level g page)
  leaf : ∀ g page, ept.TableAt 0 g page → IsPresent (ept.entry 0 g page) → ok4 g (ept.entry 0 g page)

def VtEpt.Mapped (ept : VtEpt vmm) (g : UInt64) : Prop :=
  (∃ page, ept.TableAt 0 g page ∧ IsPresent (ept.entry 0 g page)) ∨
    ∃ page, ept.TableAt 1 g page ∧ IsPresent (ept.entry 1 g page) ∧ IsLarge (ept.entry 1 g page)

theorem not_isTable_of_large (large : IsLarge e) : ¬IsTable e := fun table => large table.2

theorem isTable_or (present : IsPresent e) : IsTable e ∨ IsLarge e := by
  by_cases large : IsLarge e
  · exact .inr large
  · exact .inl ⟨present, not_not.mp large⟩

theorem not_isTable_zero : ¬IsTable 0 := by decide

theorem not_isPresent_zero : ¬IsPresent 0 := fun present => present rfl

theorem Sound.page_or (sound : Sound ept ok4 ok2) (at' : ept.TableAt level gphys page) :
    page = ept.pages.ncr3tbl ∨ ∃ i < ept.cnt, page = ept.pages.tbl i := by
  unfold VtEpt.TableAt at at'
  cases at' with
  | top => exact .inl rfl
  | @down _ _ upper _ above link =>
    change radix.child (ept.entry (level + 1) gphys upper) = some page at link
    have table : IsTable (ept.entry (level + 1) gphys upper) := by
      by_contra none'
      rw [child_eq_none.mpr none'] at link
      cases link
    obtain ⟨i, used, same⟩ := sound.links _ _ _ above (Nat.succ_pos _) table
    rw [child_of_isTable table] at link
    exact .inr ⟨i, used, (Option.some.inj link).symm.trans same⟩

variable {g upper : UInt64} {m : Nat}

theorem Sound.fresh (sound : Sound ept ok4 ok2) (left : ept.cnt < numOfEptbl) :
    ¬ept.TableAt level g (ept.pages.tbl ept.cnt) := by
  intro at'
  rcases sound.page_or at' with root | ⟨i, used, same⟩
  · exact ept.pages.notRoot _ left root
  · exact absurd (ept.pages.distinct _ _ left (by omega) same) (by omega)

theorem link_isTable (aligned : page.toNat % 2 ^ 12 = 0) :
    IsTable (page ||| (epteReadexec ||| epteWrite)) ∧
      (page ||| (epteReadexec ||| epteWrite)) &&& ~~~0xFFF = page := by
  have seven : (epteReadexec ||| epteWrite).toNat = 7 := rfl
  have sum := @Words.toNat_or page (epteReadexec ||| epteWrite) 12 aligned (by rw [seven]; omega)
  refine ⟨⟨?_, ?_⟩, ?_⟩
  · rw [@Words.and_bit_ne_zero _ epteRead 0 rfl, sum, seven]
    omega
  · rw [@Words.and_bit_eq_zero _ epteLarge 7 rfl, sum, seven]
    omega
  · apply UInt64.toNat_inj.mp
    rw [@Words.toNat_and_high _ (~~~0xFFF) 12 rfl (by omega), sum, seven]
    omega

def fillStep (ept : VtEpt vmm) (p : EntryPtr) : VtEpt vmm :=
  { ept.write p (ept.pages.tbl ept.cnt ||| (epteReadexec ||| epteWrite)) with
    cnt := ept.cnt + 1 }.zero (ept.pages.tbl ept.cnt)

theorem fillLoop_succ (left l : Nat) (p : EntryPtr) : fillLoop gphys (left + 1) l ept p =
    fillLoop gphys left (l - 1) (fillStep ept p) ⟨ept.pages.tbl ept.cnt, tableIndex gphys l⟩ := rfl

section

variable (sound : Sound ept ok4 ok2) (at' : ept.TableAt (level + 1) gphys page)
  (free : ¬IsTable (ept.entry (level + 1) gphys page)) (left : ept.cnt < numOfEptbl)
include sound at' free left

theorem fillStep_links : radix.Links ept.mem
    (fillStep ept ⟨page, radix.index (level + 1) gphys⟩).mem ept.pages.ncr3tbl level gphys page
    (ept.pages.tbl ept.cnt) := by
  have notNew : page ≠ ept.pages.tbl ept.cnt := fun same => sound.fresh left (same ▸ at')
  refine ⟨at', child_eq_none.mpr free, ?_, fun level' g' => sound.fresh left, ?_, ?_⟩
  · obtain ⟨table, same⟩ := @link_isTable (ept.pages.tbl ept.cnt) (ept.pages.tblAligned _ left)
    simp only [fillStep, VtEpt.zero, VtEpt.write, update_of_ne notNew, update_self]
    rw [child_of_isTable table, same]
  · intro i
    simp only [fillStep, VtEpt.zero, update_self]
    exact child_eq_none.mpr not_isTable_zero
  · intro page' i old other
    simp only [fillStep, VtEpt.zero, VtEpt.write, update_of_ne old]
    by_cases here : page' = page
    · subst here
      rw [update_self, update_of_ne (other rfl)]
    · rw [update_of_ne here]

theorem fillStep_tableAt :
    (fillStep ept ⟨page, radix.index (level + 1) gphys⟩).TableAt m g upper ↔
      ept.TableAt m g upper ∨ (m = level ∧ radix.Agree (level + 1) gphys g ∧ upper = ept.pages.tbl ept.cnt) :=
  (fillStep_links sound at' free left).tableAt_iff sound.apart

theorem fillStep_entry (after : (fillStep ept ⟨page, radix.index (level + 1) gphys⟩).TableAt m g upper) :
    (ept.TableAt m g upper ∧
        (fillStep ept ⟨page, radix.index (level + 1) gphys⟩).entry m g upper = ept.entry m g upper) ∨
      (m = level + 1 ∧ radix.Agree (level + 1) gphys g ∧ upper = page ∧
        (fillStep ept ⟨page, radix.index (level + 1) gphys⟩).entry m g upper =
          ept.pages.tbl ept.cnt ||| (epteReadexec ||| epteWrite)) ∨
      (m = level ∧ (fillStep ept ⟨page, radix.index (level + 1) gphys⟩).entry m g upper = 0) := by
  have links := fillStep_links sound at' free left
  rcases (fillStep_tableAt sound at' free left).mp after with old | ⟨isLevel, -, isNew⟩
  · have notNew : upper ≠ ept.pages.tbl ept.cnt := fun same => sound.fresh left (same ▸ old)
    by_cases here : upper = page ∧ radix.index m g = radix.index (level + 1) gphys
    · obtain ⟨rfl, index⟩ := here
      obtain ⟨isLevel, agree⟩ := sound.apart.entry at' old index.symm
      refine .inr (.inl ⟨isLevel.symm, agree, rfl, ?_⟩)
      simp only [VtEpt.entry, fillStep, VtEpt.zero, VtEpt.write, index, update_of_ne notNew, update_self]
    · exact .inl ⟨old, links.same _ _ notNew fun same index => here ⟨same, index⟩⟩
  · refine .inr (.inr ⟨isLevel, ?_⟩)
    simp only [VtEpt.entry, fillStep, VtEpt.zero, isNew, update_self]

theorem fillStep_sound : Sound (fillStep ept ⟨page, radix.index (level + 1) gphys⟩) ok4 ok2 := by
  have links := fillStep_links sound at' free left
  obtain ⟨table, isNew⟩ := @link_isTable (ept.pages.tbl ept.cnt) (ept.pages.tblAligned _ left)
  refine ⟨left, links.apart sound.apart, ⟨sound.walk.level_le, ?_⟩, ?_, ?_, ?_⟩
  · intro m low high
    obtain ⟨upper, upperAt, isEntry⟩ := sound.walk.entries m low high
    exact ⟨upper, links.kept upperAt, isEntry⟩
  · intro m g upper after positive isLink
    rcases fillStep_entry sound at' free left after with ⟨old, same⟩ | ⟨-, -, -, same⟩ | ⟨-, same⟩
    · rw [same] at isLink ⊢
      obtain ⟨i, used, target⟩ := sound.links _ _ _ old positive isLink
      exact ⟨i, Nat.lt_succ_of_lt used, target⟩
    · rw [same]
      exact ⟨ept.cnt, Nat.lt_succ_self _, isNew⟩
    · rw [same] at isLink
      exact absurd isLink not_isTable_zero
  · intro m g upper after positive present large
    rcases fillStep_entry sound at' free left after with ⟨old, same⟩ | ⟨-, -, -, same⟩ | ⟨-, same⟩
    · rw [same] at present large ⊢
      exact sound.large _ _ _ old positive present large
    · rw [same] at large
      exact absurd table (not_isTable_of_large large)
    · rw [same] at present
      exact absurd present not_isPresent_zero
  · intro g upper after present
    rcases fillStep_entry sound at' free left after with ⟨old, same⟩ | ⟨isLevel, -⟩ | ⟨-, same⟩
    · rw [same] at present ⊢
      exact sound.leaf _ _ old present
    · omega
    · rw [same] at present
      exact absurd present not_isPresent_zero

theorem fillStep_mapped (absent : ¬IsPresent (ept.entry (level + 1) gphys page)) (mapped : ept.Mapped g) :
    (fillStep ept ⟨page, radix.index (level + 1) gphys⟩).Mapped g := by
  have links := fillStep_links sound at' free left
  have kept : ∀ m upper, ept.TableAt m g upper → IsPresent (ept.entry m g upper) →
      (fillStep ept ⟨page, radix.index (level + 1) gphys⟩).entry m g upper =
        ept.entry m g upper := by
    intro m upper old present
    refine links.same _ _ (fun same => sound.fresh left (same ▸ old)) fun same index => ?_
    subst same
    rw [VtEpt.entry, index] at present
    exact absent present
  rcases mapped with ⟨upper, old, present⟩ | ⟨upper, old, present, large⟩
  · refine .inl ⟨upper, links.kept old, ?_⟩
    rwa [kept 0 upper old present]
  · refine .inr ⟨upper, links.kept old, ?_⟩
    rw [kept 1 upper old present]
    exact ⟨present, large⟩

end

structure Filled (ept ept' : VtEpt vmm) (ok4 ok2 : UInt64 → UInt64 → Prop) (gphys : UInt64)
    (level : Nat) (p : EntryPtr) : Prop where
  sound : Sound ept' ok4 ok2
  pages : ept'.pages = ept.pages
  address : ept'.curGphys = ept.curGphys
  pointer : ∃ page, ept'.TableAt level gphys page ∧ p = ⟨page, radix.index level gphys⟩
  free : 0 < level → ¬IsTable (ept'.read p)

theorem fillLoop_spec (steps : Nat) : ∀ {ept : VtEpt vmm} {level page}, Sound ept ok4 ok2 →
    ept.TableAt (level + steps) gphys page → (0 < level + steps →
      ¬IsTable (ept.entry (level + steps) gphys page)) → ept.cnt + steps ≤ numOfEptbl →
    Filled ept (fillLoop gphys steps (level + steps) ept
        ⟨page, radix.index (level + steps) gphys⟩).1 ok4 ok2 gphys level
      (fillLoop gphys steps (level + steps) ept ⟨page, radix.index (level + steps) gphys⟩).2 ∧
      (fillLoop gphys steps (level + steps) ept ⟨page, radix.index (level + steps) gphys⟩).1.cleared = ept.cleared ∧
      ((0 < steps → ¬IsPresent (ept.entry (level + steps) gphys page)) → ∀ g, ept.Mapped g →
        (fillLoop gphys steps (level + steps) ept ⟨page, radix.index (level + steps) gphys⟩).1.Mapped g) := by
  induction steps with
  | zero =>
    intro ept level page sound at' free _
    exact ⟨⟨sound, rfl, rfl, ⟨page, at', rfl⟩, free⟩, rfl, fun _ _ mapped => mapped⟩
  | succ steps ih =>
    intro ept level page sound at' free room
    have left : ept.cnt < numOfEptbl := by omega
    have notTable := free (by omega)
    have after := fillStep_sound sound at' notTable left
    have below : (fillStep ept ⟨page, radix.index (level + steps + 1) gphys⟩).TableAt
        (level + steps) gphys (ept.pages.tbl ept.cnt) :=
      (fillStep_tableAt sound at' notTable left).mpr (.inr ⟨rfl, fun _ _ _ => rfl, rfl⟩)
    have zero : (fillStep ept ⟨page, radix.index (level + steps + 1) gphys⟩).entry
        (level + steps) gphys (ept.pages.tbl ept.cnt) = 0 := by
      simp only [VtEpt.entry, fillStep, VtEpt.zero, update_self]
    obtain ⟨filled, cleared, mapped⟩ := ih after below (fun _ => zero ▸ not_isTable_zero)
      (by simp only [fillStep, VtEpt.zero]; omega)
    rw [show level + (steps + 1) = level + steps + 1 from rfl, fillLoop_succ]
    refine ⟨⟨filled.sound, filled.pages, filled.address, filled.pointer, filled.free⟩, cleared, ?_⟩
    · intro absent g old
      exact mapped (fun _ => zero ▸ not_isPresent_zero) g
        (fillStep_mapped sound at' notTable left (absent (Nat.succ_pos _)) old)

theorem reset_tableAt (empty : ∀ i, ept.mem ept.pages.ncr3tbl i = 0) (at' : ept.TableAt m g upper) :
    m = 3 ∧ upper = ept.pages.ncr3tbl :=
  Radix.tableAt_of_empty (fun i => child_eq_none.mpr (empty i ▸ not_isTable_zero)) at'

theorem sound_of_empty (empty : ∀ i, ept.mem ept.pages.ncr3tbl i = 0) (cnt : ept.cnt = 0)
    (walk : ept.OnWalk) : Sound ept ok4 ok2 := by
  have none' : ∀ m g upper, ept.TableAt m g upper → ept.entry m g upper = 0 := by
    intro m g upper at'
    obtain ⟨-, rfl⟩ := reset_tableAt empty at'
    exact empty _
  refine ⟨by rw [cnt]; exact Nat.zero_le _,
    Radix.apart_of_empty fun i => child_eq_none.mpr (empty i ▸ not_isTable_zero), walk, ?_, ?_, ?_⟩
  · intro m g upper at' _ table
    rw [none' m g upper at'] at table
    exact absurd table not_isTable_zero
  · intro m g upper at' _ present
    rw [none' m g upper at'] at present
    exact absurd present not_isPresent_zero
  · intro g upper at' present
    rw [none' 0 g upper at'] at present
    exact absurd present not_isPresent_zero

theorem reset_empty (i : UInt64) : ept.reset.mem ept.reset.pages.ncr3tbl i = 0 := by
  simp [VtEpt.reset, VtEpt.zero]

theorem reset_sound (walk : ept.OnWalk) (low : ept.curLevel < eptLevels) : Sound ept.reset ok4 ok2 := by
  refine sound_of_empty reset_empty rfl ⟨Nat.sub_le _ _, ?_⟩
  intro m above below
  have isThree : m = 3 := by
    simp only [VtEpt.reset, eptLevels] at above below
    omega
  subst isThree
  unfold eptLevels at low
  obtain ⟨page, at', isEntry⟩ := walk.entries 3 (by omega) below
  refine ⟨ept.pages.ncr3tbl, Radix.TableAt.top _, ?_⟩
  rw [← Radix.TableAt.at_top at']
  exact isEntry

def Exhausted (ept : VtEpt vmm) (level : Nat) : Prop := ept.cnt + ept.curLevel - level > numOfEptbl

theorem curFill_spec (sound : Sound ept ok4 ok2) (le : level ≤ ept.curLevel) (low : ept.curLevel < eptLevels)
    (ends : ept.curLevel = 0 ∨ ¬IsTable (ept.read (ept.curEntry ept.curLevel))) :
    Filled ept (curFill ept ept.curGphys level).1 ok4 ok2 ept.curGphys level (curFill ept ept.curGphys level).2 ∧
      (Exhausted ept level → (curFill ept ept.curGphys level).1.cleared = true) ∧
      (¬Exhausted ept level → (curFill ept ept.curGphys level).1.cleared = ept.cleared ∧
        ((level < ept.curLevel → ¬IsPresent (ept.read (ept.curEntry ept.curLevel))) →
          ∀ g, ept.Mapped g → (curFill ept ept.curGphys level).1.Mapped g)) := by
  have unfolded : eptLevels = 4 := rfl
  have limit : numOfEptbl = 1024 := rfl
  have count := sound.count
  by_cases exhausted : Exhausted ept level
  · have start := @reset_sound vmm ept ok4 ok2 sound.walk low
    obtain ⟨page, at', isEntry⟩ := start.walk.entries 3 (Nat.le_refl _) (by omega)
    obtain ⟨steps, isThree⟩ : ∃ steps, level + steps = 3 := ⟨3 - level, by omega⟩
    have isRoot := Radix.TableAt.at_top at'
    have free : ¬IsTable (ept.reset.entry (level + steps) ept.curGphys page) := by
      rw [isRoot, VtEpt.entry, reset_empty]
      exact not_isTable_zero
    have fill := @fillLoop_spec vmm ept.curGphys ok4 ok2 steps ept.reset level page start
      (isThree ▸ at') (fun _ => free) (by simp only [VtEpt.reset]; omega)
    have result : curFill ept ept.curGphys level = fillLoop ept.curGphys steps (level + steps)
        ept.reset ⟨page, radix.index (level + steps) ept.curGphys⟩ := by
      have stepsEq : ept.reset.curLevel - level = steps := by
        simp only [VtEpt.reset]
        omega
      unfold curFill
      rw [if_pos (show ept.cnt + ept.curLevel - level > numOfEptbl from exhausted)]
      simp only [stepsEq, isThree]
      exact congrArg (fillLoop ept.curGphys steps 3 ept.reset) isEntry
    rw [result]
    exact ⟨⟨fill.1.sound, fill.1.pages, fill.1.address, fill.1.pointer, fill.1.free⟩,
      fun _ => fill.2.1, fun room => absurd exhausted room⟩
  · obtain ⟨page, at', isEntry⟩ := sound.walk.entries _ (Nat.le_refl _) low
    obtain ⟨steps, isLevel⟩ : ∃ steps, ept.curLevel = level + steps := ⟨ept.curLevel - level, by omega⟩
    have here : ept.read (ept.curEntry ept.curLevel) = ept.entry (level + steps) ept.curGphys page := by
      rw [isEntry, isLevel]
      rfl
    have room : ept.cnt + steps ≤ numOfEptbl := by
      unfold Exhausted at exhausted
      omega
    rw [here] at ends
    have fill := @fillLoop_spec vmm ept.curGphys ok4 ok2 steps ept level page sound
      (isLevel ▸ at') (fun positive => ends.resolve_left (by omega)) room
    have result : curFill ept ept.curGphys level = fillLoop ept.curGphys steps (level + steps)
        ept ⟨page, radix.index (level + steps) ept.curGphys⟩ := by
      unfold curFill
      rw [if_neg (show ¬ept.cnt + ept.curLevel - level > numOfEptbl from exhausted)]
      change fillLoop ept.curGphys (ept.curLevel - level) ept.curLevel ept (ept.curEntry ept.curLevel) = _
      rw [isEntry, isLevel, Nat.add_sub_cancel_left]
    rw [result, here]
    exact ⟨fill.1, fun full => absurd full exhausted,
      fun _ => ⟨fill.2.1, fun absent => fill.2.2 fun some' => absent (by omega)⟩⟩

end DisasVisor.Ept
