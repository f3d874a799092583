import DisasVisor.Ept.Cursor

/-!
The leaves that `core/vt_ept.c` writes, of 4 KiB and of 2 MiB.
-/

namespace DisasVisor.Ept

open Function RadixTables

variable {vmm : Vmm} {ept ept' : VtEpt vmm} {ok4 ok2 : UInt64 → UInt64 → Prop}
  {gphys page e : UInt64} {level : Nat} {mtrr : Mtrr}

section

variable (sound : Sound ept ok4 ok2) (at' : ept.TableAt level gphys page)
  (harmless : level = 0 ∨ (¬IsTable (ept.entry level gphys page) ∧ ¬IsTable e))
include sound at' harmless

omit harmless in
theorem write_entry {m : Nat} {g upper : UInt64} (old : ept.TableAt m g upper) :
    (ept.write ⟨page, radix.index level gphys⟩ e).entry m g upper = ept.entry m g upper ∨
      (m = level ∧ radix.Agree level gphys g ∧
        ept.entry m g upper = ept.entry level gphys page ∧
        (ept.write ⟨page, radix.index level gphys⟩ e).entry m g upper = e) := by
  by_cases here : upper = page ∧ radix.index m g = radix.index level gphys
  · obtain ⟨rfl, index⟩ := here
    obtain ⟨isLevel, agree⟩ := sound.apart.entry at' old index.symm
    refine .inr ⟨isLevel.symm, agree, by rw [VtEpt.entry, index]; rfl, ?_⟩
    simp only [VtEpt.entry, VtEpt.write, index, update_self]
  · refine .inl ?_
    by_cases same : upper = page
    · subst same
      have other : radix.index m g ≠ radix.index level gphys := fun index => here ⟨rfl, index⟩
      simp only [VtEpt.entry, VtEpt.write, update_self, update_of_ne other]
    · simp only [VtEpt.entry, VtEpt.write, update_of_ne same]

theorem write_child (m : Nat) (g upper : UInt64) (old : ept.TableAt (m + 1) g upper) :
    radix.child ((ept.write ⟨page, radix.index level gphys⟩ e).entry (m + 1) g upper) =
      radix.child (ept.entry (m + 1) g upper) := by
  rcases write_entry (e := e) sound at' old with same | ⟨isLevel, -, was, isNew⟩
  · exact congrArg radix.child same
  · obtain ⟨notTable, notTable'⟩ := harmless.resolve_left (by omega)
    rw [isNew, was, child_eq_none.mpr notTable, child_eq_none.mpr notTable']

theorem write_tableAt {m : Nat} {g upper : UInt64} :
    (ept.write ⟨page, radix.index level gphys⟩ e).TableAt m g upper ↔ ept.TableAt m g upper :=
  Radix.tableAt_iff_of_child (write_child sound at' harmless)

theorem write_sound (fits4 : level = 0 → IsPresent e → ∀ g, radix.Agree 0 gphys g → ok4 g e)
    (fits2 : 0 < level → IsPresent e → IsLarge e → level = 1 ∧ ∀ g, radix.Agree level gphys g → ok2 g e) :
    Sound (ept.write ⟨page, radix.index level gphys⟩ e) ok4 ok2 := by
  have tableAt : ∀ {m g upper}, (ept.write ⟨page, radix.index level gphys⟩ e).TableAt m g upper ↔
      ept.TableAt m g upper := write_tableAt sound at' harmless
  refine ⟨sound.count, Radix.apart_of_child sound.apart (write_child sound at' harmless),
    ⟨sound.walk.level_le, ?_⟩, ?_, ?_, ?_⟩
  · intro m low high
    obtain ⟨upper, old, isEntry⟩ := sound.walk.entries m low high
    exact ⟨upper, tableAt.mpr old, isEntry⟩
  · intro m g upper after positive table
    have old := tableAt.mp after
    rcases write_entry (e := e) sound at' old with same | ⟨isLevel, -, -, isNew⟩
    · rw [same] at table ⊢
      exact sound.links m g upper old positive table
    · rw [isNew] at table
      exact absurd table (harmless.resolve_left (by omega)).2
  · intro m g upper after positive present large
    have old := tableAt.mp after
    rcases write_entry (e := e) sound at' old with same | ⟨rfl, agree, -, isNew⟩
    · rw [same] at present large ⊢
      exact sound.large m g upper old positive present large
    · rw [isNew] at present large ⊢
      obtain ⟨isOne, ok⟩ := fits2 positive present large
      exact ⟨isOne, ok g agree⟩
  · intro g upper after present
    have old := tableAt.mp after
    rcases write_entry (e := e) sound at' old with same | ⟨isLevel, agree, -, isNew⟩
    · rw [same] at present ⊢
      exact sound.leaf g upper old present
    · rw [isNew] at present ⊢
      subst isLevel
      exact fits4 rfl present g agree

theorem write_mapped (present : IsPresent e) (low : level ≤ 1) (large : level = 1 → IsLarge e)
    {g : UInt64} (mapped : ept.Mapped g ∨ radix.Agree level gphys g) :
    (ept.write ⟨page, radix.index level gphys⟩ e).Mapped g := by
  have tableAt : ∀ {m g upper}, (ept.write ⟨page, radix.index level gphys⟩ e).TableAt m g upper ↔
      ept.TableAt m g upper := write_tableAt sound at' harmless
  have leafAt : ∀ m upper, m ≤ 1 → ept.TableAt m g upper →
      IsPresent ((ept.write ⟨page, radix.index level gphys⟩ e).entry m g upper) →
      (m = 1 → IsLarge ((ept.write ⟨page, radix.index level gphys⟩ e).entry m g upper)) →
      (ept.write ⟨page, radix.index level gphys⟩ e).Mapped g := by
    intro m upper bound old isPresent isLarge
    rcases Nat.le_one_iff_eq_zero_or_eq_one.mp bound with rfl | rfl
    · exact .inl ⟨upper, tableAt.mpr old, isPresent⟩
    · exact .inr ⟨upper, tableAt.mpr old, isPresent, isLarge rfl⟩
  rcases mapped with (⟨upper, old, isPresent⟩ | ⟨upper, old, isPresent, isLarge⟩) | agree
  · refine leafAt 0 upper (by omega) old ?_ (by omega)
    rcases write_entry (e := e) sound at' old with same | ⟨-, -, -, isNew⟩
    · rwa [same]
    · rwa [isNew]
  · rcases write_entry (e := e) sound at' old with same | ⟨isLevel, -, -, isNew⟩
    · exact leafAt 1 upper (Nat.le_refl _) old (by rwa [same]) fun _ => by rwa [same]
    · refine leafAt 1 upper (Nat.le_refl _) old (by rwa [isNew]) fun _ => ?_
      rw [isNew]
      exact large isLevel.symm
  · have here : (ept.write ⟨page, radix.index level gphys⟩ e).entry level g page = e := by
      rw [VtEpt.entry, ← agree level (Nat.le_refl _) at'.level_le]
      simp only [VtEpt.write, update_self]
    exact leafAt level page low (at'.congr (agree.mono (Nat.le_succ _))) (by rwa [here])
      fun isOne => by rw [here]; exact large isOne

end

def pageLeaf (vmm : Vmm) (mtrr : Mtrr) (gphys : UInt64) : UInt64 :=
  ((vmm.gp2hp gphys).1 &&& ~~~0xFFF) ||| (pageAttr mtrr gphys (vmm.gp2hp gphys).2).toUInt64

def leaf2m (vmm : Vmm) (mtrr : Mtrr) (gphys : UInt64) : UInt64 :=
  vmm.gp2hp2m (gphys &&& ~~~0x1FFFFF) |||
    (mtrr.getGmtrrType (gphys &&& ~~~0x1FFFFF) <<< epteMtShift |||
      (0x5 ||| 0x2 ||| 0x80)).toUInt64

theorem attr_toNat (type : UInt32) (valid : type < 8) :
    (type <<< epteMtShift ||| (0x5 ||| 0x2)).toNat = 8 * type.toNat + 7 ∧
      ((type <<< epteMtShift ||| (0x5 ||| 0x2)) &&& ~~~0x2).toNat = 8 * type.toNat + 5 ∧
      (type <<< epteMtShift ||| (0x5 ||| 0x2 ||| 0x80)).toNat = 8 * type.toNat + 135 := by
  have bound : type.toNat < 8 := valid
  generalize isValue : type.toNat = value at bound
  have same : type = UInt32.ofNat value := by
    apply UInt32.toNat_inj.mp
    rw [isValue, UInt32.toNat_ofNat']
    omega
  subst same
  interval_cases value <;> decide

theorem pageAttr_toNat (fakerom : Bool) : (pageAttr mtrr gphys fakerom).toUInt64.toNat =
    8 * (mtrr.getGmtrrType gphys).toNat + if fakerom then 5 else 7 := by
  obtain ⟨plain, fake, -⟩ := attr_toNat _ (mtrr.valid gphys)
  rw [UInt32.toNat_toUInt64]
  unfold pageAttr
  cases fakerom with
  | true => simpa using fake
  | false => simpa using plain

theorem toNat_pageLeaf : (pageLeaf vmm mtrr gphys).toNat =
    (vmm.gp2hp gphys).1.toNat / 2 ^ 12 * 2 ^ 12 + (8 * (mtrr.getGmtrrType gphys).toNat +
      if (vmm.gp2hp gphys).2 then 5 else 7) := by
  have bound : (mtrr.getGmtrrType gphys).toNat < 8 := mtrr.valid gphys
  have page := @Words.toNat_and_high (vmm.gp2hp gphys).1 (~~~0xFFF) 12 rfl (by omega)
  have attr := @pageAttr_toNat gphys mtrr (vmm.gp2hp gphys).2
  have rest : (if (vmm.gp2hp gphys).2 then 5 else 7) < 8 := by split <;> omega
  have sum : (pageLeaf vmm mtrr gphys).toNat = _ := @Words.toNat_or _ _ 12 (by rw [page]; omega) (by rw [attr]; omega)
  rwa [page, attr] at sum

theorem pageLeaf_spec : IsPresent (pageLeaf vmm mtrr gphys) ∧
    ¬IsLarge (pageLeaf vmm mtrr gphys) ∧
    pageLeaf vmm mtrr gphys &&& ~~~0xFFF = (vmm.gp2hp gphys).1 &&& ~~~0xFFF ∧
    (pageLeaf vmm mtrr gphys &&& epteWrite ≠ 0 ↔ (vmm.gp2hp gphys).2 = false) := by
  have bound : (mtrr.getGmtrrType gphys).toNat < 8 := mtrr.valid gphys
  have page := @Words.toNat_and_high (vmm.gp2hp gphys).1 (~~~0xFFF) 12 rfl (by omega)
  have rest : (if (vmm.gp2hp gphys).2 then 5 else 7) < 8 := by split <;> omega
  have sum := @toNat_pageLeaf vmm gphys mtrr
  refine ⟨?_, ?_, ?_, ?_⟩
  · unfold IsPresent
    rw [@Words.and_bit_ne_zero _ epteRead 0 rfl, sum, Nat.pow_zero, Nat.div_one]
    split <;> omega
  · unfold IsLarge
    rw [not_not, @Words.and_bit_eq_zero _ epteLarge 7 rfl, sum]
    omega
  · apply UInt64.toNat_inj.mp
    rw [@Words.toNat_and_high _ (~~~0xFFF) 12 rfl (by omega), sum, page]
    omega
  · rw [@Words.and_bit_ne_zero _ epteWrite 1 rfl, sum]
    cases (vmm.gp2hp gphys).2 with
    | true =>
      simp only [if_true, reduceCtorEq, iff_false]
      omega
    | false =>
      simp only [Bool.false_eq_true, if_false, iff_true]
      omega

theorem toNat_block : (gphys &&& ~~~0x1FFFFF).toNat = gphys.toNat / 2 ^ 21 * 2 ^ 21 :=
  @Words.toNat_and_high gphys (~~~0x1FFFFF) 21 rfl (by omega)

theorem gp2hp2m_block : vmm.gp2hp2m (gphys &&& ~~~0x1FFFFF) = gmmGp2hp2mFail ∨
    (vmm.gp2hp2m (gphys &&& ~~~0x1FFFFF) = gphys &&& ~~~0x1FFFFF ∧
      vmm.physInVmm (gphys &&& ~~~0x1FFFFF) = false) := by
  unfold Vmm.gp2hp2m
  split
  · exact .inl rfl
  · split
    · exact .inl rfl
    · rename_i outside
      exact .inr ⟨rfl, by simpa using outside⟩

section

variable (succeeds : vmm.gp2hp2m (gphys &&& ~~~0x1FFFFF) ≠ gmmGp2hp2mFail)
include succeeds

theorem toNat_gp2hp2m : (vmm.gp2hp2m (gphys &&& ~~~0x1FFFFF)).toNat = gphys.toNat / 2 ^ 21 * 2 ^ 21 := by
  rw [(gp2hp2m_block.resolve_left succeeds).1, toNat_block]

theorem toNat_leaf2m : (leaf2m vmm mtrr gphys).toNat = gphys.toNat / 2 ^ 21 * 2 ^ 21 +
    (8 * (mtrr.getGmtrrType (gphys &&& ~~~0x1FFFFF)).toNat + 135) := by
  have bound : (mtrr.getGmtrrType (gphys &&& ~~~0x1FFFFF)).toNat < 8 := mtrr.valid _
  obtain ⟨-, -, attr⟩ := attr_toNat _ (mtrr.valid (gphys &&& ~~~0x1FFFFF))
  have block := toNat_gp2hp2m succeeds
  have sum : (leaf2m vmm mtrr gphys).toNat = _ :=
    @Words.toNat_or _ _ 21 (by rw [block]; omega) (by rw [UInt32.toNat_toUInt64, attr]; omega)
  rwa [block, UInt32.toNat_toUInt64, attr] at sum

theorem leaf2m_spec : IsPresent (leaf2m vmm mtrr gphys) ∧ IsLarge (leaf2m vmm mtrr gphys) ∧
    leaf2m vmm mtrr gphys &&& ~~~0xFFF = vmm.gp2hp2m (gphys &&& ~~~0x1FFFFF) := by
  have bound : (mtrr.getGmtrrType (gphys &&& ~~~0x1FFFFF)).toNat < 8 := mtrr.valid _
  have block := toNat_gp2hp2m succeeds
  have sum := @toNat_leaf2m vmm gphys mtrr succeeds
  refine ⟨?_, ?_, ?_⟩
  · unfold IsPresent
    rw [@Words.and_bit_ne_zero _ epteRead 0 rfl, sum]
    omega
  · unfold IsLarge
    rw [@Words.and_bit_ne_zero _ epteLarge 7 rfl, sum]
    omega
  · apply UInt64.toNat_inj.mp
    rw [@Words.toNat_and_high _ (~~~0xFFF) 12 rfl (by omega), sum, block]
    omega

end

open Mmio

variable {ept'' : VtEpt vmm} {mmio : MmioData} {write mapped : Bool}

section

variable (moved : Moved ept ept' gphys)
include moved

theorem Moved.sound (sound : Sound ept ok4 ok2) : Sound ept' ok4 ok2 := by
  refine ⟨moved.cnt ▸ sound.count, ?_, moved.walk, ?_, ?_, ?_⟩
  · rw [moved.mem, moved.pages]
    exact sound.apart
  · intro m g upper at' positive table
    rw [moved.entry, moved.pages, moved.cnt] at *
    exact sound.links m g upper (moved.tableAt.mp at') positive table
  · intro m g upper at' positive present large
    rw [moved.entry] at *
    exact sound.large m g upper (moved.tableAt.mp at') positive present large
  · intro g upper at' present
    rw [moved.entry] at *
    exact sound.leaf g upper (moved.tableAt.mp at') present

theorem Moved.mapped_iff {g : UInt64} : ept'.Mapped g ↔ ept.Mapped g := by
  simp only [VtEpt.Mapped, moved.tableAt, moved.entry]

theorem Moved.endsAt : ∃ page,
    radix.EndsAt ept.mem ept.pages.ncr3tbl ept'.curLevel gphys page ∧
      ept'.curEntry ept'.curLevel = ⟨page, radix.index ept'.curLevel gphys⟩ := by
  obtain ⟨page, at', isEntry⟩ := moved.walk.entries _ (Nat.le_refl _) moved.low
  have ends := moved.ends
  rw [moved.address] at at' isEntry
  refine ⟨page, ⟨moved.tableAt.mp at', ends.imp_right fun notTable => ?_⟩, isEntry⟩
  rw [isEntry] at notTable
  rw [child_eq_none, ← moved.mem]
  exact notTable

theorem Moved.again (again : Moved ept' ept'' gphys) : ept''.curLevel = ept'.curLevel := by
  obtain ⟨page, ends, -⟩ := moved.endsAt
  obtain ⟨page', ends', -⟩ := again.endsAt
  rw [moved.mem, moved.pages] at ends'
  exact (ends'.unique ends).1

end

def VtEpt.LargeAt (ept : VtEpt vmm) (g : UInt64) : Prop :=
  ∃ page, ept.TableAt 1 g page ∧ IsPresent (ept.entry 1 g page) ∧ IsLarge (ept.entry 1 g page)

theorem Moved.largeAt (moved : Moved ept ept' gphys) (sound : Sound ept ok4 ok2)
    (present : IsPresent (ept'.read (ept'.curEntry ept'.curLevel))) (above : 0 < ept'.curLevel) :
    ept'.curLevel = 1 ∧ ept.LargeAt gphys := by
  obtain ⟨page, ends, isEntry⟩ := moved.endsAt
  have notTable := moved.ends.resolve_left (by omega)
  have here : ept'.read (ept'.curEntry ept'.curLevel) = ept.entry ept'.curLevel gphys page := by
    rw [isEntry, VtEpt.read, moved.mem]
    rfl
  rw [here] at present notTable
  have large := (isTable_or present).resolve_left notTable
  obtain ⟨isOne, -⟩ := sound.large _ _ _ ends.tableAt above present large
  rw [isOne] at present large ends
  exact ⟨isOne, page, ends.tableAt, present, large⟩

structure Maps (ept ept' : VtEpt vmm) (ok4 ok2 : UInt64 → UInt64 → Prop) (gphys : UInt64)
    (level : Nat) : Prop where
  sound : Sound ept' ok4 ok2
  pages : ept'.pages = ept.pages
  mapped : ∀ g, radix.Agree level gphys g → ept'.Mapped g
  exhausted : Exhausted (curMove ept gphys) level → ept'.cleared = true
  room : ¬Exhausted (curMove ept gphys) level → ept'.cleared = ept.cleared ∧
    ((level = 0 → ¬ept.LargeAt gphys) → ∀ g, ept.Mapped g → ept'.Mapped g)

theorem fill_write (sound : Sound ept ok4 ok2) (bound : level ≤ 1)
    (le : level ≤ (curMove ept gphys).curLevel) {e : UInt64} (present : IsPresent e)
    (large : level = 1 → IsLarge e) (fits4 : level = 0 → ∀ g, radix.Agree 0 gphys g → ok4 g e)
    (fits2 : level = 1 → ∀ g, radix.Agree 1 gphys g → ok2 g e) :
    Maps ept ((curFill (curMove ept gphys) gphys level).1.write
      (curFill (curMove ept gphys) gphys level).2 e) ok4 ok2 gphys level := by
  have moved := curMove_spec sound.walk gphys
  have movedSound := moved.sound sound
  obtain ⟨filled, full, room⟩ := curFill_spec movedSound le moved.low moved.ends
  rw [moved.address] at filled full room
  obtain ⟨page, at', isEntry⟩ := filled.pointer
  have harmless : level = 0 ∨ (¬IsTable ((curFill (curMove ept gphys) gphys level).1.entry level
      gphys page) ∧ ¬IsTable e) := by
    rcases Nat.le_one_iff_eq_zero_or_eq_one.mp bound with isZero | isOne
    · exact .inl isZero
    · refine .inr ⟨?_, not_isTable_of_large (large isOne)⟩
      have free := filled.free (by omega)
      rw [isEntry] at free
      exact free
  have mappedAt := fun {g} => @write_mapped vmm _ ok4 ok2 gphys page e level filled.sound at' harmless
    present bound large g
  rw [isEntry]
  refine ⟨?_, filled.pages.trans moved.pages, ?_, full, ?_⟩
  · refine write_sound filled.sound at' harmless (fun isZero _ => fits4 isZero) ?_
    intro positive _ _
    have isOne : level = 1 := by omega
    exact ⟨isOne, fun g agree => fits2 isOne g (isOne ▸ agree)⟩
  · exact fun g agree => mappedAt (.inr agree)
  · intro notFull
    obtain ⟨cleared, kept⟩ := room notFull
    refine ⟨cleared.trans moved.cleared, fun clear g old => mappedAt (.inl ?_)⟩
    refine kept (fun above isPresent => ?_) g (moved.mapped_iff.mpr old)
    obtain ⟨isOne, largeAt⟩ := moved.largeAt sound isPresent (by omega)
    exact clear (by omega) largeAt

theorem vtEptMapPageSub_spec (sound : Sound ept ok4 ok2)
    (fits : ∀ g, radix.Agree 0 gphys g → ok4 g (pageLeaf vmm mtrr gphys))
    (result : vtEptMapPageSub mtrr ept write gphys = some ept') : Maps ept ept' ok4 ok2 gphys 0 := by
  unfold vtEptMapPageSub at result
  simp only at result
  split at result
  · cases result
  · cases result
    exact fill_write sound (by omega) (Nat.zero_le _) pageLeaf_spec.1 (by omega) (fun _ => fits) (by omega)

structure Able2m (vmm : Vmm) (mtrr : Mtrr) (mmio : MmioData) (gphys : UInt64) : Prop where
  free : mmio.mmioRange (gphys &&& ~~~0x1FFFFF) pagesize2m = 0
  inside : vmm.gp2hp2m (gphys &&& ~~~0x1FFFFF) ≠ gmmGp2hp2mFail
  equal : mtrr.gmtrrTypeEqual (gphys &&& ~~~0x1FFFFF) = true

theorem vtEptMap2mpage_eq : vtEptMap2mpage mtrr ept gphys =
    if 0 < (curMove ept gphys).curLevel ∧ vmm.gp2hp2m (gphys &&& ~~~0x1FFFFF) ≠ gmmGp2hp2mFail ∧
      mtrr.gmtrrTypeEqual (gphys &&& ~~~0x1FFFFF) = true then
      ((curFill (curMove ept gphys) gphys 1).1.write (curFill (curMove ept gphys) gphys 1).2
        (leaf2m vmm mtrr gphys), false)
    else (curMove ept gphys, true) := by
  unfold vtEptMap2mpage
  by_cases bottom : (curMove ept gphys).curLevel = 0
  · simp [bottom]
  · have positive := Nat.pos_of_ne_zero bottom
    by_cases fails : vmm.gp2hp2m (gphys &&& ~~~0x1FFFFF) = gmmGp2hp2mFail
    · simp [bottom, fails]
    · by_cases equal : mtrr.gmtrrTypeEqual (gphys &&& ~~~0x1FFFFF) = true
      · simp [bottom, fails, equal, positive, leaf2m]
      · simp [bottom, fails, equal]

theorem tryMap2mpage_spec (sound : Sound ept ok4 ok2)
    (fits : Able2m vmm mtrr mmio gphys → ∀ g, radix.Agree 1 gphys g → ok2 g (leaf2m vmm mtrr gphys))
    (result : tryMap2mpage mtrr mmio ept gphys = (ept', mapped)) :
    (mapped = true → 0 < (curMove ept gphys).curLevel ∧ Able2m vmm mtrr mmio gphys ∧ Maps ept ept' ok4 ok2 gphys 1) ∧
    (mapped = false → Moved ept ept' gphys ∧ ((curMove ept gphys).curLevel = 0 ∨ ¬Able2m vmm mtrr mmio gphys)) := by
  have moved := curMove_spec sound.walk gphys
  have again := curMove_spec (moved.sound sound).walk gphys
  have sameLevel := moved.again again
  unfold tryMap2mpage vtEptLevel at result
  simp only [vtEptMap2mpage_eq, sameLevel] at result
  by_cases free : (curMove ept gphys).curLevel > 0 ∧ mmio.mmioRange (gphys &&& ~~~0x1FFFFF) pagesize2m = 0
  · rw [if_pos free] at result
    by_cases able : 0 < (curMove ept gphys).curLevel ∧
        vmm.gp2hp2m (gphys &&& ~~~0x1FFFFF) ≠ gmmGp2hp2mFail ∧
          mtrr.gmtrrTypeEqual (gphys &&& ~~~0x1FFFFF) = true
    · rw [if_pos able] at result
      obtain ⟨rfl, rfl⟩ := Prod.mk.inj result
      have isAble : Able2m vmm mtrr mmio gphys := ⟨free.2, able.2.1, able.2.2⟩
      obtain ⟨present, large, -⟩ := @leaf2m_spec vmm gphys mtrr able.2.1
      have maps := @fill_write vmm (curMove ept gphys) ok4 ok2 gphys 1 (moved.sound sound) (by omega)
        (by omega) _ present (fun _ => large) (by omega) fun _ => fits isAble
      have sameFull : Exhausted (curMove (curMove ept gphys) gphys) 1 ↔ Exhausted (curMove ept gphys) 1 := by
        unfold Exhausted
        rw [again.cnt, sameLevel]
      refine ⟨fun _ => ⟨able.1, isAble, maps.sound, maps.pages.trans moved.pages, maps.mapped,
        fun full => maps.exhausted (sameFull.mpr full), fun notFull => ?_⟩, fun isFalse => ?_⟩
      · obtain ⟨cleared, kept⟩ := maps.room fun full => notFull (sameFull.mp full)
        exact ⟨cleared.trans moved.cleared,
          fun _ g old => kept (by omega) g (moved.mapped_iff.mpr old)⟩
      · cases isFalse
    · rw [if_neg able] at result
      obtain ⟨rfl, rfl⟩ := Prod.mk.inj result
      refine ⟨fun isTrue => (by cases isTrue), fun _ => ⟨?_, .inr fun isAble =>
        able ⟨free.1, isAble.inside, isAble.equal⟩⟩⟩
      exact ⟨again.pages.trans moved.pages, again.cnt.trans moved.cnt,
        again.cleared.trans moved.cleared, again.mem.trans moved.mem, again.address, again.walk,
        again.low, again.ends⟩
  · rw [if_neg free] at result
    obtain ⟨rfl, rfl⟩ := Prod.mk.inj result
    refine ⟨fun isTrue => (by cases isTrue), fun _ => ⟨moved, ?_⟩⟩
    by_cases bottom : (curMove ept gphys).curLevel = 0
    · exact .inl bottom
    · exact .inr fun isAble => free ⟨Nat.pos_of_ne_zero bottom, isAble.free⟩

end DisasVisor.Ept
