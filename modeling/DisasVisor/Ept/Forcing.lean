import DisasVisor.Ept.Mapping

/-!
The loops of `vt_ept_map_page_clear_cleared`: they go through every region that has to be mapped,
and map what is not a registered range.
-/

namespace DisasVisor.Ept

open Mmio

variable {vmm : Vmm} {ept ept' ept'' : VtEpt vmm} {ok4 ok2 : UInt64 → UInt64 → Prop}
  {gphys base len size : UInt64} {level : Nat} {mtrr : Mtrr} {mmio : MmioData} {write : Bool}

def FreePage (mmio : MmioData) (g : UInt64) : Prop :=
  mmio.Free (g.toNat / 2 ^ 12 * 2 ^ 12) (g.toNat / 2 ^ 12 * 2 ^ 12 + 2 ^ 12)

structure Fits (vmm : Vmm) (mtrr : Mtrr) (mmio : MmioData) (ok4 ok2 : UInt64 → UInt64 → Prop) :
    Prop where
  leaf4 : ∀ gphys, gphys.toNat < vmm.limit → FreePage mmio gphys →
    ∀ g, radix.Agree 0 gphys g → ok4 g (pageLeaf vmm mtrr gphys)
  leaf2 : ∀ gphys, gphys.toNat < vmm.limit → Able2m vmm mtrr mmio gphys →
    ∀ g, radix.Agree 1 gphys g → ok2 g (leaf2m vmm mtrr gphys)

def Blocks (vmm : Vmm) (mtrr : Mtrr) (mmio : MmioData) (ok2 : UInt64 → UInt64 → Prop) : Prop :=
  ∀ g e, g.toNat < vmm.limit → ok2 g e → Able2m vmm mtrr mmio g

structure Keeps (ept ept' : VtEpt vmm) (ok4 ok2 : UInt64 → UInt64 → Prop) (blocks : Prop) : Prop where
  sound : Sound ept' ok4 ok2
  pages : ept'.pages = ept.pages
  cleared : ept'.cleared = false → ept.cleared = false
  mapped : blocks → ept'.cleared = false → ∀ g, ept.Mapped g → ept'.Mapped g

variable {blocks : Prop}

theorem Keeps.refl (sound : Sound ept ok4 ok2) : Keeps ept ept ok4 ok2 blocks := ⟨sound, rfl, id, fun _ _ _ => id⟩

theorem Keeps.trans (first : Keeps ept ept' ok4 ok2 blocks) (second : Keeps ept' ept'' ok4 ok2 blocks) :
    Keeps ept ept'' ok4 ok2 blocks :=
  ⟨second.sound, second.pages.trans first.pages, fun clear => first.cleared (second.cleared clear),
    fun isBlocks clear g old => second.mapped isBlocks clear g
      (first.mapped isBlocks (second.cleared clear) g old)⟩

theorem Moved.keeps (moved : Moved ept ept' gphys) (sound : Sound ept ok4 ok2) : Keeps ept ept' ok4 ok2 blocks :=
  ⟨moved.sound sound, moved.pages, fun clear => moved.cleared ▸ clear,
    fun _ _ _ => moved.mapped_iff.mpr⟩

theorem Maps.keeps (maps : Maps ept ept' ok4 ok2 gphys level)
    (clear : blocks → level = 0 → ¬ept.LargeAt gphys) : Keeps ept ept' ok4 ok2 blocks := by
  refine ⟨maps.sound, maps.pages, fun notCleared => ?_, fun isBlocks notCleared => ?_⟩
  · by_cases full : Exhausted (curMove ept gphys) level
    · rw [maps.exhausted full] at notCleared
      cases notCleared
    · exact (maps.room full).1 ▸ notCleared
  · by_cases full : Exhausted (curMove ept gphys) level
    · rw [maps.exhausted full] at notCleared
      cases notCleared
    · exact (maps.room full).2 (clear isBlocks)

theorem not_largeAt (sound : Sound ept ok4 ok2) (isBlocks : Blocks vmm mtrr mmio ok2)
    (bound : gphys.toNat < vmm.limit) (reason : (curMove ept gphys).curLevel = 0 ∨ ¬Able2m vmm mtrr mmio gphys) :
    ¬ept.LargeAt gphys := by
  rintro ⟨page, at', present, large⟩
  rcases reason with bottom | notAble
  · obtain ⟨lowest, ends, -⟩ := (curMove_spec sound.walk gphys).endsAt
    rw [bottom] at ends
    obtain ⟨upper, below, upperAt, link⟩ := ends.tableAt.above Nat.zero_lt_one (show 1 ≤ 3 by omega)
    rw [upperAt.unique at'] at link
    have none' := child_eq_none.mpr (not_isTable_of_large large)
    exact Option.some_ne_none _ (link.symm.trans none')
  · exact notAble (isBlocks gphys _ bound (sound.large 1 _ _ at' Nat.zero_lt_one present large).2)

theorem toNat_blockEnd (bound : base.toNat < 2 ^ 48) :
    ((base ||| 0x1FFFFF) + 1 - base).toNat = base.toNat / 2 ^ 21 * 2 ^ 21 + 2 ^ 21 - base.toNat := by
  have low := @Words.toNat_or_low base 0x1FFFFF 21 rfl
  have one := UInt64.toNat_one
  rw [UInt64.toNat_sub, UInt64.toNat_add, low, one]
  omega

theorem forceStep_spec (listed : mmio.Listed) (fits : Fits vmm mtrr mmio ok4 ok2)
    (sound : Sound ept ok4 ok2) (bound : base.toNat < vmm.limit) (aligned : base.toNat % 2 ^ 12 = 0)
    (result : forceStep mtrr mmio ept base = some (ept', size)) :
    Keeps ept ept' ok4 ok2 (Blocks vmm mtrr mmio ok2) ∧ 0 < size.toNat ∧ size.toNat % 2 ^ 12 = 0 ∧
      base.toNat + size.toNat < 2 ^ 63 ∧
      ∀ g, base.toNat ≤ g.toNat → g.toNat < base.toNat + size.toNat → FreePage mmio g → ept'.Mapped g := by
  have limit := vmm.limit_le
  have pageFits : base.toNat + pageSize.toNat < 2 ^ 63 := by
    rw [show pageSize.toNat = 4096 from rfl]
    omega
  unfold forceStep at result
  obtain ⟨tried, mapped, isTry⟩ : ∃ tried mapped, tryMap2mpage mtrr mmio ept base = (tried, mapped) := ⟨_, _, rfl⟩
  obtain ⟨yes, no⟩ := tryMap2mpage_spec sound (fits.leaf2 base bound) isTry
  rw [isTry] at result
  cases mapped with
  | true =>
    obtain ⟨-, -, maps⟩ := yes rfl
    simp only [if_true] at result
    cases result
    have blockEnd := @toNat_blockEnd base (by omega)
    refine ⟨maps.keeps (by omega), by omega, by omega, by omega, ?_⟩
    intro g low high _
    refine maps.mapped g (agree_of_div ?_)
    omega
  | false =>
    obtain ⟨moved, reason⟩ := no rfl
    simp only [Bool.false_eq_true, if_false] at result
    rcases MmioData.mmioRange_spec listed (show 0 < pageSize.toNat by decide) pageFits with
      ⟨isZero, free⟩ | ⟨p, x, found, registered, covers, low, high, ends⟩
    · simp only [isZero, if_true, Option.map_eq_some_iff, Prod.mk.injEq] at result
      obtain ⟨after, sub, rfl, rfl⟩ := result
      have freePage : FreePage mmio base := by
        unfold FreePage
        rw [show base.toNat / 2 ^ 12 * 2 ^ 12 = base.toNat by omega]
        exact free
      have maps := vtEptMapPageSub_spec (moved.sound sound) (fits.leaf4 base bound freePage) sub
      have clear : Blocks vmm mtrr mmio ok2 → 0 = 0 → ¬tried.LargeAt base := by
        intro isBlocks _
        refine not_largeAt (moved.sound sound) isBlocks bound (reason.imp_left fun bottom => ?_)
        have first := curMove_spec sound.walk base
        have again := curMove_spec (moved.sound sound).walk base
        obtain ⟨page, here, -⟩ := first.endsAt
        obtain ⟨page', there, -⟩ := again.endsAt
        rw [moved.mem, moved.pages] at there
        exact (there.unique here).1.trans bottom
      refine ⟨(moved.keeps sound).trans (maps.keeps clear), by decide, by decide,
        by rw [show (0x1000 : UInt64).toNat = 4096 from rfl]; omega, ?_⟩
      intro g low high _
      rw [show (0x1000 : UInt64).toNat = 4096 from rfl] at high
      refine maps.mapped g (agree_of_div ?_)
      omega
    · simp only [if_neg found] at result
      cases result
      rw [show pageSize.toNat = 4096 from rfl] at high
      obtain ⟨lower, upper⟩ := covers
      have short := (mmio.handles p).len.toNat_lt
      have step : ((mmio.mmioRange base pageSize - base + 0x1000 - 1) &&& ~~~0xFFF).toNat =
          ((mmio.mmioRange base pageSize).toNat - base.toNat + 4095) / 2 ^ 12 * 2 ^ 12 := by
        have page : (0x1000 : UInt64).toNat = 4096 := rfl
        have one := UInt64.toNat_one
        rw [@Words.toNat_and_high _ (~~~0xFFF) 12 rfl (by omega), UInt64.toNat_sub,
          UInt64.toNat_add, UInt64.toNat_sub, page, one]
        omega
      rw [ends] at step
      refine ⟨moved.keeps sound, by omega, by omega, by omega, ?_⟩
      intro g above below freePage
      -- the registered range reaches from the page of `base` to the page of `g`
      exfalso
      have apart := freePage p registered
      have inPage := apart (max x (g.toNat / 2 ^ 12 * 2 ^ 12)) ⟨by omega, by omega⟩
      omega

theorem forceLoop_spec (listed : mmio.Listed) (fits : Fits vmm mtrr mmio ok4 ok2) (fuel : Nat) :
    ∀ {ept : VtEpt vmm} {base len}, Sound ept ok4 ok2 → base.toNat + len.toNat ≤ vmm.limit →
    (0 < len.toNat → base.toNat % 2 ^ 12 = 0) → forceLoop mtrr mmio fuel ept base len = some ept' →
    Keeps ept ept' ok4 ok2 (Blocks vmm mtrr mmio ok2) ∧
      (Blocks vmm mtrr mmio ok2 → ept'.cleared = false → ∀ g, base.toNat ≤ g.toNat →
        g.toNat < base.toNat + len.toNat → FreePage mmio g → ept'.Mapped g) := by
  induction fuel with
  | zero =>
    intro ept base len _ _ _ result
    cases result
  | succ fuel ih =>
    intro ept base len sound bound aligned result
    have limit := vmm.limit_le
    unfold forceLoop at result
    by_cases more : len > 0
    · have positive : 0 < len.toNat := more
      rw [if_pos more] at result
      cases step : forceStep mtrr mmio ept base with
      | none =>
        rw [step] at result
        cases result
      | some stepped =>
        obtain ⟨after, size⟩ := stepped
        obtain ⟨keeps, some', whole, fitsIn, covered⟩ :=
          forceStep_spec listed fits sound (by omega) (aligned positive) step
        rw [step] at result
        simp only at result
        obtain ⟨taken, isTaken⟩ : ∃ taken, (if size > len then len else size) = taken := ⟨_, rfl⟩
        rw [isTaken] at result
        have bounds : taken.toNat ≤ size.toNat ∧ taken.toNat ≤ len.toNat ∧
            (taken.toNat < len.toNat → taken = size) := by
          rw [← isTaken]
          by_cases larger : size > len
          · have order : len.toNat < size.toNat := larger
            rw [if_pos larger]
            omega
          · have order : ¬len.toNat < size.toNat := larger
            rw [if_neg larger]
            exact ⟨Nat.le_refl _, by omega, fun _ => rfl⟩
        have nextBase : (base + taken).toNat = base.toNat + taken.toNat := by
          rw [UInt64.toNat_add]
          omega
        have nextLen : (len - taken).toNat = len.toNat - taken.toNat := by
          have small := len.toNat_lt
          rw [UInt64.toNat_sub]
          omega
        obtain ⟨rest, later⟩ := ih keeps.sound (by rw [nextBase, nextLen]; omega) (by
          rw [nextBase, nextLen]
          intro left
          rw [bounds.2.2 (by omega)]
          have start := aligned positive
          omega) result
        refine ⟨keeps.trans rest, fun isBlocks clear g low high freePage => ?_⟩
        by_cases here : g.toNat < base.toNat + taken.toNat
        · exact rest.mapped isBlocks clear g (covered g low (by omega) freePage)
        · exact later isBlocks clear g (by rw [nextBase]; omega) (by rw [nextBase, nextLen]; omega) freePage
    · rw [if_neg more] at result
      cases result
      have none' : len.toNat = 0 := Nat.eq_zero_of_not_pos more
      exact ⟨Keeps.refl sound, fun _ _ g low high => by omega⟩

def Vmm.InRegion (vmm : Vmm) (n : Nat) (g : UInt64) : Prop :=
  (vmm.getforcemap n).2.1.toNat / 2 ^ 12 * 2 ^ 12 ≤ g.toNat ∧
    g.toNat < (vmm.getforcemap n).2.1.toNat + (vmm.getforcemap n).2.2.toNat

def Vmm.Forced (vmm : Vmm) (g : UInt64) : Prop := ∃ n, (∀ m ≤ n, (vmm.getforcemap m).2.2 ≠ 0) ∧ vmm.InRegion n g

theorem region_fits (n : Nat) : (vmm.getforcemap n).2.1.toNat + (vmm.getforcemap n).2.2.toNat ≤ vmm.limit := by
  have limit := vmm.limit_le
  have fits : (vmm.uefiMmioSpace.getD n (0, 0)).1.toNat +
      (vmm.uefiMmioSpace.getD n (0, 0)).2.toNat * 2 ^ 12 ≤ vmm.limit := by
    rw [List.getD_eq_getElem?_getD]
    cases found : vmm.uefiMmioSpace[n]? with
    | none => exact Nat.zero_le _
    | some region => exact vmm.spaceFits region (List.mem_of_getElem? found)
  have twelve : (12 : UInt64).toNat % 64 = 12 := rfl
  have length : (vmm.getforcemap n).2.2.toNat = (vmm.uefiMmioSpace.getD n (0, 0)).2.toNat * 2 ^ 12 := by
    simp only [Vmm.getforcemap, UInt64.toNat_shiftLeft, twelve, Nat.shiftLeft_eq]
    omega
  rw [length]
  exact fits

theorem getforcemap_next (n : Nat) : (vmm.getforcemap n).1 = if (vmm.getforcemap n).2.2 > 0 then n + 1 else 0 := by
  by_cases more : (vmm.getforcemap n).2.2 > 0
  · rw [if_pos more]
    simp only [Vmm.getforcemap] at more ⊢
    rw [if_pos more]
  · rw [if_neg more]
    simp only [Vmm.getforcemap] at more ⊢
    rw [if_neg more]

theorem regionLoop_spec (listed : mmio.Listed) (fits : Fits vmm mtrr mmio ok4 ok2) (fuel : Nat) :
    ∀ {ept : VtEpt vmm} {n}, Sound ept ok4 ok2 → regionLoop mtrr mmio fuel n ept = some ept' →
    Keeps ept ept' ok4 ok2 (Blocks vmm mtrr mmio ok2) ∧
      (Blocks vmm mtrr mmio ok2 → ept'.cleared = false → ∀ k, n ≤ k →
        (∀ m, n ≤ m → m ≤ k → (vmm.getforcemap m).2.2 ≠ 0) → ∀ g, vmm.InRegion k g →
          FreePage mmio g → ept'.Mapped g) := by
  induction fuel with
  | zero =>
    intro ept n _ result
    cases result
  | succ fuel ih =>
    intro ept n sound result
    have limit := vmm.limit_le
    have inside := @region_fits vmm n
    unfold regionLoop at result
    by_cases empty : (vmm.getforcemap n).2.2 = 0
    · have next : (vmm.getforcemap n).1 = 0 := by
        have zero : ¬(vmm.getforcemap n).2.2 > 0 := by rw [empty]; decide
        rw [getforcemap_next, if_neg zero]
      simp only [empty, if_true, next] at result
      cases result
      exact ⟨Keeps.refl sound, fun _ _ k le reported => absurd empty (reported n (Nat.le_refl _) le)⟩
    · have next : (vmm.getforcemap n).1 = n + 1 := by
        have some' : (vmm.getforcemap n).2.2 > 0 := UInt64.pos_iff_ne_zero.mpr empty
        rw [getforcemap_next, if_pos some']
      have page := @Words.toNat_and_high (vmm.getforcemap n).2.1 (~~~0xFFF) 12 rfl (by omega)
      have offset := @Words.toNat_and_low (vmm.getforcemap n).2.1 0xFFF 12 rfl
      simp only [if_neg empty, next, Nat.succ_ne_zero, if_false, Option.bind_eq_some_iff] at result
      obtain ⟨middle, loop, rest⟩ := result
      have longer : ((vmm.getforcemap n).2.2 + ((vmm.getforcemap n).2.1 &&& 0xFFF)).toNat =
          (vmm.getforcemap n).2.2.toNat + (vmm.getforcemap n).2.1.toNat % 2 ^ 12 := by
        rw [UInt64.toNat_add, offset]
        omega
      have ends : ((vmm.getforcemap n).2.1 &&& ~~~0xFFF).toNat +
          ((vmm.getforcemap n).2.2 + ((vmm.getforcemap n).2.1 &&& 0xFFF)).toNat =
            (vmm.getforcemap n).2.1.toNat + (vmm.getforcemap n).2.2.toNat := by
        rw [page, longer]
        omega
      obtain ⟨keeps, covered⟩ := forceLoop_spec listed fits _ sound (ends ▸ inside)
        (fun _ => by rw [page, Nat.mul_mod_left]) loop
      obtain ⟨keeps', later⟩ := ih keeps.sound rest
      refine ⟨keeps.trans keeps', fun isBlocks clear k le reported g member freePage => ?_⟩
      rcases Nat.eq_or_lt_of_le le with rfl | above
      · obtain ⟨low, high⟩ := member
        rw [← page] at low
        rw [← ends] at high
        exact keeps'.mapped isBlocks clear g (covered isBlocks (keeps'.cleared clear) g low high freePage)
      · exact later isBlocks clear k above (fun m low => reported m (by omega)) g member freePage

def ForcedMapped (mmio : MmioData) (ept : VtEpt vmm) : Prop := ∀ g, vmm.Forced g → FreePage mmio g → ept.Mapped g

theorem clearCleared_spec (listed : mmio.Listed) (fits : Fits vmm mtrr mmio ok4 ok2)
    (sound : Sound ept ok4 ok2) (result : vtEptMapPageClearCleared mtrr mmio ept = some ept') :
    Sound ept' ok4 ok2 ∧ ept'.pages = ept.pages ∧ ept'.cleared = false ∧
      (Blocks vmm mtrr mmio ok2 → ForcedMapped mmio ept' ∧ ∀ g, ept.Mapped g → ept'.Mapped g) := by
  unfold vtEptMapPageClearCleared at result
  simp only [Option.bind_eq_bind, Option.bind_eq_some_iff] at result
  obtain ⟨after, loop, ends⟩ := result
  have start : Sound { ept with cleared := false } ok4 ok2 :=
    ⟨sound.count, sound.apart, ⟨sound.walk.level_le, sound.walk.entries⟩, sound.links, sound.large, sound.leaf⟩
  obtain ⟨keeps, covered⟩ := regionLoop_spec listed fits _ start loop
  cases again : after.cleared with
  | true =>
    rw [again] at ends
    cases ends
  | false =>
    rw [again] at ends
    simp only [Bool.false_eq_true, if_false, Option.some.injEq] at ends
    subst ends
    refine ⟨keeps.sound, keeps.pages, again, fun isBlocks => ⟨?_, keeps.mapped isBlocks again⟩⟩
    rintro g ⟨n, reported, member⟩ freePage
    exact covered isBlocks again n (Nat.zero_le _) (fun m _ => reported m) g member freePage

end DisasVisor.Ept
