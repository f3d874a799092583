import DisasVisor.Cache.Mtrr

/-!
The guest may give the ranges other types without moving them; for some types an unseen part of a block
has a type of its own.
-/

namespace DisasVisor.Cache

open MaskedRanges List

variable {c c' : CacheRegs} {phys low x : Word} {i k : Nat} {host : Host}

structure Kept (host : Host) (c : CacheRegs) : Prop where
  type : ∀ i, rangeType c i ≠ cacheTypeUcMinus
  off : host.pat = false → c.mtrrDefType = 0

theorem isTypeOk_ne {type : CacheType} (ok : host.isTypeOk type = true) : type ≠ cacheTypeUcMinus :=
  (of_decide_eq_true ok).2

theorem of_pat {p : Prop} (pat : host.pat = true) (no : host.pat = false) : p := by
  rw [pat] at no
  cases no

theorem Kept.setGmtrrRange {msrNum : Nat} {value : Word} (kept : Kept host c) (pat : host.pat = true)
    (set : setGmtrrRange host c msrNum value = some c') : Kept host c' := by
  rw [Cache.setGmtrrRange] at set
  split at set
  · cases set
  · split at set
    · split at set
      · cases set
      · cases set
        exact ⟨kept.type, of_pat pat⟩
    · split at set
      · cases set
      · split at set
        · rename_i ok
          cases set
          refine ⟨fun j => ?_, of_pat pat⟩
          change lowByte (Function.update c.mtrrPhysbase _ value j &&& typeMask) ≠ _
          by_cases same : j = (msrNum - msrIa32MtrrPhysbase0) / 2
          · rw [same, Function.update_self]
            exact isTypeOk_ne ok
          · rw [Function.update_of_ne same]
            exact kept.type j
        · cases set

theorem Kept.cacheSetGmtrr {msrNum : Nat} {value : Word} (kept : Kept host c)
    (set : cacheSetGmtrr host c msrNum value = some c') : Kept host c' := by
  rw [Cache.cacheSetGmtrr] at set
  split at set
  · cases set
  · rename_i pat
    have yes : host.pat = true := not_not.mp pat
    split at set
    · rw [setGmtrrDefType] at set
      split at set
      · cases set
      · split at set
        · cases set
          exact ⟨kept.type, of_pat yes⟩
        · cases set
    · split at set
      · exact kept.setGmtrrRange yes set
      · split at set
        · rw [setGmtrrFix] at set
          split at set
          · split at set
            · cases set
            · cases set
              exact kept
          · split at set
            · obtain ⟨j, -, is⟩ := Option.map_eq_some_iff.mp set
              rw [← is]
              exact ⟨kept.type, of_pat yes⟩
            · cases set
        · cases set

theorem Accepted.kept (accepted : Accepted host c) : Kept host c := by
  induction accepted with
  | start =>
    refine ⟨fun i => ?_, fun _ => rfl⟩
    change lowByte (0 &&& typeMask) ≠ cacheTypeUcMinus
    decide
  | gmtrr msrNum value before set ih => exact ih.cacheSetGmtrr set
  | amd msrNum value before set ih =>
    rw [cacheSetGmsrAmd] at set
    split at set
    · cases set
      exact ⟨ih.type, ih.off⟩
    · split at set
      · cases set
        exact ⟨ih.type, ih.off⟩
      · cases set

structure SamePlaces (c c' : CacheRegs) : Prop where
  enabled : c'.mtrrDefType &&& defTypeEBit = c.mtrrDefType &&& defTypeEBit
  fixed : c'.mtrrDefType &&& defTypeFeBit = c.mtrrDefType &&& defTypeFeBit
  mask : ∀ i, c'.mtrrPhysmask i = c.mtrrPhysmask i
  base : ∀ i, c'.mtrrPhysbase i &&& physMask = c.mtrrPhysbase i &&& physMask
  syscfg : c'.syscfg = c.syscfg
  topMem2 : c'.topMem2 = c.topMem2

section

variable (same : SamePlaces c c')
include same

theorem SamePlaces.maskOf (i : Nat) : maskOf c' i = maskOf c i := by
  rw [Cache.maskOf, same.mask, Cache.maskOf]

theorem SamePlaces.valueOf (i : Nat) : valueOf c' i = valueOf c i := by
  have base := same.base i
  rw [BitVec.and_comm, BitVec.and_comm (c.mtrrPhysbase i)] at base
  rw [Cache.valueOf, Cache.valueOf, Cache.maskOf, Cache.maskOf, same.mask, BitVec.and_assoc, BitVec.and_assoc, base]

theorem SamePlaces.hits_iff : Hits c' x i ↔ Hits c x i := by
  rw [Hits, Hits, Valid, Valid, same.mask, same.maskOf, same.valueOf]

theorem SamePlaces.full_iff : Full c' phys low i ↔ Full c phys low i := by
  rw [Full, Full, same.hits_iff, same.maskOf]

theorem SamePlaces.cut_iff : Cut c' phys low i ↔ Cut c phys low i := by
  rw [Cut, Cut, Valid, Valid, same.mask, same.maskOf, same.valueOf]

theorem SamePlaces.missed_iff : Missed c' phys low i ↔ Missed c phys low i := by
  rw [Missed, Missed, same.cut_iff, Valid, Valid, same.mask, same.maskOf, same.valueOf]

theorem SamePlaces.clear (clear : Clear c phys low) : Clear c' phys low := by
  simp only [Clear, Refused, Forced, Straddles, same.full_iff, same.cut_iff, same.missed_iff, same.enabled, same.fixed,
    same.syscfg, same.topMem2]
  exact clear

end

def ucOrWb (uc : Bool) : Word := if uc then 0 else 6

def retype (c : CacheRegs) (uc : Nat → Bool) (defaultUc : Bool) : CacheRegs :=
  { c with
    mtrrDefType := (c.mtrrDefType &&& (defTypeFeBit ||| defTypeEBit)) ||| ucOrWb defaultUc
    mtrrPhysbase := fun i => if i < gmtrrVcnt then (c.mtrrPhysbase i &&& physMask) ||| ucOrWb (uc i) else c.mtrrPhysbase i }

theorem masked_or (value : Word) {mask other : Word} (apart : mask &&& other = 0) (add : Word) :
    (value &&& mask ||| add) &&& other = add &&& other := by
  have nothing : value &&& (0 : Word) = 0 := BitVec.and_zero
  have rest : (0 : Word) ||| (add &&& other) = add &&& other := BitVec.zero_or
  rw [BitVec.and_or_distrib_right, BitVec.and_assoc, apart, nothing, rest]

theorem lowByte_ucOrWb (uc : Bool) : lowByte (ucOrWb uc &&& typeMask) = if uc then cacheTypeUc else cacheTypeWb := by
  cases uc <;> decide

theorem rangeType_retype {uc : Nat → Bool} {defaultUc : Bool} (bound : i < gmtrrVcnt) :
    rangeType (retype c uc defaultUc) i = if uc i then cacheTypeUc else cacheTypeWb := by
  rw [rangeType, retype]
  simp only
  rw [if_pos bound, masked_or _ (by decide), lowByte_ucOrWb]

theorem samePlaces_retype (c : CacheRegs) (uc : Nat → Bool) (defaultUc : Bool) : SamePlaces c (retype c uc defaultUc) where
  enabled := by
    rw [retype]
    simp only
    rw [BitVec.and_or_distrib_right, BitVec.and_assoc]
    cases defaultUc <;> simp [ucOrWb, defTypeFeBit, defTypeEBit]
  fixed := by
    rw [retype]
    simp only
    rw [BitVec.and_or_distrib_right, BitVec.and_assoc]
    cases defaultUc <;> simp [ucOrWb, defTypeFeBit, defTypeEBit]
  mask := fun _ => rfl
  base := by
    intro i
    rw [retype]
    simp only
    split
    · rw [BitVec.and_or_distrib_right, BitVec.and_assoc]
      cases uc i <;> simp [ucOrWb, physMask]
    · rfl
  syscfg := rfl
  topMem2 := rfl

theorem ucOrWb_ok (host : Host) (uc : Bool) : host.isTypeOk (lowByte (ucOrWb uc &&& typeMask)) = true := by
  rw [lowByte_ucOrWb]
  cases uc <;> simp [Host.isTypeOk, Host.patData] <;> decide

section

variable (accepted : Accepted host c) (pat : host.pat = true)
include accepted pat

theorem accepted_setBase (bound : i < gmtrrVcnt) (uc : Bool) :
    Accepted host { c with
      mtrrPhysbase := Function.update c.mtrrPhysbase i ((c.mtrrPhysbase i &&& physMask) ||| ucOrWb uc) } := by
  have place : (0x200 + 2 * i - 0x200) / 2 = i := by omega
  have small : i < 10 := bound
  have fine : ((c.mtrrPhysbase i &&& physMask) ||| ucOrWb uc) &&& ~~~(physMask ||| typeMask) = 0 := by
    rw [masked_or _ (by decide)]
    cases uc <;> decide
  have ok := ucOrWb_ok host uc
  have apart : physMask &&& typeMask = 0 := by decide
  rw [← masked_or (c.mtrrPhysbase i) apart] at ok
  refine .gmtrr (0x200 + 2 * i) ((c.mtrrPhysbase i &&& physMask) ||| ucOrWb uc) accepted ?_
  have notDef : ¬0x200 + 2 * i = msrIa32MtrrDefType := by
    rw [msrIa32MtrrDefType]
    omega
  have inRange : 0x200 + 2 * i ≥ msrIa32MtrrPhysbase0 ∧ 0x200 + 2 * i < msrIa32MtrrFix64k00000 := by
    rw [msrIa32MtrrPhysbase0, msrIa32MtrrFix64k00000]
    omega
  rw [cacheSetGmtrr, if_neg (not_not.mpr pat), if_neg notDef, if_pos inRange, setGmtrrRange]
  simp only [msrIa32MtrrPhysbase0, place]
  rw [if_neg (by omega), if_neg (by omega), if_neg (not_not.mpr fine), if_pos ok]

theorem accepted_setDefType (uc : Bool) :
    Accepted host { c with mtrrDefType := (c.mtrrDefType &&& (defTypeFeBit ||| defTypeEBit)) ||| ucOrWb uc } := by
  have fine : ((c.mtrrDefType &&& (defTypeFeBit ||| defTypeEBit)) ||| ucOrWb uc) &&&
      ~~~(typeMask ||| defTypeFeBit ||| defTypeEBit) = 0 := by
    rw [masked_or _ (by decide)]
    cases uc <;> decide
  have ok := ucOrWb_ok host uc
  have apart : (defTypeFeBit ||| defTypeEBit) &&& typeMask = 0 := by decide
  rw [← masked_or c.mtrrDefType apart] at ok
  refine .gmtrr msrIa32MtrrDefType ((c.mtrrDefType &&& (defTypeFeBit ||| defTypeEBit)) ||| ucOrWb uc) accepted ?_
  rw [cacheSetGmtrr, if_neg (not_not.mpr pat), if_pos rfl, setGmtrrDefType, if_neg (not_not.mpr fine), if_pos ok]

theorem accepted_retype (uc : Nat → Bool) (defaultUc : Bool) : Accepted host (retype c uc defaultUc) := by
  have bases : ∀ n ≤ gmtrrVcnt, Accepted host { c with
      mtrrPhysbase := fun i => if i < n then (c.mtrrPhysbase i &&& physMask) ||| ucOrWb (uc i) else c.mtrrPhysbase i } := by
    intro n
    induction n with
    | zero => exact fun _ => accepted
    | succ n ih =>
      intro bound
      have next := accepted_setBase (ih (by omega)) pat (show n < gmtrrVcnt by omega) (uc n)
      simp only [Nat.lt_irrefl, if_false] at next
      refine Eq.subst (motive := fun base => Accepted host { c with mtrrPhysbase := base }) ?_ next
      funext i
      by_cases here : i = n
      · rw [here, Function.update_self, if_pos (Nat.lt_succ_self n)]
      · rw [Function.update_of_ne here]
        exact if_congr (by omega) rfl rfl
  exact accepted_setDefType (bases gmtrrVcnt (Nat.le_refl _)) pat defaultUc

end

theorem typeLoop_uncacheable {list : List Nat} (member : i ∈ list) (hits : Hits c x i)
    (uncacheable : rangeType c i = cacheTypeUc) (type : CacheType) :
    typeLoop c x list type = .error cacheTypeUc := by
  induction list generalizing type with
  | nil => cases member
  | cons j list ih =>
    by_cases here : Hits c x j
    · rw [typeLoop_hit here]
      split
      · rfl
      · rename_i cacheable
        rcases mem_cons.mp member with rfl | later
        · exact absurd uncacheable cacheable
        · exact ih later _
    · rw [typeLoop_miss here]
      rcases mem_cons.mp member with rfl | later
      · exact absurd hits here
      · exact ih later _

theorem equalLoop_writeBack {list : List Nat} (uncut : ∀ i ∈ list, ¬Cut c phys low i)
    (writeBack : ∀ i ∈ list, Full c phys low i → rangeType c i = cacheTypeWb) {type : CacheType}
    (known : type = cacheTypeUcMinus ∨ type = cacheTypeWb) :
    ∃ type', equalLoop c phys low list type = .ok type' ∧ (type' = cacheTypeUcMinus ∨ type' = cacheTypeWb) := by
  induction list generalizing type with
  | nil => exact ⟨type, rfl, known⟩
  | cons i list ih =>
    have later := @ih (fun j member => uncut j (mem_cons_of_mem i member))
      fun j member => writeBack j (mem_cons_of_mem i member)
    by_cases full : Full c phys low i
    · have isWb := writeBack i mem_cons_self full
      rw [equalLoop_full full, isWb, if_neg (by decide)]
      apply later
      rcases known with rfl | rfl
      · exact .inr rfl
      · exact .inr rfl
    · rw [equalLoop_other (uncut i mem_cons_self) full]
      exact later known

theorem SamePlaces.forced_iff (same : SamePlaces c c') : Forced c' x ↔ Forced c x := by
  rw [Forced, Forced, same.syscfg, same.topMem2]

theorem SamePlaces.enabled_past (same : SamePlaces c c') (open' : ¬Refused c phys low) :
    c'.mtrrDefType &&& defTypeEBit ≠ 0 ∧
      ¬(c'.mtrrDefType &&& defTypeFeBit ≠ 0 ∧ (phys ≤ 0xFFFFF ∨ phys ≤ low)) := by
  rw [same.enabled, same.fixed]
  exact ⟨fun off => open' (.inl off), fun isLow => open' (.inr (.inl isLow))⟩

theorem equal_of_writeBack (same : SamePlaces c c') (open' : ¬Refused c phys low)
    (valid : ∀ i < gmtrrVcnt, rangeType c' i ≠ cacheTypeUcMinus)
    (writeBack : ∀ i < gmtrrVcnt, Full c phys low i → rangeType c' i = cacheTypeWb) (pass : Bool) :
    mtrrTypeEqual phys c' pass low = true ∧
      ∃ type, equalLoop c' phys low (List.range gmtrrVcnt) cacheTypeUcMinus = .ok type ∧
        (type = cacheTypeUcMinus ∨ type = cacheTypeWb) := by
  obtain ⟨on, high⟩ := same.enabled_past open'
  have uncut : ∀ i ∈ List.range gmtrrVcnt, ¬Cut c' phys low i := by
    intro i member cut
    exact open' (.inr (.inr (.inl ⟨i, mem_range.mp member, same.cut_iff.mp cut⟩)))
  obtain ⟨type, loop, known⟩ := equalLoop_writeBack uncut
    (fun i member full => writeBack i (mem_range.mp member) (same.full_iff.mp full)) (.inl rfl)
  refine ⟨(mtrrTypeEqual_ok on high loop).mpr ?_, type, loop, known⟩
  intro unknown forced
  by_contra past
  rw [same.topMem2] at past
  refine open' (.inr (.inr (.inr ⟨?_, same.forced_iff.mp forced, past⟩)))
  intro i bound full
  exact equalLoop_ne loop (fun j member => valid j (mem_range.mp member))
    (.inr ⟨i, mem_range.mpr bound, same.full_iff.mpr full⟩) unknown

theorem defaultType_retype (c : CacheRegs) (uc : Nat → Bool) (defaultUc : Bool) (x : Word) :
    defaultType (retype c uc defaultUc) x =
      if Forced c x then cacheTypeWb else if defaultUc then cacheTypeUc else cacheTypeWb := by
  have isType : lowByte ((retype c uc defaultUc).mtrrDefType &&& typeMask) =
      if defaultUc then cacheTypeUc else cacheTypeWb := by
    rw [retype]
    simp only
    rw [masked_or _ (by decide), lowByte_ucOrWb]
  rw [defaultType, isType]
  rfl

theorem retype_ne (c : CacheRegs) (uc : Nat → Bool) (defaultUc : Bool) :
    ∀ i < gmtrrVcnt, rangeType (retype c uc defaultUc) i ≠ cacheTypeUcMinus := by
  intro i bound
  rw [rangeType_retype bound]
  cases uc i <;> decide

theorem not_sound_of_missed (aligned : phys &&& lowMask 64 k = 0) (open' : ¬Refused c phys (lowMask 64 k))
    (bound : i < gmtrrVcnt) (missed : Missed c phys (lowMask 64 k) i) :
    ¬Sound (retype c (fun j => j == i) false) phys k := by
  intro sound
  have same := samePlaces_retype c (fun j => j == i) false
  have first : InBlock (lowMask 64 k) phys phys :=
    (inBlock_lowMask aligned).mpr ⟨Nat.le_refl _, Nat.lt_add_of_pos_right (Nat.two_pow_pos k)⟩
  have valid := retype_ne c (fun j => j == i) false
  obtain ⟨equal, type, loop, known⟩ := equal_of_writeBack same open' valid (by
    intro j below full
    have other : j ≠ i := by
      rintro rfl
      exact missed.2.1 full.2
    rw [rangeType_retype below, beq_false_of_ne other]
    rfl) false
  obtain ⟨inside, inRange⟩ := missed.2.2.2.hits first (by rw [valueOf, ← BitVec.and_assoc, BitVec.and_self])
  obtain ⟨above, below⟩ := (inBlock_lowMask aligned).mp inside
  obtain ⟨on, high⟩ := same.enabled_past open'
  have uncacheable : rangeType (retype c (fun j => j == i) false) i = cacheTypeUc := by
    rw [rangeType_retype bound, beq_self_eq_true]
    rfl
  have here := typeLoop_uncacheable (mem_range.mpr bound) (same.hits_iff.mpr ⟨missed.1, inRange⟩) uncacheable
    cacheTypeUcMinus
  have there := typeLoop_of_ok first loop fun j _ hits cut => full_of_hits_first hits cut
  have types := sound false equal _ above below
  rw [getMtrrType_error on (not_low high inside.first_le) here,
    getMtrrType_ok on (not_low high first.first_le) there, defaultType_retype] at types
  have writeBack : (if Forced c phys then cacheTypeWb else if false = true then cacheTypeUc else cacheTypeWb) =
      cacheTypeWb := by
    split
    · rfl
    · rfl
  rw [writeBack] at types
  rcases known with rfl | rfl
  · revert types
    decide
  · revert types
    decide

theorem not_sound_of_straddles (aligned : phys &&& lowMask 64 k = 0) (open' : ¬Refused c phys (lowMask 64 k))
    (seen : ∀ i < gmtrrVcnt, ¬Missed c phys (lowMask 64 k) i) (none' : ∀ i < gmtrrVcnt, ¬Full c phys (lowMask 64 k) i)
    (straddles : Straddles c phys (lowMask 64 k)) : ¬Sound (retype c (fun _ => false) true) phys k := by
  intro sound
  have same := samePlaces_retype c (fun _ => false) true
  have first : InBlock (lowMask 64 k) phys phys :=
    (inBlock_lowMask aligned).mpr ⟨Nat.le_refl _, Nat.lt_add_of_pos_right (Nat.two_pow_pos k)⟩
  obtain ⟨equal, type, loop, -⟩ := equal_of_writeBack same open' (retype_ne c (fun _ => false) true)
    (fun j bound full => absurd full (none' j bound)) false
  have unknown : type = cacheTypeUcMinus := equalLoop_none loop fun j member full =>
    none' j (mem_range.mp member) (same.full_iff.mp full)
  obtain ⟨under, past, flag, tom2⟩ := straddles
  have below := ((inBlock_lowMask aligned).mp first.last).2
  have above : phys.toNat ≤ (0x100000000 : Word).toNat := Nat.le_of_lt under
  have within : (0x100000000 : Word).toNat < phys.toNat + 2 ^ k := Nat.lt_of_le_of_lt past below
  have inside := (inBlock_lowMask aligned).mpr ⟨above, within⟩
  obtain ⟨on, high⟩ := same.enabled_past open'
  have here := typeLoop_of_ok inside loop fun j member hits cut => full_of_hits inside hits cut fun missed =>
    seen j (mem_range.mp member) (same.missed_iff.mp missed)
  have there := typeLoop_of_ok first loop fun j _ hits cut => full_of_hits_first hits cut
  have types := sound false equal _ above within
  have forced : Forced c 0x100000000 := ⟨BitVec.le_refl _, flag, tom2⟩
  have free : ¬Forced c phys := fun both => Nat.lt_irrefl _ (Nat.lt_of_lt_of_le under both.1)
  rw [getMtrrType_ok on (not_low high inside.first_le) here, getMtrrType_ok on (not_low high first.first_le) there,
    unknown, defaultType_retype, defaultType_retype, if_pos forced, if_neg free] at types
  revert types
  decide

/-- Whatever types the guest gives its ranges, the blocks that are said to have one type have it: exactly
when no part of a range escapes the test. -/
theorem mtrrTypeEqual_exact (accepted : Accepted host c) (aligned : phys &&& lowMask 64 k = 0) :
    (∀ c', Accepted host c' → SamePlaces c c' → Sound c' phys k) ↔ Clear c phys (lowMask 64 k) := by
  constructor
  · intro sound
    by_cases refused : Refused c phys (lowMask 64 k)
    · exact .inl refused
    have pat : host.pat = true := by
      by_contra no
      have off := accepted.kept.off (Bool.eq_false_of_not_eq_true no)
      exact refused (.inl (by rw [off]; rfl))
    have seen : ∀ i < gmtrrVcnt, ¬Missed c phys (lowMask 64 k) i := fun i bound missed =>
      not_sound_of_missed aligned refused bound missed
        (sound _ (accepted_retype accepted pat _ false) (samePlaces_retype c _ false))
    refine .inr ⟨seen, ?_⟩
    by_contra neither
    rw [not_or, not_not] at neither
    exact not_sound_of_straddles aligned refused seen (fun i bound full => neither.1 ⟨i, bound, full⟩) neither.2
      (sound _ (accepted_retype accepted pat _ true) (samePlaces_retype c _ true))
  · intro clear c' accepted' same
    exact sound_of_clear (fun i _ => accepted'.kept.type i) aligned (same.clear clear)

def plainHost : Host := ⟨true, true, false, fun _ _ => false⟩

def twinRegs : CacheRegs where
  mtrrDefType := 0x806
  mtrrPhysbase := Function.update (fun _ => 0) 0 0x1000
  mtrrPhysmask := Function.update (fun _ => 0) 0 0xFFFFF7FFFF800
  mtrrFix := fun _ => 0
  syscfg := 0
  topMem2 := 0

theorem accepted_twinRegs : Accepted plainHost twinRegs :=
  .gmtrr 0x2FF 0x806 (.gmtrr 0x201 0xFFFFF7FFFF800 (.gmtrr 0x200 0x1000 .start rfl) rfl) rfl

theorem mtrrTypeEqual_exact_twin : ¬∀ c', Accepted plainHost c' → SamePlaces twinRegs c' → Sound c' 0x80000000 21 := by
  rw [@mtrrTypeEqual_exact twinRegs 0x80000000 21 plainHost accepted_twinRegs (by decide)]
  decide +kernel

/-- 2 MiB that are said to have one type, with an uncacheable page among write-back ones. -/
theorem twin_unsound : Accepted plainHost twinRegs ∧ ¬Sound twinRegs 0x80000000 21 := by
  refine ⟨accepted_twinRegs, ?_⟩
  intro sound
  have equal : mtrrTypeEqual 0x80000000 twinRegs false (lowMask 64 21) = true := by decide +kernel
  have types := sound false equal 0x80001000 (by decide) (by decide)
  have apart : getMtrrType 0x80001000 twinRegs false ≠ getMtrrType 0x80000000 twinRegs false := by decide +kernel
  exact apart types

end DisasVisor.Cache
