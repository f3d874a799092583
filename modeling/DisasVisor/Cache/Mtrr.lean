import DisasVisor.Lib.MaskedRanges

/-!
The guest's memory type range registers: `get_mtrr_type`, `mtrr_type_equal` and the writes of the
registers in `core/cache.c`.
-/

namespace DisasVisor.Cache

abbrev Word := BitVec 64

abbrev CacheType := UInt8

def cacheTypeUc : CacheType := 0x00
def cacheTypeWc : CacheType := 0x01
def cacheTypeWt : CacheType := 0x04
def cacheTypeWp : CacheType := 0x05
def cacheTypeWb : CacheType := 0x06
def cacheTypeUcMinus : CacheType := 0x07

def gmtrrVcnt : Nat := 10

def defTypeFeBit : Word := 0x400
def defTypeEBit : Word := 0x800
def physmaskVBit : Word := 0x800
def physMask : Word := 0xFFFFFFFFFF000
def typeMask : Word := 0xFF
def tom2ForceMemTypeWbBit : Word := 0x400000
def topMem2AddrMask : Word := 0xFFFFFFF800000
def msrIa32MtrrPhysbase0 : Nat := 0x200
def msrIa32MtrrFix64k00000 : Nat := 0x250
def msrIa32MtrrFix4kF8000 : Nat := 0x26F
def msrIa32MtrrDefType : Nat := 0x2FF
def msrAmdSyscfg : Nat := 0xC0010010
def msrAmdTopMem2 : Nat := 0xC001001D

structure CacheRegs where
  mtrrDefType : Word
  mtrrPhysbase : Nat → Word
  mtrrPhysmask : Nat → Word
  mtrrFix : Nat → CacheType
  syscfg : Word
  topMem2 : Word

def lowByte (value : Word) : CacheType := .ofBitVec (value.setWidth 8)

def fixIndex (phys : Word) : Nat :=
  if phys &&& 0x80000 ≠ 0 then
    if phys &&& 0x40000 ≠ 0 then ((phys &&& 0x3F000) >>> 12).toNat else 64 + ((phys &&& 0x3C000) >>> 14).toNat
  else 80 + ((phys &&& 0x70000) >>> 16).toNat

def joinType (type basetype : CacheType) : CacheType :=
  if basetype = cacheTypeWt then cacheTypeWt else if type = cacheTypeUcMinus then basetype else type

def typeLoop (c : CacheRegs) (phys : Word) : List Nat → CacheType → Except CacheType CacheType
  | [], type => .ok type
  | i :: rest, type =>
    if c.mtrrPhysmask i &&& physmaskVBit = 0 then typeLoop c phys rest type
    else
      let mask := c.mtrrPhysmask i &&& physMask
      let basetype := lowByte (c.mtrrPhysbase i &&& typeMask)
      if mask &&& c.mtrrPhysbase i = mask &&& phys then
        if basetype = cacheTypeUc then .error cacheTypeUc else typeLoop c phys rest (joinType type basetype)
      else typeLoop c phys rest type

def defaultType (c : CacheRegs) (phys : Word) : CacheType :=
  if phys ≥ 0x100000000 ∧ c.syscfg &&& tom2ForceMemTypeWbBit ≠ 0 ∧ phys < c.topMem2 &&& topMem2AddrMask then cacheTypeWb
  else lowByte (c.mtrrDefType &&& typeMask)

def getMtrrType (phys : Word) (c : CacheRegs) (passMtrrfix : Bool) : CacheType :=
  if c.mtrrDefType &&& defTypeEBit = 0 then cacheTypeUc
  else if c.mtrrDefType &&& defTypeFeBit ≠ 0 ∧ phys ≤ 0xFFFFF then
    if passMtrrfix then cacheTypeWb else c.mtrrFix (fixIndex phys)
  else
    match typeLoop c phys (List.range gmtrrVcnt) cacheTypeUcMinus with
    | .error type => type
    | .ok type => if type ≠ cacheTypeUcMinus then type else defaultType c phys

def equalLoop (c : CacheRegs) (phys low : Word) : List Nat → CacheType → Except Bool CacheType
  | [], type => .ok type
  | i :: rest, type =>
    if c.mtrrPhysmask i &&& physmaskVBit = 0 then equalLoop c phys low rest type
    else
      let mask := c.mtrrPhysmask i &&& physMask
      let maskbase := mask &&& c.mtrrPhysbase i
      let basetype := lowByte (c.mtrrPhysbase i &&& typeMask)
      if maskbase = mask &&& phys then
        if mask &&& low ≠ 0 then .error false
        else if basetype = cacheTypeUc then .error true
        else equalLoop c phys low rest (joinType type basetype)
      else if mask &&& low ≠ 0 ∧ maskbase &&& ~~~low = phys &&& ~~~low then .error false
      else equalLoop c phys low rest type

/-- `mtrr_type_equal`; `low` is `physmask`. The third argument is not used. -/
def mtrrTypeEqual (phys : Word) (c : CacheRegs) (_passMtrrfix : Bool) (low : Word) : Bool :=
  if c.mtrrDefType &&& defTypeEBit = 0 then false
  else if c.mtrrDefType &&& defTypeFeBit ≠ 0 ∧ (phys ≤ 0xFFFFF ∨ phys ≤ low) then false
  else
    match equalLoop c phys low (List.range gmtrrVcnt) cacheTypeUcMinus with
    | .error equal => equal
    | .ok type =>
      if type ≠ cacheTypeUcMinus then true
      else if phys ≥ 0x100000000 ∧ c.syscfg &&& tom2ForceMemTypeWbBit ≠ 0 ∧
        phys < c.topMem2 &&& topMem2AddrMask then phys ||| low < c.topMem2 &&& topMem2AddrMask
      else true

/-- What of the processor the writes look at: whether there are a PAT and write combining, and whether
the fixed ranges are passed through, with the answers of `cache_wrmsr`. -/
structure Host where
  pat : Bool
  wc : Bool
  passMtrrfix : Bool
  wrmsr : Nat → Word → Bool

def Host.patData (host : Host) : List CacheType :=
  [cacheTypeWb, cacheTypeWt, cacheTypeUcMinus, cacheTypeUc, cacheTypeWb, cacheTypeWp,
    if host.wc then cacheTypeWc else cacheTypeUc, cacheTypeUc]

def Host.isTypeOk (host : Host) (type : CacheType) : Bool := type ∈ host.patData ∧ type ≠ cacheTypeUcMinus

/-- `set_gmtrr_def_type`; none is an exception for the guest. -/
def setGmtrrDefType (host : Host) (c : CacheRegs) (value : Word) : Option CacheRegs :=
  if value &&& ~~~(typeMask ||| defTypeFeBit ||| defTypeEBit) ≠ 0 then none
  else if host.isTypeOk (lowByte (value &&& typeMask)) then some { c with mtrrDefType := value } else none

def setGmtrrRange (host : Host) (c : CacheRegs) (msrNum : Nat) (value : Word) : Option CacheRegs :=
  let index := (msrNum - msrIa32MtrrPhysbase0) / 2
  if index ≥ gmtrrVcnt then none
  else if msrNum % 2 = 1 then
    if value &&& ~~~(physMask ||| physmaskVBit) ≠ 0 then none
    else some { c with mtrrPhysmask := Function.update c.mtrrPhysmask index value }
  else if value &&& ~~~(physMask ||| typeMask) ≠ 0 then none
  else if host.isTypeOk (lowByte (value &&& typeMask)) then
    some { c with mtrrPhysbase := Function.update c.mtrrPhysbase index value }
  else none

def getIndexFromMtrrFixMsrNum (msrNum : Nat) : Option Nat :=
  [0x268, 0x269, 0x26A, 0x26B, 0x26C, 0x26D, 0x26E, 0x26F, 0x258, 0x259, 0x250].idxOf? msrNum

def setGmtrrFix (host : Host) (c : CacheRegs) (msrNum : Nat) (value : Word) : Option CacheRegs :=
  if host.passMtrrfix then if host.wrmsr msrNum value then none else some c
  else if (List.range 8).all fun i => host.isTypeOk (lowByte (value >>> (8 * i))) then
    (getIndexFromMtrrFixMsrNum msrNum).map fun i =>
      { c with mtrrFix := fun j => if j / 8 = i then lowByte (value >>> (8 * (j % 8))) else c.mtrrFix j }
  else none

def cacheSetGmtrr (host : Host) (c : CacheRegs) (msrNum : Nat) (value : Word) : Option CacheRegs :=
  if ¬host.pat then none
  else if msrNum = msrIa32MtrrDefType then setGmtrrDefType host c value
  else if msrNum ≥ msrIa32MtrrPhysbase0 ∧ msrNum < msrIa32MtrrFix64k00000 then setGmtrrRange host c msrNum value
  else if msrNum ≥ msrIa32MtrrFix64k00000 ∧ msrNum ≤ msrIa32MtrrFix4kF8000 then setGmtrrFix host c msrNum value
  else none

def cacheSetGmsrAmd (c : CacheRegs) (msrNum : Nat) (value : Word) : Option CacheRegs :=
  if msrNum = msrAmdSyscfg then some { c with syscfg := value }
  else if msrNum = msrAmdTopMem2 then some { c with topMem2 := value }
  else none

def CacheRegs.start : CacheRegs := ⟨0, fun _ => 0, fun _ => 0, fun _ => 0, 0, 0⟩

inductive Accepted (host : Host) : CacheRegs → Prop
  | start : Accepted host .start
  | gmtrr {c c' : CacheRegs} (msrNum : Nat) (value : Word) (before : Accepted host c)
      (set : cacheSetGmtrr host c msrNum value = some c') : Accepted host c'
  | amd {c c' : CacheRegs} (msrNum : Nat) (value : Word) (before : Accepted host c)
      (set : cacheSetGmsrAmd c msrNum value = some c') : Accepted host c'

/-!
When `mtrr_type_equal` says of a block that it has one type, it has one, unless a variable range cuts the
block where the test does not look, or the memory that `TOP_MEM2` makes write-back begins in it.
-/

open MaskedRanges

variable {c c' : CacheRegs} {phys low x : Word} {i k : Nat} {list : List Nat} {type type' : CacheType}
  {host : Host}

def Valid (c : CacheRegs) (i : Nat) : Prop := c.mtrrPhysmask i &&& physmaskVBit ≠ 0

def maskOf (c : CacheRegs) (i : Nat) : Word := c.mtrrPhysmask i &&& physMask

def valueOf (c : CacheRegs) (i : Nat) : Word := maskOf c i &&& c.mtrrPhysbase i

def rangeType (c : CacheRegs) (i : Nat) : CacheType := lowByte (c.mtrrPhysbase i &&& typeMask)

def Hits (c : CacheRegs) (x : Word) (i : Nat) : Prop := Valid c i ∧ InRange (maskOf c i) (valueOf c i) x

def Full (c : CacheRegs) (phys low : Word) (i : Nat) : Prop := Hits c phys i ∧ maskOf c i &&& low = 0

def Cut (c : CacheRegs) (phys low : Word) (i : Nat) : Prop :=
  Valid c i ∧ maskOf c i &&& low ≠ 0 ∧
    (InRange (maskOf c i) (valueOf c i) phys ∨ valueOf c i &&& ~~~low = phys &&& ~~~low)

/-- The range has a part of the block, and the test does not see it: it compares the address with the
value of the range also in bits that are not in the mask. -/
def Missed (c : CacheRegs) (phys low : Word) (i : Nat) : Prop :=
  Valid c i ∧ maskOf c i &&& low ≠ 0 ∧ ¬Cut c phys low i ∧ Meets low phys (maskOf c i) (valueOf c i)

instance : Decidable (Valid c i) := inferInstanceAs (Decidable (_ ≠ _))
instance {mask value : Word} : Decidable (InRange mask value x) := inferInstanceAs (Decidable (_ = _))
instance : Decidable (Hits c x i) := inferInstanceAs (Decidable (_ ∧ _))
instance : Decidable (Full c phys low i) := inferInstanceAs (Decidable (_ ∧ _))
instance : Decidable (Cut c phys low i) := inferInstanceAs (Decidable (_ ∧ _))
instance {mask value : Word} : Decidable (Meets low phys mask value) := inferInstanceAs (Decidable (_ = _))
instance : Decidable (Missed c phys low i) := inferInstanceAs (Decidable (_ ∧ _))

theorem Full.hits (full : Full c phys low i) (inside : InBlock low phys x) : Hits c x i :=
  ⟨full.1.1, (inside.range_iff full.2).mpr full.1.2⟩

theorem full_of_hits_first (hits : Hits c phys i) (uncut : ¬Cut c phys low i) : Full c phys low i := by
  refine ⟨hits, ?_⟩
  by_contra narrow
  exact uncut ⟨hits.1, narrow, .inl hits.2⟩

theorem full_of_hits (inside : InBlock low phys x) (hits : Hits c x i) (uncut : ¬Cut c phys low i)
    (seen : ¬Missed c phys low i) : Full c phys low i := by
  by_cases wide : maskOf c i &&& low = 0
  · exact ⟨⟨hits.1, (inside.range_iff wide).mp hits.2⟩, wide⟩
  · exact absurd ⟨hits.1, wide, uncut, inside.meets hits.2⟩ seen

variable {rest : List Nat}

theorem typeLoop_hit (hits : Hits c x i) : typeLoop c x (i :: rest) type =
    if rangeType c i = cacheTypeUc then .error cacheTypeUc
    else typeLoop c x rest (joinType type (rangeType c i)) := by
  have same : c.mtrrPhysmask i &&& physMask &&& c.mtrrPhysbase i = c.mtrrPhysmask i &&& physMask &&& x := hits.2.symm
  rw [typeLoop, if_neg hits.1]
  simp only
  rw [if_pos same]
  rfl

theorem typeLoop_miss (misses : ¬Hits c x i) : typeLoop c x (i :: rest) type = typeLoop c x rest type := by
  rw [typeLoop]
  split
  · rfl
  · rename_i valid
    exact if_neg fun same => misses ⟨valid, same.symm⟩

theorem equalLoop_cut (cut : Cut c phys low i) : equalLoop c phys low (i :: rest) type = .error false := by
  obtain ⟨valid, narrow, part⟩ := cut
  rw [equalLoop, if_neg valid]
  simp only
  split
  · exact if_pos narrow
  · rename_i other
    refine if_pos ⟨narrow, ?_⟩
    rcases part with first | upper
    · exact absurd (Eq.symm first) other
    · exact upper

theorem equalLoop_full (full : Full c phys low i) : equalLoop c phys low (i :: rest) type =
    if rangeType c i = cacheTypeUc then .error true
    else equalLoop c phys low rest (joinType type (rangeType c i)) := by
  have same : c.mtrrPhysmask i &&& physMask &&& c.mtrrPhysbase i = c.mtrrPhysmask i &&& physMask &&& phys :=
    full.1.2.symm
  have wide : ¬c.mtrrPhysmask i &&& physMask &&& low ≠ 0 := not_not.mpr full.2
  rw [equalLoop, if_neg full.1.1]
  simp only
  rw [if_pos same, if_neg wide]
  rfl

theorem equalLoop_other (uncut : ¬Cut c phys low i) (part : ¬Full c phys low i) :
    equalLoop c phys low (i :: rest) type = equalLoop c phys low rest type := by
  rw [equalLoop]
  split
  · rfl
  · rename_i valid
    simp only
    have other : ¬c.mtrrPhysmask i &&& physMask &&& c.mtrrPhysbase i = c.mtrrPhysmask i &&& physMask &&& phys :=
      fun same => part (full_of_hits_first ⟨valid, same.symm⟩ uncut)
    rw [if_neg other]
    exact if_neg fun both => uncut ⟨valid, both.1, .inr both.2⟩

theorem typeLoop_of_true (inside : InBlock low phys x) (equal : equalLoop c phys low list type = .error true)
    (type' : CacheType) : typeLoop c x list type' = .error cacheTypeUc := by
  induction list generalizing type type' with
  | nil => cases equal
  | cons i list ih =>
    have next : ∀ t, equalLoop c phys low list t = .error true → typeLoop c x (i :: list) type' =
        .error cacheTypeUc := by
      intro t later
      by_cases hits : Hits c x i
      · rw [typeLoop_hit hits]
        split
        · rfl
        · exact ih later _
      · rw [typeLoop_miss hits]
        exact ih later _
    by_cases cut : Cut c phys low i
    · rw [equalLoop_cut cut] at equal
      cases equal
    · by_cases full : Full c phys low i
      · rw [equalLoop_full full] at equal
        by_cases uncacheable : rangeType c i = cacheTypeUc
        · rw [typeLoop_hit (full.hits inside), if_pos uncacheable]
        · rw [if_neg uncacheable] at equal
          exact next _ equal
      · rw [equalLoop_other cut full] at equal
        exact next _ equal

theorem typeLoop_of_ok (inside : InBlock low phys x) (equal : equalLoop c phys low list type = .ok type')
    (onlyFull : ∀ i ∈ list, Hits c x i → ¬Cut c phys low i → Full c phys low i) :
    typeLoop c x list type = .ok type' := by
  induction list generalizing type with
  | nil => exact congrArg _ (Except.ok.inj equal)
  | cons i list ih =>
    have later : ∀ j ∈ list, Hits c x j → ¬Cut c phys low j → Full c phys low j :=
      fun j member => onlyFull j (List.mem_cons_of_mem i member)
    by_cases cut : Cut c phys low i
    · rw [equalLoop_cut cut] at equal
      cases equal
    · by_cases full : Full c phys low i
      · rw [equalLoop_full full] at equal
        rw [typeLoop_hit (full.hits inside)]
        split at equal
        · cases equal
        · rename_i cacheable
          rw [if_neg cacheable]
          exact ih equal later
      · rw [equalLoop_other cut full] at equal
        rw [typeLoop_miss fun hits => full (onlyFull i List.mem_cons_self hits cut)]
        exact ih equal later

theorem joinType_ne {basetype : CacheType} (type : CacheType) (valid : basetype ≠ cacheTypeUcMinus) :
    joinType type basetype ≠ cacheTypeUcMinus := by
  rw [joinType]
  split
  · decide
  · split
    · exact valid
    · assumption

section

variable (equal : equalLoop c phys low list type = .ok type')
include equal

theorem equalLoop_ne (valid : ∀ i ∈ list, rangeType c i ≠ cacheTypeUcMinus)
    (some' : type ≠ cacheTypeUcMinus ∨ ∃ i ∈ list, Full c phys low i) : type' ≠ cacheTypeUcMinus := by
  induction list generalizing type with
  | nil =>
    rcases some' with known | ⟨i, member, -⟩
    · rw [← Except.ok.inj equal]
      exact known
    · cases member
  | cons i list ih =>
    have later : ∀ j ∈ list, rangeType c j ≠ cacheTypeUcMinus :=
      fun j member => valid j (List.mem_cons_of_mem i member)
    by_cases cut : Cut c phys low i
    · rw [equalLoop_cut cut] at equal
      cases equal
    · by_cases full : Full c phys low i
      · rw [equalLoop_full full] at equal
        split at equal
        · cases equal
        · exact ih equal later (.inl (joinType_ne type (valid i List.mem_cons_self)))
      · rw [equalLoop_other cut full] at equal
        apply ih equal later
        rcases some' with known | ⟨j, member, is⟩
        · exact .inl known
        · rcases List.mem_cons.mp member with rfl | other
          · exact absurd is full
          · exact .inr ⟨j, other, is⟩

theorem equalLoop_none (none' : ∀ i ∈ list, ¬Full c phys low i) : type' = type := by
  induction list with
  | nil => exact (Except.ok.inj equal).symm
  | cons i list ih =>
    by_cases cut : Cut c phys low i
    · rw [equalLoop_cut cut] at equal
      cases equal
    · rw [equalLoop_other cut (none' i List.mem_cons_self)] at equal
      exact ih equal fun j member => none' j (List.mem_cons_of_mem i member)

theorem equalLoop_uncut : ∀ i ∈ list, ¬Cut c phys low i := by
  induction list generalizing type with
  | nil => exact fun i member => absurd member List.not_mem_nil
  | cons i list ih =>
    by_cases cut : Cut c phys low i
    · rw [equalLoop_cut cut] at equal
      cases equal
    · have later : ∃ t, equalLoop c phys low list t = .ok type' := by
        by_cases full : Full c phys low i
        · rw [equalLoop_full full] at equal
          split at equal
          · cases equal
          · exact ⟨_, equal⟩
        · rw [equalLoop_other cut full] at equal
          exact ⟨_, equal⟩
      obtain ⟨t, rest⟩ := later
      intro j member
      rcases List.mem_cons.mp member with rfl | other
      · exact cut
      · exact ih rest j other

end

variable {pass : Bool}

def Sound (c : CacheRegs) (phys : Word) (k : Nat) : Prop :=
  ∀ pass, mtrrTypeEqual phys c pass (lowMask 64 k) = true →
    ∀ x : Word, phys.toNat ≤ x.toNat → x.toNat < phys.toNat + 2 ^ k → getMtrrType x c pass = getMtrrType phys c pass

def Forced (c : CacheRegs) (x : Word) : Prop :=
  x ≥ 0x100000000 ∧ c.syscfg &&& tom2ForceMemTypeWbBit ≠ 0 ∧ x < c.topMem2 &&& topMem2AddrMask

def Refused (c : CacheRegs) (phys low : Word) : Prop :=
  c.mtrrDefType &&& defTypeEBit = 0 ∨
  (c.mtrrDefType &&& defTypeFeBit ≠ 0 ∧ (phys ≤ 0xFFFFF ∨ phys ≤ low)) ∨
  (∃ i < gmtrrVcnt, Cut c phys low i) ∨
  ((∀ i < gmtrrVcnt, ¬Full c phys low i) ∧ Forced c phys ∧ ¬phys ||| low < c.topMem2 &&& topMem2AddrMask)

def Straddles (c : CacheRegs) (phys low : Word) : Prop :=
  phys < 0x100000000 ∧ phys ||| low ≥ 0x100000000 ∧ c.syscfg &&& tom2ForceMemTypeWbBit ≠ 0 ∧
    0x100000000 < c.topMem2 &&& topMem2AddrMask

def Clear (c : CacheRegs) (phys low : Word) : Prop :=
  Refused c phys low ∨
    (∀ i < gmtrrVcnt, ¬Missed c phys low i) ∧ ((∃ i < gmtrrVcnt, Full c phys low i) ∨ ¬Straddles c phys low)

instance : Decidable (Forced c x) := inferInstanceAs (Decidable (_ ∧ _))
instance : Decidable (Refused c phys low) := inferInstanceAs (Decidable (_ ∨ _))
instance : Decidable (Straddles c phys low) := inferInstanceAs (Decidable (_ ∧ _))
instance : Decidable (Clear c phys low) := inferInstanceAs (Decidable (_ ∨ _))

section

variable (on : c.mtrrDefType &&& defTypeEBit ≠ 0)
include on

section

variable (high : ¬(c.mtrrDefType &&& defTypeFeBit ≠ 0 ∧ x ≤ 0xFFFFF))
include high

theorem getMtrrType_error
    (is : typeLoop c x (List.range gmtrrVcnt) cacheTypeUcMinus = .error type) : getMtrrType x c pass = type := by
  rw [getMtrrType, if_neg on, if_neg high, is]

theorem getMtrrType_ok (is : typeLoop c x (List.range gmtrrVcnt) cacheTypeUcMinus = .ok type) :
    getMtrrType x c pass = if type ≠ cacheTypeUcMinus then type else defaultType c x := by
  rw [getMtrrType, if_neg on, if_neg high, is]

end

variable (high : ¬(c.mtrrDefType &&& defTypeFeBit ≠ 0 ∧ (phys ≤ 0xFFFFF ∨ phys ≤ low)))
include high

theorem mtrrTypeEqual_error {result : Bool}
    (is : equalLoop c phys low (List.range gmtrrVcnt) cacheTypeUcMinus = .error result) :
    mtrrTypeEqual phys c pass low = result := by
  rw [mtrrTypeEqual, if_neg on, if_neg high, is]

theorem mtrrTypeEqual_ok (is : equalLoop c phys low (List.range gmtrrVcnt) cacheTypeUcMinus = .ok type) :
    mtrrTypeEqual phys c pass low = true ↔
      type = cacheTypeUcMinus → Forced c phys → phys ||| low < c.topMem2 &&& topMem2AddrMask := by
  rw [mtrrTypeEqual, if_neg on, if_neg high, is]
  simp only
  by_cases known : type ≠ cacheTypeUcMinus
  · rw [if_pos known]
    exact ⟨fun _ unknown => absurd unknown known, fun _ => rfl⟩
  · rw [if_neg known]
    by_cases forced : Forced c phys
    · rw [if_pos (show phys ≥ 0x100000000 ∧ _ from forced), decide_eq_true_eq]
      exact ⟨fun whole _ _ => whole, fun whole => whole (not_not.mp known) forced⟩
    · rw [if_neg (show ¬(phys ≥ 0x100000000 ∧ _) from forced)]
      exact ⟨fun _ _ is => absurd is forced, fun _ => rfl⟩

end

theorem not_low (high : ¬(c.mtrrDefType &&& defTypeFeBit ≠ 0 ∧ (phys ≤ 0xFFFFF ∨ phys ≤ low))) (above : phys ≤ x) :
    ¬(c.mtrrDefType &&& defTypeFeBit ≠ 0 ∧ x ≤ 0xFFFFF) :=
  fun both => high ⟨both.1, .inl (BitVec.le_trans above both.2)⟩

theorem defaultType_eq (same : Forced c x ↔ Forced c phys) : defaultType c x = defaultType c phys := by
  rw [defaultType, defaultType]
  exact if_congr same rfl rfl

theorem forced_iff (inside : InBlock low phys x) (apart : ¬Straddles c phys low)
    (whole : Forced c phys → phys ||| low < c.topMem2 &&& topMem2AddrMask) : Forced c x ↔ Forced c phys := by
  have above := inside.first_le
  have below := inside.le_last
  constructor
  · rintro ⟨high, flag, inTom2⟩
    refine ⟨?_, flag, Nat.lt_of_le_of_lt above inTom2⟩
    by_contra under
    have under' : phys < 0x100000000 := BitVec.not_le.mp under
    exact apart ⟨under', BitVec.le_trans high below, flag, Nat.lt_of_le_of_lt high inTom2⟩
  · intro forced
    exact ⟨BitVec.le_trans forced.1 above, forced.2.1, Nat.lt_of_le_of_lt below (whole forced)⟩

theorem sound_of_clear (valid : ∀ i < gmtrrVcnt, rangeType c i ≠ cacheTypeUcMinus)
    (aligned : phys &&& lowMask 64 k = 0) (clear : Clear c phys (lowMask 64 k)) : Sound c phys k := by
  intro pass equal x above below
  have inside := (inBlock_lowMask aligned).mpr ⟨above, below⟩
  have first := inside.first
  by_cases on : c.mtrrDefType &&& defTypeEBit = 0
  · rw [mtrrTypeEqual, if_pos on] at equal
    cases equal
  by_cases high : c.mtrrDefType &&& defTypeFeBit ≠ 0 ∧ (phys ≤ 0xFFFFF ∨ phys ≤ lowMask 64 k)
  · rw [mtrrTypeEqual, if_neg on, if_pos high] at equal
    cases equal
  have highX := not_low high inside.first_le
  have highPhys := not_low high (BitVec.le_refl phys)
  cases loop : equalLoop c phys (lowMask 64 k) (List.range gmtrrVcnt) cacheTypeUcMinus with
  | error result =>
    rw [mtrrTypeEqual_error on high loop] at equal
    rw [equal] at loop
    rw [getMtrrType_error on highX (typeLoop_of_true inside loop _),
      getMtrrType_error on highPhys (typeLoop_of_true first loop _)]
  | ok type =>
    rw [mtrrTypeEqual_ok on high loop] at equal
    have uncut := equalLoop_uncut loop
    have none' : ∀ missing : ∀ i < gmtrrVcnt, ¬Full c phys (lowMask 64 k) i, type = cacheTypeUcMinus :=
      fun missing => equalLoop_none loop fun i member => missing i (List.mem_range.mp member)
    have clear' : (∀ i < gmtrrVcnt, ¬Missed c phys (lowMask 64 k) i) ∧
        ((∃ i < gmtrrVcnt, Full c phys (lowMask 64 k) i) ∨ ¬Straddles c phys (lowMask 64 k)) := by
      rcases clear with (off | isLow | ⟨i, bound, cut⟩ | ⟨missing, forced, past⟩) | clear
      · exact absurd off on
      · exact absurd isLow high
      · exact absurd cut (uncut i (List.mem_range.mpr bound))
      · exact absurd (equal (none' missing) forced) past
      · exact clear
    obtain ⟨seen, full⟩ := clear'
    have loopX := typeLoop_of_ok inside loop fun i member hits cut =>
      full_of_hits inside hits cut (seen i (List.mem_range.mp member))
    have loopPhys := typeLoop_of_ok first loop fun i _ hits cut => full_of_hits_first hits cut
    rw [getMtrrType_ok on highX loopX, getMtrrType_ok on highPhys loopPhys]
    by_cases known : type ≠ cacheTypeUcMinus
    · rw [if_pos known, if_pos known]
    · rw [if_neg known, if_neg known]
      have apart : ¬Straddles c phys (lowMask 64 k) := by
        rcases full with ⟨i, bound, is⟩ | apart
        · exact absurd (equalLoop_ne loop (fun j member => valid j (List.mem_range.mp member))
            (.inr ⟨i, List.mem_range.mpr bound, is⟩)) known
        · exact apart
      apply defaultType_eq
      exact forced_iff inside apart (equal (not_not.mp known))

end DisasVisor.Cache
