import DisasVisor.CpuMmu.WalkSteps

/-!
`cpu_mmu_get_pte` walks as a processor does: the outcome and the memory are the same.
-/

namespace DisasVisor.CpuMmu

open Function Mm

variable {p : Paging} {a : Access} {d : GetPteData} {e e' table : Word} {level fuel : Nat} {m : Pmap}
  {memory : GuestMemory} {entries : Nat → Word} {r : Vmmerr}

def simplified (p : Paging) (level : Nat) (e : Word) : Word :=
  if p.format = .pae ∧ level = 3 then e ||| (pdeRwBit ||| pdeUsBit ||| pdeABit) else e

theorem top_bit (lowBits : 32 ≤ p.nbits) (highBits : p.nbits ≤ 48)
    (fine : e &&& Format.pae.reserved p.nbits p.nxe 3 e = 0) : e.getLsbD 63 = false ∧ e.getLsbD 7 = false := by
  rw [and_eq_zero_iff] at fine
  simp only [Format.reserved, if_true, BitVec.getLsbD_or,
    bits_getLsbD (show 1 ≤ 2 by omega) (show 2 < 64 by omega),
    bits_getLsbD (show 5 ≤ 8 by omega) (show 8 < 64 by omega),
    bits_getLsbD (show p.nbits ≤ 63 by omega) (show 63 < 64 by omega)] at fine
  refine ⟨fine 63 (by omega) ?_, fine 7 (by omega) (by simp)⟩
  rw [decide_eq_true (show p.nbits ≤ 63 ∧ 63 ≤ 63 by omega), Bool.or_true]

theorem check_none (goesOn : check p a level e = none) : e.getLsbD 0 = true ∧
    e &&& p.format.reserved p.nbits p.nxe level e = 0 ∧
      (p.format.entryRights p.nxe level e).denies p.wp a.write a.user a.exec = none := by
  unfold check at goesOn
  split_ifs at goesOn with absent found
  exact ⟨absent, not_not.mp found, goesOn⟩

theorem passChecks_check (suits : Suits d p a) (lowBits : 32 ≤ p.nbits) (highBits : p.nbits ≤ 48)
    (positive : 0 < level) (le : level ≤ p.format.levels)
    (small : p.format.levels = 2 → e < 0x100000000) :
    passChecks (getPteAddrMask p.nbits) d p.format.levels level e m memory =
      match check p a level e with
      | some r => some (.ret r, m, memory)
      | none => passAd d level (simplified p level e) m memory := by
  have test := reservedTest suits lowBits highBits positive le small
  unfold check simplified Format.entryRights
  by_cases top : p.format = .pae ∧ level = 3
  · obtain ⟨isPae, rfl⟩ := top
    have fullAccess : Rights.full.denies p.wp a.write a.user a.exec = none := by simp [Rights.denies, Rights.full]
    rw [isPae] at test ⊢
    rw [show Format.pae.levels = 3 from rfl, passChecks_top test fun fine =>
      (top_bit lowBits highBits (by simpa using fine)).1]
    simp only [and_self, if_true, fullAccess, decide_eq_true_eq]
    split_ifs <;> rfl
  · have notTop : ¬(p.format.levels = 3 ∧ level = 3) := by
      rintro ⟨three, isThree⟩
      refine top ⟨?_, isThree⟩
      cases isFormat : p.format with
      | bits32 pse => exact absurd (isFormat ▸ three) (by simp [Format.levels])
      | pae => rfl
      | long => exact absurd (isFormat ▸ three) (by simp [Format.levels])
    rw [passChecks_eq suits test notTop]
    simp only [if_neg top, decide_eq_true_eq]
    split_ifs <;> rfl

structure AtTable (p : Paging) (virt table : Word) (level : Nat) (m : Pmap) : Prop where
  levels : m.levels = p.format.levels
  curaddr : m.curaddr = virt
  readlevel : m.readlevel = level
  present : (m.entry level).getLsbD 0 = true
  link : level ≤ 2 → (m.entry level).getLsbD 7 = false
  address : pmapEntryaddr p.format.levels (level - 1) (m.entry level) virt = p.format.entryAddress level table virt

structure HasRead (p : Paging) (virt : Word) (level : Nat) (e : Word) (m : Pmap) : Prop where
  levels : m.levels = p.format.levels
  curaddr : m.curaddr = virt
  readlevel : m.readlevel = level
  entry : m.entry level = e

section

variable (suits : Suits d p a) (lowBits : 32 ≤ p.nbits) (highBits : p.nbits ≤ 48)
  (le : level + 1 ≤ p.format.levels) (at' : AtTable p a.virt table (level + 1) m)
include suits lowBits highBits le at'

omit suits lowBits highBits le in
theorem AtTable.read (address : Word) (isAddress : p.format.entryAddress (level + 1) table a.virt = address) :
    pmapReadGuest (pmapSetlevel m (level + 1)) memory =
      if memory.plain address then
        some (narrow p.format.levels (memory.tables address),
          readTo m level address (narrow p.format.levels (memory.tables address)), memory)
      else none := by
  have read := @read_below level m memory at'.readlevel at'.present fun low => at'.link (by omega)
  rw [at'.levels, at'.curaddr] at read
  have here := at'.address
  rw [Nat.add_sub_cancel, isAddress] at here
  rw [here] at read
  exact read

theorem passLoop_fault (address : Word) (isAddress : p.format.entryAddress (level + 1) table a.virt = address)
    (plain : memory.plain address = true)
    (stops : check p a (level + 1) (narrow p.format.levels (memory.tables address)) = some r) :
    ∃ m', passLoop (getPteAddrMask p.nbits) d p.format.levels (level + 1) (fuel + 1)
      (pmapSetlevel m (level + 1)) memory = some (.ret r, m', memory) := by
  have read := @AtTable.read p a table level m memory at' address isAddress
  rw [if_pos plain] at read
  have checks := @passChecks_check p a d (narrow p.format.levels (memory.tables address)) (level + 1)
    (readTo m level address (narrow p.format.levels (memory.tables address))) memory suits lowBits
    highBits (Nat.succ_pos level) le narrow_fits
  rw [stops] at checks
  refine ⟨_, passLoop_next fuel read checks ?_⟩
  rintro _ rfl
  simp

omit suits lowBits highBits le at' in
/-- The entry of a large page of 32-bit entries is one that `get_pte_sub` treats as a processor
does: large pages are in use, and it is below 64 GiB and where there can be memory. -/
def NearPage (p : Paging) (e : Word) : Prop :=
  e.getLsbD 7 = true → p.format = .bits32 true ∧ ∀ i, min 36 p.nbits ≤ i → i < 40 → e.getLsbD (i - 19) = false

omit lowBits highBits at' in
theorem setd_eq (notTop : ¬(p.format = .pae ∧ level + 1 = 3))
    (near : p.format.levels = 2 → level + 1 = 2 → NearPage p e) :
    (if (level + 1 = 2 ∧ e.getLsbD 7) ∨ level + 1 = 1 ∨ (level + 1 = 3 ∧ e.getLsbD 7) then d.write
      else false) = decide (p.format.MapsPage (level + 1) e ∧ a.write) := by
  have same : ((level + 1 = 2 ∧ e.getLsbD 7) ∨ level + 1 = 1 ∨ (level + 1 = 3 ∧ e.getLsbD 7)) ↔
      p.format.MapsPage (level + 1) e := by
    unfold Format.MapsPage
    constructor
    · rintro (⟨isTwo, large⟩ | isOne | ⟨isThree, large⟩)
      · refine .inr (.inl ⟨isTwo, ?_, large⟩)
        intro small
        have isNear := (near (by rw [small]; rfl) isTwo large).1
        rw [small] at isNear
        cases isNear
      · exact .inl isOne
      · refine .inr (.inr ⟨isThree, ?_, large⟩)
        cases isFormat : p.format with
        | bits32 pse =>
          rw [isFormat] at le
          exact absurd le (by simp only [Format.levels]; omega)
        | pae => exact absurd ⟨isFormat, isThree⟩ notTop
        | long => rfl
    · rintro (isOne | ⟨isTwo, -, large⟩ | ⟨isThree, -, large⟩)
      · exact .inr (.inl isOne)
      · exact .inl ⟨isTwo, large⟩
      · exact .inr (.inr ⟨isThree, large⟩)
  simp only [same, suits.write]
  by_cases maps : p.format.MapsPage (level + 1) e
  · simp [maps]
  · simp [maps]

variable (address : Word) (isAddress : p.format.entryAddress (level + 1) table a.virt = address)
  (plain : memory.plain address = true) (isEntry : narrow p.format.levels (memory.tables address) = e)
  (goesOn : check p a (level + 1) e = none)
include address isAddress plain isEntry goesOn

theorem passLoop_used (notTop : ¬(p.format = .pae ∧ level + 1 = 3))
    (near : p.format.levels = 2 → level + 1 = 2 → NearPage p e) :
    ∃ m', passLoop (getPteAddrMask p.nbits) d p.format.levels (level + 1) (fuel + 1)
        (pmapSetlevel m (level + 1)) memory =
      some (.next (e ||| p.format.usedBits a.write (level + 1) e), m',
        setBits memory address (p.format.usedBits a.write (level + 1) e)) ∧
      HasRead p a.virt level (e ||| p.format.usedBits a.write (level + 1) e) m' := by
  have read := @AtTable.read p a table level m memory at' address isAddress
  rw [if_pos plain, isEntry] at read
  have small : p.format.levels = 2 → e < 0x100000000 := fun two => isEntry ▸ narrow_fits two
  have checks := @passChecks_check p a d e (level + 1) (readTo m level address e) memory suits lowBits
    highBits (Nat.succ_pos level) le small
  have harmless : level + 1 = 2 → d.pse = false → e.getLsbD 7 = false := by
    intro isTwo off
    rw [suits.pse, decide_eq_false_iff_not, not_not] at off
    by_contra large
    have isNear := (near (by rw [off]; rfl) isTwo (by simpa using large)).1
    rw [off] at isNear
    cases isNear
  have bits := @setAdBit_used (readTo m level address e) memory (decide (p.format.MapsPage (level + 1) e ∧ a.write)) (Nat.le_refl _)
    (by simpa [readTo] using plain) (by simp [readTo, at'.levels, isEntry])
  have isUsed : used (decide (p.format.MapsPage (level + 1) e ∧ a.write)) =
      p.format.usedBits a.write (level + 1) e := by
    unfold used Format.usedBits
    rw [if_neg notTop]
    simp only [decide_eq_true_eq]
  have atLevel : (readTo m level address e).entry (readTo m level address e).curlevel = e := update_self _ _ _
  have atAddress : (readTo m level address e).entryaddr (readTo m level address e).curlevel =
      address := update_self _ _ _
  rw [isUsed, atLevel, atAddress] at bits
  rw [goesOn] at checks
  simp only [simplified, if_neg notTop, passAd_eq harmless,
    setd_eq suits le notTop near, bits] at checks
  refine ⟨_, passLoop_next fuel read checks (by rintro _ rfl; simp), ?_⟩
  exact ⟨at'.levels, at'.curaddr, rfl, update_self _ _ _⟩

theorem passLoop_top (top : p.format = .pae ∧ level + 1 = 3) :
    ∃ m', passLoop (getPteAddrMask p.nbits) d p.format.levels (level + 1) (fuel + 1)
        (pmapSetlevel m (level + 1)) memory =
      some (.next (e ||| (pdeRwBit ||| pdeUsBit ||| pdeABit)), m', memory) ∧
      HasRead p a.virt level e m' := by
  have read := @AtTable.read p a table level m memory at' address isAddress
  rw [if_pos plain, isEntry] at read
  have small : p.format.levels = 2 → e < 0x100000000 := fun two => isEntry ▸ narrow_fits two
  have checks := @passChecks_check p a d e (level + 1) (readTo m level address e) memory suits lowBits
    highBits (Nat.succ_pos level) le small
  have fine := (check_none goesOn).2.1
  rw [top.1, top.2] at fine
  have large := (top_bit lowBits highBits fine).2
  have harmless : level + 1 = 2 → d.pse = false →
      (e ||| (pdeRwBit ||| pdeUsBit ||| pdeABit)).getLsbD 7 = false := fun isTwo => by omega
  have notLarge : (e ||| (pdeRwBit ||| pdeUsBit ||| pdeABit)).getLsbD 7 = false := by
    rw [BitVec.getLsbD_or, large]
    decide
  have hasA : (e ||| (pdeRwBit ||| pdeUsBit ||| pdeABit)).getLsbD 5 = true := by
    rw [BitVec.getLsbD_or, show (pdeRwBit ||| pdeUsBit ||| pdeABit).getLsbD 5 = true by decide, Bool.or_true]
  have done := @setAdBit_done (e ||| (pdeRwBit ||| pdeUsBit ||| pdeABit)) (readTo m level address e)
    memory false hasA nofun
  have notLast : ¬((level + 1 = 2 ∧
      (e ||| (pdeRwBit ||| pdeUsBit ||| pdeABit)).getLsbD 7 = true) ∨ level + 1 = 1 ∨
        (level + 1 = 3 ∧ (e ||| (pdeRwBit ||| pdeUsBit ||| pdeABit)).getLsbD 7 = true)) := by
    rw [notLarge]
    simp
    omega
  rw [goesOn] at checks
  simp only [simplified, if_pos top, passAd_eq harmless, if_neg notLast, done] at checks
  refine ⟨_, passLoop_next fuel read checks (by rintro _ rfl; simp), ?_⟩
  exact ⟨at'.levels, at'.curaddr, rfl, update_self _ _ _⟩

end

theorem passLoop_part {levels : Nat} (suits : Suits d p a) (low : level ≤ 2)
    (pse : level = 2 → d.pse = true) (read : pmapReadGuest m memory = some (e, m, memory))
    (test : testPmapEntryReservedBit (getPteAddrMask p.nbits) d e level levels = some false)
    (present : e.getLsbD 0 = true) (allowed : (Rights.ofEntry p.nxe e).denies p.wp a.write a.user a.exec = none)
    (hasA : e.getLsbD 5 = true) (hasD : a.write = true → e.getLsbD 6 = true) :
    passLoop (getPteAddrMask p.nbits) d levels level (fuel + 1) m memory = some (.next e, m, memory) := by
  have harmless : level = 2 → d.pse = false → e.getLsbD 7 = false := by
    intro isTwo off
    rw [pse isTwo] at off
    cases off
  have checks := @passChecks_eq e levels level m memory d p a (getPteAddrMask p.nbits) false suits test (by omega)
  have hasBits : ∀ setd, (setd = true → a.write = true) →
      setAdBit m memory e true setd = some (false, e, m, memory) :=
    fun setd isWrite => setAdBit_done hasA fun isSet => hasD (isWrite isSet)
  rw [if_neg (not_not.mpr present), if_neg Bool.false_ne_true, allowed] at checks
  simp only [passAd_eq harmless] at checks
  rw [hasBits _ (by rw [suits.write]; split <;> simp)] at checks
  exact passLoop_next fuel read checks (by rintro _ rfl; simp)

structure AtLarge (p : Paging) (a : Access) (level : Nat) (e : Word) (m : Pmap) : Prop where
  read : HasRead p a.virt level e m
  present : e.getLsbD 0 = true
  large : e.getLsbD 7 = true
  allowed : (Rights.ofEntry p.nxe e).denies p.wp a.write a.user a.exec = none
  hasA : e.getLsbD 5 = true
  hasD : a.write = true → e.getLsbD 6 = true

theorem AtLarge.part_2m (at' : AtLarge p a 1 e m) :
    pmapReadGuest (pmapSetlevel m 1) memory =
      some (handlePdePsBit p.format.levels e a.virt, pmapSetlevel m 1, memory) := by
  have isPresent : ¬e &&& pdePBit = 0 := (and_bit_ne_zero (by omega) rfl).mpr at'.present
  have isLarge : e &&& pdePsBit ≠ 0 := ps_ne_zero.mpr at'.large
  have below : (pmapSetlevel m 1).readlevel - (pmapSetlevel m 1).curlevel = 1 := by
    simp only [pmapSetlevel, at'.read.readlevel]
  unfold pmapReadGuest
  rw [below, pmapReadGuestLoop]
  simp only [pmapSetlevel, at'.read.readlevel, at'.read.entry, at'.read.levels, at'.read.curaddr, if_neg isPresent]
  rw [if_neg (by omega), if_pos ⟨trivial, isLarge⟩]

theorem AtLarge.part_1g (at' : AtLarge p a 2 e m) (level : Nat) (low : level < 2) :
    pmapReadGuest (pmapSetlevel m (level + 1)) memory =
      some (if level = 0 then handlePdePsBit p.format.levels (pdeOfPdpe e a.virt) a.virt
        else pdeOfPdpe e a.virt, pmapSetlevel m (level + 1), memory) := by
  have isPresent : ¬e &&& pdePBit = 0 := (and_bit_ne_zero (by omega) rfl).mpr at'.present
  have isLarge : e &&& pdePsBit ≠ 0 := ps_ne_zero.mpr at'.large
  obtain ⟨below, isBelow⟩ : ∃ below, (pmapSetlevel m (level + 1)).readlevel -
      (pmapSetlevel m (level + 1)).curlevel = below + 1 := by
    refine ⟨1 - level, ?_⟩
    simp only [pmapSetlevel, at'.read.readlevel]
    omega
  unfold pmapReadGuest
  rw [isBelow, pmapReadGuestLoop]
  simp only [pmapSetlevel, at'.read.readlevel, at'.read.entry, at'.read.levels, at'.read.curaddr,
    if_neg isPresent, Nat.add_sub_cancel]
  rw [if_pos ⟨trivial, isLarge⟩]

def entriesRights (nxe : Bool) (entries : Nat → Word) : Nat → Rights
  | 0 => .full
  | level + 1 => (entriesRights nxe entries level).and (.ofEntry nxe (entries level))

def Agrees (p : Paging) (level : Nat) (entries : Nat → Word) (rights : Rights)
    (result : Option (Vmmerr × (Nat → Word) × GuestMemory)) :
    Option (Outcome × GuestMemory) → Prop
  | none => result = none
  | some (.fault r, memory) => ∃ entries', result = some (r, entries', memory)
  | some (.page frame rights', memory) => ∃ entries', result = some (.success, entries', memory) ∧
      entries' 0 &&& getPteAddrMask p.nbits = frame ∧
      rights' = rights.and (entriesRights p.nxe entries' level) ∧
      ∀ j, level ≤ j → entries' j = entries j

theorem Rights.and_comm (r s : Rights) : r.and s = s.and r := by
  simp [Rights.and, Bool.and_comm]

theorem Rights.and_assoc (r s t : Rights) : (r.and s).and t = r.and (s.and t) := by
  simp [Rights.and, Bool.and_assoc]

theorem Rights.full_and (r : Rights) : Rights.full.and r = r := by
  simp [Rights.and, Rights.full]

theorem Rights.and_self (r : Rights) : r.and r = r := by
  simp [Rights.and]

theorem levelLoop_next {levels : Nat} {mask : Word} {m' : Pmap} {memory' : GuestMemory}
    (pass : passLoop mask d levels (level + 1) fuel (pmapSetlevel m (level + 1)) memory =
      some (.next e, m', memory')) :
    levelLoop mask d fuel levels (level + 1) entries m memory =
      levelLoop mask d fuel levels level (update entries level e) m' memory' := by
  rw [levelLoop, pass]
  rfl

section

variable (suits : Suits d p a) (lowBits : 32 ≤ p.nbits) (highBits : p.nbits ≤ 48)
include suits lowBits highBits

theorem levelLoop_2m (at' : AtLarge p a 1 e m)
    (fine : p.format.levels ≠ 2 → e &&& p.format.reserved p.nbits p.nxe 2 e = 0)
    (near : p.format.levels = 2 → e < 0x100000000 ∧ NearPage p e) :
    levelLoop (getPteAddrMask p.nbits) d (fuel + 1) p.format.levels 1 entries m memory =
      some (.success, update entries 0 (handlePdePsBit p.format.levels e a.virt), memory) := by
  have same : SameFlags e (handlePdePsBit p.format.levels e a.virt) := sameFlags_handlePdePsBit fun two => (near two).1
  have test : testPmapEntryReservedBit (getPteAddrMask p.nbits) d
      (handlePdePsBit p.format.levels e a.virt) 1 p.format.levels = some false := by
    by_cases two : p.format.levels = 2
    · obtain ⟨small, isNear⟩ := near two
      obtain ⟨isFormat, bits⟩ := isNear at'.large
      rw [two]
      exact reservedTest_4m lowBits highBits (by simp [suits.pse, isFormat]) small bits
    · have none' := @reserved_handlePdePsBit e a.virt p.nbits p.format two lowBits highBits p.nxe (fine two)
      rw [reservedTest suits lowBits highBits Nat.one_pos (by
        cases p.format <;> simp [Format.levels]) fun isTwo => absurd isTwo two, none']
      simp
  have read : pmapReadGuest (pmapSetlevel m 1) memory = some
    (handlePdePsBit p.format.levels e a.virt, pmapSetlevel m 1, memory) := at'.part_2m
  have pass := @passLoop_part p a d _ 1 fuel _ memory _ suits (Nat.le_succ 1) (by omega) read test
    ((same 0 (by omega)).trans at'.present) (by rw [ofEntry_sameFlags same]; exact at'.allowed)
    ((same 5 (by omega)).trans at'.hasA) fun isWrite => (same 6 (by omega)).trans (at'.hasD isWrite)
  rw [levelLoop_next pass]
  rfl

theorem levelLoop_1g (isLong : p.format = .long) (at' : AtLarge p a 2 e m)
    (fine : e &&& Format.long.reserved p.nbits p.nxe 3 e = 0) :
    levelLoop (getPteAddrMask p.nbits) d (fuel + 1) p.format.levels 2 entries m memory =
      some (.success, update (update entries 1 (pdeOfPdpe e a.virt)) 0
        (handlePdePsBit p.format.levels (pdeOfPdpe e a.virt) a.virt), memory) := by
  have wide : p.format.levels ≠ 2 := by
    rw [isLong]
    decide
  have four : p.format.levels = 4 := by
    rw [isLong]
    rfl
  have same : SameFlags e (pdeOfPdpe e a.virt) := sameFlags_pdeOfPdpe
  have same' : SameFlags e (handlePdePsBit p.format.levels (pdeOfPdpe e a.virt) a.virt) :=
    same.trans (sameFlags_handlePdePsBit fun two => absurd two wide)
  have fine2 : pdeOfPdpe e a.virt &&& p.format.reserved p.nbits p.nxe 2 (pdeOfPdpe e a.virt) = 0 := by
    rw [isLong]
    exact reserved_pdeOfPdpe lowBits highBits at'.large fine
  have fine1 := @reserved_handlePdePsBit (pdeOfPdpe e a.virt) a.virt p.nbits p.format wide lowBits highBits p.nxe fine2
  have test : ∀ {level e}, 0 < level → level ≤ 2 →
      e &&& p.format.reserved p.nbits p.nxe level e = 0 →
        testPmapEntryReservedBit (getPteAddrMask p.nbits) d e level p.format.levels = some false := by
    intro level e positive low none'
    rw [reservedTest suits lowBits highBits positive (by omega) fun two => absurd two wide, none']
    simp
  have isPse : d.pse = true := by simp [suits.pse, isLong]
  have upperRead : pmapReadGuest (pmapSetlevel m 2) memory = some
    (pdeOfPdpe e a.virt, pmapSetlevel m 2, memory) := at'.part_1g 1 (by omega)
  have upper := @passLoop_part p a d _ 2 fuel _ memory _ suits (Nat.le_refl 2) (fun _ => isPse)
    upperRead (test (by omega) (by omega) fine2) ((same 0 (by omega)).trans at'.present)
    (by rw [ofEntry_sameFlags same]; exact at'.allowed) ((same 5 (by omega)).trans at'.hasA)
    fun isWrite => (same 6 (by omega)).trans (at'.hasD isWrite)
  have again : AtLarge p a 2 e (pmapSetlevel m 2) :=
    ⟨⟨at'.read.levels, at'.read.curaddr, at'.read.readlevel, at'.read.entry⟩, at'.present, at'.large,
      at'.allowed, at'.hasA, at'.hasD⟩
  have lowerRead : pmapReadGuest (pmapSetlevel (pmapSetlevel m 2) 1) memory = some
    (handlePdePsBit p.format.levels (pdeOfPdpe e a.virt) a.virt,
      pmapSetlevel (pmapSetlevel m 2) 1, memory) := again.part_1g 0 (by omega)
  have lower := @passLoop_part p a d _ 1 fuel _ memory _ suits (Nat.le_succ 1) (by omega) lowerRead
    (test (by omega) (by omega) fine1) ((same' 0 (by omega)).trans at'.present)
    (by rw [ofEntry_sameFlags same']; exact at'.allowed) ((same' 5 (by omega)).trans at'.hasA)
    fun isWrite => (same' 6 (by omega)).trans (at'.hasD isWrite)
  rw [levelLoop_next upper, levelLoop_next lower]
  rfl

end

end DisasVisor.CpuMmu
