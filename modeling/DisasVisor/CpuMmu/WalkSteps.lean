import DisasVisor.CpuMmu.WalkEntries

/-!
One pass of the loop of `get_pte_sub`: what is read, which checks fail, and what is written.
-/

namespace DisasVisor.CpuMmu

open Function Mm

variable {e virt phys : Word} {levels level : Nat} {m : Pmap} {memory : GuestMemory} {d : GetPteData} {write : Bool}

theorem ps_ne_zero : e &&& pdePsBit ≠ 0 ↔ e.getLsbD 7 = true := and_bit_ne_zero (by omega) rfl

theorem narrow_narrow : narrow levels (narrow levels e) = narrow levels e := by
  unfold narrow
  by_cases two : levels = 2
  · simp [two]
  · simp [two]

theorem narrow_getLsbD (i : Nat) (low : i < 32) : (narrow levels e).getLsbD i = e.getLsbD i := by
  unfold narrow
  split
  · simp [low, show i < 64 by omega]
  · rfl

theorem narrow_small : narrow 2 e < 0x100000000 := by
  have bound := (e.setWidth 32).isLt
  rw [narrow, if_pos rfl]
  change (BitVec.setWidth 64 (e.setWidth 32)).toNat < 2 ^ 32
  rw [BitVec.toNat_setWidth, Nat.mod_eq_of_lt (by omega)]
  exact bound

theorem narrow_fits (two : levels = 2) : narrow levels e < 0x100000000 := by
  subst two
  exact narrow_small

theorem stored_or {old flags : Word} (small : flags < 0x100000000) :
    stored levels old (narrow levels old ||| flags) = old ||| flags := by
  unfold stored
  by_cases two : levels = 2
  · subst two
    rw [if_pos rfl]
    apply BitVec.eq_of_getLsbD_eq
    intro i bound
    have mask : (0xFFFFFFFF : Word) = bits 0 31 := by decide
    simp only [mask, BitVec.getLsbD_or, BitVec.getLsbD_and, BitVec.getLsbD_not, bound, decide_true,
      Bool.true_and, bits_getLsbD (show 0 ≤ 31 by omega) (show 31 < 64 by omega)]
    by_cases low : i < 32
    · rw [narrow_getLsbD i low, decide_eq_true (show 0 ≤ i ∧ i ≤ 31 by omega)]
      simp
    · rw [high_bit small (by omega), decide_eq_false (show ¬(0 ≤ i ∧ i ≤ 31) by omega)]
      simp
  · simp [two, narrow]

theorem stored_zero {old : Word} (zero : narrow levels old = 0) : stored levels old 0 = old := by
  have same := @stored_or levels old 0 (by decide)
  simpa [zero] using same

theorem pmapRdGuest_eq : pmapRdGuest levels memory phys =
    if memory.plain phys then some (narrow levels (memory.tables phys), memory) else none := by
  have none' : narrow levels 0 = 0 := by
    unfold narrow
    split <;> rfl
  unfold pmapRdGuest cmpxchgGphys
  by_cases plain : memory.plain phys = true
  · simp only [plain, if_true, none']
    by_cases zero : narrow levels (memory.tables phys) = 0
    · rw [if_pos zero, stored_zero zero, Function.update_eq_self, zero]
      rfl
    · rw [if_neg zero]
      rfl
  · simp [plain]

def readTo (m : Pmap) (level : Nat) (phys e : Word) : Pmap :=
  { m with
    curlevel := level, readlevel := level
    entryaddr := update m.entryaddr level phys
    entry := update m.entry level e }

theorem read_below (reads : m.readlevel = level + 1) (present : (m.entry (level + 1)).getLsbD 0 = true)
    (link : level ≤ 1 → (m.entry (level + 1)).getLsbD 7 = false) :
    pmapReadGuest (pmapSetlevel m (level + 1)) memory =
      let phys := pmapEntryaddr m.levels level (m.entry (level + 1)) m.curaddr
      if memory.plain phys then
        some (narrow m.levels (memory.tables phys), readTo m level phys (narrow m.levels (memory.tables phys)), memory)
      else none := by
  have isPresent : ¬m.entry (level + 1) &&& pdePBit = 0 := (and_bit_ne_zero (by omega) rfl).mpr present
  have notPdpe : ¬(level + 1 = 2 ∧ m.entry (level + 1) &&& pdePsBit ≠ 0) := by
    rintro ⟨isTwo, large⟩
    rw [ps_ne_zero, link (by omega)] at large
    cases large
  have notPde : ¬(level + 1 = 1 ∧ m.entry (level + 1) &&& pdePsBit ≠ 0) := by
    rintro ⟨isOne, large⟩
    rw [ps_ne_zero, link (by omega)] at large
    cases large
  have below : (pmapSetlevel m (level + 1)).readlevel - (pmapSetlevel m (level + 1)).curlevel = 1 := by
    simp only [pmapSetlevel, reads]
    omega
  unfold pmapReadGuest
  rw [below, pmapReadGuestLoop]
  simp only [pmapSetlevel, reads, if_neg isPresent, if_neg notPdpe, if_neg notPde, Nat.add_sub_cancel, pmapRdGuest_eq]
  by_cases plain : memory.plain (pmapEntryaddr m.levels level (m.entry (level + 1)) m.curaddr) = true
  · simp only [plain, if_true, pmapReadGuestLoop, update_self]
    rfl
  · simp [plain]

theorem pmapWriteEntry_all (m : Pmap) (e : Word) : pmapWriteEntry m e 0xFFF = e := by
  have all : (~~~0xFFF : Word) ||| 0xFFF = BitVec.allOnes 64 := by decide
  have none' : (if m.levels = 3 ∧ m.curlevel = 2 then (0 : Word)
      else if m.curlevel = 0 then pteRwBit ||| pteUsBit ||| pteABit ||| pteDBit
      else pteRwBit ||| pteUsBit ||| pteABit) &&& ~~~0xFFF = 0 := by
    split
    · decide
    · split <;> decide
  simp only [pmapWriteEntry, all, none', BitVec.and_allOnes]
  exact BitVec.or_zero

theorem pmapWriteGuest_or {flags : Word} (small : flags < 0x100000000)
    (here : m.readlevel ≤ m.curlevel) (plain : memory.plain (m.entryaddr m.curlevel) = true)
    (isEntry : m.entry m.curlevel = narrow m.levels (memory.tables (m.entryaddr m.curlevel))) :
    pmapWriteGuest m memory (m.entry m.curlevel ||| flags) 0xFFF =
      some (false, { m with
          entry := update m.entry m.curlevel (m.entry m.curlevel ||| flags) },
        setBits memory (m.entryaddr m.curlevel) flags) := by
  unfold pmapWriteGuest cmpxchgGphys
  rw [if_pos here]
  simp only [plain, if_true, pmapWriteEntry_all, isEntry, narrow_narrow, stored_or small]
  rfl

def missing (e : Word) (setd : Bool) : Word :=
  (if e.getLsbD 5 then 0 else pdeABit) ||| (if setd && !e.getLsbD 6 then pdeDBit else 0)

def used (setd : Bool) : Word := if setd then bits 5 6 else bits 5 5

theorem missing_getLsbD (setd : Bool) (i : Nat) : (missing e setd).getLsbD i =
    ((decide (i = 5) && !e.getLsbD 5) || (decide (i = 6) && setd && !e.getLsbD 6)) := by
  have isA : ∀ i, pdeABit.getLsbD i = decide (i = 5) := fun i =>
    (bits_getLsbD (Nat.le_refl 5) (by omega)).trans (decide_eq_decide.mpr (by omega))
  have isD : ∀ i, pdeDBit.getLsbD i = decide (i = 6) := fun i =>
    (bits_getLsbD (Nat.le_refl 6) (by omega)).trans (decide_eq_decide.mpr (by omega))
  unfold missing
  cases e.getLsbD 5 <;> cases setd <;> cases e.getLsbD 6 <;> simp [isA, isD]

theorem used_getLsbD (setd : Bool) (i : Nat) :
    (used setd).getLsbD i = (decide (i = 5) || (decide (i = 6) && setd)) := by
  unfold used
  cases setd with
  | false =>
    rw [if_neg Bool.false_ne_true, bits_getLsbD (by omega) (by omega), Bool.and_false, Bool.or_false]
    exact decide_eq_decide.mpr (by omega)
  | true =>
    rw [if_pos rfl, bits_getLsbD (by omega) (by omega), Bool.and_true, ← Bool.decide_or]
    exact decide_eq_decide.mpr (by omega)

theorem or_missing {w : Word} (setd : Bool) (sameA : w.getLsbD 5 = e.getLsbD 5)
    (sameD : w.getLsbD 6 = e.getLsbD 6) : w ||| missing e setd = w ||| used setd := by
  apply BitVec.eq_of_getLsbD_eq
  intro i bound
  rw [BitVec.getLsbD_or, BitVec.getLsbD_or, missing_getLsbD, used_getLsbD, ← sameA, ← sameD]
  by_cases atA : i = 5
  · subst atA
    cases w.getLsbD 5 <;> rfl
  · by_cases atD : i = 6
    · subst atD
      cases w.getLsbD 6 <;> cases setd <;> rfl
    · rw [decide_eq_false atA, decide_eq_false atD]
      rfl

theorem missing_small (setd : Bool) : missing e setd < 0x100000000 := by
  unfold missing
  generalize e.getLsbD 5 = hasA
  generalize e.getLsbD 6 = hasD
  revert hasA hasD setd
  decide

theorem setAdBit_eq (setd : Bool) : setAdBit m memory e true setd =
    if missing e setd = 0 then some (false, e, m, memory)
    else (pmapWriteGuest m memory (e ||| missing e setd) 0xFFF).map
      fun (fail, m, memory) => (fail, e ||| missing e setd, m, memory) := by
  have hasA : e &&& pdeABit ≠ 0 ↔ e.getLsbD 5 = true := and_bit_ne_zero (by omega) rfl
  have hasD : e &&& pdeDBit ≠ 0 ↔ e.getLsbD 6 = true := and_bit_ne_zero (by omega) rfl
  have notA : ¬pdeABit = 0#64 := by decide
  have notD : ¬pdeDBit = 0#64 := by decide
  unfold setAdBit missing
  simp only [hasA, hasD]
  cases e.getLsbD 5 <;> cases e.getLsbD 6 <;> cases setd <;>
    simp [notA, notD, BitVec.or_assoc]

theorem setAdBit_done {setd : Bool} (hasA : e.getLsbD 5 = true) (hasD : setd = true → e.getLsbD 6 = true) :
    setAdBit m memory e true setd = some (false, e, m, memory) := by
  have none' : missing e setd = 0 := by
    unfold missing
    cases setd with
    | false => simp [hasA]
    | true => simp [hasA, hasD rfl]
  rw [setAdBit_eq, if_pos none']

theorem setAdBit_used (setd : Bool) (here : m.readlevel ≤ m.curlevel)
    (plain : memory.plain (m.entryaddr m.curlevel) = true)
    (isEntry : m.entry m.curlevel = narrow m.levels (memory.tables (m.entryaddr m.curlevel))) :
    setAdBit m memory (m.entry m.curlevel) true setd =
      some (false, m.entry m.curlevel ||| used setd, { m with
          entry := update m.entry m.curlevel (m.entry m.curlevel ||| used setd) },
        setBits memory (m.entryaddr m.curlevel) (used setd)) := by
  have inEntry : m.entry m.curlevel ||| missing (m.entry m.curlevel) setd =
      m.entry m.curlevel ||| used setd := or_missing setd rfl rfl
  have inMemory : memory.tables (m.entryaddr m.curlevel) ||| missing (m.entry m.curlevel) setd =
      memory.tables (m.entryaddr m.curlevel) ||| used setd := by
    refine or_missing setd ?_ ?_
    · rw [isEntry, narrow_getLsbD 5 (by omega)]
    · rw [isEntry, narrow_getLsbD 6 (by omega)]
  rw [setAdBit_eq]
  by_cases none' : missing (m.entry m.curlevel) setd = 0
  · have noBits : ∀ w : Word, w ||| 0 = w := fun _ => BitVec.or_zero
    rw [none', noBits] at inEntry inMemory
    rw [if_pos none', ← inEntry, Function.update_eq_self, setBits, ← inMemory, Function.update_eq_self]
  · rw [if_neg none', pmapWriteGuest_or (missing_small setd) here plain isEntry, inEntry]
    unfold setBits
    rw [inMemory]
    rfl

section

variable {p : Paging} {a : Access} {mask : Word} {bad : Bool}

theorem passChecks_eq (suits : Suits d p a)
    (test : testPmapEntryReservedBit mask d e level levels = some bad)
    (notTop : ¬(levels = 3 ∧ level = 3)) : passChecks mask d levels level e m memory =
      if ¬e.getLsbD 0 then some (.ret .pageNotPresent, m, memory)
      else if bad then some (.ret .pageBadReservedBit, m, memory)
      else
        match (Rights.ofEntry p.nxe e).denies p.wp a.write a.user a.exec with
        | some r => some (.ret r, m, memory)
        | none => passAd d level e m memory := by
  have noP : e &&& pdePBit = 0 ↔ ¬e.getLsbD 0 = true := and_bit_eq_zero (by omega) rfl
  have noUs : e &&& pdeUsBit = 0 ↔ ¬e.getLsbD 2 = true := and_bit_eq_zero (by omega) rfl
  have noRw : e &&& pdeRwBit = 0 ↔ ¬e.getLsbD 1 = true := and_bit_eq_zero (by omega) rfl
  have nx : e &&& pdeNxBit ≠ 0 ↔ e.getLsbD 63 = true := and_bit_ne_zero (by omega) rfl
  unfold passChecks Rights.denies Rights.ofEntry
  simp only [noP, test, if_neg notTop, noUs, noRw, nx, suits.user, suits.write, suits.wp, suits.exec, suits.nxe]
  by_cases present : e.getLsbD 0 = true
  · rw [if_neg (not_not.mpr present), if_neg (not_not.mpr present)]
    cases bad with
    | true => rfl
    | false =>
      cases e.getLsbD 1 <;> cases e.getLsbD 2 <;> cases e.getLsbD 63 <;> cases a.user <;>
        cases a.write <;> cases p.wp <;> cases a.exec <;> cases p.nxe <;> rfl
  · rw [if_pos present, if_pos present]

theorem passChecks_top (test : testPmapEntryReservedBit mask d e 3 3 = some bad)
    (fine : bad = false → e.getLsbD 63 = false) : passChecks mask d 3 3 e m memory =
      if ¬e.getLsbD 0 then some (.ret .pageNotPresent, m, memory)
      else if bad then some (.ret .pageBadReservedBit, m, memory)
      else passAd d 3 (e ||| (pdeRwBit ||| pdeUsBit ||| pdeABit)) m memory := by
  have noP : e &&& pdePBit = 0 ↔ ¬e.getLsbD 0 = true := and_bit_eq_zero (by omega) rfl
  have us : ¬(e ||| (pdeRwBit ||| pdeUsBit ||| pdeABit)) &&& pdeUsBit = 0 :=
    (and_bit_ne_zero (k := 2) (by omega) rfl).mpr (by simp [pdeRwBit, pdeUsBit, pdeABit])
  have rw' : ¬(e ||| (pdeRwBit ||| pdeUsBit ||| pdeABit)) &&& pdeRwBit = 0 :=
    (and_bit_ne_zero (k := 1) (by omega) rfl).mpr (by simp [pdeRwBit, pdeUsBit, pdeABit])
  unfold passChecks
  simp only [noP, test, and_self, if_true, us, rw', false_and, if_false]
  by_cases present : e.getLsbD 0 = true
  · rw [if_neg (not_not.mpr present), if_neg (not_not.mpr present)]
    cases bad with
    | true => rfl
    | false =>
      have exec : (e ||| (pdeRwBit ||| pdeUsBit ||| pdeABit)) &&& pdeNxBit = 0 := by
        refine (and_bit_eq_zero (k := 63) (by omega) rfl).mpr ?_
        rw [BitVec.getLsbD_or, fine rfl]
        decide
      simp [exec]
  · rw [if_pos present, if_pos present]

theorem passAd_eq (harmless : level = 2 → d.pse = false → e.getLsbD 7 = false) :
    passAd d level e m memory =
      (setAdBit m memory e true (if (level = 2 ∧ e.getLsbD 7) ∨ level = 1 ∨
        (level = 3 ∧ e.getLsbD 7) then d.write else false)).map fun (again, entry, m, memory) =>
          (if again then .retry else .next entry, m, memory) := by
  have same : (if level = 2 ∧ ¬d.pse then e &&& ~~~pdePsBit else e) = e := by
    split
    · rename_i off
      have small := harmless off.1 (by simpa using off.2)
      apply BitVec.eq_of_getLsbD_eq
      intro i bound
      have isBit : pdePsBit = bits 7 7 := by decide
      rw [isBit, BitVec.getLsbD_and, BitVec.getLsbD_not, bits_getLsbD (by omega) (by omega)]
      by_cases here : i = 7
      · rw [here, small, Bool.false_and]
      · simp [bound, show ¬(7 ≤ i ∧ i ≤ 7) by omega]
    · rfl
  unfold passAd
  simp only [same, ps_ne_zero]

end

theorem passLoop_next {mask entry : Word} {m' m'' : Pmap} {memory' memory'' : GuestMemory}
    {pass : Pass} (fuel : Nat) (read : pmapReadGuest m memory = some (entry, m', memory'))
    (checks : passChecks mask d levels level entry m' memory' = some (pass, m'', memory''))
    (settled : ∀ again, pass = again → again ≠ .retry) :
    passLoop mask d levels level (fuel + 1) m memory = some (pass, m'', memory'') := by
  unfold passLoop
  rw [read]
  change (passChecks mask d levels level entry m' memory').bind _ = _
  rw [checks]
  cases pass with
  | ret r => rfl
  | next e => rfl
  | retry => exact absurd rfl (settled _ rfl)

end DisasVisor.CpuMmu
