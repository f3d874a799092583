import DisasVisor.CpuMmu.WalkRefinement

/-!
`cpu_mmu_get_pte` from the top table down to a page: every level of its loop is a level of the walk.
-/

namespace DisasVisor.CpuMmu

open Function (update update_of_ne update_self)
open Mm
open BitVec (getLsbD_and getLsbD_or)

variable {p : Paging} {a : Access} {d : GetPteData} {e e' table : Word} {level fuel : Nat} {m : Pmap}
  {memory : GuestMemory} {entries : Nat → Word} {rights : Rights}

theorem SameButUse.sameFlags_at (same : SameButUse e e') {nxe : Bool} :
    Rights.ofEntry nxe e' = Rights.ofEntry nxe e := by
  unfold Rights.ofEntry
  rw [same 1 (by omega) (by omega), same 2 (by omega) (by omega), same 63 (by omega) (by omega)]

theorem SameButUse.link (same : SameButUse e e') : e' &&& bits 12 47 = e &&& bits 12 47 := by
  apply BitVec.eq_of_getLsbD_eq
  intro i bound
  rw [getLsbD_and, getLsbD_and, bits_getLsbD (by omega) (by omega)]
  by_cases inside : 12 ≤ i ∧ i ≤ 47
  · rw [same i (by omega) (by omega)]
  · simp only [inside, decide_false, Bool.and_false]

theorem setBits_zero (memory : GuestMemory) (address : Word) : setBits memory address 0 = memory := by
  have same : memory.tables address ||| (0 : Word) = memory.tables address := BitVec.or_zero
  unfold setBits
  rw [same, Function.update_eq_self]

def Near (p : Paging) (virt : Word) (level : Nat) (table : Word) (memory : GuestMemory) : Prop :=
  p.format.levels = 2 → level = 2 → NearPage p (narrow 2 (memory.tables (p.format.entryAddress 2 table virt)))

theorem Agrees.step {result : Option (Vmmerr × (Nat → Word) × GuestMemory)}
    {outcome : Option (Outcome × GuestMemory)} {given : Rights} (isGiven : Rights.ofEntry p.nxe e = given)
    (below : Agrees p level (update entries level e) (rights.and given) result outcome) :
    Agrees p (level + 1) entries rights result outcome := by
  rcases outcome with _ | ⟨r | ⟨frame, rights'⟩, memory'⟩
  · exact below
  · exact below
  · obtain ⟨entries', isResult, isFrame, isRights, kept⟩ := below
    refine ⟨entries', isResult, isFrame, ?_, ?_⟩
    · have here : entries' level = e := (kept level (Nat.le_refl _)).trans (update_self _ _ _)
      rw [isRights, entriesRights, here, isGiven, Rights.and_assoc,
        Rights.and_comm given (entriesRights p.nxe entries' level)]
    · intro j above
      rw [kept j (by omega), update_of_ne (by omega)]

theorem Agrees.page {result : Option (Vmmerr × (Nat → Word) × GuestMemory)} {frame : Word}
    {given : Rights} (entries' : Nat → Word) (isResult : result = some (.success, entries', memory))
    (isFrame : entries' 0 &&& getPteAddrMask p.nbits = frame) (isGiven : entriesRights p.nxe entries' level = given)
    (kept : ∀ j, level ≤ j → entries' j = entries j) :
    Agrees p level entries rights result (some (.page frame (rights.and given), memory)) :=
  ⟨entries', isResult, isFrame, by rw [isGiven], kept⟩

section

variable (suits : Suits d p a) (lowBits : 32 ≤ p.nbits) (highBits : p.nbits ≤ 48)
  (linear : p.format = .pae → a.virt < 0x100000000)
include suits lowBits highBits linear

omit suits in
theorem atTable_next (positive : 0 < level) (le : level + 1 ≤ p.format.levels)
    (goesOn : check p a (level + 1) e = none) (link : ¬p.format.MapsPage (level + 1) e)
    (near : p.format.levels = 2 → level + 1 = 2 → NearPage p e)
    (same : SameButUse e e') (read : HasRead p a.virt level e' m) :
    AtTable p a.virt (e &&& bits 12 47) level m := by
  obtain ⟨present, fine, -⟩ := check_none goesOn
  have notLarge : level ≤ 2 → e.getLsbD 7 = false := by
    intro low
    by_contra large
    have isLarge : e.getLsbD 7 = true := by simpa using large
    by_cases isTwo : level + 1 = 2
    · refine link (.inr (.inl ⟨isTwo, ?_, isLarge⟩))
      intro small
      have isNear := (near (by rw [small]; rfl) isTwo isLarge).1
      rw [small] at isNear
      cases isNear
    · have isThree : level + 1 = 3 := by omega
      cases isFormat : p.format with
      | bits32 pse =>
        rw [isFormat] at le
        exact absurd le (by simp only [Format.levels]; omega)
      | pae =>
        rw [isFormat, isThree] at fine
        rw [(top_bit lowBits highBits fine).2] at isLarge
        cases isLarge
      | long => exact link (.inr (.inr ⟨isThree, isFormat, isLarge⟩))
  refine ⟨read.levels, read.curaddr, read.readlevel, ?_, ?_, ?_⟩
  · rw [read.entry, same 0 (by omega) (by omega), present]
  · intro low
    rw [read.entry, same 7 (by omega) (by omega), notLarge low]
  · have notTop : ¬(p.format = .pae ∧ level = 3) := by
      rintro ⟨isPae, isThree⟩
      rw [isPae, isThree] at le
      exact absurd le (by decide)
    rw [read.entry, pmapEntryaddr_walk positive (by omega) linear, if_neg notTop, same.link]

omit suits lowBits highBits linear in
theorem reserved_use {f : Format} {nxe : Bool} {nbits i : Nat} (low : 32 ≤ nbits) (high : nbits ≤ 48)
    (notTop : ¬(f = .pae ∧ level = 3)) (use : i = 5 ∨ i = 6) :
    (f.reserved nbits nxe level e).getLsbD i = false := by
  have address : ∀ {top}, nbits ≤ top → top < 64 → (bits nbits top).getLsbD i = false := by
    intro top order bound
    rw [bits_getLsbD order bound]
    exact decide_eq_false (by omega)
  have other : ∀ {low high}, low ≤ high → high < 64 → 7 ≤ low → (bits low high).getLsbD i = false := by
    intro low high order bound above
    rw [bits_getLsbD order bound]
    exact decide_eq_false (by omega)
  have none' : (0 : Word).getLsbD i = false := BitVec.getLsbD_zero
  cases f with
  | bits32 pse =>
    simp only [Format.reserved]
    split
    · exact other (by omega) (by omega) (by omega)
    · exact none'
  | pae =>
    have order : nbits ≤ if nxe then 62 else 63 := by split <;> omega
    have bound : (if nxe then 62 else 63) < 64 := by split <;> omega
    have notThree : level ≠ 3 := fun isThree => notTop ⟨rfl, isThree⟩
    simp only [Format.reserved, if_neg notThree, getLsbD_or, address order bound, Bool.false_or]
    split
    · exact other (by omega) (by omega) (by omega)
    · exact none'
  | long =>
    simp only [Format.reserved, getLsbD_or, address (show nbits ≤ 51 by omega) (by omega),
      Bool.false_or, Bool.or_eq_false_iff]
    constructor
    · split
      · exact none'
      · exact other (by omega) (by omega) (by omega)
    · split
      · split
        · exact other (by omega) (by omega) (by omega)
        · exact none'
      · split
        · exact other (by omega) (by omega) (by omega)
        · exact other (by omega) (by omega) (by omega)
      · exact other (by omega) (by omega) (by omega)
      · exact none'

omit suits lowBits highBits linear in
theorem reserved_used {f : Format} {nxe : Bool} {nbits : Nat} (low : 32 ≤ nbits) (high : nbits ≤ 48)
    (notTop : ¬(f = .pae ∧ level = 3)) (same : SameButUse e e')
    (fine : e &&& f.reserved nbits nxe level e = 0) : e' &&& f.reserved nbits nxe level e' = 0 := by
  have sameMask : f.reserved nbits nxe level e' = f.reserved nbits nxe level e := by
    unfold Format.reserved
    rw [same 7 (by omega) (by omega)]
  rw [sameMask]
  rw [and_eq_zero_iff] at fine ⊢
  intro i bound inMask
  by_cases use : i = 5 ∨ i = 6
  · rw [reserved_use low high notTop use] at inMask
    cases inMask
  · rw [same i (by omega) (by omega)]
    exact fine i bound inMask

omit suits lowBits highBits linear in
theorem atLarge_used (goesOn : check p a (level + 1) e = none) (large : e.getLsbD 7 = true)
    (maps : p.format.MapsPage (level + 1) e) (notTop : ¬(p.format = .pae ∧ level + 1 = 3))
    (read : HasRead p a.virt level (e ||| p.format.usedBits a.write (level + 1) e) m) :
    AtLarge p a level (e ||| p.format.usedBits a.write (level + 1) e) m := by
  obtain ⟨present, -, allowed⟩ := check_none goesOn
  have same := @sameButUse_or e p.format a.write (level + 1) e
  have isUsed : p.format.usedBits a.write (level + 1) e = used a.write := by
    unfold used Format.usedBits
    simp only [if_neg notTop, maps, true_and]
  rw [Format.entryRights, if_neg notTop] at allowed
  refine ⟨read, ?_, ?_, ?_, ?_, ?_⟩
  · rw [same 0 (by omega) (by omega), present]
  · rw [same 7 (by omega) (by omega), large]
  · rw [same.sameFlags_at, allowed]
  · rw [isUsed, getLsbD_or, used_getLsbD, decide_eq_true rfl, Bool.true_or, Bool.or_true]
  · intro isWrite
    rw [isUsed, getLsbD_or, used_getLsbD, isWrite, decide_eq_true rfl, Bool.true_and, Bool.or_true, Bool.or_true]

variable (le : level + 1 ≤ p.format.levels)
include le

omit linear in
theorem levelLoop_page (goesOn : check p a (level + 1) e = none) (maps : p.format.MapsPage (level + 1) e)
    (small : p.format.levels = 2 → e < 0x100000000) (near : p.format.levels = 2 → level + 1 = 2 → NearPage p e)
    (read : HasRead p a.virt level (e ||| p.format.usedBits a.write (level + 1) e) m)
    (notTop : ¬(p.format = .pae ∧ level + 1 = 3)) :
    ∃ entries', levelLoop (getPteAddrMask p.nbits) d (fuel + 1) p.format.levels level
        (update entries level (e ||| p.format.usedBits a.write (level + 1) e)) m memory =
        some (.success, entries', memory) ∧
      entries' 0 &&& getPteAddrMask p.nbits = p.format.frame p.nbits (level + 1) e a.virt ∧
      entriesRights p.nxe entries' (level + 1) = p.format.entryRights p.nxe (level + 1) e ∧
      ∀ j, level + 1 ≤ j → entries' j = entries j := by
  have fine := (check_none goesOn).2.1
  have same := @sameButUse_or e p.format a.write (level + 1) e
  have isRights : p.format.entryRights p.nxe (level + 1) e =
      Rights.ofEntry p.nxe (e ||| p.format.usedBits a.write (level + 1) e) := by
    rw [same.sameFlags_at, Format.entryRights, if_neg notTop]
  have fine' := reserved_used lowBits highBits notTop same fine
  generalize isUsed : e ||| p.format.usedBits a.write (level + 1) e = e' at same isRights fine' ⊢
  have usedSmall : p.format.levels = 2 → e' < 0x100000000 := by
    intro two
    have flags : p.format.usedBits a.write (level + 1) e < 0x100000000 := by
      unfold Format.usedBits
      split
      · decide
      · split <;> decide
    rw [← isUsed]
    change (e ||| p.format.usedBits a.write (level + 1) e).toNat < 2 ^ 32
    rw [BitVec.toNat_or]
    exact Nat.or_lt_two_pow (small two) flags
  rcases maps with isOne | ⟨isTwo, isFormat, large⟩ | ⟨isThree, isLong, large⟩
  · have isZero : level = 0 := by omega
    subst isZero
    refine ⟨_, rfl, ?_, ?_, ?_⟩
    · rw [update_self]
      exact frame_page lowBits highBits same p.format
    · rw [entriesRights, entriesRights, update_self, Rights.full_and, isRights]
    · intro j above
      rw [update_of_ne (by omega)]
  · have isOne : level = 1 := by omega
    subst isOne
    have at' := atLarge_used goesOn large (.inr (.inl ⟨rfl, isFormat, large⟩)) notTop read
    rw [isUsed] at at'
    have near' : p.format.levels = 2 → e' < 0x100000000 ∧ NearPage p e' := by
      intro two
      refine ⟨usedSmall two, ?_⟩
      intro large'
      obtain ⟨isPse, isNear⟩ := near two rfl large
      refine ⟨isPse, ?_⟩
      intro i above below
      rw [same (i - 19) (by omega) (by omega)]
      exact isNear i above below
    refine ⟨_, levelLoop_2m suits lowBits highBits at' (fun _ => fine') near', ?_, ?_, ?_⟩
    · rw [update_self]
      by_cases two : p.format.levels = 2
      · obtain ⟨isPse, isNear⟩ := near two rfl large
        rw [isPse]
        exact frame_4m lowBits same highBits (usedSmall two) isNear true
      · exact frame_2m lowBits highBits same two
    · have part : Rights.ofEntry p.nxe (handlePdePsBit p.format.levels e' a.virt) =
          Rights.ofEntry p.nxe e' := ofEntry_sameFlags (sameFlags_handlePdePsBit usedSmall)
      rw [entriesRights, entriesRights, entriesRights, update_self,
        update_of_ne (by omega), update_self, Rights.full_and, part,
        Rights.and_self, isRights]
    · intro j above
      rw [update_of_ne (by omega), update_of_ne (by omega)]
  · have isTwo : level = 2 := by omega
    subst isTwo
    have wide : p.format.levels ≠ 2 := by
      rw [isLong]
      decide
    have four : p.format.levels = 4 := by
      rw [isLong]
      rfl
    have at' := atLarge_used goesOn large (.inr (.inr ⟨rfl, isLong, large⟩)) notTop read
    rw [isUsed] at at'
    refine ⟨_, levelLoop_1g suits lowBits highBits isLong at' (isLong ▸ fine'), ?_, ?_, ?_⟩
    · rw [update_self, four, isLong]
      exact frame_1g lowBits highBits same
    · have upper : Rights.ofEntry p.nxe (pdeOfPdpe e' a.virt) = Rights.ofEntry p.nxe e' :=
        ofEntry_sameFlags sameFlags_pdeOfPdpe
      have lower : Rights.ofEntry p.nxe (handlePdePsBit p.format.levels (pdeOfPdpe e' a.virt) a.virt) =
          Rights.ofEntry p.nxe e' := ofEntry_sameFlags (sameFlags_pdeOfPdpe.trans
            (sameFlags_handlePdePsBit fun two => absurd two wide))
      rw [entriesRights, entriesRights, entriesRights, entriesRights, update_self,
        update_of_ne (show 1 ≠ 0 by omega), update_self,
        update_of_ne (show 2 ≠ 0 by omega), update_of_ne (show 2 ≠ 1 by omega),
        update_self, Rights.full_and, upper, lower, Rights.and_self, Rights.and_self,
        isRights]
    · intro j above
      rw [update_of_ne (by omega), update_of_ne (by omega), update_of_ne (by omega)]

theorem levelLoop_step (at' : AtTable p a.virt table (level + 1) m) (near : Near p a.virt (level + 1) table memory)
    (below : ∀ table entries rights m memory, 0 < level → AtTable p a.virt table level m →
      Agrees p level entries rights
        (levelLoop (getPteAddrMask p.nbits) d (fuel + 1) p.format.levels level entries m memory)
        (walk p a level table rights memory)) :
    Agrees p (level + 1) entries rights
      (levelLoop (getPteAddrMask p.nbits) d (fuel + 1) p.format.levels (level + 1) entries m memory)
      (walk p a (level + 1) table rights memory) := by
  unfold walk
  generalize isAddress : p.format.entryAddress (level + 1) table a.virt = address
  have read := @AtTable.read p a table level m memory at' address isAddress
  by_cases plain : memory.plain address = true
  swap
  · -- the cursor panics where the walk leaves plain memory
    rw [if_neg plain] at read
    simp only [if_neg plain]
    unfold levelLoop passLoop
    rw [read]
    rfl
  generalize isEntry : narrow p.format.levels (memory.tables address) = e
  have nearEntry : p.format.levels = 2 → level + 1 = 2 → NearPage p e := by
    intro two isTwo
    have isNear := near two isTwo
    rw [← isTwo, isAddress, isTwo] at isNear
    rw [← isEntry, two]
    exact isNear
  simp only [if_pos plain, isEntry]
  cases isCheck : check p a (level + 1) e with
  | some r =>
    obtain ⟨m', pass⟩ := @passLoop_fault p a d table level fuel m memory r suits lowBits highBits le
      at' address isAddress plain (by rw [isEntry]; exact isCheck)
    refine ⟨entries, ?_⟩
    unfold levelLoop
    rw [pass]
    rfl
  | none =>
    have same := @sameButUse_or e p.format a.write (level + 1) e
    have small : p.format.levels = 2 → e < 0x100000000 := fun two => isEntry ▸ narrow_fits two
    by_cases top : p.format = .pae ∧ level + 1 = 3
    · obtain ⟨m', pass, hasRead⟩ := @passLoop_top p a d e table level fuel m memory suits lowBits
        highBits le at' address isAddress plain isEntry isCheck top
      have maps : ¬p.format.MapsPage (level + 1) e := by
        rintro (isOne | ⟨isTwo, -⟩ | ⟨-, isLong, -⟩)
        · omega
        · omega
        · rw [top.1] at isLong
          cases isLong
      have isGiven : Rights.ofEntry p.nxe (e ||| (pdeRwBit ||| pdeUsBit ||| pdeABit)) =
          p.format.entryRights p.nxe (level + 1) e := by
        have fine := (check_none isCheck).2.1
        rw [top.1, top.2] at fine
        rw [Format.entryRights, if_pos top]
        unfold Rights.ofEntry
        simp only [getLsbD_or, (top_bit lowBits highBits fine).1]
        cases p.nxe <;> simp [pdeRwBit, pdeUsBit, pdeABit, Rights.full]
      have unused : p.format.usedBits a.write (level + 1) e = 0 := if_pos top
      rw [levelLoop_next pass, if_neg maps, unused, setBits_zero]
      exact Agrees.step isGiven (below _ _ _ _ _ (by omega) (atTable_next lowBits highBits linear
        (by omega) le isCheck maps nearEntry (fun _ _ _ => rfl) hasRead))
    · obtain ⟨m', pass, hasRead⟩ := @passLoop_used p a d e table level fuel m memory suits lowBits
        highBits le at' address isAddress plain isEntry isCheck top nearEntry
      have isGiven : Rights.ofEntry p.nxe (e ||| p.format.usedBits a.write (level + 1) e) =
          p.format.entryRights p.nxe (level + 1) e := by
        rw [same.sameFlags_at, Format.entryRights, if_neg top]
      rw [levelLoop_next pass]
      by_cases maps : p.format.MapsPage (level + 1) e
      · rw [if_pos maps]
        obtain ⟨entries', isResult, isFrame, isRights, kept⟩ := @levelLoop_page p a d e level fuel m'
          (setBits memory address (p.format.usedBits a.write (level + 1) e)) entries suits lowBits
          highBits le isCheck maps small nearEntry hasRead top
        exact Agrees.page entries' isResult isFrame isRights kept
      · rw [if_neg maps]
        have positive : 0 < level := by
          by_contra zero
          exact maps (.inl (by omega))
        exact Agrees.step isGiven (below _ _ _ _ _ positive (atTable_next lowBits highBits linear
          positive le isCheck maps nearEntry same hasRead))

theorem levelLoop_walk
    (at' : AtTable p a.virt table (level + 1) m) (near : Near p a.virt (level + 1) table memory) :
    Agrees p (level + 1) entries rights
      (levelLoop (getPteAddrMask p.nbits) d (fuel + 1) p.format.levels (level + 1) entries m memory)
      (walk p a (level + 1) table rights memory) := by
  induction level generalizing table rights m memory entries with
  | zero =>
    apply levelLoop_step suits lowBits highBits linear le at' near
    intro table entries rights m memory positive
    exact absurd positive (Nat.lt_irrefl 0)
  | succ level ih =>
    apply levelLoop_step suits lowBits highBits linear le at' near
    intro table entries rights m memory positive below
    apply ih (by omega) below
    intro two isTwo
    rw [two] at le
    omega

end

/-- What the access and the tables have to be, for `cpu_mmu_get_pte` to treat them as a processor
does: physical addresses have at most 48 bits, outside long mode a linear address has 32 bits, and so
has `CR3` with tables of 32-bit entries, where the entry of a large page has to be near. -/
structure Ordinary (nbits : Nat) (r : Registers) (a : Access) (memory : GuestMemory) : Prop where
  lowBits : 32 ≤ nbits
  highBits : nbits ≤ 48
  linear : ¬(r.pg = true ∧ r.efer.getLsbD 8 = true) → a.virt < 0x100000000
  root : (r.paging nbits).format.levels = 2 → r.cr3 < 0x100000000
  near : Near (r.paging nbits) a.virt 2 ((r.paging nbits).format.root r.cr3) memory

variable {nbits : Nat} {r : Registers}

theorem atTable_root {stack : Pmap} {f : Format} {p : Paging} {virt cr3 : Word} (isFormat : p.format = f)
    (linear : f = .pae → virt < 0x100000000) (small : f.levels = 2 → cr3 < 0x100000000) :
    AtTable p virt (f.root cr3) f.levels (pmapSeek (pmapOpenGuest stack cr3 f.levels) virt (f.levels + 1)) := by
  subst isFormat
  have positive : 0 < p.format.levels := by cases p.format <;> simp [Format.levels]
  have unmoved : pmapSeek (pmapOpenGuest stack cr3 p.format.levels) virt (p.format.levels + 1) =
      { pmapOpenGuest stack cr3 p.format.levels with curlevel := p.format.levels, curaddr := virt } := by
    simp [pmapSeek, pmapOpenGuest, pmapSeekLoop]
  rw [unmoved]
  refine ⟨rfl, rfl, rfl, ?_, ?_, ?_⟩
  · simp [pmapOpenGuest, pdePBit]
  · intro low
    have notThree : ¬p.format.levels = 3 := by omega
    simp [pmapOpenGuest, if_neg notThree, pdePBit, cr3PwtBit, cr3PcdBit]
  · have top := @root_walk p.format cr3 stack small
    have here := @pmapEntryaddr_walk ((pmapOpenGuest stack cr3 p.format.levels).entry p.format.levels)
      virt p.format.levels p.format positive (Nat.le_refl _) linear
    rw [top] at here
    exact here

def Gives (nbits : Nat) (nxe : Bool) (result : Option (Vmmerr × (Nat → Word) × Nat × GuestMemory)) :
    Option (Outcome × GuestMemory) → Prop
  | none => result = none
  | some (.fault v, memory) => ∃ entries levels, result = some (v, entries, levels, memory)
  | some (.page frame rights, memory) => ∃ entries levels,
      result = some (.success, entries, levels, memory) ∧
      entries 0 &&& getPteAddrMask nbits = frame ∧ rights = entriesRights nxe entries levels

theorem Agrees.gives {result : Option (Vmmerr × (Nat → Word) × GuestMemory)}
    {outcome : Option (Outcome × GuestMemory)} (agrees : Agrees p level entries .full result outcome) :
    Gives p.nbits p.nxe (result.map fun (v, entries, memory) => (v, entries, level, memory)) outcome := by
  rcases outcome with _ | ⟨v | ⟨frame, rights⟩, memory'⟩
  · have none' : result = none := agrees
    rw [none']
    rfl
  · obtain ⟨entries', isResult⟩ := agrees
    exact ⟨entries', level, by rw [isResult]; rfl⟩
  · obtain ⟨entries', isResult, isFrame, isRights, -⟩ := agrees
    refine ⟨entries', level, by rw [isResult]; rfl, isFrame, ?_⟩
    rw [isRights, Rights.full_and]

theorem flatEntries_gives {virt : Word} {nxe : Bool} (lowBits : 32 ≤ nbits) (highBits : nbits ≤ 48)
    (small : virt < 0x100000000) :
    Gives nbits nxe (some (.success, flatEntries (getPteAddrMask nbits) virt entries, 1, memory))
      (some (.page (virt &&& bits 12 31) .full, memory)) := by
  have isMask := getPteAddrMask_eq lowBits highBits
  have flags : ptePBit ||| pteRwBit ||| pteUsBit ||| pteABit ||| pteDBit = bits 0 2 ||| bits 5 6 := by decide
  have first : flatEntries (getPteAddrMask nbits) virt entries 0 =
      (virt &&& bits 12 (nbits - 1)) ||| (bits 0 2 ||| bits 5 6) := by
    unfold flatEntries
    rw [update_of_ne (by omega), update_self, isMask, flags]
  have bit : ∀ i, (flatEntries (getPteAddrMask nbits) virt entries 0).getLsbD i =
      ((virt.getLsbD i && decide (12 ≤ i ∧ i ≤ nbits - 1)) ||
        (decide (0 ≤ i ∧ i ≤ 2) || decide (5 ≤ i ∧ i ≤ 6))) := by
    intro i
    rw [first, getLsbD_or, getLsbD_and, getLsbD_or,
      bits_getLsbD (show 12 ≤ nbits - 1 by omega) (by omega), bits_getLsbD (Nat.zero_le 2) (by omega),
      bits_getLsbD (show 5 ≤ 6 by omega) (by omega)]
  refine ⟨_, 1, rfl, ?_, ?_⟩
  · apply BitVec.eq_of_getLsbD_eq
    intro i bound
    rw [getLsbD_and, bit, getLsbD_and, isMask,
      bits_getLsbD (show 12 ≤ nbits - 1 by omega) (by omega),
      bits_getLsbD (show 12 ≤ 31 by omega) (by omega)]
    by_cases low : i < 32
    · by_cases above : 12 ≤ i
      · rw [decide_eq_true (show 12 ≤ i ∧ i ≤ nbits - 1 by omega),
          decide_eq_true (show 12 ≤ i ∧ i ≤ 31 by omega),
          decide_eq_false (show ¬(0 ≤ i ∧ i ≤ 2) by omega),
          decide_eq_false (show ¬(5 ≤ i ∧ i ≤ 6) by omega)]
        simp
      · rw [decide_eq_false (show ¬(12 ≤ i ∧ i ≤ nbits - 1) by omega),
          decide_eq_false (show ¬(12 ≤ i ∧ i ≤ 31) by omega)]
        simp
    · rw [high_bit small (by omega), decide_eq_false (show ¬(0 ≤ i ∧ i ≤ 2) by omega),
        decide_eq_false (show ¬(5 ≤ i ∧ i ≤ 6) by omega)]
      simp
  · have notTop : virt.getLsbD 63 = false := high_bit small (by omega)
    rw [entriesRights, entriesRights, Rights.full_and, Rights.ofEntry, bit 1, bit 2, bit 63, notTop]
    simp [Rights.full]

theorem walk_gives {p : Paging} {f : Format} {levels : Nat} {cr3 : Word} (suits : Suits d p a)
    (isFormat : p.format = f) (isLevels : f.levels = levels) (lowBits : 32 ≤ p.nbits)
    (highBits : p.nbits ≤ 48) (linear : f = .pae → a.virt < 0x100000000)
    (small : levels = 2 → cr3 < 0x100000000) (near : Near p a.virt 2 (f.root cr3) memory)
    (stack : Pmap) :
    Gives p.nbits p.nxe (do
        let m := pmapSeek (pmapOpenGuest stack cr3 levels) a.virt (levels + 1)
        let (entry, m, memory) ← pmapReadGuest m memory
        let entries := update entries levels (entry ||| (pdeRwBit ||| pdeUsBit ||| pdeABit))
        let (r, entries, memory) ← levelLoop (getPteAddrMask p.nbits) d (fuel + 1) levels levels entries m memory
        some (r, entries, levels, memory)) (walk p a levels (f.root cr3) .full memory) := by
  subst isFormat isLevels
  have start := @atTable_root stack p.format p a.virt cr3 rfl linear small
  obtain ⟨level, isLevel⟩ : ∃ level, p.format.levels = level + 1 := by cases p.format <;> exact ⟨_, rfl⟩
  have read : pmapReadGuest (pmapSeek (pmapOpenGuest stack cr3 p.format.levels) a.virt
      (p.format.levels + 1)) memory = some ((pmapSeek (pmapOpenGuest stack cr3 p.format.levels) a.virt
        (p.format.levels + 1)).entry p.format.levels, pmapSeek (pmapOpenGuest stack cr3
          p.format.levels) a.virt (p.format.levels + 1), memory) := by
    simp [pmapReadGuest, pmapSeek, pmapOpenGuest, pmapSeekLoop, pmapReadGuestLoop]
  have nearRoot : Near p a.virt (level + 1) (p.format.root cr3) memory := fun two isTwo => near two rfl
  simp only [read, Option.bind_eq_bind, Option.bind_some]
  rw [isLevel] at start ⊢
  have agrees := @levelLoop_walk p a d (p.format.root cr3) level fuel
    (pmapSeek (pmapOpenGuest stack cr3 (level + 1)) a.virt (level + 1 + 1)) memory
    (update entries (level + 1) ((pmapSeek (pmapOpenGuest stack cr3 (level + 1)) a.virt
      (level + 1 + 1)).entry (level + 1) ||| (pdeRwBit ||| pdeUsBit ||| pdeABit))) .full suits lowBits
    highBits linear (by omega) start nearRoot
  have gives := agrees.gives
  rw [isLevel, Option.map_eq_bind] at gives
  exact gives

/-- `cpu_mmu_get_pte` gives what the walk of a processor gives. -/
theorem cpuMmuGetPte_pageWalk (ordinary : Ordinary nbits r a memory) (stack : Pmap) :
    Gives nbits (r.paging nbits).nxe
      (cpuMmuGetPte nbits (fuel + 1) a.virt r.cr0 r.cr3 r.cr4 r.efer a.write a.user a.exec stack entries
        memory) (pageWalk nbits r a memory) := by
  obtain ⟨lowBits, highBits, linear, root, near⟩ := ordinary
  have pg : r.cr0 &&& cr0PgBit ≠ 0 ↔ r.pg = true := and_bit_ne_zero (by omega) rfl
  have wp : r.cr0 &&& cr0WpBit ≠ 0 ↔ r.cr0.getLsbD 16 = true := and_bit_ne_zero (by omega) rfl
  have pse : r.cr4 &&& cr4PseBit ≠ 0 ↔ r.cr4.getLsbD 4 = true := and_bit_ne_zero (by omega) rfl
  have pae : r.cr4 &&& cr4PaeBit ≠ 0 ↔ r.cr4.getLsbD 5 = true := and_bit_ne_zero (by omega) rfl
  have lme : r.efer &&& msrIa32EferLmeBit ≠ 0 ↔ r.efer.getLsbD 8 = true := and_bit_ne_zero (by omega) rfl
  have nxe : r.efer &&& msrIa32EferNxeBit ≠ 0 ↔ r.efer.getLsbD 11 = true := and_bit_ne_zero (by omega) rfl
  unfold cpuMmuGetPte getPteSub pageWalk
  simp only [pg, wp, pse, pae, lme, nxe, Bool.decide_eq_true]
  by_cases on : r.pg = true
  · simp only [on, not_true_eq_false, if_false, if_true]
    by_cases isLong : r.efer.getLsbD 8 = true
    · have isFormat : (r.paging nbits).format = .long := if_pos isLong
      simp only [isLong, if_true]
      rw [isFormat] at near ⊢
      refine walk_gives ?_ isFormat rfl lowBits highBits nofun nofun near stack
      exact ⟨by rw [isFormat]; rfl, by rw [isFormat]; simp, rfl, rfl, rfl, rfl, rfl⟩
    · have small := linear fun both => isLong both.2
      simp only [isLong, if_false]
      by_cases isPae : r.cr4.getLsbD 5 = true
      · have isFormat : (r.paging nbits).format = .pae :=
          (if_neg isLong).trans (if_pos isPae)
        simp only [isPae, if_true]
        rw [isFormat] at near ⊢
        refine walk_gives ?_ isFormat rfl lowBits highBits (fun _ => small) nofun near stack
        exact ⟨by rw [isFormat]; rfl, by rw [isFormat]; simp, rfl, rfl, rfl, rfl, rfl⟩
      · have isFormat : (r.paging nbits).format = .bits32 (r.cr4.getLsbD 4) :=
          (if_neg isLong).trans (if_neg isPae)
        simp only [isPae, if_false]
        rw [isFormat] at near root ⊢
        refine walk_gives ?_ isFormat rfl lowBits highBits nofun (fun _ => root rfl) near stack
        exact ⟨by rw [isFormat]; rfl, by rw [isFormat]; simp, rfl, rfl, rfl, rfl, rfl⟩
  · simp only [on, if_neg, Bool.false_eq_true, not_false_eq_true, if_true, if_false]
    exact flatEntries_gives lowBits highBits (linear fun isLong => on isLong.1)

def oneTable (pde : Word) : GuestMemory where
  tables := update (fun _ => 0) 0x1000 pde
  plain := fun _ => true

def closedCursor : Pmap where
  levels := 0
  readlevel := 0
  curlevel := 0
  curaddr := 0
  entry := fun _ => 0
  entryaddr := fun _ => 0

theorem cpuMmuGetPte_pageWalk_directory :
    Gives 40 false
      (cpuMmuGetPte 40 1 0x123 cr0PgBit 0x1000 cr4PseBit 0 true true false closedCursor (fun _ => 0)
        (oneTable 0x800087))
      (pageWalk 40 ⟨cr0PgBit, 0x1000, cr4PseBit, 0⟩ ⟨0x123, true, true, false⟩ (oneTable 0x800087)) :=
  @cpuMmuGetPte_pageWalk ⟨0x123, true, true, false⟩ 0 (oneTable 0x800087) (fun _ => 0) 40
    ⟨cr0PgBit, 0x1000, cr4PseBit, 0⟩
    ⟨by decide, by decide, fun _ => by decide, fun _ => by decide,
      fun _ _ _ => ⟨by decide, by decide +kernel⟩⟩ closedCursor

def faultAt0 (nbits : Nat) (cr4 : Word) (user : Bool) (pde : Word) : Option Vmmerr :=
  (cpuMmuGetPte nbits 1 0 cr0PgBit 0x1000 cr4 0 false user false closedCursor (fun _ => 0)
    (oneTable pde)).map fun (r, _) => r

/-- A user's access is found not accessible at the page directory, although there is no page. Without
large pages the bit of a large page counts, and a large page above 64 GiB has a reserved bit. -/
theorem fault_of_first_entry :
    (faultAt0 40 0 true 0x2023 = some .pageNotAccessible ∧
      translation ⟨.bits32 false, 40, false, false⟩ ⟨0, false, true, false⟩ 2 0x1000 .full
        (oneTable 0x2023) = some (.fault .pageNotPresent)) ∧
    (faultAt0 40 0 false 0x20A3 = some .success ∧
      translation ⟨.bits32 false, 40, false, false⟩ ⟨0, false, false, false⟩ 2 0x1000 .full
        (oneTable 0x20A3) = some (.fault .pageNotPresent)) ∧
    (faultAt0 40 cr4PseBit false 0x200A3 = some .pageBadReservedBit ∧
      translation ⟨.bits32 true, 40, false, false⟩ ⟨0, false, false, false⟩ 2 0x1000 .full
        (oneTable 0x200A3) = some (.page 0x1000000000 ⟨true, false, true⟩)) := by
  decide +kernel

end DisasVisor.CpuMmu
