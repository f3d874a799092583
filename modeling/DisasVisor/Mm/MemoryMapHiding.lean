import DisasVisor.Mm.MapRanges
import Mathlib.Data.List.Induction
import Mathlib.Data.List.Nodup

/-!
What the guest is shown of the BIOS map keeps off the VMM and off the real-mode memory that was
handed out.
-/

namespace DisasVisor.Mm

open List
open UInt64 (toNat_inj toNat_zero)
open UInt32 (toNat_add toNat_toUInt64)

def Sysmemmap.Apart (m other : Sysmemmap) : Prop := ∀ a, m.Holds a → ¬other.Holds a

structure VmmPhys.At (s : VmmPhys) (m : Sysmemmap) : Prop where
  available : m.Available
  offer : vmmCandidate m = some s.phys
  base : s.e820VmmBase = m.base
  fakeLen : s.e820VmmFakeLen = s.phys.toUInt64 - m.base
  fakeEnd : s.e820VmmEnd = m.base + m.len

structure VmmPhys.SamePlace (s t : VmmPhys) : Prop where
  phys : s.phys = t.phys
  base : s.e820VmmBase = t.e820VmmBase
  fakeLen : s.e820VmmFakeLen = t.e820VmmFakeLen
  fakeEnd : s.e820VmmEnd = t.e820VmmEnd

variable {m : Sysmemmap} {entries : List Sysmemmap} {n : UInt32} {handed : Realmodemem}

theorem VmmPhys.SamePlace.at {s t : VmmPhys} (same : s.SamePlace t) (place : t.At m) : s.At m := by
  obtain ⟨phys, base, fakeLen, fakeEnd⟩ := same
  refine ⟨place.available, ?_, ?_, ?_, ?_⟩
  · rw [phys, place.offer]
  · rw [base, place.base]
  · rw [fakeLen, phys, place.fakeLen]
  · rw [fakeEnd, place.fakeEnd]

theorem findVmmPhysBody_cases (m : Sysmemmap) (s : VmmPhys) :
    ((findVmmPhysBody m s).SamePlace s ∧ (m.Available → ∀ phys, vmmCandidate m = some phys → phys ≤ s.phys)) ∨
      ((findVmmPhysBody m s).At m ∧ s.phys < (findVmmPhysBody m s).phys) := by
  unfold findVmmPhysBody
  by_cases other : m.type ≠ sysmemmapTypeAvailable
  · rw [if_pos other]
    exact .inl ⟨⟨rfl, rfl, rfl, rfl⟩, fun available => absurd available other⟩
  rw [if_neg other]
  have candidate := vmmCandidate.eq_def m
  cases range : vmmRange m with
  | none =>
    rw [range] at candidate
    refine .inl ⟨⟨rfl, rfl, rfl, rfl⟩, ?_⟩
    intro _ phys offer
    rw [candidate] at offer
    cases offer
  | some ends =>
    obtain ⟨base32, limit32⟩ := ends
    rw [range] at candidate
    simp only at candidate ⊢
    by_cases enough : limit32 - base32 ≥ vmmsizeAll - 1
    · rw [if_pos enough] at candidate
      by_cases higher : s.phys < limit32 - (vmmsizeAll - 1)
      · rw [if_pos ⟨enough, higher⟩]
        exact .inr ⟨⟨not_not.mp other, candidate, rfl, rfl, rfl⟩, higher⟩
      · rw [if_neg (fun both => higher both.2)]
        refine .inl ⟨⟨rfl, rfl, rfl, rfl⟩, ?_⟩
        intro _ phys offer
        rw [candidate, Option.some.injEq] at offer
        rw [← offer]
        exact UInt32.not_lt.mp higher
    · rw [if_neg enough] at candidate
      rw [if_neg (fun both => enough both.1)]
      refine .inl ⟨⟨rfl, rfl, rfl, rfl⟩, ?_⟩
      intro _ phys offer
      rw [candidate] at offer
      cases offer

def placeVmm (s : VmmPhys) (entries : List Sysmemmap) : VmmPhys := entries.foldl (fun s m => findVmmPhysBody m s) s

theorem placeVmm_append (s : VmmPhys) (entries more : List Sysmemmap) :
    placeVmm s (entries ++ more) = placeVmm (placeVmm s entries) more :=
  foldl_append

theorem placeVmm_at (entries : List Sysmemmap) :
    (placeVmm vmmPhysInit entries).phys ≠ 0 → ∃ m ∈ entries, (placeVmm vmmPhysInit entries).At m := by
  induction entries using List.reverseRecOn with
  | nil =>
    intro found
    exact absurd rfl found
  | append_singleton entries m ih =>
    intro found
    rw [placeVmm_append] at found ⊢
    change (findVmmPhysBody m (placeVmm vmmPhysInit entries)).phys ≠ 0 at found
    change ∃ chosen ∈ entries ++ [m], (findVmmPhysBody m (placeVmm vmmPhysInit entries)).At chosen
    rcases findVmmPhysBody_cases m (placeVmm vmmPhysInit entries) with ⟨same, -⟩ | ⟨taken, -⟩
    · rw [same.phys] at found
      obtain ⟨chosen, member, place⟩ := ih found
      exact ⟨chosen, mem_append_left _ member, same.at place⟩
    · exact ⟨m, by simp, taken⟩

theorem placeVmm_highest {phys : UInt32} (available : m.Available) (offer : vmmCandidate m = some phys)
    (entries : List Sysmemmap) : m ∈ entries → phys ≤ (placeVmm vmmPhysInit entries).phys := by
  induction entries using List.reverseRecOn with
  | nil =>
    intro member
    cases member
  | append_singleton entries last ih =>
    intro member
    rw [placeVmm_append]
    change phys ≤ (findVmmPhysBody last (placeVmm vmmPhysInit entries)).phys
    rcases mem_append.mp member with old | new
    · have before := ih old
      rcases findVmmPhysBody_cases last (placeVmm vmmPhysInit entries) with ⟨same, -⟩ | ⟨-, higher⟩
      · rwa [same.phys]
      · exact UInt32.le_of_lt (UInt32.lt_of_le_of_lt before higher)
    · rw [mem_singleton] at new
      subst new
      rcases findVmmPhysBody_cases m (placeVmm vmmPhysInit entries) with ⟨same, rest⟩ | ⟨taken, -⟩
      · rw [same.phys]
        exact rest available phys offer
      · rw [Option.some.inj (offer.symm.trans taken.offer)]
        exact UInt32.le_refl _

theorem placeVmm_top (entries : List Sysmemmap) (s : VmmPhys) (top : s.phys = 0xF8000000) :
    (placeVmm s entries).SamePlace s := by
  induction entries generalizing s with
  | nil => exact ⟨rfl, rfl, rfl, rfl⟩
  | cons m rest ih =>
    rcases findVmmPhysBody_cases m s with ⟨same, -⟩ | ⟨taken, higher⟩
    · have tail := ih (findVmmPhysBody m s) (same.phys.trans top)
      exact ⟨tail.phys.trans same.phys, tail.base.trans same.base, tail.fakeLen.trans same.fakeLen,
        tail.fakeEnd.trans same.fakeEnd⟩
    · rw [top] at higher
      exact absurd (vmmCandidate_le taken.offer) (UInt32.not_le.mpr higher)

def placeRealmodemem (entries : List Sysmemmap) : Realmodemem :=
  entries.foldl (fun s m => findRealmodememBody m s) { base := 0, limit := 0, fakelimit := 0 }

theorem placeRealmodemem_cases (entries : List Sysmemmap) :
    (placeRealmodemem entries = { base := 0, limit := 0, fakelimit := 0 } ∧
        ∀ m ∈ entries, m.Available → ¬m.LowMemory) ∨
      ∃ m ∈ entries, m.Available ∧ m.LowMemory ∧ (placeRealmodemem entries).IsEntry m := by
  induction entries using List.reverseRecOn with
  | nil => exact .inl ⟨rfl, fun m member => by cases member⟩
  | append_singleton entries m ih =>
    have step : placeRealmodemem (entries ++ [m]) = findRealmodememBody m (placeRealmodemem entries) := foldl_append
    rw [step]
    rcases findRealmodememBody_spec m (placeRealmodemem entries) with
      ⟨same, skipped⟩ | ⟨available, low, entry⟩
    · rw [same]
      rcases ih with ⟨none, noLow⟩ | ⟨chosen, member, rest⟩
      · refine .inl ⟨none, ?_⟩
        intro other member available low
        rcases mem_append.mp member with old | new
        · exact noLow other old available low
        · rw [mem_singleton] at new
          subst new
          exact skipped available low (by rw [none])
      · exact .inr ⟨chosen, mem_append_left _ member, rest⟩
    · exact .inr ⟨m, by simp, available, low, entry⟩

structure HandedOut (start s : Realmodemem) (handed : List (UInt32 × UInt32)) : Prop where
  base : s.base = start.base
  above : start.base.toNat ≤ s.fakelimit.toNat
  below : s.fakelimit.toNat ≤ start.fakelimit.toNat
  pieces : ∀ piece ∈ handed, s.fakelimit.toNat < piece.1.toNat ∧
    piece.1.toNat + piece.2.toNat ≤ start.fakelimit.toNat + 1

theorem allocRealmodememBios_spec {s t : Realmodemem} {len address : UInt32}
    (ordered : s.base.toNat ≤ s.fakelimit.toNat) (ran : allocRealmodememBios s len = some (t, address)) :
    HandedOut s t [(address, len)] := by
  have one := UInt32.toNat_one
  have fakelimit := s.fakelimit.toNat_lt
  unfold allocRealmodememBios at ran
  split at ran
  · rename_i fits
    obtain ⟨some, small⟩ := fits
    rw [UInt32.lt_iff_toNat_lt, UInt32.toNat_zero] at some
    rw [UInt32.lt_iff_toNat_lt, toNat_add, UInt32.toNat_sub, one] at small
    have next : (s.fakelimit - len).toNat + len.toNat = s.fakelimit.toNat := by
      rw [UInt32.toNat_sub]
      omega
    have first : (s.fakelimit - len + 1).toNat = (s.fakelimit - len).toNat + 1 := by
      rw [toNat_add, one]
      omega
    obtain ⟨rfl, rfl⟩ := Prod.mk.inj (Option.some.inj ran)
    refine ⟨rfl, ?_, ?_, ?_⟩
    · change s.base.toNat ≤ (s.fakelimit - len).toNat
      omega
    · change (s.fakelimit - len).toNat ≤ s.fakelimit.toNat
      omega
    · intro piece member
      rw [mem_singleton] at member
      subst member
      change (s.fakelimit - len).toNat < (s.fakelimit - len + 1).toNat ∧
        (s.fakelimit - len + 1).toNat + len.toNat ≤ s.fakelimit.toNat + 1
      omega
  · cases ran

theorem allocRealmodemems_spec (lens : List UInt32) : ∀ {s t : Realmodemem}
    {handed : List (UInt32 × UInt32)}, s.base.toNat ≤ s.fakelimit.toNat →
    allocRealmodemems s lens = some (t, handed) → HandedOut s t handed := by
  induction lens with
  | nil =>
    intro s t handed ordered ran
    obtain ⟨rfl, rfl⟩ := Prod.mk.inj (Option.some.inj ran)
    exact ⟨rfl, ordered, Nat.le_refl _, fun piece member => by cases member⟩
  | cons len lens ih =>
    intro s t handed ordered ran
    unfold allocRealmodemems at ran
    cases first : allocRealmodememBios s len with
    | none =>
      rw [first] at ran
      cases ran
    | some result =>
      obtain ⟨next, address⟩ := result
      cases more : allocRealmodemems next lens with
      | none => simp only [first, more, reduceCtorEq] at ran
      | some rest =>
        obtain ⟨last, pieces⟩ := rest
        simp only [first, more] at ran
        cases ran
        have one := allocRealmodememBios_spec ordered first
        have tail := ih (by rw [one.base]; exact one.above) more
        have here := one.pieces (address, len) (by simp)
        have shown := tail.below
        have lower := one.below
        refine ⟨tail.base.trans one.base, ?_, tail.below.trans one.below, ?_⟩
        · rw [← one.base]
          exact tail.above
        · intro piece member
          rcases mem_cons.mp member with rfl | later
          · exact ⟨by omega, here.2⟩
          · have bounds := tail.pieces piece later
            exact ⟨bounds.1, by omega⟩

def Sysmemmap.Within (m other : Sysmemmap) : Prop :=
  other.base.toNat ≤ m.base.toNat ∧ m.base.toNat + m.len.toNat ≤ other.base.toNat + other.len.toNat

structure Shown (entries : List Sysmemmap) (handed : List (UInt32 × UInt32)) (vmm : VmmPhys)
    (m : Sysmemmap) : Prop where
  offVmm : ∀ a, m.Holds a → ¬(vmm.phys.toNat ≤ a ∧ a < vmm.phys.toNat + vmmsizeAll.toNat)
  offHanded : ∀ a, m.Holds a → ∀ piece ∈ handed, ¬(piece.1.toNat ≤ a ∧ a < piece.1.toNat + piece.2.toNat)
  real : ∃ entry ∈ entries, entry.Available ∧ m.Within entry

structure Hides (sysmemmap : List Sysmemmapdata) (real : Realmodemem)
    (handed : List (UInt32 × UInt32)) (vmm : VmmPhys) : Prop where
  shown : ∀ n, (getfakesysmemmap sysmemmap real vmm n).1.Available →
    Shown (sysmemmap.map (·.m)) handed vmm (getfakesysmemmap sysmemmap real vmm n).1
  aligned : 2 ^ 22 ∣ vmm.phys.toNat
  below : vmm.phys.toNat + vmmsizeAll.toNat ≤ 2 ^ 32
  home : ∃ entry ∈ sysmemmap.map (·.m), entry.Available ∧ entry.Houses vmm.phys.toNat

structure Sysmemmap.Covering (m : Sysmemmap) : Prop where
  available : m.Available
  houses : m.Houses 0xF8000000
  fits : m.base.toNat + m.len.toNat ≤ 2 ^ 64

/-- The maps that are hidden: without an available entry of no memory at address zero, or where
that entry does no harm. -/
def Hidden (entries : List Sysmemmap) : Prop :=
  (∃ m ∈ entries, m.Empty0) →
    ((∃ before m after, entries = before ++ m :: after ∧ m.Covering ∧ ∀ e ∈ before, ¬e.Empty0) ∨
        ∃ m ∈ entries, m.Covering ∧ m.base = 0) ∧
      ∃ m ∈ entries, m.Available ∧ (m.LowMemory ∨ m.base = 0 ∧ m.len ≠ 0)

structure Searched (sysmemmap : List Sysmemmapdata) (real : Realmodemem) (vmm : VmmPhys) :
    Prop where
  distinct : (sysmemmap.map (·.n)).Nodup
  apart : (sysmemmap.map (·.m)).Pairwise Sysmemmap.Apart
  realIs : real = placeRealmodemem (sysmemmap.map (·.m))
  vmmIs : vmm.SamePlace (placeVmm vmmPhysInit (sysmemmap.map (·.m)))

instance : Std.Symm Sysmemmap.Apart where
  symm _ _ away a yes no := away a no yes

theorem same_of_base (apart : entries.Pairwise Sysmemmap.Apart) {other : Sysmemmap} (member : m ∈ entries)
    (otherMember : other ∈ entries) (base : m.base = other.base) (used : 0 < m.len.toNat)
    (otherUsed : 0 < other.len.toNat) : m = other := by
  by_contra ne
  have away := apart.forall member otherMember ne m.base.toNat
  exact away ⟨Nat.le_refl _, by omega⟩ ⟨by rw [base], by rw [base]; omega⟩

theorem exists_first_empty0 (some : ∃ m ∈ entries, m.Empty0) :
    ∃ before z after, entries = before ++ z :: after ∧ z.Empty0 ∧ ∀ e ∈ before, ¬e.Empty0 := by
  have found : (entries.find? (fun m => decide m.Empty0)).isSome := by
    rw [List.find?_isSome]
    obtain ⟨m, member, empty⟩ := some
    exact ⟨m, member, decide_eq_true empty⟩
  obtain ⟨z, search⟩ := Option.isSome_iff_exists.mp found
  obtain ⟨empty, before, after, split, none⟩ := List.find?_eq_some_iff_append.mp search
  refine ⟨before, z, after, split, of_decide_eq_true empty, ?_⟩
  intro e member isEmpty
  have := none e member
  simp [isEmpty] at this

theorem getfakesysmemmap_cases {sysmemmap : List Sysmemmapdata} {real : Realmodemem} {vmm : VmmPhys}
    (available : (getfakesysmemmap sysmemmap real vmm n).1.Available) :
    (getsysmemmap sysmemmap n).1.Available ∧
      (getfakesysmemmap sysmemmap real vmm n).1.base = (getsysmemmap sysmemmap n).1.base ∧
      (getfakesysmemmap sysmemmap real vmm n).1.len =
        if (getsysmemmap sysmemmap n).1.base = vmm.e820VmmBase then vmm.e820VmmFakeLen
        else if (getsysmemmap sysmemmap n).1.base = real.base.toUInt64 then
          (real.fakelimit - real.base + 1).toUInt64
        else (getsysmemmap sysmemmap n).1.len := by
  unfold getfakesysmemmap Sysmemmap.Available at *
  generalize getsysmemmap sysmemmap n = entry at available ⊢
  obtain ⟨m, next⟩ := entry
  by_cases kind : m.type = sysmemmapTypeAvailable
  · simp only [if_pos kind] at available ⊢
    refine ⟨kind, ?_⟩
    split_ifs <;> simp_all
  · simp only [if_neg kind] at available
    exact absurd available kind

theorem getfakesysmemmap_available {sysmemmap : List Sysmemmapdata} {real : Realmodemem} {vmm : VmmPhys}
    (available : (getsysmemmap sysmemmap n).1.Available)
    (outside : ¬((getsysmemmap sysmemmap n).1.base > vmm.e820VmmBase ∧
      (getsysmemmap sysmemmap n).1.base < vmm.e820VmmEnd)) : (getfakesysmemmap sysmemmap real vmm n).1.Available := by
  unfold getfakesysmemmap Sysmemmap.Available at *
  generalize getsysmemmap sysmemmap n = entry at available outside ⊢
  obtain ⟨m, next⟩ := entry
  simp only at available outside
  simp only [if_pos available]
  split_ifs <;> simp_all

theorem getfakesysmemmap_unchanged {sysmemmap : List Sysmemmapdata} {real : Realmodemem} {vmm : VmmPhys}
    (notReal : (getsysmemmap sysmemmap n).1.base ≠ real.base.toUInt64)
    (notVmm : (getsysmemmap sysmemmap n).1.base ≠ vmm.e820VmmBase)
    (outside : ¬(getsysmemmap sysmemmap n).1.base < vmm.e820VmmEnd) :
    (getfakesysmemmap sysmemmap real vmm n).1 = (getsysmemmap sysmemmap n).1 := by
  unfold getfakesysmemmap
  generalize getsysmemmap sysmemmap n = entry at notReal notVmm outside ⊢
  obtain ⟨m, next⟩ := entry
  by_cases kind : m.type = sysmemmapTypeAvailable
  · simp only at notReal notVmm outside
    simp only [if_pos kind, if_neg notReal, if_neg notVmm, outside, and_false, if_false]
  · simp only [if_neg kind]

section Searched

variable {sysmemmap : List Sysmemmapdata} {real : Realmodemem} {vmm : VmmPhys}

theorem Searched.lookup (searched : Searched sysmemmap real vmm) (member : m ∈ sysmemmap.map (·.m)) :
    ∃ n, (getsysmemmap sysmemmap n).1 = m := by
  obtain ⟨e, inMap, rfl⟩ := mem_map.mp member
  have found : (sysmemmap.find? (·.n == e.n)).isSome := by
    rw [List.find?_isSome]
    exact ⟨e, inMap, by simp⟩
  obtain ⟨first, search⟩ := Option.isSome_iff_exists.mp found
  have key : first.n = e.n := by simpa using List.find?_some search
  have same : first = e := inj_on_of_nodup_map searched.distinct (mem_of_find?_eq_some search) inMap key
  refine ⟨e.n, ?_⟩
  rw [getsysmemmap, search, same]

theorem getsysmemmap_mem (available : (getsysmemmap sysmemmap n).1.Available) :
    (getsysmemmap sysmemmap n).1 ∈ sysmemmap.map (·.m) := by
  unfold getsysmemmap at available ⊢
  cases search : sysmemmap.find? (·.n == n) with
  | none =>
    rw [search] at available
    cases available
  | some e => exact mem_map.mpr ⟨e, mem_of_find?_eq_some search, rfl⟩

theorem Searched.at (searched : Searched sysmemmap real vmm) (succeeds : vmm.phys ≠ 0) :
    ∃ m ∈ sysmemmap.map (·.m), vmm.At m := by
  have same := searched.vmmIs
  rw [same.phys] at succeeds
  obtain ⟨m, member, place⟩ := placeVmm_at _ succeeds
  exact ⟨m, member, same.at place⟩

theorem Searched.at_early (searched : Searched sysmemmap real vmm) {before after : List Sysmemmap}
    (split : sysmemmap.map (·.m) = before ++ m :: after) (available : m.Available)
    (offer : vmmCandidate m = some 0xF8000000) : vmm.phys = 0xF8000000 ∧ ∃ e ∈ before ++ [m], vmm.At e := by
  have same := searched.vmmIs
  rw [split, append_cons, placeVmm_append] at same
  have high := placeVmm_highest available offer (before ++ [m]) (by simp)
  have found : (placeVmm vmmPhysInit (before ++ [m])).phys ≠ 0 := by
    intro zero
    rw [zero] at high
    exact absurd high (by decide)
  obtain ⟨e, member, place⟩ := placeVmm_at _ found
  have top := UInt32.le_antisymm (vmmCandidate_le place.offer) high
  have stays := placeVmm_top after _ top
  have final : vmm.SamePlace (placeVmm vmmPhysInit (before ++ [m])) :=
    ⟨same.phys.trans stays.phys, same.base.trans stays.base, same.fakeLen.trans stays.fakeLen,
      same.fakeEnd.trans stays.fakeEnd⟩
  exact ⟨final.phys.trans top, e, member, final.at place⟩

structure Home (entries : List Sysmemmap) (vmm : VmmPhys) (m : Sysmemmap) : Prop where
  member : m ∈ entries
  available : m.Available
  houses : m.Houses vmm.phys.toNat
  base : vmm.e820VmmBase = m.base
  fakeLen : vmm.e820VmmFakeLen = vmm.phys.toUInt64 - m.base

theorem Searched.home (searched : Searched sysmemmap real vmm) (succeeds : vmm.phys ≠ 0)
    (hidden : Hidden (sysmemmap.map (·.m))) : ∃ m, Home (sysmemmap.map (·.m)) vmm m := by
  obtain ⟨c, member, place⟩ := searched.at succeeds
  rcases (vmmCandidate_spec place.offer).2.2 with ⟨base, len, top⟩ | ⟨houses, -⟩
  · have empty : c.Empty0 := ⟨place.available, base, len⟩
    rcases (hidden ⟨c, member, empty⟩).1 with ⟨before, m, after, split, covering, none⟩ |
      ⟨m, coverMember, covering, zero⟩
    · obtain ⟨-, e, early, earlyPlace⟩ := searched.at_early split covering.available
        (vmmCandidate_top covering.fits covering.houses)
      have inMap : e ∈ sysmemmap.map (·.m) := by
        rw [split]
        rcases mem_append.mp early with old | new
        · exact mem_append_left _ old
        · rw [mem_singleton] at new
          simp [new]
      refine ⟨e, inMap, earlyPlace.available, ?_, earlyPlace.base, earlyPlace.fakeLen⟩
      rcases (vmmCandidate_spec earlyPlace.offer).2.2 with ⟨noBase, noLen, -⟩ | ⟨houses, -⟩
      · rcases mem_append.mp early with old | new
        · exact absurd ⟨earlyPlace.available, noBase, noLen⟩ (none e old)
        · rw [mem_singleton] at new
          rw [top, new]
          exact covering.houses
      · exact houses
    · refine ⟨m, coverMember, covering.available, ?_, ?_, ?_⟩
      · rw [top]
        exact covering.houses
      · rw [place.base, base, zero]
      · rw [place.fakeLen, base, zero]
  · exact ⟨c, member, place.available, houses, place.base, place.fakeLen⟩

theorem Home.fakeLenNat (home : Home entries vmm m) : m.base.toNat + vmm.e820VmmFakeLen.toNat = vmm.phys.toNat := by
  have starts := home.houses.starts
  have base := m.base.toNat_lt
  have phys := vmm.phys.toNat_lt
  rw [home.fakeLen, UInt64.toNat_sub, toNat_toUInt64]
  omega

theorem Searched.handed_in (searched : Searched sysmemmap real vmm) {pieces : List (UInt32 × UInt32)}
    (out : HandedOut real handed pieces) {piece : UInt32 × UInt32} (member : piece ∈ pieces) (a : Nat)
    (inside : piece.1.toNat ≤ a ∧ a < piece.1.toNat + piece.2.toNat) :
    ∃ r ∈ sysmemmap.map (·.m), r.Available ∧ r.LowMemory ∧ real.base.toUInt64 = r.base ∧
      r.Holds a ∧ handed.fakelimit.toNat < a := by
  have bounds := out.pieces piece member
  have above := out.above
  rcases placeRealmodemem_cases (sysmemmap.map (·.m)) with ⟨none, -⟩ | ⟨r, inMap, available, low, entry⟩
  · rw [searched.realIs, none] at bounds above
    simp only [UInt32.toNat_zero] at bounds above
    omega
  · rw [← searched.realIs] at entry
    have base := congrArg UInt64.toNat entry.base
    rw [toNat_toUInt64] at base
    have limit := entry.limit
    rw [entry.whole] at bounds
    exact ⟨r, inMap, available, low, entry.base, ⟨by omega, by omega⟩, by omega⟩

theorem Home.off {home : Sysmemmap} (apart : (sysmemmap.map (·.m)).Pairwise Sysmemmap.Apart)
    (at_home : Home (sysmemmap.map (·.m)) vmm home) (member : m ∈ sysmemmap.map (·.m)) (ne : m ≠ home) (a : Nat)
    (holds : m.Holds a) : ¬(vmm.phys.toNat ≤ a ∧ a < vmm.phys.toNat + vmmsizeAll.toNat) := by
  rintro ⟨low, high⟩
  have starts := at_home.houses.starts
  have ends := at_home.houses.ends
  exact apart.forall member at_home.member ne a holds ⟨by omega, by omega⟩

theorem Home.shown {told home : Sysmemmap} {pieces : List (UInt32 × UInt32)}
    (apart : (sysmemmap.map (·.m)).Pairwise Sysmemmap.Apart) (at_home : Home (sysmemmap.map (·.m)) vmm home)
    (member : m ∈ sysmemmap.map (·.m)) (available : m.Available) (ne : m ≠ home) (within : told.Within m)
    (offHanded : ∀ a, told.Holds a → ∀ piece ∈ pieces,
      ¬(piece.1.toNat ≤ a ∧ a < piece.1.toNat + piece.2.toNat)) : Shown (sysmemmap.map (·.m)) pieces vmm told := by
  refine ⟨?_, offHanded, m, member, available, within⟩
  intro a holds
  obtain ⟨low, high⟩ := holds
  obtain ⟨starts, ends⟩ := within
  exact at_home.off apart member ne a ⟨by omega, by omega⟩

variable (searched : Searched sysmemmap real vmm)
include searched

theorem Searched.shown {home : Sysmemmap} (at_home : Home (sysmemmap.map (·.m)) vmm home)
    (lowMemory : (∃ m ∈ sysmemmap.map (·.m), m.Empty0) → ∃ m ∈ sysmemmap.map (·.m),
      m.Available ∧ (m.LowMemory ∨ m.base = 0 ∧ m.len ≠ 0)) {pieces : List (UInt32 × UInt32)}
    (out : HandedOut real handed pieces) (n : UInt32)
    (reported : (getfakesysmemmap sysmemmap handed vmm n).1.Available) :
    Shown (sysmemmap.map (·.m)) pieces vmm (getfakesysmemmap sysmemmap handed vmm n).1 := by
  obtain ⟨available, base, len⟩ := getfakesysmemmap_cases reported
  have member := getsysmemmap_mem available
  generalize (getfakesysmemmap sysmemmap handed vmm n).1 = told at base len ⊢
  generalize (getsysmemmap sysmemmap n).1 = m at available base len member
  have size : vmmsizeAll.toNat = 2 ^ 27 := rfl
  have starts := at_home.houses.starts
  have ends := at_home.houses.ends
  rw [at_home.base, out.base] at len
  by_cases atVmm : m.base = home.base
  · -- The entry that gave the VMM its place is cut below it.
    rw [if_pos atVmm] at len
    have cut := at_home.fakeLenNat
    have tail : told.base.toNat + told.len.toNat = vmm.phys.toNat := by rw [base, atVmm, len, cut]
    have first : told.base.toNat = home.base.toNat := by rw [base, atVmm]
    refine ⟨?_, ?_, home, at_home.member, at_home.available, by omega, by omega⟩
    · rintro a ⟨-, below⟩ ⟨above, -⟩
      omega
    · rintro a ⟨above, below⟩ piece taken inside
      obtain ⟨r, inMap, -, low, -, holds, -⟩ := searched.handed_in out taken a inside
      have ne : r ≠ home := by
        rintro rfl
        have := low.below
        omega
      exact searched.apart.forall inMap at_home.member ne a holds ⟨by omega, by omega⟩
  rw [if_neg atVmm] at len
  by_cases atReal : m.base = real.base.toUInt64
  · rw [if_pos atReal] at len
    have above := out.above
    have below := out.below
    have fakelimit := handed.fakelimit.toNat_lt
    have one := UInt32.toNat_one
    have realBase := congrArg UInt64.toNat atReal
    rw [toNat_toUInt64] at realBase
    rcases placeRealmodemem_cases (sysmemmap.map (·.m)) with ⟨none, noLow⟩ | ⟨r, inMap, realAvailable, low, entry⟩
    · -- Without real-mode memory one byte at address zero is shown.
      rw [← searched.realIs] at none
      have zero : real.base.toNat = 0 := by rw [none]; rfl
      have shown : told.len.toNat = 1 := by
        have limit : real.fakelimit.toNat = 0 := by rw [none]; rfl
        rw [len, toNat_toUInt64, toNat_add, UInt32.toNat_sub, one]
        omega
      have noBase : m.base = 0 := by
        rw [← toNat_inj, realBase, zero]
        rfl
      obtain ⟨e, inMap, eAvailable, eBase, eLen⟩ : ∃ e ∈ sysmemmap.map (·.m), e.Available ∧ e.base = 0 ∧ e.len ≠ 0 := by
        by_cases empty : m.len = 0
        · obtain ⟨e, inMap, eAvailable, low | ⟨eBase, eLen⟩⟩ :=
            lowMemory ⟨m, member, available, noBase, empty⟩
          · exact absurd low (noLow e inMap eAvailable)
          · exact ⟨e, inMap, eAvailable, eBase, eLen⟩
        · exact ⟨m, member, available, noBase, empty⟩
      have ne : e ≠ home := by
        rintro rfl
        exact atVmm (noBase.trans eBase.symm)
      refine at_home.shown searched.apart inMap eAvailable ne ⟨?_, ?_⟩ ?_
      · rw [base, noBase, eBase]
      · have used : e.len.toNat ≠ 0 := by rwa [ne_eq, ← toNat_zero, toNat_inj]
        rw [base, noBase, eBase, shown]
        omega
      · intro a _ piece taken inside
        obtain ⟨r, lowMap, rAvailable, low, -⟩ := searched.handed_in out taken a inside
        exact noLow r lowMap rAvailable low
    · -- The entry that real-mode memory was found in is cut at the shown limit.
      rw [← searched.realIs] at entry
      have limit := entry.limit
      rw [← entry.whole] at limit
      have same : m.base = r.base := atReal.trans entry.base
      have sameNat := congrArg UInt64.toNat same
      have smaller := low.below
      have shown : told.len.toNat = handed.fakelimit.toNat - m.base.toNat + 1 := by
        rw [len, toNat_toUInt64, toNat_add, UInt32.toNat_sub, one]
        omega
      have first := congrArg UInt64.toNat base
      have ne : r ≠ home := by
        rintro rfl
        exact atVmm same
      refine at_home.shown searched.apart inMap realAvailable ne ⟨by omega, by omega⟩ ?_
      rintro a ⟨-, under⟩ piece taken inside
      obtain ⟨-, -, -, -, -, -, past⟩ := searched.handed_in out taken a inside
      omega
  · rw [if_neg atReal] at len
    have ne : m ≠ home := by
      rintro rfl
      exact atVmm rfl
    refine at_home.shown searched.apart member available ne ⟨by rw [base], by rw [base, len]⟩ ?_
    rintro a holds piece taken inside
    obtain ⟨r, inMap, -, -, realBase, rHolds, -⟩ := searched.handed_in out taken a inside
    have other : m ≠ r := by
      rintro rfl
      exact atReal realBase.symm
    unfold Sysmemmap.Holds at holds
    rw [base, len] at holds
    exact searched.apart.forall member inMap other a holds rHolds

theorem Searched.hides (succeeds : vmm.phys ≠ 0)
    (hidden : Hidden (sysmemmap.map (·.m))) {pieces : List (UInt32 × UInt32)} (out : HandedOut real handed pieces) :
    Hides sysmemmap handed pieces vmm := by
  obtain ⟨home, at_home⟩ := searched.home succeeds hidden
  obtain ⟨c, -, place⟩ := searched.at succeeds
  obtain ⟨below, aligned, -⟩ := vmmCandidate_spec place.offer
  refine ⟨?_, aligned, below, home, at_home.member, at_home.available, at_home.houses⟩
  exact fun n reported => searched.shown at_home (fun empty => (hidden empty).2) out n reported

variable (hides : Hides sysmemmap real [] vmm)
include hides

theorem Searched.home_at_zero {z home : Sysmemmap} (place : vmm.At z)
    (zBase : z.base = 0) (zLen : z.len = 0) (member : home ∈ sysmemmap.map (·.m))
    (available : home.Available) (houses : home.Houses vmm.phys.toNat) : home.base = 0 := by
  have size : vmmsizeAll.toNat = 2 ^ 27 := rfl
  have starts := houses.starts
  have ends := houses.ends
  by_contra positive
  obtain ⟨n, lookup⟩ := searched.lookup member
  have notReal : home.base ≠ real.base.toUInt64 := by
    intro same
    rcases placeRealmodemem_cases (sysmemmap.map (·.m)) with ⟨none, -⟩ | ⟨r, inMap, -, low, entry⟩
    · rw [searched.realIs, none] at same
      exact positive same
    · rw [← searched.realIs] at entry
      have one := same_of_base searched.apart member inMap (same.trans entry.base) (by omega) low.used
      have below := low.below
      rw [← one] at below
      omega
  have told : (getfakesysmemmap sysmemmap real vmm n).1 = home := by
    rw [getfakesysmemmap_unchanged, lookup]
    · rwa [lookup]
    · rw [lookup, place.base, zBase]
      exact positive
    · rw [place.fakeEnd, zBase, zLen]
      exact UInt64.not_lt.mpr (UInt64.zero_le)
  have shown := hides.shown n (by rw [told]; exact available)
  rw [told] at shown
  exact shown.offVmm vmm.phys.toNat ⟨starts, by omega⟩ ⟨Nat.le_refl _, by omega⟩

theorem Searched.low_memory {z : Sysmemmap} (member : z ∈ sysmemmap.map (·.m))
    (empty : z.Empty0) (notVmm : vmm.e820VmmBase ≠ 0) :
    ∃ m ∈ sysmemmap.map (·.m), m.Available ∧ (m.LowMemory ∨ m.base = 0 ∧ m.len ≠ 0) := by
  obtain ⟨available, zBase, zLen⟩ := empty
  rcases placeRealmodemem_cases (sysmemmap.map (·.m)) with ⟨none, -⟩ | ⟨r, inMap, rAvailable, low, -⟩
  · rw [← searched.realIs] at none
    obtain ⟨n, lookup⟩ := searched.lookup member
    have reported : (getfakesysmemmap sysmemmap real vmm n).1.Available := by
      apply getfakesysmemmap_available
      · rwa [lookup]
      · rw [lookup, zBase]
        rintro ⟨above, -⟩
        exact absurd above (UInt64.not_lt.mpr UInt64.zero_le)
    obtain ⟨-, base, len⟩ := getfakesysmemmap_cases reported
    rw [lookup, zBase] at base len
    have realBase : real.base = 0 := by rw [none]
    have realLimit : real.fakelimit = 0 := by rw [none]
    rw [if_neg (Ne.symm notVmm), realBase, realLimit, if_pos (by rfl)] at len
    obtain ⟨m, inMap, mAvailable, starts, ends⟩ := (hides.shown n reported).real
    rw [base] at starts ends
    rw [len] at ends
    have one : ((0 : UInt32) - 0 + 1).toUInt64.toNat = 1 := by decide
    rw [toNat_zero] at starts ends
    refine ⟨m, inMap, mAvailable, .inr ⟨?_, ?_⟩⟩
    · rw [← toNat_inj, toNat_zero]
      omega
    · rw [ne_eq, ← toNat_inj, toNat_zero]
      omega
  · exact ⟨r, inMap, rAvailable, .inl low⟩

theorem Searched.hidden_of_hides : Hidden (sysmemmap.map (·.m)) := by
  intro some
  obtain ⟨before, z, after, split, empty, none⟩ := exists_first_empty0 some
  obtain ⟨top, c, early, place⟩ := searched.at_early split empty.1 (vmmCandidate_empty0 empty)
  have topNat : vmm.phys.toNat = 0xF8000000 := by
    rw [top]
    rfl
  have zMember : z ∈ sysmemmap.map (·.m) := by simp [split]
  have cMember : c ∈ sysmemmap.map (·.m) := by
    rw [split]
    rcases mem_append.mp early with old | new
    · exact mem_append_left _ old
    · rw [mem_singleton] at new
      simp [new]
  rcases (vmmCandidate_spec place.offer).2.2 with ⟨cBase, cLen, -⟩ | ⟨houses, fits⟩
  · obtain ⟨home, homeMember, available, homeHouses⟩ := hides.home
    have zero := searched.home_at_zero hides place cBase cLen homeMember available homeHouses
    have ends := homeHouses.ends
    have noBase : home.base.toNat = 0 := by
      rw [zero]
      rfl
    have homeLen := home.len.toNat_lt
    rw [topNat] at homeHouses ends
    refine ⟨.inr ⟨home, homeMember, ⟨available, homeHouses, by omega⟩, zero⟩,
      home, homeMember, available, .inr ⟨zero, ?_⟩⟩
    rw [ne_eq, ← toNat_inj, toNat_zero]
    omega
  · have ends := houses.ends
    have size : vmmsizeAll.toNat = 2 ^ 27 := rfl
    have starts := houses.starts
    rw [topNat] at houses starts ends
    have used : c.len ≠ 0 := by
      rw [ne_eq, ← toNat_inj, toNat_zero]
      omega
    refine ⟨.inl ?_, ?_⟩
    · rcases mem_append.mp early with old | new
      · obtain ⟨first, last, shape⟩ := append_of_mem old
        refine ⟨first, c, last ++ z :: after, ?_, ⟨place.available, houses, fits⟩, ?_⟩
        · rw [split, shape, append_assoc, cons_append]
        · intro e member
          exact none e (by rw [shape]; exact mem_append_left _ member)
      · rw [mem_singleton] at new
        exact absurd (new ▸ empty.2.2) used
    · by_cases zero : c.base = 0
      · exact ⟨c, cMember, place.available, .inr ⟨zero, used⟩⟩
      · exact searched.low_memory hides zMember empty (by rwa [place.base])

end Searched

variable {answer : Nat → Sysmemmap × UInt32}

theorem searched_of_found {real : Realmodemem} {vmm : VmmPhys} {fuelReal fuelVmm : Nat}
    (apart : ((getallsysmemmapBios answer).map (·.m)).Pairwise Sysmemmap.Apart)
    (foundReal : findRealmodemem (getallsysmemmapBios answer) fuelReal = some real)
    (foundVmm : findVmmPhys (getallsysmemmapBios answer) fuelVmm = some vmm) :
    Searched (getallsysmemmapBios answer) real vmm := by
  have leads : LeadTo [] 0 := fun e member => by cases member
  obtain ⟨distinct, realIs⟩ := sysmemmapLoop_fold (fun s => rfl) maxnumOfSysmemmap 0 0 []
    fuelReal _ real leads nodup_nil foundReal
  obtain ⟨-, vmmIs⟩ := sysmemmapLoop_fold (fun s => rfl) maxnumOfSysmemmap 0 0 [] fuelVmm _ vmm leads nodup_nil foundVmm
  refine ⟨distinct, apart, ?_, ?_⟩
  · rw [realIs, placeRealmodemem, foldl_map]
    rfl
  · rw [vmmIs, placeVmm, foldl_map]
    exact ⟨rfl, rfl, rfl, rfl⟩

/-- The map is hidden, whatever real-mode memory is handed out later, exactly when an available
entry of no memory at address zero does no harm. -/
theorem memory_map_hidden_iff (answer : Nat → Sysmemmap × UInt32) {real : Realmodemem}
    {vmm : VmmPhys} {fuelReal fuelVmm : Nat}
    (apart : ((getallsysmemmapBios answer).map (·.m)).Pairwise Sysmemmap.Apart)
    (foundReal : findRealmodemem (getallsysmemmapBios answer) fuelReal = some real)
    (foundVmm : findVmmPhys (getallsysmemmapBios answer) fuelVmm = some vmm) (succeeds : vmm.phys ≠ 0) :
    (∀ lens handed pieces, allocRealmodemems real lens = some (handed, pieces) →
        Hides (getallsysmemmapBios answer) handed pieces vmm) ↔
      Hidden ((getallsysmemmapBios answer).map (·.m)) := by
  have searched := searched_of_found apart foundReal foundVmm
  constructor
  · intro always
    exact searched.hidden_of_hides (always [] real [] rfl)
  · intro hidden lens handed pieces ran
    have ordered : real.base.toNat ≤ real.fakelimit.toNat := by
      rcases placeRealmodemem_cases ((getallsysmemmapBios answer).map (·.m)) with ⟨none, -⟩ | ⟨r, -, -, low, entry⟩
      · rw [searched.realIs, none]
      · rw [← searched.realIs] at entry
        have base := congrArg UInt64.toNat entry.base
        rw [toNat_toUInt64] at base
        have limit := entry.limit
        have used := low.used
        rw [entry.whole]
        omega
    exact searched.hides succeeds hidden (allocRealmodemems_spec lens ordered ran)

def availableRanges (ranges : List (UInt64 × UInt64)) (i : Nat) : Sysmemmap × UInt32 :=
  match ranges[i]? with
  | none => ({ base := 0, len := 0, type := 0 }, 0)
  | some (base, len) =>
    ({ base := base, len := len, type := sysmemmapTypeAvailable },
      if i + 1 < ranges.length then UInt32.ofNat (i + 1) else 0)

/-- Low memory of 639 KiB, of which two pieces are handed out, and 1 GiB from the first MiB on. -/
theorem memory_map_hidden_plain :
    Hides (getallsysmemmapBios (availableRanges [(0, 0x9FC00), (0x100000, 0x40000000)]))
      { base := 0, limit := 0x9FBFF, fakelimit := 0x9CBFF } [(0x9EC00, 0x1000), (0x9CC00, 0x2000)]
      { phys := 0x38000000, memsize := 0x4009FC00, vmmsize := 0x8100000,
        e820VmmBase := 0x100000, e820VmmFakeLen := 0x37F00000, e820VmmEnd := 0x40100000 } := by
  refine (@memory_map_hidden_iff (availableRanges [(0, 0x9FC00), (0x100000, 0x40000000)])
    { base := 0, limit := 0x9FBFF, fakelimit := 0x9FBFF } _ 3 3 ?_ rfl rfl (by decide)).mpr ?_
    [0x1000, 0x2000] _ _ rfl
  · refine pairwise_pair.mpr ?_
    rintro a ⟨-, below⟩ ⟨above, -⟩
    exact absurd (Nat.lt_of_le_of_lt above below) (by decide)
  · rintro ⟨m, member, empty⟩
    exfalso
    revert empty
    revert m
    decide

/-- An available entry of no memory at address zero takes the VMM to the last 128 MiB below 4 GiB,
where this map has no memory. -/
theorem memory_map_not_hidden : ¬∀ (answer : Nat → Sysmemmap × UInt32) (real : Realmodemem)
    (vmm : VmmPhys) (fuelReal fuelVmm : Nat),
    ((getallsysmemmapBios answer).map (·.m)).Pairwise Sysmemmap.Apart →
    findRealmodemem (getallsysmemmapBios answer) fuelReal = some real →
    findVmmPhys (getallsysmemmapBios answer) fuelVmm = some vmm → vmm.phys ≠ 0 →
    ∀ lens handed pieces, allocRealmodemems real lens = some (handed, pieces) →
      Hides (getallsysmemmapBios answer) handed pieces vmm := by
  intro always
  have hides := always (availableRanges [(0, 0), (0x100000, 0x10000000)]) _ _ 3 3 (by
    refine pairwise_pair.mpr ?_
    rintro a ⟨above, below⟩
    exact absurd (Nat.lt_of_le_of_lt above below) (by decide)) rfl rfl (by decide) [] _ _ rfl
  obtain ⟨entry, member, -, -, ends⟩ := hides.home
  revert ends
  revert entry
  decide

end DisasVisor.Mm
