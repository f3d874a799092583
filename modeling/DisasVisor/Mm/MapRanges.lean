import Mathlib.Data.List.Basic
import Mathlib.Data.List.Pairwise
import Mathlib.Tactic.IntervalCases

/-!
The memory map of the BIOS in `core/mm.c`: the places chosen for the VMM and for real-mode memory,
and the map that is shown to the guest.
-/

namespace DisasVisor.Mm

open List
open UInt64 (toNat_sub toNat_add le_iff_toNat_le toNat_toUInt32 toNat_zero toNat_inj)

structure Sysmemmap where
  base : UInt64
  len : UInt64
  type : UInt32
  deriving DecidableEq

structure Sysmemmapdata where
  n : UInt32
  nn : UInt32
  m : Sysmemmap
  deriving DecidableEq

def sysmemmapTypeAvailable : UInt32 := 1
def sysmemmapTypeReserved : UInt32 := 2
def maxnumOfSysmemmap : Nat := 256
def vmmsizeAll : UInt32 := 0x8000000

/-- `getallsysmemmap_bios`, with the answer that each call of the BIOS gives. -/
def getallsysmemmapLoop (answer : Nat → Sysmemmap × UInt32) :
    Nat → Nat → UInt32 → List Sysmemmapdata
  | 0, _, _ => []
  | room + 1, i, n =>
    { n := n, nn := (answer i).2, m := (answer i).1 } ::
      if (answer i).2 = 0 then []
      else getallsysmemmapLoop answer room (i + 1) (answer i).2

def getallsysmemmapBios (answer : Nat → Sysmemmap × UInt32) : List Sysmemmapdata :=
  getallsysmemmapLoop answer maxnumOfSysmemmap 0 0

def getsysmemmap (sysmemmap : List Sysmemmapdata) (n : UInt32) : Sysmemmap × UInt32 :=
  match sysmemmap.find? (·.n == n) with
  | some entry => (entry.m, entry.nn)
  | none => ({ base := 0, len := 0, type := 0 }, 0)

def sysmemmapLoop {σ : Type} (sysmemmap : List Sysmemmapdata) (body : Sysmemmap → σ → σ) :
    Nat → UInt32 → σ → Option σ
  | 0, _, _ => none
  | fuel + 1, n, s =>
    let (m, nn) := getsysmemmap sysmemmap n
    if nn = 0 then some (body m s) else sysmemmapLoop sysmemmap body fuel nn (body m s)

structure VmmPhys where
  phys : UInt32
  memsize : UInt64
  vmmsize : UInt64
  e820VmmBase : UInt64
  e820VmmFakeLen : UInt64
  e820VmmEnd : UInt64

def vmmRange (m : Sysmemmap) : Option (UInt32 × UInt32) :=
  if m.base ≥ 0x100000000 then none
  else
    let limit64 := m.base + m.len - 1
    let limit64 := if limit64 ≥ 0x100000000 then 0xFFFFFFFF else limit64
    let base32 := m.base.toUInt32
    let limit32 := limit64.toUInt32
    if base32 > limit32 then none
    else if base32 > 0xFFFFFFFF - vmmsizeAll + 1 then none
    else if limit32 < vmmsizeAll then none
    else
      let base32 := (base32 + 0x003FFFFF) &&& 0xFFC00000
      let limit32 := ((limit32 + 1) &&& 0xFFC00000) - 1
      if base32 > limit32 then none else some (base32, limit32)

def findVmmPhysBody (m : Sysmemmap) (s : VmmPhys) : VmmPhys :=
  if m.type ≠ sysmemmapTypeAvailable then s
  else
    let s := { s with memsize := s.memsize + m.len }
    match vmmRange m with
    | none => s
    | some (base32, limit32) =>
      if limit32 - base32 ≥ vmmsizeAll - 1 ∧ s.phys < limit32 - (vmmsizeAll - 1) then
        let phys := limit32 - (vmmsizeAll - 1)
        let fakeLen := phys.toUInt64 - m.base
        { s with
          phys := phys, e820VmmBase := m.base, e820VmmFakeLen := fakeLen,
          vmmsize := m.len - fakeLen, e820VmmEnd := m.base + m.len }
      else s

def vmmPhysInit : VmmPhys :=
  { phys := 0, memsize := 0, vmmsize := vmmsizeAll.toUInt64, e820VmmBase := 0,
    e820VmmFakeLen := 0, e820VmmEnd := 0 }

def findVmmPhys (sysmemmap : List Sysmemmapdata) (fuel : Nat) : Option VmmPhys :=
  sysmemmapLoop sysmemmap findVmmPhysBody fuel 0 vmmPhysInit

structure Realmodemem where
  base : UInt32
  limit : UInt32
  fakelimit : UInt32

def findRealmodememBody (m : Sysmemmap) (s : Realmodemem) : Realmodemem :=
  if m.type ≠ sysmemmapTypeAvailable then s
  else if m.base ≥ 0x100000 then s
  else
    let limit64 := m.base + m.len - 1
    if limit64 ≥ 0x100000 then s
    else
      let base32 := m.base.toUInt32
      let limit32 := limit64.toUInt32
      if base32 > limit32 then s
      else if limit32 - base32 ≥ s.limit - s.base then
        { base := base32, limit := limit32, fakelimit := limit32 }
      else s

def findRealmodemem (sysmemmap : List Sysmemmapdata) (fuel : Nat) : Option Realmodemem :=
  sysmemmapLoop sysmemmap findRealmodememBody fuel 0 { base := 0, limit := 0, fakelimit := 0 }

def allocRealmodememBios (s : Realmodemem) (len : UInt32) : Option (Realmodemem × UInt32) :=
  if 0 < len ∧ len < s.fakelimit - s.base + 1 then
    let fakelimit := s.fakelimit - len
    some ({ s with fakelimit := fakelimit }, fakelimit + 1)
  else none

def allocRealmodemems (s : Realmodemem) :
    List UInt32 → Option (Realmodemem × List (UInt32 × UInt32))
  | [] => some (s, [])
  | len :: lens =>
    match allocRealmodememBios s len with
    | none => none
    | some (s, address) =>
      match allocRealmodemems s lens with
      | none => none
      | some (s, handed) => some (s, (address, len) :: handed)

def getfakesysmemmap (sysmemmap : List Sysmemmapdata) (real : Realmodemem) (vmm : VmmPhys)
    (n : UInt32) : Sysmemmap × UInt32 :=
  let (m, r) := getsysmemmap sysmemmap n
  if m.type = sysmemmapTypeAvailable then
    let m := if m.base = real.base.toUInt64 then
      { m with len := (real.fakelimit - real.base + 1).toUInt64 } else m
    let m := if m.base = vmm.e820VmmBase then { m with len := vmm.e820VmmFakeLen } else m
    let m := if m.base > vmm.e820VmmBase ∧ m.base < vmm.e820VmmEnd then
      { m with type := sysmemmapTypeReserved } else m
    (m, r)
  else (m, r)

variable {answer : Nat → Sysmemmap × UInt32} {σ : Type} {body : Sysmemmap → σ → σ}

theorem sysmemmapLoop_cycle {sysmemmap : List Sysmemmapdata} (keys : List UInt32)
    (closed : ∀ n ∈ keys, (getsysmemmap sysmemmap n).2 ≠ 0 ∧ (getsysmemmap sysmemmap n).2 ∈ keys)
    (fuel : Nat) : ∀ n ∈ keys, ∀ s : σ, sysmemmapLoop sysmemmap body fuel n s = none := by
  induction fuel with
  | zero =>
    intro n _ s
    rfl
  | succ fuel ih =>
    intro n member s
    obtain ⟨more, next⟩ := closed n member
    simp only [sysmemmapLoop, if_neg more]
    exact ih _ next _

def LeadTo (before : List Sysmemmapdata) (n : UInt32) : Prop :=
  ∀ e ∈ before, e.nn ≠ 0 ∧ (e.nn ∈ before.map (·.n) ∨ e.nn = n)

theorem getsysmemmap_of_key {before after : List Sysmemmapdata} {n : UInt32} (member : n ∈ before.map (·.n)) :
    ∃ e ∈ before, getsysmemmap (before ++ after) n = (e.m, e.nn) := by
  obtain ⟨e, inBefore, key⟩ := mem_map.mp member
  have found : (before.find? (·.n == n)).isSome := by
    rw [List.find?_isSome]
    exact ⟨e, inBefore, by simp [key]⟩
  obtain ⟨first, search⟩ := Option.isSome_iff_exists.mp found
  refine ⟨first, mem_of_find?_eq_some search, ?_⟩
  rw [getsysmemmap, List.find?_append, search]
  rfl

theorem loop_not_back {before after : List Sysmemmapdata} {n : UInt32} (leads : LeadTo before n)
    {fuel : Nat} {s r : σ} (ran : sysmemmapLoop (before ++ after) body fuel n s = some r) :
    n ∉ before.map (·.n) := by
  intro back
  have closed : ∀ k ∈ before.map (·.n), (getsysmemmap (before ++ after) k).2 ≠ 0 ∧
      (getsysmemmap (before ++ after) k).2 ∈ before.map (·.n) := by
    intro k member
    obtain ⟨e, inBefore, eq⟩ : ∃ e ∈ before, getsysmemmap (before ++ after) k = (e.m, e.nn) :=
      getsysmemmap_of_key member
    rw [eq]
    obtain ⟨more, next⟩ := leads e inBefore
    refine ⟨more, ?_⟩
    rcases next with stays | same
    · exact stays
    · rwa [same]
  rw [sysmemmapLoop_cycle _ closed fuel n back] at ran
  cases ran

theorem sysmemmapLoop_fold (ignores : ∀ s : σ, body { base := 0, len := 0, type := 0 } s = s)
    (room : Nat) : ∀ (i : Nat) (n : UInt32) (before : List Sysmemmapdata) (fuel : Nat) (s r : σ),
    LeadTo before n → (before.map (·.n)).Nodup →
    sysmemmapLoop (before ++ getallsysmemmapLoop answer room i n) body fuel n s = some r →
    ((before ++ getallsysmemmapLoop answer room i n).map (·.n)).Nodup ∧
      r = (getallsysmemmapLoop answer room i n).foldl (fun s e => body e.m s) s := by
  induction room with
  | zero =>
    intro i n before fuel s r leads distinct ran
    have fresh := loop_not_back leads ran
    simp only [getallsysmemmapLoop, append_nil, foldl_nil] at ran ⊢
    refine ⟨distinct, ?_⟩
    cases fuel with
    | zero => cases ran
    | succ fuel =>
      have missing : before.find? (·.n == n) = none := by
        rw [List.find?_eq_none]
        intro e member same
        exact fresh (mem_map.mpr ⟨e, member, by simpa using same⟩)
      simp only [sysmemmapLoop, getsysmemmap, missing, if_true, Option.some.injEq, ignores] at ran
      exact ran.symm
  | succ room ih =>
    intro i n before fuel s r leads distinct ran
    have fresh := loop_not_back leads ran
    generalize first : ({ n := n, nn := (answer i).2, m := (answer i).1 } : Sysmemmapdata) = e
    have key : e.n = n := by rw [← first]
    have after : e.nn = (answer i).2 := by rw [← first]
    have shape : getallsysmemmapLoop answer (room + 1) i n =
        e :: if e.nn = 0 then [] else getallsysmemmapLoop answer room (i + 1) e.nn := by
      rw [getallsysmemmapLoop, first, after]
    rw [shape] at ran ⊢
    have grown : ((before ++ [e]).map (·.n)).Nodup := by
      rw [map_append, nodup_append]
      refine ⟨distinct, by simp, ?_⟩
      intro k old other single
      rw [map_singleton, mem_singleton, key] at single
      rintro rfl
      exact fresh (single ▸ old)
    have lookup : ∀ rest, getsysmemmap (before ++ e :: rest) n = (e.m, e.nn) := by
      intro rest
      have missing : before.find? (·.n == n) = none := by
        rw [List.find?_eq_none]
        intro other member same
        exact fresh (mem_map.mpr ⟨other, member, by simpa using same⟩)
      simp [getsysmemmap, List.find?_append, missing, key]
    cases fuel with
    | zero => cases ran
    | succ fuel =>
      simp only [sysmemmapLoop, lookup] at ran
      by_cases last : e.nn = 0
      · simp only [last, if_true, Option.some.injEq] at ran ⊢
        exact ⟨grown, ran.symm⟩
      · simp only [if_neg last] at ran ⊢
        have next : LeadTo (before ++ [e]) e.nn := by
          intro other member
          rcases mem_append.mp member with old | new
          · obtain ⟨more, goes⟩ := leads other old
            refine ⟨more, .inl ?_⟩
            rw [map_append, mem_append]
            rcases goes with stays | same
            · exact .inl stays
            · exact .inr (by simp [same, key])
          · rw [mem_singleton] at new
            subst new
            exact ⟨last, .inr rfl⟩
        rw [append_cons] at ran
        obtain ⟨all, fold⟩ := ih (i + 1) e.nn (before ++ [e]) fuel _ r next grown ran
        rw [← append_cons] at all
        exact ⟨all, fold⟩

/-!
What `find_vmm_phys` and `find_realmodemem` take from one entry of the BIOS map, in the unbounded
numbers.
-/

def Sysmemmap.Holds (m : Sysmemmap) (a : Nat) : Prop := m.base.toNat ≤ a ∧ a < m.base.toNat + m.len.toNat

def Sysmemmap.Available (m : Sysmemmap) : Prop := m.type = sysmemmapTypeAvailable

/-- The entry that no check of `find_vmm_phys` skips although it has no memory: its limit, computed
as base plus length minus one, wraps below zero. -/
def Sysmemmap.Empty0 (m : Sysmemmap) : Prop := m.Available ∧ m.base = 0 ∧ m.len = 0

instance (m : Sysmemmap) : Decidable m.Available := by
  unfold Sysmemmap.Available
  infer_instance

instance (m : Sysmemmap) : Decidable m.Empty0 := by
  unfold Sysmemmap.Empty0
  infer_instance

theorem mask_4mib (x : UInt32) : (x &&& 0xFFC00000).toNat = x.toNat / 2 ^ 22 * 2 ^ 22 := by
  have bound := x.toNat_lt
  apply Nat.eq_of_testBit_eq
  intro i
  rw [UInt32.toNat_and, Nat.testBit_and, Nat.testBit_mul_two_pow, Nat.testBit_div_two_pow]
  have mask : (0xFFC00000 : UInt32).toNat = (2 ^ 10 - 1) * 2 ^ 22 := by decide
  rw [mask, Nat.testBit_mul_two_pow, Nat.testBit_two_pow_sub_one]
  by_cases low : 22 ≤ i
  · rw [Nat.sub_add_cancel low]
    by_cases high : i - 22 < 10
    · simp [low, high]
    · have zero : x.toNat.testBit i = false :=
        Nat.testBit_lt_two_pow (Nat.lt_of_lt_of_le bound (Nat.pow_le_pow_right (by omega) (by omega)))
      simp [zero]
  · simp [low]

/-- The limit that `find_vmm_phys` compares: the last address of the entry, which wraps, or of the
low 4 GiB. -/
def vmmLimit (m : Sysmemmap) : Nat := min ((m.base.toNat + m.len.toNat + (2 ^ 64 - 1)) % 2 ^ 64) (2 ^ 32 - 1)

theorem vmmLimit_clamp (m : Sysmemmap) :
    (if m.base + m.len - 1 ≥ 0x100000000 then 0xFFFFFFFF else m.base + m.len - 1 : UInt64).toNat = vmmLimit m := by
  have four : (0x100000000 : UInt64).toNat = 2 ^ 32 := rfl
  have top : (0xFFFFFFFF : UInt64).toNat = 2 ^ 32 - 1 := rfl
  have one := UInt64.toNat_one
  have limit : (m.base + m.len - 1).toNat = (m.base.toNat + m.len.toNat + (2 ^ 64 - 1)) % 2 ^ 64 := by
    rw [toNat_sub, toNat_add, one]
    omega
  unfold vmmLimit
  by_cases high : m.base + m.len - 1 ≥ 0x100000000
  · rw [if_pos high, top]
    rw [ge_iff_le, le_iff_toNat_le, four] at high
    omega
  · rw [if_neg high]
    rw [ge_iff_le, le_iff_toNat_le, four] at high
    omega

theorem align_down_last {limit : UInt32} (large : 2 ^ 27 ≤ limit.toNat) :
    (((limit + 1) &&& 0xFFC00000) - 1).toNat + 1 = (limit.toNat + 1) / 2 ^ 22 * 2 ^ 22 := by
  have bound := limit.toNat_lt
  have one := UInt32.toNat_one
  rw [UInt32.toNat_sub, mask_4mib, UInt32.toNat_add, one]
  omega

theorem align_up {base : UInt32} (small : base.toNat ≤ 0xF8000000) :
    ((base + 0x003FFFFF) &&& 0xFFC00000).toNat = (base.toNat + (2 ^ 22 - 1)) / 2 ^ 22 * 2 ^ 22 := by
  have mask : (0x003FFFFF : UInt32).toNat = 2 ^ 22 - 1 := rfl
  rw [mask_4mib, UInt32.toNat_add, mask]
  omega

theorem vmmRange_iff (m : Sysmemmap) (lo hi : UInt32) :
    vmmRange m = some (lo, hi) ↔
      m.base.toNat ≤ 0xF8000000 ∧ m.base.toNat ≤ vmmLimit m ∧ 2 ^ 27 ≤ vmmLimit m ∧
        lo.toNat = (m.base.toNat + (2 ^ 22 - 1)) / 2 ^ 22 * 2 ^ 22 ∧
        hi.toNat + 1 = (vmmLimit m + 1) / 2 ^ 22 * 2 ^ 22 ∧ lo.toNat ≤ hi.toNat := by
  have four : (0x100000000 : UInt64).toNat = 2 ^ 32 := rfl
  have size : vmmsizeAll.toNat = 2 ^ 27 := rfl
  have room : (0xFFFFFFFF - vmmsizeAll + 1).toNat = 0xF8000000 := rfl
  have clamp := vmmLimit_clamp m
  have most : vmmLimit m ≤ 2 ^ 32 - 1 := Nat.min_le_right _ _
  unfold vmmRange
  simp only
  generalize (if m.base + m.len - 1 ≥ 0x100000000 then 0xFFFFFFFF else m.base + m.len - 1 : UInt64) = limit64 at clamp ⊢
  have limit32 : limit64.toUInt32.toNat = vmmLimit m := by
    rw [toNat_toUInt32, clamp, Nat.mod_eq_of_lt (by omega)]
  by_cases high : m.base ≥ 0x100000000
  · rw [if_pos high]
    rw [ge_iff_le, le_iff_toNat_le, four] at high
    constructor
    · intro impossible
      cases impossible
    · rintro ⟨small, -⟩
      omega
  rw [if_neg high]
  rw [ge_iff_le, le_iff_toNat_le, four] at high
  have base32 : m.base.toUInt32.toNat = m.base.toNat := by rw [toNat_toUInt32, Nat.mod_eq_of_lt (by omega)]
  simp only [gt_iff_lt, UInt32.lt_iff_toNat_lt, base32, limit32, size, room]
  by_cases strange : vmmLimit m < m.base.toNat
  · rw [if_pos strange]
    simp only [reduceCtorEq, false_iff]
    omega
  by_cases above : 0xF8000000 < m.base.toNat
  · rw [if_neg strange, if_pos above]
    simp only [reduceCtorEq, false_iff]
    omega
  by_cases short : vmmLimit m < 2 ^ 27
  · rw [if_neg strange, if_neg above, if_pos short]
    simp only [reduceCtorEq, false_iff]
    omega
  rw [if_neg strange, if_neg above, if_neg short]
  have loNat := @align_up m.base.toUInt32 (by omega)
  have hiNat := @align_down_last limit64.toUInt32 (by omega)
  rw [base32] at loNat
  rw [limit32] at hiNat
  generalize (m.base.toUInt32 + 0x003FFFFF) &&& 0xFFC00000 = lo' at loNat ⊢
  generalize ((limit64.toUInt32 + 1) &&& 0xFFC00000) - 1 = hi' at hiNat ⊢
  by_cases lack : hi'.toNat < lo'.toNat
  · rw [if_pos lack]
    simp only [reduceCtorEq, false_iff]
    rintro ⟨-, -, -, loIs, hiIs, ordered⟩
    omega
  rw [if_neg lack, Option.some.injEq, Prod.mk.injEq, ← UInt32.toNat_inj, ← UInt32.toNat_inj]
  constructor
  · rintro ⟨loSame, hiSame⟩
    omega
  · rintro ⟨-, -, -, loIs, hiIs, -⟩
    omega

theorem vmmRange_spec {m : Sysmemmap} {lo hi : UInt32} (range : vmmRange m = some (lo, hi)) :
    (m.base = 0 ∧ m.len = 0 ∧ lo.toNat = 0 ∧ hi.toNat = 2 ^ 32 - 1) ∨
      (0 < m.len.toNat ∧ m.base.toNat + m.len.toNat ≤ 2 ^ 64 ∧ m.base.toNat ≤ lo.toNat ∧
        lo.toNat ≤ hi.toNat ∧ hi.toNat + 1 ≤ m.base.toNat + m.len.toNat ∧
        2 ^ 22 ∣ hi.toNat + 1) := by
  obtain ⟨small, ordered, -, loIs, hiIs, left⟩ := (vmmRange_iff m lo hi).mp range
  have len := m.len.toNat_lt
  unfold vmmLimit at ordered hiIs
  by_cases empty : m.base = 0 ∧ m.len = 0
  · obtain ⟨noBase, noLen⟩ := empty
    rw [noBase, noLen, toNat_zero] at hiIs
    rw [noBase, toNat_zero] at loIs
    exact .inl ⟨noBase, noLen, by omega, by omega⟩
  · rw [← toNat_inj, ← toNat_inj, toNat_zero] at empty
    refine .inr ⟨by omega, by omega, by omega, left, by omega, ?_⟩
    rw [hiIs]
    exact Nat.dvd_mul_left _ _

def vmmCandidate (m : Sysmemmap) : Option UInt32 :=
  match vmmRange m with
  | none => none
  | some (base32, limit32) => if limit32 - base32 ≥ vmmsizeAll - 1 then some (limit32 - (vmmsizeAll - 1)) else none

structure Sysmemmap.Houses (m : Sysmemmap) (phys : Nat) : Prop where
  starts : m.base.toNat ≤ phys
  ends : phys + vmmsizeAll.toNat ≤ m.base.toNat + m.len.toNat

theorem vmmCandidate_spec {m : Sysmemmap} {phys : UInt32} (offer : vmmCandidate m = some phys) :
    phys.toNat + vmmsizeAll.toNat ≤ 2 ^ 32 ∧ 2 ^ 22 ∣ phys.toNat ∧
      ((m.base = 0 ∧ m.len = 0 ∧ phys = 0xF8000000) ∨
        (m.Houses phys.toNat ∧ m.base.toNat + m.len.toNat ≤ 2 ^ 64)) := by
  have size : vmmsizeAll.toNat = 2 ^ 27 := rfl
  have last : (vmmsizeAll - 1).toNat = 2 ^ 27 - 1 := rfl
  unfold vmmCandidate at offer
  split at offer
  · cases offer
  rename_i lo hi range
  split at offer
  · rename_i enough
    rw [ge_iff_le, UInt32.le_iff_toNat_le, last, UInt32.toNat_sub] at enough
    have bound := hi.toNat_lt
    have physNat : phys.toNat = (2 ^ 32 - (2 ^ 27 - 1) + hi.toNat) % 2 ^ 32 := by
      rw [← Option.some.inj offer, UInt32.toNat_sub, last]
    rcases vmmRange_spec range with empty | ⟨used, fits, above, ordered, below, units⟩
    · obtain ⟨noBase, noLen, zero, top⟩ := empty
      have place : phys = 0xF8000000 := by
        rw [← UInt32.toNat_inj, physNat, top]
        rfl
      rw [place]
      exact ⟨by decide, by decide, .inl ⟨noBase, noLen, rfl⟩⟩
    · obtain ⟨count, units⟩ := units
      refine ⟨by omega, ⟨count - 32, by omega⟩, .inr ⟨⟨by omega, ?_⟩, fits⟩⟩
      rw [size]
      omega
  · cases offer

theorem vmmCandidate_top {m : Sysmemmap} (fits : m.base.toNat + m.len.toNat ≤ 2 ^ 64)
    (houses : m.Houses 0xF8000000) : vmmCandidate m = some 0xF8000000 := by
  have size : vmmsizeAll.toNat = 2 ^ 27 := rfl
  obtain ⟨starts, ends⟩ := houses
  rw [size] at ends
  have limit : vmmLimit m = 2 ^ 32 - 1 := by
    unfold vmmLimit
    omega
  have range : vmmRange m = some ((m.base.toUInt32 + 0x003FFFFF) &&& 0xFFC00000, 0xFFFFFFFF) := by
    have base32 : m.base.toUInt32.toNat = m.base.toNat := by rw [toNat_toUInt32, Nat.mod_eq_of_lt (by omega)]
    have up := @align_up m.base.toUInt32 (by omega)
    have top : (0xFFFFFFFF : UInt32).toNat = 2 ^ 32 - 1 := rfl
    rw [vmmRange_iff, limit, up, base32, top]
    omega
  rw [vmmCandidate, range]
  have first := ((vmmRange_iff m _ _).mp range).2.2.2.1
  generalize (m.base.toUInt32 + 0x003FFFFF) &&& 0xFFC00000 = lo at first ⊢
  have enough : (0xFFFFFFFF : UInt32) - lo ≥ vmmsizeAll - 1 := by
    have last : (vmmsizeAll - 1).toNat = 2 ^ 27 - 1 := rfl
    have top : (0xFFFFFFFF : UInt32).toNat = 2 ^ 32 - 1 := rfl
    rw [ge_iff_le, UInt32.le_iff_toNat_le, last, UInt32.toNat_sub, top]
    omega
  simp only [if_pos enough, Option.some.injEq]
  rfl

theorem vmmCandidate_empty0 {m : Sysmemmap} (empty : m.Empty0) : vmmCandidate m = some 0xF8000000 := by
  obtain ⟨-, base, len⟩ := empty
  rw [vmmCandidate, vmmRange, base, len]
  rfl

theorem vmmCandidate_le {m : Sysmemmap} {phys : UInt32} (offer : vmmCandidate m = some phys) : phys ≤ 0xF8000000 := by
  have fits := (vmmCandidate_spec offer).1
  have size : vmmsizeAll.toNat = 2 ^ 27 := rfl
  have top : (0xF8000000 : UInt32).toNat = 0xF8000000 := rfl
  rw [UInt32.le_iff_toNat_le, top]
  omega

structure Sysmemmap.LowMemory (m : Sysmemmap) : Prop where
  used : 0 < m.len.toNat
  below : m.base.toNat + m.len.toNat ≤ 2 ^ 20

structure Realmodemem.IsEntry (s : Realmodemem) (m : Sysmemmap) : Prop where
  base : s.base.toUInt64 = m.base
  limit : s.limit.toNat + 1 = m.base.toNat + m.len.toNat
  whole : s.fakelimit = s.limit

theorem findRealmodememBody_spec (m : Sysmemmap) (s : Realmodemem) :
    (findRealmodememBody m s = s ∧ (m.Available → m.LowMemory → s.base ≠ s.limit)) ∨
      (m.Available ∧ m.LowMemory ∧ (findRealmodememBody m s).IsEntry m) := by
  have mega : (0x100000 : UInt64).toNat = 2 ^ 20 := rfl
  have one := UInt64.toNat_one
  have base := m.base.toNat_lt
  have len := m.len.toNat_lt
  unfold findRealmodememBody
  by_cases other : m.type ≠ sysmemmapTypeAvailable
  · rw [if_pos other]
    exact .inl ⟨rfl, fun available => absurd available other⟩
  rw [if_neg other]
  simp only
  have limit : (m.base + m.len - 1).toNat = (m.base.toNat + m.len.toNat + (2 ^ 64 - 1)) % 2 ^ 64 := by
    rw [toNat_sub, toNat_add, one]
    omega
  generalize m.base + m.len - 1 = limit64 at limit ⊢
  by_cases high : m.base ≥ 0x100000
  · rw [if_pos high]
    rw [ge_iff_le, le_iff_toNat_le, mega] at high
    exact .inl ⟨rfl, fun _ low => absurd low.below (by have := low.used; omega)⟩
  rw [if_neg high]
  rw [ge_iff_le, le_iff_toNat_le, mega] at high
  by_cases above : limit64 ≥ 0x100000
  · rw [if_pos above]
    rw [ge_iff_le, le_iff_toNat_le, mega] at above
    exact .inl ⟨rfl, fun _ low => absurd low.below (by have := low.used; omega)⟩
  rw [if_neg above]
  rw [ge_iff_le, le_iff_toNat_le, mega] at above
  have base32 : m.base.toUInt32.toNat = m.base.toNat := by rw [toNat_toUInt32, Nat.mod_eq_of_lt (by omega)]
  have limit32 : limit64.toUInt32.toNat = limit64.toNat := by rw [toNat_toUInt32, Nat.mod_eq_of_lt (by omega)]
  by_cases strange : m.base.toUInt32 > limit64.toUInt32
  · rw [if_pos strange]
    rw [gt_iff_lt, UInt32.lt_iff_toNat_lt, base32, limit32] at strange
    exact .inl ⟨rfl, fun _ low => absurd low.below (by have := low.used; omega)⟩
  rw [if_neg strange]
  rw [gt_iff_lt, UInt32.lt_iff_toNat_lt, base32, limit32] at strange
  have low : m.LowMemory := ⟨by omega, by omega⟩
  by_cases larger : limit64.toUInt32 - m.base.toUInt32 ≥ s.limit - s.base
  · rw [if_pos larger]
    refine .inr ⟨not_not.mp other, low, ?_, ?_, rfl⟩
    · rw [← toNat_inj, UInt32.toNat_toUInt64, base32]
    · rw [limit32]
      omega
  · rw [if_neg larger]
    refine .inl ⟨rfl, fun _ _ same => larger ?_⟩
    rw [same, UInt32.sub_self, ge_iff_le, UInt32.le_iff_toNat_le, UInt32.toNat_zero]
    exact Nat.zero_le _

end DisasVisor.Mm
