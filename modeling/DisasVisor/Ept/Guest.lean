import DisasVisor.Ept.Tables
import DisasVisor.Ept.Forcing

/-!
The virtual processors of a guest, each with its tables, and the registered ranges that they share:
`mmio_register_internal` takes a range out of the tables before it is registered.
-/

namespace DisasVisor.Ept

open Function Mmio

variable {vmm : Vmm}

def Vmm.pteAddrMask (vmm : Vmm) : UInt64 :=
  ~~~((0xFFF : UInt64) ||| (0xFFFFFFFFFFFFFFFF : UInt64) <<< UInt64.ofNat vmm.nbits)

def span (mask e : UInt64) : UInt64 × UInt64 :=
  let tmp1 := e &&& mask
  let tmp2 := tmp1 ||| 0o7777
  if e &&& epteLarge ≠ 0 then (tmp1 &&& ~~~0o7777777, tmp2 ||| 0o7777777) else (tmp1, tmp2)

def mapsearchFinds (mask start stop e : UInt64) : Bool :=
  e &&& epteRead ≠ 0 ∧ start ≤ (span mask e).2 ∧ (span mask e).1 ≤ stop

def zeroFound (mask start stop : UInt64) (mem : UInt64 → UInt64 → UInt64) (page : UInt64) : UInt64 → UInt64 → UInt64 :=
  update mem page fun j =>
    if j < 512 ∧ mapsearchFinds mask start stop (mem page j) then 0 else mem page j

/-- `vt_ept_extern_mapsearch`; for the current processor the entries that are found are set to zero,
and for another one it only says that there is one. -/
def vtEptExternMapsearch (ept : VtEpt vmm) (isCurrent : Bool) (start stop : UInt64) : VtEpt vmm × Bool :=
  if isCurrent then
    ({ ept with
      mem := (List.range ept.cnt).foldl
        (fun mem i => zeroFound vmm.pteAddrMask start stop mem (ept.pages.tbl i)) ept.mem }, false)
  else
    (ept, (List.range ept.cnt).any fun i => (List.range 512).any fun j =>
      mapsearchFinds vmm.pteAddrMask start stop (ept.mem (ept.pages.tbl i) (UInt64.ofNat j)))

structure Guest (vmm : Vmm) where
  mmio : MmioData
  ept : Nat → VtEpt vmm
  mtrr : Nat → Mtrr

section

variable (current : Nat) (spt : Nat → UInt64 → UInt64 → Bool)

/-- `flush_sub` over the list of virtual processors: whether it fails. `spt` is what
`cpu_mmu_spt_extern_mapsearch` says where the guest is not unrestricted. -/
def flushSub (start stop : UInt64) : List Nat → (Nat → VtEpt vmm) → Bool × (Nat → VtEpt vmm)
  | [], epts => (false, epts)
  | i :: rest, epts =>
    let (ept, found) := vtEptExternMapsearch (epts i) (i = current) start stop
    let epts := update epts i ept
    if found || spt i start stop then (true, epts) else flushSub start stop rest epts

def flushLoop (vcpus : List Nat) (gpend : UInt64) :
    Nat → UInt64 → UInt64 → UInt64 → (Nat → VtEpt vmm) → Option (Bool × (Nat → VtEpt vmm))
  | 0, _, _, _, _ => none
  | fuel + 1, hp0, hp1, gp2, epts =>
    if gp2 ≤ gpend then
      let hp2 := (vmm.gp2hp gp2).1
      let next := (gp2 ||| 0xFFF) + 1
      if hp1 + 1 ≠ hp2 then
        match flushSub current spt hp0 hp1 vcpus epts with
        | (true, epts) => some (true, epts)
        | (false, epts) => flushLoop vcpus gpend fuel hp2 (hp2 ||| 0xFFF) next epts
      else flushLoop vcpus gpend fuel hp0 (hp2 ||| 0xFFF) next epts
    else some (flushSub current spt hp0 hp1 vcpus epts)

def flushTlbEntry (vcpus : List Nat) (gpst gpend : UInt64) (epts : Nat → VtEpt vmm) :
    Option (Bool × (Nat → VtEpt vmm)) :=
  let hp0 := (vmm.gp2hp gpst).1
  flushLoop current spt vcpus gpend ((gpend.toNat - gpst.toNat) / 4096 + 2) hp0 (hp0 ||| 0xFFF)
    ((gpst ||| 0xFFF) + 1) epts

end

inductive GuestEvent where
  | violation (i : Nat) (write : Bool) (gphys : UInt64)
  | clearAll (i : Nat) (mtrr : Mtrr)
  | map1mb (i : Nat)
  | register (i p : Nat) (gphys : UInt64) (len : UInt32) (unlockedHandler : Bool) (spt : Nat → UInt64 → UInt64 → Bool)
  | unregister (p : Nat) (held : Bool)
  | unlock (held : Bool)

namespace Guest

def setEpt (s : Guest vmm) (i : Nat) (ept : VtEpt vmm) : Guest vmm := { s with ept := update s.ept i ept }

def register (s : Guest vmm) (vcpus : List Nat) (i p : Nat) (gphys : UInt64) (len : UInt32)
    (unlockedHandler : Bool) (spt : Nat → UInt64 → UInt64 → Bool) : Option (Guest vmm) :=
  if s.mmio.handle.any fun q => (rangecheck (s.mmio.handles q) gphys len).isSome then some s
  else
    (flushTlbEntry i spt vcpus gphys (gphys + len.toUInt64 - 1) s.ept).map fun (fails, ept) =>
      { s with mmio := s.mmio.register p gphys len unlockedHandler fails, ept := ept }

inductive Step (vcpus : List Nat) (s : Guest vmm) : GuestEvent → Guest vmm → Prop
  | violation {i write gphys ept handled} : i ∈ vcpus →
      vtEptViolation (s.mtrr i) s.mmio (s.ept i) write gphys = some (ept, handled) →
        Step vcpus s (.violation i write gphys) (s.setEpt i ept)
  | clearAll {i mtrr} : i ∈ vcpus → Step vcpus s (.clearAll i mtrr)
      { s.setEpt i (vtEptClearAll (s.ept i)) with mtrr := update s.mtrr i mtrr }
  | map1mb {i ept} : i ∈ vcpus → vtEptMap1mb (s.mtrr i) s.mmio (s.ept i) = some ept →
      Step vcpus s (.map1mb i) (s.setEpt i ept)
  | register {i p gphys len unlockedHandler spt t} : i ∈ vcpus → p ∉ s.mmio.handle →
      s.register vcpus i p gphys len unlockedHandler spt = some t →
        Step vcpus s (.register i p gphys len unlockedHandler spt) t
  | unregister {p held} : s.mmio.Registered p →
      Step vcpus s (.unregister p held) { s with mmio := s.mmio.unregister p held }
  | unlock {held} : Step vcpus s (.unlock held) { s with mmio := s.mmio.unlock held }

end Guest

/-!
`flush_tlb_entry`: afterwards no entry maps an address of the range, and the links are still there.
-/

variable {ept ept' ept'' : VtEpt vmm} {ok4 ok2 : UInt64 → UInt64 → Prop} {mask start stop e : UInt64}
  {S T : Nat → Prop}

def Overlaps (mask e : UInt64) (x : Nat) : Prop := IsPresent e ∧ (span mask e).1.toNat ≤ x ∧ x ≤ (span mask e).2.toNat

theorem span_le : (span mask e).1.toNat ≤ (span mask e).2.toNat := by
  have low := @Words.toNat_or_low (e &&& mask) 0o7777 12 rfl
  simp only [span]
  split
  · rw [@Words.toNat_and_high _ (~~~0o7777777) 21 rfl (by omega),
      @Words.toNat_or_low _ 0o7777777 21 rfl, low]
    omega
  · change (e &&& mask).toNat ≤ (e &&& mask ||| 0o7777).toNat
    rw [low]
    omega

theorem mapsearchFinds_iff (le : start.toNat ≤ stop.toNat) :
    mapsearchFinds mask start stop e = true ↔ ∃ x, start.toNat ≤ x ∧ x ≤ stop.toNat ∧ Overlaps mask e x := by
  have ordered := @span_le mask e
  simp only [mapsearchFinds, UInt64.le_iff_toNat_le, decide_eq_true_eq]
  constructor
  · rintro ⟨present, first, last⟩
    exact ⟨max start.toNat (span mask e).1.toNat, by omega, by omega, present, by omega, by omega⟩
  · rintro ⟨x, low, high, present, first, last⟩
    exact ⟨present, by omega, by omega⟩

structure Wiped (S : Nat → Prop) (ept ept' : VtEpt vmm) : Prop where
  pages : ept'.pages = ept.pages
  cnt : ept'.cnt = ept.cnt
  cleared : ept'.cleared = ept.cleared
  level : ept'.curLevel = ept.curLevel
  address : ept'.curGphys = ept.curGphys
  entries : ept'.curEntry = ept.curEntry
  mem : ∀ page j, ept'.mem page j = ept.mem page j ∨
    (ept'.mem page j = 0 ∧ ∃ x, S x ∧ Overlaps vmm.pteAddrMask (ept.mem page j) x)

def Clean (S : Nat → Prop) (ept : VtEpt vmm) : Prop :=
  ∀ i < ept.cnt, ∀ j : UInt64, j < 512 → ∀ x, S x → ¬Overlaps vmm.pteAddrMask (ept.mem (ept.pages.tbl i) j) x

theorem Wiped.refl : Wiped S ept ept := ⟨rfl, rfl, rfl, rfl, rfl, rfl, fun _ _ => .inl rfl⟩

theorem Wiped.trans (first : Wiped S ept ept') (second : Wiped S ept' ept'') : Wiped S ept ept'' := by
  refine ⟨second.pages.trans first.pages, second.cnt.trans first.cnt,
    second.cleared.trans first.cleared, second.level.trans first.level,
    second.address.trans first.address, second.entries.trans first.entries, fun page j => ?_⟩
  rcases first.mem page j with same | ⟨zero, found⟩
  · rw [← same]
    exact second.mem page j
  · rcases second.mem page j with same' | ⟨zero', -⟩
    · exact .inr ⟨same'.trans zero, found⟩
    · exact .inr ⟨zero', found⟩

theorem Wiped.mono (wiped : Wiped S ept ept') (subset : ∀ x, S x → T x) : Wiped T ept ept' :=
  ⟨wiped.pages, wiped.cnt, wiped.cleared, wiped.level, wiped.address, wiped.entries,
    fun page j => (wiped.mem page j).imp_right fun ⟨zero, x, member, overlaps⟩ =>
      ⟨zero, x, subset x member, overlaps⟩⟩

theorem not_overlaps_zero {x : Nat} : ¬Overlaps mask 0 x := fun overlaps => not_isPresent_zero overlaps.1

theorem Clean.wiped (clean : Clean S ept) (wiped : Wiped T ept ept') : Clean S ept' := by
  intro i used j small x member
  rw [wiped.cnt] at used
  rw [wiped.pages]
  rcases wiped.mem (ept.pages.tbl i) j with same | ⟨zero, -⟩
  · rw [same]
    exact clean i used j small x member
  · rw [zero]
    exact not_overlaps_zero

def Within (start stop : UInt64) (x : Nat) : Prop := start.toNat ≤ x ∧ x ≤ stop.toNat

theorem zeroFound_fold (le : start.toNat ≤ stop.toNat) (tbl : Nat → UInt64) (is : List Nat) :
    ∀ mem : UInt64 → UInt64 → UInt64,
      (∀ page j, is.foldl (fun mem i => zeroFound mask start stop mem (tbl i)) mem page j = mem page j ∨
        (is.foldl (fun mem i => zeroFound mask start stop mem (tbl i)) mem page j = 0 ∧
          ∃ x, Within start stop x ∧ Overlaps mask (mem page j) x)) ∧
      ∀ i ∈ is, ∀ j : UInt64, j < 512 → ∀ x, Within start stop x →
        ¬Overlaps mask (is.foldl (fun mem i => zeroFound mask start stop mem (tbl i)) mem (tbl i) j) x := by
  induction is with
  | nil => exact fun mem => ⟨fun page j => .inl rfl, by simp⟩
  | cons i is ih =>
    intro mem
    rw [List.foldl_cons]
    obtain ⟨rest, clean⟩ := ih (zeroFound mask start stop mem (tbl i))
    have step : ∀ page j, zeroFound mask start stop mem (tbl i) page j = mem page j ∨
        (zeroFound mask start stop mem (tbl i) page j = 0 ∧
          ∃ x, Within start stop x ∧ Overlaps mask (mem page j) x) := by
      intro page j
      unfold zeroFound
      by_cases here : page = tbl i
      · subst here
        rw [update_self]
        by_cases found : j < 512 ∧ mapsearchFinds mask start stop (mem (tbl i) j) = true
        · rw [if_pos found]
          obtain ⟨x, low, high, overlaps⟩ := (mapsearchFinds_iff le).mp found.2
          exact .inr ⟨rfl, x, ⟨low, high⟩, overlaps⟩
        · rw [if_neg found]
          exact .inl rfl
      · rw [update_of_ne here]
        exact .inl rfl
    refine ⟨fun page j => ?_, fun k member j small x within => ?_⟩
    · rcases step page j with same | ⟨zero, found⟩
      · rw [← same]
        exact rest page j
      · rcases rest page j with same' | ⟨zero', -⟩
        · exact .inr ⟨same'.trans zero, found⟩
        · exact .inr ⟨zero', found⟩
    · rcases List.mem_cons.mp member with rfl | later
      · have gone : ¬Overlaps mask (zeroFound mask start stop mem (tbl k) (tbl k) j) x := by
          unfold zeroFound
          rw [update_self]
          by_cases found : j < 512 ∧ mapsearchFinds mask start stop (mem (tbl k) j) = true
          · rw [if_pos found]
            exact not_overlaps_zero
          · rw [if_neg found]
            intro overlaps
            exact found ⟨small, (mapsearchFinds_iff le).mpr ⟨x, within.1, within.2, overlaps⟩⟩
        rcases rest (tbl k) j with same | ⟨zero, -⟩
        · rw [same]
          exact gone
        · rw [zero]
          exact not_overlaps_zero
      · exact clean k later j small x within

theorem vtEptExternMapsearch_spec (le : start.toNat ≤ stop.toNat) (isCurrent : Bool) :
    Wiped (Within start stop) ept (vtEptExternMapsearch ept isCurrent start stop).1 ∧
      ((vtEptExternMapsearch ept isCurrent start stop).2 = false →
        Clean (Within start stop) (vtEptExternMapsearch ept isCurrent start stop).1) := by
  unfold vtEptExternMapsearch
  cases isCurrent with
  | true =>
    obtain ⟨mem, clean⟩ := @zeroFound_fold vmm.pteAddrMask start stop le ept.pages.tbl (List.range ept.cnt) ept.mem
    exact ⟨⟨rfl, rfl, rfl, rfl, rfl, rfl, mem⟩,
      fun _ i used j small x within => clean i (List.mem_range.mpr used) j small x within⟩
  | false =>
    refine ⟨Wiped.refl, fun none' i used j small x within overlaps => ?_⟩
    simp only [Bool.false_eq_true, if_false, List.any_eq_false, List.mem_range,
      List.any_eq_true, not_exists, not_and] at none'
    have bound : j.toNat < 512 := small
    have same : UInt64.ofNat j.toNat = j := UInt64.ofNat_toNat
    refine none' i used j.toNat bound ?_
    rw [same]
    exact (mapsearchFinds_iff le).mpr ⟨x, within.1, within.2, overlaps⟩

variable {current : Nat} {spt : Nat → UInt64 → UInt64 → Bool}

theorem flushSub_spec (le : start.toNat ≤ stop.toNat) (vcpus : List Nat) :
    ∀ epts : Nat → VtEpt vmm,
      (∀ v, Wiped (Within start stop) (epts v) ((flushSub current spt start stop vcpus epts).2 v)) ∧
      ((flushSub current spt start stop vcpus epts).1 = false → ∀ v ∈ vcpus,
        Clean (Within start stop) ((flushSub current spt start stop vcpus epts).2 v)) := by
  induction vcpus with
  | nil => exact fun epts => ⟨fun v => Wiped.refl, by simp⟩
  | cons i rest ih =>
    intro epts
    obtain ⟨wiped, clean⟩ := @vtEptExternMapsearch_spec vmm (epts i) start stop le (i = current)
    have first : ∀ v, Wiped (Within start stop) (epts v) (update epts i
        (vtEptExternMapsearch (epts i) (decide (i = current)) start stop).1 v) := by
      intro v
      by_cases here : v = i
      · subst here
        rw [update_self]
        exact wiped
      · rw [update_of_ne here]
        exact Wiped.refl
    obtain ⟨later, laterClean⟩ := ih (update epts i
      (vtEptExternMapsearch (epts i) (decide (i = current)) start stop).1)
    unfold flushSub
    simp only
    by_cases fails : ((vtEptExternMapsearch (epts i) (decide (i = current)) start stop).2 || spt i start stop) = true
    · rw [if_pos fails]
      exact ⟨first, fun impossible => absurd impossible (by simp)⟩
    · rw [if_neg fails]
      refine ⟨fun v => (first v).trans (later v), fun none' v member => ?_⟩
      rcases List.mem_cons.mp member with rfl | inRest
      · have found : (vtEptExternMapsearch (epts v) (decide (v = current)) start stop).2 = false := by
          cases result : (vtEptExternMapsearch (epts v) (decide (v = current)) start stop).2 with
          | false => rfl
          | true => exact absurd (by rw [result]; rfl) fails
        have here := later v
        rw [update_self] at here
        exact (clean found).wiped here
      · exact laterClean none' v inRest

theorem gp2hp_lt_lastPage {q : UInt64} (bound : q.toNat < 2 ^ 64 - 2 ^ 12) :
    (vmm.gp2hp q).1.toNat < 2 ^ 64 - 2 ^ 12 := by
  have inside := vmm.blankInside
  have fits := vmm.fits
  unfold Vmm.gp2hp
  split
  · simp only
    omega
  · exact bound

theorem toNat_nextPage (bound : start.toNat < 2 ^ 64 - 2 ^ 12) :
    ((start ||| 0xFFF) + 1).toNat = start.toNat / 2 ^ 12 * 2 ^ 12 + 2 ^ 12 := by
  have low := @Words.toNat_or_low start 0xFFF 12 rfl
  have one := UInt64.toNat_one
  rw [UInt64.toNat_add, low, one]
  omega

theorem flushLoop_spec {vcpus : List Nat} {gpend : UInt64} {fails : Bool}
    {epts' : Nat → VtEpt vmm} (bound : gpend.toNat < 2 ^ 64 - 2 ^ 12) (fuel : Nat) :
    ∀ {hp0 hp1 gp2 : UInt64} {epts}, hp0.toNat ≤ hp1.toNat → hp1.toNat < 2 ^ 64 - 1 →
      (∀ x, Within hp0 hp1 x → S x) →
      (∀ q : UInt64, gp2.toNat ≤ q.toNat → q.toNat ≤ gpend.toNat →
        ∀ x, Within (vmm.gp2hp q).1 ((vmm.gp2hp q).1 ||| 0xFFF) x → S x) →
      gp2.toNat % 2 ^ 12 = 0 →
      flushLoop current spt vcpus gpend fuel hp0 hp1 gp2 epts = some (fails, epts') →
      (∀ v, Wiped S (epts v) (epts' v)) ∧ (fails = false → ∀ v ∈ vcpus,
        Clean (Within hp0 hp1) (epts' v) ∧
          ∀ q : UInt64, gp2.toNat ≤ q.toNat → q.toNat ≤ gpend.toNat → q.toNat % 2 ^ 12 = 0 →
            Clean (fun x => x = (vmm.gp2hp q).1.toNat) (epts' v)) := by
  induction fuel with
  | zero =>
    intro hp0 hp1 gp2 epts _ _ _ _ _ result
    cases result
  | succ fuel ih =>
    intro hp0 hp1 gp2 epts le small now later aligned result
    unfold flushLoop at result
    by_cases more : gp2 ≤ gpend
    · have order : gp2.toNat ≤ gpend.toNat := more
      have hpSmall := @gp2hp_lt_lastPage vmm gp2 (by omega)
      have pageEnd := @Words.toNat_or_low (vmm.gp2hp gp2).1 0xFFF 12 rfl
      have next := @toNat_nextPage gp2 (by omega)
      have one := UInt64.toNat_one
      have restLater : ∀ q : UInt64, ((gp2 ||| 0xFFF) + 1).toNat ≤ q.toNat →
          q.toNat ≤ gpend.toNat →
            ∀ x, Within (vmm.gp2hp q).1 ((vmm.gp2hp q).1 ||| 0xFFF) x → S x :=
        fun q low high => later q (by omega) high
      -- the page at `gp2` is the only one before the next
      have split : ∀ q : UInt64, gp2.toNat ≤ q.toNat → q.toNat % 2 ^ 12 = 0 → q = gp2 ∨
          ((gp2 ||| 0xFFF) + 1).toNat ≤ q.toNat := by
        intro q low whole
        by_cases same : q.toNat = gp2.toNat
        · exact .inl (UInt64.toNat_inj.mp same)
        · exact .inr (by omega)
      have nextAligned : ((gp2 ||| 0xFFF) + 1).toNat % 2 ^ 12 = 0 := by omega
      simp only [if_pos more] at result
      by_cases apart : hp1 + 1 ≠ (vmm.gp2hp gp2).1
      · rw [if_pos apart] at result
        obtain ⟨flushed, clean⟩ := @flushSub_spec vmm hp0 hp1 current spt le vcpus epts
        obtain ⟨failed, middle, isFlush⟩ : ∃ failed middle,
            flushSub current spt hp0 hp1 vcpus epts = (failed, middle) := ⟨_, _, rfl⟩
        rw [isFlush] at result flushed clean
        cases failed with
        | true =>
          cases result
          exact ⟨fun v => (flushed v).mono now, nofun⟩
        | false =>
          simp only at result
          obtain ⟨wiped, rest⟩ := ih (by rw [pageEnd]; omega) (by rw [pageEnd]; omega)
            (later gp2 (Nat.le_refl _) order) restLater nextAligned result
          refine ⟨fun v => ((flushed v).mono now).trans (wiped v), fun none' v member => ?_⟩
          obtain ⟨here, after⟩ := rest none' v member
          refine ⟨(clean rfl v member).wiped (wiped v), fun q low high whole => ?_⟩
          rcases split q low whole with rfl | above
          · intro i used j bounded x same
            exact here i used j bounded x ⟨by omega, by rw [pageEnd]; omega⟩
          · exact after q above high whole
      · have joined : hp1.toNat + 1 = (vmm.gp2hp gp2).1.toNat := by
          rw [← not_not.mp apart, UInt64.toNat_add, one]
          omega
        rw [if_neg apart] at result
        obtain ⟨wiped, rest⟩ := ih (by rw [pageEnd]; omega) (by rw [pageEnd]; omega)
          (fun x within => by
            rcases Nat.lt_or_ge hp1.toNat x with above | below
            · exact later gp2 (Nat.le_refl _) order x ⟨by omega, within.2⟩
            · exact now x ⟨within.1, below⟩) restLater nextAligned result
        refine ⟨wiped, fun none' v member => ?_⟩
        obtain ⟨here, after⟩ := rest none' v member
        refine ⟨fun i used j bounded x within => here i used j bounded x
          ⟨within.1, by rw [pageEnd]; have upper := within.2; omega⟩, fun q low high whole => ?_⟩
        rcases split q low whole with rfl | above
        · intro i used j bounded x same
          exact here i used j bounded x ⟨by omega, by rw [pageEnd]; omega⟩
        · exact after q above high whole
    · have order : ¬gp2.toNat ≤ gpend.toNat := more
      rw [if_neg more, Option.some.injEq] at result
      obtain ⟨flushed, clean⟩ := @flushSub_spec vmm hp0 hp1 current spt le vcpus epts
      rw [result] at flushed clean
      exact ⟨fun v => (flushed v).mono now, fun none' v member =>
        ⟨clean none' v member, fun q low high => by omega⟩⟩

def HostPages (vmm : Vmm) (gpst gpend : UInt64) (x : Nat) : Prop :=
  ∃ q : UInt64, gpst.toNat ≤ q.toNat ∧ q.toNat ≤ gpend.toNat ∧ (vmm.gp2hp q).1.toNat / 2 ^ 12 = x / 2 ^ 12

theorem flushTlbEntry_spec {vcpus : List Nat} {gpst gpend : UInt64} {epts epts' : Nat → VtEpt vmm}
    {fails : Bool} (le : gpst.toNat ≤ gpend.toNat) (bound : gpend.toNat < 2 ^ 64 - 2 ^ 12)
    (result : flushTlbEntry current spt vcpus gpst gpend epts = some (fails, epts')) :
    (∀ v, Wiped (HostPages vmm gpst gpend) (epts v) (epts' v)) ∧ (fails = false → ∀ v ∈ vcpus,
      ∀ q : UInt64, (q = gpst ∨ (gpst.toNat < q.toNat ∧ q.toNat % 2 ^ 12 = 0)) →
        q.toNat ≤ gpend.toNat → Clean (fun x => x = (vmm.gp2hp q).1.toNat) (epts' v)) := by
  have pageEnd := @Words.toNat_or_low (vmm.gp2hp gpst).1 0xFFF 12 rfl
  have next := @toNat_nextPage gpst (by omega)
  have small := @gp2hp_lt_lastPage vmm gpst (by omega)
  have pages : ∀ q : UInt64, gpst.toNat ≤ q.toNat → q.toNat ≤ gpend.toNat →
      ∀ x, Within (vmm.gp2hp q).1 ((vmm.gp2hp q).1 ||| 0xFFF) x → HostPages vmm gpst gpend x := by
    intro q low high x within
    obtain ⟨first, last⟩ := within
    rw [@Words.toNat_or_low _ 0xFFF 12 rfl] at last
    exact ⟨q, low, high, by omega⟩
  obtain ⟨wiped, clean⟩ := flushLoop_spec (S := HostPages vmm gpst gpend) bound _
    (by rw [pageEnd]; omega) (by rw [pageEnd]; omega) (pages gpst (Nat.le_refl _) le)
    (fun q low => pages q (by omega)) (by omega) result
  refine ⟨wiped, fun none' v member q isPage high => ?_⟩
  obtain ⟨here, after⟩ := clean none' v member
  rcases isPage with rfl | ⟨above, whole⟩
  · intro i used j bounded x same
    exact here i used j bounded x ⟨by omega, by rw [pageEnd]; omega⟩
  · by_cases samePage : q.toNat < ((gpst ||| 0xFFF) + 1).toNat
    · omega
    · exact after q (by omega) high whole

end DisasVisor.Ept
