import DisasVisor.Ept.Forcing

/-!
EPT violations, and the pages that have to stay mapped: they are, after every violation whose page
is mapped, as long as no 2 MiB page is mapped while the tables are cleared or too few are left.
-/

namespace DisasVisor.Ept

open Mmio Transitions
open Option (some.injEq)

variable {vmm : Vmm} {ept ept' : VtEpt vmm} {ok4 ok2 : UInt64 → UInt64 → Prop} {gphys : UInt64}
  {mtrr : Mtrr} {mmio : MmioData} {write : Bool} {handled : Handled}

theorem vtEptMapPage_spec (listed : mmio.Listed) (fits : Fits vmm mtrr mmio ok4 ok2)
    (sound : Sound ept ok4 ok2) (bound : gphys.toNat < vmm.limit) (freePage : FreePage mmio gphys)
    (result : vtEptMapPage mtrr mmio ept write gphys = some ept') :
    Sound ept' ok4 ok2 ∧ ept'.pages = ept.pages ∧ ept'.cleared = false ∧
      (Blocks vmm mtrr mmio ok2 → (ept.cleared = true → ¬Able2m vmm mtrr mmio gphys) →
        (ept.cleared = false → ForcedMapped mmio ept ∧ ¬ept.LargeAt gphys) → ForcedMapped mmio ept') := by
  unfold vtEptMapPage at result
  simp only [Option.bind_eq_bind, Option.bind_eq_some_iff] at result
  obtain ⟨first, before, second, sub, after⟩ := result
  unfold handleCleared at before after
  have start : Sound first ok4 ok2 ∧ first.pages = ept.pages ∧ first.cleared = false ∧
      (Blocks vmm mtrr mmio ok2 → (ept.cleared = true → ¬Able2m vmm mtrr mmio gphys) →
        (ept.cleared = false → ForcedMapped mmio ept ∧ ¬ept.LargeAt gphys) →
          ForcedMapped mmio first ∧ ¬first.LargeAt gphys) := by
    cases cleared : ept.cleared with
    | true =>
      simp only [cleared, if_true] at before
      obtain ⟨firstSound, pages, notCleared, forced⟩ := clearCleared_spec listed fits sound before
      refine ⟨firstSound, pages, notCleared, fun isBlocks notAble _ => ?_⟩
      exact ⟨(forced isBlocks).1, not_largeAt firstSound isBlocks bound (.inr (notAble rfl))⟩
    | false =>
      simp only [cleared, Bool.false_eq_true, if_false] at before
      cases before
      exact ⟨sound, rfl, cleared, fun _ _ kept => kept rfl⟩
  obtain ⟨firstSound, firstPages, notCleared, forced⟩ := start
  have maps := vtEptMapPageSub_spec firstSound (fits.leaf4 gphys bound freePage) sub
  cases cleared : second.cleared with
  | true =>
    simp only [cleared, if_true] at after
    obtain ⟨lastSound, pages, notCleared', forced'⟩ := clearCleared_spec listed fits maps.sound after
    exact ⟨lastSound, pages.trans (maps.pages.trans firstPages), notCleared',
      fun isBlocks _ _ => (forced' isBlocks).1⟩
  | false =>
    simp only [cleared, Bool.false_eq_true, if_false] at after
    cases after
    refine ⟨maps.sound, maps.pages.trans firstPages, cleared, fun isBlocks notAble kept => ?_⟩
    obtain ⟨mapped, notLarge⟩ := forced isBlocks notAble kept
    intro g isForced free
    exact (maps.keeps fun _ _ => notLarge).mapped isBlocks cleared g (mapped g isForced free)

theorem freePage_of_access (listed : mmio.Listed) (bound : gphys.toNat < vmm.limit)
    (notFound : mmio.mmioAccessPage gphys = false) : FreePage mmio gphys := by
  have limit := vmm.limit_le
  exact (MmioData.mmioAccessPage_eq_false listed (by omega)).mp notFound

theorem vtEptViolation_spec (listed : mmio.Listed) (fits : Fits vmm mtrr mmio ok4 ok2)
    (sound : Sound ept ok4 ok2) (bound : gphys.toNat < vmm.limit)
    (result : vtEptViolation mtrr mmio ept write gphys = some (ept', handled)) :
    Sound ept' ok4 ok2 ∧ ept'.pages = ept.pages ∧
      (handled = .page2m → 0 < (curMove ept gphys).curLevel ∧ Able2m vmm mtrr mmio gphys ∧
        Maps ept ept' ok4 ok2 gphys 1) ∧
      (handled = .page → ept'.cleared = false ∧
        (Blocks vmm mtrr mmio ok2 → (ept.cleared = true → 0 < (curMove ept gphys).curLevel) →
          (ept.cleared = false → ForcedMapped mmio ept) → ForcedMapped mmio ept')) ∧
      (handled = .emulated → Moved ept ept' gphys) := by
  unfold vtEptViolation at result
  obtain ⟨tried, mapped, isTry⟩ : ∃ tried mapped, tryMap2mpage mtrr mmio ept gphys = (tried, mapped) := ⟨_, _, rfl⟩
  obtain ⟨yes, no⟩ := tryMap2mpage_spec sound (fits.leaf2 gphys bound) isTry
  rw [isTry] at result
  cases mapped with
  | true =>
    simp only [if_true] at result
    cases result
    obtain ⟨above, able, maps⟩ := yes rfl
    exact ⟨maps.sound, maps.pages, fun _ => ⟨above, able, maps⟩, nofun, nofun⟩
  | false =>
    obtain ⟨moved, reason⟩ := no rfl
    have triedSound := moved.sound sound
    simp only [Bool.false_eq_true, if_false] at result
    cases access : mmio.mmioAccessPage gphys with
    | true =>
      simp only [access, if_true] at result
      cases result
      exact ⟨triedSound, moved.pages, nofun, nofun, fun _ => moved⟩
    | false =>
      simp only [access, Bool.false_eq_true, if_false, Option.map_eq_some_iff, Prod.mk.injEq] at result
      obtain ⟨after, mapPage, rfl, rfl⟩ := result
      obtain ⟨afterSound, pages, notCleared, forced⟩ := vtEptMapPage_spec listed fits triedSound
        bound (freePage_of_access listed bound access) mapPage
      refine ⟨afterSound, pages.trans moved.pages, nofun, fun _ => ⟨notCleared, ?_⟩, nofun⟩
      intro isBlocks above kept
      refine forced isBlocks (fun cleared => ?_) fun notCleared' => ⟨?_, ?_⟩
      · rw [moved.cleared] at cleared
        have positive := above cleared
        exact reason.resolve_left (by omega)
      · intro g isForced free
        exact moved.mapped_iff.mpr (kept (moved.cleared ▸ notCleared') g isForced free)
      · rintro ⟨page, at', present, large⟩
        rw [moved.entry] at present large
        exact not_largeAt sound isBlocks bound reason ⟨page, moved.tableAt.mp at', present, large⟩

inductive Event where
  | violation (write : Bool) (gphys : UInt64)
  | clearAll (mtrr : Mtrr)

structure Cpu (vmm : Vmm) where
  ept : VtEpt vmm
  mtrr : Mtrr
  last : Option Handled

/-- `vt_paging_clear_all` is also called when the guest has changed the memory types. -/
inductive Step (mmio : MmioData) : Cpu vmm → Event → Cpu vmm → Prop
  | violation {cpu write gphys ept handled} : gphys.toNat < vmm.limit →
      vtEptViolation cpu.mtrr mmio cpu.ept write gphys = some (ept, handled) →
        Step mmio cpu (.violation write gphys) { cpu with ept := ept, last := some handled }
  | clearAll {cpu mtrr} : Step mmio cpu (.clearAll mtrr) { ept := vtEptClearAll cpu.ept, mtrr := mtrr, last := none }

/-- Where a page has to stay mapped, a violation for which a 2 MiB page is mapped comes when the
tables are not cleared, and enough of them are left. -/
def Orderly (mmio : MmioData) (cpu : Cpu vmm) : Event → Prop
  | .violation _ gphys => (∃ g, vmm.Forced g ∧ FreePage mmio g) →
      0 < (curMove cpu.ept gphys).curLevel → Able2m vmm cpu.mtrr mmio gphys →
        cpu.ept.cleared = false ∧ ¬Exhausted (curMove cpu.ept gphys) 1
  | .clearAll _ => True

def OkBlock (vmm : Vmm) (mtrr : Mtrr) (mmio : MmioData) (g _ : UInt64) : Prop :=
  ∃ g', g'.toNat < vmm.limit ∧ radix.Agree 1 g g' ∧ Able2m vmm mtrr mmio g'

theorem blocks_okBlock : Blocks vmm mtrr mmio (OkBlock vmm mtrr mmio) := by
  rintro g e bound ⟨g', bound', agree, free, inside, equal⟩
  have limit := vmm.limit_le
  have same := div_of_agree (by omega) (by omega) (show 1 ≤ 3 by omega) agree
  have block : g &&& ~~~0x1FFFFF = g' &&& ~~~0x1FFFFF := by
    apply UInt64.toNat_inj.mp
    rw [toNat_block, toNat_block]
    omega
  rw [← block] at free inside equal
  exact ⟨free, inside, equal⟩

theorem fits_okBlock : Fits vmm mtrr mmio (fun _ _ => True) (OkBlock vmm mtrr mmio) :=
  ⟨fun _ _ _ _ _ => trivial, fun gphys bound able _ agree => ⟨gphys, bound, agree.symm, able⟩⟩

structure Ready (mmio : MmioData) (cpu : Cpu vmm) : Prop where
  sound : Sound cpu.ept (fun _ _ => True) (OkBlock vmm cpu.mtrr mmio)
  empty : cpu.ept.cleared = true → ∀ i, cpu.ept.mem cpu.ept.pages.ncr3tbl i = 0
  forced : cpu.ept.cleared = false → ForcedMapped mmio cpu.ept

theorem ready_of_cleared {cpu : Cpu vmm} (top : cpu.ept.curLevel = eptLevels)
    (cnt : cpu.ept.cnt = 0) (cleared : cpu.ept.cleared = true)
    (empty : ∀ i, cpu.ept.mem cpu.ept.pages.ncr3tbl i = 0) : Ready mmio cpu := by
  refine ⟨sound_of_empty empty cnt ⟨Nat.le_of_eq top, ?_⟩, fun _ => empty, fun notCleared => ?_⟩
  · intro level low high
    omega
  · rw [cleared] at notCleared
    cases notCleared

theorem level_of_empty (moved : Moved ept ept' gphys)
    (empty : ∀ i, ept.mem ept.pages.ncr3tbl i = 0) : ept'.curLevel = 3 := by
  obtain ⟨page, ends, -⟩ := moved.endsAt
  exact (reset_tableAt empty ends.tableAt).1

theorem Ready.step {cpu cpu' : Cpu vmm} {event : Event} (listed : mmio.Listed)
    (ready : Ready mmio cpu) (step : Step mmio cpu event cpu') (orderly : Orderly mmio cpu event)
    (some' : ∃ g, vmm.Forced g ∧ FreePage mmio g) : Ready mmio cpu' ∧ (cpu'.last = some .page2m ∨ cpu'.last = some .page →
      ForcedMapped mmio cpu'.ept) := by
  cases step with
  | @clearAll mtrr =>
    refine ⟨ready_of_cleared rfl rfl rfl fun i => ?_, ?_⟩
    · simp [vtEptClearAll, VtEpt.zero]
    · rintro (impossible | impossible)
      · cases impossible
      · cases impossible
  | @violation write gphys after handled bound result =>
    obtain ⟨sound, pages, large, page, emulated⟩ := vtEptViolation_spec listed fits_okBlock ready.sound bound result
    cases handled with
    | page2m =>
      obtain ⟨above, able, maps⟩ := large rfl
      obtain ⟨notCleared, room⟩ := orderly some' above able
      obtain ⟨same, kept⟩ := maps.room room
      have forced : ForcedMapped mmio after := fun g isForced free =>
        kept (by omega) g (ready.forced notCleared g isForced free)
      refine ⟨⟨sound, fun cleared => ?_, fun _ => forced⟩, fun _ => forced⟩
      rw [same, notCleared] at cleared
      cases cleared
    | page =>
      obtain ⟨notCleared, isForced⟩ := page rfl
      have forced := isForced blocks_okBlock (fun cleared => by
        rw [level_of_empty (curMove_spec ready.sound.walk gphys) (ready.empty cleared)]
        omega) ready.forced
      refine ⟨⟨sound, fun cleared => ?_, fun _ => forced⟩, fun _ => forced⟩
      rw [notCleared] at cleared
      cases cleared
    | emulated =>
      have moved := emulated rfl
      refine ⟨⟨sound, fun cleared => ?_, fun notCleared g isForced free => ?_⟩, ?_⟩
      · rw [moved.mem, moved.pages]
        exact ready.empty (moved.cleared ▸ cleared)
      · exact moved.mapped_iff.mpr (ready.forced (moved.cleared ▸ notCleared) g isForced free)
      · rintro (impossible | impossible)
        · cases impossible
        · cases impossible

/-- In every run in which a 2 MiB page is mapped only while the tables are not cleared and enough of
them are left, every violation whose page is mapped leaves the regions of `gmm_pass_getforcemap`
mapped, where no range is registered. -/
theorem forced_stay_mapped {mmioEvents : List MmioEvent}
    (registered : Run MmioData.PlainStep mmioInit mmioEvents mmio) (pages : TablePages vmm)
    (curGphys : UInt64) (curEntry : Nat → EntryPtr) (mem : UInt64 → UInt64 → UInt64) (mtrr : Mtrr)
    {events : List Event} {cpu : Cpu vmm}
    (run : Run (fun cpu event cpu' => Step mmio cpu event cpu' ∧ Orderly mmio cpu event)
      { ept := vtEptInit pages curGphys curEntry mem, mtrr := mtrr, last := none } events cpu) :
    cpu.last = some .page2m ∨ cpu.last = some .page → ForcedMapped mmio cpu.ept := by
  by_cases some' : ∃ g, vmm.Forced g ∧ FreePage mmio g
  swap
  · exact fun _ g isForced free => absurd ⟨g, isForced, free⟩ some'
  have listed := (MmioData.listed_run registered).1
  refine (run.keeps (fun cpu => Ready mmio cpu ∧ (cpu.last = some .page2m ∨ cpu.last = some .page →
    ForcedMapped mmio cpu.ept)) ?_ ⟨ready_of_cleared rfl rfl rfl fun i => ?_, ?_⟩).2
  · rintro before event after ⟨step, orderly⟩ ⟨ready, -⟩
    exact ready.step listed step orderly some'
  · simp [vtEptInit, VtEpt.zero]
  · rintro (impossible | impossible)
    · cases impossible
    · cases impossible

def vmmAt256m : Vmm where
  vmmStartPhys := 0x10000000
  physBlank := 0x10000000
  uefiMmioSpace := [(0x80000000, 1)]
  nbits := 52
  aligned := by decide
  fits := by decide
  blankInside := by decide
  blankAligned := by decide
  nbitsBounds := by decide
  spaceFits := List.forall_iff_forall_mem.mp (by decide)

theorem toNat_tbl (i : Nat) (bound : i < numOfEptbl) :
    (0x10002000 + 4096 * UInt64.ofNat i).toNat = 0x10002000 + 4096 * i := by
  unfold numOfEptbl at bound
  have start : (0x10002000 : UInt64).toNat = 0x10002000 := rfl
  have size : (4096 : UInt64).toNat = 4096 := rfl
  rw [UInt64.toNat_add, UInt64.toNat_mul, UInt64.toNat_ofNat', start, size]
  omega

def pagesAt256m : TablePages vmmAt256m where
  ncr3tbl := 0x10001000
  tbl i := 0x10002000 + 4096 * UInt64.ofNat i
  distinct := by
    intro i j iBound jBound same
    have values := congrArg UInt64.toNat same
    rw [toNat_tbl i iBound, toNat_tbl j jBound] at values
    omega
  notRoot := by
    intro i bound same
    have values := congrArg UInt64.toNat same
    rw [toNat_tbl i bound] at values
    exact absurd values (by rw [show (0x10001000 : UInt64).toNat = 0x10001000 from rfl]; omega)
  notBlank := by
    intro i bound same
    have values := congrArg UInt64.toNat same
    rw [toNat_tbl i bound] at values
    exact absurd values (by
      rw [show vmmAt256m.physBlank.toNat = 0x10000000 from rfl]
      omega)
  inside := by
    intro i bound
    have value := toNat_tbl i bound
    have low : vmmAt256m.vmmStartPhys.toUInt64.toNat = 0x10000000 := rfl
    have high : (vmmAt256m.vmmStartPhys + vmmsizeAll).toUInt64.toNat = 0x18000000 := rfl
    unfold numOfEptbl at bound
    simp only [Vmm.physInVmm, ge_iff_le, UInt64.le_iff_toNat_le, UInt64.lt_iff_toNat_lt,
      decide_eq_true_eq]
    omega
  tblAligned := by
    intro i bound
    rw [toNat_tbl i bound]
    omega

def allWriteBack : Mtrr where
  getGmtrrType _ := 6
  gmtrrTypeEqual _ := true
  valid _ := by decide

def cpuAt256m : Cpu vmmAt256m where
  ept := vtEptInit pagesAt256m 0 (fun _ => ⟨0, 0⟩) fun _ _ => 0
  mtrr := allWriteBack
  last := none

/-- After the first violation, for which a 2 MiB page is mapped, the page at 2 GiB is not. -/
theorem unmapped_after_2m : ∃ events, ∃ cpu : Cpu vmmAt256m,
    Run (Step mmioInit) cpuAt256m events cpu ∧ cpu.last = some .page2m ∧
      ¬ForcedMapped mmioInit cpu.ept := by
  have isPage2m : (vtEptViolation allWriteBack mmioInit cpuAt256m.ept false 0).map Prod.snd =
      some .page2m := by decide +kernel
  have stops : (vtEptViolation allWriteBack mmioInit cpuAt256m.ept false 0).map
      (fun after => (curMove after.1 0x80000000).curLevel) = some 2 := by decide +kernel
  cases result : vtEptViolation allWriteBack mmioInit cpuAt256m.ept false 0 with
  | none =>
    rw [result] at isPage2m
    cases isPage2m
  | some after =>
    obtain ⟨ept, handled⟩ := after
    rw [result, Option.map_some, some.injEq] at isPage2m stops
    have ready : Ready mmioInit cpuAt256m := ready_of_cleared rfl rfl rfl fun _ => rfl
    have sound := (vtEptViolation_spec MmioData.listed_init.1 fits_okBlock ready.sound (by decide) result).1
    refine ⟨[.violation false 0], ⟨ept, allWriteBack, some handled⟩,
      Run.cons (Step.violation (by decide) result) (Run.nil _), by rw [← isPage2m], ?_⟩
    intro forced
    have isForced : vmmAt256m.Forced 0x80000000 := by
      refine ⟨0, fun m le => ?_, by unfold Vmm.InRegion; decide⟩
      rw [Nat.le_zero.mp le]
      decide
    have free : FreePage mmioInit 0x80000000 := fun p registered => absurd registered.1 (by simp [mmioInit])
    obtain ⟨page, ends, -⟩ := (curMove_spec sound.walk 0x80000000).endsAt
    rw [stops] at ends
    rcases forced _ isForced free with ⟨lower, at', -⟩ | ⟨lower, at', -⟩
    · exact ends.not_below at' (by decide)
    · exact ends.not_below at' (by decide)

def mixedTypes : Mtrr where
  getGmtrrType _ := 6
  gmtrrTypeEqual _ := false
  valid _ := by decide

theorem forced_stay_mapped_page : ∃ events, ∃ cpu : Cpu vmmAt256m,
    Run (Step mmioInit) { cpuAt256m with mtrr := mixedTypes } events cpu ∧
      cpu.last = some .page ∧ ForcedMapped mmioInit cpu.ept := by
  have isPage : (vtEptViolation mixedTypes mmioInit cpuAt256m.ept false 0).map Prod.snd =
      some .page := by decide +kernel
  cases result : vtEptViolation mixedTypes mmioInit cpuAt256m.ept false 0 with
  | none =>
    rw [result] at isPage
    cases isPage
  | some after =>
    obtain ⟨ept, handled⟩ := after
    rw [result, Option.map_some, some.injEq] at isPage
    have step : Step mmioInit { cpuAt256m with mtrr := mixedTypes } (.violation false 0)
        ⟨ept, mixedTypes, some handled⟩ := Step.violation (by decide) result
    have orderly : Orderly mmioInit { cpuAt256m with mtrr := mixedTypes } (.violation false 0) :=
      fun _ _ able => absurd able.equal (by decide)
    have mapped := forced_stay_mapped (Run.nil _) pagesAt256m 0 (fun _ => ⟨0, 0⟩) (fun _ _ => 0)
      mixedTypes (Run.cons ⟨step, orderly⟩ (Run.nil _)) (.inr (congrArg some isPage))
    exact ⟨_, _, Run.cons step (Run.nil _), congrArg some isPage, mapped⟩

end DisasVisor.Ept
