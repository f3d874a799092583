import DisasVisor.Mm.PageBlocks
import DisasVisor.Mm.ProcessShares

/-!
All the processes with the page allocator they share, and what no sequence of calls breaks.
-/

namespace DisasVisor.Mm

open Ledgers Transitions

structure Processes where
  buddy : Buddy
  /-- What went to `free_page_phys`, the last first. -/
  returned : List Nat
  space : Nat → Option ProcessSpace

namespace Processes

variable (m : Processes) (pid : Nat)

def running : Option Running :=
  (m.space pid).map fun space => { buddy := m.buddy, returned := m.returned, space := space }

def update (r : Running) : Processes where
  buddy := r.buddy
  returned := r.returned
  space := Function.update m.space pid (some r.space)

def mmProcessAlloc : Except Stop Processes :=
  match m.buddy.mmPageAlloc 0 with
  | none => .error .noMemory
  | some (phys, buddy) =>
    .ok { m with
      buddy := buddy, space := Function.update m.space pid (some { root := phys, table := fun _ => none }) }

def mmProcessFree (phys : Nat) : Processes where
  buddy := m.buddy.mmPageFree phys
  returned := phys :: m.returned
  space := Function.update m.space pid none

inductive Call
  | mapAlloc (virt len : Nat)
  | mapSharedPhyspage (virt phys : Nat) (rw : Bool)
  | mapShared (procphys : Option Nat) (vmm : Nat → Option Nat) (buf : UInt64) (len : UInt32) (rw pre : Bool)
  | mapStack (area : VmmArea) (fuel : Nat) (len : UInt32) (noalloc align : Bool)
  | unmap (virt len : Nat)
  | unmapStack (virt len : Nat)
  | unmapall

def lender : Option Nat → Lender
  | none => .vmm
  | some other =>
    if other = pid then .own
    else
      match m.space other with
      | none => .vmm
      | some space => .other space

def Call.run (m : Processes) (pid : Nat) (r : Running) : Call → Except Stop Running
  | .mapAlloc virt len => (·.2) <$> r.mmProcessMapAlloc virt len
  | .mapSharedPhyspage virt phys rw => (·.2) <$> r.mmProcessMapSharedPhyspage virt phys rw
  | .mapShared procphys vmm buf len rw pre => (·.2) <$> r.mmProcessMapShared (m.lender pid procphys) vmm buf len rw pre
  | .mapStack area fuel len noalloc align => (·.2) <$> r.mmProcessMapStack area fuel len noalloc align
  | .unmap virt len => .ok ((r.mmProcessUnmap virt len).getD r)
  | .unmapStack virt len => .ok ((r.mmProcessUnmapStack virt len).getD r)
  | .unmapall => r.mmProcessUnmapall

inductive Event
  | alloc (pid : Nat)
  | call (pid : Nat) (call : Call)
  | free (pid : Nat)
  | vmmAlloc (n p : Nat)
  | vmmFree (p : Nat)

inductive Step (m : Processes) : Event → Processes → Prop
  | alloc (pid : Nat) (m' : Processes) : m.space pid = none → m.mmProcessAlloc pid = .ok m' → Step m (.alloc pid) m'
  | call (pid : Nat) (call : Call) (r r' : Running) : m.running pid = some r →
      call.run m pid r = .ok r' → Step m (.call pid call) (m.update pid r')
  | free (pid : Nat) (space : ProcessSpace) : m.space pid = some space →
      Step m (.free pid) (m.mmProcessFree pid space.root)
  | vmmAlloc (n p : Nat) (buddy : Buddy) : n < numOfAllocsize → m.buddy.mmPageAlloc n = some (p, buddy) →
      Step m (.vmmAlloc n p) { m with buddy := buddy }
  | vmmFree (p : Nat) : p ∈ m.buddy.inUse → (∀ pid space, m.space pid = some space →
      ∀ slot, space.owner slot ≠ some p) → Step m (.vmmFree p) { m with buddy := m.buddy.mmPageFree p }

def boot (image : Image) : Processes where
  buddy := Buddy.mmInitGlobal image.head image.stop
  returned := []
  space _ := none

def ledger : Ledger (Nat × Slot) Nat where
  owner place := (m.space place.1).bind fun space => space.owner place.2
  used := m.buddy.inUse
  returned := m.returned

structure Sound : Prop where
  tidy : m.buddy.Tidy
  balanced : m.ledger.Balanced
  tables : ∀ pid space, m.space pid = some space → ∀ i table, space.table i = some table → i < 512

variable {m pid} {m' : Processes} {event : Event} {events : List Event} {r r' : Running} {image : Image}

theorem running_cases (is : m.running pid = some r) :
    ∃ space, m.space pid = some space ∧ r = { buddy := m.buddy, returned := m.returned, space := space } := by
  obtain ⟨space, found, same⟩ := Option.map_eq_some_iff.mp is
  exact ⟨space, found, same.symm⟩

theorem Sound.running (sound : m.Sound) (is : m.running pid = some r) : r.Sound := by
  obtain ⟨space, found, rfl⟩ := running_cases is
  have owner : ∀ slot, m.ledger.owner (pid, slot) = space.owner slot := by
    intro slot
    simp [ledger, found]
  refine ⟨sound.tidy, ⟨fun {slot p} own => ?_, fun {one other p} own own' => ?_⟩, sound.tables pid space found⟩
  · exact sound.balanced.used ((owner slot).trans own)
  · exact congrArg Prod.snd (sound.balanced.single ((owner one).trans own) ((owner other).trans own'))

def others (m : Processes) (i : Nat) (slot : Slot) : Option Nat := (m.space i).bind fun space => space.owner slot

theorem ledger_running (is : m.running pid = some r) : m.ledger = r.ledger.beside pid m.others := by
  obtain ⟨space, found, rfl⟩ := running_cases is
  simp only [ledger, Ledger.beside, Running.ledger, Ledger.mk.injEq, and_true]
  ext ⟨i, slot⟩
  by_cases same : i = pid
  · simp [same, found]
  · simp [same, others]

theorem ledger_update : (m.update pid r').ledger = r'.ledger.beside pid m.others := by
  simp only [ledger, update, Ledger.beside, Running.ledger, Ledger.mk.injEq, and_true]
  ext ⟨i, slot⟩
  by_cases same : i = pid
  · simp [same]
  · simp [same, others, Function.update_of_ne]

theorem Sound.update (sound : m.Sound) (is : m.running pid = some r) (leads : Running.Leads r r') :
    (m.update pid r').Sound := by
  refine ⟨leads.tidy, ?_, fun i space found => ?_⟩
  · have balanced := sound.balanced
    rw [ledger_running is] at balanced
    rw [ledger_update]
    exact leads.moves.beside.balanced balanced
  · by_cases same : i = pid
    · subst same
      have now : (m.update i r').space i = some r'.space := Function.update_self _ _ _
      rw [now] at found
      exact Option.some.inj found ▸ leads.tables
    · have now : (m.update pid r').space i = m.space i := Function.update_of_ne same _ _
      exact sound.tables i space (now.symm.trans found)

theorem leads_run (sound : r.Sound) (call : Call) (done : call.run m pid r = .ok r') : Running.Leads r r' := by
  have second : ∀ {α : Type} {result : Except Stop (α × Running)}, (·.2) <$> result = .ok r' →
      ∃ value, result = .ok (value, r') := by
    intro α result is
    cases result with
    | error stop => cases is
    | ok pair =>
      cases is
      exact ⟨pair.1, rfl⟩
  cases call with
  | mapAlloc virt len =>
    obtain ⟨mapped, done⟩ := second done
    exact (sound.mmProcessMapAlloc done).1
  | mapSharedPhyspage virt phys rw =>
    obtain ⟨mapped, done⟩ := second done
    exact (sound.mmProcessMapSharedPhyspage done).1
  | mapShared procphys vmm buf len rw pre =>
    obtain ⟨mapped, done⟩ := second done
    exact (sound.mmProcessMapShared done).1
  | mapStack area fuel len noalloc align =>
    obtain ⟨top, done⟩ := second done
    exact (sound.mmProcessMapStack done).1
  | unmap virt len =>
    cases done
    exact (sound.unmapped virt len).leads
  | unmapStack virt len =>
    cases done
    cases unmaps : r.mmProcessUnmapStack virt len with
    | none => exact sound.leads
    | some last => exact (sound.mmProcessUnmapStack unmaps).leads
  | unmapall =>
    obtain ⟨last, unmaps, clears, -⟩ := sound.mmProcessUnmapall
    have same : r' = last := Except.ok.inj (done.symm.trans unmaps)
    exact same ▸ clears.leads

theorem sound_alloc (sound : m.Sound) (unborn : m.space pid = none) (done : m.mmProcessAlloc pid = .ok m') :
    m'.Sound := by
  rw [mmProcessAlloc] at done
  split at done
  · cases done
  · rename_i phys buddy ran
    cases done
    have given := Buddy.given_mmPageAlloc sound.tidy (Nat.zero_le _) ran
    have unused : phys ∉ m.ledger.used := fun inUse => given.fresh inUse.2
    refine ⟨given.tidy, ?_, fun i space found => ?_⟩
    · have balanced := @Ledger.Balanced.take _ _ _ _ _ (pid, Slot.root) sound.balanced unused
      refine balanced.lose ?_ ?_
      · rintro ⟨i, slot⟩ p own
        by_cases same : i = pid
        · subst same
          have table : ∀ page, ProcessSpace.read { root := phys, table := fun _ => none } page = none := fun page => rfl
          cases slot with
          | root =>
            have is : phys = p := by simpa [ledger, ProcessSpace.owner] using own
            rw [← is]
            exact Ledger.owner_take _ _ _
          | table i => simp [ledger, ProcessSpace.owner] at own
          | entry page => simp [ledger, ProcessSpace.owner, table] at own
        · have differs : (i, slot) ≠ (pid, Slot.root) := fun eq => same (congrArg Prod.fst eq)
          rw [Ledger.owner_take_ne _ _ differs]
          simpa [ledger, Function.update_of_ne same] using own
      · rintro ⟨i, slot⟩ p own
        change p ∈ buddy.inUse
        rw [Buddy.inUse_given given]
        by_cases same : i = pid
        · subst same
          cases slot with
          | root =>
            have is : phys = p := by simpa [ledger, ProcessSpace.owner] using own
            exact is ▸ Set.mem_insert _ _
          | table i => simp [ledger, ProcessSpace.owner] at own
          | entry page => simp [ledger, ProcessSpace.owner, ProcessSpace.read] at own
        · refine Set.mem_insert_of_mem _ (@Ledger.Balanced.used _ _ _ sound.balanced (i, slot) _ ?_)
          simpa [ledger, Function.update_of_ne same] using own
    · by_cases same : i = pid
      · subst same
        obtain rfl : { root := phys, table := fun _ => none } = space := by simpa using found
        intro j table absent
        cases absent
      · exact sound.tables i space (by simpa [Function.update_of_ne same] using found)

theorem sound_free {space : ProcessSpace} (sound : m.Sound) (born : m.space pid = some space) :
    (m.mmProcessFree pid space.root).Sound := by
  have own : m.ledger.owner (pid, .root) = some space.root := by simp [ledger, born, ProcessSpace.owner]
  obtain ⟨page, held⟩ := sound.balanced.used own
  have freed := Buddy.freed_mmPageFree sound.tidy page held
  have elsewhere : ∀ i slot p, (m.mmProcessFree pid space.root).ledger.owner (i, slot) = some p →
      m.ledger.owner (i, slot) = some p ∧ i ≠ pid := by
    intro i slot p found
    by_cases same : i = pid
    · simp [same, ledger, mmProcessFree] at found
    · exact ⟨by simpa [ledger, mmProcessFree, Function.update_of_ne same] using found, same⟩
  refine ⟨freed.tidy, sound.balanced.lose ?_ ?_, fun i space' found => ?_⟩
  · rintro ⟨i, slot⟩ p found
    exact (elsewhere i slot p found).1
  · rintro ⟨i, slot⟩ p found
    obtain ⟨before, differs⟩ := elsewhere i slot p found
    change p ∈ (m.buddy.mmPageFree space.root).inUse
    rw [Buddy.inUse_freed freed]
    refine ⟨sound.balanced.used before, fun same => differs ?_⟩
    rw [Set.mem_singleton_iff.mp same] at before
    exact congrArg Prod.fst (sound.balanced.single before own)
  · by_cases same : i = pid
    · simp [same, mmProcessFree] at found
    · exact sound.tables i space' (by simpa [mmProcessFree, Function.update_of_ne same] using found)

theorem sound_step (sound : m.Sound) (step : Step m event m') : m'.Sound := by
  cases step with
  | alloc pid _ unborn done => exact sound_alloc sound unborn done
  | call pid call r r' is done => exact sound.update is (leads_run (sound.running is) call done)
  | free pid space born => exact sound_free sound born
  | vmmAlloc n p buddy small ran =>
    have given := Buddy.given_mmPageAlloc sound.tidy (Nat.le_of_lt small) ran
    refine ⟨given.tidy, ⟨fun {place q} own => ?_, sound.balanced.single⟩, sound.tables⟩
    change q ∈ buddy.inUse
    rw [Buddy.inUse_given given]
    exact Set.mem_insert_of_mem p (sound.balanced.used own)
  | vmmFree p inUse unowned =>
    have freed := Buddy.freed_mmPageFree sound.tidy inUse.1 inUse.2
    refine ⟨freed.tidy, ⟨fun {place q} own => ?_, sound.balanced.single⟩, sound.tables⟩
    change q ∈ (m.buddy.mmPageFree p).inUse
    rw [Buddy.inUse_freed freed]
    refine ⟨sound.balanced.used own, fun same => ?_⟩
    obtain ⟨space, born, owns⟩ := Option.bind_eq_some_iff.mp own
    exact unowned place.1 space born place.2 (Set.mem_singleton_iff.mp same ▸ owns)

theorem boot_buddy (image : Image) : (boot image).buddy = Buddy.mmInitGlobal image.head image.stop := by
  simp only [boot]

theorem sound_boot (image : Image) : (boot image).Sound := by
  have booting := Buddy.booting_mmInitGlobal image.head image.stop
  refine ⟨boot_buddy image ▸ booting.tidy, ⟨fun own => ?_, fun own _ => ?_⟩, fun pid space found => ?_⟩
  · cases own
  · cases own
  · cases found

theorem sound_run (run : Run Step (boot image) events m) : m.Sound :=
  run.keeps Sound (fun _ _ _ step sound => sound_step sound step) (sound_boot image)

/-- A mapping call leaves the present entries outside its own range as they are. The range of a
shared window is free before, and again after a call that fails; the pages of a stack are absent or
unmapped stack pages. -/
structure MapsApart (r : Running) : Prop where
  mapAlloc : ∀ virt len mapped r', r.mmProcessMapAlloc virt len = .ok (mapped, r') →
    ∀ page, page ∉ Running.pagesOf virt len → r'.space.read page = r.space.read page
  mapSharedPhyspage : ∀ virt phys rw mapped r', r.mmProcessMapSharedPhyspage virt phys rw = .ok (mapped, r') →
    ∀ page, page ≠ virt / 4096 → r'.space.read page = r.space.read page
  mapShared : ∀ procphys vmm buf len rw pre result r',
    r.mmProcessMapShared procphys vmm buf len rw pre = .ok (result, r') →
      (∀ page pte, r.space.read page = some pte → r'.space.read page = some pte) ∧
        (result = none → ∀ page, r'.space.read page = r.space.read page)
  mapStack : ∀ area fuel len noalloc align top r',
    r.mmProcessMapStack area fuel len noalloc align = .ok (top, r') →
      Running.Keeps r r' ∧
        (top ≠ 0 → ∀ i ∈ Process.StackPages.pageNumbers ((len + 4095) >>> 12),
          (r.stackPages area).allocStackSub (top - 4096 - (i * 4096).toUInt64) = true)

/-- In every run each page that an entry without the shared mark, a page table or a page directory
owns is in use, and owned there only. A call leaves in use what others own or share, and never
gives it back; and the end of a process gives back what it owned, each page once. -/
theorem address_spaces (image : Image) (events : List Event) (m : Processes)
    (run : Run Step (boot image) events m) :
    m.ledger.Balanced ∧ ∀ pid r, m.running pid = some r →
      (∀ call r', Call.run m pid r call = .ok r' →
        (∀ p, r.ledger.Foreign p → r'.ledger.Foreign p) ∧
          ∃ pages, r'.returned = pages ++ r.returned ∧ ∀ p ∈ pages, ¬r.ledger.Foreign p) ∧
      MapsApart r ∧
      ∃ r', r.mmProcessUnmapall = .ok r' ∧
        ∃ pages, ((m.update pid r').mmProcessFree pid r'.space.root).returned = pages ++ m.returned ∧
          pages.Nodup ∧ (∀ p, p ∈ pages ↔ r.ledger.Owns p) ∧
          ((m.update pid r').mmProcessFree pid r'.space.root).buddy.inUse = m.buddy.inUse \ {p | p ∈ pages} := by
  have sound := sound_run run
  refine ⟨sound.balanced, fun pid r is => ?_⟩
  have sound' := sound.running is
  refine ⟨fun call r' done => ?_, ?_, ?_⟩
  · exact (leads_run sound' call done).moves.foreign sound'.balanced
  · exact ⟨fun _ _ _ _ done => (sound'.mmProcessMapAlloc done).2,
      fun _ _ _ _ _ done => (sound'.mmProcessMapSharedPhyspage done).2,
      fun _ _ _ _ _ _ _ _ done => (sound'.mmProcessMapShared done).2,
      fun _ _ _ _ _ _ _ done => (sound'.mmProcessMapStack done).2⟩
  · obtain ⟨r', unmaps, clears, root⟩ := sound'.mmProcessUnmapall
    have last : r'.ledger.owner .root = some r'.space.root := rfl
    have gives := clears.gives.trans (Ledger.Gives.give last)
    obtain ⟨pages, back, nodup, used, owned⟩ := gives.returned sound'.balanced
    have after := clears.sound sound'
    obtain ⟨page, held⟩ := after.balanced.used last
    have freed := Buddy.inUse_freed (Buddy.freed_mmPageFree after.tidy page held)
    obtain ⟨space, -, rfl⟩ := running_cases is
    refine ⟨r', unmaps, pages, back, nodup, fun p => ?_, freed.trans used⟩
    rw [owned p]
    constructor
    · exact .inl
    · rintro (member | ⟨slot, own⟩)
      · exact member
      · obtain ⟨before, differs⟩ := Ledger.owner_give own
        exact absurd (root slot p before) differs

theorem sample_run : ∃ m r pte, Run Step (boot largeImage) [.alloc 1, .call 1 (.mapAlloc 0x1000 0x1000)] m ∧
    m.running 1 = some r ∧ r.space.read 1 = some pte ∧
      ∃ r', r.mmProcessMapSharedPhyspage 0x1000 77 false = .ok (true, r') ∧ r'.space.read 1 ≠ some pte := by
  have start : boot largeImage = { boot largeImage with
      buddy := ((Buddy.reservedPages.mmPageFree 32765).mmPageFree 32766).mmPageFree 32767 } := by
    rw [← boot_largeImage, Mm.boot_buddy, ← boot_buddy]
  rw [start]
  exact ⟨_, _, _, Run.cons (Step.alloc 1 _ rfl rfl) (Run.cons (Step.call 1 _ _ _ rfl rfl) (Run.nil _)),
    rfl, rfl, _, rfl, by decide⟩

theorem address_spaces_sample : ∃ m r, Run Step (boot largeImage) [.alloc 1, .call 1 (.mapAlloc 0x1000 0x1000)] m ∧
    m.running 1 = some r ∧ m.ledger.Balanced ∧ MapsApart r := by
  obtain ⟨m, r, -, run, is, -⟩ := sample_run
  have spaces := address_spaces largeImage _ m run
  exact ⟨m, r, run, is, spaces.1, (spaces.2 1 r is).2.1⟩

/-- A call for given addresses unmaps what is there. -/
theorem mapping_replaces :
    ¬∀ image events m, Run Step (boot image) events m → ∀ pid r, m.running pid = some r →
      ∀ virt phys rw mapped r', r.mmProcessMapSharedPhyspage virt phys rw = .ok (mapped, r') →
        ∀ page pte, r.space.read page = some pte → r'.space.read page = some pte := by
  intro never
  obtain ⟨m, r, pte, run, is, present, r', done, differs⟩ := sample_run
  exact differs (never largeImage _ m run 1 r is 0x1000 77 false true r' done 1 pte present)

end Processes

end DisasVisor.Mm
