import DisasVisor.Thread.Placement

/-!
A thread made by `thread_new` runs on a CPU only while the boot thread of the CPU waits on the
list of runnable threads. So `schedule` finds a thread to switch to, and a thread that stops or
exits leaves the CPU.
-/

namespace DisasVisor.Thread

open Scheduler

variable {s next : Scheduler} {place : Tid → Place} {cpu : Nat} {tid : Tid} {event : Section}

def IsBootThread (s : Scheduler) (cpu : Nat) (b : Tid) : Prop := (s.td b).boot = true ∧ (s.td b).cpunum = cpu

def BootStays (before : Scheduler) : Section → Prop
  | .willStop cpu => ∀ tid, before.current cpu = some tid → (before.td tid).boot = false
  | .exit cpu => ∀ tid, before.current cpu = some tid → (before.td tid).boot = false
  | _ => True

/-- Every CPU that has a thread has one boot thread, which runs there or waits; an exited thread
that is still on a CPU is inside `thread_exit`. -/
structure Booted (s : Scheduler) : Prop where
  inited : ∀ cpu b, IsBootThread s cpu b → s.current cpu ≠ none
  boot : ∀ cpu tid, s.current cpu = some tid → ∃ b, IsBootThread s cpu b
  unique : ∀ cpu b other, IsBootThread s cpu b → IsBootThread s cpu other → b = other
  owned : ∀ b, (s.td b).boot = true → ∃ cpu, IsBootThread s cpu b
  runs : ∀ b, (s.td b).boot = true → (s.td b).state = .run
  waits : ∀ cpu b, IsBootThread s cpu b → s.current cpu = some b ∨ b ∈ s.tdRunnable
  exiting : ∀ cpu tid, s.current cpu = some tid → (s.td tid).state = .exit → (s.pcpu cpu).phase = .exiting

theorem booted_threadInitGlobal : Booted threadInitGlobal where
  inited _ _ isBoot := by simp [IsBootThread, threadInitGlobal] at isBoot
  boot _ _ on := by simp [current, threadInitGlobal] at on
  unique _ _ _ isBoot := by simp [IsBootThread, threadInitGlobal] at isBoot
  owned _ isBoot := by simp [threadInitGlobal] at isBoot
  runs _ isBoot := by simp [threadInitGlobal] at isBoot
  waits _ _ isBoot := by simp [IsBootThread, threadInitGlobal] at isBoot
  exiting _ _ on := by simp [current, threadInitGlobal] at on

theorem setState_owner {state : ThreadState} {t : Tid} :
    ((s.setState tid state).td t).boot = (s.td t).boot ∧
      ((s.setState tid state).td t).cpunum = (s.td t).cpunum := by
  by_cases same : t = tid
  · simp [Scheduler.setState, same]
  · simp [Scheduler.setState, same]

theorem Orderly.awake (orderly : Orderly s place) (on : s.current cpu = some tid) : (s.td tid).state ≠ .stop := by
  have allowed := orderly.allows tid
  rwa [(orderly.current cpu tid).mp on] at allowed

section

variable (booted : Booted s)
include booted

theorem Booted.waiting (on : s.current cpu = some tid)
    (made : (s.td tid).boot = false) {b : Tid} (isBoot : IsBootThread s cpu b) : b ∈ s.tdRunnable := by
  rcases booted.waits cpu b isBoot with here | waiting
  · rw [on] at here
    cases here
    simp [isBoot.1] at made
  · exact waiting

theorem Booted.search (on : s.current cpu = some tid)
    (made : (s.td tid).boot = false) : ∃ d, s.tdRunnable.find? (suits s cpu) = some d := by
  obtain ⟨b, isBoot⟩ := booted.boot cpu tid on
  have found : (s.tdRunnable.find? (suits s cpu)).isSome := by
    rw [List.find?_isSome]
    exact ⟨b, booted.waiting on made isBoot, by simp [suits, isBoot.2]⟩
  exact Option.isSome_iff_exists.mp found

theorem Booted.keep (flags : ∀ t, (next.td t).boot = (s.td t).boot)
    (cpus : ∀ t, (s.td t).boot = true → (next.td t).cpunum = (s.td t).cpunum)
    (inited : ∀ cpu, s.current cpu = none ↔ next.current cpu = none)
    (runs : ∀ b, (s.td b).boot = true → (next.td b).state = .run)
    (waits : ∀ cpu b, IsBootThread s cpu b → next.current cpu = some b ∨ b ∈ next.tdRunnable)
    (exiting : ∀ cpu tid, next.current cpu = some tid → (next.td tid).state = .exit →
      (next.pcpu cpu).phase = .exiting) : Booted next := by
  have same : ∀ cpu b, IsBootThread next cpu b ↔ IsBootThread s cpu b := by
    intro cpu b
    rw [IsBootThread, IsBootThread, flags]
    exact and_congr_right fun isBoot => by rw [cpus b isBoot]
  constructor
  · intro cpu b isBoot
    rw [Ne, ← inited]
    exact booted.inited cpu b ((same cpu b).mp isBoot)
  · intro cpu tid on
    cases before : s.current cpu with
    | none =>
      rw [(inited cpu).mp before] at on
      cases on
    | some old =>
      obtain ⟨b, isBoot⟩ := booted.boot cpu old before
      exact ⟨b, (same cpu b).mpr isBoot⟩
  · intro cpu b other isBoot otherBoot
    exact booted.unique cpu b other ((same cpu b).mp isBoot) ((same cpu other).mp otherBoot)
  · intro b isBoot
    obtain ⟨cpu, isBoot⟩ := booted.owned b (by rwa [flags] at isBoot)
    exact ⟨cpu, (same cpu b).mpr isBoot⟩
  · intro b isBoot
    exact runs b (by rwa [flags] at isBoot)
  · intro cpu b isBoot
    exact waits cpu b ((same cpu b).mp isBoot)
  · exact exiting

theorem Booted.not_boot (stopped : (s.td tid).state ≠ .run) : (s.td tid).boot = false := by
  cases flag : (s.td tid).boot with
  | false => rfl
  | true => exact absurd (booted.runs tid flag) stopped

theorem Booted.setPhase (phase : Phase)
    (live : ∀ t, s.current cpu = some t → (s.td t).state ≠ .exit) : Booted (s.setPhase cpu phase) := by
  refine booted.keep (fun _ => rfl) (fun _ _ => rfl) (fun other => ?_) booted.runs
    (fun other b isBoot => ?_) (fun other t on exited => ?_)
  · rw [current, current, setPhase_tid]
  · rw [current, setPhase_tid]
    exact booted.waits other b isBoot
  · rw [current, setPhase_tid] at on
    rw [setPhase_phase, if_neg]
    · exact booted.exiting other t on exited
    · rintro rfl
      exact live t on exited

theorem Booted.live {phase : Phase} (idle : (s.pcpu cpu).phase = phase)
    (other : phase ≠ .exiting) (t : Tid) (on : s.current cpu = some t) : (s.td t).state ≠ .exit := by
  intro exited
  have inside := booted.exiting cpu t on exited
  rw [idle] at inside
  exact other inside

theorem Booted.free_head (orderly : Orderly s place) {d : Tid} {rest : List Tid} (list : s.tdFree = d :: rest) :
    place d = .free ∧ (s.td d).boot = false := by
  have free : place d = .free := orderly.mem_free.mp (by simp [list])
  have exited : (s.td d).state = .exit := by
    have allowed := orderly.allows d
    rwa [free] at allowed
  exact ⟨free, booted.not_boot (by simp [exited])⟩

theorem booted_threadInitPcpu (orderly : Orderly s place)
    (fresh : s.current cpu = none) : Booted (threadInitPcpu s cpu) := by
  cases list : s.tdFree with
  | nil =>
    simp only [threadInitPcpu, list]
    exact booted.setPhase .panicked (by simp [fresh])
  | cons d rest =>
    obtain ⟨free, unowned⟩ := booted.free_head orderly list
    have offCpus := orderly.not_current (t := d) (by simp [free])
    simp only [threadInitPcpu, list]
    have isBoot_iff : ∀ other b, IsBootThread
        { (s.setThread d (threadDataInit 0 cpu true)).setPcpu cpu
            { s.pcpu cpu with tid := some d } with tdFree := rest } other b ↔
        (b = d ∧ other = cpu) ∨ IsBootThread s other b := by
      intro other b
      by_cases same : b = d
      · subst same
        simp only [IsBootThread, threadDataInit, unowned, setPcpu_td, setThread_td, Function.update_self]
        simp only [true_and, Bool.false_eq_true, false_and, or_false, Int.ofNat_inj, eq_comm]
      · simp [IsBootThread, same]
    constructor
    · intro other b isBoot
      by_cases here : other = cpu
      · simp [current, here]
      · rcases (isBoot_iff other b).mp isBoot with ⟨_, rfl⟩ | old
        · exact absurd rfl here
        · simpa [current, here] using booted.inited other b old
    · intro other t on
      by_cases here : other = cpu
      · exact ⟨d, (isBoot_iff other d).mpr (.inl ⟨rfl, here⟩)⟩
      · obtain ⟨b, isBoot⟩ := booted.boot other t (by simpa [current, here] using on)
        exact ⟨b, (isBoot_iff other b).mpr (.inr isBoot)⟩
    · intro other b b' isBoot isBoot'
      rcases (isBoot_iff other b).mp isBoot with ⟨rfl, rfl⟩ | old <;>
        rcases (isBoot_iff _ b').mp isBoot' with ⟨rfl, here⟩ | old'
      · rfl
      · exact absurd fresh (booted.inited _ b' old')
      · subst here
        exact absurd fresh (booted.inited _ b old)
      · exact booted.unique other b b' old old'
    · intro b isBoot
      by_cases same : b = d
      · exact ⟨cpu, (isBoot_iff cpu b).mpr (.inl ⟨same, rfl⟩)⟩
      · obtain ⟨other, old⟩ := booted.owned b (by simpa [same] using isBoot)
        exact ⟨other, (isBoot_iff other b).mpr (.inr old)⟩
    · intro b isBoot
      by_cases same : b = d
      · simp [same, threadDataInit]
      · simpa [same] using booted.runs b (by simpa [same] using isBoot)
    · intro other b isBoot
      rcases (isBoot_iff other b).mp isBoot with ⟨rfl, rfl⟩ | old
      · simp [current]
      · have away : other ≠ cpu := by
          rintro rfl
          exact booted.inited other b old fresh
        simpa [current, away] using booted.waits other b old
    · intro other t on exits
      by_cases here : other = cpu
      · have self : t = d := by simpa [current, here, eq_comm] using on
        simp [self, threadDataInit] at exits
      · have before : s.current other = some t := by simpa [current, here] using on
        have other_d : t ≠ d := by
          rintro rfl
          exact offCpus other before
        simpa [here] using booted.exiting other t before (by simpa [other_d] using exits)

theorem booted_threadNew0 (orderly : Orderly s place)
    (idle : (s.pcpu cpu).phase = .running) (stack : UInt64) : Booted (threadNew0 s cpu stack) := by
  cases list : s.tdFree with
  | nil =>
    simp only [threadNew0, list]
    exact booted.setPhase .panicked (booted.live idle (by simp))
  | cons d rest =>
    have unowned := (booted.free_head orderly list).2
    simp only [threadNew0, list]
    refine booted.keep (fun t => ?_) (fun t isBoot => ?_) (fun _ => Iff.rfl) (fun b isBoot => ?_)
      (fun other b isBoot => ?_) (fun other t here exits => ?_)
    · by_cases same : t = d
      · simp [same, unowned, threadDataInit]
      · simp [same]
    · have other : t ≠ d := by
        rintro rfl
        simp [isBoot] at unowned
      simp [other]
    · by_cases same : b = d
      · simp [same, threadDataInit]
      · simpa [same] using booted.runs b isBoot
    · exact (booted.waits other b isBoot).imp_right (List.mem_append_left _)
    · by_cases same : t = d
      · simp [same, threadDataInit] at exits
      · exact booted.exiting other t here (by simpa [same] using exits)

theorem Booted.setState {state : ThreadState} (flag : (s.td tid).boot = true → state = .run)
    (exits : state = .exit → ∀ cpu, s.current cpu ≠ some tid) : Booted (s.setState tid state) := by
  refine booted.keep (fun _ => setState_owner.1) (fun _ _ => setState_owner.2) (fun _ => Iff.rfl) ?_ booted.waits ?_
  · intro b isBoot
    rw [setState_state]
    split
    · subst b
      exact flag isBoot
    · exact booted.runs b isBoot
  · intro cpu t on exited
    rw [setState_state] at exited
    split at exited
    · subst t
      exact absurd on (exits exited cpu)
    · exact booted.exiting cpu t on exited

theorem booted_threadWakeup (idle : (s.pcpu cpu).phase = .running)
    (live : (s.td tid).state ≠ .exit) : Booted (threadWakeup s cpu tid) := by
  have woken : Booted (s.setState tid .run) := booted.setState (fun _ => rfl) (by simp)
  have awake : ∀ t, (s.setState tid .run).current cpu = some t → ((s.setState tid .run).td t).state ≠ .exit := by
    intro t on
    rw [setState_state]
    split
    · simp
    · exact booted.live idle (by simp) t on
  cases state : (s.td tid).state with
  | exit => exact absurd state live
  | run => simpa only [threadWakeup, state] using woken
  | willStop => simpa only [threadWakeup, state] using woken
  | stop => simpa only [threadWakeup, state] using woken.setPhase _ awake

theorem booted_threadWakeupAdd (waking : (s.pcpu cpu).phase = .waking tid) :
    Booted (threadWakeupAdd s cpu tid) := by
  have ran := booted.setPhase .running (booted.live waking (by simp))
  refine ran.keep (fun _ => rfl) (fun _ _ => rfl) (fun _ => Iff.rfl) ran.runs ?_ ran.exiting
  intro other b isBoot
  exact (ran.waits other b isBoot).imp_right (List.mem_append_left _)

theorem booted_threadWillStop (idle : (s.pcpu cpu).phase = .running)
    (made : (s.td tid).boot = false) : Booted (threadWillStop s cpu tid) := by
  have stopping : Booted (s.setState tid .willStop) := booted.setState (by simp [made]) (by simp)
  have awake : ∀ t, (s.setState tid .willStop).current cpu = some t →
      ((s.setState tid .willStop).td t).state ≠ .exit := by
    intro t on
    rw [setState_state]
    split
    · simp
    · exact booted.live idle (by simp) t on
  unfold threadWillStop
  split
  · exact stopping
  · exact stopping
  · exact stopping.setPhase _ awake
  · exact stopping.setPhase _ awake

end

theorem threadExit_eq (awake : (s.td tid).state ≠ .stop) :
    threadExit s cpu tid = (s.setState tid .exit).setPhase cpu .exiting := by
  cases state : (s.td tid).state with
  | stop => exact absurd state awake
  | _ => simp only [threadExit, state]

theorem booted_threadExit (booted : Booted s) (orderly : Orderly s place)
    (on : s.current cpu = some tid) (made : (s.td tid).boot = false) : Booted (threadExit s cpu tid) := by
  have here : place tid = .current cpu := (orderly.current cpu tid).mp on
  have awake := orderly.awake on
  rw [threadExit_eq awake]
  refine booted.keep (fun _ => setState_owner.1) (fun _ _ => setState_owner.2) (fun other => ?_) ?_ ?_ ?_
  · rw [current, current, setPhase_tid, setState_pcpu]
  · intro b isBoot
    rw [setPhase_td, setState_state, if_neg]
    · exact booted.runs b isBoot
    · rintro rfl
      simp [isBoot] at made
  · intro other b isBoot
    rw [current, setPhase_tid, setState_pcpu]
    exact booted.waits other b isBoot
  · intro other t onOther exited
    rw [current, setPhase_tid, setState_pcpu] at onOther
    rw [setPhase_phase]
    split
    · rfl
    · rw [setPhase_td, setState_state] at exited
      split at exited
      · subst t
        have there : place tid = .current other := (orderly.current other tid).mp onOther
        rw [here, Place.current.injEq] at there
        exact absurd there.symm ‹other ≠ cpu›
      · exact booted.exiting other t onOther exited

theorem putBack_pcpu (awake : (s.td tid).state ≠ .stop) : (putBack s cpu tid).pcpu = s.pcpu := by
  cases state : (s.td tid).state with
  | stop => exact absurd state awake
  | _ => simp [putBack, state]

theorem putBack_owner (t : Tid) : ((putBack s cpu tid).td t).boot = (s.td t).boot ∧
    ((putBack s cpu tid).td t).cpunum = (s.td t).cpunum := by
  cases state : (s.td tid).state with
  | willStop =>
    by_cases same : t = tid
    · simp [putBack, state, Scheduler.setState, same]
    · simp [putBack, state, Scheduler.setState, same]
  | _ => simp [putBack, state]

theorem putBack_runnable {t : Tid} (listed : t ∈ s.tdRunnable ∨ t = tid ∧ (s.td tid).state = .run) :
    t ∈ (putBack s cpu tid).tdRunnable := by
  cases state : (s.td tid).state with
  | run =>
    simp only [putBack, state]
    rcases listed with waiting | ⟨rfl, _⟩
    · exact List.mem_append_left _ waiting
    · exact List.mem_append_right _ (List.mem_singleton_self t)
  | _ =>
    rcases listed with waiting | ⟨_, runs⟩
    · simpa [putBack, state] using waiting
    · simp [state] at runs

theorem saveAndLoad_owner {d t : Tid} :
    ((threadDataSaveAndLoad s cpu tid d).td t).boot = (s.td t).boot ∧
      ((threadDataSaveAndLoad s cpu tid d).td t).cpunum = (s.td t).cpunum := by
  by_cases same : t = tid
  · simp [threadDataSaveAndLoad, same]
  · simp [threadDataSaveAndLoad, same]

theorem schedule_pcpu {d : Tid} (search : s.tdRunnable.find? (suits s cpu) = some d)
    (awake : (s.td tid).state ≠ .stop) (other : Nat) :
    (schedule s cpu tid).current other = (if other = cpu then some d else s.current other) ∧
      (other ≠ cpu → ((schedule s cpu tid).pcpu other).phase = (s.pcpu other).phase) := by
  rw [schedule_some search, current, putBack_pcpu (by rwa [saveAndLoad_state])]
  by_cases here : other = cpu
  · simp [threadDataSaveAndLoad, here]
  · simp [threadDataSaveAndLoad, listDelRunnable, freeOldStack, Scheduler.setPhase, current, here]

theorem booted_schedule (booted : Booted s) (orderly : Orderly s place)
    (on : s.current cpu = some tid) : Booted (schedule s cpu tid) := by
  have here : place tid = .current cpu := (orderly.current cpu tid).mp on
  have awake := orderly.awake on
  cases search : s.tdRunnable.find? (suits s cpu) with
  | none =>
    have isBoot : (s.td tid).boot = true := by
      cases flag : (s.td tid).boot with
      | true => rfl
      | false =>
        obtain ⟨d, found⟩ := booted.search on flag
        simp [search] at found
    have live : ∀ t, s.current cpu = some t → (s.td t).state ≠ .exit := by
      intro t onCpu
      rw [on, Option.some.injEq] at onCpu
      subst onCpu
      simp [booted.runs tid isBoot]
    have ran := booted.setPhase .running live
    rw [schedule_none search]
    exact ⟨ran.inited, ran.boot, ran.unique, ran.owned, ran.runs, ran.waits, ran.exiting⟩
  | some d =>
    have listed : d ∈ s.tdRunnable := List.mem_of_find?_eq_some search
    have found : place d = .runnable := orderly.mem_runnable.mp listed
    have ready : (s.td d).state = .run := by
      have allowed := orderly.allows d
      rwa [found] at allowed
    have owner : ∀ t, ((schedule s cpu tid).td t).boot = (s.td t).boot ∧
        ((schedule s cpu tid).td t).cpunum = (s.td t).cpunum := by
      intro t
      rw [schedule_some search, (putBack_owner t).1, (putBack_owner t).2, saveAndLoad_owner.1, saveAndLoad_owner.2]
      exact ⟨rfl, rfl⟩
    have cpus := fun other => (schedule_pcpu search awake other).1
    refine booted.keep (fun t => (owner t).1) (fun t _ => (owner t).2) ?_ ?_ ?_ ?_
    · intro other
      rw [cpus other]
      split
      · subst other
        simp [on]
      · rfl
    · intro b isBoot
      rw [schedule_state search, if_neg]
      · exact booted.runs b isBoot
      · rintro ⟨rfl, stopping⟩
        rw [booted.runs b isBoot] at stopping
        cases stopping
    · intro other b isBoot
      rw [cpus other, schedule_some search]
      by_cases chosen : b = d
      · -- the chosen thread suits this CPU, so a boot thread is this CPU's own
        subst chosen
        have fits : suits s cpu b = true := List.find?_some search
        have own : other = cpu := by
          have number := isBoot.2
          simp only [suits, Bool.or_eq_true, beq_iff_eq, cpunumAny, number] at fits
          omega
        exact .inl (by simp [own])
      · by_cases leaves : b = tid
        · subst leaves
          refine .inr (putBack_runnable (.inr ⟨rfl, ?_⟩))
          rw [saveAndLoad_state]
          exact booted.runs b isBoot.1
        · have waiting : other = cpu ∨ s.current other ≠ some b → b ∈ s.tdRunnable := by
            intro elsewhere
            rcases booted.waits other b isBoot with held | waiting
            · rcases elsewhere with rfl | away
              · rw [on, Option.some.injEq] at held
                exact absurd held.symm leaves
              · exact absurd held away
            · exact waiting
          by_cases held : other ≠ cpu ∧ s.current other = some b
          · exact .inl (by rw [if_neg held.1]; exact held.2)
          · refine .inr (putBack_runnable (.inl ?_))
            have still : b ∈ s.tdRunnable := waiting (by tauto)
            exact (List.mem_erase_of_ne chosen).mpr still
    · intro other t onOther exited
      rw [schedule_state search] at exited
      rw [cpus other] at onOther
      split at onOther
      · have self : d = t := by simpa using onOther
        subst self
        split at exited
        · cases exited
        · rw [ready] at exited
          cases exited
      · split at exited
        · cases exited
        · rw [(schedule_pcpu search awake other).2 ‹other ≠ cpu›]
          exact booted.exiting other t onOther exited

theorem booted_step (step : Step s event next) (stays : BootStays s event)
    (booted : Booted s) (orderly : Orderly s place) : Booted next := by
  cases step with
  | initPcpu fresh _ => exact booted_threadInitPcpu booted orderly fresh
  | schedule on _ => exact booted_schedule booted orderly on
  | exitSchedule on _ => exact booted_schedule booted orderly on
  | new stack _ idle => exact booted_threadNew0 booted orderly idle stack
  | wakeup target _ idle live => exact booted_threadWakeup booted idle live
  | wakeupAdd waking => exact booted_threadWakeupAdd booted waking
  | willStop on idle => exact booted_threadWillStop booted idle (stays _ on)
  | exit on _ => exact booted_threadExit booted orderly on (stays _ on)

def BootRun (before : Scheduler) (sections : List Section) (after : Scheduler) : Prop :=
  Transitions.Run (fun before event after => Step before event after ∧ BootStays before event) before sections after

theorem booted_run {sections : List Section} (run : BootRun threadInitGlobal sections s) :
    Booted s ∧ ∃ place, Orderly s place := by
  refine run.keeps (fun s => Booted s ∧ ∃ place, Orderly s place) ?_ ?_
  · rintro before event after ⟨step, stays⟩ ⟨booted, orderly⟩
    refine ⟨?_, orderly_step step orderly⟩
    obtain ⟨place, orderly⟩ := orderly
    exact booted_step step stays booted orderly
  · exact ⟨booted_threadInitGlobal, _, placed_threadInitGlobal, fun _ => rfl⟩

/-- The sections that may bring a thread that left its CPU back: a wake-up of it, and those that
make a new thread of its entry. -/
def Revives (before : Scheduler) (tid : Tid) : Section → Prop
  | .wakeup _ target => target = tid
  | .new _ _ => before.tdFree.head? = some tid
  | .initPcpu _ => before.tdFree.head? = some tid
  | _ => False

def Gone (s : Scheduler) (tid : Tid) : Prop := (s.td tid).state = .stop ∨ tid ∈ s.tdFree

theorem Orderly.gone_onNoCpu (orderly : Orderly s place) (gone : Gone s tid) : OnNoCpu s tid := by
  refine orderly.not_current (fun cpu here => ?_)
  rcases gone with stopped | free
  · have allowed := orderly.allows tid
    rw [here] at allowed
    exact allowed stopped
  · rw [orderly.mem_free, here] at free
    cases free

theorem Gone.of_kept (gone : Gone s tid) (state : (next.td tid).state = (s.td tid).state)
    (free : tid ∈ s.tdFree → tid ∈ next.tdFree) : Gone next tid := by
  rcases gone with stopped | listed
  · exact .inl (state.trans stopped)
  · exact .inr (free listed)

theorem schedule_keeps_free (d : Tid) (listed : d ∈ s.tdFree) : d ∈ (schedule s cpu tid).tdFree := by
  cases search : s.tdRunnable.find? (suits s cpu) with
  | none => rwa [schedule_none search]
  | some found =>
    rw [schedule_some search]
    generalize loaded : threadDataSaveAndLoad (listDelRunnable (freeOldStack s cpu) found) cpu tid found = before
    have same : before.tdFree = s.tdFree := by
      rw [← loaded]
      rfl
    cases state : (before.td tid).state <;> simp [putBack, state, same, listed]

theorem gone_step (step : Step s event next) (orderly : Orderly s place)
    (dead : ¬Revives s tid event) (gone : Gone s tid) : Gone next tid := by
  have away : ∀ {cpu caller}, s.current cpu = some caller → tid ≠ caller := by
    rintro cpu caller on rfl
    exact orderly.gone_onNoCpu gone cpu on
  cases step with
  | initPcpu _ _ =>
    cases list : s.tdFree with
    | nil => exact gone.of_kept (by simp [threadInitPcpu, list]) (by simp [list])
    | cons d rest =>
      have other : tid ≠ d := by
        rintro rfl
        exact dead (by simp [Revives, list])
      exact gone.of_kept (by simp [threadInitPcpu, list, other]) (by simp [threadInitPcpu, list, other])
  | @schedule cpu caller on _ =>
    refine gone.of_kept ?_ (schedule_keeps_free tid)
    cases search : s.tdRunnable.find? (suits s cpu) with
    | none => rw [schedule_none search, freeOldStack_td]
    | some d => rw [schedule_state search, if_neg (fun both => away on both.1)]
  | @exitSchedule cpu caller on _ =>
    refine gone.of_kept ?_ (schedule_keeps_free tid)
    cases search : s.tdRunnable.find? (suits s cpu) with
    | none => rw [schedule_none search, freeOldStack_td]
    | some d => rw [schedule_state search, if_neg (fun both => away on both.1)]
  | new stack _ _ =>
    cases list : s.tdFree with
    | nil => exact gone.of_kept (by simp [threadNew0, list]) (by simp [list])
    | cons d rest =>
      have other : tid ≠ d := by
        rintro rfl
        exact dead (by simp [Revives, list])
      exact gone.of_kept (by simp [threadNew0, list, other]) (by simp [threadNew0, list, other])
  | @wakeup cpu caller target _ _ _ =>
    have other : tid ≠ target := fun same => dead same.symm
    refine gone.of_kept (by simp [threadWakeup_state, other]) ?_
    cases state : (s.td target).state <;> simp [threadWakeup, state]
  | wakeupAdd _ => exact gone.of_kept rfl id
  | @willStop cpu caller on _ =>
    refine gone.of_kept (by simp [threadWillStop_state, away on]) ?_
    cases state : (s.td caller).state <;> simp [threadWillStop, state]
  | @exit cpu caller on _ =>
    refine gone.of_kept (by simp [threadExit_state, away on]) ?_
    cases state : (s.td caller).state <;> simp [threadExit, state]

theorem schedule_gone {d : Tid} (search : s.tdRunnable.find? (suits s cpu) = some d)
    (stops : (s.td tid).state = .willStop ∨ (s.td tid).state = .exit) : Gone (schedule s cpu tid) tid := by
  rcases stops with stopping | exited
  · refine .inl ?_
    rw [schedule_state search, if_pos ⟨rfl, stopping⟩]
  · refine .inr ?_
    rw [schedule_some search]
    simp [putBack, saveAndLoad_state, listDelRunnable, exited]

/-- For a thread made by `thread_new` that is on a CPU: the CPU's boot thread is runnable,
`schedule` switches to another thread, the thread has not come back from `thread_exit`, and
after the `schedule` of a stopping or exited thread it is on no CPU as long as nobody wakes it
up and its entry is not made a new thread. -/
theorem stopping_thread_leaves {sections : List Section}
    (run : BootRun threadInitGlobal sections s) (on : s.current cpu = some tid) (made : (s.td tid).boot = false) :
    ((∃! b, IsBootThread s cpu b) ∧ ∀ b, IsBootThread s cpu b → b ∈ s.tdRunnable) ∧
      (∃ d, s.tdRunnable.find? (suits s cpu) = some d ∧ d ≠ tid ∧
        (schedule s cpu tid).current cpu = some d) ∧
      ((s.td tid).state = .exit → (s.pcpu cpu).phase = .exiting) ∧
      ((s.td tid).state = .willStop ∨ (s.td tid).state = .exit →
        (s.pcpu cpu).phase = .running ∨ (s.pcpu cpu).phase = .exiting →
        ∀ sections later, Transitions.Run (fun before event after =>
          Step before event after ∧ ¬Revives before tid event) (schedule s cpu tid) sections later →
        OnNoCpu later tid) := by
  obtain ⟨booted, place, orderly⟩ := booted_run run
  have here : place tid = .current cpu := (orderly.current cpu tid).mp on
  have awake := orderly.awake on
  obtain ⟨d, search⟩ := booted.search on made
  have distinct : d ≠ tid := by
    rintro rfl
    have listed := List.mem_of_find?_eq_some search
    rw [orderly.mem_runnable, here] at listed
    cases listed
  refine ⟨⟨?_, fun b => booted.waiting on made⟩, ⟨d, search, distinct, ?_⟩, booted.exiting cpu tid on, ?_⟩
  · obtain ⟨b, isBoot⟩ := booted.boot cpu tid on
    exact ⟨b, isBoot, fun other isBoot' => booted.unique cpu other b isBoot' isBoot⟩
  · rw [(schedule_pcpu search awake cpu).1, if_pos rfl]
  · intro stops calls sections later after
    have idle : ∀ t, (s.pcpu cpu).phase ≠ .waking t := by
      intro t waking
      rcases calls with runs | exits
      · simp [runs] at waking
      · simp [exits] at waking
    have left := orderly_schedule orderly idle on
    have kept : Gone later tid ∧ ∃ place, Orderly later place := by
      refine after.keeps (fun s => Gone s tid ∧ ∃ place, Orderly s place) ?_ ⟨schedule_gone search stops, left⟩
      rintro before event next ⟨step, dead⟩ ⟨gone, place, orderly⟩
      exact ⟨gone_step step orderly dead gone, orderly_step step ⟨place, orderly⟩⟩
    obtain ⟨gone, place, orderly⟩ := kept
    exact orderly.gone_onNoCpu gone

def stoppingThread : Scheduler :=
  threadWillStop (schedule (threadNew0 (threadInitPcpu threadInitGlobal 0) 0 4096) 0 0) 0 1

theorem bootRun_stoppingThread :
    BootRun threadInitGlobal [.initPcpu 0, .new 0 4096, .schedule 0, .willStop 0] stoppingThread := by
  refine .cons ⟨.initPcpu rfl rfl, trivial⟩ (.cons ⟨.new 4096 rfl rfl, trivial⟩
    (.cons ⟨.schedule rfl rfl, trivial⟩ (.cons ⟨.willStop rfl rfl, ?_⟩ (.nil _))))
  intro tid on
  have self : tid = 1 := (Option.some.inj on).symm
  subst self
  rfl

theorem stopping_thread_leaves_first :
    (stoppingThread.td 1).state = .willStop ∧
      ∀ sections later, Transitions.Run (fun before event after =>
        Step before event after ∧ ¬Revives before 1 event) (schedule stoppingThread 0 1)
          sections later → OnNoCpu later 1 := by
  have on : stoppingThread.current 0 = some 1 := rfl
  exact ⟨rfl, (stopping_thread_leaves bootRun_stoppingThread on rfl).2.2.2 (.inl rfl) (.inl rfl)⟩

end DisasVisor.Thread
