import DisasVisor.Thread.Scheduler

/-!
Where each thread entry is: every section moves at most two entries, and the lists, the CPUs and
the states agree with the places in every reachable state.
-/

namespace DisasVisor.Thread

open List

open Function (update update_of_ne update_self update_apply update_comm)
open Scheduler

namespace Scheduler

variable (s : Scheduler) (tid : Tid) (cpu : Nat)

@[simp] theorem setThread_tdFree (d) : (s.setThread tid d).tdFree = s.tdFree := rfl
@[simp] theorem setThread_tdRunnable (d) : (s.setThread tid d).tdRunnable = s.tdRunnable := rfl
@[simp] theorem setThread_pcpu (d) : (s.setThread tid d).pcpu = s.pcpu := rfl
@[simp] theorem setThread_td (d) : (s.setThread tid d).td = update s.td tid d := rfl
@[simp] theorem setPcpu_tdFree (p) : (s.setPcpu cpu p).tdFree = s.tdFree := rfl
@[simp] theorem setPcpu_tdRunnable (p) : (s.setPcpu cpu p).tdRunnable = s.tdRunnable := rfl
@[simp] theorem setPcpu_td (p) : (s.setPcpu cpu p).td = s.td := rfl
@[simp] theorem setPcpu_pcpu (p) : (s.setPcpu cpu p).pcpu = update s.pcpu cpu p := rfl
@[simp] theorem setPhase_tdFree (phase) : (s.setPhase cpu phase).tdFree = s.tdFree := rfl
@[simp] theorem setPhase_tdRunnable (phase) : (s.setPhase cpu phase).tdRunnable = s.tdRunnable := rfl
@[simp] theorem setPhase_td (phase) : (s.setPhase cpu phase).td = s.td := rfl
@[simp] theorem setState_tdFree (state) : (s.setState tid state).tdFree = s.tdFree := rfl
@[simp] theorem setState_tdRunnable (state) : (s.setState tid state).tdRunnable = s.tdRunnable := rfl
@[simp] theorem setState_pcpu (state) : (s.setState tid state).pcpu = s.pcpu := rfl

@[simp] theorem setPhase_tid (phase other) : ((s.setPhase cpu phase).pcpu other).tid = (s.pcpu other).tid := by
  by_cases same : other = cpu
  · subst same
    simp [setPhase]
  · simp [setPhase, same]

theorem setPhase_phase (phase other) :
    ((s.setPhase cpu phase).pcpu other).phase = if other = cpu then phase else (s.pcpu other).phase := by
  by_cases same : other = cpu
  · subst same
    simp [setPhase]
  · simp [setPhase, same]

theorem setState_state (state other) :
    ((s.setState tid state).td other).state = if other = tid then state else (s.td other).state := by
  by_cases same : other = tid
  · subst same
    simp [setState]
  · simp [setState, same]

end Scheduler

inductive Place
  | free
  | runnable
  | current (cpu : Nat)
  | stopped
  | waking (cpu : Nat)
  deriving DecidableEq

structure Placed (s : Scheduler) (place : Tid → Place) : Prop where
  free : ∀ t, s.tdFree.count t = if place t = .free then 1 else 0
  runnable : ∀ t, s.tdRunnable.count t = if place t = .runnable then 1 else 0
  current : ∀ cpu t, (s.pcpu cpu).tid = some t ↔ place t = .current cpu
  waking : ∀ cpu t, (s.pcpu cpu).phase = .waking t ↔ place t = .waking cpu

variable {s next : Scheduler} {place : Tid → Place} {cpu : Nat} {tid : Tid}

variable {t d : Tid}

theorem Placed.mem_free (placed : Placed s place) : t ∈ s.tdFree ↔ place t = .free := by
  rw [← count_pos_iff, placed.free]
  split <;> simp_all

theorem Placed.mem_runnable (placed : Placed s place) : t ∈ s.tdRunnable ↔ place t = .runnable := by
  rw [← count_pos_iff, placed.runnable]
  split <;> simp_all

theorem placed_threadInitGlobal : Placed threadInitGlobal fun _ => .free where
  free t := by
    simp only [threadInitGlobal, if_true]
    exact count_eq_one_of_mem (nodup_finRange 256) (mem_finRange t)
  runnable t := by simp [threadInitGlobal]
  current cpu t := by simp [threadInitGlobal]
  waking cpu t := by simp [threadInitGlobal]

def Stands (s : Scheduler) (t : Tid) (p : Place) : Prop :=
  s.tdFree.count t = (if p = .free then 1 else 0) ∧ s.tdRunnable.count t = (if p = .runnable then 1 else 0) ∧
    (∀ cpu, (s.pcpu cpu).tid = some t ↔ p = .current cpu) ∧ ∀ cpu, (s.pcpu cpu).phase = .waking t ↔ p = .waking cpu

theorem placed_iff : Placed s place ↔ ∀ t, Stands s t (place t) where
  mp placed t := ⟨placed.free t, placed.runnable t, fun cpu => placed.current cpu t, fun cpu => placed.waking cpu t⟩
  mpr stands := ⟨fun t => (stands t).1, fun t => (stands t).2.1, fun cpu t => (stands t).2.2.1 cpu,
    fun cpu t => (stands t).2.2.2 cpu⟩

section

variable (placed : Placed s place)
include placed

theorem Placed.move (tid : Tid) (target : Place) (own : Stands next tid target)
    (others : ∀ t, t ≠ tid → Stands s t (place t) → Stands next t (place t)) :
    Placed next (update place tid target) := by
  refine placed_iff.mpr fun t => ?_
  by_cases moved : t = tid
  · rwa [moved, update_self]
  · rw [update_of_ne moved]
    exact others t moved (placed_iff.mp placed t)

theorem Placed.setPhase {phase : Phase}
    (idle : ∀ t, (s.pcpu cpu).phase ≠ .waking t) (after : ∀ t, phase ≠ .waking t) :
    Placed (s.setPhase cpu phase) place where
  free := placed.free
  runnable := placed.runnable
  current other t := by rw [setPhase_tid, placed.current]
  waking other t := by
    rw [setPhase_phase, ← placed.waking]
    split
    · subst other
      simp [idle t, after t]
    · rfl

theorem Placed.setState (state : ThreadState) : Placed (s.setState tid state) place where
  free := placed.free
  runnable := placed.runnable
  current := placed.current
  waking := placed.waking

theorem Placed.not_current (elsewhere : ∀ cpu, place t ≠ .current cpu) (other : Nat) :
    (s.pcpu other).tid ≠ some t := by
  rw [Ne, placed.current]
  exact elsewhere other

theorem placed_threadNew0 (idle : ∀ t, (s.pcpu cpu).phase ≠ .waking t) (stack : UInt64) :
    (s.tdFree = [] ∧ Placed (threadNew0 s cpu stack) place) ∨
      ∃ d, s.tdFree.head? = some d ∧ Placed (threadNew0 s cpu stack) (update place d .runnable) := by
  cases list : s.tdFree with
  | nil =>
    simp only [threadNew0, list]
    exact .inl ⟨trivial, placed.setPhase idle (by simp)⟩
  | cons d rest =>
    have free : place d = .free := placed.mem_free.mp (by simp [list])
    have stands := placed_iff.mp placed d
    simp only [threadNew0, list]
    refine .inr ⟨d, rfl, placed.move d .runnable ?_ fun t other before => ?_⟩
    · simp [Stands, list, free] at stands ⊢
      grind [update_apply, setPhase_phase]
    · simp [Stands, list, count_cons] at before ⊢
      grind [update_apply, setPhase_phase]

theorem placed_threadInitPcpu (idle : ∀ t, (s.pcpu cpu).phase ≠ .waking t) (fresh : (s.pcpu cpu).tid = none) :
    (s.tdFree = [] ∧ Placed (threadInitPcpu s cpu) place) ∨
      ∃ d, s.tdFree.head? = some d ∧ Placed (threadInitPcpu s cpu) (update place d (.current cpu)) := by
  cases list : s.tdFree with
  | nil =>
    simp only [threadInitPcpu, list]
    exact .inl ⟨trivial, placed.setPhase idle (by simp)⟩
  | cons d rest =>
    have free : place d = .free := placed.mem_free.mp (by simp [list])
    have stands := placed_iff.mp placed d
    simp only [threadInitPcpu, list]
    refine .inr ⟨d, rfl, placed.move d (.current cpu) ?_ fun t other before => ?_⟩
    · simp [Stands, list, free] at stands ⊢
      grind [update_apply, setPhase_phase]
    · simp [Stands, list, count_cons] at before ⊢
      grind [update_apply, setPhase_phase]

end

@[simp] theorem threadWakeupAdd_td : (threadWakeupAdd s cpu tid).td = s.td := rfl

section

variable (placed : Placed s place)
include placed

theorem placed_threadWakeupAdd (waking : (s.pcpu cpu).phase = .waking tid) :
    Placed (threadWakeupAdd s cpu tid) (update place tid .runnable) := by
  have here : place tid = .waking cpu := (placed.waking cpu tid).mp waking
  have stands := placed_iff.mp placed tid
  refine placed.move tid .runnable ?_ fun t other before => ?_
  · simp [Stands, here, threadWakeupAdd] at stands ⊢
    grind [update_apply, setPhase_phase]
  · simp [Stands, threadWakeupAdd] at before ⊢
    grind [update_apply, setPhase_phase]

theorem placed_wakeStopped (stopped : place tid = .stopped) (idle : ∀ t, (s.pcpu cpu).phase ≠ .waking t) :
    Placed ((s.setState tid .run).setPhase cpu (.waking tid)) (update place tid (.waking cpu)) := by
  have stands := placed_iff.mp placed tid
  refine placed.move tid (.waking cpu) ?_ fun t other before => ?_
  · simp [Stands, stopped, setPhase_phase] at stands ⊢
    grind [update_apply, setPhase_phase]
  · simp [Stands, setPhase_phase] at before ⊢
    grind [update_apply, setPhase_phase]

theorem placed_leave (on : place tid = .current cpu) :
    Placed (s.setPcpu cpu { s.pcpu cpu with tid := none }) (update place tid .stopped) := by
  have stands := placed_iff.mp placed tid
  rw [on] at stands
  refine placed.move tid .stopped ?_ fun t other before => ?_
  · simp [Stands] at stands ⊢
    grind [update_apply, setPhase_phase]
  · have here := (placed.current cpu tid).mpr on
    simp [Stands] at before ⊢
    grind [update_apply, setPhase_phase]

theorem placed_load (on : place tid = .current cpu) (found : place d = .runnable) :
    Placed (threadDataSaveAndLoad (listDelRunnable s d) cpu tid d)
      (update (update place tid .stopped) d (.current cpu)) := by
  have left := placed_leave placed on
  have stands := placed_iff.mp placed d
  refine left.move d (.current cpu) ?_ fun t other before => ?_
  · simp [Stands, threadDataSaveAndLoad, listDelRunnable, found] at stands ⊢
    grind [update_apply, setPhase_phase]
  · simp [Stands, threadDataSaveAndLoad, listDelRunnable] at before ⊢
    grind [update_apply, setPhase_phase]

end

def returnPlace : ThreadState → Place
  | .exit => .free
  | .run => .runnable
  | .willStop => .stopped
  | .stop => .stopped

theorem placed_putBack (placed : Placed s place) (idle : ∀ t, (s.pcpu cpu).phase ≠ .waking t)
    (off : place tid = .stopped) :
    Placed (putBack s cpu tid) (update place tid (returnPlace (s.td tid).state)) := by
  have stands := placed_iff.mp placed tid
  have stay : update place tid .stopped = place := by rw [← off, Function.update_eq_self]
  cases state : (s.td tid).state with
  | exit =>
    simp only [putBack, state, returnPlace]
    refine placed.move tid .free ?_ fun t other before => ?_
    · simp [Stands, off] at stands ⊢
      grind [update_apply, setPhase_phase]
    · simp [Stands] at before ⊢
      grind [update_apply, setPhase_phase]
  | run =>
    simp only [putBack, state, returnPlace]
    refine placed.move tid .runnable ?_ fun t other before => ?_
    · simp [Stands, off] at stands ⊢
      grind [update_apply, setPhase_phase]
    · simp [Stands] at before ⊢
      grind [update_apply, setPhase_phase]
  | willStop =>
    simp only [putBack, state, returnPlace, stay]
    exact placed.setState .stop
  | stop =>
    simp only [putBack, state, returnPlace, stay]
    exact placed.setPhase idle (by simp)

theorem placed_freeOldStack (placed : Placed s place)
    (idle : ∀ t, (s.pcpu cpu).phase ≠ .waking t) : Placed (freeOldStack s cpu) place := by
  have phase : Placed (s.setPhase cpu .running) place := placed.setPhase idle (by simp)
  exact ⟨phase.free, phase.runnable, phase.current, phase.waking⟩

@[simp] theorem freeOldStack_td : (freeOldStack s cpu).td = s.td := rfl

theorem find_freeOldStack :
    (freeOldStack s cpu).tdRunnable.find? (suits (freeOldStack s cpu) cpu) =
      s.tdRunnable.find? (suits s cpu) := rfl

theorem schedule_none (search : s.tdRunnable.find? (suits s cpu) = none) : schedule s cpu tid = freeOldStack s cpu := by
  simp only [schedule, find_freeOldStack, search]

theorem schedule_some (search : s.tdRunnable.find? (suits s cpu) = some d) :
    schedule s cpu tid =
      putBack (threadDataSaveAndLoad (listDelRunnable (freeOldStack s cpu) d) cpu tid d) cpu tid := by
  simp only [schedule, find_freeOldStack, search]

theorem saveAndLoad_state : ((threadDataSaveAndLoad s cpu tid d).td t).state = (s.td t).state := by
  by_cases same : t = tid
  · simp [threadDataSaveAndLoad, same]
  · simp [threadDataSaveAndLoad, same]

theorem placed_schedule (placed : Placed s place) (idle : ∀ t, (s.pcpu cpu).phase ≠ .waking t)
    (on : place tid = .current cpu) (search : s.tdRunnable.find? (suits s cpu) = some d) :
    d ≠ tid ∧ Placed (schedule s cpu tid)
      (update (update place tid (returnPlace (s.td tid).state)) d (.current cpu)) := by
  have found : place d = .runnable := placed.mem_runnable.mp (mem_of_find?_eq_some search)
  have distinct : d ≠ tid := by
    rintro rfl
    simp [on] at found
  refine ⟨distinct, ?_⟩
  have ran := placed_freeOldStack placed idle
  have loaded := placed_load ran on found
  have awake : ∀ t, ((threadDataSaveAndLoad (listDelRunnable (freeOldStack s cpu) d) cpu tid d).pcpu
      cpu).phase ≠ .waking t := by
    simp [threadDataSaveAndLoad, listDelRunnable, freeOldStack, Scheduler.setPhase]
  have left : update (update place tid Place.stopped) d (.current cpu) tid = .stopped := by simp [Ne.symm distinct]
  have back := placed_putBack loaded awake left
  rw [saveAndLoad_state, update_comm distinct.symm, Function.update_idem,
    update_comm distinct] at back
  rw [schedule_some search]
  exact back

/-!
In every reachable state each thread entry is in exactly one situation, and a thread that has
been woken up does not sleep before it asks to again.
-/

def Place.Allows : Place → ThreadState → Prop
  | .free, state => state = .exit
  | .runnable, state => state = .run
  | .current _, state => state ≠ .stop
  | .stopped, state => state = .stop
  | .waking _, state => state = .run

variable {event : Section}

structure Orderly (s : Scheduler) (place : Tid → Place) : Prop extends Placed s place where
  allows : ∀ t, (place t).Allows (s.td t).state

theorem putBack_state (t : Tid) :
    ((putBack s cpu tid).td t).state =
      if t = tid ∧ (s.td tid).state = .willStop then .stop else (s.td t).state := by
  cases state : (s.td tid).state with
  | willStop => simp [putBack, state, setState_state]
  | _ => simp [putBack, state]

theorem schedule_state {d : Tid} (search : s.tdRunnable.find? (suits s cpu) = some d) (t : Tid) :
    ((schedule s cpu tid).td t).state =
      if t = tid ∧ (s.td tid).state = .willStop then .stop else (s.td t).state := by
  rw [schedule_some search, putBack_state, saveAndLoad_state, saveAndLoad_state]
  rfl

section

variable (orderly : Orderly s place)

include orderly

theorem Orderly.setState {state : ThreadState}
    (allowed : (place tid).Allows state) : Orderly (s.setState tid state) place where
  toPlaced := orderly.toPlaced.setState state
  allows t := by
    rw [setState_state]
    split
    · subst t
      exact allowed
    · exact orderly.allows t

section

variable (idle : ∀ t, (s.pcpu cpu).phase ≠ .waking t)

include idle

theorem Orderly.setPhase {phase : Phase}
    (after : ∀ t, phase ≠ .waking t) :
    Orderly (s.setPhase cpu phase) place where
  toPlaced := orderly.toPlaced.setPhase idle after
  allows := orderly.allows

theorem orderly_threadNew0 (stack : UInt64) : ∃ place, Orderly (threadNew0 s cpu stack) place := by
  rcases placed_threadNew0 orderly.toPlaced idle stack with ⟨empty, placed⟩ | ⟨d, head, placed⟩
  · refine ⟨place, placed, fun t => ?_⟩
    simp only [threadNew0, empty]
    exact orderly.allows t
  · refine ⟨_, placed, fun t => ?_⟩
    obtain ⟨rest, list⟩ : ∃ rest, s.tdFree = d :: rest := by simpa [List.head?_eq_some_iff] using head
    simp only [threadNew0, list]
    by_cases same : t = d
    · simp [same, Place.Allows, threadDataInit]
    · simpa [same] using orderly.allows t

theorem orderly_threadInitPcpu (fresh : (s.pcpu cpu).tid = none) :
    ∃ place, Orderly (threadInitPcpu s cpu) place := by
  rcases placed_threadInitPcpu orderly.toPlaced idle fresh with ⟨empty, placed⟩ | ⟨d, head, placed⟩
  · refine ⟨place, placed, fun t => ?_⟩
    simp only [threadInitPcpu, empty]
    exact orderly.allows t
  · refine ⟨_, placed, fun t => ?_⟩
    obtain ⟨rest, list⟩ : ∃ rest, s.tdFree = d :: rest := by simpa [List.head?_eq_some_iff] using head
    simp only [threadInitPcpu, list]
    by_cases same : t = d
    · simp [same, Place.Allows, threadDataInit]
    · simpa [same] using orderly.allows t

theorem orderly_schedule (on : s.current cpu = some tid) : ∃ place, Orderly (schedule s cpu tid) place := by
  have here : place tid = .current cpu := (orderly.current cpu tid).mp on
  cases search : s.tdRunnable.find? (suits s cpu) with
  | none =>
    rw [schedule_none search]
    exact ⟨place, placed_freeOldStack orderly.toPlaced idle, orderly.allows⟩
  | some d =>
    obtain ⟨distinct, placed⟩ := placed_schedule orderly.toPlaced idle here search
    refine ⟨_, placed, fun t => ?_⟩
    have found : place d = .runnable := orderly.mem_runnable.mp (List.mem_of_find?_eq_some search)
    rw [schedule_state search]
    by_cases new : t = d
    · have ready := orderly.allows d
      simp only [found, Place.Allows] at ready
      simp [new, distinct, Place.Allows, ready]
    · by_cases old : t = tid
      · have awake := orderly.allows tid
        simp only [here, Place.Allows] at awake
        subst old
        cases state : (s.td t).state <;> simp_all [Place.Allows, returnPlace]
      · simpa [new, old] using orderly.allows t

theorem orderly_threadWakeup (live : (s.td tid).state ≠ .exit) :
    ∃ place, Orderly (threadWakeup s cpu tid) place := by
  have allowed := orderly.allows tid
  cases state : (s.td tid).state with
  | exit => exact absurd state live
  | run =>
    simp only [threadWakeup, state]
    exact ⟨place, orderly.setState (by rwa [state] at allowed)⟩
  | willStop =>
    simp only [threadWakeup, state]
    refine ⟨place, orderly.setState ?_⟩
    cases here : place tid <;> simp_all [Place.Allows]
  | stop =>
    simp only [threadWakeup, state]
    have stopped : place tid = .stopped := by cases here : place tid <;> simp_all [Place.Allows]
    refine ⟨_, placed_wakeStopped orderly.toPlaced stopped idle, fun t => ?_⟩
    rw [setPhase_td, setState_state]
    by_cases same : t = tid
    · simp [same, Place.Allows]
    · simpa [same] using orderly.allows t

end

theorem orderly_threadWakeupAdd (waking : (s.pcpu cpu).phase = .waking tid) :
    ∃ place, Orderly (threadWakeupAdd s cpu tid) place := by
  refine ⟨_, placed_threadWakeupAdd orderly.toPlaced waking, fun t => ?_⟩
  have allowed := orderly.allows t
  by_cases same : t = tid
  · subst same
    rw [(orderly.waking cpu t).mp waking] at allowed
    simpa [Place.Allows] using allowed
  · simpa [same] using allowed

theorem orderly_threadWillStop (idle : ∀ t, (s.pcpu cpu).phase ≠ .waking t) (on : s.current cpu = some tid) :
    Orderly (threadWillStop s cpu tid) place := by
  have here : place tid = .current cpu := (orderly.current cpu tid).mp on
  have stopping : Orderly (s.setState tid .willStop) place := orderly.setState (by simp [here, Place.Allows])
  unfold threadWillStop
  split
  · exact stopping
  · exact stopping
  · exact stopping.setPhase idle (by simp)
  · exact stopping.setPhase idle (by simp)

theorem orderly_threadExit (idle : ∀ t, (s.pcpu cpu).phase ≠ .waking t) (on : s.current cpu = some tid) :
    Orderly (threadExit s cpu tid) place := by
  have here : place tid = .current cpu := (orderly.current cpu tid).mp on
  have exited : Orderly (s.setState tid .exit) place := orderly.setState (by simp [here, Place.Allows])
  unfold threadExit
  split <;> exact exited.setPhase idle (by simp)

end

theorem orderly_step (step : Step s event next) (orderly : ∃ place, Orderly s place) : ∃ place, Orderly next place := by
  obtain ⟨place, orderly⟩ := orderly
  cases step with
  | initPcpu fresh idle => exact orderly_threadInitPcpu orderly (by simp [idle]) fresh
  | schedule on idle => exact orderly_schedule orderly (by simp [idle]) on
  | exitSchedule on idle => exact orderly_schedule orderly (by simp [idle]) on
  | new stack on idle => exact orderly_threadNew0 orderly (by simp [idle]) stack
  | wakeup target on idle live => exact orderly_threadWakeup orderly (by simp [idle]) live
  | wakeupAdd waking => exact orderly_threadWakeupAdd orderly waking
  | willStop on idle => exact ⟨place, orderly_threadWillStop orderly (by simp [idle]) on⟩
  | exit on idle => exact ⟨place, orderly_threadExit orderly (by simp [idle]) on⟩

theorem orderly_reachable (reachable : Reachable s) : ∃ place, Orderly s place := by
  obtain ⟨sections, run⟩ := reachable
  refine run.keeps (fun s => ∃ place, Orderly s place) ?_ ?_
  · intro before event after step orderly
    exact orderly_step step orderly
  · exact ⟨_, placed_threadInitGlobal, fun _ => rfl⟩

inductive Situation
  | free
  | runnable
  | current
  | stopped
  | waking
  deriving DecidableEq

def OnNoCpu (s : Scheduler) (tid : Tid) : Prop := ∀ cpu, s.current cpu ≠ some tid

def InNoWakeup (s : Scheduler) (tid : Tid) : Prop := ∀ cpu, (s.pcpu cpu).phase ≠ .waking tid

def InSituation (s : Scheduler) (tid : Tid) : Situation → Prop
  | .free => s.tdFree.count tid = 1 ∧ s.tdRunnable.count tid = 0 ∧ OnNoCpu s tid ∧ InNoWakeup s tid
  | .runnable =>
    s.tdFree.count tid = 0 ∧ s.tdRunnable.count tid = 1 ∧ (s.td tid).state = .run ∧ OnNoCpu s tid ∧ InNoWakeup s tid
  | .current =>
    s.tdFree.count tid = 0 ∧ s.tdRunnable.count tid = 0 ∧ (∃! cpu, s.current cpu = some tid) ∧ InNoWakeup s tid
  | .stopped =>
    s.tdFree.count tid = 0 ∧ s.tdRunnable.count tid = 0 ∧ (s.td tid).state = .stop ∧ OnNoCpu s tid ∧ InNoWakeup s tid
  | .waking =>
    s.tdFree.count tid = 0 ∧ s.tdRunnable.count tid = 0 ∧ OnNoCpu s tid ∧ ∃! cpu, (s.pcpu cpu).phase = .waking tid

theorem Orderly.situation (orderly : Orderly s place) (tid : Tid) : ∃! situation, InSituation s tid situation := by
  have allowed := orderly.allows tid
  have onCpu : ∀ cpu, s.current cpu = some tid ↔ place tid = .current cpu := fun cpu => orderly.current cpu tid
  have inWakeup := fun cpu => orderly.waking cpu tid
  have free := orderly.free tid
  have runnable := orderly.runnable tid
  cases here : place tid with
  | free =>
    simp only [here, if_true, reduceCtorEq, if_false, iff_false] at free runnable onCpu inWakeup
    refine ⟨.free, ⟨free, runnable, onCpu, inWakeup⟩, ?_⟩
    rintro (_ | _ | _ | _ | _) other <;> simp_all [InSituation]
  | runnable =>
    simp only [here, if_true, reduceCtorEq, if_false, iff_false] at free runnable onCpu inWakeup
    rw [here] at allowed
    refine ⟨.runnable, ⟨free, runnable, allowed, onCpu, inWakeup⟩, ?_⟩
    rintro (_ | _ | _ | _ | _) other <;> simp_all [InSituation]
  | current cpu =>
    simp only [here, reduceCtorEq, if_false, iff_false, Place.current.injEq] at free runnable onCpu inWakeup
    have once : ∃! cpu, s.current cpu = some tid :=
      ⟨cpu, (onCpu cpu).mpr rfl, fun other on => ((onCpu other).mp on).symm⟩
    refine ⟨.current, ⟨free, runnable, once, inWakeup⟩, ?_⟩
    have on := (onCpu cpu).mpr rfl
    rintro (_ | _ | _ | _ | _) other
    · simp_all [InSituation]
    · simp_all [InSituation]
    · rfl
    · exact absurd on (other.2.2.2.1 cpu)
    · exact absurd on (other.2.2.1 cpu)
  | stopped =>
    simp only [here, reduceCtorEq, if_false, iff_false] at free runnable onCpu inWakeup
    rw [here] at allowed
    refine ⟨.stopped, ⟨free, runnable, allowed, onCpu, inWakeup⟩, ?_⟩
    rintro (_ | _ | _ | _ | _) other <;> simp_all [InSituation]
  | waking cpu =>
    simp only [here, reduceCtorEq, if_false, iff_false, Place.waking.injEq] at free runnable onCpu inWakeup
    have once : ∃! cpu, (s.pcpu cpu).phase = .waking tid :=
      ⟨cpu, (inWakeup cpu).mpr rfl, fun other holds => ((inWakeup other).mp holds).symm⟩
    refine ⟨.waking, ⟨free, runnable, onCpu, once⟩, ?_⟩
    have holds := (inWakeup cpu).mpr rfl
    rintro (_ | _ | _ | _ | _) other
    · simp_all [InSituation]
    · simp_all [InSituation]
    · exact absurd holds (other.2.2.2 cpu)
    · exact absurd holds (other.2.2.2.2 cpu)
    · rfl

def CompletesWakeup (before : Scheduler) (tid : Tid) : Section → Prop
  | .wakeup _ target => target = tid ∧ (before.td tid).state ≠ .stop
  | .wakeupAdd cpu => (before.pcpu cpu).phase = .waking tid
  | _ => False

def CallsWillStop (before : Scheduler) (tid : Tid) : Section → Prop
  | .willStop cpu => before.current cpu = some tid
  | _ => False

theorem threadNew0_state (stack : UInt64) (t : Tid) :
    ((threadNew0 s cpu stack).td t).state = .run ∨ ((threadNew0 s cpu stack).td t).state = (s.td t).state := by
  cases list : s.tdFree with
  | nil => simp [threadNew0, list]
  | cons d rest =>
    by_cases same : t = d
    · simp [threadNew0, list, same, threadDataInit]
    · simp [threadNew0, list, same]

theorem threadInitPcpu_state (t : Tid) :
    ((threadInitPcpu s cpu).td t).state = .run ∨ ((threadInitPcpu s cpu).td t).state = (s.td t).state := by
  cases list : s.tdFree with
  | nil => simp [threadInitPcpu, list]
  | cons d rest =>
    by_cases same : t = d
    · simp [threadInitPcpu, list, same, threadDataInit]
    · simp [threadInitPcpu, list, same]

theorem threadWakeup_state (t : Tid) :
    ((threadWakeup s cpu tid).td t).state = if t = tid then .run else (s.td t).state := by
  cases state : (s.td tid).state <;> simp [threadWakeup, state, setState_state]

theorem threadWillStop_state (t : Tid) :
    ((threadWillStop s cpu tid).td t).state = if t = tid then .willStop else (s.td t).state := by
  cases state : (s.td tid).state <;> simp [threadWillStop, state, setState_state]

theorem threadExit_state (t : Tid) :
    ((threadExit s cpu tid).td t).state = if t = tid then .exit else (s.td t).state := by
  cases state : (s.td tid).state <;> simp [threadExit, state, setState_state]

theorem schedule_keeps_awake {t : Tid} (awake : (s.td t).state = .run ∨ (s.td t).state = .exit) :
    ((schedule s cpu tid).td t).state = (s.td t).state := by
  cases search : s.tdRunnable.find? (suits s cpu) with
  | none => rw [schedule_none search, freeOldStack_td]
  | some d =>
    rw [schedule_state search]
    by_cases stops : t = tid ∧ (s.td tid).state = .willStop
    · obtain ⟨rfl, stopping⟩ := stops
      simp [stopping] at awake
    · rw [if_neg stops]

theorem awake_step (step : Step s event next) (stays : ¬CallsWillStop s tid event)
    (awake : (s.td tid).state = .run ∨ (s.td tid).state = .exit) :
    (next.td tid).state = .run ∨ (next.td tid).state = .exit := by
  cases step with
  | initPcpu _ _ =>
    rcases threadInitPcpu_state (s := s) tid with new | kept
    · exact .inl new
    · rwa [kept]
  | schedule _ _ => rwa [schedule_keeps_awake awake]
  | exitSchedule _ _ => rwa [schedule_keeps_awake awake]
  | new stack _ _ =>
    rcases threadNew0_state (s := s) stack tid with new | kept
    · exact .inl new
    · rwa [kept]
  | wakeup target _ _ _ =>
    rw [threadWakeup_state]
    split
    · exact .inl rfl
    · exact awake
  | wakeupAdd _ => exact awake
  | @willStop cpu caller on _ =>
    rw [threadWillStop_state, if_neg]
    · exact awake
    · rintro rfl
      exact stays on
  | exit _ _ =>
    rw [threadExit_state]
    split
    · exact .inr rfl
    · exact awake

theorem woken_awake (reachable : Reachable s) (step : Step s event next)
    (completes : CompletesWakeup s tid event) : (next.td tid).state = .run := by
  cases step with
  | wakeup target _ _ _ =>
    obtain ⟨rfl, _⟩ := completes
    simp [threadWakeup_state]
  | wakeupAdd waking =>
    obtain ⟨place, orderly⟩ := orderly_reachable reachable
    have held : place tid = .waking _ := (orderly.waking _ tid).mp completes
    have allowed := orderly.allows tid
    rw [held] at allowed
    exact allowed
  | _ => exact completes.elim

/-- Every entry is in exactly one situation; and after a wake-up of a thread has completed, it
is not stopped in any run in which it does not call `thread_will_stop`. -/
theorem scheduler_lists (reachable : Reachable s) (tid : Tid) :
    (∃! situation, InSituation s tid situation) ∧
      ∀ event woken sections later, Step s event woken → CompletesWakeup s tid event →
        Transitions.Run (fun before event after =>
          Step before event after ∧ ¬CallsWillStop before tid event) woken sections later →
        (later.td tid).state ≠ .stop := by
  constructor
  · obtain ⟨place, orderly⟩ := orderly_reachable reachable
    exact orderly.situation tid
  · intro event woken sections later step completes run
    have awake : (later.td tid).state = .run ∨ (later.td tid).state = .exit := by
      refine run.keeps (fun s => (s.td tid).state = .run ∨ (s.td tid).state = .exit) ?_
        (.inl (woken_awake reachable step completes))
      intro before event after step awake
      exact awake_step step.1 step.2 awake
    rcases awake with running | exited
    · simp [running]
    · simp [exited]

theorem reachable_booted : Reachable (threadInitPcpu threadInitGlobal 0) :=
  ⟨[.initPcpu 0], .cons (.initPcpu rfl rfl) (.nil _)⟩

theorem scheduler_lists_booted :
    (∃! situation, InSituation (threadInitPcpu threadInitGlobal 0) 0 situation) ∧
      ∀ event woken sections later, Step (threadInitPcpu threadInitGlobal 0) event woken →
        CompletesWakeup (threadInitPcpu threadInitGlobal 0) 0 event →
        Transitions.Run (fun before event after =>
          Step before event after ∧ ¬CallsWillStop before 0 event) woken sections later →
        (later.td 0).state ≠ .stop :=
  scheduler_lists reachable_booted 0

end DisasVisor.Thread
