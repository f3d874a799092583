import DisasVisor.Lib.Searches
import DisasVisor.Thread.BootThreads

/-!
The order of `td_runnable`: no thread waits in it forever while a CPU that may run it goes on calling `schedule`.
-/

namespace DisasVisor.Thread

open Searches List Transitions

variable {s next after : Scheduler} {place : Tid → Place} {cpu c : Nat} {tid d : Tid} {event : Section}

structure Waits (s : Scheduler) (cpu : Nat) (d : Tid) : Prop where
  listed : d ∈ s.tdRunnable
  suits : suits s cpu d = true

section

variable (waits : Waits s cpu d)
include waits

theorem Waits.append (same : (next.td d).cpunum = (s.td d).cpunum)
    (list : ∃ more, next.tdRunnable = s.tdRunnable ++ more) :
    Waits next cpu d ∧ next.tdRunnable.idxOf d = s.tdRunnable.idxOf d := by
  obtain ⟨more, list⟩ := list
  rw [list, idxOf_append_of_mem waits.listed]
  refine ⟨⟨list ▸ mem_append_left _ waits.listed, ?_⟩, rfl⟩
  rw [Thread.suits, same]
  exact waits.suits

theorem Waits.setState (tid : Tid) (state : ThreadState) (list : next.tdRunnable = s.tdRunnable)
    (threads : next.td = (s.setState tid state).td) :
    Waits next cpu d ∧ next.tdRunnable.idxOf d = s.tdRunnable.idxOf d :=
  waits.append (by rw [threads, setState_owner.2]) ⟨[], by rw [list, append_nil]⟩

theorem waits_schedule (orderly : Orderly s place) (on : s.current c = some tid) :
    (schedule s c tid).current c = some d ∨ Waits (schedule s c tid) cpu d ∧
      (schedule s c tid).tdRunnable.idxOf d + (if c = cpu then 1 else 0) ≤ s.tdRunnable.idxOf d := by
  cases search : s.tdRunnable.find? (suits s c) with
  | none =>
    have other : c ≠ cpu := by
      rintro rfl
      exact find?_eq_none.mp search d waits.listed waits.suits
    rw [schedule_none search, if_neg other]
    exact .inr ⟨⟨waits.listed, waits.suits⟩, Nat.le_refl _⟩
  | some x =>
    by_cases found : x = d
    · subst found
      left
      rw [(schedule_pcpu search (orderly.awake on) c).1, if_pos rfl]
    have left' : Waits { s with tdRunnable := s.tdRunnable.erase x } cpu d :=
      ⟨(mem_erase_of_ne (Ne.symm found)).mpr waits.listed, waits.suits⟩
    have moved : (s.tdRunnable.erase x).idxOf d + (if c = cpu then 1 else 0) ≤ s.tdRunnable.idxOf d := by
      split
      · rename_i same
        exact (idxOf_erase_find search found (same ▸ waits.suits)).le
      · exact idxOf_erase_le found
    have back := @Waits.append _ (schedule s c tid) _ _ left'
      (by rw [schedule_some search, (putBack_owner d).2, saveAndLoad_owner.2]; rfl) (by
        rw [schedule_some search, putBack]
        split
        · exact ⟨[], (append_nil _).symm⟩
        · exact ⟨[tid], rfl⟩
        · exact ⟨[], (append_nil _).symm⟩
        · exact ⟨[], (append_nil _).symm⟩)
    rw [back.2]
    exact .inr ⟨back.1, moved⟩

theorem waits_step (orderly : Orderly s place) (step : Step s event next) :
    (∃ c, event = .schedule c ∧ next.current c = some d) ∨ Waits next cpu d ∧
      next.tdRunnable.idxOf d + (if event = .schedule cpu then 1 else 0) ≤ s.tdRunnable.idxOf d := by
  have stays : event ≠ .schedule cpu → Waits next cpu d ∧ next.tdRunnable.idxOf d = s.tdRunnable.idxOf d →
      Waits next cpu d ∧ next.tdRunnable.idxOf d + (if event = .schedule cpu then 1 else 0) ≤ s.tdRunnable.idxOf d := by
    rintro other ⟨waits, same⟩
    exact ⟨waits, by rw [if_neg other, same]; exact Nat.le_refl _⟩
  have fresh : ∀ {t rest}, s.tdFree = t :: rest → d ≠ t := by
    rintro t rest list rfl
    have free := orderly.mem_free.mp (list ▸ mem_cons_self)
    rw [orderly.mem_runnable.mp waits.listed] at free
    cases free
  cases step with
  | schedule on _ =>
    refine (waits_schedule waits orderly on).imp (fun taken => ⟨_, rfl, taken⟩) ?_
    simp only [Section.schedule.injEq, imp_self]
  | exitSchedule on _ =>
    refine (waits_schedule waits orderly on).imp (fun taken => ⟨_, rfl, taken⟩) ?_
    simp only [Section.schedule.injEq, imp_self]
  | initPcpu _ _ =>
    refine .inr (stays (by simp) ?_)
    cases list : s.tdFree with
    | nil => exact waits.append (by simp [threadInitPcpu, list]) ⟨[], by simp [threadInitPcpu, list]⟩
    | cons t rest => exact waits.append (by simp [threadInitPcpu, list, fresh list]) ⟨[], by simp [threadInitPcpu, list]⟩
  | new stack _ _ =>
    refine .inr (stays (by simp) ?_)
    cases list : s.tdFree with
    | nil => exact waits.append (by simp [threadNew0, list]) ⟨[], by simp [threadNew0, list]⟩
    | cons t rest => exact waits.append (by simp [threadNew0, list, fresh list]) ⟨[t], by simp [threadNew0, list]⟩
  | wakeup target _ _ _ =>
    refine .inr (stays (by simp) (waits.setState target .run ?_ ?_)) <;>
      cases state : (s.td target).state <;> simp [threadWakeup, state]
  | wakeupAdd _ => exact .inr (stays (by simp) (waits.append rfl ⟨_, rfl⟩))
  | @willStop _ caller _ _ =>
    refine .inr (stays (by simp) (waits.setState caller .willStop ?_ ?_)) <;>
      cases state : (s.td caller).state <;> simp [threadWillStop, state]
  | @exit _ caller _ _ =>
    refine .inr (stays (by simp) (waits.setState caller .exit ?_ ?_)) <;>
      cases state : (s.td caller).state <;> simp [threadExit, state]

end

/-- A runnable thread is taken by a CPU, at the latest in the `schedule` of a CPU it may run on that follows as
many as there are threads before it. -/
theorem waiting_thread_runs (reachable : Reachable s) (waits : Waits s cpu d) {sections : List Section}
    (run : Run Step s sections after) (enough : s.tdRunnable.idxOf d < sections.count (.schedule cpu)) :
    ∃ front c back taken, sections = front ++ .schedule c :: back ∧ Run Step s (front ++ [.schedule c]) taken ∧
      taken.current c = some d ∧ front.count (.schedule cpu) ≤ s.tdRunnable.idxOf d := by
  induction run with
  | nil => simp at enough
  | @cons s event next sections after step run ih =>
    obtain ⟨place, orderly⟩ := orderly_reachable reachable
    rcases waits_step waits orderly step with ⟨c, rfl, taken⟩ | ⟨waits', fewer⟩
    · exact ⟨[], c, sections, next, rfl, .cons step (.nil _), taken, Nat.zero_le _⟩
    · simp only [count_cons, beq_iff_eq] at enough
      obtain ⟨past, ran⟩ := reachable
      obtain ⟨front, c, back, taken, rfl, early, on, few⟩ := ih
        ⟨past ++ [event], ran.append (.cons step (.nil _))⟩ waits' (by omega)
      refine ⟨event :: front, c, back, taken, rfl, .cons step early, on, ?_⟩
      simp only [count_cons, beq_iff_eq]
      omega

/-- The first thread of the first CPU runs after one call. -/
theorem waiting_thread_runs_first : ∃ front c back taken, [Section.schedule 0] = front ++ .schedule c :: back ∧
    Run Step (threadNew0 (threadInitPcpu threadInitGlobal 0) 0 4096) (front ++ [.schedule c]) taken ∧
      taken.current c = some 1 := by
  have reachable : Reachable (threadNew0 (threadInitPcpu threadInitGlobal 0) 0 4096) :=
    ⟨[.initPcpu 0, .new 0 4096], .cons (.initPcpu rfl rfl) (.cons (.new 4096 rfl rfl) (.nil _))⟩
  have run : Run Step (threadNew0 (threadInitPcpu threadInitGlobal 0) 0 4096) [.schedule 0] _ :=
    .cons (.schedule rfl rfl) (.nil _)
  have waits : Waits (threadNew0 (threadInitPcpu threadInitGlobal 0) 0 4096) 0 1 := ⟨by decide, by decide⟩
  obtain ⟨front, c, back, taken, split, early, on, -⟩ := waiting_thread_runs reachable waits run (by decide)
  exact ⟨front, c, back, taken, split, early, on⟩

end DisasVisor.Thread
