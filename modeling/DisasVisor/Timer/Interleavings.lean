import DisasVisor.Timer.Timers

/-!
Runs of the timers: calls from any threads, sections of the timer thread and its callbacks in any
order. A timer that `timer_thread` has already taken from the list is called even if it is set or
freed before the callback starts.
-/

namespace DisasVisor.Timer

open Searches Transitions
open Option (some.injEq)

variable {κ δ : Type}

namespace Timers

variable {s : Timers κ δ} {clock time interval : UInt64} {p q : Handle}

theorem mem_unlink (member : q ∈ (s.unlink p).list1TimerOn) : q ∈ s.list1TimerOn := by
  simp only [Timers.unlink] at member
  split at member
  · exact List.mem_of_mem_erase member
  · exact member

theorem timerSet_td : (s.timerSet time p interval).td =
    Function.update s.td p { s.td p with enable := true, settime := time, interval } := by
  simp [Timers.timerSet, unlink_td]

theorem mem_timerSet (member : q ∈ (s.timerSet time p interval).list1TimerOn) : q = p ∨ q ∈ s.list1TimerOn := by
  rcases mem_insertBefore.mp member with same | before
  · exact .inl same
  · exact .inr (mem_unlink before)

theorem timerNew_on (callback : κ) (data : δ) : (s.timerNew callback data).2.list1TimerOn = s.list1TimerOn := by
  simp only [Timers.timerNew]
  split <;> rfl

theorem Sound.timerNew_td (sound : s.Sound clock) (callback : κ) (data : δ)
    (on : p ∈ s.list1TimerOn) : (s.timerNew callback data).2.td p = s.td p := by
  simp only [Timers.timerNew]
  split
  · rfl
  · rename_i first rest free
    have taken := (sound.on_iff.mp on).1
    refine Function.update_of_ne ?_ _ _
    rintro rfl
    exact taken (by simp [free])

theorem Sound.timerFree_td (sound : s.Sound clock) (taken : p ∉ s.list1TimerFree)
    (on : q ∈ (s.timerFree p).list1TimerOn) : q ∈ s.list1TimerOn ∧ q ≠ p ∧ (s.timerFree p).td q = s.td q := by
  have differs : q ≠ p := by
    rintro rfl
    exact (sound.unlink taken).outside.1 on
  refine ⟨mem_unlink on, differs, ?_⟩
  simp [Timers.timerFree, unlink_td, Function.update_of_ne differs]

end Timers

namespace System

variable {s before after : System κ δ} {event : Event κ δ} {p : Handle} {c : Call κ δ}

def pending (s : System κ δ) : Option (Call κ δ) :=
  match s.thread with
  | .calling call => some call
  | _ => none

def called (s : System κ δ) : List Nat :=
  (s.started.map fun entry => entry.1.setting) ++ s.pending.toList.map Call.setting

def Elapsed (s : System κ δ) (c : Call κ δ) (time : UInt64) : Prop :=
  ∃ setting, s.settings[c.setting]? = some setting ∧ setting.handle = c.handle ∧
    setting.settime.toNat + setting.interval.toNat ≤ time.toNat

structure Sound (s : System κ δ) : Prop where
  timers : s.timers.Sound s.clock
  recorded : ∀ p ∈ s.timers.list1TimerOn, s.settings[s.latest p]? =
    some ⟨p, (s.timers.td p).settime, (s.timers.td p).interval⟩
  pending : ∀ c, s.pending = some c → s.Elapsed c s.clock
  started : ∀ entry ∈ s.started, s.Elapsed entry.1 entry.2
  distinct : s.called.Nodup
  fresh : ∀ p ∈ s.timers.list1TimerOn, s.latest p ∉ s.called

theorem Elapsed.bound {time : UInt64} (elapsed : s.Elapsed c time) : c.setting < s.settings.length := by
  obtain ⟨setting, found, -, -⟩ := elapsed
  exact (List.getElem?_eq_some_iff.mp found).1

theorem Elapsed.wait {time : UInt64} (elapsed : s.Elapsed c s.clock) (past : s.clock ≤ time) : s.Elapsed c time := by
  obtain ⟨setting, found, handle, passed⟩ := elapsed
  rw [UInt64.le_iff_toNat_le] at past
  exact ⟨setting, found, handle, passed.trans past⟩

theorem Elapsed.grow {time : UInt64} (elapsed : before.Elapsed c time) (rest : List Setting)
    (grown : after.settings = before.settings ++ rest) : after.Elapsed c time := by
  have bound := elapsed.bound
  obtain ⟨setting, found, handle, passed⟩ := elapsed
  refine ⟨setting, ?_, handle, passed⟩
  rw [grown, List.getElem?_append_left bound]
  exact found

section

variable (sound : s.Sound)
include sound

theorem Sound.called_bound {number : Nat} (called : number ∈ s.called) : number < s.settings.length := by
  simp only [System.called, List.mem_append, List.mem_map, Option.mem_toList] at called
  rcases called with ⟨entry, member, rfl⟩ | ⟨call, member, rfl⟩
  · exact (sound.started entry member).bound
  · exact (sound.pending call member).bound

theorem Sound.less {timers : Timers κ δ} {lock : Bool} (kept : timers.Sound s.clock)
    (less : ∀ q ∈ timers.list1TimerOn, q ∈ s.timers.list1TimerOn ∧ timers.td q = s.timers.td q) :
    Sound { s with timers, timerLock := lock } := by
  refine ⟨kept, ?_, sound.pending, sound.started, sound.distinct, ?_⟩
  · intro q member
    have old := less q member
    simp only [old.2]
    exact sound.recorded q old.1
  · exact fun q member => sound.fresh q (less q member).1

theorem Sound.timerNew (callback : κ) (data : δ) : (s.timerNew callback data).Sound := by
  have kept := sound.timers.timerNew callback data
  have on := Timers.timerNew_on (s := s.timers) callback data
  have same := fun q (member : q ∈ (s.timers.timerNew callback data).2.list1TimerOn) =>
    And.intro (on ▸ member) (sound.timers.timerNew_td callback data (on ▸ member))
  rw [System.timerNew]
  rcases result : s.timers.timerNew callback data with ⟨handle, timers⟩
  rw [result] at kept same
  cases handle with
  | none => exact sound.less kept same
  | some p => exact sound.less kept same

theorem Sound.timerFree (taken : p ∉ s.timers.list1TimerFree) :
    Sound { s with timers := s.timers.timerFree p } := by
  refine sound.less (sound.timers.timerFree taken) ?_
  intro q member
  have old := sound.timers.timerFree_td taken member
  exact ⟨old.1, old.2.2⟩

theorem Sound.timerSet (taken : p ∉ s.timers.list1TimerFree)
    (interval : UInt64) : (s.timerSet p interval).Sound := by
  refine ⟨sound.timers.timerSet taken interval, ?_, ?_, ?_, sound.distinct, ?_⟩
  · intro q member
    by_cases same : q = p
    · subst same
      simp [System.timerSet, Timers.timerSet_td]
    · have old := (Timers.mem_timerSet member).resolve_left same
      have recorded := sound.recorded q old
      have bound := (List.getElem?_eq_some_iff.mp recorded).1
      simp only [System.timerSet, Timers.timerSet_td, Function.update_of_ne same]
      rw [List.getElem?_append_left bound]
      exact recorded
  · exact fun c about => (sound.pending c about).grow _ rfl
  · exact fun entry member => (sound.started entry member).grow _ rfl
  · intro q member called
    by_cases same : q = p
    · subst same
      have bound := sound.called_bound called
      simp [System.timerSet] at bound
    · have old := (Timers.mem_timerSet member).resolve_left same
      have latest : (s.timerSet p interval).latest q = s.latest q := Function.update_of_ne same _ _
      rw [latest] at called
      exact sound.fresh q old called

theorem Sound.timerThread (loop : s.thread = .loop) : s.timerThread.Sound := by
  rcases sound.timers.timerThread_cases with waits | ⟨p, rest, on, expired, on', -, same, call, kept⟩
  · rw [System.timerThread, waits]
    exact sound
  · rw [System.timerThread]
    rcases result : s.timers.timerThread s.clock with ⟨timers, taken⟩
    rw [result] at on' same call kept
    subst call
    subst on'
    have first : p ∈ s.timers.list1TimerOn := by simp [on]
    have later : ∀ q ∈ timers.list1TimerOn, q ∈ s.timers.list1TimerOn ∧ q ≠ p := by
      intro q member
      refine ⟨by simp [on, member], ?_⟩
      rintro rfl
      have nodup := sound.timers.nodup
      rw [on] at nodup
      simp [member] at nodup
    have record := sound.recorded p first
    have calledAs : System.called { s with
        timers, thread := .calling ⟨p, (s.timers.td p).callback, (s.timers.td p).data, s.latest p⟩ } =
        s.called ++ [s.latest p] := by
      simp [System.called, System.pending, loop]
    refine ⟨kept, ?_, ?_, sound.started, ?_, ?_⟩
    · intro q member
      have old := later q member
      have unchanged : timers.td q = s.timers.td q := same q old.2
      simp only [unchanged]
      exact sound.recorded q old.1
    · intro c about
      simp only [System.pending] at about
      cases about
      exact ⟨_, record, rfl, expired⟩
    · rw [calledAs, List.nodup_append']
      refine ⟨sound.distinct, List.nodup_singleton _, ?_⟩
      rw [List.disjoint_singleton]
      exact sound.fresh p first
    · intro q member called
      have old := later q member
      rw [calledAs, List.mem_append, List.mem_singleton] at called
      rcases called with called | clash
      · exact sound.fresh q old.1 called
      · have recordQ := sound.recorded q old.1
        simp only at clash
        rw [clash, record, some.injEq] at recordQ
        exact old.2 (congrArg Setting.handle recordQ).symm

theorem Sound.callback (about : s.thread = .calling c) :
    Sound { s with thread := .inside, started := s.started ++ [(c, s.clock)] } := by
  have waiting : s.pending = some c := by simp [System.pending, about]
  have calledAs : System.called { s with
      thread := .inside, started := s.started ++ [(c, s.clock)] } = s.called := by
    simp [System.called, System.pending, about]
  refine ⟨sound.timers, sound.recorded, ?_, ?_, ?_, ?_⟩
  · simp [System.pending]
  · intro entry member
    rcases List.mem_append.mp member with before | last
    · exact sound.started entry before
    · rw [List.mem_singleton.mp last]
      exact sound.pending c waiting
  · rw [calledAs]
    exact sound.distinct
  · rw [calledAs]
    exact sound.fresh

end

inductive Acts (s : System κ δ) : Event κ δ → System κ δ → Prop
  | timerNew (callback : κ) (data : δ) : Acts s (.timerNew callback data) (s.timerNew callback data)
  | timerSet (p : Handle) (interval : UInt64) : p ∉ s.timers.list1TimerFree →
      Acts s (.timerSet p interval) (s.timerSet p interval)
  | timerFree (p : Handle) : p ∉ s.timers.list1TimerFree →
      Acts s (.timerFree p) { s with timers := s.timers.timerFree p }
  | timerThread : s.thread = .loop → Acts s .timerThread s.timerThread
  | callback (c : Call κ δ) : s.thread = .calling c →
      Acts s .callback { s with thread := .inside, started := s.started ++ [(c, s.clock)] }
  | returns : s.thread = .inside → Acts s .returns { s with thread := .loop }
  | tick (time : UInt64) : s.clock ≤ time → Acts s (.tick time) { s with clock := time }

theorem Step.acts (step : before.Step event after) : before.Acts event after := by
  cases event with
  | timerNew callback data =>
    simp only [Step, System.step, Option.ite_none_left_eq_some, some.injEq] at step
    rw [← step.2]
    exact Acts.timerNew callback data
  | timerSet p interval =>
    simp only [Step, System.step, Option.ite_none_left_eq_some, some.injEq, not_or] at step
    rw [← step.2]
    exact Acts.timerSet p interval step.1.2
  | timerFree p =>
    simp only [Step, System.step, Option.ite_none_left_eq_some, some.injEq, not_or] at step
    rw [← step.2]
    exact Acts.timerFree p step.1.2
  | timerThread =>
    cases thread : before.thread with
    | loop =>
      simp only [Step, System.step, thread, Option.ite_none_left_eq_some, some.injEq] at step
      rw [← step.2]
      exact Acts.timerThread thread
    | calling c => simp [Step, System.step, thread] at step
    | inside => simp [Step, System.step, thread] at step
  | callback =>
    cases thread : before.thread with
    | calling c =>
      simp only [Step, System.step, thread, some.injEq] at step
      rw [← step]
      exact Acts.callback c thread
    | loop => simp [Step, System.step, thread] at step
    | inside => simp [Step, System.step, thread] at step
  | returns =>
    cases thread : before.thread with
    | inside =>
      simp only [Step, System.step, thread, some.injEq] at step
      rw [← step]
      exact Acts.returns thread
    | loop => simp [Step, System.step, thread] at step
    | calling c => simp [Step, System.step, thread] at step
  | tick time =>
    simp only [Step, System.step, Option.ite_none_right_eq_some, some.injEq] at step
    rw [← step.2]
    exact Acts.tick time step.1

theorem Sound.step (step : before.Step event after) (sound : before.Sound) : after.Sound := by
  cases step.acts with
  | timerNew callback data => exact sound.timerNew callback data
  | timerSet p interval taken => exact sound.timerSet taken interval
  | timerFree p taken => exact sound.timerFree taken
  | timerThread loop => exact sound.timerThread loop
  | callback c about => exact sound.callback about
  | returns inside =>
    have calledAs : System.called { before with thread := .loop } = before.called := by
      simp [System.called, System.pending, inside]
    refine ⟨sound.timers, sound.recorded, by simp [System.pending], sound.started, ?_, ?_⟩
    · rw [calledAs]
      exact sound.distinct
    · rw [calledAs]
      exact sound.fresh
  | tick time later =>
    exact ⟨sound.timers.tick later, sound.recorded,
      fun c about => (sound.pending c about).wait later, sound.started, sound.distinct,
      sound.fresh⟩

theorem sound_initial (memory : Handle → TimerData κ δ) (clock : UInt64) : (initial memory clock).Sound := by
  refine ⟨Timers.sound_timerInitGlobal memory, ?_, ?_, ?_, ?_, ?_⟩
  all_goals simp [initial, Timers.timerInitGlobal, System.pending, System.called]

theorem Sound.run {events : List (Event κ δ)} (run : Run Step before events after)
    (sound : before.Sound) : after.Sound :=
  run.keeps Sound (fun _ _ _ step sound => Sound.step step sound) sound

end System

/-!
Which callbacks can still start after a state: those of settings made later, the one that
`timer_thread` has taken from the list, and those of the timers that are on.
-/

namespace System

variable {s before after first : System κ δ} {event : Event κ δ} {p : Handle} {c : Call κ δ}

def Fires (s : System κ δ) (c : Call κ δ) : Prop :=
  s.settings.length ≤ c.setting ∨ s.pending = some c ∨ c.handle ∈ s.timers.list1TimerOn ∧ c.setting = s.latest c.handle

structure Since (first s : System κ δ) : Prop where
  longer : first.settings.length ≤ s.settings.length
  waiting : ∀ p ∈ s.timers.list1TimerOn, first.settings.length ≤ s.latest p ∨
    p ∈ first.timers.list1TimerOn ∧ s.latest p = first.latest p
  pending : ∀ c, s.pending = some c → first.Fires c
  started : ∀ entry ∈ s.started, entry ∈ first.started ∨ first.Fires entry.1

theorem Since.refl (s : System κ δ) : s.Since s where
  longer := Nat.le_refl _
  waiting _ on := .inr ⟨on, rfl⟩
  pending _ about := .inr (.inl about)
  started _ member := .inl member

theorem Since.less (since : first.Since s) {timers : Timers κ δ} {lock : Bool}
    (less : ∀ q ∈ timers.list1TimerOn, q ∈ s.timers.list1TimerOn) :
    first.Since { s with timers, timerLock := lock } :=
  ⟨since.longer, fun q member => since.waiting q (less q member), since.pending, since.started⟩

theorem Since.timerSet (since : first.Since s) (interval : UInt64) : first.Since (s.timerSet p interval) := by
  refine ⟨?_, ?_, since.pending, since.started⟩
  · have longer := since.longer
    simp only [System.timerSet, List.length_append]
    omega
  · intro q member
    by_cases same : q = p
    · subst same
      refine .inl ?_
      simpa [System.timerSet] using since.longer
    · have old := (Timers.mem_timerSet member).resolve_left same
      have latest : (s.timerSet p interval).latest q = s.latest q := Function.update_of_ne same _ _
      rw [latest]
      exact since.waiting q old

theorem Since.timerThread (since : first.Since s) (sound : s.Sound) : first.Since s.timerThread := by
  rcases sound.timers.timerThread_cases with waits | ⟨p, rest, on, -, on', -, -, call, -⟩
  · rw [System.timerThread, waits]
    exact since
  · rw [System.timerThread]
    rcases result : s.timers.timerThread s.clock with ⟨timers, taken⟩
    rw [result] at on' call
    subst call
    subst on'
    refine ⟨since.longer, fun q member => since.waiting q (by simp [on, member]), ?_, since.started⟩
    intro c about
    simp only [System.pending] at about
    cases about
    rcases since.waiting p (by simp [on]) with new | ⟨old, latest⟩
    · exact .inl new
    · exact .inr (.inr ⟨old, latest⟩)

theorem Since.step (step : before.Step event after) (sound : before.Sound)
    (since : first.Since before) : first.Since after := by
  cases step.acts with
  | timerNew callback data =>
    have on := Timers.timerNew_on (s := before.timers) callback data
    rw [System.timerNew]
    rcases result : before.timers.timerNew callback data with ⟨handle, timers⟩
    rw [result] at on
    cases handle with
    | none => exact since.less fun q member => on ▸ member
    | some p => exact since.less fun q member => on ▸ member
  | timerSet p interval => exact since.timerSet interval
  | timerFree p => exact since.less fun q member => Timers.mem_unlink member
  | timerThread => exact since.timerThread sound
  | callback c about =>
    refine ⟨since.longer, since.waiting, by simp [System.pending], ?_⟩
    intro entry member
    rcases List.mem_append.mp member with old | last
    · exact since.started entry old
    · rw [List.mem_singleton.mp last]
      exact .inr (since.pending c (by simp [System.pending, about]))
  | returns => exact ⟨since.longer, since.waiting, by simp [System.pending], since.started⟩
  | tick => exact ⟨since.longer, since.waiting, since.pending, since.started⟩

variable {events : List (Event κ δ)}

theorem Sound.since (sound : before.Sound) (run : Run Step before events after) : before.Since after := by
  refine (run.keeps (fun s => s.Sound ∧ before.Since s) ?_ ⟨sound, Since.refl before⟩).2
  intro middle event next step ⟨kept, since⟩
  exact ⟨Sound.step step kept, since.step step kept⟩

theorem Sound.after_timerSet {later : System κ δ} (sound : s.Sound) {interval : UInt64}
    (set : s.step (.timerSet p interval) = some after) (run : Run Step after events later) {entry : Call κ δ × UInt64}
    (starts : entry ∈ later.started) (new : entry ∉ s.started) (own : entry.1.handle = p) :
    s.settings.length ≤ entry.1.setting ∨ s.pending = some entry.1 := by
  have since := (Sound.step set sound).since run
  simp only [System.step, Option.ite_none_left_eq_some, Option.some.injEq] at set
  rw [← set.2] at since
  rcases since.started entry starts with old | later | waits | ⟨-, latest⟩
  · exact absurd old new
  · refine .inl (Nat.le_of_succ_le ?_)
    simpa [System.timerSet] using later
  · exact .inr waits
  · refine .inl (Nat.le_of_eq ?_)
    rw [latest, own]
    simp [System.timerSet]

theorem Sound.after_timerFree {later : System κ δ} (sound : s.Sound) (free : s.step (.timerFree p) = some after)
    (run : Run Step after events later) {entry : Call κ δ × UInt64} (starts : entry ∈ later.started)
    (new : entry ∉ s.started) (own : entry.1.handle = p) :
    s.settings.length ≤ entry.1.setting ∨ s.pending = some entry.1 := by
  have since := (Sound.step free sound).since run
  simp only [System.step, Option.ite_none_left_eq_some, Option.some.injEq, not_or] at free
  rw [← free.2] at since
  rcases since.started entry starts with old | later | waits | ⟨on, -⟩
  · exact absurd old new
  · exact .inl later
  · exact .inr waits
  · rw [own] at on
    exact absurd rfl (sound.timers.timerFree_td free.1.2 on).2.1

def Exhausts (s : System κ δ) : Event κ δ → Prop
  | .timerNew _ _ => s.timers.list1TimerFree = []
  | _ => False

theorem Step.unlocks (step : before.Step event after) (free : before.timerLock = false)
    (room : ¬before.Exhausts event) : after.timerLock = false := by
  cases step.acts with
  | timerNew callback data =>
    rw [System.timerNew, Timers.timerNew]
    cases list : before.timers.list1TimerFree with
    | nil => exact absurd list room
    | cons first rest => exact free
  | timerThread =>
    rw [System.timerThread]
    split <;> exact free
  | timerSet => exact free
  | timerFree => exact free
  | callback => exact free
  | returns => exact free
  | tick => exact free

def Listed (s : System κ δ) : Prop :=
  ∀ p, s.timers.list1TimerOn.count p + s.timers.list1TimerOff.count p +
      s.timers.list1TimerFree.count p = 1 ∧
    (p ∈ s.timers.list1TimerOn ↔ p ∉ s.timers.list1TimerFree ∧ (s.timers.td p).enable = true)

def Ordered (s : System κ δ) : Prop :=
  s.timers.list1TimerOn.Pairwise fun p q => ∀ time, s.clock ≤ time →
    s.timers.due time q = true → s.timers.due time p = true

def Timely (s : System κ δ) : Prop :=
  (s.started.map fun entry => entry.1.setting).Nodup ∧
    ∀ entry ∈ s.started, ∃ setting, s.settings[entry.1.setting]? = some setting ∧
      setting.handle = entry.1.handle ∧
      setting.settime.toNat + setting.interval.toNat ≤ entry.2.toNat

theorem Sound.listed (sound : s.Sound) : s.Listed := by
  intro p
  have counted := sound.timers.lists.count_eq p
  rw [List.count_append, List.count_append] at counted
  rw [counted]
  exact ⟨List.count_eq_one_of_mem (List.nodup_finRange maxTimer) (List.mem_finRange p), sound.timers.on_iff⟩

theorem Sound.ordered (sound : s.Sound) : s.Ordered := by
  refine sound.timers.sorted.imp_of_mem ?_
  intro p q first second order time later
  have past := fun r member => UInt64.le_trans (sound.timers.past r member) later
  rw [Timers.due_iff (sound.timers.enabled p first) (past p first),
    Timers.due_iff (sound.timers.enabled q second) (past q second)]
  exact order.trans

theorem Sound.timely (sound : s.Sound) : s.Timely := ⟨(List.nodup_append.mp sound.distinct).1, sound.started⟩

end System

/-- The contract of the timers in every interleaving. A callback that `timer_thread` has taken from
the list starts, whatever is done with its timer before. -/
theorem timers_kept {memory : Handle → TimerData κ δ} {clock : UInt64} {events : List (Event κ δ)}
    {s : System κ δ} (run : Run System.Step (System.initial memory clock) events s) :
    s.Listed ∧ s.Ordered ∧ s.Timely ∧
      (∀ p after later events,
        ((∃ interval, s.step (.timerSet p interval) = some after) ∨
          s.step (.timerFree p) = some after) →
        Run System.Step after events later →
        ∀ entry ∈ later.started, entry ∉ s.started → entry.1.handle = p →
          s.settings.length ≤ entry.1.setting ∨ s.pending = some entry.1) ∧
      (s.timerLock = false → ∀ event after, s.step event = some after → ¬s.Exhausts event →
        after.timerLock = false) := by
  have sound := (System.sound_initial memory clock).run run
  refine ⟨sound.listed, sound.ordered, sound.timely, ?_, ?_⟩
  · rintro p after later events' (⟨interval, set⟩ | free) next entry starts new own
    · exact sound.after_timerSet set next starts new own
    · exact sound.after_timerFree free next starts new own
  · intro unlocked event after step room
    exact System.Step.unlocks step unlocked room

namespace System

theorem run_exec {s after : System κ δ} (events : List (Event κ δ))
    (exec : events.foldlM step s = some after) : Run Step s events after :=
  run_of_foldlM (fun _ _ _ taken => taken) exec

end System

def sampleTimer : Handle := ⟨127, by decide⟩

def sampleEvents : List (Event Unit Unit) := [.timerNew () (), .timerSet sampleTimer 5, .tick 5, .timerThread]

def sampleMemory (_ : Handle) : TimerData Unit Unit := ⟨true, 0, 0, (), ()⟩

def sampleStart : System Unit Unit := System.initial sampleMemory 0

theorem timers_kept_sample : ∃ s, Run System.Step sampleStart sampleEvents s ∧ s.Listed ∧ s.Ordered ∧ s.Timely := by
  obtain ⟨s, result⟩ := Option.isSome_iff_exists.mp
    (show (sampleEvents.foldlM System.step sampleStart).isSome = true from rfl)
  have run := System.run_exec sampleEvents result
  have kept := timers_kept run
  exact ⟨s, run, kept.1, kept.2.1, kept.2.2.1⟩

/-- The callback starts after `timer_free`, or for a setting that was replaced; and the memory of a
timer that was never allocated may have `enable` set. -/
theorem timers_break :
    (∃ before after later, Run System.Step sampleStart sampleEvents before ∧
      before.step (.timerFree sampleTimer) = some after ∧ Run System.Step after [.callback] later ∧
      ∃ entry ∈ later.started, entry ∉ after.started ∧ entry.1.handle = sampleTimer) ∧
    (∃ before after later, Run System.Step sampleStart sampleEvents before ∧
      before.step (.timerSet sampleTimer 9) = some after ∧ Run System.Step after [.callback] later ∧
      ∃ entry ∈ later.started, entry.1.handle = sampleTimer ∧ entry.1.setting ≠ after.latest sampleTimer) ∧
    ¬∀ p, (p ∈ sampleStart.timers.list1TimerOn ↔ (sampleStart.timers.td p).enable = true) := by
  refine ⟨?_, ?_, ?_⟩
  · refine ⟨_, _, _, System.run_exec sampleEvents rfl, rfl, Run.cons rfl (Run.nil _), ?_⟩
    exact ⟨(⟨sampleTimer, (), (), 0⟩, 5), by decide, by decide, rfl⟩
  · refine ⟨_, _, _, System.run_exec sampleEvents rfl, rfl, Run.cons rfl (Run.nil _), ?_⟩
    exact ⟨(⟨sampleTimer, (), (), 0⟩, 5), by decide, rfl, by decide⟩
  · intro kept
    have on := (kept sampleTimer).mpr rfl
    simp [sampleStart, System.initial, Timers.timerInitGlobal] at on

end DisasVisor.Timer
