import DisasVisor.Thread.Scheduler

/-!
The debug shell (`core/vmmcall_dbgsh.c`): its thread hands characters to the guest and waits for
replies, the guest replies from another CPU. Each access of `s` and `r` and each section under a
lock is a step of its own.
-/

namespace DisasVisor.Dbgsh

open Thread (ThreadState)

inductive GuestPc
  | idle
  | entered (b : Int)
  | setR (b : Int)
  | setS
  | wake
  | waking
  | returning
  | panicked
  deriving DecidableEq

inductive ThreadPc
  | outside
  | testR
  | testS
  | stop
  | schedule
  | takeR
  | clearR (tmp : Int)
  | panicked
  deriving DecidableEq

inductive Place
  | cpu
  | runnable
  | off
  deriving DecidableEq

inductive Request
  | ttyin
  | ttyout (c : Int)
  | shellExit

def Request.char : Request → Int
  | .ttyin => 0
  | .ttyout c => if c ≤ 0 ∨ c > 0x100 then 0x100 else c
  | .shellExit => 0x10A

theorem Request.char_ne (request : Request) : request.char ≠ -1 := by
  cases request with
  | ttyin => decide
  | ttyout c =>
    simp only [Request.char]
    split <;> omega
  | shellExit => decide

/-- The last four fields record what happened: the number of sends, the send whose character the
guest has received and not replied to, each reply with that send, each result with its send. -/
structure HandOff where
  s : Int
  r : Int
  stopped : Bool
  i : Bool
  state : ThreadState
  place : Place
  thread : ThreadPc
  guest : GuestPc
  sends : Nat
  received : Option Nat
  delivered : List (Option Nat × Int)
  returned : List (Nat × Int)

inductive Event
  | call (b : Int)
  | guest
  | resume
  | send (request : Request)
  | thread
  | schedule (found : Bool)

def vmmcallDbgshInit : HandOff where
  s := -1
  r := -1
  stopped := false
  i := false
  state := .exit
  place := .off
  thread := .outside
  guest := .idle
  sends := 0
  received := none
  delivered := []
  returned := []

namespace HandOff

variable (d : HandOff)

def enter (b : Int) : HandOff :=
  let d := if d.i then d else { d with i := true, state := .run, place := .runnable }
  { d with guest := if b = -1 then .returning else .setR b }

def threadWakeup : HandOff :=
  let woken := { d with state := .run }
  match d.state with
  | .run => { woken with guest := .returning }
  | .willStop => { woken with guest := .returning }
  | .stop => { woken with guest := .waking }
  | .exit => { woken with guest := .panicked }

def threadWillStop : HandOff :=
  let stopping := { d with stopped := true, state := .willStop }
  match d.state with
  | .run => { stopping with thread := .schedule }
  | .willStop => { stopping with thread := .schedule }
  | .stop => { stopping with thread := .panicked }
  | .exit => { stopping with thread := .panicked }

def schedule (found : Bool) : HandOff :=
  let d := { d with thread := if d.thread = .schedule then .testR else d.thread }
  if found then
    match d.state with
    | .run => { d with place := .runnable }
    | .willStop => { d with state := .stop, place := .off }
    | .stop => { d with thread := .panicked }
    | .exit => { d with place := .off }
  else d

def guestStep : Option HandOff :=
  match d.guest with
  | .idle => none
  | .entered b => some (d.enter b)
  | .setR b =>
    some { d with
      r := b, guest := .setS, received := none, delivered := d.delivered ++ [(d.received, b)] }
  | .setS => some { d with s := -1, guest := .wake }
  | .wake => some (if d.stopped then d.threadWakeup else { d with guest := .returning })
  | .waking => some { d with place := .runnable, guest := .returning }
  | .returning =>
    some { d with
      guest := .idle, received := if d.s = -1 then d.received else some d.sends }
  | .panicked => none

def threadStep : Option HandOff :=
  match d.thread with
  | .outside => none
  | .testR => some { d with thread := if d.r = -1 then .stop else .testS }
  | .testS => some { d with thread := if d.s = -1 then .takeR else .stop }
  | .stop => if d.guest = .waking then none else some d.threadWillStop
  | .schedule => none
  | .takeR => some { d with thread := .clearR d.r }
  | .clearR tmp => some { d with r := -1, thread := .outside, returned := d.returned ++ [(d.sends, tmp)] }
  | .panicked => none

def step : Event → Option HandOff
  | .call b => if d.guest = .idle then some { d with guest := .entered b } else none
  | .guest => d.guestStep
  | .resume => if d.place = .runnable then some { d with place := .cpu } else none
  | .send request =>
    if d.place = .cpu ∧ d.thread = .outside then
      some { d with s := request.char, sends := d.sends + 1, thread := .testR }
    else none
  | .thread => if d.place = .cpu then d.threadStep else none
  | .schedule found =>
    if d.place = .cpu ∧ (d.thread = .outside ∨ d.thread = .schedule) then some (d.schedule found)
    else none

def Available : Prop := d.r ≠ -1 ∧ d.s = -1

def Pending : Prop :=
  match d.guest with
  | .entered b => b ≠ -1
  | .setR _ => True
  | .setS => True
  | .wake => True
  | .waking => True
  | _ => False

def Lost : Prop := d.state = .stop ∧ d.Available ∧ ¬d.Pending

def answers : List (Option Nat × Int) := d.returned.map fun result => (some result.1, result.2)

/-- Every reply was returned by the send whose character the guest had received, and the last one
may still be in `r` for that send. -/
def HandedOver : Prop :=
  d.delivered = d.answers ∨ ∃ b, d.delivered = d.answers ++ [(some d.sends, b)] ∧ d.r = b ∧ d.thread ≠ .outside

/-- The guest replies to a character it has received, and the thread does not stop while there is a
reply whose wake-up is over. -/
def Heeds : Event → Prop
  | .call b => b ≠ -1 → d.received ≠ none
  | .thread => d.thread = .stop → d.Available → d.Pending
  | _ => True

instance : Decidable d.Available := inferInstanceAs (Decidable (_ ∧ _))

instance : Decidable d.Pending := by
  unfold Pending
  split <;> infer_instance

end HandOff

/-!
The wake-ups of the debug shell's thread: a reply is lost only when the thread stops after the
guest's section under `dbgsh_lock2`.
-/

open Option (some.injEq)

namespace HandOff

variable {d before after : HandOff} {event : Event}

structure Wakes (d : HandOff) : Prop where
  stopped : d.state = .willStop ∨ d.state = .stop → d.stopped = true
  waiting : d.state = .willStop ∨ d.state = .stop → d.Available → d.Pending
  asleep : d.state = .stop → d.place = .off
  waking : d.guest = .waking → d.state = .run ∧ d.place = .off
  absent : d.state = .exit → d.stopped = false ∧ d.place = .off
  calm : d.guest ≠ .panicked ∧ d.thread ≠ .panicked

theorem wakes_vmmcallDbgshInit : vmmcallDbgshInit.Wakes := by
  refine ⟨?_, ?_, ?_, ?_, ?_, ?_⟩
  all_goals simp [vmmcallDbgshInit]

theorem Wakes.enter (wakes : d.Wakes) {b : Int} (at' : d.guest = .entered b) : (d.enter b).Wakes := by
  have waiting := wakes.waiting
  have calm := wakes.calm.2
  simp only [Available, Pending, at'] at waiting
  by_cases made : d.i = true
  · refine ⟨?_, ?_, ?_, ?_, ?_, ?_⟩
    · simpa [HandOff.enter, made] using wakes.stopped
    · by_cases asks : b = -1
      · simpa [HandOff.enter, made, asks, Available, Pending] using waiting
      · simp [HandOff.enter, made, asks, Pending]
    · simpa [HandOff.enter, made] using wakes.asleep
    · by_cases asks : b = -1 <;> simp [HandOff.enter, asks]
    · simpa [HandOff.enter, made] using wakes.absent
    · by_cases asks : b = -1 <;> simp [HandOff.enter, made, asks, calm]
  · refine ⟨?_, ?_, ?_, ?_, ?_, ?_⟩
    all_goals by_cases asks : b = -1
    all_goals simp [HandOff.enter, made, asks, calm]

theorem Wakes.wake (wakes : d.Wakes) (stopped : d.stopped = true) : d.threadWakeup.Wakes := by
  have calm := wakes.calm.2
  cases state : d.state with
  | exit => exact absurd (wakes.absent state).1 (by simp [stopped])
  | stop =>
    have asleep := wakes.asleep state
    refine ⟨?_, ?_, ?_, ?_, ?_, ?_⟩
    all_goals simp [threadWakeup, state, asleep, calm]
  | run =>
    refine ⟨?_, ?_, ?_, ?_, ?_, ?_⟩
    all_goals simp [threadWakeup, state, calm]
  | willStop =>
    refine ⟨?_, ?_, ?_, ?_, ?_, ?_⟩
    all_goals simp [threadWakeup, state, calm]

theorem Wakes.guestStep (wakes : before.Wakes) (step : before.guestStep = some after) : after.Wakes := by
  rw [HandOff.guestStep] at step
  have waiting := wakes.waiting
  cases guest : before.guest with
  | idle => simp [guest] at step
  | panicked => simp [guest] at step
  | entered b =>
    rw [guest] at step
    cases step
    exact wakes.enter guest
  | setR b =>
    rw [guest] at step
    cases step
    exact ⟨wakes.stopped, by simp [Pending], wakes.asleep, by simp, wakes.absent,
      by simp, wakes.calm.2⟩
  | setS =>
    rw [guest] at step
    cases step
    exact ⟨wakes.stopped, by simp [Pending], wakes.asleep, by simp, wakes.absent,
      by simp, wakes.calm.2⟩
  | wake =>
    rw [guest] at step
    cases step
    by_cases stopped : before.stopped = true
    · rw [if_pos stopped]
      exact wakes.wake stopped
    · rw [if_neg stopped]
      exact ⟨wakes.stopped, fun stopping => absurd (wakes.stopped stopping) stopped,
        wakes.asleep, by simp, wakes.absent, by simp, wakes.calm.2⟩
  | waking =>
    rw [guest] at step
    cases step
    have woken := (wakes.waking guest).1
    exact ⟨by simp [woken], by simp [woken], by simp [woken], by simp, by simp [woken],
      by simp, wakes.calm.2⟩
  | returning =>
    rw [guest] at step
    cases step
    simp only [Pending, guest] at waiting
    exact ⟨wakes.stopped, waiting, wakes.asleep, by simp, wakes.absent, by simp, wakes.calm.2⟩

theorem Wakes.threadStep (wakes : before.Wakes) (on : before.place = .cpu)
    (heeds : before.Heeds .thread) (step : before.threadStep = some after) : after.Wakes := by
  rw [HandOff.threadStep] at step
  have calm := wakes.calm.1
  have awake : before.guest ≠ .waking := by
    intro waking
    simpa [on] using (wakes.waking waking).2
  cases thread : before.thread with
  | outside => simp [thread] at step
  | schedule => simp [thread] at step
  | panicked => simp [thread] at step
  | testR =>
    rw [thread] at step
    cases step
    refine ⟨wakes.stopped, wakes.waiting, wakes.asleep, wakes.waking, wakes.absent, calm, ?_⟩
    by_cases waits : before.r = -1 <;> simp [waits]
  | testS =>
    rw [thread] at step
    cases step
    refine ⟨wakes.stopped, wakes.waiting, wakes.asleep, wakes.waking, wakes.absent, calm, ?_⟩
    by_cases taken : before.s = -1 <;> simp [taken]
  | stop =>
    simp only [thread, if_neg awake, some.injEq] at step
    have pending := heeds thread
    rw [← step]
    cases state : before.state with
    | exit => simpa [on] using (wakes.absent state).2
    | stop => simpa [on] using wakes.asleep state
    | run =>
      refine ⟨?_, ?_, ?_, ?_, ?_, ?_⟩
      all_goals simp [threadWillStop, state, awake, calm]
      exact pending
    | willStop =>
      refine ⟨?_, ?_, ?_, ?_, ?_, ?_⟩
      all_goals simp [threadWillStop, state, awake, calm]
      exact pending
  | takeR =>
    rw [thread] at step
    cases step
    exact ⟨wakes.stopped, wakes.waiting, wakes.asleep, wakes.waking, wakes.absent, calm, by simp⟩
  | clearR tmp =>
    rw [thread] at step
    cases step
    exact ⟨wakes.stopped, by simp [Available], wakes.asleep, wakes.waking, wakes.absent, calm,
      by simp⟩

theorem Wakes.schedule (wakes : d.Wakes) (on : d.place = .cpu) (found : Bool) : (d.schedule found).Wakes := by
  have calm := wakes.calm
  have thread : (if d.thread = .schedule then ThreadPc.testR else d.thread) ≠ .panicked := by
    split
    · simp
    · exact calm.2
  have awake : d.guest ≠ .waking := by
    intro waking
    simpa [on] using (wakes.waking waking).2
  cases found with
  | false => exact ⟨wakes.stopped, wakes.waiting, wakes.asleep, wakes.waking, wakes.absent, calm.1, thread⟩
  | true =>
    cases state : d.state with
    | exit => simpa [on] using (wakes.absent state).2
    | stop => simpa [on] using wakes.asleep state
    | run =>
      refine ⟨?_, ?_, ?_, ?_, ?_, ?_⟩
      all_goals simp [HandOff.schedule, state, awake, calm.1]
      simpa using thread
    | willStop =>
      have stopped := wakes.stopped (.inl state)
      have waiting := wakes.waiting (.inl state)
      refine ⟨?_, ?_, ?_, ?_, ?_, ?_⟩
      all_goals simp [HandOff.schedule, state, awake, calm.1, stopped]
      · exact waiting
      · simpa using thread

theorem Wakes.step (wakes : before.Wakes) (heeds : before.Heeds event)
    (step : before.step event = some after) : after.Wakes := by
  have waiting := wakes.waiting
  cases event with
  | call b =>
    simp only [HandOff.step, Option.ite_none_right_eq_some, some.injEq] at step
    simp only [Pending, step.1] at waiting
    rw [← step.2]
    refine ⟨wakes.stopped, ?_, wakes.asleep, by simp, wakes.absent, by simp, wakes.calm.2⟩
    exact fun stopping available => absurd (waiting stopping available) id
  | guest => exact wakes.guestStep step
  | resume =>
    simp only [HandOff.step, Option.ite_none_right_eq_some, some.injEq] at step
    rw [← step.2]
    refine ⟨wakes.stopped, wakes.waiting, ?_, ?_, ?_, wakes.calm⟩
    · exact fun state => by simpa [step.1] using wakes.asleep state
    · exact fun waking => by simpa [step.1] using wakes.waking waking
    · exact fun state => by simpa [step.1] using wakes.absent state
  | send request =>
    simp only [HandOff.step, Option.ite_none_right_eq_some, some.injEq] at step
    rw [← step.2]
    refine ⟨wakes.stopped, ?_, wakes.asleep, wakes.waking, wakes.absent, wakes.calm.1, by simp⟩
    exact fun _ available => absurd available.2 request.char_ne
  | thread =>
    simp only [HandOff.step, Option.ite_none_right_eq_some] at step
    exact wakes.threadStep step.1 heeds step.2
  | schedule found =>
    simp only [HandOff.step, Option.ite_none_right_eq_some, some.injEq] at step
    rw [← step.2]
    exact wakes.schedule step.1.1 found

theorem Wakes.not_lost (wakes : d.Wakes) : ¬d.Lost := by
  rintro ⟨asleep, available, alone⟩
  exact alone (wakes.waiting (.inr asleep) available)

end HandOff

/-!
The conversation of the debug shell's thread with a guest that replies only to what it received,
and the contract of the hand-off.
-/

open Transitions

namespace HandOff

variable {d before after : HandOff} {event : Event} {b : Int}

def Listens (d : HandOff) : Prop :=
  match d.guest with
  | .entered b => b = -1
  | .setR _ => False
  | .setS => False
  | _ => True

def Loops (d : HandOff) : Prop :=
  match d.thread with
  | .testR => True
  | .stop => True
  | .schedule => True
  | .panicked => True
  | _ => False

/-- How far the conversation is: the guest has got no character, it may take one, its reply is on
the way, half written, written, taken by the thread. -/
inductive Talks (d : HandOff) : Prop
  | quiet : d.thread = .outside → d.s = -1 → d.r = -1 → d.received = none → d.Listens →
      d.delivered = d.answers → Talks d
  | asked : d.Loops → d.s ≠ -1 → d.r = -1 → d.received = none ∨ d.received = some d.sends →
      d.Listens → d.delivered = d.answers → Talks d
  | replying (reply : Int) : d.Loops → d.s ≠ -1 → d.r = -1 → d.received = some d.sends →
      reply ≠ -1 → d.guest = .entered reply ∨ d.guest = .setR reply → d.delivered = d.answers →
      Talks d
  | half : d.Loops ∨ d.thread = .testS → d.s ≠ -1 → d.r ≠ -1 → d.received = none →
      d.guest = .setS → d.delivered = d.answers ++ [(some d.sends, d.r)] → Talks d
  | replied : d.Loops ∨ d.thread = .testS ∨ d.thread = .takeR → d.s = -1 → d.r ≠ -1 →
      d.received = none → d.Listens → d.delivered = d.answers ++ [(some d.sends, d.r)] → Talks d
  | taken : d.thread = .clearR d.r → d.s = -1 → d.r ≠ -1 → d.received = none → d.Listens →
      d.delivered = d.answers ++ [(some d.sends, d.r)] → Talks d

theorem talks_vmmcallDbgshInit : vmmcallDbgshInit.Talks := by
  refine Talks.quiet rfl rfl rfl rfl ?_ rfl
  simp [Listens, vmmcallDbgshInit]

theorem Talks.handedOver (talks : d.Talks) : d.HandedOver := by
  cases talks with
  | quiet _ _ _ _ _ delivered => exact .inl delivered
  | asked _ _ _ _ _ delivered => exact .inl delivered
  | replying _ _ _ _ _ _ _ delivered => exact .inl delivered
  | half loops _ _ _ _ delivered =>
    refine .inr ⟨d.r, delivered, rfl, ?_⟩
    intro outside
    simp [Loops, outside] at loops
  | replied loops _ _ _ _ delivered =>
    refine .inr ⟨d.r, delivered, rfl, ?_⟩
    intro outside
    simp [Loops, outside] at loops
  | taken thread _ _ _ _ delivered =>
    refine .inr ⟨d.r, delivered, rfl, ?_⟩
    simp [thread]

theorem Talks.listen (talks : before.Talks) (listens : before.Listens) (kept : after.Listens)
    (thread : after.thread = before.thread) (s : after.s = before.s) (r : after.r = before.r)
    (sends : after.sends = before.sends) (delivered : after.delivered = before.delivered)
    (returned : after.returned = before.returned) (received : after.received = before.received ∨
      before.s ≠ -1 ∧ after.received = some before.sends) : after.Talks := by
  have answers : after.answers = before.answers := by rw [HandOff.answers, returned, HandOff.answers]
  have loops : before.Loops → after.Loops := by simp only [Loops, thread]; exact id
  cases talks with
  | quiet outside sNone rNone none _ told =>
    have same := received.resolve_right fun got => got.1 sNone
    exact Talks.quiet (thread ▸ outside) (s ▸ sNone) (r ▸ rNone) (same ▸ none) kept (by rw [delivered, answers, told])
  | asked looping sSome rNone char _ told =>
    refine Talks.asked (loops looping) (s ▸ sSome) (r ▸ rNone) ?_ kept (by rw [delivered, answers, told])
    rcases received with same | got
    · rw [same, sends]
      exact char
    · rw [got.2, sends]
      exact .inr rfl
  | replying reply _ _ _ _ replies at' _ =>
    rcases at' with entered | setR
    · simp only [Listens, entered] at listens
      exact absurd listens replies
    · simp [Listens, setR] at listens
  | half _ _ _ _ setS _ => simp [Listens, setS] at listens
  | replied looping sNone rSome none _ told =>
    have same := received.resolve_right fun got => got.1 sNone
    refine Talks.replied ?_ (s ▸ sNone) (r ▸ rSome) (same ▸ none) kept (by rw [delivered, answers, sends, r, told])
    rw [thread]
    exact looping.imp_left loops
  | taken clears sNone rSome none _ told =>
    have same := received.resolve_right fun got => got.1 sNone
    exact Talks.taken (by rw [thread, r]; exact clears) (s ▸ sNone) (r ▸ rSome) (same ▸ none) kept
      (by rw [delivered, answers, sends, r, told])

theorem Talks.call (talks : before.Talks) (idle : before.guest = .idle)
    (heeds : b ≠ -1 → before.received ≠ none) : Talks { before with guest := .entered b } := by
  have listens : before.Listens := by simp [Listens, idle]
  by_cases asks : b = -1
  · exact talks.listen listens asks rfl rfl rfl rfl rfl rfl (.inl rfl)
  · have got := heeds asks
    cases talks with
    | quiet _ _ _ none => exact absurd none got
    | asked looping sSome rNone char _ told =>
      exact Talks.replying b looping sSome rNone (char.resolve_left got) asks (.inl rfl) told
    | replying _ _ _ _ _ _ at' => simp [idle] at at'
    | half _ _ _ none => exact absurd none got
    | replied _ _ _ none => exact absurd none got
    | taken _ _ _ none => exact absurd none got

theorem threadWakeup_same : d.threadWakeup.thread = d.thread ∧ d.threadWakeup.s = d.s ∧
    d.threadWakeup.r = d.r ∧ d.threadWakeup.sends = d.sends ∧
    d.threadWakeup.delivered = d.delivered ∧ d.threadWakeup.returned = d.returned ∧
    d.threadWakeup.received = d.received ∧ d.threadWakeup.Listens := by
  cases state : d.state with
  | _ => simp [threadWakeup, state, Listens]

theorem Talks.guestStep (talks : before.Talks) (step : before.guestStep = some after) : after.Talks := by
  rw [HandOff.guestStep] at step
  cases guest : before.guest with
  | idle => simp [guest] at step
  | panicked => simp [guest] at step
  | entered b =>
    rw [guest] at step
    cases step
    by_cases asks : b = -1
    · have listens : before.Listens := by simp [Listens, guest, asks]
      refine talks.listen listens ?_ ?_ ?_ ?_ ?_ ?_ ?_ (.inl ?_)
      · simp [enter, Listens, asks]
      all_goals by_cases made : before.i = true <;> simp [enter, made]
    · cases talks with
      | replying reply looping sSome rNone got replies at' told =>
        obtain rfl : b = reply := by simpa [guest] using at'
        by_cases made : before.i = true
        · simp only [enter, made, if_true, if_neg asks]
          exact Talks.replying b looping sSome rNone got replies (.inr rfl) told
        · simp only [enter, made, if_neg asks]
          exact Talks.replying b looping sSome rNone got replies (.inr rfl) told
      | quiet _ _ _ _ listens => simp [Listens, guest, asks] at listens
      | asked _ _ _ _ listens => simp [Listens, guest, asks] at listens
      | half _ _ _ _ setS => simp [guest] at setS
      | replied _ _ _ _ listens => simp [Listens, guest, asks] at listens
      | taken _ _ _ _ listens => simp [Listens, guest, asks] at listens
  | setR b =>
    rw [guest] at step
    cases step
    cases talks with
    | replying reply looping sSome rNone got replies at' told =>
      obtain rfl : b = reply := by simpa [guest] using at'
      refine Talks.half (.inl looping) sSome replies rfl rfl ?_
      simp only [got, told]
      rfl
    | quiet _ _ _ _ listens => simp [Listens, guest] at listens
    | asked _ _ _ _ listens => simp [Listens, guest] at listens
    | half _ _ _ _ setS => simp [guest] at setS
    | replied _ _ _ _ listens => simp [Listens, guest] at listens
    | taken _ _ _ _ listens => simp [Listens, guest] at listens
  | setS =>
    rw [guest] at step
    cases step
    cases talks with
    | half looping _ rSome none _ told => exact Talks.replied (looping.imp_right .inl) rfl rSome none trivial told
    | quiet _ _ _ _ listens => simp [Listens, guest] at listens
    | asked _ _ _ _ listens => simp [Listens, guest] at listens
    | replying _ _ _ _ _ _ at' => simp [guest] at at'
    | replied _ _ _ _ listens => simp [Listens, guest] at listens
    | taken _ _ _ _ listens => simp [Listens, guest] at listens
  | wake =>
    have listens : before.Listens := by simp [Listens, guest]
    rw [guest] at step
    cases step
    split
    · obtain ⟨thread, s, r, sends, delivered, returned, received, kept⟩ :=
        threadWakeup_same (d := before)
      exact talks.listen listens kept thread s r sends delivered returned (.inl received)
    · exact talks.listen listens trivial rfl rfl rfl rfl rfl rfl (.inl rfl)
  | waking =>
    have listens : before.Listens := by simp [Listens, guest]
    rw [guest] at step
    cases step
    exact talks.listen listens trivial rfl rfl rfl rfl rfl rfl (.inl rfl)
  | returning =>
    have listens : before.Listens := by simp [Listens, guest]
    rw [guest] at step
    cases step
    refine talks.listen listens trivial rfl rfl rfl rfl rfl rfl ?_
    by_cases empty : before.s = -1
    · exact .inl (if_pos empty)
    · exact .inr ⟨empty, if_neg empty⟩

theorem Talks.loop {thread : ThreadPc} {stopped : Bool} {state : Thread.ThreadState} {place : Place}
    (talks : d.Talks) (loops : d.Loops) (kept : Loops { d with thread, stopped, state, place }) :
    Talks { d with thread, stopped, state, place } := by
  cases talks with
  | quiet outside => simp [Loops, outside] at loops
  | asked _ sSome rNone char listens told => exact Talks.asked kept sSome rNone char listens told
  | replying reply _ sSome rNone got replies at' told =>
    exact Talks.replying reply kept sSome rNone got replies at' told
  | half _ sSome rSome none setS told => exact Talks.half (.inl kept) sSome rSome none setS told
  | replied _ sNone rSome none listens told => exact Talks.replied (.inl kept) sNone rSome none listens told
  | taken clears => simp [Loops, clears] at loops

theorem Talks.send (talks : d.Talks) (outside : d.thread = .outside) (request : Request) :
    Talks { d with s := request.char, sends := d.sends + 1, thread := .testR } := by
  cases talks with
  | quiet _ _ rNone none listens told => exact Talks.asked trivial request.char_ne rNone (.inl none) listens told
  | asked loops => simp [Loops, outside] at loops
  | replying _ loops => simp [Loops, outside] at loops
  | half loops => simp [Loops, outside] at loops
  | replied loops => simp [Loops, outside] at loops
  | taken clears => simp [outside] at clears

theorem Talks.threadStep (talks : before.Talks) (step : before.threadStep = some after) : after.Talks := by
  rw [HandOff.threadStep] at step
  cases thread : before.thread with
  | outside => simp [thread] at step
  | schedule => simp [thread] at step
  | panicked => simp [thread] at step
  | testR =>
    rw [thread] at step
    cases step
    have loops : before.Loops := by simp [Loops, thread]
    by_cases waits : before.r = -1
    · rw [if_pos waits]
      exact talks.loop loops trivial
    · rw [if_neg waits]
      cases talks with
      | quiet outside => simp [thread] at outside
      | asked _ _ rNone => exact absurd rNone waits
      | replying _ _ _ rNone => exact absurd rNone waits
      | half _ sSome rSome none setS told => exact Talks.half (.inr rfl) sSome rSome none setS told
      | replied _ sNone rSome none listens told =>
        exact Talks.replied (.inr (.inl rfl)) sNone rSome none listens told
      | taken clears => simp [thread] at clears
  | testS =>
    rw [thread] at step
    cases step
    cases talks with
    | quiet outside => simp [thread] at outside
    | asked loops => simp [Loops, thread] at loops
    | replying _ loops => simp [Loops, thread] at loops
    | half _ sSome rSome none setS told =>
      rw [if_neg sSome]
      exact Talks.half (.inl trivial) sSome rSome none setS told
    | replied _ sNone rSome none listens told =>
      rw [if_pos sNone]
      exact Talks.replied (.inr (.inr rfl)) sNone rSome none listens told
    | taken clears => simp [thread] at clears
  | stop =>
    simp only [thread, Option.ite_none_left_eq_some, some.injEq] at step
    have loops : before.Loops := by simp [Loops, thread]
    rw [← step.2]
    cases state : before.state with
    | _ =>
      simp only [threadWillStop, state]
      exact talks.loop loops trivial
  | takeR =>
    rw [thread] at step
    cases step
    cases talks with
    | quiet outside => simp [thread] at outside
    | asked loops => simp [Loops, thread] at loops
    | replying _ loops => simp [Loops, thread] at loops
    | half loops => simp [Loops, thread] at loops
    | replied _ sNone rSome none listens told => exact Talks.taken rfl sNone rSome none listens told
    | taken clears => simp [thread] at clears
  | clearR tmp =>
    rw [thread] at step
    cases step
    cases talks with
    | quiet outside => simp [thread] at outside
    | asked loops => simp [Loops, thread] at loops
    | replying _ loops => simp [Loops, thread] at loops
    | half loops => simp [Loops, thread] at loops
    | replied loops => simp [Loops, thread] at loops
    | taken clears sNone _ none listens told =>
      obtain rfl : tmp = before.r := by simpa [thread] using clears
      refine Talks.quiet rfl sNone rfl none listens ?_
      simpa [answers] using told

theorem Talks.place {state : Thread.ThreadState} {place : Place} (talks : d.Talks) : Talks { d with state, place } := by
  cases talks with
  | quiet outside sNone rNone none listens told => exact Talks.quiet outside sNone rNone none listens told
  | asked loops sSome rNone char listens told => exact Talks.asked loops sSome rNone char listens told
  | replying reply loops sSome rNone got replies at' told =>
    exact Talks.replying reply loops sSome rNone got replies at' told
  | half loops sSome rSome none setS told => exact Talks.half loops sSome rSome none setS told
  | replied loops sNone rSome none listens told => exact Talks.replied loops sNone rSome none listens told
  | taken clears sNone rSome none listens told => exact Talks.taken clears sNone rSome none listens told

theorem Talks.schedule (talks : d.Talks) (awake : d.state ≠ .stop)
    (here : d.thread = .outside ∨ d.thread = .schedule) (found : Bool) : (d.schedule found).Talks := by
  have tests : Talks { d with
      thread := if d.thread = .schedule then .testR else d.thread } := by
    rcases here with outside | loops
    · simp only [outside, reduceCtorEq, if_false]
      rw [← outside]
      exact talks
    · rw [if_pos loops]
      exact talks.loop (by simp [Loops, loops]) trivial
  cases found with
  | false => exact tests
  | true =>
    cases state : d.state with
    | stop => exact absurd state awake
    | _ =>
      simp only [HandOff.schedule, state, if_true]
      exact tests.place

theorem Talks.step (talks : before.Talks) (wakes : before.Wakes) (heeds : before.Heeds event)
    (step : before.step event = some after) : after.Talks := by
  cases event with
  | call b =>
    simp only [HandOff.step, Option.ite_none_right_eq_some, some.injEq] at step
    rw [← step.2]
    exact talks.call step.1 heeds
  | guest => exact talks.guestStep step
  | resume =>
    simp only [HandOff.step, Option.ite_none_right_eq_some, some.injEq] at step
    rw [← step.2]
    exact talks.place
  | send request =>
    simp only [HandOff.step, Option.ite_none_right_eq_some, some.injEq] at step
    rw [← step.2]
    exact talks.send step.1.2 request
  | thread =>
    simp only [HandOff.step, Option.ite_none_right_eq_some] at step
    exact talks.threadStep step.2
  | schedule found =>
    simp only [HandOff.step, Option.ite_none_right_eq_some, some.injEq] at step
    rw [← step.2]
    refine talks.schedule ?_ step.1.2 found
    intro asleep
    simpa [step.1.1] using wakes.asleep asleep

def HeededStep (before : HandOff) (event : Event) (after : HandOff) : Prop :=
  before.Heeds event ∧ before.step event = some after

end HandOff

/-- While the guest replies only to what it received and the thread does not stop after the wake-up
of a reply, no reply is lost and each is returned by the send it answers. -/
theorem handOff_kept {events : List Event} {d : HandOff}
    (run : Run HandOff.HeededStep vmmcallDbgshInit events d) : ¬d.Lost ∧ d.HandedOver := by
  have kept := run.keeps (fun d => d.Wakes ∧ d.Talks)
    (fun before event after taken sound =>
      ⟨sound.1.step taken.1 taken.2, sound.2.step sound.1 taken.1 taken.2⟩)
    ⟨HandOff.wakes_vmmcallDbgshInit, HandOff.talks_vmmcallDbgshInit⟩
  exact ⟨kept.1.not_lost, kept.2.handedOver⟩

namespace HandOff

instance (d : HandOff) (event : Event) : Decidable (d.Heeds event) := by
  cases event with
  | call b => exact inferInstanceAs (Decidable (_ → _))
  | thread => exact inferInstanceAs (Decidable (_ → _))
  | guest => exact inferInstanceAs (Decidable True)
  | resume => exact inferInstanceAs (Decidable True)
  | send request => exact inferInstanceAs (Decidable True)
  | schedule found => exact inferInstanceAs (Decidable True)

def heededStep (d : HandOff) (event : Event) : Option HandOff :=
  if d.Heeds event then d.step event else none

theorem heededStep_sound {d next : HandOff} {event : Event}
    (step : d.heededStep event = some next) : HeededStep d event next := by
  simp only [heededStep, Option.ite_none_right_eq_some] at step
  exact step

end HandOff

def sampleEvents : List Event :=
  [.call (-1), .guest, .guest, .resume, .send .ttyin, .call (-1), .guest, .guest, .call 97, .guest,
    .guest, .guest, .guest, .guest, .thread, .thread, .thread, .thread]

theorem handOff_kept_sample : ∃ d, Run HandOff.HeededStep vmmcallDbgshInit sampleEvents d ∧
    d.returned = [(1, 97)] ∧ ¬d.Lost ∧ d.HandedOver := by
  have run : Run HandOff.HeededStep vmmcallDbgshInit sampleEvents _ :=
    run_of_foldlM (fun _ _ _ => HandOff.heededStep_sound) rfl
  exact ⟨_, run, rfl, handOff_kept run⟩

/-- A reply between the test of the thread and its stop is lost; and a reply that is on its way
when the thread sends is returned for a character the guest never got. -/
theorem handOff_breaks :
    (∃ events d, Run (fun before event after => before.step event = some after) vmmcallDbgshInit
      events d ∧ d.Lost ∧ d.delivered = [(some 1, 97)]) ∧
    ∃ events d, Run (fun before event after => before.step event = some after) vmmcallDbgshInit
      events d ∧ d.delivered = [(none, 97)] ∧ d.returned = [(1, 97)] := by
  constructor
  · refine ⟨[.call (-1), .guest, .guest, .resume, .send .ttyin, .thread, .call (-1), .guest, .guest,
      .call 97, .guest, .guest, .guest, .guest, .guest, .thread, .schedule true], _,
      run_of_foldlM (fun _ _ _ taken => taken) rfl, ?_, rfl⟩
    exact ⟨rfl, by decide, by decide⟩
  · exact ⟨[.call 97, .guest, .guest, .resume, .send .ttyin, .guest, .thread, .thread, .thread,
      .thread], _, run_of_foldlM (fun _ _ _ taken => taken) rfl, rfl, rfl⟩

end DisasVisor.Dbgsh
