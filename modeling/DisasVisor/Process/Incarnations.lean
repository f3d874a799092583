import DisasVisor.Process.CallInvariants

/-!
Descriptors name one incarnation of a process: over all runs of threads that call each other's
processes, as long as no generation number has reached the end of `int`.
-/

namespace DisasVisor.Process

open Function Transitions
open Option (some.inj)

theorem Tables.update_same {t t' : Tables} {pid : Pid} {life : Life}
    (lives : t'.life = update t.life pid life) (valid : life.valid = (t.life pid).valid)
    (gen : life.gen = (t.life pid).gen) (other : Pid) :
    (t'.life other).valid = (t.life other).valid ∧ (t'.life other).gen = (t.life other).gen := by
  rw [lives]
  by_cases same : other = pid
  · rw [same, update_self]
    exact ⟨valid, gen⟩
  · rw [update_of_ne same]
    exact ⟨rfl, rfl⟩

namespace System

variable {n : Nat} {s s' later : System n} {tid : Fin n} {action : Action}

def Step (s : System n) (event : Fin n × Action) (s' : System n) : Prop := s.step event.1 event.2 = some s' ∧ s.Small

inductive Effect (s s' : System n) (tid : Fin n) (action : Action) : Prop
  | kept : s'.births = s.births →
      (∀ pid, (s'.tables.life pid).valid = (s.tables.life pid).valid ∧
        (s'.tables.life pid).gen = (s.tables.life pid).gen) →
      (∀ frame frames, action = .callret → (s.threads tid).frames = frame :: frames →
        ¬((s.tables.life frame.pid).running - 1 = 0 ∧ (s.tables.life frame.pid).exitflag = true)) →
      Effect s s' tid action
  | created (pid : Pid) (life : Life) : action ≠ .callret → (s.tables.life pid).valid = false →
      life.gen = (s.tables.life pid).gen + 1 →
      s'.tables.life = update s.tables.life pid life →
      (∀ other, other ≠ pid → s'.births other = s.births other) → Effect s s' tid action
  | cleaned (frame : Frame) (frames : List Frame) : action = .callret →
      (s.threads tid).frames = frame :: frames →
      (s.tables.life frame.pid).running - 1 = 0 ∧ (s.tables.life frame.pid).exitflag = true →
      s'.tables.life = update s.tables.life frame.pid
        ⟨false, (s.tables.life frame.pid).gen + 1, 0, true, (s.tables.life frame.pid).mmPhys⟩ →
      s'.births = s.births → Effect s s' tid action

theorem Effect.quiet {t' : Tables} {held : Held} (life : t'.life = s.tables.life)
    (other : action ≠ .callret) : Effect s (s.set t' tid held) tid action := by
  refine .kept rfl (fun pid => ?_) fun _ _ ret => absurd ret other
  have same := congrFun life pid
  exact ⟨congrArg Life.valid same, congrArg Life.gen same⟩

theorem Effect.same (other : action ≠ .callret) : Effect s s tid action :=
  .kept rfl (fun _ => ⟨rfl, rfl⟩) fun _ _ ret => absurd ret other

section

variable (sound : s.Sound)
include sound

theorem Sound.cleanupExited {pid : Pid} (valid : (s.tables.life pid).valid = true) :
    s.tables.cleanupExited pid = s.tables := by
  unfold Tables.cleanupExited
  apply if_neg
  rintro ⟨idle, exits⟩
  have called := sound.exiting pid valid exits
  have running := sound.running pid
  change (s.tables.process pid).running = s.calls pid at running
  omega

theorem Sound.set_same {held : Held}
    (reads : ∀ target, held.target = some target → s.Dated target) :
    (s.set s.tables tid held).Sound := sound.writes rfl rfl sound.targets reads

theorem Sound.call (target : Target) (mapped : Bool) :
    (s.call tid target mapped).Sound ∧ Effect s (s.call tid target mapped) tid (.callMsgfunc1 mapped) := by
  have none' : (s.set s.tables tid .nothing).Sound ∧
      Effect s (s.set s.tables tid .nothing) tid (.callMsgfunc1 mapped) :=
    ⟨sound.set_same fun _ holds => reads_nothing holds, .quiet rfl (by simp)⟩
  unfold System.call
  dsimp only
  split
  · exact none'
  · rename_i delivers
    have found : s.tables.Delivers target := by simpa using delivers
    split
    · exact none'
    · rename_i user
      split
      · rw [sound.cleanupExited found.1]
        exact none'
      · exact ⟨sound.enter user found.1 (moved_setThread _ _),
          .kept rfl (Tables.update_same Tables.life_enter rfl rfl) fun _ _ ret => absurd ret (by simp)⟩

theorem Sound.act (small : s.Small) (done : s.act tid action = some s') : s'.Sound ∧ Effect s s' tid action := by
  cases action with
  | msgsetfunc who desc func =>
    obtain ⟨-, final⟩ := Option.ite_none_right_eq_some.mp done
    cases final
    refine ⟨sound.writes (Tables.life_msgsetfunc func) rfl ?_ fun _ holds => reads_nothing holds,
      .quiet (Tables.life_msgsetfunc func) (by simp)⟩
    exact fun target has => sound.targets target (Tables.hasTarget_msgsetfunc has)
  | msgregister who name func =>
    obtain ⟨⟨acts, short⟩, final⟩ := Option.ite_none_right_eq_some.mp done
    cases final
    exact ⟨sound.msgregister acts name func short, .quiet (Tables.life_msgregister name func) (by simp)⟩
  | msgUnregister2 who desc =>
    obtain ⟨-, final⟩ := Option.ite_none_right_eq_some.mp done
    cases final
    exact ⟨sound.msgUnregister2 who desc, .quiet rfl (by simp)⟩
  | msgFindname who name =>
    obtain ⟨-, found⟩ := Option.ite_none_right_eq_some.mp done
    cases named : s.tables.findname name with
    | none =>
      rw [named] at found
      cases found
      exact ⟨sound, .same (by simp)⟩
    | some d =>
      rw [named] at found
      cases found
      refine ⟨sound.set_same fun target holds => ?_, .quiet rfl (by simp)⟩
      have named' := List.mem_of_find?_eq_some named
      exact sound.dated target (.inr (.inl ⟨d, named', some.inj holds⟩))
  | processNew who phys bin =>
    obtain ⟨-, created⟩ := Option.ite_none_right_eq_some.mp done
    cases new : s.tables.processNew phys bin with
    | none =>
      rw [new] at created
      cases created
      exact ⟨sound, .same (by simp)⟩
    | some result =>
      obtain ⟨chosen, gen, tables⟩ := result
      rw [new] at created
      cases created
      refine ⟨sound.processNew small new, ?_⟩
      obtain ⟨pid, -, invalid, number, -, -, lives, -⟩ := Tables.processNew_created new
      rw [small.increment] at number
      refine .created pid _ (by simp) invalid number lives fun other differs => ?_
      have same := congrArg Life.gen (congrFun lives other)
      rw [update_of_ne differs] at same
      exact if_pos same
  | msgopen2 => exact absurd done (by simp [System.act])
  | msgclose who desc =>
    obtain ⟨-, final⟩ := Option.ite_none_right_eq_some.mp done
    cases final
    refine ⟨sound.writes Tables.life_msgclose rfl ?_ fun _ holds => reads_nothing holds,
      .quiet Tables.life_msgclose (by simp)⟩
    intro target has
    rcases Tables.hasTarget_msgclose has with old | cleared
    · exact sound.targets target old
    · exact dated_kernel cleared.1
  | msgsenddesc who todesc senddesc =>
    obtain ⟨-, final⟩ := Option.ite_none_right_eq_some.mp done
    cases final
    refine ⟨sound.writes (Tables.life_msgsenddesc todesc senddesc) Tables.names_msgsenddesc ?_
      fun _ holds => reads_nothing holds, .quiet (Tables.life_msgsenddesc todesc senddesc) (by simp)⟩
    exact fun target has => sound.targets target (Tables.hasTarget_msgsenddesc has)
  | readMsgdsc who desc =>
    obtain ⟨-, final⟩ := Option.ite_none_right_eq_some.mp done
    cases final
    refine ⟨sound.set_same fun target holds => ?_, .quiet rfl (by simp)⟩
    exact sound.targets target ⟨who, desc, some.inj holds⟩
  | callMsgfunc1 mapped => exact absurd done (by simp [System.act])
  | exitprocess =>
    simp only [System.act] at done
    split at done
    · cases done
    · rename_i inside
      cases done
      exact ⟨sound.exitprocess inside, .kept rfl (Tables.update_same Tables.life_setExitflag rfl rfl)
        fun _ _ ret => absurd ret (by simp)⟩
  | callret =>
    simp only [System.act] at done
    cases inside : (s.threads tid).frames with
    | nil =>
      rw [inside] at done
      cases done
    | cons frame frames =>
      rw [inside] at done
      cases done
      refine ⟨sound.leave small inside (moved_setThread _ _), ?_⟩
      rcases s.tables.leave_cases frame.pid with ⟨stays, lives, -⟩ | ⟨last, lives, -⟩
      · refine .kept rfl (Tables.update_same lives rfl rfl) fun frame' frames' _ same => ?_
        rw [inside] at same
        rw [← (List.cons.inj same).1]
        exact stays
      · rw [small.increment] at lives
        exact .cleaned frame frames rfl inside last lives rfl

theorem Sound.step (small : s.Small) (done : s.step tid action = some s') : s'.Sound ∧ Effect s s' tid action := by
  unfold System.step at done
  cases held : (s.threads tid).held with
  | nothing =>
    rw [held] at done
    exact sound.act small done
  | toOpen who target =>
    rw [held] at done
    cases action with
    | msgopen2 =>
      cases done
      have dated : s.Dated target := sound.dated target (.inr (.inr ⟨tid, by rw [held]; rfl⟩))
      refine ⟨sound.writes (Tables.life_msgopen2 ..) Tables.names_msgopen2 ?_
        fun _ holds => reads_nothing holds, .quiet (Tables.life_msgopen2 ..) (by simp)⟩
      intro other has
      rcases Tables.hasTarget_msgopen2 has with old | new
      · exact sound.targets other old
      · rw [new]
        exact dated
    | _ => cases done
  | toSend target =>
    rw [held] at done
    cases action with
    | callMsgfunc1 mapped =>
      cases done
      exact sound.call target mapped
    | _ => cases done

end

theorem Step.sound (step : Step s (tid, action) s') (sound : s.Sound) : s'.Sound := (sound.step step.2 step.1).1

theorem sound_run {events : List (Fin n × Action)} (run : Run Step s events s') (sound : s.Sound) : s'.Sound :=
  run.keeps Sound (fun _ _ _ step before => Step.sound step before) sound

structure Follows (s s' : System n) : Prop where
  grows : ∀ pid, (s.tables.life pid).gen ≤ (s'.tables.life pid).gen
  same : ∀ pid, (s'.tables.life pid).gen = (s.tables.life pid).gen →
    (s'.tables.life pid).valid = (s.tables.life pid).valid ∧ s'.births pid = s.births pid
  kernel : (s'.tables.life 0).gen = (s.tables.life 0).gen

theorem Follows.refl (s : System n) : Follows s s := ⟨fun _ => le_refl _, fun _ _ => ⟨rfl, rfl⟩, rfl⟩

theorem Follows.trans (first : Follows s s') (next : Follows s' later) : Follows s later where
  grows := fun pid => (first.grows pid).trans (next.grows pid)
  same := fun pid equal => by
    have one := first.grows pid
    have two := next.grows pid
    have before := first.same pid (by omega)
    have after := next.same pid (by omega)
    exact ⟨after.1.trans before.1, after.2.trans before.2⟩
  kernel := next.kernel.trans first.kernel

theorem Effect.follows (sound : s.Sound) (effect : Effect s s' tid action) : Follows s s' := by
  cases effect with
  | kept births lives _ =>
    exact ⟨fun pid => (lives pid).2.symm.le, fun pid _ => ⟨(lives pid).1, congrFun births pid⟩, (lives 0).2⟩
  | created pid life _ invalid gen lives births =>
    refine ⟨?_, ?_, ?_⟩
    · intro other
      rw [lives]
      by_cases same : other = pid
      · rw [same, update_self, gen]
        exact Int.le_add_one (le_refl _)
      · rw [update_of_ne same]
    · intro other equal
      have differs : other ≠ pid := by
        intro same
        rw [lives, same, update_self, gen] at equal
        omega
      rw [lives, update_of_ne differs]
      exact ⟨rfl, births other differs⟩
    · rw [lives, update_of_ne]
      intro same
      rw [← same, sound.kernel.1] at invalid
      exact Bool.false_ne_true invalid.symm
  | cleaned frame frames _ inside _ lives births =>
    refine ⟨?_, ?_, ?_⟩
    · intro other
      rw [lives]
      by_cases same : other = frame.pid
      · rw [same, update_self]
        exact Int.le_add_one (le_refl _)
      · rw [update_of_ne same]
    · intro other equal
      have differs : other ≠ frame.pid := by
        intro same
        rw [lives, same, update_self] at equal
        simp only at equal
        omega
      rw [lives, update_of_ne differs]
      exact ⟨rfl, congrFun births other⟩
    · rw [lives, update_of_ne]
      exact (sound.called tid frame (inside ▸ List.mem_cons_self)).1.symm

theorem follows_run {events : List (Fin n × Action)} (run : Run Step s events later)
    (sound : s.Sound) : Follows s later := by
  induction run with
  | nil => exact Follows.refl _
  | cons step _ ih =>
    have first := sound.step step.2 step.1
    exact (first.2.follows sound).trans (ih first.1)

theorem Sound.delivers (sound : s.Sound) {target : Target} (holds : s.Holds target) (follows : Follows s later)
    (delivers : later.tables.Delivers target) :
    (s.tables.life target.pid).valid = true ∧ (s.tables.life target.pid).gen = target.gen ∧
      later.births target.pid = s.births target.pid := by
  obtain ⟨valid, gen, -⟩ := delivers
  change (later.tables.life target.pid).valid = true at valid
  change (later.tables.life target.pid).gen = target.gen at gen
  have same : (later.tables.life target.pid).gen = (s.tables.life target.pid).gen := by
    by_cases own : target.pid = 0
    · rw [own]
      exact follows.kernel
    · have dated := sound.dated target holds own
      have grows := follows.grows target.pid
      omega
  have kept := follows.same target.pid same
  exact ⟨kept.1.symm.trans valid, same.symm.trans gen, kept.2⟩

def Current (s : System n) (tid : Fin n) : Prop :=
  match (s.threads tid).frames with
  | [] => (s.threads tid).pid = 0 ∧ (s.threads tid).mmPhys = 1
  | frame :: _ => (s.threads tid).pid = frame.pid ∧ (s.threads tid).mmPhys = (s.tables.life frame.pid).mmPhys

theorem Sound.current (sound : s.Sound) (tid : Fin n) : s.Current tid := by
  have linked := sound.linked tid
  unfold Current
  split
  · rename_i frames
    rw [frames] at linked
    exact linked
  · rename_i frames
    rw [frames] at linked
    exact ⟨linked.1, linked.2.1⟩

theorem Sound.cleans (sound : s.Sound) (effect : Effect s s' tid action) {pid : Pid}
    (valid : (s.tables.life pid).valid = true) :
    (s'.tables.life pid).valid = false ↔ action = .callret ∧
      (∃ frame frames, (s.threads tid).frames = frame :: frames ∧ frame.pid = pid) ∧
      s.calls pid = 1 ∧ (s.tables.life pid).exitflag = true := by
  have running := sound.running pid
  have called : ∀ frame frames, (s.threads tid).frames = frame :: frames → 0 < s.calls frame.pid :=
    fun frame frames inside => s.calls_pos (inside ▸ List.mem_cons_self)
  cases effect with
  | kept births lives stays =>
    rw [(lives pid).1]
    refine ⟨fun gone => absurd (valid.symm.trans gone) (by simp), ?_⟩
    rintro ⟨ret, ⟨frame, frames, inside, rfl⟩, one, exits⟩
    exact absurd ⟨by omega, exits⟩ (stays frame frames ret inside)
  | created other life ret invalid gen lives births =>
    have differs : pid ≠ other := by
      intro same
      rw [same, invalid] at valid
      exact Bool.false_ne_true valid
    rw [lives, update_of_ne differs]
    exact ⟨fun gone => absurd (valid.symm.trans gone) (by simp), fun cleans => absurd cleans.1 ret⟩
  | cleaned frame frames ret inside last lives births =>
    by_cases same : frame.pid = pid
    · rw [lives, same, update_self]
      have one := called frame frames inside
      rw [same] at one last
      exact iff_of_true rfl ⟨ret, ⟨frame, frames, inside, same⟩, by omega, last.2⟩
    · rw [lives, update_of_ne (Ne.symm same)]
      refine ⟨fun gone => absurd (valid.symm.trans gone) (by simp), ?_⟩
      rintro ⟨-, ⟨frame', frames', inside', same'⟩, -⟩
      rw [inside] at inside'
      rw [(List.cons.inj inside').1] at same
      exact absurd same' same

end System

/-- Descriptors and names in every run of calls in which no generation number gets to 2147483647:
a name is of a live incarnation and there once; the count of a process is that of its running calls,
and it has such calls while it has exited but is not cleaned up; each thread is in the address space of
its innermost call; a message gets only to the incarnation that its descriptor has always named. A step
that ends or creates an incarnation makes the number larger; and a process is cleaned up just by the
return from its last call after it has exited. -/
theorem incarnations_kept {n : Nat} {events : List (Fin n × Action)} {s : System n}
    (run : Run System.Step (System.initial n) events s) :
    (∀ d ∈ s.tables.msgDataUsed, (s.tables.life d.pid).valid = true ∧ (s.tables.life d.pid).gen = d.gen) ∧
    (s.tables.msgDataUsed.map MsgData.name).Nodup ∧
    (∀ pid, (s.tables.life pid).running = s.calls pid ∧
      ((s.tables.life pid).valid = true → (s.tables.life pid).exitflag = true → 0 < s.calls pid)) ∧
    (∀ tid, s.Current tid) ∧
    (∀ target later events', s.Holds target → Run System.Step s events' later →
      later.tables.Delivers target → (s.tables.life target.pid).valid = true ∧
        (s.tables.life target.pid).gen = target.gen ∧
        later.births target.pid = s.births target.pid) ∧
    ∀ tid action s', System.Step s (tid, action) s' → ∀ pid,
      ((s'.tables.life pid).valid ≠ (s.tables.life pid).valid ∨ s'.births pid ≠ s.births pid →
        (s.tables.life pid).gen < (s'.tables.life pid).gen) ∧
      ((s.tables.life pid).valid = true → ((s'.tables.life pid).valid = false ↔ action = .callret ∧
        (∃ frame frames, (s.threads tid).frames = frame :: frames ∧ frame.pid = pid) ∧
        s.calls pid = 1 ∧ (s.tables.life pid).exitflag = true)) := by
  have sound := System.sound_run run (System.sound_initial n)
  refine ⟨sound.live, sound.unique, fun pid => ⟨sound.running pid, sound.exiting pid⟩, sound.current, ?_, ?_⟩
  · intro target later events' holds next delivers
    exact sound.delivers holds (System.follows_run next sound) delivers
  · intro tid action s' step pid
    have effect := (sound.step step.2 step.1).2
    have follows := effect.follows sound
    refine ⟨fun changed => ?_, fun valid => sound.cleans effect valid⟩
    refine lt_of_le_of_ne (follows.grows pid) fun equal => ?_
    have same := follows.same pid equal.symm
    rcases changed with lives | born
    · exact lives same.1
    · exact born same.2

def sampleProgram : Builtin := ⟨[], 0, 1, by decide⟩

/-- The kernel creates a process. -/
theorem incarnations_kept_sample :
    ∃ s, Run System.Step (System.initial 1) [(0, .processNew 0 0 sampleProgram)] s ∧
      (∀ pid, (s.tables.life pid).running = s.calls pid) ∧ ∀ tid, s.Current tid := by
  obtain ⟨s, step⟩ : ∃ s, (System.initial 1).step 0 (.processNew 0 0 sampleProgram) = some s := ⟨_, rfl⟩
  have small : (System.initial 1).Small := fun _ => by
    simp [System.initial, Tables.processInitGlobal, Tables.life, ProcessData.life]
  have run : Run System.Step (System.initial 1) [(0, .processNew 0 0 sampleProgram)] s := .cons ⟨step, small⟩ (.nil _)
  have kept := incarnations_kept run
  exact ⟨s, run, fun pid => (kept.2.2.1 pid).1, kept.2.2.2.1⟩

/-!
Processes that come and go until a generation number overflows.
-/

def oneLife : List (Fin 1 × Action) :=
  [(0, .processNew 0 0 sampleProgram), (0, .msgopen2), (0, .readMsgdsc 0 0), (0, .callMsgfunc1 true),
    (0, .exitprocess), (0, .callret), (0, .msgclose 0 0)]

structure Stage (s : System 1) (thread : Thread) (life : Life) (func : UInt64) (target : Target) :
    Prop where
  thread : s.threads 0 = thread
  life : s.tables.life 1 = life
  func : ((s.tables.process 1).msgdsc 0).func = func
  target : ((s.tables.process 0).msgdsc 0).target = target

variable {s : System 1} {life : Life} {func : UInt64} {target : Target}

def kernelThread (held : Held) : Thread := ⟨0, [], 1, held⟩

def userThread (mmPhys : Nat) : Thread := ⟨1, [⟨1, 0, 1⟩], mmPhys, .nothing⟩

theorem processNew_free {t : Tables} (free : (t.process 1).valid = false) :
    t.processNew 0 sampleProgram = some (1, increment (t.process 1).gen,
      t.setProcess 1 { Tables.newProcess (t.process 1) 0 sampleProgram with
        msgdsc := update clearmsgdsc 0 ⟨0, 0, 0, 1⟩ }) := by
  have numbers : List.finRange 32 = 0 :: 1 :: (List.finRange 32).drop 2 := rfl
  have first : (List.finRange 32).find? (fun pid => pid ≠ 0 ∧ ¬(t.process pid).valid) = some 1 := by
    rw [numbers, List.find?_cons_of_neg (by simp), List.find?_cons_of_pos (by simp [free])]
  unfold Tables.processNew
  rw [first]
  simp [sampleProgram, Tables.setMsgdsc, Tables.setProcess, Tables.newProcess, clearmsgdsc]

theorem msgopen2_unused {t : Tables} (unused : ((t.process 0).msgdsc 0).unused = true)
    (target : Target) : (t.msgopen2 0 target.pid target.gen target.dsc).2 = t.setMsgdsc 0 0
      { (t.process 0).msgdsc 0 with pid := target.pid, gen := target.gen, dsc := target.dsc } := by
  have numbers : List.finRange 32 = 0 :: (List.finRange 32).drop 1 := rfl
  have first : t.unusedMsgdsc 0 32 = some 0 := by
    unfold Tables.unusedMsgdsc
    rw [numbers, List.find?_cons_of_pos (by simp [unused])]
  unfold Tables.msgopen2
  rw [first]

namespace Stage

theorem processNew (stage : Stage s (kernelThread .nothing) life func target) (free : life.valid = false) :
    ∃ s', s.step 0 (.processNew 0 0 sampleProgram) = some s' ∧
      Stage s' (kernelThread (.toOpen 0 ⟨1, increment life.gen, 0⟩))
        ⟨true, increment life.gen, 0, false, 0⟩ 1 target := by
  obtain ⟨thread, lives, -, first⟩ := stage
  have invalid : (s.tables.process 1).valid = false := (congrArg Life.valid lives).trans free
  have gen : (s.tables.process 1).gen = life.gen := congrArg Life.gen lives
  simp only [System.step, thread, kernelThread, System.act, Thread.Acts, true_or, if_true, processNew_free invalid, gen]
  refine ⟨_, rfl, ?_, ?_, ?_, ?_⟩
  · simp [System.set, System.setThread, thread, kernelThread]
  · change (s.tables.setProcess 1 _).life 1 = _
    rw [Tables.life_setProcess, update_self]
    simp [ProcessData.life, Tables.newProcess, gen]
  · change ((Tables.process (s.tables.setProcess 1 _) 1).msgdsc 0).func = 1
    rw [Tables.setProcess_same]
    simp
  · change ((Tables.process (s.tables.setProcess 1 _) 0).msgdsc 0).target = target
    rw [Tables.setProcess_other _ (by decide)]
    exact first

theorem setMsgdsc {thread : Thread} {m : MsgdscData} (held : Held) (stage : Stage s thread life func target) :
    Stage (s.set (s.tables.setMsgdsc 0 0 m) 0 held) { thread with held } life func m.target := by
  obtain ⟨first, lives, start, -⟩ := stage
  refine ⟨?_, ?_, ?_, ?_⟩
  · simp [System.set, System.setThread, first]
  · change (s.tables.setMsgdsc 0 0 m).life 1 = life
    rw [Tables.life_setMsgdsc]
    exact lives
  · change ((Tables.process (s.tables.setProcess 0 _) 1).msgdsc 0).func = func
    rw [Tables.setProcess_other _ (by decide)]
    exact start
  · change ((Tables.process (s.tables.setProcess 0 _) 0).msgdsc 0).target = m.target
    rw [Tables.setProcess_same]
    simp

theorem msgopen2 {dsc : Desc} (stage : Stage s (kernelThread (.toOpen 0 target)) life func ⟨0, 0, dsc⟩) :
    ∃ s', s.step 0 .msgopen2 = some s' ∧ Stage s' (kernelThread .nothing) life func target := by
  have unused : ((s.tables.process 0).msgdsc 0).unused = true := by
    have first := stage.target
    simp only [MsgdscData.target, Target.mk.injEq] at first
    simp [MsgdscData.unused, first]
  simp only [System.step, stage.thread, kernelThread, msgopen2_unused unused]
  exact ⟨_, rfl, stage.setMsgdsc .nothing⟩

theorem readMsgdsc (stage : Stage s (kernelThread .nothing) life func target) :
    ∃ s', s.step 0 (.readMsgdsc 0 0) = some s' ∧ Stage s' (kernelThread (.toSend target)) life func target := by
  obtain ⟨thread, lives, start, first⟩ := stage
  simp only [System.step, thread, kernelThread, System.act, Thread.Acts, true_or, if_true, first]
  refine ⟨_, rfl, ?_, lives, start, first⟩
  simp [System.set, System.setThread, thread, kernelThread]

theorem setProcess {thread : Thread} {p : ProcessData} (stage : Stage s thread life func target)
    (thread' : Thread) (same : p.msgdsc = (s.tables.process 1).msgdsc) :
    Stage ({ s with tables := s.tables.setProcess 1 p }.setThread 0 thread') thread' p.life func target := by
  obtain ⟨-, -, start, first⟩ := stage
  refine ⟨?_, ?_, ?_, ?_⟩
  · simp [System.setThread]
  · change (s.tables.setProcess 1 p).life 1 = p.life
    rw [Tables.life_setProcess, update_self]
  · change ((Tables.process (s.tables.setProcess 1 p) 1).msgdsc 0).func = func
    rw [Tables.setProcess_same, same]
    exact start
  · change ((Tables.process (s.tables.setProcess 1 p) 0).msgdsc 0).target = target
    rw [Tables.setProcess_other _ (by decide)]
    exact first

variable {gen : Int} {mmPhys : Nat}

theorem callMsgfunc1 {exitflag : Bool} {running : Nat}
    (stage : Stage s (kernelThread (.toSend ⟨1, gen, 0⟩)) ⟨true, gen, running, exitflag, mmPhys⟩ 1 target) :
    ∃ s', s.step 0 (.callMsgfunc1 true) = some s' ∧
      Stage s' (userThread mmPhys) ⟨true, gen, running + 1, exitflag, mmPhys⟩ 1 target := by
  have lives := stage.life
  simp only [Tables.life, ProcessData.life, Life.mk.injEq] at lives
  have delivers : s.tables.Delivers ⟨1, gen, 0⟩ := by
    refine ⟨lives.1, lives.2.1, ?_⟩
    rw [stage.func]
    decide
  have user : (1 : Pid) ≠ 0 := by decide
  simp only [System.step, stage.thread, kernelThread, System.call, delivers, not_true, if_false, user,
    Bool.not_true, Bool.false_eq_true]
  refine ⟨_, rfl, ?_⟩
  have next := stage.setProcess (userThread mmPhys)
    (p := { s.tables.process 1 with running := (s.tables.process 1).running + 1 }) rfl
  simp only [ProcessData.life, lives] at next
  simpa [userThread, lives, Tables.enter] using next

theorem exitprocess {exitflag : Bool} {running : Nat}
    (stage : Stage s (userThread mmPhys) ⟨true, gen, running, exitflag, mmPhys⟩ func target) :
    ∃ s', s.step 0 .exitprocess = some s' ∧
      Stage s' (userThread mmPhys) ⟨true, gen, running, true, mmPhys⟩ func target := by
  have lives := stage.life
  simp only [Tables.life, ProcessData.life, Life.mk.injEq] at lives
  simp only [System.step, stage.thread, userThread, System.act, List.cons_ne_self, reduceCtorEq, if_false]
  refine ⟨_, rfl, ?_⟩
  have next := stage.setProcess (userThread mmPhys) (p := { s.tables.process 1 with exitflag := true }) rfl
  have same : ({ s.tables.process 1 with exitflag := true } : ProcessData).life =
      ⟨true, gen, running, true, mmPhys⟩ := by simp [ProcessData.life, lives]
  rw [same] at next
  simpa [System.set, stage.thread, userThread, Tables.setExitflag] using next

theorem callret (stage : Stage s (userThread mmPhys) ⟨true, gen, 1, true, mmPhys⟩ func target) :
    ∃ s', s.step 0 .callret = some s' ∧
      Stage s' (kernelThread .nothing) ⟨false, increment gen, 0, true, mmPhys⟩ func target := by
  obtain ⟨thread, lives, start, first⟩ := stage
  simp only [System.step, thread, userThread, System.act]
  refine ⟨_, rfl, ?_, ?_, ?_, ?_⟩
  · simp [System.setThread, kernelThread]
  · change (s.tables.leave 1).life 1 = _
    rcases s.tables.leave_cases 1 with ⟨stays, -⟩ | ⟨-, cleaned, -⟩
    · simp [lives] at stays
    · rw [cleaned, update_self, lives]
  · change (((s.tables.leave 1).process 1).msgdsc 0).func = func
    rw [← start]
    simp only [Tables.leave, Tables.cleanupExited, Tables.cleanup, Tables.msgUnregisterall]
    split
    · simp [Tables.setProcess]
    · simp [Tables.setProcess]
  · change (((s.tables.leave 1).process 0).msgdsc 0).target = target
    rw [← first]
    simp only [Tables.leave, Tables.cleanupExited, Tables.cleanup, Tables.msgUnregisterall]
    split
    · simp [Tables.setProcess]
    · simp [Tables.setProcess]

theorem msgclose (stage : Stage s (kernelThread .nothing) life func target) :
    ∃ s', s.step 0 (.msgclose 0 0) = some s' ∧ Stage s' (kernelThread .nothing) life func ⟨0, 0, target.dsc⟩ := by
  simp only [System.step, stage.thread, kernelThread, System.act, Thread.Acts, true_or, if_true]
  refine ⟨_, rfl, ?_⟩
  have next := stage.setMsgdsc .nothing (m := { (s.tables.process 0).msgdsc 0 with pid := 0, gen := 0 })
  rw [← stage.target]
  exact next

end Stage

def Idle (s : System 1) (gen : Int) : Prop :=
  ∃ running exitflag mmPhys func dsc,
    Stage s (kernelThread .nothing) ⟨false, gen, running, exitflag, mmPhys⟩ func ⟨0, 0, dsc⟩

theorem idle_initial : Idle (System.initial 1) 1 := ⟨0, false, 0, 0, 0, rfl, rfl, rfl, rfl⟩

def AnyStep {n : Nat} (s : System n) (event : Fin n × Action) (s' : System n) : Prop := s.step event.1 event.2 = some s'

theorem oneLife_run (idle : Idle s gen) : ∃ s', Run AnyStep s oneLife s' ∧ Idle s' (increment (increment gen)) := by
  obtain ⟨running, exitflag, mmPhys, func, dsc, stage⟩ := idle
  obtain ⟨s₁, created, stage⟩ := stage.processNew rfl
  obtain ⟨s₂, opened, stage⟩ := stage.msgopen2
  obtain ⟨s₃, read, stage⟩ := stage.readMsgdsc
  obtain ⟨s₄, called, stage⟩ := stage.callMsgfunc1
  obtain ⟨s₅, exited, stage⟩ := stage.exitprocess
  obtain ⟨s₆, left, stage⟩ := stage.callret
  obtain ⟨s₇, closed, stage⟩ := stage.msgclose
  refine ⟨s₇, ?_, _, _, _, _, _, stage⟩
  exact .cons created (.cons opened (.cons read (.cons called (.cons exited (.cons left (.cons closed (.nil _)))))))

theorem lives_run (count : Nat) (few : 1 + 2 * count ≤ 2147483647) :
    ∃ events s, Run AnyStep (System.initial 1) events s ∧ Idle s (1 + 2 * count : Nat) := by
  induction count with
  | zero => exact ⟨[], _, .nil _, idle_initial⟩
  | succ count ih =>
    obtain ⟨events, s, run, idle⟩ := ih (by omega)
    obtain ⟨s', next, idle'⟩ := oneLife_run idle
    refine ⟨events ++ oneLife, s', run.append next, ?_⟩
    have first : increment (1 + 2 * count : Nat) = (2 + 2 * count : Nat) := by
      unfold increment
      rw [if_neg (by omega)]
      omega
    have second : increment (2 + 2 * count : Nat) = (1 + 2 * (count + 1) : Nat) := by
      unfold increment
      rw [if_neg (by omega)]
      omega
    rw [first, second] at idle'
    exact idle'

/-- After 1073741823 lives of process 1 the next one gets a smaller generation number. -/
theorem incarnations_break :
    ¬∀ (events : List (Fin 1 × Action)) (s s' : System 1) (tid : Fin 1) (action : Action),
      Run AnyStep (System.initial 1) events s → s.step tid action = some s' → ∀ pid,
        (s'.tables.life pid).valid ≠ (s.tables.life pid).valid →
          (s.tables.life pid).gen < (s'.tables.life pid).gen := by
  intro all
  obtain ⟨events, s, run, idle⟩ := lives_run 1073741823 (by decide)
  obtain ⟨running, exitflag, mmPhys, func, dsc, stage⟩ := idle
  obtain ⟨s', created, next⟩ := stage.processNew rfl
  have grows := all events s s' 0 _ run created 1
  rw [stage.life, next.life] at grows
  have larger := grows (by simp)
  simp only at larger
  exact absurd larger (by decide)

end DisasVisor.Process
