import DisasVisor.Process.Lives

/-!
What holds of processes, names, descriptors and calls between any two sections, as long as no
generation number overflows.
-/

namespace DisasVisor.Process

open Function List

def Linked (t : Tables) : Pid → Nat → List Frame → Prop
  | pid, mm, [] => pid = 0 ∧ mm = 1
  | pid, mm, frame :: frames =>
    pid = frame.pid ∧ mm = (t.life frame.pid).mmPhys ∧ Linked t frame.oldpid frame.mmPhys frames

def Held.target : Held → Option Target
  | .nothing => none
  | .toOpen _ target => some target
  | .toSend target => some target

def callsIn (frames : List Frame) (pid : Pid) : Nat := frames.countP fun frame => frame.pid = pid

namespace System

variable {n : Nat} (s : System n)

def calls (pid : Pid) : Nat := ∑ tid, callsIn (s.threads tid).frames pid

def Holds (target : Target) : Prop :=
  s.tables.HasTarget target ∨ (∃ d ∈ s.tables.msgDataUsed, d.target = target) ∨
    ∃ tid, (s.threads tid).held.target = some target

def Dated (target : Target) : Prop := target.pid ≠ 0 → target.gen ≤ (s.tables.life target.pid).gen

structure Sound : Prop where
  live : ∀ d ∈ s.tables.msgDataUsed, (s.tables.life d.pid).valid = true ∧ (s.tables.life d.pid).gen = d.gen
  unique : (s.tables.msgDataUsed.map MsgData.name).Nodup
  running : ∀ pid, (s.tables.life pid).running = s.calls pid
  called : ∀ tid, ∀ frame ∈ (s.threads tid).frames, frame.pid ≠ 0 ∧ (s.tables.life frame.pid).valid = true
  linked : ∀ tid, Linked s.tables (s.threads tid).pid (s.threads tid).mmPhys (s.threads tid).frames
  dated : ∀ target, s.Holds target → s.Dated target
  positive : ∀ pid, 1 ≤ (s.tables.life pid).gen
  kernel : (s.tables.life 0).valid = true ∧ (s.tables.life 0).exitflag = false
  exiting : ∀ pid, (s.tables.life pid).valid = true → (s.tables.life pid).exitflag = true → 0 < s.calls pid

theorem sound_initial (n : Nat) : (initial n).Sound where
  live := fun d member => absurd member not_mem_nil
  unique := nodup_nil
  running := fun pid => by
    unfold calls
    exact (Finset.sum_eq_zero fun tid _ => rfl).symm
  called := fun tid frame member => absurd member not_mem_nil
  linked := fun tid => ⟨rfl, rfl⟩
  dated := by
    rintro target (⟨who, desc, rfl⟩ | ⟨d, member, -⟩ | ⟨tid, holds⟩)
    · exact fun other => absurd rfl other
    · exact absurd member not_mem_nil
    · exact absurd holds (by simp [initial, Held.target])
  positive := fun pid => le_refl 1
  kernel := ⟨rfl, rfl⟩
  exiting := fun pid _ exits => absurd exits Bool.false_ne_true

variable {s} {tid : Fin n} {t' : Tables} {held : Held}

theorem threads_set (s : System n) (t' : Tables) (tid : Fin n) (held : Held) (other : Fin n) :
    ((s.set t' tid held).threads other).frames =
    (s.threads other).frames ∧ ((s.set t' tid held).threads other).pid = (s.threads other).pid ∧
    ((s.set t' tid held).threads other).mmPhys = (s.threads other).mmPhys := by
  unfold set setThread
  by_cases same : other = tid
  · rw [same]
    simp only [update_self, and_self]
  · simp only [update_of_ne same, and_self]

theorem calls_set (pid : Pid) : (s.set t' tid held).calls pid = s.calls pid := by
  unfold calls
  simp only [threads_set]

theorem held_set {other : Fin n} {target : Target}
    (holds : ((s.set t' tid held).threads other).held.target = some target) :
    held.target = some target ∨ (s.threads other).held.target = some target := by
  unfold set setThread at holds
  by_cases same : other = tid
  · rw [same] at holds
    simp only [update_self] at holds
    exact .inl holds
  · simp only [update_of_ne same] at holds
    exact .inr holds

theorem Linked.congr {t t' : Tables} {frames : List Frame}
    (same : ∀ frame ∈ frames, (t'.life frame.pid).mmPhys = (t.life frame.pid).mmPhys) :
    ∀ {pid : Pid} {mm : Nat}, Linked t pid mm frames → Linked t' pid mm frames := by
  induction frames with
  | nil => exact id
  | cons frame frames ih =>
    intro pid mm linked
    obtain ⟨number, space, rest⟩ := linked
    refine ⟨number, ?_, ih (fun other member => same other (mem_cons_of_mem _ member)) rest⟩
    rw [same frame mem_cons_self]
    exact space

theorem Sound.set (sound : s.Sound) (life : t'.life = s.tables.life)
    (live : ∀ d ∈ t'.msgDataUsed, (s.tables.life d.pid).valid = true ∧ (s.tables.life d.pid).gen = d.gen)
    (unique : (t'.msgDataUsed.map MsgData.name).Nodup)
    (targets : ∀ target, t'.HasTarget target → s.Dated target)
    (reads : ∀ target, held.target = some target → s.Dated target) :
    (s.set t' tid held).Sound where
  live := fun d member => by
    have lives := live d member
    rw [← life] at lives
    exact lives
  unique := unique
  running := fun pid => by
    rw [calls_set]
    exact (congrArg Life.running (congrFun life pid)).trans (sound.running pid)
  called := fun other frame member => by
    rw [(threads_set s _ tid _ other).1] at member
    have lives := sound.called other frame member
    rw [← life] at lives
    exact lives
  linked := fun other => by
    obtain ⟨frames, pid, mm⟩ := threads_set s t' tid held other
    rw [frames, pid, mm]
    refine Linked.congr (fun frame _ => ?_) (sound.linked other)
    exact congrArg Life.mmPhys (congrFun life frame.pid)
  dated := by
    have dates : ∀ target, s.Dated target → (s.set t' tid held).Dated target := by
      intro target dated other
      have before := dated other
      rw [← life] at before
      exact before
    rintro target (has | ⟨d, member, rfl⟩ | ⟨other, holds⟩)
    · exact dates target (targets target has)
    · exact dates d.target fun _ => (live d member).2.symm.le
    · rcases held_set holds with new | old
      · exact dates target (reads target new)
      · exact dates target (sound.dated target (.inr (.inr ⟨other, old⟩)))
  positive := fun pid => by
    have lives := sound.positive pid
    rw [← life] at lives
    exact lives
  kernel := by
    have lives := sound.kernel
    rw [← life] at lives
    exact lives
  exiting := fun pid => by
    rw [calls_set]
    have lives := sound.exiting pid
    rw [← life] at lives
    exact lives

structure Moved (s s' : System n) (tid : Fin n) (tables : Tables) (thread : Thread) : Prop where
  tables : s'.tables = tables
  own : s'.threads tid = thread
  others : ∀ other, other ≠ tid → s'.threads other = s.threads other

theorem moved_setThread (tables : Tables) (thread : Thread) :
    Moved s ({ s with tables }.setThread tid thread) tid tables thread where
  tables := rfl
  own := by
    unfold setThread
    exact update_self ..
  others := fun other differs => by
    unfold setThread
    exact update_of_ne differs ..

variable {s' : System n} {who : Pid}

theorem Moved.count {thread : Thread} (moved : Moved s s' tid t' thread) (pid : Pid) :
    s'.calls pid + callsIn (s.threads tid).frames pid = s.calls pid + callsIn thread.frames pid := by
  have before := Finset.sum_eq_add_sum_sdiff_singleton_of_mem (Finset.mem_univ tid)
    fun other => callsIn (s.threads other).frames pid
  have after := Finset.sum_eq_add_sum_sdiff_singleton_of_mem (Finset.mem_univ tid)
    fun other => callsIn (s'.threads other).frames pid
  have rest : ∑ other ∈ Finset.univ \ {tid}, callsIn (s'.threads other).frames pid =
      ∑ other ∈ Finset.univ \ {tid}, callsIn (s.threads other).frames pid := by
    apply Finset.sum_congr rfl
    intro other member
    have differs : other ≠ tid := by simpa using member
    rw [moved.others other differs]
  unfold calls
  rw [before, after, rest, moved.own]
  omega

theorem callsIn_le_calls (s : System n) (tid : Fin n) (pid : Pid) :
    callsIn (s.threads tid).frames pid ≤ s.calls pid := by
  have split := Finset.sum_eq_add_sum_sdiff_singleton_of_mem (Finset.mem_univ tid)
    fun other => callsIn (s.threads other).frames pid
  unfold calls
  rw [split]
  exact Nat.le_add_right _ _

theorem calls_pos (s : System n) {tid : Fin n} {frame : Frame}
    (member : frame ∈ (s.threads tid).frames) : 0 < s.calls frame.pid := by
  have one : 0 < callsIn (s.threads tid).frames frame.pid := by
    rw [callsIn, countP_pos_iff]
    exact ⟨frame, member, by simp⟩
  exact one.trans_le (s.callsIn_le_calls tid frame.pid)

theorem Sound.change (sound : s.Sound) {p : Pid} {life : Life}
    (lives : s'.tables.life = update s.tables.life p life) (grows : (s.tables.life p).gen ≤ life.gen)
    (names : s'.tables.msgDataUsed.Sublist s.tables.msgDataUsed) (live : ∀ d ∈ s'.tables.msgDataUsed, d.pid = p →
      life.valid = true ∧ life.gen = (s.tables.life p).gen) (own : life.running = s'.calls p)
    (others : ∀ pid, pid ≠ p → s'.calls pid = s.calls pid) (called : ∀ tid, ∀ frame ∈ (s'.threads tid).frames,
      frame.pid ≠ 0 ∧ (s'.tables.life frame.pid).valid = true) (linked : ∀ tid,
      Linked s'.tables (s'.threads tid).pid (s'.threads tid).mmPhys (s'.threads tid).frames)
    (targets : ∀ target, s'.tables.HasTarget target → s.Dated target)
    (reads : ∀ tid target, (s'.threads tid).held.target = some target →
      s.Dated target ∨ target.pid = p ∧ target.gen ≤ life.gen)
    (kernel : p = 0 → life.valid = true ∧ life.exitflag = false)
    (exiting : life.valid = true → life.exitflag = true → 0 < s'.calls p) : s'.Sound := by
  have same : s'.tables.life p = life := by rw [lives, update_self]
  have other : ∀ pid, pid ≠ p → s'.tables.life pid = s.tables.life pid := by
    intro pid differs
    rw [lives, update_of_ne differs]
  have dates : ∀ target, s.Dated target → s'.Dated target := by
    intro target dated user
    by_cases at' : target.pid = p
    · have before := dated user
      rw [at'] at before ⊢
      rw [same]
      exact before.trans grows
    · rw [other target.pid at']
      exact dated user
  have liveHere : ∀ d ∈ s'.tables.msgDataUsed,
      (s'.tables.life d.pid).valid = true ∧ (s'.tables.life d.pid).gen = d.gen := by
    intro d member
    have before := sound.live d (names.subset member)
    by_cases at' : d.pid = p
    · have here := live d member at'
      rw [at'] at before ⊢
      rw [same]
      exact ⟨here.1, here.2.trans before.2⟩
    · rw [other d.pid at']
      exact before
  refine ⟨liveHere, (names.map MsgData.name).nodup sound.unique, ?_, called, linked, ?_, ?_, ?_, ?_⟩
  · intro pid
    by_cases at' : pid = p
    · rw [at', same]
      exact own
    · rw [other pid at', others pid at']
      exact sound.running pid
  · rintro target (has | ⟨d, member, rfl⟩ | ⟨tid, holds⟩)
    · exact dates target (targets target has)
    · exact fun _ => (liveHere d member).2.symm.le
    · rcases reads tid target holds with old | ⟨at', new⟩
      · exact dates target old
      · intro _
        rw [at', same]
        exact new
  · intro pid
    by_cases at' : pid = p
    · rw [at', same]
      exact (sound.positive p).trans grows
    · rw [other pid at']
      exact sound.positive pid
  · by_cases at' : (0 : Pid) = p
    · rw [at', same]
      exact kernel at'.symm
    · rw [other 0 at']
      exact sound.kernel
  · intro pid valid exits
    by_cases at' : pid = p
    · rw [at', same] at valid exits
      rw [at']
      exact exiting valid exits
    · rw [other pid at'] at valid exits
      rw [others pid at']
      exact sound.exiting pid valid exits

theorem Sound.acts_valid (sound : s.Sound) (acts : (s.threads tid).Acts who) : (s.tables.life who).valid = true := by
  rcases acts with kernel | ⟨inside, own⟩
  · rw [kernel]
    exact sound.kernel.1
  · have linked := sound.linked tid
    have called := sound.called tid
    cases frames : (s.threads tid).frames with
    | nil => exact absurd frames inside
    | cons frame rest =>
      rw [frames] at linked called
      rw [own, linked.1]
      exact (called frame mem_cons_self).2

theorem Sound.targets (sound : s.Sound) (target : Target) (has : s.tables.HasTarget target) :
    s.Dated target := sound.dated target (.inl has)

theorem dated_kernel {target : Target} (kernel : target.pid = 0) : s.Dated target := fun other => absurd kernel other

theorem Sound.writes (sound : s.Sound) (life : t'.life = s.tables.life)
    (names : t'.msgDataUsed = s.tables.msgDataUsed) (targets : ∀ target, t'.HasTarget target → s.Dated target)
    (reads : ∀ target, held.target = some target → s.Dated target) : (s.set t' tid held).Sound := by
  refine sound.set life ?_ ?_ targets reads
  · rw [names]
    exact sound.live
  · rw [names]
    exact sound.unique

theorem reads_nothing {target : Target} (holds : Held.nothing.target = some target) : s.Dated target :=
  absurd holds (by simp [Held.target])

theorem Sound.msgregister (sound : s.Sound) (acts : (s.threads tid).Acts who) (name : Name) (func : UInt64)
    (short : name.length ≤ 15) : (s.set (s.tables.msgregister who name func).2 tid .nothing).Sound := by
  have life : (s.tables.msgregister who name func).2.life = s.tables.life := Tables.life_msgregister name func
  have targets : ∀ target, (s.tables.msgregister who name func).2.HasTarget target → s.Dated target :=
    fun target has => sound.targets target (Tables.hasTarget_msgregister has)
  have names : (s.tables.msgregister who name func).2.msgDataUsed = s.tables.msgDataUsed ∨
      name ∉ s.tables.msgDataUsed.map MsgData.name ∧
        ∃ desc, (s.tables.msgregister who name func).2.msgDataUsed =
          s.tables.msgDataUsed ++ [⟨name, who, (s.tables.process who).gen, desc⟩] :=
    Tables.names_msgregister func short
  rcases names with same | ⟨new, desc, more⟩
  · exact sound.writes life same targets fun _ holds => reads_nothing holds
  · refine sound.set life ?_ ?_ targets fun _ holds => reads_nothing holds
    · rw [more]
      intro d member
      rcases mem_append.mp member with old | last
      · exact sound.live d old
      · rw [mem_singleton.mp last]
        exact ⟨sound.acts_valid acts, rfl⟩
    · rw [more, map_append, map_singleton, nodup_append_comm]
      exact nodup_cons.mpr ⟨new, sound.unique⟩

theorem Sound.msgUnregister2 (sound : s.Sound) (who : Pid) (desc : Desc) :
    (s.set (s.tables.msgUnregister2 who desc).2 tid .nothing).Sound := by
  refine sound.set rfl ?_ ?_ sound.targets fun _ holds => reads_nothing holds
  · exact fun d member => sound.live d (mem_of_mem_filter member)
  · exact (filter_sublist.map MsgData.name).nodup sound.unique

theorem Sound.exitprocess (sound : s.Sound) (inside : (s.threads tid).frames ≠ []) :
    (s.set (s.tables.setExitflag (s.threads tid).pid) tid .nothing).Sound := by
  have linked := sound.linked tid
  have called := sound.called tid
  cases frames : (s.threads tid).frames with
  | nil => exact absurd frames inside
  | cons frame rest =>
    rw [frames] at linked called
    obtain ⟨user, valid⟩ := called frame mem_cons_self
    rw [← linked.1] at user valid
    have counted : 0 < s.calls (s.threads tid).pid := by
      rw [linked.1]
      exact s.calls_pos (frames ▸ mem_cons_self)
    have space : ∀ pid, ((s.tables.setExitflag (s.threads tid).pid).life pid).mmPhys =
        (s.tables.life pid).mmPhys ∧ ((s.tables.setExitflag (s.threads tid).pid).life pid).valid =
        (s.tables.life pid).valid := by
      intro pid
      rw [Tables.life_setExitflag]
      by_cases same : pid = (s.threads tid).pid
      · rw [same, update_self]
        exact ⟨rfl, rfl⟩
      · rw [update_of_ne same]
        exact ⟨rfl, rfl⟩
    refine sound.change Tables.life_setExitflag (le_refl _) (List.Sublist.refl _) ?_ ?_ ?_ ?_ ?_ ?_ ?_ ?_ ?_
    · exact fun d member at' => ⟨at' ▸ (sound.live d member).1, rfl⟩
    · rw [calls_set]
      exact sound.running _
    · exact fun pid _ => calls_set pid
    · intro other frame' member
      rw [(threads_set s _ tid _ other).1] at member
      have before := sound.called other frame' member
      exact ⟨before.1, (space frame'.pid).2.trans before.2⟩
    · intro other
      obtain ⟨frames', pid, mm⟩ := threads_set s (s.tables.setExitflag (s.threads tid).pid) tid .nothing other
      rw [frames', pid, mm]
      exact Linked.congr (fun frame' _ => (space frame'.pid).1) (sound.linked other)
    · intro target has
      exact sound.targets target (Tables.hasTarget_same has rfl)
    · intro other target holds
      rcases held_set holds with new | old
      · exact .inl (reads_nothing new)
      · exact .inl (sound.dated target (.inr (.inr ⟨other, old⟩)))
    · exact fun at' => absurd at' user
    · intro _ _
      rw [calls_set]
      exact counted

def Small (s : System n) : Prop := ∀ pid, (s.tables.life pid).gen < 2147483647

theorem Small.increment (small : s.Small) (pid : Pid) :
    increment (s.tables.life pid).gen = (s.tables.life pid).gen + 1 :=
  if_neg (small pid).ne

theorem Sound.calls_invalid (sound : s.Sound) {pid : Pid}
    (invalid : (s.tables.life pid).valid = false) : s.calls pid = 0 := by
  unfold calls
  apply Finset.sum_eq_zero
  intro tid _
  rw [callsIn, countP_eq_zero]
  intro frame member
  have valid := (sound.called tid frame member).2
  simp only [decide_eq_true_eq]
  intro same
  rw [same, invalid] at valid
  exact Bool.false_ne_true valid

theorem Sound.processNew (sound : s.Sound) (small : s.Small) {result : Pid} {phys : Nat} {bin : Builtin} {gen : Int}
    {births : Pid → Nat} (created : s.tables.processNew phys bin = some (result, gen, t')) :
    { s.set t' tid (.toOpen who ⟨result, gen, 0⟩) with births }.Sound := by
  obtain ⟨pid, user, invalid, number, chosen, names, lives, targets⟩ := Tables.processNew_created created
  rw [small.increment] at number
  have free := sound.calls_invalid invalid
  have elsewhere : ∀ tid, ∀ frame ∈ (s.threads tid).frames, t'.life frame.pid = s.tables.life frame.pid := by
    intro tid frame member
    rw [lives, update_of_ne]
    intro same
    have valid := (sound.called tid frame member).2
    rw [same, invalid] at valid
    exact Bool.false_ne_true valid
  refine sound.change lives (by simp [number]) ?_ ?_ ?_ ?_ ?_ ?_ ?_ ?_ ?_ ?_
  · exact names ▸ List.Sublist.refl _
  · intro d member at'
    have valid := (sound.live d (names ▸ member)).1
    rw [at', invalid] at valid
    exact absurd valid Bool.false_ne_true
  · exact free.symm.trans (calls_set pid).symm
  · exact fun other _ => calls_set other
  · intro other frame member
    rw [show (({ s.set t' tid (.toOpen who ⟨result, gen, 0⟩) with births } : System n).threads other).frames =
      (s.threads other).frames from (threads_set s t' tid _ other).1] at member
    have before := sound.called other frame member
    rw [← elsewhere other frame member] at before
    exact before
  · intro other
    obtain ⟨frames, number', mm⟩ := threads_set s t' tid (.toOpen who ⟨result, gen, 0⟩) other
    change Linked t' ((s.set t' tid (.toOpen who ⟨result, gen, 0⟩)).threads other).pid
      ((s.set t' tid (.toOpen who ⟨result, gen, 0⟩)).threads other).mmPhys
      ((s.set t' tid (.toOpen who ⟨result, gen, 0⟩)).threads other).frames
    rw [frames, number', mm]
    exact Linked.congr (fun frame member => congrArg Life.mmPhys (elsewhere other frame member)) (sound.linked other)
  · intro target has
    rcases targets target has with old | cleared
    · exact sound.targets target old
    · exact dated_kernel cleared.1
  · intro other target holds
    rcases held_set holds with new | old
    · have same : target = ⟨result, gen, 0⟩ := (Option.some.inj new).symm
      rw [same]
      rcases chosen with this' | kernel
      · exact .inr ⟨this', le_refl gen⟩
      · exact .inl (dated_kernel kernel)
    · exact .inl (sound.dated target (.inr (.inr ⟨other, old⟩)))
  · exact fun at' => absurd at' user
  · exact fun _ exits => absurd exits Bool.false_ne_true

theorem Sound.enter (sound : s.Sound) {pid : Pid} (user : pid ≠ 0) (valid : (s.tables.life pid).valid = true)
    (moved : Moved s s' tid (s.tables.enter pid)
      ⟨pid, ⟨pid, (s.threads tid).pid, (s.threads tid).mmPhys⟩ :: (s.threads tid).frames,
        (s.tables.process pid).mmPhys, .nothing⟩) : s'.Sound := by
  have lives : s'.tables.life = update s.tables.life pid
      { s.tables.life pid with running := (s.tables.life pid).running + 1 } := by
    rw [moved.tables]
    exact Tables.life_enter
  have space : ∀ other, (s'.tables.life other).mmPhys = (s.tables.life other).mmPhys ∧
      (s'.tables.life other).valid = (s.tables.life other).valid := by
    intro other
    rw [lives]
    by_cases same : other = pid
    · rw [same, update_self]
      exact ⟨rfl, rfl⟩
    · rw [update_of_ne same]
      exact ⟨rfl, rfl⟩
  have counts : ∀ other, s'.calls other = s.calls other + if pid = other then 1 else 0 := by
    intro other
    have calls := moved.count other
    rw [callsIn, callsIn, countP_cons] at calls
    simp only [decide_eq_true_eq] at calls
    omega
  refine sound.change lives (le_refl _) (moved.tables ▸ List.Sublist.refl _) ?_ ?_ ?_ ?_ ?_ ?_ ?_ ?_ ?_
  · rw [moved.tables]
    exact fun d member at' => ⟨at' ▸ (sound.live d member).1, rfl⟩
  · rw [counts, if_pos rfl]
    exact congrArg (· + 1) (sound.running pid)
  · intro other differs
    rw [counts, if_neg fun same => differs same.symm, Nat.add_zero]
  · intro other frame member
    by_cases same : other = tid
    · rw [same, moved.own] at member
      rcases mem_cons.mp member with rfl | old
      · exact ⟨user, (space pid).2.trans valid⟩
      · have before := sound.called tid frame old
        exact ⟨before.1, (space frame.pid).2.trans before.2⟩
    · rw [moved.others other same] at member
      have before := sound.called other frame member
      exact ⟨before.1, (space frame.pid).2.trans before.2⟩
  · intro other
    by_cases same : other = tid
    · rw [same, moved.own]
      exact ⟨rfl, (space pid).1.symm, Linked.congr (fun frame _ => (space frame.pid).1) (sound.linked tid)⟩
    · rw [moved.others other same]
      exact Linked.congr (fun frame _ => (space frame.pid).1) (sound.linked other)
  · intro target has
    rw [moved.tables] at has
    exact sound.targets target (Tables.hasTarget_same has rfl)
  · intro other target holds
    by_cases same : other = tid
    · rw [same, moved.own] at holds
      exact .inl (reads_nothing holds)
    · rw [moved.others other same] at holds
      exact .inl (sound.dated target (.inr (.inr ⟨other, holds⟩)))
  · exact fun at' => absurd at' user
  · intro _ _
    rw [counts, if_pos rfl]
    exact Nat.succ_pos _

theorem Sound.leave (sound : s.Sound) (small : s.Small) {frame : Frame} {frames : List Frame}
    (inside : (s.threads tid).frames = frame :: frames)
    (moved : Moved s s' tid (s.tables.leave frame.pid) ⟨frame.oldpid, frames, frame.mmPhys, .nothing⟩) : s'.Sound := by
  have linked := sound.linked tid
  obtain ⟨user, valid⟩ := sound.called tid frame (inside ▸ mem_cons_self)
  rw [inside] at linked
  have counts : ∀ other, s'.calls other + (if frame.pid = other then 1 else 0) = s.calls other := by
    intro other
    have calls := moved.count other
    rw [inside, callsIn, callsIn, countP_cons] at calls
    simp only [decide_eq_true_eq] at calls
    omega
  have own := counts frame.pid
  rw [if_pos rfl] at own
  have others : ∀ other, other ≠ frame.pid → s'.calls other = s.calls other := by
    intro other differs
    have kept := counts other
    rw [if_neg fun same => differs same.symm] at kept
    exact kept
  have running := sound.running frame.pid
  have reads : ∀ other target, (s'.threads other).held.target = some target → s.Dated target := by
    intro other target holds
    by_cases same : other = tid
    · rw [same, moved.own] at holds
      exact reads_nothing holds
    · rw [moved.others other same] at holds
      exact sound.dated target (.inr (.inr ⟨other, holds⟩))
  have targets : ∀ target, s'.tables.HasTarget target → s.Dated target := by
    intro target has
    rw [moved.tables] at has
    exact sound.targets target (Tables.hasTarget_leave has)
  have rest : ∀ other, ∀ frame' ∈ (s'.threads other).frames,
      frame'.pid ≠ 0 ∧ (s.tables.life frame'.pid).valid = true := by
    intro other frame' member
    by_cases same : other = tid
    · rw [same, moved.own] at member
      exact sound.called tid frame' (inside ▸ mem_cons_of_mem _ member)
    · rw [moved.others other same] at member
      exact sound.called other frame' member
  have links : (∀ pid, (s'.tables.life pid).mmPhys = (s.tables.life pid).mmPhys) → ∀ other,
      Linked s'.tables (s'.threads other).pid (s'.threads other).mmPhys (s'.threads other).frames := by
    intro space other
    by_cases same : other = tid
    · rw [same, moved.own]
      exact Linked.congr (fun frame' _ => space frame'.pid) linked.2.2
    · rw [moved.others other same]
      exact Linked.congr (fun frame' _ => space frame'.pid) (sound.linked other)
  rcases s.tables.leave_cases frame.pid with ⟨stays, lives, names⟩ | ⟨last, lives, names⟩
  · rw [← moved.tables] at lives names
    have same : ∀ pid, (s'.tables.life pid).mmPhys = (s.tables.life pid).mmPhys ∧
        (s'.tables.life pid).valid = (s.tables.life pid).valid := by
      intro pid
      rw [lives]
      by_cases at' : pid = frame.pid
      · rw [at', update_self]
        exact ⟨rfl, rfl⟩
      · rw [update_of_ne at']
        exact ⟨rfl, rfl⟩
    refine sound.change lives (le_refl _) (names ▸ List.Sublist.refl _) ?_ ?_ others ?_ ?_ targets
      (fun other target holds => .inl (reads other target holds)) (fun at' => absurd at' user) ?_
    · exact fun d member at' => ⟨at' ▸ (sound.live d (names ▸ member)).1, rfl⟩
    · simp only [running]
      omega
    · intro other frame' member
      exact ⟨(rest other frame' member).1, (same frame'.pid).2.trans (rest other frame' member).2⟩
    · exact links fun pid => (same pid).1
    · intro _ exits
      by_contra none'
      refine stays ⟨?_, exits⟩
      omega
  · rw [← moved.tables] at lives names
    have space : ∀ pid, (s'.tables.life pid).mmPhys = (s.tables.life pid).mmPhys := by
      intro pid
      rw [lives]
      by_cases at' : pid = frame.pid
      · rw [at', update_self]
      · rw [update_of_ne at']
    refine sound.change lives ?_ (names ▸ filter_sublist) ?_ ?_ others ?_ (links space) targets
      (fun other target holds => .inl (reads other target holds)) (fun at' => absurd at' user)
      fun alive _ => absurd alive Bool.false_ne_true
    · rw [small.increment]
      exact Int.le_add_one (le_refl _)
    · intro d member at'
      rw [names] at member
      have kept := of_mem_filter member
      simp [at'] at kept
    · simp only
      omega
    · intro other frame' member
      have called := s'.calls_pos member
      have differs : frame'.pid ≠ frame.pid := by
        intro same
        rw [same] at called
        omega
      rw [lives, update_of_ne differs]
      exact rest other frame' member

end System

end DisasVisor.Process
