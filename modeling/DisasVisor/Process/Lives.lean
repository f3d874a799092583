import DisasVisor.Process.Calls

/-!
What the functions of the tables do to the lives of the processes, the names and the descriptors.
-/

namespace DisasVisor.Process

open Function

structure Life where
  valid : Bool
  gen : Int
  running : Nat
  exitflag : Bool
  mmPhys : Nat

def ProcessData.life (p : ProcessData) : Life := ⟨p.valid, p.gen, p.running, p.exitflag, p.mmPhys⟩

namespace Tables

variable (t : Tables)

def life (pid : Pid) : Life := (t.process pid).life

def HasTarget (target : Target) : Prop := ∃ who desc, ((t.process who).msgdsc desc).target = target

variable {t : Tables} {pid who : Pid} {desc : Desc} {m : MsgdscData} {target : Target}

theorem setProcess_same (p : ProcessData) : (t.setProcess pid p).process pid = p := by
  unfold setProcess
  exact update_self ..

theorem setProcess_other (p : ProcessData) (other : who ≠ pid) : (t.setProcess pid p).process who = t.process who := by
  unfold setProcess
  exact update_of_ne other ..

theorem life_setProcess (p : ProcessData) : (t.setProcess pid p).life = update t.life pid p.life := by
  funext other
  by_cases same : other = pid
  · rw [same, update_self]
    exact congrArg ProcessData.life (setProcess_same p)
  · rw [update_of_ne same]
    exact congrArg ProcessData.life (setProcess_other p same)

theorem life_setMsgdsc : (t.setMsgdsc pid desc m).life = t.life := by
  unfold setMsgdsc
  rw [life_setProcess]
  exact Function.update_eq_self pid t.life

theorem hasTarget_setProcess {p : ProcessData} (has : (t.setProcess pid p).HasTarget target) :
    t.HasTarget target ∨ ∃ desc, (p.msgdsc desc).target = target := by
  obtain ⟨who, desc, found⟩ := has
  by_cases same : who = pid
  · rw [same, setProcess_same] at found
    exact .inr ⟨desc, found⟩
  · rw [setProcess_other p same] at found
    exact .inl ⟨who, desc, found⟩

theorem hasTarget_setMsgdsc (has : (t.setMsgdsc pid desc m).HasTarget target) :
    t.HasTarget target ∨ target = m.target := by
  rcases hasTarget_setProcess has with old | ⟨other, found⟩
  · exact .inl old
  · by_cases same : other = desc
    · rw [same] at found
      simp only [update_self] at found
      exact .inr found.symm
    · simp only [update_of_ne same] at found
      exact .inl ⟨pid, other, found⟩

theorem life_msgsetfunc (func : UInt64) : (t.msgsetfunc pid desc func).2.life = t.life := life_setMsgdsc

theorem hasTarget_msgsetfunc {func : UInt64} (has : (t.msgsetfunc pid desc func).2.HasTarget target) :
    t.HasTarget target := by
  rcases hasTarget_setMsgdsc has with old | new
  · exact old
  · exact ⟨pid, desc, new.symm⟩

theorem life_msgclose : (t.msgclose pid desc).life = t.life := life_setMsgdsc

theorem hasTarget_msgclose (has : (t.msgclose pid desc).HasTarget target) :
    t.HasTarget target ∨ target.pid = 0 ∧ target.gen = 0 := by
  rcases hasTarget_setMsgdsc has with old | new
  · exact .inl old
  · rw [new]
    exact .inr ⟨rfl, rfl⟩

theorem life_msgopen2 (mpid : Pid) (mgen : Int) (mdesc : Desc) : (t.msgopen2 pid mpid mgen mdesc).2.life = t.life := by
  unfold msgopen2
  split
  · rfl
  · exact life_setMsgdsc

theorem names_msgopen2 {mpid : Pid} {mgen : Int} {mdesc : Desc} :
    (t.msgopen2 pid mpid mgen mdesc).2.msgDataUsed = t.msgDataUsed := by
  unfold msgopen2
  split
  · rfl
  · rfl

theorem hasTarget_msgopen2 {mpid : Pid} {mgen : Int} {mdesc : Desc}
    (has : (t.msgopen2 pid mpid mgen mdesc).2.HasTarget target) :
    t.HasTarget target ∨ target = ⟨mpid, mgen, mdesc⟩ := by
  unfold msgopen2 at has
  split at has
  · exact .inl has
  · exact hasTarget_setMsgdsc has

theorem life_msgsenddesc (todesc senddesc : Desc) : (t.msgsenddesc pid todesc senddesc).2.life = t.life := by
  unfold msgsenddesc
  dsimp only
  split
  · split
    · rfl
    · exact life_setMsgdsc
  · rfl

theorem names_msgsenddesc {todesc senddesc : Desc} :
    (t.msgsenddesc pid todesc senddesc).2.msgDataUsed = t.msgDataUsed := by
  unfold msgsenddesc
  dsimp only
  split
  · split
    · rfl
    · rfl
  · rfl

theorem hasTarget_msgsenddesc {todesc senddesc : Desc}
    (has : (t.msgsenddesc pid todesc senddesc).2.HasTarget target) : t.HasTarget target := by
  unfold msgsenddesc at has
  dsimp only at has
  split at has
  · split at has
    · exact has
    · rcases hasTarget_setMsgdsc has with old | new
      · exact old
      · exact ⟨pid, senddesc, new.symm⟩
  · exact has

theorem life_msgregister (name : Name) (func : UInt64) : (t.msgregister pid name func).2.life = t.life := by
  unfold msgregister msgRegister
  split
  · rfl
  · cases t.findname name with
    | some d => rfl
    | none => exact life_setMsgdsc

theorem hasTarget_msgregister {name : Name} {func : UInt64}
    (has : (t.msgregister pid name func).2.HasTarget target) : t.HasTarget target := by
  unfold msgregister msgRegister at has
  split at has
  · exact has
  · cases found : t.findname name with
    | some d =>
      rw [found] at has
      exact has
    | none =>
      rw [found] at has
      rcases hasTarget_setMsgdsc has with old | new
      · exact old
      · exact ⟨pid, _, new.symm⟩

theorem names_msgregister {name : Name} (func : UInt64) (short : name.length ≤ 15) :
    (t.msgregister pid name func).2.msgDataUsed = t.msgDataUsed ∨
      name ∉ t.msgDataUsed.map MsgData.name ∧ ∃ desc, (t.msgregister pid name func).2.msgDataUsed =
        t.msgDataUsed ++ [⟨name, pid, (t.process pid).gen, desc⟩] := by
  unfold msgregister msgRegister
  split
  · exact .inl rfl
  · rename_i desc _
    cases found : t.findname name with
    | some d => exact .inl rfl
    | none =>
      right
      refine ⟨?_, desc, ?_⟩
      · intro member
        obtain ⟨d, registered, same⟩ := List.mem_map.mp member
        have differs := List.find?_eq_none.mp found d registered
        simp [same] at differs
      · rw [List.take_of_length_le short]
        rfl

theorem hasTarget_same {p : ProcessData} (has : (t.setProcess pid p).HasTarget target)
    (same : p.msgdsc = (t.process pid).msgdsc) : t.HasTarget target := by
  rcases hasTarget_setProcess has with old | ⟨desc, found⟩
  · exact old
  · rw [same] at found
    exact ⟨pid, desc, found⟩

theorem life_enter : (t.enter pid).life = update t.life pid { t.life pid with running := (t.life pid).running + 1 } :=
  life_setProcess _

theorem life_setExitflag : (t.setExitflag pid).life =
    update t.life pid { t.life pid with exitflag := true } := life_setProcess _

theorem life_cleanup : (t.cleanup pid).life =
    update t.life pid { t.life pid with valid := false, gen := increment (t.life pid).gen } := by
  unfold cleanup msgUnregisterall
  dsimp only
  rw [life_setProcess]
  funext other
  by_cases same : other = pid
  · rw [same, update_self, update_self, setProcess_same]
    rfl
  · rw [update_of_ne same, update_of_ne same]
    exact congrArg ProcessData.life (setProcess_other _ same)

theorem hasTarget_cleanup (has : (t.cleanup pid).HasTarget target) : t.HasTarget target := by
  unfold cleanup msgUnregisterall at has
  dsimp only at has
  have first : (t.setProcess pid { t.process pid with
      gen := increment (t.process pid).gen }).HasTarget target := by
    obtain ⟨who, desc, found⟩ := has
    by_cases same : who = pid
    · rw [same, setProcess_same] at found
      exact ⟨pid, desc, found⟩
    · rw [setProcess_other _ same] at found
      exact ⟨who, desc, found⟩
  exact hasTarget_same first rfl

theorem leave_cases (pid : Pid) :
    (¬((t.life pid).running - 1 = 0 ∧ (t.life pid).exitflag = true) ∧
      (t.leave pid).life = update t.life pid { t.life pid with running := (t.life pid).running - 1 } ∧
      (t.leave pid).msgDataUsed = t.msgDataUsed) ∨
    (((t.life pid).running - 1 = 0 ∧ (t.life pid).exitflag = true) ∧
      (t.leave pid).life = update t.life pid ⟨false, increment (t.life pid).gen, 0, true, (t.life pid).mmPhys⟩ ∧
      (t.leave pid).msgDataUsed = t.msgDataUsed.filter fun d => d.pid ≠ pid) := by
  unfold leave cleanupExited
  rw [setProcess_same]
  by_cases last : (t.process pid).running - 1 = 0 ∧ (t.process pid).exitflag = true
  · right
    refine ⟨last, ?_, ?_⟩
    · rw [if_pos last, life_cleanup, life_setProcess, Function.update_idem, update_self]
      simp [ProcessData.life, life, last]
    · rw [if_pos last]
      rfl
  · left
    refine ⟨last, ?_, ?_⟩
    · rw [if_neg last, life_setProcess]
      rfl
    · rw [if_neg last]
      rfl

theorem hasTarget_leave (has : (t.leave pid).HasTarget target) : t.HasTarget target := by
  unfold leave cleanupExited at has
  split at has
  · exact hasTarget_same (hasTarget_cleanup has) rfl
  · exact hasTarget_same has rfl

theorem processNew_created {phys : Nat} {bin : Builtin} {result : Pid} {gen : Int} {t' : Tables}
    (created : t.processNew phys bin = some (result, gen, t')) :
    ∃ pid, pid ≠ 0 ∧ (t.life pid).valid = false ∧ gen = increment (t.life pid).gen ∧
      (result = pid ∨ result = 0) ∧ t'.msgDataUsed = t.msgDataUsed ∧
      t'.life = update t.life pid ⟨bin.entry ≠ 0, gen, 0, false, phys⟩ ∧
      ∀ target, t'.HasTarget target → t.HasTarget target ∨ target.pid = 0 ∧ target.gen = 0 := by
  unfold processNew at created
  split at created
  · cases created
  · rename_i pid free
    have taken := List.find?_some free
    simp only [ne_eq, Bool.not_eq_true, decide_eq_true_eq] at taken
    simp only [Option.some.injEq, Prod.mk.injEq] at created
    obtain ⟨chosen, number, tables⟩ := created
    refine ⟨pid, taken.1, taken.2, number.symm, ?_, ?_, ?_, ?_⟩
    · by_cases loaded : bin.entry ≠ 0
      · left
        simpa [loaded] using chosen.symm
      · right
        simpa [loaded] using chosen.symm
    · rw [← tables]
      rfl
    · rw [← tables, life_setMsgdsc, life_setProcess, ← number]
      rfl
    · intro target has
      rw [← tables] at has
      have new : ∀ target, (t.setProcess pid { newProcess (t.process pid) phys bin with
          valid := decide (bin.entry ≠ 0) }).HasTarget target →
          t.HasTarget target ∨ target.pid = 0 ∧ target.gen = 0 := by
        intro target has
        rcases hasTarget_setProcess has with old | ⟨desc, found⟩
        · exact .inl old
        · rw [← found]
          exact .inr ⟨rfl, rfl⟩
      rcases hasTarget_setMsgdsc has with old | first
      · exact new target old
      · exact new target ⟨_, 0, first.symm⟩

end Tables

end DisasVisor.Process
