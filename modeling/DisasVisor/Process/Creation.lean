import DisasVisor.Process.Lives

/-!
What a failed `_newprocess` of `core/process.c` leaves behind.
-/

namespace DisasVisor.Process

open Function

namespace Tables

variable {t t' : Tables} {frompid pid : Pid} {desc : Desc} {builtins : List Builtin} {bin : Builtin} {name : Name}

def freePid (t : Tables) : Option Pid := (List.finRange 32).find? fun pid => pid ≠ 0 ∧ ¬(t.process pid).valid

/-- `_newprocess`, with the answer of `mm_process_alloc` and with the address spaces that were allocated
and are not freed at its end; the pages that `process_load` maps are in them. -/
def create (t : Tables) (frompid : Pid) (builtins : List Builtin) (phys : Option Nat) (name : Name) :
    Int × Tables × List Nat :=
  match builtins.find? fun p => p.name = name, t.freePid, phys with
  | some _, some _, some phys => ((t.newprocess frompid builtins phys name).1,
      (t.newprocess frompid builtins phys name).2, [phys])
  | _, _, _ => (-1, t, [])

def Runnable (t : Tables) (frompid : Pid) (result : Int) : Prop :=
  ∃ i : Desc, result = (i : Nat) ∧ t.Delivers ((t.process frompid).msgdsc i).target

structure Undone (t : Tables) (result : Int) (t' : Tables) (spaces : List Nat) : Prop where
  result : result = -1
  pids : ∀ pid, (t'.process pid).valid = (t.process pid).valid
  descriptors : ∀ pid, (t.process pid).valid = true → (t'.process pid).msgdsc = (t.process pid).msgdsc
  freed : spaces = []

def CreatesOrUndoes (t : Tables) (frompid : Pid) (builtins : List Builtin) (phys : Option Nat) (name : Name) : Prop :=
  let (result, t', spaces) := t.create frompid builtins phys name
  t'.Runnable frompid result ∨ t.Undone result t' spaces

def Completes (t : Tables) (frompid : Pid) (builtins : List Builtin) (phys : Option Nat) (name : Name) : Prop :=
  ∀ bin, (builtins.find? fun p => p.name = name) = some bin → t.freePid ≠ none → phys ≠ none →
    bin.entry ≠ 0 ∧ t.unusedMsgdsc frompid 32 ≠ none

theorem setMsgdsc_same {m : MsgdscData} : ((t.setMsgdsc pid desc m).process pid) =
    { t.process pid with msgdsc := update (t.process pid).msgdsc desc m } := setProcess_same _

theorem setMsgdsc_other {m : MsgdscData} {who : Pid} (other : who ≠ pid) :
    (t.setMsgdsc pid desc m).process who = t.process who := setProcess_other _ other

def loadedTables (t : Tables) (pid target : Pid) (phys : Nat) (bin : Builtin) : Tables :=
  let new := t.setProcess pid { newProcess (t.process pid) phys bin with valid := bin.entry ≠ 0 }
  new.setMsgdsc target 0 { (new.process target).msgdsc 0 with func := bin.entry }

theorem newprocess_eq {phys : Nat} {target : Pid} (known : (builtins.find? fun p => p.name = name) = some bin)
    (free : t.freePid = some pid) (is : target = if bin.entry ≠ 0 then pid else 0) :
    t.newprocess frompid builtins phys name = (t.loadedTables pid target phys bin).msgopen2 frompid target
      (increment (t.process pid).gen) 0 := by
  unfold freePid at free
  unfold newprocess processNew
  rw [known]
  dsimp only
  rw [free, is]
  by_cases loaded : bin.entry = 0
  · simp [loaded, newProcess, loadedTables]
  · simp [loaded, newProcess, loadedTables]

theorem freePid_some (free : t.freePid = some pid) : pid ≠ 0 ∧ (t.process pid).valid = false := by
  have taken := List.find?_some free
  simpa using taken

theorem unusedMsgdsc_congr (same : (t'.process frompid).msgdsc = (t.process frompid).msgdsc) (count : Nat) :
    t'.unusedMsgdsc frompid count = t.unusedMsgdsc frompid count := by
  unfold unusedMsgdsc
  rw [same]

theorem runnable_of_loaded {phys : Nat} (caller : (t.process frompid).valid = true)
    (known : (builtins.find? fun p => p.name = name) = some bin) (free : t.freePid = some pid)
    (loaded : bin.entry ≠ 0) (room : t.unusedMsgdsc frompid 32 ≠ none) :
    (t.newprocess frompid builtins phys name).2.Runnable frompid (t.newprocess frompid builtins phys name).1 := by
  have other : frompid ≠ pid := by
    rintro rfl
    rw [(freePid_some free).2] at caller
    cases caller
  have same : (t.loadedTables pid pid phys bin).process frompid = t.process frompid :=
    (setMsgdsc_other other).trans (setProcess_other _ other)
  obtain ⟨i, found⟩ := Option.ne_none_iff_exists'.mp room
  rw [newprocess_eq known free (if_pos loaded).symm]
  unfold msgopen2
  rw [unusedMsgdsc_congr (congrArg ProcessData.msgdsc same), found]
  refine ⟨i, rfl, ?_⟩
  have own : (((t.loadedTables pid pid phys bin).setMsgdsc frompid i { ((t.loadedTables pid pid phys bin).process
      frompid).msgdsc i with pid := pid, gen := increment (t.process pid).gen, dsc := 0 }).process pid) =
      (t.loadedTables pid pid phys bin).process pid := setMsgdsc_other other.symm
  dsimp only
  rw [setMsgdsc_same]
  dsimp only
  rw [update_self]
  unfold Delivers MsgdscData.target
  dsimp only
  rw [own]
  unfold loadedTables
  dsimp only
  rw [setMsgdsc_same]
  dsimp only
  rw [setProcess_same, update_self]
  exact ⟨decide_eq_true loaded, rfl, loaded⟩

theorem not_runnable_of_rejected {phys : Nat} (known : (builtins.find? fun p => p.name = name) = some bin)
    (free : t.freePid = some pid) (rejected : bin.entry = 0) :
    ¬(t.newprocess frompid builtins phys name).2.Runnable frompid (t.newprocess frompid builtins phys name).1 := by
  have handler : (((t.loadedTables pid 0 phys bin).process 0).msgdsc 0).func = 0 := by
    unfold loadedTables
    dsimp only
    rw [setMsgdsc_same]
    dsimp only
    rw [update_self]
    exact rejected
  rw [newprocess_eq known free (if_neg (not_not.mpr rejected)).symm]
  unfold msgopen2
  cases (t.loadedTables pid 0 phys bin).unusedMsgdsc frompid 32 with
  | none =>
    rintro ⟨i, negative, -⟩
    exact absurd negative (by dsimp only; omega)
  | some j =>
    rintro ⟨i, same, delivers⟩
    obtain rfl : j = i := Fin.ext (Int.ofNat_inj.mp same)
    dsimp only at delivers
    rw [setMsgdsc_same] at delivers
    dsimp only at delivers
    rw [update_self] at delivers
    apply delivers.2.2
    unfold MsgdscData.target
    dsimp only
    by_cases kernel : (0 : Pid) = frompid
    · subst kernel
      rw [setMsgdsc_same]
      dsimp only
      by_cases first : (0 : Desc) = j
      · subst first
        rw [update_self]
        exact handler
      · rw [update_of_ne first]
        exact handler
    · rw [setMsgdsc_other kernel]
      exact handler

theorem not_runnable_of_full {phys : Nat} (caller : (t.process frompid).valid = true)
    (known : (builtins.find? fun p => p.name = name) = some bin) (free : t.freePid = some pid)
    (loaded : bin.entry ≠ 0) (full : t.unusedMsgdsc frompid 32 = none) :
    ¬(t.newprocess frompid builtins phys name).2.Runnable frompid (t.newprocess frompid builtins phys name).1 := by
  have other : frompid ≠ pid := by
    rintro rfl
    rw [(freePid_some free).2] at caller
    cases caller
  have same : (t.loadedTables pid pid phys bin).process frompid = t.process frompid :=
    (setMsgdsc_other other).trans (setProcess_other _ other)
  rw [newprocess_eq known free (if_pos loaded).symm]
  unfold msgopen2
  rw [unusedMsgdsc_congr (congrArg ProcessData.msgdsc same), full]
  rintro ⟨i, negative, -⟩
  exact absurd negative (by dsimp only; omega)

end Tables

/-- A process is created or nothing is changed, except where the failure comes after the address space was
made. -/
theorem newprocess_exact (t : Tables) (frompid : Pid) (builtins : List Builtin) (phys : Option Nat) (name : Name)
    (caller : (t.process frompid).valid = true) :
    t.CreatesOrUndoes frompid builtins phys name ↔ t.Completes frompid builtins phys name := by
  unfold Tables.CreatesOrUndoes Tables.Completes Tables.create
  have early : (-1, t, []) = (-1, t, ([] : List Nat)) → Tables.Undone t (-1) t [] := fun _ =>
    ⟨rfl, fun _ => rfl, fun _ _ => rfl, rfl⟩
  cases known : builtins.find? fun p => p.name = name with
  | none => exact iff_of_true (.inr (early rfl)) fun _ found => by cases found
  | some bin =>
    cases free : t.freePid with
    | none => exact iff_of_true (.inr (early rfl)) fun _ _ some' => absurd rfl some'
    | some pid =>
      cases phys with
      | none => exact iff_of_true (.inr (early rfl)) fun _ _ _ some' => absurd rfl some'
      | some phys =>
        dsimp only
        constructor
        · rintro (runs | undone) other found _ _
          · cases found
            by_cases loaded : bin.entry = 0
            · exact absurd runs (Tables.not_runnable_of_rejected known free loaded)
            · exact ⟨loaded, fun full => Tables.not_runnable_of_full caller known free loaded full runs⟩
          · cases undone.freed
        · intro completes
          obtain ⟨loaded, room⟩ := completes bin rfl (Option.some_ne_none pid) (Option.some_ne_none phys)
          exact .inl (Tables.runnable_of_loaded caller known free loaded room)

theorem newprocess_exact_kernel :
    Tables.processInitGlobal.CreatesOrUndoes 0 [⟨[], 0, 1, by decide⟩] (some 0x1000) [] := by
  refine (newprocess_exact _ 0 _ _ _ rfl).mpr ?_
  intro bin found _ _
  cases found
  exact ⟨by decide, by decide⟩

/-- A program without an entry point: the kernel gets a descriptor of itself, and an address space is lost. -/
theorem rejected_leaks :
    ¬Tables.processInitGlobal.CreatesOrUndoes 0 [⟨[], 0, 0, by decide⟩] (some 0x1000) [] ∧
      (Tables.processInitGlobal.create 0 [⟨[], 0, 0, by decide⟩] (some 0x1000) []).1 = 0 ∧
      (Tables.processInitGlobal.create 0 [⟨[], 0, 0, by decide⟩] (some 0x1000) []).2.2 = [0x1000] := by
  refine ⟨?_, by decide, by decide⟩
  have known : (List.find? (fun p : Builtin => p.name = []) [⟨[], 0, 0, by decide⟩]) = some ⟨[], 0, 0, by decide⟩ := rfl
  rintro (runs | undone)
  · exact Tables.not_runnable_of_rejected known (by decide : Tables.processInitGlobal.freePid = some 1) rfl runs
  · exact absurd undone.freed (by decide)

end DisasVisor.Process
