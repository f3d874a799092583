import Mathlib.Data.List.Chain

/-!
Runs of a system of states: a list of states each of which goes over into the
next one in a step.
-/

namespace Runs

variable {σ : Type} {Step : σ → σ → Prop} {inv good ok : σ → Prop}

/-- If from a good state exactly the steps that are ok lead to a good state, then the runs
through good states are those all of whose steps are ok. The rule may use an invariant that
every step from a good state keeps. -/
theorem good_iff_ok (keeps : ∀ before after, Step before after → inv before → good before → inv after)
    (steps : ∀ before after, Step before after → inv before → good before → (good after ↔ ok before)) (run : List σ) :
    ∀ first, inv first → good first → (first :: run).IsChain Step →
      ((∀ state ∈ run, good state) ↔ ∀ state ∈ (first :: run).dropLast, ok state) := by
  induction run with
  | nil => simp
  | cons second run ih =>
    intro first invariant start chain
    rw [List.isChain_cons_cons] at chain
    have kept := keeps first second chain.1 invariant start
    have step := steps first second chain.1 invariant start
    rw [List.dropLast_cons_cons, List.forall_mem_cons, List.forall_mem_cons]
    constructor
    · rintro ⟨next, later⟩
      exact ⟨step.mp next, (ih second kept next chain.2).mp later⟩
    · rintro ⟨head, tail⟩
      have next := step.mpr head
      exact ⟨next, (ih second kept next chain.2).mpr tail⟩

end Runs

/-!
Labelled transition systems: a run is the list of the events of its steps. A property of
the start that every step keeps holds at the end of every run.
-/

namespace Transitions

variable {σ ε : Type*}

inductive Run (Step : σ → ε → σ → Prop) : σ → List ε → σ → Prop
  | nil (state) : Run Step state [] state
  | cons {before event middle events after} : Step before event middle →
      Run Step middle events after → Run Step before (event :: events) after

variable {Step Narrow : σ → ε → σ → Prop}

variable {before after : σ} {events : List ε}

theorem Run.keeps (inv : σ → Prop) (keeps : ∀ before event after, Step before event after → inv before → inv after)
    (run : Run Step before events after) (start : inv before) : inv after := by
  induction run with
  | nil => exact start
  | cons step _ ih => exact ih (keeps _ _ _ step start)

theorem run_of_foldlM {step : σ → ε → Option σ}
    (sound : ∀ before event after, step before event = some after → Step before event after)
    (done : events.foldlM step before = some after) : Run Step before events after := by
  induction events generalizing before with
  | nil =>
    obtain rfl : before = after := by simpa using done
    exact Run.nil before
  | cons event events ih =>
    simp only [List.foldlM_cons, Option.bind_eq_bind, Option.bind_eq_some_iff] at done
    obtain ⟨middle, first, rest⟩ := done
    exact Run.cons (sound before event middle first) (ih rest)

theorem Run.append {middle : σ} {first second : List ε} (run : Run Step before first middle)
    (next : Run Step middle second after) : Run Step before (first ++ second) after := by
  induction run with
  | nil => exact next
  | cons step _ ih => exact Run.cons step (ih next)

theorem Run.congr (inv : σ → Prop)
    (agree : ∀ before event after, inv before → (Narrow before event after ↔ Step before event after))
    (keeps : ∀ before event after, Step before event after → inv before → inv after) (start : inv before) :
    Run Narrow before events after ↔ Run Step before events after := by
  constructor
  · intro run
    induction run with
    | nil => exact Run.nil _
    | cons step _ ih =>
      have same := (agree _ _ _ start).mp step
      exact Run.cons same (ih (keeps _ _ _ same start))
  · intro run
    induction run with
    | nil => exact Run.nil _
    | cons step _ ih => exact Run.cons ((agree _ _ _ start).mpr step) (ih (keeps _ _ _ step start))

end Transitions
