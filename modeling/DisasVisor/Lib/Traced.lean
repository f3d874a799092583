import Mathlib.Data.List.Basic

/-!
Computations that log the events they cause and may stop before their end.
A piece of C code is such a computation: it falls through with a value, it
reaches a `return`, or it touches memory that is not there.
-/

namespace Traced

inductive Flow (α : Type) where
  | next (value : α)
  | returned
  | fault
  deriving DecidableEq

end Traced

structure Traced (ε α : Type) where
  flow : Traced.Flow α
  trace : List ε

namespace Traced

open List

variable {ε δ α β γ : Type}

protected def pure (value : α) : Traced ε α := ⟨.next value, []⟩

protected def bind (first : Traced ε α) (rest : α → Traced ε β) : Traced ε β :=
  match first.flow with
  | .next value => ⟨(rest value).flow, first.trace ++ (rest value).trace⟩
  | .returned => ⟨.returned, first.trace⟩
  | .fault => ⟨.fault, first.trace⟩

instance : Monad (Traced ε) where
  pure := Traced.pure
  bind := Traced.bind

def emit (event : ε) : Traced ε Unit := ⟨.next (), [event]⟩

def log (events : List ε) : Traced ε Unit := ⟨.next (), events⟩

def returned : Traced ε α := ⟨.returned, []⟩

def fault : Traced ε α := ⟨.fault, []⟩

/-- Run a function body as a call: its `return` comes back to the caller. -/
def call (body : Traced ε Unit) : Traced ε Unit :=
  match body.flow with
  | .returned => ⟨.next (), body.trace⟩
  | _ => body

/-- A loop over a list. A `return` or a fault in the body leaves the loop. -/
def forEach (body : α → Traced ε Unit) : List α → Traced ε Unit
  | [] => pure ()
  | item :: items => do
      body item
      forEach body items

def relabel (name : ε → δ) (body : Traced ε α) : Traced δ α := ⟨body.flow, body.trace.map name⟩

def collect (pick : ε → Option β) (run : Traced ε α) : List β := run.trace.filterMap pick

def Always (good : ε → Prop) (run : Traced ε α) : Prop := ∀ event ∈ run.trace, good event

instance (good : ε → Prop) [DecidablePred good] (run : Traced ε α) : Decidable (run.Always good) :=
  inferInstanceAs (Decidable (∀ event ∈ run.trace, good event))

def Passes (run : Traced ε Unit) : Prop := run.flow = .next ()

instance (run : Traced ε Unit) : Decidable run.Passes := inferInstanceAs (Decidable (run.flow = .next ()))

/-- The run faults exactly when it logs an event that `out` describes. -/
def FaultsOn (out : ε → Prop) (run : Traced ε α) : Prop := run.flow = .fault ↔ ∃ event ∈ run.trace, out event

@[simp] theorem flow_pure (value : α) : (pure value : Traced ε α).flow = .next value := rfl

@[simp] theorem trace_pure (value : α) : (pure value : Traced ε α).trace = [] := rfl

@[simp] theorem flow_emit (event : ε) : (emit event).flow = .next () := rfl

@[simp] theorem trace_emit (event : ε) : (emit event).trace = [event] := rfl

@[simp] theorem flow_log (events : List ε) : (log events).flow = .next () := rfl

@[simp] theorem trace_log (events : List ε) : (log events).trace = events := rfl

@[simp] theorem flow_returned : (returned : Traced ε α).flow = .returned := rfl

@[simp] theorem trace_returned : (returned : Traced ε α).trace = [] := rfl

@[simp] theorem flow_fault : (fault : Traced ε α).flow = .fault := rfl

@[simp] theorem trace_fault : (fault : Traced ε α).trace = [] := rfl

@[simp] theorem trace_call (body : Traced ε Unit) : body.call.trace = body.trace := by
  cases body with
  | mk flow trace => cases flow <;> rfl

@[simp] theorem trace_relabel (name : ε → δ) (body : Traced ε α) :
    (body.relabel name).trace = body.trace.map name := rfl

@[simp] theorem flow_relabel (name : ε → δ) (body : Traced ε α) : (body.relabel name).flow = body.flow := rfl

variable {first run : Traced ε α} {rest : α → Traced ε β} {body : α → Traced ε Unit} {items : List α}

theorem bind_next {value : α} (falls : first.flow = .next value) (rest : α → Traced ε β) :
    first >>= rest = ⟨(rest value).flow, first.trace ++ (rest value).trace⟩ := by
  change Traced.bind first rest = _
  simp only [Traced.bind, falls]

theorem bind_returned (stops : first.flow = .returned) (rest : α → Traced ε β) :
    first >>= rest = ⟨.returned, first.trace⟩ := by
  change Traced.bind first rest = _
  simp only [Traced.bind, stops]

theorem bind_fault (stops : first.flow = .fault) (rest : α → Traced ε β) : first >>= rest = ⟨.fault, first.trace⟩ := by
  change Traced.bind first rest = _
  simp only [Traced.bind, stops]

theorem emit_bind (event : ε) (rest : Unit → Traced ε β) :
    emit event >>= rest = ⟨(rest ()).flow, event :: (rest ()).trace⟩ :=
  bind_next (flow_emit event) rest

theorem log_bind (events : List ε) (rest : Unit → Traced ε β) :
    log events >>= rest = ⟨(rest ()).flow, events ++ (rest ()).trace⟩ :=
  bind_next (flow_log events) rest

theorem log_bind_log (before after : List ε) (rest : Unit → Traced ε β) :
    (log before >>= fun _ => log after >>= rest) = log (before ++ after) >>= rest := by
  rw [log_bind, log_bind, log_bind, append_assoc]

@[simp] theorem flow_log_bind (events : List ε) (rest : Unit → Traced ε β) :
    (log events >>= rest).flow = (rest ()).flow := by
  rw [log_bind]

@[simp] theorem pure_bind (value : α) (rest : α → Traced ε β) : (pure value : Traced ε α) >>= rest = rest value :=
  bind_next (flow_pure value) rest

theorem flow_bind_next {result : β} :
    (first >>= rest).flow = .next result ↔
      ∃ value, first.flow = .next value ∧ (rest value).flow = .next result := by
  cases before : first.flow with
  | next value => simp [bind_next before]
  | returned => simp [bind_returned before]
  | fault => simp [bind_fault before]

theorem bind_pure (run : Traced ε α) : run >>= pure = run := by
  change Traced.bind run Traced.pure = run
  cases run with
  | mk flow trace => cases flow <;> simp [Traced.bind, Traced.pure]

theorem bind_assoc (first : Traced ε α) (second : α → Traced ε β) (third : β → Traced ε γ) :
    first >>= second >>= third = first >>= fun value => second value >>= third := by
  cases first with
  | mk flow trace =>
    cases flow with
    | next value =>
      change Traced.bind (Traced.bind _ second) third = Traced.bind _ fun value => Traced.bind (second value) third
      cases between : (second value).flow <;> simp [Traced.bind, between]
    | returned => rfl
    | fault => rfl

instance : LawfulMonad (Traced ε) := LawfulMonad.mk' _ bind_pure pure_bind bind_assoc

@[simp] theorem flow_map_next {change : α → β} {result : β} :
    (change <$> run).flow = .next result ↔ ∃ value, run.flow = .next value ∧ change value = result := by
  rw [map_eq_pure_bind, flow_bind_next]
  simp

theorem call_flow_next {body : Traced ε Unit} : body.call.flow = .next () ↔ body.flow ≠ .fault := by
  cases body with
  | mk flow trace => cases flow <;> simp [call]

@[simp] theorem passes_pure : Passes (pure () : Traced ε Unit) := rfl

@[simp] theorem passes_log (events : List ε) : Passes (log events) := rfl

@[simp] theorem not_passes_returned : ¬ Passes (returned : Traced ε Unit) := by
  simp [Passes]

@[simp] theorem passes_log_bind (events : List ε) (rest : Unit → Traced ε Unit) :
    Passes (log events >>= rest) ↔ Passes (rest ()) := by
  rw [log_bind]
  rfl

@[simp] theorem passes_call (body : Traced ε Unit) : Passes body.call ↔ body.flow ≠ .fault := call_flow_next

section Always

variable {good : ε → Prop}

@[simp] theorem always_pure (value : α) : Always good (pure value : Traced ε α) := by
  simp [Always]

@[simp] theorem always_returned : Always good (returned : Traced ε α) := by
  simp [Always]

@[simp] theorem always_fault : Always good (fault : Traced ε α) := by
  simp [Always]

@[simp] theorem always_emit (event : ε) : Always good (emit event) ↔ good event := by
  simp [Always]

@[simp] theorem always_call (body : Traced ε Unit) : Always good body.call ↔ Always good body := by
  simp [Always]

theorem always_relabel (name : ε → δ) (run : Traced ε α) (good : δ → Prop) :
    Always good (run.relabel name) ↔ Always (fun event => good (name event)) run := by
  simp [Always]

theorem always_bind (first : Traced ε α) (rest : α → Traced ε β) :
    Always good (first >>= rest) ↔
      Always good first ∧ ∀ value, first.flow = .next value → Always good (rest value) := by
  cases falls : first.flow with
  | next value =>
    rw [bind_next falls]
    simp only [Always, mem_append, Flow.next.injEq, forall_eq']
    constructor
    · exact fun all => ⟨fun event member => all event (.inl member),
        fun event member => all event (.inr member)⟩
    · rintro ⟨before, after⟩ event (member | member)
      · exact before event member
      · exact after event member
  | returned => simp [bind_returned falls, Always]
  | fault => simp [bind_fault falls, Always]

@[simp] theorem always_map (change : α → β) (run : Traced ε α) : Always good (change <$> run) ↔ Always good run := by
  rw [map_eq_pure_bind, always_bind]
  simp

theorem Always.mono {weaker : ε → Prop} (always : Always good run) (implied : ∀ event, good event → weaker event) :
    Always weaker run :=
  fun event member => implied event (always event member)

@[simp] theorem always_emit_bind (event : ε) (rest : Unit → Traced ε β) :
    Always good (emit event >>= rest) ↔ good event ∧ Always good (rest ()) := by
  simp [emit_bind, Always]

theorem always_log_bind (events : List ε) (rest : Unit → Traced ε β) :
    Always good (log events >>= rest) ↔ (∀ event ∈ events, good event) ∧ Always good (rest ()) := by
  simp [log_bind, Always, or_imp, forall_and]

theorem always_forEach_cons {item : α} :
    Always good (forEach body (item :: items)) ↔
      Always good (body item) ∧
        ((body item).Passes → Always good (forEach body items)) := by
  simp only [forEach, always_bind]
  exact and_congr_right fun _ => ⟨fun all => all (), fun tail _ => tail⟩

theorem always_forEach_iff {passes : α → Prop}
    (flows : ∀ item, Always good (body item) → ((body item).Passes ↔ passes item)) :
    Always good (forEach body items) ↔
      ∀ before item after, items = before ++ item :: after →
        (∀ earlier ∈ before, passes earlier) → Always good (body item) := by
  induction items with
  | nil => simp [forEach]
  | cons item items ih =>
    rw [always_forEach_cons, ih]
    constructor
    · rintro ⟨first, tail⟩ before reached after split earlier
      cases before with
      | nil =>
        rw [nil_append, List.cons.injEq] at split
        rwa [← split.1]
      | cons head before =>
        rw [cons_append, List.cons.injEq] at split
        have passed : passes item := by
          rw [split.1]
          exact earlier head mem_cons_self
        exact tail ((flows item first).mpr passed) before reached after split.2
          fun other member => earlier other (mem_cons_of_mem _ member)
    · intro all
      have first := all [] item items rfl (by simp)
      refine ⟨first, fun falls before reached after split earlier => ?_⟩
      apply all (item :: before) reached after (by rw [split, cons_append])
      rintro other (_ | member)
      · exact (flows item first).mp falls
      · exact earlier other ‹_›

end Always

section Collect

variable {κ : Type} {pick : ε → Option κ}

@[simp] theorem collect_pure (value : α) : collect pick (pure value : Traced ε α) = [] := rfl

@[simp] theorem collect_log (events : List ε) : collect pick (log events) = events.filterMap pick := rfl

@[simp] theorem collect_returned : collect pick (returned : Traced ε α) = [] := rfl

@[simp] theorem collect_fault : collect pick (fault : Traced ε α) = [] := rfl

@[simp] theorem collect_call (body : Traced ε Unit) : collect pick body.call = collect pick body := by
  simp [collect]

theorem collect_relabel (name : ε → δ) (run : Traced ε α) (pick : δ → Option κ) :
    collect pick (run.relabel name) = collect (fun event => pick (name event)) run := by
  simp [collect, filterMap_map]

theorem collect_bind_next {value : α} (falls : first.flow = .next value) (rest : α → Traced ε β) :
    collect pick (first >>= rest) = collect pick first ++ collect pick (rest value) := by
  simp [bind_next falls, collect]

theorem collect_bind_stop (stops : ∀ value, first.flow ≠ .next value) (rest : α → Traced ε β) :
    collect pick (first >>= rest) = collect pick first := by
  cases flow : first.flow with
  | next value => exact absurd flow (stops value)
  | returned => simp [bind_returned flow, collect]
  | fault => simp [bind_fault flow, collect]

theorem collect_bind_silent (silent : ∀ value, collect pick (rest value) = []) :
    collect pick (first >>= rest) = collect pick first := by
  cases falls : first.flow with
  | next value => rw [collect_bind_next falls, silent, append_nil]
  | returned => simp [bind_returned falls, collect]
  | fault => simp [bind_fault falls, collect]

theorem collect_eq_nil_iff : collect pick run = [] ↔ Always (fun event => pick event = none) run := by
  rw [collect, filterMap_eq_nil_iff]
  rfl

@[simp] theorem collect_emit_bind (event : ε) (rest : Unit → Traced ε β) :
    collect pick (emit event >>= rest) = (pick event).toList ++ collect pick (rest ()) := by
  cases picked : pick event <;> simp [emit_bind, collect, picked]

theorem collect_log_bind (events : List ε) (rest : Unit → Traced ε β) :
    collect pick (log events >>= rest) = events.filterMap pick ++ collect pick (rest ()) := by
  simp [log_bind, collect]

theorem collect_forEach_cons {item : α} :
    collect pick (forEach body (item :: items)) = collect pick (body item) ++
      if (body item).Passes then collect pick (forEach body items) else [] := by
  simp only [forEach]
  split
  · rename_i falls
    rw [collect_bind_next falls]
  · rename_i stops
    rw [collect_bind_stop (fun _ => stops), append_nil]

theorem collect_forEach_passes (passes : ∀ item ∈ items.dropLast, (body item).Passes) :
    collect pick (forEach body items) = items.flatMap fun item => collect pick (body item) := by
  induction items with
  | nil => rfl
  | cons item items ih =>
    rw [collect_forEach_cons, flatMap_cons]
    cases items with
    | nil => simp [forEach]
    | cons next items =>
      simp only [dropLast_cons_cons, mem_cons, forall_eq_or_imp] at passes
      rw [if_pos passes.1, ih passes.2]

/-- A loop collects everything its items would collect alone exactly when nothing is left to
collect behind an item that leaves the loop. -/
theorem collect_forEach_iff :
    collect pick (forEach body items) = (items.flatMap fun item => collect pick (body item)) ↔
      ∀ before item after, items = before ++ item :: after → ¬ (body item).Passes →
        ∀ later ∈ after, collect pick (body later) = [] := by
  induction items with
  | nil => simp [forEach]
  | cons item items ih =>
    rw [collect_forEach_cons, flatMap_cons, append_cancel_left_eq]
    by_cases falls : (body item).Passes
    · rw [if_pos falls, ih]
      constructor
      · intro tail before stop after split stops
        cases before with
        | nil =>
          rw [nil_append, List.cons.injEq] at split
          rw [← split.1] at stops
          exact absurd falls stops
        | cons first before =>
          rw [cons_append, List.cons.injEq] at split
          exact tail before stop after split.2 stops
      · intro all before stop after split
        exact all (item :: before) stop after (by rw [split, cons_append])
    · rw [if_neg falls, eq_comm, flatMap_eq_nil_iff]
      constructor
      · intro silent before stop after split _ later member
        apply silent later
        cases before with
        | nil =>
          rw [nil_append, List.cons.injEq] at split
          rwa [split.2]
        | cons first before =>
          rw [cons_append, List.cons.injEq] at split
          rw [split.2]
          exact mem_append_right _ (mem_cons_of_mem _ member)
      · intro all later member
        exact all [] item items rfl falls later member

end Collect

section FaultsOn

variable {out : ε → Prop}

theorem faultsOn_pure (value : α) : FaultsOn out (pure value : Traced ε α) := by
  simp [FaultsOn]

theorem faultsOn_returned : FaultsOn out (returned : Traced ε α) := by
  simp [FaultsOn]

theorem faultsOn_emit {event : ε} (inside : ¬ out event) : FaultsOn out (emit event) := by
  simp [FaultsOn, inside]

theorem faultsOn_bind (before : FaultsOn out first)
    (after : ∀ value, first.flow = .next value → FaultsOn out (rest value)) : FaultsOn out (first >>= rest) := by
  unfold FaultsOn at before
  cases flow : first.flow with
  | next value =>
    have clean : ¬ ∃ event ∈ first.trace, out event := by
      rw [← before, flow]
      simp
    have tail : FaultsOn out (rest value) := after value flow
    unfold FaultsOn at tail ⊢
    rw [bind_next flow]
    simp only [mem_append, tail]
    constructor
    · rintro ⟨event, member, outside⟩
      exact ⟨event, .inr member, outside⟩
    · rintro ⟨event, member | member, outside⟩
      · exact absurd ⟨event, member, outside⟩ clean
      · exact ⟨event, member, outside⟩
  | returned => simpa [FaultsOn, bind_returned flow, flow] using before
  | fault => simpa [FaultsOn, bind_fault flow, flow] using before

theorem FaultsOn.flow_eq_fault (faults : FaultsOn out run) :
    run.flow = .fault ↔ ¬ Always (fun event => ¬ out event) run := by
  unfold FaultsOn at faults
  rw [faults]
  simp [Always]

end FaultsOn

end Traced
