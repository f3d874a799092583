import Mathlib.Data.List.TakeWhile
import Mathlib.Data.List.Chain

/-!
Words that are a fixed sequence of non-empty runs, each over its own class of
letters, where neighbouring classes are disjoint. A scanner that reads such a
word run by run has no choice: the runs of a word are the maximal ones.
-/

namespace MaximalRuns

open List

variable {α : Type}

def Stops (cls : α → Bool) (word : List α) : Prop := ∀ letter ∈ word.head?, cls letter = false

def RunsOf (classes : List (α → Bool)) (runs : List (List α)) : Prop :=
  List.Forall₂ (fun cls run => run ≠ [] ∧ ∀ letter ∈ run, cls letter = true) classes runs

instance (classes : List (α → Bool)) (runs : List (List α)) : Decidable (RunsOf classes runs) :=
  inferInstanceAs (Decidable (List.Forall₂ _ _ _))

def Separated (classes : List (α → Bool)) : Prop :=
  classes.IsChain fun left right => ∀ letter, right letter = true → left letter = false

def Unfinished (classes : List (α → Bool)) (word : List α) : Prop := ∃ runs, RunsOf classes runs ∧ word <+: runs.flatten

def StopsAfter (classes : List (α → Bool)) (word : List α) : Prop := ∀ cls ∈ classes.getLast?, Stops cls word

@[simp] theorem stops_nil (cls : α → Bool) : Stops cls [] := by
  simp [Stops]

@[simp] theorem stops_cons (cls : α → Bool) (letter : α) (word : List α) :
    Stops cls (letter :: word) ↔ cls letter = false := by
  simp [Stops]

variable {cls : α → Bool} {word : List α} {classes : List (α → Bool)} {runs : List (List α)}

theorem stops_append {left right : List α} (nonempty : left ≠ []) (stops : Stops cls left) :
    Stops cls (left ++ right) := by
  cases left with
  | nil => exact absurd rfl nonempty
  | cons letter rest => simpa using stops

theorem exists_run (cls : α → Bool) (word : List α) :
    ∃ run rest, word = run ++ rest ∧ (∀ letter ∈ run, cls letter = true) ∧ Stops cls rest := by
  refine ⟨word.takeWhile cls, word.dropWhile cls, takeWhile_append_dropWhile.symm,
    fun letter member => mem_takeWhile_imp member, ?_⟩
  intro letter first
  have stopped := List.head?_dropWhile_not cls word
  rw [Option.mem_def.mp first] at stopped
  exact stopped

theorem takeWhile_of_stops (stops : Stops cls word) : word.takeWhile cls = [] := by
  cases word with
  | nil => rfl
  | cons letter rest =>
    rw [stops_cons] at stops
    simp [stops]

theorem run_unique {first second left right : List α} (firstIn : ∀ letter ∈ first, cls letter = true)
    (secondIn : ∀ letter ∈ second, cls letter = true) (leftStops : Stops cls left) (rightStops : Stops cls right)
    (same : first ++ left = second ++ right) : first = second ∧ left = right := by
  have heads : first = second := by
    have taken := congrArg (List.takeWhile cls) same
    rwa [takeWhile_append_of_pos firstIn, takeWhile_append_of_pos secondIn,
      takeWhile_of_stops leftStops, takeWhile_of_stops rightStops, append_nil,
      append_nil] at taken
  subst second
  exact ⟨rfl, append_cancel_left same⟩

theorem RunsOf.cons_inv (shape : RunsOf (cls :: classes) runs) :
    ∃ run rest, runs = run :: rest ∧ run ≠ [] ∧ (∀ letter ∈ run, cls letter = true) ∧ RunsOf classes rest := by
  cases shape with
  | cons head tail => exact ⟨_, _, rfl, head.1, head.2, tail⟩

theorem RunsOf.cons {run : List α} (nonempty : run ≠ []) (inside : ∀ letter ∈ run, cls letter = true)
    (shape : RunsOf classes runs) : RunsOf (cls :: classes) (run :: runs) :=
  List.Forall₂.cons ⟨nonempty, inside⟩ shape

theorem stops_rest {tail : List α} (separated : Separated (cls :: classes)) (shape : RunsOf classes runs)
    (tailStops : StopsAfter (cls :: classes) tail) : Stops cls (runs.flatten ++ tail) := by
  cases classes with
  | nil =>
    cases shape
    exact tailStops cls rfl
  | cons next classes =>
    obtain ⟨run, rest, rfl, nonempty, inside, -⟩ := shape.cons_inv
    rw [flatten_cons, append_assoc]
    apply stops_append nonempty
    intro letter first
    have disjoint := (isChain_cons_cons.mp separated).1
    exact disjoint letter (inside letter (mem_of_mem_head? first))

theorem StopsAfter.tail (nonempty : classes ≠ []) (stops : StopsAfter (cls :: classes) word) :
    StopsAfter classes word := by
  intro last member
  apply stops last
  rwa [List.getLast?_cons_of_ne_nil nonempty]

theorem runs_unique (separated : Separated classes) :
    ∀ {first second : List (List α)} {left right : List α},
      RunsOf classes first → RunsOf classes second →
      StopsAfter classes left → StopsAfter classes right →
      first.flatten ++ left = second.flatten ++ right → first = second ∧ left = right := by
  induction classes with
  | nil =>
    intro first second left right firstShape secondShape _ _ same
    cases firstShape
    cases secondShape
    exact ⟨rfl, by simpa using same⟩
  | cons cls classes ih =>
    intro first second left right firstShape secondShape leftStops rightStops same
    obtain ⟨run, runs, rfl, -, inside, shape⟩ := firstShape.cons_inv
    obtain ⟨run', runs', rfl, -, inside', shape'⟩ := secondShape.cons_inv
    simp only [flatten_cons, append_assoc] at same
    obtain ⟨rfl, rest⟩ := run_unique inside inside'
      (stops_rest separated shape leftStops) (stops_rest separated shape' rightStops) same
    by_cases last : classes = []
    · subst last
      cases shape
      cases shape'
      exact ⟨rfl, by simpa using rest⟩
    · obtain ⟨rfl, tails⟩ := ih separated.tail shape shape' (leftStops.tail last)
        (rightStops.tail last) rest
      exact ⟨rfl, tails⟩

theorem unfinished_nil (shape : RunsOf classes runs) : Unfinished classes [] := ⟨runs, shape, nil_prefix⟩

theorem Unfinished.tail (shape : Unfinished (cls :: classes) []) : Unfinished classes [] := by
  obtain ⟨runs, whole, -⟩ := shape
  obtain ⟨_, runs, rfl, -, -, rest⟩ := whole.cons_inv
  exact unfinished_nil rest

theorem unfinished_none : Unfinished [] word ↔ word = [] := by
  constructor
  · rintro ⟨runs, shape, pre⟩
    cases shape
    exact prefix_nil.mp pre
  · rintro rfl
    exact unfinished_nil List.Forall₂.nil

theorem not_unfinished {letter : α} (outside : cls letter = false) :
    ¬ Unfinished (cls :: classes) (letter :: word) := by
  rintro ⟨runs, shape, pre⟩
  obtain ⟨run, rest, rfl, nonempty, inside, -⟩ := shape.cons_inv
  cases run with
  | nil => exact nonempty rfl
  | cons first run =>
    rw [flatten_cons, cons_append, cons_prefix_cons] at pre
    have inClass := inside first (mem_cons_self)
    rw [← pre.1, outside] at inClass
    exact Bool.false_ne_true inClass

theorem unfinished_run {run rest : List α} (separated : Separated (cls :: classes)) (nonempty : run ≠ [])
    (inside : ∀ letter ∈ run, cls letter = true) (stops : Stops cls rest) :
    Unfinished (cls :: classes) (run ++ rest) ↔ Unfinished classes rest := by
  constructor
  · rintro ⟨runs, shape, more, whole⟩
    obtain ⟨run', runs', rfl, -, inside', shape'⟩ := shape.cons_inv
    cases rest with
    | nil => exact unfinished_nil shape'
    | cons letter rest =>
      rw [flatten_cons, append_assoc] at whole
      have follows : Stops cls (runs'.flatten ++ []) := stops_rest separated shape' (fun _ _ => stops_nil _)
      rw [append_nil] at follows
      have split := run_unique inside inside' (stops_append (cons_ne_nil _ _) stops) follows whole
      exact ⟨runs', shape', more, split.2⟩
  · rintro ⟨runs, shape, pre⟩
    refine ⟨run :: runs, RunsOf.cons nonempty inside shape, ?_⟩
    rw [flatten_cons]
    exact (prefix_append_right_inj run).mpr pre

end MaximalRuns
