import Mathlib.Data.Fintype.Pigeonhole

/-!
Computations that may end early, and loops of them over a list: what the result of such a loop says about its
rounds.
-/

namespace Loops

variable {α β σ ε : Type} {stop : ε}

theorem bind_ok {first : Except ε α} {rest : α → Except ε β} {result : β} :
    first >>= rest = .ok result ↔ ∃ value, first = .ok value ∧ rest value = .ok result := by
  cases first with
  | error e =>
    constructor
    · intro same
      cases same
    · rintro ⟨value, same, -⟩
      cases same
  | ok value =>
    constructor
    · intro same
      exact ⟨value, rfl, same⟩
    · rintro ⟨other, same, rests⟩
      cases same
      exact rests

/-- A result is as `p` says, and an error is one that is allowed. -/
def Upholds (allowed : ε → Prop) (p : α → Prop) : Except ε α → Prop
  | .ok value => p value
  | .error stop => allowed stop

variable {allowed : ε → Prop} {p : α → Prop} {q : β → Prop}

theorem Upholds.bind {first : Except ε α} {rest : α → Except ε β} (upholds : Upholds allowed p first)
    (goesOn : ∀ value, p value → Upholds allowed q (rest value)) : Upholds allowed q (first >>= rest) := by
  cases first with
  | error stop => exact upholds
  | ok value => exact goesOn value upholds

theorem Upholds.mono {r : α → Prop} {result : Except ε α} (upholds : Upholds allowed p result)
    (weaker : ∀ value, p value → r value) : Upholds allowed r result := by
  cases result with
  | error stop => exact upholds
  | ok value => exact weaker value upholds

theorem upholds_foldlM {f : σ → α → Except ε σ} {inv : List α → σ → Prop}
    (keeps : ∀ x xs s, inv (x :: xs) s → Upholds allowed (inv xs) (f s x)) :
    ∀ {xs s}, inv xs s → Upholds allowed (inv []) (xs.foldlM f s) := by
  intro xs
  induction xs with
  | nil =>
    intro s start
    exact start
  | cons x xs ih =>
    intro s start
    rw [List.foldlM_cons]
    exact (keeps x xs s start).bind fun next later => ih later

end Loops

/-!
Loops by their passes: a pass goes on with a next state or leaves the loop with a result.
-/

namespace Passes

variable {σ ρ : Type} (pass : σ → σ ⊕ ρ)

def run : Nat → σ → Option ρ
  | 0, _ => none
  | fuel + 1, s =>
    match pass s with
    | .inl next => run fuel next
    | .inr result => some result

def Yields (s : σ) (result : ρ) : Prop := ∃ fuel, run pass fuel s = some result

def Ends (s : σ) : Prop := ∃ fuel result, run pass fuel s = some result

inductive Reaches (s : σ) : σ → Prop
  | start : Reaches s s
  | next {t u} : Reaches s t → pass t = .inl u → Reaches s u

def after : Nat → σ → Option σ
  | 0, s => some s
  | n + 1, s =>
    match pass s with
    | .inl next => after n next
    | .inr _ => none

def Distinct (s : σ) : Prop := ∀ m n t, m < n → after pass m s = some t → after pass n s ≠ some t

variable {pass} {s t : σ} {result : ρ} {fuel : Nat}

theorem run_next (goes : pass s = .inl t) : run pass (fuel + 1) s = run pass fuel t := by
  rw [run, goes]

theorem run_result (leaves : pass s = .inr result) : run pass (fuel + 1) s = some result := by
  rw [run, leaves]

theorem run_more (done : run pass fuel s = some result) (more : Nat) : run pass (fuel + more) s = some result := by
  induction fuel generalizing s with
  | zero => cases done
  | succ fuel ih =>
    have shift : fuel + 1 + more = fuel + more + 1 := by omega
    rw [shift]
    cases passed : pass s with
    | inl next =>
      rw [run_next passed] at done ⊢
      exact ih done
    | inr other =>
      rw [run_result passed] at done ⊢
      exact done

theorem Yields.unique {other : ρ} (yields : Yields pass s result) (yields' : Yields pass s other) : result = other := by
  obtain ⟨fuel, done⟩ := yields
  obtain ⟨fuel', done'⟩ := yields'
  have more := run_more done fuel'
  rw [Nat.add_comm, run_more done' fuel] at more
  exact (Option.some.inj more).symm

theorem yields_of_result (leaves : pass s = .inr result) : Yields pass s result := ⟨1, run_result leaves⟩

theorem Yields.of_next (goes : pass s = .inl t) (yields : Yields pass t result) : Yields pass s result := by
  obtain ⟨fuel, done⟩ := yields
  exact ⟨fuel + 1, (run_next goes).trans done⟩

theorem Reaches.invariant (inv : σ → Prop) (keeps : ∀ t u, inv t → pass t = .inl u → inv u)
    (reached : Reaches pass s t) (start : inv s) : inv t := by
  induction reached with
  | start => exact start
  | next _ goes ih => exact keeps _ _ ih goes

theorem Reaches.of_next {u : σ} (goes : pass s = .inl t) (reached : Reaches pass t u) : Reaches pass s u := by
  induction reached with
  | start => exact Reaches.start.next goes
  | next _ passed ih => exact ih.next passed

theorem Yields.of_reaches (yields : Yields pass s result) (reached : Reaches pass s t) : Yields pass t result := by
  induction reached with
  | start => exact yields
  | next _ goes ih =>
    obtain ⟨fuel, done⟩ := ih
    cases fuel with
    | zero => cases done
    | succ fuel => exact ⟨fuel, (run_next goes).symm.trans done⟩

theorem run_cases (done : run pass fuel s = some result) : ∃ t, Reaches pass s t ∧ pass t = .inr result := by
  have general : ∀ fuel t, Reaches pass s t → run pass fuel t = some result →
      ∃ t, Reaches pass s t ∧ pass t = .inr result := by
    intro fuel
    induction fuel with
    | zero =>
      intro t _ done
      cases done
    | succ fuel ih =>
      intro t reached done
      cases passed : pass t with
      | inl next =>
        rw [run_next passed] at done
        exact ih next (reached.next passed) done
      | inr other =>
        rw [run_result passed] at done
        cases done
        exact ⟨t, reached, passed⟩
  exact general fuel s .start done

theorem ends_of_measure (inv : σ → Prop) (measure : σ → Nat) (keeps : ∀ t u, inv t → pass t = .inl u → inv u)
    (less : ∀ t u, inv t → pass t = .inl u → measure u < measure t) (start : inv s) :
    ∃ result, run pass (measure s + 1) s = some result := by
  have general : ∀ fuel t, inv t → measure t < fuel → ∃ result, run pass fuel t = some result := by
    intro fuel
    induction fuel with
    | zero =>
      intro t _ bound
      omega
    | succ fuel ih =>
      intro t here bound
      cases passed : pass t with
      | inl next =>
        have shorter := less t next here passed
        obtain ⟨result, done⟩ := ih next (keeps t next here passed) (by omega)
        exact ⟨result, (run_next passed).trans done⟩
      | inr result => exact ⟨result, run_result passed⟩
  exact general (measure s + 1) s start (Nat.lt_succ_self _)

theorem not_ends (inv : σ → Prop) (goes : ∀ t, inv t → ∃ u, pass t = .inl u ∧ inv u) (start : inv s) :
    ¬Ends pass s := by
  rintro ⟨fuel, result, done⟩
  induction fuel generalizing s with
  | zero => cases done
  | succ fuel ih =>
    obtain ⟨next, passed, here⟩ := goes s start
    rw [run_next passed] at done
    exact ih here done

theorem after_next (goes : pass s = .inl t) (n : Nat) : after pass (n + 1) s = after pass n t := by
  rw [after, goes]

theorem after_add (m n : Nat) : after pass (m + n) s = (after pass m s).bind (after pass n) := by
  induction m generalizing s with
  | zero =>
    rw [Nat.zero_add]
    rfl
  | succ m ih =>
    have shift : m + 1 + n = m + n + 1 := by omega
    rw [shift]
    cases passed : pass s with
    | inl next =>
      rw [after_next passed, after_next passed]
      exact ih
    | inr result =>
      rw [after, after, passed]
      rfl

theorem after_of_le {m n : Nat} (le : m ≤ n) (goesOn : after pass n s ≠ none) : after pass m s ≠ none := by
  intro ended
  apply goesOn
  rw [← Nat.add_sub_cancel' le, after_add, ended]
  rfl

theorem run_none_iff (n : Nat) : run pass n s = none ↔ after pass n s ≠ none := by
  induction n generalizing s with
  | zero => simp [run, after]
  | succ n ih =>
    cases passed : pass s with
    | inl next =>
      rw [run_next passed, after_next passed]
      exact ih
    | inr result => simp [run, after, passed]

theorem ends_iff_distinct [Finite σ] : Ends pass s ↔ Distinct pass s := by
  constructor
  · rintro ⟨fuel, result, done⟩ m n t less here again
    have goesOn : ∀ k, after pass k s ≠ none := by
      intro k
      induction k using Nat.strongRecOn with
      | ind k ih =>
        by_cases early : k ≤ n
        · exact after_of_le early (by rw [again]; exact Option.some_ne_none t)
        · -- behind `n` the loop is where it was one round earlier
          have earlier : k = n + (k - n) := by omega
          have round := ih (m + (k - n)) (by omega)
          rw [after_add, here] at round
          rw [earlier, after_add, again]
          exact round
    have stuck := (run_none_iff fuel).mpr (goesOn fuel)
    rw [stuck] at done
    cases done
  · intro distinct
    by_contra endless
    have goesOn : ∀ n, ∃ t, after pass n s = some t := by
      intro n
      apply Option.ne_none_iff_exists'.mp
      apply (run_none_iff n).mp
      apply Option.eq_none_iff_forall_ne_some.mpr
      intro result done
      exact endless ⟨n, result, done⟩
    choose state reaches using goesOn
    obtain ⟨m, n, different, same⟩ := Finite.exists_ne_map_eq_of_infinite state
    rcases Nat.lt_or_gt_of_ne different with less | less
    · exact distinct m n _ less (reaches m) (same ▸ reaches n)
    · exact distinct n m _ less (reaches n) (same ▸ reaches m)

end Passes

/-!
Steps one after the other until one is refused. A step gives a code and a state, or never returns; the
code `ok` lets the next step run.
-/

namespace Attempts

variable {ε σ α δ : Type} [DecidableEq ε] {ok r : ε} {step : α → σ → Option (ε × σ)} {s s' : σ}

def andThen (ok : ε) (first : Option (ε × σ)) (rest : σ → Option (ε × σ)) : Option (ε × σ) :=
  first.bind fun (r, s) => if r = ok then rest s else some (r, s)

def runs (ok : ε) (step : α → σ → Option (ε × σ)) : List α → σ → Option (ε × σ)
  | [], s => some (ok, s)
  | a :: rest, s => andThen ok (step a s) (runs ok step rest)

variable {first : Option (ε × σ)} {rest : σ → Option (ε × σ)}

theorem andThen_ok (is : first = some (ok, s)) : andThen ok first rest = rest s := by
  rw [is]
  exact if_pos rfl

theorem andThen_refused (is : first = some (r, s)) (refused : r ≠ ok) : andThen ok first rest = some (r, s) := by
  rw [is]
  exact if_neg refused

theorem andThen_eq_some :
    andThen ok first rest = some (r, s') ↔
      (∃ s, first = some (ok, s) ∧ rest s = some (r, s')) ∨ first = some (r, s') ∧ r ≠ ok := by
  rcases first with _ | ⟨code, s⟩
  · simp [andThen]
  · by_cases success : code = ok
    · subst success
      rw [andThen_ok rfl]
      constructor
      · exact fun is => .inl ⟨s, rfl, is⟩
      · rintro (⟨s, is, later⟩ | ⟨is, refused⟩)
        · cases is
          exact later
        · cases is
          exact absurd rfl refused
    · rw [andThen_refused rfl success]
      constructor
      · intro is
        cases is
        exact .inr ⟨rfl, success⟩
      · rintro (⟨s, is, later⟩ | ⟨is, refused⟩)
        · cases is
          exact absurd rfl success
        · exact is

theorem andThen_assoc (first : Option (ε × σ)) (second third : σ → Option (ε × σ)) :
    andThen ok (andThen ok first second) third = andThen ok first fun s => andThen ok (second s) third := by
  rcases first with _ | ⟨code, s⟩
  · rfl
  · by_cases success : code = ok
    · subst success
      rw [andThen_ok rfl, andThen_ok rfl]
    · rw [andThen_refused rfl success, andThen_refused rfl success, andThen_refused rfl success]

theorem andThen_pure (first : Option (ε × σ)) : andThen ok first (fun s => some (ok, s)) = first := by
  rcases first with _ | ⟨code, s⟩
  · rfl
  · by_cases success : code = ok
    · subst success
      rw [andThen_ok rfl]
    · rw [andThen_refused rfl success]

theorem runs_append (front back : List α) (s : σ) :
    runs ok step (front ++ back) s = andThen ok (runs ok step front s) (runs ok step back) := by
  induction front generalizing s with
  | nil => exact (andThen_ok rfl).symm
  | cons a front ih =>
    rw [List.cons_append, runs, runs, andThen_assoc]
    exact congrArg (andThen ok (step a s)) (funext ih)

theorem runs_singleton (a : α) (s : σ) : runs ok step [a] s = step a s := andThen_pure _

structure Logs (ok : ε) (step : α → σ → Option (ε × σ)) (log : σ → List δ) : Prop where
  success : ∀ a s s', step a s = some (ok, s') → ∃ new, new ≠ [] ∧ log s' = log s ++ new
  refused : ∀ a s r s', step a s = some (r, s') → r ≠ ok → log s' = log s

theorem Logs.grows {log : σ → List δ} (logs : Logs ok step log) {list : List α}
    (run : runs ok step list s = some (r, s')) : ∃ new, log s' = log s ++ new := by
  induction list generalizing s with
  | nil =>
    cases run
    exact ⟨[], (List.append_nil _).symm⟩
  | cons a list ih =>
    rcases andThen_eq_some.mp run with ⟨s1, first, rest⟩ | ⟨first, refused⟩
    · obtain ⟨new, -, is⟩ := logs.success a s s1 first
      obtain ⟨more, later⟩ := ih rest
      exact ⟨new ++ more, by rw [later, is, List.append_assoc]⟩
    · exact ⟨[], by rw [logs.refused a s r s' first refused, List.append_nil]⟩

/-- A run that is refused has not written to the log, if and only if no step behind a successful first
one is refused. -/
theorem Logs.untouched_iff {log : σ → List δ} (logs : Logs ok step log) {a : α} {rest : List α} :
    (∀ r s', runs ok step (a :: rest) s = some (r, s') → r ≠ ok → log s' = log s) ↔
      ∀ s1, step a s = some (ok, s1) → ∀ r s', runs ok step rest s1 = some (r, s') → r = ok := by
  constructor
  · intro untouched s1 first r s' run
    by_contra refused
    have whole : runs ok step (a :: rest) s = some (r, s') := (andThen_ok first).trans run
    have same := untouched r s' whole refused
    obtain ⟨new, nonempty, is⟩ := logs.success a s s1 first
    obtain ⟨more, later⟩ := logs.grows run
    rw [later, is, List.append_assoc] at same
    have nothing := List.append_eq_nil_iff.mp (List.append_cancel_left (same.trans (List.append_nil _).symm))
    exact nonempty nothing.1
  · intro never r s' run refused
    rcases andThen_eq_some.mp run with ⟨s1, first, later⟩ | ⟨first, -⟩
    · exact absurd (never s1 first r s' later) refused
    · exact logs.refused a s r s' first refused

end Attempts
