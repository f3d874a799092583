import DisasVisor.Lib.Transitions
import DisasVisor.Mm.BuddyInvariant

/-!
Threads that allocate and free pages. `mm_page_alloc` drops its lock around its recursive call, so
between the locked parts of one call those of the others run.
-/

namespace DisasVisor.Mm

open Function
open Option (some.injEq some.inj)

/-- The next locked part of a call: the first one at a level of the recursion, or the one after
the recursive call has returned a page. -/
inductive Phase where
  | popping (level : Nat)
  | splitting (level page : Nat)
  deriving DecidableEq

structure Call where
  order : Nat
  phase : Phase
  deriving DecidableEq

inductive Outcome where
  /-- `ASSERT (n < NUM_OF_ALLOCSIZE)` fails in the recursive call. -/
  | noMemory
  /-- `ASSERT (old_type == PAGE_TYPE_FREE)` fails. -/
  | corrupt
  | more (call : Call) (s : Buddy)
  | done (p : Nat) (s : Buddy)

def Call.returns (n level p : Nat) (s : Buddy) : Outcome :=
  if level = n then .done p s else .more { order := n, phase := .splitting (level - 1) p } s

def Call.attempt (s : Buddy) (n level : Nat) : Outcome :=
  match s.takePage level with
  | some (p, oldType, s) => if oldType = .free then returns n level p s else .corrupt
  | none =>
    if level + 1 < numOfAllocsize then
      .more { order := n, phase := .popping (level + 1) } s
    else .noMemory

def Call.section (call : Call) (s : Buddy) : Outcome :=
  match call.phase with
  | .popping level => attempt s call.order level
  | .splitting level p => attempt (s.putHalves level p) call.order level

/-- The allocator, the calls of `mm_page_alloc` under way, the blocks that were returned and not
freed, and `mm_free_panicmem` with its next page once it has started. -/
structure Pages where
  buddy : Buddy
  calls : Nat → Option Call
  live : Nat → Option Nat
  panicmemStartPage : Nat
  panicmem : Option (Nat × Nat)

inductive Event where
  | alloc (tid n : Nat)
  | locked (tid : Nat)
  | free (p : Nat)
  | freePanicmem
  | freePanicPage

def Pages.after (s : Pages) (tid n : Nat) : Outcome → Option Pages
  | .noMemory => none
  | .corrupt => none
  | .more next buddy =>
    some { s with
      buddy := buddy, calls := update s.calls tid (some next) }
  | .done p buddy =>
    some { s with
      buddy := buddy, calls := update s.calls tid none,
      live := update s.live p (some n) }

def Pages.step (s : Pages) : Event → Option Pages
  | .alloc tid n =>
    if s.calls tid = none ∧ n < numOfAllocsize then
      some { s with
        calls := update s.calls tid (some { order := n, phase := .popping n }) }
    else none
  | .locked tid =>
    match s.calls tid with
    | none => none
    | some call => s.after tid call.order (call.section s.buddy)
  | .free p =>
    match s.live p with
    | none => none
    | some _ => some { s with buddy := s.buddy.mmPageFree p, live := update s.live p none }
  | .freePanicmem =>
    if s.panicmemStartPage = 0 then some s
    else some { s with panicmemStartPage := 0, panicmem := some (s.panicmemStartPage, 0) }
  | .freePanicPage =>
    match s.panicmem with
    | none => none
    | some (start, i) =>
      if i < numOfPanicmemPages then
        some { s with
          buddy := s.buddy.mmPageFree (start + i), panicmem := some (start, i + 1) }
      else none

def Pages.Step (s : Pages) (event : Event) (t : Pages) : Prop := s.step event = some t

structure Image where
  head : Nat
  stop : Nat
  fits : Buddy.panicmemStart stop + numOfPanicmemPages ≤ numOfPages

def Pages.boot (image : Image) : Pages where
  buddy := Buddy.mmInitGlobal image.head image.stop
  calls _ := none
  live _ := none
  panicmemStartPage := Buddy.panicmemStart image.stop
  panicmem := none

open Buddy

variable {s t : Buddy} {n level p : Nat}

theorem attempt_cases (tidy : s.Tidy) (n level : Nat) :
    (∃ p t, Took s level p t ∧ Call.attempt s n level = Call.returns n level p t) ∨
      (s.freepage level = [] ∧ level + 1 < numOfAllocsize ∧
        Call.attempt s n level = .more { order := n, phase := .popping (level + 1) } s) ∨
      (numOfAllocsize ≤ level + 1 ∧ Call.attempt s n level = .noMemory) := by
  unfold Call.attempt
  cases taken : s.takePage level with
  | some result =>
    obtain ⟨p, oldType, t⟩ := result
    obtain ⟨rfl, took⟩ := tidy.takePage taken
    exact .inl ⟨p, t, took, by simp⟩
  | none =>
    by_cases more : level + 1 < numOfAllocsize
    · exact .inr (.inl ⟨takePage_none taken, more, by simp [more]⟩)
    · exact .inr (.inr ⟨by omega, by simp [more]⟩)

def Pages.HeldBy (s : Pages) (tid p : Nat) : Prop :=
  ∃ n level, s.calls tid = some { order := n, phase := .splitting level p }

def Call.Ready (s : Pages) (call : Call) : Prop :=
  match call.phase with
  | .popping level => call.order ≤ level ∧ level < numOfAllocsize
  | .splitting level p =>
    call.order ≤ level ∧ level + 1 < numOfAllocsize ∧ p < numOfPages ∧
      s.buddy.type p = .allocated ∧ s.buddy.order p = level + 1 ∧ s.live p = none

def Pages.Pending (s : Pages) (p : Nat) : Prop :=
  ∃ i, i < numOfPanicmemPages ∧
    ((s.panicmemStartPage ≠ 0 ∧ p = s.panicmemStartPage + i) ∨
      ∃ start next, s.panicmem = some (start, next) ∧ next ≤ i ∧ p = start + i)

/-- Each allocated block has one owner, and each owner a block of the order it has asked for. The
spare block, if there is one, is between owners. -/
structure Owned (s : Pages) (spare : Option Nat) : Prop where
  tidy : s.buddy.Tidy
  live : ∀ p n, s.live p = some n → p < numOfPages ∧ s.buddy.type p = .allocated ∧ s.buddy.order p = n
  ready : ∀ tid call, s.calls tid = some call → call.Ready s
  apart : ∀ tid other p, s.HeldBy tid p → s.HeldBy other p → tid = other
  owner : ∀ p, p < numOfPages → s.buddy.type p = .allocated → spare ≠ some p →
    (∃ n, s.live p = some n) ∨ ∃ tid, s.HeldBy tid p
  reserved : ∀ p, s.buddy.type p = .reserved → s.buddy.order p = 0
  pending : ∀ p, s.Pending p → p < numOfPages ∧ s.buddy.type p = .reserved
  idle : s.panicmemStartPage ≠ 0 → s.panicmem = none
  spareLive : ∀ p, spare = some p → s.live p = none
  spareHeldBy : ∀ p, spare = some p → ∀ tid, ¬s.HeldBy tid p
  sparePending : ∀ p, spare = some p → ¬s.Pending p

variable {tid : Nat} {next : Pages}

theorem Owned.heldBy {s : Pages} {spare : Option Nat} (owned : Owned s spare) {p : Nat} (held : s.HeldBy tid p) :
    s.buddy.type p = .allocated ∧ s.live p = none := by
  obtain ⟨n, level, call⟩ := held
  obtain ⟨-, -, -, type, -, notLive⟩ := owned.ready tid _ call
  exact ⟨type, notLive⟩

theorem Owned.giveBack {s : Pages} (owned : Owned s (some p)) (tidy : t.Tidy)
    (keeps : Keeps s.buddy t p) (gone : ¬t.Held p) : Owned { s with buddy := t } none where
  tidy := tidy
  live q n isLive := by
    obtain ⟨page, type, order⟩ := owned.live q n isLive
    have other : q ≠ p := by
      rintro rfl
      rw [owned.spareLive q rfl] at isLive
      cases isLive
    obtain ⟨sameType, sameOrder⟩ := keeps q other (.inl (.inl type))
    exact ⟨page, sameType.trans type, sameOrder.trans order⟩
  ready tid call calls := by
    have ready := owned.ready tid call calls
    obtain ⟨n, phase⟩ := call
    cases phase with
    | popping level => exact ready
    | splitting level q =>
      obtain ⟨low, high, page, type, order, isNot⟩ := ready
      have other : q ≠ p := by
        rintro rfl
        exact owned.spareHeldBy q rfl tid ⟨n, level, calls⟩
      obtain ⟨sameType, sameOrder⟩ := keeps q other (.inl (.inl type))
      exact ⟨low, high, page, sameType.trans type, sameOrder.trans order, isNot⟩
  apart := owned.apart
  owner q page type _ := by
    have other : q ≠ p := by
      rintro rfl
      exact gone (.inl type)
    obtain ⟨sameType, -⟩ := keeps q other (.inr (.inl type))
    exact owned.owner q page (sameType.symm.trans type) (fun same => other (some.inj same).symm)
  reserved q type := by
    have other : q ≠ p := by
      rintro rfl
      exact gone (.inr type)
    obtain ⟨sameType, sameOrder⟩ := keeps q other (.inr (.inr type))
    exact sameOrder.trans (owned.reserved q (sameType.symm.trans type))
  pending q pending := by
    obtain ⟨page, type⟩ := owned.pending q pending
    have other : q ≠ p := by
      rintro rfl
      exact owned.sparePending q rfl pending
    obtain ⟨sameType, -⟩ := keeps q other (.inl (.inr type))
    exact ⟨page, sameType.trans type⟩
  idle := owned.idle
  spareLive _ none := by cases none
  spareHeldBy _ none := by cases none
  sparePending _ none := by cases none

theorem Owned.take {s : Pages} (owned : Owned s none) (took : Took s.buddy level p t) :
    Owned { s with buddy := t } (some p) where
  tidy := took.tidy owned.tidy
  live q n isLive := by
    obtain ⟨page, type, order⟩ := owned.live q n isLive
    have other : q ≠ p := by
      rintro rfl
      rw [took.free] at type
      cases type
    exact ⟨page, by rw [took.types, if_neg other, type], by rw [took.orders, order]⟩
  ready tid call calls := by
    have ready := owned.ready tid call calls
    obtain ⟨n, phase⟩ := call
    cases phase with
    | popping level => exact ready
    | splitting level q =>
      obtain ⟨low, high, page, type, order, isNot⟩ := ready
      have other : q ≠ p := by
        rintro rfl
        rw [took.free] at type
        cases type
      exact ⟨low, high, page, by rw [took.types, if_neg other, type],
        by rw [took.orders, order], isNot⟩
  apart := owned.apart
  owner q page type spare := by
    have other : q ≠ p := by
      rintro rfl
      exact spare rfl
    rw [took.types, if_neg other] at type
    exact owned.owner q page type (by simp)
  reserved q type := by
    rw [took.types] at type
    split at type
    · cases type
    · rw [took.orders]
      exact owned.reserved q type
  pending q pending := by
    obtain ⟨page, type⟩ := owned.pending q pending
    have other : q ≠ p := by
      rintro rfl
      rw [took.free] at type
      cases type
    exact ⟨page, by rw [took.types, if_neg other, type]⟩
  idle := owned.idle
  spareLive q same := by
    cases same
    cases isLive : s.live p with
    | none => rfl
    | some n =>
      obtain ⟨-, type, -⟩ := owned.live p n isLive
      rw [took.free] at type
      cases type
  spareHeldBy q same tid held := by
    cases same
    have type := (owned.heldBy held).1
    rw [took.free] at type
    cases type
  sparePending q same pending := by
    cases same
    have type := (owned.pending p pending).2
    rw [took.free] at type
    cases type

theorem heldBy_update {s : Pages} {other q : Nat} {call : Option Call} :
    Pages.HeldBy { s with calls := update s.calls tid call } other q ↔
      if other = tid then ∃ n level, call = some { order := n, phase := .splitting level q }
      else s.HeldBy other q := by
  unfold Pages.HeldBy
  by_cases same : other = tid
  · subst same
    simp
  · simp [same]

theorem Owned.setIdle {s : Pages} {spare : Option Nat} {call : Option Call} (owned : Owned s spare)
    (before : ∀ q, ¬s.HeldBy tid q) (after : ∀ next, call = some next → ∃ level, next.phase = .popping level ∧
      next.order ≤ level ∧ level < numOfAllocsize) : Owned { s with calls := update s.calls tid call } spare := by
  have same : ∀ other q, Pages.HeldBy { s with calls := update s.calls tid call } other q ↔ s.HeldBy other q := by
    intro other q
    rw [heldBy_update]
    by_cases here : other = tid
    · subst here
      rw [if_pos rfl]
      constructor
      · rintro ⟨n, level, isCall⟩
        obtain ⟨other, isPhase, -⟩ := after _ isCall
        cases isPhase
      · exact fun held => absurd held (before q)
    · rw [if_neg here]
  refine ⟨owned.tidy, owned.live, ?_, ?_, ?_, owned.reserved, owned.pending, owned.idle,
    owned.spareLive, ?_, owned.sparePending⟩
  · intro other next isNext
    by_cases here : other = tid
    · subst here
      simp only [update_self] at isNext
      obtain ⟨level, phase, bounds⟩ := after next isNext
      unfold Call.Ready
      rw [phase]
      exact bounds
    · simp only [update_of_ne here] at isNext
      exact owned.ready other next isNext
  · intro one two q first second
    rw [same] at first second
    exact owned.apart one two q first second
  · intro q page type notSpare
    rcases owned.owner q page type notSpare with isLive | ⟨other, held⟩
    · exact .inl isLive
    · exact .inr ⟨other, (same other q).mpr held⟩
  · intro q isSpare other
    rw [same]
    exact owned.spareHeldBy q isSpare other

theorem Owned.letGo {s : Pages} {n : Nat} (owned : Owned s none)
    (calls : s.calls tid = some { order := n, phase := .splitting level p }) :
    Owned { s with calls := update s.calls tid none } (some p) := by
  have held : s.HeldBy tid p := ⟨n, level, calls⟩
  have others : ∀ other q, Pages.HeldBy { s with calls := update s.calls tid none } other q ↔
      other ≠ tid ∧ s.HeldBy other q := by
    intro other q
    rw [heldBy_update]
    by_cases here : other = tid
    · simp [here]
    · simp [here]
  refine ⟨owned.tidy, owned.live, ?_, ?_, ?_, owned.reserved, owned.pending, owned.idle, ?_, ?_, ?_⟩
  · intro other next isNext
    by_cases here : other = tid
    · simp [here] at isNext
    · simp only [update_of_ne here] at isNext
      exact owned.ready other next isNext
  · intro one two q first second
    rw [others] at first second
    exact owned.apart one two q first.2 second.2
  · intro q page type notSpare
    rcases owned.owner q page type (by simp) with isLive | ⟨other, heldBy⟩
    · exact .inl isLive
    · refine .inr ⟨other, (others other q).mpr ⟨?_, heldBy⟩⟩
      rintro rfl
      obtain ⟨n', level', calls'⟩ := heldBy
      rw [calls, some.injEq, Call.mk.injEq, Phase.splitting.injEq] at calls'
      exact notSpare (by rw [calls'.2.2])
  · intro q same
    cases same
    exact (owned.heldBy held).2
  · intro q same other heldBy
    cases same
    obtain ⟨ne, heldBy⟩ := (others other p).mp heldBy
    exact ne (owned.apart other tid p heldBy held)
  · intro q same pending
    cases same
    have type := (owned.pending p pending).2
    rw [(owned.heldBy held).1] at type
    cases type

theorem Owned.giveCall {s : Pages} {n : Nat} (owned : Owned s (some p)) (page : p < numOfPages)
    (type : s.buddy.type p = .allocated) (order : s.buddy.order p = level + 1)
    (bounds : n ≤ level ∧ level + 1 < numOfAllocsize) (idle : ∀ q, ¬s.HeldBy tid q) :
    Owned { s with
      calls := update s.calls tid (some { order := n, phase := .splitting level p }) } none := by
  have others : ∀ other q, Pages.HeldBy { s with
        calls := update s.calls tid
          (some { order := n, phase := .splitting level p }) } other q ↔
      (other = tid ∧ q = p) ∨ s.HeldBy other q := by
    intro other q
    rw [heldBy_update]
    by_cases here : other = tid
    · subst here
      simp only [if_true, idle q, or_false, true_and, some.injEq, Call.mk.injEq, Phase.splitting.injEq]
      constructor
      · rintro ⟨n', level', -, -, same⟩
        exact same.symm
      · rintro rfl
        exact ⟨n, level, rfl, rfl, rfl⟩
    · simp [here]
  refine ⟨owned.tidy, owned.live, ?_, ?_, ?_, owned.reserved, owned.pending, owned.idle, ?_, ?_, ?_⟩
  · intro other next isNext
    by_cases here : other = tid
    · subst here
      simp only [update_self, some.injEq] at isNext
      subst isNext
      exact ⟨bounds.1, bounds.2, page, type, order, owned.spareLive p rfl⟩
    · simp only [update_of_ne here] at isNext
      exact owned.ready other next isNext
  · intro one two q first second
    rw [others] at first second
    rcases first with ⟨rfl, rfl⟩ | first
    · rcases second with ⟨rfl, -⟩ | second
      · rfl
      · exact absurd second (owned.spareHeldBy q rfl two)
    · rcases second with ⟨rfl, rfl⟩ | second
      · exact absurd first (owned.spareHeldBy q rfl one)
      · exact owned.apart one two q first second
  · intro q page' type' _
    by_cases same : q = p
    · exact .inr ⟨tid, (others tid q).mpr (.inl ⟨rfl, same⟩)⟩
    · rcases owned.owner q page' type' (fun isSpare => same (some.inj isSpare).symm) with
        isLive | ⟨other, held⟩
      · exact .inl isLive
      · exact .inr ⟨other, (others other q).mpr (.inr held)⟩
  · intro q none
    cases none
  · intro q none
    cases none
  · intro q none
    cases none

theorem Owned.giveLive {s : Pages} (owned : Owned s (some p)) (page : p < numOfPages)
    (type : s.buddy.type p = .allocated) (order : s.buddy.order p = n) :
    Owned { s with live := update s.live p (some n) } none := by
  refine ⟨owned.tidy, ?_, ?_, owned.apart, ?_, owned.reserved, owned.pending, owned.idle, ?_, ?_, ?_⟩
  · intro q k isLive
    by_cases same : q = p
    · subst same
      simp only [update_self, some.injEq] at isLive
      exact ⟨page, type, order.trans isLive⟩
    · simp only [update_of_ne same] at isLive
      exact owned.live q k isLive
  · intro tid call calls
    have ready := owned.ready tid call calls
    obtain ⟨k, phase⟩ := call
    cases phase with
    | popping level => exact ready
    | splitting level q =>
      obtain ⟨low, high, qPage, qType, qOrder, isNot⟩ := ready
      have other : q ≠ p := by
        rintro rfl
        exact owned.spareHeldBy q rfl tid ⟨k, level, calls⟩
      refine ⟨low, high, qPage, qType, qOrder, ?_⟩
      simp only [update_of_ne other]
      exact isNot
  · intro q qPage qType _
    by_cases same : q = p
    · subst same
      exact .inl ⟨n, by simp⟩
    · rcases owned.owner q qPage qType (fun isSpare => same (some.inj isSpare).symm) with
        ⟨k, isLive⟩ | held
      · exact .inl ⟨k, by simp only [update_of_ne same]; exact isLive⟩
      · exact .inr held
  · intro q none
    cases none
  · intro q none
    cases none
  · intro q none
    cases none

theorem step_locked {s : Pages} {call : Call} (calls : s.calls tid = some call) :
    s.step (.locked tid) = s.after tid call.order (call.section s.buddy) := by
  rw [Pages.step, calls]

theorem after_idle (s : Pages) (buddy : Buddy) (tid : Nat) (outcome : Outcome) :
    Pages.after { s with buddy := buddy, calls := update s.calls tid none } tid n outcome =
      s.after tid n outcome := by
  cases outcome with
  | noMemory => rfl
  | corrupt => rfl
  | more next buddy => simp [Pages.after]
  | done p buddy => simp [Pages.after]

theorem owned_attempt {s : Pages} (tid : Nat) (owned : Owned s none) (idle : s.calls tid = none)
    (bounds : n ≤ level ∧ level < numOfAllocsize) (steps : s.after tid n (Call.attempt s.buddy n level) = some next) :
    Owned next none := by
  have notHeldBy : ∀ q, ¬s.HeldBy tid q := by
    rintro q ⟨k, other, calls⟩
    rw [idle] at calls
    cases calls
  rcases attempt_cases owned.tidy n level with ⟨p, t, took, result⟩ | ⟨-, more, result⟩ | ⟨-, result⟩
  · rw [result, Call.returns] at steps
    have spare := owned.take took
    have type : t.type p = .allocated := by rw [took.types, if_pos rfl]
    have order : t.order p = level := by rw [took.orders, took.order]
    by_cases last : level = n
    · rw [if_pos last] at steps
      subst last
      have given := spare.giveLive took.page type order
      have idleAfter : update s.calls tid none = s.calls := by
        rw [← idle]
        exact Function.update_eq_self tid s.calls
      simp only [Pages.after, idleAfter, some.injEq] at steps
      rwa [← steps]
    · rw [if_neg last] at steps
      obtain ⟨below, rfl⟩ : ∃ below, level = below + 1 := ⟨level - 1, by omega⟩
      have given : Owned { s with
          buddy := t,
          calls := update s.calls tid
            (some { order := n, phase := .splitting below p }) } none :=
        spare.giveCall took.page type order ⟨by omega, bounds.2⟩ notHeldBy
      simp only [Pages.after, some.injEq] at steps
      rwa [← steps]
  · rw [result] at steps
    simp only [Pages.after, some.injEq] at steps
    rw [← steps]
    refine owned.setIdle notHeldBy ?_
    rintro call isCall
    cases isCall
    exact ⟨level + 1, rfl, by simp only; omega, more⟩
  · rw [result] at steps
    cases steps

theorem Owned.halve {s : Pages} {n : Nat} (owned : Owned s none)
    (calls : s.calls tid = some { order := n, phase := .splitting level p }) :
    Owned { s with
      buddy := s.buddy.putHalves level p, calls := update s.calls tid none } none := by
  obtain ⟨-, high, page, type, order, -⟩ := owned.ready tid _ calls
  have small : level < 12 := by
    rw [numOfAllocsize] at high
    omega
  obtain ⟨tidy, keeps, gone, -⟩ := takePage_putHalves owned.tidy page (.inl type) order small
  exact (owned.letGo calls).giveBack tidy keeps gone

theorem owned_locked {s : Pages} (owned : Owned s none) (steps : s.step (.locked tid) = some next) :
    Owned next none := by
  cases calls : s.calls tid with
  | none => simp [Pages.step, calls] at steps
  | some call =>
    rw [step_locked calls] at steps
    have ready := owned.ready tid call calls
    obtain ⟨n, phase⟩ := call
    cases phase with
    | popping level =>
      have idle : Owned { s with calls := update s.calls tid none } none := by
        refine owned.setIdle ?_ (fun call isCall => by cases isCall)
        rintro q ⟨k, other, calls'⟩
        rw [calls] at calls'
        cases calls'
      refine owned_attempt tid idle (by simp) ready ?_
      exact (after_idle s s.buddy tid _).trans steps
    | splitting level p =>
      obtain ⟨low, high, -⟩ := ready
      refine owned_attempt tid (owned.halve calls) (by simp) ⟨low, by omega⟩ ?_
      exact (after_idle s _ tid _).trans steps

theorem Owned.letGoLive {s : Pages} (owned : Owned s none) (isLive : s.live p = some n) :
    Owned { s with live := update s.live p none } (some p) := by
  obtain ⟨-, type, -⟩ := owned.live p n isLive
  refine ⟨owned.tidy, ?_, ?_, owned.apart, ?_, owned.reserved, owned.pending, owned.idle, ?_, ?_, ?_⟩
  · intro q k stillLive
    by_cases same : q = p
    · simp [same] at stillLive
    · simp only [update_of_ne same] at stillLive
      exact owned.live q k stillLive
  · intro tid call calls
    have ready := owned.ready tid call calls
    obtain ⟨k, phase⟩ := call
    cases phase with
    | popping level => exact ready
    | splitting level q =>
      obtain ⟨low, high, qPage, qType, qOrder, isNot⟩ := ready
      refine ⟨low, high, qPage, qType, qOrder, ?_⟩
      by_cases same : q = p
      · simp [same]
      · simp only [update_of_ne same]
        exact isNot
  · intro q qPage qType notSpare
    have other : q ≠ p := by
      rintro rfl
      exact notSpare rfl
    rcases owned.owner q qPage qType (by simp) with ⟨k, stillLive⟩ | held
    · exact .inl ⟨k, by simp only [update_of_ne other]; exact stillLive⟩
    · exact .inr held
  · intro q same
    cases same
    simp
  · intro q same tid held
    cases same
    have notLive := (owned.heldBy held).2
    rw [isLive] at notLive
    cases notLive
  · intro q same pending
    cases same
    have reserved := (owned.pending p pending).2
    rw [type] at reserved
    cases reserved

theorem owned_free {s : Pages} (owned : Owned s none) (steps : s.step (.free p) = some next) : Owned next none := by
  cases isLive : s.live p with
  | none => simp [Pages.step, isLive] at steps
  | some n =>
    simp only [Pages.step, isLive, some.injEq] at steps
    obtain ⟨page, type, -⟩ := owned.live p n isLive
    obtain ⟨tidy, gone, keeps, -⟩ := freed_mmPageFree owned.tidy page (.inl type)
    have given := (owned.letGoLive isLive).giveBack tidy keeps gone
    rwa [← steps]

theorem owned_freePanicmem {s : Pages} (owned : Owned s none) (steps : s.step .freePanicmem = some next) :
    Owned next none := by
  by_cases started : s.panicmemStartPage = 0
  · simp only [Pages.step, started, if_true, some.injEq] at steps
    rwa [← steps]
  · simp only [Pages.step, started, if_false, some.injEq] at steps
    have pages : ∀ q, next.Pending q → s.Pending q := by
      rw [← steps]
      rintro q ⟨i, small, ⟨running, -⟩ | ⟨start, first, freeing, -, rfl⟩⟩
      · exact absurd rfl running
      · simp only [some.injEq, Prod.mk.injEq] at freeing
        exact ⟨i, small, .inl ⟨started, by rw [freeing.1]⟩⟩
    subst steps
    exact ⟨owned.tidy, owned.live, owned.ready, owned.apart, owned.owner, owned.reserved,
      fun q pending => owned.pending q (pages q pending), fun running => absurd rfl running,
      owned.spareLive, owned.spareHeldBy, fun q none => by cases none⟩

theorem owned_freePanicPage {s : Pages} (owned : Owned s none) (steps : s.step .freePanicPage = some next) :
    Owned next none := by
  cases freeing : s.panicmem with
  | none => simp [Pages.step, freeing] at steps
  | some state =>
    obtain ⟨start, i⟩ := state
    by_cases more : i < numOfPanicmemPages
    · simp only [Pages.step, freeing, if_pos more, some.injEq] at steps
      obtain ⟨page, type⟩ := owned.pending (start + i) ⟨i, more, .inr ⟨start, i, freeing, Nat.le_refl i, rfl⟩⟩
      obtain ⟨tidy, gone, keeps, -⟩ := freed_mmPageFree owned.tidy page (.inr type)
      have pages : ∀ q, Pages.Pending { s with panicmem := some (start, i + 1) } q → s.Pending q ∧ q ≠ start + i := by
        rintro q ⟨j, small, ⟨running, -⟩ | ⟨first, next, going, low, rfl⟩⟩
        · have none := owned.idle running
          rw [freeing] at none
          cases none
        · cases going
          exact ⟨⟨j, small, .inr ⟨start, i, freeing, by omega, rfl⟩⟩, by omega⟩
      have spare : Owned { s with panicmem := some (start, i + 1) } (some (start + i)) := by
        refine ⟨owned.tidy, owned.live, owned.ready, owned.apart,
          fun q qPage qType _ => owned.owner q qPage qType (by simp), owned.reserved,
          fun q pending => owned.pending q (pages q pending).1, ?_, ?_, ?_, ?_⟩
        · intro running
          have none := owned.idle running
          rw [freeing] at none
          cases none
        · intro q same
          cases same
          cases isLive : s.live (start + i) with
          | none => rfl
          | some n =>
            have allocated := (owned.live _ n isLive).2.1
            rw [type] at allocated
            cases allocated
        · intro q same tid held
          cases same
          have allocated := (owned.heldBy held).1
          rw [type] at allocated
          cases allocated
        · intro q same pending
          cases same
          exact (pages _ pending).2 rfl
      have given := spare.giveBack tidy keeps gone
      rwa [← steps]
    · simp [Pages.step, freeing, more] at steps

theorem owned_alloc {s : Pages} (owned : Owned s none) (steps : s.step (.alloc tid n) = some next) :
    Owned next none := by
  by_cases starts : s.calls tid = none ∧ n < numOfAllocsize
  · simp only [Pages.step, if_pos starts, some.injEq] at steps
    rw [← steps]
    refine owned.setIdle ?_ ?_
    · rintro q ⟨k, level, calls⟩
      rw [starts.1] at calls
      cases calls
    · rintro call isCall
      cases isCall
      exact ⟨n, rfl, Nat.le_refl n, starts.2⟩
  · simp [Pages.step, if_neg starts] at steps

theorem owned_step {s : Pages} {event : Event} (owned : Owned s none) (steps : s.Step event next) :
    Owned next none := by
  cases event with
  | alloc tid n => exact owned_alloc owned steps
  | locked tid => exact owned_locked owned steps
  | free p => exact owned_free owned steps
  | freePanicmem => exact owned_freePanicmem owned steps
  | freePanicPage => exact owned_freePanicPage owned steps

theorem owned_start {image : Image} {s : Buddy} (booting : Booting image.head image.stop numOfPages s) :
    Owned ⟨s, fun _ => none, fun _ => none, panicmemStart image.stop, none⟩ none := by
  have notAllocated : ∀ p, s.type p ≠ .allocated := by
    intro p type
    have reserved := (booting.reserved p (.inl type)).1
    rw [type] at reserved
    cases reserved
  refine ⟨booting.tidy, ?_, ?_, ?_, ?_, ?_, ?_, fun _ => rfl, ?_, ?_, ?_⟩
  · intro p n live
    cases live
  · intro tid call calls
    cases calls
  · rintro tid other p ⟨n, level, calls⟩
    cases calls
  · intro p _ type
    exact absurd type (notAllocated p)
  · intro p type
    exact (booting.reserved p (.inr type)).2
  · rintro p ⟨i, small, ⟨-, rfl⟩ | ⟨start, next, freeing, -⟩⟩
    · have page : panicmemStart image.stop + i < numOfPages := by
        have := image.fits
        omega
      have kept : Kept image.head image.stop (panicmemStart image.stop + i) := .inr (by omega)
      exact ⟨page, (booting.reserved _ ((booting.held _).mpr (.inr kept))).1⟩
    · cases freeing
  · intro p none
    cases none
  · intro p none
    cases none
  · intro p none
    cases none

theorem owned_boot (image : Image) : Owned (Pages.boot image) none := by
  rw [Pages.boot]
  exact owned_start (booting_mmInitGlobal image.head image.stop)

end DisasVisor.Mm
