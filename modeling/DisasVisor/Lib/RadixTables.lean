import Mathlib.Data.Nat.Notation

/-!
Radix tables: a key is looked up by one index for each level, from the top table down. Which tables
a walk goes through, and what linking an empty table changes.
-/

namespace RadixTables

variable {Key Page Index Entry : Type*}

structure Radix (Key Page Index Entry : Type*) where
  top : Nat
  index : Nat → Key → Index
  child : Entry → Option Page

namespace Radix

variable (r : Radix Key Page Index Entry)

def Agree (level : Nat) (g g' : Key) : Prop := ∀ m, level ≤ m → m ≤ r.top → r.index m g = r.index m g'

inductive TableAt (mem : Page → Index → Entry) (root : Page) : Nat → Key → Page → Prop
  | top (g) : TableAt mem root r.top g root
  | down {level g page below} : TableAt mem root (level + 1) g page →
      r.child (mem page (r.index (level + 1) g)) = some below → TableAt mem root level g below

variable {r} {mem mem' : Page → Index → Entry} {root page page' below : Page} {g g' g'' : Key} {level level' : Nat}

theorem Agree.symm (agree : r.Agree level g g') : r.Agree level g' g := fun m low high => (agree m low high).symm

theorem Agree.trans (agree : r.Agree level g g') (next : r.Agree level g' g'') : r.Agree level g g'' :=
  fun m low high => (agree m low high).trans (next m low high)

theorem Agree.mono (agree : r.Agree level g g') (le : level ≤ level') : r.Agree level' g g' :=
  fun m low high => agree m (Nat.le_trans le low) high

theorem Agree.down (agree : r.Agree (level + 1) g g') (same : r.index level g = r.index level g') :
    r.Agree level g g' := by
  intro m low high
  rcases Nat.eq_or_lt_of_le low with rfl | above
  · exact same
  · exact agree m above high

theorem agree_above_top : r.Agree (r.top + 1) g g' := by
  intro m low high
  omega

theorem TableAt.level_le (at' : r.TableAt mem root level g page) : level ≤ r.top := by
  induction at' with
  | top => exact Nat.le_refl _
  | down _ _ ih => omega

theorem TableAt.at_top (at' : r.TableAt mem root r.top g page) : page = root := by
  generalize isTop : r.top = level at at'
  cases at' with
  | top => rfl
  | down above _ =>
    have le := above.level_le
    omega

theorem TableAt.parent (at' : r.TableAt mem root level g below) (lower : level < r.top) :
    ∃ page, r.TableAt mem root (level + 1) g page ∧ r.child (mem page (r.index (level + 1) g)) = some below := by
  cases at' with
  | top => omega
  | down above link => exact ⟨_, above, link⟩

theorem TableAt.unique (at' : r.TableAt mem root level g page)
    (other : r.TableAt mem root level g page') : page = page' := by
  induction at' generalizing page' with
  | top => exact other.at_top.symm
  | down above link ih =>
    have lower := above.level_le
    obtain ⟨upper, otherAbove, otherLink⟩ := other.parent (by omega)
    rw [ih otherAbove] at link
    exact Option.some.inj (link.symm.trans otherLink)

theorem TableAt.above (at' : r.TableAt mem root level g page) : ∀ {upper}, level < upper →
    upper ≤ r.top → ∃ page' below, r.TableAt mem root upper g page' ∧
      r.child (mem page' (r.index upper g)) = some below := by
  induction at' with
  | top =>
    intro upper low high
    omega
  | @down m k page' below above link ih =>
    intro upper low high
    rcases Nat.eq_or_lt_of_le low with rfl | higher
    · exact ⟨page', below, above, link⟩
    · exact ih higher high

structure EndsAt (r : Radix Key Page Index Entry) (mem : Page → Index → Entry) (root : Page)
    (level : Nat) (g : Key) (page : Page) : Prop where
  tableAt : r.TableAt mem root level g page
  ends : level = 0 ∨ r.child (mem page (r.index level g)) = none

theorem EndsAt.not_below (here : r.EndsAt mem root level g page)
    (at' : r.TableAt mem root level' g page') : ¬level' < level := by
  intro lower
  obtain ⟨upper, below, upperAt, link⟩ := at'.above lower here.tableAt.level_le
  rcases here.ends with rfl | none'
  · exact Nat.not_lt_zero _ lower
  · rw [here.tableAt.unique upperAt, link] at none'
    cases none'

theorem EndsAt.unique (here : r.EndsAt mem root level g page)
    (other : r.EndsAt mem root level' g page') : level = level' ∧ page = page' := by
  have same : level = level' :=
    Nat.le_antisymm (Nat.le_of_not_lt (here.not_below other.tableAt)) (Nat.le_of_not_lt (other.not_below here.tableAt))
  subst same
  exact ⟨rfl, here.tableAt.unique other.tableAt⟩

theorem TableAt.congr (at' : r.TableAt mem root level g page) (agree : r.Agree (level + 1) g g') :
    r.TableAt mem root level g' page := by
  induction at' with
  | top => exact .top g'
  | down above link ih =>
    have same := agree _ (Nat.le_refl _) above.level_le
    exact .down (ih (agree.mono (by omega))) (same ▸ link)

theorem TableAt.mono (kept : ∀ level g page below, r.TableAt mem root (level + 1) g page →
      r.child (mem page (r.index (level + 1) g)) = some below →
        r.child (mem' page (r.index (level + 1) g)) = some below)
    (at' : r.TableAt mem root level g page) : r.TableAt mem' root level g page := by
  induction at' with
  | top => exact .top _
  | down above link ih => exact .down ih (kept _ _ _ _ above link)

def Apart (r : Radix Key Page Index Entry) (mem : Page → Index → Entry) (root : Page) : Prop :=
  ∀ level g level' g' page, r.TableAt mem root level g page → r.TableAt mem root level' g' page →
    level = level' ∧ r.Agree (level + 1) g g'

theorem Apart.entry (apart : r.Apart mem root) (at' : r.TableAt mem root level g page)
    (other : r.TableAt mem root level' g' page) (same : r.index level g = r.index level' g') :
    level = level' ∧ r.Agree level g g' := by
  obtain ⟨rfl, agree⟩ := apart _ _ _ _ _ at' other
  exact ⟨rfl, agree.down same⟩

theorem tableAt_of_empty (empty : ∀ i, r.child (mem root i) = none)
    (at' : r.TableAt mem root level g page) : level = r.top ∧ page = root := by
  induction at' with
  | top => exact ⟨rfl, rfl⟩
  | down above link ih =>
    rw [ih.2, empty] at link
    cases link

theorem apart_of_empty (empty : ∀ i, r.child (mem root i) = none) : r.Apart mem root := by
  intro level g level' g' page at' other
  obtain ⟨rfl, -⟩ := tableAt_of_empty empty at'
  obtain ⟨rfl, -⟩ := tableAt_of_empty empty other
  exact ⟨rfl, agree_above_top⟩

theorem tableAt_iff_of_child (same : ∀ level g page, r.TableAt mem root (level + 1) g page →
      r.child (mem' page (r.index (level + 1) g)) = r.child (mem page (r.index (level + 1) g))) :
    r.TableAt mem' root level g page ↔ r.TableAt mem root level g page := by
  constructor
  · intro at'
    induction at' with
    | top => exact .top _
    | down _ link ih => exact .down ih ((same _ _ _ ih).symm.trans link)
  · exact TableAt.mono fun level g page below above link => (same level g page above).trans link

theorem apart_of_child (apart : r.Apart mem root) (same : ∀ level g page, r.TableAt mem root (level + 1) g page →
      r.child (mem' page (r.index (level + 1) g)) = r.child (mem page (r.index (level + 1) g))) :
    r.Apart mem' root := by
  intro level g level' g' page at' other
  exact apart _ _ _ _ _ ((tableAt_iff_of_child same).mp at') ((tableAt_iff_of_child same).mp other)

structure Links (r : Radix Key Page Index Entry) (mem mem' : Page → Index → Entry) (root : Page)
    (level : Nat) (g : Key) (page new : Page) : Prop where
  above : r.TableAt mem root (level + 1) g page
  free : r.child (mem page (r.index (level + 1) g)) = none
  link : r.child (mem' page (r.index (level + 1) g)) = some new
  fresh : ∀ level' g', ¬r.TableAt mem root level' g' new
  empty : ∀ i, r.child (mem' new i) = none
  same : ∀ page' i, page' ≠ new → (page' = page → i ≠ r.index (level + 1) g) → mem' page' i = mem page' i

variable {new : Page}

variable (links : r.Links mem mem' root level g page new)
include links

theorem Links.kept (at' : r.TableAt mem root level' g' page') : r.TableAt mem' root level' g' page' := by
  refine at'.mono ?_
  intro m k upper below above link
  have old : upper ≠ new := fun same => links.fresh _ _ (same ▸ above)
  rw [links.same upper _ old]
  · exact link
  · intro same index
    rw [same, index, links.free] at link
    cases link

theorem Links.tableAt_iff (apart : r.Apart mem root) : r.TableAt mem' root level' g' page' ↔
      r.TableAt mem root level' g' page' ∨ (level' = level ∧ r.Agree (level + 1) g g' ∧ page' = new) := by
  constructor
  · intro at'
    induction at' with
    | top => exact .inl (.top _)
    | @down m k upper below above link ih =>
      rcases ih with old | ⟨-, -, isNew⟩
      · have notNew : upper ≠ new := fun same => links.fresh _ _ (same ▸ old)
        by_cases here : upper = page ∧ r.index (m + 1) k = r.index (level + 1) g
        · obtain ⟨rfl, index⟩ := here
          obtain ⟨same, agree⟩ := apart.entry links.above old index.symm
          have level_eq : m = level := by omega
          subst level_eq
          rw [index, links.link] at link
          exact .inr ⟨rfl, agree, (Option.some.inj link).symm⟩
        · rw [links.same upper _ notNew fun same index => here ⟨same, index⟩] at link
          exact .inl (.down old link)
      · rw [isNew, links.empty] at link
        cases link
  · rintro (old | ⟨rfl, agree, rfl⟩)
    · exact links.kept old
    · refine .down (links.kept (links.above.congr (agree.mono (by omega)))) ?_
      rw [← agree _ (Nat.le_refl _) links.above.level_le]
      exact links.link

theorem Links.apart (apart : r.Apart mem root) : r.Apart mem' root := by
  intro first k second k' upper at' other
  rcases (links.tableAt_iff apart).mp at' with old | ⟨rfl, agree, rfl⟩
  · rcases (links.tableAt_iff apart).mp other with old' | ⟨-, -, isNew⟩
    · exact apart _ _ _ _ _ old old'
    · exact absurd (isNew ▸ old) (links.fresh _ _)
  · rcases (links.tableAt_iff apart).mp other with old' | ⟨rfl, agree', -⟩
    · exact absurd old' (links.fresh _ _)
    · exact ⟨rfl, agree.symm.trans agree'⟩

end Radix

end RadixTables
