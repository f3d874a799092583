import Mathlib.Data.Set.Insert

/-!
Ledgers of what is in use and which place owns it. A place that is empty takes what is not in use,
and what a place gives back is no longer in use.
-/

namespace Ledgers

open Function

variable {ι σ π : Type*} [DecidableEq σ]

structure Ledger (σ π : Type*) where
  owner : σ → Option π
  used : Set π
  returned : List π

namespace Ledger

variable {l l' l'' : Ledger σ π} {p q : π} {place other : σ}

structure Balanced (l : Ledger σ π) : Prop where
  used : ∀ {place p}, l.owner place = some p → p ∈ l.used
  single : ∀ {place other p}, l.owner place = some p → l.owner other = some p → place = other

def Foreign (l : Ledger σ π) (p : π) : Prop := p ∈ l.used ∧ ∀ place, l.owner place ≠ some p

def Owns (l : Ledger σ π) (p : π) : Prop := ∃ place, l.owner place = some p

def take (l : Ledger σ π) (place : σ) (p : π) : Ledger σ π :=
  { l with owner := update l.owner place (some p), used := insert p l.used }

def give (l : Ledger σ π) (place : σ) (p : π) : Ledger σ π where
  owner := update l.owner place none
  used := l.used \ {p}
  returned := p :: l.returned

def reserve (l : Ledger σ π) (p : π) : Ledger σ π := { l with used := insert p l.used }

def assign (l : Ledger σ π) (place : σ) (p : π) : Ledger σ π := { l with owner := update l.owner place (some p) }

inductive Give (l : Ledger σ π) : Ledger σ π → Prop
  | give (place : σ) (p : π) : l.owner place = some p → Give l (l.give place p)

inductive Step (l : Ledger σ π) : Ledger σ π → Prop
  | take (place : σ) (p : π) : l.owner place = none → p ∉ l.used → Step l (l.take place p)
  | give (l' : Ledger σ π) : Give l l' → Step l l'
  | reserve (p : π) : p ∉ l.used → Step l (l.reserve p)

def Moves : Ledger σ π → Ledger σ π → Prop := Relation.ReflTransGen Step

def Gives : Ledger σ π → Ledger σ π → Prop := Relation.ReflTransGen Give

theorem owner_take (l : Ledger σ π) (place : σ) (p : π) : (l.take place p).owner place = some p := update_self _ _ _

theorem owner_take_ne (l : Ledger σ π) (p : π) (differs : other ≠ place) :
    (l.take place p).owner other = l.owner other := update_of_ne differs _ _

theorem owner_give_ne (l : Ledger σ π) (p : π) (differs : other ≠ place) :
    (l.give place p).owner other = l.owner other := update_of_ne differs _ _

theorem assign_reserve (l : Ledger σ π) (place : σ) (p : π) : (l.reserve p).assign place p = l.take place p := rfl

theorem assign_take (l : Ledger σ π) (place other : σ) (p q : π) :
    ((l.reserve p).take other q).assign place p = (l.take other q).take place p := by
  simp only [take, assign, reserve, Set.insert_comm]

theorem owner_give (found : (l.give place p).owner other = some q) : l.owner other = some q ∧ other ≠ place := by
  by_cases same : other = place
  · rw [same] at found
    have empty : (l.give place p).owner place = none := update_self _ _ _
    rw [empty] at found
    cases found
  · rw [owner_give_ne l p same] at found
    exact ⟨found, same⟩

theorem Moves.refl (l : Ledger σ π) : l.Moves l := Relation.ReflTransGen.refl

theorem Moves.trans (first : l.Moves l') (next : l'.Moves l'') : l.Moves l'' := Relation.ReflTransGen.trans first next

theorem Moves.take (empty : l.owner place = none) (unused : p ∉ l.used) : l.Moves (l.take place p) :=
  Relation.ReflTransGen.single (Step.take place p empty unused)

theorem Moves.reserve (unused : p ∉ l.used) : l.Moves (l.reserve p) :=
  Relation.ReflTransGen.single (Step.reserve p unused)

theorem Gives.refl (l : Ledger σ π) : l.Gives l := Relation.ReflTransGen.refl

theorem Gives.trans (first : l.Gives l') (next : l'.Gives l'') : l.Gives l'' := Relation.ReflTransGen.trans first next

theorem Gives.give (own : l.owner place = some p) : l.Gives (l.give place p) :=
  Relation.ReflTransGen.single (Give.give place p own)

theorem Gives.moves (gives : l.Gives l') : l.Moves l' := by
  induction gives with
  | refl => exact Moves.refl l
  | tail _ give ih => exact ih.tail (Step.give _ give)

section

variable (balanced : l.Balanced)
include balanced

theorem Balanced.take (unused : p ∉ l.used) : (l.take place p).Balanced := by
  have fresh : ∀ other, l.owner other ≠ some p := fun other own => unused (balanced.used own)
  constructor
  · intro other q own
    by_cases same : other = place
    · rw [same, owner_take] at own
      cases own
      exact Set.mem_insert p l.used
    · rw [owner_take_ne l p same] at own
      exact Set.mem_insert_of_mem p (balanced.used own)
  · intro one other q own own'
    by_cases same : one = place
    · by_cases same' : other = place
      · rw [same, same']
      · rw [same, owner_take] at own
        rw [owner_take_ne l p same', ← own] at own'
        exact absurd own' (fresh other)
    · by_cases same' : other = place
      · rw [same', owner_take] at own'
        rw [owner_take_ne l p same, ← own'] at own
        exact absurd own (fresh one)
      · rw [owner_take_ne l p same] at own
        rw [owner_take_ne l p same'] at own'
        exact balanced.single own own'

theorem Balanced.give (own : l.owner place = some p) : (l.give place p).Balanced := by
  constructor
  · intro other q found
    obtain ⟨before, differs⟩ := owner_give found
    refine ⟨balanced.used before, fun same => ?_⟩
    rw [Set.mem_singleton_iff.mp same] at before
    exact differs (balanced.single before own)
  · intro one other q found found'
    exact balanced.single (owner_give found).1 (owner_give found').1

theorem Balanced.reserve : (l.reserve p).Balanced where
  used own := Set.mem_insert_of_mem p (balanced.used own)
  single := balanced.single

theorem Balanced.lose (owner : ∀ place p, l'.owner place = some p → l.owner place = some p)
    (used : ∀ place p, l'.owner place = some p → p ∈ l'.used) : l'.Balanced where
  used own := used _ _ own
  single own own' := balanced.single (owner _ _ own) (owner _ _ own')

end

theorem Step.balanced (step : Step l l') (balanced : l.Balanced) : l'.Balanced := by
  cases step with
  | take place p _ unused => exact balanced.take unused
  | give _ give =>
    cases give with
    | give place p own => exact balanced.give own
  | reserve p _ => exact balanced.reserve

theorem Step.foreign (step : Step l l') (balanced : l.Balanced) (foreign : l.Foreign p) : l'.Foreign p := by
  obtain ⟨inUse, others⟩ := foreign
  cases step with
  | take place q _ unused =>
    refine ⟨Set.mem_insert_of_mem q inUse, fun other own => ?_⟩
    by_cases same : other = place
    · rw [same, owner_take] at own
      exact unused (Option.some.inj own ▸ inUse)
    · rw [owner_take_ne l q same] at own
      exact others other own
  | give _ give =>
    cases give with
    | give place q own =>
      refine ⟨⟨inUse, fun same => ?_⟩, fun other found => others other (owner_give found).1⟩
      rw [Set.mem_singleton_iff.mp same] at others
      exact others place own
  | reserve q _ => exact ⟨Set.mem_insert_of_mem q inUse, others⟩

theorem Moves.balanced (moves : l.Moves l') (balanced : l.Balanced) : l'.Balanced := by
  induction moves with
  | refl => exact balanced
  | tail _ step ih => exact step.balanced ih

theorem Moves.foreign (moves : l.Moves l') (balanced : l.Balanced) :
    (∀ p, l.Foreign p → l'.Foreign p) ∧ ∃ pages, l'.returned = pages ++ l.returned ∧ ∀ p ∈ pages, ¬l.Foreign p := by
  induction moves with
  | refl => exact ⟨fun _ foreign => foreign, [], rfl, fun p member => by cases member⟩
  | @tail middle l' before step ih =>
    obtain ⟨stays, pages, back, own⟩ := ih
    have balanced' := Moves.balanced before balanced
    refine ⟨fun p foreign => step.foreign balanced' (stays p foreign), ?_⟩
    cases step with
    | take place q _ _ => exact ⟨pages, back, own⟩
    | reserve q _ => exact ⟨pages, back, own⟩
    | give _ give =>
      cases give with
      | give place q found =>
        refine ⟨q :: pages, congrArg (List.cons q) back, fun p member foreign => ?_⟩
        rcases List.mem_cons.mp member with same | earlier
        · exact (stays p foreign).2 place (same ▸ found)
        · exact own p earlier foreign

theorem Gives.returned (gives : l.Gives l') (balanced : l.Balanced) :
    ∃ pages, l'.returned = pages ++ l.returned ∧ pages.Nodup ∧ l'.used = l.used \ {p | p ∈ pages} ∧
      ∀ p, l.Owns p ↔ p ∈ pages ∨ l'.Owns p := by
  induction gives with
  | refl =>
    refine ⟨[], rfl, List.nodup_nil, ?_, ?_⟩
    · ext p
      simp
    · intro p
      simp
  | @tail middle l' before give ih =>
    obtain ⟨pages, back, nodup, used, owned⟩ := ih
    have balanced' := Moves.balanced (Gives.moves before) balanced
    cases give with
    | give place q found =>
      have unreturned : q ∉ pages := by
        intro member
        have still := balanced'.used found
        rw [used] at still
        exact still.2 member
      refine ⟨q :: pages, congrArg (List.cons q) back, List.nodup_cons.mpr ⟨unreturned, nodup⟩, ?_, ?_⟩
      · ext p
        simp only [Ledger.give, used, Set.mem_sdiff, Set.mem_setOf_eq, List.mem_cons, Set.mem_singleton_iff, not_or]
        constructor
        · rintro ⟨⟨inUse, others⟩, differs⟩
          exact ⟨inUse, differs, others⟩
        · rintro ⟨inUse, differs, others⟩
          exact ⟨⟨inUse, others⟩, differs⟩
      · intro p
        rw [owned p]
        constructor
        · rintro (member | ⟨other, own⟩)
          · exact .inl (List.mem_cons_of_mem q member)
          · by_cases same : other = place
            · rw [same, found] at own
              exact .inl (Option.some.inj own ▸ List.mem_cons_self)
            · exact .inr ⟨other, (owner_give_ne middle q same).trans own⟩
        · rintro (member | ⟨other, own⟩)
          · rcases List.mem_cons.mp member with same | earlier
            · exact .inr ⟨place, same ▸ found⟩
            · exact .inl earlier
          · exact .inr ⟨other, (owner_give own).1⟩

def beside [DecidableEq ι] (l : Ledger σ π) (i : ι) (others : ι → σ → Option π) : Ledger (ι × σ) π where
  owner place := if place.1 = i then l.owner place.2 else others place.1 place.2
  used := l.used
  returned := l.returned

variable [DecidableEq ι] {i : ι} {others : ι → σ → Option π}

theorem beside_update (owner : σ → Option π) (value : Option π) :
    (fun at' : ι × σ => if at'.1 = i then update owner place value at'.2 else others at'.1 at'.2) =
      update (fun at' : ι × σ => if at'.1 = i then owner at'.2 else others at'.1 at'.2) (i, place) value := by
  funext ⟨j, other⟩
  by_cases same : j = i
  · by_cases same' : other = place
    · simp [same, same']
    · simp [same, same', update_of_ne]
  · simp [same, update_of_ne]

theorem Moves.beside (moves : l.Moves l') : (l.beside i others).Moves (l'.beside i others) := by
  induction moves with
  | refl => exact Moves.refl _
  | @tail middle l' before step ih =>
    refine ih.tail ?_
    cases step with
    | take place q empty unused =>
      have taken : (middle.take place q).beside i others = (middle.beside i others).take (i, place) q := by
        simp only [Ledger.beside, Ledger.take, beside_update]
      rw [taken]
      exact Step.take _ q (by simpa [Ledger.beside] using empty) unused
    | reserve q unused => exact Step.reserve q unused
    | give _ give =>
      cases give with
      | give place q found =>
        have given : (middle.give place q).beside i others = (middle.beside i others).give (i, place) q := by
          simp only [Ledger.beside, Ledger.give, beside_update]
        rw [given]
        exact Step.give _ (Give.give _ q (by simpa [Ledger.beside] using found))

end Ledger

end Ledgers
