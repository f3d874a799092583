import Mathlib.Algebra.Order.BigOperators.Group.Finset

/-!
Lists that share their ends: the nodes count the heads and nodes that point to them, and the last one that lets go
of a node frees it. A place is not used twice, so that a freed node is never taken for another one.
-/

namespace SharedLists

open Function
open Option (some.inj elim_none elim_some bind_some bind_eq_bind pure_def)

structure Node (α : Type) where
  next : Option ℕ
  value : α
  ref : ℕ

structure Heap (α : Type) where
  nodes : ℕ → Option (Node α)
  fresh : ℕ

namespace Heap

variable {α : Type}

def empty : Heap α := ⟨fun _ => none, 0⟩

def set (h : Heap α) (p : ℕ) (node : Option (Node α)) : Heap α := { h with nodes := update h.nodes p node }

def add (h : Heap α) (head : Option ℕ) (value : α) : Heap α × Option ℕ :=
  (⟨update h.nodes h.fresh (some ⟨head, value, 1⟩), h.fresh + 1⟩, some h.fresh)

def share (h : Heap α) : Option ℕ → Option (Heap α)
  | none => some h
  | some p => (h.nodes p).map fun n => h.set p (some { n with ref := n.ref + 1 })

def peek (h : Heap α) : Option ℕ → Option (Option (Node α))
  | none => some none
  | some p => (h.nodes p).map some

def pop (h : Heap α) (p : ℕ) : Option (Heap α × α × Option ℕ) := do
  let n ← h.nodes p
  if n.ref - 1 = 0 then return (h.set p none, n.value, n.next)
  return (← (h.set p (some { n with ref := n.ref - 1 })).share n.next, n.value, n.next)

def release : ℕ → Heap α → Option ℕ → Option (Heap α)
  | _, h, none => some h
  | 0, _, some _ => none
  | fuel + 1, h, some p => do
      let n ← h.nodes p
      if n.ref - 1 = 0 then release fuel (h.set p none) n.next
      else return h.set p (some { n with ref := n.ref - 1 })

def toList (h : Heap α) : ℕ → Option ℕ → Option (List (ℕ × α))
  | _, none => some []
  | 0, some _ => none
  | fuel + 1, some p => do
      let n ← h.nodes p
      return (p, n.value) :: (← h.toList fuel n.next)

def same [DecidableEq α] (h : Heap α) : ℕ → Option ℕ → Option ℕ → Option Bool
  | 0, _, _ => none
  | fuel + 1, p, q =>
    if p = q then some true
    else
      match p, q with
      | some p, some q => do
          let a ← h.nodes p
          let b ← h.nodes q
          if a.value ≠ b.value then return false
          h.same fuel a.next b.next
      | _, _ => some false

def note (h : Heap α) (p : ℕ) (value : α) : Option (Heap α) :=
  (h.nodes p).map fun n => h.set p (some { n with value := value })

def noteAll (h : Heap α) : List (ℕ × α) → Option (Heap α)
  | [] => some h
  | (p, value) :: later => do (← h.note p value).noteAll later

def ref (h : Heap α) (p : ℕ) : ℕ := (h.nodes p).elim 0 Node.ref

def points (node : Option (Node α)) (p : ℕ) : ℕ := if node.bind Node.next = some p then 1 else 0

def pointed (h : Heap α) (p : ℕ) : ℕ := ∑ q ∈ Finset.range h.fresh, points (h.nodes q) p

end Heap

open Heap

variable {α : Type} {h : Heap α} {heads : List (Option ℕ)}

structure Counts (h : Heap α) (heads : List (Option ℕ)) : Prop where
  count : ∀ p, h.ref p = heads.count (some p) + h.pointed p
  live : ∀ p n, h.nodes p = some n → 0 < n.ref ∧ p < h.fresh ∧ ∀ q, n.next = some q → q < p

theorem set_self (h : Heap α) (p : ℕ) (node : Option (Node α)) : (h.set p node).nodes p = node := update_self _ _ _

variable {p q : ℕ} {other : List (Option ℕ)} {n : Node α}

theorem set_other (h : Heap α) (different : q ≠ p) (node : Option (Node α)) :
    (h.set p node).nodes q = h.nodes q := update_of_ne different _ _

theorem pointed_set (inside : q < h.fresh) (node : Option (Node α)) (p : ℕ) :
    (h.set q node).pointed p + points (h.nodes q) p = h.pointed p + points node p := by
  have member : q ∈ Finset.range h.fresh := Finset.mem_range.mpr inside
  have others : ∑ i ∈ (Finset.range h.fresh).erase q, points ((h.set q node).nodes i) p =
      ∑ i ∈ (Finset.range h.fresh).erase q, points (h.nodes i) p := by
    apply Finset.sum_congr rfl
    intro i different
    rw [set_other h (Finset.ne_of_mem_erase different)]
  have old := Finset.add_sum_erase (Finset.range h.fresh) (fun i => points (h.nodes i) p) member
  have new := Finset.add_sum_erase (Finset.range h.fresh) (fun i => points ((h.set q node).nodes i) p) member
  have fresh : (h.set q node).fresh = h.fresh := rfl
  simp only [set_self] at new
  rw [pointed, pointed, fresh]
  omega

theorem ref_set (p q : ℕ) (node : Option (Node α)) :
    (h.set p node).ref q = if q = p then node.elim 0 Node.ref else h.ref q := by
  rw [ref]
  split
  · rename_i same
    rw [same, set_self]
  · rename_i different
    rw [set_other h different]
    rfl

theorem Counts.congr (counts : Counts h heads) (same : ∀ p, other.count (some p) = heads.count (some p)) :
    Counts h other :=
  ⟨fun p => (counts.count p).trans (by rw [same]), counts.live⟩

theorem Counts.perm (counts : Counts h heads) (perm : heads.Perm other) : Counts h other :=
  counts.congr fun p => (perm.count_eq (some p)).symm

theorem Counts.head (counts : Counts h heads) (member : some p ∈ heads) : ∃ n, h.nodes p = some n := by
  have count := counts.count p
  have positive := List.count_pos_iff.mpr member
  rw [ref] at count
  cases node : h.nodes p with
  | none =>
    rw [node, elim_none] at count
    omega
  | some n => exact ⟨n, rfl⟩

theorem count_head (head : Option ℕ) (heads : List (Option ℕ)) (p : ℕ) :
    (head :: heads).count (some p) = heads.count (some p) + if head = some p then 1 else 0 := by
  rw [List.count_cons]
  simp only [beq_iff_eq]

theorem pointed_pos (inside : q < h.fresh) (node : h.nodes q = some n) (next : n.next = some p) : 0 < h.pointed p := by
  have member : q ∈ Finset.range h.fresh := Finset.mem_range.mpr inside
  have one : points (h.nodes q) p = 1 := by rw [points, node, bind_some, if_pos next]
  have least := Finset.single_le_sum (f := fun i => points (h.nodes i) p) (fun _ _ => Nat.zero_le _) member
  rw [pointed]
  omega

theorem Counts.next (counts : Counts h heads) (node : h.nodes q = some n) (next : n.next = some p) :
    ∃ m, h.nodes p = some m := by
  have count := counts.count p
  have positive := pointed_pos (counts.live q n node).2.1 node next
  rw [ref] at count
  cases node' : h.nodes p with
  | none =>
    rw [node', elim_none] at count
    omega
  | some m => exact ⟨m, rfl⟩

theorem Counts.set (counts : Counts h heads) (node : h.nodes p = some n) {new : Option (Node α)}
    (keeps : ∀ n', new = some n' → 0 < n'.ref ∧ n'.next = n.next)
    (balance : ∀ q, (if q = p then new.elim 0 Node.ref else h.ref q) + points (some n) q =
      other.count (some q) + h.pointed q + points new q) : Counts (h.set p new) other := by
  obtain ⟨-, inside, older⟩ := counts.live p n node
  constructor
  · intro q
    have moved := pointed_set inside new q
    have even := balance q
    rw [node] at moved
    rw [ref_set]
    omega
  · intro q n' node'
    by_cases here : q = p
    · subst here
      have same : new = some n' := (set_self h q new).symm.trans node'
      obtain ⟨positive, next⟩ := keeps n' same
      exact ⟨positive, inside, fun i points => older i (next ▸ points)⟩
    · have same : h.nodes q = some n' := (set_other h here new).symm.trans node'
      exact counts.live q n' same

theorem Counts.empty : Counts (Heap.empty : Heap α) [] := ⟨fun _ => rfl, fun _ _ node => by cases node⟩

theorem Counts.add (head : Option ℕ) (value : α) (counts : Counts h (head :: heads)) :
    Counts (h.add head value).1 ((h.add head value).2 :: heads) := by
  have unused : h.nodes h.fresh = none := by
    cases node : h.nodes h.fresh with
    | none => rfl
    | some n => exact absurd (counts.live _ n node).2.1 (Nat.lt_irrefl _)
  have new : ∀ q, q < h.fresh → (h.add head value).1.nodes q = h.nodes q := fun q inside =>
    update_of_ne (Nat.ne_of_lt inside) _ _
  have own : (h.add head value).1.nodes h.fresh = some ⟨head, value, 1⟩ := update_self _ _ _
  have pointed' : ∀ p, (h.add head value).1.pointed p = h.pointed p + if head = some p then 1 else 0 := by
    intro p
    have sum : ∑ q ∈ Finset.range h.fresh, points ((h.add head value).1.nodes q) p = h.pointed p :=
      Finset.sum_congr rfl fun q member => by rw [new q (Finset.mem_range.mp member)]
    have fresh : (h.add head value).1.fresh = h.fresh + 1 := rfl
    rw [Heap.pointed, fresh, Finset.sum_range_succ, sum, own]
    rfl
  have top : (h.add head value).2 = some h.fresh := rfl
  constructor
  · intro p
    have count := counts.count p
    rw [count_head] at count
    rw [pointed', top, count_head]
    by_cases here : p = h.fresh
    · subst here
      rw [Heap.ref, unused, elim_none] at count
      rw [Heap.ref, own, elim_some, if_pos rfl]
      dsimp only
      omega
    · have same : (h.add head value).1.ref p = h.ref p := by
        rw [Heap.ref, Heap.ref]
        congr 1
        exact update_of_ne here _ _
      rw [same, count, if_neg (fun equal => here (some.inj equal).symm)]
      omega
  · intro p n node
    by_cases here : p = h.fresh
    · subst here
      obtain rfl := some.inj (own.symm.trans node)
      refine ⟨Nat.one_pos, Nat.lt_succ_self _, ?_⟩
      intro q next
      obtain ⟨m, node'⟩ := counts.head (p := q) (by rw [← next]; exact List.mem_cons_self)
      exact (counts.live q m node').2.1
    · have same : h.nodes p = some n :=
        (update_of_ne here _ _ : (h.add head value).1.nodes p = _).symm.trans node
      obtain ⟨positive, inside, older⟩ := counts.live p n same
      exact ⟨positive, Nat.lt_succ_of_lt inside, older⟩

theorem Counts.share (counts : Counts h heads) {head : Option ℕ} (live : ∀ p, head = some p → ∃ n, h.nodes p = some n) :
    ∃ h', h.share head = some h' ∧ Counts h' (head :: heads) := by
  cases head with
  | none => exact ⟨h, rfl, counts.congr fun p => by simp⟩
  | some p =>
    obtain ⟨n, node⟩ := live p rfl
    refine ⟨_, by rw [Heap.share, node, Option.map_some], counts.set node ?_ ?_⟩
    · intro n' same
      cases some.inj same
      exact ⟨Nat.succ_pos _, rfl⟩
    · intro q
      have count := counts.count q
      have next : points (some { n with ref := n.ref + 1 }) q = points (some n) q := rfl
      rw [next, count_head, elim_some]
      by_cases here : q = p
      · subst here
        rw [Heap.ref, node, elim_some] at count
        rw [if_pos rfl, if_pos rfl]
        dsimp only
        omega
      · rw [if_neg here, if_neg (fun same => here (some.inj same).symm)]
        omega

theorem Counts.free (counts : Counts h (some p :: heads)) (node : h.nodes p = some n) (last : n.ref - 1 = 0) :
    Counts (h.set p none) (n.next :: heads) := by
  have positive := (counts.live p n node).1
  refine counts.set node (fun n' same => by cases same) ?_
  intro q
  have count := counts.count q
  have nothing : points (none : Option (Node α)) q = 0 := rfl
  have next : points (some n) q = if n.next = some q then 1 else 0 := rfl
  rw [nothing, next, count_head, elim_none]
  rw [count_head] at count
  by_cases here : q = p
  · subst here
    rw [Heap.ref, node, elim_some, if_pos rfl] at count
    rw [if_pos rfl]
    omega
  · rw [if_neg (fun same => here (some.inj same).symm)] at count
    rw [if_neg here]
    omega

theorem Counts.leave (counts : Counts h (some p :: heads)) (node : h.nodes p = some n) (kept : ¬n.ref - 1 = 0) :
    Counts (h.set p (some { n with ref := n.ref - 1 })) heads := by
  refine counts.set node ?_ ?_
  · intro n' same
    cases some.inj same
    exact ⟨Nat.pos_of_ne_zero kept, rfl⟩
  · intro q
    have count := counts.count q
    have next : points (some { n with ref := n.ref - 1 }) q = points (some n) q := rfl
    rw [count_head] at count
    rw [next, elim_some]
    by_cases here : q = p
    · subst here
      rw [Heap.ref, node, elim_some, if_pos rfl] at count
      rw [if_pos rfl]
      dsimp only
      omega
    · rw [if_neg (fun same => here (some.inj same).symm)] at count
      rw [if_neg here]
      omega

theorem Counts.peek (counts : Counts h heads) {head : Option ℕ} (member : head ∈ heads) :
    ∃ n, h.peek head = some n := by
  cases head with
  | none => exact ⟨none, rfl⟩
  | some p =>
    obtain ⟨n, node⟩ := counts.head member
    exact ⟨some n, congrArg (Option.map some) node⟩

theorem Counts.pop (counts : Counts h (some p :: heads)) :
    ∃ h' n, h.nodes p = some n ∧ h.pop p = some (h', n.value, n.next) ∧ Counts h' (n.next :: heads) := by
  obtain ⟨n, node⟩ := counts.head List.mem_cons_self
  rw [Heap.pop, node]
  simp only [bind_eq_bind, bind_some, pure_def]
  by_cases last : n.ref - 1 = 0
  · rw [if_pos last]
    exact ⟨_, n, rfl, rfl, counts.free node last⟩
  · rw [if_neg last]
    obtain ⟨h', shared, counts'⟩ := (counts.leave node last).share (by
      intro q next
      obtain ⟨m, node'⟩ := counts.next node next
      have older := (counts.live p n node).2.2 q next
      exact ⟨m, (set_other h (Nat.ne_of_lt older) _).trans node'⟩)
    exact ⟨h', n, rfl, by rw [shared]; rfl, counts'⟩

theorem Counts.release {fuel : ℕ} {head : Option ℕ} (counts : Counts h (head :: heads))
    (enough : ∀ p, head = some p → p < fuel) : ∃ h', h.release fuel head = some h' ∧ Counts h' heads := by
  induction fuel generalizing h head with
  | zero =>
    cases head with
    | none => exact ⟨h, rfl, counts.congr fun p => by rw [count_head]; rfl⟩
    | some p => exact absurd (enough p rfl) (Nat.not_lt_zero p)
  | succ fuel ih =>
    cases head with
    | none => exact ⟨h, rfl, counts.congr fun p => by rw [count_head]; rfl⟩
    | some p =>
      obtain ⟨n, node⟩ := counts.head List.mem_cons_self
      rw [Heap.release, node]
      simp only [bind_eq_bind, bind_some, pure_def]
      by_cases last : n.ref - 1 = 0
      · rw [if_pos last]
        apply ih (counts.free node last)
        intro q next
        have older := (counts.live p n node).2.2 q next
        have bound := enough p rfl
        omega
      · rw [if_neg last]
        exact ⟨_, rfl, counts.leave node last⟩

theorem Counts.toList (counts : Counts h heads) : ∀ {fuel : ℕ} {head : Option ℕ},
    (∀ p, head = some p → p < fuel ∧ ∃ n, h.nodes p = some n) →
      ∃ nodes, h.toList fuel head = some nodes ∧ ∀ p ∈ nodes.map Prod.fst, ∃ n, h.nodes p = some n
  | fuel, none, _ => ⟨[], by cases fuel <;> rfl, fun p member => by cases member⟩
  | 0, some p, enough => absurd (enough p rfl).1 (Nat.not_lt_zero p)
  | fuel + 1, some p, enough => by
      obtain ⟨bound, n, node⟩ := enough p rfl
      have tail : ∀ q, n.next = some q → q < fuel ∧ ∃ m, h.nodes q = some m := by
        intro q next
        have older := (counts.live p n node).2.2 q next
        exact ⟨by omega, counts.next node next⟩
      obtain ⟨nodes, later, live⟩ := counts.toList tail
      refine ⟨(p, n.value) :: nodes, ?_, ?_⟩
      · simp only [Heap.toList, node, later, bind_eq_bind, bind_some]
        rfl
      · intro q member
        rcases List.mem_cons.mp member with rfl | member
        · exact ⟨n, node⟩
        · exact live q member

theorem Counts.same [DecidableEq α] (counts : Counts h heads) : ∀ {fuel : ℕ} {p q : Option ℕ},
    0 < fuel → (∀ i, p = some i → i + 1 < fuel ∧ ∃ n, h.nodes i = some n) →
      (∀ i, q = some i → ∃ n, h.nodes i = some n) →
      ∃ b, h.same fuel p q = some b
  | 0, _, _, some', _, _ => absurd some' (Nat.lt_irrefl 0)
  | fuel + 1, none, none, _, _, _ => ⟨true, rfl⟩
  | fuel + 1, none, some _, _, _, _ => ⟨false, rfl⟩
  | fuel + 1, some _, none, _, _, _ => ⟨false, rfl⟩
  | fuel + 1, some i, some j, _, left, right => by
      obtain ⟨bound, a, nodeA⟩ := left i rfl
      obtain ⟨b, nodeB⟩ := right j rfl
      simp only [Heap.same, nodeA, nodeB, bind_eq_bind, bind_some]
      split
      · exact ⟨true, rfl⟩
      · split
        · exact ⟨false, rfl⟩
        · apply counts.same (by omega)
          · intro k next
            have older := (counts.live i a nodeA).2.2 k next
            exact ⟨by omega, counts.next nodeA next⟩
          · intro k next
            exact counts.next nodeB next

theorem Counts.note (counts : Counts h heads) (node : h.nodes p = some n) (value : α) :
    ∃ h', h.note p value = some h' ∧ Counts h' heads := by
  refine ⟨_, by rw [Heap.note, node, Option.map_some], counts.set node ?_ ?_⟩
  · intro n' same
    cases some.inj same
    exact ⟨(counts.live p n node).1, rfl⟩
  · intro q
    have count := counts.count q
    have next : points (some { n with value := value }) q = points (some n) q := rfl
    rw [next]
    by_cases here : q = p
    · subst here
      rw [Heap.ref, node, elim_some] at count
      rw [if_pos rfl, elim_some]
      dsimp only
      omega
    · rw [if_neg here]
      omega

theorem Counts.noteAll : ∀ {notes : List (ℕ × α)} {h : Heap α}, Counts h heads →
    (∀ p ∈ notes.map Prod.fst, ∃ n, h.nodes p = some n) → ∃ h', h.noteAll notes = some h' ∧ Counts h' heads
  | [], h, counts, _ => ⟨h, rfl, counts⟩
  | (p, value) :: notes, h, counts, live => by
      obtain ⟨n, node⟩ := live p List.mem_cons_self
      obtain ⟨h', noted, counts'⟩ := counts.note node value
      have still : ∀ q ∈ notes.map Prod.fst, ∃ m, h'.nodes q = some m := by
        intro q member
        rw [Heap.note, node, Option.map_some] at noted
        cases noted
        by_cases here : q = p
        · subst here
          exact ⟨_, set_self h q _⟩
        · obtain ⟨m, node'⟩ := live q (List.mem_cons_of_mem _ member)
          exact ⟨m, (set_other h here _).trans node'⟩
      obtain ⟨h'', all, counts''⟩ := counts'.noteAll still
      exact ⟨h'', by rw [Heap.noteAll, noted]; exact all, counts''⟩

theorem Counts.all_freed (counts : Counts h []) (p : ℕ) : h.nodes p = none := by
  by_cases inside : p < h.fresh
  · induction left : h.fresh - p using Nat.strong_induction_on generalizing p with
    | _ left ih =>
      have nobody : h.pointed p = 0 := by
        apply Finset.sum_eq_zero
        intro q member
        have bound := Finset.mem_range.mp member
        rw [points]
        apply if_neg
        intro next
        obtain ⟨n, node, next⟩ := Option.bind_eq_some_iff.mp next
        have older := (counts.live q n node).2.2 p next
        rw [ih (h.fresh - q) (by omega) q bound rfl] at node
        cases node
      have count := counts.count p
      rw [nobody, List.count_nil, Heap.ref] at count
      cases node : h.nodes p with
      | none => rfl
      | some n =>
        rw [node, elim_some] at count
        have positive := (counts.live p n node).1
        omega
  · cases node : h.nodes p with
    | none => rfl
    | some n => exact absurd (counts.live p n node).2.1 inside

end SharedLists
