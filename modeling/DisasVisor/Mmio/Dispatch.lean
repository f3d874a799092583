import DisasVisor.Mmio.Registration

/-!
`mmio_access_memory` over the lists of the registered handles: which calls get the bytes of an
access.
-/

namespace DisasVisor.Mmio

open Transitions List

def Transfer.Covers (c : Transfer) (x : Nat) : Prop := c.gphys.toNat ≤ x ∧ x < c.gphys.toNat + c.len.toNat

instance (c : Transfer) (x : Nat) : Decidable (c.Covers x) := by
  unfold Transfer.Covers
  infer_instance

def targets (calls : List Transfer) (x : Nat) : List Target := (calls.filter fun c => c.Covers x).map fun c => c.target

theorem targets_append (calls new : List Transfer) (x : Nat) :
    targets (calls ++ new) x = targets calls x ++ targets new x := by
  unfold targets
  rw [filter_append, map_append]

theorem targets_none {calls : List Transfer} {x : Nat} (none' : ∀ c ∈ calls, ¬c.Covers x) : targets calls x = [] := by
  unfold targets
  rw [filter_eq_nil_iff.mpr (by simpa using none'), map_nil]

namespace MmioData

def Served (s : MmioData) (calls : List Transfer) (x : Nat) : Prop :=
  (∀ p, s.Registered p → (s.handles p).Covers x →
    targets calls x = [.handler p true] ∨ targets calls x = [.handler p false, .memory]) ∧
  ((∀ p, s.Registered p → ¬(s.handles p).Covers x) → targets calls x = [.memory])

def Met (s : MmioData) (start n p : Nat) : Prop :=
  s.Registered p ∧ ∃ x, (s.handles p).Covers x ∧ start ≤ x ∧ x < start + n

def Pends (a : Access) (x : Nat) : Prop :=
  ∃ p g q l, a.unlockedHandler = some (p, g, q, l) ∧ g.toNat ≤ x ∧ x < g.toNat + l.toNat

structure Pending (s : MmioData) (start n : Nat) (a : Access) (p : Nat) (g : UInt64) (q : Nat)
    (l : UInt32) : Prop where
  slice : g.toNat = start + q
  inside : q + l.toNat ≤ a.q
  positive : 0 < l.toNat
  met : s.Met start n p
  unlocked : (s.handles p).unlockedHandler = true
  covered : ∀ x, g.toNat ≤ x → x < g.toNat + l.toNat → (s.handles p).Covers x ∧ targets a.calls x = []

/-- An access of `n` bytes from `start` on, before `a` has got to its rest. -/
structure Going (s : MmioData) (start n : Nat) (visited : List Nat) (a : Access) : Prop where
  rest : a.gphysaddr.toNat + a.len.toNat = start + n
  done : a.gphysaddr.toNat = start + a.q
  slices : ∀ c ∈ a.calls, c.gphys.toNat = start + c.q ∧ 0 < c.len.toNat ∧ c.q + c.len.toNat ≤ a.q
  pending : ∀ p g q l, a.unlockedHandler = some (p, g, q, l) → Pending s start n a p g q l
  served : ∀ x, start ≤ x → x < a.gphysaddr.toNat → ¬Pends a x → s.Served a.calls x
  idle : a.r = false → a.q = 0 ∧ a.calls = [] ∧ a.unlockedHandler = none
  met : a.r = true → ∃ p, s.Met start n p
  cleared : ∀ p ∈ visited, s.Registered p → ∀ x, (s.handles p).Covers x → x < a.gphysaddr.toNat ∨ start + n ≤ x
  behind : ∀ p, s.Registered p → ∀ x, (s.handles p).Covers x → start ≤ x → x < a.gphysaddr.toNat → p ∈ visited
  unlocked : ∀ p ∈ visited, s.Met start n p → (s.handles p).unlockedHandler = true →
    ∃ g q l, a.unlockedHandler = some (p, g, q, l)

variable {s t : MmioData} {p k start n : Nat} {visited back : List Nat} {a : Access} {answer : Answer} {len : UInt32}

def Clear (s : MmioData) (low high : Nat) : Prop :=
  ∀ p, s.Registered p → ∀ x, low ≤ x → x < high → ¬(s.handles p).Covers x

theorem Going.untouched (going : Going s start n visited a) {x : Nat}
    (later : a.gphysaddr.toNat ≤ x) : targets a.calls x = [] := by
  have done := going.done
  apply targets_none
  rintro c member ⟨low, high⟩
  obtain ⟨slice, -, inside⟩ := going.slices c member
  omega

@[simp] theorem gphysaddr_gphysAccess (g : UInt64) (q : Nat) : (a.gphysAccess g q len).gphysaddr = a.gphysaddr := by
  unfold Access.gphysAccess
  split <;> rfl

@[simp] theorem len_gphysAccess (g : UInt64) (q : Nat) : (a.gphysAccess g q len).len = a.len := by
  unfold Access.gphysAccess
  split <;> rfl

@[simp] theorem r_gphysAccess (g : UInt64) (q : Nat) : (a.gphysAccess g q len).r = a.r := by
  unfold Access.gphysAccess
  split <;> rfl

@[simp] theorem unlockedHandler_gphysAccess (g : UInt64) (q : Nat) :
    (a.gphysAccess g q len).unlockedHandler = a.unlockedHandler := by
  unfold Access.gphysAccess
  split <;> rfl

theorem toNat_advance (fits : a.gphysaddr.toNat + len.toNat < 2 ^ 64) (less : len.toNat ≤ a.len.toNat) :
    (a.advance len).gphysaddr.toNat = a.gphysaddr.toNat + len.toNat ∧
      (a.advance len).len.toNat = a.len.toNat - len.toNat := by
  have bound := a.len.toNat_lt
  have bound' := len.toNat_lt
  unfold Access.advance
  rw [UInt64.toNat_add, UInt32.toNat_toUInt64, UInt32.toNat_sub]
  omega

theorem Served.congr {calls calls' : List Transfer} {x : Nat}
    (same : targets calls' x = targets calls x) (served : s.Served calls x) : s.Served calls' x := by
  unfold Served
  rw [same]
  exact served

structure Extends (s : MmioData) (start n : Nat) (visited visited' : List Nat) (a b : Access)
    (new : List Transfer) (m : Nat) : Prop where
  calls : b.calls = a.calls ++ new
  parts : ∀ c ∈ new, c.gphys = a.gphysaddr ∧ c.q = a.q ∧ c.len.toNat = m
  positive : 0 < m
  addr : b.gphysaddr.toNat = a.gphysaddr.toNat + m
  size : b.len.toNat + m = a.len.toNat
  q : b.q = a.q + m
  r : b.r = true
  same : b.unlockedHandler = a.unlockedHandler
  met : ∃ p, s.Met start n p
  served : ∀ x, a.gphysaddr.toNat ≤ x → x < a.gphysaddr.toNat + m → s.Served b.calls x
  wider : ∀ p ∈ visited, p ∈ visited'
  cleared : ∀ p ∈ visited', p ∉ visited → s.Registered p → ∀ x, (s.handles p).Covers x →
    x < a.gphysaddr.toNat + m ∨ start + n ≤ x
  behind : ∀ p, s.Registered p → ∀ x, (s.handles p).Covers x → a.gphysaddr.toNat ≤ x →
    x < a.gphysaddr.toNat + m → p ∈ visited'
  unlocked : ∀ p ∈ visited', p ∉ visited → (s.handles p).unlockedHandler = false

theorem Going.extend {visited' : List Nat} {b : Access} {new : List Transfer} {m : Nat}
    (going : Going s start n visited a) (extends' : Extends s start n visited visited' a b new m) :
    Going s start n visited' b := by
  have done := going.done
  have rest := going.rest
  have addr := extends'.addr
  have size := extends'.size
  have q := extends'.q
  have before : ∀ x, x < a.gphysaddr.toNat → targets b.calls x = targets a.calls x := by
    intro x less
    have elsewhere : targets new x = [] := by
      apply targets_none
      rintro c member ⟨low, -⟩
      rw [(extends'.parts c member).1] at low
      omega
    rw [extends'.calls, targets_append, elsewhere, append_nil]
  have pends : ∀ x, Pends b x ↔ Pends a x := by
    intro x
    unfold Pends
    rw [extends'.same]
  refine ⟨by omega, by omega, ?_, ?_, ?_, ?_, fun _ => extends'.met, ?_, ?_, ?_⟩
  · intro c member
    rw [extends'.calls, mem_append] at member
    rcases member with old | isNew
    · obtain ⟨slice, positive, inside⟩ := going.slices c old
      exact ⟨slice, positive, by omega⟩
    · obtain ⟨gphys, from', size'⟩ := extends'.parts c isNew
      have positive := extends'.positive
      rw [gphys, from', size']
      omega
  · intro p g q' l pending
    rw [extends'.same] at pending
    have old := going.pending p g q' l pending
    have inside := old.inside
    have slice := old.slice
    refine ⟨slice, by omega, old.positive, old.met, old.unlocked, ?_⟩
    intro x low high
    rw [before x (by omega)]
    exact old.covered x low high
  · intro x low high notPends
    rw [pends] at notPends
    by_cases less : x < a.gphysaddr.toNat
    · exact (going.served x low less notPends).congr (before x less)
    · exact extends'.served x (by omega) (by omega)
  · intro none'
    rw [extends'.r] at none'
    cases none'
  · intro p member registered x covers
    by_cases old : p ∈ visited
    · have cleared := going.cleared p old registered x covers
      omega
    · have cleared := extends'.cleared p member old registered x covers
      omega
  · intro p registered x covers low high
    by_cases less : x < a.gphysaddr.toNat
    · exact extends'.wider p (going.behind p registered x covers low less)
    · exact extends'.behind p registered x covers (by omega) (by omega)
  · intro p member met isUnlocked
    rw [extends'.same]
    by_cases old : p ∈ visited
    · exact going.unlocked p old met isUnlocked
    · rw [extends'.unlocked p member old] at isUnlocked
      cases isUnlocked

theorem targets_part {c : Transfer} {x : Nat} (covers : c.Covers x) : targets [c] x = [c.target] := by
  simp [targets, covers]

theorem Going.memory (going : Going s start n visited a) (started : a.r = true)
    (less : len.toNat ≤ a.len.toNat) (fits : start + n < 2 ^ 64)
    (clear : Clear s a.gphysaddr.toNat (a.gphysaddr.toNat + len.toNat)) :
    Going s start n visited ((a.gphysAccess a.gphysaddr a.q len).advance len) := by
  have rest := going.rest
  by_cases zero : len = 0
  · subst zero
    have same : (a.gphysAccess a.gphysaddr a.q 0).advance 0 = a := by simp [Access.gphysAccess, Access.advance]
    rw [same]
    exact going
  · have positive : 0 < len.toNat :=
      Nat.pos_of_ne_zero fun none' => zero (UInt32.toNat_inj.mp none')
    have accessed : a.gphysAccess a.gphysaddr a.q len = { a with calls := a.calls ++
        [{ target := .memory, gphys := a.gphysaddr, q := a.q, len := len }] } := by
      rw [Access.gphysAccess, if_neg zero]
    rw [accessed]
    obtain ⟨addr, size⟩ := @toNat_advance a len (by omega) less
    have extends' : Extends s start n visited visited a
        (Access.advance { a with calls := a.calls ++
          [{ target := .memory, gphys := a.gphysaddr, q := a.q, len := len }] } len)
        [{ target := .memory, gphys := a.gphysaddr, q := a.q, len := len }] len.toNat := {
      calls := rfl
      parts := by simp
      positive := positive
      addr := addr
      size := by
        have same : (a.advance len).len.toNat + len.toNat = a.len.toNat := by omega
        exact same
      q := rfl
      r := started
      same := rfl
      met := going.met started
      served := by
        intro x low high
        have only : targets (a.calls ++
            [{ target := .memory, gphys := a.gphysaddr, q := a.q, len := len }]) x = [.memory] := by
          rw [targets_append, going.untouched low, targets_part ⟨low, high⟩]
          rfl
        exact ⟨fun p registered covers => absurd covers (clear p registered x low high),
          fun _ => only⟩
      wider := fun p member => member
      cleared := fun p member outside => absurd member outside
      behind := fun p registered x covers low high =>
        absurd covers (clear p registered x low high)
      unlocked := fun p member outside => absurd member outside }
    exact going.extend extends'

theorem callHandler_eq (a : Access) (answer : Answer) (p : Nat) (g : UInt64) (q : Nat)
    (nonzero : len ≠ 0) : ∃ new, a.callHandler answer p g q len =
      { a with calls := a.calls ++ new } ∧
      (∀ c ∈ new, c.gphys = g ∧ c.q = q ∧ c.len = len) ∧
      (new.map (fun c => c.target) = [.handler p true] ∨
        new.map (fun c => c.target) = [.handler p false, .memory]) := by
  unfold Access.callHandler Access.gphysAccess
  cases answer a.calls p g q len with
  | true => exact ⟨_, rfl, by simp, .inl rfl⟩
  | false =>
    simp only [Bool.false_eq_true, if_false, if_neg nonzero, append_assoc]
    exact ⟨_, rfl, by simp, .inr rfl⟩

section

variable (going : Going s start n visited a) (positive : 0 < len.toNat)
    (less : len.toNat ≤ a.len.toNat) (fits : start + n < 2 ^ 64) (registered : s.Registered p)
    (disjoint : s.RangesDisjoint)
    (covered : ∀ x, a.gphysaddr.toNat ≤ x → x < a.gphysaddr.toNat + len.toNat → (s.handles p).Covers x)
    (ends : ∀ x, (s.handles p).Covers x → x < a.gphysaddr.toNat + len.toNat ∨ start + n ≤ x)
include going positive less fits registered disjoint covered ends

theorem Going.handler (locked : (s.handles p).unlockedHandler = false) (started : a.r = true) :
    Going s start n (visited ++ [p]) ((a.callHandler answer p a.gphysaddr a.q len).advance len) := by
  have rest := going.rest
  have done := going.done
  have nonzero : len ≠ 0 := by
    rintro rfl
    exact absurd positive (by decide)
  obtain ⟨addr, size⟩ := @toNat_advance a len (by omega) less
  have sizes : (a.advance len).len.toNat + len.toNat = a.len.toNat := by omega
  obtain ⟨new, called, parts, goesTo⟩ := callHandler_eq a answer p a.gphysaddr a.q nonzero
  rw [called]
  have extends' : Extends s start n visited (visited ++ [p]) a
      (Access.advance { a with calls := a.calls ++ new } len) new len.toNat := {
    calls := rfl
    parts := fun c member => by
      obtain ⟨gphys, from', size⟩ := parts c member
      exact ⟨gphys, from', by rw [size]⟩
    positive := positive
    addr := addr
    size := sizes
    q := rfl
    r := started
    same := rfl
    met := going.met started
    served := by
      intro x low high
      have all : targets new x = new.map fun c => c.target := by
        unfold targets
        rw [filter_eq_self.mpr]
        intro c member
        obtain ⟨gphys, -, size⟩ := parts c member
        rw [decide_eq_true_eq, Transfer.Covers, gphys, size]
        exact ⟨low, high⟩
      have only : targets (a.calls ++ new) x = new.map fun c => c.target := by
        rw [targets_append, going.untouched low, all]
        rfl
      refine ⟨fun q qRegistered covers => ?_, fun none' => absurd (covered x low high) (none' p registered)⟩
      have same : q = p := by
        by_contra ne
        exact disjoint q p qRegistered registered ne x covers (covered x low high)
      have goes : targets (a.calls ++ new) x = [.handler p true] ∨
          targets (a.calls ++ new) x = [.handler p false, .memory] := by
        rw [only]
        exact goesTo
      rw [same]
      exact goes
    wider := fun q member => mem_append_left [p] member
    cleared := by
      intro q member outside qRegistered x covers
      have same : q = p := by simpa [outside] using member
      subst same
      exact ends x covers
    behind := by
      intro q qRegistered x covers low high
      have same : q = p := by
        by_contra ne
        exact disjoint q p qRegistered registered ne x covers (covered x low high)
      simp [same]
    unlocked := by
      intro q member outside
      have same : q = p := by simpa [outside] using member
      rw [same]
      exact locked }
  exact going.extend extends'

theorem Going.pend (isUnlocked : (s.handles p).unlockedHandler = true) (started : a.r = true) (none' : a.unlockedHandler = none) :
    Going s start n (visited ++ [p])
      (Access.advance { a with unlockedHandler := some (p, a.gphysaddr, a.q, len) } len) := by
  have rest := going.rest
  have done := going.done
  obtain ⟨addr, size⟩ := @toNat_advance a len (by omega) less
  have only : ∀ q, s.Registered q → ∀ x, (s.handles q).Covers x → a.gphysaddr.toNat ≤ x →
      x < a.gphysaddr.toNat + len.toNat → q = p := by
    intro q qRegistered x covers low high
    by_contra ne
    exact disjoint q p qRegistered registered ne x covers (covered x low high)
  have addr' : (Access.advance { a with unlockedHandler := some (p, a.gphysaddr, a.q, len) }
      len).gphysaddr.toNat = a.gphysaddr.toNat + len.toNat := addr
  have size' : (Access.advance { a with unlockedHandler := some (p, a.gphysaddr, a.q, len) }
      len).len.toNat = a.len.toNat - len.toNat := size
  have q' : (Access.advance { a with unlockedHandler := some (p, a.gphysaddr, a.q, len) }
      len).q = a.q + len.toNat := rfl
  refine ⟨by omega, by omega, ?_, ?_, ?_, ?_, fun _ => going.met started, ?_, ?_, ?_⟩
  · intro c member
    obtain ⟨slice, cPositive, inside⟩ := going.slices c member
    exact ⟨slice, cPositive, by omega⟩
  · intro r g q l pending
    cases pending
    have first := covered a.gphysaddr.toNat (Nat.le_refl _) (by omega)
    exact ⟨done, Nat.le_refl _, positive, ⟨registered, _, first, by omega, by omega⟩, isUnlocked,
      fun x low high => ⟨covered x low high, going.untouched low⟩⟩
  · intro x low high notPends
    by_cases less' : x < a.gphysaddr.toNat
    · refine going.served x low less' ?_
      rintro ⟨r, g, q, l, pending, -⟩
      rw [none'] at pending
      cases pending
    · exact absurd ⟨p, a.gphysaddr, a.q, len, rfl, by omega, by omega⟩ notPends
  · intro impossible
    have contradiction : a.r = false := impossible
    rw [started] at contradiction
    cases contradiction
  · intro q member qRegistered x covers
    rcases mem_append.mp member with old | isNew
    · have cleared := going.cleared q old qRegistered x covers
      omega
    · rw [mem_singleton] at isNew
      subst isNew
      have cleared := ends x covers
      omega
  · intro q qRegistered x covers low high
    by_cases less' : x < a.gphysaddr.toNat
    · exact mem_append_left [p] (going.behind q qRegistered x covers low less')
    · have same := only q qRegistered x covers (by omega) (by omega)
      simp [same]
  · intro q member met qUnlocked
    rcases mem_append.mp member with old | isNew
    · obtain ⟨g, q', l, pending⟩ := going.unlocked q old met qUnlocked
      rw [none'] at pending
      cases pending
    · rw [mem_singleton] at isNew
      subst isNew
      exact ⟨_, _, _, rfl⟩

end

/-! The order of the handles -/

theorem Listed.earlier (listed : Listed s) {y : Nat} (member : k ∈ s.handle)
    (covers : (s.handles k).Covers y) (below : y < (s.handles p).gphys.toNat) (m : Nat) :
    ∀ {i front}, i ≤ window y → (List.range' i m).flatMap s.mmio = front ++ p :: back → k ∈ front := by
  induction m with
  | zero =>
    intro i front _ order
    simp at order
  | succ m ih =>
    intro i front first order
    have inOwn : k ∈ s.mmio (window y) := (listed.lists _ k).mpr ⟨member, y, covers, rfl⟩
    obtain ⟨low, -⟩ := covers
    rw [List.range'_succ, flatMap_cons, append_eq_append_iff] at order
    rcases order with ⟨front', rfl, later⟩ | ⟨back', here, later⟩
    · by_cases own : window y = i
      · rw [own] at inOwn
        exact mem_append_left _ inOwn
      · exact mem_append_right _ (ih (by omega) later)
    · cases back' with
      | nil =>
        rw [append_nil] at here
        by_cases own : window y = i
        · rwa [own, here] at inOwn
        · cases ih (show i + 1 ≤ window y by omega) (show _ = [] ++ p :: back from later.symm)
      | cons q back' =>
        cases later
        have inList : p ∈ s.mmio i := by simp [here]
        obtain ⟨-, z, ⟨pLow, -⟩, own⟩ := (listed.lists i p).mp inList
        have upper := window_mono (show y ≤ z by omega)
        have same : window y = i := by omega
        have sorted := listed.sorted i
        rw [same, here] at inOwn
        rw [here, pairwise_append, pairwise_cons] at sorted
        rcases mem_append.mp inOwn with inFront | inRest
        · exact inFront
        · rcases mem_cons.mp inRest with rfl | inBack
          · omega
          · have le := sorted.2.1.1 k inBack
            omega

theorem Listed.in_order (listed : Listed s) {y first last : Nat} (member : k ∈ s.handle)
    (covers : (s.handles k).Covers y) (low : first ≤ y) (high : y ≤ last) :
    k ∈ (List.range' (window first) (window last + 1 - window first)).flatMap s.mmio := by
  have lower := window_mono low
  have upper := window_mono high
  refine mem_flatMap.mpr ⟨window y, ?_, (listed.lists _ k).mpr ⟨member, y, covers, rfl⟩⟩
  rw [mem_range'_1]
  omega

def TwoUnlocked (s : MmioData) (start n : Nat) : Prop :=
  ∃ p q, p ≠ q ∧ s.Met start n p ∧ s.Met start n q ∧ (s.handles p).unlockedHandler = true ∧
    (s.handles q).unlockedHandler = true

/-- How the loops may go on: with the handle visited, with nothing registered in the rest, or with
a panic. -/
def Continues (s : MmioData) (start n : Nat) (visited : List Nat) : Progress → Prop
  | .next b => Going s start n visited b ∧ 0 < b.len.toNat
  | .out b => ∃ visited', Going s start n visited' b ∧ Clear s b.gphysaddr.toNat (start + n)
  | .panic => TwoUnlocked s start n

theorem accessFound_spec (listed : Listed s) (going : Going s start n visited a)
    (fits : start + n < 2 ^ 64) (registered : s.Registered p) {gphys2 : UInt64} {len2 : UInt32}
    (first : gphys2.toNat = max a.gphysaddr.toNat (s.handles p).gphys.toNat)
    (last : gphys2.toNat + len2.toNat = min (start + n) ((s.handles p).gphys.toNat + (s.handles p).len.toNat))
    (positive : 0 < len2.toNat) (clear : Clear s a.gphysaddr.toNat gphys2.toNat) :
    Continues s start n (visited ++ [p]) (s.accessFound answer p gphys2 len2 a) := by
  have rest := going.rest
  have bound := a.len.toNat_lt
  have tmp : (gphys2 - a.gphysaddr).toUInt32.toNat = gphys2.toNat - a.gphysaddr.toNat := by
    rw [UInt64.toNat_toUInt32, toNat_sub, if_pos (by omega)]
    omega
  have met : s.Met start n p := ⟨registered, gphys2.toNat, ⟨by omega, by omega⟩, by
    have done := going.done
    omega, by omega⟩
  have started : Going s start n visited { a with r := true } := {
    rest := going.rest
    done := going.done
    slices := going.slices
    pending := fun q g q' l pending => by
      have old := going.pending q g q' l pending
      exact ⟨old.slice, old.inside, old.positive, old.met, old.unlocked, old.covered⟩
    served := going.served
    idle := fun impossible => by cases impossible
    met := fun _ => ⟨p, met⟩
    cleared := going.cleared
    behind := going.behind
    unlocked := going.unlocked }
  have clear' : Clear s a.gphysaddr.toNat (a.gphysaddr.toNat + (gphys2 - a.gphysaddr).toUInt32.toNat) := by
    rw [tmp, show a.gphysaddr.toNat + (gphys2.toNat - a.gphysaddr.toNat) = gphys2.toNat by omega]
    exact clear
  have gap := started.memory rfl (show (gphys2 - a.gphysaddr).toUInt32.toNat ≤ a.len.toNat by omega) fits clear'
  have here : (({ a with r := true }.gphysAccess a.gphysaddr a.q
      (gphys2 - a.gphysaddr).toUInt32).advance
        (gphys2 - a.gphysaddr).toUInt32).gphysaddr.toNat = gphys2.toNat := by
    rw [(toNat_advance (by simp only [gphysaddr_gphysAccess]; omega)
      (by simp only [len_gphysAccess]; omega)).1, gphysaddr_gphysAccess, tmp]
    show a.gphysaddr.toNat + (gphys2.toNat - a.gphysaddr.toNat) = gphys2.toNat
    omega
  have isStarted : (({ a with r := true }.gphysAccess a.gphysaddr a.q
      (gphys2 - a.gphysaddr).toUInt32).advance (gphys2 - a.gphysaddr).toUInt32).r = true :=
    r_gphysAccess _ _
  unfold accessFound
  simp only []
  generalize (({ a with r := true }.gphysAccess a.gphysaddr a.q
    (gphys2 - a.gphysaddr).toUInt32).advance (gphys2 - a.gphysaddr).toUInt32) = b at *
  have bRest := gap.rest
  have covered : ∀ x, b.gphysaddr.toNat ≤ x → x < b.gphysaddr.toNat + len2.toNat → (s.handles p).Covers x := by
    intro x low high
    exact ⟨by omega, by omega⟩
  have ends : ∀ x, (s.handles p).Covers x → x < b.gphysaddr.toNat + len2.toNat ∨ start + n ≤ x := by
    rintro x ⟨low, high⟩
    omega
  split
  · rename_i two
    obtain ⟨pUnlocked, pending⟩ := two
    obtain ⟨⟨q, g, q', l⟩, pending⟩ := Option.isSome_iff_exists.mp pending
    have old := gap.pending q g q' l pending
    have done := gap.done
    have slice := old.slice
    have inside := old.inside
    have lPositive := old.positive
    have qMember := gap.behind q old.met.1 g.toNat (old.covered g.toNat (by omega) (by omega)).1 (by omega) (by omega)
    refine ⟨p, q, ?_, met, old.met, pUnlocked, old.unlocked⟩
    rintro rfl
    have cleared := gap.cleared p qMember registered gphys2.toNat (covered _ (by omega) (by omega))
    omega
  · rename_i notTwo
    have after : ∀ c : Access, Going s start n (visited ++ [p]) c →
        Continues s start n (visited ++ [p]) (if c.len = 0 then .out c else .next c) := by
      intro c cGoing
      have cRest := cGoing.rest
      split
      · rename_i zero
        rw [zero, show (0 : UInt32).toNat = 0 from rfl] at cRest
        exact ⟨_, cGoing, fun q _ x low high => by omega⟩
      · rename_i nonzero
        exact ⟨cGoing, Nat.pos_of_ne_zero fun none' => nonzero (UInt32.toNat_inj.mp none')⟩
    apply after
    cases isUnlocked : (s.handles p).unlockedHandler with
    | true =>
      have none' : b.unlockedHandler = none := by simpa [isUnlocked] using notTwo
      simp only [if_true]
      exact gap.pend positive (by omega) fits registered listed.disjoint covered ends isUnlocked isStarted none'
    | false =>
      simp only [Bool.false_eq_true, if_false]
      exact gap.handler positive (by omega) fits registered listed.disjoint covered ends isUnlocked isStarted

theorem Going.passed (going : Going s start n visited a)
    (free : s.Registered p → ∀ x, (s.handles p).Covers x → x < a.gphysaddr.toNat ∨ start + n ≤ x) :
    Going s start n (visited ++ [p]) a := by
  refine ⟨going.rest, going.done, going.slices, going.pending, going.served, going.idle, going.met, ?_, ?_, ?_⟩
  · intro q member registered x covers
    rcases mem_append.mp member with old | isNew
    · exact going.cleared q old registered x covers
    · rw [mem_singleton] at isNew
      subst isNew
      exact free registered x covers
  · intro q registered x covers low high
    exact mem_append_left [p] (going.behind q registered x covers low high)
  · intro q member met isUnlocked
    rcases mem_append.mp member with old | isNew
    · exact going.unlocked q old met isUnlocked
    · rw [mem_singleton] at isNew
      subst isNew
      obtain ⟨registered, x, covers, low, high⟩ := met
      rcases free registered x covers with before | beyond
      · exact going.unlocked q (going.behind q registered x covers low before)
          ⟨registered, x, covers, low, high⟩ isUnlocked
      · omega

theorem accessHandle_spec (listed : Listed s) (going : Going s start n visited a)
    (nonempty : 0 < a.len.toNat) (fits : start + n < 2 ^ 64) (member : p ∈ s.handle)
    (earlier : ∀ k, s.Registered k → ∀ y, (s.handles k).Covers y → start ≤ y →
      y < (s.handles p).gphys.toNat → k ∈ visited) :
    Continues s start n (visited ++ [p]) (s.accessHandle answer p a) := by
  have rest := going.rest
  have done := going.done
  have hPlain := listed.plain p member
  have plain : Plain a.gphysaddr a.len := ⟨nonempty, by omega⟩
  have clear : Clear s a.gphysaddr.toNat (min (start + n) (s.handles p).gphys.toNat) := by
    intro k registered y low high covers
    have cleared := going.cleared k (earlier k registered y covers (by omega) (by omega)) registered y covers
    omega
  have end' : (a.gphysaddr + a.len.toUInt64).toNat = start + n := by
    rw [UInt64.toNat_add, UInt32.toNat_toUInt64, rest, Nat.mod_eq_of_lt fits]
  unfold accessHandle
  simp only [ge_iff_le, UInt64.le_iff_toNat_le, end']
  split
  · rename_i beyond
    rw [Nat.min_eq_left beyond] at clear
    exact ⟨visited, going, clear⟩
  · rename_i notBeyond
    cases gone : (s.handles p).unregistered with
    | true =>
      rw [rangecheck_unregistered gone]
      refine ⟨going.passed ?_, nonempty⟩
      rintro ⟨-, registered⟩
      rw [gone] at registered
      cases registered
    | false =>
      cases found : rangecheck (s.handles p) a.gphysaddr a.len with
      | none =>
        refine ⟨going.passed ?_, nonempty⟩
        rintro registered x ⟨low, high⟩
        have apart := (rangecheck_none gone hPlain plain).mp found
        omega
      | some result =>
        obtain ⟨gphys2, len2, f⟩ := result
        obtain ⟨rfl, first, last, positive⟩ := rangecheck_some gone hPlain plain found
        rw [rest] at last
        refine accessFound_spec listed going fits ⟨member, gone⟩ first last positive ?_
        intro k registered y low high
        exact clear k registered y low (by omega)

theorem accessLoop_spec (listed : Listed s) (fits : start + n < 2 ^ 64) {order : List Nat}
    (inside : ∀ p ∈ order, p ∈ s.handle)
    (all : ∀ k, s.Registered k → ∀ y, (s.handles k).Covers y → start ≤ y → y < start + n → k ∈ order)
    (earlier : ∀ front p back, order = front ++ p :: back → ∀ k, s.Registered k →
      ∀ y, (s.handles k).Covers y → start ≤ y → y < (s.handles p).gphys.toNat → k ∈ front)
    (rest : List Nat) : ∀ {visited a}, order = visited ++ rest → Going s start n visited a →
      0 < a.len.toNat → (∃ b visited', (s.accessLoop answer rest a = .next b ∨
          s.accessLoop answer rest a = .out b) ∧ Going s start n visited' b ∧
            Clear s b.gphysaddr.toNat (start + n)) ∨
        s.accessLoop answer rest a = .panic ∧ TwoUnlocked s start n := by
  induction rest with
  | nil =>
    intro visited a same going _
    refine .inl ⟨a, visited, .inl rfl, going, ?_⟩
    intro k registered y low high covers
    have done := going.done
    have member := all k registered y covers (by omega) high
    rw [same, append_nil] at member
    have cleared := going.cleared k member registered y covers
    omega
  | cons p rest ih =>
    intro visited a same going nonempty
    have spec := @accessHandle_spec s p start n visited a answer listed going nonempty fits
      (inside p (by simp [same])) (earlier visited p rest same)
    unfold accessLoop
    cases result : s.accessHandle answer p a with
    | next b =>
      rw [result] at spec
      exact ih (by rw [same, append_assoc]; rfl) spec.1 spec.2
    | out b =>
      rw [result] at spec
      obtain ⟨visited', bGoing, clear⟩ := spec
      exact .inl ⟨b, visited', .inr rfl, bGoing, clear⟩
    | panic =>
      rw [result] at spec
      exact .inr ⟨rfl, spec⟩

/-! The whole access -/

/-- What an access does: its result says whether a registered range meets it; and if one does,
each call gets its slice of the buffer, and each byte is served. -/
structure Dispatched (s : MmioData) (start n : Nat) (r : Bool) (calls : List Transfer) : Prop where
  result : r = true ↔ ∃ p, s.Met start n p
  slices : ∀ c ∈ calls, c.gphys.toNat = start + c.q ∧ c.q + c.len.toNat ≤ n
  served : r = true → ∀ x, start ≤ x → x < start + n → s.Served calls x
  idle : r = false → calls = []

theorem Going.started_iff (going : Going s start n visited a)
    (clear : Clear s a.gphysaddr.toNat (start + n)) : a.r = true ↔ ∃ p, s.Met start n p := by
  constructor
  · exact going.met
  · rintro ⟨p, registered, x, covers, low, high⟩
    have done := going.done
    cases started : a.r with
    | true => rfl
    | false =>
      obtain ⟨zero, -, -⟩ := going.idle started
      exact absurd covers (clear p registered x (by omega) high)

theorem Going.unlockedCall (going : Going s start n visited a) (disjoint : s.RangesDisjoint)
    (finished : a.gphysaddr.toNat = start + n) {g : UInt64} {q : Nat} {l : UInt32}
    (pending : a.unlockedHandler = some (p, g, q, l)) :
    (∀ c ∈ (a.callHandler answer p g q l).calls, c.gphys.toNat = start + c.q ∧ c.q + c.len.toNat ≤ n) ∧
    ∀ x, start ≤ x → x < start + n → s.Served (a.callHandler answer p g q l).calls x := by
  have wait := going.pending p g q l pending
  have slice := wait.slice
  have inside := wait.inside
  have positive := wait.positive
  have done := going.done
  have nonzero : l ≠ 0 := by
    rintro rfl
    exact absurd positive (by decide)
  obtain ⟨new, called, parts, goesTo⟩ := callHandler_eq a answer p g q nonzero
  rw [called]
  constructor
  · intro c member
    rcases mem_append.mp member with old | isNew
    · obtain ⟨cSlice, -, cInside⟩ := going.slices c old
      exact ⟨cSlice, by omega⟩
    · obtain ⟨gphys, from', size⟩ := parts c isNew
      rw [gphys, from', size]
      omega
  · intro x low high
    by_cases waits : g.toNat ≤ x ∧ x < g.toNat + l.toNat
    · obtain ⟨covers, untouched⟩ := wait.covered x waits.1 waits.2
      have all : targets (a.calls ++ new) x = new.map fun c => c.target := by
        rw [targets_append, untouched, nil_append, targets, filter_eq_self.mpr]
        intro c member
        obtain ⟨gphys, -, size⟩ := parts c member
        rw [decide_eq_true_eq, Transfer.Covers, gphys, size]
        exact waits
      refine ⟨fun r registered rCovers => ?_, fun none' => absurd covers (none' p wait.met.1)⟩
      have same : r = p := by
        by_contra ne
        exact disjoint r p registered wait.met.1 ne x rCovers covers
      rw [same, all]
      exact goesTo
    · have elsewhere : targets new x = [] := by
        apply targets_none
        intro c member covers
        obtain ⟨gphys, -, size⟩ := parts c member
        rw [Transfer.Covers, gphys, size] at covers
        exact waits covers
      have notPends : ¬Pends a x := by
        rintro ⟨p', g', q', l', pending', covers⟩
        rw [pending] at pending'
        cases pending'
        exact waits covers
      refine (going.served x low (by omega) notPends).congr ?_
      rw [targets_append, elsewhere, append_nil]

theorem calls_callHandler {b : Access} (same : a.calls = b.calls) (g : UInt64) (q : Nat)
    (l : UInt32) : (a.callHandler answer p g q l).calls = (b.callHandler answer p g q l).calls := by
  simp only [Access.callHandler, Access.gphysAccess, same]
  cases answer b.calls p g q l with
  | true => rfl
  | false =>
    simp only [Bool.false_eq_true, if_false]
    split
    · rfl
    · rfl

theorem accessOut_spec (listed : Listed s) (going : Going s start n visited a)
    (fits : start + n < 2 ^ 64) (clear : Clear s a.gphysaddr.toNat (start + n)) :
    Dispatched s start n (accessOut answer a).1 (accessOut answer a).2 := by
  have result := going.started_iff clear
  have rest := going.rest
  cases started : a.r with
  | false =>
    obtain ⟨-, calls, none'⟩ := going.idle started
    have out : accessOut answer a = (false, []) := by simp [accessOut, started, none', calls]
    rw [out]
    rw [started] at result
    exact ⟨result, by simp, by simp, fun _ => rfl⟩
  | true =>
    rw [← rest] at clear
    have whole := going.memory started (Nat.le_refl _) fits clear
    have finished : ((a.gphysAccess a.gphysaddr a.q a.len).advance a.len).gphysaddr.toNat = start + n := by
      rw [(toNat_advance (by simp only [gphysaddr_gphysAccess]; omega) (by simp)).1, gphysaddr_gphysAccess, rest]
    have done := whole.done
    rw [started] at result
    cases pending : a.unlockedHandler with
    | none =>
      have out : accessOut answer a = (true, ((a.gphysAccess a.gphysaddr a.q a.len).advance a.len).calls) := by
        simp [accessOut, started, pending, Access.advance]
      rw [out]
      refine ⟨result, ?_, ?_, by simp⟩
      · intro c member
        obtain ⟨slice, -, inside⟩ := whole.slices c member
        exact ⟨slice, by omega⟩
      · intro _ x low high
        refine whole.served x low (by omega) ?_
        rintro ⟨p, g, q, l, waits, -⟩
        have same : (a.gphysAccess a.gphysaddr a.q a.len).unlockedHandler = some (p, g, q, l) := waits
        rw [unlockedHandler_gphysAccess, pending] at same
        cases same
    | some call =>
      obtain ⟨p, g, q, l⟩ := call
      have pending' : ((a.gphysAccess a.gphysaddr a.q a.len).advance a.len).unlockedHandler = some (p, g, q, l) := by
        simp [Access.advance, pending]
      have out : accessOut answer a = (true,
          (((a.gphysAccess a.gphysaddr a.q a.len).advance a.len).callHandler answer p g q
            l).calls) := by
        rw [calls_callHandler (show ((a.gphysAccess a.gphysaddr a.q a.len).advance a.len).calls =
          (a.gphysAccess a.gphysaddr a.q a.len).calls from rfl)]
        simp [accessOut, started, pending]
      rw [out]
      obtain ⟨slices, served⟩ := whole.unlockedCall listed.disjoint finished pending'
      exact ⟨result, slices, fun _ => served, by simp⟩

theorem Going.not_twoUnlocked (going : Going s start n visited a)
    (clear : Clear s a.gphysaddr.toNat (start + n)) : ¬TwoUnlocked s start n := by
  have done := going.done
  have found : ∀ p, s.Met start n p → (s.handles p).unlockedHandler = true →
      ∃ g q l, a.unlockedHandler = some (p, g, q, l) := by
    intro p met isUnlocked
    obtain ⟨registered, x, covers, low, high⟩ := met
    have before : x < a.gphysaddr.toNat := by
      by_contra later
      exact clear p registered x (by omega) high covers
    exact going.unlocked p (going.behind p registered x covers low before) ⟨registered, x, covers, low, high⟩ isUnlocked
  rintro ⟨p, q, ne, pMet, qMet, pUnlocked, qUnlocked⟩
  obtain ⟨g, o, l, pPending⟩ := found p pMet pUnlocked
  obtain ⟨g', o', l', qPending⟩ := found q qMet qUnlocked
  rw [pPending] at qPending
  cases qPending
  exact ne rfl

theorem going_start {gphysaddr : UInt64} (s : MmioData) (len : UInt32) :
    Going s gphysaddr.toNat len.toNat [] {
      gphysaddr := gphysaddr
      q := 0
      len := len
      r := false
      unlockedHandler := none
      calls := [] } where
  rest := rfl
  done := rfl
  slices := by simp
  pending := by simp
  served := fun x low high => absurd high (by simpa using low)
  idle := by simp
  met := by simp
  cleared := by simp
  behind := fun p registered x covers low high => absurd high (by simpa using low)
  unlocked := by simp

theorem access_spec (listed : Listed s) (answer : Answer) {gphysaddr : UInt64}
    (fits : gphysaddr.toNat + len.toNat < 2 ^ 64) :
    (s.mmioAccessMemory answer gphysaddr len = none ↔ TwoUnlocked s gphysaddr.toNat len.toNat) ∧
      ∀ r calls, s.mmioAccessMemory answer gphysaddr len = some (r, calls) →
        Dispatched s gphysaddr.toNat len.toNat r calls := by
  have going := @going_start gphysaddr s len
  have ended : ∀ visited a, Going s gphysaddr.toNat len.toNat visited a →
      Clear s a.gphysaddr.toNat (gphysaddr.toNat + len.toNat) →
      s.mmioAccessMemory answer gphysaddr len = some (accessOut answer a) →
      (s.mmioAccessMemory answer gphysaddr len = none ↔ TwoUnlocked s gphysaddr.toNat len.toNat) ∧
      ∀ r calls, s.mmioAccessMemory answer gphysaddr len = some (r, calls) →
        Dispatched s gphysaddr.toNat len.toNat r calls := by
    intro visited a aGoing clear result
    rw [result]
    refine ⟨⟨fun impossible => (by cases impossible),
      fun two => absurd two (aGoing.not_twoUnlocked clear)⟩, ?_⟩
    intro r calls same
    have spec := @accessOut_spec s gphysaddr.toNat len.toNat visited a answer listed aGoing fits clear
    rw [Option.some.injEq] at same
    rw [same] at spec
    exact spec
  by_cases zero : len = 0
  · subst zero
    refine ended [] _ going ?_ ?_
    · intro p registered x low high
      exact absurd high (by simpa using low)
    · simp [mmioAccessMemory]
  · have positive : 0 < len.toNat :=
      Nat.pos_of_ne_zero fun none' => zero (UInt32.toNat_inj.mp none')
    have last := @toNat_last gphysaddr len ⟨positive, by omega⟩
    obtain ⟨order, isOrder⟩ : ∃ order, (List.range' (window gphysaddr.toNat)
        (window (gphysaddr.toNat + len.toNat - 1) + 1 - window gphysaddr.toNat)).flatMap s.mmio =
          order := ⟨_, rfl⟩
    have inside : ∀ p ∈ order, p ∈ s.handle := by
      intro p member
      rw [← isOrder] at member
      obtain ⟨i, -, inList⟩ := mem_flatMap.mp member
      exact ((listed.lists i p).mp inList).1
    have all : ∀ k, s.Registered k → ∀ y, (s.handles k).Covers y → gphysaddr.toNat ≤ y →
        y < gphysaddr.toNat + len.toNat → k ∈ order := by
      intro k registered y covers low high
      rw [← isOrder]
      exact listed.in_order registered.1 covers low (by omega)
    have earlier : ∀ front p back, order = front ++ p :: back → ∀ k, s.Registered k →
        ∀ y, (s.handles k).Covers y → gphysaddr.toNat ≤ y → y < (s.handles p).gphys.toNat →
          k ∈ front := by
      intro front p back split k registered y covers low below
      exact listed.earlier registered.1 covers below _ (window_mono low) (isOrder.trans split)
    have spec := @accessLoop_spec s _ _ answer listed fits order inside all earlier order [] _ rfl going positive
    rcases spec with ⟨b, visited, loop, bGoing, clear⟩ | ⟨loop, two⟩
    · refine ended visited b bGoing clear ?_
      rcases loop with loop | loop
      · simp only [mmioAccessMemory, if_neg zero, bucket_eq, last, isOrder, loop]
      · simp only [mmioAccessMemory, if_neg zero, bucket_eq, last, isOrder, loop]
    · have result : s.mmioAccessMemory answer gphysaddr len = none := by
        simp only [mmioAccessMemory, if_neg zero, bucket_eq, last, isOrder, loop]
      rw [result]
      exact ⟨⟨fun _ => two, fun _ => rfl⟩, fun r calls impossible => by cases impossible⟩

/-- After every run of registrations of ranges that are not empty and do not wrap, the lists are
sorted and complete, and an access gives each byte to the handler of its range or to guest memory;
it panics exactly if two ranges with unlocked handlers meet it. -/
theorem mmio_dispatch {events : List MmioEvent} (run : Run PlainStep mmioInit events s) :
    s.RangesDisjoint ∧
    (∀ i, (s.mmio i).Nodup ∧ (s.mmio i).Pairwise fun p q =>
      (s.handles p).gphys.toNat ≤ (s.handles q).gphys.toNat) ∧
    (∀ i p, p ∈ s.mmio i ↔ p ∈ s.handle ∧ (s.handles p).Meets i) ∧
    (∀ p ∈ (s.unlock false).handle, (s.unlock false).Registered p) ∧
    ∀ answer gphysaddr len, gphysaddr.toNat + len.toNat < 2 ^ 64 →
      (s.mmioAccessMemory answer gphysaddr len = none ↔
        TwoUnlocked s gphysaddr.toNat len.toNat) ∧
      ∀ r calls, s.mmioAccessMemory answer gphysaddr len = some (r, calls) →
        Dispatched s gphysaddr.toNat len.toNat r calls := by
  obtain ⟨listed, flagged⟩ := listed_run run
  exact ⟨listed.disjoint, fun i => ⟨listed.distinct i, listed.sorted i⟩, listed.lists,
    (listed.unlock flagged false).2.2 rfl, fun answer gphysaddr len fits =>
      access_spec listed answer fits⟩

theorem mmio_dispatch_vram : ∃ calls,
    (mmioInit.register 1 0xB8000 16 false false).mmioAccessMemory (fun _ _ _ _ _ => true) 0xB7FFE 4 =
      some (true, calls) ∧
    Dispatched (mmioInit.register 1 0xB8000 16 false false) 0xB7FFE 4 true calls := by
  have run : Run PlainStep mmioInit [.register 1 0xB8000 16 false false] (mmioInit.register 1 0xB8000 16 false false) :=
    Run.cons ⟨Step.register not_mem_nil, ⟨by decide, by decide⟩⟩ (Run.nil _)
  have dispatch := (mmio_dispatch run).2.2.2.2 (fun _ _ _ _ _ => true) 0xB7FFE 4 (by decide)
  exact ⟨_, rfl, dispatch.2 true _ rfl⟩

/-- Two unlocked handlers in an access are a panic; a byte that its handler does not accept goes to
guest memory too; and empty ranges, ranges that wrap and accesses up to the end of the address
space are not found as they should be. -/
theorem dispatch_exceptions :
    (¬∀ events s, Run Step mmioInit events s → ∀ answer g len, g.toNat + len.toNat < 2 ^ 64 →
      s.mmioAccessMemory answer g len ≠ none) ∧
    (¬∀ events s, Run Step mmioInit events s → ∀ answer g len r calls,
      g.toNat + len.toNat < 2 ^ 64 → s.mmioAccessMemory answer g len = some (r, calls) →
        r = true → ∀ x, g.toNat ≤ x → x < g.toNat + len.toNat → (targets calls x).length = 1) ∧
    (¬∀ events s, Run Step mmioInit events s → ∀ i p, p ∈ s.mmio i → (s.handles p).Meets i) ∧
    (¬∀ events s, Run Step mmioInit events s → ∀ i, ∀ p ∈ s.handle, (s.handles p).Meets i → p ∈ s.mmio i) ∧
    ¬∀ events s, Run Step mmioInit events s → ∀ answer g len r calls,
      g.toNat + len.toNat ≤ 2 ^ 64 → s.mmioAccessMemory answer g len = some (r, calls) →
        (∃ p, s.Met g.toNat len.toNat p) → r = true := by
  have single : ∀ g len u, Run Step mmioInit [.register 1 g len u false]
      (mmioInit.register 1 g len u false) := fun g len u =>
    Run.cons (Step.register not_mem_nil) (Run.nil _)
  refine ⟨?_, ?_, ?_, ?_, ?_⟩
  · intro always
    refine always [.register 1 0 1 true false, .register 2 1 1 true false] _
      (Run.cons (Step.register not_mem_nil) (Run.cons (Step.register ?_) (Run.nil _)))
      (fun _ _ _ _ _ => true) 0 2 (by decide) rfl
    decide
  · intro always
    have once := always _ _ (single 0 1 false) (fun _ _ _ _ _ => false) 0 1 true
      [⟨.handler 1 false, 0, 0, 1⟩, ⟨.memory, 0, 0, 1⟩] (by decide) rfl rfl 0 (by decide)
      (by decide)
    exact absurd once (by decide)
  · intro always
    obtain ⟨x, ⟨low, high⟩, -⟩ := always _ _ (single 0xB8001 0 false) 0 1 (by decide)
    exact absurd (Nat.lt_of_le_of_lt low high) (by decide)
  · intro always
    have listed := always _ _ (single 0xFFFFFFFFFFFFFFFF 2 false) 16 1 (by decide)
      ⟨0xFFFFFFFFFFFFFFFF, ⟨by decide, by decide⟩, by decide⟩
    exact absurd listed (by decide)
  · intro always
    have found := always _ _ (single 0xFFFFFFFFFFFFFFFC 4 false) (fun _ _ _ _ _ => true)
      0xFFFFFFFFFFFFFFFC 4 false [] (by decide) rfl
      ⟨1, ⟨by decide, rfl⟩, 0xFFFFFFFFFFFFFFFC, ⟨by decide, by decide⟩, by decide, by decide⟩
    cases found

end MmioData

end DisasVisor.Mmio
