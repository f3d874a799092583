import DisasVisor.Pci.Devices

/-!
Devices below bridges: which of them can be reached through the bus numbers of the bridges above
them, and what happens to that when the numbers of one bridge change or a device is taken up again.
-/

namespace DisasVisor.Pci

open Function
open Option (some.injEq)

structure Link where
  parent : Option ℕ
  bridge : Bridge
  busNo : UInt8
  disconnect : Bool

abbrev Tree := ℕ → Option Link

namespace Tree

variable {t t' t'' : Tree} {i j p a : ℕ} {l l' b : Link}

def Fits (t : Tree) (l : Link) : Prop :=
  l.parent = none ∧ l.busNo = 0 ∨
    ∃ p b, l.parent = some p ∧ t p = some b ∧ b.bridge.yes = true ∧ b.disconnect = false ∧
      b.bridge.secondaryBusNo = l.busNo

inductive Above (t : Tree) (a : ℕ) : ℕ → Prop
  | parent {k : ℕ} {here : Link} : t k = some here → here.parent = some a → Above t a k
  | up {k q : ℕ} {here : Link} : t k = some here → here.parent = some q → Above t a q → Above t a k

/-- The bus is the secondary bus of a bridge, or one of those behind it. A bridge with the number 0
has no range. -/
def InRange (b : Bridge) (bus : UInt8) : Prop :=
  bus = b.secondaryBusNo ∨ b.secondaryBusNo = 0 ∨ b.secondaryBusNo < bus ∧ bus ≤ b.subordinateBusNo

def Reached (t : Tree) (j : ℕ) : Prop :=
  ∀ l, t j = some l → t.Fits l ∧ ∀ a b, t.Above a j → t a = some b → InRange b.bridge l.busNo

def Connected (t : Tree) : Prop := ∀ j l, t j = some l → l.disconnect = false → t.Reached j

structure Sinks (t t' : Tree) : Prop where
  same : ∀ j l', t' j = some l' → ∃ l, t j = some l ∧ l'.parent = l.parent ∧ l'.bridge = l.bridge ∧
    (l.disconnect = true → l'.disconnect = true) ∧ (l'.disconnect = false → l' = l)
  found : ∀ j l, t j = some l → ∃ l', t' j = some l'
  closes : ∀ p b b' c k, t p = some b → b.bridge.yes = true → b.disconnect = false →
    t' p = some b' → b'.disconnect = true → t' c = some k → k.parent = some p → k.disconnect = true

theorem Sinks.refl (t : Tree) : t.Sinks t where
  same _ l here := ⟨l, here, rfl, rfl, id, fun _ => rfl⟩
  found _ l here := ⟨l, here⟩
  closes p b b' c k here yes connected there sunk _ _ := by
    rw [here] at there
    cases there
    rw [connected] at sunk
    exact absurd sunk Bool.false_ne_true

theorem Sinks.trans (first : t.Sinks t') (second : t'.Sinks t'') : t.Sinks t'' where
  same j l' here := by
    obtain ⟨m, middle, parent', bridge', down', stays'⟩ := second.same j l' here
    obtain ⟨l, start, parent, bridge, down, stays⟩ := first.same j m middle
    refine ⟨l, start, parent'.trans parent, bridge'.trans bridge, down' ∘ down, ?_⟩
    intro connected
    have eq := stays' connected
    subst eq
    exact stays connected
  found j l here := by
    obtain ⟨m, middle⟩ := first.found j l here
    exact second.found j m middle
  closes p b b' c k here yes connected there sunk child below := by
    obtain ⟨m, middle⟩ := first.found p b here
    obtain ⟨b0, here0, -, bridge, -, stays⟩ := first.same p m middle
    rw [here, some.injEq] at here0
    subst here0
    obtain ⟨k0, child0, parent0, -, down0, -⟩ := second.same c k child
    by_cases early : m.disconnect = true
    · exact down0 (first.closes p b m c k0 here yes connected middle early child0 (parent0.symm.trans below))
    · refine second.closes p m b' c k middle ?_ (by simpa using early) there sunk child below
      rw [bridge]
      exact yes

theorem Sinks.of_marked (here : t i = some l)
    (rest : Sinks (update t i (some { l with disconnect := true })) t')
    (children : l.bridge.yes = true → ∀ c k, t' c = some k → k.parent = some i → k.disconnect = true) : t.Sinks t' where
  same j l' is := by
    obtain ⟨m, middle, parent, bridge, down, stays⟩ := rest.same j l' is
    by_cases at' : j = i
    · subst at'
      rw [update_self] at middle
      cases middle
      refine ⟨l, here, parent, bridge, fun _ => down rfl, fun connected => ?_⟩
      exact absurd ((down rfl).symm.trans connected) (by simp)
    · rw [update_of_ne at'] at middle
      exact ⟨m, middle, parent, bridge, down, stays⟩
  found j k is := by
    by_cases at' : j = i
    · subst at'
      exact rest.found j _ (update_self ..)
    · exact rest.found j k ((update_of_ne at' ..).trans is)
  closes p b b' c k is yes connected there sunk child below := by
    by_cases at' : p = i
    · subst at'
      rw [here] at is
      cases is
      exact children yes c k child below
    · exact rest.closes p b b' c k ((update_of_ne at' ..).trans is) yes connected there sunk child below

theorem sinks_moved (here : t i = some l) (down : l.disconnect = true) (busNo : UInt8) :
    t.Sinks (update t i (some { l with busNo })) where
  same j l' is := by
    by_cases at' : j = i
    · subst at'
      rw [update_self] at is
      cases is
      exact ⟨l, here, rfl, rfl, id, fun up => absurd (down.symm.trans up) (by simp)⟩
    · rw [update_of_ne at'] at is
      exact ⟨l', is, rfl, rfl, id, fun _ => rfl⟩
  found j k is := by
    by_cases at' : j = i
    · subst at'
      exact ⟨_, update_self ..⟩
    · exact ⟨k, (update_of_ne at' ..).trans is⟩
  closes p b b' c k is _ connected there sunk _ _ := by
    by_cases at' : p = i
    · subst at'
      rw [here] at is
      cases is
      exact absurd (connected.symm.trans down) Bool.false_ne_true
    · rw [update_of_ne at', is] at there
      cases there
      exact absurd (connected.symm.trans sunk) Bool.false_ne_true

theorem Sinks.down (sinks : t.Sinks t') (sunk : ∀ l, t j = some l → l.disconnect = true) :
    ∀ l, t' j = some l → l.disconnect = true := by
  intro l here
  obtain ⟨k, start, -, -, down, -⟩ := sinks.same j l here
  exact down (sunk k start)

theorem Sinks.above (sinks : t.Sinks t') (above : t'.Above a j) : t.Above a j := by
  induction above with
  | parent here parent =>
    obtain ⟨l, start, same, -⟩ := sinks.same _ _ here
    exact Above.parent start (same.symm.trans parent)
  | up here parent _ ih =>
    obtain ⟨l, start, same, -⟩ := sinks.same _ _ here
    exact Above.up start (same.symm.trans parent) ih

theorem child_of_above (up : ∀ j l p, t j = some l → l.disconnect = false → l.parent = some p →
      ∃ b, t p = some b ∧ b.disconnect = false) (above : t.Above a j) :
    ∀ l, t j = some l → l.disconnect = false → ∃ c k, t c = some k ∧ k.parent = some a ∧ k.disconnect = false := by
  induction above with
  | parent here parent =>
    intro l there connected
    rw [here] at there
    cases there
    exact ⟨_, _, here, parent, connected⟩
  | up here parent _ ih =>
    intro l there connected
    rw [here] at there
    cases there
    obtain ⟨b, upper, connected'⟩ := up _ _ _ here connected parent
    exact ih b upper connected'

theorem Connected.up (tree : t.Connected) (here : t j = some l) (connected : l.disconnect = false)
    (parent : l.parent = some p) : ∃ b, t p = some b ∧ b.disconnect = false := by
  rcases (tree j l here connected l here).1 with ⟨none, -⟩ | ⟨q, b, parent', upper, -, linked, -⟩
  · rw [none] at parent
    exact absurd parent.symm (Option.some_ne_none p)
  · rw [parent', some.injEq] at parent
    exact ⟨b, parent ▸ upper, linked⟩

def Settled (bridge : ℕ) (n : BusNumbers) (l : Link) : Prop :=
  l.disconnect = false →
    ¬(l.parent = some bridge ∧ n.newSecondary ≠ n.oldSecondary) ∧
    ¬(n.oldSecondary ≠ 0 ∧ n.oldSecondary < l.busNo ∧ l.busNo ≤ n.oldSubordinate ∧
      ¬(n.newSecondary = n.oldSecondary ∧ n.newSecondary < l.busNo ∧ l.busNo ≤ n.newSubordinate))

theorem Sinks.settled {bridge : ℕ} {n : BusNumbers} (sinks : t.Sinks t')
    (settled : ∀ l, t j = some l → Settled bridge n l) : ∀ l, t' j = some l → Settled bridge n l := by
  intro l here connected
  obtain ⟨k, start, -, -, -, stays⟩ := sinks.same j l here
  have same := stays connected
  subst same
  exact settled l start connected

theorem Connected.renumber (tree : t.Connected) {bridge : ℕ} {n : BusNumbers} (sinks : t.Sinks t')
    (settled : ∀ j l, t' j = some l → Settled bridge n l) (here : t' bridge = some b)
    (secondary : b.bridge.secondaryBusNo = n.oldSecondary)
    (subordinate : b.bridge.subordinateBusNo = n.oldSubordinate) :
    Connected (update t' bridge (some { b with bridge := { b.bridge with
      secondaryBusNo := n.newSecondary, subordinateBusNo := n.newSubordinate } })) := by
  set numbered := update t' bridge (some { b with bridge := { b.bridge with
      secondaryBusNo := n.newSecondary, subordinateBusNo := n.newSubordinate } }) with definition
  have atBridge : numbered bridge = some { b with bridge := { b.bridge with
      secondaryBusNo := n.newSecondary, subordinateBusNo := n.newSubordinate } } := by
    rw [definition, update_self]
  have other : ∀ j, j ≠ bridge → numbered j = t' j := by
    intro j differs
    rw [definition, update_of_ne differs]
  -- A device has its old parent and bus number, and outside of the bridge all of its link.
  have old : ∀ j l, numbered j = some l → l.disconnect = false → ∃ k, t j = some k ∧ t' j = some k ∧
      k.disconnect = false ∧ l.parent = k.parent ∧ l.busNo = k.busNo := by
    intro j l is connected
    by_cases at' : j = bridge
    · subst at'
      rw [atBridge] at is
      cases is
      obtain ⟨k, start, -, -, -, stays⟩ := sinks.same _ _ here
      have same := stays connected
      subst same
      exact ⟨b, start, here, connected, rfl, rfl⟩
    · rw [other j at'] at is
      obtain ⟨k, start, -, -, -, stays⟩ := sinks.same _ _ is
      have same := stays connected
      subst same
      exact ⟨l, start, is, connected, rfl, rfl⟩
  have up : ∀ j l p, numbered j = some l → l.disconnect = false → l.parent = some p →
      ∃ c, t p = some c ∧ t' p = some c ∧ c.bridge.yes = true ∧ c.disconnect = false ∧
        c.bridge.secondaryBusNo = l.busNo := by
    intro j l p is connected parent
    obtain ⟨k, start, now, linked, sameParent, sameBus⟩ := old j l is connected
    rcases (tree j k start linked k start).1 with ⟨none, -⟩ | ⟨q, c, parent', upper, yes, linked', bus⟩
    · rw [sameParent, none] at parent
      exact absurd parent.symm (Option.some_ne_none p)
    · obtain rfl : q = p := by simpa [sameParent, parent'] using parent
      obtain ⟨c', upper'⟩ := sinks.found q c upper
      have stays : c'.disconnect = false := by
        by_contra sunk
        have down := sinks.closes q c c' j k upper yes linked' upper' (by simpa using sunk) now parent'
        rw [linked] at down
        exact absurd down Bool.false_ne_true
      obtain ⟨c0, upper0, -, -, -, same⟩ := sinks.same q c' upper'
      rw [upper, some.injEq] at upper0
      have eq := same stays
      subst upper0
      subst eq
      exact ⟨c', upper, upper', yes, stays, bus.trans sameBus.symm⟩
  have connectedUp : ∀ j l p, numbered j = some l → l.disconnect = false → l.parent = some p →
      ∃ c, numbered p = some c ∧ c.disconnect = false := by
    intro j l p is connected parent
    obtain ⟨c, -, now, -, linked, -⟩ := up j l p is connected parent
    by_cases at' : p = bridge
    · subst at'
      rw [here] at now
      cases now
      exact ⟨_, atBridge, linked⟩
    · exact ⟨c, (other p at').trans now, linked⟩
  have parents : ∀ a j, Above numbered a j → t'.Above a j := by
    intro a j above
    have same : ∀ k l, numbered k = some l → ∃ m, t' k = some m ∧ l.parent = m.parent := by
      intro k l is
      by_cases at' : k = bridge
      · subst at'
        rw [atBridge, some.injEq] at is
        exact ⟨b, here, by rw [← is]⟩
      · exact ⟨l, (other k at').symm.trans is, rfl⟩
    induction above with
    | parent is parent =>
      obtain ⟨m, now, eq⟩ := same _ _ is
      exact Above.parent now (eq.symm.trans parent)
    | up is parent _ ih =>
      obtain ⟨m, now, eq⟩ := same _ _ is
      exact Above.up now (eq.symm.trans parent) ih
  intro j l is connected l' is'
  rw [is] at is'
  cases is'
  obtain ⟨k, start, now, linked, sameParent, sameBus⟩ := old j l is connected
  have reached := tree j k start linked k start
  have settledHere := settled j k now linked
  refine ⟨?_, ?_⟩
  · rcases reached.1 with ⟨none, zero⟩ | ⟨p, c, parent, -⟩
    · exact .inl ⟨sameParent.trans none, sameBus.trans zero⟩
    · obtain ⟨c, -, upper, yes, linked', bus⟩ := up j l p is connected (sameParent.trans parent)
      refine .inr ⟨p, ?_⟩
      by_cases at' : p = bridge
      · subst at'
        rw [here] at upper
        cases upper
        have kept : n.newSecondary = n.oldSecondary := by
          by_contra changed
          exact settledHere.1 ⟨parent, changed⟩
        refine ⟨_, sameParent.trans parent, atBridge, yes, linked', ?_⟩
        rw [kept, ← secondary]
        exact bus
      · exact ⟨c, sameParent.trans parent, (other p at').trans upper, yes, linked', bus⟩
  · intro a c above upper
    rw [sameBus]
    by_cases at' : a = bridge
    · subst at'
      rw [atBridge] at upper
      cases upper
      have kept : n.newSecondary = n.oldSecondary := by
        by_contra changed
        obtain ⟨child, m, isChild, below, linked'⟩ := child_of_above connectedUp above l is connected
        obtain ⟨m', -, nowChild, linked'', sameParent', -⟩ := old child m isChild linked'
        exact (settled child m' nowChild linked'').1 ⟨sameParent'.symm.trans below, changed⟩
      obtain ⟨b0, start0, -, bridge0, -⟩ := sinks.same _ _ here
      have before := reached.2 a b0 (sinks.above (parents a j above)) start0
      rw [← bridge0] at before
      simp only [InRange, kept, ← secondary]
      rcases before with bus | zero | ⟨low, high⟩
      · exact .inl bus
      · exact .inr (.inl zero)
      · by_cases zero : b.bridge.secondaryBusNo = 0
        · exact .inr (.inl zero)
        · refine .inr (.inr ⟨low, ?_⟩)
          by_contra above'
          refine settledHere.2 ⟨?_, ?_, ?_, fun inside => above' inside.2.2⟩
          · rw [← secondary]
            exact zero
          · rw [← secondary]
            exact low
          · rw [← subordinate]
            exact high
    · rw [other a at'] at upper
      obtain ⟨c0, start0, -, bridge0, -⟩ := sinks.same _ _ upper
      rw [bridge0]
      exact reached.2 a c0 (sinks.above (parents a j above)) start0

theorem Connected.takeUp (tree : t.Connected) (down : ∀ l, t i = some l → l.disconnect = true)
    (other : ∀ j, j ≠ i → t' j = t j) (reached : t'.Reached i) : t'.Connected := by
  have stays : ∀ j l, t j = some l → l.disconnect = false → j ≠ i := by
    rintro j l here connected rfl
    rw [down l here] at connected
    exact absurd connected (Bool.false_ne_true ∘ Eq.symm)
  have parents : ∀ a j, t'.Above a j → ∀ l, t j = some l → l.disconnect = false → t.Above a j ∧ a ≠ i := by
    intro a j above
    induction above with
    | parent here parent =>
      intro l start connected
      have differs := stays _ l start connected
      rw [other _ differs, start] at here
      cases here
      obtain ⟨b, upper, linked⟩ := tree.up start connected parent
      exact ⟨Above.parent start parent, stays a b upper linked⟩
    | up here parent _ ih =>
      intro l start connected
      have differs := stays _ l start connected
      rw [other _ differs, start] at here
      cases here
      obtain ⟨b, upper, linked⟩ := tree.up start connected parent
      have rest := ih b upper linked
      exact ⟨Above.up start parent rest.1, rest.2⟩
  intro j l here connected
  by_cases at' : j = i
  · subst at'
    exact reached
  · rw [other j at'] at here
    intro l' here'
    rw [other j at', here] at here'
    cases here'
    have before := tree j l here connected l here
    refine ⟨?_, ?_⟩
    · rcases before.1 with outside | ⟨p, b, parent, upper, yes, linked, bus⟩
      · exact .inl outside
      · exact .inr ⟨p, b, parent, (other p (stays p b upper linked)).trans upper, yes, linked, bus⟩
    · intro a b above upper
      obtain ⟨above', differs⟩ := parents a j above l here connected
      rw [other a differs] at upper
      exact before.2 a b above' upper

end Tree

end DisasVisor.Pci
