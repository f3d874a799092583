import DisasVisor.Pci.BridgeTree
import DisasVisor.Pci.Identity

/-!
Writes of the guest to the bus numbers of bridges, and the other accesses between them: a device
that is not disconnected is reached through the bridges above it.
-/

namespace DisasVisor.Pci

open Function Transitions
open Option (some.injEq some.inj bind_eq_some_iff map_eq_some_iff)

variable {findDriver : Device → Bool} {devices after : List Device} {s s' : State} {hw : Hardware}
  {bridge i j : ℕ} {n : BusNumbers} {d e : Device}

def Device.link (d : Device) : Link where
  parent := d.parentBridge
  bridge := d.bridge
  busNo := d.address.busNo
  disconnect := d.disconnect

def tree (devices : List Device) : Tree := fun j => devices[j]?.map Device.link

theorem tree_some (here : devices[j]? = some d) : tree devices j = some d.link := by
  rw [tree, here, Option.map_some]

theorem tree_set (here : devices[i]? = some d) (e : Device) :
    tree (devices.set i e) = update (tree devices) i (some e.link) := by
  have below := (List.getElem?_eq_some_iff.mp here).1
  funext k
  by_cases at' : k = i
  · subst at'
    rw [update_self, tree_some (List.getElem?_set_self below)]
  · rw [update_of_ne at', tree, List.getElem?_set_ne (Ne.symm at'), tree]

theorem tree_set_same (here : devices[i]? = some d) (same : e.link = d.link) :
    tree (devices.set i e) = tree devices := by
  rw [tree_set here, same, ← tree_some here, Function.update_eq_self]

theorem deviceDisconnect_spec (fuel : ℕ) : ∀ {i devices after},
    deviceDisconnect fuel i devices = some after →
      (tree devices).Sinks (tree after) ∧ ∀ l, tree after i = some l → l.disconnect = true := by
  induction fuel with
  | zero =>
    intro i devices after is
    cases is
  | succ fuel ih =>
    intro i devices after is
    have loop : ∀ (js : List ℕ) (devices after : List Device),
        js.foldlM (disconnectBelow fuel i) devices = some after →
          (tree devices).Sinks (tree after) ∧ ∀ j ∈ js, ∀ l, tree after j = some l →
            l.parent = some i → l.disconnect = true := by
      intro js
      induction js with
      | nil =>
        intro devices after is
        cases is
        exact ⟨Tree.Sinks.refl _, by simp⟩
      | cons j js later =>
        intro devices after is
        rw [List.foldlM_cons] at is
        obtain ⟨middle, first, rest⟩ := bind_eq_some_iff.mp is
        obtain ⟨sinks, marked⟩ := later _ _ rest
        rw [disconnectBelow] at first
        split at first
        · cases first
        · rename_i e here
          split at first
          · obtain ⟨sinks', down⟩ := ih first
            refine ⟨sinks'.trans sinks, ?_⟩
            intro k member l there child
            rcases List.mem_cons.mp member with rfl | other
            · exact sinks.down down l there
            · exact marked k other l there child
          · rename_i outside
            rw [← some.inj first] at sinks
            refine ⟨sinks, ?_⟩
            intro k member l there child
            rcases List.mem_cons.mp member with rfl | other
            · obtain ⟨m, before, parent, -⟩ := sinks.same _ l there
              rw [tree_some here] at before
              cases before
              exact absurd (parent.symm.trans child) outside
            · exact marked k other l there child
    rw [deviceDisconnect] at is
    split at is
    · cases is
    · rename_i d here
      have marked := tree_set here { d with disconnect := true }
      dsimp only at is
      split at is
      · obtain ⟨sinks, children⟩ := loop _ _ _ is
        rw [marked] at sinks
        refine ⟨Tree.Sinks.of_marked (tree_some here) sinks ?_, ?_⟩
        · intro _ c k child below
          obtain ⟨m, before, -⟩ := sinks.same c k child
          have range : c < devices.length := by
            by_cases at' : c = i
            · exact at' ▸ (List.getElem?_eq_some_iff.mp here).1
            · rw [update_of_ne at'] at before
              obtain ⟨e, there, -⟩ := map_eq_some_iff.mp before
              exact (List.getElem?_eq_some_iff.mp there).1
          exact children c (by simpa using range) k child below
        · exact sinks.down fun l at' => by
            rw [update_self, some.injEq] at at'
            exact at' ▸ rfl
      · rename_i leaf
        rw [← some.inj is, marked]
        refine ⟨Tree.Sinks.of_marked (tree_some here) (Tree.Sinks.refl _) ?_, ?_⟩
        · exact fun yes => absurd yes leaf
        · intro l at'
          rw [update_self, some.injEq] at at'
          exact at' ▸ rfl

theorem renumber_spec (is : renumber bridge n devices j = some after) :
    (tree devices).Sinks (tree after) ∧ ∀ l, tree after j = some l → Tree.Settled bridge n l := by
  rw [renumber] at is
  split at is
  · cases is
  · rename_i d here
    split at is
    · split at is
      · cases is
      · obtain ⟨marked, disconnects, rest⟩ := bind_eq_some_iff.mp is
        obtain ⟨e, there, moved⟩ := bind_eq_some_iff.mp rest
        obtain ⟨sinks, down⟩ := deviceDisconnect_spec _ disconnects
        have sunk := down _ (tree_some there)
        have moves := Tree.sinks_moved (tree_some there) sunk n.newSecondary
        have same := tree_set there { e with address := { e.address with busNo := n.newSecondary } }
        rw [← some.inj moved, same]
        refine ⟨sinks.trans moves, ?_⟩
        intro l at' connected
        rw [update_self, some.injEq] at at'
        rw [← at'] at connected
        exact absurd (sunk.symm.trans connected) (by simp)
    · rename_i other
      split at is
      · obtain ⟨sinks, down⟩ := deviceDisconnect_spec _ is
        refine ⟨sinks, fun l at' connected => ?_⟩
        exact absurd ((down l at').symm.trans connected) (by simp)
      · rename_i inside
        cases is
        refine ⟨Tree.Sinks.refl _, fun l at' connected => ?_⟩
        rw [tree_some here] at at'
        cases at'
        refine ⟨other, fun leaves => inside ⟨?_, leaves⟩⟩
        have up : d.disconnect = false := connected
        simp [up]

theorem renumbers_spec : ∀ {js : List ℕ} {devices after : List Device},
    js.foldlM (renumber bridge n) devices = some after →
      (tree devices).Sinks (tree after) ∧ ∀ j ∈ js, ∀ l, tree after j = some l → Tree.Settled bridge n l := by
  intro js
  induction js with
  | nil =>
    intro devices after is
    cases is
    exact ⟨Tree.Sinks.refl _, by simp⟩
  | cons j js ih =>
    intro devices after is
    rw [List.foldlM_cons] at is
    obtain ⟨middle, first, rest⟩ := bind_eq_some_iff.mp is
    obtain ⟨sinks, settled⟩ := renumber_spec first
    obtain ⟨sinks', settled'⟩ := ih rest
    refine ⟨sinks.trans sinks', ?_⟩
    intro k member
    rcases List.mem_cons.mp member with rfl | other
    · exact sinks'.settled settled
    · exact settled' k other

def busNumbers (b : Bridge) (iosize offset : ℕ) (data : ℕ → UInt8) : BusNumbers where
  oldSecondary := b.secondaryBusNo
  oldSubordinate := b.subordinateBusNo
  newSecondary := written 0x19 offset iosize data b.secondaryBusNo
  newSubordinate := written 0x1A offset iosize data b.subordinateBusNo

theorem pciHandleBridgeConfigWrite_connected {iosize offset : ℕ} {data : ℕ → UInt8}
    (connected : (tree s.devices).Connected)
    (is : pciHandleBridgeConfigWrite s bridge iosize offset data = some s') : (tree s'.devices).Connected := by
  unfold pciHandleBridgeConfigWrite at is
  obtain ⟨b, here, rest⟩ := bind_eq_some_iff.mp is
  dsimp only at rest
  split at rest
  · cases rest
    exact connected
  · obtain ⟨renumbered, loop, rest'⟩ := bind_eq_some_iff.mp rest
    obtain ⟨b', there, last⟩ := bind_eq_some_iff.mp rest'
    obtain ⟨sinks, settled⟩ := renumbers_spec loop
    obtain ⟨l, before, -, sameBridge, -⟩ := sinks.same bridge _ (tree_some there)
    rw [tree_some here] at before
    cases before
    have all : ∀ j l, tree renumbered j = some l → Tree.Settled bridge (busNumbers b.bridge iosize offset data) l := by
      intro j l at'
      obtain ⟨m, start, -⟩ := sinks.same j l at'
      obtain ⟨e, inside, -⟩ := map_eq_some_iff.mp start
      exact settled j (List.mem_range.mpr (List.getElem?_eq_some_iff.mp inside).1) l at'
    have numbers : b'.bridge = b.bridge := sameBridge
    have kept := connected.renumber sinks all (tree_some there)
      (congrArg Bridge.secondaryBusNo numbers) (congrArg Bridge.subordinateBusNo numbers)
    cases last
    unfold pciSetBridgeFromBusNo
    split
    · rw [State.set, tree_set there]
      exact kept
    · rw [State.set, tree_set there]
      exact kept

def accessTarget (s : State) : Event → Option (Option Target)
  | .addr _ => some none
  | .data _ _ _ _ hw _ =>
    if s.currentConfigAddr.allow then target (searchPort s.devices s.caddr) s.caddr hw s
    else some none
  | .mmio bdf _ _ _ _ hw _ => target (searchMmio s.devices bdf) (newDevAddr bdf) hw s

def TakesUpReached (s : State) (e : Event) : Prop :=
  ∀ t, accessTarget s e = some (some t) →
    (∀ d, s.devices[t.index]? = some d → d.disconnect = true) →
    (tree t.state.devices).Reached t.index

theorem target_connected {found : Found} {addr : ConfigAddress} {t : Target}
    (connected : (tree s.devices).Connected) (is : target found addr hw s = some (some t))
    (reached : (∀ d, s.devices[t.index]? = some d → d.disconnect = true) →
      (tree t.state.devices).Reached t.index) : (tree t.state.devices).Connected := by
  unfold target at is
  split at is
  · cases is
  · split at is
    · cases is
    · rename_i s' possible
      unfold pciPossibleNewDevice at possible
      obtain ⟨-, made⟩ := Option.ite_none_left_eq_some.mp possible
      obtain rfl := some.inj made
      obtain rfl := some.inj (some.inj is)
      have absent : s.devices[s.devices.length]? = none := List.getElem?_eq_none (Nat.le_refl _)
      refine connected.takeUp (i := s.devices.length) ?_ ?_ (reached ?_)
      · intro l here
        rw [tree, absent] at here
        cases here
      · intro j differs
        rw [tree, tree]
        congr 1
        rcases Nat.lt_or_gt_of_ne differs with below | above
        · exact List.getElem?_append_left below
        · rw [List.getElem?_eq_none (by simp; omega), List.getElem?_eq_none (by omega)]
      · intro d here
        rw [absent] at here
        cases here
  · rename_i i
    obtain ⟨d, here, rest⟩ := bind_eq_some_iff.mp is
    split at rest
    · rename_i down
      obtain ⟨r, reconnects, rest'⟩ := bind_eq_some_iff.mp rest
      have sunk : ∀ d', s.devices[i]? = some d' → d'.disconnect = true := by
        intro d' there
        rw [here, some.injEq] at there
        exact there ▸ down
      have up : ∀ e : Device, t = { state := s.set i e, index := i, fresh := t.fresh } →
          (tree t.state.devices).Connected := by
        intro e made
        rw [made] at reached ⊢
        refine connected.takeUp (i := i) ?_ ?_ (reached sunk)
        · intro l there
          rw [tree_some here, some.injEq] at there
          exact there ▸ down
        · intro j differs
          rw [State.set, tree_set here, update_of_ne differs]
      cases r with
      | absent => cases rest'
      | same e =>
        refine up e ?_
        rw [← some.inj (some.inj rest')]
      | changed e =>
        refine up e ?_
        rw [← some.inj (some.inj rest')]
    · rw [← some.inj (some.inj rest)]
      exact connected

theorem register_tree {t : Target} {goes : Bool} (is : register findDriver t = some (s, goes)) :
    tree s.devices = tree t.state.devices := by
  unfold register at is
  split at is
  · obtain ⟨d, here, rest⟩ := bind_eq_some_iff.mp is
    split at rest
    · have pair := some.inj rest
      rw [Prod.mk.injEq] at pair
      rw [← pair.1]
      exact tree_set_same here rfl
    · have pair := some.inj rest
      rw [Prod.mk.injEq] at pair
      rw [← pair.1]
  · have pair := some.inj is
    rw [Prod.mk.injEq] at pair
    rw [← pair.1]

theorem saveRegister_tree {offset : ℕ} {saved : Option UInt32}
    (is : saveRegister s i offset saved = some s') : tree s'.devices = tree s.devices := by
  unfold saveRegister at is
  obtain ⟨d, here, rest⟩ := bind_eq_some_iff.mp is
  cases saved with
  | none => rw [← some.inj rest]
  | some reg =>
    rw [← some.inj rest]
    exact tree_set_same here rfl

theorem writeBridge_connected {wr : Bool} {iosize offset : ℕ} {data : ℕ → UInt8}
    (connected : (tree s.devices).Connected)
    (is : writeBridge s i wr iosize offset data = some s') : (tree s'.devices).Connected := by
  unfold writeBridge at is
  obtain ⟨d, here, rest⟩ := bind_eq_some_iff.mp is
  split at rest
  · exact pciHandleBridgeConfigWrite_connected connected rest
  · cases rest
    exact connected

theorem step_connected {e : Event} (connected : (tree s.devices).Connected)
    (reached : TakesUpReached s e) (is : step findDriver s e = some s') : (tree s'.devices).Connected := by
  cases e with
  | addr value =>
    cases is
    exact connected
  | data wr iosize port data hw saved =>
    rw [step, pciConfigDataHandler] at is
    split at is
    · cases is
      exact connected
    · rename_i allow
      rw [not_not] at allow
      obtain ⟨r, targets, rest⟩ := bind_eq_some_iff.mp is
      change target (searchPort s.devices s.caddr) s.caddr hw s = some r at targets
      cases r with
      | none =>
        cases rest
        exact connected
      | some t =>
        have taken := target_connected connected targets (reached t (by rw [accessTarget, if_pos allow, targets]))
        obtain ⟨⟨s1, goes⟩, registers, rest'⟩ := bind_eq_some_iff.mp rest
        rw [← register_tree registers] at taken
        cases goes with
        | false =>
          rw [saveRegister_tree rest']
          exact taken
        | true =>
          obtain ⟨s2, writes, saves⟩ := bind_eq_some_iff.mp rest'
          rw [saveRegister_tree saves]
          exact writeBridge_connected taken writes
  | mmio bdf regOffset wr len data hw saved =>
    rw [step, pciConfigMmioHandler] at is
    obtain ⟨r, targets, rest⟩ := bind_eq_some_iff.mp is
    cases r with
    | none =>
      cases rest
      exact connected
    | some t =>
      have taken := target_connected connected targets (reached t targets)
      obtain ⟨⟨s1, goes⟩, registers, rest'⟩ := bind_eq_some_iff.mp rest
      rw [← register_tree registers] at taken
      cases goes with
      | false =>
        cases rest'
        exact taken
      | true =>
        obtain ⟨s2, writes, saves⟩ := bind_eq_some_iff.mp rest'
        rw [saveRegister_tree saves]
        exact writeBridge_connected taken writes

def ReachedStep (findDriver : Device → Bool) (before : State) (e : Event) (after : State) : Prop :=
  TakesUpReached before e ∧ step findDriver before e = some after

/-- A device that is not disconnected sits on bus 0, or below a bridge that is not disconnected, on its
secondary bus; and it is in the ranges of all bridges above it. -/
theorem bridges_connected {events : List Event} (start : (tree s.devices).Connected)
    (run : Run (ReachedStep findDriver) s events s') :
    ∀ j d, s'.devices[j]? = some d → d.disconnect = false →
      (d.address.busNo = 0 ∨ ∃ p b, d.parentBridge = some p ∧ s'.devices[p]? = some b ∧
        b.disconnect = false ∧ b.bridge.secondaryBusNo = d.address.busNo) ∧
      ∀ a b, (tree s'.devices).Above a j → s'.devices[a]? = some b → Tree.InRange b.bridge d.address.busNo := by
  have connected := run.keeps (fun s => (tree s.devices).Connected)
    (fun _ _ _ taken connected => step_connected connected taken.1 taken.2) start
  intro j d here up
  have reached := connected j d.link (tree_some here) up d.link (tree_some here)
  refine ⟨?_, fun a b above there => reached.2 a b.link above (tree_some there)⟩
  rcases reached.1 with ⟨-, zero⟩ | ⟨p, l, parent, upper, -, linked, bus⟩
  · exact .inl zero
  · obtain ⟨b, there, rfl⟩ := Option.map_eq_some_iff.mp upper
    exact .inr ⟨p, b, parent, there, linked, bus⟩

def sampleBridge (bus : UInt8) (parent : Option ℕ) (secondary subordinate : UInt8) : Device where
  address := newDevAddr (bus, 0, 0)
  driver := false
  configSpace := fun k => if k = 2 then 0x06040000 else 0x12348086
  bridge := ⟨true, secondary, subordinate⟩
  parentBridge := parent
  disconnect := false

def sampleBridges : State where
  devices := [sampleBridge 0 none 1 3, sampleBridge 1 (some 0) 2 3, sampleBridge 2 (some 1) 3 3]
  bridgeFromBusNo := fun bus => if bus = 1 then some 0 else if bus = 2 then some 1 else
    if bus = 3 then some 2 else none
  currentConfigAddr := newDevAddr (0, 0, 0)
  registered := []

def sampleWrite (bus : UInt8) (register : ℕ) (value : UInt8) : Event :=
  .mmio (bus, 0, 0) register true 1 (fun _ => value) (fun _ k => if k = 2 then 0x06040000 else 0x12348086) none

theorem sampleBridges_connected : (tree sampleBridges.devices).Connected := by
  have none_above : ∀ a, ¬(tree sampleBridges.devices).Above a 0 := by
    intro a above
    cases above with
    | parent here parent =>
      obtain rfl := some.inj here
      exact absurd parent (by simp [Device.link, sampleBridge])
    | up here parent =>
      obtain rfl := some.inj here
      exact absurd parent (by simp [Device.link, sampleBridge])
  have first_above : ∀ a, (tree sampleBridges.devices).Above a 1 → a = 0 := by
    intro a above
    cases above with
    | parent here parent =>
      obtain rfl := some.inj here
      exact (some.inj parent).symm
    | up here parent rest =>
      obtain rfl := some.inj here
      exact absurd (some.inj parent ▸ rest) (none_above a)
  have second_above : ∀ a, (tree sampleBridges.devices).Above a 2 → a = 1 ∨ a = 0 := by
    intro a above
    cases above with
    | parent here parent =>
      obtain rfl := some.inj here
      exact .inl (some.inj parent).symm
    | up here parent rest =>
      obtain rfl := some.inj here
      exact .inr (first_above a (some.inj parent ▸ rest))
  intro j l here _ l' there
  rw [here] at there
  cases there
  match j with
  | 0 =>
    obtain rfl := some.inj here
    exact ⟨.inl ⟨rfl, rfl⟩, fun a b above _ => absurd above (none_above a)⟩
  | 1 =>
    obtain rfl := some.inj here
    refine ⟨.inr ⟨0, _, rfl, rfl, rfl, rfl, rfl⟩, fun a b above upper => ?_⟩
    obtain rfl := first_above a above
    obtain rfl := some.inj upper
    exact .inl rfl
  | 2 =>
    obtain rfl := some.inj here
    refine ⟨.inr ⟨1, _, rfl, rfl, rfl, rfl, rfl⟩, fun a b above upper => ?_⟩
    rcases second_above a above with rfl | rfl
    · obtain rfl := some.inj upper
      exact .inl rfl
    · obtain rfl := some.inj upper
      exact .inr (.inr ⟨by decide, by decide⟩)
  | k + 3 => exact absurd here (by simp [tree, sampleBridges])

/-- The range of the first bridge is cleared. -/
theorem bridges_connected_sample : ∃ s' : State,
    Run (ReachedStep fun _ => false) sampleBridges [sampleWrite 0 0x19 0] s' ∧
      ∀ (j : ℕ) (d : Device), s'.devices[j]? = some d → d.disconnect = false → d.address.busNo = 0 ∨
        ∃ p b, d.parentBridge = some p ∧ s'.devices[p]? = some b ∧ b.disconnect = false ∧
          b.bridge.secondaryBusNo = d.address.busNo := by
  obtain ⟨s', written⟩ : ∃ s', step (fun _ => false) sampleBridges (sampleWrite 0 0x19 0) = some s' := ⟨_, rfl⟩
  have run : Run (ReachedStep fun _ => false) sampleBridges [sampleWrite 0 0x19 0] s' := by
    refine Run.cons ⟨?_, written⟩ (Run.nil _)
    intro t is down
    obtain rfl := some.inj (some.inj is)
    exact absurd (down _ rfl) (by simp [sampleBridge])
  exact ⟨s', run, fun j d here up => (bridges_connected sampleBridges_connected run j d here up).1⟩

/-- A device that answers is connected while the bridge above it still is not; and a device on the
secondary bus stays when the subordinate number goes below that. -/
theorem bridges_break :
    (∃ events s', Run (fun before e after => step (fun _ => false) before e = some after)
      sampleBridges events s' ∧ (∀ e ∈ events, ∃ bus register value, e = sampleWrite bus register value) ∧
      ∃ d b, s'.devices[2]? = some d ∧ d.disconnect = false ∧ d.address.busNo ≠ 0 ∧
        d.parentBridge = some 1 ∧ s'.devices[1]? = some b ∧ b.disconnect = true) ∧
    ∃ s', step (fun _ => false) sampleBridges (sampleWrite 0 0x1A 0) = some s' ∧
      ∃ d b, s'.devices[1]? = some d ∧ d.disconnect = false ∧ d.parentBridge = some 0 ∧
        s'.devices[0]? = some b ∧ b.bridge.subordinateBusNo < d.address.busNo := by
  constructor
  · refine ⟨[sampleWrite 0 0x19 5, sampleWrite 0 0x19 1, sampleWrite 2 0x1A 4], _,
      Run.cons rfl (Run.cons rfl (Run.cons rfl (Run.nil _))), ?_, _, _, rfl, rfl, ?_, rfl, rfl, rfl⟩
    · intro e member
      simp only [List.mem_cons, List.not_mem_nil, or_false] at member
      rcases member with rfl | rfl | rfl
      · exact ⟨_, _, _, rfl⟩
      · exact ⟨_, _, _, rfl⟩
      · exact ⟨_, _, _, rfl⟩
    · decide
  · exact ⟨_, rfl, _, _, rfl, rfl, rfl, rfl, by decide⟩

end DisasVisor.Pci
