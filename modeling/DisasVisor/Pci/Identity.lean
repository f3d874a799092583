import Mathlib.Data.List.Nodup
import Mathlib.Data.List.Flatten
import DisasVisor.Lib.Transitions
import DisasVisor.Pci.Devices

/-!
Every function is in `pci_device_list` once, in the runs where no access by the ports comes to a device
that the memory-mapped space has made, and no bridge gets the bus number of another function.
-/

namespace DisasVisor.Pci

open List
open Option (some.injEq some.inj bind_eq_some_iff map_eq_some_iff)

variable {findDriver : Device → Bool} {devices after : List Device} {s s' : State} {hw : Hardware}
  {bridge i j : ℕ} {n : BusNumbers}

def Device.view (d : Device) : ConfigAddress × Option ℕ × Bool := (d.address, d.parentBridge, d.driver)

variable {d : Device} {iosize offset : ℕ} {data : ℕ → UInt8} {addr : ConfigAddress} {t : Target}

theorem map_view_set {e : Device} (here : devices[i]? = some d) (same : e.view = d.view) :
    (devices.set i e).map Device.view = devices.map Device.view := by
  rw [map_set, same]
  apply ext_getElem?
  intro k
  rw [List.getElem?_set]
  by_cases is : i = k
  · subst is
    have below : i < devices.length := (List.getElem?_eq_some_iff.mp here).1
    rw [if_pos rfl, length_map, if_pos below, List.getElem?_map, here]
    rfl
  · rw [if_neg is]

/-! Disconnecting -/

def disconnectBelow (fuel i : ℕ) (devices : List Device) (j : ℕ) : Option (List Device) :=
  match devices[j]? with
  | none => none
  | some e => if e.parentBridge = some i then deviceDisconnect fuel j devices else some devices

theorem deviceDisconnect_view (fuel : ℕ) : ∀ {i devices after}, deviceDisconnect fuel i devices = some after →
    after.map Device.view = devices.map Device.view := by
  induction fuel with
  | zero =>
    intro i devices after is
    cases is
  | succ fuel ih =>
    intro i devices after is
    have loop : ∀ (js : List ℕ) (devices after : List Device),
        js.foldlM (disconnectBelow fuel i) devices = some after →
          after.map Device.view = devices.map Device.view := by
      intro js
      induction js with
      | nil =>
        intro devices after is
        rw [some.inj is]
      | cons j js later =>
        intro devices after is
        rw [foldlM_cons] at is
        obtain ⟨middle, first, rest⟩ := bind_eq_some_iff.mp is
        rw [later _ _ rest]
        rw [disconnectBelow] at first
        split at first
        · cases first
        · split at first
          · exact ih first
          · rw [some.inj first]
    rw [deviceDisconnect] at is
    split at is
    · cases is
    · rename_i d here
      have marked : (devices.set i { d with disconnect := true }).map Device.view =
          devices.map Device.view := map_view_set here rfl
      dsimp only at is
      split at is
      · exact (loop _ _ _ is).trans marked
      · cases is
        exact marked

/-! Renumbering -/

def moved (bridge : ℕ) (old new : UInt8) (v : ConfigAddress × Option ℕ × Bool) : ConfigAddress × Option ℕ × Bool :=
  if v.2.1 = some bridge ∧ new ≠ old then ({ v.1 with busNo := new }, v.2) else v

theorem moved_moved (old new : UInt8) (v : ConfigAddress × Option ℕ × Bool) :
    moved bridge old new (moved bridge old new v) = moved bridge old new v := by
  unfold moved
  by_cases child : v.2.1 = some bridge ∧ new ≠ old
  · rw [if_pos child, if_pos child]
  · rw [if_neg child, if_neg child]

theorem renumber_view (is : renumber bridge n devices j = some after) :
    after.map Device.view = (devices.map Device.view).modify j (moved bridge n.oldSecondary n.newSecondary) := by
  have same : ∀ {ds : List Device} {v : ConfigAddress × Option ℕ × Bool},
      (ds.map Device.view)[j]? = some v → moved bridge n.oldSecondary n.newSecondary v = v →
      (ds.map Device.view).modify j (moved bridge n.oldSecondary n.newSecondary) = ds.map Device.view := by
    intro ds v here stays
    rw [modify_eq_set_getElem?, here]
    apply ext_getElem?
    intro k
    rw [Option.map_eq_map, Option.map_some, Option.getD_some, stays, List.getElem?_set]
    by_cases at' : j = k
    · subst at'
      rw [if_pos rfl, if_pos (List.getElem?_eq_some_iff.mp here).1, here]
    · rw [if_neg at']
  unfold renumber at is
  split at is
  · cases is
  · rename_i d here
    have view : (devices.map Device.view)[j]? = some d.view := by
      rw [List.getElem?_map, here]
      rfl
    split at is
    · rename_i child
      split at is
      · cases is
      · obtain ⟨marked, disconnects, rest⟩ := bind_eq_some_iff.mp is
        obtain ⟨e, here', is'⟩ := bind_eq_some_iff.mp rest
        have views := deviceDisconnect_view _ disconnects
        have view' : (marked.map Device.view)[j]? = some e.view := by
          rw [List.getElem?_map, here']
          rfl
        rw [views, view, some.injEq] at view'
        have parent : e.view.2.1 = some bridge := by
          rw [← view']
          exact child.1
        have made : moved bridge n.oldSecondary n.newSecondary e.view =
            ({ e with address := { e.address with busNo := n.newSecondary } } : Device).view :=
          if_pos ⟨parent, child.2⟩
        rw [← some.inj is', map_set, views, modify_eq_set_getElem?, view, view', ← made]
        rfl
    · rename_i other
      have stays : moved bridge n.oldSecondary n.newSecondary d.view = d.view := if_neg other
      split at is
      · rw [deviceDisconnect_view _ is, same view stays]
      · rw [← some.inj is, same view stays]

theorem renumbers_view : ∀ {js : List ℕ} {devices after : List Device},
    js.foldlM (renumber bridge n) devices = some after →
    ∀ k, (after.map Device.view)[k]? = (devices.map Device.view)[k]?.map fun v =>
      if k ∈ js then moved bridge n.oldSecondary n.newSecondary v else v := by
  intro js
  induction js with
  | nil =>
    intro devices after is k
    cases is
    simp only [not_mem_nil, if_false]
    exact (congrFun Option.map_id _).symm
  | cons j js ih =>
    intro devices after is k
    rw [foldlM_cons] at is
    obtain ⟨middle, first, rest⟩ := bind_eq_some_iff.mp is
    rw [ih rest, renumber_view first, List.getElem?_modify, Option.map_eq_map, Option.map_map]
    congr 1
    funext v
    by_cases at' : j = k
    · subst at'
      by_cases later : j ∈ js
      · simp [later, moved_moved]
      · simp [later]
    · have at'' : ¬ k = j := fun other => at' other.symm
      simp [at', at'']

theorem pciHandleBridgeConfigWrite_view (is : pciHandleBridgeConfigWrite s bridge iosize offset data = some s')
    (here : s.devices[bridge]? = some d) :
    s'.devices.map Device.view = (s.devices.map Device.view).map (moved bridge d.bridge.secondaryBusNo
        (written 0x19 offset iosize data d.bridge.secondaryBusNo)) ∧
      s'.registered = s.registered := by
  unfold pciHandleBridgeConfigWrite at is
  rw [here] at is
  dsimp only [Option.bind_eq_bind, Option.bind_some] at is
  split at is
  · rename_i same
    cases is
    have stays : moved bridge d.bridge.secondaryBusNo
        (written 0x19 offset iosize data d.bridge.secondaryBusNo) = id := by
      funext v
      exact if_neg fun child => child.2 same.1
    rw [stays, map_id]
    exact ⟨rfl, rfl⟩
  · obtain ⟨renumbered, loop, rest⟩ := bind_eq_some_iff.mp is
    obtain ⟨b, here', is'⟩ := bind_eq_some_iff.mp rest
    have all : renumbered.map Device.view = (s.devices.map Device.view).map (moved bridge
        d.bridge.secondaryBusNo (written 0x19 offset iosize data d.bridge.secondaryBusNo)) := by
      apply ext_getElem?
      intro k
      have each := renumbers_view loop k
      by_cases below : k < s.devices.length
      · simp only [mem_range, below, if_true] at each
        exact each.trans List.getElem?_map.symm
      · rw [each, List.getElem?_eq_none (by rw [length_map]; omega),
          List.getElem?_eq_none (by rw [length_map, length_map]; omega)]
        rfl
    rw [← some.inj is', ← all]
    unfold pciSetBridgeFromBusNo
    split
    · exact ⟨map_view_set here' rfl, rfl⟩
    · exact ⟨map_view_set here' rfl, rfl⟩

/-! The searches -/

section Searches

variable {meant conceals : Device → Bool}

theorem search_missing : ∀ {devices : List Device} {i}, search meant conceals devices i = .missing →
    ∀ d ∈ devices, meant d = false := by
  intro devices
  induction devices with
  | nil => exact fun _ d member => (not_mem_nil member).elim
  | cons e devices ih =>
    intro i is d member
    rw [search] at is
    split at is
    · cases is
    · rename_i other
      split at is
      · cases is
      · rcases mem_cons.mp member with rfl | later
        · exact eq_false_of_ne_true other
        · exact ih is d later

end Searches

/-! What an access does to the views -/

def Kept (s s' : State) : Prop := s'.devices.map Device.view = s.devices.map Device.view ∧ s'.registered = s.registered

theorem Kept.length (kept : Kept s s') : s'.devices.length = s.devices.length := by
  have same := congrArg List.length kept.1
  rwa [length_map, length_map] at same

theorem kept_set {e : Device} (here : s.devices[i]? = some d) (same : e.view = d.view) :
    Kept s (s.set i e) := ⟨map_view_set here same, rfl⟩

theorem target_cases {found : Found} (is : target found addr hw s = some (some t)) :
    (found = .device t.index ∧ Kept s t.state ∧ ∃ d, t.state.devices[t.index]? = some d ∧
        (t.fresh = true → d.driver = false)) ∨
      (found = .missing ∧ vendorId (hw addr.bdf) ≠ 0xFFFF ∧ t.index = s.devices.length ∧ t.fresh = true ∧
        t.state.registered = s.registered ∧ t.state.devices = s.devices ++ [{ pciNewDevice hw addr with
          parentBridge := pciGetBridgeFromBusNo s addr.busNo }]) := by
  unfold target at is
  split at is
  · cases is
  · split at is
    · cases is
    · rename_i s' possible
      unfold pciPossibleNewDevice at possible
      obtain ⟨present, made⟩ := Option.ite_none_left_eq_some.mp possible
      rw [← some.inj (some.inj is), ← some.inj made]
      exact .inr ⟨rfl, present, rfl, rfl, rfl, rfl⟩
  · rename_i i
    obtain ⟨d, here, rest⟩ := bind_eq_some_iff.mp is
    left
    split at rest
    · obtain ⟨r, reconnects, rest'⟩ := bind_eq_some_iff.mp rest
      unfold pciReconnectDevice at reconnects
      dsimp only at reconnects
      split at reconnects
      · rw [← some.inj reconnects] at rest'
        cases rest'
      · have below : i < s.devices.length := (List.getElem?_eq_some_iff.mp here).1
        split at reconnects
        · rw [← some.inj reconnects] at rest'
          rw [← some.inj (some.inj rest')]
          refine ⟨rfl, kept_set here rfl, _, List.getElem?_set_self below, ?_⟩
          exact fun fresh => absurd fresh Bool.false_ne_true
        · split at reconnects
          · cases reconnects
          · rename_i driver
            rw [← some.inj reconnects] at rest'
            rw [← some.inj (some.inj rest')]
            refine ⟨rfl, kept_set here rfl, _, List.getElem?_set_self below, fun _ => ?_⟩
            exact eq_false_of_ne_true driver
    · rw [← some.inj (some.inj rest)]
      exact ⟨rfl, ⟨rfl, rfl⟩, d, here, fun fresh => absurd fresh Bool.false_ne_true⟩

structure Inv (s : State) : Prop where
  plain : ∀ d ∈ s.devices, d.address = { newDevAddr d.bdf with allow := d.address.allow }
  parents : ∀ d ∈ s.devices, ∀ b, d.parentBridge = some b → b < s.devices.length
  nodup : s.registered.Nodup
  drivers : ∀ i ∈ s.registered, ∃ d, s.devices[i]? = some d ∧ d.driver = true

structure Identified (s : State) : Prop where
  unique : (s.devices.map Device.bdf).Nodup
  once : (s.registered.map fun i => (s.devices[i]?).map Device.bdf).Nodup

theorem map_bdf_view (devices : List Device) :
    devices.map Device.bdf = (devices.map Device.view).map fun v => v.1.bdf := by
  rw [map_map]
  rfl

theorem Inv.identified (inv : Inv s) : Identified s ↔ (s.devices.map Device.bdf).Nodup := by
  refine ⟨Identified.unique, fun unique => ⟨unique, ?_⟩⟩
  refine List.Nodup.map_on ?_ inv.nodup
  intro i first j second same
  obtain ⟨d, here, _⟩ := inv.drivers i first
  obtain ⟨e, there, _⟩ := inv.drivers j second
  rw [nodup_iff_getElem?_ne_getElem?] at unique
  rw [← List.getElem?_map, ← List.getElem?_map] at same
  have below : i < (s.devices.map Device.bdf).length := by
    rw [length_map]
    exact (List.getElem?_eq_some_iff.mp here).1
  have below' : j < (s.devices.map Device.bdf).length := by
    rw [length_map]
    exact (List.getElem?_eq_some_iff.mp there).1
  rcases Nat.lt_trichotomy i j with less | equal | more
  · exact absurd same (unique i j less below')
  · exact equal
  · exact absurd same.symm (unique j i more below)

/-! Buses that get another number -/

def Device.place (d : Device) : ConfigAddress × Option ℕ := (d.address, d.parentBridge)

structure Apart (places : List (ConfigAddress × Option ℕ)) (bridge : ℕ) (new : UInt8) : Prop where
  others : ∀ c ∈ places, c.2 = some bridge → ∀ o ∈ places, o.2 ≠ some bridge → o.1.bdf ≠ (new, c.1.deviceNo, c.1.funcNo)
  below : places.Pairwise fun c o => c.2 = some bridge → o.2 = some bridge →
    (c.1.deviceNo, c.1.funcNo) ≠ (o.1.deviceNo, o.1.funcNo)

def movedBdf (bridge : ℕ) (new : UInt8) (c : ConfigAddress × Option ℕ) : Bdf :=
  if c.2 = some bridge then (new, c.1.deviceNo, c.1.funcNo) else c.1.bdf

theorem nodup_movedBdf {places : List (ConfigAddress × Option ℕ)} {new : UInt8}
    (unique : (places.map fun c => c.1.bdf).Nodup) :
    (places.map (movedBdf bridge new)).Nodup ↔ Apart places bridge new := by
  constructor
  · intro distinct
    constructor
    · intro c member child o member' other same
      have equal := inj_on_of_nodup_map distinct member member' (by
        unfold movedBdf
        rw [if_pos child, if_neg other]
        exact same.symm)
      exact other (equal ▸ child)
    · rw [List.Nodup, pairwise_map] at distinct
      refine distinct.imp ?_
      intro c o apart child child' same
      unfold movedBdf at apart
      rw [if_pos child, if_pos child', same] at apart
      exact apart rfl
  · intro apart
    rw [List.Nodup, pairwise_map] at unique ⊢
    refine (unique.and apart.below).imp_of_mem ?_
    rintro c o member member' ⟨differ, below⟩
    unfold movedBdf
    by_cases child : c.2 = some bridge
    · by_cases child' : o.2 = some bridge
      · rw [if_pos child, if_pos child']
        intro same
        exact below child child' (congrArg Prod.snd same)
      · rw [if_pos child, if_neg child']
        exact (apart.others c member child o member' child').symm
    · by_cases child' : o.2 = some bridge
      · rw [if_neg child, if_pos child']
        exact apart.others o member' child' c member child
      · rw [if_neg child, if_neg child']
        exact differ

theorem bdf_moved {old new : UInt8} (other : new ≠ old) (v : ConfigAddress × Option ℕ × Bool) :
    (moved bridge old new v).1.bdf = movedBdf bridge new (v.1, v.2.1) := by
  unfold moved movedBdf
  by_cases child : v.2.1 = some bridge
  · rw [if_pos ⟨child, other⟩, if_pos child]
    rfl
  · rw [if_neg fun both => child both.1, if_neg child]

/-! One access -/

theorem Inv.kept (inv : Inv s) (kept : Kept s s') : Inv s' := by
  have each : ∀ d' ∈ s'.devices, ∃ d ∈ s.devices, d.view = d'.view := by
    intro d' member
    have inside : d'.view ∈ s'.devices.map Device.view := mem_map_of_mem member
    rw [kept.1] at inside
    exact mem_map.mp inside
  refine ⟨?_, ?_, kept.2 ▸ inv.nodup, ?_⟩
  · intro d' member
    obtain ⟨d, inside, same⟩ := each d' member
    have address : d.address = d'.address := congrArg Prod.fst same
    have plain := inv.plain d inside
    unfold Device.bdf at plain ⊢
    rwa [address] at plain
  · intro d' member b parent
    obtain ⟨d, inside, same⟩ := each d' member
    have parents : d.parentBridge = d'.parentBridge := congrArg (fun v => v.2.1) same
    rw [kept.length]
    exact inv.parents d inside b (parents.trans parent)
  · intro i registered
    rw [kept.2] at registered
    obtain ⟨d, here, driver⟩ := inv.drivers i registered
    have view : (s.devices.map Device.view)[i]? = some d.view := by
      rw [List.getElem?_map, here]
      rfl
    rw [← kept.1, List.getElem?_map] at view
    obtain ⟨d', here', same⟩ := map_eq_some_iff.mp view
    exact ⟨d', here', (congrArg (fun v => v.2.2) same).trans driver⟩

theorem pciGetBridgeFromBusNo_lt {bus : UInt8} {b : ℕ} (is : pciGetBridgeFromBusNo s bus = some b) :
    b < s.devices.length := by
  obtain ⟨_, is'⟩ := Option.ite_none_left_eq_some.mp is
  obtain ⟨b', _, is''⟩ := bind_eq_some_iff.mp is'
  obtain ⟨d, here, rest⟩ := bind_eq_some_iff.mp is''
  obtain ⟨_, same⟩ := Option.ite_none_right_eq_some.mp rest
  cases same
  exact (List.getElem?_eq_some_iff.mp here).1

structure Reached (s : State) (found : Found) (addr : ConfigAddress) (t : Target) : Prop where
  inv : Inv t.state
  bdfs : t.state.devices.map Device.bdf = s.devices.map Device.bdf ++
    if found = .missing then [addr.bdf] else []
  fresh : t.fresh = true → t.index ∉ t.state.registered
  inside : t.index < t.state.devices.length
  childless : found = .missing → ∀ d ∈ t.state.devices, d.parentBridge ≠ some t.index

theorem target_reached {found : Found} (inv : Inv s) (plain : addr = { newDevAddr addr.bdf with allow := addr.allow })
    (is : target found addr hw s = some (some t)) : Reached s found addr t := by
  rcases target_cases is with ⟨found', kept, d, here, driver⟩ | ⟨found', _, index, fresh, same, devices⟩
  · have inv' := inv.kept kept
    refine ⟨inv', ?_, ?_, (List.getElem?_eq_some_iff.mp here).1, ?_⟩
    · rw [map_bdf_view, kept.1, ← map_bdf_view, found', if_neg (by simp), append_nil]
    · intro fresh registered
      obtain ⟨d', here', has⟩ := inv'.drivers _ registered
      rw [here, some.injEq] at here'
      rw [← here', driver fresh] at has
      exact absurd has Bool.false_ne_true
    · intro missing
      rw [missing] at found'
      cases found'
  · have parents : ∀ d ∈ t.state.devices, ∀ b, d.parentBridge = some b → b < s.devices.length := by
      intro d member b is
      rw [devices, mem_append, mem_singleton] at member
      rcases member with old | rfl
      · exact inv.parents d old b is
      · exact pciGetBridgeFromBusNo_lt is
    have length : t.state.devices.length = s.devices.length + 1 := by rw [devices, length_append, length_singleton]
    refine ⟨⟨?_, ?_, same ▸ inv.nodup, ?_⟩, ?_, ?_, ?_, ?_⟩
    · intro d member
      rw [devices, mem_append, mem_singleton] at member
      rcases member with old | rfl
      · exact inv.plain d old
      · exact plain
    · intro d member b is
      have := parents d member b is
      omega
    · intro i registered
      rw [same] at registered
      obtain ⟨d, here, driver⟩ := inv.drivers i registered
      refine ⟨d, ?_, driver⟩
      rw [devices, List.getElem?_append_left (List.getElem?_eq_some_iff.mp here).1, here]
    · rw [devices, map_append, if_pos found']
      rfl
    · intro _ registered
      rw [same] at registered
      obtain ⟨d, here, _⟩ := inv.drivers _ registered
      have := (List.getElem?_eq_some_iff.mp here).1
      omega
    · omega
    · intro _ d member is
      have := parents d member _ is
      omega

theorem register_spec {goes : Bool} (inv : Inv t.state) (fresh : t.fresh = true → t.index ∉ t.state.registered)
    (is : register findDriver t = some (s, goes)) :
    Inv s ∧ s.devices.map Device.place = t.state.devices.map Device.place ∧
      ∀ d, t.state.devices[t.index]? = some d →
        (goes = true ↔ (t.fresh = true → findDriver d = true)) ∧
        ∃ e, s.devices[t.index]? = some e ∧ e.bridge = d.bridge := by
  unfold register at is
  split at is
  · rename_i new
    obtain ⟨d, here, rest⟩ := bind_eq_some_iff.mp is
    have below := (List.getElem?_eq_some_iff.mp here).1
    split at rest
    · rename_i driver
      cases rest
      have places : (t.state.devices.set t.index { d with driver := true }).map Device.place =
          t.state.devices.map Device.place := by
        apply ext_getElem?
        intro k
        rw [List.getElem?_map, List.getElem?_map, List.getElem?_set]
        by_cases at' : t.index = k
        · subst at'
          rw [if_pos rfl, if_pos below, here]
          rfl
        · rw [if_neg at']
      refine ⟨⟨?_, ?_, ?_, ?_⟩, places, ?_⟩
      · intro e member
        rcases mem_or_eq_of_mem_set member with old | rfl
        · exact inv.plain e old
        · exact inv.plain d (mem_of_getElem? here)
      · intro e member b parent
        change b < (t.state.devices.set _ _).length
        rw [length_set]
        rcases mem_or_eq_of_mem_set member with old | rfl
        · exact inv.parents e old b parent
        · exact inv.parents d (mem_of_getElem? here) b parent
      · change (t.state.registered ++ [t.index]).Nodup
        rw [nodup_append]
        refine ⟨inv.nodup, nodup_singleton _, ?_⟩
        intro i member j is'
        rw [mem_singleton.mp is']
        rintro rfl
        exact fresh new member
      · intro i member
        change ∃ e, (t.state.devices.set _ _)[i]? = some e ∧ _
        rw [List.getElem?_set]
        by_cases at' : t.index = i
        · rw [if_pos at', if_pos (at' ▸ below)]
          exact ⟨_, rfl, rfl⟩
        · rw [if_neg at']
          rcases mem_append.mp member with old | last
          · exact inv.drivers i old
          · exact absurd (mem_singleton.mp last).symm at'
      · intro e there
        rw [here, some.injEq] at there
        rw [← there]
        exact ⟨⟨fun _ _ => driver, fun _ => rfl⟩, _, List.getElem?_set_self below, rfl⟩
    · rename_i driver
      cases rest
      refine ⟨inv, rfl, ?_⟩
      intro e there
      rw [here, some.injEq] at there
      rw [← there]
      refine ⟨⟨fun no => absurd no Bool.false_ne_true, fun has => ?_⟩, d, here, rfl⟩
      exact absurd (has new) driver
  · rename_i old
    cases is
    exact ⟨inv, rfl, fun d here => ⟨⟨fun _ new => absurd new old, fun _ => rfl⟩, d, here, rfl⟩⟩

theorem writeBridge_spec {wr : Bool} (inv : Inv s) (here : s.devices[i]? = some d)
    (is : writeBridge s i wr iosize offset data = some s') :
    Inv s' ∧ ((s'.devices.map Device.bdf) =
      if d.bridge.yes = true ∧ wr = true ∧
          written 0x19 offset iosize data d.bridge.secondaryBusNo ≠ d.bridge.secondaryBusNo then
        (s.devices.map Device.place).map (movedBdf i (written 0x19 offset iosize data d.bridge.secondaryBusNo))
      else s.devices.map Device.bdf) := by
  unfold writeBridge at is
  rw [here, Option.bind_eq_bind, Option.bind_some] at is
  split at is
  · rename_i bridge
    obtain ⟨views, registered⟩ := pciHandleBridgeConfigWrite_view is here
    have bdfs : s'.devices.map Device.bdf = (s.devices.map Device.view).map fun v => (moved i
        d.bridge.secondaryBusNo (written 0x19 offset iosize data d.bridge.secondaryBusNo) v).1.bdf := by
      rw [map_bdf_view, views, map_map]
      rfl
    constructor
    · have each : ∀ d' ∈ s'.devices, ∃ e ∈ s.devices, moved i d.bridge.secondaryBusNo
          (written 0x19 offset iosize data d.bridge.secondaryBusNo) e.view = d'.view := by
        intro d' member
        have inside : d'.view ∈ s'.devices.map Device.view := mem_map_of_mem member
        rw [views, map_map] at inside
        exact mem_map.mp inside
      have length : s'.devices.length = s.devices.length := by
        have same := congrArg List.length views
        rwa [length_map, length_map, length_map] at same
      refine ⟨?_, ?_, registered ▸ inv.nodup, ?_⟩
      · intro d' member
        obtain ⟨e, inside, same⟩ := each d' member
        have plain := inv.plain e inside
        have address := congrArg Prod.fst same
        unfold Device.bdf
        rw [show d'.address = d'.view.1 from rfl, ← address]
        unfold moved
        split
        · change ({ e.address with busNo := _ } : ConfigAddress) = _
          rw [plain]
          rfl
        · exact plain
      · intro d' member b parent
        obtain ⟨e, inside, same⟩ := each d' member
        have parents : e.parentBridge = d'.parentBridge := by
          have second := congrArg (fun v => v.2.1) same
          rw [show d'.parentBridge = d'.view.2.1 from rfl, ← second]
          unfold moved
          split
          · rfl
          · rfl
        rw [length]
        exact inv.parents e inside b (parents.trans parent)
      · intro k member
        rw [registered] at member
        obtain ⟨e, there, driver⟩ := inv.drivers k member
        have view : (s.devices.map Device.view)[k]? = some e.view := by
          rw [List.getElem?_map, there]
          rfl
        have view' : (s'.devices.map Device.view)[k]? = some (moved i d.bridge.secondaryBusNo
            (written 0x19 offset iosize data d.bridge.secondaryBusNo) e.view) := by
          rw [views, List.getElem?_map, view]
          rfl
        rw [List.getElem?_map] at view'
        obtain ⟨d', there', same⟩ := map_eq_some_iff.mp view'
        refine ⟨d', there', ?_⟩
        have third := congrArg (fun v => v.2.2) same
        rw [show d'.driver = d'.view.2.2 from rfl, third]
        unfold moved
        split
        · exact driver
        · exact driver
    · rw [bdfs]
      by_cases new : written 0x19 offset iosize data d.bridge.secondaryBusNo = d.bridge.secondaryBusNo
      · rw [if_neg fun all => all.2.2 new, map_bdf_view]
        apply map_congr_left
        intro v _
        unfold moved
        rw [if_neg fun both => both.2 new]
      · rw [if_pos ⟨bridge.1, bridge.2, new⟩, map_map, map_map]
        apply map_congr_left
        intro e _
        exact bdf_moved new e.view
  · rename_i other
    rw [← some.inj is, if_neg fun all => other ⟨all.1, all.2.1⟩]
    exact ⟨inv, rfl⟩

def Moves (findDriver : Device → Bool) (t : Target) (wr : Bool) (iosize offset : ℕ) (data : ℕ → UInt8) : Prop :=
  ∀ d, t.state.devices[t.index]? = some d → d.bridge.yes = true → wr = true →
    (t.fresh = true → findDriver d = true) →
    written 0x19 offset iosize data d.bridge.secondaryBusNo ≠ d.bridge.secondaryBusNo →
    Apart (t.state.devices.map Device.place) t.index (written 0x19 offset iosize data d.bridge.secondaryBusNo)

theorem access_spec {found : Found} {goes wr : Bool} {s1 s2 : State} (reached : Reached s found addr t)
    (unique : (s.devices.map Device.bdf).Nodup) (registers : register findDriver t = some (s1, goes))
    (writes : (if goes = true then writeBridge s1 t.index wr iosize offset data else some s1) = some s2) :
    Inv s2 ∧ ((s2.devices.map Device.bdf).Nodup ↔
      (found = .missing → addr.bdf ∉ s.devices.map Device.bdf) ∧ Moves findDriver t wr iosize offset data) := by
  obtain ⟨inv1, places, device⟩ := register_spec reached.inv reached.fresh registers
  obtain ⟨b, here⟩ : ∃ b, t.state.devices[t.index]? = some b := ⟨_, List.getElem?_eq_getElem reached.inside⟩
  obtain ⟨goesIff, e, there, bridge⟩ := device b here
  have bdfs : s1.devices.map Device.bdf = t.state.devices.map Device.bdf := by
    have same := congrArg (List.map fun c => c.1.bdf) places
    rwa [map_map, map_map] at same
  have uniqueNew : (t.state.devices.map Device.bdf).Nodup ↔
      (found = .missing → addr.bdf ∉ s.devices.map Device.bdf) := by
    rw [reached.bdfs]
    by_cases missing : found = .missing
    · rw [if_pos missing, nodup_append]
      constructor
      · intro all _ member
        exact all.2.2 _ member _ (mem_singleton_self _) rfl
      · intro absent
        refine ⟨unique, nodup_singleton _, ?_⟩
        intro a member b is
        rw [mem_singleton.mp is]
        rintro rfl
        exact absent missing member
    · rw [if_neg missing, append_nil]
      exact ⟨fun _ is => absurd is missing, fun _ => unique⟩
  -- Without a change of the secondary number there is nothing to be told apart.
  have stays (same : s2.devices.map Device.bdf = s1.devices.map Device.bdf)
      (none' : ∀ d, t.state.devices[t.index]? = some d → ¬ (d.bridge.yes = true ∧ wr = true ∧
        (t.fresh = true → findDriver d = true) ∧
        written 0x19 offset iosize data d.bridge.secondaryBusNo ≠ d.bridge.secondaryBusNo)) :
      (s2.devices.map Device.bdf).Nodup ↔ (found = .missing → addr.bdf ∉ s.devices.map Device.bdf) ∧
        Moves findDriver t wr iosize offset data := by
    rw [same, bdfs, uniqueNew]
    refine ⟨fun absent => ⟨absent, ?_⟩, And.left⟩
    intro d is yes out driver new
    exact absurd ⟨yes, out, driver, new⟩ (none' d is)
  cases goes with
  | false =>
    have same : s1 = s2 := some.inj writes
    refine ⟨same ▸ inv1, stays (same ▸ rfl) ?_⟩
    rintro d is ⟨_, _, driver, _⟩
    rw [here, some.injEq] at is
    rw [← is] at driver
    exact Bool.false_ne_true (goesIff.mpr driver)
  | true =>
    obtain ⟨inv2, moves⟩ := writeBridge_spec inv1 there writes
    rw [bridge] at moves
    refine ⟨inv2, ?_⟩
    by_cases change : b.bridge.yes = true ∧ wr = true ∧
        written 0x19 offset iosize data b.bridge.secondaryBusNo ≠
          b.bridge.secondaryBusNo
    · rw [if_pos change, places] at moves
      rw [moves]
      by_cases missing : found = .missing
      · -- Nothing is below a bridge that has just been found.
        have childless := reached.childless missing
        have bdfs' : (t.state.devices.map Device.place).map (movedBdf t.index (written 0x19 offset iosize
            data b.bridge.secondaryBusNo)) =
            t.state.devices.map Device.bdf := by
          rw [map_map]
          apply map_congr_left
          intro d member
          exact if_neg (childless d member)
        rw [bdfs', uniqueNew]
        refine ⟨fun absent => ⟨absent, ?_⟩, And.left⟩
        intro d _ _ _ _ _
        constructor
        · intro c member child
          obtain ⟨d', inside, rfl⟩ := mem_map.mp member
          exact absurd child (childless d' inside)
        · rw [pairwise_map]
          refine pairwise_of_forall_mem_list ?_
          intro d' inside _ _ child
          exact absurd child (childless d' inside)
      · have unique' : ((t.state.devices.map Device.place).map fun c => c.1.bdf).Nodup := by
          rw [map_map]
          exact uniqueNew.mpr fun is => absurd is missing
        rw [nodup_movedBdf unique']
        constructor
        · intro apart
          refine ⟨fun is => absurd is missing, ?_⟩
          intro d is _ _ _ _
          rw [here, some.injEq] at is
          exact is ▸ apart
        · intro both
          exact both.2 b here change.1 change.2.1 (goesIff.mp rfl) change.2.2
    · rw [if_neg change] at moves
      refine stays moves ?_
      rintro d is ⟨yes, out, _, new⟩
      rw [here, some.injEq] at is
      rw [← is] at yes new
      exact change ⟨yes, out, new⟩

/-! Steps and runs -/

def State.caddr (s : State) : ConfigAddress := { s.currentConfigAddr with reserved := 0, regNo := 0, type := 0 }

/-- The steps after which the functions are still told apart: a function that answers to the ports and that
no entry is found for is not in the list, and a bridge moves the functions below it to free numbers. -/
def Ok (findDriver : Device → Bool) (s : State) : Event → Prop
  | .addr _ => True
  | .data wr iosize port data hw _ => s.currentConfigAddr.allow = true →
      (searchPort s.devices s.caddr = .missing → vendorId (hw s.caddr.bdf) ≠ 0xFFFF →
        s.caddr.bdf ∉ s.devices.map Device.bdf) ∧
      ∀ t, target (searchPort s.devices s.caddr) s.caddr hw s = some (some t) →
        Moves findDriver t wr iosize (s.currentConfigAddr.regNo.toNat * 4 + port) data
  | .mmio bdf regOffset wr len data hw _ =>
    ∀ t, target (searchMmio s.devices bdf) (newDevAddr bdf) hw s = some (some t) →
      Moves findDriver t wr len regOffset data

theorem saveRegister_kept {saved : Option UInt32} (is : saveRegister s i offset saved = some s') : Kept s s' := by
  unfold saveRegister at is
  obtain ⟨d, here, rest⟩ := bind_eq_some_iff.mp is
  cases saved with
  | none =>
    cases rest
    exact ⟨rfl, rfl⟩
  | some reg =>
    cases rest
    exact kept_set here rfl

theorem step_spec {e : Event} (inv : Inv s) (unique : (s.devices.map Device.bdf).Nodup)
    (is : step findDriver s e = some s') : Inv s' ∧ ((s'.devices.map Device.bdf).Nodup ↔ Ok findDriver s e) := by
  have later {s2 : State} {P : Prop} (kept : Kept s2 s')
      (spec : Inv s2 ∧ ((s2.devices.map Device.bdf).Nodup ↔ P)) :
      Inv s' ∧ ((s'.devices.map Device.bdf).Nodup ↔ P) := by
    refine ⟨spec.1.kept kept, ?_⟩
    rw [map_bdf_view, kept.1, ← map_bdf_view]
    exact spec.2
  cases e with
  | addr value =>
    cases is
    exact ⟨⟨inv.plain, inv.parents, inv.nodup, inv.drivers⟩, fun _ => trivial, fun _ => unique⟩
  | data wr iosize port data hw saved =>
    rw [step, pciConfigDataHandler] at is
    unfold Ok
    split at is
    · rename_i closed
      cases is
      exact ⟨inv, fun _ allow => absurd allow closed, fun _ => unique⟩
    · rename_i allow
      rw [not_not] at allow
      obtain ⟨r, targets, rest⟩ := bind_eq_some_iff.mp is
      change target (searchPort s.devices s.caddr) s.caddr hw s = some r at targets
      cases r with
      | none =>
        cases rest
        refine ⟨inv, fun _ _ => ⟨?_, ?_⟩, fun _ => unique⟩
        · intro missing present
          rw [missing, target, pciPossibleNewDevice, if_neg present] at targets
          exact absurd (some.inj targets) (Option.some_ne_none _)
        · intro t other
          rw [targets] at other
          cases other
      | some t =>
        obtain ⟨⟨s1, goes⟩, registers, rest'⟩ := bind_eq_some_iff.mp rest
        obtain ⟨s2, writes, saves⟩ : ∃ s2,
            (if goes = true then writeBridge s1 t.index wr iosize
              (s.currentConfigAddr.regNo.toNat * 4 + port) data else some s1) = some s2 ∧
            saveRegister s2 t.index (s.currentConfigAddr.regNo.toNat * 4 + port)
              (if wr then saved else none) = some s' := by
          cases goes with
          | false => exact ⟨s1, rfl, rest'⟩
          | true => exact bind_eq_some_iff.mp rest'
        have reached := target_reached inv (show s.caddr = _ from rfl) targets
        refine later (saveRegister_kept saves) ?_
        obtain ⟨inv2, iff⟩ := access_spec reached unique registers writes
        refine ⟨inv2, iff.trans ?_⟩
        constructor
        · rintro ⟨absent, moves⟩ _
          refine ⟨fun missing _ => absent missing, ?_⟩
          intro t' other
          rw [targets, some.injEq, some.injEq] at other
          exact other ▸ moves
        · intro ok
          refine ⟨fun missing => (ok allow).1 missing ?_, (ok allow).2 t targets⟩
          rcases target_cases targets with ⟨found, _⟩ | ⟨_, present, _⟩
          · rw [missing] at found
            cases found
          · exact present
  | mmio bdf regOffset wr len data hw saved =>
    rw [step, pciConfigMmioHandler] at is
    unfold Ok
    obtain ⟨r, targets, rest⟩ := bind_eq_some_iff.mp is
    cases r with
    | none =>
      cases rest
      refine ⟨inv, fun _ t other => ?_, fun _ => unique⟩
      rw [targets] at other
      cases other
    | some t =>
      obtain ⟨⟨s1, goes⟩, registers, rest'⟩ := bind_eq_some_iff.mp rest
      have reached := target_reached inv (show newDevAddr bdf = _ from rfl) targets
      have absent : searchMmio s.devices bdf = .missing → (newDevAddr bdf).bdf ∉ s.devices.map Device.bdf := by
        intro missing member
        obtain ⟨d, inside, same⟩ := mem_map.mp member
        have other := search_missing missing d inside
        exact absurd (of_decide_eq_false other) (not_not.mpr same)
      have iff' : ((searchMmio s.devices bdf = .missing →
          (newDevAddr bdf).bdf ∉ s.devices.map Device.bdf) ∧
          Moves findDriver t wr len regOffset data) ↔
          ∀ t', target (searchMmio s.devices bdf) (newDevAddr bdf) hw s = some (some t') →
            Moves findDriver t' wr len regOffset data := by
        constructor
        · rintro ⟨_, moves⟩ t' other
          rw [targets, some.injEq, some.injEq] at other
          exact other ▸ moves
        · exact fun all => ⟨absent, all t targets⟩
      cases goes with
      | false =>
        have writes : (if false = true then writeBridge s1 t.index wr len regOffset data
            else some s1) = some s1 := if_neg Bool.false_ne_true
        obtain ⟨inv2, iff⟩ := access_spec reached unique registers writes
        cases rest'
        exact ⟨inv2, iff.trans iff'⟩
      | true =>
        obtain ⟨s2, writes, saves⟩ := bind_eq_some_iff.mp rest'
        refine later (saveRegister_kept saves) ?_
        obtain ⟨inv2, iff⟩ := access_spec reached unique registers ((if_pos rfl).trans writes)
        exact ⟨inv2, iff.trans iff'⟩

/-! The start -/

theorem findFunctions_bdf (bus : UInt8) (dev : BitVec 5) : ∀ fns,
    ((findFunctions hw bus dev fns).map Device.bdf).Sublist (fns.map fun fn => (bus, dev, fn)) ∧
      ∀ d ∈ findFunctions hw bus dev fns, d.address = { newDevAddr d.bdf with allow := true } := by
  intro fns
  induction fns with
  | nil => exact ⟨List.Sublist.refl _, fun d member => (not_mem_nil member).elim⟩
  | cons fn fns ih =>
    rw [findFunctions, map_cons]
    dsimp only
    split
    · exact ⟨ih.1.cons _, ih.2⟩
    · constructor
      · rw [map_cons]
        refine List.Sublist.cons_cons _ ?_
        split
        · exact nil_sublist _
        · exact ih.1
      · intro d member
        rcases mem_cons.mp member with rfl | later
        · rfl
        · split at later
          · exact (not_mem_nil later).elim
          · exact ih.2 d later

def found (hw : Hardware) : List Device :=
  buses.flatMap fun bus => deviceNumbers.flatMap fun dev => findFunctions hw bus dev functionNumbers

theorem buses_nodup : buses.Nodup := by
  refine List.Nodup.map_on ?_ nodup_range
  intro a first b second same
  have value := congrArg UInt8.toNat same
  have below := mem_range.mp first
  have below' := mem_range.mp second
  rw [UInt8.toNat_ofNat', UInt8.toNat_ofNat'] at value
  omega

theorem bdf_product : ((found hw).map Device.bdf).Sublist (buses ×ˢ (deviceNumbers ×ˢ functionNumbers)) := by
  have product : buses ×ˢ (deviceNumbers ×ˢ functionNumbers) =
      buses.flatMap fun bus => (deviceNumbers ×ˢ functionNumbers).map (Prod.mk bus) := rfl
  have inner : deviceNumbers ×ˢ functionNumbers =
      deviceNumbers.flatMap fun dev => functionNumbers.map (Prod.mk dev) := rfl
  unfold found
  rw [product, inner, map_flatMap]
  refine List.Sublist.flatMap_right _ ?_
  intro bus _
  rw [map_flatMap, map_flatMap]
  refine List.Sublist.flatMap_right _ ?_
  intro dev _
  rw [map_map]
  exact (findFunctions_bdf bus dev functionNumbers).1

theorem found_unique : ((found hw).map Device.bdf).Nodup := by
  refine List.Nodup.sublist bdf_product ?_
  refine buses_nodup.product (List.Nodup.product ?_ ?_)
  · decide
  · decide

theorem pciFindDevices_inv (findDriver : Device → Bool) (hw : Hardware) (saved : ConfigAddress) :
    Inv (pciFindDevices findDriver hw saved) ∧
      ((pciFindDevices findDriver hw saved).devices.map Device.bdf).Nodup := by
  have plain : ∀ d ∈ found hw, d.address = { newDevAddr d.bdf with allow := true } := by
    intro d member
    obtain ⟨bus, _, inBus⟩ := mem_flatMap.mp member
    obtain ⟨dev, _, inDevice⟩ := mem_flatMap.mp inBus
    exact (findFunctions_bdf bus dev functionNumbers).2 d inDevice
  constructor
  · refine ⟨?_, ?_, ?_, ?_⟩
    · intro d member
      obtain ⟨d', inside, rfl⟩ := mem_map.mp member
      obtain ⟨d'', inside', rfl⟩ := mem_map.mp inside
      have address := plain d'' inside'
      change d''.address = { newDevAddr d''.bdf with allow := d''.address.allow }
      rw [address]
    · intro d member b parent
      obtain ⟨d', inside, rfl⟩ := mem_map.mp member
      obtain ⟨d'', _, rfl⟩ := mem_map.mp inside
      rw [pciFindDevices, length_map, length_map]
      exact pciGetBridgeFromBusNo_lt parent
    · exact nodup_range.filter _
    · intro i member
      have has := (mem_filter.mp member).2
      obtain ⟨d, here, driver⟩ := (Option.any_eq_true _ _).mp has
      refine ⟨{ d with driver := findDriver d }, ?_, driver⟩
      change (List.map _ _)[i]? = _
      rw [List.getElem?_map, here]
      rfl
  · have same : (pciFindDevices findDriver hw saved).devices.map Device.bdf = (found hw).map Device.bdf := by
      unfold pciFindDevices
      rw [map_map, map_map]
      rfl
    rw [same]
    exact found_unique

def Step (findDriver : Device → Bool) (before after : State × Event) : Prop :=
  step findDriver before.1 before.2 = some after.1

structure PciRun (findDriver : Device → Bool) where
  hw : Hardware
  saved : ConfigAddress
  event : Event
  later : List (State × Event)
  steps : ((pciFindDevices findDriver hw saved, event) :: later).IsChain (Step findDriver)

/-- In a run every function is in the list once and registered once, in all states exactly when all steps
are ok. -/
theorem pciRun_identified_iff (findDriver : Device → Bool) (run : PciRun findDriver) :
    (∀ c ∈ run.later, Identified c.1) ↔
      ∀ c ∈ ((pciFindDevices findDriver run.hw run.saved, run.event) :: run.later).dropLast,
        Ok findDriver c.1 c.2 := by
  obtain ⟨start, unique⟩ := pciFindDevices_inv findDriver run.hw run.saved
  refine @Runs.good_iff_ok _ (Step findDriver) (fun c => Inv c.1) (fun c => Identified c.1)
    (fun c => Ok findDriver c.1 c.2) ?_ ?_ run.later _ start (start.identified.mpr unique) run.steps
  · intro before after is inv good
    exact (step_spec inv good.unique is).1
  · intro before after is inv good
    obtain ⟨inv', iff⟩ := step_spec inv good.unique is
    rw [inv'.identified]
    exact iff

theorem found_none : found (fun _ _ => 0xFFFFFFFF) = [] := by
  have none' : ∀ bus dev fns, findFunctions (fun _ _ => 0xFFFFFFFF) bus dev fns = [] := by
    intro bus dev fns
    induction fns with
    | nil => rfl
    | cons fn fns ih =>
      rw [findFunctions]
      exact (if_pos (by decide)).trans ih
  simp [found, none']

def plugged : Hardware := fun bdf k =>
  if bdf = (0, 3, 0) then if k = 2 then 0x02000000 else 0 else 0xFFFFFFFF

/-- A function that the memory-mapped space has found first is put into the list again, and registered
again, by the ports. -/
theorem pciRun_not_identified : ∃ run : PciRun fun _ => true, ∃ c ∈ run.later, ¬ Identified c.1 := by
  let addr : ConfigAddress := pciMakeConfigAddress 0 3 0 0
  let mmio : Event := .mmio (0, 3, 0) 0 false 4 (fun _ => 0) plugged none
  let data : Event := .data false 4 0 (fun _ => 0) plugged none
  let empty : State := ⟨[], fun _ => none, addr, []⟩
  have start : pciFindDevices (fun _ => true) (fun _ _ => 0xFFFFFFFF) addr = empty := by
    have none' := found_none
    unfold found at none'
    unfold pciFindDevices
    rw [none']
    rfl
  obtain ⟨s1, first, is1⟩ : ∃ s1, step (fun _ => true) empty mmio = some s1 ∧ s1 =
      ⟨[{ pciNewDevice plugged (newDevAddr (0, 3, 0)) with driver := true }], fun _ => none, addr, [0]⟩ :=
    ⟨_, rfl, rfl⟩
  obtain ⟨s2, second, is2⟩ : ∃ s2, step (fun _ => true) s1 data = some s2 ∧
      s2.devices.map Device.bdf = [(0, 3, 0), (0, 3, 0)] := by
    refine Option.map_eq_some_iff.mp ?_
    rw [is1]
    decide
  refine ⟨⟨fun _ _ => 0xFFFFFFFF, addr, mmio, [(s1, data), (s2, data)], ?_⟩, (s2, data),
    mem_cons_of_mem _ mem_cons_self, ?_⟩
  · rw [start]
    exact isChain_cons_cons.mpr ⟨first, isChain_cons_cons.mpr ⟨second, isChain_singleton _⟩⟩
  · intro identified
    have unique := identified.unique
    rw [is2] at unique
    exact absurd unique (by decide)

end DisasVisor.Pci
