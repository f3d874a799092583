import DisasVisor.Lib.Transitions
import DisasVisor.Usb.Mscd

/-!
Sequences of bulk transfers through the filter, against the command of the latest command wrapper.
-/

namespace DisasVisor.Usb.Msc

open DisasVisor.Storage Transitions

variable {κ : Type}

def isWrapper (bytes : List UInt8) : Bool := bytes.length = 31 && bytes.take 4 = cbwSignature

def opcode (cbw : List UInt8) : UInt8 := byteAt cbw (cbwcb 0)

def named (cbw : List UInt8) : Fin 16 := Fin.ofNat 16 ((byteAt cbw 13) &&& 0x0F).toNat

structure Session (κ : Type) where
  dev : MscDevice κ
  latest : Option (List UInt8)

inductive Event
  | outgoing (urb : Urb)
  | incoming (urb : Urb) (actlen : ℕ)
  | maxLun (lunMax : Fin 16)

def step (s : Session κ) : Event → Option (Session κ × Option (List Buffer))
  | .outgoing urb =>
    (usbmscShadowOutbuf s.dev urb.guest urb.host).map fun r =>
      (⟨r.dev, if isWrapper (content urb.guest) then some (content urb.guest) else s.latest⟩, r.buffers)
  | .incoming urb actlen =>
    (usbmscCopybackShadow s.dev urb.guest actlen urb.host).map fun r => (⟨r.dev, s.latest⟩, none)
  | .maxLun lunMax => some (⟨{ s.dev with lunMax := lunMax }, s.latest⟩, none)

def newUnit (storage : List (StorageKeys κ)) : MscUnit κ where
  command := 0
  nBlocks := 0
  lba := 0
  length := 0
  storageSectorSize := 0
  storage := storage

def Session.start (storage : Fin 16 → List (StorageKeys κ)) : Session κ where
  dev := { tag := 0, lunMax := 0, lun := 0, unit := fun lun => newUnit (storage lun) }
  latest := none

/-- A wrapper is in one buffer and names a unit of the device, and one with SECURITY PROTOCOL IN or OUT names the
unit of the wrapper before it, unless that unit has such a command already. -/
def WrapperOrderly (dev : MscDevice κ) (urb : Urb) : Prop :=
  urb.guest.length = 1 ∧ named (content urb.guest) ≤ dev.lunMax ∧
    (isSecurity (opcode (content urb.guest)) = true →
      named (content urb.guest) = dev.lun ∨ isSecurity (dev.unit dev.lun).command = true)

/-- Data do not start with a buffer that looks like a wrapper. Those of a write are whole sectors in buffers
that are not empty, and there are no more than the wrapper said. -/
def DataOrderly (dev : MscDevice κ) (urb : Urb) : Prop :=
  (∀ ub ∈ urb.guest.head?, takenForCbw ub = false) ∧
    (isWrite (dev.unit dev.lun).command = true → urb.guest ≠ [] → urb.Plain pidOut ∧
      ∃ (sectorSize : Int32) (count : ℕ), tentativeSectorSize (dev.unit dev.lun) = some sectorSize ∧
        0 < sectorSize.toInt ∧ (content urb.guest).length = count * sectorSize.toInt.toNat ∧
        (content urb.guest).length ≤ (dev.unit dev.lun).length.toNat ∧ (content urb.guest).length < 2 ^ 31) ∧
    (passThrough (dev.unit dev.lun).command = true → (content urb.guest).length ≤ (dev.unit dev.lun).length.toNat)

def Orderly (s : Session κ) : Event → Prop
  | .outgoing urb => if isWrapper (content urb.guest) then WrapperOrderly s.dev urb else DataOrderly s.dev urb
  | _ => True

/-- A wrapper that goes on is the guest's, is not for SECURITY PROTOCOL IN or OUT, and its command is kept in the
unit that it names. -/
structure WrapperSecure (after : Session κ) (sent : List UInt8) (forwarded : List Buffer) : Prop where
  security : isSecurity (opcode sent) = false
  unchanged : content forwarded = sent
  kept : (after.dev.unit (named sent)).command = opcode sent

/-- Data that go on do so for the command of the latest wrapper: encrypted for a write, with the keys of the
unit that the wrapper names, or unchanged for a command that passes. -/
def DataSecure (before : Session κ) (data : List UInt8) (forwarded : List Buffer) : Prop :=
  content forwarded ≠ [] → ∃ wrapper, before.latest = some wrapper ∧
    (before.dev.unit (named wrapper)).command = opcode wrapper ∧
    (isWrite (opcode wrapper) = true ∧
        (∃ size count, 0 < size ∧ data.length = count * size ∧
          content forwarded = sectors (before.dev.unit (named wrapper)).storage true size
            (before.dev.unit (named wrapper)).lba.toNat count data) ∨
      passThrough (opcode wrapper) = true ∧ content forwarded = data)

def Secure (before : Session κ) (event : Event) (after : Session κ) (passed : Option (List Buffer)) : Prop :=
  match event with
  | .outgoing urb => ∀ forwarded ∈ passed,
      if isWrapper (content urb.guest) then WrapperSecure after (content urb.guest) forwarded
      else DataSecure before (content urb.guest) forwarded
  | _ => True

structure Tracked (storage : Fin 16 → List (StorageKeys κ)) (s : Session κ) : Prop where
  storage : ∀ lun, (s.dev.unit lun).storage = storage lun
  unset : s.latest = none → (s.dev.unit s.dev.lun).command = 0
  set : ∀ wrapper, s.latest = some wrapper → s.dev.lun = named wrapper ∧
    ((s.dev.unit s.dev.lun).command = opcode wrapper ∨ (s.dev.unit s.dev.lun).command = 0)

theorem tracked_start (storage : Fin 16 → List (StorageKeys κ)) : Tracked storage (Session.start storage) :=
  ⟨fun _ => rfl, fun _ => rfl, fun _ absent => by cases absent⟩

@[simp] theorem setUnit_self (dev : MscDevice κ) (lun : Fin 16) (unit : MscUnit κ) :
    (dev.setUnit lun unit).unit lun = unit := by
  simp [MscDevice.setUnit]

theorem setUnit_unit (dev : MscDevice κ) (lun other : Fin 16) (unit : MscUnit κ) :
    (dev.setUnit lun unit).unit other = if other = lun then unit else dev.unit other := by
  simp [MscDevice.setUnit, Function.update_apply]

@[simp] theorem setUnit_lun (dev : MscDevice κ) (lun : Fin 16) (unit : MscUnit κ) :
    (dev.setUnit lun unit).lun = dev.lun := rfl

structure Touches (before after : MscDevice κ) : Prop where
  lun : after.lun = before.lun
  storage : ∀ lun, (after.unit lun).storage = (before.unit lun).storage
  command : (after.unit after.lun).command = (before.unit before.lun).command ∨ (after.unit after.lun).command = 0

theorem Touches.of_setUnit {dev : MscDevice κ} {unit : MscUnit κ} (storage : unit.storage = (dev.unit dev.lun).storage)
    (command : unit.command = (dev.unit dev.lun).command ∨ unit.command = 0) :
    Touches dev (dev.setUnit dev.lun unit) where
  lun := rfl
  storage := by
    intro lun
    rw [setUnit_unit]
    split
    · rename_i same
      rw [same, storage]
    · rfl
  command := by
    rw [setUnit_lun, setUnit_self]
    exact command

theorem Touches.trans {first second third : MscDevice κ} (left : Touches first second) (right : Touches second third) :
    Touches first third where
  lun := right.lun.trans left.lun
  storage := fun lun => (right.storage lun).trans (left.storage lun)
  command := by
    rcases right.command with same | zero
    · rw [same]
      exact left.command
    · exact .inr zero

variable {s after : Session κ} {gub hub : List Buffer} {r : Hooked κ} {urb : Urb} {passed : Option (List Buffer)}

theorem Tracked.touches {storage : Fin 16 → List (StorageKeys κ)} (tracked : Tracked storage s) {dev : MscDevice κ}
    (touches : Touches s.dev dev) : Tracked storage ⟨dev, s.latest⟩ where
  storage := fun lun => (touches.storage lun).trans (tracked.storage lun)
  unset := by
    intro absent
    rcases touches.command with same | zero
    · exact same.trans (tracked.unset absent)
    · exact zero
  set := by
    intro wrapper latest
    obtain ⟨lun, command⟩ := tracked.set wrapper latest
    refine ⟨touches.lun.trans lun, ?_⟩
    rcases touches.command with same | zero
    · rw [same]
      exact command
    · exact .inr zero

theorem usbmscCodeBuffers_touches {dev after : MscDevice κ} {dest src : List Buffer} {pid : UInt8} {length : ℕ}
    {write : Bool} {coded : Coded} (ran : usbmscCodeBuffers dev dest src pid length write = some (after, coded)) :
    Touches dev after := by
  obtain ⟨size, -, ran⟩ := Option.bind_eq_some_iff.mp ran
  obtain ⟨-, ran⟩ := Option.ite_none_left_eq_some.mp ran
  obtain ⟨result, -, ran⟩ := Option.bind_eq_some_iff.mp ran
  cases ran
  exact Touches.of_setUnit rfl (.inl rfl)

theorem shadowData_touches {dev : MscDevice κ} (ran : shadowData dev dev.lun gub hub = some r) : Touches dev r.dev := by
  unfold shadowData at ran
  dsimp only at ran
  split at ran
  · obtain ⟨⟨after, coded⟩, codes, ran⟩ := Option.bind_eq_some_iff.mp ran
    cases ran
    have touches := usbmscCodeBuffers_touches codes
    dsimp only
    rw [← touches.lun]
    exact touches.trans (Touches.of_setUnit rfl (.inl rfl))
  · split at ran
    · cases ran
      exact Touches.of_setUnit rfl (.inl rfl)
    · cases ran
      exact Touches.of_setUnit rfl (.inl rfl)

theorem copybackData_touches {dev : MscDevice κ} {h : Buffer} {actlen : ℕ}
    (ran : copybackData dev gub hub h actlen = some r) : Touches dev r.dev := by
  unfold copybackData at ran
  dsimp only at ran
  split at ran
  · cases ran
    exact Touches.of_setUnit rfl (.inl rfl)
  · split at ran
    · cases ran
      exact Touches.of_setUnit rfl (.inl rfl)
    · split at ran
      · obtain ⟨⟨after, coded⟩, codes, ran⟩ := Option.bind_eq_some_iff.mp ran
        cases ran
        exact (usbmscCodeBuffers_touches codes).trans (Touches.of_setUnit rfl (.inl rfl))
      · cases ran
        exact Touches.of_setUnit rfl (.inl rfl)

theorem usbmscCopybackShadow_touches {dev : MscDevice κ} {actlen : ℕ}
    (ran : usbmscCopybackShadow dev gub actlen hub = some r) : Touches dev r.dev := by
  cases hub with
  | nil =>
    cases ran
    exact ⟨rfl, fun _ => rfl, .inl rfl⟩
  | cons h hub =>
    rw [usbmscCopybackShadow] at ran
    split at ran
    · obtain ⟨-, ran⟩ := Option.ite_none_right_eq_some.mp ran
      cases ran
      exact Touches.of_setUnit rfl (.inr rfl)
    · exact copybackData_touches ran

theorem usbmscCopyBuffer_content (src : List Buffer) : ∀ (len : ℕ) (dest : List Buffer),
    dest.map Buffer.len = src.map Buffer.len → (content src).length ≤ len →
      content (usbmscCopyBuffer len dest src) = content src := by
  induction src with
  | nil =>
    intro len dest lengths _
    cases List.map_eq_nil_iff.mp lengths
    rfl
  | cons s src ih =>
    intro len dest lengths enough
    cases dest with
    | nil => cases lengths
    | cons d dest =>
      obtain ⟨first, rest⟩ := List.cons.inj lengths
      rw [length_content_cons] at enough
      have all : min len s.len = s.len := Nat.min_eq_right (by omega)
      have whole : s.bytes.take s.len = s.bytes := List.take_length
      rw [usbmscCopyBuffer, all, whole, content_cons, content_cons, bytes_put first.symm]
      by_cases more : 0 < len - s.len
      · rw [if_pos more, ih _ _ rest (by omega)]
      · have none : (content src).length = 0 := by omega
        have destNone : (content dest).length = 0 := by
          have sums := congrArg List.sum rest
          simp only [content, List.length_flatMap] at none ⊢
          exact sums.trans none
        rw [if_neg more, List.length_eq_zero_iff.mp none, List.length_eq_zero_iff.mp destNone]

theorem cbwLun_named {lunMax : Fin 16} {cbw : List UInt8} (valid : named cbw ≤ lunMax) : cbwLun lunMax cbw = named cbw := by
  have below : ¬ lunMax < named cbw := Fin.not_lt.mpr valid
  exact if_neg below

theorem cbwUnit_command (unit : MscUnit κ) (cbw : List UInt8) :
    (cbwUnit unit cbw).command = opcode cbw ∧ (cbwUnit unit cbw).storage = unit.storage := by
  unfold cbwUnit
  dsimp only
  split <;> exact ⟨rfl, rfl⟩

theorem usbmscCbwParser_unit (dev : MscDevice κ) (cbw : List UInt8) (lun : Fin 16) :
    (usbmscCbwParser dev cbw).unit lun =
      if lun = cbwLun dev.lunMax cbw then cbwUnit (dev.unit lun) cbw else dev.unit lun := by
  rw [usbmscCbwParser]
  dsimp only
  rw [setUnit_unit]
  split
  · rename_i same
    rw [same]
  · rfl

theorem usbmscShadowOutbuf_wrapper {dev : MscDevice κ} (wrapper : isWrapper (content urb.guest) = true)
    (orderly : WrapperOrderly dev urb) : ∃ hub, content hub = content urb.guest ∧
      usbmscShadowOutbuf dev urb.guest urb.host = some ⟨usbmscCbwParser dev (content urb.guest),
        if isSecurity ((usbmscCbwParser dev (content urb.guest)).unit dev.lun).command then none else some hub, []⟩ := by
  obtain ⟨g, single⟩ := List.length_eq_one_iff.mp orderly.1
  have lengths := urb.lengths
  rw [single] at lengths wrapper ⊢
  obtain ⟨h, hostSingle, sameLength⟩ := List.map_eq_singleton_iff.mp lengths
  have own : content [g] = g.bytes := by simp
  rw [own] at wrapper ⊢
  rw [hostSingle]
  have taken : takenForCbw g = true := wrapper
  have bytes : (h.put g.bytes).bytes = g.bytes := bytes_put sameLength.symm
  refine ⟨[h.put g.bytes], by simp [bytes], ?_⟩
  rw [usbmscShadowOutbuf]
  simp only [taken, if_true, bytes]
  cases security : isSecurity ((usbmscCbwParser dev g.bytes).unit dev.lun).command <;> rfl

theorem step_wrapper {storage : Fin 16 → List (StorageKeys κ)} (tracked : Tracked storage s)
    (wrapper : isWrapper (content urb.guest) = true) (orderly : WrapperOrderly s.dev urb)
    (ran : step s (.outgoing urb) = some (after, passed)) :
    Tracked storage after ∧ ∀ forwarded ∈ passed, WrapperSecure after (content urb.guest) forwarded := by
  obtain ⟨hub, unchanged, hooked⟩ := usbmscShadowOutbuf_wrapper wrapper orderly
  rw [step, hooked, Option.map_some, if_pos wrapper] at ran
  cases ran
  have lun := cbwLun_named orderly.2.1
  have kept : (((usbmscCbwParser s.dev (content urb.guest)).unit (named (content urb.guest))).command) =
      opcode (content urb.guest) := by
    rw [usbmscCbwParser_unit, if_pos lun.symm]
    exact (cbwUnit_command _ _).1
  refine ⟨⟨fun other => ?_, fun absent => (by cases absent), fun sent same => ?_⟩, fun forwarded member => ?_⟩
  · dsimp only
    rw [usbmscCbwParser_unit]
    split
    · exact (cbwUnit_command _ _).2.trans (tracked.storage other)
    · exact tracked.storage other
  · cases same
    have current : (usbmscCbwParser s.dev (content urb.guest)).lun = named (content urb.guest) := lun
    dsimp only
    rw [current]
    exact ⟨rfl, .inl kept⟩
  · obtain ⟨insecure, same⟩ := Option.ite_none_left_eq_some.mp member
    cases same
    refine ⟨?_, unchanged, kept⟩
    -- The unit that the filter looks at is the one that was current before the wrapper.
    by_contra security
    have security := eq_true_of_ne_false security
    rw [usbmscCbwParser_unit, lun] at insecure
    rcases orderly.2.2 security with same | old
    · rw [if_pos same.symm, (cbwUnit_command _ _).1] at insecure
      exact insecure security
    · split at insecure
      · rw [(cbwUnit_command _ _).1] at insecure
        exact insecure security
      · exact insecure old

theorem usbmscShadowOutbuf_data {dev : MscDevice κ} (plain : ∀ ub ∈ urb.guest.head?, takenForCbw ub = false)
    (nonempty : urb.guest ≠ []) :
    usbmscShadowOutbuf dev urb.guest urb.host = shadowData dev dev.lun urb.guest urb.host := by
  have lengths := urb.lengths
  revert lengths plain nonempty
  generalize urb.guest = guest
  generalize urb.host = host
  intro plain nonempty lengths
  cases guest with
  | nil => exact absurd rfl nonempty
  | cons g guest =>
    cases host with
    | nil => cases lengths
    | cons h host =>
      have data := plain g rfl
      rw [usbmscShadowOutbuf]
      simp only [data, Bool.false_eq_true, if_false]

theorem Tracked.latest {storage : Fin 16 → List (StorageKeys κ)} (tracked : Tracked storage s)
    (nonzero : (s.dev.unit s.dev.lun).command ≠ 0) :
    ∃ wrapper, s.latest = some wrapper ∧ named wrapper = s.dev.lun ∧
      opcode wrapper = (s.dev.unit s.dev.lun).command := by
  cases latest : s.latest with
  | none => exact absurd (tracked.unset latest) nonzero
  | some wrapper =>
    obtain ⟨lun, command⟩ := tracked.set wrapper latest
    exact ⟨wrapper, rfl, lun.symm, (command.resolve_right nonzero).symm⟩

theorem step_data {storage : Fin 16 → List (StorageKeys κ)} (keeps : ∀ lun, KeepsLength (storage lun))
    (tracked : Tracked storage s) (data : isWrapper (content urb.guest) = false) (orderly : DataOrderly s.dev urb)
    (ran : step s (.outgoing urb) = some (after, passed)) :
    Tracked storage after ∧ ∀ forwarded ∈ passed, DataSecure s (content urb.guest) forwarded := by
  rw [step, Option.map_eq_some_iff] at ran
  obtain ⟨r, hooked, ran⟩ := ran
  rw [data, if_neg Bool.false_ne_true] at ran
  cases ran
  by_cases empty : urb.guest = []
  · have hostEmpty : urb.host = [] := by
      have lengths := urb.lengths
      rw [empty] at lengths
      exact List.map_eq_nil_iff.mp lengths
    rw [empty, hostEmpty] at hooked
    cases hooked
    refine ⟨tracked, ?_⟩
    rintro forwarded same nonempty
    cases same
    exact absurd rfl nonempty
  · rw [usbmscShadowOutbuf_data orderly.1 empty] at hooked
    refine ⟨tracked.touches (shadowData_touches hooked), ?_⟩
    rintro forwarded member -
    rw [shadowData] at hooked
    dsimp only at hooked
    cases write : isWrite (s.dev.unit s.dev.lun).command with
    | true =>
      obtain ⟨wrapper, latest, lun, command⟩ := tracked.latest (by
        intro zero
        rw [zero] at write
        cases write)
      obtain ⟨plain, size, count, tentative, positive, whole, within, small⟩ := orderly.2.1 write empty
      have keepsOwn : KeepsLength (s.dev.unit s.dev.lun).storage := by
        rw [tracked.storage]
        exact keeps _
      rw [whole] at within small
      obtain ⟨done, ops, coded, bytes, -, -⟩ := usbmscCodeBuffers_eq true keepsOwn tentative positive
        (Urb.paired_write plain) whole within small
      rw [write, if_pos rfl, coded] at hooked
      cases hooked
      cases member
      rw [← lun] at bytes
      refine ⟨wrapper, latest, by rw [lun, command], .inl ⟨by rw [command, write], size.toInt.toNat, count, by omega,
        whole, bytes⟩⟩
    | false =>
      rw [write, if_neg Bool.false_ne_true] at hooked
      cases pass : passThrough (s.dev.unit s.dev.lun).command with
      | true =>
        obtain ⟨wrapper, latest, lun, command⟩ := tracked.latest (by
          intro zero
          rw [zero] at pass
          cases pass)
        rw [pass, if_pos rfl] at hooked
        cases hooked
        cases member
        have copied := usbmscCopyBuffer_content urb.guest _ urb.host urb.lengths (orderly.2.2 pass)
        exact ⟨wrapper, latest, by rw [lun, command], .inr ⟨by rw [command, pass], copied⟩⟩
      | false =>
        rw [pass, if_neg Bool.false_ne_true] at hooked
        cases hooked
        cases member

theorem step_secure {storage : Fin 16 → List (StorageKeys κ)} (keeps : ∀ lun, KeepsLength (storage lun))
    {event : Event} (tracked : Tracked storage s) (orderly : Orderly s event)
    (ran : step s event = some (after, passed)) : Tracked storage after ∧ Secure s event after passed := by
  cases event with
  | outgoing urb =>
    rw [Orderly] at orderly
    rw [Secure]
    cases wrapper : isWrapper (content urb.guest) with
    | true =>
      rw [wrapper, if_pos rfl] at orderly
      simpa using step_wrapper tracked wrapper orderly ran
    | false =>
      rw [wrapper, if_neg Bool.false_ne_true] at orderly
      simpa using step_data keeps tracked wrapper orderly ran
  | incoming urb actlen =>
    rw [step, Option.map_eq_some_iff] at ran
    obtain ⟨r, hooked, ran⟩ := ran
    cases ran
    exact ⟨tracked.touches (usbmscCopybackShadow_touches hooked), trivial⟩
  | maxLun lunMax =>
    cases ran
    exact ⟨⟨tracked.storage, tracked.unset, tracked.set⟩, trivial⟩

def OrderlyStep (before : Session κ) (event : Event) (after : Session κ) : Prop :=
  Orderly before event ∧ ∃ passed, step before event = some (after, passed)

/-- In every sequence of transfers that meet the condition, each transfer is secure. -/
theorem run_secure (storage : Fin 16 → List (StorageKeys κ)) (keeps : ∀ lun, KeepsLength (storage lun))
    (events : List Event) (s : Session κ) (run : Run OrderlyStep (Session.start storage) events s) (event : Event)
    (orderly : Orderly s event) (after : Session κ) (passed : Option (List Buffer))
    (ran : step s event = some (after, passed)) : Secure s event after passed := by
  refine (step_secure keeps (run.keeps (Tracked storage) ?_ (tracked_start storage)) orderly ran).2
  rintro before event after ⟨orderly, passed, ran⟩ tracked
  exact (step_secure keeps tracked orderly ran).1

def oneBuffer (bytes : List UInt8) : Urb where
  guest := [⟨pidOut, false, bytes⟩]
  host := [⟨pidOut, true, List.replicate bytes.length 0⟩]
  same := by simp [Buffer.len]
  ofGuest := by simp
  ofHost := by simp

def exampleWrapper (lun length command : UInt8) : List UInt8 :=
  cbwSignature ++ [1, 0, 0, 0, length, 0, 0, 0, 0, lun, 12, command] ++ List.replicate 15 0

def emptyKeys : Fin 16 → List (StorageKeys Unit) := fun _ => []

def modeSelect : Session Unit :=
  ⟨usbmscCbwParser (Session.start emptyKeys).dev (exampleWrapper 0 4 0x55), some (exampleWrapper 0 4 0x55)⟩

theorem modeSelect_run : Run OrderlyStep (Session.start emptyKeys) [.outgoing (oneBuffer (exampleWrapper 0 4 0x55))]
    modeSelect := by
  refine Run.cons ⟨?_, some [⟨pidOut, true, exampleWrapper 0 4 0x55⟩], rfl⟩ (Run.nil _)
  exact ⟨rfl, by decide, by decide⟩

theorem run_secure_modeSelect : ∃ after passed,
    step modeSelect (.outgoing (oneBuffer [1, 2, 3, 4])) = some (after, passed) ∧
      Secure modeSelect (.outgoing (oneBuffer [1, 2, 3, 4])) after passed := by
  refine ⟨_, _, rfl, run_secure emptyKeys ?_ _ _ modeSelect_run _ ?_ _ _ rfl⟩
  · intro lun key member
    cases member
  · refine ⟨?_, ?_, ?_⟩
    · rintro ub same
      cases same
      decide
    · intro write
      exact absurd write (by decide)
    · intro _
      decide

/-- The wrapper names another unit than the one before it, so the filter looks at the wrong command. -/
theorem security_forwarded : ¬ ∀ (storage : Fin 16 → List (StorageKeys Unit)) (events : List Event) (s : Session Unit),
    Run (fun before event after => ∃ passed, step before event = some (after, passed)) (Session.start storage) events s →
      ∀ (event : Event) (after : Session Unit) (passed : Option (List Buffer)),
        step s event = some (after, passed) → Secure s event after passed := by
  intro all
  have secure := all emptyKeys [.maxLun 1] _ (Run.cons ⟨none, rfl⟩ (Run.nil _))
    (.outgoing (oneBuffer (exampleWrapper 1 0 0xA2))) _ _ rfl _ rfl
  rw [if_pos (by decide)] at secure
  exact absurd secure.security (by decide)

/-!
A mass storage device behind the filter: its disks, the command that it executes, and what the guest wrote.
-/

structure Units (κ : Type) where
  size : Fin 16 → Int32
  positive : ∀ lun, 0 < (size lun).toInt
  storage : Fin 16 → List (StorageKeys κ)
  keeps : ∀ lun, KeepsLength (storage lun)
  inverse : ∀ lun, ∀ key ∈ storage lun, ∀ lba sector, key.crypt false lba (key.crypt true lba sector) = sector

def Units.bytes (units : Units κ) (lun : Fin 16) : ℕ := (units.size lun).toInt.toNat

/-- The command that the device executes: its unit, its direction, the next sector and how many are left. -/
structure Pending where
  lun : Fin 16
  write : Bool
  lba : ℕ
  left : ℕ

/-- The filter and the device. `written` is what the guest wrote last to each sector. -/
structure World (κ : Type) where
  dev : MscDevice κ
  disk : Fin 16 → ℕ → List UInt8
  written : Fin 16 → ℕ → Option (List UInt8)
  pending : Option Pending

def blocks (cbw : List UInt8) : ℕ :=
  if opcode cbw = 0x28 ∨ opcode cbw = 0x2A then (be16 cbw (cbwcb 7)).toNat else (be32 cbw (cbwcb 6)).toNat

def firstBlock (cbw : List UInt8) : ℕ := (be32 cbw (cbwcb 2)).toNat

def deviceCommand (cbw : List UInt8) : Pending where
  lun := named cbw
  write := isWrite (opcode cbw)
  lba := firstBlock cbw
  left := blocks cbw

def Pending.advance (p : Pending) (count : ℕ) : Pending := { p with lba := p.lba + count, left := p.left - count }

def store (f : ℕ → List UInt8) (size lba : ℕ) (bytes : List UInt8) (x : ℕ) : List UInt8 :=
  if lba ≤ x ∧ x < lba + bytes.length / size then sector size (x - lba) bytes else f x

def noteWritten (f : ℕ → Option (List UInt8)) (size lba : ℕ) (bytes : List UInt8) (x : ℕ) : Option (List UInt8) :=
  if lba ≤ x ∧ x < lba + bytes.length / size then some (sector size (x - lba) bytes) else f x

def fetch (f : ℕ → List UInt8) (lba count : ℕ) : List UInt8 := (List.range count).flatMap fun i => f (lba + i)

def scatter : List UInt8 → List Buffer → List Buffer
  | _, [] => []
  | bytes, ub :: rest => { ub with bytes := bytes.take ub.len } :: scatter (bytes.drop ub.len) rest

inductive Transfer
  | wrapper (urb : Urb)
  | dataOut (urb : Urb)
  | dataIn (urb : Urb)
  | other (events : List Event)

def runEvents (s : Session κ) : List Event → Option (Session κ)
  | [] => some s
  | event :: events => (step s event).bind fun next => runEvents next.1 events

structure Result (κ : Type) where
  world : World κ
  guest : List UInt8
  ops : List MemOp

def exec (units : Units κ) (w : World κ) : Transfer → Option (Result κ)
  | .wrapper urb => do
      let r ← usbmscShadowOutbuf w.dev urb.guest urb.host
      let hub ← r.buffers
      some ⟨{ w with dev := r.dev, pending := some (deviceCommand (content hub)) }, [], r.ops⟩
  | .dataOut urb => do
      let p ← w.pending
      let r ← usbmscShadowOutbuf w.dev urb.guest urb.host
      let hub ← r.buffers
      let size := units.bytes p.lun
      some ⟨{ dev := r.dev
              disk := Function.update w.disk p.lun (store (w.disk p.lun) size p.lba (content hub))
              written := Function.update w.written p.lun
                (noteWritten (w.written p.lun) size p.lba (content urb.guest))
              pending := some (p.advance ((content hub).length / size)) }, [], r.ops⟩
  | .dataIn urb => do
      let p ← w.pending
      let actlen := (content urb.host).length
      let count := actlen / units.bytes p.lun
      let r ← usbmscCopybackShadow w.dev urb.guest actlen (scatter (fetch (w.disk p.lun) p.lba count) urb.host)
      let gub ← r.buffers
      some ⟨{ w with dev := r.dev, pending := some (p.advance count) }, content gub, r.ops⟩
  | .other events => do
      let s ← runEvents ⟨w.dev, none⟩ events
      some ⟨{ w with dev := s.dev, pending := none }, [], []⟩

def World.start (units : Units κ) (disk : (lun : Fin 16) → ℕ → { s : List UInt8 // s.length = units.bytes lun }) :
    World κ where
  dev := (Session.start units.storage).dev
  disk := fun lun x => (disk lun x).val
  written := fun _ _ => none
  pending := none

/-- The filter can take a read or a write: what it knows of the sector sizes is what the device reports, and
no command for SECURITY PROTOCOL IN or OUT is under way. -/
structure Ready (units : Units κ) (dev : MscDevice κ) : Prop where
  storage : ∀ lun, (dev.unit lun).storage = units.storage lun
  size : ∀ lun, (dev.unit lun).storageSectorSize = 0 ∨ (dev.unit lun).storageSectorSize = units.size lun
  insecure : isSecurity (dev.unit dev.lun).command = false

structure WholeSectors (units : Units κ) (p : Pending) (pid : UInt8) (urb : Urb) : Prop where
  pids : ∀ ub ∈ urb.guest, ub.pid = pid
  whole : (content urb.guest).length % units.bytes p.lun = 0
  within : (content urb.guest).length / units.bytes p.lun ≤ p.left
  small : (content urb.guest).length < 2 ^ 31

/-- What the claimed transfers are: a wrapper in a buffer of its own, for sectors that the device has and with
their length; data of the command under way, in whole sectors. -/
def WellFormed (units : Units κ) (w : World κ) : Transfer → Prop
  | .wrapper urb =>
    isWrapper (content urb.guest) = true ∧ WrapperOrderly w.dev urb ∧
      (isWrite (opcode (content urb.guest)) = true ∨ isRead (opcode (content urb.guest)) = true) ∧
      (le32 (content urb.guest) 8).toNat = blocks (content urb.guest) * units.bytes (named (content urb.guest)) ∧
      firstBlock (content urb.guest) + blocks (content urb.guest) ≤ 2 ^ 32
  | .dataOut urb => ∃ p, w.pending = some p ∧ p.write = true ∧ WholeSectors units p pidOut urb
  | .dataIn urb => ∃ p, w.pending = some p ∧ p.write = false ∧ WholeSectors units p pidIn urb
  | .other events => ∃ s, runEvents ⟨w.dev, none⟩ events = some s ∧ Ready units s.dev

def Regular (units : Units κ) (w : World κ) : Transfer → Prop
  | .dataOut urb => Filled urb.guest ∧ ∀ ub ∈ urb.guest.head?, takenForCbw ub = false
  | .dataIn urb => Filled urb.guest ∧ ∀ p ∈ w.pending, ∀ ub ∈ (scatter
      (fetch (w.disk p.lun) p.lba ((content urb.host).length / units.bytes p.lun)) urb.host).head?,
      ¬ (ub.bytes.take 4 = cswSignature ∧ (content urb.host).length = 13)
  | _ => True

def encrypted (units : Units κ) (lun : Fin 16) (x : ℕ) (plain : List UInt8) : List UInt8 :=
  handled true (fate (units.storage lun) x) x plain

/-- The device has the ciphertext of each sector that the guest wrote; a read gives the guest what it wrote, for
each sector that it wrote; no temporary buffer is left, freed twice or unmapped. -/
structure Exact (units : Units κ) (before : World κ) (transfer : Transfer) (r : Result κ) : Prop where
  stored : ∀ lun x plain, r.world.written lun x = some plain → r.world.disk lun x = encrypted units lun x plain
  read : ∀ urb p, transfer = .dataIn urb → before.pending = some p →
    r.guest.length = (content urb.guest).length ∧
      ∀ i < (content urb.guest).length / units.bytes p.lun, ∀ plain, before.written p.lun (p.lba + i) = some plain →
        sector (units.bytes p.lun) i r.guest = plain
  freed : ∀ m, r.ops.count (.free (.temporary m)) = r.ops.count (.alloc m) ∧ r.ops.count (.alloc m) ≤ 1 ∧
    .unmapmem (.temporary m) ∉ r.ops

end DisasVisor.Usb.Msc
