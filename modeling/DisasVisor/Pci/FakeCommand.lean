import DisasVisor.Lib.Memory

/-!
The command register of a bridge, of which `pci_set_bridge_fake_command` of `drivers/pci_core.c` fixes bits.
The guest is shown in these bits what it wrote.
-/

namespace DisasVisor.Pci

/-- A bridge with its configuration space. `command` is the low byte of `config_space.command`, the copy of
the register that the VMM keeps. -/
structure FakedBridge where
  fakeCommandMask : UInt8
  fakeCommandFixed : UInt8
  fakeCommandVirtual : UInt8
  command : UInt8
  hardware : Memory

inductive CommandOp
  | setBridgeFakeCommand (mask fixed : UInt8)
  | write (offset : ℕ) (data : List UInt8)
  | read (offset iosize : ℕ)

def coversCommand (offset iosize : ℕ) : Bool := offset ≤ 4 && 4 < offset + iosize

def store (writable : ℕ → UInt8) (hardware : Memory) (offset : ℕ) (data : List UInt8) : Memory := fun a =>
  if offset ≤ a ∧ a < offset + data.length then
    (data.getD (a - offset) 0 &&& writable a) ||| (hardware a &&& ~~~writable a)
  else hardware a

namespace FakedBridge

variable (writable : ℕ → UInt8) (b : FakedBridge)

def setFakeCommand (mask fixed : UInt8) : FakedBridge :=
  { b with
    fakeCommandVirtual := if b.fakeCommandMask = 0 then b.command else b.fakeCommandVirtual
    fakeCommandFixed := (b.fakeCommandFixed &&& ~~~mask) ||| (fixed &&& mask)
    fakeCommandMask := b.fakeCommandMask ||| mask }

def faked (iosize offset : ℕ) : Bool := b.fakeCommandMask ≠ 0 && coversCommand offset iosize

def outgoing (offset : ℕ) (data : List UInt8) : List UInt8 :=
  if b.faked data.length offset then
    data.set (4 - offset) ((data.getD (4 - offset) 0 &&& ~~~b.fakeCommandMask) ||| b.fakeCommandFixed)
  else data

/-- `pci_handle_default_config_write`: of the saved registers the one that the access begins in is read back. -/
def configWrite (offset : ℕ) (data : List UInt8) : FakedBridge :=
  let hardware := store writable b.hardware offset (b.outgoing offset data)
  { b with
    fakeCommandVirtual := if b.faked data.length offset then data.getD (4 - offset) 0 else b.fakeCommandVirtual
    hardware := hardware
    command := if offset / 4 = 1 then hardware 4 else b.command }

def configRead (offset iosize : ℕ) : List UInt8 :=
  let data := b.hardware.slice offset iosize
  if b.faked iosize offset then
    data.set (4 - offset) ((data.getD (4 - offset) 0 &&& ~~~b.fakeCommandMask) |||
      (b.fakeCommandVirtual &&& b.fakeCommandMask))
  else data

def step : CommandOp → FakedBridge
  | .setBridgeFakeCommand mask fixed => b.setFakeCommand mask fixed
  | .write offset data => b.configWrite writable offset data
  | .read _ _ => b

end FakedBridge

structure Promise where
  masked : UInt8
  fixed : UInt8
  shown : UInt8

/-- The guest should find what it last wrote or, before it writes, what the register held when masking began. -/
def Promise.step (p : Promise) (hardware : Memory) : CommandOp → Promise
  | .setBridgeFakeCommand mask fixed =>
    ⟨p.masked ||| mask, (p.fixed &&& ~~~mask) ||| (fixed &&& mask), if p.masked = 0 then hardware 4 else p.shown⟩
  | .write offset data => if coversCommand offset data.length then { p with shown := data.getD (4 - offset) 0 } else p
  | .read _ _ => p

def AgreeMasked (mask bits : UInt8) (offset : ℕ) (data result : List UInt8) : Prop :=
  result.length = data.length ∧ ∀ k < data.length,
    if offset + k = 4 then
      result.getD k 0 &&& mask = bits &&& mask ∧ result.getD k 0 &&& ~~~mask = data.getD k 0 &&& ~~~mask
    else result.getD k 0 = data.getD k 0

def CommandKept (b : FakedBridge) (p : Promise) : CommandOp → Prop
  | .setBridgeFakeCommand _ _ => True
  | .write offset data => AgreeMasked p.masked p.fixed offset data (b.outgoing offset data)
  | .read offset iosize =>
    AgreeMasked p.masked p.shown offset (b.hardware.slice offset iosize) (b.configRead offset iosize)

def Aligned (writable : ℕ → UInt8) (b : FakedBridge) : CommandOp → Prop
  | .write offset data =>
    b.fakeCommandMask = 0 → offset < 4 → (b.configWrite writable offset data).hardware 4 = b.hardware 4
  | _ => True

def Throughout (writable : ℕ → UInt8) (q : FakedBridge → Promise → CommandOp → Prop) :
    FakedBridge → Promise → List CommandOp → Prop
  | _, _, [] => True
  | b, p, op :: ops => q b p op ∧ Throughout writable q (b.step writable op) (p.step b.hardware op) ops

structure Faithful (b : FakedBridge) (p : Promise) : Prop where
  mask : p.masked = b.fakeCommandMask
  fixed : p.fixed = b.fakeCommandFixed
  within : b.fakeCommandFixed &&& b.fakeCommandMask = b.fakeCommandFixed
  copied : b.fakeCommandMask = 0 → b.command = b.hardware 4
  shown : b.fakeCommandMask ≠ 0 → b.fakeCommandVirtual = p.shown

theorem mixed_bits (low bits mask : UInt8) (within : bits &&& mask = bits) :
    ((low &&& ~~~mask) ||| bits) &&& mask = bits &&& mask ∧
      ((low &&& ~~~mask) ||| bits) &&& ~~~mask = low &&& ~~~mask := by
  rw [← within]
  constructor <;> apply UInt8.toBitVec_inj.mp <;>
    simp only [UInt8.toBitVec_and, UInt8.toBitVec_or, UInt8.toBitVec_not] <;> ext bit <;>
    simp only [BitVec.getElem_and, BitVec.getElem_or, BitVec.getElem_not] <;>
    cases low.toBitVec[bit] <;> cases mask.toBitVec[bit] <;> simp

theorem within_or (old new mask more : UInt8) (within : old &&& mask = old) :
    ((old &&& ~~~more) ||| (new &&& more)) &&& (mask ||| more) = (old &&& ~~~more) ||| (new &&& more) := by
  rw [← within]
  apply UInt8.toBitVec_inj.mp
  simp only [UInt8.toBitVec_and, UInt8.toBitVec_or, UInt8.toBitVec_not]
  ext bit
  simp only [BitVec.getElem_and, BitVec.getElem_or, BitVec.getElem_not]
  cases mask.toBitVec[bit] <;> cases more.toBitVec[bit] <;> simp

theorem agree_set {mask bits : UInt8} {offset : ℕ} {data : List UInt8} (within : bits &&& mask = bits) :
    AgreeMasked mask bits offset data (if mask ≠ 0 ∧ coversCommand offset data.length = true then
      data.set (4 - offset) ((data.getD (4 - offset) 0 &&& ~~~mask) ||| bits) else data) := by
  split_ifs with fakes
  · obtain ⟨-, covers⟩ := fakes
    simp only [coversCommand, Bool.and_eq_true, decide_eq_true_eq] at covers
    refine ⟨List.length_set, fun k inside => ?_⟩
    split_ifs with here
    · obtain rfl : k = 4 - offset := by omega
      have byte : (data.set (4 - offset) ((data.getD (4 - offset) 0 &&& ~~~mask) ||| bits)).getD (4 - offset) 0 =
          (data.getD (4 - offset) 0 &&& ~~~mask) ||| bits := by simp [inside]
      rw [byte]
      exact mixed_bits _ _ _ within
    · have other : 4 - offset ≠ k := by omega
      simp [List.getElem?_set_ne other]
  · refine ⟨rfl, fun k inside => ?_⟩
    split_ifs with here
    · have covers : coversCommand offset data.length = true := by
        simp only [coversCommand, Bool.and_eq_true, decide_eq_true_eq]
        omega
      obtain rfl : mask = 0 := not_not.mp fun masked => fakes ⟨masked, covers⟩
      simp
    · rfl

variable {writable : ℕ → UInt8} {b : FakedBridge} {p : Promise} {op : CommandOp}

theorem AgreeMasked.congr {mask bits other : UInt8} {offset : ℕ} {data result : List UInt8}
    (agree : AgreeMasked mask bits offset data result) (same : bits &&& mask = other &&& mask) :
    AgreeMasked mask other offset data result := by
  unfold AgreeMasked at agree ⊢
  rwa [same] at agree

theorem Faithful.kept (faithful : Faithful b p) : CommandKept b p op := by
  cases op with
  | setBridgeFakeCommand => exact trivial
  | write offset data =>
    have agree := @agree_set _ _ offset data faithful.within
    unfold CommandKept FakedBridge.outgoing FakedBridge.faked
    rw [faithful.mask, faithful.fixed]
    simpa using agree
  | read offset iosize =>
    have agree := @agree_set b.fakeCommandMask (b.fakeCommandVirtual &&& b.fakeCommandMask) offset
      (b.hardware.slice offset iosize) (by rw [UInt8.and_assoc, UInt8.and_self])
    unfold CommandKept FakedBridge.configRead FakedBridge.faked
    rw [faithful.mask]
    have bits : (b.fakeCommandVirtual &&& b.fakeCommandMask) &&& b.fakeCommandMask =
        p.shown &&& b.fakeCommandMask := by
      rw [UInt8.and_assoc, UInt8.and_self]
      by_cases masked : b.fakeCommandMask = 0
      · rw [masked, UInt8.and_zero, UInt8.and_zero]
      · rw [faithful.shown masked]
    have agree := agree.congr bits
    rw [Memory.length_slice] at agree
    simpa using agree

theorem store_outside {hardware : Memory} {offset a : ℕ} {data : List UInt8} (behind : a < offset) :
    store writable hardware offset data a = hardware a := if_neg (by omega)

theorem Faithful.step (faithful : Faithful b p) (aligned : Aligned writable b op) :
    Faithful (b.step writable op) (p.step b.hardware op) := by
  cases op with
  | setBridgeFakeCommand mask fixed =>
    refine ⟨congrArg (· ||| mask) faithful.mask, ?_, within_or _ _ _ _ faithful.within, ?_, fun _ => ?_⟩
    · exact congrArg (fun old => (old &&& ~~~mask) ||| (fixed &&& mask)) faithful.fixed
    · exact fun none' => faithful.copied (UInt8.or_eq_zero_iff.mp none').1
    · unfold FakedBridge.step FakedBridge.setFakeCommand Promise.step
      dsimp only
      rw [faithful.mask]
      split_ifs with unmasked
      · exact faithful.copied unmasked
      · exact faithful.shown unmasked
  | write offset data =>
    have same : (p.step b.hardware (.write offset data)).masked = p.masked ∧
        (p.step b.hardware (.write offset data)).fixed = p.fixed := by
      unfold Promise.step
      dsimp only
      split <;> exact ⟨rfl, rfl⟩
    refine ⟨same.1.trans faithful.mask, same.2.trans faithful.fixed, faithful.within, fun unmasked => ?_,
      fun masked => ?_⟩
    · unfold FakedBridge.step FakedBridge.configWrite
      dsimp only
      split_ifs with own
      · rfl
      · rw [faithful.copied unmasked]
        by_cases below : offset < 4
        · exact (aligned unmasked below).symm
        · exact (store_outside (by omega)).symm
    · have masked' : b.fakeCommandMask ≠ 0 := masked
      unfold FakedBridge.step FakedBridge.configWrite FakedBridge.faked Promise.step
      dsimp only
      cases covers : coversCommand offset data.length with
      | true => simp [masked']
      | false => simpa using faithful.shown masked'
  | read => exact faithful

def foundBridge (hardware : Memory) : FakedBridge := ⟨0, 0, 0, hardware 4, hardware⟩

theorem faithful_found (hardware : Memory) : Faithful (foundBridge hardware) ⟨0, 0, hardware 4⟩ :=
  ⟨rfl, rfl, UInt8.and_self, fun _ => rfl, fun masked => absurd rfl masked⟩

/-- The promise is kept in every run in which the copy of the register is not passed by. -/
theorem bridge_command_kept (writable : ℕ → UInt8) (hardware : Memory) (ops : List CommandOp)
    (aligned : Throughout writable (fun b _ op => Aligned writable b op) (foundBridge hardware) ⟨0, 0, hardware 4⟩
      ops) : Throughout writable CommandKept (foundBridge hardware) ⟨0, 0, hardware 4⟩ ops := by
  have general : ∀ b p, Faithful b p → Throughout writable (fun b _ op => Aligned writable b op) b p ops →
      Throughout writable CommandKept b p ops := by
    clear aligned
    induction ops with
    | nil => exact fun _ _ _ _ => trivial
    | cons op ops ih =>
      intro b p faithful aligned
      exact ⟨faithful.kept, ih _ _ (faithful.step aligned.1) aligned.2⟩
  exact general _ _ (faithful_found hardware) aligned

/-- Bus mastering, masked after the guest has turned it on. -/
theorem bridge_command_kept_plain :
    Throughout (fun _ => 0xff) CommandKept (foundBridge fun _ => 0) ⟨0, 0, 0⟩
      [.write 4 [0x04], .setBridgeFakeCommand 0x04 0x04, .write 4 [0x00, 0x00], .read 4 2] := by
  refine bridge_command_kept (fun _ => 0xff) (fun _ => 0) _ ⟨?_, trivial, ?_, trivial, trivial⟩
  · exact fun _ below => absurd below (by decide)
  · exact fun _ below => absurd below (by decide)

/-- A write of two bytes at offset 3 turns bus mastering on; behind the mask the guest reads it as off. -/
theorem straddling_write_lost :
    ¬Throughout (fun _ => 0xff) CommandKept (foundBridge fun _ => 0) ⟨0, 0, 0⟩
      [.write 3 [0x00, 0x04], .setBridgeFakeCommand 0x04 0x04, .read 4 1] := by
  rintro ⟨-, -, ⟨-, bytes⟩, -⟩
  have masked := (bytes 0 (by decide)).1
  revert masked
  decide

end DisasVisor.Pci
