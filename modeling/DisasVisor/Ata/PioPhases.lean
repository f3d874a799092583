import Mathlib.Data.List.Induction
import DisasVisor.Ata.Channel
import DisasVisor.Storage.Disk

/-!
The PIO data phases of `ata_handle_data`: when the accesses of the guest cut the blocks as the block size does,
each block is handled once, with its own address, and nothing else is touched.
-/

namespace DisasVisor.Ata

open DisasVisor.Storage List

variable {κ : Type}

structure PortAccess where
  hw : Hardware
  bytes : List UInt8

structure PioRun (κ : Type) where
  channel : Channel κ
  data : List UInt8
  given : List UInt8
  came : List (List UInt8)
  went : List (List UInt8)

def PortOp.insn? (hw : Hardware) : PortOp → Option (List UInt8)
  | .insn count => some ((List.range count).map hw.data)
  | _ => none

def PortOp.outsn? : PortOp → Option (List UInt8)
  | .outsn bytes => some bytes
  | _ => none

def PioRun.access (r : PioRun κ) (a : PortAccess) : Except Stop (PioRun κ) :=
  (ataHandleData r.channel a.hw r.channel.write a.bytes).map fun reply => {
    channel := reply.channel
    data := r.data ++ if r.channel.write then [] else reply.data
    given := r.given ++ if r.channel.write then a.bytes else []
    came := r.came ++ reply.ops.filterMap (PortOp.insn? a.hw)
    went := r.went ++ reply.ops.filterMap PortOp.outsn? }

def named (model block : List UInt8) : List UInt8 :=
  ((overwrite block 54 (ataConvertString model)).bind fun buf =>
    overwrite buf 46 (ataConvertString ataVirtualRevision)).getD block

def Channel.transform (channel : Channel κ) (lba : UInt64) (block : List UInt8) : List UInt8 :=
  match channel.pioBufHandler with
  | .pioData | .atapiPioData => sectors channel.ataGetAtaDevice.storage channel.write block.length lba.toNat 1 block
  | .pioIdentify => named ataVirtualModel block
  | .pioIdentifyPacket => named atapiVirtualModel block
  | .configData | .pioPacket => block

def Channel.transformed (channel : Channel κ) (blocks : List (List UInt8)) : List UInt8 :=
  (blocks.mapIdx fun k block => channel.transform (channel.lba + UInt64.ofNat k) block).flatten

structure Channel.Begins (channel : Channel κ) : Prop where
  state : channel.state = .pioReady
  some' : 0 < channel.sectorCount.toNat
  positive : 0 < channel.pioBlockSize
  inside : channel.pioBlockSize ≤ channel.pioBuf.length
  keeps : KeepsLength channel.ataGetAtaDevice.storage
  handler : match channel.pioBufHandler with
    | .pioData | .atapiPioData => channel.ataGetAtaDevice.storageSectorSize.toInt = channel.pioBlockSize
    | .configData => True
    | .pioIdentify | .pioIdentifyPacket => channel.write = false ∧ channel.pioBlockSize = 512 ∧ channel.sectorCount = 1
    | .pioPacket => False

/-- The accesses from the byte `t` of the phase on stay in their blocks, and the one that moves a block over the
port has a size that divides it. -/
def Cuts (write : Bool) (size count : Nat) : Nat → List PortAccess → Prop
  | _, [] => True
  | t, a :: rest =>
    t < count * size ∧ 0 < a.bytes.length ∧ t % size + a.bytes.length ≤ size ∧
      ((if write then t % size + a.bytes.length = size else t % size = 0) → size % a.bytes.length = 0) ∧
      Cuts write size count (t + a.bytes.length) rest

/-- What has gone over the port after `t` bytes: the guest has the bytes of the blocks that came, and the drive
the blocks of the bytes that were given. -/
structure PioRun.Moved (c : Channel κ) (t : Nat) (r : PioRun κ) : Prop where
  received : c.write = false → (∀ block ∈ r.came, block.length = c.pioBlockSize) ∧
    r.came.length = t / c.pioBlockSize + (if t % c.pioBlockSize = 0 then 0 else 1) ∧
    r.data = (c.transformed r.came).take t
  sent : c.write = true → r.given.length = t ∧
    r.went = (List.range (t / c.pioBlockSize)).map fun k =>
      c.transform (c.lba + UInt64.ofNat k) ((r.given.drop (k * c.pioBlockSize)).take c.pioBlockSize)

structure PioRun.Exact (c : Channel κ) (t : Nat) (r : PioRun κ) : Prop extends r.Moved c t where
  state : r.channel.state = if t % c.pioBlockSize ≠ 0 then .pioData
    else if t / c.pioBlockSize < c.sectorCount.toNat then .pioReady else .ready
  index : 0 < t → r.channel.pioBufIndex = t % c.pioBlockSize
  behind : r.channel.pioBuf.drop c.pioBlockSize = c.pioBuf.drop c.pioBlockSize
  lba : r.channel.lba = c.lba + UInt64.ofNat (t / c.pioBlockSize)

variable {c ch : Channel κ} {hw : Hardware} {block rest : List UInt8} {r : PioRun κ} {t : Nat}

theorem overwrite_front {offset : Nat} {bytes : List UInt8} (fits : offset + bytes.length ≤ block.length) :
    ∃ out, overwrite block offset bytes = some out ∧ overwrite (block ++ rest) offset bytes = some (out ++ rest) ∧
      out.length = block.length := by
  refine ⟨_, if_pos fits, ?_, ?_⟩
  · unfold overwrite
    rw [if_pos (by rw [length_append]; omega), take_append_of_le_length (by omega),
      drop_append_of_le_length fits, append_assoc, append_assoc, append_assoc]
  · simp only [length_append, length_take, length_drop]
    omega

theorem setNames_front {model : List UInt8} (letters : (ataConvertString model).length = 40)
    (buf : ch.pioBuf = block ++ rest) (length : block.length = 512) :
    setNames ch model = .ok { ch with pioBuf := named model block ++ rest } ∧
      (named model block).length = block.length := by
  have revision : (ataConvertString ataVirtualRevision).length = 8 := by decide
  obtain ⟨first, one, whole, same⟩ := @overwrite_front block rest 54 (ataConvertString model) (by omega)
  obtain ⟨second, one', whole', same'⟩ :=
    @overwrite_front first rest 46 (ataConvertString ataVirtualRevision) (by omega)
  have is : named model block = second := by
    unfold named
    rw [one, Option.bind_some, one', Option.getD_some]
  refine ⟨?_, by rw [is, same', same]⟩
  unfold setNames
  rw [buf, whole, Option.bind_some, whole', is]

theorem ataHandlePioData_front (begins : c.Begins) (sized : c.ataGetAtaDevice.storageSectorSize.toInt = c.pioBlockSize)
    (device : ch.ataGetAtaDevice = c.ataGetAtaDevice) (buf : ch.pioBuf = block ++ rest)
    (length : block.length = c.pioBlockSize) :
    ataHandlePioData ch c.write = .ok ({ ch with
      pioBuf := sectors c.ataGetAtaDevice.storage c.write block.length ch.lba.toNat 1 block ++ rest }, true) := by
  have positive := begins.positive
  have limit := c.ataGetAtaDevice.storageSectorSize.toInt_lt
  have high := ch.lba.toNat_lt
  have one := UInt32.toNat_one
  have natural : c.ataGetAtaDevice.storageSectorSize.toInt.toNat = block.length := by omega
  have handles := @storageHandleSectors_front κ c.ataGetAtaDevice.storage (block ++ rest)
    ⟨ch.lba, 1, c.ataGetAtaDevice.storageSectorSize, c.write⟩
    ⟨by dsimp only; omega, by dsimp only; rw [one]; omega, by dsimp only; rw [one]; decide, by dsimp only; omega⟩
    (by dsimp only; rw [length_append, one]; omega)
  dsimp only at handles
  rw [one, natural, Nat.one_mul, take_left, drop_left] at handles
  unfold ataHandlePioData
  rw [device, buf]
  simp only [handles]

theorem pioBufHandler_of {kind} : ch.pioBufHandler = kind → pioBufHandler ch hw write = match kind with
    | .pioIdentify => ataHandlePioIdentify ch
    | .pioIdentifyPacket => atapiHandlePioIdentifyPacket ch
    | .pioData => ataHandlePioData ch write
    | .pioPacket => .ok (atapiHandlePioPacket ch hw)
    | .configData => .ok (ch, true)
    | .atapiPioData => ataHandlePioData ch write := by
  rintro rfl
  rfl

theorem pioBufHandler_front (begins : c.Begins) (handler : ch.pioBufHandler = c.pioBufHandler)
    (reg : ch.deviceReg = c.deviceReg) (device : ch.device = c.device) (buf : ch.pioBuf = block ++ rest)
    (length : block.length = c.pioBlockSize) :
    ∃ device', pioBufHandler ch hw c.write =
        .ok ({ ch with pioBuf := c.transform ch.lba block ++ rest, device := device' }, true) ∧
      (c.write = true ∨ c.sectorCount ≠ 1 → device' = c.device) ∧
      (c.transform ch.lba block).length = block.length := by
  have selected : ch.ataGetAtaDevice = c.ataGetAtaDevice := by
    unfold Channel.ataGetAtaDevice Channel.dev
    rw [device, reg]
  have is := begins.handler
  have length' : (sectors c.ataGetAtaDevice.storage c.write block.length ch.lba.toNat 1 block).length =
      block.length := by
    unfold sectors
    rw [take_length, drop_length, sectors, append_nil, length_handled begins.keeps]
  have sectorsCase (sized : c.ataGetAtaDevice.storageSectorSize.toInt = c.pioBlockSize) :=
    ataHandlePioData_front begins sized selected buf length
  rw [pioBufHandler_of handler]
  unfold Channel.transform
  cases which : c.pioBufHandler with
  | pioData =>
    rw [which] at is
    exact ⟨ch.device, sectorsCase is, fun _ => device, length'⟩
  | atapiPioData =>
    rw [which] at is
    exact ⟨ch.device, sectorsCase is, fun _ => device, length'⟩
  | configData =>
    refine ⟨ch.device, ?_, fun _ => device, rfl⟩
    dsimp only
    rw [← buf]
  | pioIdentify =>
    rw [which] at is
    obtain ⟨names, same⟩ := @setNames_front κ ch block rest ataVirtualModel (by decide) buf (length.trans is.2.1)
    refine ⟨ch.device, ?_, fun _ => device, same⟩
    unfold ataHandlePioIdentify
    rw [names]
    rfl
  | pioIdentifyPacket =>
    rw [which] at is
    have whole := length.trans is.2.1
    have handled : ∃ device', atapiHandlePioIdentifyPacket ch = .ok
        ({ ch with pioBuf := named atapiVirtualModel block ++ rest, device := device' }, true) := by
      unfold atapiHandlePioIdentifyPacket
      dsimp only
      rw [(setNames_front (by decide) (by exact buf) whole).1]
      exact ⟨_, rfl⟩
    obtain ⟨device', handled⟩ := handled
    refine ⟨device', handled, ?_, (@setNames_front κ ch block rest atapiVirtualModel (by decide) buf whole).2⟩
    rintro (write | several)
    · rw [is.1] at write
      cases write
    · exact absurd is.2.2 several
  | pioPacket =>
    rw [which] at is
    exact is.elim

variable {k i size : Nat} {front bytes : List UInt8}

structure InPhase (c ch : Channel κ) (k : Nat) : Prop where
  write : ch.write = c.write
  handler : ch.pioBufHandler = c.pioBufHandler
  size : ch.pioBlockSize = c.pioBlockSize
  reg : ch.deviceReg = c.deviceReg
  length : ch.pioBuf.length = c.pioBuf.length
  behind : ch.pioBuf.drop c.pioBlockSize = c.pioBuf.drop c.pioBlockSize
  lba : ch.lba = c.lba + UInt64.ofNat k
  count : ch.sectorCount = c.sectorCount - UInt32.ofNat k
  device : c.write = true ∨ c.sectorCount ≠ 1 ∨ ch.state = .pioReady → ch.device = c.device

structure Between (c ch : Channel κ) (k : Nat) : Prop extends InPhase c ch k where
  state : ch.state = if k < c.sectorCount.toNat then .pioReady else .ready

structure Within (c ch : Channel κ) (k i : Nat) (front : List UInt8) : Prop extends InPhase c ch k where
  state : ch.state = .pioData
  index : ch.pioBufIndex = i
  front : ch.pioBuf.take (if c.write then i else c.pioBlockSize) = front

theorem Between.begin (size : Nat) (begins : c.Begins) (between : Between c ch k) (less : k < c.sectorCount.toNat)
    (whole : c.write = false → c.pioBlockSize % size = 0) (hw : Hardware) :
    ∃ ch' ops front, pioReady ch hw c.write size = .ok (ch', ops) ∧ Within c ch' k 0 front ∧
      (c.write = true → ops = [] ∧ front = []) ∧
      (c.write = false → ops = [.insn c.pioBlockSize] ∧
        front = c.transform (c.lba + UInt64.ofNat k) ((List.range c.pioBlockSize).map hw.data)) := by
  have inside := begins.inside
  have ready : ch.state = .pioReady := by rw [between.state, if_pos less]
  have device := between.device (.inr (.inr ready))
  unfold pioReady
  cases direction : c.write with
  | true =>
    refine ⟨_, _, [], rfl, ⟨⟨between.write, between.handler, between.size, between.reg, between.length,
      between.behind, between.lba, between.count, fun _ => device⟩, rfl, rfl, ?_⟩, fun _ => ⟨rfl, rfl⟩,
      fun read => (by cases read)⟩
    rw [direction]
    rfl
  | false =>
    have count : units size ch.pioBlockSize = c.pioBlockSize := by
      rw [between.size]
      exact Nat.div_mul_cancel (Nat.dvd_of_mod_eq_zero (whole direction))
    have length : ((List.range c.pioBlockSize).map hw.data).length = c.pioBlockSize := by
      rw [length_map, length_range]
    have fits : 0 + ((List.range c.pioBlockSize).map hw.data).length ≤ ch.pioBuf.length := by
      rw [length, between.length, Nat.zero_add]
      exact inside
    obtain ⟨device', handled, only', length'⟩ := @pioBufHandler_front κ c
      { ch with pioBuf := (List.range c.pioBlockSize).map hw.data ++ ch.pioBuf.drop c.pioBlockSize } hw
      ((List.range c.pioBlockSize).map hw.data) _ begins between.handler between.reg device rfl length
    rw [direction] at handled
    have laid : overwrite ch.pioBuf 0 ((List.range c.pioBlockSize).map hw.data) =
        some ((List.range c.pioBlockSize).map hw.data ++ ch.pioBuf.drop c.pioBlockSize) := by
      unfold overwrite
      rw [if_pos fits, take_zero, nil_append, length, Nat.zero_add]
    rw [if_neg Bool.false_ne_true]
    dsimp only
    rw [count, laid]
    dsimp only
    rw [handled]
    rw [length] at length'
    dsimp only at length'
    rw [between.lba] at length' ⊢
    refine ⟨_, _, _, rfl, ⟨⟨between.write, between.handler, between.size, between.reg, ?_, ?_, rfl,
      between.count, ?_⟩, rfl, rfl, rfl⟩, fun write => (by cases write), fun _ => ⟨rfl, ?_⟩⟩
    · dsimp only
      rw [length_append, length', length_drop, between.length]
      omega
    · dsimp only
      rw [drop_left' length']
      exact between.behind
    · rintro (write | several | impossible)
      · rw [direction] at write
        cases write
      · exact only' (.inr several)
      · cases impossible
    · rw [direction]
      rw [if_neg Bool.false_ne_true]
      exact take_left' length'

theorem InPhase.next (kept : InPhase c ch k) (less : k < c.sectorCount.toNat) :
    ch.sectorCount - 1 = c.sectorCount - UInt32.ofNat (k + 1) ∧
      ch.lba + 1 = c.lba + UInt64.ofNat (k + 1) ∧
      (ch.sectorCount - 1 > 0 ↔ k + 1 < c.sectorCount.toNat) := by
  have bound := c.sectorCount.toNat_lt
  have count : ch.sectorCount - 1 = c.sectorCount - UInt32.ofNat (k + 1) := by
    rw [kept.count]
    apply UInt32.toNat_inj.mp
    simp only [UInt32.toNat_sub, UInt32.toNat_ofNat', UInt32.reduceToNat]
    omega
  refine ⟨count, ?_, ?_⟩
  · rw [kept.lba]
    apply UInt64.toNat_inj.mp
    simp only [UInt64.toNat_add, UInt64.toNat_ofNat', UInt64.reduceToNat]
    omega
  · rw [count, gt_iff_lt, UInt32.lt_iff_toNat_lt, UInt32.toNat_sub, UInt32.toNat_ofNat']
    simp only [UInt32.reduceToNat]
    omega

theorem Within.access_read (begins : c.Begins) (within : Within c ch k i front) (read : c.write = false)
    (less : k < c.sectorCount.toNat) (stays : i + bytes.length ≤ c.pioBlockSize) (hw : Hardware) :
    ∃ ch', pioData ch hw c.write bytes = .ok ⟨ch', (front.drop i).take bytes.length, []⟩ ∧
      (i + bytes.length < c.pioBlockSize → Within c ch' k (i + bytes.length) front) ∧
      (i + bytes.length = c.pioBlockSize → Between c ch' (k + 1) ∧ ch'.pioBufIndex = 0) := by
  have inside := begins.inside
  have data : (ch.pioBuf.drop i).take bytes.length = (front.drop i).take bytes.length := by
    rw [← within.front, read, if_neg Bool.false_ne_true, drop_take, take_take, Nat.min_eq_left (by omega)]
  have device : (c.write = true ∨ c.sectorCount ≠ 1) → ch.device = c.device := by
    rintro (write | several)
    · exact within.device (.inl write)
    · exact within.device (.inr (.inl several))
  unfold pioData
  rw [if_neg (not_not.mpr within.write.symm), if_neg (by rw [within.index, within.length]; omega), read,
    within.index, within.size, data, if_neg Bool.false_ne_true]
  have kept := within.front
  rw [read, if_neg Bool.false_ne_true] at kept
  dsimp only
  by_cases ends : i + bytes.length < c.pioBlockSize
  · rw [if_neg (Nat.not_le.mpr ends)]
    exact ⟨_, rfl, fun _ => ⟨⟨within.write, within.handler, rfl, within.reg, within.length, within.behind,
      within.lba, within.count, within.device⟩, within.state, rfl, by rwa [read, if_neg Bool.false_ne_true]⟩,
      fun same => by omega⟩
  · rw [if_pos (Nat.not_lt.mp ends)]
    obtain ⟨count, lba, more⟩ := within.next less
    refine ⟨_, rfl, fun impossible => by omega, fun _ => ⟨⟨⟨within.write, within.handler, rfl, within.reg,
      within.length, within.behind, lba, count, ?_⟩, ?_⟩, rfl⟩⟩
    · rintro (write | several | ready)
      · exact device (.inl write)
      · exact device (.inr several)
      · apply device (.inr ?_)
        rintro one
        dsimp only at ready
        rw [if_neg] at ready
        · cases ready
        · rw [more, one]
          exact Nat.not_lt.mpr (Nat.succ_pos k)
    · exact if_congr more rfl rfl

theorem Within.access_write (begins : c.Begins) (within : Within c ch k i front) (write : c.write = true)
    (less : k < c.sectorCount.toNat) (stays : i + bytes.length ≤ c.pioBlockSize)
    (whole : i + bytes.length = c.pioBlockSize → c.pioBlockSize % bytes.length = 0) (hw : Hardware) :
    ∃ ch' data ops, pioData ch hw c.write bytes = .ok ⟨ch', data, ops⟩ ∧
      (i + bytes.length < c.pioBlockSize → ops = [] ∧ Within c ch' k (i + bytes.length) (front ++ bytes)) ∧
      (i + bytes.length = c.pioBlockSize → Between c ch' (k + 1) ∧ ch'.pioBufIndex = 0 ∧
        ops = [.outsn (c.transform (c.lba + UInt64.ofNat k) (front ++ bytes))]) := by
  have inside := begins.inside
  have device := within.device (.inl write)
  have before := within.front
  rw [write, if_pos rfl] at before
  have length : front.length = i := by
    rw [← before, length_take, within.length]
    omega
  have filled : ch.pioBuf.take i ++ bytes ++ ch.pioBuf.drop (i + bytes.length) =
      front ++ bytes ++ ch.pioBuf.drop (i + bytes.length) := by rw [before]
  have length' : (front ++ bytes).length = i + bytes.length := by rw [length_append, length]
  have behind : (front ++ bytes ++ ch.pioBuf.drop (i + bytes.length)).drop c.pioBlockSize =
      c.pioBuf.drop c.pioBlockSize := by
    rw [drop_append, drop_of_length_le (by omega), nil_append, drop_drop, length', Nat.add_sub_cancel' stays]
    exact within.behind
  have whole' : (front ++ bytes ++ ch.pioBuf.drop (i + bytes.length)).length = c.pioBuf.length := by
    rw [length_append, length', length_drop, within.length]
    omega
  unfold pioData
  rw [if_neg (not_not.mpr within.write.symm), if_neg (by rw [within.index, within.length]; omega),
    within.index, within.size, filled, write, if_pos (Eq.refl true)]
  dsimp only
  by_cases ends : i + bytes.length < c.pioBlockSize
  · rw [if_neg (Nat.not_le.mpr ends)]
    refine ⟨_, _, _, rfl, fun _ => ⟨rfl, ⟨⟨within.write, within.handler, rfl, within.reg, whole', behind,
      within.lba, within.count, fun _ => device⟩, within.state, rfl, ?_⟩⟩, fun same => by omega⟩
    rw [write, if_pos rfl]
    exact take_left' length'
  · have same : i + bytes.length = c.pioBlockSize := by omega
    rw [if_pos (Nat.not_lt.mp ends)]
    obtain ⟨count, lba, more⟩ := within.next less
    obtain ⟨device', handled, only', length''⟩ := @pioBufHandler_front κ c
      { ch with
        pioBuf := front ++ bytes ++ ch.pioBuf.drop (i + bytes.length)
        pioBufIndex := 0
        pioBlockSize := c.pioBlockSize
        sectorCount := ch.sectorCount - 1
        state := if ch.sectorCount - 1 > 0 then .pioReady else .ready } hw (front ++ bytes) _ begins
      within.handler within.reg device rfl (length'.trans same)
    rw [write] at handled
    dsimp only at handled length''
    have units' : units bytes.length c.pioBlockSize = c.pioBlockSize :=
      Nat.div_mul_cancel (Nat.dvd_of_mod_eq_zero (whole same))
    unfold pioBlockEnd
    dsimp only
    rw [if_pos (Eq.refl true), if_pos (Eq.refl true), handled]
    dsimp only
    refine ⟨_, _, _, rfl, fun impossible => by omega, fun _ => ⟨⟨⟨within.write, within.handler, rfl, within.reg,
      ?_, ?_, lba, count, fun _ => only' (.inl write)⟩, if_congr more rfl rfl⟩, rfl, ?_⟩⟩
    · dsimp only
      rw [length_append, length'', ← length_append]
      exact whole'
    · dsimp only
      rw [drop_left' (length''.trans (length'.trans same)), same]
      exact within.behind
    · dsimp only
      rw [if_pos rfl, units', take_left' (length''.trans (length'.trans same)), within.lba]

structure PioRun.At (c : Channel κ) (t : Nat) (r : PioRun κ) : Prop extends r.Moved c t where
  between : t % c.pioBlockSize = 0 → Between c r.channel (t / c.pioBlockSize) ∧ (0 < t → r.channel.pioBufIndex = 0)
  within : t % c.pioBlockSize ≠ 0 → ∃ front, Within c r.channel (t / c.pioBlockSize) (t % c.pioBlockSize) front ∧
    (c.write = false → ∃ init block, r.came = init ++ [block] ∧
      front = c.transform (c.lba + UInt64.ofNat (t / c.pioBlockSize)) block) ∧
    (c.write = true → front = r.given.drop (t / c.pioBlockSize * c.pioBlockSize))

theorem PioRun.At.exact (at' : r.At c t) : r.Exact c t := by
  by_cases start : t % c.pioBlockSize = 0
  · obtain ⟨between, index⟩ := at'.between start
    refine ⟨at'.toMoved, ?_, ?_, between.behind, between.lba⟩
    · rw [if_neg (not_not.mpr start)]
      exact between.state
    · rw [start]
      exact index
  · obtain ⟨front, within, -, -⟩ := at'.within start
    refine ⟨at'.toMoved, ?_, fun _ => within.index, within.behind, within.lba⟩
    rw [if_pos start]
    exact within.state

theorem length_transform (begins : c.Begins) (lba : UInt64) (length : block.length = c.pioBlockSize) :
    (c.transform lba block).length = c.pioBlockSize := by
  obtain ⟨-, -, -, same⟩ := @pioBufHandler_front κ c { c with lba := lba, pioBuf := block ++ [] }
    ⟨fun _ => 0, fun _ => 0, fun _ => 0, fun _ => 0, 0, 0, 0, 0, 0, 0, fun _ => 0, false, ⟨.data, .ready, false, 0, 0, 0⟩⟩
    block [] begins rfl rfl rfl rfl length
  exact same.trans length

theorem length_transformed (begins : c.Begins) {blocks : List (List UInt8)}
    (lengths : ∀ block ∈ blocks, block.length = c.pioBlockSize) :
    (c.transformed blocks).length = blocks.length * c.pioBlockSize := by
  induction blocks using List.reverseRecOn with
  | nil => simp [Channel.transformed]
  | append_singleton blocks block ih =>
    have last := length_transform begins (c.lba + UInt64.ofNat blocks.length)
      (lengths block (mem_append_right _ mem_cons_self))
    have before := ih fun other member => lengths other (mem_append_left _ member)
    unfold Channel.transformed at before ⊢
    rw [mapIdx_concat, flatten_append, length_append, before, flatten_singleton, last,
      length_append, length_singleton, Nat.succ_mul]

theorem transformed_concat (blocks : List (List UInt8)) (block : List UInt8) :
    c.transformed (blocks ++ [block]) =
      c.transformed blocks ++ c.transform (c.lba + UInt64.ofNat blocks.length) block := by
  unfold Channel.transformed
  rw [mapIdx_concat, flatten_append, flatten_singleton]

theorem place_add {b s : Nat} (positive : 0 < b) :
    (t % b + s = b → (t + s) / b = t / b + 1 ∧ (t + s) % b = 0) ∧
      (t % b + s < b → (t + s) / b = t / b ∧ (t + s) % b = t % b + s) := by
  have parts : t + s = b * (t / b) + (t % b + s) := by rw [← Nat.add_assoc, Nat.div_add_mod]
  constructor
  · intro ends
    rw [parts, ends, ← Nat.mul_succ]
    exact ⟨Nat.mul_div_cancel_left _ positive, Nat.mul_mod_right _ _⟩
  · intro more
    rw [parts, Nat.mul_add_div positive, Nat.mul_add_mod, Nat.div_eq_of_lt more, Nat.mod_eq_of_lt more]
    exact ⟨rfl, rfl⟩

theorem step_read (begins : c.Begins) (read : c.write = false) {ch : Channel κ} {init : List (List UInt8)}
    {data : List UInt8} (within : Within c ch (t / c.pioBlockSize) (t % c.pioBlockSize) front)
    (front' : front = c.transform (c.lba + UInt64.ofNat (t / c.pioBlockSize)) block)
    (lengths : ∀ other ∈ init ++ [block], other.length = c.pioBlockSize)
    (count : init.length = t / c.pioBlockSize) (data' : data = (c.transformed (init ++ [block])).take t)
    (less : t < c.sectorCount.toNat * c.pioBlockSize) (some' : 0 < bytes.length)
    (stays : t % c.pioBlockSize + bytes.length ≤ c.pioBlockSize) (hw : Hardware) :
    ∃ ch' reply, pioData ch hw c.write bytes = .ok ⟨ch', reply, []⟩ ∧ ∀ given went,
      PioRun.At c (t + bytes.length) ⟨ch', data ++ reply, given, init ++ [block], went⟩ := by
  have positive := begins.positive
  have index := (Nat.div_lt_iff_lt_mul positive).mpr less
  obtain ⟨ends, more⟩ := @place_add t c.pioBlockSize bytes.length positive
  obtain ⟨ch', moves, inside, done⟩ := within.access_read begins read index stays hw
  have place : (c.transformed init).length + t % c.pioBlockSize = t := by
    rw [length_transformed begins fun other member => lengths other (mem_append_left _ member), count,
      Nat.mul_comm, Nat.div_add_mod]
  have received : data ++ (front.drop (t % c.pioBlockSize)).take bytes.length =
      (c.transformed (init ++ [block])).take (t + bytes.length) := by
    have behind : (c.transformed (init ++ [block])).drop t = front.drop (t % c.pioBlockSize) := by
      rw [transformed_concat, count, ← front']
      conv_lhs => rw [← place]
      exact drop_length_add_append ..
    rw [take_add, behind, data']
  refine ⟨ch', _, moves, fun given went => ⟨⟨fun _ => ⟨lengths, ?_, received⟩, fun write => ?_⟩, ?_, ?_⟩⟩
  · rw [length_append, length_singleton, count]
    by_cases last : t % c.pioBlockSize + bytes.length = c.pioBlockSize
    · rw [(ends last).1, (ends last).2, if_pos rfl]
    · rw [(more (by omega)).1, (more (by omega)).2, if_neg (by omega)]
  · rw [read] at write
    cases write
  · intro boundary
    by_cases last : t % c.pioBlockSize + bytes.length = c.pioBlockSize
    · rw [(ends last).1]
      exact ⟨(done last).1, fun _ => (done last).2⟩
    · rw [(more (by omega)).2] at boundary
      omega
  · intro middle
    by_cases last : t % c.pioBlockSize + bytes.length = c.pioBlockSize
    · exact absurd (ends last).2 middle
    · rw [(more (by omega)).1, (more (by omega)).2]
      refine ⟨front, inside (by omega), fun _ => ⟨init, block, rfl, front'⟩, fun write => ?_⟩
      rw [read] at write
      cases write

theorem blocks_append {n : Nat} {given : List UInt8} (f : Nat → List UInt8 → List UInt8)
    (le : n * size ≤ given.length) :
    ((List.range n).map fun k => f k (((given ++ bytes).drop (k * size)).take size)) =
      (List.range n).map fun k => f k ((given.drop (k * size)).take size) := by
  apply map_congr_left
  intro k member
  have here : k * size + size ≤ given.length := by
    rw [← Nat.succ_mul]
    exact le_trans (Nat.mul_le_mul_right _ (mem_range.mp member)) le
  rw [drop_append_of_le_length (by omega), take_append_of_le_length (by rw [length_drop]; omega)]

theorem step_write (begins : c.Begins) (write : c.write = true) {ch : Channel κ} {given : List UInt8}
    {went : List (List UInt8)}
    (within : Within c ch (t / c.pioBlockSize) (t % c.pioBlockSize) (given.drop (t / c.pioBlockSize * c.pioBlockSize)))
    (length : given.length = t) (went' : went = (List.range (t / c.pioBlockSize)).map fun k =>
      c.transform (c.lba + UInt64.ofNat k) ((given.drop (k * c.pioBlockSize)).take c.pioBlockSize))
    (less : t < c.sectorCount.toNat * c.pioBlockSize) (some' : 0 < bytes.length)
    (stays : t % c.pioBlockSize + bytes.length ≤ c.pioBlockSize)
    (whole : t % c.pioBlockSize + bytes.length = c.pioBlockSize → c.pioBlockSize % bytes.length = 0) (hw : Hardware) :
    ∃ ch' reply ops, pioData ch hw c.write bytes = .ok ⟨ch', reply, ops⟩ ∧ ∀ data came,
      PioRun.At c (t + bytes.length) ⟨ch', data, given ++ bytes, came, went ++ ops.filterMap PortOp.outsn?⟩ := by
  have positive := begins.positive
  have index := (Nat.div_lt_iff_lt_mul positive).mpr less
  obtain ⟨ends, more⟩ := @place_add t c.pioBlockSize bytes.length positive
  obtain ⟨ch', reply, ops, moves, inside, done⟩ := within.access_write begins write index stays whole hw
  have start : t / c.pioBlockSize * c.pioBlockSize + t % c.pioBlockSize = t := Nat.div_add_mod' ..
  have front : (given ++ bytes).drop (t / c.pioBlockSize * c.pioBlockSize) =
      given.drop (t / c.pioBlockSize * c.pioBlockSize) ++ bytes := drop_append_of_le_length (by omega)
  have before := @blocks_append c.pioBlockSize bytes (t / c.pioBlockSize) given
    (fun k => c.transform (c.lba + UInt64.ofNat k)) (by omega)
  have read (impossible : c.write = false) : False := by
    rw [write] at impossible
    cases impossible
  refine ⟨ch', reply, ops, moves, fun data came => ?_⟩
  by_cases last : t % c.pioBlockSize + bytes.length = c.pioBlockSize
  · obtain ⟨between, zero, handed⟩ := done last
    obtain ⟨next, boundary⟩ := ends last
    refine ⟨⟨fun no => (read no).elim, fun _ => ⟨?_, ?_⟩⟩, fun _ => ?_, fun middle => absurd boundary middle⟩
    · rw [length_append, length]
    · have whole' : (given ++ bytes).drop (t / c.pioBlockSize * c.pioBlockSize) =
          ((given ++ bytes).drop (t / c.pioBlockSize * c.pioBlockSize)).take c.pioBlockSize := by
        rw [take_of_length_le]
        rw [length_drop, length_append, length]
        omega
      rw [next, range_succ, map_append, before, ← went', handed, ← front, whole']
      rfl
    · rw [next]
      exact ⟨between, fun _ => zero⟩
  · obtain ⟨none', within'⟩ := inside (by omega)
    obtain ⟨same, place⟩ := more (by omega)
    refine ⟨⟨fun no => (read no).elim, fun _ => ⟨?_, ?_⟩⟩, fun boundary => ?_, fun _ => ?_⟩
    · rw [length_append, length]
    · rw [same, before, none', went']
      exact append_nil _
    · rw [place] at boundary
      omega
    · rw [same, place]
      exact ⟨_, within', fun no => (read no).elim, fun _ => front.symm⟩

def PioRun.GoesOn (r : PioRun κ) (a : PortAccess) (ch : Channel κ) (ops : List PortOp) : Prop :=
  ∀ reply, pioData ch a.hw r.channel.write a.bytes = .ok reply → r.access a = .ok {
    channel := reply.channel
    data := r.data ++ if r.channel.write then [] else reply.data
    given := r.given ++ if r.channel.write then a.bytes else []
    came := r.came ++ (ops ++ reply.ops).filterMap (PortOp.insn? a.hw)
    went := r.went ++ (ops ++ reply.ops).filterMap PortOp.outsn? }

variable {a : PortAccess}

theorem goesOn_begin {ch : Channel κ} {ops : List PortOp} (state : r.channel.state = .pioReady)
    (begins : pioReady r.channel a.hw r.channel.write a.bytes.length = .ok (ch, ops)) : r.GoesOn a ch ops := by
  intro reply moves
  unfold PioRun.access ataHandleData
  rw [state]
  simp only [begins, moves]
  rfl

theorem goesOn_within (state : r.channel.state = .pioData) : r.GoesOn a r.channel [] := by
  intro reply moves
  unfold PioRun.access ataHandleData
  rw [state]
  simp only [moves]
  rfl

theorem PioRun.At.enter (at' : r.At c t) (begins : c.Begins) (less : t < c.sectorCount.toNat * c.pioBlockSize)
    (whole : c.write = false → t % c.pioBlockSize = 0 → c.pioBlockSize % a.bytes.length = 0) :
    r.channel.write = c.write ∧ ∃ ch ops front, r.GoesOn a ch ops ∧
      Within c ch (t / c.pioBlockSize) (t % c.pioBlockSize) front ∧
      (c.write = true → ops = [] ∧ front = r.given.drop (t / c.pioBlockSize * c.pioBlockSize)) ∧
      (c.write = false → ∃ init block, r.came ++ ops.filterMap (PortOp.insn? a.hw) = init ++ [block] ∧
        front = c.transform (c.lba + UInt64.ofNat (t / c.pioBlockSize)) block ∧
        (∀ other ∈ init ++ [block], other.length = c.pioBlockSize) ∧ init.length = t / c.pioBlockSize ∧
        r.data = (c.transformed (init ++ [block])).take t) := by
  have index := (Nat.div_lt_iff_lt_mul begins.positive).mpr less
  have exact' := Nat.div_add_mod' t c.pioBlockSize
  by_cases start : t % c.pioBlockSize = 0
  · obtain ⟨between, -⟩ := at'.between start
    have ready : r.channel.state = .pioReady := by rw [between.state, if_pos index]
    obtain ⟨ch, ops, front, beginning, within, isWrite, isRead⟩ :=
      between.begin a.bytes.length begins index (fun read => whole read start) a.hw
    rw [← between.write] at beginning
    rw [← start] at within
    refine ⟨between.write, ch, ops, front, goesOn_begin ready beginning, within, fun write => ?_, fun read => ?_⟩
    · obtain ⟨none', first⟩ := isWrite write
      exact ⟨none', by rw [first, drop_of_length_le (by have := (at'.sent write).1; omega)]⟩
    · obtain ⟨rfl, front'⟩ := isRead read
      obtain ⟨lengths, count, data⟩ := at'.received read
      rw [if_pos start, Nat.add_zero] at count
      have all : (c.transformed r.came).length = t := by
        rw [length_transformed begins lengths, count]
        omega
      refine ⟨r.came, _, rfl, front', fun other member => ?_, count, ?_⟩
      · rcases mem_append.mp member with before | last
        · exact lengths other before
        · rw [mem_singleton.mp last, length_map, length_range]
      · rw [transformed_concat, take_append_of_le_length all.ge]
        exact data
  · obtain ⟨front, within, isRead, isWrite⟩ := at'.within start
    refine ⟨within.write, r.channel, [], front, goesOn_within within.state, within,
      fun write => ⟨rfl, isWrite write⟩, fun read => ?_⟩
    obtain ⟨init, block, came, front'⟩ := isRead read
    obtain ⟨lengths, count, data⟩ := at'.received read
    rw [came] at lengths data
    rw [came, if_neg start, length_append, length_singleton] at count
    exact ⟨init, block, by rw [filterMap_nil, append_nil, came], front', lengths, Nat.succ.inj count, data⟩

theorem PioRun.At.step (at' : r.At c t) (begins : c.Begins) (less : t < c.sectorCount.toNat * c.pioBlockSize)
    (some' : 0 < a.bytes.length) (stays : t % c.pioBlockSize + a.bytes.length ≤ c.pioBlockSize)
    (whole : (if c.write then t % c.pioBlockSize + a.bytes.length = c.pioBlockSize else t % c.pioBlockSize = 0) →
      c.pioBlockSize % a.bytes.length = 0) : ∃ r', r.access a = .ok r' ∧ r'.At c (t + a.bytes.length) := by
  obtain ⟨same, ch, ops, front, goesOn, within, isWrite, isRead⟩ := at'.enter (a := a) begins less
    fun read start => whole (by rwa [read, if_neg Bool.false_ne_true])
  unfold PioRun.GoesOn at goesOn
  rw [same] at goesOn
  cases direction : c.write with
  | true =>
    rw [direction, if_pos rfl] at whole
    obtain ⟨rfl, rfl⟩ := isWrite direction
    obtain ⟨length, went⟩ := at'.sent direction
    obtain ⟨ch', reply, ops, moves, at''⟩ := step_write begins direction within length went less some' stays whole a.hw
    refine ⟨_, goesOn _ moves, ?_⟩
    rw [direction, if_pos rfl, if_pos rfl]
    exact at'' _ _
  | false =>
    obtain ⟨init, block, came, front', lengths, count, data⟩ := isRead direction
    obtain ⟨ch', reply, moves, at''⟩ := step_read begins direction within front' lengths count data less some' stays a.hw
    refine ⟨_, goesOn _ moves, ?_⟩
    rw [direction, if_neg Bool.false_ne_true, append_nil, came]
    exact at'' _ _

theorem PioRun.At.run (begins : c.Begins) {accesses : List PortAccess} :
    ∀ {r : PioRun κ} {t : Nat}, r.At c t → Cuts c.write c.pioBlockSize c.sectorCount.toNat t accesses →
      ∃ r', accesses.foldlM PioRun.access r = .ok r' ∧
        r'.At c (t + (accesses.map fun a => a.bytes.length).sum) := by
  induction accesses with
  | nil => exact fun at' _ => ⟨_, rfl, at'⟩
  | cons a rest ih =>
    rintro r t at' ⟨less, some', stays, whole, cuts⟩
    obtain ⟨r', access, at''⟩ := at'.step begins less some' stays whole
    obtain ⟨final, run, ends⟩ := ih at'' cuts
    refine ⟨final, ?_, ?_⟩
    · rw [foldlM_cons, access]
      exact run
    · rw [map_cons, sum_cons, ← Nat.add_assoc]
      exact ends

theorem at_begin (begins : c.Begins) : PioRun.At c 0 ⟨c, [], [], [], []⟩ := by
  have zero : c.transformed [] = [] := rfl
  refine ⟨⟨fun _ => ⟨fun _ member => (not_mem_nil member).elim, ?_, ?_⟩, fun _ => ⟨rfl, ?_⟩⟩, fun _ => ?_,
    fun middle => absurd (Nat.zero_mod _) middle⟩
  · rw [Nat.zero_div, Nat.zero_mod, if_pos rfl]
    rfl
  · rw [zero]
    rfl
  · rw [Nat.zero_div]
    rfl
  · rw [Nat.zero_div]
    refine ⟨⟨⟨rfl, rfl, rfl, rfl, rfl, rfl, (UInt64.add_zero _).symm, (UInt32.sub_zero _).symm, fun _ => rfl⟩, ?_⟩,
      fun impossible => (Nat.lt_irrefl 0 impossible).elim⟩
    rw [if_pos begins.some']
    exact begins.state

def idleChannel : Channel Unit where
  features := fun _ => 0
  deviceReg := 0
  write := false
  lba := 0
  sectorCount := 0
  pioBufIndex := 0
  pioBlockSize := 0
  pioBuf := List.replicate pageSize 0
  pioBufHandler := .pioIdentify
  statusHandler := none
  guestPrdPhys := 0
  shadowPrd := []
  shadowBuf := []
  state := .ready
  device := fun _ => ⟨[], none, 2048, fun _ => ⟨false, 0, 0, .ready⟩, 0, 0, 12⟩
  dataLength := 0
  atapiFlag := false
  dmaState := .ready

def drive : Hardware :=
  ⟨fun _ => 0, fun _ => 0, fun _ => 0, fun _ => 0, 0, 0, 0, 0, 2, 0, fun _ => 7, false, ⟨.data, .ready, false, 0, 0, 0⟩⟩

def capacityPhase : Channel Unit :=
  { idleChannel with state := .pioReady, pioBlockSize := 12, sectorCount := 1, pioBufHandler := .configData }

def capacityRun : Except Stop (PioRun Unit) := do
  let (channel, _) ← ataHandleCommand idleChannel drive 0xA0
  [⟨drive, [0x5C, 0, 0, 0]⟩, ⟨drive, [0, 0, 0, 0]⟩, ⟨drive, [0, 0, 0, 0]⟩, ⟨drive, [0, 0, 0, 0]⟩].foldlM
    PioRun.access ⟨channel, [], [], [], []⟩

end DisasVisor.Ata
