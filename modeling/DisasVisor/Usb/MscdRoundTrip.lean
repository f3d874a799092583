import DisasVisor.Storage.Disk
import DisasVisor.Usb.MscdFilter

/-!
What the guest wrote is what it reads: the filter and the device go through the sectors of a command in step.
-/

namespace DisasVisor.Usb.Msc

open Function DisasVisor.Storage Transitions List

variable {κ : Type} {units : Units κ}

structure Follows (units : Units κ) (dev : MscDevice κ) (p : Pending) : Prop where
  lun : dev.lun = p.lun
  write : isWrite (dev.unit dev.lun).command = p.write
  read : isRead (dev.unit dev.lun).command = !p.write
  lba : (dev.unit dev.lun).lba = UInt32.ofNat p.lba
  left : (dev.unit dev.lun).nBlocks.toNat = p.left
  length : (dev.unit dev.lun).length.toNat = p.left * units.bytes p.lun
  fits : p.lba + p.left ≤ 2 ^ 32

structure Synced (units : Units κ) (w : World κ) : Prop where
  ready : Ready units w.dev
  length : ∀ lun x, (w.disk lun x).length = units.bytes lun
  stored : ∀ lun x plain, w.written lun x = some plain →
    plain.length = units.bytes lun ∧ w.disk lun x = encrypted units lun x plain
  pending : ∀ p, w.pending = some p → Follows units w.dev p

theorem Units.bytes_pos (units : Units κ) (lun : Fin 16) : 0 < units.bytes lun := by
  have positive := units.positive lun
  rw [Units.bytes]
  omega

variable {p : Pending} {count : ℕ} {f : ℕ → List UInt8} {w : World κ} {urb : Urb}

theorem Follows.tentative {dev : MscDevice κ} (follows : Follows units dev p) (ready : Ready units dev)
    (left : 0 < p.left) : tentativeSectorSize (dev.unit dev.lun) = some (units.size p.lun) := by
  have positive := units.positive p.lun
  rw [tentativeSectorSize]
  rcases ready.size dev.lun with unknown | known
  · have blocks : (dev.unit dev.lun).nBlocks ≠ 0 := by
      intro zero
      have none := follows.left
      rw [zero] at none
      exact Nat.ne_of_gt left none.symm
    have size := (units.size p.lun).toInt_lt
    have bytes : ((units.bytes p.lun : ℕ) : Int) = (units.size p.lun).toInt := Int.toNat_of_nonneg (by omega)
    have quotient : ((dev.unit dev.lun).length / (dev.unit dev.lun).nBlocks.toUInt64).toNat = units.bytes p.lun := by
      rw [UInt64.toNat_div, UInt32.toNat_toUInt64, follows.length, follows.left, Nat.mul_comm,
        Nat.mul_div_cancel _ left]
    have narrow : ((dev.unit dev.lun).length / (dev.unit dev.lun).nBlocks.toUInt64).toUInt32.toNat =
        units.bytes p.lun := by
      rw [UInt64.toNat_toUInt32, quotient, Nat.mod_eq_of_lt (by omega)]
    rw [if_neg (by simp [unknown]), if_neg blocks]
    congr 1
    apply Int32.toInt_inj.mp
    rw [Integers.toInt_toInt32 (by omega), narrow, bytes]
  · have nonzero : (dev.unit dev.lun).storageSectorSize ≠ 0 := by
      rw [known]
      intro zero
      rw [follows.lun] at zero
      rw [zero] at positive
      exact absurd positive (by decide)
    rw [if_pos nonzero, known, follows.lun]

theorem advance_eq (unit : MscUnit κ) (positive : 0 < unit.storageSectorSize.toInt)
    (small : count * unit.storageSectorSize.toInt.toNat < 2 ^ 31) (within : count ≤ unit.nBlocks.toNat)
    (length : count * unit.storageSectorSize.toInt.toNat ≤ unit.length.toNat) :
    (unit.advance count).lba = unit.lba + UInt32.ofNat count ∧
      (unit.advance count).nBlocks.toNat = unit.nBlocks.toNat - count ∧
      (unit.advance count).length.toNat = unit.length.toNat - count * unit.storageSectorSize.toInt.toNat := by
  have product := toNat_product positive small
  have blocks : count ≤ count * unit.storageSectorSize.toInt.toNat := Nat.le_mul_of_pos_right count (by omega)
  have same : (UInt32.ofNat count).toNat = count := by rw [UInt32.toNat_ofNat', Nat.mod_eq_of_lt (by omega)]
  have notLess : ¬ unit.nBlocks < UInt32.ofNat count := by
    rw [UInt32.lt_iff_toNat_lt, same]
    omega
  rw [MscUnit.advance, if_neg notLess]
  refine ⟨rfl, ?_, ?_⟩
  · rw [UInt32.toNat_sub_of_le _ _ (UInt32.le_iff_toNat_le.mpr (by omega)), same]
  · rw [UInt64.toNat_sub_of_le _ _ (UInt64.le_iff_toNat_le.mpr (by omega)), product]

theorem follows_advance {dev : MscDevice κ} (follows : Follows units dev p) (ready : Ready units dev)
    (within : count ≤ p.left) (small : count * units.bytes p.lun < 2 ^ 31) :
    let unit := { dev.unit dev.lun with storageSectorSize := units.size p.lun }
    Follows units (dev.setUnit dev.lun (unit.advance count)) (p.advance count) ∧
      Ready units (dev.setUnit dev.lun (unit.advance count)) := by
  intro unit
  have bound : count * units.bytes p.lun ≤ p.left * units.bytes p.lun := Nat.mul_le_mul_right _ within
  have length := follows.length
  have left := follows.left
  obtain ⟨lba, blocks, bytes⟩ := advance_eq unit (units.positive p.lun) small (by dsimp only [unit]; omega)
    (by change count * units.bytes p.lun ≤ _; dsimp only [unit]; omega)
  refine ⟨⟨follows.lun, ?_, ?_, ?_, ?_, ?_, ?_⟩, ⟨fun lun => ?_, fun lun => ?_, ?_⟩⟩
  · rw [setUnit_lun, setUnit_self]
    exact follows.write
  · rw [setUnit_lun, setUnit_self]
    exact follows.read
  · rw [setUnit_lun, setUnit_self, lba]
    dsimp only [unit]
    rw [follows.lba, Pending.advance, UInt32.ofNat_add]
  · rw [setUnit_lun, setUnit_self, blocks]
    dsimp only [unit, Pending.advance]
    rw [left]
  · rw [setUnit_lun, setUnit_self, bytes]
    change (dev.unit dev.lun).length.toNat - count * units.bytes p.lun = (p.left - count) * units.bytes p.lun
    rw [length, Nat.sub_mul]
  · have fits := follows.fits
    dsimp only [Pending.advance]
    omega
  · rw [setUnit_unit]
    split
    · rename_i same
      rw [same]
      exact ready.storage dev.lun
    · exact ready.storage lun
  · rw [setUnit_unit]
    split
    · rename_i same
      rw [same, follows.lun]
      exact .inr rfl
    · exact ready.size lun
  · rw [setUnit_lun, setUnit_self]
    exact ready.insecure

theorem scatter_forms (list : List Buffer) : ∀ bytes : List UInt8, bytes.length = (content list).length →
    (scatter bytes list).map Buffer.form = list.map Buffer.form ∧ content (scatter bytes list) = bytes := by
  induction list with
  | nil =>
    intro bytes none
    exact ⟨rfl, (length_eq_zero_iff.mp none).symm⟩
  | cons ub list ih =>
    intro bytes length
    rw [length_content_cons] at length
    obtain ⟨forms, whole⟩ := ih (bytes.drop ub.len) (by rw [length_drop]; omega)
    have part : (bytes.take ub.len).length = ub.len := by
      rw [length_take]
      omega
    rw [scatter, map_cons, map_cons, forms, content_cons, whole]
    refine ⟨?_, take_append_drop _ _⟩
    simp only [Buffer.form, Buffer.len] at part ⊢
    rw [part]

theorem Paired.of_forms {pid : UInt8} {dest src other : List Buffer} (paired : Paired pid dest src)
    (forms : other.map Buffer.form = src.map Buffer.form) : Paired pid dest other := by
  have among : ∀ ub ∈ other, ∃ same ∈ src, same.form = ub.form := by
    intro ub member
    have listed := mem_map_of_mem (f := Buffer.form) member
    rw [forms] at listed
    exact mem_map.mp listed
  have lengths : other.map Buffer.len = src.map Buffer.len := by
    have parts := congrArg (List.map fun form => form.2.2) forms
    rwa [map_map, map_map] at parts
  refine ⟨paired.lengths.trans lengths.symm, ?_, fun ub member => ?_, fun ub member => ?_⟩
  · refine paired.kinds.imp (fun both => ⟨both.1, fun ub member => ?_⟩) fun both => ⟨both.1, fun ub member => ?_⟩
    · obtain ⟨same, listed, form⟩ := among ub member
      exact (congrArg (fun form => form.2.1) form).symm.trans (both.2 same listed)
    · obtain ⟨same, listed, form⟩ := among ub member
      exact (congrArg (fun form => form.2.1) form).symm.trans (both.2 same listed)
  · obtain ⟨same, listed, form⟩ := among ub member
    have length : same.len = ub.len := congrArg (fun form => form.2.2) form
    rw [← length]
    exact paired.filled same listed
  · obtain ⟨same, listed, form⟩ := among ub member
    exact (congrArg Prod.fst form).symm.trans (paired.pids same listed)

theorem length_fetch {size : ℕ} (length : ∀ x, (f x).length = size) (lba count : ℕ) :
    (fetch f lba count).length = count * size := by
  simp [fetch, length_flatMap, length]

theorem sector_fetch {size : ℕ} (length : ∀ x, (f x).length = size) (i lba count : ℕ) (less : i < count) :
    sector size i (fetch f lba count) = f (lba + i) :=
  Storage.sector_fetch length i lba count less

theorem coded_cases {command : UInt8} (coded : isWrite command = true ∨ isRead command = true) :
    command = 0x28 ∨ command = 0x2A ∨ command = 0xA8 ∨ command = 0xAA := by
  simp only [isWrite, isRead, Bool.or_eq_true, decide_eq_true_eq] at coded
  rcases coded with (ten | twelve) | (ten | twelve)
  · exact .inr (.inl ten)
  · exact .inr (.inr (.inr twelve))
  · exact .inl ten
  · exact .inr (.inr (.inl twelve))

theorem cbwUnit_coded {cbw : List UInt8} (unit : MscUnit κ)
    (coded : isWrite (opcode cbw) = true ∨ isRead (opcode cbw) = true) :
    (cbwUnit unit cbw).lba = UInt32.ofNat (firstBlock cbw) ∧ (cbwUnit unit cbw).nBlocks.toNat = blocks cbw ∧
      (cbwUnit unit cbw).length.toNat = (le32 cbw 8).toNat ∧
      (cbwUnit unit cbw).storageSectorSize = unit.storageSectorSize ∧
      isRead (opcode cbw) = !isWrite (opcode cbw) ∧ isSecurity (opcode cbw) = false := by
  have first : be32 cbw (cbwcb 2) = UInt32.ofNat (firstBlock cbw) := UInt32.ofNat_toNat.symm
  have length : (le32 cbw 8).toUInt64.toNat = (le32 cbw 8).toNat := UInt32.toNat_toUInt64 _
  have cases := coded_cases coded
  rw [opcode] at cases
  rcases cases with same | same | same | same <;>
    simp [cbwUnit, blocks, opcode, same, first, length, isRead, isWrite, isSecurity]

theorem wrapper_follows {dev : MscDevice κ} {cbw : List UInt8} (ready : Ready units dev)
    (valid : named cbw ≤ dev.lunMax) (coded : isWrite (opcode cbw) = true ∨ isRead (opcode cbw) = true)
    (length : (le32 cbw 8).toNat = blocks cbw * units.bytes (named cbw))
    (fits : firstBlock cbw + blocks cbw ≤ 2 ^ 32) :
    Follows units (usbmscCbwParser dev cbw) (deviceCommand cbw) ∧ Ready units (usbmscCbwParser dev cbw) := by
  have lun : (usbmscCbwParser dev cbw).lun = named cbw := cbwLun_named valid
  have unit : (usbmscCbwParser dev cbw).unit (named cbw) = cbwUnit (dev.unit (named cbw)) cbw := by
    rw [usbmscCbwParser_unit, if_pos (cbwLun_named valid).symm]
  obtain ⟨command, -⟩ := cbwUnit_command (dev.unit (named cbw)) cbw
  obtain ⟨lba, count, bytes, size, read, insecure⟩ := cbwUnit_coded (dev.unit (named cbw)) coded
  refine ⟨⟨lun, ?_, ?_, ?_, ?_, ?_, fits⟩, ⟨fun other => ?_, fun other => ?_, ?_⟩⟩
  · rw [lun, unit, command]
    rfl
  · rw [lun, unit, command]
    exact read
  · rw [lun, unit]
    exact lba
  · rw [lun, unit]
    exact count
  · rw [lun, unit, bytes]
    exact length
  · rw [usbmscCbwParser_unit]
    split
    · rw [(cbwUnit_command _ _).2]
      exact ready.storage other
    · exact ready.storage other
  · rw [usbmscCbwParser_unit]
    split
    · rename_i same
      rw [same, cbwLun_named valid, size]
      exact ready.size (named cbw)
    · exact ready.size other
  · rw [lun, unit, command]
    exact insecure

theorem exec_wrapper (synced : Synced units w) (wellFormed : WellFormed units w (.wrapper urb)) :
    ∃ r, exec units w (.wrapper urb) = some r ∧ Synced units r.world ∧ Exact units w (.wrapper urb) r := by
  obtain ⟨wrapper, orderly, coded, length, fits⟩ := wellFormed
  obtain ⟨hub, unchanged, hooked⟩ := usbmscShadowOutbuf_wrapper wrapper orderly
  obtain ⟨follows, ready⟩ := wrapper_follows synced.ready orderly.2.1 coded length fits
  have insecure : isSecurity ((usbmscCbwParser w.dev (content urb.guest)).unit w.dev.lun).command = false := by
    rw [usbmscCbwParser_unit]
    split
    · rw [(cbwUnit_command _ _).1]
      exact (cbwUnit_coded (w.dev.unit w.dev.lun) coded).2.2.2.2.2
    · exact synced.ready.insecure
  rw [insecure, if_neg Bool.false_ne_true] at hooked
  refine ⟨_, by rw [exec, hooked]; rfl, ⟨ready, synced.length, synced.stored, ?_⟩, ⟨?_, ?_, by simp⟩⟩
  · rintro p same
    cases same
    rw [unchanged]
    exact follows
  · exact fun lun x plain written => (synced.stored lun x plain written).2
  · intro other p same
    cases same

theorem store_sectors {lun : Fin 16} {lba : ℕ} {plain coded : List UInt8}
    (whole : plain.length = count * units.bytes lun)
    (encoded : coded = sectors (units.storage lun) true (units.bytes lun) lba count plain) (x : ℕ)
    (inside : lba ≤ x ∧ x < lba + count) :
    store f (units.bytes lun) lba coded x = encrypted units lun x (sector (units.bytes lun) (x - lba) plain) := by
  have length : coded.length = plain.length := by
    rw [encoded]
    exact length_sectors (units.keeps lun) whole
  have blocks : coded.length / units.bytes lun = count := by
    rw [length, whole, Nat.mul_div_cancel _ (units.bytes_pos lun)]
  rw [store, blocks, if_pos inside, encoded, sector_sectors (units.keeps lun) whole (by omega), encrypted,
    show lba + (x - lba) = x by omega]

theorem length_sector {size i : ℕ} {bytes : List UInt8} (whole : bytes.length = count * size) (less : i < count) :
    (sector size i bytes).length = size := by
  have bound : (i + 1) * size ≤ count * size := Nat.mul_le_mul_right size less
  rw [Nat.succ_mul] at bound
  rw [sector, length_take, length_drop]
  omega

theorem Filled.content_pos {list : List Buffer} (filled : Filled list) (nonempty : list ≠ []) :
    0 < (content list).length := by
  cases list with
  | nil => exact absurd rfl nonempty
  | cons ub list =>
    have first := filled ub mem_cons_self
    rw [length_content_cons]
    omega

theorem Follows.nothing {dev : MscDevice κ} (follows : Follows units dev p) : Follows units dev (p.advance 0) := follows

theorem Follows.first {dev : MscDevice κ} (follows : Follows units dev p) (left : 0 < p.left) :
    (dev.unit dev.lun).lba.toNat = p.lba := by
  have fits := follows.fits
  rw [follows.lba, UInt32.toNat_ofNat', Nat.mod_eq_of_lt (by omega)]

theorem Follows.coded {dev : MscDevice κ} {pid : UInt8} {dest src : List Buffer} (follows : Follows units dev p)
    (length : ℕ) (ready : Ready units dev) (write : Bool) (paired : Paired pid dest src) (nonempty : src ≠ [])
    (whole : (content src).length = count * units.bytes p.lun) (within : count ≤ p.left)
    (small : (content src).length < 2 ^ 31) (enough : (content src).length ≤ length) :
    ∃ done ops, usbmscCodeBuffers dev dest src pid length write =
        some (dev.setUnit dev.lun { dev.unit dev.lun with storageSectorSize := units.size p.lun }, ⟨done, count, ops⟩) ∧
      content done = sectors (units.storage p.lun) write (units.bytes p.lun) p.lba count (content src) ∧
      Passes 0 ops := by
  have left : 0 < p.left := by
    have positive := paired.filled.content_pos nonempty
    rcases Nat.eq_zero_or_pos count with zero | positive'
    · rw [zero, Nat.zero_mul] at whole
      omega
    · omega
  have keeps : KeepsLength (dev.unit dev.lun).storage := by
    rw [ready.storage]
    exact units.keeps _
  rw [whole] at small enough
  obtain ⟨done, ops, coded, bytes, -, passes⟩ := usbmscCodeBuffers_eq write keeps (follows.tentative ready left)
    (units.positive p.lun) paired whole enough small
  rw [ready.storage, follows.first left, follows.lun] at bytes
  exact ⟨done, ops, coded, bytes, passes⟩

theorem filter_dataOut {dev : MscDevice κ} (follows : Follows units dev p) (ready : Ready units dev)
    (write : p.write = true) (sized : WholeSectors units p pidOut urb) (filled : Filled urb.guest)
    (data : ∀ ub ∈ urb.guest.head?, takenForCbw ub = false) :
    ∃ after hub ops, usbmscShadowOutbuf dev urb.guest urb.host = some ⟨after, some hub, ops⟩ ∧
      content hub = sectors (units.storage p.lun) true (units.bytes p.lun) p.lba
        ((content urb.guest).length / units.bytes p.lun) (content urb.guest) ∧
      Follows units after (p.advance ((content urb.guest).length / units.bytes p.lun)) ∧ Ready units after ∧
      Passes 0 ops := by
  have paired : Paired pidOut urb.host urb.guest := Urb.paired_write ⟨filled, sized.pids⟩
  have whole := (Nat.div_mul_cancel (Nat.dvd_of_mod_eq_zero sized.whole)).symm
  by_cases empty : urb.guest = []
  · have hostEmpty : urb.host = [] := by
      have lengths := urb.lengths
      rw [empty] at lengths
      exact map_eq_nil_iff.mp lengths
    rw [empty, hostEmpty]
    refine ⟨dev, [], [], rfl, ?_, ?_, ready, Passes.nil 0⟩
    · rw [content_nil, length_nil, Nat.zero_div, sectors]
    · rw [content_nil, length_nil, Nat.zero_div]
      exact follows.nothing
  · rw [usbmscShadowOutbuf_data data empty]
    have small := sized.small
    rw [whole] at small
    have bound : (content urb.guest).length ≤ (dev.unit dev.lun).length.toNat := by
      rw [follows.length, whole]
      exact Nat.mul_le_mul_right _ sized.within
    obtain ⟨done, ops, coded, bytes, passes⟩ := follows.coded _ ready true paired empty whole sized.within sized.small bound
    obtain ⟨next, still⟩ := follows_advance follows ready sized.within small
    have command : isWrite (dev.unit dev.lun).command = true := follows.write.trans write
    have same : ∀ first second : MscUnit κ,
        (dev.setUnit dev.lun first).setUnit dev.lun second = dev.setUnit dev.lun second := by
      intro first second
      simp [MscDevice.setUnit]
    refine ⟨_, done, ops, ?_, bytes, next, still, passes⟩
    rw [shadowData]
    dsimp only
    rw [if_pos command, coded, Option.bind_eq_bind, Option.bind_some]
    dsimp only
    rw [setUnit_self, same]

theorem isRead_other {command : UInt8} (read : isRead command = true) :
    passThroughIn command = false ∧ command ≠ 0x25 := by
  simp only [isRead, Bool.or_eq_true, decide_eq_true_eq] at read
  rcases read with rfl | rfl <;> decide

theorem filter_dataIn {dev : MscDevice κ} {bytes : List UInt8} (follows : Follows units dev p)
    (ready : Ready units dev) (read : p.write = false) (sized : WholeSectors units p pidIn urb)
    (filled : Filled urb.guest) (length : bytes.length = (content urb.guest).length)
    (data : ∀ ub ∈ (scatter bytes urb.host).head?, ¬ (ub.bytes.take 4 = cswSignature ∧ (content urb.host).length = 13)) :
    ∃ after gub ops, usbmscCopybackShadow dev urb.guest (content urb.host).length (scatter bytes urb.host) =
        some ⟨after, some gub, ops⟩ ∧
      content gub = sectors (units.storage p.lun) false (units.bytes p.lun) p.lba
        ((content urb.guest).length / units.bytes p.lun) bytes ∧
      Follows units after (p.advance ((content urb.guest).length / units.bytes p.lun)) ∧ Ready units after ∧
      Passes 0 ops := by
  obtain ⟨forms, held⟩ := scatter_forms urb.host bytes (length.trans urb.length_eq.symm)
  have paired : Paired pidIn urb.guest (scatter bytes urb.host) := (Urb.paired_read ⟨filled, sized.pids⟩).of_forms forms
  have whole := (Nat.div_mul_cancel (Nat.dvd_of_mod_eq_zero sized.whole)).symm
  have small := sized.small
  rw [urb.length_eq] at data ⊢
  revert paired data held
  generalize scatter bytes urb.host = hub
  intro data held paired
  cases hub with
  | nil =>
    have guestEmpty : urb.guest = [] := map_eq_nil_iff.mp paired.lengths
    rw [guestEmpty] at length ⊢
    have none : bytes = [] := length_eq_zero_iff.mp length
    refine ⟨dev, [], [], rfl, ?_, ?_, ready, Passes.nil 0⟩
    · rw [content_nil, length_nil, Nat.zero_div, sectors, none]
    · rw [content_nil, length_nil, Nat.zero_div]
      exact follows.nothing
  | cons h hub =>
    obtain ⟨done, ops, coded, decoded, passes⟩ := follows.coded (content urb.guest).length ready false
      paired (by simp) (by rw [held, length]; exact whole) sized.within (by rw [held, length]; exact small)
      (by rw [held]; exact Nat.le_of_eq length)
    rw [held] at decoded
    rw [whole] at small
    obtain ⟨next, still⟩ := follows_advance follows ready sized.within small
    have command : isRead (dev.unit dev.lun).command = true := by
      rw [follows.read, read]
      rfl
    obtain ⟨other, capacity⟩ := isRead_other command
    have same : ∀ first second : MscUnit κ,
        (dev.setUnit dev.lun first).setUnit dev.lun second = dev.setUnit dev.lun second := by
      intro first second
      simp [MscDevice.setUnit]
    refine ⟨_, done, ops, ?_, decoded, next, still, passes⟩
    rw [usbmscCopybackShadow, if_neg (data h rfl), copybackData]
    dsimp only
    rw [other, if_neg Bool.false_ne_true, if_neg capacity, if_pos command, coded, Option.bind_eq_bind,
      Option.bind_some]
    dsimp only
    rw [setUnit_lun, setUnit_self, same]

section

variable (synced : Synced units w)
include synced

theorem exec_dataOut (wellFormed : WellFormed units w (.dataOut urb)) (regular : Regular units w (.dataOut urb)) :
    ∃ r, exec units w (.dataOut urb) = some r ∧ Synced units r.world ∧ Exact units w (.dataOut urb) r := by
  obtain ⟨p, pending, write, sized⟩ := wellFormed
  obtain ⟨after, hub, ops, hooked, coded, follows, ready, passes⟩ := filter_dataOut (synced.pending p pending)
    synced.ready write sized regular.1 regular.2
  have whole := (Nat.div_mul_cancel (Nat.dvd_of_mod_eq_zero sized.whole)).symm
  have length : (content hub).length = (content urb.guest).length := by
    rw [coded]
    exact length_sectors (units.keeps p.lun) whole
  have stored : ∀ lun x plain,
      update w.written p.lun (noteWritten (w.written p.lun) (units.bytes p.lun) p.lba (content urb.guest)) lun x =
        some plain → plain.length = units.bytes lun ∧
      update w.disk p.lun (store (w.disk p.lun) (units.bytes p.lun) p.lba (content hub)) lun x =
        encrypted units lun x plain := by
    intro lun x plain written
    by_cases own : lun = p.lun
    · subst own
      rw [update_self] at written ⊢
      rw [noteWritten] at written
      split at written
      · rename_i inside
        cases written
        exact ⟨length_sector whole (by omega), store_sectors whole coded x inside⟩
      · rename_i outside
        rw [store, length, if_neg outside]
        exact synced.stored p.lun x plain written
    · rw [update_of_ne own] at written ⊢
      exact synced.stored lun x plain written
  refine ⟨_, by rw [exec, pending, Option.bind_eq_bind, Option.bind_some, hooked]; rfl, ⟨ready, ?_, stored, ?_⟩,
    ⟨fun lun x plain written => (stored lun x plain written).2, ?_, passes.freed⟩⟩
  · intro lun x
    dsimp only
    by_cases own : lun = p.lun
    · subst own
      rw [update_self, store, length]
      split
      · exact length_sector (length.trans whole) (by omega)
      · exact synced.length p.lun x
    · rw [update_of_ne own]
      exact synced.length lun x
  · rintro q same
    cases same
    rw [length]
    exact follows
  · intro other q same
    cases same

theorem exec_dataIn (wellFormed : WellFormed units w (.dataIn urb)) (regular : Regular units w (.dataIn urb)) :
    ∃ r, exec units w (.dataIn urb) = some r ∧ Synced units r.world ∧ Exact units w (.dataIn urb) r := by
  obtain ⟨p, pending, read, sized⟩ := wellFormed
  obtain ⟨filled, data⟩ := regular
  have whole := (Nat.div_mul_cancel (Nat.dvd_of_mod_eq_zero sized.whole)).symm
  have fetched := length_fetch (synced.length p.lun) p.lba ((content urb.guest).length / units.bytes p.lun)
  have notStatus := data p pending
  rw [urb.length_eq] at notStatus
  obtain ⟨after, gub, ops, hooked, decoded, follows, ready, passes⟩ := filter_dataIn (synced.pending p pending)
    synced.ready read sized filled (fetched.trans whole.symm) (by rw [urb.length_eq]; exact notStatus)
  refine ⟨_, by
    rw [exec, pending, Option.bind_eq_bind, Option.bind_some]
    dsimp only
    rw [urb.length_eq] at hooked ⊢
    rw [hooked]
    rfl, ⟨ready, synced.length, synced.stored, ?_⟩, ⟨?_, ?_, passes.freed⟩⟩
  · rintro q same
    cases same
    exact follows
  · exact fun lun x plain written => (synced.stored lun x plain written).2
  · rintro other q same samePending
    cases same
    cases pending.symm.trans samePending
    dsimp only
    refine ⟨?_, fun i less plain written => ?_⟩
    · rw [decoded, length_sectors (units.keeps p.lun) fetched, fetched]
      exact whole.symm
    · obtain ⟨-, disk⟩ := synced.stored p.lun (p.lba + i) plain written
      rw [decoded, sector_sectors (units.keeps p.lun) fetched less, sector_fetch (synced.length p.lun) i _ _ less, disk,
        encrypted]
      cases key : fate (units.storage p.lun) (p.lba + i) with
      | none => rfl
      | some key' => exact units.inverse p.lun key' (fate_some key).1 _ _

theorem exec_other {events : List Event} (wellFormed : WellFormed units w (.other events)) :
    ∃ r, exec units w (.other events) = some r ∧ Synced units r.world ∧ Exact units w (.other events) r := by
  obtain ⟨s, ran, ready⟩ := wellFormed
  refine ⟨_, by rw [exec, ran]; rfl, ⟨ready, synced.length, synced.stored, ?_⟩, ⟨?_, ?_, by simp⟩⟩
  · rintro p same
    cases same
  · exact fun lun x plain written => (synced.stored lun x plain written).2
  · intro other q same
    cases same

theorem exec_exact {transfer : Transfer} (wellFormed : WellFormed units w transfer)
    (regular : Regular units w transfer) :
    ∃ r, exec units w transfer = some r ∧ Synced units r.world ∧ Exact units w transfer r := by
  cases transfer with
  | wrapper urb => exact exec_wrapper synced wellFormed
  | dataOut urb => exact exec_dataOut synced wellFormed regular
  | dataIn urb => exact exec_dataIn synced wellFormed regular
  | other events => exact exec_other synced wellFormed

end

theorem synced_start (disk : (lun : Fin 16) → ℕ → { s : List UInt8 // s.length = units.bytes lun }) :
    Synced units (World.start units disk) where
  ready := ⟨fun _ => rfl, fun _ => .inl rfl, rfl⟩
  length := fun lun x => (disk lun x).property
  stored := by
    intro lun x plain written
    cases written
  pending := by
    intro p pending
    cases pending

def RegularStep (units : Units κ) (before : World κ) (transfer : Transfer) (after : World κ) : Prop :=
  WellFormed units before transfer ∧ Regular units before transfer ∧
    ∃ r, exec units before transfer = some r ∧ r.world = after

/-- In every sequence of regular transfers, of any commands for any units, each goes through, the device has the
ciphertext of all that was written, and the guest reads what it wrote. -/
theorem run_exact (units : Units κ) (disk : (lun : Fin 16) → ℕ → { s : List UInt8 // s.length = units.bytes lun })
    (transfers : List Transfer) (w : World κ) (run : Run (RegularStep units) (World.start units disk) transfers w)
    (transfer : Transfer) (wellFormed : WellFormed units w transfer) (regular : Regular units w transfer) :
    ∃ r, exec units w transfer = some r ∧ Exact units w transfer r := by
  have synced : Synced units w := by
    refine run.keeps (Synced units) ?_ (synced_start disk)
    rintro before transfer after ⟨wellFormed, regular, r, ran, rfl⟩ synced
    obtain ⟨r', ran', kept, -⟩ := exec_exact synced wellFormed regular
    cases ran.symm.trans ran'
    exact kept
  obtain ⟨r, ran, -, exact⟩ := exec_exact synced wellFormed regular
  exact ⟨r, ran, exact⟩

def plainUnits : Units Unit where
  size := fun _ => 512
  positive := fun _ => by decide
  storage := fun _ => []
  keeps := by simp [KeepsLength]
  inverse := by simp

def emptyDisk : (lun : Fin 16) → ℕ → { s : List UInt8 // s.length = plainUnits.bytes lun } :=
  fun _ _ => ⟨List.replicate 512 0, length_replicate⟩

def writeWrapper : Urb :=
  oneBuffer (cbwSignature ++ [1, 0, 0, 0, 0, 2, 0, 0, 0, 0, 10, 0x2A, 0, 0, 0, 0, 0, 0, 0, 1] ++ List.replicate 7 0)

theorem writeWrapper_wellFormed : WellFormed plainUnits (World.start plainUnits emptyDisk) (.wrapper writeWrapper) :=
  ⟨by decide, ⟨rfl, by decide, by decide⟩, by decide, by decide, by decide⟩

def writing : World Unit where
  dev := usbmscCbwParser (Session.start plainUnits.storage).dev (content writeWrapper.guest)
  disk := fun lun x => (emptyDisk lun x).val
  written := fun _ _ => none
  pending := some ⟨0, true, 0, 1⟩

theorem exec_writeWrapper : exec plainUnits (World.start plainUnits emptyDisk) (.wrapper writeWrapper) =
    some ⟨writing, [], []⟩ := rfl

def twoBuffers (first second : List UInt8) : Urb where
  guest := [⟨pidOut, false, first⟩, ⟨pidOut, false, second⟩]
  host := [⟨pidOut, true, List.replicate first.length 0⟩, ⟨pidOut, true, List.replicate second.length 0⟩]
  same := by simp [Buffer.len]
  ofGuest := by simp
  ofHost := by simp

theorem twoBuffers_sized (first second : List UInt8) (length : first.length + second.length = 512) :
    WholeSectors plainUnits ⟨0, true, 0, 1⟩ pidOut (twoBuffers first second) := by
  have whole : (content (twoBuffers first second).guest).length = 512 := by simpa [twoBuffers] using length
  exact ⟨by simp [twoBuffers], by rw [whole]; decide, by rw [whole]; decide, by rw [whole]; decide⟩

theorem run_exact_twoBuffers : ∃ r, exec plainUnits writing
      (.dataOut (twoBuffers (List.replicate 100 1) (List.replicate 412 2))) = some r ∧
    Exact plainUnits writing (.dataOut (twoBuffers (List.replicate 100 1) (List.replicate 412 2))) r := by
  refine run_exact plainUnits emptyDisk [.wrapper writeWrapper] writing ?_ _ ?_ ?_
  · exact Run.cons ⟨writeWrapper_wellFormed, trivial, _, exec_writeWrapper, rfl⟩ (Run.nil _)
  · exact ⟨⟨0, true, 0, 1⟩, rfl, rfl, twoBuffers_sized _ _ (by rw [length_replicate, length_replicate])⟩
  · refine ⟨?_, ?_⟩
    · rintro ub member
      simp only [twoBuffers, mem_cons, not_mem_nil, or_false] at member
      rcases member with rfl | rfl <;> simp only [Buffer.len, length_replicate] <;> omega
    · rintro ub same
      cases same
      simp only [takenForCbw, Buffer.len, length_replicate]
      rfl

/-- The first buffer of the data has the length and the signature of a wrapper. -/
theorem run_not_exact : ¬ ∀ (units : Units Unit)
    (disk : (lun : Fin 16) → ℕ → { s : List UInt8 // s.length = units.bytes lun }) (transfers : List Transfer)
    (w : World Unit), Run (fun before transfer after => WellFormed units before transfer ∧
        ∃ r, exec units before transfer = some r ∧ r.world = after) (World.start units disk) transfers w →
      ∀ transfer, WellFormed units w transfer → ∃ r, exec units w transfer = some r ∧ Exact units w transfer r := by
  intro all
  obtain ⟨r, ran, -⟩ := all plainUnits emptyDisk [.wrapper writeWrapper] writing
    (Run.cons ⟨writeWrapper_wellFormed, _, exec_writeWrapper, rfl⟩ (Run.nil _))
    (.dataOut (twoBuffers (cbwSignature ++ List.replicate 27 0) (List.replicate 481 0)))
    ⟨⟨0, true, 0, 1⟩, rfl, rfl, twoBuffers_sized _ _ (by rw [length_append, length_replicate, length_replicate]; rfl)⟩
  have refused : exec plainUnits writing
      (.dataOut (twoBuffers (cbwSignature ++ List.replicate 27 0) (List.replicate 481 0))) = none := rfl
  rw [refused] at ran
  cases ran

end DisasVisor.Usb.Msc
