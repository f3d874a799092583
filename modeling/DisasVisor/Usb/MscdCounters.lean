import DisasVisor.Usb.MscdRoundTrip

/-!
The units and the counters of `usb_mscd.c`: the indexes into `unit`, the tentative sector size, and the counters
behind a transfer that is coded.
-/

namespace DisasVisor.Usb.Msc.Counters

open Function DisasVisor.Storage Transitions List

variable {κ : Type}

def usbmscLunMax : ℕ := 15

structure Device (κ : Type) where
  dev : MscDevice κ
  created : Fin 16 → Bool

inductive Event
  | getMaxLun (lunMax : UInt8)
  | outgoing (gub hub : List Buffer)
  | incoming (gub : List Buffer) (actlen : ℕ) (hub : List Buffer)

/-- `usbmsc_getmaxlun`; `none` is an index outside of `unit`. -/
def usbmscGetmaxlun (d : Device κ) (lunMax : UInt8) : Option (Device κ) :=
  ((List.range' 1 lunMax.toNat).foldlM
    (fun (created : Fin 16 → Bool) i =>
      if i ≤ usbmscLunMax then some (update created (Fin.ofNat 16 i) true) else none) d.created).map
    fun created => ⟨{ d.dev with lunMax := Fin.ofNat 16 lunMax.toNat }, created⟩

def Device.step (d : Device κ) : Event → Option (Device κ)
  | .getMaxLun lunMax => usbmscGetmaxlun d lunMax
  | .outgoing gub hub => (usbmscShadowOutbuf d.dev gub hub).map fun r => { d with dev := r.dev }
  | .incoming gub actlen hub => (usbmscCopybackShadow d.dev gub actlen hub).map fun r => { d with dev := r.dev }

def Device.start (storage : Fin 16 → List (StorageKeys κ)) : Device κ :=
  ⟨(Session.start storage).dev, fun lun => lun = 0⟩

def wrapper (g h : Buffer) : List UInt8 := (h.put g.bytes).bytes

def Device.indexes (d : Device κ) : Event → List ℕ
  | .getMaxLun lunMax => List.range' 1 lunMax.toNat
  | .outgoing (g :: _) (h :: _) => d.dev.lun :: if takenForCbw g then [(cbwLun d.dev.lunMax (wrapper g h)).val] else []
  | _ => [d.dev.lun.val]

def Device.codes (d : Device κ) : Event → Option (MscDevice κ)
  | .outgoing (g :: gub) (h :: hub) =>
    let dev := if takenForCbw g then usbmscCbwParser d.dev (wrapper g h) else d.dev
    if takenForCbw g ∧ (gub = [] ∨ hub = []) then none
    else if isWrite (dev.unit d.dev.lun).command then some dev else none
  | .incoming _ actlen (h :: _) =>
    if h.bytes.take 4 = cswSignature ∧ actlen = 13 then none
    else if isRead (d.dev.unit d.dev.lun).command then some d.dev else none
  | _ => none

structure Counted (before after : MscUnit κ) (n : ℕ) : Prop where
  blocks : after.nBlocks.toNat + n = before.nBlocks.toNat
  length : after.length.toNat + after.storageSectorSize.toInt.toNat * n = before.length.toNat
  lba : after.lba.toNat = before.lba.toNat + n

structure Safe (d : Device κ) (event : Event) : Prop where
  index : ∀ i ∈ d.indexes event, i ≤ usbmscLunMax ∧
    (d.created (Fin.ofNat 16 i) = true ∨ ∃ lunMax, event = .getMaxLun lunMax)
  size : ∀ dev, d.codes event = some dev → ∃ size, tentativeSectorSize (dev.unit dev.lun) = some size ∧ size ≠ 0
  counters : ∀ dev d', d.codes event = some dev → d.step event = some d' →
    ∃ n, Counted (dev.unit dev.lun) (d'.dev.unit d.dev.lun) n

/-- The blocks of a command are in its data and below the last address, by the sector size or the tentative one. -/
def Fits (sectorSize : Int32) (n length lba : ℕ) : Prop :=
  let size := if sectorSize = 0 then length / n else sectorSize.toInt.toNat
  0 ≤ sectorSize.toInt ∧ size * n ≤ length ∧ size * n < 2 ^ 31 ∧ lba + n < 2 ^ 32

def Divides (sectorSize : Int32) (n length : ℕ) : Prop := sectorSize = 0 → 0 < n ∧ n ≤ length

def moves (command : UInt8) : Bool := isRead command || isWrite command

/-- GetMaxLun names no unit that `unit` has no room for; the blocks of a READ or WRITE fit; its data come in its
direction, and with the wrapper only if that is for the unit of the one before. -/
def Device.Meets (d : Device κ) : Event → Prop
  | .getMaxLun lunMax => lunMax.toNat ≤ usbmscLunMax
  | .outgoing (g :: gub) (h :: hub) =>
    let unit := d.dev.unit d.dev.lun
    if takenForCbw g then
      let cbw := wrapper g h
      let size := (d.dev.unit (cbwLun d.dev.lunMax cbw)).storageSectorSize
      (moves (opcode cbw) = true → Fits size (blocks cbw) (le32 cbw 8).toNat (firstBlock cbw)) ∧
        (gub ≠ [] → hub ≠ [] → cbwLun d.dev.lunMax cbw = d.dev.lun ∧ isRead (opcode cbw) = false ∧
          (isWrite (opcode cbw) = true → Divides size (blocks cbw) (le32 cbw 8).toNat))
    else isRead unit.command = false ∧
      (isWrite unit.command = true → Divides unit.storageSectorSize unit.nBlocks.toNat unit.length.toNat)
  | .incoming _ actlen (h :: _) =>
    let unit := d.dev.unit d.dev.lun
    h.bytes.take 4 = cswSignature ∧ actlen = 13 ∨ isWrite unit.command = false ∧
      (isRead unit.command = true → Divides unit.storageSectorSize unit.nBlocks.toNat unit.length.toNat)
  | _ => True

variable {unit : MscUnit κ} {dev dev' : MscDevice κ} {d d' : Device κ} {event : Event}

structure UnitFits (unit : MscUnit κ) : Prop where
  small : unit.length.toNat < 2 ^ 32
  fits : Fits unit.storageSectorSize unit.nBlocks.toNat unit.length.toNat unit.lba.toNat

theorem UnitFits.tentative (fits : UnitFits unit)
    (divides : Divides unit.storageSectorSize unit.nBlocks.toNat unit.length.toNat) :
    ∃ size, tentativeSectorSize unit = some size ∧ 0 < size.toInt ∧
      UnitFits { unit with storageSectorSize := size } := by
  obtain ⟨nonneg, bytes, product, last⟩ := fits.fits
  unfold tentativeSectorSize
  by_cases zero : unit.storageSectorSize = 0
  · obtain ⟨some', enough⟩ := divides zero
    rw [if_pos zero] at bytes product
    have size : (unit.length / unit.nBlocks.toUInt64).toUInt32.toNat = unit.length.toNat / unit.nBlocks.toNat := by
      have small := fits.small
      have quotient := Nat.div_le_self unit.length.toNat unit.nBlocks.toNat
      rw [UInt64.toNat_toUInt32, UInt64.toNat_div, UInt32.toNat_toUInt64]
      exact Nat.mod_eq_of_lt (by omega)
    have positive : 0 < unit.length.toNat / unit.nBlocks.toNat := Nat.div_pos enough some'
    have least := Nat.le_mul_of_pos_right (unit.length.toNat / unit.nBlocks.toNat) some'
    have int := Integers.toInt_toInt32 (x := (unit.length / unit.nBlocks.toUInt64).toUInt32) (by omega)
    have other : unit.nBlocks ≠ 0 := by
      intro none'
      rw [none'] at some'
      exact Nat.lt_irrefl 0 some'
    rw [if_neg (not_not.mpr zero), if_neg other]
    refine ⟨_, rfl, by omega, fits.small, by dsimp only; omega, ?_⟩
    have nonzero : (unit.length / unit.nBlocks.toUInt64).toUInt32.toInt32 ≠ 0 := by
      intro none'
      rw [none'] at int
      have zero' : (0 : Int32).toInt = 0 := rfl
      omega
    have natural : (unit.length / unit.nBlocks.toUInt64).toUInt32.toInt32.toInt.toNat =
        unit.length.toNat / unit.nBlocks.toNat := by omega
    dsimp only
    rw [if_neg nonzero, natural]
    exact ⟨bytes, product, last⟩
  · rw [if_pos zero]
    have other : unit.storageSectorSize.toInt ≠ 0 := fun none' => zero (Int32.toInt_inj.mp none')
    exact ⟨_, rfl, by omega, fits⟩

theorem UnitFits.advance (fits : UnitFits unit) (positive : 0 < unit.storageSectorSize.toInt) (count : ℕ) :
    ∃ n, Counted unit (unit.advance count) n ∧ UnitFits (unit.advance count) ∧
      (unit.advance count).storageSectorSize = unit.storageSectorSize := by
  obtain ⟨nonneg, bytes, product, last⟩ := fits.fits
  have nonzero : unit.storageSectorSize ≠ 0 := by
    intro none'
    rw [none'] at positive
    exact absurd positive (by decide)
  rw [if_neg nonzero] at bytes product
  -- the blocks that are too many are left out
  obtain ⟨m, within, same⟩ : ∃ m, m ≤ unit.nBlocks.toNat ∧ unit.advance count = unit.advance m := by
    by_cases many : unit.nBlocks < UInt32.ofNat count
    · refine ⟨unit.nBlocks.toNat, Nat.le_refl _, ?_⟩
      rw [MscUnit.advance, if_pos many, MscUnit.advance, UInt32.ofNat_toNat, if_neg (UInt32.lt_irrefl _)]
    · refine ⟨(UInt32.ofNat count).toNat, UInt32.le_iff_toNat_le.mp (UInt32.not_lt.mp many), ?_⟩
      rw [MscUnit.advance, MscUnit.advance, UInt32.ofNat_toNat]
  have part : m * unit.storageSectorSize.toInt.toNat ≤ unit.storageSectorSize.toInt.toNat * unit.nBlocks.toNat := by
    rw [Nat.mul_comm]
    exact Nat.mul_le_mul_left _ within
  have rest : unit.storageSectorSize.toInt.toNat * (unit.nBlocks.toNat - m) =
      unit.storageSectorSize.toInt.toNat * unit.nBlocks.toNat - m * unit.storageSectorSize.toInt.toNat := by
    rw [Nat.mul_sub, Nat.mul_comm m]
  obtain ⟨lba, nBlocks, length⟩ := @advance_eq _ m unit positive (by omega) within (by omega)
  have lba' : (unit.advance m).lba.toNat = unit.lba.toNat + m := by
    rw [lba, UInt32.toNat_add, UInt32.toNat_ofNat']
    omega
  have size : (unit.advance m).storageSectorSize = unit.storageSectorSize := rfl
  rw [same]
  refine ⟨m, ⟨by omega, ?_, lba'⟩, ⟨?_, ?_⟩, size⟩
  · rw [size, Nat.mul_comm]
    omega
  · have small := fits.small
    omega
  · unfold Fits
    dsimp only
    rw [size, if_neg nonzero, lba', nBlocks, length, rest]
    exact ⟨nonneg, by omega, by omega, by omega⟩

theorem setUnit_setUnit (dev : MscDevice κ) (lun : Fin 16) (first second : MscUnit κ) :
    (dev.setUnit lun first).setUnit lun second = dev.setUnit lun second := by
  simp [MscDevice.setUnit]

structure Ready (unit : MscUnit κ) : Prop where
  fits : moves unit.command = true → UnitFits unit
  divides : moves unit.command = true → Divides unit.storageSectorSize unit.nBlocks.toNat unit.length.toNat

structure Moved (dev after : MscDevice κ) (codes : Bool) : Prop where
  only : ∃ unit, after = dev.setUnit dev.lun unit ∧ (moves unit.command = true → UnitFits unit)
  counted : codes = true → ∃ n, Counted (dev.unit dev.lun) (after.unit dev.lun) n

theorem usbmscCodeBuffers_moved {dest src : List Buffer} {pid : UInt8} {length : ℕ} {write : Bool} {coded : Coded}
    (moving : moves (dev.unit dev.lun).command = true) (ready : Ready (dev.unit dev.lun))
    (ran : usbmscCodeBuffers dev dest src pid length write = some (dev', coded)) :
    Moved dev (dev'.setUnit dev.lun ((dev'.unit dev.lun).advance coded.nBlocks)) true := by
  obtain ⟨size, tentative, positive, fits⟩ := (ready.fits moving).tentative (ready.divides moving)
  obtain ⟨size', is, ran⟩ := Option.bind_eq_some_iff.mp ran
  cases tentative.symm.trans is
  obtain ⟨-, ran⟩ := Option.ite_none_left_eq_some.mp ran
  obtain ⟨result, -, ran⟩ := Option.bind_eq_some_iff.mp ran
  cases ran
  rw [setUnit_self, setUnit_setUnit]
  obtain ⟨n, counted, fits', -⟩ := fits.advance positive coded.nBlocks
  exact ⟨⟨_, rfl, fun _ => fits'⟩, fun _ => ⟨n, by rw [setUnit_self]; exact ⟨counted.1, counted.2, counted.3⟩⟩⟩

theorem moved_empty {unit' : MscUnit κ} (still : moves unit'.command = false) :
    Moved dev (dev.setUnit dev.lun unit') false :=
  ⟨⟨unit', rfl, fun moving => by rw [still] at moving; cases moving⟩, fun no => by cases no⟩

variable {gub hub : List Buffer} {command : UInt8} {h g : Buffer}

theorem shadowData_moved {r : Hooked κ} (ready : Ready (dev.unit dev.lun))
    (direction : isRead (dev.unit dev.lun).command = false) (ran : shadowData dev dev.lun gub hub = some r) :
    Moved dev r.dev (isWrite (dev.unit dev.lun).command) := by
  unfold shadowData at ran
  dsimp only at ran
  cases write : isWrite (dev.unit dev.lun).command with
  | true =>
    rw [if_pos write] at ran
    obtain ⟨⟨after, coded⟩, codes, ran⟩ := Option.bind_eq_some_iff.mp ran
    cases ran
    exact usbmscCodeBuffers_moved (by rw [moves, write, Bool.or_true]) ready codes
  | false =>
    rw [write, if_neg Bool.false_ne_true] at ran
    have still : moves (dev.unit dev.lun).command = false := by rw [moves, direction, write, Bool.or_false]
    split at ran
    · cases ran
      exact moved_empty still
    · cases ran
      exact moved_empty still

theorem moves_write (moving : moves command = true) (direction : isRead command = false) : isWrite command = true := by
  rwa [moves, direction, Bool.false_or] at moving

theorem moves_read (moving : moves command = true) (direction : isWrite command = false) : isRead command = true := by
  rwa [moves, direction, Bool.or_false] at moving

theorem copybackData_moved {actlen : ℕ} {r : Hooked κ} (ready : Ready (dev.unit dev.lun))
    (direction : isWrite (dev.unit dev.lun).command = false) (ran : copybackData dev gub hub h actlen = some r) :
    Moved dev r.dev (isRead (dev.unit dev.lun).command) := by
  unfold copybackData at ran
  dsimp only at ran
  cases read : isRead (dev.unit dev.lun).command with
  | true =>
    obtain ⟨notPassed, notCapacity⟩ := isRead_other read
    rw [notPassed, if_neg Bool.false_ne_true, if_neg notCapacity, if_pos read] at ran
    obtain ⟨⟨after, coded⟩, codes, ran⟩ := Option.bind_eq_some_iff.mp ran
    cases ran
    have same := (usbmscCodeBuffers_touches codes).lun
    rw [same]
    exact usbmscCodeBuffers_moved (by rw [moves, read, Bool.true_or]) ready codes
  | false =>
    have still : moves (dev.unit dev.lun).command = false := by rw [moves, direction, read, Bool.or_false]
    rw [read, if_neg Bool.false_ne_true] at ran
    split at ran
    · cases ran
      exact moved_empty still
    · split at ran
      · cases ran
        exact moved_empty still
      · cases ran
        exact moved_empty still

structure Sound (d : Device κ) : Prop where
  created : ∀ i ≤ d.dev.lunMax, d.created i = true
  lun : d.created d.dev.lun = true
  fits : ∀ i, moves (d.dev.unit i).command = true → UnitFits (d.dev.unit i)

theorem sound_start (storage : Fin 16 → List (StorageKeys κ)) : Sound (Device.start storage) where
  created := fun i le => decide_eq_true (Fin.le_zero_iff.mp le)
  lun := rfl
  fits := fun _ moving => by cases moving

theorem Sound.moved {codes : Bool} (sound : Sound d) (moved : Moved d.dev dev' codes) :
    Sound { d with dev := dev' } := by
  obtain ⟨unit', rfl, fits⟩ := moved.only
  refine ⟨sound.created, sound.lun, fun i moving => ?_⟩
  dsimp only at moving ⊢
  rw [setUnit_unit] at moving ⊢
  split at moving
  · rename_i same
    rw [if_pos same]
    exact fits moving
  · rename_i other
    rw [if_neg other]
    exact sound.fits i moving

theorem cbwUnit_fields (unit : MscUnit κ) {cbw : List UInt8} (moving : moves (opcode cbw) = true) :
    (cbwUnit unit cbw).nBlocks.toNat = blocks cbw ∧ (cbwUnit unit cbw).lba.toNat = firstBlock cbw := by
  have which : (opcode cbw = 0x28 ∨ opcode cbw = 0xA8) ∨ opcode cbw = 0x2A ∨ opcode cbw = 0xAA := by
    simpa [moves, isRead, isWrite] using moving
  have code : byteAt cbw (cbwcb 0) = opcode cbw := rfl
  unfold cbwUnit blocks
  rw [code]
  rcases which with (is | is) | is | is
  all_goals
    rw [is]
    exact ⟨rfl, rfl⟩

theorem cbwUnit_length (unit : MscUnit κ) (cbw : List UInt8) :
    (cbwUnit unit cbw).length.toNat = (le32 cbw 8).toNat ∧
      (cbwUnit unit cbw).storageSectorSize = unit.storageSectorSize := by
  unfold cbwUnit
  dsimp only
  split
  all_goals exact ⟨UInt32.toNat_toUInt64 _, rfl⟩

theorem cbwLun_le (lunMax : Fin 16) (cbw : List UInt8) : cbwLun lunMax cbw ≤ lunMax := by
  unfold cbwLun
  dsimp only
  split
  · exact Fin.zero_le _
  · rename_i within
    exact Fin.not_lt.mp within

theorem Sound.parse {cbw : List UInt8} (sound : Sound d)
    (fits : moves (opcode cbw) = true → Fits (d.dev.unit (cbwLun d.dev.lunMax cbw)).storageSectorSize (blocks cbw)
      (le32 cbw 8).toNat (firstBlock cbw)) : Sound { d with dev := usbmscCbwParser d.dev cbw } := by
  refine ⟨sound.created, sound.created _ (cbwLun_le _ _), fun i moving => ?_⟩
  dsimp only at moving ⊢
  rw [usbmscCbwParser_unit] at moving ⊢
  split at moving
  · rename_i same
    rw [if_pos same]
    rw [(cbwUnit_command _ _).1] at moving
    obtain ⟨nBlocks, lba⟩ := cbwUnit_fields (d.dev.unit i) moving
    obtain ⟨length, size⟩ := cbwUnit_length (d.dev.unit i) cbw
    refine ⟨by rw [length]; exact (le32 cbw 8).toNat_lt, ?_⟩
    rw [nBlocks, lba, length, size, same]
    exact fits moving
  · rename_i other
    rw [if_neg other]
    exact sound.fits i moving

theorem createUnits_spec {places : List ℕ} (inside : ∀ i ∈ places, i ≤ usbmscLunMax) : ∀ (created : Fin 16 → Bool),
    ∃ after, places.foldlM (fun (created : Fin 16 → Bool) i =>
        if i ≤ usbmscLunMax then some (update created (Fin.ofNat 16 i) true) else none) created = some after ∧
      (∀ i, created i = true → after i = true) ∧ ∀ i ∈ places, after (Fin.ofNat 16 i) = true := by
  induction places with
  | nil => exact fun created => ⟨created, rfl, fun _ => id, fun _ member => (not_mem_nil member).elim⟩
  | cons place places ih =>
    intro created
    obtain ⟨after, creates, keeps, here⟩ := ih (fun i member => inside i (mem_cons_of_mem _ member))
      (update created (Fin.ofNat 16 place) true)
    refine ⟨after, ?_, fun i there => keeps i ?_, fun i member => ?_⟩
    · rw [foldlM_cons, if_pos (inside place mem_cons_self)]
      exact creates
    · rw [Function.update_apply, there, ite_self]
    · rcases mem_cons.mp member with rfl | later
      · exact keeps _ (update_self ..)
      · exact here i later

theorem safe_still (none' : d.codes event = none) (index : ∀ i ∈ d.indexes event, i ≤ usbmscLunMax ∧
      (d.created (Fin.ofNat 16 i) = true ∨ ∃ lunMax, event = .getMaxLun lunMax)) : Safe d event := by
  refine ⟨index, fun dev codes => ?_, fun dev d' codes => ?_⟩
  · rw [none'] at codes
    cases codes
  · rw [none'] at codes
    cases codes

theorem Sound.transfer (codes : Bool) (sound : Sound { d with dev := dev }) (lun : dev.lun = d.dev.lun)
    (is : d.codes event = if codes then some dev else none) (index : ∀ i ∈ d.indexes event, i ≤ usbmscLunMax ∧
      (d.created (Fin.ofNat 16 i) = true ∨ ∃ lunMax, event = .getMaxLun lunMax))
    (ready : codes = true → moves (dev.unit dev.lun).command = true ∧ Ready (dev.unit dev.lun))
    (step : ∀ d', d.step event = some d' → d'.created = d.created ∧ Moved dev d'.dev codes) :
    Safe d event ∧ ∀ d', d.step event = some d' → Sound d' := by
  refine ⟨?_, fun d' done => ?_⟩
  · cases codes with
    | false => exact safe_still is index
    | true =>
      obtain ⟨moving, ready⟩ := ready rfl
      refine ⟨index, fun other same => ?_, fun other d' same done => ?_⟩
      · cases is.symm.trans same
        obtain ⟨size, tentative, positive, -⟩ := (ready.fits moving).tentative (ready.divides moving)
        refine ⟨size, tentative, fun zero => ?_⟩
        rw [zero] at positive
        exact absurd positive (by decide)
      · cases is.symm.trans same
        rw [← lun]
        exact (step d' done).2.counted rfl
  · obtain ⟨created, moved⟩ := step d' done
    have kept := sound.moved moved
    dsimp only at kept
    rw [← created] at kept
    exact kept

theorem Sound.named (sound : Sound d) {i : Fin 16} (le : i = d.dev.lun ∨ i ≤ d.dev.lunMax) :
    i.val ≤ usbmscLunMax ∧ (d.created (Fin.ofNat 16 i.val) = true ∨ ∃ lunMax, event = .getMaxLun lunMax) := by
  have self : Fin.ofNat 16 i.val = i := Fin.ofNat_val_eq_self i
  refine ⟨Nat.le_of_lt_succ i.isLt, .inl ?_⟩
  rw [self]
  rcases le with rfl | within
  · exact sound.lun
  · exact sound.created i within

theorem Sound.getMaxLun {lunMax : UInt8} (sound : Sound d) (meets : lunMax.toNat ≤ usbmscLunMax) :
    Safe d (.getMaxLun lunMax) ∧ ∀ d', d.step (.getMaxLun lunMax) = some d' → Sound d' := by
  have inside : ∀ i ∈ List.range' 1 lunMax.toNat, i ≤ usbmscLunMax := by
    intro i member
    obtain ⟨k, less, rfl⟩ := mem_range'.mp member
    omega
  obtain ⟨after, creates, keeps, here⟩ := createUnits_spec inside d.created
  refine ⟨safe_still rfl fun i member => ⟨inside i member, .inr ⟨lunMax, rfl⟩⟩, fun d' done => ?_⟩
  rw [Device.step, usbmscGetmaxlun, creates] at done
  cases done
  refine ⟨fun i le => ?_, keeps _ sound.lun, sound.fits⟩
  by_cases zero : i = 0
  · rw [zero]
    exact keeps 0 (sound.created 0 (Fin.zero_le _))
  · have small : lunMax.toNat < 16 := Nat.lt_succ_of_le meets
    have bound : i.val ≤ lunMax.toNat := by
      have le' : i.val ≤ lunMax.toNat % 16 := le
      rwa [Nat.mod_eq_of_lt small] at le'
    have positive : i.val ≠ 0 := fun none' => zero (Fin.ext none')
    have found := here i.val (mem_range'.mpr ⟨i.val - 1, by omega, by omega⟩)
    rwa [show Fin.ofNat 16 i.val = i from Fin.ofNat_val_eq_self i] at found

theorem isSecurity_not_moves (security : isSecurity command = true) : moves command = false := by
  have which : command = 0xA2 ∨ command = 0xB5 := by simpa [isSecurity] using security
  rcases which with rfl | rfl
  · decide
  · decide

theorem Sound.outgoing_index (sound : Sound d) :
    ∀ i ∈ d.indexes (.outgoing (g :: gub) (h :: hub)), i ≤ usbmscLunMax ∧
      (d.created (Fin.ofNat 16 i) = true ∨ ∃ lunMax, Event.outgoing (g :: gub) (h :: hub) = .getMaxLun lunMax) := by
  intro i member
  rcases mem_cons.mp member with rfl | named
  · exact sound.named (.inl rfl)
  · split at named
    · cases mem_singleton.mp named
      exact sound.named (.inr (cbwLun_le _ _))
    · exact (not_mem_nil named).elim

theorem step_wrapper (taken : takenForCbw g = true) (done : d.step (.outgoing (g :: gub) (h :: hub)) = some d') :
    let dev := usbmscCbwParser d.dev (wrapper g h)
    let dropped := isSecurity (dev.unit d.dev.lun).command = true ∨ gub = [] ∨ hub = []
    dropped ∧ d' = { d with dev := dev } ∨
      ¬ dropped ∧ ∃ r, shadowData dev d.dev.lun gub hub = some r ∧ d' = { d with dev := r.dev } := by
  obtain ⟨hooked, ran, rfl⟩ := Option.map_eq_some_iff.mp done
  rw [usbmscShadowOutbuf, taken, if_pos rfl] at ran
  dsimp only at ran
  split at ran
  · rename_i security
    cases ran
    exact .inl ⟨.inl security, rfl⟩
  · rename_i insecure
    split at ran
    · rename_i short
      cases ran
      exact .inl ⟨.inr short, rfl⟩
    · rename_i long
      obtain ⟨r, ran, same⟩ := Option.map_eq_some_iff.mp ran
      rw [← same]
      exact .inr ⟨not_or.mpr ⟨insecure, long⟩, r, ran, rfl⟩

section

variable (sound : Sound d)
include sound

theorem Sound.wrapper (taken : takenForCbw g = true) (meets : d.Meets (.outgoing (g :: gub) (h :: hub))) :
    Safe d (.outgoing (g :: gub) (h :: hub)) ∧ ∀ d', d.step (.outgoing (g :: gub) (h :: hub)) = some d' → Sound d' := by
  unfold Device.Meets at meets
  dsimp only at meets
  rw [taken, if_pos rfl] at meets
  obtain ⟨fits, data⟩ := meets
  have parsed := sound.parse fits
  by_cases short : gub = [] ∨ hub = []
  · refine ⟨safe_still (by simp [Device.codes, taken, short]) sound.outgoing_index, fun d' done => ?_⟩
    rcases step_wrapper taken done with ⟨-, rfl⟩ | ⟨long, -⟩
    · exact parsed
    · exact (long (.inr short)).elim
  · obtain ⟨lun, direction, divides⟩ := data (fun none' => short (.inl none')) fun none' => short (.inr none')
    generalize same : usbmscCbwParser d.dev (Counters.wrapper g h) = dev at parsed
    have parsedLun : dev.lun = d.dev.lun := by
      rw [← same]
      exact lun
    have unit : dev.unit d.dev.lun = cbwUnit (d.dev.unit d.dev.lun) (Counters.wrapper g h) := by
      rw [← same, usbmscCbwParser_unit, if_pos lun.symm]
    have command : (dev.unit d.dev.lun).command = opcode (Counters.wrapper g h) := by
      rw [unit]
      exact (cbwUnit_command _ _).1
    have codes : d.codes (.outgoing (g :: gub) (h :: hub)) =
        if isWrite (dev.unit dev.lun).command then some dev else none := by
      simp [Device.codes, taken, short, same, parsedLun]
    by_cases security : isSecurity (dev.unit d.dev.lun).command = true
    · have other := isSecurity_not_moves security
      rw [moves, Bool.or_eq_false_iff] at other
      rw [parsedLun, other.2, if_neg Bool.false_ne_true] at codes
      refine ⟨safe_still codes sound.outgoing_index, fun d' done => ?_⟩
      rcases step_wrapper taken done with ⟨-, rfl⟩ | ⟨allowed, -⟩
      · rwa [same]
      · rw [same] at allowed
        exact (allowed (.inl security)).elim
    · have ready : Ready (dev.unit dev.lun) := by
        refine ⟨parsed.fits _, fun moving => ?_⟩
        rw [parsedLun, command] at moving
        obtain ⟨nBlocks, -⟩ := cbwUnit_fields (d.dev.unit d.dev.lun) moving
        obtain ⟨length, size⟩ := cbwUnit_length (d.dev.unit d.dev.lun) (Counters.wrapper g h)
        rw [parsedLun, unit, size, nBlocks, length, ← lun]
        exact divides (moves_write moving direction)
      refine Sound.transfer _ parsed parsedLun codes sound.outgoing_index (fun write => ?_) fun d' done => ?_
      · exact ⟨by rw [moves, write, Bool.or_true], ready⟩
      · rcases step_wrapper taken done with ⟨dropped, -⟩ | ⟨-, r, ran, rfl⟩
        · rw [same] at dropped
          exact (dropped.elim security short).elim
        · rw [same, ← parsedLun] at ran
          rw [← command, ← parsedLun] at direction
          exact ⟨rfl, shadowData_moved ready direction ran⟩

theorem Sound.data (taken : takenForCbw g = false) (meets : d.Meets (.outgoing (g :: gub) (h :: hub))) :
    Safe d (.outgoing (g :: gub) (h :: hub)) ∧ ∀ d', d.step (.outgoing (g :: gub) (h :: hub)) = some d' → Sound d' := by
  unfold Device.Meets at meets
  dsimp only at meets
  rw [taken, if_neg Bool.false_ne_true] at meets
  have ready : Ready (d.dev.unit d.dev.lun) := ⟨sound.fits _, fun moving => meets.2 (moves_write moving meets.1)⟩
  refine Sound.transfer (isWrite (d.dev.unit d.dev.lun).command) sound rfl ?_ sound.outgoing_index
    (fun write => ?_) fun d' done => ?_
  · simp [Device.codes, taken]
  · exact ⟨by rw [moves, write, Bool.or_true], ready⟩
  · rw [Device.step, usbmscShadowOutbuf, taken, if_neg Bool.false_ne_true] at done
    obtain ⟨r, ran, same⟩ := Option.map_eq_some_iff.mp done
    cases same
    exact ⟨rfl, shadowData_moved ready meets.1 ran⟩

theorem Sound.incoming {actlen : ℕ} (meets : d.Meets (.incoming gub actlen (h :: hub))) :
    Safe d (.incoming gub actlen (h :: hub)) ∧
      ∀ d', d.step (.incoming gub actlen (h :: hub)) = some d' → Sound d' := by
  unfold Device.Meets at meets
  dsimp only at meets
  have index : ∀ i ∈ d.indexes (.incoming gub actlen (h :: hub)), i ≤ usbmscLunMax ∧
      (d.created (Fin.ofNat 16 i) = true ∨ ∃ lunMax, Event.incoming gub actlen (h :: hub) = .getMaxLun lunMax) := by
    intro i member
    cases mem_singleton.mp member
    exact sound.named (.inl rfl)
  by_cases status : h.bytes.take 4 = cswSignature ∧ actlen = 13
  · refine ⟨safe_still (by simp [Device.codes, status]) index, fun d' done => ?_⟩
    rw [Device.step, usbmscCopybackShadow, if_pos status] at done
    obtain ⟨r, ran, same⟩ := Option.map_eq_some_iff.mp done
    obtain ⟨-, ran⟩ := Option.ite_none_right_eq_some.mp ran
    cases same
    cases ran
    exact sound.moved (moved_empty (by rfl))
  · obtain ⟨direction, divides⟩ := meets.resolve_left status
    have ready : Ready (d.dev.unit d.dev.lun) := ⟨sound.fits _, fun moving => divides (moves_read moving direction)⟩
    refine Sound.transfer (isRead (d.dev.unit d.dev.lun).command) sound rfl ?_ index (fun read => ?_)
      fun d' done => ?_
    · simp [Device.codes, status]
    · exact ⟨by rw [moves, read, Bool.true_or], ready⟩
    · rw [Device.step, usbmscCopybackShadow, if_neg status] at done
      obtain ⟨r, ran, same⟩ := Option.map_eq_some_iff.mp done
      cases same
      exact ⟨rfl, copybackData_moved ready direction ran⟩

theorem Sound.kept (none' : d.codes event = none) (index : ∀ i ∈ d.indexes event, i = d.dev.lun.val)
    (step : ∀ d', d.step event = some d' → d' = d) : Safe d event ∧ ∀ d', d.step event = some d' → Sound d' := by
  refine ⟨safe_still none' fun i member => ?_, fun d' done => ?_⟩
  · rw [index i member]
    exact sound.named (.inl rfl)
  · rw [step d' done]
    exact sound

theorem Sound.step (meets : d.Meets event) : Safe d event ∧ ∀ d', d.step event = some d' → Sound d' := by
  cases event with
  | getMaxLun lunMax => exact sound.getMaxLun meets
  | outgoing gub hub =>
    match gub, hub with
    | g :: gub, h :: hub =>
      cases taken : takenForCbw g with
      | true => exact sound.wrapper taken meets
      | false => exact sound.data taken meets
    | [], hub => exact sound.kept rfl (fun i member => mem_singleton.mp member) fun d' done => by cases done; rfl
    | g :: gub, [] => exact sound.kept rfl (fun i member => mem_singleton.mp member) fun d' done => by cases done; rfl
  | incoming gub actlen hub =>
    cases hub with
    | nil => exact sound.kept rfl (fun i member => mem_singleton.mp member) fun d' done => by cases done; rfl
    | cons h hub => exact sound.incoming meets

end

/-- In a run whose steps meet the condition every step that meets it is safe. -/
theorem steps_safe {storage : Fin 16 → List (StorageKeys κ)} {events : List Event}
    (run : Run (fun before event after => before.Meets event ∧ before.step event = some after)
      (Device.start storage) events d) (meets : d.Meets event) : Safe d event :=
  have sound := run.keeps Sound (fun _ _ after step sound => (sound.step step.1).2 after step.2) (sound_start storage)
  (sound.step meets).1

def writeWrapper : List UInt8 :=
  cbwSignature ++ [1, 0, 0, 0, 64, 0, 0, 0, 0, 0, 10, 0x2A, 0, 0, 0, 0, 7, 0, 0, 1] ++ List.replicate 7 0

theorem steps_safe_write :
    let start : Device Unit := Device.start fun _ => []
    Safe { start with dev := usbmscCbwParser start.dev writeWrapper }
      (.outgoing [⟨pidOut, false, List.replicate 64 1⟩] [⟨pidOut, true, List.replicate 64 0⟩]) := by
  intro start
  have data : takenForCbw ⟨pidOut, false, List.replicate 64 1⟩ = false := rfl
  have first : start.Meets (.outgoing [⟨pidOut, false, writeWrapper⟩] [⟨pidOut, true, List.replicate 31 0⟩]) :=
    ⟨fun _ => by unfold Fits; decide, fun none' => absurd rfl none'⟩
  have sent : start.step (.outgoing [⟨pidOut, false, writeWrapper⟩] [⟨pidOut, true, List.replicate 31 0⟩]) =
      some { start with dev := usbmscCbwParser start.dev writeWrapper } := rfl
  refine steps_safe (.cons ⟨first, sent⟩ (.nil _)) ?_
  unfold Device.Meets
  dsimp only
  rw [data, if_neg Bool.false_ne_true]
  exact ⟨rfl, fun _ _ => by decide⟩

/-- The device has 17 units. -/
theorem getMaxLun_outside :
    let start : Device Unit := Device.start fun _ => []
    start.step (.getMaxLun 16) = none ∧ ¬ Safe start (.getMaxLun 16) :=
  ⟨rfl, fun safe => absurd (safe.index 16 (by decide)).1 (by decide)⟩

end DisasVisor.Usb.Msc.Counters
