import DisasVisor.Ata.BusMasterLoops

/-!
What an access and a transfer do to the DMA buffer, to the command of the drive, and to what is on its disk.
-/

namespace DisasVisor.Ata

open Function DisasVisor.Storage

variable {κ : Type} {drives : Drives κ} {w : World κ}

/-- The drive executes this command, and the channel has its sectors. What is in the buffer is what the drive has
moved of a read, or the ciphertext of what the guest had for a write. -/
structure Executes (drives : Drives κ) (w : World κ) (p : Pending) : Prop where
  dev : w.chan.dev = p.dev
  lba : w.chan.lba.toNat = p.lba
  count : w.chan.sectorCount.toNat = p.count
  calm : Calm w.chan
  small : p.lba + p.count ≤ 2 ^ 49
  fresh : w.chan.state = .dmaReady → p.moved = 0
  read : w.chan.state = .dmaRead → p.moved ≤ p.count ∧
    ∀ i < p.moved, sector sectorBytes i w.chan.shadowBuf = w.disk p.dev (p.lba + i)
  written : w.chan.state = .dmaWrite → isDisk w.chan p.dev = true → ∀ i < p.count,
    (i + 1) * sectorBytes ≤ w.plain.length → sector sectorBytes i w.chan.shadowBuf =
      encrypted (drives.storage p.dev) (p.lba + i) (sector sectorBytes i w.plain)
  total : w.chan.state = .dmaRead ∨ w.chan.state = .dmaWrite → ∃ total, described w.chan.shadowPrd = some total ∧
    total ≤ ataBmTotalBufsize ∧ (w.chan.state = .dmaWrite → total = w.plain.length)

structure Sound (drives : Drives κ) (w : World κ) : Prop where
  buf : w.chan.shadowBuf.length = ataBmTotalBufsize
  prd : w.chan.shadowPrd.length = ataBmBufnum
  device : ∀ dev, Kept ((ataNewChannel drives).device dev) (w.chan.device dev)
  disk : ∀ dev x, (w.disk dev x).length = sectorBytes
  written : ∀ dev x plain, w.written dev x = some plain →
    isDisk w.chan dev = true ∧ w.disk dev x = encrypted (drives.storage dev) x plain
  pending : ∀ p, w.pending = some p → Executes drives w p

variable {channel : Channel κ} {hw : Hardware} {w' : World κ} {p : Pending}

section

variable (device : ∀ dev, Kept ((ataNewChannel drives).device dev) (channel.device dev))
include device

theorem sectorSize_cases (dev : Bool) :
    (channel.device dev).storageSectorSize.toInt.toNat = sectorBytes ∨
      (channel.device dev).storageSectorSize.toInt.toNat = 2048 := by
  rcases (device dev).role with ⟨-, size⟩ | ⟨size, -⟩
  · rw [size]
    exact .inl rfl
  · rw [size]
    exact .inr rfl

theorem keepsLength_storage (dev : Bool) : KeepsLength (channel.device dev).storage := by
  rcases (device dev).role with ⟨storage, -⟩ | ⟨-, storage⟩
  · rw [storage]
    exact drives.keeps dev
  · exact drives.keepsAtapi dev _ storage.symm

theorem disk_device {dev : Bool} (disk : isDisk channel dev = true) :
    (channel.device dev).storage = drives.storage dev ∧ (channel.device dev).storageSectorSize = 512 := by
  have size : (channel.device dev).storageSectorSize = 512 := of_decide_eq_true disk
  rcases (device dev).role with ⟨storage, -⟩ | ⟨other, -⟩
  · exact ⟨storage, size⟩
  · rw [size] at other
    cases other

end

structure Crypted (before after : Channel κ) (write : Bool) : Prop where
  length : after.shadowBuf.length = before.shadowBuf.length
  kept : Undisturbed before after
  prd : after.shadowPrd = before.shadowPrd
  phys : after.guestPrdPhys = before.guestPrdPhys
  value : before.atapiFlag = false → before.lba.toNat + before.sectorCount.toNat ≤ 2 ^ 49 →
    ∀ i < before.sectorCount.toNat, sector before.ataGetAtaDevice.storageSectorSize.toInt.toNat i after.shadowBuf =
      handled write (fate before.ataGetAtaDevice.storage (before.lba.toNat + i)) (before.lba.toNat + i)
        (sector before.ataGetAtaDevice.storageSectorSize.toInt.toNat i before.shadowBuf)

theorem ataDmaHandleRwSectors_spec {write : Bool}
    (device : ∀ dev, Kept ((ataNewChannel drives).device dev) (channel.device dev))
    (length : channel.shadowBuf.length = ataBmTotalBufsize) (fits : Fits channel) :
    ∃ after, ataDmaHandleRwSectors channel write = .ok after ∧ Crypted channel after write := by
  have keeps : KeepsLength channel.ataGetAtaDevice.storage := keepsLength_storage device _
  have sizes := sectorSize_cases device channel.dev
  rw [← Channel.ataGetAtaDevice] at sizes
  unfold ataDmaHandleRwSectors
  dsimp only
  by_cases skips : channel.atapiFlag = true ∧ channel.dmaState ≠ .dmaReady
  · rw [if_pos skips]
    refine ⟨_, rfl, rfl, Undisturbed.refl _, rfl, rfl, fun flag => ?_⟩
    rw [skips.1] at flag
    cases flag
  · rw [if_neg skips]
    have total : ataBmTotalBufsize = 524288 := rfl
    have sectorSize : sectorBytes = 512 := rfl
    have bytes : channel.sectorCount.toNat * channel.ataGetAtaDevice.storageSectorSize.toInt.toNat ≤ ataBmTotalBufsize :=
      fits.resolve_left skips
    have least : channel.sectorCount.toNat * 512 ≤
        channel.sectorCount.toNat * channel.ataGetAtaDevice.storageSectorSize.toInt.toNat := by
      apply Nat.mul_le_mul_left
      omega
    have positive : 0 < channel.ataGetAtaDevice.storageSectorSize.toInt := by omega
    obtain ⟨out, handles, same⟩ : ∃ out, storageHandleSectors channel.ataGetAtaDevice.storage
        ⟨channel.lba, channel.sectorCount, channel.ataGetAtaDevice.storageSectorSize, write⟩ true channel.shadowBuf =
          some out ∧ out.length = channel.shadowBuf.length :=
      storageHandleSectors_within keeps positive (by dsimp only; omega) (by dsimp only; omega) (by rw [length]; exact bytes)
    rw [handles]
    refine ⟨_, rfl, same, ⟨rfl, rfl, rfl, rfl, rfl, rfl⟩, rfl, rfl, fun _ small i less => ?_⟩
    have valid : StorageAccess.Valid
        ⟨channel.lba, channel.sectorCount, channel.ataGetAtaDevice.storageSectorSize, write⟩ :=
      ⟨positive, by dsimp only; omega, by dsimp only; omega, by dsimp only; omega⟩
    have front := @storageHandleSectors_front κ channel.ataGetAtaDevice.storage channel.shadowBuf _ valid
      (by rw [length]; exact bytes)
    rw [handles] at front
    cases front
    have whole : (channel.shadowBuf.take
        (channel.sectorCount.toNat * channel.ataGetAtaDevice.storageSectorSize.toInt.toNat)).length =
          channel.sectorCount.toNat * channel.ataGetAtaDevice.storageSectorSize.toInt.toNat := by
      rw [List.length_take, Nat.min_eq_left (by rw [length]; exact bytes)]
    dsimp only
    rw [sector_append (Nat.le_of_eq ((length_sectors keeps whole).trans whole).symm) less,
      sector_sectors keeps whole less, sector_take _ less]

structure Started (w : World κ) (value : UInt8) (after : Channel κ) (table : List Prd) : Prop where
  found : guestTable w.memory w.chan.guestPrdPhys.toNat = some table
  described : described after.shadowPrd = some (tableBytes table)
  fits : tableBytes table ≤ ataBmTotalBufsize
  prd : after.shadowPrd.length = ataBmBufnum
  buf : after.shadowBuf.length = ataBmTotalBufsize
  flag : after.atapiFlag = w.chan.atapiFlag
  lba : after.lba = w.chan.lba
  sectorCount : after.sectorCount = w.chan.sectorCount
  deviceReg : after.deviceReg = w.chan.deviceReg
  device : after.device = w.chan.device
  state : after.state = if startsRead value then .dmaRead else .dmaWrite
  value : startsRead value = false → w.chan.atapiFlag = false → w.chan.lba.toNat + w.chan.sectorCount.toNat ≤ 2 ^ 49 →
    ∀ i < w.chan.sectorCount.toNat, w.chan.ataGetAtaDevice.storageSectorSize.toInt.toNat = sectorBytes →
      (i + 1) * sectorBytes ≤ tableBytes table →
        sector sectorBytes i after.shadowBuf = handled true
          (fate w.chan.ataGetAtaDevice.storage (w.chan.lba.toNat + i)) (w.chan.lba.toNat + i)
            (sector sectorBytes i (gathered w.memory table))

theorem start_write (sound : Sound drives w) {value : UInt8} (start : starts value = true)
    (state : w.chan.state = .dmaReady) (write : startsRead value = false) (fits : Fits w.chan) :
    ataBmHandleCommand w.chan w.memory value = .error .panic ∨
      ∃ after table, ataBmHandleCommand w.chan w.memory value = .ok after ∧ Started w value after table := by
  have notBlocked : ¬ (¬ starts value = true ∨ w.chan.state ≠ .dmaReady) := by simp [start, state]
  have whole : ataBmTotalBufsize = w.chan.shadowPrd.length * ataBmBufsize := by rw [sound.prd]; rfl
  rw [ataBmHandleCommand, if_neg notBlocked, write]
  dsimp only
  rw [if_neg Bool.false_ne_true]
  rcases copyFromGuest_spec w.memory ataBmTotalBufsize w.chan.guestPrdPhys.toNat 0 w.chan.shadowBuf
      (by omega) (Nat.zero_le _) sound.buf with panics | ⟨table, found, least, copies⟩
  · rw [panics]
    exact .inl rfl
  · rw [Nat.zero_add] at least
    rw [Nat.zero_add, List.take_zero, List.nil_append] at copies
    obtain ⟨prd, sets, prds, total⟩ := ataSetShadowPrd_spec w.chan.shadowPrd (tableBytes_pos found)
      (by rw [← whole]; exact least)
    have gathers := length_gathered w.memory table
    generalize filled : gathered w.memory table ++ w.chan.shadowBuf.drop (tableBytes table) = buf at copies
    have length : buf.length = ataBmTotalBufsize := by
      rw [← filled, List.length_append, gathers, List.length_drop, sound.buf]
      omega
    obtain ⟨after, crypts, crypted⟩ : ∃ after,
        ataDmaHandleRwSectors { w.chan with state := .dmaWrite, shadowBuf := buf } true = .ok after ∧
          Crypted { w.chan with state := .dmaWrite, shadowBuf := buf } after true :=
      ataDmaHandleRwSectors_spec sound.device length fits
    have kept := crypted.kept
    refine .inr ⟨{ after with shadowPrd := prd }, table, ?_, ?_⟩
    · rw [copies]
      dsimp only [bind, Except.bind, pure, Except.pure]
      rw [crypts]
      dsimp only
      rw [crypted.prd, sets]
    · refine ⟨found, total, least, prds.trans sound.prd, crypted.length.trans length, kept.flag, kept.lba,
        kept.sectorCount, kept.deviceReg, kept.device, ?_, ?_⟩
      · rw [write]
        exact kept.state
      · intro _ flag small i less size bound
        have value := crypted.value flag small i less
        change sector w.chan.ataGetAtaDevice.storageSectorSize.toInt.toNat i after.shadowBuf = handled true
          (fate w.chan.ataGetAtaDevice.storage (w.chan.lba.toNat + i)) (w.chan.lba.toNat + i)
            (sector w.chan.ataGetAtaDevice.storageSectorSize.toInt.toNat i buf) at value
        have front : sector sectorBytes i buf = sector sectorBytes i (gathered w.memory table) := by
          rw [← filled]
          exact sector_append (by rw [gathers]; exact bound) (Nat.lt_succ_self i)
        rw [size, front] at value
        exact value

theorem start_read (sound : Sound drives w) {value : UInt8} (start : starts value = true)
    (state : w.chan.state = .dmaReady) (read : startsRead value = true) :
    ataBmHandleCommand w.chan w.memory value = .error .panic ∨
      ∃ after table, ataBmHandleCommand w.chan w.memory value = .ok after ∧ Started w value after table := by
  have notBlocked : ¬ (¬ starts value = true ∨ w.chan.state ≠ .dmaReady) := by simp [start, state]
  have whole : ataBmTotalBufsize = w.chan.shadowPrd.length * ataBmBufsize := by rw [sound.prd]; rfl
  rw [ataBmHandleCommand, if_neg notBlocked, read]
  dsimp only
  rw [if_pos rfl]
  rcases totalDmaCount_spec w.memory ataBmTotalBufsize w.chan.guestPrdPhys.toNat 0 (by omega) (Nat.zero_le _) with
    panics | ⟨table, found, least, counts⟩
  · rw [panics]
    exact .inl rfl
  · rw [Nat.zero_add] at least counts
    obtain ⟨prd, sets, prds, total⟩ := ataSetShadowPrd_spec w.chan.shadowPrd (tableBytes_pos found)
      (by rw [← whole]; exact least)
    refine .inr ⟨{ w.chan with state := .dmaRead, shadowPrd := prd }, table, ?_, ?_⟩
    · rw [counts]
      dsimp only [bind, Except.bind, pure, Except.pure]
      rw [sets]
    · refine ⟨found, total, least, prds.trans sound.prd, sound.buf, rfl, rfl, rfl, rfl, rfl, ?_, ?_⟩
      · rw [read]
        rfl
      · intro write
        rw [read] at write
        cases write

theorem status_read (sound : Sound drives w) (state : w.chan.state = .dmaRead) (done : hw.bmActive = false)
    (fits : Fits w.chan) :
    ataBmHandleStatus w.chan hw w.memory = .error .panic ∨
      ∃ after pieces count, ataBmHandleStatus w.chan hw w.memory =
          .ok ⟨{ after with state := .ready }, writePieces w.memory pieces, pieces⟩ ∧
        Crypted w.chan after false ∧ pieces.flatMap Piece.bytes = after.shadowBuf.take count ∧
        ∀ table, guestTable w.memory w.chan.guestPrdPhys.toNat = some table → Apart w.chan.guestPrdPhys.toNat table →
          pieces.map Piece.form = table.map Prd.form := by
  obtain ⟨after, crypts, crypted⟩ : ∃ after, ataDmaHandleRwSectors w.chan false = .ok after ∧
      Crypted w.chan after false := ataDmaHandleRwSectors_spec sound.device sound.buf fits
  rw [ataBmHandleStatus, if_neg (by simp [state, done]), if_pos state, crypts]
  dsimp only [bind, Except.bind, pure, Except.pure]
  rcases copyToGuest_spec (crypted.length.trans sound.buf) ataBmTotalBufsize w.memory after.guestPrdPhys.toNat 0
      (by omega) (Nat.zero_le _) with panics | ⟨pieces, count, copies, bytes, -, placed⟩
  · rw [panics]
    exact .inl rfl
  · rw [copies]
    rw [crypted.phys] at placed
    exact .inr ⟨after, pieces, count, rfl, crypted, bytes, placed⟩

theorem Executes.of_same (executes : Executes drives w p) (same : Undisturbed w.chan w'.chan)
    (buf : w'.chan.shadowBuf = w.chan.shadowBuf) (prd : w'.chan.shadowPrd = w.chan.shadowPrd)
    (disk : w'.disk = w.disk) (plain : w'.plain = w.plain) : Executes drives w' p where
  dev := by
    rw [Channel.dev, same.deviceReg]
    exact executes.dev
  lba := by rw [same.lba, executes.lba]
  count := by rw [same.sectorCount, executes.count]
  calm := ⟨by rw [same.flag, executes.calm.flag], by rw [same.state]; exact executes.calm.state⟩
  small := executes.small
  fresh := by
    rw [same.state]
    exact executes.fresh
  read := by
    rw [same.state, buf, disk]
    exact executes.read
  written := by
    rw [same.state, buf, plain, isDisk, same.device]
    exact executes.written
  total := by
    rw [same.state, prd, plain]
    exact executes.total

theorem Executes.ended (executes : Executes drives w p) (lba : w'.chan.lba = w.chan.lba)
    (sectorCount : w'.chan.sectorCount = w.chan.sectorCount) (deviceReg : w'.chan.deviceReg = w.chan.deviceReg)
    (flag : w'.chan.atapiFlag = w.chan.atapiFlag) (state : w'.chan.state = .ready) : Executes drives w' p where
  dev := by
    rw [Channel.dev, deviceReg]
    exact executes.dev
  lba := by rw [lba, executes.lba]
  count := by rw [sectorCount, executes.count]
  calm := ⟨by rw [flag, executes.calm.flag], .inl state⟩
  small := executes.small
  fresh := by
    rw [state]
    rintro ⟨⟩
  read := by
    rw [state]
    rintro ⟨⟩
  written := by
    rw [state]
    rintro ⟨⟩
  total := by
    rw [state]
    rintro (other | other) <;> cases other

theorem lba24_lt (hw : Hardware) (hob : Bool) : lba24 hw hob < 2 ^ 24 := by
  have low := (hw.lbaLow hob).toNat_lt
  have mid := (hw.lbaMid hob).toNat_lt
  have high := (hw.lbaHigh hob).toNat_lt
  simp only [lba24]
  omega

theorem hobCount_bounds (register : Bool → UInt8) : ataGet16bitCount (hobValue register) ≤ 65536 := by
  have bound := (hobValue register).toNat_lt
  rw [ataGet16bitCount]
  split <;> omega

theorem Executes.issued (dev : w.chan.dev = p.dev) (lba : w.chan.lba.toNat = p.lba)
    (count : w.chan.sectorCount.toNat = p.count) (flag : w.chan.atapiFlag = false) (state : w.chan.state = .dmaReady)
    (small : p.lba + p.count ≤ 2 ^ 49) (none : p.moved = 0) : Executes drives w p where
  dev := dev
  lba := lba
  count := count
  calm := ⟨flag, .inr (.inl state)⟩
  small := small
  fresh := fun _ => none
  read := by
    rw [state]
    rintro ⟨⟩
  written := by
    rw [state]
    rintro ⟨⟩
  total := by
    rw [state]
    rintro (other | other) <;> cases other

theorem ataGetLba_lba (hw : Hardware) (ext : Bool) (isLba : channel.isLba = true) :
    ataGetLba channel hw ext = .ok (UInt64.ofNat (if ext then 2 ^ 24 * lba24 hw true + lba24 hw false
      else lba24 hw false + 2 ^ 24 * (channel.deviceReg.toNat % 16))) := by
  rw [ataGetLba, isLba]
  cases ext <;> rfl

theorem ataGetSectorCount_toNat (hw : Hardware) (ext : Bool) : (ataGetSectorCount hw ext).toNat =
    if ext then ataGet16bitCount (hobValue hw.sectorCount)
      else if hw.sectorCount false = 0 then 256 else (hw.sectorCount false).toNat := by
  have counts := hobCount_bounds hw.sectorCount
  rw [ataGetSectorCount]
  cases ext
  · rw [if_neg Bool.false_ne_true, if_neg Bool.false_ne_true, ataGet8bitCount]
    split
    · rfl
    · exact UInt8.toNat_toUInt32 _
  · rw [if_pos rfl, if_pos rfl, UInt32.toNat_ofNat', Nat.mod_eq_of_lt (by omega)]

def registerLba (hw : Hardware) (ext : Bool) : Nat :=
  if ext then 2 ^ 24 * lba24 hw true + lba24 hw false else lba24 hw false + 2 ^ 24 * (hw.device.toNat % 16)

theorem registerLba_lt (hw : Hardware) (ext : Bool) : registerLba hw ext < 2 ^ 48 := by
  have low := lba24_lt hw false
  have high := lba24_lt hw true
  rw [registerLba]
  split <;> omega

theorem ataHandleCmdRw_lba (hw : Hardware) (write ext : Bool) (isLba : channel.isLba = true)
    (device : channel.deviceReg = hw.device) : ∃ blockSize, ataHandleCmdRw channel hw write ext = .ok
      ({ channel with
          pioBlockSize := blockSize
          pioBufHandler := .pioData
          write := write
          lba := UInt64.ofNat (registerLba hw ext)
          sectorCount := ataGetSectorCount hw ext }, true) := by
  rw [ataHandleCmdRw, ataGetLba_lba hw ext isLba, device]
  exact ⟨_, rfl⟩

theorem command_executes {value : UInt8} {handled : Handled κ} (command : driveCommand hw value = some p)
    (ran : ataHandleCommand w.chan hw value = .ok handled) (chan : w'.chan = handled.1) : Executes drives w' p := by
  rw [driveCommand] at command
  obtain ⟨⟨cls, mode⟩, same⟩ := Option.ite_none_right_eq_some.mp command
  have first := registerLba_lt hw (ataGetCmdType value).ext
  have number := ataGetSectorCount_toNat hw (ataGetCmdType value).ext
  have counts := hobCount_bounds hw.sectorCount
  have eight := (hw.sectorCount false).toNat_lt
  have most : (ataGetSectorCount hw (ataGetCmdType value).ext).toNat ≤ 65536 := by
    rw [number]
    split
    · exact counts
    · split <;> omega
  obtain ⟨blockSize, handles⟩ := @ataHandleCmdRw_lba κ { w.chan with
    deviceReg := hw.device, state := nextState .dma, atapiFlag := false } hw (ataGetCmdType value).write
      (ataGetCmdType value).ext mode rfl
  rw [ataHandleCommand, cmdHandler, cls] at ran
  dsimp only at ran
  rw [handles, Except.ok.injEq] at ran
  rw [← ran] at chan
  rw [Option.some.injEq] at same
  rw [← same]
  apply Executes.issued
  · rw [chan]
    rfl
  · rw [chan]
    exact UInt64.toNat_ofNat_of_lt' (Nat.lt_trans first (by decide))
  · rw [chan]
    exact number
  · rw [chan]
  · rw [chan]
    rfl
  · rw [← number]
    change registerLba hw (ataGetCmdType value).ext + (ataGetSectorCount hw (ataGetCmdType value).ext).toNat ≤ _
    omega
  · rfl

def World.after (w : World κ) (a : Access) (hw : Hardware) (reply : BmReply κ) : World κ :=
  { w with
    chan := reply.channel
    memory := reply.memory
    written := fun dev x => if isDisk reply.channel dev then w.written dev x else none
    pending := pendingAfter hw w.pending a
    plain := plainAfter w a }

variable (sound : Sound drives w)
include sound

theorem sound_plain {a : Access} {reply : BmReply κ} (plain : a.plain = true)
    (ran : access w.chan hw w.memory a = .ok reply) : Sound drives (w.after a hw reply) := by
  have framed : Framed w.chan reply.channel := by
    have framing : Framing BmReply.channel w.chan (access w.chan hw w.memory a) := access_framing plain
    rwa [ran] at framing
  have same : plainAfter w a = w.plain := by cases a <;> first | rfl | cases plain
  refine ⟨?_, ?_, fun dev => (sound.device dev).trans (framed.device dev), sound.disk, ?_, ?_⟩
  · exact (congrArg List.length framed.buf).trans sound.buf
  · exact (congrArg List.length framed.prd).trans sound.prd
  · intro dev x plain written
    obtain ⟨disk, before⟩ := Option.ite_none_right_eq_some.mp written
    exact ⟨disk, (sound.written dev x plain before).2⟩
  · intro p (pending : pendingAfter hw w.pending a = some p)
    have kept : (∀ value, a ≠ .command value) → (∀ value, a = .deviceControl value → bit value 2 = false) →
        w.pending = some p → Executes drives (w.after a hw reply) p := by
      intro noCommand noReset before
      have executes := sound.pending p before
      exact executes.of_same (access_undisturbed plain executes.calm noCommand noReset ran) framed.buf framed.prd rfl same
    cases a with
    | command value =>
      obtain ⟨handled, handles, rfl⟩ : ∃ handled, ataHandleCommand w.chan hw value = .ok handled ∧
          (⟨handled.1, w.memory, []⟩ : BmReply κ) = reply := by
        cases handles : ataHandleCommand w.chan hw value with
        | error stop =>
          rw [access, handles] at ran
          cases ran
        | ok handled =>
          rw [access, handles] at ran
          cases ran
          exact ⟨handled, rfl, rfl⟩
      exact command_executes pending handles rfl
    | deviceControl value =>
      cases reset : bit value 2
      · rw [pendingAfter, reset] at pending
        refine kept (by simp) (fun other same => ?_) pending
        cases same
        exact reset
      · rw [pendingAfter, reset] at pending
        cases pending
    | data write bytes => exact kept (by simp) (by simp) pending
    | features value => exact kept (by simp) (by simp) pending
    | status => exact kept (by simp) (by simp) pending
    | interruptReason => exact kept (by simp) (by simp) pending
    | bmCommand value => cases plain
    | bmStatus => cases plain
    | prdTable offset bytes => exact kept (by simp) (by simp) pending
    | other => exact kept (by simp) (by simp) pending

theorem sound_started {value : UInt8} {after : Channel κ} {table : List Prd}
    (start : starts value = true) (state : w.chan.state = .dmaReady) (started : Started w value after table) :
    Sound drives { w with
      chan := after
      written := fun dev x => if isDisk after dev then w.written dev x else none
      plain := plainAfter w (.bmCommand value) } := by
  have plain : plainAfter w (.bmCommand value) = gathered w.memory table := by
    rw [plainAfter, if_pos ⟨start, state⟩, started.found]
  have length : (gathered w.memory table).length = tableBytes table := length_gathered _ _
  have total : described after.shadowPrd = some (tableBytes table) := started.described
  refine ⟨started.buf, started.prd, ?_, sound.disk, ?_, ?_⟩
  · rw [started.device]
    exact sound.device
  · intro dev x plain written
    obtain ⟨disk, before⟩ := Option.ite_none_right_eq_some.mp written
    exact ⟨disk, (sound.written dev x plain before).2⟩
  · intro p pending
    have executes := sound.pending p pending
    have none := executes.fresh state
    have state' : after.state = .dmaRead ∨ after.state = .dmaWrite := by
      rw [started.state]
      split
      · exact .inl rfl
      · exact .inr rfl
    refine ⟨?_, ?_, ?_, ⟨?_, .inr (.inr state')⟩, executes.small, ?_, ?_, ?_, ?_⟩
    · rw [Channel.dev, started.deviceReg]
      exact executes.dev
    · rw [started.lba, executes.lba]
    · rw [started.sectorCount, executes.count]
    · rw [started.flag, executes.calm.flag]
    · intro other
      rcases state' with same | same <;> cases same.symm.trans other
    · intro _
      rw [none]
      exact ⟨Nat.zero_le _, fun i less => absurd less (Nat.not_lt_zero i)⟩
    · intro writing disk i less bound
      have write : startsRead value = false := by
        cases read : startsRead value
        · rfl
        · rw [started.state, read] at writing
          cases writing
      rw [isDisk, started.device] at disk
      obtain ⟨keys, size⟩ := disk_device sound.device disk
      have same : w.chan.ataGetAtaDevice = w.chan.device p.dev := by rw [Channel.ataGetAtaDevice, executes.dev]
      rw [plain, length] at bound
      have coded := started.value write executes.calm.flag (by rw [executes.lba, executes.count]; exact executes.small) i
        (by rw [executes.count]; exact less) (by rw [same, size]; rfl) bound
      rw [same, keys, executes.lba] at coded
      rw [plain]
      exact coded
    · intro _
      refine ⟨_, total, started.fits, fun _ => ?_⟩
      rw [plain, length]

theorem sound_finished {after : Channel κ} {memory : Memory} (length : after.shadowBuf.length = w.chan.shadowBuf.length)
    (prd : after.shadowPrd = w.chan.shadowPrd) (kept : Undisturbed w.chan after) : Sound drives { w with
      chan := { after with state := .ready }
      memory := memory
      written := fun dev x => if isDisk { after with state := .ready } dev then w.written dev x else none } := by
  refine ⟨length.trans sound.buf, (congrArg List.length prd).trans sound.prd, ?_, sound.disk, ?_, ?_⟩
  · intro dev
    change Kept _ (after.device dev)
    rw [kept.device]
    exact sound.device dev
  · intro dev x plain written
    obtain ⟨disk, before⟩ := Option.ite_none_right_eq_some.mp written
    exact ⟨disk, (sound.written dev x plain before).2⟩
  · intro p pending
    exact (sound.pending p pending).ended kept.lba kept.sectorCount kept.deviceReg kept.flag rfl

theorem sound_written {count total : Nat} (pending : w.pending = some p)
    (write : p.write = true) (state : w.chan.state = .dmaWrite) (less : p.moved + count ≤ p.count)
    (length : described w.chan.shadowPrd = some total) (fits : (p.moved + count) * sectorBytes ≤ total) :
    Sound drives (move w p count) := by
  have executes := sound.pending p pending
  obtain ⟨total', same, most, exact⟩ := executes.total (.inr state)
  rw [length, Option.some.injEq] at same
  have plain : total = w.plain.length := same.trans (exact state)
  rw [move, write]
  dsimp only
  rw [if_pos rfl]
  have held : ∀ i, p.lba + p.moved ≤ i → i < p.lba + p.moved + count → isDisk w.chan p.dev = true →
      sector sectorBytes (i - (p.lba + p.moved)) (w.chan.shadowBuf.drop (p.moved * sectorBytes)) =
        encrypted (drives.storage p.dev) i
          (sector sectorBytes (i - (p.lba + p.moved)) (w.plain.drop (p.moved * sectorBytes))) := by
    intro i above below disk
    have bound : (i - p.lba + 1) * sectorBytes ≤ (p.moved + count) * sectorBytes := Nat.mul_le_mul_right _ (by omega)
    have coded := executes.written state disk (i - p.lba) (by omega) (by omega)
    rw [sector_drop, sector_drop, show p.moved + (i - (p.lba + p.moved)) = i - p.lba by omega, coded,
      show p.lba + (i - p.lba) = i by omega]
  refine ⟨sound.buf, sound.prd, sound.device, ?_, ?_, ?_⟩
  · intro dev x
    dsimp only
    by_cases other : dev = p.dev
    · rw [other, update_self, store]
      split
      · rename_i inside
        have bound : (x - (p.lba + p.moved) + 1 + p.moved) * sectorBytes ≤ (p.moved + count) * sectorBytes :=
          Nat.mul_le_mul_right _ (by omega)
        have buf := sound.buf
        rw [Nat.add_mul] at bound
        exact length_sector (by rw [List.length_drop]; omega)
      · exact sound.disk p.dev x
    · rw [update_of_ne other]
      exact sound.disk dev x
  · intro dev x plain' written
    dsimp only at written ⊢
    by_cases other : dev = p.dev
    · rw [other, update_self] at written
      rw [other, update_self, store]
      by_cases disk : isDisk w.chan p.dev = true
      · rw [if_pos disk, note] at written
        by_cases inside : p.lba + p.moved ≤ x ∧ x < p.lba + p.moved + count
        · rw [if_pos inside, Option.some.injEq] at written
          rw [if_pos inside, ← written]
          exact ⟨disk, held x inside.1 inside.2 disk⟩
        · rw [if_neg inside] at written ⊢
          exact sound.written p.dev x plain' written
      · rw [if_neg disk] at written
        exact absurd (sound.written p.dev x plain' written).1 disk
    · rw [update_of_ne other] at written ⊢
      exact sound.written dev x plain' written
  · intro q same'
    cases same'
    refine ⟨executes.dev, executes.lba, executes.count, executes.calm, executes.small, ?_, ?_, executes.written,
      executes.total⟩
    · intro ready
      cases state.symm.trans ready
    · intro reading
      cases state.symm.trans reading

theorem sound_read {count total : Nat} (pending : w.pending = some p)
    (read : p.write = false) (state : w.chan.state = .dmaRead) (less : p.moved + count ≤ p.count)
    (length : described w.chan.shadowPrd = some total) (fits : (p.moved + count) * sectorBytes ≤ total) :
    Sound drives (move w p count) := by
  have executes := sound.pending p pending
  obtain ⟨total', same, most, -⟩ := executes.total (.inl state)
  rw [length, Option.some.injEq] at same
  have buf := sound.buf
  rw [Nat.add_mul] at fits
  have front : (w.chan.shadowBuf.take (p.moved * sectorBytes)).length = p.moved * sectorBytes := by
    rw [List.length_take, Nat.min_eq_left (by omega)]
  have fetched := length_fetch (sound.disk p.dev) (p.lba + p.moved) count
  have both : (w.chan.shadowBuf.take (p.moved * sectorBytes) ++ fetch (w.disk p.dev) (p.lba + p.moved) count).length =
      (p.moved + count) * sectorBytes := by
    rw [List.length_append, front, fetched, Nat.add_mul]
  rw [move, read]
  dsimp only
  rw [if_neg Bool.false_ne_true]
  refine ⟨?_, sound.prd, sound.device, sound.disk, sound.written, ?_⟩
  · dsimp only
    rw [List.length_append, both, List.length_drop, buf, Nat.add_mul]
    omega
  · intro q same'
    cases same'
    refine ⟨executes.dev, executes.lba, executes.count, ⟨executes.calm.flag, executes.calm.state⟩, executes.small, ?_,
      ?_, ?_, executes.total⟩
    · intro ready
      cases state.symm.trans ready
    · intro _
      refine ⟨less, fun i inside => ?_⟩
      dsimp only at inside ⊢
      rw [sector_append (Nat.le_of_eq both.symm) inside]
      by_cases before : i < p.moved
      · rw [sector_append (Nat.le_of_eq front.symm) before, sector_take _ before]
        exact (executes.read state).2 i before
      · obtain ⟨j, rfl⟩ := Nat.exists_eq_add_of_le (Nat.le_of_not_lt before)
        rw [sector_behind front, sector_fetch (sound.disk p.dev) j _ _ (by omega), Nat.add_assoc]
    · intro writing
      cases state.symm.trans writing

end DisasVisor.Ata
