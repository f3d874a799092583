import DisasVisor.Ata.BusMasterSteps
import DisasVisor.Lib.Transitions

/-!
Runs of a channel with its drives, and when the DMA buffer is left alone outside of its bounds.
-/

namespace DisasVisor.Ata

open Function DisasVisor.Storage Transitions List

variable {κ : Type} {drives : Drives κ} {w : World κ}

def Good (drives : Drives κ) (w : World κ) (event : Event) : Prop :=
  Faithful drives w event ∧ ∀ r, exec w event = .ok r → Sound drives r.world

variable {event : Event} {a : Access} {hw : Hardware} {value : UInt8}

theorem good_of_error {stop : Stop} (stops : exec w event = .error stop) (other : stop ≠ .outside) :
    Good drives w event := by
  have never : ∀ r, exec w event ≠ .ok r := by
    intro r ran
    cases stops.symm.trans ran
  refine ⟨⟨?_, ?_, ?_, ?_, ?_⟩, fun r ran => absurd ran (never r)⟩
  · rw [stops]
    exact fun same => other (Except.error.inj same)
  · exact fun _ _ r _ _ _ ran => absurd ran (never r)
  · exact fun r ran => absurd ran (never r)
  · exact fun _ r _ _ _ _ _ _ ran => absurd ran (never r)
  · exact fun _ r _ _ _ _ ran => absurd ran (never r)

theorem good_of_ok {r : Result κ} (ran : exec w event = .ok r) (sound : Sound drives r.world)
    (started : ∀ value hw, event = .access (.bmCommand value) hw → starts value = true → w.chan.state = .dmaReady →
      ∃ table, guestTable w.memory w.chan.guestPrdPhys.toNat = some table ∧
        described r.world.chan.shadowPrd = some (tableBytes table))
    (read : ∀ hw p, event = .access .bmStatus hw → w.chan.state = .dmaRead → hw.bmActive = false →
      w.pending = some p → ∀ i < p.moved, (i + 1) * sectorBytes ≤ (r.pieces.flatMap Piece.bytes).length →
        ∀ plain, w.written p.dev (p.lba + i) = some plain → sector sectorBytes i (r.pieces.flatMap Piece.bytes) = plain)
    (placed : ∀ hw table, event = .access .bmStatus hw → w.chan.state = .dmaRead → hw.bmActive = false →
      guestTable w.memory w.chan.guestPrdPhys.toNat = some table → Apart w.chan.guestPrdPhys.toNat table →
        r.pieces.map Piece.form = table.map Prd.form ∧ r.world.memory = writePieces w.memory r.pieces) :
    Good drives w event := by
  have only : ∀ r', exec w event = .ok r' → r' = r := by
    intro r' ran'
    rw [ran, Except.ok.injEq] at ran'
    exact ran'.symm
  refine ⟨⟨?_, ?_, ?_, ?_, ?_⟩, ?_⟩
  · rw [ran]
    rintro ⟨⟩
  · intro value hw r' same start state ran'
    rw [only r' ran']
    exact started value hw same start state
  · intro r' ran' dev x plain written
    rw [only r' ran'] at written ⊢
    exact (sound.written dev x plain written).2
  · intro hw r' p same state done pending _ ran'
    rw [only r' ran']
    exact read hw p same state done pending
  · intro hw r' table same state done ran'
    rw [only r' ran']
    exact placed hw table same state done
  · intro r' ran'
    rw [only r' ran']
    exact sound

theorem good_of_sound {r : Result κ} (ran : exec w event = .ok r) (sound : Sound drives r.world)
    (noStart : ∀ value hw, event = .access (.bmCommand value) hw → ¬ (starts value = true ∧ w.chan.state = .dmaReady))
    (noEnd : ∀ hw, event = .access .bmStatus hw → ¬ (w.chan.state = .dmaRead ∧ hw.bmActive = false)) :
    Good drives w event :=
  good_of_ok ran sound (fun value hw same start state => absurd ⟨start, state⟩ (noStart value hw same))
    (fun hw _ same state done _ => absurd ⟨state, done⟩ (noEnd hw same))
    fun hw _ same state done _ => absurd ⟨state, done⟩ (noEnd hw same)

theorem exec_access_error {stop : Stop} (stops : access w.chan hw w.memory a = .error stop) :
    exec w (.access a hw) = .error stop := by
  rw [exec, stops]

theorem exec_access_ok {reply : BmReply κ} (ran : access w.chan hw w.memory a = .ok reply) :
    exec w (.access a hw) = .ok ⟨w.after a hw reply, reply.pieces⟩ := by
  rw [exec, ran]
  rfl

theorem good_plain (sound : Sound drives w) (plain : a.plain = true) : Good drives w (.access a hw) := by
  have framing : Framing BmReply.channel w.chan (access w.chan hw w.memory a) := access_framing plain
  cases ran : access w.chan hw w.memory a with
  | error stop =>
    rw [ran] at framing
    exact good_of_error (exec_access_error ran) framing
  | ok reply =>
    refine good_of_sound (exec_access_ok ran) (sound_plain sound plain ran) (fun value _ same => ?_) fun _ same => ?_
    · cases same
      cases plain
    · cases same
      cases plain

section

variable (quiet : ¬ (starts value = true ∧ w.chan.state = .dmaReady))
include quiet

theorem ataBmHandleCommand_quiet : ataBmHandleCommand w.chan w.memory value = .ok w.chan := by
  rw [ataBmHandleCommand, if_pos]
  by_cases start : starts value = true
  · exact .inr fun state => quiet ⟨start, state⟩
  · exact .inl start

theorem plainAfter_quiet : plainAfter w (.bmCommand value) = w.plain := by
  rw [plainAfter, if_neg quiet]

end

theorem sound_same (sound : Sound drives w) (pending : pendingAfter hw w.pending a = w.pending)
    (plain : plainAfter w a = w.plain) : Sound drives (w.after a hw ⟨w.chan, w.memory, []⟩) := by
  refine ⟨sound.buf, sound.prd, sound.device, sound.disk, fun dev x plain written => ?_, fun p held => ?_⟩
  · exact sound.written dev x plain (Option.ite_none_right_eq_some.mp written).2
  · exact (sound.pending p (pending.symm.trans held)).of_same (Undisturbed.refl _) rfl rfl rfl plain

theorem access_bmCommand {after : Channel κ} (handles : ataBmHandleCommand w.chan w.memory value = .ok after) :
    access w.chan hw w.memory (.bmCommand value) = .ok ⟨after, w.memory, []⟩ := by
  rw [access, handles]
  rfl

section

variable (sound : Sound drives w)
include sound

theorem good_bmCommand (regular : Regular w (.access (.bmCommand value) hw)) :
    Good drives w (.access (.bmCommand value) hw) := by
  by_cases quiet : starts value = true ∧ w.chan.state = .dmaReady
  · obtain ⟨start, state⟩ := quiet
    have outcome : ataBmHandleCommand w.chan w.memory value = .error .panic ∨
        ∃ after table, ataBmHandleCommand w.chan w.memory value = .ok after ∧ Started w value after table := by
      cases read : startsRead value
      · exact start_write sound start state read (regular start read state)
      · exact start_read sound start state read
    rcases outcome with panics | ⟨after, table, handles, started⟩
    · have stops : access w.chan hw w.memory (.bmCommand value) = .error .panic := by
        rw [access, panics]
        rfl
      exact good_of_error (exec_access_error stops) (by simp)
    · exact good_of_ok (exec_access_ok (access_bmCommand handles)) (sound_started sound start state started)
        (fun _ _ _ _ _ => ⟨table, started.found, started.described⟩) (fun _ _ same => by cases same)
        fun _ _ same => by cases same
  · refine good_of_sound (exec_access_ok (access_bmCommand (ataBmHandleCommand_quiet quiet)))
      (sound_same sound rfl (plainAfter_quiet quiet)) (fun other _ same => ?_) fun _ same => by cases same
    cases same
    exact quiet

theorem read_back {after : Channel κ} {p : Pending} {i count : Nat} {plain : List UInt8}
    (state : w.chan.state = .dmaRead) (crypted : Crypted w.chan after false) (pending : w.pending = some p)
    (less : i < p.moved) (bound : (i + 1) * sectorBytes ≤ (after.shadowBuf.take count).length)
    (written : w.written p.dev (p.lba + i) = some plain) :
    sector sectorBytes i (after.shadowBuf.take count) = plain := by
  have executes := sound.pending p pending
  obtain ⟨within, fetched⟩ := executes.read state
  obtain ⟨disk, stored⟩ := sound.written p.dev (p.lba + i) plain written
  obtain ⟨keys, size⟩ := disk_device sound.device disk
  have same : w.chan.ataGetAtaDevice = w.chan.device p.dev := by rw [Channel.ataGetAtaDevice, executes.dev]
  have value := crypted.value executes.calm.flag (by rw [executes.lba, executes.count]; exact executes.small) i
    (by rw [executes.count]; omega)
  rw [same, keys, size, executes.lba] at value
  change sector sectorBytes i after.shadowBuf =
    handled false (fate (drives.storage p.dev) (p.lba + i)) (p.lba + i) (sector sectorBytes i w.chan.shadowBuf) at value
  have front : sector sectorBytes i (after.shadowBuf.take count) = sector sectorBytes i after.shadowBuf := by
    have whole : sector sectorBytes i (after.shadowBuf.take count ++ after.shadowBuf.drop count) =
        sector sectorBytes i (after.shadowBuf.take count) := sector_append bound (Nat.lt_succ_self i)
    rw [take_append_drop] at whole
    exact whole.symm
  rw [front, value, fetched i less, stored]
  exact handled_encrypted (drives.inverse p.dev) _ _

theorem good_bmStatus (regular : Regular w (.access .bmStatus hw)) : Good drives w (.access .bmStatus hw) := by
  by_cases ends : w.chan.state = .dmaRead ∧ hw.bmActive = false
  · obtain ⟨state, done⟩ := ends
    rcases status_read sound state done (regular state done) with
      panics | ⟨after, pieces, count, handles, crypted, bytes, placed⟩
    · exact good_of_error (exec_access_error panics) (by simp)
    · refine good_of_ok (exec_access_ok handles) (sound_finished sound crypted.length crypted.prd crypted.kept)
        (fun _ _ same => by cases same) ?_ ?_
      · intro _ p _ _ _ pending i less bound plain written
        dsimp only at bound ⊢
        rw [bytes] at bound ⊢
        exact read_back sound state crypted pending less bound written
      · intro _ table _ _ _ found apart
        exact ⟨placed table found apart, rfl⟩
  · by_cases stays : w.chan.state ≠ .dmaRead ∧ w.chan.state ≠ .dmaWrite ∨ hw.bmActive = true
    · have handles : access w.chan hw w.memory .bmStatus = .ok ⟨w.chan, w.memory, []⟩ := by
        rw [access, ataBmHandleStatus, if_pos stays]
      refine good_of_sound (exec_access_ok handles) (sound_same sound rfl rfl) (fun _ _ same => by cases same)
        fun other same => ?_
      cases same
      exact ends
    · have notRead : w.chan.state ≠ .dmaRead := by
        intro state
        refine ends ⟨state, ?_⟩
        cases active : hw.bmActive
        · rfl
        · exact absurd (.inr active) stays
      have handles : access w.chan hw w.memory .bmStatus = .ok ⟨{ w.chan with state := .ready }, w.memory, []⟩ := by
        rw [access, ataBmHandleStatus, if_neg stays, if_neg notRead]
      refine good_of_sound (exec_access_ok handles) (sound_finished sound rfl rfl (Undisturbed.refl _))
        (fun _ _ same => by cases same) fun other same => ?_
      cases same
      exact ends

theorem good_transfer {count : Nat} (wellFormed : WellFormed w (.transfer count)) :
    Good drives w (.transfer count) := by
  obtain ⟨p, total, pending, state, less, length, fits⟩ := wellFormed
  have ran : exec w (.transfer count) = .ok ⟨move w p count, []⟩ := by rw [exec, pending]
  refine good_of_sound ran ?_ (fun _ _ same => by cases same) fun _ same => by cases same
  cases write : p.write
  · rw [write, if_neg Bool.false_ne_true] at state
    exact sound_read sound pending write state less length fits
  · rw [write, if_pos rfl] at state
    exact sound_written sound pending write state less length fits

theorem good_drive {dev : Bool} {disk : Nat → { s : List UInt8 // s.length = sectorBytes }}
    (wellFormed : WellFormed w (.drive dev disk)) : Good drives w (.drive dev disk) := by
  refine good_of_sound rfl ⟨sound.buf, sound.prd, sound.device, ?_, ?_, ?_⟩ (fun _ _ same => by cases same)
    fun _ same => by cases same
  · intro dev' x
    dsimp only
    by_cases other : dev' = dev
    · rw [other, update_self]
      exact (disk x).property
    · rw [update_of_ne other]
      exact sound.disk dev' x
  · intro dev' x plain written
    dsimp only at written ⊢
    by_cases other : dev' = dev
    · rw [other, update_self] at written
      obtain ⟨unchanged, before⟩ := Option.ite_none_right_eq_some.mp written
      rw [other, update_self, unchanged]
      exact sound.written dev x plain before
    · rw [update_of_ne other] at written ⊢
      exact sound.written dev' x plain written
  · intro p pending
    cases (wellFormed : w.pending = none).symm.trans pending

theorem good_exec (wellFormed : WellFormed w event) (regular : Regular w event) : Good drives w event := by
  cases event with
  | guest memory =>
    refine good_of_sound rfl ⟨sound.buf, sound.prd, sound.device, sound.disk, sound.written, fun p pending => ?_⟩
      (by simp) (by simp)
    exact (sound.pending p pending).of_same (Undisturbed.refl _) rfl rfl rfl rfl
  | access a hw =>
    cases plain : a.plain
    · cases a with
      | bmCommand value => exact good_bmCommand sound regular
      | bmStatus => exact good_bmStatus sound regular
      | _ => cases plain
    · exact good_plain sound plain
  | transfer count => exact good_transfer sound wellFormed
  | drive dev disk => exact good_drive sound wellFormed

end

theorem sound_start (memory : Memory) (disk : Bool → Nat → { s : List UInt8 // s.length = sectorBytes }) :
    Sound drives (World.start drives memory disk) where
  buf := length_replicate
  prd := rfl
  device := fun dev => Kept.refl _
  disk := fun dev x => (disk dev x).property
  written := by simp [World.start]
  pending := by simp [World.start]

def RegularStep (before : World κ) (event : Event) (after : World κ) : Prop :=
  WellFormed before event ∧ Regular before event ∧ ∃ r, exec before event = .ok r ∧ r.world = after

/-- However the guest rewrites its tables and its pointer, and whatever it does with the other registers: as long
as the sectors of a transfer fit into the buffer when it is en- or decrypted, nothing outside of the buffer is
touched, the shadow table is as long as the table of the guest, and reads give what was written. -/
theorem run_faithful (drives : Drives κ) (memory : Memory)
    (disk : Bool → Nat → { s : List UInt8 // s.length = sectorBytes }) (events : List Event) (w : World κ)
    (run : Run RegularStep (World.start drives memory disk) events w) (event : Event) (wellFormed : WellFormed w event)
    (regular : Regular w event) : Faithful drives w event := by
  have sound : Sound drives w := by
    refine run.keeps (Sound drives) ?_ (sound_start memory disk)
    rintro before event after ⟨wellFormed, regular, r, ran, rfl⟩ sound
    exact (good_exec sound wellFormed regular).2 r ran
  exact (good_exec sound wellFormed regular).1

def invert : Crypto Unit where
  encrypt := fun _ _ sector => sector.map (· ^^^ 0xFF)
  decrypt := fun _ _ sector => sector.map (· ^^^ 0xFF)
  setkey := fun _ _ => ()

def wideKey : StorageKeys Unit := ⟨0, 0xFFFFFFFFFFFFFFFF, invert, ()⟩

theorem crypt_wideKey (write : Bool) (lba : UInt64) (sector : List UInt8) :
    wideKey.crypt write lba sector = sector.map (· ^^^ 0xFF) := by
  cases write <;> rfl

def invertedDrives : Drives Unit where
  storage := fun _ => [wideKey]
  atapiStorage := fun _ => none
  keeps := by
    intro dev key member write lba sector
    rw [mem_singleton.mp member, crypt_wideKey, length_map]
  keepsAtapi := by simp
  inverse := by
    intro dev key member lba sector
    have twice : ((· ^^^ 0xFF) ∘ (· ^^^ 0xFF) : UInt8 → UInt8) = id := by
      funext byte
      change byte ^^^ 0xFF ^^^ 0xFF = byte
      rw [UInt8.xor_assoc, UInt8.xor_self, UInt8.xor_zero]
    rw [mem_singleton.mp member, crypt_wideKey, crypt_wideKey, map_map, twice, map_id]

def onePrd : Memory := fun x => if x = 7 then 0x80 else 0

def taskFile (low high : UInt8) : Hardware where
  sectorCount := fun hob => if hob then high else low
  lbaLow := fun _ => 0
  lbaMid := fun _ => 0
  lbaHigh := fun _ => 0
  device := 0x40
  status := 0x50
  altStatus := 0x50
  interruptReason := 0
  byteCountLow := 0
  byteCountHigh := 0
  data := fun _ => 0
  bmActive := false
  stack := ⟨.data, .ready, false, 0, 0, 0⟩

def blank (_dev : Bool) (_x : Nat) : { s : List UInt8 // s.length = sectorBytes } :=
  ⟨List.replicate sectorBytes 0, length_replicate⟩

def issued (low high : UInt8) (count : UInt32) : World Unit :=
  (World.start invertedDrives onePrd blank).after (.command 0x35) (taskFile low high)
    ⟨{ ataNewChannel invertedDrives with
        deviceReg := 0x40
        state := .dmaReady
        pioBlockSize := 512
        write := true
        sectorCount := count }, onePrd, []⟩

theorem run_issued {low high : UInt8} {count : UInt32}
    (ran : exec (World.start invertedDrives onePrd blank) (.access (.command 0x35) (taskFile low high)) =
      .ok ⟨issued low high count, []⟩) :
    Run RegularStep (World.start invertedDrives onePrd blank) [.access (.command 0x35) (taskFile low high)]
      (issued low high count) :=
  .cons ⟨trivial, trivial, _, ran, rfl⟩ (.nil _)

theorem run_faithful_start : Faithful invertedDrives (issued 128 0 128) (.access (.bmCommand 1) (taskFile 128 0)) :=
  run_faithful invertedDrives onePrd blank _ _ (run_issued rfl) _ trivial fun _ _ _ => .inr (by decide)

theorem cryptRun_none {crypt : UInt64 → List UInt8 → List UInt8} {size : Nat} (m : Nat) : ∀ {p : Pass},
    p.src.length < m * size → Pass.cryptRun crypt size m p = none := by
  induction m with
  | zero =>
    intro p short
    omega
  | succ m ih =>
    intro p short
    rw [Nat.succ_mul] at short
    rw [Pass.cryptRun]
    split
    · rfl
    · exact ih (by rw [length_drop]; omega)

theorem storageHandleSectors_short {src : List UInt8} (short : src.length < 2048 * 512) :
    storageHandleSectors [wideKey] ⟨0, 2048, 512, true⟩ true src = none := by
  have copies : Pass.copyLoop wideKey.lbaLow 512 ((2048 : UInt32).toNat + 1) ⟨0, 2048, src, []⟩ =
      some ⟨0, 2048, src, []⟩ := by
    rw [Pass.copyLoop, if_neg (show ¬ ((2048 : UInt32) > 0 ∧ wideKey.lbaLow > (0 : UInt64)) by decide)]
  have crypts : Pass.cryptLoop (wideKey.crypt true) wideKey.lbaHigh 512 ((2048 : UInt32).toNat + 1)
      ⟨0, 2048, src, []⟩ = none := by
    have chunk : (minInt (2048 : UInt32).toInt32 (if wideKey.lbaHigh - 0 ≥ 65535 then 65535
        else (wideKey.lbaHigh - 0).toUInt32.toInt32 + 1)).toInt.toNat = 2048 := by decide
    rw [Pass.cryptLoop, if_pos (show (2048 : UInt32) > 0 ∧ wideKey.lbaHigh ≥ (0 : UInt64) by decide)]
    dsimp only
    rw [chunk, cryptRun_none 2048 short]
  rw [storageHandleSectors]
  dsimp only
  rw [keysLoop, if_neg (show ¬ (2048 : UInt32) = 0 by decide), copies]
  dsimp only
  rw [crypts]

theorem start_outside {channel : Channel Unit} (state : channel.state = .dmaReady) (flag : channel.atapiFlag = false)
    (storage : channel.ataGetAtaDevice.storage = [wideKey]) (size : channel.ataGetAtaDevice.storageSectorSize = 512)
    (lba : channel.lba = 0) (count : channel.sectorCount = 2048) (phys : channel.guestPrdPhys.toNat = 0)
    (length : channel.shadowBuf.length = ataBmTotalBufsize) :
    ataBmHandleCommand channel onePrd 1 = .error .outside := by
  have prd : guestPrd onePrd 0 = ⟨0, 65536, true⟩ := by rfl
  have start : ¬ (¬ starts 1 = true ∨ channel.state ≠ .dmaReady) := by
    rintro (other | other)
    · exact other rfl
    · exact other state
  have total : ataBmTotalBufsize = 524288 := rfl
  have fits : 65536 ≤ ataBmTotalBufsize := by omega
  have piece : (onePrd.slice 0 65536).length = 65536 := Memory.length_slice _ _ _
  have filled : (onePrd.slice 0 65536 ++ channel.shadowBuf.drop 65536).length = ataBmTotalBufsize := by
    rw [length_append, piece, length_drop]
    omega
  rw [ataBmHandleCommand, if_neg start, phys]
  dsimp only
  rw [if_neg (show ¬ startsRead 1 = true by decide), copyFromGuest_single prd rfl fits length]
  generalize onePrd.slice 0 65536 ++ channel.shadowBuf.drop 65536 = after at filled
  have short : storageHandleSectors channel.ataGetAtaDevice.storage
      ⟨channel.lba, channel.sectorCount, channel.ataGetAtaDevice.storageSectorSize, true⟩ true after = none := by
    rw [storage, size, lba, count]
    exact storageHandleSectors_short (by omega)
  have crypts : ataDmaHandleRwSectors { channel with state := .dmaWrite, shadowBuf := after } true =
      .error .outside := by
    rw [ataDmaHandleRwSectors]
    dsimp only
    rw [flag, if_neg (by simp)]
    erw [short]
  dsimp only [bind, Except.bind]
  rw [crypts]

/-- 2048 sectors of which the guest names 64 KiB. -/
theorem run_not_faithful : ∃ events w event, Run (fun before event after => WellFormed before event ∧
      ∃ r, exec before event = .ok r ∧ r.world = after) (World.start invertedDrives onePrd blank) events w ∧
    WellFormed w event ∧ ¬ Faithful invertedDrives w event := by
  refine ⟨[.access (.command 0x35) (taskFile 0 8)], issued 0 8 2048, .access (.bmCommand 1) (taskFile 0 8),
    .cons ⟨trivial, _, rfl, rfl⟩ (.nil _), trivial, fun faithful => faithful.inside ?_⟩
  apply exec_access_error
  have outside : ataBmHandleCommand (issued 0 8 2048).chan onePrd 1 = .error .outside :=
    start_outside rfl rfl rfl rfl rfl rfl rfl length_replicate
  change (ataBmHandleCommand (issued 0 8 2048).chan onePrd 1).bind _ = _
  rw [outside]
  rfl

end DisasVisor.Ata
