import DisasVisor.Ata.BusMaster

/-!
The loops of the bus master over a PRD table of the guest.
-/

namespace DisasVisor.Ata

open List

variable {memory : Memory} {fuel phys total : Nat} {table : List Prd}

theorem tableBytes_cons (prd : Prd) (table : List Prd) : tableBytes (prd :: table) = prd.count + tableBytes table := by
  simp [tableBytes]

theorem gathered_cons (prd : Prd) (table : List Prd) :
    gathered memory (prd :: table) = memory.slice prd.base prd.count ++ gathered memory table := by
  simp [gathered]

theorem length_gathered (memory : Memory) (table : List Prd) : (gathered memory table).length = tableBytes table := by
  induction table with
  | nil => rfl
  | cons prd table ih => rw [gathered_cons, length_append, Memory.length_slice, ih, tableBytes_cons]

theorem tableBytes_singleton (prd : Prd) : tableBytes [prd] = prd.count := by
  simp [tableBytes]

theorem gathered_singleton (prd : Prd) : gathered memory [prd] = memory.slice prd.base prd.count := by
  simp [gathered]

theorem tableBytes_pos : ∀ {phys table}, tableFrom memory fuel phys = some table → 0 < tableBytes table := by
  induction fuel with
  | zero =>
    intro phys table found
    cases found
  | succ fuel ih =>
    intro phys table found
    have positive := guestPrd_pos memory phys
    rw [tableFrom] at found
    split at found
    · cases found
      rw [tableBytes_singleton]
      exact positive
    · obtain ⟨rest, -, rfl⟩ := Option.map_eq_some_iff.mp found
      rw [tableBytes_cons]
      omega

theorem totalDmaCount_spec (memory : Memory) (fuel : Nat) : ∀ phys total, ataBmTotalBufsize ≤ total + fuel →
    total ≤ ataBmTotalBufsize →
      totalDmaCount memory phys total = .error .panic ∨
        ∃ table, tableFrom memory fuel phys = some table ∧ total + tableBytes table ≤ ataBmTotalBufsize ∧
          totalDmaCount memory phys total = .ok (total + tableBytes table) := by
  induction fuel with
  | zero =>
    intro phys total enough below
    have positive := guestPrd_pos memory phys
    rw [totalDmaCount, dif_pos (by omega)]
    exact .inl rfl
  | succ fuel ih =>
    intro phys total enough below
    have positive := guestPrd_pos memory phys
    rw [totalDmaCount, tableFrom]
    by_cases more : total + (guestPrd memory phys).count > ataBmTotalBufsize
    · rw [dif_pos more]
      exact .inl rfl
    · rw [dif_neg more]
      by_cases last : (guestPrd memory phys).eot = true
      · rw [if_pos last, if_pos last]
        refine .inr ⟨_, rfl, ?_, ?_⟩
        · rw [tableBytes_singleton]
          omega
        · rw [tableBytes_singleton]
      · rw [if_neg last, if_neg last]
        rcases ih (phys + 8) (total + (guestPrd memory phys).count) (by omega) (by omega) with
          panics | ⟨table, found, fits, counts⟩
        · exact .inl panics
        · refine .inr ⟨guestPrd memory phys :: table, by rw [found]; rfl, ?_, ?_⟩
          · rw [tableBytes_cons]
            omega
          · rw [counts, tableBytes_cons, Nat.add_assoc]

variable {buf bytes : List UInt8}

theorem overwrite_eq {offset : Nat} (fits : offset + bytes.length ≤ buf.length) :
    overwrite buf offset bytes = some (buf.take offset ++ bytes ++ buf.drop (offset + bytes.length)) := by
  rw [overwrite, if_pos fits]

theorem copyFromGuest_spec (memory : Memory) (fuel : Nat) : ∀ phys total buf, ataBmTotalBufsize ≤ total + fuel →
    total ≤ ataBmTotalBufsize → buf.length = ataBmTotalBufsize →
      copyFromGuest memory phys total buf = .error .panic ∨
        ∃ table, tableFrom memory fuel phys = some table ∧ total + tableBytes table ≤ ataBmTotalBufsize ∧
          copyFromGuest memory phys total buf = .ok
            (buf.take total ++ gathered memory table ++ buf.drop (total + tableBytes table),
              total + tableBytes table) := by
  induction fuel with
  | zero =>
    intro phys total buf enough below length
    have positive := guestPrd_pos memory phys
    rw [copyFromGuest, dif_pos (by omega)]
    exact .inl rfl
  | succ fuel ih =>
    intro phys total buf enough below length
    have positive := guestPrd_pos memory phys
    rw [copyFromGuest, tableFrom]
    by_cases more : total + (guestPrd memory phys).count > ataBmTotalBufsize
    · rw [dif_pos more]
      exact .inl rfl
    · have piece := memory.length_slice (guestPrd memory phys).base (guestPrd memory phys).count
      rw [dif_neg more, overwrite_eq (by rw [piece]; omega), piece]
      dsimp only
      by_cases last : (guestPrd memory phys).eot = true
      · rw [if_pos last, if_pos last]
        refine .inr ⟨_, rfl, ?_, ?_⟩
        · rw [tableBytes_singleton]
          omega
        · rw [tableBytes_singleton, gathered_singleton]
      · rw [if_neg last, if_neg last]
        have front : (buf.take total ++ memory.slice (guestPrd memory phys).base (guestPrd memory phys).count).length =
            total + (guestPrd memory phys).count := by
          rw [length_append, piece, length_take, Nat.min_eq_left (by omega)]
        rcases ih (phys + 8) (total + (guestPrd memory phys).count)
            (buf.take total ++ memory.slice (guestPrd memory phys).base (guestPrd memory phys).count ++
              buf.drop (total + (guestPrd memory phys).count)) (by omega) (by omega) (by
            rw [length_append, front, length_drop]
            omega) with panics | ⟨table, found, fits, copies⟩
        · exact .inl panics
        · refine .inr ⟨guestPrd memory phys :: table, by rw [found]; rfl, ?_, ?_⟩
          · rw [tableBytes_cons]
            omega
          · rw [copies, tableBytes_cons, gathered_cons, take_left' front, ← drop_drop,
              drop_left' front, drop_drop, append_assoc (buf.take total), Nat.add_assoc]

theorem copyFromGuest_single {prd : Prd} (found : guestPrd memory phys = prd) (last : prd.eot = true)
    (fits : prd.count ≤ ataBmTotalBufsize) (length : buf.length = ataBmTotalBufsize) :
    copyFromGuest memory phys 0 buf = .ok (memory.slice prd.base prd.count ++ buf.drop prd.count, prd.count) := by
  have piece : (memory.slice prd.base prd.count).length = prd.count := Memory.length_slice _ _ _
  rw [copyFromGuest, found, dif_neg (by omega), overwrite_eq (by rw [piece]; omega), piece]
  dsimp only
  rw [if_pos last, Nat.zero_add, take_zero, nil_append]

theorem guestPrd_congr {other : Memory} {phys : Nat} (same : ∀ x, phys ≤ x → x < phys + 8 → other x = memory x) :
    guestPrd other phys = guestPrd memory phys := by
  have first := same phys (by omega) (by omega)
  have second := same (phys + 1) (by omega) (by omega)
  have third := same (phys + 2) (by omega) (by omega)
  have fourth := same (phys + 2 + 1) (by omega) (by omega)
  have fifth := same (phys + 4) (by omega) (by omega)
  have sixth := same (phys + 4 + 1) (by omega) (by omega)
  have seventh := same (phys + 6) (by omega) (by omega)
  have eighth := same (phys + 6 + 1) (by omega) (by omega)
  simp only [guestPrd, Memory.dword, Memory.word, first, second, third, fourth, fifth, sixth, seventh, eighth]

theorem tableFrom_congr {other : Memory} : ∀ {phys table}, tableFrom memory fuel phys = some table →
    (∀ x, phys ≤ x → x < phys + 8 * table.length → other x = memory x) →
      tableFrom other fuel phys = some table := by
  induction fuel with
  | zero =>
    intro phys table found
    cases found
  | succ fuel ih =>
    intro phys table found same
    rw [tableFrom] at found ⊢
    split at found
    · rename_i last
      cases found
      rw [guestPrd_congr fun x above below => same x above (by rw [length_singleton]; omega), if_pos last]
    · rename_i goesOn
      obtain ⟨rest, later, rfl⟩ := Option.map_eq_some_iff.mp found
      rw [length_cons] at same
      rw [guestPrd_congr fun x above below => same x above (by omega), if_neg goesOn,
        ih later fun x above below => same x (by omega) (by omega), Option.map_some]

theorem writeBytes_outside {start x : Nat} (outside : x < start ∨ start + bytes.length ≤ x) :
    memory.writeBytes start bytes x = memory x := memory.blit_outside _ outside

theorem tableFrom_written {start : Nat} (found : tableFrom memory fuel (phys + 8) = some table)
    (apart : start + bytes.length ≤ phys ∨ phys + 8 * (table.length + 1) ≤ start) :
    tableFrom (memory.writeBytes start bytes) fuel (phys + 8) = some table := by
  apply tableFrom_congr found
  intro x above below
  exact writeBytes_outside (by omega)

def writePieces (memory : Memory) (pieces : List Piece) : Memory :=
  pieces.foldl (fun memory piece => memory.writeBytes piece.base piece.bytes) memory

theorem copyToGuest_spec (length : buf.length = ataBmTotalBufsize) (fuel : Nat) :
    ∀ memory phys total, ataBmTotalBufsize ≤ total + fuel → total ≤ ataBmTotalBufsize →
      copyToGuest buf memory phys total = .error .panic ∨
        ∃ pieces count, copyToGuest buf memory phys total = .ok (writePieces memory pieces, pieces) ∧
          pieces.flatMap Piece.bytes = (buf.drop total).take count ∧ total + count ≤ ataBmTotalBufsize ∧
          ∀ table, tableFrom memory fuel phys = some table → Apart phys table →
            pieces.map Piece.form = table.map Prd.form := by
  induction fuel with
  | zero =>
    intro memory phys total enough below
    have positive := guestPrd_pos memory phys
    rw [copyToGuest, dif_pos (by omega)]
    exact .inl rfl
  | succ fuel ih =>
    intro memory phys total enough below
    have positive := guestPrd_pos memory phys
    rw [copyToGuest, tableFrom]
    by_cases more : total + (guestPrd memory phys).count > ataBmTotalBufsize
    · rw [dif_pos more]
      exact .inl rfl
    · have piece : ((buf.drop total).take (guestPrd memory phys).count).length = (guestPrd memory phys).count := by
        rw [length_take, length_drop]
        omega
      rw [dif_neg more, if_neg (by omega)]
      dsimp only
      by_cases last : (guestPrd memory phys).eot = true
      · rw [if_pos last]
        refine .inr ⟨[⟨(guestPrd memory phys).base, (buf.drop total).take (guestPrd memory phys).count⟩],
          (guestPrd memory phys).count, rfl, append_nil _, by omega, ?_⟩
        intro table found _
        rw [if_pos last] at found
        cases found
        simp [Piece.form, Prd.form, piece]
      · rw [if_neg last]
        rcases ih (memory.writeBytes (guestPrd memory phys).base ((buf.drop total).take (guestPrd memory phys).count))
            (phys + 8) (total + (guestPrd memory phys).count) (by omega) (by omega) with
          panics | ⟨pieces, count, copies, bytes, fits, placed⟩
        · rw [panics]
          exact .inl rfl
        · rw [copies]
          refine .inr ⟨⟨(guestPrd memory phys).base, (buf.drop total).take (guestPrd memory phys).count⟩ :: pieces,
            (guestPrd memory phys).count + count, rfl, ?_, by omega, ?_⟩
          · rw [flatMap_cons, bytes, take_add, drop_drop]
          · intro table found apart
            rw [if_neg last] at found
            obtain ⟨rest, later, rfl⟩ := Option.map_eq_some_iff.mp found
            have here := apart (guestPrd memory phys) mem_cons_self
            rw [length_cons] at here
            have apart' : Apart (phys + 8) rest := by
              intro prd member
              have there := apart prd (mem_cons_of_mem _ member)
              rw [length_cons] at there
              omega
            have found' : tableFrom (memory.writeBytes (guestPrd memory phys).base
                ((buf.drop total).take (guestPrd memory phys).count)) fuel (phys + 8) = some rest :=
              tableFrom_written later (by rw [piece]; exact here)
            rw [map_cons, map_cons, placed rest found' apart', Piece.form, Prd.form, piece]

theorem ataGet16bitCount_full {count : Nat} (positive : 0 < count) (most : count ≤ 65536) :
    ataGet16bitCount (UInt16.ofNat count) = count := by
  rw [ataGet16bitCount]
  split
  · rename_i zero
    have value := congrArg UInt16.toNat zero
    rw [UInt16.toNat_ofNat'] at value
    have none := UInt16.toNat_zero
    omega
  · rename_i nonzero
    rw [UInt16.toNat_ofNat']
    have less : count ≠ 65536 := by
      rintro rfl
      exact nonzero (by decide +kernel)
    omega

theorem ataSetShadowPrd_spec (prds : List ShadowPrd) : ∀ {count}, 0 < count → count ≤ prds.length * ataBmBufsize →
    ∃ after, ataSetShadowPrd count prds = .ok after ∧ after.length = prds.length ∧ described after = some count := by
  induction prds with
  | nil =>
    intro count positive most
    rw [length_nil, Nat.zero_mul] at most
    exact absurd positive (by omega)
  | cons prd prds ih =>
    intro count positive most
    rw [length_cons, Nat.succ_mul] at most
    rw [ataSetShadowPrd]
    by_cases more : count > ataBmBufsize
    · obtain ⟨after, sets, length, total⟩ := ih (show 0 < count - ataBmBufsize by omega) (by omega)
      rw [if_pos more, sets]
      refine ⟨_, rfl, by rw [length_cons, length_cons, length], ?_⟩
      have full : ataGet16bitCount 0 = ataBmBufsize := rfl
      have sum : ataBmBufsize + (count - ataBmBufsize) = count := by omega
      rw [described, if_neg Bool.false_ne_true, total, Option.map_some, full, sum]
    · rw [if_neg more]
      refine ⟨_, rfl, by rw [length_cons, length_cons], ?_⟩
      rw [described, if_pos rfl, ataGet16bitCount_full positive (by rw [ataBmBufsize] at more; omega)]

/-!
What the handlers that are not those of the bus master leave as it is.
-/

variable {κ : Type} {α β : Type}

structure Kept (before after : AtaDevice κ) : Prop where
  atapi : after.atapiStorage = before.atapiStorage
  role : (after.storage = before.storage ∧ after.storageSectorSize = before.storageSectorSize) ∨
    (after.storageSectorSize = 2048 ∧ some after.storage = before.atapiStorage)

theorem Kept.refl (device : AtaDevice κ) : Kept device device := ⟨rfl, .inl ⟨rfl, rfl⟩⟩

theorem Kept.trans {first second third : AtaDevice κ} (early : Kept first second) (late : Kept second third) :
    Kept first third := by
  refine ⟨late.atapi.trans early.atapi, ?_⟩
  rcases late.role with ⟨storage, size⟩ | ⟨size, storage⟩
  · rw [storage, size]
    exact early.role
  · exact .inr ⟨size, storage.trans early.atapi⟩

structure Framed (before after : Channel κ) : Prop where
  buf : after.shadowBuf = before.shadowBuf
  prd : after.shadowPrd = before.shadowPrd
  device : ∀ dev, Kept (before.device dev) (after.device dev)

theorem Framed.trans {first second third : Channel κ} (early : Framed first second) (late : Framed second third) :
    Framed first third :=
  ⟨late.buf.trans early.buf, late.prd.trans early.prd, fun dev => (early.device dev).trans (late.device dev)⟩

theorem framed_of_eq {before after : Channel κ} (buf : after.shadowBuf = before.shadowBuf)
    (prd : after.shadowPrd = before.shadowPrd) (device : after.device = before.device) : Framed before after := by
  refine ⟨buf, prd, fun dev => ?_⟩
  rw [device]
  exact Kept.refl _

theorem Framed.refl (channel : Channel κ) : Framed channel channel := framed_of_eq rfl rfl rfl

theorem framed_update {before after : Channel κ} {device : AtaDevice κ} (buf : after.shadowBuf = before.shadowBuf)
    (prd : after.shadowPrd = before.shadowPrd) (update : after.device = Function.update before.device before.dev device)
    (kept : Kept before.ataGetAtaDevice device) : Framed before after := by
  refine ⟨buf, prd, fun dev => ?_⟩
  rw [update]
  by_cases same : dev = before.dev
  · rw [same, Function.update_self]
    exact kept
  · rw [Function.update_of_ne same]
    exact Kept.refl _

def Framing (channel : α → Channel κ) (before : Channel κ) : Except Stop α → Prop
  | .error stop => stop ≠ .outside
  | .ok result => Framed before (channel result)

theorem Framing.trans {channel : α → Channel κ} {first second : Channel κ} {result : Except Stop α}
    (early : Framed first second) (late : Framing channel second result) : Framing channel first result := by
  cases result with
  | error stop => exact late
  | ok result => exact Framed.trans early late

theorem Framing.map {channel : α → Channel κ} {channel' : β → Channel κ} {before : Channel κ} {change : α → β}
    {result : Except Stop α} (framing : Framing channel before result)
    (same : ∀ value, Framed (channel value) (channel' (change value))) : Framing channel' before (result.map change) := by
  cases result with
  | error stop => exact framing
  | ok result => exact Framed.trans framing (same result)

variable {channel : Channel κ} {hw : Hardware} {write : Bool}

theorem setNames_framing (model : List UInt8) : Framing id channel (setNames channel model) := by
  unfold setNames
  split
  · rintro ⟨⟩
  · exact framed_of_eq rfl rfl rfl

theorem atapiHandlePioIdentifyPacket_framing : Framing Prod.fst channel (atapiHandlePioIdentifyPacket channel) := by
  have kept : ∀ device : AtaDevice κ, Kept channel.ataGetAtaDevice device →
      Framing Prod.fst channel ((setNames (channel.setDevice { device with
        packetLength := if (channel.pioBuf.getD 0 0).toNat % 4 = 0 then 12 else 16 }) atapiVirtualModel).map
          fun channel => (channel, true)) := by
    intro device kept
    have early : Framed channel (channel.setDevice { device with
        packetLength := if (channel.pioBuf.getD 0 0).toNat % 4 = 0 then 12 else 16 }) :=
      framed_update rfl rfl rfl ⟨kept.atapi, kept.role⟩
    exact Framing.map (Framing.trans early (setNames_framing _)) fun after => Framed.refl _
  unfold atapiHandlePioIdentifyPacket
  dsimp only
  split
  · rename_i storage found
    split
    · exact kept _ ⟨rfl, .inr ⟨rfl, found.symm⟩⟩
    · exact kept _ (Kept.refl _)
  · exact kept _ (Kept.refl _)

theorem atapiHandlePioPacket_framed : Framed channel (atapiHandlePioPacket channel hw).1 := by
  have queued : ∀ queue, Kept channel.ataGetAtaDevice { channel.ataGetAtaDevice with queue := queue } :=
    fun queue => ⟨rfl, .inl ⟨rfl, rfl⟩⟩
  unfold atapiHandlePioPacket
  generalize packetHandleCommand hw.stack channel.pioBuf = packet
  obtain ⟨kind, state, write, sectorSize, lba, sectorCount⟩ := packet
  dsimp only
  split
  · exact framed_of_eq rfl rfl rfl
  · split
    · cases kind
      · exact framed_update rfl rfl rfl (queued _)
      · exact framed_update rfl rfl rfl (queued _)
      · exact framed_update rfl rfl rfl (queued _)
      · exact framed_update rfl rfl rfl (queued _)
    · cases kind <;> exact framed_of_eq rfl rfl rfl

theorem ataHandlePioData_framing : Framing Prod.fst channel (ataHandlePioData channel write) := by
  unfold ataHandlePioData
  dsimp only
  split
  · rintro ⟨⟩
  · exact framed_of_eq rfl rfl rfl

theorem pioBufHandler_framing : Framing Prod.fst channel (pioBufHandler channel hw write) := by
  unfold pioBufHandler
  split
  · exact Framing.map (setNames_framing _) fun after => Framed.refl _
  · exact atapiHandlePioIdentifyPacket_framing
  · exact ataHandlePioData_framing
  · exact atapiHandlePioPacket_framed
  · exact Framed.refl _
  · exact ataHandlePioData_framing

theorem pioReady_framing {size : Nat} : Framing Prod.fst channel (pioReady channel hw write size) := by
  unfold pioReady
  split
  · exact framed_of_eq rfl rfl rfl
  · dsimp only
    split
    · rintro ⟨⟩
    · rename_i buf _
      have handled : Framing Prod.fst { channel with pioBuf := buf } (pioBufHandler { channel with pioBuf := buf } hw false) :=
        pioBufHandler_framing
      split
      · rename_i stop stops
        rw [stops] at handled
        exact handled
      · rename_i after default ends
        rw [ends] at handled
        exact ⟨handled.buf, handled.prd, handled.device⟩

theorem pioBlockEnd_framing {size : Nat} : Framing Prod.fst channel (pioBlockEnd channel hw write size) := by
  unfold pioBlockEnd
  dsimp only
  split
  · generalize ended : ({ channel with
      pioBufIndex := 0
      sectorCount := channel.sectorCount - 1
      state := if channel.sectorCount - 1 > 0 then State.pioReady else .ready } : Channel κ) = between
    have early : Framed channel between := by
      rw [← ended]
      exact framed_of_eq rfl rfl rfl
    have handled : Framing Prod.fst between (pioBufHandler between hw true) := pioBufHandler_framing
    split
    · rename_i stop stops
      rw [stops] at handled
      exact handled
    · rename_i after default ends
      rw [ends] at handled
      exact early.trans ⟨handled.buf, handled.prd, handled.device⟩
  · exact framed_of_eq rfl rfl rfl

theorem pioData_framing : Framing DataReply.channel channel (pioData channel hw write bytes) := by
  unfold pioData
  split
  · rintro ⟨⟩
  · split
    · rintro ⟨⟩
    · dsimp only
      split
      · refine Framing.map (Framing.trans ?_ pioBlockEnd_framing) fun ended => Framed.refl _
        exact framed_of_eq rfl rfl rfl
      · exact framed_of_eq rfl rfl rfl

theorem ataHandleData_framing : Framing DataReply.channel channel (ataHandleData channel hw write bytes) := by
  unfold ataHandleData
  split
  · have ready : Framing Prod.fst channel (pioReady channel hw write bytes.length) := pioReady_framing
    split
    · rename_i stop stops
      rw [stops] at ready
      exact ready
    · rename_i after ops ends
      rw [ends] at ready
      exact Framing.map (Framing.trans ready pioData_framing) fun reply => Framed.refl _
  · exact pioData_framing
  · exact Framed.refl _
  · split
    · rintro ⟨⟩
    · exact Framed.refl _

theorem ataGetLba_error {ext : Bool} {stop : Stop} (stops : ataGetLba channel hw ext = .error stop) : stop = .panic := by
  unfold ataGetLba at stops
  split at stops
  · split at stops
    · cases stops
    · cases stops
      rfl
  · split at stops
    · cases stops
    · cases stops

theorem ataHandleCmdRw_framing {ext : Bool} : Framing Prod.fst channel (ataHandleCmdRw channel hw write ext) := by
  unfold ataHandleCmdRw
  split
  · rename_i stop stops
    rw [ataGetLba_error stops]
    rintro ⟨⟩
  · exact framed_of_eq rfl rfl rfl

theorem ataHandleCmdRwQueued_framing {ext : Bool} :
    Framing Prod.fst channel (ataHandleCmdRwQueued channel hw write ext) := by
  unfold ataHandleCmdRwQueued
  split
  · rename_i stop stops
    rw [ataGetLba_error stops]
    rintro ⟨⟩
  · exact framed_update rfl rfl rfl ⟨rfl, .inl ⟨rfl, rfl⟩⟩

theorem ataHandleCmdDevparam_framed : Framed channel (ataHandleCmdDevparam channel hw).1 := by
  unfold ataHandleCmdDevparam
  split
  · exact Framed.refl _
  · exact framed_update rfl rfl rfl ⟨rfl, .inl ⟨rfl, rfl⟩⟩

theorem ataHandleCmdThrough_framed : Framed channel (ataHandleCmdThrough channel hw).1 := by
  unfold ataHandleCmdThrough
  split
  · exact framed_of_eq rfl rfl rfl
  · exact Framed.refl _

theorem cmdHandler_framing {type : CmdType} : Framing Prod.fst channel (cmdHandler type channel hw) := by
  unfold cmdHandler
  split
  · exact Framed.refl _
  · exact Framed.refl _
  · exact ataHandleCmdRw_framing
  · exact ataHandleCmdRw_framing
  · exact ataHandleCmdRwQueued_framing
  · exact framed_of_eq rfl rfl rfl
  · exact framed_of_eq rfl rfl rfl
  · exact framed_of_eq rfl rfl rfl
  · exact ataHandleCmdDevparam_framed
  · exact ataHandleCmdThrough_framed
  · exact Framed.refl _

theorem ataHandleCommand_framing {command : UInt8} :
    Framing Prod.fst channel (ataHandleCommand channel hw command) := by
  unfold ataHandleCommand
  refine Framing.trans ?_ cmdHandler_framing
  exact framed_of_eq rfl rfl rfl

theorem ataHandleServiceStatus_framed : Framed channel (ataHandleServiceStatus channel hw) := by
  unfold ataHandleServiceStatus
  split
  · exact framed_of_eq rfl rfl rfl
  · exact framed_of_eq rfl rfl rfl

theorem ataHandleStatus_framed : Framed channel (ataHandleStatus channel hw) := by
  unfold ataHandleStatus
  split
  · exact Framed.refl _
  · split
    · exact Framed.refl _
    · unfold ataHandleQueuedStatus
      split
      · exact framed_of_eq rfl rfl rfl
      · split
        · exact framed_of_eq rfl rfl rfl
        · have service : Framed (ataHandleCmdService channel hw).1
              (ataHandleServiceStatus (ataHandleCmdService channel hw).1 hw) := ataHandleServiceStatus_framed
          exact ⟨service.buf, service.prd, service.device⟩
    · exact ataHandleServiceStatus_framed

theorem ataHandleDeviceControl_framed {value : UInt8} : Framed channel (ataHandleDeviceControl channel value) := by
  unfold ataHandleDeviceControl
  split
  · exact framed_of_eq rfl rfl rfl
  · exact Framed.refl _

theorem atapiHandleInterruptReason_framed : Framed channel (atapiHandleInterruptReason channel hw) := by
  unfold atapiHandleInterruptReason
  split
  · exact framed_of_eq rfl rfl rfl
  · exact Framed.refl _

def Access.plain : Access → Bool
  | .bmCommand _ => false
  | .bmStatus => false
  | _ => true

theorem access_framing {memory : Memory} {a : Access} (plain : a.plain = true) :
    Framing BmReply.channel channel (access channel hw memory a) := by
  cases a with
  | data write bytes => exact Framing.map ataHandleData_framing fun reply => Framed.refl _
  | features value => exact framed_of_eq rfl rfl rfl
  | deviceControl value => exact ataHandleDeviceControl_framed
  | command value => exact Framing.map ataHandleCommand_framing fun handled => Framed.refl _
  | status => exact ataHandleStatus_framed
  | interruptReason => exact atapiHandleInterruptReason_framed
  | bmCommand value => cases plain
  | bmStatus => cases plain
  | prdTable offset bytes => exact framed_of_eq rfl rfl rfl
  | other => exact Framed.refl _

structure Calm (channel : Channel κ) : Prop where
  flag : channel.atapiFlag = false
  state : channel.state = .ready ∨ channel.state = .dmaReady ∨ channel.state = .dmaRead ∨ channel.state = .dmaWrite

structure Undisturbed (before after : Channel κ) : Prop where
  flag : after.atapiFlag = before.atapiFlag
  state : after.state = before.state
  deviceReg : after.deviceReg = before.deviceReg
  lba : after.lba = before.lba
  sectorCount : after.sectorCount = before.sectorCount
  device : after.device = before.device

theorem Undisturbed.refl (channel : Channel κ) : Undisturbed channel channel := ⟨rfl, rfl, rfl, rfl, rfl, rfl⟩

theorem ataHandleStatus_undisturbed (calm : Calm channel) : Undisturbed channel (ataHandleStatus channel hw) := by
  have notQueued : channel.state ≠ .queued := by
    intro same
    rcases calm.state with other | other | other | other <;> cases same.symm.trans other
  have notPio : channel.state ≠ .pioReady := by
    intro same
    rcases calm.state with other | other | other | other <;> cases same.symm.trans other
  unfold ataHandleStatus
  split
  · exact Undisturbed.refl _
  · split
    · exact Undisturbed.refl _
    · rw [ataHandleQueuedStatus, if_pos (.inl notQueued)]
      exact ⟨rfl, rfl, rfl, rfl, rfl, rfl⟩
    · rw [ataHandleServiceStatus, if_pos (.inl notPio)]
      exact ⟨rfl, rfl, rfl, rfl, rfl, rfl⟩

theorem ataHandleData_calm (calm : Calm channel) : ataHandleData channel hw write bytes =
    if write then .error .panic else .ok ⟨channel, [], [.forward]⟩ := by
  unfold ataHandleData
  rcases calm.state with same | same | same | same <;> rw [same]

theorem access_undisturbed {memory : Memory} {a : Access} {reply : BmReply κ} (plain : a.plain = true)
    (calm : Calm channel) (noCommand : ∀ value, a ≠ .command value)
    (noReset : ∀ value, a = .deviceControl value → bit value 2 = false)
    (ran : access channel hw memory a = .ok reply) : Undisturbed channel reply.channel := by
  cases a with
  | data write bytes =>
    rw [access, ataHandleData_calm calm] at ran
    cases write
    · cases ran
      exact Undisturbed.refl _
    · cases ran
  | features value =>
    cases ran
    exact ⟨rfl, rfl, rfl, rfl, rfl, rfl⟩
  | deviceControl value =>
    rw [access, ataHandleDeviceControl, noReset value rfl] at ran
    cases ran
    exact Undisturbed.refl _
  | command value => exact absurd rfl (noCommand value)
  | status =>
    cases ran
    exact ataHandleStatus_undisturbed calm
  | interruptReason =>
    rw [access, atapiHandleInterruptReason, calm.flag, if_neg (by simp)] at ran
    cases ran
    exact Undisturbed.refl _
  | bmCommand value => cases plain
  | bmStatus => cases plain
  | prdTable offset bytes =>
    cases ran
    exact ⟨rfl, rfl, rfl, rfl, rfl, rfl⟩
  | other =>
    cases ran
    exact Undisturbed.refl _

end DisasVisor.Ata
