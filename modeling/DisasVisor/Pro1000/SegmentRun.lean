import DisasVisor.Pro1000.SegmentPasses

/-!
Segmentation over all the descriptors of a packet: when exactly the packets are
the right ones.
-/

namespace DisasVisor.Pro1000

open List

namespace Offload

variable {offload : Offload}

variable {rest : List TdescDext1} {td1 : TdescDext1} {d2 : Data2} {fuel : Nat}

theorem holds_descriptor {front : List TdescDext1} (split : offload.descriptors = front ++ td1 :: rest) :
    offload.Holds td1.addr.toNat td1.dtalen.val (offload.gathered front.length) := by
  intro offset inside
  have each : ∀ td1 : TdescDext1, (td1.bytes offload.guest).length = td1.dtalen.val := by
    intro td1
    rw [TdescDext1.bytes, length_map, length_range]
  have before : (front.flatMap (TdescDext1.bytes offload.guest)).length = offload.gathered front.length := by
    rw [gathered, split, take_left, length_flatMap, map_congr_left fun td1 _ => each td1]
  rw [stream, data, split, flatMap_append, flatMap_cons, getD_eq_getElem?_getD,
    List.getElem?_append_right (by omega), before, Nat.add_sub_cancel_left,
    List.getElem?_append_left (by rw [each]; exact inside), TdescDext1.bytes, List.getElem?_map,
    List.getElem?_range inside]
  rfl

theorem gathered_succ {front : List TdescDext1} (split : offload.descriptors = front ++ td1 :: rest) :
    offload.gathered (front.length + 1) = offload.gathered front.length + td1.dtalen.val := by
  rw [gathered, gathered, split, take_left, take_length_add_append, map_append, sum_append]
  simp

theorem gathered_le (offload : Offload) (count : Nat) : offload.gathered count ≤ offload.hdrlen + offload.paylen := by
  have whole : (offload.descriptors.map fun td1 => td1.dtalen.val).sum =
      offload.hdrlen + offload.paylen := offload.whole
  have parts := congrArg (fun descriptors => (descriptors.map fun td1 => td1.dtalen.val).sum)
    (take_append_drop count offload.descriptors)
  simp only [map_append, sum_append] at parts
  rw [← whole, ← parts, gathered]
  exact Nat.le_add_right _ _

theorem Finished.copy (state : offload.Finished d2) (address : Nat) :
    ∃ copied, tdescCopytobuf offload.guest d2 address 0 = (copied, address % 2 ^ 64, 0) ∧
      offload.Finished copied := by
  obtain ⟨buf, log, same, packets, -⟩ := tdescCopytobuf_buf offload.guest d2 address 0
    (by rw [state.len]; exact Nat.zero_le _)
  rw [Nat.min_zero] at same
  refine ⟨_, same, state.context, state.len, state.paylen, ?_⟩
  rw [packets]
  exact state.packets

theorem size_pos (offload : Offload) (index : Nat) : 0 < offload.size index := by
  have header : offload.tucss + 20 ≤ offload.hdrlen := offload.tcpHeader
  rw [size]
  omega

theorem Finished.unfilled (state : offload.Finished d2) (tse : Bool) :
    ¬ (tse && decide (dextsize d2 ≤ d2.len)) = true := by
  have positive := size_pos offload (offload.segments - 1)
  rw [Bool.and_eq_true, decide_eq_true_eq, dextsize_eq state.context state.paylen, state.len]
  omega

theorem finishTdesc_finished (state : offload.Finished d2) (middle : td1.dcmdEop = false) (fuel address : Nat) :
    ∃ after, finishTdesc offload.guest (fuel + 1) ⟨d2, .loop td1 address 0⟩ =
        some (reportStatus td1.dcmdRs after) ∧ offload.Finished after := by
  obtain ⟨copied, same, finished⟩ := state.copy address
  refine ⟨copied, ?_, finished⟩
  rw [finishTdesc, loopPass, same]
  dsimp only
  rw [sendFilled, if_neg (finished.unfilled _), if_neg (by rw [middle]; decide), afterPass, if_neg (by simp)]
  cases fuel <;> rfl

theorem packetsOf_reportStatus (rs : Bool) (d2 : Data2) : packetsOf (reportStatus rs d2).log = packetsOf d2.log := by
  cases rs with
  | false => rfl
  | true => simp [reportStatus, Data2.note]

theorem finishTdesc_finished_last (state : offload.Finished d2) (tse : td1.dcmdTse = true)
    (ifcs : td1.dcmdIfcs = true) (last : td1.dcmdEop = true) (fuel address : Nat) :
    ∃ after, finishTdesc offload.guest (fuel + 1) ⟨d2, .loop td1 address 0⟩ = some after ∧
      (packetsOf after.log).length = offload.segments + 1 := by
  obtain ⟨copied, same, finished⟩ := state.copy address
  have some := segments_pos offload
  have mss : copied.dext0Mss = offload.mss := congrArg Context.mss finished.context
  have final : dextlast copied = true := by
    rw [dextlast, decide_eq_true_eq, finished.paylen, mss]
    exact (last_iff (by omega)).mp (by omega)
  obtain ⟨buf, log, sent, packets, -⟩ := sendPacket_buf (layout_of_context finished.context) true
    (dextsize copied) (dextsize copied)
  have count := congrArg List.length packets
  rw [length_append, finished.packets.count] at count
  refine ⟨reportStatus td1.dcmdRs { copied with buf := buf, log := log, len := 0 }, ?_, ?_⟩
  · rw [finishTdesc, loopPass, same]
    dsimp only
    rw [sendFilled, if_neg (finished.unfilled _), if_pos last, tse, final, Bool.true_and, if_pos rfl,
      send_tse tse ifcs (congrArg Context.recvvirtFunc finished.context), if_pos rfl, sent,
      afterPass, if_neg (by simp)]
    cases fuel <;> rfl
  · rw [packetsOf_reportStatus]
    exact count

theorem beginTdesc_data {sent bytes : Nat} (state : offload.State sent bytes d2) (td1 : TdescDext1) :
    ∃ begun, beginTdesc offload.guest d2 (.dext1 td1) =
        ⟨begun, .loop td1 td1.addr.toNat td1.dtalen.val⟩ ∧ offload.State sent bytes begun := by
  by_cases fresh : d2.len = 0
  · refine ⟨_, rfl, ?_⟩
    rw [if_pos fresh]
    exact state.noted td1.poptsIxsm td1.poptsTxsm rfl
  · refine ⟨_, rfl, ?_⟩
    rw [if_neg fresh]
    exact state

theorem processTdesc_front {sent bytes : Nat} (state : offload.State sent bytes d2) (tse : td1.dcmdTse = true)
    (ifcs : td1.dcmdIfcs = true) (middle : td1.dcmdEop = false)
    (holds : offload.Holds td1.addr.toNat td1.dtalen.val bytes) (enough : td1.dtalen.val < fuel)
    (inside : bytes + td1.dtalen.val ≤ offload.hdrlen + offload.paylen) :
    ∃ after next, processTdesc fuel offload.guest d2 (.dext1 td1) = some after ∧
      offload.State next (bytes + td1.dtalen.val) after ∧
      ∀ segments < offload.segments, segments + 1 ≤ next ↔
        offload.Complete (bytes + td1.dtalen.val) (segments + 1) ∧
          (segments ≤ sent ∨ offload.Forced (bytes + td1.dtalen.val) segments) := by
  obtain ⟨begun, same, started⟩ := beginTdesc_data state td1
  rw [processTdesc, same]
  cases started with
  | gathering started room =>
    exact finishTdesc_gathering tse ifcs fuel started room holds enough inside fun last => by
      rw [middle] at last
      cases last
  | finished started whole =>
    have none : td1.dtalen.val = 0 := by omega
    obtain ⟨fuel, rfl⟩ : ∃ more, fuel = more + 1 := ⟨fuel - 1, by omega⟩
    obtain ⟨after, ended, finished⟩ := finishTdesc_finished started middle fuel td1.addr.toNat
    rw [none]
    refine ⟨_, offload.segments, ended, (State.finished finished whole).reported _, ?_⟩
    intro segments before
    have all : bytes + 0 = offload.hdrlen + offload.paylen := by omega
    rw [all]
    exact iff_of_true before ⟨complete_whole _, .inl (Nat.le_of_lt before)⟩

def Reached (offload : Offload) (count : Nat) (d2 : Data2) : Prop :=
  ∃ sent, offload.State sent (offload.gathered count) d2 ∧
    ∀ segments ≤ offload.segments, segments ≤ sent ↔ offload.Sendable count segments

theorem Reached.step {front : List TdescDext1} (reached : offload.Reached front.length d2)
    (split : offload.descriptors = front ++ td1 :: rest) (middle : td1.dcmdEop = false)
    (enough : td1.dtalen.val < fuel) :
    ∃ after, processTdesc fuel offload.guest d2 (.dext1 td1) = some after ∧
      offload.Reached (front.length + 1) after := by
  obtain ⟨sent, state, sends⟩ := reached
  have member : td1 ∈ offload.front ++ [offload.last] := by
    rw [← descriptors, split]
    simp
  have inside := gathered_le offload (front.length + 1)
  rw [gathered_succ split] at inside
  obtain ⟨after, next, processed, stepped, counts⟩ := processTdesc_front state
    (offload.dataTse td1 member) (offload.dataIfcs td1 member) middle (holds_descriptor split) enough
    inside
  rw [← gathered_succ split] at stepped counts
  refine ⟨after, processed, next, stepped, fun segments bound => ?_⟩
  cases segments with
  | zero => exact iff_of_true (Nat.zero_le _) (.inl rfl)
  | succ segments => rw [counts segments bound, sendable_succ, sends segments (Nat.le_of_lt bound)]

theorem foldlM_front (enough : ∀ td1 ∈ offload.descriptors, td1.dtalen.val < fuel) (rest : List TdescDext1) :
    ∀ {before : List TdescDext1} {d2 : Data2}, offload.front = before ++ rest →
      offload.Reached before.length d2 →
      ∃ after, (rest.map Tdesc.dext1).foldlM (processTdesc fuel offload.guest) d2 = some after ∧
        offload.Reached offload.front.length after := by
  induction rest with
  | nil =>
    intro before d2 split reached
    rw [append_nil] at split
    rw [split]
    exact ⟨d2, rfl, reached⟩
  | cons td1 rest ih =>
    intro before d2 split reached
    have whole : offload.descriptors = before ++ td1 :: (rest ++ [offload.last]) := by
      rw [descriptors, split, append_assoc, cons_append]
    have middle := offload.frontEop td1 (by rw [split]; simp)
    obtain ⟨next, processed, stepped⟩ := reached.step whole middle (enough td1 (by rw [whole]; simp))
    have longer : (before ++ [td1]).length = before.length + 1 := by simp
    rw [← longer] at stepped
    obtain ⟨after, finished, last⟩ := ih (by rw [split, append_assoc]; rfl) stepped
    refine ⟨after, ?_, last⟩
    rw [map_cons, foldlM_cons, processed]
    exact finished

theorem processTdesc_context (offload : Offload) (idle : d2.len = 0) (registered : d2.recvvirtFunc = true)
    (silent : packetsOf d2.log = []) (fuel : Nat) :
    ∃ begun, processTdesc fuel offload.guest d2 (.dext0 offload.td0) = some begun ∧ offload.Reached 0 begun := by
  have begun : ∃ log, packetsOf log = [] ∧
      processTdesc fuel offload.guest d2 (.dext0 offload.td0) = some
        { d2 with
          dext0Tucss := offload.td0.tucss.toNat
          dext0Tucso := offload.td0.tucso.toNat
          dext0Tucse := offload.td0.tucse.toNat
          dext0Ipcss := offload.td0.ipcss.toNat
          dext0Ipcso := offload.td0.ipcso.toNat
          dext0Ipcse := offload.td0.ipcse.toNat
          dext0Mss := offload.td0.mss.toNat
          dext0Hdrlen := offload.td0.hdrlen.toNat
          dext0Paylen := offload.td0.paylen.val
          tseFirst := true
          dext0Ip := offload.td0.tucmdIp
          dext0Tcp := offload.td0.tucmdTcp
          log := log } := by
    rw [processTdesc, beginTdesc]
    simp only [offload.tse, if_true]
    cases offload.td0.tucmdRs with
    | false => exact ⟨d2.log, silent, by cases fuel <;> rfl⟩
    | true =>
      refine ⟨d2.log ++ [.descriptorDone], ?_, by cases fuel <;> rfl⟩
      rw [packetsOf_append, silent]
      rfl
  obtain ⟨log, noPackets, processed⟩ := begun
  have zero : offload.gathered 0 = 0 := rfl
  refine ⟨_, processed, 0, .gathering ?_ ?_, fun segments _ => ?_⟩
  · refine ⟨segments_pos offload, .inl rfl, ?_, ?_, ?_, ?_, ?_, ?_, ?_, ?_⟩
    · simp only [Data2.context, context, offload.ip, offload.tcp, registered]
      rfl
    · dsimp only
      rw [idle, zero, Nat.zero_mul]
    · dsimp only
      rw [Nat.zero_mul]
      rfl
    · intro position _ before
      dsimp only at before
      omega
    · dsimp only
      rw [noPackets]
      refine ⟨rfl, ?_, ?_, ?_⟩
      · rw [Nat.zero_mul]
        rfl
      · intro index packet found
        cases found
      · intro index packet found
        cases found
    · intro _
      refine ⟨rfl, fun position before => ?_⟩
      dsimp only at before
      omega
    · exact fun some => absurd some (Nat.lt_irrefl _)
    · exact fun some => absurd some (Nat.lt_irrefl _)
  · dsimp only
    rw [idle]
    decide
  · rw [sendable_zero]
    exact Nat.le_zero

theorem Sent.segmented {packets : List (List UInt8)}
    (sent : offload.Sent offload.segments packets) : offload.Segmented packets := by
  refine ⟨sent.count, ?_, sent.full, sent.header⟩
  have all := lt_segments offload offload.segments
  rw [sent.payload, take_of_length_le]
  rw [Offload.payload, length_drop, length_data]
  omega

def Done (offload : Offload) (d2 : Data2) : Prop := offload.Segmented (packetsOf d2.log) ∧ d2.len = 0

def Due (offload : Offload) : Prop :=
  offload.Sendable offload.descriptors.length offload.segments ∧
    ¬ offload.Sendable offload.front.length offload.segments

theorem Reached.last (reached : offload.Reached offload.front.length d2) (enough : offload.last.dtalen.val < fuel) :
    ∃ after, processTdesc fuel offload.guest d2 (.dext1 offload.last) = some after ∧
      (offload.Done after ↔ offload.Due) := by
  obtain ⟨sent, state, sends⟩ := reached
  have split : offload.descriptors = offload.front ++ offload.last :: [] := rfl
  have member : offload.last ∈ offload.front ++ [offload.last] := by simp
  have tse := offload.dataTse _ member
  have ifcs := offload.dataIfcs _ member
  have count : offload.descriptors.length = offload.front.length + 1 := by
    rw [split, length_append]
    rfl
  have whole : offload.gathered offload.front.length + offload.last.dtalen.val = offload.hdrlen + offload.paylen := by
    rw [← gathered_succ split, gathered, ← count, take_length]
    exact offload.whole
  obtain ⟨begun, same, started⟩ := beginTdesc_data state offload.last
  rw [processTdesc, same]
  cases started with
  | gathering started room =>
    obtain ⟨after, next, finished, stepped, counts⟩ := finishTdesc_gathering tse ifcs fuel started
      room (holds_descriptor split) enough (Nat.le_of_eq whole) (fun _ => whole)
    refine ⟨after, finished, ?_⟩
    have positive := segments_pos offload
    have unfinished := started.unfinished
    have earlier : ¬ offload.Sendable offload.front.length offload.segments := by
      rw [← sends _ (Nat.le_refl _)]
      omega
    obtain ⟨fewer, number⟩ : ∃ fewer, offload.segments = fewer + 1 := ⟨offload.segments - 1, by omega⟩
    have due : offload.Due ↔ offload.segments ≤ next := by
      rw [Due, and_iff_left earlier, count, number, counts fewer (by omega), sendable_succ,
        sends fewer (by omega), gathered_succ split]
    rw [due]
    cases stepped with
    | gathering stepped _ =>
      have missing := stepped.unfinished
      refine iff_of_false ?_ (by omega)
      rintro ⟨segmented, -⟩
      have packets := segmented.count
      rw [stepped.packets.count] at packets
      omega
    | finished stepped _ => exact iff_of_true ⟨stepped.packets.segmented, stepped.len⟩ (Nat.le_refl _)
  | finished started past =>
    obtain ⟨fuel, rfl⟩ : ∃ more, fuel = more + 1 := ⟨fuel - 1, by omega⟩
    have none : offload.last.dtalen.val = 0 := by omega
    obtain ⟨after, finished, packets⟩ := finishTdesc_finished_last started tse ifcs offload.lastEop
      fuel offload.last.addr.toNat
    rw [none]
    refine ⟨after, finished, iff_of_false ?_ ?_⟩
    · rintro ⟨segmented, -⟩
      have count := segmented.count
      omega
    · rintro ⟨-, early⟩
      exact early ((sends _ (Nat.le_refl _)).mp (Nat.le_refl _))

theorem run_done (idle : d2.len = 0) (registered : d2.recvvirtFunc = true) (silent : packetsOf d2.log = [])
    (enough : ∀ td1 ∈ offload.descriptors, td1.dtalen.val < fuel) :
    ∃ after, offload.run fuel d2 = some after ∧ (offload.Done after ↔ offload.Due) := by
  obtain ⟨begun, first, started⟩ := processTdesc_context offload idle registered silent fuel
  have none : offload.front = [] ++ offload.front := rfl
  obtain ⟨middle, front, reached⟩ := foldlM_front enough offload.front none started
  obtain ⟨after, last, done⟩ := reached.last (enough _ (by simp [descriptors]))
  refine ⟨after, ?_, done⟩
  have all : (offload.descriptors.map Tdesc.dext1).foldlM (processTdesc fuel offload.guest) begun = some after := by
    rw [descriptors, map_append, foldlM_append, front]
    change processTdesc fuel offload.guest middle (.dext1 offload.last) >>= some = some after
    rw [last]
    rfl
  rw [run, foldlM_cons, first]
  exact all

/-- The packets are the right ones, and the buffer is empty behind them, exactly if the last
descriptor is the one that completes the segments' sending. -/
theorem run_segmented_iff (offload : Offload) {d2 : Data2} (idle : d2.len = 0)
    (registered : d2.recvvirtFunc = true) (silent : packetsOf d2.log = []) {fuel : Nat}
    (enough : ∀ td1 ∈ offload.descriptors, td1.dtalen.val < fuel) :
    ∃ after, offload.run fuel d2 = some after ∧
      (offload.Segmented (packetsOf after.log) ∧ after.len = 0 ↔
        offload.Sendable offload.descriptors.length offload.segments ∧
          ¬ offload.Sendable offload.front.length offload.segments) :=
  run_done idle registered silent enough

def sample (front : List TdescDext1) (last : TdescDext1)
    (data : ∀ td1 ∈ front ++ [last], td1.dcmdTse = true ∧ td1.dcmdIfcs = true)
    (frontEop : ∀ td1 ∈ front, td1.dcmdEop = false) (lastEop : last.dcmdEop = true)
    (whole : ((front ++ [last]).map fun td1 => td1.dtalen.val).sum = 1054) : Offload where
  guest := fun address =>
    if address = 14 then 0x45 else if address = 23 then 6 else if address = 46 then 0x50
    else if address = 47 then 0x19 else 0
  td0 :=
    { ipcss := 14
      ipcso := 24
      ipcse := 33
      tucss := 34
      tucso := 50
      tucse := 0
      paylen := 1000
      tucmdTcp := true
      tucmdIp := true
      tucmdTse := true
      tucmdRs := false
      hdrlen := 54
      mss := 500 }
  front := front
  last := last
  tse := rfl
  ip := rfl
  tcp := rfl
  ipHeader := by decide
  tcpHeader := by decide
  ipChecksum := by decide
  tcpChecksum := by decide
  mssPos := by decide
  paylenPos := by decide
  fits := by decide
  dataTse := fun td1 member => (data td1 member).1
  dataIfcs := fun td1 member => (data td1 member).2
  frontEop := frontEop
  lastEop := lastEop
  whole := whole

def piece (address : UInt64) (count : Fin (2 ^ 20)) (eop : Bool) : TdescDext1 where
  addr := address
  dtalen := count
  dcmdEop := eop
  dcmdIfcs := true
  dcmdTse := true
  dcmdRs := true
  poptsIxsm := true
  poptsTxsm := true

def onePiece : Offload := sample [] (piece 0 1054 true) (by decide) (by decide) rfl (by decide)

def twoPieces : Offload := sample [piece 0 554 false] (piece 554 500 true) (by decide) (by decide) rfl (by decide)

theorem run_segmented_twoPieces : ∃ after, twoPieces.run 1000 initialData2 = some after ∧
    twoPieces.Segmented (packetsOf after.log) ∧ after.len = 0 := by
  have idle : initialData2.len = 0 := rfl
  have enough : ∀ td1 ∈ twoPieces.descriptors, td1.dtalen.val < 1000 := by decide
  obtain ⟨after, finished, done⟩ := run_segmented_iff twoPieces idle rfl rfl enough
  exact ⟨after, finished, done.mpr (by decide)⟩

theorem run_not_segmented :
    ¬ ∀ (offload : Offload) (d2 : Data2) (fuel : Nat), d2.len = 0 → d2.recvvirtFunc = true →
      packetsOf d2.log = [] → (∀ td1 ∈ offload.descriptors, td1.dtalen.val < fuel) →
        ∃ after, offload.run fuel d2 = some after ∧
          offload.Segmented (packetsOf after.log) ∧ after.len = 0 := by
  intro segmented
  have idle : initialData2.len = 0 := rfl
  have enough : ∀ td1 ∈ onePiece.descriptors, td1.dtalen.val < 2000 := by decide
  obtain ⟨after, finished, done⟩ := segmented onePiece initialData2 2000 idle rfl rfl enough
  obtain ⟨same, finishedToo, due⟩ := run_done idle rfl rfl enough
  rw [finished, Option.some.injEq] at finishedToo
  rw [← finishedToo] at due
  have early := (due.mp done).1
  revert early
  decide

end Offload

end DisasVisor.Pro1000
