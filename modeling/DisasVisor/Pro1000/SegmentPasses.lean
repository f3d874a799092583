import DisasVisor.Pro1000.Segmentation

/-!
The state of the driver between two passes through the loop, when so many bytes
have been gathered and so many segments have been sent, and what a pass makes
of it.
-/

namespace DisasVisor.Pro1000

open List

structure Context where
  ipcss : Nat
  ipcso : Nat
  tucss : Nat
  tucso : Nat
  mss : Nat
  hdrlen : Nat
  ip : Bool
  tcp : Bool
  recvvirtFunc : Bool

def Data2.context (d2 : Data2) : Context where
  ipcss := d2.dext0Ipcss
  ipcso := d2.dext0Ipcso
  tucss := d2.dext0Tucss
  tucso := d2.dext0Tucso
  mss := d2.dext0Mss
  hdrlen := d2.dext0Hdrlen
  ip := d2.dext0Ip
  tcp := d2.dext0Tcp
  recvvirtFunc := d2.recvvirtFunc

namespace Offload

variable (offload : Offload)

def context : Context where
  ipcss := offload.ipcss
  ipcso := offload.td0.ipcso.toNat
  tucss := offload.tucss
  tucso := offload.td0.tucso.toNat
  mss := offload.mss
  hdrlen := offload.hdrlen
  ip := true
  tcp := true
  recvvirtFunc := true

structure Sent (sent : Nat) (packets : List (List UInt8)) : Prop where
  count : packets.length = sent
  payload : (packets.flatMap fun packet => packet.drop offload.hdrlen) = offload.payload.take (sent * offload.mss)
  full : ∀ index packet, packets[index]? = some packet → index + 1 < offload.segments →
    packet.length = offload.hdrlen + offload.mss
  header : ∀ index packet, packets[index]? = some packet → offload.Header index packet

structure HeaderBytes (index : Nat) (buf : Memory) : Prop where
  id : buf.netWord (offload.ipcss + 4) = (offload.stream.netWord (offload.ipcss + 4) + index) % 2 ^ 16
  seq : buf.netDword (offload.tucss + 4) = (offload.stream.netDword (offload.tucss + 4) + index * offload.mss) % 2 ^ 32
  flags : buf (offload.tucss + 13) = offload.stream (offload.tucss + 13)

structure Saved (d2 : Data2) : Prop where
  first : d2.tseFirst = false
  tcpfin : d2.tseTcpfin = decide (offload.stream (offload.tucss + 13) &&& 1 ≠ 0)
  tcppsh : d2.tseTcppsh = decide (offload.stream (offload.tucss + 13) &&& 8 ≠ 0)

structure Gathering (sent bytes : Nat) (d2 : Data2) : Prop where
  unfinished : sent < offload.segments
  enough : offload.Complete bytes sent
  context : d2.context = offload.context
  len : d2.len + sent * offload.mss = bytes
  paylen : d2.dext0Paylen = offload.paylen - sent * offload.mss
  payload : ∀ position, offload.hdrlen ≤ position → position < d2.len →
    d2.buf position = offload.stream (sent * offload.mss + position)
  packets : offload.Sent sent (packetsOf d2.log)
  first : sent = 0 → d2.tseFirst = true ∧ ∀ position < d2.len, d2.buf position = offload.stream position
  header : 0 < sent → offload.HeaderBytes sent d2.buf
  saved : 0 < sent → offload.Saved d2

structure Finished (d2 : Data2) : Prop where
  context : d2.context = offload.context
  len : d2.len = 0
  paylen : d2.dext0Paylen = offload.paylen - (offload.segments - 1) * offload.mss
  packets : offload.Sent offload.segments (packetsOf d2.log)

variable {offload}

variable {d2 : Data2} {sent bytes address : Nat} {buf : Memory} {td1 : TdescDext1}

theorem layout_of_context (same : d2.context = offload.context) : Layout d2 := by
  have ipcss : d2.dext0Ipcss = offload.ipcss := congrArg Context.ipcss same
  have ipcso : d2.dext0Ipcso = offload.td0.ipcso.toNat := congrArg Context.ipcso same
  have tucss : d2.dext0Tucss = offload.tucss := congrArg Context.tucss same
  have tucso : d2.dext0Tucso = offload.td0.tucso.toNat := congrArg Context.tucso same
  have mss : d2.dext0Mss = offload.mss := congrArg Context.mss same
  have hdrlen : d2.dext0Hdrlen = offload.hdrlen := congrArg Context.hdrlen same
  constructor
  · exact congrArg Context.ip same
  · exact congrArg Context.tcp same
  · rw [ipcss, tucss]
    exact offload.ipHeader
  · rw [tucss, hdrlen]
    exact offload.tcpHeader
  · rw [ipcso, ipcss]
    exact offload.ipChecksum
  · rw [tucso, tucss]
    exact offload.tcpChecksum
  · rw [hdrlen, mss]
    exact offload.fits

theorem segments_pos (offload : Offload) : 0 < offload.segments := by
  rw [lt_segments, Nat.zero_mul]
  exact offload.paylenPos

theorem complete_succ {len : Nat} (unfinished : sent < offload.segments) (gathered : len + sent * offload.mss = bytes) :
    offload.Complete bytes (sent + 1) ↔
      offload.hdrlen + min offload.mss (offload.paylen - sent * offload.mss) ≤ len := by
  have left := (lt_segments offload sent).mp unfinished
  simp only [Complete, Nat.add_mul, Nat.one_mul]
  omega

theorem Complete.mono {segments fewer : Nat} (complete : offload.Complete bytes segments) (less : fewer ≤ segments) :
    offload.Complete bytes fewer := by
  rcases complete with rfl | enough
  · exact .inl (Nat.le_zero.mp less)
  · have product := Nat.mul_le_mul_right offload.mss less
    exact .inr (by omega)

theorem complete_whole (segments : Nat) : offload.Complete (offload.hdrlen + offload.paylen) segments :=
  .inr (by omega)

theorem Forced.le {len segments : Nat} (forced : offload.Forced (len + sent * offload.mss) segments)
    (fits : len ≤ bufSize) : segments ≤ sent := by
  rcases forced with rfl | past
  · exact Nat.zero_le _
  · have less : (segments - 1) * offload.mss < sent * offload.mss := by omega
    have before := Nat.lt_of_mul_lt_mul_right less
    omega

theorem last_iff (unfinished : sent < offload.segments) :
    sent + 1 = offload.segments ↔ offload.paylen - sent * offload.mss ≤ offload.mss := by
  have left := (lt_segments offload sent).mp unfinished
  have next := lt_segments offload (sent + 1)
  rw [Nat.add_mul, Nat.one_mul] at next
  omega

def Holds (offload : Offload) (address count position : Nat) : Prop :=
  ∀ offset < count, offload.guest ((address + offset) % 2 ^ 64) = offload.stream (position + offset)

theorem Holds.rest {count position more : Nat} (holds : offload.Holds address count position) (inside : more ≤ count) :
    offload.Holds ((address + more) % 2 ^ 64) (count - more) (position + more) := by
  intro offset before
  have same := holds (more + offset) (by omega)
  rw [Nat.mod_add_mod, Nat.add_assoc, same, Nat.add_assoc]

theorem tdescCopytobuf_buf (guest : Memory) (d2 : Data2) (address count : Nat) (bound : d2.len ≤ bufSize) :
    ∃ buf log, tdescCopytobuf guest d2 address count =
        ({ d2 with buf := buf, len := d2.len + min (bufSize - d2.len) count, log := log },
          (address + min (bufSize - d2.len) count) % 2 ^ 64,
          count - min (bufSize - d2.len) count) ∧
      packetsOf log = packetsOf d2.log ∧
      (∀ position < d2.len, buf position = d2.buf position) ∧
      ∀ offset < min (bufSize - d2.len) count, buf (d2.len + offset) = guest ((address + offset) % 2 ^ 64) := by
  have room : (bufSize + 2 ^ 32 - d2.len) % 2 ^ 32 = bufSize - d2.len := by
    simp only [bufSize] at bound ⊢
    omega
  have filled : (d2.len + min (bufSize - d2.len) count) % 2 ^ 32 = d2.len + min (bufSize - d2.len) count := by
    simp only [bufSize] at bound ⊢
    omega
  simp only [tdescCopytobuf, room, Data2.touch, Data2.note, filled]
  refine ⟨_, _, rfl, by simp, ?_, ?_⟩
  · intro position before
    rw [Memory.blit_outside _ _ (.inl before)]
  · intro offset inside
    rw [Memory.blit_inside _ _ (by omega) (by omega), Nat.add_sub_cancel_left]

theorem Gathering.header_inside (state : offload.Gathering sent bytes d2) (some : 0 < sent) :
    offload.hdrlen ≤ d2.len := by
  have unfinished := (lt_segments offload sent).mp state.unfinished
  have len := state.len
  rcases state.enough with none | enough
  · omega
  · omega

theorem HeaderBytes.congr {index : Nat} {other : Memory} (header : offload.HeaderBytes index buf)
    (same : ∀ position < offload.hdrlen, other position = buf position) : offload.HeaderBytes index other := by
  have ipHeader : offload.ipcss + 20 ≤ offload.tucss := offload.ipHeader
  have tcpHeader : offload.tucss + 20 ≤ offload.hdrlen := offload.tcpHeader
  constructor
  · rw [← header.id]
    apply Memory.netWord_congr
    intro offset inside
    exact same _ (by omega)
  · rw [← header.seq]
    apply Memory.netDword_congr
    intro offset inside
    exact same _ (by omega)
  · rw [← header.flags]
    exact same _ (by omega)

theorem Gathering.copy (state : offload.Gathering sent bytes d2) (bound : d2.len ≤ bufSize) {count : Nat}
    (holds : offload.Holds address count bytes) :
    ∃ copied, tdescCopytobuf offload.guest d2 address count =
        (copied, (address + min (bufSize - d2.len) count) % 2 ^ 64, count - min (bufSize - d2.len) count) ∧
      copied.len = d2.len + min (bufSize - d2.len) count ∧
      offload.Gathering sent (bytes + min (bufSize - d2.len) count) copied := by
  obtain ⟨buf, log, same, packets, before, behind⟩ := tdescCopytobuf_buf offload.guest d2 address count bound
  refine ⟨_, same, rfl, ?_⟩
  have len := state.len
  have filled : ∀ position, d2.len ≤ position → position < d2.len + min (bufSize - d2.len) count →
      buf position = offload.stream (sent * offload.mss + position) := by
    intro position above below
    have piece := behind (position - d2.len) (by omega)
    rw [holds _ (by omega), Nat.add_sub_cancel' above] at piece
    rw [piece, ← len]
    congr 1
    omega
  constructor
  · exact state.unfinished
  · exact state.enough.imp_right fun enough => by omega
  · exact state.context
  · dsimp only
    omega
  · exact state.paylen
  · intro position above below
    by_cases old : position < d2.len
    · exact (before position old).trans (state.payload position above old)
    · exact filled position (by omega) below
  · rw [packets]
    exact state.packets
  · intro none
    refine ⟨(state.first none).1, fun position below => ?_⟩
    by_cases old : position < d2.len
    · exact (before position old).trans ((state.first none).2 position old)
    · have same := filled position (by omega) below
      rwa [none, Nat.zero_mul, Nat.zero_add] at same
  · intro some
    have inside := state.header_inside some
    exact (state.header some).congr fun position below => before position (by omega)
  · exact fun some => ⟨(state.saved some).first, (state.saved some).tcpfin, (state.saved some).tcppsh⟩

def size (offload : Offload) (index : Nat) : Nat :=
  offload.hdrlen + min offload.mss (offload.paylen - index * offload.mss)

structure Ready (offload : Offload) (sent bytes : Nat) (d2 : Data2) : Prop where
  unfinished : sent < offload.segments
  context : d2.context = offload.context
  len : d2.len + sent * offload.mss = bytes
  inside : offload.size sent ≤ d2.len
  bound : d2.len ≤ bufSize
  paylen : d2.dext0Paylen = offload.paylen - sent * offload.mss
  payload : ∀ position, offload.hdrlen ≤ position → position < d2.len →
    d2.buf position = offload.stream (sent * offload.mss + position)
  packets : offload.Sent sent (packetsOf d2.log)
  header : offload.HeaderBytes sent d2.buf
  saved : offload.Saved d2

theorem headerBytes_zero (same : ∀ position < offload.hdrlen, buf position = offload.stream position) :
    offload.HeaderBytes 0 buf := by
  refine HeaderBytes.congr ⟨?_, ?_, rfl⟩ same
  · exact (Nat.mod_eq_of_lt (Memory.netWord_lt _ _)).symm
  · rw [Nat.zero_mul]
    exact (Nat.mod_eq_of_lt (Memory.netDword_lt _ _)).symm

theorem Gathering.ready (state : offload.Gathering sent bytes d2) (inside : offload.size sent ≤ d2.len)
    (bound : d2.len ≤ bufSize) : offload.Ready sent bytes (saveHeader d2) := by
  have header : offload.hdrlen ≤ d2.len := Nat.le_trans (Nat.le_add_right _ _) inside
  have tcpHeader : offload.tucss + 20 ≤ offload.hdrlen := offload.tcpHeader
  have tucss : d2.dext0Tucss = offload.tucss := congrArg Context.tucss state.context
  rcases Nat.eq_zero_or_pos sent with none | some
  · obtain ⟨first, bytesSame⟩ := state.first none
    obtain ⟨log, packets, same⟩ := saveHeader_first (layout_of_context state.context) first
    have flags := bytesSame (offload.tucss + 13) (by omega)
    rw [same]
    refine ⟨state.unfinished, state.context, state.len, inside, bound, state.paylen, state.payload, ?_, ?_, rfl, ?_, ?_⟩
    · rw [packets]
      exact state.packets
    · rw [none]
      exact headerBytes_zero fun position before => bytesSame position (by omega)
    · rw [← flags, ← tucss]
    · rw [← flags, ← tucss]
  · have saved := state.saved some
    have same : saveHeader d2 = d2 := by rw [saveHeader, if_neg (by rw [saved.first]; decide)]
    rw [same]
    exact ⟨state.unfinished, state.context, state.len, inside, bound, state.paylen, state.payload,
      state.packets, state.header some, saved⟩

theorem view_slice (memory : Memory) {count position : Nat} (inside : position < count) :
    view (memory.slice 0 count) position = memory position := by
  rw [view, getD_eq_getElem?_getD, Memory.getElem?_slice _ _ _ _ inside, Nat.zero_add]
  rfl

theorem length_data (offload : Offload) : offload.data.length = offload.hdrlen + offload.paylen := by
  have each : ∀ td1 : TdescDext1, (td1.bytes offload.guest).length = td1.dtalen.val := by
    intro td1
    rw [TdescDext1.bytes, length_map, length_range]
  rw [data, length_flatMap, map_congr_left fun td1 _ => each td1]
  exact offload.whole

theorem slice_stream {start count : Nat} (inside : start + count ≤ offload.paylen) :
    offload.stream.slice (offload.hdrlen + start) count = (offload.payload.drop start).take count := by
  have whole := length_data offload
  apply ext_getElem?
  intro offset
  by_cases before : offset < count
  · rw [Memory.getElem?_slice _ _ _ _ before, List.getElem?_take_of_lt before, payload,
      drop_drop, List.getElem?_drop, stream, getD_eq_getElem?_getD,
      List.getElem?_eq_getElem (by omega)]
    rfl
  · rw [List.getElem?_eq_none (by rw [Memory.length_slice]; omega), List.getElem?_eq_none (by rw [length_take]; omega)]

theorem Sent.succ {packets : List (List UInt8)} (before : offload.Sent sent packets)
    (unfinished : sent < offload.segments) (header : offload.Header sent (buf.slice 0 (offload.size sent)))
    (payload : ∀ position, offload.hdrlen ≤ position → position < offload.size sent →
      buf position = offload.stream (sent * offload.mss + position)) :
    offload.Sent (sent + 1) (packets ++ [buf.slice 0 (offload.size sent)]) := by
  have left := (lt_segments offload sent).mp unfinished
  have newest : ∀ index packet,
      (packets ++ [buf.slice 0 (offload.size sent)])[index]? = some packet →
        packets[index]? = some packet ∨
          index = sent ∧ packet = buf.slice 0 (offload.size sent) := by
    intro index packet found
    rcases Nat.lt_trichotomy index sent with earlier | rfl | later
    · rw [List.getElem?_append_left (by rw [before.count]; exact earlier)] at found
      exact .inl found
    · rw [List.getElem?_append_right (by rw [before.count]), before.count, Nat.sub_self] at found
      exact .inr ⟨rfl, (Option.some.inj found).symm⟩
    · rw [List.getElem?_eq_none (by rw [length_append, before.count]; exact later)] at found
      cases found
  constructor
  · rw [length_append, before.count]
    rfl
  · have cut : (buf.slice 0 (offload.size sent)).drop offload.hdrlen =
        (offload.payload.drop (sent * offload.mss)).take offload.mss := by
      have part : offload.size sent - offload.hdrlen = min offload.mss (offload.paylen - sent * offload.mss) := by
        rw [size, Nat.add_sub_cancel_left]
      have whole : offload.payload.length = offload.paylen := by
        rw [Offload.payload, length_drop, length_data, Nat.add_sub_cancel_left]
      rw [Memory.drop_slice, Nat.zero_add, part, take_eq_take_min, length_drop, whole, ← slice_stream (by omega)]
      apply Memory.slice_congr
      intro offset inside
      rw [payload _ (by omega) (by rw [size]; omega)]
      congr 1
      omega
    rw [flatMap_append, before.payload, flatMap_singleton, cut, Nat.add_mul, Nat.one_mul, take_add]
  · intro index packet found more
    rcases newest index packet found with old | ⟨rfl, rfl⟩
    · exact before.full index packet old more
    · have next := (lt_segments offload (index + 1)).mp more
      rw [Nat.add_mul, Nat.one_mul] at next
      rw [Memory.length_slice, size]
      omega
  · intro index packet found
    rcases newest index packet found with old | ⟨rfl, rfl⟩
    · exact before.header index packet old
    · exact header

theorem kept_of_context (same : d2.context = offload.context)
    (ipLength : address ≠ offload.ipcss + 2 ∧ address ≠ offload.ipcss + 3)
    (ipChecksum : address ≠ offload.ipcss + 10 ∧ address ≠ offload.ipcss + 11) (flags : address ≠ offload.tucss + 13)
    (tcpChecksum : address ≠ offload.tucss + 16 ∧ address ≠ offload.tucss + 17) : Kept d2 address := by
  have ipcss : d2.dext0Ipcss = offload.ipcss := congrArg Context.ipcss same
  have tucss : d2.dext0Tucss = offload.tucss := congrArg Context.tucss same
  constructor
  · rwa [ipcss]
  · rwa [ipcss]
  · rwa [tucss]
  · rwa [tucss]

theorem Ready.packet (state : offload.Ready sent bytes d2) {last : Bool}
    (final : last = true ↔ sent + 1 = offload.segments) :
    ∃ buf log, sendPacket true d2 last (offload.size sent) (offload.size sent) =
        { d2 with buf := buf, log := log } ∧
      offload.Sent (sent + 1) (packetsOf log) ∧
      buf.netWord (offload.ipcss + 4) = d2.buf.netWord (offload.ipcss + 4) ∧
      buf.netDword (offload.tucss + 4) = d2.buf.netDword (offload.tucss + 4) ∧
      (last = false → buf (offload.tucss + 13) = d2.buf (offload.tucss + 13) &&& ~~~9) ∧
      ∀ position, offload.hdrlen ≤ position → buf position = d2.buf position := by
  have ipcss : d2.dext0Ipcss = offload.ipcss := congrArg Context.ipcss state.context
  have tucss : d2.dext0Tucss = offload.tucss := congrArg Context.tucss state.context
  have mss : d2.dext0Mss = offload.mss := congrArg Context.mss state.context
  have hdrlen : d2.dext0Hdrlen = offload.hdrlen := congrArg Context.hdrlen state.context
  have ipHeader : offload.ipcss + 20 ≤ offload.tucss := offload.ipHeader
  have tcpHeader : offload.tucss + 20 ≤ offload.hdrlen := offload.tcpHeader
  have fits : offload.hdrlen + offload.mss ≤ 2048 := offload.fits
  obtain ⟨buf, log, same, packets, length, flags, kept⟩ :=
    sendPacket_buf (layout_of_context state.context) last (offload.size sent) (offload.size sent)
  have keeps : ∀ position, position ≠ offload.ipcss + 2 ∧ position ≠ offload.ipcss + 3 →
      position ≠ offload.ipcss + 10 ∧ position ≠ offload.ipcss + 11 →
      position ≠ offload.tucss + 13 → position ≠ offload.tucss + 16 ∧ position ≠ offload.tucss + 17 →
        buf position = d2.buf position := by
    intro position first second third fourth
    exact kept position (kept_of_context state.context first second third fourth)
  rw [ipcss, hdrlen, mss, state.paylen] at length
  rw [tucss] at flags
  have id : buf.netWord (offload.ipcss + 4) = d2.buf.netWord (offload.ipcss + 4) := by
    apply Memory.netWord_congr
    intro offset inside
    apply keeps <;> omega
  have seq : buf.netDword (offload.tucss + 4) = d2.buf.netDword (offload.tucss + 4) := by
    apply Memory.netDword_congr
    intro offset inside
    apply keeps <;> omega
  have behind : ∀ position, offload.hdrlen ≤ position → buf position = d2.buf position := by
    intro position above
    apply keeps <;> omega
  have inside : offload.hdrlen ≤ offload.size sent := Nat.le_add_right _ _
  have header : offload.Header sent (buf.slice 0 (offload.size sent)) := by
    constructor
    · have word : (view (buf.slice 0 (offload.size sent))).netWord (offload.ipcss + 2) =
          buf.netWord (offload.ipcss + 2) := by
        apply Memory.netWord_congr
        intro offset before
        exact view_slice buf (by omega)
      have ends := last_iff state.unfinished
      rw [word, length, Memory.length_slice, size]
      by_cases closing : last = true
      · have short := ends.mp (final.mp closing)
        rw [if_pos closing]
        omega
      · have long : ¬ offload.paylen - sent * offload.mss ≤ offload.mss := fun short =>
          closing (final.mpr (ends.mpr short))
        rw [if_neg closing]
        omega
    · rw [← state.header.id, ← id]
      apply Memory.netWord_congr
      intro offset before
      exact view_slice buf (by omega)
    · rw [← state.header.seq, ← seq]
      apply Memory.netDword_congr
      intro offset before
      exact view_slice buf (by omega)
    · rw [view_slice buf (by omega), flags, state.header.flags]
      by_cases closing : last = true
      · rw [if_pos closing, if_pos (final.mp closing)]
      · rw [if_neg closing, if_neg fun ends => closing (final.mpr ends), and_flags]
  refine ⟨buf, log, same, ?_, id, seq, ?_, behind⟩
  · rw [packets]
    apply state.packets.succ state.unfinished header
    intro position above before
    rw [behind position above]
    exact state.payload position above (Nat.lt_of_lt_of_le before state.inside)
  · intro more
    rw [flags, more]
    rfl

theorem send_tse (tse : td1.dcmdTse = true) (ifcs : td1.dcmdIfcs = true) (registered : d2.recvvirtFunc = true)
    (last : Bool) (size : Nat) :
    send td1 d2 last size =
      if last then { sendPacket true d2 last size size with len := 0 }
      else nextSegment (sendPacket true d2 last size size) size := by
  cases last <;> simp [send, tse, ifcs, registered]

theorem Ready.sendMore (state : offload.Ready sent bytes d2) (tse : td1.dcmdTse = true) (ifcs : td1.dcmdIfcs = true)
    (more : sent + 1 < offload.segments) :
    offload.Gathering (sent + 1) bytes (send td1 d2 false (offload.size sent)) ∧
      (send td1 d2 false (offload.size sent)).len < bufSize := by
  have mss : d2.dext0Mss = offload.mss := congrArg Context.mss state.context
  have hdrlen : d2.dext0Hdrlen = offload.hdrlen := congrArg Context.hdrlen state.context
  have ipcss : d2.dext0Ipcss = offload.ipcss := congrArg Context.ipcss state.context
  have tucss : d2.dext0Tucss = offload.tucss := congrArg Context.tucss state.context
  have positive : 0 < offload.mss := offload.mssPos
  have width : offload.paylen < 2 ^ 20 := offload.td0.paylen.isLt
  have next := (lt_segments offload (sent + 1)).mp more
  rw [Nat.add_mul, Nat.one_mul] at next
  have whole : offload.size sent = d2.dext0Hdrlen + d2.dext0Mss := by
    rw [hdrlen, mss, size]
    omega
  have inside := state.inside
  have bound := state.bound
  have len := state.len
  have paylen := state.paylen
  obtain ⟨buf, log, same, packets, id, seq, flags, behind⟩ :=
    state.packet (iff_of_false Bool.false_ne_true (Nat.ne_of_lt more))
  have layout : Layout { d2 with buf := buf, log := log } := layout_of_context state.context
  obtain ⟨nextBuf, nextLog, moved, silent, nextId, nextSeq, nextFlags, rest⟩ :=
    nextSegment_buf layout (by dsimp only; omega) bound (by dsimp only; omega) (by dsimp only; omega)
  rw [send_tse tse ifcs (congrArg Context.recvvirtFunc state.context), if_neg Bool.false_ne_true, same, whole, moved]
  dsimp only at silent nextId nextSeq nextFlags rest ⊢
  refine ⟨⟨more, ?_, state.context, ?_, ?_, ?_, ?_, ?_, ?_, ?_⟩, by omega⟩
  · rw [complete_succ state.unfinished len]
    exact inside
  · dsimp only
    rw [mss, Nat.add_mul, Nat.one_mul]
    omega
  · dsimp only
    rw [mss, paylen, Nat.add_mul, Nat.one_mul, Nat.sub_sub]
  · intro position above before
    dsimp only at before ⊢
    rw [rest position (by omega) before, behind _ (by omega), mss,
      state.payload _ (by omega) (by omega), Nat.add_mul, Nat.one_mul]
    congr 1
    omega
  · dsimp only
    rw [silent]
    exact packets
  · intro none
    cases none
  · intro _
    rw [ipcss, id, state.header.id] at nextId
    rw [tucss, seq, state.header.seq, mss] at nextSeq
    rw [tucss, flags rfl, state.header.flags, state.saved.tcpfin, state.saved.tcppsh] at nextFlags
    simp only [decide_eq_true_eq, restore_flags] at nextFlags
    refine ⟨?_, ?_, nextFlags⟩
    · rw [nextId, Nat.mod_add_mod, Nat.add_assoc]
    · rw [nextSeq, Nat.mod_add_mod, Nat.add_mul, Nat.one_mul, Nat.add_assoc]
  · intro _
    exact ⟨state.saved.first, state.saved.tcpfin, state.saved.tcppsh⟩

theorem Ready.sendLast (state : offload.Ready sent bytes d2) (tse : td1.dcmdTse = true) (ifcs : td1.dcmdIfcs = true)
    (last : sent + 1 = offload.segments) : offload.Finished (send td1 d2 true (offload.size sent)) := by
  obtain ⟨buf, log, same, packets, -⟩ := state.packet (iff_of_true rfl last)
  rw [send_tse tse ifcs (congrArg Context.recvvirtFunc state.context), if_pos rfl, same]
  refine ⟨state.context, rfl, ?_, ?_⟩
  · rw [← last, Nat.add_sub_cancel]
    exact state.paylen
  · rw [← last]
    exact packets

inductive State (offload : Offload) : Nat → Nat → Data2 → Prop where
  | gathering {sent bytes : Nat} {d2 : Data2} (state : offload.Gathering sent bytes d2)
      (room : d2.len < bufSize) : State offload sent bytes d2
  | finished {bytes : Nat} {d2 : Data2} (state : offload.Finished d2)
      (whole : offload.hdrlen + offload.paylen ≤ bytes) : State offload offload.segments bytes d2

theorem State.noted (state : offload.State sent bytes d2) (ixsm txsm : Bool) {log : List Event}
    (silent : packetsOf log = packetsOf d2.log) :
    offload.State sent bytes { d2 with dext1Ixsm := ixsm, dext1Txsm := txsm, log := log } := by
  cases state with
  | gathering state room =>
    refine .gathering ⟨state.unfinished, state.enough, state.context, state.len, state.paylen,
      state.payload, ?_, state.first, state.header, fun some => ?_⟩ room
    · rw [silent]
      exact state.packets
    · exact ⟨(state.saved some).first, (state.saved some).tcpfin, (state.saved some).tcppsh⟩
  | finished state whole =>
    refine .finished ⟨state.context, state.len, state.paylen, ?_⟩ whole
    rw [silent]
    exact state.packets

theorem State.reported (state : offload.State sent bytes d2) (rs : Bool) :
    offload.State sent bytes (reportStatus rs d2) := by
  cases rs with
  | false => exact state
  | true => exact state.noted d2.dext1Ixsm d2.dext1Txsm (by simp)

theorem dextsize_eq (context : d2.context = offload.context)
    (paylen : d2.dext0Paylen = offload.paylen - sent * offload.mss) : dextsize d2 = offload.size sent := by
  have mss : d2.dext0Mss = offload.mss := congrArg Context.mss context
  have hdrlen : d2.dext0Hdrlen = offload.hdrlen := congrArg Context.hdrlen context
  rw [dextsize, dextlast, hdrlen, mss, paylen, size]
  by_cases last : offload.paylen - sent * offload.mss ≤ offload.mss
  · rw [if_pos (decide_eq_true last), Nat.min_eq_right last]
  · rw [if_neg (by simpa using last), Nat.min_eq_left (by omega)]

theorem Gathering.sendFilled (state : offload.Gathering sent bytes d2) (bound : d2.len ≤ bufSize)
    (tse : td1.dcmdTse = true) (ifcs : td1.dcmdIfcs = true) (complete : offload.Complete bytes (sent + 1)) :
    offload.State (sent + 1) bytes (DisasVisor.Pro1000.sendFilled td1 d2) := by
  have ready := state.ready ((complete_succ state.unfinished state.len).mp complete) bound
  have size := dextsize_eq state.context state.paylen
  have mss : d2.dext0Mss = offload.mss := congrArg Context.mss state.context
  have filled : (td1.dcmdTse && decide (dextsize d2 ≤ d2.len)) = true := by
    rw [tse, Bool.true_and, decide_eq_true_eq, size]
    exact (complete_succ state.unfinished state.len).mp complete
  rw [DisasVisor.Pro1000.sendFilled, if_pos filled, size]
  by_cases last : sent + 1 = offload.segments
  · have final : dextlast d2 = true := by
      rw [dextlast, decide_eq_true_eq, state.paylen, mss]
      exact (last_iff state.unfinished).mp last
    rw [final, last]
    refine .finished (ready.sendLast tse ifcs last) ?_
    have all := lt_segments offload offload.segments
    rcases complete with none | enough
    · cases none
    · rw [last] at enough
      omega
  · have more : dextlast d2 = false := by
      rw [dextlast, decide_eq_false_iff_not, state.paylen, mss]
      exact fun short => last ((last_iff state.unfinished).mpr short)
    have unfinished := state.unfinished
    obtain ⟨next, room⟩ := ready.sendMore tse ifcs (by omega)
    rw [more]
    exact .gathering next room

theorem Gathering.keepFilled (state : offload.Gathering sent bytes d2) (middle : td1.dcmdEop = false)
    (incomplete : ¬ offload.Complete bytes (sent + 1)) :
    offload.State sent bytes (DisasVisor.Pro1000.sendFilled td1 d2) := by
  have fits : offload.hdrlen + offload.mss ≤ bufSize := offload.fits
  rw [complete_succ state.unfinished state.len] at incomplete
  have size := dextsize_eq state.context state.paylen
  have unfilled : ¬ (td1.dcmdTse && decide (dextsize d2 ≤ d2.len)) = true := by
    rw [Bool.and_eq_true, decide_eq_true_eq, size]
    exact fun filled => incomplete filled.2
  rw [DisasVisor.Pro1000.sendFilled, if_neg unfilled, if_neg (by rw [middle]; decide)]
  exact .gathering state (by omega)

theorem finishTdesc_gathering (tse : td1.dcmdTse = true) (ifcs : td1.dcmdIfcs = true) (fuel : Nat) :
    ∀ {sent bytes address count : Nat} {d2 : Data2}, offload.Gathering sent bytes d2 →
      d2.len < bufSize → offload.Holds address count bytes → count < fuel →
      bytes + count ≤ offload.hdrlen + offload.paylen →
      (td1.dcmdEop = true → bytes + count = offload.hdrlen + offload.paylen) →
      ∃ after next, finishTdesc offload.guest fuel ⟨d2, .loop td1 address count⟩ = some after ∧
        offload.State next (bytes + count) after ∧
        ∀ segments < offload.segments, segments + 1 ≤ next ↔
          offload.Complete (bytes + count) (segments + 1) ∧
            (segments ≤ sent ∨ offload.Forced (bytes + count) segments) := by
  induction fuel with
  | zero =>
    intro sent bytes address count d2 _ _ _ enough
    exact absurd enough (Nat.not_lt_zero _)
  | succ fuel ih =>
    intro sent bytes address count d2 state room holds enough inside eop
    obtain ⟨copied, same, len, gathering⟩ := state.copy (Nat.le_of_lt room) holds
    have gathered := state.len
    have pass : finishTdesc offload.guest (fuel + 1) ⟨d2, .loop td1 address count⟩ =
        finishTdesc offload.guest fuel (afterPass td1 (DisasVisor.Pro1000.sendFilled td1 copied,
          (address + min (bufSize - d2.len) count) % 2 ^ 64,
          count - min (bufSize - d2.len) count)) := by
      rw [finishTdesc, loopPass, same]
    by_cases fits : count ≤ bufSize - d2.len
    · -- the descriptor ends with this pass
      rw [Nat.min_eq_right fits] at pass len gathering
      have ended : finishTdesc offload.guest (fuel + 1) ⟨d2, .loop td1 address count⟩ =
          some (reportStatus td1.dcmdRs (DisasVisor.Pro1000.sendFilled td1 copied)) := by
        rw [pass, Nat.sub_self, afterPass, if_neg (by simp)]
        cases fuel <;> rfl
      have due : ∀ segments, segments ≤ sent ∨ offload.Forced (bytes + count) segments → segments ≤ sent := by
        rintro segments (before | forced)
        · exact before
        · rw [← gathering.len] at forced
          exact forced.le (by omega)
      by_cases complete : offload.Complete (bytes + count) (sent + 1)
      · refine ⟨_, sent + 1, ended,
          (gathering.sendFilled (by omega) tse ifcs complete).reported _, fun segments _ => ?_⟩
        constructor
        · intro before
          exact ⟨complete.mono before, .inl (by omega)⟩
        · rintro ⟨-, before⟩
          exact Nat.succ_le_succ (due segments before)
      · have middle : td1.dcmdEop = false := by
          rw [Bool.eq_false_iff]
          intro last
          rw [eop last] at complete
          exact complete (complete_whole _)
        refine ⟨_, sent, ended, (gathering.keepFilled middle complete).reported _,
          fun segments _ => ?_⟩
        constructor
        · intro before
          exact ⟨gathering.enough.mono before, .inl (by omega)⟩
        · rintro ⟨more, before⟩
          have bound := due segments before
          have other : segments ≠ sent := by
            rintro rfl
            exact complete more
          omega
    · -- the buffer is full: a segment is sent, and the loop goes on
      have fullSegment : offload.hdrlen + offload.mss ≤ bufSize := offload.fits
      have header : 0 < offload.hdrlen :=
        Nat.lt_of_lt_of_le (by omega : 0 < offload.td0.tucss.toNat + 20) offload.tcpHeader
      have unfinished := state.unfinished
      rw [Nat.min_eq_left (by omega)] at pass len gathering
      have complete : offload.Complete (bytes + (bufSize - d2.len)) (sent + 1) := by
        rw [complete_succ state.unfinished gathering.len]
        omega
      have more : sent + 1 < offload.segments := by
        by_contra none
        have last : sent + 1 = offload.segments := by omega
        have short := (last_iff state.unfinished).mp last
        have left := (lt_segments offload sent).mp state.unfinished
        omega
      have stepped := gathering.sendFilled (by omega) tse ifcs complete
      generalize DisasVisor.Pro1000.sendFilled td1 copied = sentOn at stepped pass
      generalize counted : sent + 1 = number at stepped
      cases stepped with
      | finished => omega
      | gathering stepped stepRoom =>
        subst counted
        have stepLen := stepped.len
        rw [Nat.add_mul, Nat.one_mul] at stepLen
        rw [afterPass, if_pos (by omega)] at pass
        obtain ⟨after, next, finished, reached, sends⟩ := ih stepped stepRoom
          (holds.rest (by omega)) (by omega) (by omega) (fun last => by have := eop last; omega)
        have total : bytes + (bufSize - d2.len) + (count - (bufSize - d2.len)) = bytes + count := by omega
        rw [total] at reached sends
        refine ⟨after, next, pass.trans finished, reached, fun segments before => ?_⟩
        rw [sends segments before]
        refine and_congr_right fun _ => ⟨?_, ?_⟩
        · rintro (old | forced)
          · by_cases newest : segments = sent + 1
            · refine .inr (.inr ?_)
              rw [newest, Nat.add_sub_cancel]
              omega
            · exact .inl (by omega)
          · exact .inr forced
        · rintro (old | forced)
          · exact .inl (by omega)
          · exact .inr forced

end Offload

end DisasVisor.Pro1000
