import DisasVisor.Lib.Transitions
import DisasVisor.Pro1000.Transmit

/-!
Which sequences of transmit descriptors are processed inside of the buffer.
-/

namespace DisasVisor.Pro1000

def Event.Safe : Event → Prop
  | .touch _ high => high ≤ bufSize
  | .subtract left right => right ≤ left
  | _ => True

instance : DecidablePred Event.Safe := by
  intro event
  cases event <;> unfold Event.Safe <;> infer_instance

def SafeLog (log : List Event) : Prop := ∀ event ∈ log, event.Safe

instance : DecidablePred SafeLog := fun log =>
  inferInstanceAs (Decidable (∀ event ∈ log, event.Safe))

theorem safeLog_append (before after : List Event) : SafeLog (before ++ after) ↔ SafeLog before ∧ SafeLog after := by
  simp [SafeLog, or_imp, forall_and]

theorem safeLog_cons (event : Event) (log : List Event) : SafeLog (event :: log) ↔ event.Safe ∧ SafeLog log :=
  List.forall_mem_cons

theorem safeLog_nil : SafeLog [] := List.forall_mem_nil _

structure Widths (d2 : Data2) : Prop where
  tucss : d2.dext0Tucss < 2 ^ 8
  ipcss : d2.dext0Ipcss < 2 ^ 8
  mss : d2.dext0Mss < 2 ^ 16
  hdrlen : d2.dext0Hdrlen < 2 ^ 8
  paylen : d2.dext0Paylen < 2 ^ 20

theorem Widths.kept {d2 after : Data2} (widths : Widths d2)
    (same : (after.dext0Tucss, after.dext0Ipcss, after.dext0Mss, after.dext0Hdrlen, after.dext0Paylen) =
      (d2.dext0Tucss, d2.dext0Ipcss, d2.dext0Mss, d2.dext0Hdrlen, d2.dext0Paylen)) : Widths after := by
  simp only [Prod.mk.injEq] at same
  obtain ⟨tucss, ipcss, mss, hdrlen, paylen⟩ := same
  exact ⟨tucss ▸ widths.tucss, ipcss ▸ widths.ipcss, mss ▸ widths.mss, hdrlen ▸ widths.hdrlen, paylen ▸ widths.paylen⟩

/-! One lemma for each function: what it changes, and when what it touches is safe. -/

theorem tdescCopytobuf_spec (guest : Memory) (d2 : Data2) (addr len : Nat) (bound : d2.len ≤ bufSize) :
    ∃ buf log, (tdescCopytobuf guest d2 addr len).1 =
        { d2 with buf := buf, len := min bufSize (d2.len + len), log := log } ∧
      (SafeLog log ↔ SafeLog d2.log) := by
  have room : (bufSize + 2 ^ 32 - d2.len) % 2 ^ 32 = bufSize - d2.len := by
    simp only [bufSize] at bound ⊢
    omega
  have filled : (d2.len + min (bufSize - d2.len) len) % 2 ^ 32 = min bufSize (d2.len + len) := by
    simp only [bufSize] at bound ⊢
    omega
  have inside : d2.len + min (bufSize - d2.len) len ≤ bufSize := by omega
  simp only [tdescCopytobuf, room, Data2.touch, Data2.note, filled]
  refine ⟨_, _, rfl, ?_⟩
  simp only [safeLog_append, safeLog_cons, safeLog_nil, Event.Safe, inside, and_true]

def checksumLast (len cse : Nat) : Nat := if cse = 0 then len - 1 else cse

def Inserts (len css cso cse : Nat) : Prop :=
  cso ≠ 0 ∧ cso + 1 < len ∧ checksumLast len cse < len ∧ css ≤ checksumLast len cse

instance (len css cso cse : Nat) : Decidable (Inserts len css cso cse) := inferInstanceAs (Decidable (_ ∧ _))

theorem checksum_eq (d2 : Data2) (len css cso cse addval : Nat) :
    checksum d2 len css cso cse addval =
      if Inserts len css cso cse then insertChecksum d2 css cso (checksumLast len cse) addval
      else d2 := by
  simp only [checksum, Inserts]
  by_cases none : cso = 0
  · simp only [none, if_true, ne_eq, not_true_eq_false, false_and, if_false]
  by_cases short : len ≤ cso + 1
  · have room : ¬ cso + 1 < len := by omega
    simp only [short, room, if_true, false_and, and_false, if_false, ite_self]
  have room : cso + 1 < len := by omega
  change (if cso = 0 then d2 else if len ≤ cso + 1 then d2 else
    if len ≤ checksumLast len cse then d2 else if checksumLast len cse < css then d2 else
      insertChecksum d2 css cso (checksumLast len cse) addval) = _
  by_cases last : len ≤ checksumLast len cse
  · have beyond : ¬ checksumLast len cse < len := by omega
    simp only [last, beyond, if_true, false_and, and_false, if_false, ite_self]
  have inside : checksumLast len cse < len := by omega
  by_cases before : checksumLast len cse < css
  · have empty : ¬ css ≤ checksumLast len cse := by omega
    simp only [before, empty, if_true, and_false, if_false, ite_self]
  have start : css ≤ checksumLast len cse := by omega
  simp only [none, short, last, before, room, inside, start, if_false, ne_eq, not_false_eq_true, and_self, if_true]

theorem insertChecksum_spec (d2 : Data2) (css cso cse addval : Nat) :
    ∃ buf log, insertChecksum d2 css cso cse addval = { d2 with buf := buf, log := log } ∧
      (SafeLog log ↔ SafeLog d2.log ∧ cso + 2 ≤ bufSize ∧ ipchecksumEnd css (cse - css + 1) ≤ bufSize) := by
  by_cases zero : addval = 0
  · simp only [insertChecksum, zero, ne_eq, not_true_eq_false, if_false, Data2.touch, Data2.note]
    refine ⟨_, _, rfl, ?_⟩
    simp only [safeLog_append, safeLog_cons, safeLog_nil, Event.Safe, and_true, and_assoc]
    exact and_congr_right fun _ => And.comm
  · simp only [insertChecksum, zero, ne_eq, not_false_eq_true, if_true, Data2.touch, Data2.note]
    refine ⟨_, _, rfl, ?_⟩
    simp only [safeLog_append, safeLog_cons, safeLog_nil, Event.Safe, and_true]
    constructor
    · rintro ⟨⟨⟨safe, written⟩, loaded⟩, -⟩
      exact ⟨safe, written, loaded⟩
    · rintro ⟨safe, written, loaded⟩
      exact ⟨⟨⟨safe, written⟩, loaded⟩, written⟩

theorem checksum_spec (d2 : Data2) (len css cso cse addval : Nat) :
    ∃ buf log, checksum d2 len css cso cse addval = { d2 with buf := buf, log := log } ∧
      (SafeLog log ↔ SafeLog d2.log ∧ (Inserts len css cso cse → cso + 2 ≤ bufSize ∧
        ipchecksumEnd css (checksumLast len cse - css + 1) ≤ bufSize)) := by
  rw [checksum_eq]
  by_cases inserts : Inserts len css cso cse
  · rw [if_pos inserts]
    obtain ⟨buf, log, same, safe⟩ := insertChecksum_spec d2 css cso (checksumLast len cse) addval
    refine ⟨buf, log, same, safe.trans (and_congr_right fun _ => ?_)⟩
    simp only [inserts, forall_const]
  · rw [if_neg inserts]
    exact ⟨d2.buf, d2.log, rfl, by simp [inserts]⟩

theorem Widths.header {d2 : Data2} (widths : Widths d2) (offset : Nat) (near : offset < 20) :
    d2.dext0Ipcss + offset ≤ bufSize ∧ d2.dext0Tucss + offset ≤ bufSize := by
  have ipcss := widths.ipcss
  have tucss := widths.tucss
  simp only [bufSize]
  omega

theorem tseFirst_spec (d2 : Data2) (widths : Widths d2) :
    ∃ fin psh iplen ipchecksum tcpchecksum log, tseFirst d2 =
        { d2 with tseTcpfin := fin, tseTcppsh := psh, tseIplen := iplen,
                  tseIpchecksum := ipchecksum, tseTcpchecksum := tcpchecksum, log := log } ∧
      (SafeLog log ↔ SafeLog d2.log) := by
  have header := widths.header
  cases ip : d2.dext0Ip <;> cases tcp : d2.dext0Tcp <;>
    simp only [tseFirst, ip, tcp, if_true, if_false, Bool.false_eq_true, Data2.touch, Data2.note]
  all_goals
    refine ⟨_, _, _, _, _, _, rfl, ?_⟩
    simp [safeLog_append, safeLog_cons, safeLog_nil, Event.Safe, Nat.add_assoc, header]

theorem tseSetHeader_spec (d2 : Data2) (last : Bool) (widths : Widths d2) :
    ∃ buf log, tseSetHeader d2 last = { d2 with buf := buf, log := log } ∧ (SafeLog log ↔ SafeLog d2.log) := by
  have header := widths.header
  cases ip : d2.dext0Ip <;> cases tcp : d2.dext0Tcp <;> cases last <;>
    simp only [tseSetHeader, ip, tcp, if_true, if_false, Bool.false_eq_true, Bool.and_false,
      Bool.and_true, Bool.not_true, Bool.not_false, Data2.touch, Data2.note]
  all_goals
    refine ⟨_, _, rfl, ?_⟩
    simp [safeLog_append, safeLog_cons, safeLog_nil, Event.Safe, Nat.add_assoc, header]

theorem tseSetNextHeader_spec (d2 : Data2) (widths : Widths d2) (more : d2.dext0Mss < d2.dext0Paylen) :
    ∃ buf log, tseSetNextHeader d2 =
        { d2 with buf := buf, dext0Paylen := d2.dext0Paylen - d2.dext0Mss, log := log } ∧
      (SafeLog log ↔ SafeLog d2.log) := by
  have header := widths.header
  have paylen := widths.paylen
  have remaining : (d2.dext0Paylen + 2 ^ 32 - d2.dext0Mss) % 2 ^ 32 = d2.dext0Paylen - d2.dext0Mss := by omega
  cases ip : d2.dext0Ip <;> cases tcp : d2.dext0Tcp <;>
    simp only [tseSetNextHeader, ip, tcp, if_true, if_false, Bool.false_eq_true, Data2.touch, Data2.note, remaining]
  all_goals
    refine ⟨_, _, rfl, ?_⟩
    simp [safeLog_append, safeLog_cons, safeLog_nil, Event.Safe, Nat.add_assoc, header]

def ChecksumFits (len css cso cse : Nat) : Prop :=
  Inserts len css cso cse → ipchecksumEnd css (checksumLast len cse - css + 1) ≤ bufSize

def ChecksumsFit (d2 : Data2) (size : Nat) : Prop :=
  (d2.dext1Ixsm = true → ChecksumFits size d2.dext0Ipcss d2.dext0Ipcso d2.dext0Ipcse) ∧
  (d2.dext1Txsm = true → ChecksumFits size d2.dext0Tucss d2.dext0Tucso d2.dext0Tucse)

theorem checksum_inside (wanted : Bool) (d2 : Data2) (len css cso cse addval : Nat) :
    ∃ buf log, (if wanted then checksum d2 len css cso cse addval else d2) =
        { d2 with buf := buf, log := log } ∧
      (len ≤ bufSize → (SafeLog log ↔ SafeLog d2.log ∧ (wanted = true → ChecksumFits len css cso cse))) := by
  cases wanted with
  | false => exact ⟨d2.buf, d2.log, rfl, by simp⟩
  | true =>
    obtain ⟨buf, log, same, safe⟩ := checksum_spec d2 len css cso cse addval
    refine ⟨buf, log, same, fun inside => safe.trans (and_congr_right fun _ => ?_)⟩
    rw [forall_prop_of_true rfl]
    constructor
    · exact fun fits inserts => (fits inserts).2
    · intro fits inserts
      have room := inserts.2.1
      exact ⟨by omega, fits inserts⟩

theorem insertChecksums_spec (tse : Bool) (d2 : Data2) (size dextsize : Nat) :
    ∃ buf log, insertChecksums tse d2 size dextsize = { d2 with buf := buf, log := log } ∧
      (size ≤ bufSize → (SafeLog log ↔ SafeLog d2.log ∧ ChecksumsFit d2 size)) := by
  obtain ⟨ipBuf, ipLog, ipSame, ipSafe⟩ := checksum_inside d2.dext1Ixsm d2 size d2.dext0Ipcss
    d2.dext0Ipcso d2.dext0Ipcse 0
  obtain ⟨buf, log, same, safe⟩ := checksum_inside d2.dext1Txsm { d2 with buf := ipBuf, log := ipLog }
    size d2.dext0Tucss d2.dext0Tucso d2.dext0Tucse
    (if tse then bswap16 ((dextsize + 2 ^ 32 - d2.dext0Tucss) % 2 ^ 32) else 0)
  refine ⟨buf, log, ?_, fun inside => ?_⟩
  · simp only [insertChecksums, ipSame]
    exact same
  · rw [safe inside, ipSafe inside, and_assoc, ChecksumsFit]

/-- The next segment, whatever the length of the one sent. -/
theorem nextSegment_shape (d2 : Data2) (packetSize : Nat) (widths : Widths d2) (more : d2.dext0Mss < d2.dext0Paylen) :
    ∃ buf log, nextSegment d2 packetSize =
        { d2 with buf := buf, len := (d2.len + 2 ^ 32 - d2.dext0Mss) % 2 ^ 32,
                  dext0Paylen := d2.dext0Paylen - d2.dext0Mss, log := log } ∧
      (SafeLog log ↔ (((SafeLog d2.log ∧ packetSize ≤ d2.len) ∧
        d2.dext0Hdrlen + (d2.len + 2 ^ 32 - packetSize) % 2 ^ 32 ≤ bufSize) ∧
        packetSize + (d2.len + 2 ^ 32 - packetSize) % 2 ^ 32 ≤ bufSize) ∧ d2.dext0Mss ≤ d2.len) := by
  simp only [nextSegment, Data2.touch, Data2.note]
  generalize d2.buf.blit d2.dext0Hdrlen _ _ = buf
  generalize logged : d2.log ++ _ ++ _ ++ _ ++ _ = log
  obtain ⟨nextBuf, nextLog, same, safe⟩ := tseSetNextHeader_spec
    { d2 with buf := buf, len := (d2.len + 2 ^ 32 - d2.dext0Mss) % 2 ^ 32, log := log } (widths.kept rfl) more
  refine ⟨nextBuf, nextLog, same, safe.trans ?_⟩
  rw [← logged]
  simp only [safeLog_append, safeLog_cons, safeLog_nil, Event.Safe, and_true]

theorem nextSegment_spec (d2 : Data2) (packetSize : Nat) (widths : Widths d2)
    (more : d2.dext0Mss < d2.dext0Paylen) (segment : packetSize = d2.dext0Hdrlen + d2.dext0Mss)
    (bound : d2.len ≤ bufSize) :
    ∃ buf len log, nextSegment d2 packetSize =
        { d2 with buf := buf, len := len, dext0Paylen := d2.dext0Paylen - d2.dext0Mss,
                  log := log } ∧
      (SafeLog log ∧ len ≤ bufSize ↔ SafeLog d2.log ∧ packetSize ≤ d2.len) := by
  obtain ⟨buf, log, same, safe⟩ := nextSegment_shape d2 packetSize widths more
  refine ⟨buf, _, log, same, ?_⟩
  rw [safe]
  simp only [bufSize] at bound ⊢
  constructor
  · rintro ⟨⟨⟨⟨⟨before, sent⟩, -⟩, -⟩, -⟩, -⟩
    exact ⟨before, sent⟩
  · rintro ⟨before, sent⟩
    refine ⟨⟨⟨⟨⟨before, sent⟩, ?_⟩, ?_⟩, ?_⟩, ?_⟩
    all_goals omega

def PacketFits (td1 : TdescDext1) (d2 : Data2) : Prop :=
  td1.dcmdIfcs = true → d2.recvvirtFunc = true →
    ChecksumsFit d2 (if td1.dcmdTse then dextsize d2 else d2.len) ∧
    (td1.dcmdTse = true → dextsize d2 ≤ bufSize ∧ (dextsize d2 ≤ d2.len ∨ dextlast d2 = true))

theorem dextlast_iff (d2 : Data2) : dextlast d2 = true ↔ d2.dext0Paylen ≤ d2.dext0Mss := by
  simp [dextlast]

theorem sendPacket_spec (tse : Bool) (d2 : Data2) (last : Bool) (size dextsize : Nat) (widths : Widths d2) :
    ∃ buf log, sendPacket tse d2 last size dextsize = { d2 with buf := buf, log := log } ∧
      (SafeLog log ↔ SafeLog d2.log ∧ ChecksumsFit d2 size ∧ size ≤ bufSize) := by
  obtain ⟨setBuf, setLog, setSame, setSafe⟩ : ∃ buf log,
      (if tse then tseSetHeader d2 last else d2) = { d2 with buf := buf, log := log } ∧
      (SafeLog log ↔ SafeLog d2.log) := by
    cases tse with
    | true => exact tseSetHeader_spec d2 last widths
    | false => exact ⟨d2.buf, d2.log, rfl, Iff.rfl⟩
  obtain ⟨buf, log, same, safe⟩ := insertChecksums_spec tse { d2 with buf := setBuf, log := setLog } size dextsize
  simp only [sendPacket, setSame, same, Data2.receive, Data2.touch, Data2.note]
  refine ⟨_, _, rfl, ?_⟩
  simp only [safeLog_append, safeLog_cons, safeLog_nil, Event.Safe, and_true, Nat.zero_add]
  constructor
  · rintro ⟨before, inside⟩
    obtain ⟨set, fits⟩ := (safe inside).mp before
    exact ⟨setSafe.mp set, fits, inside⟩
  · rintro ⟨before, fits, inside⟩
    exact ⟨(safe inside).mpr ⟨setSafe.mpr before, fits⟩, inside⟩

theorem send_spec (td1 : TdescDext1) (d2 : Data2) (last : Bool) (size : Nat) (widths : Widths d2)
    (bound : d2.len ≤ bufSize) (segment : td1.dcmdTse = true → last = dextlast d2 ∧ size = dextsize d2) :
    Widths (send td1 d2 last size) ∧
      (SafeLog (send td1 d2 last size).log ∧ (send td1 d2 last size).len ≤ bufSize ↔
        SafeLog d2.log ∧ PacketFits td1 d2) := by
  simp only [send]
  by_cases ifcs : td1.dcmdIfcs = true
  swap
  · simp [ifcs, widths, bound, PacketFits]
  by_cases registered : d2.recvvirtFunc = true
  swap
  · simp only [ifcs, registered, Bool.not_true, Bool.false_eq_true, if_false]
    refine ⟨widths.kept rfl, ?_⟩
    simp [PacketFits, registered]
  simp only [ifcs, registered, Bool.not_true, Bool.false_eq_true, if_false, if_true]
  obtain ⟨buf, log, same, safe⟩ := sendPacket_spec td1.dcmdTse d2 last
    (if td1.dcmdTse then size else d2.len) size widths
  by_cases tse : td1.dcmdTse = true
  · obtain ⟨rfl, rfl⟩ := segment tse
    simp only [tse, if_true, Bool.true_and, Bool.not_eq_eq_eq_not, Bool.not_true] at same safe ⊢
    have needed : PacketFits td1 d2 ↔ ChecksumsFit d2 (dextsize d2) ∧ dextsize d2 ≤ bufSize ∧
        (dextsize d2 ≤ d2.len ∨ dextlast d2 = true) := by
      simp only [PacketFits, ifcs, registered, tse, if_true, forall_const]
    rw [same, needed]
    by_cases lastSegment : dextlast d2 = true
    · simp only [lastSegment, Bool.true_eq_false, if_false, or_true, and_true, Nat.zero_le, safe]
      exact widths.kept rfl
    · have more : d2.dext0Mss < d2.dext0Paylen := by
        rw [dextlast_iff] at lastSegment
        omega
      have notLast : dextlast d2 = false := by simpa using lastSegment
      obtain ⟨nextBuf, nextLen, nextLog, nextSame, nextSafe⟩ := nextSegment_spec
        { d2 with buf := buf, log := log } (dextsize d2) (widths.kept rfl) more
        (by simp [dextsize, notLast]) bound
      have paylen := widths.paylen
      simp only [notLast, if_true, nextSame, nextSafe, safe, Bool.false_eq_true, or_false]
      refine ⟨⟨widths.tucss, widths.ipcss, widths.mss, widths.hdrlen, ?_⟩, ?_⟩
      · dsimp only
        omega
      · simp only [and_assoc]
  · have notTse : td1.dcmdTse = false := by simpa using tse
    have needed : PacketFits td1 d2 ↔ ChecksumsFit d2 d2.len := by simp [PacketFits, ifcs, registered, notTse]
    simp only [notTse, Bool.false_eq_true, if_false] at same safe
    simp only [notTse, Bool.false_eq_true, if_false, Bool.false_and, same, safe, needed, bound, and_true, Nat.zero_le]
    exact widths.kept rfl

theorem saveHeader_spec (d2 : Data2) (widths : Widths d2) :
    ∃ first fin psh iplen ipchecksum tcpchecksum log, saveHeader d2 =
        { d2 with tseFirst := first, tseTcpfin := fin, tseTcppsh := psh, tseIplen := iplen,
                  tseIpchecksum := ipchecksum, tseTcpchecksum := tcpchecksum, log := log } ∧
      (SafeLog log ↔ SafeLog d2.log) := by
  by_cases first : d2.tseFirst = true
  · obtain ⟨fin, psh, iplen, ipchecksum, tcpchecksum, log, same, safe⟩ := tseFirst_spec d2 widths
    refine ⟨false, fin, psh, iplen, ipchecksum, tcpchecksum, log, ?_, safe⟩
    rw [saveHeader, if_pos first, same]
  · exact ⟨d2.tseFirst, d2.tseTcpfin, d2.tseTcppsh, d2.tseIplen, d2.tseIpchecksum,
      d2.tseTcpchecksum, d2.log, if_neg first, Iff.rfl⟩

def FilledFits (td1 : TdescDext1) (d2 : Data2) : Prop :=
  (td1.dcmdTse = true ∧ dextsize d2 ≤ d2.len ∨ td1.dcmdEop = true) → PacketFits td1 d2

theorem sendFilled_spec (td1 : TdescDext1) (d2 : Data2) (widths : Widths d2) (bound : d2.len ≤ bufSize) :
    Widths (sendFilled td1 d2) ∧
      (SafeLog (sendFilled td1 d2).log ∧ (sendFilled td1 d2).len ≤ bufSize ↔
        SafeLog d2.log ∧ FilledFits td1 d2) := by
  by_cases complete : td1.dcmdTse = true ∧ dextsize d2 ≤ d2.len
  · have shape : sendFilled td1 d2 = send td1 (saveHeader d2) (dextlast d2) (dextsize d2) := by
      rw [sendFilled, if_pos (by simp [complete])]
    obtain ⟨first, fin, psh, iplen, ipchecksum, tcpchecksum, log, same, safe⟩ := saveHeader_spec d2 widths
    have sent := send_spec td1 (saveHeader d2) (dextlast d2) (dextsize d2)
      (by rw [same]; exact widths.kept rfl)
      (by rw [same]; exact bound) (by rw [same]; exact fun _ => ⟨rfl, rfl⟩)
    have needed : PacketFits td1 (saveHeader d2) ↔ PacketFits td1 d2 := by
      rw [same]
      rfl
    have saved : SafeLog (saveHeader d2).log ↔ SafeLog d2.log := by
      rw [same]
      exact safe
    rw [needed, saved] at sent
    rw [shape]
    simpa only [FilledFits, complete, true_and, true_or, forall_const] using sent
  · by_cases eop : td1.dcmdEop = true
    · have shape : sendFilled td1 d2 = send td1 d2 (td1.dcmdTse && dextlast d2)
          (if td1.dcmdTse then dextsize d2 else 0) := by
        rw [sendFilled, if_neg (by simpa using complete), if_pos eop]
      have sent := send_spec td1 d2 (td1.dcmdTse && dextlast d2)
        (if td1.dcmdTse then dextsize d2 else 0) widths bound
        (fun tse => by simp [tse])
      rw [shape]
      simpa only [FilledFits, eop, or_true, forall_const] using sent
    · have shape : sendFilled td1 d2 = d2 := by rw [sendFilled, if_neg (by simpa using complete), if_neg eop]
      rw [shape]
      simp [FilledFits, complete, eop, widths, bound]

def PassOk (td1 : TdescDext1) (d2 : Data2) (tdlen : Nat) : Prop :=
  FilledFits td1 { d2 with len := min bufSize (d2.len + tdlen) }

theorem loopPass_spec (guest : Memory) (td1 : TdescDext1) (d2 : Data2) (tdaddr tdlen : Nat)
    (widths : Widths d2) (bound : d2.len ≤ bufSize) :
    Widths (loopPass guest td1 d2 tdaddr tdlen).1 ∧
      (SafeLog (loopPass guest td1 d2 tdaddr tdlen).1.log ∧
        (loopPass guest td1 d2 tdaddr tdlen).1.len ≤ bufSize ↔ SafeLog d2.log ∧ PassOk td1 d2 tdlen) := by
  obtain ⟨buf, log, same, safe⟩ := tdescCopytobuf_spec guest d2 tdaddr tdlen bound
  have shape : (loopPass guest td1 d2 tdaddr tdlen).1 =
      sendFilled td1 { d2 with buf := buf, len := min bufSize (d2.len + tdlen), log := log } := by
    rw [← same]
    rfl
  have filled := sendFilled_spec td1
    { d2 with buf := buf, len := min bufSize (d2.len + tdlen), log := log } (widths.kept rfl) (Nat.min_le_left _ _)
  rw [safe] at filled
  rw [shape]
  exact filled

/-- A step of the driver: it begins with a descriptor that the guest has posted, it makes one pass
for a data descriptor, or a callback is registered. The guest's memory may change in between. -/
inductive Step : Driver → Driver → Prop where
  | begin (guest : Memory) (d2 : Data2) (td : Tdesc) : Step ⟨d2, .idle⟩ (beginTdesc guest d2 td)
  | pass (guest : Memory) (d2 : Data2) (td1 : TdescDext1) (tdaddr tdlen : Nat) :
      Step ⟨d2, .loop td1 tdaddr tdlen⟩ (afterPass td1 (loopPass guest td1 d2 tdaddr tdlen))
  | setrecv (d2 : Data2) : Step ⟨d2, .idle⟩ ⟨{ d2 with recvvirtFunc := true }, .idle⟩

def Driver.Safe (driver : Driver) : Prop := driver.d2.len ≤ bufSize ∧ SafeLog driver.d2.log

def Driver.Ok (driver : Driver) : Prop :=
  match driver.phase with
  | .idle => True
  | .loop td1 _ tdlen => PassOk td1 driver.d2 tdlen

theorem reportStatus_spec (rs : Bool) (d2 : Data2) :
    ∃ log, reportStatus rs d2 = { d2 with log := log } ∧ (SafeLog log ↔ SafeLog d2.log) := by
  cases rs with
  | false => exact ⟨d2.log, rfl, Iff.rfl⟩
  | true =>
    refine ⟨_, rfl, ?_⟩
    simp [safeLog_append, safeLog_cons, safeLog_nil, Event.Safe]

theorem beginTdesc_spec (guest : Memory) (d2 : Data2) (td : Tdesc) (widths : Widths d2) (bound : d2.len ≤ bufSize) :
    Widths (beginTdesc guest d2 td).d2 ∧ (beginTdesc guest d2 td).d2.len ≤ bufSize ∧
      (SafeLog (beginTdesc guest d2 td).d2.log ↔ SafeLog d2.log) := by
  cases td with
  | dext0 td0 =>
    have paylen := td0.paylen.isLt
    have mss := td0.mss.toNat_lt
    have hdrlen := td0.hdrlen.toNat_lt
    have tucss := td0.tucss.toNat_lt
    have ipcss := td0.ipcss.toNat_lt
    cases tse : td0.tucmdTse with
    | false =>
      simp only [beginTdesc, tse, Bool.false_eq_true, if_false]
      obtain ⟨log, same, safe⟩ := reportStatus_spec td0.tucmdRs
        { d2 with
          dext0Tucss := td0.tucss.toNat, dext0Tucso := td0.tucso.toNat,
          dext0Tucse := td0.tucse.toNat, dext0Ipcss := td0.ipcss.toNat,
          dext0Ipcso := td0.ipcso.toNat, dext0Ipcse := td0.ipcse.toNat,
          dext0Ip := td0.tucmdIp, dext0Tcp := td0.tucmdTcp }
      rw [same]
      exact ⟨⟨tucss, ipcss, widths.mss, widths.hdrlen, widths.paylen⟩, bound, safe⟩
    | true =>
      simp only [beginTdesc, tse, if_true]
      obtain ⟨log, same, safe⟩ := reportStatus_spec td0.tucmdRs
        { d2 with
          dext0Tucss := td0.tucss.toNat, dext0Tucso := td0.tucso.toNat,
          dext0Tucse := td0.tucse.toNat, dext0Ipcss := td0.ipcss.toNat,
          dext0Ipcso := td0.ipcso.toNat, dext0Ipcse := td0.ipcse.toNat,
          dext0Mss := td0.mss.toNat, dext0Hdrlen := td0.hdrlen.toNat,
          dext0Paylen := td0.paylen.val, tseFirst := true,
          dext0Ip := td0.tucmdIp, dext0Tcp := td0.tucmdTcp }
      rw [same]
      exact ⟨⟨tucss, ipcss, mss, hdrlen, paylen⟩, bound, safe⟩
  | dext1 td1 =>
    simp only [beginTdesc]
    split
    · exact ⟨widths.kept rfl, bound, Iff.rfl⟩
    · exact ⟨widths, bound, Iff.rfl⟩
  | badDtyp cmdRs =>
    obtain ⟨log, same, safe⟩ := reportStatus_spec cmdRs d2
    simp only [beginTdesc, same]
    exact ⟨widths.kept rfl, bound, safe⟩
  | legacy td =>
    have width (buf : Memory) (len : Nat) (log : List Event) :
        Widths { d2 with buf := buf, len := len, log := log } := widths.kept rfl
    by_cases posted : td.addr ≠ 0 ∧ td.len ≠ 0
    · obtain ⟨buf, log, same, safe⟩ :=
        tdescCopytobuf_spec guest d2 td.addr.toNat td.len.toNat bound
      have filled : min bufSize (d2.len + td.len.toNat) ≤ bufSize := Nat.min_le_left _ _
      simp only [beginTdesc, if_pos posted, same]
      by_cases eop : td.cmdEop = true
      · obtain ⟨sentLog, sent, sentSafe⟩ : ∃ sentLog,
            (if d2.recvvirtFunc then
              Data2.receive { d2 with buf := buf, len := min bufSize (d2.len + td.len.toNat), log := log }
                (min bufSize (d2.len + td.len.toNat))
            else { d2 with buf := buf, len := min bufSize (d2.len + td.len.toNat), log := log }) =
              { d2 with buf := buf, len := min bufSize (d2.len + td.len.toNat), log := sentLog } ∧
            (SafeLog sentLog ↔ SafeLog d2.log) := by
          cases d2.recvvirtFunc with
          | false => exact ⟨log, rfl, safe⟩
          | true =>
            refine ⟨_, rfl, ?_⟩
            simp only [Data2.touch, Data2.note, safeLog_append, safeLog_cons, safeLog_nil,
              Event.Safe, and_true, Nat.zero_add, filled, safe]
        obtain ⟨doneLog, done, doneSafe⟩ := reportStatus_spec td.cmdRs
          { d2 with buf := buf, len := min bufSize (d2.len + td.len.toNat), log := sentLog }
        simp only [eop, if_true, sent, done]
        exact ⟨width _ _ _, Nat.zero_le _, doneSafe.trans sentSafe⟩
      · simp only [eop, if_false, Bool.false_eq_true]
        exact ⟨width _ _ _, filled, safe⟩
    · rw [beginTdesc, if_neg posted]
      exact ⟨widths, bound, Iff.rfl⟩

theorem step_safe_iff {before after : Driver} (step : Step before after)
    (widths : Widths before.d2) (good : before.Safe) : Widths after.d2 ∧ (after.Safe ↔ before.Ok) := by
  obtain ⟨bound, safe⟩ := good
  cases step with
  | begin guest d2 td =>
    obtain ⟨width, filled, same⟩ := beginTdesc_spec guest d2 td widths bound
    simp only [Driver.Ok, iff_true]
    exact ⟨width, filled, same.mpr safe⟩
  | pass guest d2 td1 tdaddr tdlen =>
    obtain ⟨width, passed⟩ := loopPass_spec guest td1 d2 tdaddr tdlen widths bound
    have whole : Widths (afterPass td1 (loopPass guest td1 d2 tdaddr tdlen)).d2 ∧
        ((afterPass td1 (loopPass guest td1 d2 tdaddr tdlen)).Safe ↔
          SafeLog (loopPass guest td1 d2 tdaddr tdlen).1.log ∧
            (loopPass guest td1 d2 tdaddr tdlen).1.len ≤ bufSize) := by
      generalize loopPass guest td1 d2 tdaddr tdlen = result at width
      simp only [afterPass]
      split
      · exact ⟨width, And.comm⟩
      · obtain ⟨log, same, safeSame⟩ := reportStatus_spec td1.dcmdRs result.1
        rw [same]
        refine ⟨⟨width.tucss, width.ipcss, width.mss, width.hdrlen, width.paylen⟩, ?_⟩
        simp only [Driver.Safe, safeSame, and_comm]
    refine ⟨whole.1, ?_⟩
    rw [whole.2, passed]
    exact ⟨fun result => result.2, fun ok => ⟨safe, ok⟩⟩
  | setrecv d2 =>
    simp only [Driver.Ok, iff_true]
    exact ⟨widths.kept rfl, bound, safe⟩

structure TransmitRun where
  first : Driver
  later : List Driver
  widths : Widths first.d2
  bound : first.d2.len ≤ bufSize
  unused : first.d2.log = []
  steps : (first :: later).IsChain Step

/-- In a run all states are safe exactly when all steps are ok. -/
theorem transmitRun_safe_iff (run : TransmitRun) :
    (∀ driver ∈ run.later, driver.Safe) ↔ ∀ driver ∈ (run.first :: run.later).dropLast, driver.Ok := by
  have start : run.first.Safe := by
    refine ⟨run.bound, ?_⟩
    rw [run.unused]
    exact safeLog_nil
  have keeps (before after : Driver) (step : Step before after) (widths : Widths before.d2)
      (good : before.Safe) : Widths after.d2 := (step_safe_iff step widths good).1
  have steps (before after : Driver) (step : Step before after) (widths : Widths before.d2)
      (good : before.Safe) : after.Safe ↔ before.Ok := (step_safe_iff step widths good).2
  exact Runs.good_iff_ok keeps steps run.later run.first run.widths start run.steps

def earlyContext : TdescDext0 := ⟨14, 24, 33, 34, 50, 0, 1000, true, true, true, false, 54, 100⟩

def earlyData : TdescDext1 := ⟨0x1000, 10, true, true, true, false, false, false⟩

/-- The first segment is sent before it is there, and the length that is left wraps. -/
theorem transmitRun_not_safe : ¬ ∀ run : TransmitRun, ∀ driver ∈ run.later, driver.Safe := by
  intro all
  let guest : Memory := fun _ => 0
  let afterContext := (beginTdesc guest initialData2 (.dext0 earlyContext)).d2
  let begun := (beginTdesc guest afterContext (.dext1 earlyData)).d2
  let passed := afterPass earlyData (loopPass guest earlyData begun 0x1000 10)
  have context : Step ⟨initialData2, .idle⟩ ⟨afterContext, .idle⟩ := Step.begin guest initialData2 (.dext0 earlyContext)
  have data : Step ⟨afterContext, .idle⟩ ⟨begun, .loop earlyData 0x1000 10⟩ :=
    Step.begin guest afterContext (.dext1 earlyData)
  have pass : Step ⟨begun, .loop earlyData 0x1000 10⟩ passed := Step.pass guest begun earlyData 0x1000 10
  have widths : Widths initialData2 := by constructor <;> decide
  have chain : List.IsChain Step [⟨initialData2, .idle⟩, ⟨afterContext, .idle⟩,
      ⟨begun, .loop earlyData 0x1000 10⟩, passed] := by
    simp only [List.isChain_cons_cons, List.isChain_singleton, and_true]
    exact ⟨context, data, pass⟩
  have safe := (all ⟨⟨initialData2, .idle⟩, _, widths, by decide, rfl, chain⟩ passed (by simp)).2
  have wraps : ¬ SafeLog passed.d2.log := by decide
  exact wraps safe

end DisasVisor.Pro1000
