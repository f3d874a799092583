import DisasVisor.Pro1000.TransmitSafety

/-!
The loop of a data descriptor: when it comes to its end, and what its passes bring forward.
-/

namespace DisasVisor.Pro1000

variable {guest : Memory} {td1 : TdescDext1} {d2 : Data2} {tdaddr tdlen : Nat}

def room (d2 : Data2) : Nat := (bufSize + 2 ^ 32 - d2.len) % 2 ^ 32

def Sends (td1 : TdescDext1) (d2 : Data2) : Prop :=
  td1.dcmdIfcs = true ∧ (td1.dcmdTse = true ∧ dextsize d2 ≤ d2.len ∨ td1.dcmdEop = true)

instance (td1 : TdescDext1) (d2 : Data2) : Decidable (Sends td1 d2) := inferInstanceAs (Decidable (_ ∧ _))

def Segments (td1 : TdescDext1) (d2 : Data2) : Prop :=
  d2.recvvirtFunc = true ∧ td1.dcmdTse = true ∧ d2.dext0Mss < d2.dext0Paylen

instance (td1 : TdescDext1) (d2 : Data2) : Decidable (Segments td1 d2) := inferInstanceAs (Decidable (_ ∧ _))

def lenAfter (td1 : TdescDext1) (d2 : Data2) : Nat :=
  if Sends td1 d2 then if Segments td1 d2 then (d2.len + 2 ^ 32 - d2.dext0Mss) % 2 ^ 32 else 0 else d2.len

def paylenAfter (td1 : TdescDext1) (d2 : Data2) : Nat :=
  if Sends td1 d2 ∧ Segments td1 d2 then d2.dext0Paylen - d2.dext0Mss else d2.dext0Paylen

structure Counted (td1 : TdescDext1) (before after : Data2) : Prop where
  len : after.len = lenAfter td1 before
  paylen : after.dext0Paylen = paylenAfter td1 before
  mss : after.dext0Mss = before.dext0Mss
  hdrlen : after.dext0Hdrlen = before.dext0Hdrlen
  recvvirtFunc : after.recvvirtFunc = before.recvvirtFunc
  widths : Widths after

theorem dextlast_eq_false : dextlast d2 = false ↔ d2.dext0Mss < d2.dext0Paylen := by
  simp [dextlast]

theorem send_registered {last : Bool} {size : Nat} (ifcs : td1.dcmdIfcs = true) (registered : d2.recvvirtFunc = true)
    {sent : Data2} (same : sendPacket td1.dcmdTse d2 last (if td1.dcmdTse then size else d2.len) size = sent) :
    send td1 d2 last size = if td1.dcmdTse && !last then nextSegment sent (if td1.dcmdTse then size else d2.len)
      else { sent with len := 0 } := by
  simp only [send, ifcs, registered, Bool.not_true, Bool.false_eq_true, if_false, if_true, same]

theorem send_counts (size : Nat) (widths : Widths d2) (sends : Sends td1 d2)
    {last : Bool} (lastSegment : td1.dcmdTse = true → last = dextlast d2) : Counted td1 d2 (send td1 d2 last size) := by
  have ifcs := sends.1
  by_cases registered : d2.recvvirtFunc = true
  swap
  · have alone : ¬ Segments td1 d2 := fun segments => registered segments.1
    have shape : send td1 d2 last size = { d2 with len := 0 } := by simp [send, ifcs, registered]
    rw [shape]
    exact ⟨by rw [lenAfter, if_pos sends, if_neg alone], by rw [paylenAfter, if_neg (fun both => alone both.2)],
      rfl, rfl, rfl, widths.kept rfl⟩
  obtain ⟨buf, log, same, -⟩ := sendPacket_spec td1.dcmdTse d2 last (if td1.dcmdTse then size else d2.len) size widths
  have paylen := widths.paylen
  by_cases segments : Segments td1 d2
  · have more := segments.2.2
    have goesOn : (td1.dcmdTse && !last) = true := by
      rw [Bool.and_eq_true, Bool.not_eq_true']
      exact ⟨segments.2.1, (lastSegment segments.2.1).trans (dextlast_eq_false.mpr more)⟩
    obtain ⟨nextBuf, nextLog, next, -⟩ := nextSegment_shape { d2 with buf := buf, log := log }
      (if td1.dcmdTse then size else d2.len) (widths.kept rfl) more
    rw [send_registered ifcs registered same, if_pos goesOn, next]
    exact ⟨by rw [lenAfter, if_pos sends, if_pos segments], by rw [paylenAfter, if_pos ⟨sends, segments⟩], rfl, rfl,
      rfl, ⟨widths.tucss, widths.ipcss, widths.mss, widths.hdrlen, Nat.lt_of_le_of_lt (Nat.sub_le ..) paylen⟩⟩
  · have ends : ¬ (td1.dcmdTse && !last) = true := by
      intro both
      rw [Bool.and_eq_true, Bool.not_eq_true'] at both
      exact segments ⟨registered, both.1, dextlast_eq_false.mp ((lastSegment both.1).symm.trans both.2)⟩
    rw [send_registered ifcs registered same, if_neg ends]
    exact ⟨by rw [lenAfter, if_pos sends, if_neg segments], by rw [paylenAfter, if_neg (fun both => segments both.2)],
      rfl, rfl, rfl, widths.kept rfl⟩

theorem send_keeps (last : Bool) (size : Nat) (ifcs : ¬ td1.dcmdIfcs = true) : send td1 d2 last size = d2 := by
  simp [send, ifcs]

theorem Counted.of_not_sends (widths : Widths d2) (silent : ¬ Sends td1 d2) : Counted td1 d2 d2 :=
  ⟨by rw [lenAfter, if_neg silent], by rw [paylenAfter, if_neg (fun both => silent both.1)], rfl, rfl, rfl, widths⟩

theorem sendFilled_counts (widths : Widths d2) : Counted td1 d2 (sendFilled td1 d2) := by
  by_cases complete : td1.dcmdTse = true ∧ dextsize d2 ≤ d2.len
  · have shape : sendFilled td1 d2 = send td1 (saveHeader d2) (dextlast d2) (dextsize d2) := by
      rw [sendFilled, if_pos (by simp [complete])]
    obtain ⟨first, fin, psh, iplen, ipchecksum, tcpchecksum, log, same, -⟩ := saveHeader_spec d2 widths
    rw [shape, same]
    by_cases ifcs : td1.dcmdIfcs = true
    · have sent := @send_counts td1 { d2 with
          tseFirst := first, tseTcpfin := fin, tseTcppsh := psh, tseIplen := iplen,
          tseIpchecksum := ipchecksum, tseTcpchecksum := tcpchecksum, log := log } (dextsize d2)
        (widths.kept rfl) ⟨ifcs, .inl complete⟩ (dextlast d2)
        fun _ => rfl
      exact ⟨sent.len, sent.paylen, sent.mss, sent.hdrlen, sent.recvvirtFunc, sent.widths⟩
    · have kept := @Counted.of_not_sends td1 d2 widths fun sends => ifcs sends.1
      rw [send_keeps _ _ ifcs]
      exact ⟨kept.len, kept.paylen, rfl, rfl, rfl, widths.kept rfl⟩
  · by_cases eop : td1.dcmdEop = true
    · have shape : sendFilled td1 d2 = send td1 d2 (td1.dcmdTse && dextlast d2)
          (if td1.dcmdTse then dextsize d2 else 0) := by
        rw [sendFilled, if_neg (by simpa using complete), if_pos eop]
      rw [shape]
      by_cases ifcs : td1.dcmdIfcs = true
      · exact send_counts _ widths ⟨ifcs, .inr eop⟩ fun tse => by rw [tse, Bool.true_and]
      · rw [send_keeps _ _ ifcs]
        exact Counted.of_not_sends widths fun sends => ifcs sends.1
    · have shape : sendFilled td1 d2 = d2 := by rw [sendFilled, if_neg (by simpa using complete), if_neg eop]
      rw [shape]
      exact Counted.of_not_sends widths fun sends => sends.2.elim complete eop

def filled (d2 : Data2) (tdlen : Nat) : Data2 := { d2 with len := (d2.len + min (room d2) tdlen) % 2 ^ 32 }

theorem loopPass_counts (widths : Widths d2) :
    Counted td1 (filled d2 tdlen) (loopPass guest td1 d2 tdaddr tdlen).1 ∧
      (loopPass guest td1 d2 tdaddr tdlen).2.2 = tdlen - min (room d2) tdlen := by
  have sent := @sendFilled_counts td1 (tdescCopytobuf guest d2 tdaddr tdlen).1 (widths.kept rfl)
  exact ⟨⟨sent.len, sent.paylen, sent.mss, sent.hdrlen, sent.recvvirtFunc, sent.widths⟩, rfl⟩

def Drains (td1 : TdescDext1) (d2 : Data2) : Prop :=
  Sends td1 { d2 with len := bufSize } ∧ (Segments td1 d2 → d2.dext0Mss ≠ 0)

instance (td1 : TdescDext1) (d2 : Data2) : Decidable (Drains td1 d2) := inferInstanceAs (Decidable (_ ∧ (_ → _)))

def LoopOk (td1 : TdescDext1) (d2 : Data2) (tdlen : Nat) : Prop := tdlen ≤ room d2 ∨ Drains td1 d2

instance (td1 : TdescDext1) (d2 : Data2) (tdlen : Nat) : Decidable (LoopOk td1 d2 tdlen) :=
  inferInstanceAs (Decidable (_ ∨ _))

def Shrinks (td1 : TdescDext1) (d2 : Data2) : Prop :=
  Sends td1 d2 ∧ if Segments td1 d2 then d2.dext0Mss ≠ 0 else d2.len ≠ 0

instance (td1 : TdescDext1) (d2 : Data2) : Decidable (Shrinks td1 d2) := inferInstanceAs (Decidable (_ ∧ _))

theorem filled_full (small : d2.len < 2 ^ 32) (more : room d2 < tdlen) :
    filled d2 tdlen = { d2 with len := bufSize } := by
  have whole : (d2.len + min (room d2) tdlen) % 2 ^ 32 = bufSize := by
    rw [Nat.min_eq_left (Nat.le_of_lt more), room, bufSize]
    omega
  rw [filled, whole]

theorem lenAfter_lt (small : d2.len < 2 ^ 32) : lenAfter td1 d2 < 2 ^ 32 := by
  rw [lenAfter]
  split
  · split
    · exact Nat.mod_lt _ (Nat.two_pow_pos 32)
    · exact Nat.two_pow_pos 32
  · exact small

variable {after : Data2} {driver : Driver}

theorem Drains.next (drains : Drains td1 d2) (counted : Counted td1 { d2 with len := bufSize } after)
    (goesOn : after.len ≠ 0) : Drains td1 after ∧ after.dext0Paylen < d2.dext0Paylen := by
  obtain ⟨sends, advances⟩ := drains
  have len := counted.len
  have paylen := counted.paylen
  have mss := counted.mss
  have hdrlen := counted.hdrlen
  rw [lenAfter, if_pos sends] at len
  by_cases segments : Segments td1 d2
  · have positive := advances segments
    obtain ⟨registered, tse, more⟩ := segments
    rw [paylenAfter, if_pos ⟨sends, ⟨registered, tse, more⟩⟩] at paylen
    have less : after.dext0Paylen < d2.dext0Paylen := by
      rw [paylen]
      exact Nat.sub_lt (Nat.zero_lt_of_lt more) (Nat.pos_of_ne_zero positive)
    have smaller : dextsize after ≤ dextsize d2 := by
      simp only [dextsize, dextlast, decide_eq_true_eq, hdrlen, mss]
      split <;> split <;> omega
    refine ⟨⟨⟨sends.1, ?_⟩, fun _ => ?_⟩, less⟩
    · rcases sends.2 with ⟨isTse, fits⟩ | eop
      · exact .inl ⟨isTse, Nat.le_trans smaller fits⟩
      · exact .inr eop
    · rw [mss]
      exact positive
  · rw [if_neg (by exact segments)] at len
    exact absurd len goesOn

structure Stuck (td1 : TdescDext1) (d2 : Data2) (tdlen : Nat) : Prop where
  widths : Widths d2
  full : d2.len = bufSize
  left : 0 < tdlen
  holds : ¬ Drains td1 d2

theorem Counted.stays (counted : Counted td1 { d2 with len := bufSize } after) (holds : ¬ Drains td1 d2) :
    after.len = bufSize ∧ ¬ Drains td1 after := by
  have len := counted.len
  have paylen := counted.paylen
  have mss := counted.mss
  have hdrlen := counted.hdrlen
  have registered := counted.recvvirtFunc
  have same : after.len = bufSize ∧ after.dext0Paylen = d2.dext0Paylen := by
    by_cases sends : Sends td1 { d2 with len := bufSize }
    · have stands : Segments td1 d2 ∧ d2.dext0Mss = 0 := by
        by_contra other
        exact holds ⟨sends, fun segments zero => other ⟨segments, zero⟩⟩
      obtain ⟨segments, zero⟩ := stands
      rw [lenAfter, if_pos sends, if_pos (by exact segments)] at len
      rw [paylenAfter, if_pos ⟨sends, by exact segments⟩] at paylen
      simp only [zero, bufSize, Nat.sub_zero] at len paylen
      exact ⟨len, paylen⟩
    · rw [lenAfter, if_neg sends] at len
      rw [paylenAfter, if_neg (fun both => sends both.1)] at paylen
      exact ⟨len, paylen⟩
  refine ⟨same.1, fun drains => holds ⟨⟨drains.1.1, ?_⟩, fun segments => ?_⟩⟩
  · have size : dextsize after = dextsize d2 := by rw [dextsize, dextsize, dextlast, dextlast, hdrlen, mss, same.2]
    rcases drains.1.2 with ⟨tse, fits⟩ | eop
    · exact .inl ⟨tse, size.symm.le.trans fits⟩
    · exact .inr eop
  · have positive := drains.2 ⟨registered.trans segments.1, segments.2.1, by rw [mss, same.2]; exact segments.2.2⟩
    rwa [mss] at positive

theorem Stuck.finishTdesc (fuel : Nat) : ∀ {d2 tdaddr tdlen}, Stuck td1 d2 tdlen →
    finishTdesc guest fuel ⟨d2, .loop td1 tdaddr tdlen⟩ = none := by
  induction fuel with
  | zero =>
    intro d2 tdaddr tdlen _
    rfl
  | succ fuel ih =>
    intro d2 tdaddr tdlen stuck
    have none : room d2 = 0 := by
      rw [room, stuck.full]
      rfl
    obtain ⟨counted, left⟩ := @loopPass_counts guest td1 d2 tdaddr tdlen stuck.widths
    rw [filled_full (by rw [stuck.full, bufSize]; omega) (by rw [none]; exact stuck.left)] at counted
    rw [none, Nat.zero_min, Nat.sub_zero] at left
    obtain ⟨full, holds⟩ := counted.stays stuck.holds
    have again : afterPass td1 (loopPass guest td1 d2 tdaddr tdlen) =
        ⟨(loopPass guest td1 d2 tdaddr tdlen).1,
          .loop td1 (loopPass guest td1 d2 tdaddr tdlen).2.1 (loopPass guest td1 d2 tdaddr tdlen).2.2⟩ := by
      have positive := stuck.left
      rw [afterPass, if_pos]
      rw [full, left, bufSize]
      omega
    rw [Pro1000.finishTdesc, again]
    exact ih ⟨counted.widths, full, by rw [left]; exact stuck.left, holds⟩

theorem finishTdesc_never (widths : Widths d2) (small : d2.len < 2 ^ 32) (holds : ¬ LoopOk td1 d2 tdlen)
    (fuel : Nat) : finishTdesc guest fuel ⟨d2, .loop td1 tdaddr tdlen⟩ = none := by
  cases fuel with
  | zero => rfl
  | succ fuel =>
    have more : room d2 < tdlen := Nat.lt_of_not_le fun fits => holds (.inl fits)
    obtain ⟨counted, left⟩ := @loopPass_counts guest td1 d2 tdaddr tdlen widths
    rw [filled_full small more] at counted
    rw [Nat.min_eq_left (Nat.le_of_lt more)] at left
    obtain ⟨full, stays⟩ := counted.stays fun drains => holds (.inr drains)
    rw [finishTdesc, afterPass, if_pos]
    · exact Stuck.finishTdesc fuel ⟨counted.widths, full, by rw [left]; omega, stays⟩
    · rw [full, left, bufSize]
      omega

theorem finishTdesc_idle (fuel : Nat) : finishTdesc guest fuel ⟨d2, .idle⟩ = some d2 := by
  cases fuel <;> rfl

theorem finishTdesc_ends (payload : Nat) : ∀ {d2 tdaddr tdlen}, d2.dext0Paylen = payload → Widths d2 →
    d2.len < 2 ^ 32 → LoopOk td1 d2 tdlen →
      ∃ fuel after, finishTdesc guest fuel ⟨d2, .loop td1 tdaddr tdlen⟩ = some after := by
  induction payload using Nat.strongRecOn with
  | _ payload ih =>
    intro d2 tdaddr tdlen remains widths small ok
    obtain ⟨counted, left⟩ := @loopPass_counts guest td1 d2 tdaddr tdlen widths
    by_cases goesOn : (loopPass guest td1 d2 tdaddr tdlen).2.2 ≠ 0 ∧ (loopPass guest td1 d2 tdaddr tdlen).1.len ≠ 0
    · have more : room d2 < tdlen := by omega
      have drains : Drains td1 d2 := ok.resolve_left (by omega)
      rw [filled_full small more] at counted
      obtain ⟨next, less⟩ := drains.next counted goesOn.2
      have bound : (loopPass guest td1 d2 tdaddr tdlen).1.len < 2 ^ 32 := by
        rw [counted.len]
        exact lenAfter_lt (by change bufSize < 2 ^ 32; decide)
      obtain ⟨fuel, after, ends⟩ := ih _ (remains ▸ less) rfl counted.widths bound (.inr next)
      refine ⟨fuel + 1, after, ?_⟩
      rw [finishTdesc, afterPass, if_pos goesOn]
      exact ends
    · refine ⟨1, reportStatus td1.dcmdRs (loopPass guest td1 d2 tdaddr tdlen).1, ?_⟩
      rw [finishTdesc, afterPass, if_neg goesOn]
      exact finishTdesc_idle 0

inductive Passes (guest : Memory) : Driver → Driver → Prop where
  | refl (driver : Driver) : Passes guest driver driver
  | pass {first : Driver} {d2 : Data2} {td1 : TdescDext1} {tdaddr tdlen : Nat} :
      Passes guest first ⟨d2, .loop td1 tdaddr tdlen⟩ →
      Passes guest first (afterPass td1 (loopPass guest td1 d2 tdaddr tdlen))

/-- The pass that is due consumes bytes of the descriptor, or shortens what is buffered or what remains of the
payload. -/
def Driver.Progresses (guest : Memory) (driver : Driver) : Prop :=
  match driver.phase with
  | .idle => True
  | .loop td1 tdaddr tdlen =>
    let after := loopPass guest td1 driver.d2 tdaddr tdlen
    after.2.2 < tdlen ∨ after.1.len < driver.d2.len ∨ after.1.dext0Paylen < driver.d2.dext0Paylen

/-- `process_tdesc` comes to its end, and every pass through its loop makes progress. -/
def LoopProgresses (guest : Memory) (d2 : Data2) (td : Tdesc) : Prop :=
  (∃ fuel after, processTdesc fuel guest d2 td = some after) ∧
    ∀ driver, Passes guest (beginTdesc guest d2 td) driver → driver.Progresses guest

def ProgressOk (d2 : Data2) : Tdesc → Prop
  | .dext1 td1 => if td1.dtalen.val = 0 then Shrinks td1 d2 else LoopOk td1 d2 td1.dtalen.val
  | _ => True

instance (d2 : Data2) (td : Tdesc) : Decidable (ProgressOk d2 td) :=
  match td with
  | .dext1 td1 =>
    inferInstanceAs (Decidable (if td1.dtalen.val = 0 then Shrinks td1 d2 else LoopOk td1 d2 td1.dtalen.val))
  | .dext0 _ | .legacy _ | .badDtyp _ => inferInstanceAs (Decidable True)

structure Driver.Sound (driver : Driver) : Prop where
  widths : Widths driver.d2
  small : driver.d2.len < 2 ^ 32
  ok : ∀ td1 tdaddr tdlen, driver.phase = .loop td1 tdaddr tdlen →
    LoopOk td1 driver.d2 tdlen ∧ (tdlen = 0 → Shrinks td1 driver.d2)

theorem shrinks_iff (widths : Widths d2) (small : d2.len < 2 ^ 32) :
    Driver.Progresses guest ⟨d2, .loop td1 tdaddr 0⟩ ↔ Shrinks td1 d2 := by
  obtain ⟨counted, left⟩ := @loopPass_counts guest td1 d2 tdaddr 0 widths
  have same : filled d2 0 = d2 := by rw [filled, Nat.min_zero, Nat.add_zero, Nat.mod_eq_of_lt small]
  rw [same] at counted
  have mss := widths.mss
  simp only [Driver.Progresses, Nat.not_lt_zero, false_or, counted.len, counted.paylen, Shrinks, lenAfter, paylenAfter]
  by_cases sends : Sends td1 d2
  · by_cases segments : Segments td1 d2
    · have more := segments.2.2
      simp only [sends, segments, if_true, and_self, true_and]
      omega
    · simp only [sends, segments, if_true, if_false, and_false, true_and, Nat.lt_irrefl, or_false]
      exact Nat.pos_iff_ne_zero
  · simp [sends]

theorem Driver.Sound.progresses (sound : driver.Sound) : driver.Progresses guest := by
  obtain ⟨d2, phase⟩ := driver
  obtain ⟨widths, small, ok⟩ := sound
  cases phase with
  | idle => trivial
  | loop td1 tdaddr tdlen =>
    obtain ⟨loopOk, shrinks⟩ : LoopOk td1 d2 tdlen ∧ (tdlen = 0 → Shrinks td1 d2) := ok td1 tdaddr tdlen rfl
    change d2.len < 2 ^ 32 at small
    by_cases none : tdlen = 0
    · cases none
      exact (shrinks_iff widths small).mpr (shrinks rfl)
    · obtain ⟨counted, left⟩ := @loopPass_counts guest td1 d2 tdaddr tdlen widths
      by_cases full : room d2 = 0
      · have drains : Drains td1 d2 := loopOk.resolve_left (by omega)
        have isFull : d2.len = bufSize := by
          rw [room, bufSize] at full
          rw [bufSize]
          omega
        rw [filled_full small (by omega)] at counted
        by_cases goesOn : (loopPass guest td1 d2 tdaddr tdlen).1.len = 0
        · refine .inr (.inl ?_)
          rw [goesOn]
          change 0 < d2.len
          rw [isFull]
          decide
        · exact .inr (.inr (drains.next counted goesOn).2)
      · refine .inl ?_
        rw [left]
        omega

theorem Driver.Sound.pass (sound : Driver.Sound ⟨d2, .loop td1 tdaddr tdlen⟩) :
    (afterPass td1 (loopPass guest td1 d2 tdaddr tdlen)).Sound := by
  obtain ⟨widths, small, ok⟩ := sound
  have loopOk : LoopOk td1 d2 tdlen := (ok td1 tdaddr tdlen rfl).1
  change d2.len < 2 ^ 32 at small
  obtain ⟨counted, left⟩ := @loopPass_counts guest td1 d2 tdaddr tdlen widths
  have bound : (loopPass guest td1 d2 tdaddr tdlen).1.len < 2 ^ 32 := by
    rw [counted.len]
    exact lenAfter_lt (Nat.mod_lt _ (Nat.two_pow_pos 32))
  rw [afterPass]
  split
  · rename_i goesOn
    refine ⟨counted.widths, bound, fun td1' tdaddr' tdlen' same => ?_⟩
    cases same
    have more : room d2 < tdlen := by
      by_contra fits
      rw [Nat.min_eq_right (Nat.le_of_not_lt fits), Nat.sub_self] at left
      exact goesOn.1 left
    rw [filled_full small more] at counted
    have drains : Drains td1 d2 := loopOk.resolve_left (Nat.not_le_of_lt more)
    exact ⟨.inr (drains.next counted goesOn.2).1, fun none => absurd none goesOn.1⟩
  · obtain ⟨log, same, -⟩ := reportStatus_spec td1.dcmdRs (loopPass guest td1 d2 tdaddr tdlen).1
    have width := counted.widths
    rw [same]
    exact ⟨width.kept rfl, bound, fun _ _ _ loops => by cases loops⟩

theorem Driver.Sound.passes {first : Driver} (sound : first.Sound) (passes : Passes guest first driver) :
    driver.Sound := by
  induction passes with
  | refl => exact sound
  | pass _ ih => exact ih.pass

theorem Passes.idle {first : Driver} (passes : Passes guest first driver) (idle : first = ⟨after, .idle⟩) :
    driver = ⟨after, .idle⟩ := by
  induction passes with
  | refl => exact idle
  | pass _ ih => cases ih

theorem loopProgresses_idle {td : Tdesc} (idle : beginTdesc guest d2 td = ⟨after, .idle⟩) :
    LoopProgresses guest d2 td := by
  refine ⟨⟨0, after, ?_⟩, ?_⟩
  · rw [processTdesc, idle, finishTdesc_idle]
  · intro driver passes
    rw [passes.idle idle]
    trivial

theorem beginTdesc_idle {td : Tdesc} (other : ∀ td1, td ≠ .dext1 td1) :
    ∃ after, beginTdesc guest d2 td = ⟨after, .idle⟩ := by
  cases td with
  | dext1 td1 => exact absurd rfl (other td1)
  | dext0 td0 => exact ⟨_, rfl⟩
  | badDtyp cmdRs => exact ⟨_, rfl⟩
  | legacy td =>
    simp only [beginTdesc]
    split
    · split
      · exact ⟨_, rfl⟩
      · exact ⟨_, rfl⟩
    · exact ⟨_, rfl⟩

/-- The loop of `process_tdesc` makes progress to its end exactly for the descriptors that are ok. -/
theorem loopProgresses_iff (guest : Memory) (td : Tdesc) (widths : Widths d2) (small : d2.len < 2 ^ 32) :
    LoopProgresses guest d2 td ↔ ProgressOk d2 td := by
  by_cases data : ∃ td1, td = .dext1 td1
  swap
  · obtain ⟨after, idle⟩ := @beginTdesc_idle guest d2 td fun td1 same => data ⟨td1, same⟩
    refine iff_of_true (loopProgresses_idle idle) ?_
    cases td with
    | dext1 td1 => exact absurd ⟨td1, rfl⟩ data
    | _ => trivial
  · obtain ⟨td1, rfl⟩ := data
    -- the flags that are set at the beginning have no part in this
    obtain ⟨ixsm, txsm, begun⟩ : ∃ ixsm txsm, beginTdesc guest d2 (.dext1 td1) =
        ⟨{ d2 with dext1Ixsm := ixsm, dext1Txsm := txsm }, .loop td1 td1.addr.toNat td1.dtalen.val⟩ := by
      rw [beginTdesc]
      split
      · exact ⟨_, _, rfl⟩
      · exact ⟨_, _, rfl⟩
    have width : Widths { d2 with dext1Ixsm := ixsm, dext1Txsm := txsm } :=
      ⟨widths.tucss, widths.ipcss, widths.mss, widths.hdrlen, widths.paylen⟩
    rw [LoopProgresses, ProgressOk, begun]
    constructor
    · rintro ⟨⟨fuel, after, ends⟩, progresses⟩
      split
      · rename_i none
        have first := progresses _ (.refl _)
        rw [none] at first
        exact (shrinks_iff width small).mp first
      · by_contra holds
        rw [processTdesc, begun, finishTdesc_never width small (by exact holds)] at ends
        cases ends
    · intro ok
      have sound : Driver.Sound ⟨{ d2 with dext1Ixsm := ixsm, dext1Txsm := txsm },
          .loop td1 td1.addr.toNat td1.dtalen.val⟩ := by
        refine ⟨width, small, fun _ _ _ same => ?_⟩
        cases same
        split at ok
        · rename_i none
          rw [none]
          exact ⟨.inl (Nat.zero_le _), fun _ => ok⟩
        · rename_i some
          exact ⟨ok, fun none => absurd none some⟩
      refine ⟨?_, fun driver passes => (sound.passes passes).progresses⟩
      obtain ⟨fuel, after, ends⟩ := finishTdesc_ends _ rfl width small (sound.ok _ _ _ rfl).1
      refine ⟨fuel, after, ?_⟩
      rw [processTdesc, begun]
      exact ends

/-- A descriptor of 100 bytes at the end of a packet. -/
theorem loopProgresses_sample : LoopProgresses (fun _ => 0) initialData2
    (.dext1 ⟨0x1000, 100, true, true, false, false, false, false⟩) :=
  (loopProgresses_iff (fun _ => 0) _ (by constructor <;> decide) (by decide)).mpr (by decide)

/-- A descriptor of 3000 bytes that does not end a packet: the buffer is full, and the loop goes on forever. -/
theorem loopProgresses_fails : ¬ LoopProgresses (fun _ => 0) initialData2
    (.dext1 ⟨0x1000, 3000, false, true, false, false, false, false⟩) := by
  rintro ⟨⟨fuel, after, ends⟩, -⟩
  have never : finishTdesc (fun _ => 0) fuel
      (beginTdesc (fun _ => 0) initialData2 (.dext1 ⟨0x1000, 3000, false, true, false, false, false, false⟩)) = none :=
    finishTdesc_never (by constructor <;> decide) (by decide) (by decide) fuel
  cases never.symm.trans ends

end DisasVisor.Pro1000
