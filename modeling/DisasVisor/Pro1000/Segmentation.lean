import DisasVisor.Pro1000.TransmitSafety

/-!
What the functions for segments do to the headers in the buffer, for TCP over
IPv4.
-/

namespace DisasVisor.Pro1000

open Memory (setWord_outside write_other write_same netWord_congr)

def Event.packet? : Event → Option (List UInt8)
  | .receive packet => some packet
  | _ => none

def packetsOf (log : List Event) : List (List UInt8) := log.filterMap Event.packet?

@[simp] theorem packetsOf_append (before after : List Event) :
    packetsOf (before ++ after) = packetsOf before ++ packetsOf after :=
  List.filterMap_append ..

@[simp] theorem packetsOf_nil : packetsOf [] = [] := rfl

@[simp] theorem packetsOf_touch (low high : Nat) (log : List Event) :
    packetsOf (.touch low high :: log) = packetsOf log := rfl

@[simp] theorem packetsOf_subtract (left right : Nat) (log : List Event) :
    packetsOf (.subtract left right :: log) = packetsOf log := rfl

@[simp] theorem packetsOf_descriptorDone (log : List Event) : packetsOf (.descriptorDone :: log) = packetsOf log := rfl

@[simp] theorem packetsOf_receive (packet : List UInt8) (log : List Event) :
    packetsOf (.receive packet :: log) = packet :: packetsOf log := rfl

theorem bswap16_eq (v : Nat) : bswap16 v = swapWord v := by
  have small : (v % 2 ^ 16) >>> 8 < 2 ^ 8 := by
    rw [Nat.shiftRight_eq_div_pow]
    omega
  have bound : v % 2 ^ 16 < 2 ^ 16 := Nat.mod_lt _ (by decide)
  rw [← swapWord_mod, bswap16, ← Nat.shiftLeft_add_eq_or_of_lt small, Nat.shiftLeft_eq,
    Nat.shiftRight_eq_div_pow, swapWord]
  generalize v % 2 ^ 16 = word at bound
  have split : word * 2 ^ 8 + word / 2 ^ 8 = 2 ^ 16 * (word / 256) + (word % 256 * 256 + word / 256) := by omega
  rw [split, Nat.mul_add_mod, Nat.mod_eq_of_lt (by omega), Nat.mod_eq_of_lt (by omega : word / 256 < 256)]

theorem bswap32_eq (v : Nat) : bswap32 v = swapDword v := by
  rw [bswap32, bswap16_eq, bswap16_eq, ← Nat.shiftLeft_add_eq_or_of_lt (swapWord_lt _),
    Nat.shiftLeft_eq, Nat.shiftRight_eq_div_pow, swapDword]

theorem and_flags (flags : UInt8) : flags &&& ~~~9 &&& 9 = 0 := by
  obtain ⟨bits⟩ := flags
  revert bits
  decide

theorem restore_flags (flags : UInt8) :
    flags &&& ~~~9 ||| ((if flags &&& 1 ≠ 0 then 1 else 0) ||| (if flags &&& 8 ≠ 0 then 8 else 0)) = flags := by
  obtain ⟨bits⟩ := flags
  revert bits
  decide

structure Layout (d2 : Data2) : Prop where
  ip : d2.dext0Ip = true
  tcp : d2.dext0Tcp = true
  ipHeader : d2.dext0Ipcss + 20 ≤ d2.dext0Tucss
  tcpHeader : d2.dext0Tucss + 20 ≤ d2.dext0Hdrlen
  ipChecksum : d2.dext0Ipcso = 0 ∨ d2.dext0Ipcso = d2.dext0Ipcss + 10
  tcpChecksum : d2.dext0Tucso = 0 ∨ d2.dext0Tucso = d2.dext0Tucss + 16
  fits : d2.dext0Hdrlen + d2.dext0Mss ≤ bufSize

structure Kept (d2 : Data2) (address : Nat) : Prop where
  ipLength : address ≠ d2.dext0Ipcss + 2 ∧ address ≠ d2.dext0Ipcss + 3
  ipChecksum : address ≠ d2.dext0Ipcss + 10 ∧ address ≠ d2.dext0Ipcss + 11
  flags : address ≠ d2.dext0Tucss + 13
  tcpChecksum : address ≠ d2.dext0Tucss + 16 ∧ address ≠ d2.dext0Tucss + 17

theorem saveHeader_first {d2 : Data2} (layout : Layout d2) (first : d2.tseFirst = true) :
    ∃ log, packetsOf log = packetsOf d2.log ∧ saveHeader d2 =
      { d2 with
        tseIplen := d2.buf.word (d2.dext0Ipcss + 2)
        tseIpchecksum := d2.buf.word (d2.dext0Ipcss + 10)
        tseTcpchecksum := d2.buf.word (d2.dext0Tucss + 16)
        tseTcpfin := d2.buf (d2.dext0Tucss + 13) &&& 1 ≠ 0
        tseTcppsh := d2.buf (d2.dext0Tucss + 13) &&& 8 ≠ 0
        tseFirst := false
        log := log } := by
  simp only [saveHeader, first, if_true, DisasVisor.Pro1000.tseFirst, layout.ip, layout.tcp, Data2.touch, Data2.note]
  exact ⟨_, by simp, rfl⟩

theorem tseSetHeader_buf {d2 : Data2} (layout : Layout d2) (last : Bool) :
    ∃ buf log, tseSetHeader d2 last = { d2 with buf := buf, log := log } ∧
      packetsOf log = packetsOf d2.log ∧
      buf.netWord (d2.dext0Ipcss + 2) =
        ((if last then d2.dext0Paylen else d2.dext0Mss) + d2.dext0Hdrlen + 2 ^ 32 -
          d2.dext0Ipcss) % 2 ^ 32 % 2 ^ 16 ∧
      buf (d2.dext0Tucss + 13) = (if last then d2.buf (d2.dext0Tucss + 13) else d2.buf (d2.dext0Tucss + 13) &&& ~~~9) ∧
      ∀ address, address ≠ d2.dext0Ipcss + 2 → address ≠ d2.dext0Ipcss + 3 →
        address ≠ d2.dext0Tucss + 13 → buf address = d2.buf address := by
  have apart := layout.ipHeader
  by_cases final : last = true
  · simp only [tseSetHeader, layout.ip, layout.tcp, final, if_true, Bool.not_true, Bool.and_false,
      Bool.false_eq_true, if_false, Data2.touch, Data2.note]
    refine ⟨_, _, rfl, by simp, ?_, ?_, ?_⟩
    · rw [bswap16_eq, netWord_setWord_swapWord]
    · rw [setWord_outside _ _ (by omega)]
    · intro address first second _
      rw [setWord_outside _ _ (by omega)]
  · simp only [tseSetHeader, layout.ip, layout.tcp, final, if_true, Bool.not_false, Bool.and_true,
      Bool.false_eq_true, if_false, Data2.touch, Data2.note]
    refine ⟨_, _, rfl, by simp, ?_, ?_, ?_⟩
    · rw [Memory.netWord, write_other _ _ (by omega), write_other _ _ (by omega),
        ← Memory.netWord, bswap16_eq, netWord_setWord_swapWord]
    · rw [write_same, setWord_outside _ _ (by omega)]
    · intro address first second third
      rw [write_other _ _ third, setWord_outside _ _ (by omega)]

theorem checksum_buf (d2 : Data2) (len css cso cse addval : Nat) :
    ∃ buf log, checksum d2 len css cso cse addval = { d2 with buf := buf, log := log } ∧
      packetsOf log = packetsOf d2.log ∧
      ∀ address, cso = 0 ∨ address ≠ cso ∧ address ≠ cso + 1 → buf address = d2.buf address := by
  rw [checksum_eq]
  by_cases inserts : Inserts len css cso cse
  · rw [if_pos inserts]
    by_cases zero : addval = 0
    · simp only [insertChecksum, zero, ne_eq, not_true_eq_false, if_false, Data2.touch, Data2.note]
      refine ⟨_, _, rfl, by simp, ?_⟩
      intro address outside
      have placed := inserts.1
      rw [setWord_outside _ _ (by omega)]
    · simp only [insertChecksum, zero, ne_eq, not_false_eq_true, if_true, Data2.touch, Data2.note]
      refine ⟨_, _, rfl, by simp, ?_⟩
      intro address outside
      have placed := inserts.1
      rw [setWord_outside _ _ (by omega), setWord_outside _ _ (by omega)]
  · rw [if_neg inserts]
    exact ⟨d2.buf, d2.log, rfl, rfl, fun _ _ => rfl⟩

theorem insertChecksums_buf (d2 : Data2) (layout : Layout d2) (packetSize dextsize : Nat) :
    ∃ buf log, insertChecksums true d2 packetSize dextsize = { d2 with buf := buf, log := log } ∧
      packetsOf log = packetsOf d2.log ∧
      ∀ address, address ≠ d2.dext0Ipcss + 10 → address ≠ d2.dext0Ipcss + 11 →
        address ≠ d2.dext0Tucss + 16 → address ≠ d2.dext0Tucss + 17 → buf address = d2.buf address := by
  have ipPlace := layout.ipChecksum
  have tcpPlace := layout.tcpChecksum
  obtain ⟨ipBuf, ipLog, ipSame, ipPackets, ipKept⟩ : ∃ buf log,
      (if d2.dext1Ixsm then
        checksum d2 packetSize d2.dext0Ipcss d2.dext0Ipcso d2.dext0Ipcse 0
      else d2) = { d2 with buf := buf, log := log } ∧ packetsOf log = packetsOf d2.log ∧
      ∀ address, d2.dext0Ipcso = 0 ∨ address ≠ d2.dext0Ipcso ∧ address ≠ d2.dext0Ipcso + 1 →
        buf address = d2.buf address := by
    by_cases asked : d2.dext1Ixsm = true
    · rw [if_pos asked]
      exact checksum_buf d2 packetSize d2.dext0Ipcss d2.dext0Ipcso d2.dext0Ipcse 0
    · rw [if_neg asked]
      exact ⟨d2.buf, d2.log, rfl, rfl, fun _ _ => rfl⟩
  by_cases asked : d2.dext1Txsm = true
  · obtain ⟨buf, log, same, packets, kept⟩ := checksum_buf { d2 with buf := ipBuf, log := ipLog }
      packetSize d2.dext0Tucss d2.dext0Tucso d2.dext0Tucse
      (bswap16 ((dextsize + 2 ^ 32 - d2.dext0Tucss) % 2 ^ 32))
    refine ⟨buf, log, ?_, packets.trans ipPackets, ?_⟩
    · simp only [insertChecksums, ipSame, if_true]
      rw [if_pos asked, same]
    · intro address first second third fourth
      rw [kept address (by omega)]
      exact ipKept address (by omega)
  · refine ⟨ipBuf, ipLog, ?_, ipPackets, ?_⟩
    · simp only [insertChecksums, ipSame]
      rw [if_neg asked]
    · intro address first second third fourth
      exact ipKept address (by omega)

theorem sendPacket_buf {d2 : Data2} (layout : Layout d2) (last : Bool) (packetSize dextsize : Nat) :
    ∃ buf log, sendPacket true d2 last packetSize dextsize = { d2 with buf := buf, log := log } ∧
      packetsOf log = packetsOf d2.log ++ [buf.slice 0 packetSize] ∧
      buf.netWord (d2.dext0Ipcss + 2) =
        ((if last then d2.dext0Paylen else d2.dext0Mss) + d2.dext0Hdrlen + 2 ^ 32 -
          d2.dext0Ipcss) % 2 ^ 32 % 2 ^ 16 ∧
      buf (d2.dext0Tucss + 13) = (if last then d2.buf (d2.dext0Tucss + 13) else d2.buf (d2.dext0Tucss + 13) &&& ~~~9) ∧
      ∀ address, Kept d2 address → buf address = d2.buf address := by
  have apart := layout.ipHeader
  obtain ⟨headBuf, headLog, headSame, headPackets, length, flags, headKept⟩ := tseSetHeader_buf layout last
  obtain ⟨buf, log, same, packets, kept⟩ :=
    insertChecksums_buf { d2 with buf := headBuf, log := headLog }
      ⟨layout.ip, layout.tcp, layout.ipHeader, layout.tcpHeader, layout.ipChecksum,
        layout.tcpChecksum, layout.fits⟩ packetSize dextsize
  simp only [sendPacket, if_true, headSame, same, Data2.receive, Data2.touch, Data2.note]
  refine ⟨_, _, rfl, ?_, ?_, ?_, ?_⟩
  · simp [packets, headPackets]
  · rw [← length, Memory.netWord, Memory.netWord]
    dsimp only at kept
    rw [kept _ (by omega) (by omega) (by omega) (by omega), kept _ (by omega) (by omega) (by omega) (by omega)]
  · dsimp only at kept
    rw [← flags, kept _ (by omega) (by omega) (by omega) (by omega)]
  · intro address place
    dsimp only at kept
    rw [kept _ place.ipChecksum.1 place.ipChecksum.2 place.tcpChecksum.1 place.tcpChecksum.2,
      headKept _ place.ipLength.1 place.ipLength.2 place.flags]

def restoredHeader (d2 : Data2) : Memory :=
  let buf := ((d2.buf.setWord (d2.dext0Ipcss + 2) d2.tseIplen).setWord (d2.dext0Ipcss + 10)
    d2.tseIpchecksum).setWord (d2.dext0Tucss + 16) d2.tseTcpchecksum
  buf.write (d2.dext0Tucss + 13) (buf (d2.dext0Tucss + 13) |||
    ((if d2.tseTcpfin then 1 else 0) ||| (if d2.tseTcppsh then 8 else 0)))

theorem restoredHeader_kept {d2 : Data2} {address : Nat} (place : Kept d2 address) :
    restoredHeader d2 address = d2.buf address := by
  have first := place.ipLength
  have second := place.ipChecksum
  have third := place.tcpChecksum
  rw [restoredHeader, write_other _ _ place.flags, setWord_outside _ _ (by omega),
    setWord_outside _ _ (by omega), setWord_outside _ _ (by omega)]

theorem restoredHeader_flags {d2 : Data2} (layout : Layout d2) :
    restoredHeader d2 (d2.dext0Tucss + 13) = (d2.buf (d2.dext0Tucss + 13) |||
      ((if d2.tseTcpfin then 1 else 0) ||| (if d2.tseTcppsh then 8 else 0))) := by
  have apart := layout.ipHeader
  rw [restoredHeader, write_same, setWord_outside _ _ (by omega),
    setWord_outside _ _ (by omega), setWord_outside _ _ (by omega)]

def nextHeader (d2 : Data2) : Memory :=
  let buf := restoredHeader d2
  let buf := buf.setWord (d2.dext0Ipcss + 4) (bswap16 (bswap16 (buf.word (d2.dext0Ipcss + 4)) + 1))
  buf.setDword (d2.dext0Tucss + 4) (bswap32 ((bswap32 (buf.dword (d2.dext0Tucss + 4)) + d2.dext0Mss) % 2 ^ 32))

theorem tseSetNextHeader_eq {d2 : Data2} (layout : Layout d2) :
    ∃ log, packetsOf log = packetsOf d2.log ∧ tseSetNextHeader d2 =
      { d2 with
        buf := nextHeader d2
        dext0Paylen := (d2.dext0Paylen + 2 ^ 32 - d2.dext0Mss) % 2 ^ 32
        log := log } := by
  simp only [tseSetNextHeader, layout.ip, layout.tcp, if_true, Data2.touch, Data2.note, nextHeader, restoredHeader]
  exact ⟨_, by simp, rfl⟩

theorem nextHeader_outside {d2 : Data2} {address : Nat}
    (id : address < d2.dext0Ipcss + 4 ∨ d2.dext0Ipcss + 6 ≤ address)
    (seq : address < d2.dext0Tucss + 4 ∨ d2.dext0Tucss + 8 ≤ address) :
    nextHeader d2 address = restoredHeader d2 address := by
  rw [nextHeader, Memory.setDword_outside _ _ (by omega), setWord_outside _ _ (by omega)]

theorem nextHeader_id {d2 : Data2} (layout : Layout d2) :
    (nextHeader d2).netWord (d2.dext0Ipcss + 4) = (d2.buf.netWord (d2.dext0Ipcss + 4) + 1) % 2 ^ 16 := by
  have apart := layout.ipHeader
  have same : (restoredHeader d2).netWord (d2.dext0Ipcss + 4) = d2.buf.netWord (d2.dext0Ipcss + 4) := by
    apply netWord_congr
    intro offset inside
    exact restoredHeader_kept (by constructor <;> omega)
  have counted : (nextHeader d2).netWord (d2.dext0Ipcss + 4) =
      ((restoredHeader d2).setWord (d2.dext0Ipcss + 4) (bswap16 (bswap16
        ((restoredHeader d2).word (d2.dext0Ipcss + 4)) + 1))).netWord (d2.dext0Ipcss + 4) := by
    apply netWord_congr
    intro offset inside
    rw [nextHeader, Memory.setDword_outside _ _ (by omega)]
  rw [counted, bswap16_eq, netWord_setWord_swapWord, bswap16_eq, swapWord_word, same]

theorem nextHeader_seq {d2 : Data2} (layout : Layout d2) :
    (nextHeader d2).netDword (d2.dext0Tucss + 4) =
      (d2.buf.netDword (d2.dext0Tucss + 4) + d2.dext0Mss) % 2 ^ 32 := by
  have apart := layout.ipHeader
  have same : ((restoredHeader d2).setWord (d2.dext0Ipcss + 4)
      (bswap16 (bswap16 ((restoredHeader d2).word (d2.dext0Ipcss + 4)) + 1))).netDword
        (d2.dext0Tucss + 4) = d2.buf.netDword (d2.dext0Tucss + 4) := by
    apply Memory.netDword_congr
    intro offset inside
    rw [setWord_outside _ _ (by omega), restoredHeader_kept (by constructor <;> omega)]
  rw [nextHeader, bswap32_eq, netDword_setDword_swapDword, bswap32_eq, swapDword_dword, same, Nat.mod_mod]

theorem nextHeader_flags {d2 : Data2} (layout : Layout d2) :
    nextHeader d2 (d2.dext0Tucss + 13) = (d2.buf (d2.dext0Tucss + 13) |||
      ((if d2.tseTcpfin then 1 else 0) ||| (if d2.tseTcppsh then 8 else 0))) := by
  have apart := layout.ipHeader
  rw [nextHeader_outside (by omega) (by omega), restoredHeader_flags layout]

theorem nextHeader_payload {d2 : Data2} (layout : Layout d2) {address : Nat}
    (behind : d2.dext0Hdrlen ≤ address) : nextHeader d2 address = d2.buf address := by
  have apart := layout.ipHeader
  have below := layout.tcpHeader
  rw [nextHeader_outside (by omega) (by omega), restoredHeader_kept (by constructor <;> omega)]

theorem nextSegment_buf {d2 : Data2} (layout : Layout d2)
    (enough : d2.dext0Hdrlen + d2.dext0Mss ≤ d2.len) (bound : d2.len ≤ bufSize)
    (more : d2.dext0Mss ≤ d2.dext0Paylen) (small : d2.dext0Paylen < 2 ^ 20) :
    ∃ buf log, nextSegment d2 (d2.dext0Hdrlen + d2.dext0Mss) =
        { d2 with
          buf := buf
          len := d2.len - d2.dext0Mss
          dext0Paylen := d2.dext0Paylen - d2.dext0Mss
          log := log } ∧
      packetsOf log = packetsOf d2.log ∧
      buf.netWord (d2.dext0Ipcss + 4) = (d2.buf.netWord (d2.dext0Ipcss + 4) + 1) % 2 ^ 16 ∧
      buf.netDword (d2.dext0Tucss + 4) = (d2.buf.netDword (d2.dext0Tucss + 4) + d2.dext0Mss) % 2 ^ 32 ∧
      buf (d2.dext0Tucss + 13) = (d2.buf (d2.dext0Tucss + 13) |||
        ((if d2.tseTcpfin then 1 else 0) ||| (if d2.tseTcppsh then 8 else 0))) ∧
      ∀ address, d2.dext0Hdrlen ≤ address → address < d2.len - d2.dext0Mss →
        buf address = d2.buf (address + d2.dext0Mss) := by
  have apart := layout.ipHeader
  have below := layout.tcpHeader
  have rest : (d2.len + 2 ^ 32 - (d2.dext0Hdrlen + d2.dext0Mss)) % 2 ^ 32 = d2.len - d2.dext0Mss - d2.dext0Hdrlen := by
    simp only [bufSize] at bound
    omega
  have left : (d2.len + 2 ^ 32 - d2.dext0Mss) % 2 ^ 32 = d2.len - d2.dext0Mss := by
    simp only [bufSize] at bound
    omega
  have paylen : (d2.dext0Paylen + 2 ^ 32 - d2.dext0Mss) % 2 ^ 32 = d2.dext0Paylen - d2.dext0Mss := by omega
  have head (address : Nat) (inside : address < d2.dext0Hdrlen) :
      d2.buf.blit d2.dext0Hdrlen (d2.len - d2.dext0Mss - d2.dext0Hdrlen)
        (fun offset => d2.buf (d2.dext0Hdrlen + d2.dext0Mss + offset)) address = d2.buf address :=
    Memory.blit_outside _ _ (.inl inside)
  have payload (address : Nat) (behind : d2.dext0Hdrlen ≤ address)
      (inside : address < d2.len - d2.dext0Mss) :
      d2.buf.blit d2.dext0Hdrlen (d2.len - d2.dext0Mss - d2.dext0Hdrlen)
        (fun offset => d2.buf (d2.dext0Hdrlen + d2.dext0Mss + offset)) address =
          d2.buf (address + d2.dext0Mss) := by
    rw [Memory.blit_inside _ _ behind (by omega)]
    congr 1
    omega
  simp only [nextSegment, Data2.touch, Data2.note, rest, left]
  generalize d2.buf.blit d2.dext0Hdrlen _ _ = moved at head payload
  generalize notes : d2.log ++ _ ++ _ ++ _ ++ _ = noted
  have silent : packetsOf noted = packetsOf d2.log := by
    rw [← notes]
    simp
  have movedLayout : Layout { d2 with buf := moved, len := d2.len - d2.dext0Mss, log := noted } :=
    ⟨layout.ip, layout.tcp, layout.ipHeader, layout.tcpHeader, layout.ipChecksum, layout.tcpChecksum, layout.fits⟩
  obtain ⟨log, packets, next⟩ := tseSetNextHeader_eq movedLayout
  have id := nextHeader_id movedLayout
  have seq := nextHeader_seq movedLayout
  have flags := nextHeader_flags movedLayout
  have kept := @nextHeader_payload _ movedLayout
  generalize nextHeader _ = buf at next id seq flags kept
  dsimp only at packets id seq flags kept
  rw [paylen] at next
  refine ⟨buf, log, next, packets.trans silent, ?_, ?_, ?_, ?_⟩
  · rw [id]
    congr 2
    apply netWord_congr
    intro offset inside
    exact head _ (by omega)
  · rw [seq]
    congr 2
    apply Memory.netDword_congr
    intro offset inside
    exact head _ (by omega)
  · rw [flags, head _ (by omega)]
  · intro address behind inside
    rw [kept behind, payload address behind inside]

/-!
Segmentation offload: a header and a payload in the data descriptors behind a
context descriptor, the packets that should come of them, and how many segments
come of a number of descriptors.
-/

def TdescDext1.bytes (guest : Memory) (td1 : TdescDext1) : List UInt8 :=
  (List.range td1.dtalen.val).map fun offset => guest ((td1.addr.toNat + offset) % 2 ^ 64)

structure Offload where
  guest : Memory
  td0 : TdescDext0
  front : List TdescDext1
  last : TdescDext1
  tse : td0.tucmdTse = true
  ip : td0.tucmdIp = true
  tcp : td0.tucmdTcp = true
  ipHeader : td0.ipcss.toNat + 20 ≤ td0.tucss.toNat
  tcpHeader : td0.tucss.toNat + 20 ≤ td0.hdrlen.toNat
  ipChecksum : td0.ipcso.toNat = 0 ∨ td0.ipcso.toNat = td0.ipcss.toNat + 10
  tcpChecksum : td0.tucso.toNat = 0 ∨ td0.tucso.toNat = td0.tucss.toNat + 16
  mssPos : 0 < td0.mss.toNat
  paylenPos : 0 < td0.paylen.val
  fits : td0.hdrlen.toNat + td0.mss.toNat ≤ bufSize
  dataTse : ∀ td1 ∈ front ++ [last], td1.dcmdTse = true
  dataIfcs : ∀ td1 ∈ front ++ [last], td1.dcmdIfcs = true
  frontEop : ∀ td1 ∈ front, td1.dcmdEop = false
  lastEop : last.dcmdEop = true
  whole : ((front ++ [last]).map fun td1 => td1.dtalen.val).sum = td0.hdrlen.toNat + td0.paylen.val

namespace Offload

variable (offload : Offload)

def hdrlen : Nat := offload.td0.hdrlen.toNat
def mss : Nat := offload.td0.mss.toNat
def paylen : Nat := offload.td0.paylen.val
def ipcss : Nat := offload.td0.ipcss.toNat
def tucss : Nat := offload.td0.tucss.toNat

def descriptors : List TdescDext1 := offload.front ++ [offload.last]

def data : List UInt8 := offload.descriptors.flatMap (TdescDext1.bytes offload.guest)

def stream : Memory := fun position => offload.data.getD position 0

def payload : List UInt8 := offload.data.drop offload.hdrlen

def segments : Nat := (offload.paylen + offload.mss - 1) / offload.mss

def view (packet : List UInt8) : Memory := fun position => packet.getD position 0

structure Header (index : Nat) (packet : List UInt8) : Prop where
  ipLength : (view packet).netWord (offload.ipcss + 2) = packet.length - offload.ipcss
  id : (view packet).netWord (offload.ipcss + 4) = (offload.stream.netWord (offload.ipcss + 4) + index) % 2 ^ 16
  seq : (view packet).netDword (offload.tucss + 4) =
    (offload.stream.netDword (offload.tucss + 4) + index * offload.mss) % 2 ^ 32
  flags : view packet (offload.tucss + 13) &&& 9 =
    if index + 1 = offload.segments then offload.stream (offload.tucss + 13) &&& 9 else 0

structure Segmented (packets : List (List UInt8)) : Prop where
  count : packets.length = offload.segments
  payload : (packets.flatMap fun packet => packet.drop offload.hdrlen) = offload.payload
  full : ∀ index packet, packets[index]? = some packet → index + 1 < offload.segments →
    packet.length = offload.hdrlen + offload.mss
  header : ∀ index packet, packets[index]? = some packet → offload.Header index packet

def run (fuel : Nat) (d2 : Data2) : Option Data2 :=
  (.dext0 offload.td0 :: offload.descriptors.map .dext1).foldlM (processTdesc fuel offload.guest) d2

def gathered (count : Nat) : Nat := ((offload.descriptors.take count).map fun td1 => td1.dtalen.val).sum

def Complete (bytes segments : Nat) : Prop :=
  segments = 0 ∨ offload.hdrlen + min (segments * offload.mss) offload.paylen ≤ bytes

def Forced (bytes segments : Nat) : Prop := segments = 0 ∨ bufSize + (segments - 1) * offload.mss < bytes

/-- The first descriptors are enough for so many segments: counting back from the last of them,
each one can add a segment to those before it, up to one at which the buffer runs over. -/
def Sendable (count segments : Nat) : Prop :=
  segments = 0 ∨ ∃ back < count,
    (∀ index ≤ back,
      offload.Complete (offload.gathered (count - index)) (segments - index)) ∧
    offload.Forced (offload.gathered (count - back)) (segments - back - 1)

instance (bytes segments : Nat) : Decidable (offload.Complete bytes segments) := inferInstanceAs (Decidable (_ ∨ _))

instance (bytes segments : Nat) : Decidable (offload.Forced bytes segments) := inferInstanceAs (Decidable (_ ∨ _))

instance (count segments : Nat) : Decidable (offload.Sendable count segments) :=
  inferInstanceAs (Decidable (_ ∨ ∃ back < count, (∀ index ≤ back, _) ∧ _))

variable {offload}

theorem lt_segments (offload : Offload) (index : Nat) :
    index < offload.segments ↔ index * offload.mss < offload.paylen := by
  have positive : 0 < offload.mss := offload.mssPos
  rw [segments, Nat.lt_iff_add_one_le, Nat.le_div_iff_mul_le positive, Nat.add_mul, Nat.one_mul]
  omega

theorem sendable_zero (segments : Nat) : offload.Sendable 0 segments ↔ segments = 0 := by
  simp [Sendable]

theorem sendable_succ (count segments : Nat) :
    offload.Sendable (count + 1) (segments + 1) ↔
      offload.Complete (offload.gathered (count + 1)) (segments + 1) ∧
        (offload.Sendable count segments ∨ offload.Forced (offload.gathered (count + 1)) segments) := by
  constructor
  · rintro (none | ⟨back, before, complete, forced⟩)
    · cases none
    · refine ⟨complete 0 (Nat.zero_le _), ?_⟩
      cases back with
      | zero => exact .inr forced
      | succ back =>
        refine .inl (.inr ⟨back, by omega, ?_, ?_⟩)
        · intro index inside
          have next := complete (index + 1) (by omega)
          rwa [Nat.add_sub_add_right, Nat.add_sub_add_right] at next
        · rwa [Nat.add_sub_add_right, Nat.add_sub_add_right] at forced
  · rintro ⟨complete, earlier | forced⟩
    · rcases earlier with rfl | ⟨back, before, more, forced⟩
      · refine .inr ⟨0, by omega, ?_, .inl rfl⟩
        intro index inside
        rw [Nat.le_zero.mp inside]
        exact complete
      · refine .inr ⟨back + 1, by omega, ?_, ?_⟩
        · intro index inside
          cases index with
          | zero => exact complete
          | succ index =>
            rw [Nat.add_sub_add_right, Nat.add_sub_add_right]
            exact more index (by omega)
        · rwa [Nat.add_sub_add_right, Nat.add_sub_add_right]
    · refine .inr ⟨0, by omega, ?_, forced⟩
      intro index inside
      rw [Nat.le_zero.mp inside]
      exact complete

end Offload

end DisasVisor.Pro1000
