import DisasVisor.Vpn.Ip6Delivery

/-!
The fragments of an IPv6 datagram come together again, in every order of the frames, exactly when
there is nothing behind the packets in their frames.
-/

namespace DisasVisor.Vpn.Ip6

open Intervals Reassembly List

variable {payload pad : List UInt8} {one j x : Nat} {c : IpCombine} {taken : List Nat}

def piece (payload : List UInt8) (one j : Nat) : Received := paddedPiece payload one j []

theorem toNat_offset (inside : j * one < payload.length) (small : payload.length ≤ 65535) :
    (piece payload one j).offset.toNat = j * one := by
  rw [piece, paddedPiece, UInt32.toNat_ofNat']
  omega

theorem length_piece : (piece payload one j).data.length = min one (payload.length - j * one) := by
  rw [piece, paddedPiece, append_nil, length_slice]

theorem stop_piece (inside : j * one < payload.length) (small : payload.length ≤ 65535) :
    (piece payload one j).stop = min ((j + 1) * one) payload.length := by
  rw [Received.stop, toNat_offset inside small, length_piece, Nat.succ_mul]
  omega

theorem piece_fits (positive : 0 < one) (inside : j * one < payload.length)
    (small : payload.length ≤ 65535) : (piece payload one j).Fits := by
  refine ⟨?_, ?_⟩
  · rw [← length_pos_iff, length_piece]
    omega
  · rw [stop_piece inside small]
    omega

theorem has_piece (positive : 0 < one) (inside : j * one < payload.length) (small : payload.length ≤ 65535) :
    Has (piece payload one j).range x ↔ x / one = j ∧ x < payload.length := by
  have offset := toNat_offset inside small
  have low : j ≤ x / one ↔ j * one ≤ x := Nat.le_div_iff_mul_le positive
  have high : x / one < j + 1 ↔ x < (j + 1) * one := Nat.div_lt_iff_lt_mul positive
  rw [Nat.succ_mul] at high
  simp only [Has, Received.range, offset, length_piece]
  omega

theorem piece_byte (inside : j * one < payload.length) (small : payload.length ≤ 65535)
    (positive : 0 < one) (has : Has (piece payload one j).range x) :
    (piece payload one j).data[x - (piece payload one j).offset.toNat]? = payload[x]? := by
  have offset := toNat_offset inside small
  simp only [Has, Received.range, offset, length_piece] at has
  rw [offset, piece, paddedPiece, append_nil, slice, List.getElem?_take, if_pos (by omega), List.getElem?_drop]
  congr 1
  omega

structure Collected (payload : List UInt8) (one : Nat) (taken : List Nat) (c : IpCombine) :
    Prop where
  holds : c.Holds (taken.map (piece payload one))
  size : c.size.toNat = if ∃ j ∈ taken, payload.length ≤ (j + 1) * one then payload.length else 0
  inside : ∀ j ∈ taken, j * one < payload.length

theorem covered_pieces (positive : 0 < one) (small : payload.length ≤ 65535)
    (inside : ∀ j ∈ taken, j * one < payload.length) :
    Covers (covered (taken.map (piece payload one))) x ↔ x / one ∈ taken ∧ x < payload.length := by
  constructor
  · rintro ⟨range, member, has⟩
    simp only [covered, map_map, mem_map] at member
    obtain ⟨j, listed, rfl⟩ := member
    obtain ⟨rfl, less⟩ := (has_piece positive (inside j listed) small).mp has
    exact ⟨listed, less⟩
  · rintro ⟨listed, less⟩
    refine ⟨(piece payload one (x / one)).range, ?_, (has_piece positive (inside _ listed) small).mpr ⟨rfl, less⟩⟩
    simp only [covered, map_map, mem_map]
    exact ⟨x / one, listed, rfl⟩

theorem Collected.new (memory : Nat → UInt8) : Collected payload one [] (newIpCombine memory) :=
  ⟨newIpCombine_holds memory, by simp [newIpCombine], by simp⟩

section

variable (collected : Collected payload one taken c)
include collected

variable (positive : 0 < one) (small : payload.length ≤ 65535)
include positive small

theorem Collected.step (inside : j * one < payload.length) (new : j ∉ taken) :
    ∃ c', se6CombineIp c (piece payload one j).offset (piece payload one j).data
        (piece payload one j).last = some (c', c'.delivery) ∧
      Collected payload one (j :: taken) c' := by
  have fits := piece_fits positive inside small
  have stop := stop_piece inside small
  have last : (piece payload one j).last = true ↔ payload.length ≤ (j + 1) * one := by simp [piece, paddedPiece]
  have takes : c.Takes (piece payload one j) := by
    intro _ sized
    rw [stop, collected.size]
    split
    · omega
    · rename_i none
      have zero := collected.size
      rw [if_neg none] at zero
      exact absurd (UInt32.toNat_inj.mp (zero.trans rfl)) sized
  have free : ∀ x, Has (piece payload one j).range x → ¬Covers (ranges c.ipFragmentList) x := by
    intro x has known
    rw [collected.holds.same, covered_pieces positive small collected.inside] at known
    obtain ⟨rfl, _⟩ := (has_piece positive inside small).mp has
    exact new known.1
  have regular : Regular c (piece payload one j) := by
    refine ⟨tailKept_of_free fits free, ?_⟩
    intro ends x known
    rw [collected.holds.same, covered_pieces positive small collected.inside] at known
    rw [stop]
    have whole := last.mp ends
    omega
  obtain ⟨c', combines, holds, size⟩ := combineIp_takes collected.holds fits takes regular
  refine ⟨c', combines, holds, ?_, ?_⟩
  · rw [size]
    by_cases ends : payload.length ≤ (j + 1) * one
    · rw [if_pos (last.mpr ends), fits.toNat_stop, stop, if_pos ⟨j, mem_cons_self .., ends⟩]
      omega
    · rw [if_neg (mt last.mp ends), collected.size]
      simp [ends]
  · intro k member
    rcases mem_cons.mp member with rfl | old
    · exact inside
    · exact collected.inside k old

theorem Collected.complete (some' : payload ≠ [])
    (all : ∀ j, j * one < payload.length → j ∈ taken) : c.delivery = some payload := by
  have length := length_pos_of_ne_nil some'
  have lastInside : (payload.length - 1) / one * one < payload.length := by
    have below := Nat.div_mul_le_self (payload.length - 1) one
    omega
  have lastEnds : payload.length ≤ ((payload.length - 1) / one + 1) * one := by
    have above := Nat.lt_div_mul_add positive (a := payload.length - 1)
    rw [Nat.succ_mul]
    omega
  have size := collected.size
  rw [if_pos ⟨_, all _ lastInside, lastEnds⟩] at size
  have known : ∀ x, Covers (ranges c.ipFragmentList) x ↔ x < payload.length := by
    intro x
    rw [collected.holds.same, covered_pieces positive small collected.inside]
    refine ⟨fun ⟨_, less⟩ => less, fun less => ⟨all _ ?_, less⟩⟩
    have below := Nat.div_mul_le_self x one
    omega
  have counted : totalSize c.ipFragmentList = c.size := by
    rw [← UInt32.toNat_inj, collected.holds.toNat_totalSize, total_of_covers collected.holds.apart known, size]
  have sized : c.size ≠ 0 := by
    intro zero
    rw [zero] at size
    have none := UInt32.toNat_zero
    omega
  unfold IpCombine.delivery
  rw [if_pos ⟨sized, counted⟩, size]
  congr 1
  refine ext_getElem? fun x => ?_
  by_cases less : x < payload.length
  · have covers := (collected.holds.same x).mp ((known x).mpr less)
    obtain ⟨r, member, has, byte⟩ := collected.holds.bytes x covers
    obtain ⟨j, listed, rfl⟩ := mem_map.mp member
    rw [List.getElem?_map, List.getElem?_range less, Option.map_some, ← byte,
      piece_byte (collected.inside j listed) small positive has]
  · rw [List.getElem?_eq_none (by simpa using less), List.getElem?_eq_none (by omega)]

theorem Collected.incomplete (inside : j * one < payload.length) (missing : j ∉ taken) : c.delivery = none := by
  unfold IpCombine.delivery
  refine if_neg ?_
  rintro ⟨sized, counted⟩
  have size := collected.size
  split at size
  · have total : total (ranges c.ipFragmentList) = c.size.toNat := by rw [← collected.holds.toNat_totalSize, counted]
    have covers := covers_of_total collected.holds.apart (collected.holds.within sized) total (j * one) (by omega)
    rw [collected.holds.same, covered_pieces positive small collected.inside, Nat.mul_div_cancel _ positive] at covers
    exact missing covers.1
  · exact sized (UInt32.toNat_inj.mp (size.trans rfl))

end

section Frames

variable {header : Header} {protocol : UInt8} {id : UInt32} {memory : Nat → UInt8} {p : Receiver}

def entry (header : Header) (protocol : UInt8) (id : UInt32) (c : IpCombine) : Combine :=
  ⟨header.destAddress, header.srcAddress, id, protocol, header.hopLimit, c⟩

def wholeDatagram (header : Header) (protocol : UInt8) (id : UInt32) (payload : List UInt8) : Datagram :=
  ⟨header.srcAddress, header.destAddress, id, protocol, header.hopLimit, payload⟩

theorem combineFrame_entry (only : p.ipCombineList = [entry header protocol id c]) (r : Received) :
    combineFrame memory p header protocol id r =
      combineEntry p [] (entry header protocol id c) [] r.offset (some r.data) r.last := by
  unfold combineFrame
  rw [only, Searches.locate, if_pos (by simp [entry])]

theorem combineFrame_idle (r : Received) :
    combineFrame memory Receiver.idle header protocol id r =
      combineEntry ⟨[], seIpCombineInitialBufSize⟩ [] (entry header protocol id (newIpCombine memory))
        [] r.offset (some r.data) r.last := by
  unfold combineFrame
  rw [show Receiver.idle.ipCombineList = [] from rfl, Searches.locate]
  dsimp only
  rw [if_neg (by decide)]
  rfl

theorem combineEntry_collected (collected : Collected payload one taken c) (positive : 0 < one)
    (small : payload.length ≤ 65535) (some' : payload ≠ []) (inside : j * one < payload.length)
    (new : j ∉ taken) (p : Receiver) :
    ((∀ k, k * one < payload.length → k ∈ j :: taken) ∧
        ∃ p', combineEntry p [] (entry header protocol id c) [] (piece payload one j).offset
          (some (piece payload one j).data) (piece payload one j).last =
          some (p', [wholeDatagram header protocol id payload])) ∨
      (¬∀ k, k * one < payload.length → k ∈ j :: taken) ∧
        ∃ p' c', combineEntry p [] (entry header protocol id c) [] (piece payload one j).offset
          (some (piece payload one j).data) (piece payload one j).last = some (p', []) ∧
        p'.ipCombineList = [entry header protocol id c'] ∧ Collected payload one (j :: taken) c' := by
  obtain ⟨c', combines, later⟩ := collected.step positive small inside new
  unfold combineEntry
  simp only [entry, combines]
  by_cases all : ∀ k, k * one < payload.length → k ∈ j :: taken
  · rw [later.complete positive small some' all]
    refine .inl ⟨all, ⟨[], p.currentIpQuota + (c'.dataReserved - c.dataReserved) - c'.dataReserved⟩, ?_⟩
    dsimp only
    rw [se6RecvIpComplete_some some']
    rfl
  · obtain ⟨k, lacks⟩ := not_forall.mp all
    obtain ⟨less, missing⟩ := Classical.not_imp.mp lacks
    rw [later.incomplete positive small less missing]
    exact .inr ⟨all, _, c', rfl, rfl, later⟩

variable (upper : Upper protocol) (version : header.versionAndTrafficClass1 = 0x60) (positive : 0 < one)
  (aligned : one / 8 * 8 = one) (small : payload.length ≤ 65535) (several : one < payload.length)
include upper version positive aligned small several

theorem receiveFrames_rest (rest : List Nat) : ∀ {taken c p q},
      Collected payload one taken c →
      (∀ r, combineFrame memory p header protocol (wireId id) r =
        combineEntry q [] (entry header protocol (wireId id) c) [] r.offset (some r.data) r.last) →
        rest.Nodup → (∀ j ∈ rest, j ∉ taken ∧ j * one < payload.length) → rest ≠ [] →
          (∀ j, j * one < payload.length → j ∈ taken ∨ j ∈ rest) →
            ∃ p', receiveFrames memory p (rest.map (packetAt header protocol id payload one)) =
              some (p', [wholeDatagram header protocol (wireId id) payload]) := by
  induction rest with
  | nil =>
    intro taken c p q _ _ _ _ more
    exact absurd rfl more
  | cons j rest ih =>
    intro taken c p q collected opens distinct fresh _ all
    obtain ⟨new, inside⟩ := fresh j (mem_cons_self ..)
    obtain ⟨notLater, distinct⟩ := nodup_cons.mp distinct
    have some' : payload ≠ [] := by
      rw [← length_pos_iff]
      omega
    have frame := @receiveFrame_packetAt header protocol id payload [] one j memory p upper version
      small positive aligned several inside
    rw [append_nil, opens] at frame
    rcases @combineEntry_collected payload one j c taken header protocol (wireId id) collected
      positive small some' inside new q with complete | later
    · obtain ⟨known, p', delivers⟩ := complete
      have last : rest = [] := by
        by_contra more
        obtain ⟨k, member⟩ := exists_mem_of_ne_nil rest more
        have later := fresh k (mem_cons_of_mem _ member)
        rcases mem_cons.mp (known k later.2) with rfl | old
        · exact notLater member
        · exact later.1 old
      rw [last, map_cons]
      unfold receiveFrames
      rw [frame, show paddedPiece payload one j [] = piece payload one j from rfl, delivers]
      exact ⟨p', rfl⟩
    · obtain ⟨incomplete, p', c', continues, only', collected'⟩ := later
      have more : rest ≠ [] := by
        rintro rfl
        refine incomplete fun k less => ?_
        rcases all k less with old | listed
        · exact mem_cons_of_mem _ old
        · exact mem_singleton.mp listed ▸ mem_cons_self ..
      obtain ⟨p'', delivers⟩ := ih collected' (combineFrame_entry only') distinct (by
        intro k member
        obtain ⟨old, less⟩ := fresh k (mem_cons_of_mem _ member)
        refine ⟨?_, less⟩
        intro listed
        rcases mem_cons.mp listed with rfl | before
        · exact notLater member
        · exact old before) more (by
        intro k less
        rcases all k less with old | listed
        · exact .inl (mem_cons_of_mem _ old)
        · rcases mem_cons.mp listed with rfl | later
          · exact .inl (mem_cons_self ..)
          · exact .inr later)
      rw [map_cons]
      unfold receiveFrames
      rw [frame, show paddedPiece payload one j [] = piece payload one j from rfl, continues]
      simp only [delivers]
      exact ⟨p'', rfl⟩

theorem receiveFrames_fragments
    {order : List Nat} (perm : order.Perm (List.range (pieceCount payload.length one))) :
    ∃ p', receiveFrames memory Receiver.idle (order.map (packetAt header protocol id payload one)) =
      some (p', [wholeDatagram header protocol (wireId id) payload]) := by
  have listed : ∀ j, j ∈ order ↔ j * one < payload.length := by
    intro j
    rw [perm.mem_iff, mem_range, lt_pieceCount positive]
  refine receiveFrames_rest upper version positive aligned small several order (Collected.new memory)
    combineFrame_idle (perm.nodup_iff.mpr nodup_range)
    (fun j member => ⟨not_mem_nil, (listed j).mp member⟩) ?_
    fun j less => .inr ((listed j).mpr less)
  exact ne_nil_of_mem ((listed 0).mpr (by omega))

end Frames

/-!
Bytes behind the packets: the receiver takes them for payload, and there is an order of the frames in
which the datagram does not come.
-/

variable {i : Nat} {c' : IpCombine} {out : Option (List UInt8)} {offset : UInt32} {data : List UInt8} {last : Bool}
  {memory : Nat → UInt8} {p p' : Receiver} {ds : List Datagram} {header : Header} {protocol : UInt8} {id : UInt32}

theorem combineIp_cases {most : UInt32} (combines : combineIp most c offset data last = some (c', out)) :
    (c' = c ∧ out = none) ∨
      (c'.data = copyInto c.data offset.toNat data ∧
        c'.size = (if last then offset + data.length.toUInt32 else c.size) ∧
        ∀ bytes, out = some bytes → c'.size ≠ 0 ∧ bytes = (List.range c'.size.toNat).map c'.data) := by
  unfold combineIp at combines
  dsimp only at combines
  split at combines
  · cases combines
    exact .inl ⟨rfl, rfl⟩
  · split at combines
    · cases combines
      exact .inl ⟨rfl, rfl⟩
    · split at combines
      · cases combines
      · generalize (if last = true then offset + data.length.toUInt32 else c.size) = total at combines ⊢
        generalize (if (trimLoop c.ipFragmentList offset data.length.toUInt32).2.2 ≠ 0 then _
          else _) = fs at combines
        split at combines
        · rename_i complete
          split at combines
          · cases combines
          · cases combines
            refine .inr ⟨rfl, rfl, ?_⟩
            intro bytes same
            cases same
            exact ⟨complete.1, rfl⟩
        · cases combines
          exact .inr ⟨rfl, rfl, fun bytes same => by cases same⟩

/-- The frame takes entries with `B` to entries with `B'`, and does not deliver the payload. -/
def Keeps (memory : Nat → UInt8) (payload : List UInt8) (B B' : IpCombine → Prop) (frame : List UInt8) : Prop :=
  ∀ p p' ds, (∀ e ∈ p.ipCombineList, B e.combine) → receiveFrame memory p frame = some (p', ds) →
    (∀ e ∈ p'.ipCombineList, B' e.combine) ∧ ∀ d ∈ ds, d.data ≠ payload

def KeepsCall (payload : List UInt8) (B B' : IpCombine → Prop) (r : Received) : Prop :=
  ∀ c c' out, B c → se6CombineIp c r.offset r.data r.last = some (c', out) →
    B' c' ∧ ∀ bytes, out = some bytes → bytes ≠ payload

variable {B B' : IpCombine → Prop}

theorem KeepsCall.entry {front back : List Combine} {e : Combine} {r : Received}
    (keeps : KeepsCall payload B B' r) (same : ∀ c, B c → B' c) (before : ∀ e' ∈ front ++ e :: back, B e'.combine)
    (combines : combineEntry p front e back r.offset (some r.data) r.last = some (p', ds)) :
    (∀ e ∈ p'.ipCombineList, B' e.combine) ∧ ∀ d ∈ ds, d.data ≠ payload := by
  have others : ∀ e' ∈ front ++ back, B' e'.combine := by
    intro e' member
    refine same _ (before e' ?_)
    rcases mem_append.mp member with first | second
    · exact mem_append_left _ first
    · exact mem_append_right _ (mem_cons_of_mem _ second)
  have here := before e (by simp)
  unfold combineEntry at combines
  dsimp only at combines
  cases result : se6CombineIp e.combine r.offset r.data r.last with
  | none => simp [result] at combines
  | some next =>
    obtain ⟨c', out⟩ := next
    obtain ⟨kept, wrong⟩ := keeps e.combine c' out here result
    cases out with
    | none =>
      simp only [result] at combines
      cases combines
      refine ⟨?_, by simp⟩
      intro e' member
      rcases mem_append.mp member with first | second
      · exact others e' (mem_append_left _ first)
      · rcases mem_cons.mp second with rfl | later
        · exact kept
        · exact others e' (mem_append_right _ later)
    | some bytes =>
      simp only [result] at combines
      cases combines
      refine ⟨others, ?_⟩
      intro d delivered
      cases bytes with
      | nil => cases delivered
      | cons byte bytes =>
        rw [se6RecvIpComplete, mem_singleton] at delivered
        rw [delivered]
        exact wrong _ rfl

theorem KeepsCall.frame {r : Received} (keeps : KeepsCall payload B B' r) (same : ∀ c, B c → B' c)
    (new : B (newIpCombine memory)) (before : ∀ e ∈ p.ipCombineList, B e.combine)
    (combines : combineFrame memory p header protocol id r = some (p', ds)) :
    (∀ e ∈ p'.ipCombineList, B' e.combine) ∧ ∀ d ∈ ds, d.data ≠ payload := by
  unfold combineFrame at combines
  split at combines
  · rename_i front e back found
    rw [(Searches.locate_some found).1] at before
    exact keeps.entry same before combines
  · split at combines
    · cases combines
      exact ⟨fun e member => same _ (before e member), by simp⟩
    · refine keeps.entry same ?_ combines
      intro e member
      rcases mem_append.mp member with old | fresh
      · exact before e old
      · rw [mem_singleton.mp fresh]
        exact new

theorem receiveFrames_keeps {frames : List (List UInt8)}
    (keeps : ∀ frame ∈ frames, Keeps memory payload B B frame) : ∀ {p p' ds},
      (∀ e ∈ p.ipCombineList, B e.combine) → receiveFrames memory p frames = some (p', ds) →
        (∀ e ∈ p'.ipCombineList, B e.combine) ∧ ∀ d ∈ ds, d.data ≠ payload := by
  induction frames with
  | nil =>
    intro p p' ds before receives
    cases receives
    exact ⟨before, by simp⟩
  | cons frame frames ih =>
    intro p p' ds before receives
    unfold receiveFrames at receives
    cases first : receiveFrame memory p frame with
    | none => simp [first] at receives
    | some step =>
      obtain ⟨q, out⟩ := step
      obtain ⟨middle, wrong⟩ := keeps frame (mem_cons_self ..) p q out before first
      cases rest : receiveFrames memory q frames with
      | none => simp [first, rest] at receives
      | some run =>
        obtain ⟨q', later⟩ := run
        obtain ⟨after, wrong'⟩ := ih (fun frame member =>
          keeps frame (mem_cons_of_mem _ member)) middle rest
        simp only [first, rest] at receives
        cases receives
        refine ⟨after, ?_⟩
        intro d member
        rcases mem_append.mp member with early | late
        · exact wrong d early
        · exact wrong' d late

theorem receiveFrames_append {frames more : List (List UInt8)} : ∀ {p},
    receiveFrames memory p (frames ++ more) =
      match receiveFrames memory p frames with
      | none => none
      | some (q, out) =>
        match receiveFrames memory q more with
        | none => none
        | some (q', later) => some (q', out ++ later) := by
  induction frames with
  | nil =>
    intro p
    rw [nil_append, receiveFrames]
    dsimp only
    cases receiveFrames memory p more <;> rfl
  | cons frame frames ih =>
    intro p
    rw [cons_append, receiveFrames, receiveFrames]
    cases receiveFrame memory p frame with
    | none => rfl
    | some step =>
      dsimp only
      rw [ih]
      cases receiveFrames memory step.1 frames with
      | none => rfl
      | some run =>
        dsimp only
        cases receiveFrames memory run.1 more with
        | none => rfl
        | some last => simp

def Longer (payload : List UInt8) (c : IpCombine) : Prop := c.size = 0 ∨ payload.length < c.size.toNat

theorem keepsCall_longer (positive : 0 < one) (small : payload.length ≤ 65535)
    (short : one ≤ 65535) (inside : j * one < payload.length) (few : pad.length ≤ 1500)
    (behind : payload.length ≤ (j + 1) * one → pad ≠ []) :
    KeepsCall payload (Longer payload) (Longer payload) (paddedPiece payload one j pad) := by
  intro c c' out longer combines
  rcases combineIp_cases combines with ⟨rfl, rfl⟩ | ⟨_, size, delivered⟩
  · exact ⟨longer, fun bytes same => by cases same⟩
  · have later : Longer payload c' := by
      by_cases ends : payload.length ≤ (j + 1) * one
      · have some' := length_pos_of_ne_nil (behind ends)
        have offset : (UInt32.ofNat (j * one)).toNat = j * one := by
          rw [UInt32.toNat_ofNat']
          omega
        have length : (slice payload one j ++ pad).length = payload.length - j * one + pad.length := by
          rw [length_append, length_slice]
          rw [Nat.succ_mul] at ends
          omega
        have word : (slice payload one j ++ pad).length.toUInt32.toNat = payload.length - j * one + pad.length := by
          rw [length]
          simp only [Nat.toUInt32, UInt32.toNat_ofNat']
          omega
        right
        rw [size, paddedPiece, if_pos (decide_eq_true ends), UInt32.toNat_add, offset, word]
        omega
      · rw [Longer, size, paddedPiece, if_neg (by simpa using ends)]
        exact longer
    refine ⟨later, ?_⟩
    intro bytes same
    obtain ⟨sized, rfl⟩ := delivered bytes same
    intro equal
    have length := congrArg List.length equal
    rw [length_map, length_range] at length
    rcases later with none | large
    · exact sized none
    · omega

def Wrong (payload : List UInt8) (x : Nat) (c : IpCombine) : Prop := payload[x]? ≠ some (c.data x)

def other (payload : List UInt8) (x : Nat) : UInt8 := payload.getD x 0 + 1

theorem other_ne : payload[x]? ≠ some (other payload x) := by
  intro same
  have value : payload.getD x 0 = payload[x]?.getD 0 := getD_eq_getElem?_getD
  rw [same, Option.getD_some, other] at value
  have changed : ∀ byte : UInt8, byte ≠ byte + 1 := by
    intro byte equal
    have number := congrArg UInt8.toNat equal
    rw [UInt8.toNat_add] at number
    have one := UInt8.toNat_one
    omega
  exact changed _ value

theorem Wrong.not_delivered (wrong : Wrong payload x c) (less : x < payload.length) (size : Nat) :
    (List.range size).map c.data ≠ payload := by
  intro same
  have length := congrArg List.length same
  rw [length_map, length_range] at length
  refine wrong ?_
  rw [← same, List.getElem?_map, List.getElem?_range (by omega), Option.map_some]

def otherPad (payload : List UInt8) (one j size : Nat) : List UInt8 :=
  (List.range size).map fun t => other payload ((j + 1) * one + t)

variable {size : Nat}

section

variable (small : payload.length ≤ 65535)
include small

theorem copy_before (inside : j * one < payload.length) (before : x < j * one) (data : Nat → UInt8) :
    copyInto data (paddedPiece payload one j pad).offset.toNat (paddedPiece payload one j pad).data x = data x := by
  have offset := toNat_offset inside small
  refine copyInto_outside ?_
  rw [piece] at offset
  simp only [Has, paddedPiece] at offset ⊢
  omega

theorem copy_behind (inside : (j + 1) * one < payload.length) (behind : (j + 1) * one ≤ x) (data : Nat → UInt8) :
    copyInto data (paddedPiece payload one j (otherPad payload one j size)).offset.toNat
        (paddedPiece payload one j (otherPad payload one j size)).data x =
      if x < (j + 1) * one + size then other payload x else data x := by
  rw [Nat.succ_mul] at inside behind
  have offset := toNat_offset (show j * one < payload.length by omega) small
  have length : (slice payload one j).length = one := by
    rw [length_slice]
    omega
  rw [piece] at offset
  simp only [paddedPiece] at offset ⊢
  rw [offset]
  split
  · rename_i less
    have byte := @copyInto_inside data (j * one) x (slice payload one j ++ otherPad payload one j size) ?_
    · rw [List.getElem?_append_right (by omega), otherPad, List.getElem?_map,
        List.getElem?_range (by rw [Nat.succ_mul] at less; omega), Option.map_some,
        Option.some.injEq] at byte
      rw [otherPad, ← byte]
      congr 1
      rw [Nat.succ_mul, length]
      omega
    · simp only [Has, length_append, length, otherPad, length_map, length_range]
      rw [Nat.succ_mul] at less
      omega
  · rename_i more
    refine copyInto_outside ?_
    simp only [Has, length_append, length, otherPad, length_map, length_range]
    rw [Nat.succ_mul] at more
    omega

theorem keepsCall_before (inside : j * one < payload.length) (before : x < j * one) :
    KeepsCall payload (Wrong payload x) (Wrong payload x) (paddedPiece payload one j pad) := by
  intro c c' out wrong combines
  rcases combineIp_cases combines with ⟨rfl, rfl⟩ | ⟨data, _, delivered⟩
  · exact ⟨wrong, fun bytes same => by cases same⟩
  · have later : Wrong payload x c' := by
      rw [Wrong, data, copy_before small inside before]
      exact wrong
    refine ⟨later, ?_⟩
    intro bytes same
    rw [(delivered bytes same).2]
    exact later.not_delivered (by omega) _

theorem wrong_behind {offset : UInt32} {data : List UInt8}
    (inside : (j + 1) * one < payload.length) (behind : (j + 1) * one ≤ x) (wrong : Wrong payload x c)
    (copied : c'.data = copyInto c.data offset.toNat data)
    (frame : paddedPiece payload one j (otherPad payload one j size) = ⟨offset, data, last⟩) :
    Wrong payload x c' := by
  have copy := @copy_behind payload one j x size small inside behind c.data
  rw [frame] at copy
  simp only at copy
  rw [Wrong, copied, copy]
  split
  · exact other_ne
  · exact wrong

end

def WrongPair (payload : List UInt8) (one i : Nat) (c : IpCombine) : Prop :=
  Wrong payload (i * one) c ∨ Wrong payload ((i + 1) * one) c

theorem WrongPair.not_delivered (wrong : WrongPair payload one i c)
    (less : (i + 1) * one < payload.length) (size : Nat) : (List.range size).map c.data ≠ payload := by
  rw [Nat.succ_mul] at less
  rcases wrong with first | second
  · exact first.not_delivered (by omega) size
  · exact second.not_delivered (by rw [Nat.succ_mul]; exact less) size

theorem keepsCall_at (small : payload.length ≤ 65535) (inside : (i + 1) * one < payload.length)
    (some' : 0 < size) : KeepsCall payload (Wrong payload (i * one)) (WrongPair payload one i)
      (paddedPiece payload one i (otherPad payload one i size)) := by
  intro c c' out wrong combines
  rcases combineIp_cases combines with ⟨rfl, rfl⟩ | ⟨data, _, delivered⟩
  · exact ⟨.inl wrong, fun bytes same => by cases same⟩
  · have later : WrongPair payload one i c' := by
      right
      rw [Wrong, data, copy_behind small inside (Nat.le_refl _), if_pos (by omega)]
      exact other_ne
    refine ⟨later, ?_⟩
    intro bytes same
    rw [(delivered bytes same).2]
    exact later.not_delivered inside _

theorem keepsCall_pair (small : payload.length ≤ 65535) (inside : (i + 1) * one < payload.length)
    (before : j < i) : KeepsCall payload (WrongPair payload one i) (WrongPair payload one i)
      (paddedPiece payload one j (otherPad payload one j size)) := by
  have ends : (j + 1) * one ≤ i * one := Nat.mul_le_mul_right one before
  have next : i * one ≤ (i + 1) * one := Nat.mul_le_mul_right one (Nat.le_succ i)
  intro c c' out wrong combines
  rcases combineIp_cases combines with ⟨rfl, rfl⟩ | ⟨data, _, delivered⟩
  · exact ⟨wrong, fun bytes same => by cases same⟩
  · have later : WrongPair payload one i c' := by
      rcases wrong with first | second
      · exact .inl (wrong_behind small (by omega) ends first data rfl)
      · exact .inr (wrong_behind small (by omega) (by omega) second data rfl)
    refine ⟨later, ?_⟩
    intro bytes same
    rw [(delivered bytes same).2]
    exact later.not_delivered inside _

structure Fragmented (header : Header) (protocol : UInt8) (payload : List UInt8) (one : Nat) : Prop where
  upper : Upper protocol
  version : header.versionAndTrafficClass1 = 0x60
  positive : 0 < one
  aligned : one / 8 * 8 = one
  small : payload.length ≤ 65535
  several : one < payload.length

section

variable (sent : Fragmented header protocol payload one)
include sent

theorem Fragmented.keeps
    (inside : j * one < payload.length) (keeps : KeepsCall payload B B' (paddedPiece payload one j pad))
    (same : ∀ c, B c → B' c) (new : B (newIpCombine memory)) :
    Keeps memory payload B B' (packetAt header protocol id payload one j ++ pad) := by
  intro p p' ds before receives
  rw [receiveFrame_packetAt sent.upper sent.version sent.small sent.positive sent.aligned sent.several
    inside] at receives
  exact keeps.frame same new before receives

theorem Fragmented.last_padded {order : List Nat}
    {pads : Nat → List UInt8} (inside : ∀ j ∈ order, j * one < payload.length)
    (few : ∀ j ∈ order, (pads j).length ≤ 1500) (behind : ∀ j ∈ order, payload.length ≤ (j + 1) * one → pads j ≠ [])
    (receives : receiveFrames memory Receiver.idle
      (order.map fun j => packetAt header protocol id payload one j ++ pads j) = some (p', ds)) :
    ∀ d ∈ ds, d.data ≠ payload := by
  have several := sent.several
  have small := sent.small
  have each : ∀ frame ∈ order.map fun j => packetAt header protocol id payload one j ++ pads j,
      Keeps memory payload (Longer payload) (Longer payload) frame := by
    intro frame member
    obtain ⟨j, listed, rfl⟩ := mem_map.mp member
    exact sent.keeps (inside j listed) (keepsCall_longer sent.positive sent.small (by omega)
      (inside j listed) (few j listed) (behind j listed)) (fun _ longer => longer) (.inl rfl)
  exact (receiveFrames_keeps each (fun e member => by cases member) receives).2

variable {padding : Nat → Nat}

theorem Fragmented.middle_padded
    (inside : (i + 1) * one < payload.length) (some' : 0 < padding i) {high low : List Nat}
    (above : ∀ j ∈ high, i < j ∧ j * one < payload.length) (below : ∀ j ∈ low, j < i)
    (receives : receiveFrames (other payload) Receiver.idle ((high ++ i :: low).map fun j =>
      packetAt header protocol id payload one j ++ otherPad payload one j (padding j)) =
        some (p', ds)) : ∀ d ∈ ds, d.data ≠ payload := by
  have new : ∀ x, Wrong payload x (newIpCombine (other payload)) := fun x => other_ne
  have here : i * one < payload.length := by
    rw [Nat.succ_mul] at inside
    omega
  have first : ∀ frame ∈ high.map fun j => packetAt header protocol id payload one j ++
      otherPad payload one j (padding j),
        Keeps (other payload) payload (Wrong payload (i * one)) (Wrong payload (i * one)) frame := by
    intro frame member
    obtain ⟨j, listed, rfl⟩ := mem_map.mp member
    obtain ⟨later, less⟩ := above j listed
    have before : i * one < j * one := Nat.mul_lt_mul_of_pos_right later sent.positive
    exact sent.keeps less (keepsCall_before sent.small less before) (fun _ wrong => wrong) (new _)
  have second := @Fragmented.keeps payload (otherPad payload one i (padding i)) one i (other payload)
    header protocol id _ _ sent here (keepsCall_at sent.small inside some')
    (fun _ wrong => .inl wrong) (new _)
  have third : ∀ frame ∈ low.map fun j => packetAt header protocol id payload one j ++
      otherPad payload one j (padding j),
        Keeps (other payload) payload (WrongPair payload one i) (WrongPair payload one i) frame := by
    intro frame member
    obtain ⟨j, listed, rfl⟩ := mem_map.mp member
    have before : j * one ≤ i * one := Nat.mul_le_mul_right one (Nat.le_of_lt (below j listed))
    exact sent.keeps (by omega) (keepsCall_pair sent.small inside (below j listed))
      (fun _ wrong => wrong) (.inl (new _))
  rw [map_append, receiveFrames_append] at receives
  cases highs : receiveFrames (other payload) Receiver.idle (high.map fun j =>
      packetAt header protocol id payload one j ++ otherPad payload one j (padding j)) with
  | none => simp [highs] at receives
  | some run =>
    obtain ⟨q, out⟩ := run
    obtain ⟨kept, wrong⟩ := receiveFrames_keeps first (fun e member => by cases member) highs
    rw [highs] at receives
    dsimp only at receives
    rw [map_cons, receiveFrames] at receives
    cases frame : receiveFrame (other payload) q (packetAt header protocol id payload one i ++
        otherPad payload one i (padding i)) with
    | none => simp [frame] at receives
    | some step =>
      obtain ⟨q', out'⟩ := step
      obtain ⟨kept', wrong'⟩ := second q q' out' kept frame
      cases lows : receiveFrames (other payload) q' (low.map fun j =>
          packetAt header protocol id payload one j ++ otherPad payload one j (padding j)) with
      | none => simp [frame, lows] at receives
      | some last =>
        obtain ⟨q'', out''⟩ := last
        obtain ⟨_, wrong''⟩ := receiveFrames_keeps third kept' lows
        simp only [frame, lows, Option.some.injEq, Prod.mk.injEq] at receives
        obtain ⟨_, rfl⟩ := receives
        intro d member
        simp only [mem_append] at member
        rcases member with early | middle | late
        · exact wrong d early
        · exact wrong' d middle
        · exact wrong'' d late

end

/-- In every order of the frames, each with so many bytes behind its packet, an idle receiver gets
the datagram and nothing else. -/
def RoundTrips (packets : List (List UInt8)) (padding : Nat → Nat) (destIp srcIp : Addr)
    (protocol : UInt8) (data : List UInt8) : Prop :=
  ∀ (order : List Nat) (pads : Nat → List UInt8) (memory : Nat → UInt8),
    order.Perm (List.range packets.length) →
      (∀ i < packets.length, (pads i).length = padding i) →
        ∃ p d, receiveFrames memory Receiver.idle
            (order.map fun i => packets.getD i [] ++ pads i) = some (p, [d]) ∧
          d.srcIp = srcIp ∧ d.destIp = destIp ∧ d.protocol = protocol ∧ d.data = data

theorem roundTrips_plain {destIp srcIp : Addr} {hopLimit : UInt8} (upper : Upper protocol) (some' : payload ≠ []) :
    RoundTrips [plainPacket (sendHeader destIp srcIp hopLimit) protocol payload] padding destIp srcIp
      protocol payload ↔ padding 0 = 0 := by
  have frame : ∀ (memory : Nat → UInt8) (pad : List UInt8), receiveFrames memory Receiver.idle
      [plainPacket (sendHeader destIp srcIp hopLimit) protocol payload ++ pad] = some (Receiver.idle,
        [wholeDatagram (sendHeader destIp srcIp hopLimit) protocol 0 (payload ++ pad)]) := by
    intro memory pad
    rw [receiveFrames, receiveFrame_plain upper rfl some']
    rfl
  constructor
  · intro trips
    obtain ⟨p, d, receives, _, _, _, same⟩ := trips [0] (fun i => List.replicate (padding i) 0)
      (fun _ => 0) (List.Perm.refl _) fun i _ => length_replicate ..
    rw [map_singleton, getD_cons_zero, frame] at receives
    cases receives
    simpa [wholeDatagram] using same
  · intro none order pads memory perm lengths
    have empty : pads 0 = [] := eq_nil_of_length_eq_zero ((lengths 0 (by simp)).trans none)
    rw [perm_singleton.mp (show order.Perm [0] from perm), map_singleton, getD_cons_zero, frame, empty, append_nil]
    exact ⟨_, _, rfl, rfl, rfl, rfl, rfl⟩

theorem range_split {m : Nat} (less : i < m) :
    (List.range' (i + 1) (m - (i + 1)) ++ i :: List.range i).Perm (List.range m) := by
  have whole : List.range m = List.range i ++ i :: List.range' (i + 1) (m - (i + 1)) := by
    rw [range_eq_range', range_eq_range', ← List.range'_succ,
      show m - (i + 1) + 1 = m - i by omega]
    have joined := @List.range'_append_1 0 i (m - i)
    rw [Nat.zero_add, Nat.add_sub_cancel' (Nat.le_of_lt less)] at joined
    exact joined.symm
  rw [whole]
  exact perm_append_comm.trans (by
    rw [cons_append]
    exact perm_middle.symm)

theorem roundTrips_fragments {destIp srcIp : Addr} {hopLimit : UInt8}
    (sent : Fragmented (sendHeader destIp srcIp hopLimit) protocol payload one) (few : ∀ i, padding i ≤ 1500) :
    RoundTrips ((List.range (pieceCount payload.length one)).map
        (packetAt (sendHeader destIp srcIp hopLimit) protocol id payload one)) padding destIp srcIp
        protocol payload ↔ ∀ i < pieceCount payload.length one, padding i = 0 := by
  have count : ((List.range (pieceCount payload.length one)).map
      (packetAt (sendHeader destIp srcIp hopLimit) protocol id payload one)).length =
        pieceCount payload.length one := by
    rw [length_map, length_range]
  have packet : ∀ i < pieceCount payload.length one, ((List.range (pieceCount payload.length one)).map
      (packetAt (sendHeader destIp srcIp hopLimit) protocol id payload one)).getD i [] =
        packetAt (sendHeader destIp srcIp hopLimit) protocol id payload one i := by
    intro i less
    rw [getD_eq_getElem?_getD, List.getElem?_map, List.getElem?_range less]
    rfl
  have frames : ∀ {order : List Nat} (pads : Nat → List UInt8),
      order.Perm (List.range (pieceCount payload.length one)) →
        (order.map fun i => ((List.range (pieceCount payload.length one)).map
          (packetAt (sendHeader destIp srcIp hopLimit) protocol id payload one)).getD i [] ++ pads i) =
        order.map fun i => packetAt (sendHeader destIp srcIp hopLimit) protocol id payload one i ++ pads i := by
    intro order pads perm
    refine map_congr_left fun i member => ?_
    rw [packet i (mem_range.mp (perm.mem_iff.mp member))]
  have listed : ∀ {order : List Nat}, order.Perm (List.range (pieceCount payload.length one)) →
      ∀ j ∈ order, j * one < payload.length := by
    intro order perm j member
    exact (lt_pieceCount sent.positive).mp (mem_range.mp (perm.mem_iff.mp member))
  unfold RoundTrips
  rw [count]
  constructor
  · intro trips i less
    by_contra padded
    by_cases last : payload.length ≤ (i + 1) * one
    · obtain ⟨p, d, receives, _, _, _, same⟩ := trips (List.range (pieceCount payload.length one))
        (fun j => List.replicate (padding j) 0) (fun _ => 0) (List.Perm.refl _)
        fun j _ => length_replicate ..
      rw [frames _ (List.Perm.refl _)] at receives
      refine sent.last_padded (listed (List.Perm.refl _)) (fun j _ => ?_) ?_ receives d (mem_singleton.mpr rfl) same
      · rw [length_replicate]
        exact few j
      · intro j member ends
        have inside := listed (List.Perm.refl _) j member
        have inside' := (lt_pieceCount sent.positive).mp less
        have equal : j = i := by
          by_contra differs
          rcases Nat.lt_or_gt_of_ne differs with below | above
          · have ends' : (j + 1) * one ≤ i * one := Nat.mul_le_mul_right one below
            omega
          · have ends' : (i + 1) * one ≤ j * one := Nat.mul_le_mul_right one above
            omega
        rw [equal]
        simpa using padded
    · have perm := range_split less
      obtain ⟨p, d, receives, _, _, _, same⟩ := trips _
        (fun j => otherPad payload one j (padding j)) (other payload) perm
        fun j _ => by rw [otherPad, length_map, length_range]
      rw [frames _ perm] at receives
      refine sent.middle_padded (by omega) (by omega) ?_ (fun j member => mem_range.mp member)
        receives d (mem_singleton.mpr rfl) same
      intro j member
      obtain ⟨above, _⟩ := mem_range'_1.mp member
      exact ⟨above, listed perm j (mem_append_left _ member)⟩
  · intro none order pads memory perm lengths
    have empty : ∀ i ∈ order, packetAt (sendHeader destIp srcIp hopLimit) protocol id payload one i ++
        pads i = packetAt (sendHeader destIp srcIp hopLimit) protocol id payload one i := by
      intro i member
      have less := mem_range.mp (perm.mem_iff.mp member)
      rw [eq_nil_of_length_eq_zero ((lengths i less).trans (none i less)), append_nil]
    obtain ⟨p, receives⟩ := @receiveFrames_fragments payload one (sendHeader destIp srcIp hopLimit)
      protocol id memory sent.upper sent.version sent.positive sent.aligned sent.small sent.several
      order perm
    rw [frames pads perm, map_congr_left empty, receives]
    exact ⟨p, _, rfl, rfl, rfl, rfl, rfl⟩

/-- The packets for a datagram are not larger than the MTU, and the datagram comes back in every
order of the frames exactly when there is nothing behind the packets. -/
theorem se6_round_trip (id : UInt32) (mtu : Nat) (destIp srcIp : Addr) (protocol hopLimit : UInt8)
    (data : List UInt8) (upper : Upper protocol) (some' : data ≠ []) (small : data.length ≤ 65535) :
    ∃ packets, se6SendIp id mtu destIp srcIp protocol hopLimit data = some packets ∧
      (∀ packet ∈ packets, packet.length ≤ max mtu 1280) ∧
      ∀ padding : Nat → Nat, (∀ i, padding i ≤ 1500) →
        (RoundTrips packets padding destIp srcIp protocol data ↔
          ∀ i < packets.length, padding i = 0) := by
  obtain ⟨least, room⟩ := @onePayloadSize_bounds mtu
  refine ⟨_, se6SendIp_eq upper small, ?_⟩
  by_cases whole : 40 + data.length ≤ max mtuMin mtu
  · rw [if_pos whole]
    refine ⟨?_, ?_⟩
    · intro packet member
      rw [mem_singleton.mp member, plainPacket, length_append, length_header_bytes, Nat.max_comm]
      exact whole
    · intro padding _
      rw [roundTrips_plain upper some']
      simp
  · rw [if_neg whole]
    refine ⟨?_, ?_⟩
    · intro packet member
      obtain ⟨j, _, rfl⟩ := mem_map.mp member
      rw [packetAt, fragmentPacket, length_append, length_append, length_header_bytes,
        length_fragment_bytes, length_slice, Nat.max_comm]
      rw [mtuMin] at room
      omega
    · intro padding few
      have aligned : onePayloadSize mtu / 8 * 8 = onePayloadSize mtu := by
        unfold onePayloadSize
        omega
      rw [roundTrips_fragments ⟨upper, rfl, by omega, aligned, small, by omega⟩ few]
      simp

theorem upper_udp : Upper 17 := by
  unfold Upper
  decide

theorem se6_round_trip_udp : ∃ packets,
    se6SendIp 1 1500 (fun _ => 1) (fun _ => 2) 17 0 (List.replicate 3000 7) = some packets ∧
      RoundTrips packets (fun _ => 0) (fun _ => 1) (fun _ => 2) 17 (List.replicate 3000 7) := by
  obtain ⟨packets, sends, _, trips⟩ := se6_round_trip 1 1500 (fun _ => 1) (fun _ => 2) 17 0
    (List.replicate 3000 7) upper_udp (fun empty => by cases empty)
    (by rw [length_replicate]; omega)
  exact ⟨packets, sends, (trips (fun _ => 0) fun _ => Nat.zero_le _).mpr fun _ _ => rfl⟩

/-- A datagram of one byte, whose frame is filled up to sixty bytes. -/
theorem padding_delivered : ∃ packets,
    se6SendIp 1 1500 (fun _ => 1) (fun _ => 2) 17 0 [7] = some packets ∧
      ¬RoundTrips packets (fun _ => 5) (fun _ => 1) (fun _ => 2) 17 [7] := by
  refine ⟨_, se6SendIp_eq upper_udp (by decide), ?_⟩
  rw [if_pos (by decide), roundTrips_plain upper_udp (by decide)]
  decide

end DisasVisor.Vpn.Ip6
