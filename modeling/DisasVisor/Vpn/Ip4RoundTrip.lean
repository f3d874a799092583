import DisasVisor.Vpn.Ip4Wire
import DisasVisor.Vpn.Ip6RoundTrip

/-!
The fragments of an IPv4 datagram come together again, in every order of the packets, exactly when
there is only one or the bytes of a packet are a multiple of eight.
-/

namespace DisasVisor.Vpn.Ip4

open Intervals Reassembly
open Ip6 (slice pieceCount Collected)

variable {payload : List UInt8} {mss i j k x : Nat} {c c' : IpCombine} {destIp srcIp : Addr} {id : UInt16}
  {protocol ttl : UInt8} {memory : Nat → UInt8} {tick : UInt64} {isBroadcast : Bool} {p p' : Receiver}
  {key : Key} {buf : List UInt8} {ds : List Datagram}

def receivePackets (memory : Nat → UInt8) (tick : UInt64) (isBroadcast : Bool) :
    Receiver → List (List UInt8) → Option (Receiver × List Datagram)
  | p, [] => some (p, [])
  | p, buf :: bufs =>
    match receivePacket memory tick p buf isBroadcast with
    | none => none
    | some (p, out) =>
      match receivePackets memory tick isBroadcast p bufs with
      | none => none
      | some (p, later) => some (p, out ++ later)

theorem receivePackets_concat {bufs : List (List UInt8)} : ∀ {p},
    receivePackets memory tick isBroadcast p bufs = some (p', []) →
      receivePackets memory tick isBroadcast p (bufs ++ [buf]) = receivePacket memory tick p' buf isBroadcast := by
  induction bufs with
  | nil =>
    intro p receives
    cases receives
    rw [List.nil_append, receivePackets]
    cases single : receivePacket memory tick p' buf isBroadcast with
    | none => rfl
    | some result => simp [receivePackets]
  | cons first bufs ih =>
    intro p receives
    rw [List.cons_append]
    unfold receivePackets at receives ⊢
    cases step : receivePacket memory tick p first isBroadcast with
    | none => simp [step] at receives
    | some result =>
      obtain ⟨q, out⟩ := result
      cases rest : receivePackets memory tick isBroadcast q bufs with
      | none => simp [step, rest] at receives
      | some run =>
        obtain ⟨q', later⟩ := run
        simp only [step, rest, Option.some.injEq, Prod.mk.injEq, List.append_eq_nil_iff] at receives
        obtain ⟨rfl, rfl, rfl⟩ := receives
        simp only [ih rest, List.nil_append]
        cases receivePacket memory tick q' buf isBroadcast <;> rfl

structure Delivers (key : Key) (out : List UInt8) (d : Datagram) : Prop where
  destIp : d.destIp = key.1
  srcIp : d.srcIp = key.2.1
  id : d.id = key.2.2.1
  protocol : d.protocol = key.2.2.2
  data : d.data = out

def GoesTo (memory : Nat → UInt8) (tick : UInt64) (isBroadcast : Bool) (p : Receiver) (key : Key)
    (c : IpCombine) : Prop :=
  ∀ buf, accepted buf → fragmented buf → keyOf buf = key → ∃ q e, e.key = key ∧ e.combine = c ∧
    receivePacket memory tick p buf isBroadcast = se4CombineEntry tick q [] e [] (receivedOf buf).offset
      (receivedOf buf).data (receivedOf buf).last

theorem goesTo_idle : GoesTo memory tick isBroadcast Receiver.idle key (newIpCombine memory) := by
  intro buf accepts parts same
  rw [receivePacket_fragment accepts parts]
  refine ⟨⟨[], seIpCombineInitialBufSize, 1⟩, ⟨(readHeader buf).dstIP, (readHeader buf).srcIP,
    (readHeader buf).identification, tick + seIpv4CombineTimeout, (readHeader buf).protocol,
    (readHeader buf).timeToLive, isBroadcast, 0, newIpCombine memory⟩, same, rfl, ?_⟩
  have room : ¬Receiver.idle.currentIpQuota + seIpCombineInitialBufSize > seIpv4CombineQueueSizeQuota := by decide
  rw [show Receiver.idle.ipCombineList = [] from rfl, Searches.locate]
  dsimp only
  unfold se4InsertIpCombine
  rw [if_neg room]
  rfl

theorem goesTo_entry {e : Combine} (only : p.ipCombineList = [e]) (same : e.key = key)
    (object : e.combine = c) : GoesTo memory tick isBroadcast p key c := by
  intro buf accepts parts isKey
  rw [receivePacket_fragment accepts parts]
  refine ⟨p, e, same, object, ?_⟩
  rw [only, Searches.locate, if_pos (by
    unfold Combine.isFor
    rw [isKey, same]
    exact decide_eq_true rfl)]

section

variable (goes : GoesTo memory tick isBroadcast p key c) (accepts : accepted buf) (parts : fragmented buf)
  (same : keyOf buf = key)
include goes accepts parts same

theorem GoesTo.waits
    (combines : se4CombineIp c (receivedOf buf).offset (receivedOf buf).data (receivedOf buf).last = some (c', none)) :
    ∃ p', receivePacket memory tick p buf isBroadcast = some (p', []) ∧ GoesTo memory tick isBroadcast p' key c' := by
  obtain ⟨q, e, isKey, rfl, receives⟩ := goes buf accepts parts same
  rw [receives]
  unfold se4CombineEntry
  rw [combines]
  refine ⟨_, rfl, ?_⟩
  apply goesTo_entry
  · rfl
  · exact isKey
  · rfl

theorem GoesTo.delivers {out : List UInt8} (some' : out ≠ [])
    (combines : se4CombineIp c (receivedOf buf).offset (receivedOf buf).data (receivedOf buf).last =
      some (c', some out)) :
    ∃ p' d, receivePacket memory tick p buf isBroadcast = some (p', [d]) ∧ Delivers key out d := by
  obtain ⟨q, e, rfl, rfl, receives⟩ := goes buf accepts parts same
  rw [receives]
  unfold se4CombineEntry se4RecvIpComplete
  rw [combines]
  simp only [if_neg some']
  exact ⟨_, _, rfl, rfl, rfl, rfl, rfl, rfl⟩

end

def ragged (payload : List UInt8) (mss j : Nat) : Received where
  offset := UInt32.ofNat (j * mss / 8 * 8)
  data := slice payload mss j
  last := payload.length ≤ (j + 1) * mss

def sentKey (destIp srcIp : Addr) (id : UInt16) (protocol : UInt8) : Key := (destIp, srcIp, id, protocol)

theorem packetAt_received (positive : 8 ≤ mss) (narrow : mss ≤ 1480) (several : mss < payload.length)
    (small : payload.length ≤ 65535) (inside : j * mss < payload.length) :
    accepted (packetAt destIp srcIp id protocol ttl payload mss j) ∧
      fragmented (packetAt destIp srcIp id protocol ttl payload mss j) ∧
      keyOf (packetAt destIp srcIp id protocol ttl payload mss j) = sentKey destIp srcIp id protocol ∧
      receivedOf (packetAt destIp srcIp id protocol ttl payload mss j) = ragged payload mss j := by
  have length := @Ip6.length_slice payload mss j
  have some' : slice payload mss j ≠ [] := by
    rw [← List.length_pos_iff, length]
    omega
  have carries := @packetOf_carries destIp srcIp id protocol ttl (j * mss) (slice payload mss j)
    (decide ((j + 1) * mss < payload.length)) some' (by omega) (by omega)
  refine ⟨carries.accepts, ?_, ?_, ?_⟩
  · unfold packetAt
    rw [carries.parts]
    rintro ⟨first, isLast⟩
    rw [decide_eq_false_iff_not] at isLast
    cases j with
    | zero => omega
    | succ j =>
      have least : 1 * mss ≤ (j + 1) * mss := Nat.mul_le_mul_right mss (by omega)
      omega
  · unfold keyOf packetAt
    rw [carries.src, carries.dest, carries.identification, carries.protocol, sentKey]
  · unfold packetAt
    rw [carries.received, ragged]
    congr 1
    rw [← decide_not]
    exact decide_eq_decide.mpr (by omega)

theorem ragged_aligned (aligned : 8 ∣ mss) : ragged payload mss j = Ip6.piece payload mss j := by
  have multiple : j * mss / 8 * 8 = j * mss := Nat.div_mul_cancel (aligned.mul_left j)
  rw [ragged, multiple, Ip6.piece, Ip6.paddedPiece, List.append_nil]

theorem receivePackets_rest (aligned : 8 ∣ mss) (positive : 8 ≤ mss) (narrow : mss ≤ 1480)
    (small : payload.length ≤ 65535) (several : mss < payload.length) (rest : List Nat) :
    ∀ {taken c p}, Collected payload mss taken c →
      GoesTo memory tick isBroadcast p (sentKey destIp srcIp id protocol) c →
        rest.Nodup → (∀ j ∈ rest, j ∉ taken ∧ j * mss < payload.length) → rest ≠ [] →
          (∀ j, j * mss < payload.length → j ∈ taken ∨ j ∈ rest) →
            ∃ p' d, receivePackets memory tick isBroadcast p
              (rest.map (packetAt destIp srcIp id protocol ttl payload mss)) = some (p', [d]) ∧
              Delivers (sentKey destIp srcIp id protocol) payload d := by
  have some' : payload ≠ [] := by
    rw [← List.length_pos_iff]
    omega
  induction rest with
  | nil =>
    intro taken c p _ _ _ _ more
    exact absurd rfl more
  | cons j rest ih =>
    intro taken c p collected goes distinct fresh _ all
    obtain ⟨new, inside⟩ := fresh j List.mem_cons_self
    obtain ⟨notLater, distinct⟩ := List.nodup_cons.mp distinct
    obtain ⟨accepts, parts, isKey, received⟩ := @packetAt_received payload mss j destIp srcIp id
      protocol ttl positive narrow several small inside
    obtain ⟨c', combines, later⟩ := collected.step (by omega) small inside new
    rw [← ragged_aligned aligned, ← received] at combines
    rw [List.map_cons]
    unfold receivePackets
    by_cases complete : ∀ k, k * mss < payload.length → k ∈ j :: taken
    · have last : rest = [] := by
        by_contra more
        obtain ⟨k, member⟩ := List.exists_mem_of_ne_nil rest more
        have later := fresh k (List.mem_cons_of_mem _ member)
        rcases List.mem_cons.mp (complete k later.2) with rfl | old
        · exact notLater member
        · exact later.1 old
      rw [later.complete (by omega) small some' complete] at combines
      obtain ⟨p', d, receives, delivers⟩ := goes.delivers accepts parts isKey some' combines
      rw [receives, last]
      exact ⟨p', d, rfl, delivers⟩
    · obtain ⟨k, lacks⟩ := not_forall.mp complete
      obtain ⟨less, missing⟩ := Classical.not_imp.mp lacks
      rw [later.incomplete (by omega) small less missing] at combines
      obtain ⟨p', receives, goes'⟩ := goes.waits accepts parts isKey combines
      have others : k ∈ rest := by
        rcases all k less with old | listed
        · exact absurd (List.mem_cons_of_mem _ old) missing
        · rcases List.mem_cons.mp listed with rfl | behind
          · exact absurd List.mem_cons_self missing
          · exact behind
      obtain ⟨p'', d, delivered, delivers⟩ := ih later goes' distinct (by
        intro k member
        obtain ⟨old, less⟩ := fresh k (List.mem_cons_of_mem _ member)
        refine ⟨?_, less⟩
        intro listed
        rcases List.mem_cons.mp listed with rfl | before
        · exact notLater member
        · exact old before) (List.ne_nil_of_mem others) (by
        intro k less
        rcases all k less with old | listed
        · exact .inl (List.mem_cons_of_mem _ old)
        · rcases List.mem_cons.mp listed with rfl | later
          · exact .inl List.mem_cons_self
          · exact .inr later)
      rw [receives]
      simp only [delivered]
      exact ⟨p'', d, rfl, delivers⟩

/-!
When the bytes of a packet are not a multiple of eight, the packets of a datagram do not come together
in the order in which they were sent: either the last one ends too early, or there is a gap before it.
-/

theorem toNat_ragged_offset (inside : j * mss < payload.length) (small : payload.length ≤ 65535) :
    (ragged payload mss j).offset.toNat = j * mss / 8 * 8 := by
  rw [ragged, UInt32.toNat_ofNat']
  omega

theorem stop_ragged (inside : j * mss < payload.length) (small : payload.length ≤ 65535) :
    (ragged payload mss j).stop = j * mss / 8 * 8 + min mss (payload.length - j * mss) := by
  rw [Received.stop, toNat_ragged_offset inside small, ragged, Ip6.length_slice]

theorem ragged_fits (positive : 0 < mss) (inside : j * mss < payload.length)
    (small : payload.length ≤ 65535) : (ragged payload mss j).Fits := by
  refine ⟨?_, ?_⟩
  · rw [← List.length_pos_iff, ragged, Ip6.length_slice]
    omega
  · rw [stop_ragged inside small]
    omega

theorem ragged_last : (ragged payload mss j).last = true ↔ payload.length ≤ (j + 1) * mss := by
  simp [ragged]

def firstPieces (payload : List UInt8) (mss k : Nat) : List Received := (List.range k).reverse.map (ragged payload mss)

theorem firstPieces_succ : firstPieces payload mss (k + 1) = ragged payload mss k :: firstPieces payload mss k := by
  rw [firstPieces, List.range_succ, List.reverse_append]
  rfl

theorem covered_firstPieces (inside : k * mss < payload.length) (small : payload.length ≤ 65535)
    (covers : Covers (covered (firstPieces payload mss k)) x) :
    ∃ i < k, i * mss / 8 * 8 ≤ x ∧ x < i * mss / 8 * 8 + mss := by
  obtain ⟨range, member, has⟩ := covers
  simp only [covered, firstPieces, List.map_map, List.mem_map, List.mem_reverse, List.mem_range] at member
  obtain ⟨i, less, rfl⟩ := member
  have before : i * mss ≤ k * mss := Nat.mul_le_mul_right mss (Nat.le_of_lt less)
  simp only [Has, Function.comp, Received.range] at has
  rw [toNat_ragged_offset (by omega) small, ragged, Ip6.length_slice] at has
  exact ⟨i, less, by omega, by omega⟩

theorem tailKept_of_below {fs : List IpFragment} {offset stop bound : Nat}
    (below : ∀ x, Covers (ranges fs) x → x < bound) (behind : bound < stop) : TailKept fs offset stop := by
  intro before f after split low high
  have last := below (f.offset.toNat + f.size.toNat - 1) ⟨f.range, by
    rw [split, ranges, List.map_append, List.map_cons]
    exact List.mem_append_right _ List.mem_cons_self, by
    simp only [Has, IpFragment.range]
    omega⟩
  omega

structure Lined (payload : List UInt8) (mss k : Nat) (c : IpCombine) : Prop where
  holds : c.Holds (firstPieces payload mss k)
  size : c.size = 0

section

variable (lined : Lined payload mss k c)
include lined

theorem Lined.below (inside : k * mss < payload.length)
    (small : payload.length ≤ 65535) : ∀ x, Covers (ranges c.ipFragmentList) x → x < k * mss := by
  intro x known
  rw [lined.holds.same] at known
  obtain ⟨i, less, _, high⟩ := covered_firstPieces inside small known
  have next : (i + 1) * mss ≤ k * mss := Nat.mul_le_mul_right mss less
  rw [Nat.succ_mul] at next
  omega

theorem Lined.takes (r : Received) : c.Takes r := fun _ sized => absurd lined.size sized

theorem Lined.step (eight : 8 ≤ mss) (more : (k + 1) * mss < payload.length) (small : payload.length ≤ 65535) :
    ∃ c', se4CombineIp c (ragged payload mss k).offset (ragged payload mss k).data
      (ragged payload mss k).last = some (c', none) ∧ Lined payload mss (k + 1) c' := by
  have inside : k * mss < payload.length := by
    rw [Nat.succ_mul] at more
    omega
  have notLast : ¬(ragged payload mss k).last = true := by
    rw [ragged_last]
    omega
  have behind : k * mss < (ragged payload mss k).stop := by
    rw [stop_ragged inside small]
    rw [Nat.succ_mul] at more
    omega
  have regular : Regular c (ragged payload mss k) :=
    ⟨tailKept_of_below (lined.below inside small) behind, fun last => absurd last notLast⟩
  obtain ⟨c', combines, holds, size⟩ := combineIp_takes lined.holds (ragged_fits (by omega) inside small)
    (lined.takes _) regular
  rw [if_neg notLast, lined.size] at size
  have nothing : c'.delivery = none := if_neg fun ⟨sized, _⟩ => sized size
  rw [nothing] at combines
  refine ⟨c', combines, ?_, size⟩
  rw [firstPieces_succ]
  exact holds

theorem Lined.last (eight : 8 ≤ mss) (unaligned : ¬8 ∣ mss)
    (second : 0 < k) (inside : k * mss < payload.length) (final : payload.length ≤ (k + 1) * mss)
    (small : payload.length ≤ 65535) {out : Option (List UInt8)}
    (combines : se4CombineIp c (ragged payload mss k).offset (ragged payload mss k).data
      (ragged payload mss k).last = some (c', out)) : out ≠ some payload := by
  have isLast := (@ragged_last payload mss k).mpr final
  have fits := ragged_fits (by omega) inside small
  have stop := stop_ragged inside small
  have rest : payload.length - k * mss ≤ mss := by
    rw [Nat.succ_mul] at final
    omega
  rintro rfl
  by_cases whole : k * mss % 8 = 0
  · -- the gap is before the last piece
    obtain ⟨l, rfl⟩ : ∃ l, k = l + 1 := ⟨k - 1, by omega⟩
    have behind : (l + 1) * mss < (ragged payload mss (l + 1)).stop := by omega
    have below := lined.below inside small
    have regular : Regular c (ragged payload mss (l + 1)) := by
      refine ⟨tailKept_of_below below behind, ?_⟩
      intro _ x known
      have less := below x known
      omega
    obtain ⟨c'', combines', holds, size⟩ := combineIp_takes lined.holds fits (lined.takes _) regular
    rw [if_pos isLast] at size
    have same := combines.symm.trans combines'
    simp only [Option.some.injEq, Prod.mk.injEq] at same
    obtain ⟨rfl, delivered⟩ := same
    have length : c'.size.toNat = payload.length := by
      rw [size, fits.toNat_stop]
      omega
    unfold IpCombine.delivery at delivered
    by_cases complete : c'.size ≠ 0 ∧ totalSize c'.ipFragmentList = c'.size
    · have total : total (ranges c'.ipFragmentList) = c'.size.toNat := by rw [← holds.toNat_totalSize, complete.2]
      have odd : l * mss % 8 ≠ 0 := by
        intro zero
        rw [Nat.succ_mul] at whole
        omega
      have covers := covers_of_total holds.apart (holds.within complete.1) total ((l + 1) * mss - 1) (by omega)
      rw [holds.same, covered_cons] at covers
      rcases covers with here | before
      · simp only [Has, Received.range] at here
        rw [toNat_ragged_offset inside small, Nat.div_mul_cancel (Nat.dvd_of_mod_eq_zero whole)] at here
        have some' : 0 < (l + 1) * mss := Nat.mul_pos second (by omega)
        omega
      · obtain ⟨i, less, low, high⟩ := covered_firstPieces inside small before
        rw [Nat.succ_mul] at low high whole
        rcases Nat.lt_or_ge i l with earlier | latest
        · have next : (i + 1) * mss ≤ l * mss := Nat.mul_le_mul_right mss earlier
          rw [Nat.succ_mul] at next
          omega
        · obtain rfl : i = l := by omega
          omega
    · rw [if_neg complete] at delivered
      cases delivered
  · -- the last piece ends too early
    rcases Ip6.combineIp_cases combines with ⟨-, none⟩ | ⟨-, size, outs⟩
    · cases none
    · obtain ⟨-, same⟩ := outs payload rfl
      have length := congrArg List.length same
      rw [List.length_map, List.length_range, size, if_pos isLast, fits.toNat_stop] at length
      omega

end

theorem receivePackets_first (eight : 8 ≤ mss) (narrow : mss ≤ 1480) (several : mss < payload.length)
    (small : payload.length ≤ 65535) (inside : k * mss < payload.length) :
    ∃ p c, receivePackets memory tick isBroadcast Receiver.idle
        ((List.range k).map (packetAt destIp srcIp id protocol ttl payload mss)) = some (p, []) ∧
      GoesTo memory tick isBroadcast p (sentKey destIp srcIp id protocol) c ∧ Lined payload mss k c := by
  induction k with
  | zero => exact ⟨Receiver.idle, newIpCombine memory, rfl, goesTo_idle, newIpCombine_holds memory, rfl⟩
  | succ k ih =>
    have earlier : k * mss < payload.length := by
      rw [Nat.succ_mul] at inside
      omega
    obtain ⟨p, c, receives, goes, lined⟩ := ih earlier
    obtain ⟨accepts, parts, isKey, received⟩ := @packetAt_received payload mss k destIp srcIp id
      protocol ttl eight narrow several small earlier
    obtain ⟨c', combines, lined'⟩ := lined.step eight inside small
    rw [← received] at combines
    obtain ⟨p', next, goes'⟩ := goes.waits accepts parts isKey combines
    refine ⟨p', c', ?_, goes', lined'⟩
    rw [List.range_succ, List.map_append, List.map_singleton, receivePackets_concat receives, next]

theorem receivePackets_unaligned (eight : 8 ≤ mss) (narrow : mss ≤ 1480)
    (several : mss < payload.length) (small : payload.length ≤ 65535) (unaligned : ¬8 ∣ mss)
    {d : Datagram} (whole : d.data = payload) :
    receivePackets memory tick isBroadcast Receiver.idle
      ((List.range (pieceCount payload.length mss)).map
        (packetAt destIp srcIp id protocol ttl payload mss)) ≠ some (p', [d]) := by
  have count := fun j => @Ip6.lt_pieceCount mss j payload (by omega)
  obtain ⟨k, isCount⟩ : ∃ k, pieceCount payload.length mss = k + 1 := by
    have first := (count 0).mpr (by omega)
    exact ⟨pieceCount payload.length mss - 1, by omega⟩
  have inside := (count k).mp (by omega)
  have final := mt (count (k + 1)).mpr (by omega)
  have second : 0 < k := by
    have next := (count 1).mpr (by omega)
    omega
  obtain ⟨p, c, receives, goes, lined⟩ := @receivePackets_first payload mss k destIp srcIp id protocol ttl
    memory tick isBroadcast eight narrow several small inside
  obtain ⟨accepts, parts, isKey, received⟩ := @packetAt_received payload mss k destIp srcIp id
    protocol ttl eight narrow several small inside
  rw [isCount, List.range_succ, List.map_append, List.map_singleton, receivePackets_concat receives]
  intro delivered
  cases combines : se4CombineIp c (ragged payload mss k).offset (ragged payload mss k).data
      (ragged payload mss k).last with
  | none =>
    obtain ⟨q, e, -, rfl, step⟩ := goes _ accepts parts isKey
    rw [step, received] at delivered
    unfold se4CombineEntry at delivered
    rw [combines] at delivered
    cases delivered
  | some result =>
    obtain ⟨c', out⟩ := result
    have wrong := lined.last eight unaligned second inside (by omega) small combines
    rw [← received] at combines
    cases out with
    | none =>
      obtain ⟨p'', waits, -⟩ := goes.waits accepts parts isKey combines
      rw [waits] at delivered
      cases delivered
    | some out =>
      by_cases some' : out = []
      · obtain ⟨q, e, -, rfl, step⟩ := goes _ accepts parts isKey
        rw [step] at delivered
        unfold se4CombineEntry se4RecvIpComplete at delivered
        rw [combines] at delivered
        simp [some'] at delivered
      · obtain ⟨p'', d', delivers, isOut⟩ := goes.delivers accepts parts isKey some' combines
        rw [delivers] at delivered
        simp only [Option.some.injEq, Prod.mk.injEq, List.cons.injEq] at delivered
        obtain ⟨-, rfl, -⟩ := delivered
        exact wrong (congrArg some (isOut.data.symm.trans whole))

def RoundTrips (memory : Nat → UInt8) (tick : UInt64) (isBroadcast : Bool) (packets : List (List UInt8))
    (destIp srcIp : Addr) (id : UInt16) (protocol : UInt8) (data : List UInt8) : Prop :=
  ∀ order : List Nat, order.Perm (List.range packets.length) →
    ∃ p d, receivePackets memory tick isBroadcast Receiver.idle
        (order.map fun i => packets.getD i []) = some (p, [d]) ∧
      Delivers (sentKey destIp srcIp id protocol) data d

theorem roundTrips_one (some' : payload ≠ []) (narrow : mss ≤ 1480) (whole : payload.length ≤ mss) :
    RoundTrips memory tick isBroadcast [packetAt destIp srcIp id protocol ttl payload mss 0] destIp srcIp
      id protocol payload := by
  have all : slice payload mss 0 = payload := by rw [slice, Nat.zero_mul, List.drop_zero, List.take_of_length_le whole]
  have carries := @packetOf_carries destIp srcIp id protocol ttl 0 payload false some' (by omega) (by omega)
  have packet : packetAt destIp srcIp id protocol ttl payload mss 0 =
      packetOf destIp srcIp id protocol ttl 0 false payload := by
    rw [packetAt, all, Nat.zero_mul]
    congr 1
    apply decide_eq_false
    omega
  have unfragmented : ¬fragmented (packetOf destIp srcIp id protocol ttl 0 false payload) := by
    rw [carries.parts]
    exact not_not.mpr ⟨rfl, rfl⟩
  intro order perm
  rw [List.perm_singleton.mp (show order.Perm [0] from perm), List.map_singleton, List.getD_cons_zero,
    receivePackets, packet, receivePacket_complete carries.accepts unfragmented, carries.payload]
  unfold se4RecvIpComplete
  rw [if_neg some']
  exact ⟨_, _, rfl, carries.dest, carries.src, carries.identification, carries.protocol, rfl⟩

theorem roundTrips_several (eight : 8 ≤ mss) (narrow : mss ≤ 1480) (several : mss < payload.length)
    (small : payload.length ≤ 65535) :
    RoundTrips memory tick isBroadcast ((List.range (pieceCount payload.length mss)).map
      (packetAt destIp srcIp id protocol ttl payload mss)) destIp srcIp id protocol payload ↔ 8 ∣ mss := by
  have count := fun j => @Ip6.lt_pieceCount mss j payload (by omega)
  have packets : ∀ order : List Nat, order.Perm (List.range (pieceCount payload.length mss)) →
      (order.map fun i => ((List.range (pieceCount payload.length mss)).map
        (packetAt destIp srcIp id protocol ttl payload mss)).getD i []) =
      order.map (packetAt destIp srcIp id protocol ttl payload mss) := by
    intro order perm
    refine List.map_congr_left fun i member => ?_
    have less := List.mem_range.mp (perm.mem_iff.mp member)
    rw [List.getD_eq_getElem?_getD, List.getElem?_map, List.getElem?_range less]
    rfl
  unfold RoundTrips
  rw [List.length_map, List.length_range]
  constructor
  · intro trips
    by_contra unaligned
    obtain ⟨p, d, receives, delivers⟩ := trips _ (List.Perm.refl _)
    rw [packets _ (List.Perm.refl _)] at receives
    exact receivePackets_unaligned eight narrow several small unaligned delivers.data receives
  · intro aligned order perm
    have listed : ∀ j, j ∈ order ↔ j * mss < payload.length := by
      intro j
      rw [perm.mem_iff, List.mem_range, count]
    rw [packets order perm]
    exact receivePackets_rest aligned eight narrow small several order (Collected.new memory) goesTo_idle
      (perm.nodup_iff.mpr List.nodup_range)
      (fun j member => ⟨List.not_mem_nil, (listed j).mp member⟩)
      (List.ne_nil_of_mem ((listed 0).mpr (by omega))) fun j less => .inr ((listed j).mpr less)

/-- The packets of a datagram are not larger than the MTU, and the datagram comes back in every order
of them exactly when it is in one packet or the packets have a multiple of eight bytes. -/
theorem se4_round_trip (fuel mtu : Nat) (id : UInt16) (destIp srcIp : Addr) (protocol ttl : UInt8)
    (data : List UInt8) (configured : 1280 ≤ mtu ∧ mtu ≤ 1500) (some' : data ≠ [])
    (small : data.length ≤ 65535) (enough : data.length ≤ fuel) :
    ∃ packets, se4SendIp fuel mtu id destIp srcIp protocol ttl data = some packets ∧
      (∀ packet ∈ packets, packet.length ≤ mtu) ∧
      ∀ memory tick isBroadcast,
        (RoundTrips memory tick isBroadcast packets destIp srcIp id protocol data ↔
          data.length ≤ mtu - 20 ∨ 8 ∣ mtu - 20) := by
  obtain ⟨least, most⟩ := configured
  have positive := List.length_pos_of_ne_nil some'
  refine ⟨_, se4SendIp_eq (by omega) (by omega) some' small fuel enough, ?_, ?_⟩
  · intro packet member
    obtain ⟨j, -, rfl⟩ := List.mem_map.mp member
    rw [packetAt, length_packetOf, Ip6.length_slice]
    omega
  · intro memory tick isBroadcast
    by_cases whole : data.length ≤ mtu - 20
    · have single : pieceCount data.length (mtu - 20) = 1 := by
        have first := (@Ip6.lt_pieceCount (mtu - 20) 0 data (by omega)).mpr (by omega)
        have second := mt (@Ip6.lt_pieceCount (mtu - 20) 1 data (by omega)).mp (by omega)
        omega
      rw [single, List.range_one, List.map_singleton]
      exact iff_of_true (roundTrips_one some' (by omega) whole) (.inl whole)
    · rw [roundTrips_several (by omega) (by omega) (by omega) small]
      exact (or_iff_right whole).symm

theorem se4_round_trip_small : ∃ packets,
    se4SendIp 1 1400 1 (fun _ => 1) (fun _ => 2) 17 0 [7] = some packets ∧
      RoundTrips (fun _ => 0) 0 false packets (fun _ => 1) (fun _ => 2) 1 17 [7] := by
  obtain ⟨packets, sends, -, trips⟩ := se4_round_trip 1 1400 1 (fun _ => 1) (fun _ => 2) 17 0 [7]
    (by omega) (by simp) (by simp) (by simp)
  exact ⟨packets, sends, (trips _ _ _).mpr (.inl (by simp))⟩

/-- With the MTU that the VPN has by default, the packets of 2000 bytes do not come together. -/
theorem default_mtu_lost : ∃ packets,
    se4SendIp 2000 1400 1 (fun _ => 1) (fun _ => 2) 17 0 (List.replicate 2000 7) = some packets ∧
      ¬RoundTrips (fun _ => 0) 0 false packets (fun _ => 1) (fun _ => 2) 1 17 (List.replicate 2000 7) := by
  have length : (List.replicate 2000 (7 : UInt8)).length = 2000 := List.length_replicate ..
  refine ⟨_, se4SendIp_eq (by omega) (by omega) (List.ne_nil_of_length_pos (by omega)) (by omega) 2000 (by omega), ?_⟩
  rw [roundTrips_several (by omega) (by omega) (by omega) (by omega)]
  omega

end DisasVisor.Vpn.Ip4
