import Mathlib.Data.Fin.VecNotation
import DisasVisor.Vpn.Ip4Fragments

/-!
The quota of the memory in which IPv4 datagrams are put together: it counts what is allocated, in
every run. It is kept only as long as no buffer grows beyond it.
-/

namespace DisasVisor.Vpn.Ip4

open Intervals Reassembly

variable {c c' : IpCombine} {r : Received} {offset size need reserved : UInt32} {fs gs : List IpFragment}
  {out : Option (List UInt8)}

def bufferFor (need : Nat) : Nat :=
  if need ≤ 4096 then 4096 else if need ≤ 16384 then 16384 else 65536

def IsBuffer (reserved : UInt32) : Prop := reserved.toNat = 4096 ∨ reserved.toNat = 16384 ∨ reserved.toNat = 65536

theorem extendReserved_eq (buffer : IsBuffer reserved) (small : need.toNat ≤ 65535) :
    IsBuffer (extendReserved need 32 reserved) ∧
      (extendReserved need 32 reserved).toNat = max reserved.toNat (bufferFor need.toNat) := by
  have four : (4 : UInt32).toNat = 4 := rfl
  have step : ∀ (fuel : Nat) (given : UInt32), extendReserved need (fuel + 1) given =
      if given.toNat < need.toNat then extendReserved need fuel (given * 4) else given := by
    intro fuel given
    unfold extendReserved
    simp only [UInt32.lt_iff_toNat_lt]
    split
    · cases fuel <;> rfl
    · rfl
  have grown : ∀ given : UInt32, given.toNat ≤ 16384 → (given * 4).toNat = given.toNat * 4 := by
    intro given bound
    rw [UInt32.toNat_mul, four]
    omega
  -- three sizes are enough for every payload
  have largest : ∀ (fuel : Nat) (given : UInt32), given.toNat = 65536 →
      extendReserved need (fuel + 1) given = given := by
    intro fuel given isLargest
    rw [step, if_neg (by omega)]
  have middle : ∀ (fuel : Nat) (given : UInt32), given.toNat = 16384 →
      (extendReserved need (fuel + 2) given).toNat = if need.toNat ≤ 16384 then 16384 else 65536 := by
    intro fuel given isMiddle
    rw [step]
    have next := grown given (by omega)
    by_cases more : given.toNat < need.toNat
    · rw [if_pos more, largest _ _ (by omega), if_neg (by omega), next, isMiddle]
    · rw [if_neg more, if_pos (by omega), isMiddle]
  have least : ∀ (fuel : Nat) (given : UInt32), given.toNat = 4096 →
      (extendReserved need (fuel + 3) given).toNat = bufferFor need.toNat := by
    intro fuel given isLeast
    rw [step]
    have next := grown given (by omega)
    unfold bufferFor
    by_cases more : given.toNat < need.toNat
    · rw [if_pos more, middle _ _ (by omega), if_neg (show ¬need.toNat ≤ 4096 by omega)]
    · rw [if_neg more, if_pos (by omega), isLeast]
  have result : (extendReserved need 32 reserved).toNat = max reserved.toNat (bufferFor need.toNat) := by
    rcases buffer with isLeast | isMiddle | isLargest
    · rw [least 29 reserved isLeast, isLeast]
      unfold bufferFor
      split_ifs <;> rfl
    · rw [middle 30 reserved isMiddle, isMiddle]
      unfold bufferFor
      split_ifs <;> omega
    · rw [largest 31 reserved isLargest, isLargest]
      unfold bufferFor
      split_ifs <;> rfl
  refine ⟨?_, result⟩
  unfold IsBuffer
  rw [result]
  unfold bufferFor
  rcases buffer with isLeast | isMiddle | isLargest
  · rw [isLeast]
    split_ifs <;> simp
  · rw [isMiddle]
    split_ifs <;> simp
  · rw [isLargest]
    split_ifs <;> simp

theorem trimLoop_old {offset' size' : UInt32} (loops : trimLoop fs offset size = (gs, offset', size')) :
    ∀ g ∈ gs, ∃ f ∈ fs, g.offset = f.offset ∧ (g.size = f.size ∨ g.size = 0) := by
  induction fs generalizing offset size gs with
  | nil =>
    cases loops
    simp
  | cons f fs ih =>
    unfold trimLoop at loops
    cases isEntry : trimEntry f offset size with
    | mk g rest =>
      obtain ⟨middle, left⟩ := rest
      rw [isEntry] at loops
      simp only at loops
      cases isLoop : trimLoop fs middle left with
      | mk gs' rest' =>
        rw [isLoop] at loops
        cases loops
        have head : g.offset = f.offset ∧ (g.size = f.size ∨ g.size = 0) := by
          have isFirst : (trimEntry f offset size).1 = g := by rw [isEntry]
          have either : ∀ (p : Prop) [Decidable p],
              (if p then { f with size := 0 } else f).offset = f.offset ∧
              ((if p then { f with size := 0 } else f).size = f.size ∨
                (if p then { f with size := 0 } else f).size = 0) := by
            intro p _
            split
            · exact ⟨rfl, .inr rfl⟩
            · exact ⟨rfl, .inl rfl⟩
          rw [← isFirst]
          exact either _
        intro h member
        rcases List.mem_cons.mp member with rfl | later
        · exact ⟨f, List.mem_cons_self, head⟩
        · obtain ⟨f', listed, same⟩ := ih isLoop h later
          exact ⟨f', List.mem_cons_of_mem _ listed, same⟩

structure Buffered (c : IpCombine) : Prop where
  buffer : IsBuffer c.dataReserved
  held : c.size.toNat ≤ c.dataReserved.toNat

structure Recorded (c : IpCombine) : Prop where
  fits : ∀ f ∈ c.ipFragmentList, f.Fits
  apart : Apart (ranges c.ipFragmentList)
  inside : ∀ f ∈ c.ipFragmentList, f.offset.toNat + f.size.toNat ≤ c.dataReserved.toNat

def Taken (c : IpCombine) (r : Received) : Prop := r.Fits ∧ c.Takes r

theorem newIpCombine_buffered (memory : Nat → UInt8) : Buffered (newIpCombine memory) := ⟨.inl rfl, Nat.zero_le _⟩

theorem newIpCombine_recorded (memory : Nat → UInt8) : Recorded (newIpCombine memory) :=
  ⟨by simp [newIpCombine], apart_nil, by simp [newIpCombine]⟩

theorem combineIp_result (buffered : Buffered c) (some' : r.data ≠ []) (low : r.offset.toNat ≤ 65535)
    (short : r.data.length ≤ 65535) :
    ∃ c' out, se4CombineIp c r.offset r.data r.last = some (c', out) ∧ Buffered c' ∧
      ((¬Taken c r ∧ c' = c ∧ out = none) ∨ (Taken c r ∧
        c'.dataReserved.toNat = max c.dataReserved.toNat (bufferFor r.stop) ∧
        ∃ gs offset size, trimLoop c.ipFragmentList r.offset r.data.length.toUInt32 =
          (gs, offset, size) ∧
          c'.ipFragmentList = if size ≠ 0 then gs ++ [⟨offset, size⟩] else gs)) := by
  have length : r.data.length.toUInt32.toNat = r.data.length := by
    simp only [Nat.toUInt32, UInt32.toNat_ofNat']
    omega
  have stop : (r.offset + r.data.length.toUInt32).toNat = r.stop := by
    rw [UInt32.toNat_add, length]
    unfold Received.stop
    omega
  have most : seIp4MaxPayloadSize.toNat = 65535 := rfl
  unfold se4CombineIp
  by_cases large : 65535 < r.stop
  · have notTaken : ¬Taken c r := by
      rintro ⟨⟨-, bound⟩, -⟩
      omega
    refine ⟨c, none, ?_, buffered, .inl ⟨notTaken, rfl, rfl⟩⟩
    unfold combineIp
    simp only
    rw [if_pos (by rw [gt_iff_lt, UInt32.lt_iff_toNat_lt, most, stop]; exact large)]
  · have fits : r.Fits := ⟨some', by omega⟩
    by_cases takes : c.Takes r
    · obtain ⟨isBuffer, reserved⟩ := @extendReserved_eq (r.offset + r.data.length.toUInt32)
        c.dataReserved buffered.buffer (by omega)
      rw [stop] at reserved
      have enough : r.stop ≤ bufferFor r.stop := by
        unfold bufferFor
        split
        · assumption
        · split <;> omega
      have before := buffered.held
      cases loops : trimLoop c.ipFragmentList r.offset r.data.length.toUInt32 with
      | mk gs rest =>
        obtain ⟨offset, size⟩ := rest
        obtain ⟨c', result, rfl, held⟩ := combineIp_taken takes stop (by omega) (by omega) (by omega) loops
        exact ⟨_, _, result, ⟨isBuffer, held⟩, .inr ⟨⟨fits, takes⟩, reserved, gs, offset, size, rfl, rfl⟩⟩
    · have bound := combineIp_ignores fits takes
      exact ⟨c, none, bound, buffered, .inl ⟨fun taken => takes taken.2, rfl, rfl⟩⟩

end DisasVisor.Vpn.Ip4

/-!
The quota over runs of `Se4RecvIp` and `Se4MainProc`: it counts what is allocated and every datagram has
one entry, in every run; the upper limit and the buffers hold as long as no step grows a buffer beyond
the limit or comes to the size that the branch for the end of a fragment subtracts.
-/

namespace DisasVisor.Vpn.Ip4

open Intervals Reassembly Transitions

variable {tick : UInt64} {p p' : Receiver} {cs front back : List Combine} {c : Combine} {quota : UInt32}
  {r : Received} {buf : List UInt8}

def reserved : List Combine → Nat
  | [] => 0
  | c :: cs => c.combine.dataReserved.toNat + reserved cs

theorem reserved_append : reserved (front ++ back) = reserved front + reserved back := by
  induction front with
  | nil => exact (Nat.zero_add _).symm
  | cons c cs ih =>
    rw [List.cons_append, reserved, reserved, ih]
    omega

theorem reserved_filter (keep : Combine → Bool) :
    reserved cs = reserved (cs.filter fun c => !keep c) + reserved (cs.filter keep) := by
  induction cs with
  | nil => rfl
  | cons c cs ih =>
    cases kept : keep c with
    | true =>
      rw [List.filter_cons_of_neg (by simp [kept]), List.filter_cons_of_pos kept, reserved, reserved]
      omega
    | false =>
      rw [List.filter_cons_of_pos (by simp [kept]), List.filter_cons_of_neg (by simp [kept]), reserved, reserved]
      omega

theorem reserved_bounds (buffered : ∀ c ∈ cs, Buffered c.combine) :
    4096 * cs.length ≤ reserved cs ∧ reserved cs ≤ 65536 * cs.length := by
  induction cs with
  | nil => exact ⟨Nat.le_refl _, Nat.le_refl _⟩
  | cons c cs ih =>
    have later := ih fun c member => buffered c (List.mem_cons_of_mem _ member)
    have first := (buffered c List.mem_cons_self).buffer
    unfold IsBuffer at first
    rw [reserved, List.length_cons]
    omega

structure Counted (cs : List Combine) (quota : UInt32) : Prop where
  sum : quota.toNat = reserved cs
  keys : (cs.map Combine.key).Nodup
  buffered : ∀ c ∈ cs, Buffered c.combine
  few : cs.length ≤ 256

structure Limited (cs : List Combine) (quota : UInt32) : Prop where
  limit : quota.toNat ≤ 1048576
  recorded : ∀ c ∈ cs, Recorded c.combine

/-- The fragment does not come to the two defects: it leaves the tail of what is recorded, and the
buffer that it needs is within the limit. -/
structure HarmlessFor (c : IpCombine) (quota : UInt32) (r : Received) : Prop where
  tail : TailKept c.ipFragmentList r.offset.toNat r.stop
  room : quota.toNat - c.dataReserved.toNat + max c.dataReserved.toNat (bufferFor r.stop) ≤ 1048576

theorem Counted.sum_split (counted : Counted (front ++ c :: back) quota) :
    quota.toNat = reserved front + c.combine.dataReserved.toNat + reserved back := by
  rw [counted.sum, reserved_append, reserved]
  omega

theorem Counted.small (counted : Counted cs quota) : quota.toNat ≤ 16777216 := by
  have bounds := (reserved_bounds counted.buffered).2
  have few := counted.few
  rw [counted.sum]
  omega

theorem Counted.remove (counted : Counted (front ++ c :: back) quota) {rest : UInt32}
    (left : rest.toNat = reserved front + reserved back) : Counted (front ++ back) rest := by
  have shorter : (front ++ back).Sublist (front ++ c :: back) :=
    (List.Sublist.refl front).append (List.sublist_cons_self c back)
  refine ⟨?_, counted.keys.sublist (shorter.map _), ?_, ?_⟩
  · rw [left, reserved_append]
  · exact fun d member => counted.buffered d (shorter.subset member)
  · exact Nat.le_trans shorter.length_le counted.few

theorem Counted.replace {c' : Combine} (counted : Counted (front ++ c :: back) quota)
    (same : c'.key = c.key) (buffered : Buffered c'.combine) {total : UInt32}
    (sum : total.toNat = reserved front + c'.combine.dataReserved.toNat + reserved back) :
    Counted (front ++ c' :: back) total := by
  refine ⟨?_, ?_, ?_, ?_⟩
  · rw [sum, reserved_append, reserved]
    omega
  · have keys := counted.keys
    rw [List.map_append, List.map_cons] at keys ⊢
    rwa [same]
  · intro d member
    rw [List.mem_append, List.mem_cons] at member
    rcases member with before | rfl | behind
    · exact counted.buffered d (List.mem_append_left _ before)
    · exact buffered
    · exact counted.buffered d (List.mem_append_right _ (List.mem_cons_of_mem _ behind))
  · have few := counted.few
    simp only [List.length_append, List.length_cons] at few ⊢
    exact few

theorem recorded_combine {c c' : IpCombine} (recorded : Recorded c) (fits : r.Fits)
    (kept : TailKept c.ipFragmentList r.offset.toNat r.stop)
    (grown : c'.dataReserved.toNat = max c.dataReserved.toNat (bufferFor r.stop))
    (entered : ∃ gs offset size, trimLoop c.ipFragmentList r.offset r.data.length.toUInt32 =
      (gs, offset, size) ∧
      c'.ipFragmentList = if size ≠ 0 then gs ++ [⟨offset, size⟩] else gs) : Recorded c' := by
  obtain ⟨gs, offset, size, loops, list⟩ := entered
  have length := fits.toNat_length
  have stop := fits.2
  have positive := fits.positive
  unfold Received.stop at stop
  obtain ⟨gs', offset', size', loops', trimmed⟩ := @trimLoop_trimmed c.ipFragmentList r.offset
    r.data.length.toUInt32 recorded.fits recorded.apart (by omega) (by omega)
    (by rw [length]; exact kept)
  rw [loops] at loops'
  cases loops'
  have enough : r.stop ≤ bufferFor r.stop := by
    unfold bufferFor Received.stop
    split_ifs <;> omega
  have old : ∀ g ∈ gs, g.offset.toNat + g.size.toNat ≤ c'.dataReserved.toNat := by
    intro g member
    obtain ⟨f, listed, start, sizes⟩ := trimLoop_old loops g member
    have inside := recorded.inside f listed
    have zero := UInt32.toNat_zero
    rw [start]
    rcases sizes with same | emptied
    · rw [same]
      omega
    · rw [emptied, zero]
      omega
  by_cases left : size ≠ 0
  · rw [if_pos left] at list
    have some' : 0 < size.toNat := by
      rw [Nat.pos_iff_ne_zero]
      exact fun none => left (UInt32.toNat_inj.mp none)
    -- the last byte of the new part is one of the fragment
    have new : offset.toNat + size.toNat ≤ r.stop := by
      have last := trimmed.part (offset.toNat + size.toNat - 1) ⟨by simp only; omega, by simp only; omega⟩
      have high := last.2
      simp only [length] at high
      unfold Received.stop
      omega
    refine ⟨?_, ?_, ?_⟩
    · intro f member
      rw [list] at member
      rcases List.mem_append.mp member with before | added
      · exact trimmed.fits f before
      · rw [List.mem_singleton.mp added]
        exact trimmed.bound
    · rw [list]
      have split : ranges (gs ++ [⟨offset, size⟩]) = ranges gs ++ [(offset.toNat, size.toNat)] := List.map_append
      rw [split]
      exact apart_concat trimmed.apart trimmed.free
    · intro f member
      rw [list] at member
      rcases List.mem_append.mp member with before | added
      · exact old f before
      · rw [List.mem_singleton.mp added]
        change offset.toNat + size.toNat ≤ _
        omega
  · rw [if_neg left] at list
    exact ⟨by rw [list]; exact trimmed.fits, by rw [list]; exact trimmed.apart, by rw [list]; exact old⟩

theorem se4CombineEntry_counted (counted : Counted (front ++ c :: back) p.currentIpQuota)
    (some' : r.data ≠ []) (low : r.offset.toNat ≤ 65535) (short : r.data.length ≤ 65535) :
    ∃ p' ds, se4CombineEntry tick p front c back r.offset r.data r.last = some (p', ds) ∧
      Counted p'.ipCombineList p'.currentIpQuota ∧
      (Limited (front ++ c :: back) p.currentIpQuota →
        (Taken c.combine r → HarmlessFor c.combine p.currentIpQuota r) →
          Limited p'.ipCombineList p'.currentIpQuota) := by
  have listed : c ∈ front ++ c :: back := List.mem_append_right _ List.mem_cons_self
  obtain ⟨c', out, result, buffered, cases'⟩ := combineIp_result (counted.buffered c listed) some' low short
  have sum := counted.sum_split
  have small := counted.small
  have old := (counted.buffered c listed).buffer
  have new := buffered.buffer
  unfold IsBuffer at old new
  have grown : c.combine.dataReserved.toNat ≤ c'.dataReserved.toNat := by
    rcases cases' with ⟨-, rfl, -⟩ | ⟨-, larger, -⟩
    · exact Nat.le_refl _
    · omega
  have difference : (p.currentIpQuota + (c'.dataReserved - c.combine.dataReserved)).toNat =
      reserved front + c'.dataReserved.toNat + reserved back := by
    rw [UInt32.toNat_add, UInt32.toNat_sub_of_le _ _ (UInt32.le_iff_toNat_le.mpr grown)]
    omega
  -- what is promised of the entry after the fragment
  have promised : Limited (front ++ c :: back) p.currentIpQuota →
      (Taken c.combine r → HarmlessFor c.combine p.currentIpQuota r) →
        Recorded c' ∧ reserved front + c'.dataReserved.toNat + reserved back ≤ 1048576 := by
    intro limited harmless
    have limit := limited.limit
    have recorded := limited.recorded c listed
    rcases cases' with ⟨-, rfl, -⟩ | ⟨taken, larger, entered⟩
    · exact ⟨recorded, by omega⟩
    · have room := (harmless taken).room
      exact ⟨recorded_combine recorded taken.1 (harmless taken).tail larger entered, by omega⟩
  unfold se4CombineEntry
  rw [result]
  cases out with
  | none =>
    refine ⟨_, _, rfl, ?_, ?_⟩
    · apply counted.replace
      · rfl
      · exact buffered
      · exact difference
    intro limited harmless
    obtain ⟨recorded, limit⟩ := promised limited harmless
    refine ⟨by rw [difference]; exact limit, ?_⟩
    intro d member
    rw [List.mem_append, List.mem_cons] at member
    rcases member with before | rfl | behind
    · exact limited.recorded d (List.mem_append_left _ before)
    · exact recorded
    · exact limited.recorded d (List.mem_append_right _ (List.mem_cons_of_mem _ behind))
  | some out =>
    have rest : (p.currentIpQuota + (c'.dataReserved - c.combine.dataReserved) -
        c'.dataReserved).toNat = reserved front + reserved back := by
      rw [UInt32.toNat_sub_of_le _ _ (UInt32.le_iff_toNat_le.mpr (by rw [difference]; omega)), difference]
      omega
    refine ⟨_, _, rfl, counted.remove rest, ?_⟩
    intro limited harmless
    have limit := (promised limited harmless).2
    refine ⟨by rw [rest]; omega, ?_⟩
    intro d member
    rcases List.mem_append.mp member with before | behind
    · exact limited.recorded d (List.mem_append_left _ before)
    · exact limited.recorded d (List.mem_append_right _ (List.mem_cons_of_mem _ behind))

def Harmless (p : Receiver) (buf : List UInt8) : Prop :=
  accepted buf → fragmented buf →
    match Searches.locate (Combine.isFor (keyOf buf)) p.ipCombineList with
    | some (_, c, _) => Taken c.combine (receivedOf buf) → HarmlessFor c.combine p.currentIpQuota (receivedOf buf)
    | none =>
      p.currentIpQuota.toNat + 4096 ≤ 1048576 → (receivedOf buf).Fits →
        p.currentIpQuota.toNat + bufferFor (receivedOf buf).stop ≤ 1048576

theorem not_isFor {key : Key} (other : Combine.isFor key c = false) : c.key ≠ key := by
  unfold Combine.isFor at other
  exact of_decide_eq_false other

theorem Counted.insert (counted : Counted cs quota) (fresh : ∀ d ∈ cs, d.key ≠ c.key)
    {memory : Nat → UInt8} (new : c.combine = newIpCombine memory)
    (room : quota.toNat + 4096 ≤ 1048576) : Counted (cs ++ [c]) (quota + seIpCombineInitialBufSize) := by
  have initial : seIpCombineInitialBufSize.toNat = 4096 := rfl
  have bounds := (reserved_bounds counted.buffered).1
  have sum := counted.sum
  have own : c.combine.dataReserved.toNat = 4096 := by
    rw [new]
    rfl
  refine ⟨?_, ?_, ?_, ?_⟩
  · rw [reserved_append, reserved, reserved, own, UInt32.toNat_add, initial]
    omega
  · rw [List.map_append, List.nodup_append]
    refine ⟨counted.keys, List.nodup_singleton _, ?_⟩
    intro key member key' single same
    obtain ⟨d, listed, rfl⟩ := List.mem_map.mp member
    rw [List.map_singleton, List.mem_singleton] at single
    exact fresh d listed (same.trans single)
  · intro d member
    rcases List.mem_append.mp member with old | added
    · exact counted.buffered d old
    · rw [List.mem_singleton.mp added, new]
      exact newIpCombine_buffered memory
  · rw [List.length_append, List.length_singleton]
    omega

theorem receivePacket_counted (counted : Counted p.ipCombineList p.currentIpQuota)
    (memory : Nat → UInt8) (isBroadcast : Bool) :
    ∃ p' ds, receivePacket memory tick p buf isBroadcast = some (p', ds) ∧
      Counted p'.ipCombineList p'.currentIpQuota ∧
      (Limited p.ipCombineList p.currentIpQuota → Harmless p buf → Limited p'.ipCombineList p'.currentIpQuota) := by
  by_cases accepts : accepted buf
  · by_cases parts : fragmented buf
    · obtain ⟨some', low, short⟩ := receivedOf_bounds accepts
      rw [receivePacket_fragment accepts parts]
      unfold Harmless
      cases found : Searches.locate (Combine.isFor (keyOf buf)) p.ipCombineList with
      | some result =>
        obtain ⟨front, c, back⟩ := result
        have split := (Searches.locate_some found).1
        rw [split] at counted ⊢
        obtain ⟨p', ds, combined, counted', limited'⟩ :=
          @se4CombineEntry_counted tick p front back c _ counted some' low short
        exact ⟨p', ds, combined, counted', fun limited harmless =>
          limited' limited (harmless accepts parts)⟩
      | none =>
        have fresh := Searches.locate_none.mp found
        have initial : seIpCombineInitialBufSize.toNat = 4096 := rfl
        have most : seIpv4CombineQueueSizeQuota.toNat = 1048576 := rfl
        have small := counted.small
        have total : (p.currentIpQuota + seIpCombineInitialBufSize).toNat = p.currentIpQuota.toNat + 4096 := by
          rw [UInt32.toNat_add, initial]
          omega
        unfold se4InsertIpCombine
        by_cases full : p.currentIpQuota + seIpCombineInitialBufSize > seIpv4CombineQueueSizeQuota
        · rw [if_pos full]
          exact ⟨p, [], rfl, counted, fun limited _ => limited⟩
        · rw [if_neg full]
          rw [gt_iff_lt, UInt32.lt_iff_toNat_lt, total, most] at full
          have counted' := @Counted.insert p.ipCombineList ⟨(readHeader buf).dstIP,
            (readHeader buf).srcIP, (readHeader buf).identification, tick + seIpv4CombineTimeout,
            (readHeader buf).protocol, (readHeader buf).timeToLive, isBroadcast, p.combineCurrentId,
            newIpCombine memory⟩ p.currentIpQuota counted (fun d listed => not_isFor (fresh d listed))
            memory rfl (by omega)
          obtain ⟨p', ds, combined, counted'', limited'⟩ := @se4CombineEntry_counted tick
            { p with
              currentIpQuota := p.currentIpQuota + seIpCombineInitialBufSize
              combineCurrentId := p.combineCurrentId + 1 } _ _ _ _ counted' some' low short
          refine ⟨p', ds, combined, counted'', ?_⟩
          intro limited harmless
          apply limited'
          · refine ⟨by rw [total]; omega, ?_⟩
            intro d member
            rcases List.mem_append.mp member with old | added
            · exact limited.recorded d old
            · rw [List.mem_singleton.mp added]
              exact newIpCombine_recorded memory
          · intro taken
            have room := harmless accepts parts (by omega) taken.1
            refine ⟨?_, ?_⟩
            · intro before f after split
              simp [newIpCombine] at split
            · change (p.currentIpQuota + seIpCombineInitialBufSize).toNat -
                seIpCombineInitialBufSize.toNat + max seIpCombineInitialBufSize.toNat _ ≤ _
              have least : 4096 ≤ bufferFor (receivedOf buf).stop := by
                unfold bufferFor
                split_ifs <;> omega
              rw [total, initial]
              omega
    · rw [receivePacket_complete accepts parts]
      exact ⟨p, _, rfl, counted, fun limited _ => limited⟩
  · rw [receivePacket_ignores accepts]
    exact ⟨p, [], rfl, counted, fun limited _ => limited⟩

theorem toNat_freeQuota (sum : reserved cs ≤ quota.toNat) : (freeQuota quota cs).toNat = quota.toNat - reserved cs := by
  induction cs generalizing quota with
  | nil => exact (Nat.sub_zero _).symm
  | cons c cs ih =>
    rw [reserved] at sum ⊢
    have less : (quota - c.combine.dataReserved).toNat = quota.toNat - c.combine.dataReserved.toNat :=
      UInt32.toNat_sub_of_le _ _ (UInt32.le_iff_toNat_le.mpr (by omega))
    rw [freeQuota, ih (by omega), less]
    omega

theorem flush_counted (counted : Counted p.ipCombineList p.currentIpQuota) :
    Counted (se4FlushIpCombineList tick p).ipCombineList (se4FlushIpCombineList tick p).currentIpQuota ∧
      (Limited p.ipCombineList p.currentIpQuota →
        Limited (se4FlushIpCombineList tick p).ipCombineList (se4FlushIpCombineList tick p).currentIpQuota) := by
  have parts := @reserved_filter p.ipCombineList (expired tick p)
  have sum := counted.sum
  have rest : (se4FlushIpCombineList tick p).currentIpQuota.toNat =
      reserved (p.ipCombineList.filter fun c => !expired tick p c) := by
    change (freeQuota _ _).toNat = _
    rw [toNat_freeQuota (by omega)]
    omega
  have fewer : (p.ipCombineList.filter fun c => !expired tick p c).Sublist p.ipCombineList := List.filter_sublist
  constructor
  · exact ⟨rest, counted.keys.sublist (fewer.map _), fun c member => counted.buffered c (fewer.subset member),
      Nat.le_trans fewer.length_le counted.few⟩
  · intro limited
    have limit := limited.limit
    exact ⟨by omega, fun c member => limited.recorded c (fewer.subset member)⟩

structure System where
  tick : UInt64
  receiver : Receiver

def System.start (tick : UInt64) : System := ⟨tick, Receiver.idle⟩

/-- A packet, a call of `Se4MainProc`, or some time; a new buffer has any bytes. -/
inductive Event
  | receive (memory : Nat → UInt8) (buf : List UInt8) (isBroadcast : Bool)
  | mainProc
  | clock (tick : UInt64)

def Event.run : Event → System → Option System
  | .receive memory buf isBroadcast, s =>
    (receivePacket memory s.tick s.receiver buf isBroadcast).map fun result =>
      { s with receiver := result.1 }
  | .mainProc, s => some { s with receiver := se4FlushIpCombineList s.tick s.receiver }
  | .clock tick, s => some { s with tick := tick }

def Event.Harmless : Event → System → Prop
  | .receive _ buf _, s => Ip4.Harmless s.receiver buf
  | .mainProc, _ => True
  | .clock _, _ => True

def runAll : List Event → System → Option System
  | [], s => some s
  | event :: events, s => (event.run s).bind (runAll events)

def AllHarmless : List Event → System → Prop
  | [], _ => True
  | event :: events, s => event.Harmless s ∧ ∀ s', event.run s = some s' → AllHarmless events s'

theorem Event.run_counted {s : System} (event : Event)
    (counted : Counted s.receiver.ipCombineList s.receiver.currentIpQuota) :
    ∃ s', event.run s = some s' ∧ Counted s'.receiver.ipCombineList s'.receiver.currentIpQuota ∧
      (Limited s.receiver.ipCombineList s.receiver.currentIpQuota → event.Harmless s →
        Limited s'.receiver.ipCombineList s'.receiver.currentIpQuota) := by
  cases event with
  | receive memory buf isBroadcast =>
    obtain ⟨p', ds, received, counted', limited'⟩ :=
      @receivePacket_counted s.tick s.receiver buf counted memory isBroadcast
    exact ⟨{ s with receiver := p' }, by simp [Event.run, received], counted', limited'⟩
  | mainProc =>
    obtain ⟨counted', limited'⟩ := @flush_counted s.tick s.receiver counted
    exact ⟨_, rfl, counted', fun limited _ => limited' limited⟩
  | clock tick => exact ⟨_, rfl, counted, fun limited _ => limited⟩

theorem runAll_counted {s : System} {events : List Event}
    (counted : Counted s.receiver.ipCombineList s.receiver.currentIpQuota) :
    ∃ s', runAll events s = some s' ∧ Counted s'.receiver.ipCombineList s'.receiver.currentIpQuota ∧
      (Limited s.receiver.ipCombineList s.receiver.currentIpQuota → AllHarmless events s →
        Limited s'.receiver.ipCombineList s'.receiver.currentIpQuota) := by
  induction events generalizing s with
  | nil => exact ⟨s, rfl, counted, fun limited _ => limited⟩
  | cons event events ih =>
    obtain ⟨middle, happens, counted', limited'⟩ := event.run_counted counted
    obtain ⟨after, ran, counted'', limited''⟩ := ih counted'
    refine ⟨after, by simp [runAll, happens, ran], counted'', ?_⟩
    intro limited harmless
    exact limited'' (limited' limited harmless.1) (harmless.2 middle happens)

theorem idle_counted : Counted Receiver.idle.ipCombineList Receiver.idle.currentIpQuota :=
  ⟨rfl, List.nodup_nil, by simp [Receiver.idle], Nat.zero_le _⟩

theorem idle_limited : Limited Receiver.idle.ipCombineList Receiver.idle.currentIpQuota :=
  ⟨Nat.zero_le _, by simp [Receiver.idle]⟩

/-- The quota is the sum and the entries have different keys after every run; and after a run of harmless
steps it is within its limit, and what is recorded within the buffers. -/
theorem ipCombineList_run (tick : UInt64) (events : List Event) :
    ∃ s, runAll events (System.start tick) = some s ∧
      s.receiver.currentIpQuota.toNat = reserved s.receiver.ipCombineList ∧
      (s.receiver.ipCombineList.map Combine.key).Nodup ∧
      (AllHarmless events (System.start tick) →
        s.receiver.currentIpQuota ≤ seIpv4CombineQueueSizeQuota ∧
        ∀ c ∈ s.receiver.ipCombineList, ∀ f ∈ c.combine.ipFragmentList,
          f.offset.toNat + f.size.toNat ≤ c.combine.dataReserved.toNat) := by
  obtain ⟨s, ran, counted, limited⟩ := @runAll_counted (System.start tick) events idle_counted
  refine ⟨s, ran, counted.sum, counted.keys, ?_⟩
  intro harmless
  obtain ⟨limit, recorded⟩ := limited idle_limited harmless
  exact ⟨UInt32.le_iff_toNat_le.mpr limit, fun c listed => (recorded c listed).inside⟩

def receiveFragment (id : UInt16) (offset size : Nat) : Event :=
  .receive (fun _ => 0)
    ((se4SendIpFragment ![10, 0, 0, 1] ![10, 0, 0, 2] id 65535 offset 17 64
      (List.replicate size 1)).getD []) false

theorem ipCombineList_run_one :
    ∃ s, runAll [receiveFragment 1 8 8] (System.start 0) = some s ∧
      s.receiver.currentIpQuota ≤ seIpv4CombineQueueSizeQuota ∧
      ∀ c ∈ s.receiver.ipCombineList, ∀ f ∈ c.combine.ipFragmentList,
        f.offset.toNat + f.size.toNat ≤ c.combine.dataReserved.toNat := by
  obtain ⟨s, ran, -, -, kept⟩ := ipCombineList_run 0 [receiveFragment 1 8 8]
  refine ⟨s, ran, kept ⟨?_, fun _ _ => trivial⟩⟩
  intro _ _
  change (0 : UInt32).toNat + 4096 ≤ 1048576 → _ → (0 : UInt32).toNat + bufferFor _ ≤ 1048576
  intro _ _
  unfold bufferFor
  rw [UInt32.toNat_zero]
  split_ifs <;> omega

/-- Sixteen datagrams with bytes near the end of the largest payload need more than the limit when one
more has a small buffer; and when the second fragment is in the first one, the size that is recorded is
beyond every buffer. -/
theorem quota_exceeded :
    (∃ s, runAll (receiveFragment 0 0 8 :: (List.range 16).map fun i =>
        receiveFragment (UInt16.ofNat (i + 1)) 65504 8) (System.start 0) = some s ∧
      seIpv4CombineQueueSizeQuota < s.receiver.currentIpQuota) ∧
    ∃ s, runAll [receiveFragment 0 0 64, receiveFragment 0 8 8] (System.start 0) = some s ∧
      ∃ c ∈ s.receiver.ipCombineList, ∃ f ∈ c.combine.ipFragmentList,
        c.combine.dataReserved.toNat < f.offset.toNat + f.size.toNat := by
  have quota : (runAll (receiveFragment 0 0 8 :: (List.range 16).map fun i =>
      receiveFragment (UInt16.ofNat (i + 1)) 65504 8) (System.start 0)).any
      (fun s => seIpv4CombineQueueSizeQuota < s.receiver.currentIpQuota) = true := by
    decide +kernel
  have recorded : (runAll [receiveFragment 0 0 64, receiveFragment 0 8 8] (System.start 0)).any
      (fun s => s.receiver.ipCombineList.any fun c => c.combine.ipFragmentList.any fun f =>
        c.combine.dataReserved.toNat < f.offset.toNat + f.size.toNat) = true := by
    decide +kernel
  constructor
  · simpa only [Option.any_eq_true, decide_eq_true_eq] using quota
  · simpa only [Option.any_eq_true, List.any_eq_true, decide_eq_true_eq] using recorded

end DisasVisor.Vpn.Ip4
