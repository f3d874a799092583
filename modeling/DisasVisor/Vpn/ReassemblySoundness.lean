import DisasVisor.Lib.Transitions
import DisasVisor.Vpn.Trimming

/-!
Soundness of the reassembly of one datagram, over every sequence of fragments that stays away from
the two defects of `Se4CombineIp`: the size that the branch for the end of a fragment subtracts, and
a last fragment that ends before what was received.
-/

namespace DisasVisor.Vpn.Reassembly

open Intervals Transitions List

structure Received where
  offset : UInt32
  data : List UInt8
  last : Bool

namespace Received

def range (r : Received) : Interval := (r.offset.toNat, r.data.length)

def stop (r : Received) : Nat := r.offset.toNat + r.data.length

def Fits (r : Received) : Prop := r.data ≠ [] ∧ r.stop ≤ 65535

end Received

inductive IpVersion where
  | v4
  | v6

def IpVersion.combineIp : IpVersion → IpCombine → UInt32 → List UInt8 → Bool →
    Option (IpCombine × Option (List UInt8))
  | .v4 => se4CombineIp
  | .v6 => se6CombineIp

def IpCombine.Takes (c : IpCombine) (r : Received) : Prop := r.last = false → c.size ≠ 0 → r.stop ≤ c.size.toNat

instance (c : IpCombine) (r : Received) : Decidable (c.Takes r) :=
  inferInstanceAs (Decidable (r.last = false → c.size ≠ 0 → r.stop ≤ c.size.toNat))

structure Feed where
  combine : IpCombine
  taken : List Received
  delivered : Option (List UInt8)

def Feed.start (memory : Nat → UInt8) : Feed := ⟨newIpCombine memory, [], none⟩

inductive Feeds (version : IpVersion) : Feed → Received → Feed → Prop
  | feed {s r c out} : s.delivered = none →
      version.combineIp s.combine r.offset r.data r.last = some (c, out) →
        Feeds version s r ⟨c, if s.combine.Takes r then r :: s.taken else s.taken, out⟩

def covered (taken : List Received) : List Interval := taken.map Received.range

@[simp] theorem covered_cons {r : Received} {taken : List Received} {x : Nat} :
    Covers (covered (r :: taken)) x ↔ Has r.range x ∨ Covers (covered taken) x :=
  covers_cons

structure Sound (s : Feed) : Prop where
  apart : Apart (ranges s.combine.ipFragmentList)
  inside : ∀ x, Covers (ranges s.combine.ipFragmentList) x → Covers (covered s.taken) x
  noWrap : (totalSize s.combine.ipFragmentList).toNat = total (ranges s.combine.ipFragmentList)
  counted : total (ranges s.combine.ipFragmentList) = (cover (covered s.taken)).card
  delivered : ∀ out, s.delivered = some out → out.length = s.combine.size.toNat ∧
    ∀ x < out.length, ∃ r ∈ s.taken, Has r.range x ∧ out[x]? = r.data[x - r.offset.toNat]?

/-- The fragment does not come to a defect: the received part that has its last byte begins with what
is left of it, or ends with it; and if it is the last one, nothing was received beyond its end. -/
structure Regular (c : IpCombine) (r : Received) : Prop where
  tail : TailKept c.ipFragmentList r.offset.toNat r.stop
  last : r.last = true → ∀ x, Covers (ranges c.ipFragmentList) x → x < r.stop

theorem extendReserved_enough {needSize dataReserved : UInt32} {fuel : Nat}
    (need : needSize.toNat ≤ 65535) (positive : 0 < dataReserved.toNat)
    (small : dataReserved.toNat ≤ 262144) (enough : needSize.toNat ≤ dataReserved.toNat * 4 ^ fuel) :
    needSize.toNat ≤ (extendReserved needSize fuel dataReserved).toNat ∧
      dataReserved.toNat ≤ (extendReserved needSize fuel dataReserved).toNat ∧
      (extendReserved needSize fuel dataReserved).toNat ≤ 262144 := by
  induction fuel generalizing dataReserved with
  | zero => exact ⟨by simpa [extendReserved] using enough, Nat.le_refl _, small⟩
  | succ fuel ih =>
    unfold extendReserved
    split
    · rename_i less
      rw [UInt32.lt_iff_toNat_lt] at less
      have four : (4 : UInt32).toNat = 4 := rfl
      have product : (dataReserved * 4).toNat = dataReserved.toNat * 4 := by
        rw [UInt32.toNat_mul, four]
        omega
      rw [Nat.pow_succ, Nat.mul_comm (4 ^ fuel), ← Nat.mul_assoc] at enough
      have later := @ih (dataReserved * 4) (by omega) (by omega) (by rw [product]; exact enough)
      omega
    · rename_i enough
      rw [UInt32.lt_iff_toNat_lt] at enough
      omega

theorem copyInto_inside {data : Nat → UInt8} {offset x : Nat} {src : List UInt8}
    (inside : Has (offset, src.length) x) : src[x - offset]? = some (copyInto data offset src x) := by
  obtain ⟨low, high⟩ := inside
  have index : x - offset < src.length := by
    simp only at high low
    omega
  simp [copyInto, if_pos low, getD_eq_getElem?_getD, List.getElem?_eq_getElem index]

theorem copyInto_outside {data : Nat → UInt8} {offset x : Nat} {src : List UInt8}
    (outside : ¬Has (offset, src.length) x) : copyInto data offset src x = data x := by
  unfold copyInto
  split
  · rename_i low
    rw [getD_eq_getElem?_getD, List.getElem?_eq_none (by
      simp only [Has, not_and] at outside
      have high := outside low
      omega), Option.getD_none]
  · rfl

theorem toNat_totalSize {fs : List IpFragment} (small : total (ranges fs) < 2 ^ 32) :
    (totalSize fs).toNat = total (ranges fs) := by
  induction fs with
  | nil => rfl
  | cons f fs ih =>
    rw [ranges_cons, total_cons] at small ⊢
    rw [totalSize, UInt32.toNat_add, ih (by omega), IpFragment.range]
    simp only [IpFragment.range] at small
    omega

structure IpCombine.Holds (c : IpCombine) (taken : List Received) : Prop where
  positive : 0 < c.dataReserved.toNat
  small : c.dataReserved.toNat ≤ 262144
  enough : 4096 ≤ c.dataReserved.toNat
  held : c.size.toNat ≤ c.dataReserved.toNat
  fits : ∀ f ∈ c.ipFragmentList, f.Fits
  apart : Apart (ranges c.ipFragmentList)
  same : ∀ x, Covers (ranges c.ipFragmentList) x ↔ Covers (covered taken) x
  within : c.size ≠ 0 → ∀ x, Covers (ranges c.ipFragmentList) x → x < c.size.toNat
  bytes : ∀ x, Covers (covered taken) x → ∃ r ∈ taken, Has r.range x ∧ r.data[x - r.offset.toNat]? = some (c.data x)

variable {c : IpCombine} {r : Received} {taken : List Received} {version : IpVersion}

theorem newIpCombine_holds (memory : Nat → UInt8) : (newIpCombine memory).Holds [] := by
  have size : seIpCombineInitialBufSize.toNat = 4096 := rfl
  refine ⟨?_, ?_, ?_, ?_, by simp [newIpCombine], apart_nil, fun x => Iff.rfl, ?_, ?_⟩
  · simp [newIpCombine, size]
  · simp [newIpCombine, size]
  · simp [newIpCombine, size]
  · simp [newIpCombine]
  · intro known
    simp [newIpCombine] at known
  · intro x covered
    simp [Reassembly.covered] at covered

theorem Received.Fits.toNat_length (fits : r.Fits) : r.data.length.toUInt32.toNat = r.data.length := by
  have stop := fits.2
  unfold Received.stop at stop
  simp only [Nat.toUInt32, UInt32.toNat_ofNat']
  omega

theorem Received.Fits.toNat_stop (fits : r.Fits) : (r.offset + r.data.length.toUInt32).toNat = r.stop := by
  have length := fits.toNat_length
  have stop := fits.2
  unfold Received.stop at stop ⊢
  rw [UInt32.toNat_add, length]
  omega

theorem Received.Fits.positive (fits : r.Fits) : 0 < r.data.length := length_pos_of_ne_nil fits.1

theorem IpCombine.Holds.entered (holds : c.Holds taken) (fits : r.Fits) (regular : Regular c r) :
    ∃ gs offset size, trimLoop c.ipFragmentList r.offset r.data.length.toUInt32 = (gs, offset, size) ∧
      ∃ fs, (if size ≠ 0 then gs ++ [⟨offset, size⟩] else gs) = fs ∧ (∀ f ∈ fs, f.Fits) ∧
        Apart (ranges fs) ∧ (∀ x, Covers (ranges fs) x ↔ Covers (covered (r :: taken)) x) := by
  have length := fits.toNat_length
  have stop := fits.2
  have positive := fits.positive
  unfold Received.stop at stop
  obtain ⟨gs, offset, size, loops, trimmed⟩ := @trimLoop_trimmed c.ipFragmentList r.offset
    r.data.length.toUInt32 holds.fits holds.apart (by omega) (by omega)
    (by rw [length]; exact regular.tail)
  refine ⟨gs, offset, size, loops, _, rfl, ?_⟩
  have same : ∀ x, Covers (ranges gs) x ∨ Has (offset.toNat, size.toNat) x ↔ Covers (covered (r :: taken)) x := by
    intro x
    rw [trimmed.same, length, holds.same, covered_cons, or_comm]
    rfl
  by_cases left : size ≠ 0
  · simp only [if_pos left]
    have split : ranges (gs ++ [⟨offset, size⟩]) = ranges gs ++ [(offset.toNat, size.toNat)] := map_append
    refine ⟨?_, ?_, ?_⟩
    · intro f member
      rcases mem_append.mp member with old | new
      · exact trimmed.fits f old
      · rw [mem_singleton.mp new]
        exact trimmed.bound
    · rw [split]
      exact apart_concat trimmed.apart trimmed.free
    · intro x
      rw [split, covers_append, ← same, covers_cons]
      simp
  · simp only [if_neg left]
    refine ⟨trimmed.fits, trimmed.apart, ?_⟩
    intro x
    rw [← same]
    have nothing : ¬Has (offset.toNat, size.toNat) x := by
      have zero : size.toNat = 0 := by
        rw [not_not.mp left]
        rfl
      simp only [Has, zero]
      omega
    tauto

theorem copied_bytes (holds : c.Holds taken) (x : Nat) (known : Covers (covered (r :: taken)) x) :
    ∃ s ∈ r :: taken, Has s.range x ∧
      s.data[x - s.offset.toNat]? = some (copyInto c.data r.offset.toNat r.data x) := by
  by_cases inside : Has r.range x
  · exact ⟨r, mem_cons_self .., inside, copyInto_inside inside⟩
  · rw [covered_cons] at known
    obtain ⟨s, member, has, byte⟩ := holds.bytes x (known.resolve_left inside)
    refine ⟨s, mem_cons_of_mem _ member, has, ?_⟩
    rw [copyInto_outside inside]
    exact byte

def IpCombine.delivery (c : IpCombine) : Option (List UInt8) :=
  if c.size ≠ 0 ∧ totalSize c.ipFragmentList = c.size then some ((List.range c.size.toNat).map c.data)
  else none

/-- What a fragment that is taken leaves in the entry. -/
theorem combineIp_taken {gs : List IpFragment} {offset size : UInt32} (takes : c.Takes r)
    (stop : (r.offset + r.data.length.toUInt32).toNat = r.stop) (bound : r.stop ≤ 65535)
    (room : r.stop ≤ (extendReserved (r.offset + r.data.length.toUInt32) 32 c.dataReserved).toNat)
    (held : c.size.toNat ≤ (extendReserved (r.offset + r.data.length.toUInt32) 32 c.dataReserved).toNat)
    (loops : trimLoop c.ipFragmentList r.offset r.data.length.toUInt32 = (gs, offset, size)) :
    ∃ c', combineIp 65535 c r.offset r.data r.last = some (c', c'.delivery) ∧
      c' = ⟨copyInto c.data r.offset.toNat r.data,
        extendReserved (r.offset + r.data.length.toUInt32) 32 c.dataReserved,
        if r.last then r.offset + r.data.length.toUInt32 else c.size,
        if size ≠ 0 then gs ++ [⟨offset, size⟩] else gs⟩ ∧ c'.size.toNat ≤ c'.dataReserved.toNat := by
  have small : ¬r.offset + r.data.length.toUInt32 > 65535 := by
    rw [gt_iff_lt, UInt32.lt_iff_toNat_lt, stop]
    exact Nat.not_lt.mpr bound
  have accepted : ¬(r.last = false ∧ c.size ≠ 0 ∧ r.offset + r.data.length.toUInt32 > c.size) := by
    rintro ⟨more, sized, beyond⟩
    have within := takes more sized
    rw [gt_iff_lt, UInt32.lt_iff_toNat_lt, stop] at beyond
    omega
  have holds : (if r.last then r.offset + r.data.length.toUInt32 else c.size).toNat ≤
      (extendReserved (r.offset + r.data.length.toUInt32) 32 c.dataReserved).toNat := by
    split <;> omega
  have filled : ¬(extendReserved (r.offset + r.data.length.toUInt32) 32 c.dataReserved).toNat <
      r.offset.toNat + r.data.length := Nat.not_lt.mpr room
  refine ⟨_, ?_, rfl, holds⟩
  unfold combineIp
  simp only [if_neg small, if_neg accepted, if_neg filled, loops, IpCombine.delivery]
  generalize (if r.last = true then r.offset + r.data.length.toUInt32 else c.size) = total at holds ⊢
  have within : ¬extendReserved (r.offset + r.data.length.toUInt32) 32 c.dataReserved < total := by
    rw [UInt32.lt_iff_toNat_lt]
    omega
  generalize (if size ≠ 0 then gs ++ [⟨offset, size⟩] else gs) = parts
  by_cases complete : total ≠ 0 ∧ totalSize parts = total
  · simp only [if_pos complete, if_neg within]
  · simp only [if_neg complete]

theorem combineIp_takes (holds : c.Holds taken) (fits : r.Fits) (takes : c.Takes r)
    (regular : Regular c r) : ∃ c', combineIp 65535 c r.offset r.data r.last = some (c', c'.delivery) ∧
      c'.Holds (r :: taken) ∧
      c'.size = if r.last then r.offset + r.data.length.toUInt32 else c.size := by
  have stop := fits.toNat_stop
  have bound := fits.2
  obtain ⟨gs, offset, size, loops, fs, enters, fsFits, apart, same⟩ := holds.entered fits regular
  have reserved := @extendReserved_enough (r.offset + r.data.length.toUInt32) c.dataReserved 32
    (by omega) holds.positive holds.small (by have enough := holds.enough; omega)
  rw [stop] at reserved
  obtain ⟨c', combines, rfl, held⟩ := combineIp_taken takes stop bound reserved.1
    (Nat.le_trans holds.held reserved.2.1) loops
  rw [enters] at combines held
  refine ⟨_, combines, ?_, rfl⟩
  · refine ⟨by have positive := holds.positive; simp only; omega, reserved.2.2,
      Nat.le_trans holds.enough reserved.2.1, held, fsFits, apart, same, ?_, copied_bytes holds⟩
    intro sized x known
    simp only at sized known ⊢
    rw [same, covered_cons, ← holds.same] at known
    split
    · rename_i last
      rw [stop]
      rcases known with new | old
      · exact new.2
      · exact regular.last last x old
    · rename_i more
      rw [if_neg more] at sized
      rcases known with new | old
      · exact Nat.lt_of_lt_of_le new.2 (takes (by simpa using more) sized)
      · exact holds.within sized x old

theorem combineIp_ignores (fits : r.Fits) (takes : ¬c.Takes r) :
    combineIp 65535 c r.offset r.data r.last = some (c, none) := by
  have stop := fits.toNat_stop
  have bound := fits.2
  have most : (65535 : UInt32).toNat = 65535 := rfl
  have small : ¬r.offset + r.data.length.toUInt32 > 65535 := by
    rw [gt_iff_lt, UInt32.lt_iff_toNat_lt, most, stop]
    omega
  simp only [IpCombine.Takes, not_forall] at takes
  obtain ⟨more, sized, beyond⟩ := takes
  unfold combineIp
  simp only [if_neg small]
  rw [if_pos ⟨more, sized, by rw [gt_iff_lt, UInt32.lt_iff_toNat_lt, stop]; omega⟩]

theorem IpCombine.Holds.below (holds : c.Holds taken) (x : Nat)
    (known : Covers (ranges c.ipFragmentList) x) : x < 65536 := by
  obtain ⟨range, member, inside⟩ := known
  obtain ⟨f, listed, rfl⟩ := mem_map.mp member
  have fits := holds.fits f listed
  rw [has_range] at inside
  unfold IpFragment.Fits at fits
  omega

theorem IpCombine.Holds.toNat_totalSize (holds : c.Holds taken) :
    (totalSize c.ipFragmentList).toNat = total (ranges c.ipFragmentList) := by
  have small := total_le holds.apart holds.below
  exact Reassembly.toNat_totalSize (by omega)

theorem IpCombine.Holds.delivered (holds : c.Holds taken) {out : List UInt8}
    (delivers : c.delivery = some out) : out.length = c.size.toNat ∧
      ∀ x < out.length, ∃ r ∈ taken, Has r.range x ∧ out[x]? = r.data[x - r.offset.toNat]? := by
  unfold IpCombine.delivery at delivers
  split at delivers
  · rename_i complete
    obtain ⟨sized, all⟩ := complete
    cases delivers
    refine ⟨by simp, ?_⟩
    intro x less
    rw [length_map, length_range] at less
    have counted : total (ranges c.ipFragmentList) = c.size.toNat := by rw [← holds.toNat_totalSize, all]
    have known := covers_of_total holds.apart (holds.within sized) counted x less
    obtain ⟨r, member, inside, byte⟩ := holds.bytes x ((holds.same x).mp known)
    refine ⟨r, member, inside, ?_⟩
    rw [byte, List.getElem?_map, List.getElem?_range less, Option.map_some]
  · cases delivers

def FeedsRegular (version : IpVersion) (s : Feed) (r : Received) (s' : Feed) : Prop :=
  Feeds version s r s' ∧ r.Fits ∧ (s.combine.Takes r → Regular s.combine r)

def Feed.Holds (s : Feed) : Prop :=
  s.combine.Holds s.taken ∧ ∀ out, s.delivered = some out → s.combine.delivery = some out

theorem IpVersion.combineIp_eq : version.combineIp = Reassembly.combineIp 65535 := by
  cases version <;> rfl

theorem Feed.Holds.feeds {s s' : Feed} (holds : s.Holds) (step : FeedsRegular version s r s') : s'.Holds := by
  obtain ⟨⟨fresh, combines⟩, fits, regular⟩ := step
  rw [IpVersion.combineIp_eq] at combines
  by_cases takes : s.combine.Takes r
  · obtain ⟨c', runs, later, _⟩ := combineIp_takes holds.1 fits takes (regular takes)
    rw [runs] at combines
    cases combines
    simp only [Feed.Holds, if_pos takes]
    exact ⟨later, fun out delivers => delivers⟩
  · rw [combineIp_ignores fits takes] at combines
    cases combines
    simp only [Feed.Holds, if_neg takes]
    exact ⟨holds.1, fun out delivers => by cases delivers⟩

theorem Feed.Holds.sound {s : Feed} (holds : s.Holds) : Sound s where
  apart := holds.1.apart
  inside := fun x => (holds.1.same x).mp
  noWrap := holds.1.toNat_totalSize
  counted := total_eq_card holds.1.apart holds.1.same
  delivered := fun out delivers => holds.1.delivered (holds.2 out delivers)

theorem Feed.Holds.next {s : Feed} (holds : s.Holds) (fresh : s.delivered = none) (fits : r.Fits)
    (regular : s.combine.Takes r → Regular s.combine r) : ∃ s', Feeds version s r s' := by
  by_cases takes : s.combine.Takes r
  · obtain ⟨c', runs, _⟩ := combineIp_takes holds.1 fits takes (regular takes)
    rw [← @IpVersion.combineIp_eq version] at runs
    exact ⟨_, .feed fresh runs⟩
  · have runs := combineIp_ignores fits takes
    rw [← @IpVersion.combineIp_eq version] at runs
    exact ⟨_, .feed fresh runs⟩

/-- In every run of fragments that do not come to a defect, the parts are apart and sum to what was
received, only received bytes are delivered, and the next such fragment is handled. -/
theorem se_combine_ip_sound (version : IpVersion) (memory : Nat → UInt8) (rs : List Received)
    (s : Feed) (run : Run (FeedsRegular version) (Feed.start memory) rs s) :
    Sound s ∧ ∀ r : Received, s.delivered = none → r.Fits →
      (s.combine.Takes r → Regular s.combine r) → ∃ s', Feeds version s r s' := by
  have start : (Feed.start memory).Holds := ⟨newIpCombine_holds memory, fun out none => by cases none⟩
  have holds := run.keeps Feed.Holds (fun _ _ _ step before => before.feeds step) start
  exact ⟨holds.sound, fun r fresh fits regular => holds.next fresh fits regular⟩

theorem tailKept_of_free (fits : r.Fits) {fs : List IpFragment}
    (free : ∀ x, Has r.range x → ¬Covers (ranges fs) x) : TailKept fs r.offset.toNat r.stop := by
  intro before f after split below above
  have positive := fits.positive
  have inside : Has r.range (r.stop - 1) := by
    simp only [Has, Received.range, Received.stop]
    omega
  refine absurd ⟨f.range, ?_, ?_⟩ (free (r.stop - 1) inside)
  · rw [split]
    exact mem_map_of_mem (by simp)
  · simp only [Has, IpFragment.range]
    omega

def octets (offset : UInt32) (last : Bool) : Received := ⟨offset, List.replicate 8 1, last⟩

theorem octets_fits {offset : UInt32} {last : Bool} (small : offset.toNat ≤ 65527) : (octets offset last).Fits := by
  refine ⟨by simp [octets], ?_⟩
  simp only [Received.stop, octets, length_replicate]
  omega

theorem se_combine_ip_sound_two : ∃ s : Feed, s.delivered = some (List.replicate 16 1) ∧ Sound s := by
  have first : Regular (newIpCombine fun _ => 0) (octets 0 false) :=
    ⟨tailKept_of_free (octets_fits (by decide)) fun _ _ => covers_nil, fun last => by cases last⟩
  have free : ∀ x, Has (octets 8 true).range x → ¬Covers (ranges [⟨0, 8⟩]) x := by
    intro x inside known
    simp [Has, Received.range, octets, IpFragment.range] at inside known
    omega
  refine ⟨_, ?_, (se_combine_ip_sound .v4 (fun _ => 0) [octets 0 false, octets 8 true] _
    (.cons ⟨.feed rfl rfl, octets_fits (by decide), fun _ => first⟩
      (.cons ⟨.feed rfl rfl, octets_fits (by decide), fun _ => ⟨tailKept_of_free
        (octets_fits (by decide)) free, ?_⟩⟩ (.nil _)))).1⟩
  · rfl
  · intro _ x known
    have first : Covers (ranges [⟨0, 8⟩]) x := known
    simp [Has, IpFragment.range] at first
    simp [Received.stop, octets]
    omega

/-- A last fragment that ends before what was received: sixteen bytes are delivered, of which eight
were never received. A fragment within one that was received: a part of 4294967240 bytes. -/
theorem delivered_unreceived_and_wrapped :
    (∃ s, Run (Feeds .v4) (Feed.start fun _ => 0) [octets 16 false, octets 8 true] s ∧
      s.delivered = some (List.replicate 8 0 ++ List.replicate 8 1) ∧ ¬Sound s) ∧
    ∃ s, Run (Feeds .v4) (Feed.start fun _ => 0)
        [⟨0, List.replicate 64 1, false⟩, octets 8 false] s ∧
      s.combine.ipFragmentList = [⟨0, 64⟩, ⟨8, 4294967240⟩] ∧ ¬Sound s := by
  refine ⟨⟨_, .cons (.feed rfl rfl) (.cons (.feed rfl rfl) (.nil _)), rfl, ?_⟩,
    ⟨_, .cons (.feed rfl rfl) (.cons (.feed rfl rfl) (.nil _)), rfl, ?_⟩⟩
  · intro sound
    obtain ⟨r, member, inside, _⟩ := (sound.delivered _ rfl).2 0 (by decide)
    have either : r ∈ [octets 8 true, octets 16 false] := member
    rcases mem_pair.mp either with rfl | rfl <;> exact absurd inside.1 (by decide)
  · intro sound
    exact absurd sound.noWrap (by decide)

end DisasVisor.Vpn.Reassembly
