import DisasVisor.Lib.Intervals

/-!
`Se4CombineIp` of `vpn/lib/Se/SeIp4.c` and its copy `Se6CombineIp` of `SeIp6.c`: the fragments of one
datagram are put together.
-/

namespace DisasVisor.Vpn.Reassembly

structure IpFragment where
  offset : UInt32
  size : UInt32
  deriving DecidableEq

namespace IpFragment

def stop (f : IpFragment) : UInt32 := f.offset + f.size

end IpFragment

/-- What reassembly uses of `SE_IPV4_COMBINE` and `SE_IPV6_COMBINE`. `data` is the allocated memory,
of which `dataReserved` bytes are there; what it has before something is written is not known. -/
structure IpCombine where
  data : Nat → UInt8
  dataReserved : UInt32
  size : UInt32
  ipFragmentList : List IpFragment

def seIp4MaxPayloadSize : UInt32 := 65535

def seIp6MaxPayloadSize : UInt32 := 65535

def seIpCombineInitialBufSize : UInt32 := 4096

def newIpCombine (memory : Nat → UInt8) : IpCombine where
  data := memory
  dataReserved := seIpCombineInitialBufSize
  size := 0
  ipFragmentList := []

def extendReserved (needSize : UInt32) : Nat → UInt32 → UInt32
  | 0, dataReserved => dataReserved
  | fuel + 1, dataReserved =>
    if dataReserved < needSize then extendReserved needSize fuel (dataReserved * 4)
    else dataReserved

def copyInto (data : Nat → UInt8) (offset : Nat) (src : List UInt8) : Nat → UInt8 :=
  fun x => if offset ≤ x then src.getD (x - offset) (data x) else data x

def trimEntry (f : IpFragment) (offset size : UInt32) : IpFragment × UInt32 × UInt32 :=
  let (offset, size) :=
    if f.offset ≤ offset ∧ f.stop > offset then
      if offset + size ≤ f.stop then (offset, 0)
      else (offset + (f.stop - offset), size - (f.stop - offset))
    else (offset, size)
  let size :=
    if f.offset < offset + size ∧ f.stop ≥ offset + size then size - (f.stop - offset - size)
    else size
  let f := if f.offset ≥ offset ∧ f.stop ≤ offset + size then { f with size := 0 } else f
  (f, offset, size)

def trimLoop : List IpFragment → UInt32 → UInt32 → List IpFragment × UInt32 × UInt32
  | [], offset, size => ([], offset, size)
  | f :: fs, offset, size =>
    let (f, offset, size) := trimEntry f offset size
    let (fs, offset, size) := trimLoop fs offset size
    (f :: fs, offset, size)

def totalSize : List IpFragment → UInt32
  | [] => 0
  | f :: fs => f.size + totalSize fs

/-- `Se4CombineIp` and `Se6CombineIp`: the combine object after a fragment, and the bytes that
`Se4RecvIpComplete` gets, if it is called; then the object is freed. `none` is an access beyond the
buffer. -/
def combineIp (maxPayloadSize : UInt32) (c : IpCombine) (offset : UInt32) (data : List UInt8)
    (lastPacket : Bool) : Option (IpCombine × Option (List UInt8)) :=
  let size : UInt32 := data.length.toUInt32
  if offset + size > maxPayloadSize then some (c, none)
  else if lastPacket = false ∧ c.size ≠ 0 ∧ offset + size > c.size then some (c, none)
  else
    let dataReserved := extendReserved (offset + size) 32 c.dataReserved
    if dataReserved.toNat < offset.toNat + data.length then none
    else
      let buffer := copyInto c.data offset.toNat data
      let total := if lastPacket then offset + size else c.size
      let (fs, newOffset, newSize) := trimLoop c.ipFragmentList offset size
      let fs := if newSize ≠ 0 then fs ++ [{ offset := newOffset, size := newSize }] else fs
      let c : IpCombine := { data := buffer, dataReserved := dataReserved, size := total, ipFragmentList := fs }
      if total ≠ 0 ∧ totalSize fs = total then
        if dataReserved < total then none
        else some (c, some ((List.range total.toNat).map buffer))
      else some (c, none)

def se4CombineIp : IpCombine → UInt32 → List UInt8 → Bool → Option (IpCombine × Option (List UInt8)) :=
  combineIp seIp4MaxPayloadSize

def se6CombineIp : IpCombine → UInt32 → List UInt8 → Bool → Option (IpCombine × Option (List UInt8)) :=
  combineIp seIp6MaxPayloadSize

/-!
What the loop of `Se4CombineIp` over the received parts does to them and to the new fragment, as far
as it does not come to the branch that trims the end of the fragment.
-/

open UInt32 (toNat_add le_iff_toNat_le lt_iff_toNat_lt toNat_sub)
open Intervals

namespace IpFragment

def range (f : IpFragment) : Interval := (f.offset.toNat, f.size.toNat)

def Fits (f : IpFragment) : Prop := f.offset.toNat + f.size.toNat ≤ 65535

end IpFragment

def ranges (fs : List IpFragment) : List Interval := fs.map IpFragment.range

variable {f g : IpFragment} {fs gs : List IpFragment} {offset size offset' size' : UInt32} {x : Nat}

@[simp] theorem ranges_nil : ranges [] = [] := rfl

@[simp] theorem ranges_cons : ranges (f :: fs) = f.range :: ranges fs := rfl

theorem has_range : Has f.range x ↔ f.offset.toNat ≤ x ∧ x < f.offset.toNat + f.size.toNat := Iff.rfl

theorem IpFragment.Fits.toNat_stop (fits : f.Fits) : f.stop.toNat = f.offset.toNat + f.size.toNat := by
  unfold IpFragment.Fits at fits
  rw [IpFragment.stop, toNat_add]
  omega

theorem toNat_end (fits : offset.toNat + size.toNat ≤ 65535) : (offset + size).toNat = offset.toNat + size.toNat := by
  rw [toNat_add]
  omega

section

variable (fits : f.Fits)
include fits

section

variable (part : offset.toNat + size.toNat ≤ 65535)
include part

theorem trimEntry_free (left : 0 < size.toNat) (free : f.offset.toNat + f.size.toNat ≤ offset.toNat ∨
      offset.toNat + size.toNat ≤ f.offset.toNat ∨ f.size.toNat = 0) :
    trimEntry f offset size = (f, offset, size) := by
  have stop := fits.toNat_stop
  have ends := toNat_end part
  have front : ¬(f.offset ≤ offset ∧ f.stop > offset) := by
    simp only [gt_iff_lt, le_iff_toNat_le, lt_iff_toNat_lt, stop]
    omega
  have tail : ¬(f.offset < offset + size ∧ f.stop ≥ offset + size) := by
    simp only [ge_iff_le, le_iff_toNat_le, lt_iff_toNat_lt, stop, ends]
    omega
  unfold trimEntry
  rw [if_neg front]
  dsimp only
  rw [if_neg tail]
  split
  · rename_i within
    simp only [ge_iff_le, le_iff_toNat_le, stop, ends] at within
    have none : f.size = 0 := UInt32.toNat_inj.mp (show f.size.toNat = 0 by omega)
    rw [← none]
  · rfl

theorem trimEntry_front (low : f.offset.toNat ≤ offset.toNat) (high : offset.toNat < f.offset.toNat + f.size.toNat)
    (short : f.offset.toNat + f.size.toNat < offset.toNat + size.toNat) :
    ∃ offset' size', trimEntry f offset size = (f, offset', size') ∧
      offset'.toNat = f.offset.toNat + f.size.toNat ∧
      offset'.toNat + size'.toNat = offset.toNat + size.toNat := by
  have stop := fits.toNat_stop
  have ends := toNat_end part
  have moving : (f.stop - offset).toNat = f.offset.toNat + f.size.toNat - offset.toNat := by
    rw [toNat_sub]
    omega
  have offset' : (offset + (f.stop - offset)).toNat = f.offset.toNat + f.size.toNat := by
    rw [toNat_add]
    omega
  have size' : (size - (f.stop - offset)).toNat = offset.toNat + size.toNat - (f.offset.toNat + f.size.toNat) := by
    rw [toNat_sub]
    omega
  have ends' := @toNat_end (offset + (f.stop - offset)) (size - (f.stop - offset)) (by omega)
  have front : f.offset ≤ offset ∧ f.stop > offset := by
    simp only [gt_iff_lt, le_iff_toNat_le, lt_iff_toNat_lt, stop]
    omega
  have long : ¬offset + size ≤ f.stop := by
    simp only [le_iff_toNat_le, stop, ends]
    omega
  have tail : ¬(f.offset < offset + (f.stop - offset) + (size - (f.stop - offset)) ∧
      f.stop ≥ offset + (f.stop - offset) + (size - (f.stop - offset))) := by
    simp only [ge_iff_le, le_iff_toNat_le, lt_iff_toNat_lt, stop, ends']
    omega
  have kept : ¬(f.offset ≥ offset + (f.stop - offset) ∧
      f.stop ≤ offset + (f.stop - offset) + (size - (f.stop - offset))) := by
    simp only [ge_iff_le, le_iff_toNat_le, stop, ends']
    omega
  refine ⟨offset + (f.stop - offset), size - (f.stop - offset), ?_, offset', by omega⟩
  unfold trimEntry
  rw [if_pos front, if_neg long]
  dsimp only
  rw [if_neg tail, if_neg kept]

theorem trimEntry_known (left : 0 < size.toNat) (same : f.offset.toNat = offset.toNat)
    (long : offset.toNat + size.toNat ≤ f.offset.toNat + f.size.toNat) :
    trimEntry f offset size = (f, offset, 0) := by
  have stop := fits.toNat_stop
  have ends := toNat_end part
  have front : f.offset ≤ offset ∧ f.stop > offset := by
    simp only [gt_iff_lt, le_iff_toNat_le, lt_iff_toNat_lt, stop]
    omega
  have all : offset + size ≤ f.stop := by
    simp only [le_iff_toNat_le, stop, ends]
    omega
  have tail : ¬(f.offset < offset + 0 ∧ f.stop ≥ offset + 0) := by
    simp only [UInt32.add_zero, lt_iff_toNat_lt]
    omega
  have kept : ¬(f.offset ≥ offset ∧ f.stop ≤ offset + 0) := by
    simp only [UInt32.add_zero, le_iff_toNat_le, stop]
    omega
  unfold trimEntry
  rw [if_pos front, if_pos all]
  dsimp only
  rw [if_neg tail, if_neg kept]

theorem trimEntry_covered (above : offset.toNat < f.offset.toNat) (left : 0 < f.size.toNat)
    (within : f.offset.toNat + f.size.toNat ≤ offset.toNat + size.toNat) :
    trimEntry f offset size = ({ f with size := 0 }, offset, size) := by
  have stop := fits.toNat_stop
  have ends := toNat_end part
  have front : ¬(f.offset ≤ offset ∧ f.stop > offset) := by
    simp only [le_iff_toNat_le]
    omega
  -- the branch for the end is taken when both end at the same byte; then it takes nothing away
  have tail : (if f.offset < offset + size ∧ f.stop ≥ offset + size then
      size - (f.stop - offset - size) else size) = size := by
    split
    · rename_i ending
      simp only [ge_iff_le, le_iff_toNat_le, stop, ends] at ending
      rw [← UInt32.toNat_inj, toNat_sub, toNat_sub, toNat_sub]
      omega
    · rfl
  have covers : f.offset ≥ offset ∧ f.stop ≤ offset + size := by
    simp only [ge_iff_le, le_iff_toNat_le, stop, ends]
    omega
  unfold trimEntry
  rw [if_neg front]
  dsimp only
  rw [tail, if_pos covers]

end

theorem trimEntry_zero (bound : offset.toNat ≤ 65535)
    (free : ¬Has f.range offset.toNat) : trimEntry f offset 0 = (f, offset, 0) := by
  have stop := fits.toNat_stop
  rw [has_range] at free
  have front : ¬(f.offset ≤ offset ∧ f.stop > offset) := by
    simp only [gt_iff_lt, le_iff_toNat_le, lt_iff_toNat_lt, stop]
    omega
  have tail : (if f.offset < offset + 0 ∧ f.stop ≥ offset + 0 then
      0 - (f.stop - offset - 0) else (0 : UInt32)) = 0 := by
    split
    · rename_i ending
      simp only [UInt32.add_zero, ge_iff_le, le_iff_toNat_le, lt_iff_toNat_lt, stop] at ending
      rw [UInt32.sub_zero, ← UInt32.toNat_inj, toNat_sub, toNat_sub]
      have zero := UInt32.toNat_zero
      omega
    · rfl
  unfold trimEntry
  rw [if_neg front]
  dsimp only
  rw [tail]
  split
  · rename_i within
    simp only [UInt32.add_zero, ge_iff_le, le_iff_toNat_le, stop] at within
    have none : f.size = 0 := UInt32.toNat_inj.mp (show f.size.toNat = 0 by omega)
    rw [← none]
  · rfl

end

structure Trimmed (fs : List IpFragment) (offset size : UInt32) (gs : List IpFragment)
    (offset' size' : UInt32) : Prop where
  fits : ∀ g ∈ gs, g.Fits
  bound : offset'.toNat + size'.toNat ≤ 65535
  apart : Apart (ranges gs)
  fewer : ∀ x, Covers (ranges gs) x → Covers (ranges fs) x
  part : ∀ x, Has (offset'.toNat, size'.toNat) x → Has (offset.toNat, size.toNat) x
  free : ∀ x, Has (offset'.toNat, size'.toNat) x → ¬Covers (ranges gs) x
  same : ∀ x, Covers (ranges gs) x ∨ Has (offset'.toNat, size'.toNat) x ↔
    Covers (ranges fs) x ∨ Has (offset.toNat, size.toNat) x

theorem trimLoop_zero (fits : ∀ f ∈ fs, f.Fits) (bound : offset.toNat ≤ 65535)
    (free : ¬Covers (ranges fs) offset.toNat) : trimLoop fs offset 0 = (fs, offset, 0) := by
  induction fs with
  | nil => rfl
  | cons f fs ih =>
    rw [ranges_cons, covers_cons] at free
    unfold trimLoop
    rw [trimEntry_zero (fits f (List.mem_cons_self ..)) bound fun inside => free (.inl inside)]
    dsimp only
    rw [ih (fun f member => fits f (List.mem_cons_of_mem _ member)) fun inside =>
      free (.inr inside)]

theorem Trimmed.keep {middle rest : UInt32} (fits : f.Fits)
    (trimmed : Trimmed fs middle rest gs offset' size')
    (apart : ∀ x, Has f.range x → ¬Covers (ranges fs) x)
    (less : ∀ x, Has (middle.toNat, rest.toNat) x → Has (offset.toNat, size.toNat) x)
    (away : ∀ x, Has (middle.toNat, rest.toNat) x → ¬Has f.range x)
    (all : ∀ x, Has (offset.toNat, size.toNat) x → Has f.range x ∨ Has (middle.toNat, rest.toNat) x) :
    Trimmed (f :: fs) offset size (f :: gs) offset' size' where
  fits := List.forall_mem_cons.mpr ⟨fits, trimmed.fits⟩
  bound := trimmed.bound
  apart := apart_cons.mpr
    ⟨fun x inside covered => apart x inside (trimmed.fewer x covered), trimmed.apart⟩
  fewer := fun x covered => by
    rw [ranges_cons, covers_cons] at covered ⊢
    exact covered.imp_right (trimmed.fewer x)
  part := fun x inside => less x (trimmed.part x inside)
  free := fun x inside covered => by
    rw [ranges_cons, covers_cons] at covered
    rcases covered with head | tail
    · exact away x (trimmed.part x inside) head
    · exact trimmed.free x inside tail
  same := fun x => by
    have rest := trimmed.same x
    have first := less x
    have second := all x
    rw [ranges_cons, ranges_cons, covers_cons, covers_cons]
    tauto

theorem Trimmed.empty (trimmed : Trimmed fs offset size gs offset' size') (fits : f.Fits)
    (within : ∀ x, Has f.range x → Has (offset.toNat, size.toNat) x) :
    Trimmed (f :: fs) offset size ({ f with size := 0 } :: gs) offset' size' := by
  have nothing : ∀ x, ¬Has ({ f with size := 0 } : IpFragment).range x := by
    intro x inside
    have zero := UInt32.toNat_zero
    simp only [has_range, zero] at inside
    omega
  refine ⟨List.forall_mem_cons.mpr ⟨?_, trimmed.fits⟩, trimmed.bound, apart_cons.mpr
    ⟨fun x inside => absurd inside (nothing x), trimmed.apart⟩, ?_, trimmed.part, ?_, ?_⟩
  · have zero := UInt32.toNat_zero
    simp only [IpFragment.Fits, zero] at fits ⊢
    omega
  · intro x covered
    rw [ranges_cons, covers_cons] at covered ⊢
    exact .inr (trimmed.fewer x (covered.resolve_left (nothing x)))
  · intro x inside covered
    rw [ranges_cons, covers_cons] at covered
    exact trimmed.free x inside (covered.resolve_left (nothing x))
  · intro x
    have rest := trimmed.same x
    have head := within x
    have none := nothing x
    rw [ranges_cons, ranges_cons, covers_cons, covers_cons]
    tauto

def startAfter : List IpFragment → Nat → Nat
  | [], offset => offset
  | f :: fs, offset =>
    startAfter fs (if f.offset.toNat ≤ offset ∧ offset < f.offset.toNat + f.size.toNat then
      f.offset.toNat + f.size.toNat else offset)

/-- The entry that has the last byte of the new fragment begins where the fragment begins when the
loop comes to it, or ends with the fragment. -/
def TailKept (fs : List IpFragment) (offset stop : Nat) : Prop :=
  ∀ before f after, fs = before ++ f :: after → f.offset.toNat < stop →
    stop ≤ f.offset.toNat + f.size.toNat →
      f.offset.toNat = startAfter before offset ∨
        (startAfter before offset < f.offset.toNat ∧ f.offset.toNat + f.size.toNat = stop)

theorem TailKept.tail {start stop : Nat} (kept : TailKept (f :: fs) start stop) :
    TailKept fs (if f.offset.toNat ≤ start ∧ start < f.offset.toNat + f.size.toNat then
      f.offset.toNat + f.size.toNat else start) stop :=
  fun before g after split below above => kept (f :: before) g after (by rw [split]; rfl) below above

theorem trimLoop_trimmed (fits : ∀ f ∈ fs, f.Fits) (apart : Apart (ranges fs))
    (part : offset.toNat + size.toNat ≤ 65535) (left : 0 < size.toNat)
    (kept : TailKept fs offset.toNat (offset.toNat + size.toNat)) :
    ∃ gs offset' size', trimLoop fs offset size = (gs, offset', size') ∧ Trimmed fs offset size gs offset' size' := by
  induction fs generalizing offset size with
  | nil =>
    exact ⟨[], offset, size, rfl, by simp, part, apart_nil, fun _ covered => covered,
      fun _ inside => inside, fun _ _ => covers_nil, fun _ => Iff.rfl⟩
  | cons f fs ih =>
    obtain ⟨first, rest⟩ := apart_cons.mp apart
    have headFits := fits f (List.mem_cons_self ..)
    have restFits : ∀ f ∈ fs, f.Fits := fun f member => fits f (List.mem_cons_of_mem _ member)
    have here := kept [] f fs rfl
    have later := kept.tail
    simp only [startAfter] at here
    by_cases front : f.offset.toNat ≤ offset.toNat ∧ offset.toNat < f.offset.toNat + f.size.toNat
    · rw [if_pos front] at later
      by_cases short : f.offset.toNat + f.size.toNat < offset.toNat + size.toNat
      · obtain ⟨middle, size₁, trims, start, ends⟩ :=
          trimEntry_front headFits part front.1 front.2 short
        obtain ⟨gs, offset', size', loops, trimmed⟩ := @ih middle size₁ restFits rest (by omega)
          (by omega) (by rw [ends, start]; exact later)
        unfold trimLoop
        rw [trims]
        simp only [loops]
        refine ⟨_, _, _, rfl, trimmed.keep headFits first ?_ ?_ ?_⟩ <;>
          intro x inside <;> simp only [Has, IpFragment.range] at inside ⊢ <;> omega
      · have same := (here (by omega) (by omega)).resolve_right (by omega)
        unfold trimLoop
        rw [trimEntry_known headFits part left same (by omega)]
        dsimp only
        rw [trimLoop_zero restFits (by omega) (first offset.toNat front)]
        have zero := UInt32.toNat_zero
        refine ⟨f :: fs, offset, 0, rfl, fits, by omega, apart, fun _ covered => covered, ?_, ?_, ?_⟩
        · intro x inside
          simp only [Has, zero] at inside
          omega
        · intro x inside
          simp only [Has, zero] at inside
          omega
        · intro x
          have nothing : ¬Has (offset.toNat, (0 : UInt32).toNat) x := by
            simp only [Has, zero]
            omega
          have known : Has (offset.toNat, size.toNat) x → Has f.range x := by
            simp only [Has, IpFragment.range]
            omega
          rw [ranges_cons, covers_cons]
          tauto
    · rw [if_neg front] at later
      obtain ⟨gs, offset', size', loops, trimmed⟩ := ih restFits rest part left later
      unfold trimLoop
      by_cases covered : offset.toNat < f.offset.toNat ∧ 0 < f.size.toNat ∧ f.offset.toNat < offset.toNat + size.toNat
      · have within : f.offset.toNat + f.size.toNat ≤ offset.toNat + size.toNat := by
          by_contra beyond
          have ends := (here covered.2.2 (by omega)).resolve_left (by omega)
          omega
        rw [trimEntry_covered headFits part covered.1 covered.2.1 within]
        simp only [loops]
        refine ⟨_, _, _, rfl, trimmed.empty headFits ?_⟩
        intro x inside
        simp only [Has, IpFragment.range] at inside ⊢
        omega
      · rw [trimEntry_free headFits part left (by omega)]
        simp only [loops]
        refine ⟨_, _, _, rfl, trimmed.keep headFits first (fun _ inside => inside) ?_
          fun _ inside => .inr inside⟩
        intro x inside
        simp only [Has, IpFragment.range] at inside ⊢
        omega

end DisasVisor.Vpn.Reassembly
