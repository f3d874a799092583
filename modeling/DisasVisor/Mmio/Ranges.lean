import DisasVisor.Lib.Searches
import Mathlib.Algebra.Group.Nat.Defs

/-!
`core/mmio.c`: the handles of ranges of guest-physical addresses, the lists that find them, and an
access that is split between handlers and guest memory.
-/

namespace DisasVisor.Mmio

open Function Searches

structure MmioHandle where
  gphys : UInt64
  len : UInt32
  unregistered : Bool
  unlockedHandler : Bool

structure MmioData where
  mmio : Nat → List Nat
  handle : List Nat
  handles : Nat → MmioHandle
  unregisterFlag : Bool

def mmioInit : MmioData where
  mmio _ := []
  handle := []
  handles _ := { gphys := 0, len := 0, unregistered := false, unlockedHandler := false }
  unregisterFlag := false

def rangecheck (h : MmioHandle) (gphys : UInt64) (len : UInt32) : Option (UInt64 × UInt32 × Bool) :=
  if h.unregistered then none
  else
    let a := gphys - h.gphys
    let b := gphys + len.toUInt64 - 1 - h.gphys
    let c := h.gphys - h.gphys
    let d := h.gphys + h.len.toUInt64 - 1 - h.gphys
    if d < a ∧ a ≤ b then none
    else
      let a := if d < a then c else a
      let b := if d < b then d else b
      some (a + h.gphys, (b - a + 1).toUInt32, a ≤ b)

def bucket (gphys : UInt64) : Nat := if gphys ≤ 0xFFFFFFFF then (gphys >>> 28).toNat else 16

def scan (gphys : UInt64) (len : UInt32) : List Nat :=
  let last := (gphys + len.toUInt64 - 1) ||| 0x0FFFFFFF
  let first := gphys &&& ~~~0x0FFFFFFF
  List.range' (bucket first) (bucket last + 1 - bucket first)

namespace MmioData

variable (s : MmioData)

def add (i p : Nat) : MmioData :=
  let later d := decide ((s.handles p).gphys < (s.handles d).gphys)
  { s with mmio := update s.mmio i (insertBefore later p (s.mmio i)) }

def del (i p : Nat) : MmioData := { s with mmio := update s.mmio i ((s.mmio i).erase p) }

def addAll (gphys : UInt64) (len : UInt32) (p : Nat) : MmioData := (scan gphys len).foldl (fun s i => s.add i p) s

def delAll (gphys : UInt64) (len : UInt32) (p : Nat) : MmioData := (scan gphys len).foldl (fun s i => s.del i p) s

/-- `mmio_register_internal` with the memory of the new handle at `p`; `flushFails` is the result
of `flush_tlb_entry`. -/
def register (p : Nat) (gphys : UInt64) (len : UInt32) (unlockedHandler flushFails : Bool) : MmioData :=
  if s.handle.any (fun q => (rangecheck (s.handles q) gphys len).isSome) then s
  else if flushFails then s
  else
    let h : MmioHandle := {
      gphys := gphys
      len := len
      unregistered := false
      unlockedHandler := unlockedHandler }
    { s with handles := update s.handles p h, handle := s.handle ++ [p] }.addAll gphys len p

/-- What `mmio_unregister` and `mmio_unlock` do to take a handle out. -/
def remove (p : Nat) : MmioData := { s with handle := s.handle.erase p }.delAll (s.handles p).gphys (s.handles p).len p

/-- `mmio_unregister`; `held` is the result of `rw_spinlock_trylock_ex`. -/
def unregister (p : Nat) (held : Bool) : MmioData :=
  if held then
    { s with
      handles := update s.handles p { s.handles p with unregistered := true }
      unregisterFlag := true }
  else s.remove p

/-- The loop of `mmio_unlock`; the memory of a handle that is freed still has the pointer to the
next one. -/
def sweep : List Nat → MmioData → MmioData
  | [], s => s
  | p :: rest, s => sweep rest (if (s.handles p).unregistered then s.remove p else s)

def unlock (held : Bool) : MmioData :=
  if s.unregisterFlag ∧ ¬held then sweep s.handle { s with unregisterFlag := false } else s

end MmioData

inductive Target where
  | handler (p : Nat) (accepted : Bool)
  | memory
  deriving DecidableEq

structure Transfer where
  target : Target
  gphys : UInt64
  q : Nat
  len : UInt32

structure Access where
  gphysaddr : UInt64
  q : Nat
  len : UInt32
  r : Bool
  unlockedHandler : Option (Nat × UInt64 × Nat × UInt32)
  calls : List Transfer

abbrev Answer := List Transfer → Nat → UInt64 → Nat → UInt32 → Bool

namespace Access

variable (a : Access)

def gphysAccess (gphys : UInt64) (q : Nat) (len : UInt32) : Access :=
  if len = 0 then a
  else { a with calls := a.calls ++ [{ target := .memory, gphys := gphys, q := q, len := len }] }

def callHandler (answer : Answer) (p : Nat) (gphys : UInt64) (q : Nat) (len : UInt32) : Access :=
  let accepted := answer a.calls p gphys q len
  let called := { a with
    calls := a.calls ++
      [{ target := .handler p accepted, gphys := gphys, q := q, len := len }] }
  if accepted then called else called.gphysAccess gphys q len

def advance (len : UInt32) : Access :=
  { a with gphysaddr := a.gphysaddr + len.toUInt64, q := a.q + len.toNat, len := a.len - len }

end Access

inductive Progress where
  | next (a : Access)
  | out (a : Access)
  | panic

namespace MmioData

variable (s : MmioData) (answer : Answer)

def accessFound (p : Nat) (gphys2 : UInt64) (len2 : UInt32) (a : Access) : Progress :=
  let tmp := (gphys2 - a.gphysaddr).toUInt32
  let a := ({ a with r := true }.gphysAccess a.gphysaddr a.q tmp).advance tmp
  if (s.handles p).unlockedHandler ∧ a.unlockedHandler.isSome then .panic
  else
    let a :=
      if (s.handles p).unlockedHandler then
        { a with unlockedHandler := some (p, a.gphysaddr, a.q, len2) }
      else a.callHandler answer p a.gphysaddr a.q len2
    let a := a.advance len2
    if a.len = 0 then .out a else .next a

def accessHandle (p : Nat) (a : Access) : Progress :=
  let h := s.handles p
  if h.gphys ≥ a.gphysaddr + a.len.toUInt64 then .out a
  else
    match rangecheck h a.gphysaddr a.len with
    | none => .next a
    | some (gphys2, len2, f) => if f then s.accessFound answer p gphys2 len2 a else .panic

def accessLoop : List Nat → Access → Progress
  | [], a => .next a
  | p :: rest, a =>
    match s.accessHandle answer p a with
    | .next a => accessLoop rest a
    | .out a => .out a
    | .panic => .panic

def accessOut (a : Access) : Bool × List Transfer :=
  let a := if a.r then a.gphysAccess a.gphysaddr a.q a.len else a
  match a.unlockedHandler with
  | none => (a.r, a.calls)
  | some (p, gphys, q, len) => (a.r, (a.callHandler answer p gphys q len).calls)

def mmioAccessMemory (gphysaddr : UInt64) (len : UInt32) : Option (Bool × List Transfer) :=
  let i := bucket gphysaddr
  let j := bucket (gphysaddr + len.toUInt64 - 1)
  let a : Access := {
    gphysaddr := gphysaddr
    q := 0
    len := len
    r := false
    unlockedHandler := none
    calls := [] }
  let ended :=
    if len = 0 then .out a
    else s.accessLoop answer ((List.range' i (j + 1 - i)).flatMap s.mmio) a
  match ended with
  | .next a => some (accessOut answer a)
  | .out a => some (accessOut answer a)
  | .panic => none

end MmioData

variable {h : MmioHandle} {gphys gphys2 : UInt64} {len len2 : UInt32} {f : Bool}

def MmioHandle.Covers (h : MmioHandle) (x : Nat) : Prop := h.gphys.toNat ≤ x ∧ x < h.gphys.toNat + h.len.toNat

def Plain (gphys : UInt64) (len : UInt32) : Prop := 0 < len.toNat ∧ gphys.toNat + len.toNat ≤ 2 ^ 64

theorem toNat_sub (x y : UInt64) : (x - y).toNat =
    if y.toNat ≤ x.toNat then x.toNat - y.toNat else x.toNat + 2 ^ 64 - y.toNat := by
  have xBound := x.toNat_lt
  have yBound := y.toNat_lt
  rw [UInt64.toNat_sub]
  split <;> omega

theorem toNat_last (plain : Plain gphys len) : (gphys + len.toUInt64 - 1).toNat = gphys.toNat + len.toNat - 1 := by
  obtain ⟨positive, fits⟩ := plain
  have one := UInt64.toNat_one
  rw [toNat_sub, UInt64.toNat_add, UInt32.toNat_toUInt64, one]
  split <;> omega

theorem rangecheck_unregistered (gone : h.unregistered = true) : rangecheck h gphys len = none := by
  rw [rangecheck, if_pos gone]

theorem rangecheck_none (registered : h.unregistered = false) (hPlain : Plain h.gphys h.len)
    (plain : Plain gphys len) : rangecheck h gphys len = none ↔
      gphys.toNat + len.toNat ≤ h.gphys.toNat ∨ h.gphys.toNat + h.len.toNat ≤ gphys.toNat := by
  have last := toNat_last plain
  have hLast := toNat_last hPlain
  have bound := len.toNat_lt
  have hBound := h.len.toNat_lt
  obtain ⟨positive, fits⟩ := plain
  obtain ⟨hPositive, hFits⟩ := hPlain
  simp only [rangecheck, registered, Bool.false_eq_true, if_false, ite_eq_left_iff, reduceCtorEq,
    imp_false, not_not, UInt64.lt_iff_toNat_lt, UInt64.le_iff_toNat_le, toNat_sub, last, hLast]
  split <;> split <;> split <;> omega

theorem part_toNat {a b c : UInt64} (le : a.toNat ≤ b.toNat) (fits : c.toNat + b.toNat < 2 ^ 64)
    (short : b.toNat - a.toNat + 1 < 2 ^ 32) : (a + c).toNat = c.toNat + a.toNat ∧
      (b - a + 1).toUInt32.toNat = b.toNat - a.toNat + 1 := by
  have one := UInt64.toNat_one
  rw [UInt64.toNat_add, UInt64.toNat_toUInt32, UInt64.toNat_add, toNat_sub, if_pos le, one]
  omega

theorem rangecheck_some (registered : h.unregistered = false) (hPlain : Plain h.gphys h.len)
    (plain : Plain gphys len) (found : rangecheck h gphys len = some (gphys2, len2, f)) :
    f = true ∧ gphys2.toNat = max gphys.toNat h.gphys.toNat ∧
      gphys2.toNat + len2.toNat = min (gphys.toNat + len.toNat) (h.gphys.toNat + h.len.toNat) ∧ 0 < len2.toNat := by
  have last := toNat_last plain
  have hLast := toNat_last hPlain
  have bound := len.toNat_lt
  have hBound := h.len.toNat_lt
  obtain ⟨positive, fits⟩ := plain
  obtain ⟨hPositive, hFits⟩ := hPlain
  simp only [rangecheck, registered, Bool.false_eq_true, if_false, Option.ite_none_left_eq_some,
    Option.some.injEq, Prod.mk.injEq] at found
  obtain ⟨meets, rfl, rfl, rfl⟩ := found
  generalize aIs : gphys - h.gphys = a at *
  generalize bIs : gphys + len.toUInt64 - 1 - h.gphys = b at *
  generalize cIs : h.gphys - h.gphys = c at *
  generalize dIs : h.gphys + h.len.toUInt64 - 1 - h.gphys = d at *
  have cNat : c.toNat = 0 := by rw [← cIs, UInt64.sub_self]; rfl
  have dNat : d.toNat = h.len.toNat - 1 := by rw [← dIs, toNat_sub, hLast]; split <;> omega
  have aNat := toNat_sub gphys h.gphys
  have bNat := toNat_sub (gphys + len.toUInt64 - 1) h.gphys
  rw [aIs] at aNat
  rw [bIs, last] at bNat
  simp only [UInt64.lt_iff_toNat_lt, UInt64.le_iff_toNat_le, dNat] at meets
  simp only [UInt64.lt_iff_toNat_lt, UInt64.le_iff_toNat_le, dNat, decide_eq_true_eq]
  by_cases below : gphys.toNat < h.gphys.toNat
  · rw [if_neg (by omega)] at aNat
    have reaches : h.gphys.toNat ≤ gphys.toNat + len.toNat - 1 := by
      by_contra short
      rw [if_neg short] at bNat
      omega
    rw [if_pos reaches] at bNat
    rw [if_pos (by omega)]
    by_cases ends : h.len.toNat - 1 < b.toNat
    · rw [if_pos ends]
      obtain ⟨first, size⟩ := @part_toNat c d h.gphys (by omega) (by omega) (by omega)
      omega
    · rw [if_neg ends]
      obtain ⟨first, size⟩ := @part_toNat c b h.gphys (by omega) (by omega) (by omega)
      omega
  · rw [if_pos (by omega)] at aNat
    rw [if_pos (by omega)] at bNat
    rw [if_neg (by omega)]
    by_cases ends : h.len.toNat - 1 < b.toNat
    · rw [if_pos ends]
      obtain ⟨first, size⟩ := @part_toNat a d h.gphys (by omega) (by omega) (by omega)
      omega
    · rw [if_neg ends]
      obtain ⟨first, size⟩ := @part_toNat a b h.gphys (by omega) (by omega) (by omega)
      omega

def window (x : Nat) : Nat := min (x / 2 ^ 28) 16

theorem window_mono {x y : Nat} (le : x ≤ y) : window x ≤ window y := by
  have scaled := Nat.div_le_div_right (c := 2 ^ 28) le
  unfold window
  omega

theorem bucket_eq (gphys : UInt64) : bucket gphys = window gphys.toNat := by
  have shift : (28 : UInt64).toNat % 64 = 28 := rfl
  have limit : (0xFFFFFFFF : UInt64).toNat = 2 ^ 32 - 1 := rfl
  unfold bucket window
  simp only [UInt64.le_iff_toNat_le, UInt64.toNat_shiftRight, shift, limit, Nat.shiftRight_eq_div_pow]
  split <;> omega

theorem bucket_of_shift {x y : UInt64} (same : x.toNat >>> 28 = y.toNat >>> 28) : bucket x = bucket y := by
  rw [Nat.shiftRight_eq_div_pow, Nat.shiftRight_eq_div_pow] at same
  rw [bucket_eq, bucket_eq, window, window, same]

theorem bucket_or (x : UInt64) : bucket (x ||| 0x0FFFFFFF) = bucket x := by
  have low : (0x0FFFFFFF : UInt64).toNat >>> 28 = 0 := rfl
  apply bucket_of_shift
  rw [UInt64.toNat_or, Nat.shiftRight_or_distrib, low, Nat.or_zero]

theorem bucket_and (x : UInt64) : bucket (x &&& ~~~0x0FFFFFFF) = bucket x := by
  have high : (~~~0x0FFFFFFF : UInt64).toNat >>> 28 = 2 ^ 36 - 1 := rfl
  have bound := x.toNat_lt
  apply bucket_of_shift
  rw [UInt64.toNat_and, Nat.shiftRight_and_distrib, high, Nat.and_two_pow_sub_one_eq_mod, Nat.mod_eq_of_lt]
  rw [Nat.shiftRight_eq_div_pow]
  omega

def MmioHandle.Meets (h : MmioHandle) (i : Nat) : Prop := ∃ x, h.Covers x ∧ window x = i

theorem meets_iff (plain : Plain h.gphys h.len) (i : Nat) :
    h.Meets i ↔ window h.gphys.toNat ≤ i ∧ i ≤ window (h.gphys.toNat + h.len.toNat - 1) := by
  obtain ⟨positive, -⟩ := plain
  constructor
  · rintro ⟨x, ⟨low, high⟩, rfl⟩
    exact ⟨window_mono low, window_mono (by omega)⟩
  · rintro ⟨low, high⟩
    unfold window at low high
    refine ⟨max h.gphys.toNat (i * 2 ^ 28), ⟨?_, ?_⟩, ?_⟩
    · omega
    · omega
    · unfold window
      omega

theorem mem_scan (plain : Plain h.gphys h.len) (i : Nat) : i ∈ scan h.gphys h.len ↔ h.Meets i := by
  rw [scan, List.mem_range'_1, bucket_or, bucket_and, bucket_eq, bucket_eq, toNat_last plain, meets_iff plain]
  omega

theorem nodup_scan (gphys : UInt64) (len : UInt32) : (scan gphys len).Nodup := List.nodup_range'

end DisasVisor.Mmio
