import DisasVisor.Mm.BuddyInvariant

/-!
The heap of `core/mm.c`: pages from the buddy system, and slots of pages that are cut for one
class of sizes each. The header of such a page is kept apart from the memory of the callers.
-/

namespace DisasVisor.Mm

open Function

def numOfAlloclist : Nat := 7

def alloclistSize (n : Nat) : Nat := 2 ^ n * 16
def alloclistDatabit (n : Nat) : Nat := pagesize / alloclistSize n
def alloclistDatasize (n : Nat) : Nat := (alloclistDatabit n + 7) / 8

def alloclistHeadersize (n : Nat) : Nat := 24 + alloclistDatasize n - 1

/-- `struct allocdata`: the class with the flag of a page off its list, and a bit for each slot. -/
structure Allocdata where
  n : BitVec 8
  data : Nat → BitVec 8

structure Heap where
  buddy : Buddy
  alloclist : Nat → List Nat
  header : Nat → Allocdata
  memory : Nat → UInt8

namespace Allocdata

def bit (j : Nat) : BitVec 8 := 1#8 <<< j

def flagged (p : Allocdata) : Bool := p.n &&& 0x80 ≠ 0

def setFlag (p : Allocdata) : Allocdata := { p with n := p.n ||| 0x80 }

def clearFlag (p : Allocdata) : Allocdata := { p with n := p.n &&& ~~~0x80 }

def mark (p : Allocdata) (i j : Nat) : Allocdata := { p with data := update p.data i (p.data i ||| bit j) }

def new (n : Nat) : Allocdata :=
  (List.range (alloclistDatabit n)).foldl
    (fun p i => if i * alloclistSize n < alloclistHeadersize n then p.mark (i / 8) (i % 8) else p)
    { n := BitVec.ofNat 8 n, data := fun _ => 0 }

def alloc (p : Allocdata) (n : Nat) : Option (Nat × Allocdata) :=
  match (List.range (alloclistDatasize n)).find? (fun i => p.data i ≠ 0xFF) with
  | none => none
  | some i =>
    match (List.range 8).find? (fun j => p.data i &&& bit j = 0) with
    | none => none
    | some j =>
      if i * 8 + j ≥ alloclistDatabit n then none
      else some ((i * 8 + j) * alloclistSize n, p.mark i j)

def free (p : Allocdata) (n offset : Nat) : Option Allocdata :=
  let slot := offset / alloclistSize n
  let i := slot / 8
  let j := slot % 8
  if p.data i &&& bit j = 0 then none
  else some { p with data := update p.data i (p.data i &&& ~~~bit j) }

end Allocdata

namespace Heap

def setHeader (s : Heap) (p : Nat) (d : Allocdata) : Heap := { s with header := update s.header p d }

def setAlloclist (s : Heap) (n : Nat) (pages : List Nat) : Heap := { s with alloclist := update s.alloclist n pages }

/-- `alloc_pages`. The number of bytes is computed in an `int`, which wraps. -/
def allocPages (s : Heap) (n : Int32) : Option (Nat × Heap) :=
  match (List.range numOfAllocsize).find? (fun i => (n * 4096).toInt ≤ allocsize i) with
  | none => none
  | some i =>
    match s.buddy.mmPageAlloc i with
    | none => none
    | some (p, buddy) => some (pageToVirt p, { s with buddy := buddy })

def alloclistNew (s : Heap) (n : Nat) : Option (Nat × Heap) :=
  match s.allocPages 1 with
  | none => none
  | some (virt, s) => some (virtToPage virt, s.setHeader (virtToPage virt) (Allocdata.new n))

def takeSlot (s : Heap) (i p offset : Nat) (d : Allocdata) : Option (Nat × Heap) :=
  if offset ≠ 0 ∧ offset < pagesize then
    some (pageToVirt p + offset, (s.setHeader p d).setAlloclist i (p :: s.alloclist i))
  else none

def allocLoop (i : Nat) : List Nat → Heap → Option (Nat × Heap)
  | p :: rest, s =>
    let s := s.setAlloclist i rest
    match (s.header p).alloc i with
    | some (offset, d) => s.takeSlot i p offset d
    | none => allocLoop i rest (s.setHeader p (s.header p).setFlag)
  | [], s =>
    match s.alloclistNew i with
    | none => none
    | some (p, s) =>
      -- A new page has a free slot, so the loop does not go round again.
      match (s.header p).alloc i with
      | some (offset, d) => s.takeSlot i p offset d
      | none => none

def alloc (s : Heap) (len : UInt32) : Option (Nat × Heap) :=
  match (List.range numOfAlloclist).find? (fun i => len.toNat ≤ alloclistSize i) with
  | none => s.allocPages ((len + 4095) / 4096).toInt32
  | some i => allocLoop i (s.alloclist i) s

def freePage (s : Heap) (virt : Nat) : Heap := { s with buddy := s.buddy.mmPageFree (virtToPage virt) }

def free (s : Heap) (virt : Nat) : Option Heap :=
  let offset := virt % pagesize
  if offset = 0 then some (s.freePage virt)
  else
    let p := virtToPage virt
    let s :=
      if (s.header p).flagged then
        let d := (s.header p).clearFlag
        (s.setHeader p d).setAlloclist d.n.toNat (p :: s.alloclist d.n.toNat)
      else s
    match (s.header p).free (s.header p).n.toNat offset with
    | none => none
    | some d => some (s.setHeader p d)

def getAllocLen (s : Heap) (virt : Nat) : Nat × Nat × Bool :=
  let p := virtToPage virt
  if virt % pagesize = 0 then (allocsize (s.buddy.order p), s.buddy.order p, true)
  else
    let n := (s.header p).clearFlag.n.toNat
    (alloclistSize n, n, false)

def memcpy (s : Heap) (dest src len : Nat) : Heap :=
  { s with
    memory := fun a => if dest ≤ a ∧ a < dest + len then s.memory (src + (a - dest))
      else s.memory a }

def move (s : Heap) (virt : Nat) (len : UInt32) (copied : Nat) : Option (Nat × Heap) :=
  match s.alloc len with
  | none => none
  | some (p, s) =>
    match (s.memcpy p virt copied).free virt with
    | none => none
    | some s => some (p, s)

def realloc (s : Heap) (virt : Nat) (len : UInt32) : Option (Nat × Heap) :=
  if virt = 0 ∧ len = 0 then some (0, s)
  else if virt = 0 then s.alloc len
  else if len = 0 then
    match s.free virt with
    | none => none
    | some s => some (0, s)
  else
    let (oldlen, n, pagemode) := s.getAllocLen virt
    if oldlen = len.toNat then some (virt, s)
    else if oldlen < len.toNat then s.move virt len oldlen
    else
      let smaller :=
        if pagemode then
          if n > 0 then allocsize (n - 1) else alloclistSize (numOfAlloclist - 1)
        else
          if n > 0 then alloclistSize (n - 1) else alloclistSize 0
      if smaller < len.toNat then some (virt, s) else s.move virt len len.toNat

variable (s : Heap) (p n : Nat) (d : Allocdata) (pages : List Nat)

@[simp] theorem buddy_setHeader : (s.setHeader p d).buddy = s.buddy := rfl
@[simp] theorem alloclist_setHeader : (s.setHeader p d).alloclist = s.alloclist := rfl
@[simp] theorem memory_setHeader : (s.setHeader p d).memory = s.memory := rfl
@[simp] theorem buddy_setAlloclist : (s.setAlloclist n pages).buddy = s.buddy := rfl
@[simp] theorem header_setAlloclist : (s.setAlloclist n pages).header = s.header := rfl
@[simp] theorem memory_setAlloclist : (s.setAlloclist n pages).memory = s.memory := rfl

@[simp] theorem header_setHeader : (s.setHeader p d).header p = d := by
  simp [setHeader]

end Heap

end DisasVisor.Mm

namespace DisasVisor.Mm.Allocdata

open Function

def Used (p : Allocdata) (k : Nat) : Prop := (p.data (k / 8)).getLsbD (k % 8) = true

variable {p : Allocdata} {n k : Nat}

theorem getLsbD_bit {i j : Nat} (small : j < 8) : (bit j).getLsbD i = decide (i = j) := by
  unfold bit
  rw [BitVec.getLsbD_shiftLeft, BitVec.getLsbD_one]
  by_cases same : i = j
  · subst same
    simp [small]
  · by_cases low : i < j
    · simp [low, same]
    · have positive : i - j ≠ 0 := by omega
      simp [same, positive]

theorem and_bit_eq_zero {x : BitVec 8} {j : Nat} (small : j < 8) : x &&& bit j = 0 ↔ x.getLsbD j = false := by
  constructor
  · intro zero
    have here := congrArg (·.getLsbD j) zero
    simpa [getLsbD_bit small] using here
  · intro clear
    apply BitVec.eq_of_getLsbD_eq
    intro i _
    rw [BitVec.getLsbD_and, getLsbD_bit small]
    by_cases same : i = j
    · simp [same, clear]
    · simp [same]

theorem used_update {i j : Nat} (small : j < 8) (x : BitVec 8)
    (others : ∀ l, l ≠ j → x.getLsbD l = (p.data i).getLsbD l) :
    Used { p with data := update p.data i x } k ↔ if k = i * 8 + j then x.getLsbD j = true else p.Used k := by
  unfold Used
  by_cases byte : k / 8 = i
  · simp only [byte, update_self]
    by_cases slot : k % 8 = j
    · rw [slot, if_pos (by omega)]
    · have different : k ≠ i * 8 + j := by omega
      rw [if_neg different, others _ slot]
  · have different : k ≠ i * 8 + j := by omega
    simp only [update_of_ne byte, if_neg different]

theorem used_mark {i j : Nat} (small : j < 8) : (p.mark i j).Used k ↔ k = i * 8 + j ∨ p.Used k := by
  unfold mark
  rw [used_update small]
  · by_cases same : k = i * 8 + j
    · simp [same, getLsbD_bit small]
    · simp [same]
  · intro l other
    simp [getLsbD_bit small, other]

@[simp] theorem mark_n {i j : Nat} : (p.mark i j).n = p.n := rfl

theorem new_n : (new n).n = BitVec.ofNat 8 n := by
  unfold new
  generalize List.range (alloclistDatabit n) = slots
  suffices all : ∀ d : Allocdata, (slots.foldl (fun p i =>
      if i * alloclistSize n < alloclistHeadersize n then p.mark (i / 8) (i % 8) else p) d).n = d.n from all _
  induction slots with
  | nil =>
    intro d
    rfl
  | cons i slots ih =>
    intro d
    rw [List.foldl_cons, ih]
    split
    · rfl
    · rfl

theorem used_new : (new n).Used k ↔ k < alloclistDatabit n ∧ k * alloclistSize n < alloclistHeadersize n := by
  unfold new
  induction alloclistDatabit n with
  | zero => simp [Used]
  | succ count ih =>
    rw [List.range_succ, List.foldl_append, List.foldl_cons, List.foldl_nil]
    by_cases under : count * alloclistSize n < alloclistHeadersize n
    · rw [if_pos under, used_mark (Nat.mod_lt _ (by omega)), ih, Nat.div_add_mod']
      constructor
      · rintro (rfl | ⟨small, below⟩)
        · exact ⟨by omega, under⟩
        · exact ⟨by omega, below⟩
      · rintro ⟨small, below⟩
        rcases Nat.lt_succ_iff_lt_or_eq.mp small with less | same
        · exact .inr ⟨less, below⟩
        · exact .inl same
    · rw [if_neg under, ih]
      constructor
      · rintro ⟨small, below⟩
        exact ⟨by omega, below⟩
      · rintro ⟨small, below⟩
        rcases Nat.lt_succ_iff_lt_or_eq.mp small with less | rfl
        · exact ⟨less, below⟩
        · exact absurd below under

theorem eq_full {x : BitVec 8} (all : ∀ j, j < 8 → x.getLsbD j = true) : x = 0xFF := by
  apply BitVec.eq_of_getLsbD_eq
  intro j small
  rw [all j small]
  have : ∀ j, j < 8 → true = (0xFF : BitVec 8).getLsbD j := by decide
  exact this j small

theorem alloc_cases (p : Allocdata) (n : Nat) :
    (∃ k, k < alloclistDatabit n ∧ ¬p.Used k ∧ p.alloc n = some (k * alloclistSize n, p.mark (k / 8) (k % 8))) ∨
      (p.alloc n = none ∧ ∀ k, k < alloclistDatabit n → p.Used k) := by
  have bytes : ∀ k, k < alloclistDatabit n → k / 8 < alloclistDatasize n := by
    intro k small
    unfold alloclistDatasize
    omega
  unfold alloc
  cases byte : (List.range (alloclistDatasize n)).find? (fun i => p.data i ≠ 0xFF) with
  | none =>
    refine .inr ⟨rfl, ?_⟩
    intro k small
    rw [List.find?_range_eq_none] at byte
    have full := byte (k / 8) (bytes k small)
    simp only [ne_eq, decide_not, Bool.not_not, decide_eq_true_eq] at full
    rw [Used, full]
    have ones : ∀ j, j < 8 → (0xFF : BitVec 8).getLsbD j = true := by decide
    exact ones _ (Nat.mod_lt _ (by omega))
  | some i =>
    obtain ⟨notFull, -, earlier⟩ := List.find?_range_eq_some.mp byte
    simp only [ne_eq, decide_not, Bool.not_not, decide_eq_true_eq] at notFull earlier
    simp only
    cases slot : (List.range 8).find? (fun j => p.data i &&& bit j = 0) with
    | none =>
      rw [List.find?_range_eq_none] at slot
      exfalso
      have full : p.data i = 0xFF := by
        apply eq_full
        intro j small
        have taken := slot j small
        simp only [Bool.not_eq_eq_eq_not, Bool.not_true, decide_eq_false_iff_not] at taken
        rw [and_bit_eq_zero small] at taken
        simpa using taken
      simp [full] at notFull
    | some j =>
      obtain ⟨clear, inRange, before⟩ := List.find?_range_eq_some.mp slot
      rw [List.mem_range] at inRange
      simp only [decide_eq_true_eq] at clear
      rw [and_bit_eq_zero inRange] at clear
      simp only
      by_cases beyond : i * 8 + j ≥ alloclistDatabit n
      · rw [if_pos beyond]
        refine .inr ⟨rfl, ?_⟩
        intro k small
        rw [Used]
        rcases Nat.lt_trichotomy (k / 8) i with less | same | greater
        · rw [earlier _ less]
          have ones : ∀ j, j < 8 → (0xFF : BitVec 8).getLsbD j = true := by decide
          exact ones _ (Nat.mod_lt _ (by omega))
        · have lower : k % 8 < j := by omega
          have taken := before _ lower
          simp only [Bool.not_eq_eq_eq_not, Bool.not_true, decide_eq_false_iff_not] at taken
          rw [and_bit_eq_zero (by omega)] at taken
          rw [same]
          simpa using taken
        · omega
      · rw [if_neg beyond]
        refine .inl ⟨i * 8 + j, by omega, ?_, ?_⟩
        · have slotByte : (i * 8 + j) / 8 = i := by omega
          have slotBit : (i * 8 + j) % 8 = j := by omega
          rw [Used, slotByte, slotBit, clear]
          simp
        · have slotByte : (i * 8 + j) / 8 = i := by omega
          have slotBit : (i * 8 + j) % 8 = j := by omega
          rw [slotByte, slotBit]

theorem free_spec (positive : 0 < alloclistSize n) (used : p.Used k) :
    ∃ d, p.free n (k * alloclistSize n) = some d ∧ d.n = p.n ∧ ∀ l, d.Used l ↔ p.Used l ∧ l ≠ k := by
  have small : k % 8 < 8 := Nat.mod_lt _ (by omega)
  have slot : k / 8 * 8 + k % 8 = k := Nat.div_add_mod' k 8
  unfold free
  rw [Nat.mul_div_cancel k positive]
  simp only [and_bit_eq_zero small]
  rw [Used] at used
  rw [used]
  simp only [Bool.true_eq_false, if_false]
  refine ⟨_, rfl, rfl, ?_⟩
  intro l
  rw [used_update small, slot]
  · by_cases same : l = k
    · simp [same, getLsbD_bit small]
    · simp [same]
  · intro j other
    by_cases inByte : j < 8
    · rw [BitVec.getLsbD_and, BitVec.getLsbD_not, getLsbD_bit small]
      simp [other, inByte]
    · rw [BitVec.getLsbD_of_ge _ _ (by omega), BitVec.getLsbD_of_ge _ _ (by omega)]

structure OfClass (p : Allocdata) (i : Nat) (off : Bool) : Prop where
  small : i < numOfAlloclist
  byte : p.n = if off then BitVec.ofNat 8 i ||| 0x80 else BitVec.ofNat 8 i

variable {i : Nat} {off : Bool}

theorem OfClass.flagged (of : p.OfClass i off) : p.flagged = off := by
  have bytes : ∀ i, i < numOfAlloclist → ∀ off,
      decide ((if off then BitVec.ofNat 8 i ||| 0x80 else BitVec.ofNat 8 i) &&& 0x80 ≠ 0) = off := by
    decide
  rw [Allocdata.flagged, of.byte]
  exact bytes i of.small off

theorem OfClass.class_eq (of : p.OfClass i off) : p.clearFlag.n.toNat = i := by
  have bytes : ∀ i, i < numOfAlloclist → ∀ off : Bool,
      ((if off then BitVec.ofNat 8 i ||| 0x80 else BitVec.ofNat 8 i) &&& ~~~0x80).toNat = i := by
    decide
  rw [clearFlag, of.byte]
  exact bytes i of.small off

theorem OfClass.clearFlag (of : p.OfClass i off) : p.clearFlag.OfClass i false := by
  have bytes : ∀ i, i < numOfAlloclist → ∀ off : Bool,
      (if off then BitVec.ofNat 8 i ||| 0x80 else BitVec.ofNat 8 i) &&& ~~~0x80 =
        BitVec.ofNat 8 i := by
    decide
  refine ⟨of.small, ?_⟩
  rw [Allocdata.clearFlag, of.byte]
  exact bytes i of.small off

theorem OfClass.setFlag (of : p.OfClass i false) : p.setFlag.OfClass i true := by
  refine ⟨of.small, ?_⟩
  rw [Allocdata.setFlag, of.byte]
  rfl

theorem OfClass.toNat (of : p.OfClass i false) : p.n.toNat = i := by
  have bytes : ∀ i, i < numOfAlloclist → (BitVec.ofNat 8 i).toNat = i := by decide
  rw [of.byte]
  exact bytes i of.small

theorem OfClass.unique {j : Nat} {other : Bool} (of : p.OfClass i off) (of' : p.OfClass j other) :
    i = j ∧ off = other := by
  refine ⟨?_, ?_⟩
  · rw [← of.class_eq, of'.class_eq]
  · rw [← of.flagged, of'.flagged]

@[simp] theorem used_setFlag : p.setFlag.Used k ↔ p.Used k := Iff.rfl

@[simp] theorem used_clearFlag : p.clearFlag.Used k ↔ p.Used k := Iff.rfl

theorem ofClass_new (small : n < numOfAlloclist) : (new n).OfClass n false := ⟨small, new_n⟩

theorem OfClass.congr {d : Allocdata} (of : p.OfClass i off) (same : d.n = p.n) : d.OfClass i off :=
  ⟨of.small, same.trans of.byte⟩

end DisasVisor.Mm.Allocdata
