import DisasVisor.CpuMmu.LinearWrites

/-!
Writes to linear addresses as bytes that go to the pages of their addresses, or not at all.
-/

namespace DisasVisor.CpuMmu

open Mm List

variable {g : Guest} {linear data pte phys : Word} {m m' m1 m2 : Memory} {r : Vmmerr} {part : Part}
  {parts rest : List Part} {bytes chunk : List UInt8}

/-- The bytes are put at consecutive physical addresses. What a handler of a registered range does
with them is its own affair. -/
structure Puts (g : Guest) (phys : Word) (chunk : List UInt8) (m m' : Memory) : Prop where
  stores : m'.stores = m.stores ++ chunk.mapIdx fun i b => (.guest (phys + BitVec.ofNat 64 i), b)
  holds : g.registered phys chunk.length = false → ∀ i b, chunk[i]? = some b → m'.bytes (phys + BitVec.ofNat 64 i) = b
  others : g.registered phys chunk.length = false →
    ∀ x, (∀ i < chunk.length, x ≠ phys + BitVec.ofNat 64 i) → m'.bytes x = m.bytes x

inductive Writes (g : Guest) : Word → List UInt8 → Memory → Memory → Prop
  | done (linear : Word) (m : Memory) : Writes g linear [] m m
  | chunk {linear pte : Word} {m m1 m2 m' : Memory} {chunk rest : List UInt8}
      (inPage : (linear &&& 0xFFF).toNat + chunk.length ≤ 0x1000)
      (translated : getPte g linear true false false m = some (.success, pte, m1))
      (puts : Puts g (physOf g pte linear) chunk m1 m2)
      (later : Writes g (linear + BitVec.ofNat 64 chunk.length) rest m2 m') :
      Writes g linear (chunk ++ rest) m m'

inductive Width where
  | w
  | l
  | q
  deriving DecidableEq

namespace Width

def size : Width → Nat
  | w => 2
  | l => 4
  | q => 8

def write (g : Guest) : Width → Word → Word → Memory → Option (Vmmerr × Memory)
  | w => writeLinearaddrW g
  | l => writeLinearaddrL g
  | q => writeLinearaddrQ g

def check (g : Guest) : Width → Option (Word → Memory → Option (Vmmerr × Memory))
  | w => some (writeLinearaddrOkW g)
  | l => some (writeLinearaddrOkL g)
  | q => none

def partsOf : Width → Word → Word → List Part
  | w => partsW
  | l => partsL
  | q => partsQ

theorem write_eq (width : Width) : width.write g linear data m = writeParts g (width.partsOf linear data) m := by
  cases width with
  | w => exact writeLinearaddrW_eq
  | l => exact writeLinearaddrL_eq
  | q => exact writeLinearaddrQ_eq

end Width

/-- A write that is refused has stored nothing, one that succeeds has put all bytes, and it succeeds
after its check. -/
structure AllOrNothing (g : Guest) (width : Width) (linear data : Word) (m : Memory) : Prop where
  nothing : ∀ r m', width.write g linear data m = some (r, m') → r ≠ .success → m'.stores = m.stores
  all : ∀ m', width.write g linear data m = some (.success, m') → Writes g linear (lowBytes width.size data) m m'
  checked : ∀ check, width.check g = some check → ∀ m1, check linear m = some (.success, m1) →
    ∃ m', width.write g linear data m1 = some (.success, m')

def Stops (g : Guest) : List Part → Memory → Prop
  | [], _ => False
  | part :: rest, m =>
    (∃ r pte m1, getPte g part.linear true false false m = some (r, pte, m1) ∧ r ≠ .success) ∨
      ∃ pte m1 m2, getPte g part.linear true false false m = some (.success, pte, m1) ∧
        storeGphys g part.size part.panics (physOf g pte part.linear) part.data m1 = some m2 ∧ Stops g rest m2

def Goes (g : Guest) : List Part → Memory → Prop
  | [], _ => True
  | part :: rest, m => ∃ pte m1 m2, getPte g part.linear true false false m = some (.success, pte, m1) ∧
      storeGphys g part.size part.panics (physOf g pte part.linear) part.data m1 = some m2 ∧ Goes g rest m2

def Strays (g : Guest) : List Part → Memory → Prop
  | [], _ => False
  | part :: rest, m => ∃ pte m1 m2, getPte g part.linear true false false m = some (.success, pte, m1) ∧
      storeGphys g part.size part.panics (physOf g pte part.linear) part.data m1 = some m2 ∧
        (g.registered (physOf g pte part.linear) part.size = false ∧ g.inVmm (physOf g pte part.linear) = true ∨
          Strays g rest m2)

theorem getPte_stores (is : getPte g linear true false false m = some (r, pte, m1)) : m1.stores = m.stores := by
  rw [getPte, Option.map_eq_some_iff] at is
  obtain ⟨_, -, got⟩ := is
  cases got
  rfl

theorem Part.write_eq_some : part.write g m = some (r, m') ↔
    (∃ pte m1, getPte g part.linear true false false m = some (.success, pte, m1) ∧
      storeGphys g part.size part.panics (physOf g pte part.linear) part.data m1 = some m' ∧ r = .success) ∨
    ∃ pte, getPte g part.linear true false false m = some (r, pte, m') ∧ r ≠ .success := by
  rw [Part.write, writePte]
  rcases getPte g part.linear true false false m with _ | ⟨code, pte, m1⟩
  · simp
  · rw [Option.bind_some]
    by_cases success : code = .success
    · subst success
      simp only [if_true]
      rw [Option.map_eq_some_iff]
      constructor
      · rintro ⟨m2, stored, is⟩
        cases is
        exact .inl ⟨pte, m1, rfl, stored, rfl⟩
      · rintro (⟨pte', m1', is, stored, rfl⟩ | ⟨pte', is, refused⟩)
        · cases is
          exact ⟨m', stored, rfl⟩
        · cases is
          exact absurd rfl refused
    · simp only [if_neg success]
      constructor
      · intro is
        cases is
        exact .inr ⟨pte, rfl, success⟩
      · rintro (⟨pte', m1', is, -, -⟩ | ⟨pte', is, -⟩)
        · cases is
          exact absurd rfl success
        · cases is
          rfl

theorem length_lowBytes (size : Nat) (data : Word) : (lowBytes size data).length = size := by
  rw [lowBytes, length_map, length_range]

def blanks (chunk : List UInt8) : List (Place × UInt8) := chunk.mapIdx fun i b => (.blank i, b)

theorem overlay_inside {old : Bytes} {i : Nat} {b : UInt8} (small : chunk.length ≤ 0x1000) (is : chunk[i]? = some b) :
    overlay old phys chunk (phys + BitVec.ofNat 64 i) = b := by
  obtain ⟨below, -⟩ := List.getElem?_eq_some_iff.mp is
  have back : (phys + BitVec.ofNat 64 i - phys).toNat = i := by
    rw [BitVec.add_comm, BitVec.add_sub_cancel, BitVec.toNat_ofNat, Nat.mod_eq_of_lt (by omega)]
  rw [overlay, back, is, Option.getD_some]

theorem overlay_outside {old : Bytes} {x : Word} (apart : ∀ i < chunk.length, x ≠ phys + BitVec.ofNat 64 i) :
    overlay old phys chunk x = old x := by
  have outside : chunk.length ≤ (x - phys).toNat := by
    by_contra inside
    refine apart (x - phys).toNat (by omega) ?_
    rw [BitVec.ofNat_toNat, BitVec.setWidth_eq, BitVec.add_comm, BitVec.sub_add_cancel]
  rw [overlay, List.getElem?_eq_none outside, Option.getD_none]

theorem storeGphys_cases {size : Nat} {panics : Bool} (small : size ≤ 0x1000)
    (is : storeGphys g size panics phys data m = some m') :
    ¬(g.registered phys size = false ∧ g.inVmm phys = true) ∧ Puts g phys (lowBytes size data) m m' ∨
      (g.registered phys size = false ∧ g.inVmm phys = true) ∧
        m'.stores = m.stores ++ blanks (lowBytes size data) := by
  rw [storeGphys] at is
  split at is
  · rename_i taken
    cases is
    refine .inl ⟨fun both => ?_, rfl, ?_, ?_⟩
    · rw [both.1] at taken
      cases taken
    · intro free
      rw [length_lowBytes, taken] at free
      cases free
    · intro free
      rw [length_lowBytes, taken] at free
      cases free
  · rename_i free
    split at is
    · rename_i vmm
      split at is
      · cases is
      · cases is
        exact .inr ⟨⟨Bool.not_eq_true _ ▸ free, vmm⟩, rfl⟩
    · rename_i outside
      cases is
      refine .inl ⟨fun both => outside both.2, rfl, ?_, ?_⟩
      · intro _ i b place
        exact overlay_inside (by rw [length_lowBytes]; exact small) place
      · intro _ x apart
        exact overlay_outside apart

theorem mapIdx_ne_nil {β : Type} {f : Nat → UInt8 → β} {size : Nat} (positive : 0 < size) :
    (lowBytes size data).mapIdx f ≠ [] := by
  intro nothing
  have zero := congrArg List.length nothing
  rw [length_mapIdx, length_lowBytes, length_nil] at zero
  omega

theorem logs_parts (g : Guest) : Attempts.Logs Vmmerr.success (Part.write g) Memory.stores where
  success := by
    intro part m m' is
    rcases Part.write_eq_some.mp is with ⟨pte, m1, got, stored, -⟩ | ⟨pte, -, refused⟩
    · rw [← getPte_stores got]
      rw [storeGphys] at stored
      split at stored
      · cases stored
        exact ⟨_, mapIdx_ne_nil part.positive, rfl⟩
      · split at stored
        · split at stored
          · cases stored
          · cases stored
            exact ⟨_, mapIdx_ne_nil part.positive, rfl⟩
        · cases stored
          exact ⟨_, mapIdx_ne_nil part.positive, rfl⟩
    · exact absurd rfl refused
  refused := by
    intro part m r m' is refused
    rcases Part.write_eq_some.mp is with ⟨pte, m1, -, -, success⟩ | ⟨pte, got, -⟩
    · exact absurd success refused
    · exact getPte_stores got

theorem writeParts_cons : writeParts g (part :: rest) m = some (r, m') ↔
    (∃ m2, part.write g m = some (.success, m2) ∧ writeParts g rest m2 = some (r, m')) ∨
      part.write g m = some (r, m') ∧ r ≠ .success := Attempts.andThen_eq_some

theorem goes_iff : Goes g parts m ↔ ∃ m', writeParts g parts m = some (.success, m') := by
  induction parts generalizing m with
  | nil => exact ⟨fun _ => ⟨m, rfl⟩, fun _ => trivial⟩
  | cons part rest ih =>
    constructor
    · rintro ⟨pte, m1, m2, got, stored, later⟩
      obtain ⟨m', run⟩ := ih.mp later
      exact ⟨m', writeParts_cons.mpr (.inl ⟨m2, Part.write_eq_some.mpr (.inl ⟨pte, m1, got, stored, rfl⟩), run⟩)⟩
    · rintro ⟨m', run⟩
      rcases writeParts_cons.mp run with ⟨m2, first, later⟩ | ⟨-, refused⟩
      · rcases Part.write_eq_some.mp first with ⟨pte, m1, got, stored, -⟩ | ⟨pte, -, refused⟩
        · exact ⟨pte, m1, m2, got, stored, ih.mpr ⟨m', later⟩⟩
        · exact absurd rfl refused
      · exact absurd rfl refused

theorem stops_iff : Stops g parts m ↔ ∃ r m', writeParts g parts m = some (r, m') ∧ r ≠ .success := by
  induction parts generalizing m with
  | nil =>
    refine ⟨False.elim, ?_⟩
    rintro ⟨r, m', run, refused⟩
    cases run
    exact refused rfl
  | cons part rest ih =>
    constructor
    · rintro (⟨r, pte, m1, got, refused⟩ | ⟨pte, m1, m2, got, stored, later⟩)
      · exact ⟨r, m1, writeParts_cons.mpr
          (.inr ⟨Part.write_eq_some.mpr (.inr ⟨pte, got, refused⟩), refused⟩), refused⟩
      · obtain ⟨r, m', run, refused⟩ := ih.mp later
        exact ⟨r, m', writeParts_cons.mpr
          (.inl ⟨m2, Part.write_eq_some.mpr (.inl ⟨pte, m1, got, stored, rfl⟩), run⟩), refused⟩
    · rintro ⟨r, m', run, refused⟩
      rcases writeParts_cons.mp run with ⟨m2, first, later⟩ | ⟨first, -⟩
      · rcases Part.write_eq_some.mp first with ⟨pte, m1, got, stored, -⟩ | ⟨pte, -, none'⟩
        · exact .inr ⟨pte, m1, m2, got, stored, ih.mpr ⟨r, m', later, refused⟩⟩
        · exact absurd rfl none'
      · rcases Part.write_eq_some.mp first with ⟨pte, m1, got, -, success⟩ | ⟨pte, got, -⟩
        · exact absurd success refused
        · exact .inl ⟨r, pte, m', got, refused⟩

inductive Covers : Word → List Part → List UInt8 → Prop
  | done (linear : Word) : Covers linear [] []
  | part {part : Part} {rest : List Part} {bytes : List UInt8}
      (inPage : (part.linear &&& 0xFFF).toNat + part.size ≤ 0x1000)
      (later : Covers (part.linear + BitVec.ofNat 64 part.size) rest bytes) :
      Covers part.linear (part :: rest) (lowBytes part.size part.data ++ bytes)

theorem Covers.append {front back : List Part} {first second : List UInt8} (covers : Covers linear front first)
    (next : Covers (linear + BitVec.ofNat 64 first.length) back second) :
    Covers linear (front ++ back) (first ++ second) := by
  induction covers with
  | done linear =>
    rw [length_nil, BitVec.add_zero] at next
    exact next
  | part inPage later ih =>
    rw [append_assoc]
    refine Covers.part inPage (ih ?_)
    rw [length_append, length_lowBytes] at next
    rw [BitVec.add_assoc, ← BitVec.ofNat_add]
    exact next

theorem covers_one (part : Part) (inPage : (part.linear &&& 0xFFF).toNat + part.size ≤ 0x1000) :
    Covers part.linear [part] (lowBytes part.size part.data) := by
  have one := Covers.part inPage (Covers.done (part.linear + BitVec.ofNat 64 part.size))
  rw [append_nil] at one
  exact one

theorem lowBytes_add (a b : Nat) (data : Word) :
    lowBytes (a + b) data = lowBytes a data ++ lowBytes b (data >>> (8 * a)) := by
  rw [lowBytes, range_add, map_append, map_map, lowBytes, lowBytes]
  refine congrArg _ (map_congr_left fun i _ => ?_)
  rw [Function.comp_apply, Nat.mul_add, BitVec.shiftRight_add]

theorem Covers.halves {front back : List Part} {half : Nat} (first : Covers linear front (lowBytes half data))
    (second : Covers (linear + BitVec.ofNat 64 half) back (lowBytes half (data >>> (8 * half)))) :
    Covers linear (front ++ back) (lowBytes (half + half) data) := by
  rw [lowBytes_add]
  refine first.append ?_
  rw [length_lowBytes]
  exact second

theorem offset_le (linear : Word) : (linear &&& 0xFFF).toNat ≤ 0xFFF := and_le_right linear 0xFFF

theorem covers_partsW (linear data : Word) : Covers linear (partsW linear data) (lowBytes 2 data) := by
  have bound := offset_le linear
  have next := offset_le (linear + 1)
  rw [partsW]
  split
  · exact Covers.halves (covers_one ⟨linear, 1, true, data, by omega⟩ (by simp only; omega))
      (covers_one ⟨linear + 1, 1, true, data >>> 8, by omega⟩ (by simp only; omega))
  · rename_i inside
    have below : (linear &&& 0xFFF).toNat ≠ 0xFFF := fun same => inside (BitVec.eq_of_toNat_eq same)
    exact covers_one ⟨linear, 2, true, data, by omega⟩ (by simp only; omega)

theorem covers_partsL (linear data : Word) : Covers linear (partsL linear data) (lowBytes 4 data) := by
  rw [partsL]
  split
  · exact Covers.halves (covers_partsW linear data) (covers_partsW (linear + 2) (data >>> 16))
  · rename_i inside
    have below : (linear &&& 0xFFF).toNat < 0xFFD := Nat.lt_of_not_le inside
    exact covers_one ⟨linear, 4, false, data, by omega⟩ (by simp only; omega)

theorem covers_partsQ (linear data : Word) : Covers linear (partsQ linear data) (lowBytes 8 data) := by
  rw [partsQ]
  split
  · exact Covers.halves (covers_partsL linear data) (covers_partsL (linear + 4) (data >>> 32))
  · rename_i inside
    have below : (linear &&& 0xFFF).toNat < 0xFF9 := Nat.lt_of_not_le inside
    exact covers_one ⟨linear, 8, true, data, by omega⟩ (by simp only; omega)

theorem Width.covers (width : Width) (linear data : Word) :
    Covers linear (width.partsOf linear data) (lowBytes width.size data) := by
  cases width with
  | w => exact covers_partsW linear data
  | l => exact covers_partsL linear data
  | q => exact covers_partsQ linear data

theorem Puts.guest_stores (puts : Puts g phys chunk m m') :
    ∃ new, m'.stores = m.stores ++ new ∧ ∀ e ∈ new, ∀ i, e.1 ≠ .blank i := by
  refine ⟨_, puts.stores, ?_⟩
  intro e member i is
  obtain ⟨j, below, rfl⟩ := mem_mapIdx.mp member
  cases is

theorem Writes.guest_stores (writes : Writes g linear bytes m m') :
    ∃ new, m'.stores = m.stores ++ new ∧ ∀ e ∈ new, ∀ i, e.1 ≠ .blank i := by
  induction writes with
  | done linear m => exact ⟨[], (append_nil _).symm, fun e member => absurd member not_mem_nil⟩
  | chunk inPage translated puts later ih =>
    obtain ⟨first, is, noBlank⟩ := puts.guest_stores
    obtain ⟨more, is', noBlank'⟩ := ih
    refine ⟨first ++ more, by rw [is', is, getPte_stores translated, append_assoc], ?_⟩
    intro e member
    rcases mem_append.mp member with old | new
    · exact noBlank e old
    · exact noBlank' e new

theorem writes_of_run (covers : Covers linear parts bytes) (run : writeParts g parts m = some (.success, m'))
    (straight : ¬Strays g parts m) : Writes g linear bytes m m' := by
  induction covers generalizing m with
  | done linear =>
    cases run
    exact .done linear _
  | @part part rest bytes inPage later ih =>
    rcases writeParts_cons.mp run with ⟨m2, first, rest'⟩ | ⟨-, refused⟩
    · rcases Part.write_eq_some.mp first with ⟨pte, m1, got, stored, -⟩ | ⟨pte, -, refused⟩
      · have behind : ¬Strays g rest m2 := fun strays => straight ⟨pte, m1, m2, got, stored, .inr strays⟩
        have small : part.size ≤ 0x1000 := by omega
        rcases storeGphys_cases small stored with ⟨-, puts⟩ | ⟨vmm, -⟩
        · refine .chunk ?_ got puts ?_
          · rw [length_lowBytes]
            exact inPage
          · rw [length_lowBytes]
            exact ih rest' behind
        · exact absurd ⟨pte, m1, m2, got, stored, .inl vmm⟩ straight
      · exact absurd rfl refused
    · exact absurd rfl refused

theorem stores_of_strays (covers : Covers linear parts bytes) (run : writeParts g parts m = some (.success, m'))
    (strays : Strays g parts m) : ∃ new, m'.stores = m.stores ++ new ∧ ∃ e ∈ new, ∃ i, e.1 = .blank i := by
  induction covers generalizing m with
  | done linear => exact strays.elim
  | @part part rest bytes inPage later ih =>
    obtain ⟨pte, m1, m2, got, stored, here⟩ := strays
    have first : part.write g m = some (.success, m2) := Part.write_eq_some.mpr (.inl ⟨pte, m1, got, stored, rfl⟩)
    have rest' : writeParts g rest m2 = some (.success, m') := (Attempts.andThen_ok first).symm.trans run
    obtain ⟨new, nonempty, isNew⟩ := (logs_parts g).success part m m2 first
    rcases here with vmm | behind
    · obtain ⟨more, isMore⟩ := (logs_parts g).grows rest'
      refine ⟨new ++ more, by rw [isMore, isNew, append_assoc], ?_⟩
      have small : part.size ≤ 0x1000 := by omega
      rcases storeGphys_cases small stored with ⟨other, -⟩ | ⟨-, is⟩
      · exact absurd vmm other
      · rw [getPte_stores got, isNew] at is
        have same := append_cancel_left is
        obtain ⟨e, tail, isCons⟩ := exists_cons_of_ne_nil nonempty
        have member : e ∈ new := by
          rw [isCons]
          exact mem_cons_self
        refine ⟨e, mem_append_left _ member, ?_⟩
        rw [same] at member
        obtain ⟨j, below, rfl⟩ := mem_mapIdx.mp member
        exact ⟨j, rfl⟩
    · obtain ⟨more, isMore, e, member, blank⟩ := ih rest' behind
      exact ⟨new ++ more, by rw [isMore, isNew, append_assoc], e, mem_append_right _ member, blank⟩

def Crosses (width : Width) (linear : Word) : Prop := 0x1000 < (linear &&& 0xFFF).toNat + width.size

structure Whole (g : Guest) (width : Width) (linear data : Word) (m : Memory) : Prop where
  untorn : Crosses width linear → ∀ first rest, width.partsOf linear data = first :: rest →
    ∀ m1, first.write g m = some (.success, m1) → ¬Stops g rest m1
  straight : Goes g (width.partsOf linear data) m → ¬Strays g (width.partsOf linear data) m
  checked : width ≠ .q → ∀ pte m1, getPte g linear true false false m = some (.success, pte, m1) →
    Goes g (width.partsOf linear data) m1

theorem Width.partsOf_inside {width : Width} (inside : ¬Crosses width linear) :
    ∃ part, width.partsOf linear data = [part] := by
  have bound := offset_le linear
  rw [Crosses] at inside
  cases width with
  | w =>
    have other : ¬linear &&& 0xFFF = 0xFFF := by
      intro same
      rw [same] at inside
      exact inside (by decide)
    exact ⟨_, if_neg other⟩
  | l =>
    have other : ¬linear &&& 0xFFF ≥ 0xFFD := by
      intro above
      have above' : 0xFFD ≤ (linear &&& 0xFFF).toNat := above
      exact inside (by simp only [Width.size]; omega)
    exact ⟨_, if_neg other⟩
  | q =>
    have other : ¬linear &&& 0xFFF ≥ 0xFF9 := by
      intro above
      have above' : 0xFF9 ≤ (linear &&& 0xFFF).toNat := above
      exact inside (by simp only [Width.size]; omega)
    exact ⟨_, if_neg other⟩

theorem Width.partsOf_cons (width : Width) (linear data : Word) :
    ∃ first rest, width.partsOf linear data = first :: rest := by
  cases isParts : width.partsOf linear data with
  | nil =>
    have covers := width.covers linear data
    rw [isParts] at covers
    generalize isBytes : lowBytes width.size data = bytes at covers
    cases covers
    have zero := congrArg List.length isBytes
    rw [length_lowBytes] at zero
    cases width <;> cases zero
  | cons first rest => exact ⟨first, rest, rfl⟩

theorem nothing_iff (width : Width) : (∀ r m', width.write g linear data m = some (r, m') → r ≠ .success →
    m'.stores = m.stores) ↔ (Crosses width linear → ∀ first rest, width.partsOf linear data = first :: rest →
      ∀ m1, first.write g m = some (.success, m1) → ¬Stops g rest m1) := by
  obtain ⟨first, rest, isParts⟩ := width.partsOf_cons linear data
  have untouched := @Attempts.Logs.untouched_iff _ _ _ _ _ _ _ m _ (logs_parts g) first rest
  rw [Width.write_eq, isParts]
  refine untouched.trans ?_
  constructor
  · intro never _ first' rest' is m1 written stops
    cases is
    obtain ⟨r, m', run, refused⟩ := stops_iff.mp stops
    exact refused (never m1 written r m' run)
  · intro untorn m1 written r m' run
    by_contra refused
    by_cases crosses : Crosses width linear
    · exact untorn crosses first rest rfl m1 written (stops_iff.mpr ⟨r, m', run, refused⟩)
    · obtain ⟨part, one⟩ := @Width.partsOf_inside linear data width crosses
      rw [isParts] at one
      cases one
      cases run
      exact refused rfl

theorem all_iff (width : Width) : (∀ m', width.write g linear data m = some (.success, m') →
    Writes g linear (lowBytes width.size data) m m') ↔
      (Goes g (width.partsOf linear data) m → ¬Strays g (width.partsOf linear data) m) := by
  have covers := width.covers linear data
  rw [Width.write_eq]
  constructor
  · intro all goes strays
    obtain ⟨m', run⟩ := goes_iff.mp goes
    obtain ⟨new, is, noBlank⟩ := (all m' run).guest_stores
    obtain ⟨new', is', e, member, i, blank⟩ := stores_of_strays covers run strays
    rw [is] at is'
    rw [← append_cancel_left is'] at member
    exact noBlank e member i blank
  · intro straight m' run
    exact writes_of_run covers run (straight (goes_iff.mpr ⟨m', run⟩))

theorem checked_iff (width : Width) : (∀ check, width.check g = some check →
    ∀ m1, check linear m = some (.success, m1) → ∃ m', width.write g linear data m1 = some (.success, m')) ↔
      (width ≠ .q → ∀ pte m1, getPte g linear true false false m = some (.success, pte, m1) →
        Goes g (width.partsOf linear data) m1) := by
  have okB : ∀ m1, writeLinearaddrOkB g linear m = some (.success, m1) ↔
      ∃ pte, getPte g linear true false false m = some (.success, pte, m1) := by
    intro m1
    rw [writeLinearaddrOkB_eq, Option.map_eq_some_iff]
    constructor
    · rintro ⟨⟨r, pte, m2⟩, got, is⟩
      cases is
      exact ⟨pte, got⟩
    · rintro ⟨pte, got⟩
      exact ⟨_, got, rfl⟩
  have check : ∀ check, width.check g = some check → check linear m = writeLinearaddrOkB g linear m := by
    intro check is
    cases width with
    | w =>
      cases is
      exact writeLinearaddrOkW_eq
    | l =>
      cases is
      exact writeLinearaddrOkL_eq
    | q => cases is
  have some' : width ≠ .q → ∃ check, width.check g = some check := by
    intro other
    cases width with
    | w => exact ⟨_, rfl⟩
    | l => exact ⟨_, rfl⟩
    | q => exact absurd rfl other
  have noQ : ∀ check, width.check g = some check → width ≠ .q := by
    rintro check is rfl
    cases is
  constructor
  · intro all other pte m1 got
    obtain ⟨c, is⟩ := some' other
    obtain ⟨m', run⟩ := all c is m1 (by rw [check c is]; exact (okB m1).mpr ⟨pte, got⟩)
    rw [Width.write_eq] at run
    exact goes_iff.mpr ⟨m', run⟩
  · intro goes c is m1 passed
    rw [check c is] at passed
    obtain ⟨pte, got⟩ := (okB m1).mp passed
    rw [Width.write_eq]
    exact goes_iff.mp (goes (noQ c is) pte m1 got)

/-- A write is all or nothing exactly when no page of a later part is missing. -/
theorem linearWrite_exact (g : Guest) (width : Width) (linear data : Word) (m : Memory) :
    AllOrNothing g width linear data m ↔ Whole g width linear data m := by
  constructor
  · rintro ⟨nothing, all, checked⟩
    exact ⟨(nothing_iff width).mp nothing, (all_iff width).mp all, (checked_iff width).mp checked⟩
  · rintro ⟨untorn, straight, checked⟩
    exact ⟨(nothing_iff width).mpr untorn, (all_iff width).mpr straight, (checked_iff width).mpr checked⟩

def onePageGuest : Guest where
  nbits := 36
  regs := ⟨cr0PgBit, 0x1000, 0, 0⟩
  retries := 0
  stack := ⟨fun _ => 0, fun _ => 0, 0, 0, 0, 0⟩
  entries := fun _ => 0
  registered := fun _ _ => false
  serve := fun _ _ bytes => bytes
  inVmm := fun phys => 0x40000000 ≤ phys

def onePageMemory : Memory where
  bytes := fun a => if a = 0x1000 then 0x63 else if a = 0x1001 then 0x20 else if a = 0x2000 then 0x63 else
    if a = 0x2001 then 0x30 else 0
  stores := []

/-- The check succeeds, the write is refused, and its first byte has been stored. -/
theorem second_page_torn : ¬AllOrNothing onePageGuest .w 0xFFF 0xAABB onePageMemory ∧
    (writeLinearaddrOkW onePageGuest 0xFFF onePageMemory).map (fun (r, m) => (r, m.stores)) = some (.success, []) ∧
    (writeLinearaddrW onePageGuest 0xFFF 0xAABB onePageMemory).map (fun (r, m) => (r, m.stores)) =
      some (.pageNotPresent, [(.guest 0x3FFF, 0xBB)]) := by
  have run : (writeLinearaddrW onePageGuest 0xFFF 0xAABB onePageMemory).map (fun (r, m) => (r, m.stores)) =
      some (.pageNotPresent, [(.guest 0x3FFF, 0xBB)]) := by decide +kernel
  refine ⟨?_, by decide +kernel, run⟩
  intro all
  obtain ⟨⟨r, m⟩, is, got⟩ := Option.map_eq_some_iff.mp run
  have code : r = .pageNotPresent := congrArg Prod.fst got
  have stored : m.stores = [(.guest 0x3FFF, 0xBB)] := congrArg Prod.snd got
  have none' : m.stores = [] := all.nothing r m is (by rw [code]; exact Vmmerr.noConfusion)
  rw [stored] at none'
  cases none'

end DisasVisor.CpuMmu
