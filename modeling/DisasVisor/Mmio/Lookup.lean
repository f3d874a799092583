import DisasVisor.Mmio.Dispatch
import DisasVisor.Lib.Words

/-!
`mmio_range` and `mmio_access_page`: whether the lists of `core/mmio.c` have a registered range that
meets a range of addresses.
-/

namespace DisasVisor.Mmio

def pageSize : UInt32 := 0x1000

namespace MmioData

/-- The loops of `mmio_range`; the result is the handle that is found. -/
def rangeLoop (s : MmioData) (gphysaddr : UInt64) (len : UInt32) : List Nat → Option Nat
  | [] => none
  | p :: rest =>
    let h := s.handles p
    if h.gphys ≥ gphysaddr + len.toUInt64 then none
    else if (rangecheck h gphysaddr len).isSome then some p
    else rangeLoop s gphysaddr len rest

def mmioRange (s : MmioData) (gphysaddr : UInt64) (len : UInt32) : UInt64 :=
  if len = 0 then 0
  else
    let i := bucket gphysaddr
    let j := bucket (gphysaddr + len.toUInt64 - 1)
    match s.rangeLoop gphysaddr len ((List.range' i (j + 1 - i)).flatMap s.mmio) with
    | none => 0
    | some p => (s.handles p).gphys + (s.handles p).len.toUInt64

/-- The loop of `mmio_access_page`, which is the one of `mmio_range` for a page of one list; when
it finds a handle the instruction is emulated. -/
def mmioAccessPage (s : MmioData) (gphysaddr : UInt64) : Bool :=
  (s.rangeLoop (gphysaddr &&& ~~~0xFFF) pageSize (s.mmio (bucket (gphysaddr &&& ~~~0xFFF)))).isSome

variable {s : MmioData} {gphysaddr : UInt64} {len : UInt32} {p : Nat}

def Free (s : MmioData) (low high : Nat) : Prop :=
  ∀ p, s.Registered p → ∀ x, (s.handles p).Covers x → x < low ∨ high ≤ x

section

variable (listed : Listed s)
include listed

theorem rangeLoop_spec (plain : Plain gphysaddr len)
    (fits : gphysaddr.toNat + len.toNat < 2 ^ 64) {order : List Nat} (inside : ∀ p ∈ order, p ∈ s.handle)
    (all : ∀ k, s.Registered k → ∀ y, (s.handles k).Covers y → gphysaddr.toNat ≤ y →
      y < gphysaddr.toNat + len.toNat → k ∈ order)
    (earlier : ∀ front p back, order = front ++ p :: back → ∀ k, s.Registered k →
      ∀ y, (s.handles k).Covers y → y < (s.handles p).gphys.toNat → gphysaddr.toNat ≤ y →
        k ∈ front) (rest : List Nat) : ∀ {visited}, order = visited ++ rest →
      (∀ k ∈ visited, s.Registered k → ∀ y, (s.handles k).Covers y →
        y < gphysaddr.toNat ∨ gphysaddr.toNat + len.toNat ≤ y) →
      (s.rangeLoop gphysaddr len rest = none ∧ s.Free gphysaddr.toNat (gphysaddr.toNat + len.toNat)) ∨
      ∃ p x, s.rangeLoop gphysaddr len rest = some p ∧ s.Registered p ∧
        (s.handles p).Covers x ∧ gphysaddr.toNat ≤ x ∧ x < gphysaddr.toNat + len.toNat := by
  have ends : (gphysaddr + len.toUInt64).toNat = gphysaddr.toNat + len.toNat := by
    rw [UInt64.toNat_add, UInt32.toNat_toUInt64, Nat.mod_eq_of_lt fits]
  induction rest with
  | nil =>
    intro visited split passed
    refine .inl ⟨rfl, ?_⟩
    intro k registered y covers
    by_contra meets
    have member := all k registered y covers (by omega) (by omega)
    rw [split, List.append_nil] at member
    exact meets (passed k member registered y covers)
  | cons p rest ih =>
    intro visited split passed
    have member := inside p (by simp [split])
    have hPlain := listed.plain p member
    unfold rangeLoop
    simp only [ge_iff_le, UInt64.le_iff_toNat_le, ends]
    by_cases beyond : gphysaddr.toNat + len.toNat ≤ (s.handles p).gphys.toNat
    · rw [if_pos beyond]
      refine .inl ⟨rfl, ?_⟩
      intro k registered y covers
      by_contra meets
      have before := earlier visited p rest split k registered y covers (by omega) (by omega)
      exact meets (passed k before registered y covers)
    · rw [if_neg beyond]
      have passedBy : (s.Registered p → ∀ y, (s.handles p).Covers y →
          y < gphysaddr.toNat ∨ gphysaddr.toNat + len.toNat ≤ y) →
          ∀ k ∈ visited ++ [p], s.Registered k → ∀ y, (s.handles k).Covers y →
            y < gphysaddr.toNat ∨ gphysaddr.toNat + len.toNat ≤ y := by
        intro apart k inVisited
        rcases List.mem_append.mp inVisited with old | isNew
        · exact passed k old
        · rw [List.mem_singleton.mp isNew]
          exact apart
      cases gone : (s.handles p).unregistered with
      | true =>
        rw [rangecheck_unregistered gone]
        refine ih (by rw [split, List.append_assoc]; rfl) (passedBy ?_)
        rintro ⟨-, registered⟩
        rw [gone] at registered
        cases registered
      | false =>
        cases found : rangecheck (s.handles p) gphysaddr len with
        | none =>
          refine ih (by rw [split, List.append_assoc]; rfl) (passedBy ?_)
          rintro registered y ⟨low, high⟩
          have apart := (rangecheck_none gone hPlain plain).mp found
          omega
        | some result =>
          have meets : ¬(gphysaddr.toNat + len.toNat ≤ (s.handles p).gphys.toNat ∨
              (s.handles p).gphys.toNat + (s.handles p).len.toNat ≤ gphysaddr.toNat) := by
            intro apart
            rw [(rangecheck_none gone hPlain plain).mpr apart] at found
            cases found
          obtain ⟨positive, -⟩ := hPlain
          obtain ⟨some', -⟩ := plain
          refine .inr ⟨p, max gphysaddr.toNat (s.handles p).gphys.toNat, rfl,
            ⟨member, gone⟩, ⟨by omega, by omega⟩, by omega, by omega⟩

theorem rangeLoop_lists (plain : Plain gphysaddr len)
    (fits : gphysaddr.toNat + len.toNat < 2 ^ 64) {order : List Nat}
    (isOrder : (List.range' (window gphysaddr.toNat) (window (gphysaddr.toNat + len.toNat - 1) + 1 -
      window gphysaddr.toNat)).flatMap s.mmio = order) :
    (s.rangeLoop gphysaddr len order = none ∧ s.Free gphysaddr.toNat (gphysaddr.toNat + len.toNat)) ∨
      ∃ p x, s.rangeLoop gphysaddr len order = some p ∧ s.Registered p ∧
        (s.handles p).Covers x ∧ gphysaddr.toNat ≤ x ∧ x < gphysaddr.toNat + len.toNat := by
  refine @rangeLoop_spec s gphysaddr len listed plain fits order ?_ ?_ ?_ order [] rfl (by simp)
  · intro p member
    rw [← isOrder] at member
    obtain ⟨i, -, inList⟩ := List.mem_flatMap.mp member
    exact ((listed.lists i p).mp inList).1
  · intro k registered y covers low high
    rw [← isOrder]
    exact listed.in_order registered.1 covers low (by omega)
  · intro front p back split k registered y covers below low
    exact listed.earlier registered.1 covers below _ (window_mono low) (isOrder.trans split)

theorem mmioRange_spec (positive : 0 < len.toNat) (fits : gphysaddr.toNat + len.toNat < 2 ^ 63) :
    (s.mmioRange gphysaddr len = 0 ∧ s.Free gphysaddr.toNat (gphysaddr.toNat + len.toNat)) ∨
      ∃ p x, s.mmioRange gphysaddr len ≠ 0 ∧ s.Registered p ∧ (s.handles p).Covers x ∧
        gphysaddr.toNat ≤ x ∧ x < gphysaddr.toNat + len.toNat ∧
        (s.mmioRange gphysaddr len).toNat = (s.handles p).gphys.toNat + (s.handles p).len.toNat := by
  have plain : Plain gphysaddr len := ⟨positive, by omega⟩
  have nonempty : len ≠ 0 := by
    rintro rfl
    exact absurd positive (by decide)
  have last := toNat_last plain
  have spec := rangeLoop_lists listed plain (by omega) rfl
  unfold mmioRange
  rw [if_neg nonempty]
  simp only [bucket_eq, last]
  rcases spec with ⟨loop, free⟩ | ⟨p, x, loop, registered, covers, low, high⟩
  · rw [loop]
    exact .inl ⟨rfl, free⟩
  · have ends : ((s.handles p).gphys + (s.handles p).len.toUInt64).toNat =
        (s.handles p).gphys.toNat + (s.handles p).len.toNat := by
      have bound := (s.handles p).len.toNat_lt
      obtain ⟨lower, -⟩ := covers
      rw [UInt64.toNat_add, UInt32.toNat_toUInt64]
      omega
    rw [loop]
    refine .inr ⟨p, x, ?_, registered, covers, low, high, ends⟩
    intro zero
    have zeroNat := congrArg UInt64.toNat zero
    obtain ⟨lower, upper⟩ := covers
    have none' := UInt64.toNat_zero
    rw [ends, none'] at zeroNat
    omega

theorem mmioRange_eq_zero (positive : 0 < len.toNat)
    (fits : gphysaddr.toNat + len.toNat < 2 ^ 63) : s.mmioRange gphysaddr len = 0 ↔
      s.Free gphysaddr.toNat (gphysaddr.toNat + len.toNat) := by
  rcases mmioRange_spec listed positive fits with
    ⟨zero, free⟩ | ⟨p, x, found, registered, covers, low, high, -⟩
  · exact ⟨fun _ => free, fun _ => zero⟩
  · refine ⟨fun zero => absurd zero found, fun free => ?_⟩
    have apart := free p registered x covers
    omega

theorem mmioAccessPage_eq_false (fits : gphysaddr.toNat < 2 ^ 63 - 2 ^ 12) :
    s.mmioAccessPage gphysaddr = false ↔
      s.Free (gphysaddr.toNat / 2 ^ 12 * 2 ^ 12) (gphysaddr.toNat / 2 ^ 12 * 2 ^ 12 + 2 ^ 12) := by
  have page := @Words.toNat_and_high gphysaddr (~~~0xFFF) 12 rfl (by omega)
  have size : pageSize.toNat = 2 ^ 12 := rfl
  have plain : Plain (gphysaddr &&& ~~~0xFFF) pageSize := ⟨by decide, by rw [page, size]; omega⟩
  have one : window ((gphysaddr &&& ~~~0xFFF).toNat + pageSize.toNat - 1) = window (gphysaddr &&& ~~~0xFFF).toNat := by
    rw [page, size]
    unfold window
    omega
  have order : (List.range' (window (gphysaddr &&& ~~~0xFFF).toNat)
      (window ((gphysaddr &&& ~~~0xFFF).toNat + pageSize.toNat - 1) + 1 -
        window (gphysaddr &&& ~~~0xFFF).toNat)).flatMap s.mmio =
          s.mmio (bucket (gphysaddr &&& ~~~0xFFF)) := by
    rw [one, Nat.add_sub_cancel_left, bucket_eq]
    simp
  have spec := rangeLoop_lists listed plain (by rw [page, size]; omega) order
  unfold mmioAccessPage
  rw [← page]
  rcases spec with ⟨loop, free⟩ | ⟨p, x, loop, registered, covers, low, high⟩
  · rw [loop]
    exact ⟨fun _ => free, fun _ => rfl⟩
  · rw [loop]
    refine ⟨fun found => absurd found (by simp), fun free => ?_⟩
    have apart := free p registered x covers
    rw [size] at high
    omega

end

def Shrinks (s t : MmioData) : Prop := ∀ p, t.Registered p → s.Registered p ∧ t.handles p = s.handles p

theorem shrinks_remove (s : MmioData) (p : Nat) : Shrinks s (s.remove p) := by
  unfold MmioData.remove
  rw [delAll_eq]
  rintro q ⟨member, registered⟩
  exact ⟨⟨List.mem_of_mem_erase member, registered⟩, rfl⟩

theorem shrinks_sweep (rest : List Nat) : ∀ s : MmioData, Shrinks s (sweep rest s) := by
  induction rest with
  | nil => exact fun s p registered => ⟨registered, rfl⟩
  | cons p rest ih =>
    intro s q registered
    unfold sweep at registered ⊢
    obtain ⟨between, same⟩ := ih _ q registered
    rw [same]
    split at between
    · rename_i gone
      rw [if_pos gone]
      exact shrinks_remove s p q between
    · rename_i kept
      rw [if_neg kept]
      exact ⟨between, rfl⟩

theorem shrinks_unregister (s : MmioData) (p : Nat) (held : Bool) : Shrinks s (s.unregister p held) := by
  unfold MmioData.unregister
  cases held with
  | false => exact shrinks_remove s p
  | true =>
    rintro q ⟨member, registered⟩
    by_cases marked : q = p
    · subst marked
      simp at registered
    · simp only [if_true, Function.update_of_ne marked] at member registered ⊢
      exact ⟨⟨member, registered⟩, trivial⟩

theorem shrinks_unlock (s : MmioData) (held : Bool) : Shrinks s (s.unlock held) := by
  unfold MmioData.unlock
  split
  · exact shrinks_sweep s.handle { s with unregisterFlag := false }
  · exact fun p registered => ⟨registered, rfl⟩

end MmioData

end DisasVisor.Mmio
