import Mathlib.Data.List.Basic
import Mathlib.Data.Nat.ModEq

/-!
Ring buffers: the elements of a window that may run over the end of the ring, when one is
written at either end of it.
-/

namespace Rings

open Function

variable {α : Type*} {size : Nat} [NeZero size]

def window (ring : Fin size → α) (offset count : Nat) : List α :=
  (List.range count).map fun i => ring (Fin.ofNat size (offset + i))

variable (ring : Fin size → α) (offset count : Nat)

@[simp] theorem length_window : (window ring offset count).length = count := by
  simp [window]

theorem window_succ :
    window ring offset (count + 1) = window ring offset count ++ [ring (Fin.ofNat size (offset + count))] := by
  simp [window, List.range_succ]

theorem window_cons :
    window ring offset (count + 1) = ring (Fin.ofNat size offset) :: window ring (offset + 1) count := by
  simp only [window, List.range_succ_eq_map, List.map_cons, List.map_map, Nat.add_zero]
  congr 1
  apply List.map_congr_left
  intro i _
  simp only [Function.comp, Nat.succ_eq_add_one]
  rw [show offset + (i + 1) = offset + 1 + i by omega]

theorem ofNat_congr {a b : Nat} (same : a % size = b % size) : Fin.ofNat size a = Fin.ofNat size b := by
  apply Fin.ext
  simpa [Fin.ofNat] using same

theorem ofNat_ne {a b : Nat} (below : a < b) (near : b < a + size) : Fin.ofNat size a ≠ Fin.ofNat size b := by
  intro same
  have mods : a % size = b % size := by simpa [Fin.ofNat] using congrArg Fin.val same
  obtain ⟨gap, rfl⟩ := Nat.exists_eq_add_of_lt below
  have zero : (gap + 1) % size = 0 := by
    have cancel := (Nat.ModEq.add_left_cancel' a (show a + 0 ≡ a + (gap + 1) [MOD size] by
      simpa [Nat.ModEq, Nat.add_assoc] using mods)).symm
    simpa [Nat.ModEq] using cancel
  have whole := Nat.mod_eq_of_lt (show gap + 1 < size by omega)
  omega

theorem window_congr {other : Nat} (same : offset % size = other % size) :
    window ring offset count = window ring other count := by
  apply List.map_congr_left
  intro i _
  have moved : Fin.ofNat size (offset + i) = Fin.ofNat size (other + i) :=
    ofNat_congr (by rw [Nat.add_mod, same, ← Nat.add_mod])
  exact congrArg ring moved

theorem window_update (place : Nat) (value : α)
    (outside : ∀ i < count, Fin.ofNat size (offset + i) ≠ Fin.ofNat size place) :
    window (update ring (Fin.ofNat size place) value) offset count = window ring offset count := by
  apply List.map_congr_left
  intro i member
  rw [update_of_ne (outside i (List.mem_range.mp member))]

theorem window_push (room : count < size) (value : α) :
    window (update ring (Fin.ofNat size (offset + count)) value) offset (count + 1) =
      window ring offset count ++ [value] := by
  rw [window_succ, update_self, window_update]
  intro i below
  exact ofNat_ne (by omega) (by omega)

theorem window_rotate (value : α) :
    window (update ring (Fin.ofNat size (offset + size)) value) (offset + 1) size =
      (window ring offset size).tail ++ [value] := by
  obtain ⟨less, eq⟩ : ∃ less, size = less + 1 := Nat.exists_eq_succ_of_ne_zero (NeZero.ne size)
  have wrapped : offset + size = offset + 1 + less := by omega
  have rest : (window ring offset size).tail = window ring (offset + 1) less := by
    have split := window_cons ring offset less
    rw [← eq] at split
    rw [split, List.tail_cons]
  have pushed := window_push ring (offset + 1) less (by omega) value
  rw [← eq, ← wrapped] at pushed
  rw [pushed, rest]

theorem window_unshift (room : count < size) (before : Nat)
    (next : (before + 1) % size = offset % size) (value : α) :
    window (update ring (Fin.ofNat size before) value) before (count + 1) = value :: window ring offset count := by
  rw [window_cons, update_self, window_congr _ _ _ next, window_update]
  intro i below same
  have shifted : Fin.ofNat size (offset + i) = Fin.ofNat size (before + (1 + i)) := by
    apply ofNat_congr
    rw [← Nat.add_assoc, Nat.add_mod, ← next, ← Nat.add_mod]
  rw [shifted] at same
  exact ofNat_ne (by omega) (by omega) same.symm

end Rings
