import Mathlib.Algebra.GroupWithZero.Nat

/-!
Index types that several modules write numerals of.
-/

namespace Indices

instance four : NeZero 4 := ⟨by decide⟩

instance sixteen : NeZero 16 := ⟨by decide⟩

instance thirtyTwo : NeZero 32 := ⟨by decide⟩

instance frames : NeZero (2 ^ 20) := ⟨by decide⟩

end Indices
