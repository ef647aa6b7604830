import Mathlib.Data.List.Basic
import Mathlib.Tactic.Common

/-! # Writing at an offset

Writing at an offset of a sequence replaces what stands there and extends the sequence
where it ends. Only at the end is that an append.
-/

namespace Overwrite

variable {B : Type*}

/-- The sequence after `ys` has been written at `off`. -/
def writeAt (xs : List B) (off : Nat) (ys : List B) : List B :=
  xs.take off ++ (ys ++ xs.drop (off + ys.length))

variable (xs ys : List B)

@[simp] theorem writeAt_length : writeAt xs xs.length ys = xs ++ ys := by
  simp [writeAt]

theorem writeAt_zero : writeAt xs 0 ys = ys ++ xs.drop ys.length := by
  simp [writeAt]

variable {xs ys}

/-- What a first part of `ys`, written over the beginning, makes of a sequence is an append of a
first part of `ys` when it puts down what an append would have left there. -/
theorem writeAt_zero_take_iff (n : Nat) :
    (∃ zs, zs <+: ys ∧ writeAt xs 0 (ys.take n) = xs ++ zs) ↔ ys.take n <+: xs ++ ys := by
  rw [writeAt_zero]
  constructor
  · rintro ⟨zs, hzs, heq⟩
    have hfirst : ys.take n <+: xs ++ zs := ⟨_, heq⟩
    exact hfirst.trans ((List.prefix_append_right_inj xs).mpr hzs)
  · intro hfirst
    rcases Nat.le_total (ys.take n).length xs.length with hle | hle
    · -- the sequence is long enough to stay what it is
      refine ⟨[], List.nil_prefix, ?_⟩
      obtain ⟨rest, hrest⟩ := List.prefix_of_prefix_length_le hfirst (List.prefix_append xs ys) hle
      conv_lhs => rw [← hrest, List.drop_left]
      rw [hrest, List.append_nil]
    · obtain ⟨zs, hzs⟩ := List.prefix_of_prefix_length_le (List.prefix_append xs ys) hfirst hle
      refine ⟨zs, ?_, ?_⟩
      · rw [← hzs] at hfirst
        exact (List.prefix_append_right_inj xs).mp hfirst
      · rw [List.drop_eq_nil_of_le hle, List.append_nil, hzs]

end Overwrite
