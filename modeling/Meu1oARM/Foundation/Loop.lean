import Mathlib.Logic.Function.Iterate
import Mathlib.Tactic.Common

/-! # Loops that end

A loop turns a state into the next until it comes to stop. If every round lowers a
measure or is the last one, the loop stops after a number of rounds that the measure
bounds.
-/

namespace Loop

variable {S : Type*} (turn : S → S) (stop : S → Prop)

/-- The loop comes to the front of round `k`. -/
def Reaches (s : S) (k : Nat) : Prop := ∀ j < k, ¬ stop (turn^[j] s)

variable {turn stop}

theorem reaches_zero (s : S) : Reaches turn stop s 0 := nofun

theorem Reaches.mono {s : S} {j k : Nat} (h : Reaches turn stop s k) (hle : j ≤ k) :
    Reaches turn stop s j :=
  fun i hi => h i (Nat.lt_of_lt_of_le hi hle)

theorem reaches_succ_iff {s : S} {k : Nat} :
    Reaches turn stop s (k + 1) ↔ ¬ stop s ∧ Reaches turn stop (turn s) k := by
  constructor
  · intro h
    refine ⟨h 0 (Nat.zero_lt_succ k), fun j hj => ?_⟩
    have hnext := h (j + 1) (Nat.succ_lt_succ hj)
    rwa [Function.iterate_succ_apply] at hnext
  · rintro ⟨hfirst, hrest⟩ j hj
    cases j with
    | zero => exact hfirst
    | succ j =>
        rw [Function.iterate_succ_apply]
        exact hrest j (Nat.lt_of_succ_lt_succ hj)

/-- What every round keeps holds in front of every round. -/
theorem invariant {I : S → Prop} (hturn : ∀ s, I s → ¬ stop s → I (turn s)) {s : S} (h : I s)
    {k : Nat} (hreach : Reaches turn stop s k) : I (turn^[k] s) := by
  induction k generalizing s with
  | zero => exact h
  | succ k ih =>
      obtain ⟨hgo, hrest⟩ := reaches_succ_iff.mp hreach
      rw [Function.iterate_succ_apply]
      exact ih (hturn s h hgo) hrest

/-- A loop whose rounds lower a measure, unless they are the last, comes to stop. -/
theorem stops {I : S → Prop} {m : S → Nat} (hturn : ∀ s, I s → ¬ stop s → I (turn s))
    (hlower : ∀ s, I s → ¬ stop s → stop (turn s) ∨ m (turn s) < m s) {s : S}
    (h : I s) : ∃ n ≤ m s + 1, stop (turn^[n] s) ∧ Reaches turn stop s n := by
  induction hm : m s using Nat.strongRecOn generalizing s with
  | ind bound ih =>
      by_cases hstop : stop s
      · exact ⟨0, Nat.zero_le _, hstop, reaches_zero s⟩
      rcases hlower s h hstop with hlast | hless
      · exact ⟨1, by omega, hlast, reaches_succ_iff.mpr ⟨hstop, reaches_zero _⟩⟩
      · obtain ⟨n, hn, hend, hreach⟩ := ih _ (hm ▸ hless) (hturn s h hstop) rfl
        exact ⟨n + 1, by omega, hend, reaches_succ_iff.mpr ⟨hstop, hreach⟩⟩

end Loop
