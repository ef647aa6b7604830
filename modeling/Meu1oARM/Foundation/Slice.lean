import Mathlib.Tactic.Common

/-! # Pieces of a stream

A stream is a list that grows at its end. A piece of it is known by its position: it
stays a piece there when the stream grows, and a reader who has read everything in
front of it has read a prefix of the stream.
-/

/-- `ys` stands in `xs` at position `x`. -/
def IsSlice {α : Type*} (xs : List α) (x : Nat) (ys : List α) : Prop := ys <+: xs.drop x

namespace IsSlice

variable {α : Type*} {xs ys zs : List α} {x n : Nat}

theorem nil (xs : List α) (x : Nat) : IsSlice xs x [] := List.nil_prefix

theorem drop_self (xs : List α) (x : Nat) : IsSlice xs x (xs.drop x) := List.prefix_rfl

theorem le_length (h : IsSlice xs x ys) (hne : ys ≠ []) : x + ys.length ≤ xs.length := by
  have hle := h.length_le
  rw [List.length_drop] at hle
  have hpos := List.length_pos_iff.mpr hne
  omega

/-- The stream grows. -/
theorem append (h : IsSlice xs x ys) (zs : List α) : IsSlice (xs ++ zs) x ys := by
  unfold IsSlice at *
  rw [List.drop_append]
  exact h.trans (List.prefix_append _ _)

theorem of_prefix (h : IsSlice xs x ys) (hxs : xs <+: zs) : IsSlice zs x ys := by
  obtain ⟨t, rfl⟩ := hxs
  exact h.append t

theorem take (h : IsSlice xs x ys) (n : Nat) : IsSlice xs x (ys.take n) :=
  (List.take_prefix n ys).trans h

theorem left (h : IsSlice xs x (ys ++ zs)) : IsSlice xs x ys := (List.prefix_append ys zs).trans h

theorem drop (h : IsSlice xs x ys) (n : Nat) : IsSlice xs (x + n) (ys.drop n) := by
  obtain ⟨t, ht⟩ := h
  unfold IsSlice
  rw [← List.drop_drop, ← ht, List.drop_append]
  exact List.prefix_append _ _

theorem right (h : IsSlice xs x (ys ++ zs)) : IsSlice xs (x + ys.length) zs := by
  simpa using h.drop ys.length

/-- What has been read so far and the piece behind it. -/
theorem take_append (h : IsSlice xs n ys) : xs.take n ++ ys = xs.take (n + ys.length) := by
  obtain ⟨t, ht⟩ := h
  rw [List.take_add, ← ht, List.take_left]

end IsSlice
