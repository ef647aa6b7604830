import Mathlib.Data.List.Nodup
import Mathlib.Logic.Function.Basic

/-! # Lists that are linked in memory

A field `next` leads from each node to the one behind it. `Lists next head l` says
that from `head` it leads through the nodes `l`, one after another, to the end.
-/

namespace LinkedList

variable {α : Type*} {next : α → Option α} {head : Option α} {a b : α} {l r : List α}

/-- From `head` the field `next` leads through `l` to the null pointer. -/
inductive Lists (next : α → Option α) : Option α → List α → Prop
  | nil : Lists next none []
  | cons {a : α} {l : List α} (hrest : Lists next (next a) l) : Lists next (some a) (a :: l)

namespace Lists

theorem head_eq (h : Lists next head l) : head = l.head? := by
  cases h <;> rfl

theorem eq_nil (h : Lists next none l) : l = [] := by
  cases h
  rfl

theorem rest (h : Lists next (some a) (b :: l)) : Lists next (next a) l := by
  cases h with
  | cons hrest => exact hrest

/-- What is reached from a node is determined by the node. -/
theorem unique (h : Lists next head l) (h' : Lists next head r) : l = r := by
  induction h generalizing r with
  | nil => exact h'.eq_nil.symm
  | cons hrest ih =>
      cases h' with
      | cons hrest' => rw [ih hrest']

/-- The list from one of its nodes on. -/
theorem from_node (h : Lists next head (l ++ a :: r)) : Lists next (some a) (a :: r) := by
  induction l generalizing head with
  | nil =>
      cases h with
      | cons hrest => exact .cons hrest
  | cons b l ih =>
      cases h with
      | cons hrest => exact ih hrest

theorem next_eq (h : Lists next head (l ++ a :: r)) : next a = r.head? :=
  h.from_node.rest.head_eq

/-- A list that comes to an end passes no node twice. -/
theorem nodup (h : Lists next head l) : l.Nodup := by
  induction h with
  | nil => exact List.nodup_nil
  | @cons a l hrest ih =>
      refine List.nodup_cons.mpr ⟨?_, ih⟩
      intro hmem
      -- the list behind the second visit would be the list behind the first
      obtain ⟨s, t, rfl⟩ := List.append_of_mem hmem
      have hsame := (Lists.cons hrest).unique hrest.from_node
      have hlength := congrArg List.length hsame
      simp at hlength
      omega

/-- A list depends only on the field of its own nodes. -/
theorem congr {next' : α → Option α} (h : Lists next head l) (hsame : ∀ a ∈ l, next' a = next a) :
    Lists next' head l := by
  induction h with
  | nil => exact .nil
  | @cons a l hrest ih =>
      apply Lists.cons
      rw [hsame a List.mem_cons_self]
      exact ih fun b hb => hsame b (List.mem_cons_of_mem a hb)

variable [DecidableEq α]

/-- Writing the field of a node that is not in the list. -/
theorem update_of_not_mem (h : Lists next head l) (hnot : a ∉ l) (p : Option α) :
    Lists (Function.update next a p) head l := by
  apply h.congr
  intro b hb
  have hne : b ≠ a := by
    rintro rfl
    exact hnot hb
  rw [Function.update_of_ne hne]

/-- Writing the field of a node makes the list go on from there as the new field says. -/
theorem redirect (h : Lists next head (l ++ a :: r)) {p : Option α} {s : List α} (hnot : a ∉ s)
    (hrest : Lists next p s) : Lists (Function.update next a p) head (l ++ a :: s) := by
  have hnodup := h.nodup
  induction l generalizing head with
  | nil =>
      cases h with
      | cons =>
          apply Lists.cons
          rw [Function.update_self]
          exact hrest.update_of_not_mem hnot p
  | cons b l ih =>
      obtain ⟨hb, hnodup⟩ := List.nodup_cons.mp hnodup
      cases h with
      | cons htail =>
          have hne : b ≠ a := by
            rintro rfl
            exact hb (List.mem_append_right l List.mem_cons_self)
          apply Lists.cons
          rw [Function.update_of_ne hne]
          exact ih htail hnodup

/-- A node is put behind the last one. -/
theorem push (h : Lists next head (l ++ [a])) (hnew : b ∉ l ++ [a]) (hend : next b = none) :
    Lists (Function.update next a (some b)) head (l ++ [a] ++ [b]) := by
  have hb : Lists next (some b) [b] := by
    apply Lists.cons
    rw [hend]
    exact .nil
  have hne : a ∉ [b] := by
    intro hmem
    obtain rfl := List.mem_singleton.mp hmem
    exact hnew (List.mem_append_right l (List.mem_singleton_self a))
  rw [List.append_assoc]
  exact h.redirect hne hb

/-- The node behind another is taken out. -/
theorem unlink (h : Lists next head (l ++ a :: b :: r)) :
    Lists (Function.update next a (next b)) head (l ++ a :: r) := by
  have hnodup := h.from_node.nodup
  have hne : a ∉ r := fun hmem =>
    (List.nodup_cons.mp hnodup).1 (List.mem_cons_of_mem b hmem)
  have hrest : Lists next (next b) r := by
    rw [List.append_cons] at h
    exact h.from_node.rest
  exact h.redirect hne hrest

end Lists

end LinkedList
