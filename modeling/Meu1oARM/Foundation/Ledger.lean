import Mathlib.Tactic.Common

/-! # Who owns which block

A ledger relates the blocks that an allocator has handed out to those who own them: a
list of pointers, each with the number of bytes its owner may use.
-/

/-- What is owned lies in used blocks, each block has one owner, and no block is used without. -/
structure Ledger (owned blocks : List (Nat × Nat)) : Prop where
  backed : ∀ r m, (r, m) ∈ owned → ∃ s, (r, s) ∈ blocks ∧ m ≤ s
  claimed : ∀ r s, (r, s) ∈ blocks → ∃ m, (r, m) ∈ owned
  nodup : (owned.map Prod.fst).Nodup

namespace Ledger

variable {owned front back : List (Nat × Nat)} {r s m : Nat}

/-- A block gets an owner. -/
theorem claim (h : Ledger owned (front ++ back)) (hfresh : ∀ x ∈ front ++ back, x.1 ≠ r)
    (hm : m ≤ s) : Ledger ((r, m) :: owned) (front ++ (r, s) :: back) where
  backed q n hmem := by
    rcases List.mem_cons.mp hmem with heq | hmem
    · obtain ⟨rfl, rfl⟩ := Prod.mk.inj heq
      exact ⟨s, by simp, hm⟩
    · obtain ⟨t, ht, hn⟩ := h.backed q n hmem
      refine ⟨t, ?_, hn⟩
      rcases List.mem_append.mp ht with ht | ht <;> simp [ht]
  claimed q t hmem := by
    rcases List.mem_append.mp hmem with hmem | hmem
    · obtain ⟨n, hn⟩ := h.claimed q t (List.mem_append_left _ hmem)
      exact ⟨n, List.mem_cons_of_mem _ hn⟩
    rcases List.mem_cons.mp hmem with heq | hmem
    · obtain ⟨rfl, rfl⟩ := Prod.mk.inj heq
      exact ⟨m, List.mem_cons_self⟩
    · obtain ⟨n, hn⟩ := h.claimed q t (List.mem_append_right _ hmem)
      exact ⟨n, List.mem_cons_of_mem _ hn⟩
  nodup := by
    refine List.nodup_cons.mpr ⟨?_, h.nodup⟩
    intro hmem
    obtain ⟨⟨q, n⟩, hq, rfl⟩ := List.mem_map.mp hmem
    obtain ⟨t, ht, _⟩ := h.backed q n hq
    exact hfresh _ ht rfl

/-- A block loses its owner. -/
theorem drop (h : Ledger owned (front ++ (r, s) :: back))
    (hfresh : ∀ x ∈ front ++ back, x.1 ≠ r) :
    Ledger (owned.filter fun x => x.1 ≠ r) (front ++ back) where
  backed q n hmem := by
    obtain ⟨hmem, hne⟩ := List.mem_filter.mp hmem
    obtain ⟨t, ht, hn⟩ := h.backed q n hmem
    refine ⟨t, ?_, hn⟩
    have hne' : q ≠ r := by simpa using hne
    rcases List.mem_append.mp ht with ht | ht
    · exact List.mem_append_left _ ht
    rcases List.mem_cons.mp ht with heq | ht
    · exact absurd (Prod.mk.inj heq).1 hne'
    · exact List.mem_append_right _ ht
  claimed q t hmem := by
    have hblock : (q, t) ∈ front ++ (r, s) :: back := by
      rcases List.mem_append.mp hmem with hmem | hmem <;> simp [hmem]
    obtain ⟨n, hn⟩ := h.claimed q t hblock
    exact ⟨n, List.mem_filter.mpr ⟨hn, by simpa using hfresh _ hmem⟩⟩
  nodup := h.nodup.sublist (List.Sublist.map _ List.filter_sublist)

/-- A block and its owner's share become shorter. -/
theorem resize (h : Ledger owned (front ++ (r, s) :: back)) {t : Nat} (ht : m ≤ t)
    (hfresh : ∀ x ∈ front ++ back, x.1 ≠ r) :
    Ledger (owned.map fun x => if x.1 = r then (r, m) else x) (front ++ (r, t) :: back) where
  backed q n hmem := by
    obtain ⟨⟨q', n'⟩, hx, heq⟩ := List.mem_map.mp hmem
    dsimp only at heq
    split at heq
    next _ =>
      obtain ⟨rfl, rfl⟩ := Prod.mk.inj heq
      exact ⟨t, by simp, ht⟩
    next hne =>
      obtain ⟨rfl, rfl⟩ := Prod.mk.inj heq
      obtain ⟨u, hu, hn⟩ := h.backed q' n' hx
      refine ⟨u, ?_, hn⟩
      rcases List.mem_append.mp hu with hu | hu
      · simp [hu]
      rcases List.mem_cons.mp hu with heq | hu
      · exact absurd (Prod.mk.inj heq).1 hne
      · simp [hu]
  claimed q u hmem := by
    rcases List.mem_append.mp hmem with hmem | hmem
    · obtain ⟨n, hn⟩ := h.claimed q u (List.mem_append_left _ hmem)
      have hne : q ≠ r := hfresh _ (List.mem_append_left _ hmem)
      exact ⟨n, List.mem_map.mpr ⟨_, hn, if_neg hne⟩⟩
    rcases List.mem_cons.mp hmem with heq | hmem
    · obtain ⟨rfl, rfl⟩ := Prod.mk.inj heq
      obtain ⟨n, hn⟩ := h.claimed q s (by simp)
      exact ⟨m, List.mem_map.mpr ⟨_, hn, if_pos rfl⟩⟩
    · obtain ⟨n, hn⟩ := h.claimed q u (by simp [hmem])
      have hne : q ≠ r := hfresh _ (List.mem_append_right _ hmem)
      exact ⟨n, List.mem_map.mpr ⟨_, hn, if_neg hne⟩⟩
  nodup := by
    have hfst : (owned.map fun x => if x.1 = r then (r, m) else x).map Prod.fst =
        owned.map Prod.fst := by
      rw [List.map_map]
      apply List.map_congr_left
      rintro ⟨q, n⟩ _
      simp only [Function.comp_apply]
      split
      next heq => exact heq.symm
      next _ => rfl
    rw [hfst]
    exact h.nodup

end Ledger
