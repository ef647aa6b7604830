import Mathlib.Data.List.Infix
import Mathlib.Data.List.Perm.Basic
import Mathlib.Tactic.Common

/-! # The tokens of a sequence

A token language says which sequences are tokens and what they stand for. When tokens
never overlap, the leftmost tokens of a sequence are all of its tokens. A recogniser
that reads element by element reports tokens of its own, and the two lists agree when
they have the same members.
-/

namespace Tokens

variable {B T : Type*} {IsToken : List B → T → Prop}

/-- The leftmost tokens that do not overlap, each with the offset of its end. The sequence starts
at offset `pos`. -/
inductive Leftmost (IsToken : List B → T → Prop) : Nat → List B → List (Nat × T) → Prop
  | nil (pos : Nat) : Leftmost IsToken pos [] []
  | skip {pos : Nat} {b : B} {bs : List B} {found : List (Nat × T)}
      (hnone : ∀ t x, IsToken t x → ¬t <+: b :: bs)
      (hrest : Leftmost IsToken (pos + 1) bs found) : Leftmost IsToken pos (b :: bs) found
  | token {pos : Nat} {t bs : List B} {x : T} {found : List (Nat × T)} (htoken : IsToken t x)
      (hrest : Leftmost IsToken (pos + t.length) bs found) :
      Leftmost IsToken pos (t ++ bs) ((pos + t.length, x) :: found)

/-- The token `t` for `x` stands behind `a` in the sequence. -/
structure Occurs (IsToken : List B → T → Prop) (bs a t : List B) (x : T) : Prop where
  token : IsToken t x
  isPrefix : a ++ t <+: bs

/-- Tokens are not empty, stand for one thing and never overlap. -/
structure Separate (IsToken : List B → T → Prop) : Prop where
  ne_nil : ∀ {t x}, IsToken t x → t ≠ []
  unique : ∀ {t x y}, IsToken t x → IsToken t y → x = y
  apart : ∀ {bs t a t' x y}, Occurs IsToken bs [] t x → Occurs IsToken bs a t' y →
    a.length < t.length → a = [] ∧ t' = t

section Leftmost

variable (hsep : Separate IsToken)
include hsep

/-- The leftmost tokens are all tokens. -/
theorem Leftmost.mem_iff {pos : Nat} {bs : List B} {found : List (Nat × T)}
    (h : Leftmost IsToken pos bs found) {e : Nat} {x : T} :
    (e, x) ∈ found ↔ ∃ a t, Occurs IsToken bs a t x ∧ e = pos + a.length + t.length := by
  induction h with
  | nil pos =>
      simp only [List.not_mem_nil, false_iff]
      rintro ⟨a, t, hoccurs, -⟩
      have hnil := List.prefix_nil.mp hoccurs.isPrefix
      exact hsep.ne_nil hoccurs.token (List.append_eq_nil_iff.mp hnil).2
  -- no token begins at the byte that is skipped
  | @skip pos b bs found hnone hrest ih =>
      rw [ih]
      constructor
      · rintro ⟨a, t, hoccurs, rfl⟩
        refine ⟨b :: a, t, ⟨hoccurs.token, ?_⟩, ?_⟩
        · exact (List.prefix_cons_inj b).mpr hoccurs.isPrefix
        · rw [List.length_cons]
          omega
      · rintro ⟨a, t, hoccurs, rfl⟩
        cases a with
        | nil => exact absurd hoccurs.isPrefix (hnone t x hoccurs.token)
        | cons b' a =>
            obtain ⟨rfl, hfront⟩ := List.cons_prefix_cons.mp hoccurs.isPrefix
            refine ⟨a, t, ⟨hoccurs.token, hfront⟩, ?_⟩
            rw [List.length_cons]
            omega
  | @token pos t bs y found htoken hrest ih =>
      have hfirst : Occurs IsToken (t ++ bs) [] t y := ⟨htoken, List.prefix_append _ _⟩
      rw [List.mem_cons, ih]
      constructor
      · rintro (heq | ⟨a, t', hoccurs, rfl⟩)
        · obtain ⟨rfl, rfl⟩ := Prod.mk.inj heq
          exact ⟨[], t, hfirst, rfl⟩
        · refine ⟨t ++ a, t', ⟨hoccurs.token, ?_⟩, ?_⟩
          · rw [List.append_assoc]
            exact (List.prefix_append_right_inj t).mpr hoccurs.isPrefix
          · rw [List.length_append]
            omega
      · rintro ⟨a, t', hoccurs, rfl⟩
        -- a token that begins inside the first one is the first one
        by_cases hinside : a.length < t.length
        · obtain ⟨rfl, rfl⟩ := hsep.apart hfirst hoccurs hinside
          left
          rw [hsep.unique hoccurs.token htoken]
          rfl
        · right
          have hpart : t <+: a := by
            refine List.prefix_of_prefix_length_le (List.prefix_append t bs) ?_ (by omega)
            exact (List.prefix_append a t').trans hoccurs.isPrefix
          obtain ⟨a, rfl⟩ := hpart
          refine ⟨a, t', ⟨hoccurs.token, ?_⟩, ?_⟩
          · have hfront := hoccurs.isPrefix
            rwa [List.append_assoc, List.prefix_append_right_inj] at hfront
          · rw [List.length_append]
            omega

theorem Leftmost.pairwise {pos : Nat} {bs : List B} {found : List (Nat × T)}
    (h : Leftmost IsToken pos bs found) : found.Pairwise (·.1 < ·.1) := by
  induction h with
  | nil => exact List.Pairwise.nil
  | skip _ _ ih => exact ih
  | @token pos t bs y found htoken hrest ih =>
      refine List.pairwise_cons.mpr ⟨?_, ih⟩
      rintro ⟨e, x⟩ hmem
      obtain ⟨a, t', hoccurs, rfl⟩ := (hrest.mem_iff hsep).mp hmem
      have hpos := List.length_pos_of_ne_nil (hsep.ne_nil hoccurs.token)
      dsimp only
      omega

theorem exists_leftmost (pos : Nat) (bs : List B) : ∃ found, Leftmost IsToken pos bs found := by
  induction hlength : bs.length using Nat.strong_induction_on generalizing pos bs with
  | _ n ih =>
      cases bs with
      | nil => exact ⟨[], .nil pos⟩
      | cons b bs =>
          rw [List.length_cons] at hlength
          by_cases hstarts : ∃ t x, IsToken t x ∧ t <+: b :: bs
          · obtain ⟨t, x, htoken, rest, heq⟩ := hstarts
            have hpos := List.length_pos_of_ne_nil (hsep.ne_nil htoken)
            have hsplit := congrArg List.length heq
            rw [List.length_append, List.length_cons] at hsplit
            obtain ⟨found, hfound⟩ := ih rest.length (by omega) (pos + t.length) rest rfl
            rw [← heq]
            exact ⟨_, .token htoken hfound⟩
          · obtain ⟨found, hfound⟩ := ih bs.length (by omega) (pos + 1) bs rfl
            exact ⟨found, .skip (fun t x htoken hfront => hstarts ⟨t, x, htoken, hfront⟩) hfound⟩

end Leftmost

theorem eq_of_mem_iff {l r : List (Nat × T)} (hl : l.Pairwise (·.1 < ·.1))
    (hr : r.Pairwise (·.1 < ·.1)) (h : ∀ x, x ∈ l ↔ x ∈ r) : l = r := by
  have hnodup : ∀ {s : List (Nat × T)}, s.Pairwise (·.1 < ·.1) → s.Nodup := by
    intro s hs
    refine hs.imp ?_
    intro x y hlt heq
    rw [heq] at hlt
    exact Nat.lt_irrefl _ hlt
  have hperm := (List.perm_ext_iff_of_nodup (hnodup hl) (hnodup hr)).mpr h
  refine hperm.eq_of_pairwise ?_ hl hr
  intro x y _ _ hxy hyx
  exact absurd hxy (Nat.lt_asymm hyx)

/-- A list in the order of its offsets is the one of the leftmost tokens when its members are the
tokens. -/
theorem leftmost_iff (hsep : Separate IsToken) {pos : Nat} {bs : List B} {l : List (Nat × T)}
    (hl : l.Pairwise (·.1 < ·.1)) :
    Leftmost IsToken pos bs l ↔
      ∀ e x, (e, x) ∈ l ↔ ∃ a t, Occurs IsToken bs a t x ∧ e = pos + a.length + t.length := by
  constructor
  · exact fun h e x => h.mem_iff hsep
  · intro h
    obtain ⟨found, hfound⟩ := exists_leftmost hsep pos bs
    have heq : found = l := by
      refine eq_of_mem_iff (hfound.pairwise hsep) hl fun ⟨e, x⟩ => ?_
      rw [hfound.mem_iff hsep, h]
    exact heq ▸ hfound

/-- Two tokens with the same end are the same. -/
theorem Separate.eq_of_end (hsep : Separate IsToken) {bs a t a' t' : List B} {x y : T}
    (h : Occurs IsToken bs a t x) (h' : Occurs IsToken bs a' t' y)
    (hend : a.length + t.length = a'.length + t'.length) : a = a' ∧ t = t' := by
  have hsame : a ++ t = a' ++ t' := by
    refine (List.prefix_of_prefix_length_le h.isPrefix h'.isPrefix ?_).eq_of_length ?_
    all_goals simp only [List.length_append]; omega
  -- the longer of the two would contain the other one
  have hshorter : ∀ {a t a' t' : List B} {x y : T}, IsToken t x → IsToken t' y →
      a ++ t = a' ++ t' → a.length ≤ a'.length → a = a' ∧ t = t' := by
    intro a t a' t' x y ht ht' heq hle
    have hpart : a <+: a' :=
      List.prefix_of_prefix_length_le (heq ▸ List.prefix_append a t) (List.prefix_append a' t') hle
    obtain ⟨d, rfl⟩ := hpart
    rw [List.append_assoc, List.append_cancel_left_eq] at heq
    have hlt : d.length < t.length := by
      have hpos := List.length_pos_of_ne_nil (hsep.ne_nil ht')
      rw [heq, List.length_append]
      omega
    have hwhole : Occurs IsToken t [] t x := ⟨ht, List.prefix_rfl⟩
    have hrest : Occurs IsToken t d t' y := ⟨ht', heq ▸ List.prefix_rfl⟩
    obtain ⟨rfl, rfl⟩ := hsep.apart hwhole hrest hlt
    exact ⟨(List.append_nil a).symm, rfl⟩
  rcases Nat.le_total a.length a'.length with hle | hle
  · exact hshorter h.token h'.token hsame hle
  · obtain ⟨rfl, rfl⟩ := hshorter h'.token h.token hsame.symm hle
    exact ⟨rfl, rfl⟩

/-! ## Recognisers -/

section Recogniser

variable {S : Type*} (step : S → B → S × Option T)

/-- The state of a recogniser that has read `bs`. -/
def after (s : S) (bs : List B) : S := bs.foldl (fun s b => (step s b).1) s

/-- The tokens that a recogniser reports, each with the offset of its end. -/
def reported : S → Nat → List B → List (Nat × T)
  | _, _, [] => []
  | s, pos, b :: bs =>
    match step s b with
    | (s', none) => reported s' (pos + 1) bs
    | (s', some x) => (pos + 1, x) :: reported s' (pos + 1) bs

@[simp] theorem after_nil (s : S) : after step s [] = s := rfl

@[simp] theorem after_cons (s : S) (b : B) (bs : List B) :
    after step s (b :: bs) = after step (step s b).1 bs := rfl

theorem after_append (s : S) (as bs : List B) :
    after step s (as ++ bs) = after step (after step s as) bs := by
  rw [after, after, after, List.foldl_append]

theorem mem_reported {s : S} {pos : Nat} {bs : List B} {e : Nat} {x : T} :
    (e, x) ∈ reported step s pos bs ↔
      ∃ before b rest, bs = before ++ b :: rest ∧ (step (after step s before) b).2 = some x ∧
        e = pos + before.length + 1 := by
  induction bs generalizing s pos with
  | nil => simp [reported]
  | cons b bs ih =>
      -- a token is reported at once or later
      have hlater : ((e, x) ∈ reported step (step s b).1 (pos + 1) bs ∨
          (step s b).2 = some x ∧ e = pos + 1) ↔
            ∃ before b' rest, b :: bs = before ++ b' :: rest ∧
              (step (after step s before) b').2 = some x ∧ e = pos + before.length + 1 := by
        rw [ih]
        constructor
        · rintro (⟨before, b', rest, rfl, hstep, rfl⟩ | ⟨hstep, rfl⟩)
          · refine ⟨b :: before, b', rest, rfl, hstep, ?_⟩
            rw [List.length_cons]
            omega
          · exact ⟨[], b, bs, rfl, hstep, rfl⟩
        · rintro ⟨before, b', rest, heq, hstep, rfl⟩
          cases before with
          | nil =>
              obtain ⟨rfl, rfl⟩ := List.cons_eq_cons.mp heq
              exact Or.inr ⟨hstep, rfl⟩
          | cons b'' before =>
              obtain ⟨rfl, rfl⟩ := List.cons_eq_cons.mp heq
              refine Or.inl ⟨before, b', rest, rfl, hstep, ?_⟩
              rw [List.length_cons]
              omega
      rw [← hlater, reported]
      rcases hstep : step s b with ⟨s', _ | y⟩
      · simp
      · simp only [List.mem_cons, Prod.mk.injEq, Option.some.injEq]
        constructor
        · rintro (⟨rfl, rfl⟩ | hmem)
          · exact Or.inr ⟨rfl, rfl⟩
          · exact Or.inl hmem
        · rintro (hmem | ⟨rfl, rfl⟩)
          · exact Or.inr hmem
          · exact Or.inl ⟨rfl, rfl⟩

theorem reported_pairwise (s : S) (pos : Nat) (bs : List B) :
    (reported step s pos bs).Pairwise (·.1 < ·.1) := by
  induction bs generalizing s pos with
  | nil => exact List.Pairwise.nil
  | cons b bs ih =>
      rw [reported]
      rcases step s b with ⟨s', _ | y⟩
      · exact ih s' (pos + 1)
      · refine List.pairwise_cons.mpr ⟨?_, ih s' (pos + 1)⟩
        rintro ⟨e, x⟩ hmem
        obtain ⟨before, b', rest, -, -, rfl⟩ := (mem_reported step).mp hmem
        dsimp only
        omega

end Recogniser

end Tokens
