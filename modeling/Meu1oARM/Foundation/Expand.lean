import Mathlib.Data.List.Basic
import Mathlib.Tactic.Common

/-! # Expanding a sequence at recognised tokens

A recogniser reads a sequence element by element and reports a token whenever
one is complete. Expansion copies the sequence and puts an insert behind the last
element of every token. The number of the token and the token itself determine
the insert. The first `skip` elements are read but not copied.
-/

namespace Expand

variable {S T B : Type*} (step : S → B → S × Option T) (insert : Nat → T → List B)

/-- An element is copied when none is left to skip. -/
def emit (skip : Nat) (b : B) : List B := if skip = 0 then [b] else []

/-- The expansion of what is still to be read, after `k` tokens. -/
def expand : S → Nat → Nat → List B → List B
  | _, _, _, [] => []
  | s, k, skip, b :: bs =>
    match step s b with
    | (s', none) => emit skip b ++ expand s' k (skip - 1) bs
    | (s', some t) => emit skip b ++ (insert k t ++ expand s' (k + 1) (skip - 1) bs)

/-- The same without the insert of a token that ends with the sequence. -/
def served : S → Nat → Nat → List B → List B
  | _, _, _, [] => []
  | s, k, skip, b :: bs =>
    match step s b with
    | (s', none) => emit skip b ++ served s' k (skip - 1) bs
    | (s', some t) =>
      emit skip b ++ ((if bs = [] then [] else insert k t) ++ served s' (k + 1) (skip - 1) bs)

/-- The insert of the token that ends with the sequence, if there is one. -/
def final : S → Nat → List B → List B
  | _, _, [] => []
  | s, k, b :: bs =>
    match step s b with
    | (s', none) => final s' k bs
    | (s', some t) => if bs = [] then insert k t else final s' (k + 1) bs

/-- The inserts still to come, each with the offset that it comes in front of. -/
def inserts : S → Nat → Nat → List B → List (Nat × List B)
  | _, _, _, [] => []
  | s, k, pos, b :: bs =>
    match step s b with
    | (s', none) => inserts s' k (pos + 1) bs
    | (s', some t) => (pos + 1, insert k t) :: inserts s' (k + 1) (pos + 1) bs

/-- The elements `bs` from offset `pos` on, with the given inserts at their offsets. -/
def splice : Nat → Nat → List B → List (Nat × List B) → List B
  | _, _, [], _ => []
  | pos, skip, b :: bs, [] => emit skip b ++ splice (pos + 1) (skip - 1) bs []
  | pos, skip, b :: bs, (p, x) :: xs =>
    if p = pos + 1 then emit skip b ++ (x ++ splice (pos + 1) (skip - 1) bs xs)
    else emit skip b ++ splice (pos + 1) (skip - 1) bs ((p, x) :: xs)

/-- What has been read and not yet copied. -/
def window (bs : List B) (sent read : Nat) : List B := (bs.drop sent).take (read - sent)

theorem expand_eq_served_append_final (s : S) (k skip : Nat) (bs : List B) :
    expand step insert s k skip bs =
      served step insert s k skip bs ++ final step insert s k bs := by
  induction bs generalizing s k skip with
  | nil => rfl
  | cons b bs ih =>
      rcases hstep : step s b with ⟨s', _ | t⟩
      · simp [expand, served, final, hstep, ih]
      · by_cases hlast : bs = []
        · simp [expand, served, final, hstep, hlast]
        · simp [expand, served, final, hstep, hlast, ih]

/-- No insert comes last when no token ends with the last element. -/
theorem final_eq_nil {b : B} (hnone : ∀ s, (step s b).2 = none) {bs : List B}
    (hlast : bs.getLast? = some b) (s : S) (k : Nat) : final step insert s k bs = [] := by
  induction bs generalizing s k with
  | nil => rfl
  | cons b' bs ih =>
      have hrest : bs ≠ [] → bs.getLast? = some b := by
        intro hne
        rwa [List.getLast?_cons_of_ne_nil hne] at hlast
      rcases hstep : step s b' with ⟨s', _ | t⟩
      · by_cases hnil : bs = []
        · simp [final, hstep, hnil]
        · simp [final, hstep, ih (hrest hnil)]
      · by_cases hnil : bs = []
        · obtain rfl : b' = b := by simpa [hnil] using hlast
          have hsome := hnone s
          simp [hstep] at hsome
        · simp [final, hstep, hnil, ih (hrest hnil)]

/-- Elements that the recogniser does not react to are copied, unless they are skipped. -/
theorem served_append_of_quiet {s : S} {bs : List B} (hquiet : ∀ b ∈ bs, step s b = (s, none))
    (k skip : Nat) (rest : List B) :
    served step insert s k skip (bs ++ rest) =
      bs.drop skip ++ served step insert s k (skip - bs.length) rest := by
  induction bs generalizing skip with
  | nil => simp
  | cons b bs ih =>
      have hrest := ih (fun b' hb' => hquiet b' (List.mem_cons_of_mem b hb')) (skip - 1)
      rw [List.cons_append, served, hquiet b List.mem_cons_self]
      dsimp only
      rw [hrest, List.length_cons, Nat.sub_sub, Nat.add_comm 1]
      cases skip with
      | zero => rfl
      | succ skip => rfl

/-- Without inserts a splice is the rest of the sequence. -/
theorem splice_skipped (pos skip : Nat) (bs : List B) (h : bs.length ≤ skip) :
    splice pos skip bs [] = [] := by
  induction bs generalizing pos skip with
  | nil => rfl
  | cons b bs ih =>
      simp only [List.length_cons] at h
      have hskip : skip ≠ 0 := by omega
      simp [splice, emit, hskip, ih (pos + 1) (skip - 1) (by omega)]

theorem inserts_pos_lt (s : S) (k pos : Nat) (bs : List B) {p : Nat} {x : List B}
    (hmem : (p, x) ∈ inserts step insert s k pos bs) : pos < p := by
  induction bs generalizing s k pos with
  | nil => simp [inserts] at hmem
  | cons b bs ih =>
      rcases hstep : step s b with ⟨s', _ | t⟩
      · simp only [inserts, hstep] at hmem
        have hlt := ih _ _ _ hmem
        omega
      · simp only [inserts, hstep, List.mem_cons, Prod.mk.injEq] at hmem
        rcases hmem with ⟨rfl, _⟩ | hmem
        · omega
        · have hlt := ih _ _ _ hmem
          omega

/-- Putting the inserts where the recogniser found the tokens is the expansion. -/
theorem splice_inserts (s : S) (k pos skip : Nat) (bs : List B) :
    splice pos skip bs (inserts step insert s k pos bs) =
      expand step insert s k skip bs := by
  induction bs generalizing s k pos skip with
  | nil => rfl
  | cons b bs ih =>
      rcases hstep : step s b with ⟨s', _ | t⟩
      · simp only [inserts, expand, hstep, ← ih s' k (pos + 1)]
        cases hins : inserts step insert s' k (pos + 1) bs with
        | nil => rfl
        | cons px xs =>
            obtain ⟨p, x⟩ := px
            have hlt : pos + 1 < p := inserts_pos_lt step insert s' k (pos + 1) bs (x := x)
              (by simp [hins])
            simp [splice, Nat.ne_of_gt hlt]
      · simp [inserts, expand, splice, hstep, ih]

section Window

variable {step} {insert}

theorem window_of_le (bs : List B) {sent read : Nat} (h : read ≤ sent) :
    window bs sent read = [] := by
  simp [window, Nat.sub_eq_zero_of_le h]

/-- Copying `n` of the elements that have been read. -/
theorem window_send (bs : List B) {sent read n : Nat} (h : sent + n ≤ read) :
    window bs sent read = (bs.drop sent).take n ++ window bs (sent + n) read := by
  have hsplit : read - sent = n + (read - (sent + n)) := by omega
  rw [window, hsplit, List.take_add, List.drop_drop, window]

/-- Reading one more element leaves it to be copied, unless it is skipped. -/
theorem window_read (bs : List B) {sent read : Nat} {b : B} (hb : bs[read]? = some b) :
    window bs sent (read + 1) = window bs sent read ++ emit (sent - read) b := by
  rcases Nat.lt_or_ge read sent with hlt | hle
  · simp [window_of_le bs (Nat.le_of_lt hlt), window_of_le bs (Nat.succ_le_of_lt hlt), emit,
      Nat.sub_ne_zero_of_lt hlt]
  · have hget : (bs.drop sent)[read - sent]? = some b := by
      rw [List.getElem?_drop, Nat.add_sub_cancel' hle, hb]
    have hskip : sent - read = 0 := by omega
    rw [window, Nat.sub_add_comm hle, List.take_add_one, hget]
    simp [window, emit, hskip]

theorem drop_of_getElem? {bs : List B} {n : Nat} {b : B} (hb : bs[n]? = some b) :
    bs.drop n = b :: bs.drop (n + 1) := by
  obtain ⟨hlt, rfl⟩ := List.getElem?_eq_some_iff.mp hb
  exact List.drop_eq_getElem_cons hlt

/-- Reading an element that completes no token moves it from the unread part to the window. -/
theorem window_served_none {bs : List B} {s s' : S} {k sent read : Nat} {b : B}
    (hb : bs[read]? = some b) (hstep : step s b = (s', none)) :
    window bs sent (read + 1) ++ served step insert s' k (sent - (read + 1)) (bs.drop (read + 1)) =
      window bs sent read ++ served step insert s k (sent - read) (bs.drop read) := by
  rw [drop_of_getElem? hb, window_read bs hb, served, hstep]
  simp [Nat.sub_sub]

/-- Reading the last element of a token opens the place for its insert. -/
theorem window_served_some {bs : List B} {s s' : S} {k sent read : Nat} {b : B} {t : T}
    (hb : bs[read]? = some b) (hstep : step s b = (s', some t)) :
    window bs sent (read + 1) ++ ((if read + 1 < bs.length then insert k t else []) ++
        served step insert s' (k + 1) (sent - (read + 1)) (bs.drop (read + 1))) =
      window bs sent read ++ served step insert s k (sent - read) (bs.drop read) := by
  have hlast : (bs.drop (read + 1) = []) ↔ ¬ read + 1 < bs.length := by simp
  rw [drop_of_getElem? hb, window_read bs hb, served, hstep]
  simp only [hlast, Nat.sub_sub, List.append_assoc]
  by_cases h : read + 1 < bs.length <;> simp [h]

theorem inserts_none {bs : List B} {s s' : S} {k read : Nat} {b : B}
    (hb : bs[read]? = some b) (hstep : step s b = (s', none)) :
    inserts step insert s k read (bs.drop read) =
      inserts step insert s' k (read + 1) (bs.drop (read + 1)) := by
  rw [drop_of_getElem? hb, inserts, hstep]

theorem inserts_some {bs : List B} {s s' : S} {k read : Nat} {b : B} {t : T}
    (hb : bs[read]? = some b) (hstep : step s b = (s', some t)) :
    inserts step insert s k read (bs.drop read) =
      (read + 1, insert k t) :: inserts step insert s' (k + 1) (read + 1) (bs.drop (read + 1)) := by
  rw [drop_of_getElem? hb, inserts, hstep]

end Window

end Expand
