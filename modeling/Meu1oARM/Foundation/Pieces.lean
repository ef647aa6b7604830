import Mathlib.Data.List.Basic
import Mathlib.Tactic.Common

/-! # Blocks that are sent in pieces

A log says which blocks have been begun and which pieces have been sent of them. When the
pieces of each block join up from its start to its end, a property of all pieces can be read
off the lengths of the blocks.
-/

namespace Pieces

/-- A block is begun, or a piece of the block begun last is sent. -/
inductive Event (κ β : Type*)
  | start (key : κ)
  | piece (off : Nat) (data : List β)
  deriving DecidableEq, Repr

variable {κ β : Type*}

def Event.key : Event κ β → Option κ
  | .start key => some key
  | .piece _ _ => none

/-- The blocks that have been begun. -/
def starts (log : List (Event κ β)) : List κ := log.filterMap Event.key

@[simp] theorem starts_nil : starts ([] : List (Event κ β)) = [] := rfl

@[simp] theorem starts_append (s t : List (Event κ β)) : starts (s ++ t) = starts s ++ starts t :=
  List.filterMap_append

@[simp] theorem starts_start (key : κ) (log : List (Event κ β)) :
    starts (.start key :: log) = key :: starts log := rfl

@[simp] theorem starts_piece (off : Nat) (data : List β) (log : List (Event κ β)) :
    starts (.piece off data :: log) = starts log := rfl

/-- Every piece has a property, which may depend on the number and the key of its block. -/
def Each (P : Option (Nat × κ) → Nat → List β → Prop) :
    Nat → Option (Nat × κ) → List (Event κ β) → Prop
  | _, _, [] => True
  | k, _, .start key :: log => Each P (k + 1) (some (k, key)) log
  | k, block, .piece off data :: log => P block off data ∧ Each P k block log

instance Each.decidable {P : Option (Nat × κ) → Nat → List β → Prop}
    [∀ block off data, Decidable (P block off data)] :
    (k : Nat) → (block : Option (Nat × κ)) → (log : List (Event κ β)) →
      Decidable (Each P k block log)
  | _, _, [] => isTrue trivial
  | k, _, .start key :: log => decidable (k + 1) (some (k, key)) log
  | k, block, .piece off data :: log =>
    have := decidable (P := P) k block log
    inferInstanceAs (Decidable (P block off data ∧ Each P k block log))

section Each

variable {P : Option (Nat × κ) → Nat → List β → Prop}

/-- A block with what is in front of it. -/
theorem each_start (k : Nat) (block : Option (Nat × κ)) (s t : List (Event κ β)) (key : κ) :
    Each P k block (s ++ .start key :: t) ↔ Each P k block s ∧
      Each P (k + (starts s).length + 1) (some (k + (starts s).length, key)) t := by
  induction s generalizing k block with
  | nil => simp [Each]
  | cons event s ih =>
      cases event with
      | start _ =>
          simp only [List.cons_append, Each, ih, starts_start, List.length_cons]
          rw [Nat.add_right_comm k 1, Nat.add_assoc k]
      | piece _ _ => simp only [List.cons_append, Each, ih, starts_piece, and_assoc]

/-- A further piece of the same block. -/
theorem each_piece (k : Nat) (block : Option (Nat × κ)) {s : List (Event κ β)}
    (hsame : starts s = []) (off : Nat) (data : List β) :
    Each P k block (s ++ [.piece off data]) ↔ Each P k block s ∧ P block off data := by
  induction s with
  | nil => simp [Each]
  | cons event s ih =>
      cases event with
      | start _ => simp at hsame
      | piece _ _ => simp only [List.cons_append, Each, ih hsame, and_assoc]

end Each

/-- Pieces, none of them empty, that join up from 0 to `n`. -/
inductive Covers : Nat → List (Event κ β) → Prop
  | nil : Covers 0 []
  | snoc {n : Nat} {pieces : List (Event κ β)} {data : List β} (h : Covers n pieces)
      (hdata : data ≠ []) : Covers (n + data.length) (pieces ++ [.piece n data])

theorem Covers.starts_eq {n : Nat} {pieces : List (Event κ β)} (h : Covers n pieces) :
    starts pieces = [] := by
  induction h with
  | nil => rfl
  | snoc _ _ ih => simp [ih]

theorem Covers.eq_nil {pieces : List (Event κ β)} (h : Covers 0 pieces) : pieces = [] := by
  generalize hn : 0 = n at h
  cases h with
  | nil => rfl
  | snoc _ hdata =>
      have hpos := List.length_pos_iff.mpr hdata
      omega

/-- A property that adds up along the pieces is one of their length. -/
theorem Covers.each_iff {P : Option (Nat × κ) → Nat → List β → Prop} {Q : Nat → Prop}
    {block : Option (Nat × κ)} (hzero : Q 0)
    (hadd : ∀ n data, data ≠ [] → (Q n ∧ P block n data ↔ Q (n + data.length)))
    {n : Nat} {pieces : List (Event κ β)} (h : Covers n pieces) (k : Nat) :
    Each P k block pieces ↔ Q n := by
  induction h with
  | nil => exact ⟨fun _ => hzero, fun _ => trivial⟩
  | snoc h hdata ih => rw [each_piece k block h.starts_eq, ih, hadd _ _ hdata]

/-- Of each of `k` blocks as much has been sent as `limit` says. -/
inductive Sent (limit : Nat → κ → Nat) : Nat → List (Event κ β) → Prop
  | nil : Sent limit 0 []
  | block {k : Nat} {log pieces : List (Event κ β)} {key : κ} (h : Sent limit k log)
      (hpieces : Covers (limit k key) pieces) : Sent limit (k + 1) (log ++ .start key :: pieces)

variable {limit : Nat → κ → Nat}

theorem Sent.length_starts {k : Nat} {log : List (Event κ β)} (h : Sent limit k log) :
    (starts log).length = k := by
  induction h with
  | nil => rfl
  | block _ hpieces ih => simp [hpieces.starts_eq, ih]

/-- All pieces have a property if and only if it holds of the whole length of each block. -/
theorem Sent.each_iff {P : Option (Nat × κ) → Nat → List β → Prop} {Q : Nat → κ → Nat → Prop}
    (hzero : ∀ k key, Q k key 0)
    (hadd : ∀ k key n data, data ≠ [] →
      (Q k key n ∧ P (some (k, key)) n data ↔ Q k key (n + data.length)))
    {k : Nat} {log : List (Event κ β)} (h : Sent limit k log) :
    Each P 0 none log ↔ ∀ i key, (starts log)[i]? = some key → Q i key (limit i key) := by
  induction h with
  | nil => simp [Each]
  | @block k log pieces key h hpieces ih =>
      have hlength := h.length_starts
      rw [each_start, ih, Nat.zero_add, hlength, hpieces.each_iff (hzero k key) (hadd k key)]
      simp only [starts_append, starts_start, hpieces.starts_eq]
      constructor
      · rintro ⟨hlog, hlast⟩ i key' hi
        rcases Nat.lt_trichotomy i k with hlt | rfl | hgt
        · rw [List.getElem?_append_left (hlength ▸ hlt)] at hi
          exact hlog i key' hi
        · rw [List.getElem?_append_right (Nat.le_of_eq hlength), hlength, Nat.sub_self] at hi
          obtain rfl := Option.some.inj hi
          exact hlast
        · rw [List.getElem?_eq_none (by simp; omega)] at hi
          exact absurd hi (by simp)
      · intro hall
        refine ⟨fun i key' hi => hall i key' ?_, hall k key ?_⟩
        · rw [List.getElem?_append_left (List.getElem?_eq_some_iff.mp hi).1]
          exact hi
        · rw [List.getElem?_append_right (Nat.le_of_eq hlength), hlength, Nat.sub_self]
          rfl

end Pieces
