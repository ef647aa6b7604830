import Meu1oARM.Foundation.Machine

/-! # Sequence numbers

A sequence number is a position in a stream, counted modulo `2 ^ 32`. Two of them are
compared by the sign of their difference, which is the order of the positions as long
as these are less than `2 ^ 31` apart.
-/

namespace Serial

open Machine

/-- `(s32_t)(a - b) < 0` -/
def lt (a b : Nat) : Bool := 2147483648 ≤ sub32 a b

/-- `(s32_t)(a - b) ≤ 0` -/
def leq (a b : Nat) : Bool := sub32 a b = 0 ∨ 2147483648 ≤ sub32 a b

/-- `(s32_t)(a - b) > 0` -/
def gt (a b : Nat) : Bool := sub32 a b ≠ 0 ∧ sub32 a b < 2147483648

/-- `(s32_t)(a - b) ≥ 0` -/
def geq (a b : Nat) : Bool := sub32 a b < 2147483648

/-- `b ≤ a ≤ c` -/
def between (a b c : Nat) : Bool := geq a b && leq a c

/-- The sequence number of the position `x` in a stream that starts at `base`. -/
def seqAt (base x : Nat) : Nat := u32 (base + x)

/-- Positions whose sequence numbers can be compared. -/
def Near (x y : Nat) : Prop := x < y + 2147483648 ∧ y < x + 2147483648

variable {base x y z n : Nat}

theorem Near.symm (h : Near x y) : Near y x := ⟨h.2, h.1⟩

theorem seqAt_lt (base x : Nat) : seqAt base x < 4294967296 := Nat.mod_lt _ (by decide)

theorem sub32_seqAt (h : y ≤ x) (hn : x < y + 4294967296) :
    sub32 (seqAt base x) (seqAt base y) = x - y := by
  unfold sub32 seqAt u32
  omega

theorem sub32_seqAt_of_lt (h : x < y) (hn : y ≤ x + 4294967296) :
    sub32 (seqAt base x) (seqAt base y) = 4294967296 - (y - x) := by
  unfold sub32 seqAt u32
  omega

theorem u32_seqAt_add (base x n : Nat) : u32 (seqAt base x + n) = seqAt base (x + n) := by
  unfold seqAt u32
  omega

/-- A number is the sequence number of the position that far behind another one. -/
theorem seqAt_add_sub32 {a : Nat} (ha : a < 4294967296) (base x : Nat) :
    seqAt base (x + sub32 a (seqAt base x)) = a := by
  unfold seqAt sub32 u32
  omega

theorem seqAt_inj (h : Near x y) : seqAt base x = seqAt base y ↔ x = y := by
  obtain ⟨hx, hy⟩ := h
  unfold seqAt u32
  omega

/-- The sequence number in front of one, as the source computes it. -/
theorem u32_seqAt_pred (base x : Nat) {n : Nat} (h : 0 < n) :
    u32 (seqAt base x + n + 4294967295) = seqAt base (x + n - 1) := by
  unfold seqAt u32
  omega

theorem lt_iff (h : Near x y) : lt (seqAt base x) (seqAt base y) = true ↔ x < y := by
  obtain ⟨hx, hy⟩ := h
  unfold lt
  rw [decide_eq_true_eq]
  by_cases hxy : x < y
  · rw [sub32_seqAt_of_lt hxy (by omega)]
    omega
  · rw [sub32_seqAt (by omega) (by omega)]
    omega

theorem leq_iff (h : Near x y) : leq (seqAt base x) (seqAt base y) = true ↔ x ≤ y := by
  obtain ⟨hx, hy⟩ := h
  unfold leq
  rw [decide_eq_true_eq]
  by_cases hxy : x < y
  · rw [sub32_seqAt_of_lt hxy (by omega)]
    omega
  · rw [sub32_seqAt (by omega) (by omega)]
    omega

theorem gt_iff (h : Near x y) : gt (seqAt base x) (seqAt base y) = true ↔ y < x := by
  obtain ⟨hx, hy⟩ := h
  unfold gt
  rw [decide_eq_true_eq]
  by_cases hxy : x < y
  · rw [sub32_seqAt_of_lt hxy (by omega)]
    omega
  · rw [sub32_seqAt (by omega) (by omega)]
    omega

theorem geq_iff (h : Near x y) : geq (seqAt base x) (seqAt base y) = true ↔ y ≤ x := by
  obtain ⟨hx, hy⟩ := h
  unfold geq
  rw [decide_eq_true_eq]
  by_cases hxy : x < y
  · rw [sub32_seqAt_of_lt hxy (by omega)]
    omega
  · rw [sub32_seqAt (by omega) (by omega)]
    omega

theorem between_iff (hy : Near x y) (hz : Near x z) :
    between (seqAt base x) (seqAt base y) (seqAt base z) = true ↔ y ≤ x ∧ x ≤ z := by
  rw [between, Bool.and_eq_true, geq_iff hy, leq_iff hz]

end Serial
