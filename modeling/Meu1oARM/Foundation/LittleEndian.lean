import Meu1oARM.Foundation.CString
import Meu1oARM.Foundation.Machine

/-! # Words in memory

A 16-bit word stands in memory with its low byte first. What a store leaves as it
was is said by the range of bytes it touches.
-/

namespace LittleEndian

open CString Machine

/-- The 16-bit word at `p`. -/
def get16 (m : Mem) (p : Nat) : Nat := (m p).toNat + 256 * (m (p + 1)).toNat

/-- The memory after `v` has been stored as a 16-bit word at `p`. -/
def put16 (m : Mem) (p v : Nat) : Mem := fun i =>
  if i = p then UInt8.ofNat v else if i = p + 1 then UInt8.ofNat (v / 256) else m i

/-- The memory after the byte `b` has been stored at `p`. -/
def put8 (m : Mem) (p : Nat) (b : UInt8) : Mem := fun i => if i = p then b else m i

/-- Two memories hold the same bytes in `[lo, hi)`. -/
def SameOn (m m' : Mem) (lo hi : Nat) : Prop := ∀ i, lo ≤ i → i < hi → m' i = m i

variable {m m' m'' : Mem} {p v lo hi : Nat}

@[simp] theorem get16_put16 (m : Mem) (p v : Nat) : get16 (put16 m p v) p = u16 v := by
  simp only [get16, put16, if_pos, Nat.left_eq_add, Nat.one_ne_zero, if_false, UInt8.toNat_ofNat',
    u16, Nat.add_eq_left]
  omega

@[simp] theorem put8_self (m : Mem) (p : Nat) (b : UInt8) : put8 m p b p = b := if_pos rfl

theorem put8_of_ne {i : Nat} {b : UInt8} (h : i ≠ p) : put8 m p b i = m i := if_neg h

theorem put16_of_ne {i : Nat} (h : i ≠ p) (h' : i ≠ p + 1) : put16 m p v i = m i := by
  rw [put16, if_neg h, if_neg h']

theorem get16_put16_of_ne {q : Nat} (h : q + 1 < p ∨ p + 1 < q) :
    get16 (put16 m p v) q = get16 m q := by
  unfold get16
  rw [put16_of_ne (by omega) (by omega), put16_of_ne (by omega) (by omega)]

theorem get16_put8_of_ne {q : Nat} {b : UInt8} (h : q ≠ p) (h' : q + 1 ≠ p) :
    get16 (put8 m p b) q = get16 m q := by
  unfold get16
  rw [put8_of_ne h, put8_of_ne h']

namespace SameOn

theorem refl (m : Mem) (lo hi : Nat) : SameOn m m lo hi := fun _ _ _ => rfl

theorem trans (h : SameOn m m' lo hi) (h' : SameOn m' m'' lo hi) : SameOn m m'' lo hi :=
  fun i hlo hhi => (h' i hlo hhi).trans (h i hlo hhi)

theorem mono {lo' hi' : Nat} (h : SameOn m m' lo hi) (hlo : lo ≤ lo') (hhi : hi' ≤ hi) :
    SameOn m m' lo' hi' :=
  fun i hi₁ hi₂ => h i (Nat.le_trans hlo hi₁) (Nat.lt_of_lt_of_le hi₂ hhi)

theorem put8 {b : UInt8} (h : p < lo ∨ hi ≤ p) : SameOn m (put8 m p b) lo hi := by
  intro i hlo hhi
  exact put8_of_ne (by omega)

theorem put16 (h : p + 1 < lo ∨ hi ≤ p) : SameOn m (put16 m p v) lo hi := by
  intro i hlo hhi
  exact put16_of_ne (by omega) (by omega)

theorem get16 (h : SameOn m m' lo hi) (hlo : lo ≤ p) (hhi : p + 1 < hi) :
    get16 m' p = get16 m p := by
  unfold LittleEndian.get16
  rw [h p hlo (by omega), h (p + 1) (by omega) hhi]

end SameOn

end LittleEndian
