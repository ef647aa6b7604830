import Mathlib.Data.Nat.Digits.Lemmas
import Meu1oARM.Foundation.CString

/-! # Decimal numbers as text

A number is printed with leading zeros up to a width, and read digit by digit from
the left. What is printed reads as the number, with any digits behind it read on.
-/

namespace CString

/-- The decimal digits of `n`, with zeros in front of them up to the width `w`. -/
def decimal (w n : Nat) : List UInt8 :=
  (Nat.digitsAppend 10 w n).reverse.map fun d => (48 + d).toUInt8

/-- What `%0<w>d` prints; a sign counts as one of the `w` characters. -/
def printfInt (w : Nat) (x : Int) : List UInt8 :=
  if x < 0 then 45 :: decimal (w - 1) x.natAbs else decimal w x.natAbs

/-- Conversion to a signed 16-bit value, as the `h` of a conversion asks for. -/
def short (n : Nat) : Int := (n : Int).bmod 65536

section Digits

theorem isDigit_of_lt {d : Nat} (h : d < 10) : isDigit (48 + d).toUInt8 := by
  interval_cases d <;> rfl

theorem readDigits_cons_digit {d : Nat} (h : d < 10) (acc : Nat) (rest : List UInt8) :
    readDigits acc ((48 + d).toUInt8 :: rest) = readDigits (acc * 10 + d) rest := by
  have hvalue : (48 + d).toUInt8.toNat - 48 = d := by
    interval_cases d <;> rfl
  rw [readDigits, if_pos (isDigit_of_lt h), hvalue]

theorem readDigits_digits {ds : List Nat} (h : ∀ d ∈ ds, d < 10) (acc : Nat)
    (rest : List UInt8) :
    readDigits acc (ds.reverse.map (fun d => (48 + d).toUInt8) ++ rest) =
      readDigits (acc * 10 ^ ds.length + Nat.ofDigits 10 ds) rest := by
  induction ds generalizing rest with
  | nil => simp
  | cons d ds ih =>
      have htail : ∀ e ∈ ds, e < 10 := fun e he => h e (List.mem_cons_of_mem _ he)
      rw [List.reverse_cons, List.map_append, List.append_assoc, ih htail]
      rw [List.map_singleton, List.singleton_append, readDigits_cons_digit (h d List.mem_cons_self)]
      congr 1
      rw [Nat.ofDigits_cons, List.length_cons, pow_succ]
      ring

theorem length_decimal {w n : Nat} (h : n < 10 ^ w) : (decimal w n).length = w := by
  simp [decimal, Nat.length_digitsAppend (by decide : 1 < 10) w h]

theorem isDigit_of_mem_decimal {w n : Nat} {b : UInt8} (h : b ∈ decimal w n) : isDigit b := by
  obtain ⟨d, hd, rfl⟩ := List.mem_map.mp h
  exact isDigit_of_lt
    (Nat.lt_of_mem_digitsAppend (by decide : 1 < 10) w d (List.mem_reverse.mp hd))

theorem notMem_decimal {w n : Nat} {b : UInt8} (h : isDigit b = false) : b ∉ decimal w n := by
  intro hmem
  simp [isDigit_of_mem_decimal hmem] at h

/-- Reading goes on behind a printed number. -/
theorem readDigits_decimal {w n : Nat} (h : n < 10 ^ w) (acc : Nat) (rest : List UInt8) :
    readDigits acc (decimal w n ++ rest) = readDigits (acc * 10 ^ w + n) rest := by
  have hdigits : ∀ d ∈ Nat.digitsAppend 10 w n, d < 10 := fun d hd =>
    Nat.lt_of_mem_digitsAppend (by decide : 1 < 10) w d hd
  rw [decimal, readDigits_digits hdigits, Nat.length_digitsAppend (by decide : 1 < 10) w h]
  rw [Nat.digitsAppend, Nat.ofDigits_append_replicate_zero, Nat.ofDigits_digits]

theorem decimal_injective {w n n' : Nat} (h : n < 10 ^ w) (h' : n' < 10 ^ w)
    (heq : decimal w n = decimal w n') : n = n' := by
  have hread := readDigits_decimal h 0 []
  have hread' := readDigits_decimal h' 0 []
  rw [heq, hread'] at hread
  simpa [readDigits] using hread.symm

/-- Nothing is read behind the first byte that is not a digit. -/
theorem readDigits_stop {b : UInt8} (h : isDigit b = false) (acc : Nat) (rest : List UInt8) :
    readDigits acc (b :: rest) = acc := by
  simp [readDigits, h]

/-- The terminator of a string ends a number. -/
theorem readDigits_cstr (acc : Nat) (s : List UInt8) : readDigits acc (cstr s) = readDigits acc s := by
  induction s generalizing acc with
  | nil => rfl
  | cons b s ih =>
      by_cases hzero : b = 0
      · subst hzero
        simp [cstr, readDigits, isDigit]
      · have hcons : cstr (b :: s) = b :: cstr s := by simp [cstr, hzero]
        rw [hcons, readDigits, readDigits]
        split
        · exact ih _
        · rfl

/-- What is read is what was there, shifted by the digits that follow, and their number. -/
theorem readDigits_eq (acc : Nat) (s : List UInt8) :
    readDigits acc s = acc * 10 ^ (s.takeWhile isDigit).length + readDigits 0 s := by
  induction s generalizing acc with
  | nil => simp [readDigits]
  | cons b s ih =>
      by_cases hb : isDigit b
      · rw [readDigits, readDigits, if_pos hb, if_pos hb, List.takeWhile_cons_of_pos hb,
          List.length_cons, ih, ih (0 * 10 + (b.toNat - 48)), pow_succ]
        ring
      · rw [readDigits, readDigits, if_neg hb, if_neg hb, List.takeWhile_cons_of_neg hb]
        simp

theorem readDigits_zero_lt (s : List UInt8) :
    readDigits 0 s < 10 ^ (s.takeWhile isDigit).length := by
  induction s with
  | nil => simp [readDigits]
  | cons b s ih =>
      by_cases hb : isDigit b
      · have hdigit : b.toNat - 48 ≤ 9 := by
          simp only [isDigit, Bool.and_eq_true, decide_eq_true_eq, UInt8.le_iff_toNat_le] at hb
          have hle : b.toNat ≤ 57 := hb.2
          omega
        rw [readDigits, if_pos hb, List.takeWhile_cons_of_pos hb, List.length_cons,
          readDigits_eq, pow_succ, Nat.zero_mul, Nat.zero_add]
        have hle := Nat.mul_le_mul_right (10 ^ (s.takeWhile isDigit).length) hdigit
        omega
      · rw [readDigits, if_neg hb, List.takeWhile_cons_of_neg hb]
        exact Nat.one_pos

end Digits

section Atoi

/-- `atoi` of a text that starts with a printed number. -/
theorem atoi_decimal {w n : Nat} (hw : 0 < w) (h : n < 10 ^ w) (rest : List UInt8) :
    atoi (decimal w n ++ rest) = clampInt (readDigits n rest : Nat) := by
  have hread := readDigits_decimal h 0 rest
  obtain ⟨b, t, hdecimal⟩ : ∃ b t, decimal w n = b :: t :=
    List.exists_cons_of_ne_nil (List.length_pos_iff.mp (by rw [length_decimal h]; exact hw))
  have hb : isDigit b := isDigit_of_mem_decimal (hdecimal ▸ List.mem_cons_self)
  have hspace : isSpace b = false := by
    simp only [isDigit, isSpace] at hb ⊢
    grind
  have hsign : b ≠ 45 ∧ b ≠ 43 := by
    constructor <;> rintro rfl <;> exact absurd hb (by decide)
  rw [hdecimal, List.cons_append, Nat.zero_mul, Nat.zero_add] at hread
  rw [hdecimal, List.cons_append, atoi, List.dropWhile_cons_of_neg (by simp [hspace])]
  simp only [hsign, if_false, hread]

theorem clampInt_of_lt {n : Nat} (h : n < 2147483648) : clampInt n = n := by
  unfold clampInt
  omega

theorem clampInt_of_le {n : Nat} (h : 2147483648 ≤ n) : clampInt n = 2147483647 := by
  unfold clampInt
  omega

end Atoi

section Printf

theorem short_of_lt {n : Nat} (h : n < 32768) : short n = n := by
  apply Int.bmod_eq_of_le
  · omega
  · omega

theorem printfInt_natCast (w n : Nat) : printfInt w n = decimal w n := by
  simp [printfInt]

end Printf

end CString
