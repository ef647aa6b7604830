import Mathlib.Data.List.Basic
import Mathlib.Tactic.Common

/-! # Memory, byte ranges and C strings

Memory is looked at from a pointer on: `Mem` gives the byte at each offset. A
C string is the list of its bytes before the terminator. `atoi` follows the
usual `strtol` reading: leading white space, an optional sign, decimal digits,
and the nearest `int` when the number does not fit.
-/

namespace CString

/-- Memory from some pointer on. -/
abbrev Mem := Nat → UInt8

/-- The first `n` bytes of a memory. -/
def bytes (m : Mem) (n : Nat) : List UInt8 := (List.range n).map m

/-- The memory seen from a pointer `off` bytes further on. -/
def shift (m : Mem) (off : Nat) : Mem := fun i => m (off + i)

/-- The memory that starts with the bytes `xs` and goes on with `rest`. -/
def ofList (xs : List UInt8) (rest : Mem) : Mem := fun i => xs.getD i (rest (i - xs.length))

/-- The characters of a C string literal. -/
def chars (s : String) : List UInt8 := s.toList.map fun c => c.toNat.toUInt8

/-- The C string stored at the start of a buffer. -/
def cstr (xs : List UInt8) : List UInt8 := xs.takeWhile (· ≠ 0)

/-- `strcpy` into a buffer: the string, its terminator, and what was there behind them. -/
def strcpy (dst src : List UInt8) : List UInt8 := cstr src ++ 0 :: dst.drop ((cstr src).length + 1)

/-- `strchr` from the offset `off` of a buffer. -/
def strchr (xs : List UInt8) (off : Nat) (ch : UInt8) : Option Nat :=
  ((cstr (xs.drop off)).findIdx? (· == ch)).map (off + ·)

/-- `strstr`, asked only whether it finds anything. -/
def strstr (s token : List UInt8) : Bool := s.tails.any fun t => token.isPrefixOf t

def isSpace (b : UInt8) : Bool := b == 32 || (9 ≤ b && b ≤ 13)

def isDigit (b : UInt8) : Bool := 48 ≤ b && b ≤ 57

/-- The number that the digits at the start of `s` make up, continuing `acc`. -/
def readDigits (acc : Nat) : List UInt8 → Nat
  | [] => acc
  | b :: s => if isDigit b then readDigits (acc * 10 + (b.toNat - 48)) s else acc

/-- `strtol` returns the nearest representable value when the number does not fit. -/
def clampInt (x : Int) : Int := max (-2147483648) (min x 2147483647)

def atoi (s : List UInt8) : Int :=
  match s.dropWhile isSpace with
  | [] => 0
  | b :: t =>
    if b = 45 then clampInt (-(readDigits 0 t : Nat))
    else if b = 43 then clampInt (readDigits 0 t : Nat)
    else clampInt (readDigits 0 (b :: t) : Nat)

section Bytes

variable (m : Mem)

@[simp] theorem bytes_zero : bytes m 0 = [] := rfl

@[simp] theorem length_bytes (n : Nat) : (bytes m n).length = n := by simp [bytes]

theorem bytes_add (a b : Nat) : bytes m (a + b) = bytes m a ++ bytes (shift m a) b := by
  simp [bytes, shift, List.range_add]

@[simp] theorem shift_zero : shift m 0 = m := by
  funext i
  simp [shift]

@[simp] theorem shift_shift (a b : Nat) : shift (shift m a) b = shift m (a + b) := by
  funext i
  simp [shift, Nat.add_assoc]

theorem bytes_succ (n : Nat) : bytes m (n + 1) = m 0 :: bytes (shift m 1) n := by
  rw [Nat.add_comm, bytes_add]
  rfl

theorem bytes_ofList_getD (xs : List UInt8) (d : UInt8) (off n : Nat) (h : off + n ≤ xs.length) :
    bytes (shift (fun i => xs.getD i d) off) n = (xs.drop off).take n := by
  apply List.ext_getElem
  · simp
    omega
  · intro i hi _
    simp only [length_bytes] at hi
    have hlt : off + i < xs.length := by omega
    simp [bytes, shift, List.getD_eq_getElem?_getD, List.getElem?_eq_getElem hlt]

theorem bytes_ofList (xs : List UInt8) (rest : Mem) (n : Nat) (h : n ≤ xs.length) :
    bytes (ofList xs rest) n = xs.take n := by
  apply List.ext_getElem
  · simp [h]
  · intro i hi _
    simp only [length_bytes] at hi
    have hlt : i < xs.length := by omega
    simp [bytes, ofList, List.getD_eq_getElem?_getD, List.getElem?_eq_getElem hlt]

theorem take_drop_bytes {p k n : Nat} (h : p + k ≤ n) :
    ((bytes m n).drop p).take k = bytes (shift m p) k := by
  obtain ⟨r, rfl⟩ := Nat.exists_eq_add_of_le h
  rw [Nat.add_assoc, bytes_add, List.drop_left' (length_bytes ..), bytes_add,
    List.take_left' (length_bytes ..)]

theorem mem_bytes {j n : Nat} (h : j < n) : m j ∈ bytes m n :=
  List.mem_map.mpr ⟨j, List.mem_range.mpr h, rfl⟩

variable {m} {xs : List UInt8} (hbytes : bytes m xs.length = xs)

include hbytes

/-! Where the bytes are known, so is every part of them. -/

theorem bytes_take {k : Nat} (hle : k ≤ xs.length) : bytes m k = xs.take k := by
  have htake := take_drop_bytes m (p := 0) (k := k) (n := xs.length) (by omega)
  rw [hbytes, List.drop_zero, shift_zero] at htake
  exact htake.symm

theorem bytes_front {ys : List UInt8} (h : ys <+: xs) : bytes m ys.length = ys := by
  rw [bytes_take hbytes h.length_le, ← List.prefix_iff_eq_take.mp h]

theorem bytes_drop (k : Nat) : bytes (shift m k) (xs.drop k).length = xs.drop k := by
  by_cases hle : k ≤ xs.length
  · have htake := take_drop_bytes m (p := k) (k := xs.length - k) (n := xs.length) (by omega)
    rw [hbytes, List.take_of_length_le (by simp)] at htake
    rw [List.length_drop, htake]
  · rw [List.drop_eq_nil_of_le (by omega)]
    rfl

end Bytes

section Strings

theorem cstr_append {s : List UInt8} (h : 0 ∉ s) (t : List UInt8) :
    cstr (s ++ t) = s ++ cstr t := by
  unfold cstr
  apply List.takeWhile_append_of_pos
  intro b hb
  have hne : b ≠ 0 := fun heq => h (heq ▸ hb)
  simpa using hne

theorem cstr_terminated {s : List UInt8} (h : 0 ∉ s) (rest : List UInt8) :
    cstr (s ++ 0 :: rest) = s := by
  rw [cstr_append h]
  simp [cstr]

/-- Nothing behind a terminator counts, and the terminator may itself come too late. -/
theorem cstr_append_zero (s rest : List UInt8) : cstr (s ++ 0 :: rest) = cstr s := by
  induction s with
  | nil => simp [cstr]
  | cons b s ih =>
      by_cases hb : b = 0
      · simp [cstr, hb]
      · simpa [cstr, hb] using ih

theorem cstr_eq_self {s : List UInt8} (h : 0 ∉ s) : cstr s = s := by
  have happend := cstr_append h []
  simpa [cstr] using happend

theorem zero_notMem_cstr (s : List UInt8) : 0 ∉ cstr s := by
  induction s with
  | nil => simp [cstr]
  | cons b s ih =>
      by_cases hb : b = 0
      · simp [cstr, hb]
      · have hcons : cstr (b :: s) = b :: cstr s := by simp [cstr, hb]
        rw [hcons, List.mem_cons, not_or]
        exact ⟨Ne.symm hb, ih⟩

end Strings

end CString
