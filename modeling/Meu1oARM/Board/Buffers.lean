import Meu1oARM.Board.SetClock

/-! # The buffers of the clock handlers

The value is copied into a block of ten bytes, whatever its length, and two characters of it
are handed to `atoi` in another block.
-/

namespace Meu1oARM

open Machine CString

/-- The accesses stay within the blocks, read only bytes that have been written, and write
nothing through the null pointer. The list holds the bytes written so far. -/
def AccessesSafe : List (Buffer × Nat) → List Access → Prop
  | _, [] => True
  | written, .write buffer null off :: rest =>
    (null = false ∧ off < mallocSize) ∧ AccessesSafe ((buffer, off) :: written) rest
  | written, .read buffer off :: rest =>
    (off < mallocSize ∧ (buffer, off) ∈ written) ∧ AccessesSafe written rest

/-- The bytes that accesses write, the last one first. -/
def writtenBytes : List Access → List (Buffer × Nat)
  | [] => []
  | .write buffer _ off :: rest => writtenBytes rest ++ [(buffer, off)]
  | .read _ _ :: rest => writtenBytes rest

/-- `atoi` stops at one of the two characters, whatever follows them. -/
def stopsWithin (x y : UInt8) : Bool :=
  if isSpace x then !(isSpace y || y == 45 || y == 43 || isDigit y)
  else if x == 45 || x == 43 || isDigit x then !isDigit y
  else true

section Accesses

theorem accessesSafe_append (written : List (Buffer × Nat)) (xs ys : List Access) :
    AccessesSafe written (xs ++ ys) ↔
      AccessesSafe written xs ∧ AccessesSafe (writtenBytes xs ++ written) ys := by
  induction xs generalizing written with
  | nil => simp [AccessesSafe, writtenBytes]
  | cons a xs ih =>
      cases a with
      | write buffer null off => simp [AccessesSafe, writtenBytes, ih, and_assoc]
      | read buffer off => simp [AccessesSafe, writtenBytes, ih, and_assoc]

theorem accessesSafe_reads (written : List (Buffer × Nat)) (buffer : Buffer) (l : List Nat) :
    AccessesSafe written (l.map (.read buffer)) ↔
      ∀ i ∈ l, i < mallocSize ∧ (buffer, i) ∈ written := by
  induction l with
  | nil => simp [AccessesSafe]
  | cons off l ih => simp [AccessesSafe, ih]

theorem accessesSafe_writes (written : List (Buffer × Nat)) (buffer : Buffer) (null : Bool)
    (l : List Nat) :
    AccessesSafe written (l.map (.write buffer null)) ↔
      ∀ i ∈ l, null = false ∧ i < mallocSize := by
  induction l generalizing written with
  | nil => simp [AccessesSafe]
  | cons off l ih => simp [AccessesSafe, ih]

theorem writtenBytes_append (xs ys : List Access) :
    writtenBytes (xs ++ ys) = writtenBytes ys ++ writtenBytes xs := by
  induction xs with
  | nil => simp [writtenBytes]
  | cons a xs ih => cases a <;> simp [writtenBytes, ih]

@[simp] theorem writtenBytes_atoi (buffer : Buffer) (s : List UInt8) :
    writtenBytes (atoiAccesses buffer s) = [] := by
  unfold atoiAccesses
  induction List.range (atoiSpan s) with
  | nil => rfl
  | cons off l ih => exact ih

theorem mem_writtenBytes_writes {buffer buffer' : Buffer} {null : Bool} {i : Nat} {l : List Nat} :
    (buffer', i) ∈ writtenBytes (l.map (.write buffer null)) ↔ buffer' = buffer ∧ i ∈ l := by
  induction l with
  | nil => simp [writtenBytes]
  | cons off l ih =>
      simp only [List.map_cons, writtenBytes, List.mem_append, ih, Prod.mk.injEq,
        List.mem_cons]
      tauto

theorem accessesSafe_strcpy (written : List (Buffer × Nat)) (null : Bool) (n : Nat) :
    AccessesSafe written (strcpyAccesses null n) ↔ null = false ∧ n < mallocSize := by
  rw [strcpyAccesses, accessesSafe_writes]
  constructor
  · exact fun h => h n (List.mem_range.mpr (Nat.lt_succ_self n))
  · rintro ⟨hnull, hn⟩ i hi
    exact ⟨hnull, Nat.lt_of_lt_of_le (List.mem_range.mp hi) hn⟩

@[simp] theorem mem_writtenBytes_strcpy {null : Bool} {n i : Nat} {buffer : Buffer} :
    (buffer, i) ∈ writtenBytes (strcpyAccesses null n) ↔ buffer = .text ∧ i ≤ n := by
  rw [strcpyAccesses, mem_writtenBytes_writes, List.mem_range, Nat.lt_succ_iff]

theorem accessesSafe_copyTwo (written : List (Buffer × Nat)) (null : Bool) (i : Nat) :
    AccessesSafe written (copyTwoAccesses null i) ↔
      null = false ∧ i + 1 < mallocSize ∧ (.text, i) ∈ written ∧ (.text, i + 1) ∈ written := by
  simp only [copyTwoAccesses, AccessesSafe, List.mem_cons, Prod.mk.injEq, reduceCtorEq, false_and,
    false_or, and_true, mallocSize]
  constructor
  · rintro ⟨⟨-, hi⟩, ⟨hnull, -⟩, ⟨hlt, hi'⟩, -⟩
    exact ⟨hnull, hlt, hi, hi'⟩
  · rintro ⟨hnull, hlt, hi, hi'⟩
    exact ⟨⟨by omega, hi⟩, ⟨hnull, by decide⟩, ⟨hlt, hi'⟩, hnull, by decide⟩

@[simp] theorem mem_writtenBytes_copyTwo {null : Bool} {i j : Nat} {buffer : Buffer} :
    (buffer, j) ∈ writtenBytes (copyTwoAccesses null i) ↔ buffer = .tmp ∧ j < 2 := by
  simp only [copyTwoAccesses, writtenBytes, List.nil_append, List.cons_append, List.mem_cons,
    Prod.mk.injEq, List.not_mem_nil, or_false]
  constructor
  · rintro (⟨hbuffer, rfl⟩ | ⟨hbuffer, rfl⟩)
    · exact ⟨hbuffer, by decide⟩
    · exact ⟨hbuffer, by decide⟩
  · rintro ⟨hbuffer, hj⟩
    have hor : j = 1 ∨ j = 0 := by omega
    simpa [hbuffer] using hor

theorem accessesSafe_atoi (written : List (Buffer × Nat)) (buffer : Buffer) (s : List UInt8) :
    AccessesSafe written (atoiAccesses buffer s) ↔
      ∀ i < atoiSpan s, i < mallocSize ∧ (buffer, i) ∈ written := by
  rw [atoiAccesses, accessesSafe_reads]
  simp only [List.mem_range]

end Accesses

section Span

theorem isDigit_not_space {b : UInt8} (h : isDigit b) : isSpace b = false ∧ b ≠ 45 ∧ b ≠ 43 := by
  simp only [isDigit, isSpace] at h ⊢
  grind

theorem atoiSpan_pos (s : List UInt8) : 1 ≤ atoiSpan s := Nat.le_add_left _ _

theorem atoiSpan_space {x : UInt8} (hx : isSpace x) (s : List UInt8) :
    atoiSpan (x :: s) = atoiSpan s + 1 := by
  simp only [atoiSpan, List.dropWhile_cons_of_pos hx, List.takeWhile_cons_of_pos hx,
    List.length_cons]
  omega

theorem atoiSpan_sign {x : UInt8} (hx : x = 45 ∨ x = 43) (s : List UInt8) :
    atoiSpan (x :: s) = (s.takeWhile isDigit).length + 2 := by
  have hspace : ¬isSpace x := by rcases hx with rfl | rfl <;> decide
  simp only [atoiSpan, List.dropWhile_cons_of_neg hspace, List.takeWhile_cons_of_neg hspace,
    List.head?_cons, Option.some.injEq, if_pos hx, List.drop_succ_cons, List.drop_zero,
    List.length_nil]
  omega

theorem atoiSpan_digit {x : UInt8} (hx : isDigit x) (s : List UInt8) :
    atoiSpan (x :: s) = (s.takeWhile isDigit).length + 2 := by
  obtain ⟨hspace, hminus, hplus⟩ := isDigit_not_space hx
  simp [atoiSpan, hspace, hminus, hplus, List.takeWhile_cons_of_pos hx]

theorem atoiSpan_other {x : UInt8} (hspace : isSpace x = false) (hminus : x ≠ 45)
    (hplus : x ≠ 43) (hdigit : isDigit x = false) (s : List UInt8) : atoiSpan (x :: s) = 1 := by
  simp [atoiSpan, hspace, hminus, hplus, hdigit]

theorem length_digits_le (v rest : List UInt8) :
    ((v ++ 0 :: rest).takeWhile isDigit).length ≤ v.length := by
  induction v with
  | nil => simp [isDigit]
  | cons x v ih =>
      by_cases hx : isDigit x
      · simpa [hx] using ih
      · simp [hx]

/-- `atoi` does not look behind the terminator. -/
theorem atoiSpan_le (v rest : List UInt8) : atoiSpan (v ++ 0 :: rest) ≤ v.length + 1 := by
  induction v with
  | nil =>
      rw [List.nil_append, atoiSpan_other (by decide) (by decide) (by decide) (by decide)]
      exact Nat.le_refl _
  | cons x v ih =>
      have hdigits := length_digits_le v rest
      rw [List.cons_append, List.length_cons]
      by_cases hspace : isSpace x
      · rw [atoiSpan_space hspace]
        omega
      · by_cases hsign : x = 45 ∨ x = 43
        · rw [atoiSpan_sign hsign]
          omega
        · by_cases hdigit : isDigit x
          · rw [atoiSpan_digit hdigit]
            omega
          · rw [not_or] at hsign
            rw [Bool.not_eq_true] at hspace hdigit
            rw [atoiSpan_other hspace hsign.1 hsign.2 hdigit]
            omega

theorem length_takeWhile_digit (y : UInt8) (rest : List UInt8) :
    ((y :: rest).takeWhile isDigit).length + 2 ≤ 2 ↔ isDigit y = false := by
  cases hy : isDigit y <;> simp [hy]

/-- How far `atoi` looks depends on the first two characters, if it stops at one of them. -/
theorem atoiSpan_two (x y : UInt8) (rest : List UInt8) :
    atoiSpan (x :: y :: rest) ≤ 2 ↔ stopsWithin x y := by
  unfold stopsWithin
  -- the first byte is white space, a sign, a digit or the end of the number
  by_cases hx : isSpace x
  · rw [if_pos hx, atoiSpan_space hx]
    have hpos := atoiSpan_pos rest
    by_cases hy : isSpace y
    · rw [atoiSpan_space hy]
      simp [hy]
      omega
    · by_cases hsign : y = 45 ∨ y = 43
      · rw [atoiSpan_sign hsign]
        rcases hsign with rfl | rfl <;> simp
      · rw [not_or] at hsign
        by_cases hdigit : isDigit y
        · rw [atoiSpan_digit hdigit]
          simp [hdigit]
        · rw [Bool.not_eq_true] at hy hdigit
          rw [atoiSpan_other hy hsign.1 hsign.2 hdigit]
          simp [hy, hsign, hdigit]
  · rw [if_neg hx]
    by_cases hsign : x = 45 ∨ x = 43
    · rw [atoiSpan_sign hsign, length_takeWhile_digit]
      rcases hsign with rfl | rfl <;> simp
    · rw [not_or] at hsign
      by_cases hdigit : isDigit x
      · rw [atoiSpan_digit hdigit, length_takeWhile_digit]
        simp [hdigit]
      · rw [Bool.not_eq_true] at hx hdigit
        rw [atoiSpan_other hx hsign.1 hsign.2 hdigit]
        simp [hsign, hdigit]

end Span

/-! ## The calls -/

namespace ClockCgi

/-- Both blocks are there, the length of the value suits the fixed positions and the first
block, and `atoi` stops before it leaves the characters copied into the second one. -/
def BuffersSuffice (v : List UInt8) (b : Board) (k : ClockCgi) : Prop :=
  (b.heap b.mallocs).null = false ∧ (b.heap (b.mallocs + 1)).null = false ∧
    stopsWithin (v.getD 5 0) (v.getD 6 0) ∧
    match k with
    | data => v.length = 9
    | hora => 6 ≤ v.length ∧ v.length ≤ 9

end ClockCgi

section Calls

variable (b : Board) (n : Nat) (args : CgiArgs)

theorem accesses_setDatetime (b : Board) : b.setDatetime.flagCgi.accesses = b.accesses := by
  rw [Board.flagCgi, Board.setDatetime]

/-- The accesses up to the first number read in the second block. -/
def Board.firstAccesses (b : Board) (v : List UInt8) : List Access :=
  strcpyAccesses (b.heap b.mallocs).null v.length ++ atoiAccesses .text (b.copied v) ++
    copyTwoAccesses (b.heap (b.mallocs + 1)).null 5 ++
      atoiAccesses .tmp ((b.copied v).getD 5 0 :: (b.copied v).getD 6 0 :: b.leftover)

/-- The accesses for the second number. -/
def Board.secondAccesses (b : Board) (v : List UInt8) : List Access :=
  copyTwoAccesses (b.heap (b.mallocs + 1)).null 8 ++
    atoiAccesses .tmp ((b.copied v).getD 8 0 :: (b.copied v).getD 9 0 :: b.leftover)

theorem two_le_tmp : 2 ≤ (b.heap (b.mallocs + 1)).bytes.length :=
  Nat.le_trans (by decide) (b.heap (b.mallocs + 1)).size_le

theorem accesses_data :
    (processaCgi b 1 n args).1.accesses =
      b.firstAccesses (b.string (valueUse n args 0)) ++
        b.secondAccesses (b.string (valueUse n args 0)) := by
  have hcalled : (b.startCall.getDatetime.dataCgi n args).accesses =
      strcpyAccesses (b.heap b.mallocs).null (b.string (valueUse n args 0)).length ++
        atoiAccesses .text (b.copied (b.string (valueUse n args 0))) ++
        copyTwoAccesses (b.heap (b.mallocs + 1)).null 5 ++
        atoiAccesses .tmp
          (copyTwo (b.copied (b.string (valueUse n args 0)))
            (b.heap (b.mallocs + 1)).bytes 5) ++
        copyTwoAccesses (b.heap (b.mallocs + 1)).null 8 ++
        atoiAccesses .tmp
          (copyTwo (b.copied (b.string (valueUse n args 0)))
            (copyTwo (b.copied (b.string (valueUse n args 0)))
              (b.heap (b.mallocs + 1)).bytes 5) 8) := rfl
  rw [copyTwo_copyTwo _ (two_le_tmp b), copyTwo_eq _ (two_le_tmp b),
    copyTwo_eq _ (two_le_tmp b)] at hcalled
  change (b.startCall.getDatetime.dataCgi n args).setDatetime.flagCgi.accesses = _
  rw [accesses_setDatetime, hcalled, Board.firstAccesses, Board.secondAccesses]
  simp only [List.append_assoc]
  rfl

theorem accesses_hora :
    (processaCgi b 2 n args).1.accesses =
      b.firstAccesses (b.string (valueUse n args 0)) := by
  have hcalled : (b.startCall.getDatetime.horaCgi n args).accesses =
      strcpyAccesses (b.heap b.mallocs).null (b.string (valueUse n args 0)).length ++
        atoiAccesses .text (b.copied (b.string (valueUse n args 0))) ++
        copyTwoAccesses (b.heap (b.mallocs + 1)).null 5 ++
        atoiAccesses .tmp
          (copyTwo (b.copied (b.string (valueUse n args 0)))
            (b.heap (b.mallocs + 1)).bytes 5) := rfl
  rw [copyTwo_eq _ (two_le_tmp b)] at hcalled
  change (b.startCall.getDatetime.horaCgi n args).setDatetime.flagCgi.accesses = _
  rw [accesses_setDatetime, hcalled]
  rfl

end Calls

section Bounds

variable (b : Board) {v : List UInt8}

/-- Inside the value and at its terminator, the copy is the value. -/
theorem getD_copied (h : 0 ∉ v) {i : Nat} (hi : i ≤ v.length) :
    (b.copied v).getD i 0 = v.getD i 0 := by
  rw [copied_eq b h, List.getD_eq_getElem?_getD, List.getD_eq_getElem?_getD]
  rcases Nat.lt_or_eq_of_le hi with hlt | rfl
  · rw [List.getElem?_append_left hlt]
  · simp

theorem accessesSafe_two {written : List (Buffer × Nat)} (hwritten : ∀ i < 2, (.tmp, i) ∈ written)
    (hrest : ∀ i, (Buffer.tmp, i) ∈ written → i < 2) (x y : UInt8) (rest : List UInt8) :
    AccessesSafe written (atoiAccesses .tmp (x :: y :: rest)) ↔ stopsWithin x y := by
  rw [accessesSafe_atoi, ← atoiSpan_two x y rest]
  constructor
  · intro h
    by_contra hgt
    exact absurd (hrest 2 (h 2 (Nat.lt_of_not_le hgt)).2) (Nat.lt_irrefl 2)
  · intro hle i hi
    have hlt : i < 2 := Nat.lt_of_lt_of_le hi hle
    exact ⟨Nat.lt_trans hlt (by decide), hwritten i hlt⟩

theorem accessesSafe_firstAccesses (h : 0 ∉ v) :
    AccessesSafe [] (b.firstAccesses v) ↔
      (b.heap b.mallocs).null = false ∧ (b.heap (b.mallocs + 1)).null = false ∧
        (6 ≤ v.length ∧ v.length ≤ 9) ∧ stopsWithin (v.getD 5 0) (v.getD 6 0) := by
  have hspan : atoiSpan (b.copied v) ≤ v.length + 1 := by
    rw [copied_eq b h]
    exact atoiSpan_le v _
  rw [Board.firstAccesses, accessesSafe_append, accessesSafe_append, accessesSafe_append,
    accessesSafe_strcpy, accessesSafe_atoi, accessesSafe_copyTwo, accessesSafe_two]
  · simp only [writtenBytes_append, writtenBytes_atoi, List.append_nil, List.nil_append,
      mem_writtenBytes_strcpy, true_and, mallocSize]
    constructor
    · rintro ⟨⟨⟨⟨htext, hlength⟩, -⟩, htmp, -, -, hread⟩, hstops⟩
      rw [getD_copied b h (by omega), getD_copied b h hread] at hstops
      exact ⟨htext, htmp, ⟨hread, by omega⟩, hstops⟩
    · rintro ⟨htext, htmp, ⟨hread, hlength⟩, hstops⟩
      rw [getD_copied b h (by omega), getD_copied b h hread]
      refine ⟨⟨⟨⟨htext, by omega⟩, fun i hi => ?_⟩, htmp, by decide, by omega, hread⟩, hstops⟩
      exact ⟨by omega, by omega⟩
  · intro i hi
    simp [writtenBytes_append, hi]
  · intro i hi
    simpa [writtenBytes_append] using hi

theorem mem_writtenBytes_first (buffer : Buffer) (i : Nat) :
    (buffer, i) ∈ writtenBytes (b.firstAccesses v) ↔
      (buffer = .tmp ∧ i < 2) ∨ (buffer = .text ∧ i ≤ v.length) := by
  simp only [Board.firstAccesses, writtenBytes_append, writtenBytes_atoi, List.nil_append,
    List.mem_append, mem_writtenBytes_copyTwo, mem_writtenBytes_strcpy]

theorem accessesSafe_secondAccesses (h : 0 ∉ v) (hlength : v.length ≤ 9) :
    AccessesSafe (writtenBytes (b.firstAccesses v)) (b.secondAccesses v) ↔
      (b.heap (b.mallocs + 1)).null = false ∧ v.length = 9 := by
  rw [Board.secondAccesses, accessesSafe_append, accessesSafe_copyTwo, accessesSafe_two]
  · simp only [mem_writtenBytes_first, reduceCtorEq, false_and, false_or, true_and, mallocSize]
    constructor
    · rintro ⟨⟨htmp, -, -, hread⟩, -⟩
      exact ⟨htmp, by omega⟩
    · rintro ⟨htmp, hnine⟩
      have hend : (b.copied v).getD 9 0 = 0 := by
        rw [getD_copied b h (by omega), ← hnine]
        simp [List.getD_eq_getElem?_getD]
      have hstops : ∀ x, stopsWithin x 0 = true := by
        intro x
        simp [stopsWithin, isSpace, isDigit]
      rw [hend]
      exact ⟨⟨htmp, by decide, by omega, by omega⟩, hstops _⟩
  · intro i hi
    simp [mem_writtenBytes_first, hi]
  · intro i hi
    simpa [mem_writtenBytes_first] using hi

variable (root : List FsdataFile) (ssiHandler : Nat → Nat → Insert)

theorem callCgi_data_accesses (hv : IsValue v) {c : Ctx Board} (hfit : c.hs.ArraysFit) :
    (callCgi (boardSite root ssiHandler) (ClockCgi.data.target v) c).2.2.sys.app.accesses =
      c.sys.app.firstAccesses v ++ c.sys.app.secondAccesses v := by
  rw [ClockCgi.target, callCgi_app root ssiHandler (i := 1) rfl, accesses_data,
    string_of_query _ IsValue.data.1 IsValue.data.2 hv hfit]

theorem callCgi_hora_accesses (hv : IsValue v) {c : Ctx Board} (hfit : c.hs.ArraysFit) :
    (callCgi (boardSite root ssiHandler) (ClockCgi.hora.target v) c).2.2.sys.app.accesses =
      c.sys.app.firstAccesses v := by
  rw [ClockCgi.target, callCgi_app root ssiHandler (i := 2) rfl, accesses_hora,
    string_of_query _ IsValue.hora.1 IsValue.hora.2 hv hfit]

/-- The clock handlers stay within their buffers and read only what they have written if and
only if the buffers suffice for the value. -/
theorem clock_buffers_safe_iff (k : ClockCgi) (hv : IsValue v) {c : Ctx Board}
    (hfit : c.hs.ArraysFit) :
    AccessesSafe []
        (callCgi (boardSite root ssiHandler) (k.target v) c).2.2.sys.app.accesses ↔
      k.BuffersSuffice v c.sys.app := by
  cases k with
  | data =>
      rw [callCgi_data_accesses root ssiHandler hv hfit, accessesSafe_append,
        accessesSafe_firstAccesses _ hv.1, List.append_nil, ClockCgi.BuffersSuffice]
      constructor
      · rintro ⟨⟨htext, htmp, ⟨-, hlength⟩, hstops⟩, hsecond⟩
        exact ⟨htext, htmp, hstops,
          ((accessesSafe_secondAccesses _ hv.1 hlength).mp hsecond).2⟩
      · rintro ⟨htext, htmp, hstops, hnine⟩
        have hlength : v.length ≤ 9 := Nat.le_of_eq hnine
        exact ⟨⟨htext, htmp, ⟨by omega, hlength⟩, hstops⟩,
          (accessesSafe_secondAccesses _ hv.1 hlength).mpr ⟨htmp, hnine⟩⟩
  | hora =>
      rw [callCgi_hora_accesses root ssiHandler hv hfit, accessesSafe_firstAccesses _ hv.1,
        ClockCgi.BuffersSuffice]
      constructor
      · rintro ⟨htext, htmp, hlength, hstops⟩
        exact ⟨htext, htmp, hstops, hlength⟩
      · rintro ⟨htext, htmp, hstops, hlength⟩
        exact ⟨htext, htmp, hlength, hstops⟩

/-- A single digit of the minutes is safe. -/
theorem clock_buffers_safe_trial :
    AccessesSafe []
      (callCgi (boardSite [] fun _ _ => Insert.empty) (ClockCgi.hora.target (chars "14%3A7"))
        (.trial (.trial 1000000 0))).2.2.sys.app.accesses := by
  apply (clock_buffers_safe_iff [] (fun _ _ => Insert.empty) .hora (v := chars "14%3A7")
    ⟨by decide, by decide, by decide⟩ (c := .trial (.trial 1000000 0))
    httpStateInit_arraysFit).mpr
  exact ⟨rfl, rfl, by decide, by decide, by decide⟩

/-- The terminator of a date is written behind the block. -/
theorem clock_buffer_overrun :
    ¬AccessesSafe []
      (callCgi trialBoardSite (ClockCgi.data.target (dateText 2021 5 18))
        (.trial (.trial 1000000 0))).2.2.sys.app.accesses := by
  rw [trialBoardSite, callCgi_data_accesses [] (fun _ _ => Insert.empty)
    (dateText_isValue 2021 5 18) (c := .trial (.trial 1000000 0)) httpStateInit_arraysFit,
    accessesSafe_append, accessesSafe_firstAccesses _ (dateText_isValue 2021 5 18).1]
  rintro ⟨⟨-, -, ⟨-, hlength⟩, -⟩, -⟩
  exact absurd hlength (by decide +kernel)

end Bounds

end Meu1oARM
