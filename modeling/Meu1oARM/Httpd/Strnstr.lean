import Meu1oARM.Foundation.CString

/-! # `strnstr`

The private `strnstr` of the server. It stops at a null byte and at the bound,
whatever lies behind them.
-/

namespace Meu1oARM

open CString

/-- The loop of `strnstr` from the offset `p` on. -/
def strnstrLoop (buffer : Mem) (token : List UInt8) (n : Nat) : Nat → Nat → Option Nat
  | 0, _ => none
  | fuel + 1, p =>
    if buffer p ≠ 0 ∧ p + token.length ≤ n then
      if bytes (shift buffer p) token.length = token then some p
      else strnstrLoop buffer token n fuel (p + 1)
    else none

/-- `strnstr` -/
def strnstr (buffer : Mem) (token : List UInt8) (n : Nat) : Option Nat :=
  if token.length = 0 then some 0 else strnstrLoop buffer token n (n + 1) 0

variable {buffer : Mem} {token : List UInt8} {n : Nat}

theorem strnstrLoop_some {fuel p q : Nat} (h : strnstrLoop buffer token n fuel p = some q) :
    q + token.length ≤ n ∧ bytes (shift buffer q) token.length = token := by
  induction fuel generalizing p with
  | zero => simp [strnstrLoop] at h
  | succ fuel ih =>
      simp only [strnstrLoop] at h
      split at h
      next hin =>
        split at h
        next hmatch =>
          obtain rfl : p = q := by simpa using h
          exact ⟨hin.2, hmatch⟩
        next => exact ih h
      next => simp at h

/-- Up to what it finds, the loop has met no null byte and no occurrence. -/
theorem strnstrLoop_before {fuel p q : Nat} (h : strnstrLoop buffer token n fuel p = some q) :
    ∀ j, p ≤ j → (j ≤ q → buffer j ≠ 0) ∧
      (j < q → bytes (shift buffer j) token.length ≠ token) := by
  induction fuel generalizing p with
  | zero => simp [strnstrLoop] at h
  | succ fuel ih =>
      simp only [strnstrLoop] at h
      split at h
      next hin =>
        split at h
        next hmatch =>
          obtain rfl : p = q := by simpa using h
          intro j hj
          refine ⟨fun hle => ?_, fun hlt => absurd hj (Nat.not_le_of_lt hlt)⟩
          rw [Nat.le_antisymm hle hj]
          exact hin.1
        next hmatch =>
          intro j hj
          rcases Nat.eq_or_lt_of_le hj with rfl | hlt
          · exact ⟨fun _ => hin.1, fun _ => hmatch⟩
          · exact ih h j hlt
      next => simp at h

/-- What `strnstr` finds is an occurrence within the bound. -/
theorem strnstr_some {p : Nat} (h : strnstr buffer token n = some p) (htoken : token ≠ []) :
    p + token.length ≤ n ∧ bytes (shift buffer p) token.length = token := by
  have hlength : token.length ≠ 0 := by simpa using htoken
  rw [strnstr, if_neg hlength] at h
  exact strnstrLoop_some h

theorem strnstr_none (htoken : token ≠ [])
    (hnot : ∀ p, p + token.length ≤ n → bytes (shift buffer p) token.length ≠ token) :
    strnstr buffer token n = none := by
  rw [Option.eq_none_iff_forall_ne_some]
  intro p hfound
  obtain ⟨hle, hmatch⟩ := strnstr_some hfound htoken
  exact hnot p hle hmatch

theorem strnstrLoop_first {fuel p q : Nat} (hpq : p ≤ q) (hfuel : q < p + fuel)
    (hle : q + token.length ≤ n) (hnonzero : ∀ j, j ≤ q → buffer j ≠ 0)
    (hmatch : bytes (shift buffer q) token.length = token)
    (hfirst : ∀ j, j < q → bytes (shift buffer j) token.length ≠ token) :
    strnstrLoop buffer token n fuel p = some q := by
  induction fuel generalizing p with
  | zero => omega
  | succ fuel ih =>
      have hin : buffer p ≠ 0 ∧ p + token.length ≤ n := ⟨hnonzero p hpq, by omega⟩
      rw [strnstrLoop, if_pos hin]
      rcases Nat.eq_or_lt_of_le hpq with rfl | hlt
      · rw [if_pos hmatch]
      · rw [if_neg (hfirst p hlt)]
        exact ih hlt (by omega)

/-- Without a null byte before it, `strnstr` finds the first occurrence. -/
theorem strnstr_first {q : Nat} (htoken : token ≠ []) (hle : q + token.length ≤ n)
    (hnonzero : ∀ j, j ≤ q → buffer j ≠ 0)
    (hmatch : bytes (shift buffer q) token.length = token)
    (hfirst : ∀ j, j < q → bytes (shift buffer j) token.length ≠ token) :
    strnstr buffer token n = some q := by
  have hlength : token.length ≠ 0 := by simpa using htoken
  rw [strnstr, if_neg hlength]
  exact strnstrLoop_first (Nat.zero_le q) (by omega) hle hnonzero hmatch hfirst

/-- `strnstr` finds the first occurrence within the bound, unless a null byte precedes it. -/
theorem strnstr_eq_some_iff {q : Nat} (htoken : token ≠ []) :
    strnstr buffer token n = some q ↔
      q + token.length ≤ n ∧ (∀ j, j ≤ q → buffer j ≠ 0) ∧
        bytes (shift buffer q) token.length = token ∧
          ∀ j, j < q → bytes (shift buffer j) token.length ≠ token := by
  constructor
  · intro h
    obtain ⟨hle, hmatch⟩ := strnstr_some h htoken
    have hlength : token.length ≠ 0 := by simpa using htoken
    rw [strnstr, if_neg hlength] at h
    have hbefore := strnstrLoop_before h
    exact ⟨hle, fun j => (hbefore j (Nat.zero_le j)).1, hmatch,
      fun j => (hbefore j (Nat.zero_le j)).2⟩
  · rintro ⟨hle, hnonzero, hmatch, hfirst⟩
    exact strnstr_first htoken hle hnonzero hmatch hfirst

/-- Without a null byte before it, `strnstr` does not miss an occurrence. -/
theorem strnstr_isSome {q : Nat} (htoken : token ≠ []) (hle : q + token.length ≤ n)
    (hnonzero : ∀ j, j ≤ q → buffer j ≠ 0)
    (hmatch : bytes (shift buffer q) token.length = token) :
    (strnstr buffer token n).isSome := by
  induction q using Nat.strongRecOn with
  | ind q ih =>
      by_cases hfirst : ∀ j, j < q → bytes (shift buffer j) token.length ≠ token
      · rw [strnstr_first htoken hle hnonzero hmatch hfirst]
        rfl
      · simp only [not_forall, ne_eq, not_not] at hfirst
        obtain ⟨j, hlt, hmatch'⟩ := hfirst
        exact ih j hlt (by omega) (fun k hk => hnonzero k (by omega)) hmatch'

/-! ## What is read -/

/-- `strncmp` of the memory at `p` with a token, and the offsets it reads. It stops at the first
byte that differs; a token has no null byte. -/
def strncmp (buffer : Mem) : List UInt8 → Nat → Bool × List Nat
  | [], _ => (true, [])
  | t :: token, p =>
    if buffer p = t then
      let (equal, reads) := strncmp buffer token (p + 1)
      (equal, p :: reads)
    else (false, [p])

/-- The loop of `strnstr` from the offset `p` on, with the offsets it reads. -/
def strnstrReadLoop (buffer : Mem) (token : List UInt8) (n : Nat) :
    Nat → Nat → Option Nat × List Nat
  | 0, _ => (none, [])
  | fuel + 1, p =>
    -- the byte is read before the bound is tested, and again for the first byte of the token
    if buffer p ≠ 0 then
      if p + token.length ≤ n then
        let (equal, reads) :=
          if token.head? = some (buffer p) then strncmp buffer token p else (false, [])
        if equal then (some p, p :: p :: reads)
        else
          let (found, later) := strnstrReadLoop buffer token n fuel (p + 1)
          (found, p :: p :: reads ++ later)
      else (none, [p])
    else (none, [p])

/-- `strnstr`, with the offsets of the buffer that it reads. -/
def strnstrRead (buffer : Mem) (token : List UInt8) (n : Nat) : Option Nat × List Nat :=
  if token.length = 0 then (some 0, []) else strnstrReadLoop buffer token n (n + 1) 0

/-- The token stands at `q`, ends within `n` bytes, and no null byte stands before or at `q`. -/
structure OccursWithin (buffer : Mem) (token : List UInt8) (n q : Nat) : Prop where
  le : q + token.length ≤ n
  bytes_eq : bytes (shift buffer q) token.length = token
  nonzero : ∀ j ≤ q, buffer j ≠ 0

/-- The search finds the first occurrence within the bound, finds nothing if there is none, and
stays within the bound. -/
structure SearchesWithin (buffer : Mem) (token : List UInt8) (n : Nat) : Prop where
  some_iff : ∀ q, (strnstrRead buffer token n).1 = some q ↔
    OccursWithin buffer token n q ∧ ∀ j < q, ¬ OccursWithin buffer token n j
  none_iff : (strnstrRead buffer token n).1 = none ↔ ∀ q, ¬ OccursWithin buffer token n q
  reads_lt : ∀ i ∈ (strnstrRead buffer token n).2, i < n

theorem strncmp_fst (p : Nat) :
    (strncmp buffer token p).1 = true ↔ bytes (shift buffer p) token.length = token := by
  induction token generalizing p with
  | nil => simp [strncmp]
  | cons t token ih =>
      rw [List.length_cons, bytes_succ, shift_shift, List.cons.injEq, ← ih (p + 1)]
      by_cases hfirst : buffer p = t
      · simp [strncmp, shift, hfirst]
      · simp [strncmp, shift, hfirst]

/-- A comparison reads no more than the length of the token. -/
theorem strncmp_reads {p i : Nat} (h : i ∈ (strncmp buffer token p).2) :
    i < p + token.length := by
  induction token generalizing p with
  | nil => simp [strncmp] at h
  | cons t token ih =>
      rw [strncmp] at h
      rw [List.length_cons]
      split at h
      · rcases List.mem_cons.mp h with rfl | hlater
        · omega
        · have hlt := ih hlater
          omega
      · obtain rfl := List.mem_singleton.mp h
        omega

variable (buffer) in
/-- Comparing the first byte before makes no difference to what is compared. -/
theorem compared_fst (htoken : token ≠ []) (p : Nat) :
    (if token.head? = some (buffer p) then strncmp buffer token p else (false, [])).1 = true ↔
      bytes (shift buffer p) token.length = token := by
  by_cases hfirst : token.head? = some (buffer p)
  · rw [if_pos hfirst]
    exact strncmp_fst p
  · rw [if_neg hfirst]
    refine iff_of_false (by simp) fun hmatch => hfirst ?_
    obtain ⟨t, rest, rfl⟩ := List.exists_cons_of_ne_nil htoken
    rw [List.length_cons, bytes_succ, List.cons.injEq] at hmatch
    simpa [shift, eq_comm] using hmatch.1

theorem strnstrReadLoop_fst (htoken : token ≠ []) (fuel p : Nat) :
    (strnstrReadLoop buffer token n fuel p).1 = strnstrLoop buffer token n fuel p := by
  induction fuel generalizing p with
  | zero => rfl
  | succ fuel ih =>
      rw [strnstrReadLoop, strnstrLoop]
      have hcompared := compared_fst buffer htoken p
      generalize (if token.head? = some (buffer p) then strncmp buffer token p
        else (false, [])) = compared at hcompared
      obtain ⟨equal, reads⟩ := compared
      by_cases hzero : buffer p = 0
      · simp [hzero]
      · by_cases hle : p + token.length ≤ n
        · cases equal with
          | true => simp [hzero, hle, hcompared.mp rfl]
          | false =>
              have hdiffers : bytes (shift buffer p) token.length ≠ token :=
                fun hmatch => Bool.noConfusion (hcompared.mpr hmatch)
              simp [hzero, hle, hdiffers, ih]
        · simp [hzero, hle]

theorem strnstrRead_fst : (strnstrRead buffer token n).1 = strnstr buffer token n := by
  rw [strnstrRead, strnstr]
  split
  · rfl
  next hlength => exact strnstrReadLoop_fst (by simpa using hlength) _ _

/-- What is read at one offset: the byte itself, and what the comparison reads. -/
theorem strnstrReadLoop_reads {fuel p i : Nat}
    (h : i ∈ (strnstrReadLoop buffer token n (fuel + 1) p).2) :
    i = p ∨ i < p + token.length ∧ p + token.length ≤ n ∨
      i ∈ (strnstrReadLoop buffer token n fuel (p + 1)).2 ∧ p + token.length ≤ n := by
  rw [strnstrReadLoop] at h
  split at h
  next =>
    split at h
    next hle =>
      have hcompared : ∀ i ∈ (if token.head? = some (buffer p) then strncmp buffer token p
          else (false, [])).2, i < p + token.length := by
        intro i hi
        split at hi
        · exact strncmp_reads hi
        · cases hi
      generalize (if token.head? = some (buffer p) then strncmp buffer token p
        else (false, [])) = compared at h hcompared
      obtain ⟨equal, reads⟩ := compared
      dsimp only at h hcompared
      split at h
      · rcases (by simpa using h : i = p ∨ i ∈ reads) with rfl | hread
        · exact Or.inl rfl
        · exact Or.inr (Or.inl ⟨hcompared i hread, hle⟩)
      · rcases (by simpa [or_assoc] using h :
          i = p ∨ i ∈ reads ∨ i ∈ (strnstrReadLoop buffer token n fuel (p + 1)).2) with
          rfl | hread | hlater
        · exact Or.inl rfl
        · exact Or.inr (Or.inl ⟨hcompared i hread, hle⟩)
        · exact Or.inr (Or.inr ⟨hlater, hle⟩)
    next => exact Or.inl (List.mem_singleton.mp h)
  next => exact Or.inl (List.mem_singleton.mp h)

/-- A token of several bytes keeps the search within the bound. -/
theorem reads_lt_of_long (hlong : 2 ≤ token.length) {fuel p : Nat} (hp : p < n) :
    ∀ i ∈ (strnstrReadLoop buffer token n fuel p).2, i < n := by
  induction fuel generalizing p with
  | zero => simp [strnstrReadLoop]
  | succ fuel ih =>
      intro i hi
      rcases strnstrReadLoop_reads hi with rfl | ⟨hlt, hle⟩ | ⟨hlater, hle⟩
      · exact hp
      · omega
      · exact ih (by omega) i hlater

/-- A search for one byte reads the byte behind the bound unless it stops before. -/
theorem reads_lt_single_iff {t : UInt8} {fuel p : Nat} (hp : p ≤ n) (hfuel : n < p + fuel) :
    (∀ i ∈ (strnstrReadLoop buffer [t] n fuel p).2, i < n) ↔
      ∃ j, p ≤ j ∧ j < n ∧ (buffer j = 0 ∨ buffer j = t) := by
  induction fuel generalizing p with
  | zero => omega
  | succ fuel ih =>
      rcases Nat.eq_or_lt_of_le hp with rfl | hlt
      · -- the bound is reached, and the byte there is read
        constructor
        · intro hreads
          refine absurd (hreads p ?_) (Nat.lt_irrefl p)
          rw [strnstrReadLoop]
          split
          · rw [if_neg (by simp)]
            exact List.mem_singleton_self p
          · exact List.mem_singleton_self p
        · rintro ⟨j, hle, hlt, -⟩
          omega
      · by_cases hstop : buffer p = 0 ∨ buffer p = t
        · refine ⟨fun _ => ⟨p, Nat.le_refl p, hlt, hstop⟩, fun _ i hi => ?_⟩
          rcases hstop with hzero | hfound
          · obtain rfl : i = p := by simpa [strnstrReadLoop, hzero] using hi
            exact hlt
          · by_cases hzero : buffer p = 0
            · obtain rfl : i = p := by simpa [strnstrReadLoop, hzero] using hi
              exact hlt
            · have hle : p + [t].length ≤ n := hlt
              rw [strnstrReadLoop, if_pos hzero, if_pos hle] at hi
              obtain rfl : i = p := by simpa [strncmp, hfound] using hi
              exact hlt
        · rw [not_or] at hstop
          have hle : p + [t].length ≤ n := hlt
          have hhead : ¬ [t].head? = some (buffer p) := by simpa [eq_comm] using hstop.2
          have hreads : (strnstrReadLoop buffer [t] n (fuel + 1) p).2 =
              p :: p :: (strnstrReadLoop buffer [t] n fuel (p + 1)).2 := by
            rw [strnstrReadLoop, if_pos hstop.1, if_pos hle, if_neg hhead]
            rfl
          have hrest : (∀ i ∈ (strnstrReadLoop buffer [t] n (fuel + 1) p).2, i < n) ↔
              ∀ i ∈ (strnstrReadLoop buffer [t] n fuel (p + 1)).2, i < n := by
            rw [hreads]
            simp [hlt]
          rw [hrest, ih hlt (by omega)]
          constructor
          · rintro ⟨j, hpj, hjn, hj⟩
            exact ⟨j, by omega, hjn, hj⟩
          · rintro ⟨j, hpj, hjn, hj⟩
            rcases Nat.eq_or_lt_of_le hpj with rfl | hlater
            · exact absurd hj (not_or.mpr hstop)
            · exact ⟨j, hlater, hjn, hj⟩

/-- `strnstr` is right in what it finds. It stays within the bound if and only if the bound is not
zero and the search, if it is for one byte, finds that or a null byte. -/
theorem strnstr_searches_iff (buffer : Mem) {token : List UInt8} (htoken : token ≠ []) (n : Nat) :
    SearchesWithin buffer token n ↔
      0 < n ∧ (2 ≤ token.length ∨ ∃ j < n, buffer j = 0 ∨ [buffer j] = token) := by
  have hlength := List.length_pos_of_ne_nil htoken
  have hsome : ∀ q, (strnstrRead buffer token n).1 = some q ↔
      OccursWithin buffer token n q ∧ ∀ j < q, ¬ OccursWithin buffer token n j := by
    intro q
    rw [strnstrRead_fst, strnstr_eq_some_iff htoken]
    constructor
    · rintro ⟨hle, hnonzero, hmatch, hfirst⟩
      exact ⟨⟨hle, hmatch, hnonzero⟩, fun j hj hoccurs => hfirst j hj hoccurs.bytes_eq⟩
    · rintro ⟨hoccurs, hfirst⟩
      refine ⟨hoccurs.le, hoccurs.nonzero, hoccurs.bytes_eq, fun j hj hmatch => ?_⟩
      have hle := hoccurs.le
      exact hfirst j hj ⟨by omega, hmatch, fun k hk => hoccurs.nonzero k (by omega)⟩
  have hnone : (strnstrRead buffer token n).1 = none ↔ ∀ q, ¬ OccursWithin buffer token n q := by
    constructor
    · intro hnone q hoccurs
      rw [strnstrRead_fst] at hnone
      have hfound := strnstr_isSome htoken hoccurs.le hoccurs.nonzero hoccurs.bytes_eq
      simp [hnone] at hfound
    · intro hnot
      rw [Option.eq_none_iff_forall_ne_some]
      exact fun q hq => hnot q ((hsome q).mp hq).1
  have hreads : (∀ i ∈ (strnstrRead buffer token n).2, i < n) ↔
      0 < n ∧ (2 ≤ token.length ∨ ∃ j < n, buffer j = 0 ∨ [buffer j] = token) := by
    rw [strnstrRead, if_neg (by omega)]
    rcases Nat.eq_zero_or_pos n with rfl | hpos
    · -- without a byte to search, the first byte is read
      refine iff_of_false (fun h => ?_) fun h => Nat.lt_irrefl 0 h.1
      refine absurd (h 0 ?_) (Nat.lt_irrefl 0)
      rw [strnstrReadLoop]
      split
      · rw [if_neg (by omega)]
        exact List.mem_singleton_self 0
      · exact List.mem_singleton_self 0
    · rcases Nat.lt_or_ge 1 token.length with hlong | hshort
      · exact iff_of_true (reads_lt_of_long hlong hpos) ⟨hpos, Or.inl hlong⟩
      · obtain ⟨t, rfl⟩ := List.length_eq_one_iff.mp (Nat.le_antisymm hshort hlength)
        rw [reads_lt_single_iff (Nat.zero_le n) (by omega)]
        simp [hpos]
  exact ⟨fun h => hreads.mp h.reads_lt, fun h => ⟨hsome, hnone, hreads.mpr h⟩⟩

/-- The search for the space behind the URI of a simple request reads the byte behind the data. -/
theorem strnstr_reads_behind :
    ¬ SearchesWithin (ofList (chars "/a.ssi\r\n") fun _ => 0) (chars " ") 8 := by
  intro h
  exact absurd (h.reads_lt 8 (by decide)) (Nat.lt_irrefl 8)

theorem strnstr_searches_trial :
    SearchesWithin (ofList (chars "/a.ssi HTTP/1.0\r\n") fun _ => 0) (chars " ") 17 := by
  have htoken : chars " " ≠ [] := by decide
  refine (strnstr_searches_iff (ofList (chars "/a.ssi HTTP/1.0\r\n") fun _ => 0) htoken 17).mpr ?_
  exact ⟨by decide, Or.inr ⟨6, by decide, Or.inr (by decide)⟩⟩

end Meu1oARM
