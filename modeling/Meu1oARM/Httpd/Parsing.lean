import Meu1oARM.Httpd.World

/-! # Requests that arrive in pieces

The parser starts anew whenever a piece arrives. On a first part of a request it
finds no end of the header and waits; on the whole request it finds the URI,
whatever lies behind the data and however the data was divided.
-/

namespace Meu1oARM

open Machine CString

variable {σ : Type}

/-- The blank line behind the header. -/
def blankLine : List UInt8 := crlf ++ crlf

/-- A request line for `uri` and what follows it. -/
def getText (uri rest : List UInt8) : List UInt8 := chars "GET " ++ uri ++ chars " " ++ rest

/-- A request of HTTP/1 for the URI `uri`. Its only blank line is its end. -/
structure Http1Request where
  uri : List UInt8
  rest : List UInt8
  uri_plain : ∀ b ∈ uri, b ≠ 32 ∧ b ≠ 13 ∧ b ≠ 10 ∧ b ≠ 0
  nonzero : 0 ∉ getText uri rest
  length_le : (getText uri rest).length ≤ reqBufsize
  ends : blankLine <:+ getText uri rest
  ends_once : ∀ p, blankLine <+: (getText uri rest).drop p →
    p + blankLine.length = (getText uri rest).length

namespace Http1Request

/-- The bytes of the request. -/
def text (r : Http1Request) : List UInt8 := getText r.uri r.rest

variable (r : Http1Request)

theorem text_eq : r.text = chars "GET " ++ (r.uri ++ chars " " ++ r.rest) := by
  simp [text, getText]

theorem take_text : r.text.take 4 = chars "GET " := by
  rw [text_eq, List.take_left' (by decide)]

theorem drop_text : r.text.drop 4 = r.uri ++ chars " " ++ r.rest := by
  rw [text_eq, List.drop_left' (by decide)]

theorem length_lt : r.text.length < 65536 :=
  Nat.lt_of_le_of_lt r.length_le (by decide)

/-- The blank line is behind the request line. -/
theorem blankLine_suffix_rest : blankLine <:+ r.rest := by
  have hspace : 32 ∉ blankLine := by decide
  have hrest : 32 :: r.rest <:+ r.text := ⟨chars "GET " ++ r.uri, by simp [text, getText, chars]⟩
  rcases List.suffix_or_suffix_of_suffix r.ends hrest with hsuffix | hsuffix
  · rcases List.suffix_cons_iff.mp hsuffix with heq | hsuffix
    · exact absurd (heq ▸ List.mem_cons_self) hspace
    · exact hsuffix
  · exact absurd (hsuffix.mem List.mem_cons_self) hspace

theorem length_text : r.uri.length + 9 ≤ r.text.length := by
  have hblank : 4 ≤ r.rest.length := r.blankLine_suffix_rest.length_le
  have hget : (chars "GET ").length = 4 := by decide
  have hspace : (chars " ").length = 1 := by decide
  simp only [text, getText, List.length_append, hget, hspace]
  omega

/-- Where the blank line is. -/
theorem drop_blankLine : r.text.drop (r.text.length - 4) = blankLine :=
  (List.suffix_iff_eq_drop.mp r.ends).symm

end Http1Request

/-! ## What is parsed -/

/-- The parser gets the bytes of the queue and their number. -/
theorem requestData_spec (o : Oracle) {req : List Pbuf} (reqBuf : Mem)
    (hle : (pbufBytes req).length ≤ reqBufsize) :
    (requestData o req reqBuf).2.1 = (pbufBytes req).length ∧
      bytes (requestData o req reqBuf).1 (pbufBytes req).length = pbufBytes req := by
  have hlt : (pbufBytes req).length < 65536 := Nat.lt_of_le_of_lt hle (by decide)
  unfold requestData
  split
  next q =>
    have hone : pbufBytes [q] = q.payload := by simp [pbufBytes]
    rw [hone] at hlt ⊢
    exact ⟨u16_of_lt hlt, by rw [bytes_ofList _ _ _ (Nat.le_refl _), List.take_length]⟩
  next =>
    have hlen : min (totLen req) reqBufsize = (pbufBytes req).length := by
      rw [totLen, u16_of_lt hlt, Nat.min_eq_left hle]
    refine ⟨hlen, ?_⟩
    simp only [hlen, pbufCopyPartial, List.take_length]
    rw [bytes_ofList _ _ _ (Nat.le_refl _), List.take_length]

/-- An occurrence in memory is an occurrence in the bytes there. -/
theorem occurs_of_bytes {data : Mem} {ys token : List UInt8} (hbytes : bytes data ys.length = ys)
    {p : Nat} (hle : p + token.length ≤ ys.length) :
    bytes (shift data p) token.length = token ↔ token <+: ys.drop p := by
  rw [← take_drop_bytes data hle, hbytes, List.prefix_iff_eq_take, eq_comm]

/-- Without a blank line the parser waits for more. -/
theorem httpParseData_incomplete {data : Mem} {ys : List UInt8} (hbytes : bytes data ys.length = ys)
    (hget : 4 ≤ ys.length → ys.take 4 = chars "GET ")
    (hnot : ∀ p, ¬ blankLine <+: ys.drop p) : httpParseData data ys.length = .incomplete := by
  have hnone : strnstr data (crlf ++ crlf) ys.length = none := by
    refine strnstr_none (by decide) fun p hle hmatch => hnot p ?_
    exact (occurs_of_bytes hbytes hle).mp hmatch
  unfold httpParseData
  split
  next hmin =>
    have hfour : 4 ≤ ys.length := Nat.le_trans (by decide) hmin
    have hmethod : bytes data 4 = chars "GET " := by rw [bytes_take hbytes hfour, hget hfour]
    split
    next => rfl
    next =>
      rw [if_pos hmethod, hnone]
      dsimp only
      split <;> rfl
  next => rfl

section Whole

variable (r : Http1Request) {data : Mem} (hbytes : bytes data r.text.length = r.text)
include hbytes

theorem data_ne_zero {j : Nat} (hlt : j < r.text.length) : data j ≠ 0 := by
  intro hzero
  have hmem := mem_bytes data hlt
  rw [hbytes, hzero] at hmem
  exact r.nonzero hmem

/-- What begins the blank line is found. -/
theorem strnstr_blankLine (token : List UInt8) (htoken : token ≠ []) (hstart : token <+: blankLine) :
    (strnstr data token r.text.length).isSome := by
  have hlength := r.length_text
  have hle : token.length ≤ 4 := hstart.length_le
  have hend : r.text.length - 4 + token.length ≤ r.text.length := by omega
  refine strnstr_isSome htoken hend (fun j hj => data_ne_zero r hbytes (by omega)) ?_
  rw [occurs_of_bytes hbytes hend, r.drop_blankLine]
  exact hstart

theorem bytes_behind_method : bytes (shift data 4) (r.text.length - 4) =
    r.uri ++ chars " " ++ r.rest := by
  rw [← r.drop_text, ← List.length_drop]
  exact bytes_drop hbytes 4

/-- The URI ends at the first space behind the method. -/
theorem strnstr_space :
    strnstr (shift data 4) (chars " ") (r.text.length - 4) = some r.uri.length := by
  have hlength := r.length_text
  have hspace : (chars " ").length = 1 := by decide
  have hbehind := bytes_behind_method r hbytes
  have hend : (r.uri ++ chars " " ++ r.rest).length = r.text.length - 4 := by
    rw [← r.drop_text, List.length_drop]
  rw [← hend] at hbehind ⊢
  refine strnstr_first (by decide) (by simp [hspace]) ?_ ?_ ?_
  · exact fun j hj => data_ne_zero r hbytes (by omega)
  · rw [occurs_of_bytes hbehind (by simp [hspace]), List.append_assoc, List.drop_left]
    exact List.prefix_append ..
  · intro j hj hmatch
    rw [occurs_of_bytes hbehind (by simp [hspace]; omega), List.append_assoc,
      List.drop_append_of_le_length (Nat.le_of_lt hj), List.drop_eq_getElem_cons hj] at hmatch
    have hbyte : (32 : UInt8) = r.uri[j] := (List.cons_prefix_cons.mp hmatch).1
    exact (r.uri_plain _ (List.getElem_mem hj)).1 hbyte.symm

/-- On the whole request the parser finds the URI. -/
theorem httpParseData_dispatch :
    httpParseData data r.text.length = .dispatch r.uri.length false := by
  have hlength := r.length_text
  have hlt := r.length_lt
  have hmin : minReqLen ≤ r.text.length := by
    simp only [minReqLen]
    omega
  have hmethod : bytes data 4 = chars "GET " := by
    rw [bytes_take hbytes (by omega), r.take_text]
  have hline := Option.isSome_iff_exists.mp
    (strnstr_blankLine r hbytes crlf (by decide) ⟨crlf, rfl⟩)
  have hblank := strnstr_blankLine r hbytes (crlf ++ crlf) (by decide) ⟨[], rfl⟩
  obtain ⟨q, hline⟩ := hline
  have hleft : u16 (r.text.length - 4) = r.text.length - 4 := u16_of_lt (by omega)
  have huri : u16 r.uri.length = r.uri.length := u16_of_lt (by omega)
  simp only [httpParseData, if_pos hmin, hline, if_pos hmethod, hleft, strnstr_space r hbytes,
    if_pos hblank, huri]

theorem requestUri_eq : cstr (bytes (shift data 4) r.uri.length) = r.uri := by
  have hlength := r.length_text
  have hzero : 0 ∉ r.uri := fun hmem => (r.uri_plain 0 hmem).2.2.2 rfl
  have hbehind : bytes (shift data 4) (r.text.drop 4).length = r.text.drop 4 := bytes_drop hbytes 4
  rw [r.drop_text, List.append_assoc] at hbehind
  rw [bytes_front hbehind (List.prefix_append ..), cstr_eq_self hzero]

end Whole

end Meu1oARM
