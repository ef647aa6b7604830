import Meu1oARM.Httpd.HeaderBlock
import Meu1oARM.Httpd.PostReaction

/-! # The header of a POST

The length of the body is read behind the first `Content-Length: ` in the header, also when that
stands inside the name of another field.
-/

namespace Meu1oARM

open Machine CString

/-! ## First occurrences -/

/-- `token` occurs in `xs` at `q`, and nowhere before. -/
structure FirstIn (token xs : List UInt8) (q : Nat) : Prop where
  occurs : token <+: xs.drop q
  first : ∀ j < q, ¬ token <+: xs.drop j

namespace FirstIn

variable {token xs : List UInt8} {p q : Nat}

theorem unique (hp : FirstIn token xs p) (hq : FirstIn token xs q) : p = q := by
  rcases Nat.lt_trichotomy p q with hlt | heq | hlt
  · exact absurd hp.occurs (hq.first p hlt)
  · exact heq
  · exact absurd hq.occurs (hp.first q hlt)

theorem le (h : FirstIn token xs q) (htoken : token ≠ []) : q + token.length ≤ xs.length := by
  have hlength := h.occurs.length_le
  have hpos := List.length_pos_of_ne_nil htoken
  rw [List.length_drop] at hlength
  omega

end FirstIn

theorem exists_firstIn {token xs : List UInt8} (h : token <:+: xs) : ∃ q, FirstIn token xs q := by
  have hex := infix_iff_drop.mp h
  exact ⟨Nat.find hex, Nat.find_spec hex, fun j hj => Nat.find_min hex hj⟩

/-- Behind bytes without a line end, a line end is found further on. -/
theorem crlf_infix_append {xs ys : List UInt8} (hxs : 13 ∉ xs) (h : crlf <:+: xs ++ ys) :
    crlf <:+: ys := by
  induction xs with
  | nil => exact h
  | cons b xs ih =>
      rw [List.mem_cons, not_or] at hxs
      rw [List.cons_append, List.infix_cons_iff] at h
      rcases h with hstart | hbehind
      · exact absurd (List.cons_prefix_cons.mp hstart).1 hxs.1
      · exact ih hxs.2 hbehind

section Memory

variable {data : Mem} {xs token : List UInt8} {q : Nat}

/-- `strnstr` finds the first occurrence if it lies within the bound, and nothing else. -/
theorem strnstr_of_first (hbytes : bytes data xs.length = xs) (hzero : 0 ∉ xs) (htoken : token ≠ [])
    (h : FirstIn token xs q) (n : Nat) :
    strnstr data token n = if q + token.length ≤ n then some q else none := by
  have hle := h.le htoken
  have hpos := List.length_pos_of_ne_nil htoken
  have hbefore : ∀ j < q, bytes (shift data j) token.length ≠ token := by
    intro j hj hmatch
    exact h.first j hj ((occurs_of_bytes hbytes (by omega)).mp hmatch)
  split
  next hin =>
    refine strnstr_first htoken hin (fun j hj hdata => hzero ?_)
      ((occurs_of_bytes hbytes hle).mpr h.occurs) hbefore
    have hmem := mem_bytes data (by omega : j < xs.length)
    rwa [hbytes, hdata] at hmem
  next hout =>
    apply strnstr_none htoken
    intro p hp hmatch
    exact hbefore p (by omega) hmatch

end Memory

/-! ## A POST -/

/-- A request line for a POST to `uri` and what follows it. -/
def postText (uri rest : List UInt8) : List UInt8 := chars "POST " ++ uri ++ chars " " ++ rest

/-- The header of a POST for the URI `uri`, with a line that announces a body. Its only blank line
is its end. -/
structure PostRequest where
  uri : List UInt8
  rest : List UInt8
  digits : List UInt8
  uri_plain : ∀ b ∈ uri, b ≠ 32 ∧ b ≠ 13 ∧ b ≠ 10 ∧ b ≠ 0
  nonzero : 0 ∉ postText uri rest
  length_le : (postText uri rest).length ≤ reqBufsize
  ends : blankLine <:+ postText uri rest
  ends_once : ∀ p, blankLine <+: (postText uri rest).drop p →
    p + blankLine.length = (postText uri rest).length
  line : crlf ++ Post.httpHdrContentLen ++ digits ++ crlf <:+: rest
  digits_length : digits.length ≤ 8
  digits_plain : ∀ b ∈ digits, isDigit b
  positive : 0 < readDigits 0 digits

/-- The first `Content-Length: ` in the header fields, wherever it stands, is followed by a line end
after at most 8 bytes, and these read as `n`. -/
def FirstLength (rest : List UInt8) (n : Nat) : Prop :=
  ∃ p q, FirstIn Post.httpHdrContentLen rest p ∧
    FirstIn crlf (rest.drop (p + Post.httpHdrContentLen.length)) q ∧
      q + crlf.length ≤ Post.httpHdrContentLenDigitMaxLen ∧
        atoi ((rest.drop (p + Post.httpHdrContentLen.length)).take q) = n

theorem FirstLength.unique {rest : List UInt8} {m n : Nat} (hm : FirstLength rest m)
    (hn : FirstLength rest n) : m = n := by
  obtain ⟨p, q, hp, hq, -, hread⟩ := hm
  obtain ⟨p', q', hp', hq', -, hread'⟩ := hn
  obtain rfl := hp.unique hp'
  obtain rfl := hq.unique hq'
  exact_mod_cast hread.symm.trans hread'

theorem length_postText (uri rest : List UInt8) :
    (postText uri rest).length = 5 + uri.length + 1 + rest.length := by
  have hpost : (chars "POST ").length = 5 := by decide
  have hspace : (chars " ").length = 1 := by decide
  simp only [postText, List.length_append, hpost, hspace]

theorem drop_postText_uri (uri rest : List UInt8) :
    (postText uri rest).drop 5 = uri ++ chars " " ++ rest := by
  simp only [postText, List.append_assoc]
  exact List.drop_left' (by decide)

theorem drop_postText_rest (uri rest : List UInt8) :
    (postText uri rest).drop (5 + uri.length + 1) = rest := by
  have hlength : (chars "POST " ++ uri ++ chars " ").length = 5 + uri.length + 1 := by
    have hpost : (chars "POST ").length = 5 := by decide
    have hspace : (chars " ").length = 1 := by decide
    simp only [List.length_append, hpost, hspace]
  exact List.drop_left' hlength

namespace PostRequest

variable (r : PostRequest)

/-- The bytes of the header. -/
def text : List UInt8 := postText r.uri r.rest

/-- The length of the body. -/
def contentLen : Nat := readDigits 0 r.digits

theorem uri_line : 13 ∉ chars "POST " ++ r.uri ++ chars " " := by
  have huri : 13 ∉ r.uri := fun hmem => (r.uri_plain 13 hmem).2.1 rfl
  simp only [List.mem_append, not_or]
  exact ⟨⟨by decide, huri⟩, by decide⟩

/-- The blank line is behind the request line. -/
theorem blankLine_suffix_rest : blankLine <:+ r.rest := by
  have hspace : 32 ∉ blankLine := by decide
  have hrest : 32 :: r.rest <:+ r.text := ⟨chars "POST " ++ r.uri, by simp [text, postText, chars]⟩
  rcases List.suffix_or_suffix_of_suffix r.ends hrest with hsuffix | hsuffix
  · rcases List.suffix_cons_iff.mp hsuffix with heq | hsuffix
    · exact absurd (heq ▸ List.mem_cons_self) hspace
    · exact hsuffix
  · exact absurd (hsuffix.mem List.mem_cons_self) hspace

theorem rest_nonzero : 0 ∉ r.rest := fun hmem =>
  r.nonzero (List.mem_append_right _ hmem)

/-- The header ends with the first blank line in its fields. -/
theorem firstIn_blankLine : FirstIn blankLine r.rest (r.rest.length - 4) := by
  refine ⟨?_, fun j hj hoccurs => ?_⟩
  · have hdrop : blankLine = r.rest.drop (r.rest.length - 4) :=
      List.suffix_iff_eq_drop.mp r.blankLine_suffix_rest
    rw [← hdrop]
  · have hdrop : (postText r.uri r.rest).drop (5 + r.uri.length + 1 + j) = r.rest.drop j := by
      rw [← List.drop_drop, drop_postText_rest]
    have hend := r.ends_once (5 + r.uri.length + 1 + j) (hdrop ▸ hoccurs)
    rw [length_postText] at hend
    have hblank : blankLine.length = 4 := by decide
    omega

/-- The text of the length ends in front of the blank line. -/
theorem firstIn_length {p : Nat} (hp : FirstIn Post.httpHdrContentLen r.rest p) :
    p + Post.httpHdrContentLen.length ≤ r.rest.length - 4 := by
  have hle := hp.le (by decide)
  have hsixteen : Post.httpHdrContentLen.length = 16 := by decide
  by_contra hlate
  -- otherwise the carriage return of the blank line is a byte of the text
  have hcr : 13 ∈ Post.httpHdrContentLen := by
    obtain ⟨behind, hbehind⟩ := r.firstIn_blankLine.occurs
    have hblank := r.blankLine_suffix_rest.length_le
    have hfour : blankLine.length = 4 := by decide
    have hget : (r.rest.drop p)[r.rest.length - 4 - p]? = some 13 := by
      rw [List.getElem?_drop, Nat.add_sub_cancel' (by omega), ← Nat.add_zero (r.rest.length - 4),
        ← List.getElem?_drop, ← hbehind]
      rfl
    obtain ⟨t, ht⟩ := hp.occurs
    rw [← ht, List.getElem?_append_left (by omega)] at hget
    exact List.mem_of_getElem? hget
  exact absurd hcr (by decide)

theorem exists_firstIn_length : ∃ p, FirstIn Post.httpHdrContentLen r.rest p :=
  exists_firstIn (List.IsInfix.trans ⟨crlf, r.digits ++ crlf, by simp⟩ r.line)

/-- Behind the length there is a line end. -/
theorem exists_firstIn_end {p : Nat} (hp : FirstIn Post.httpHdrContentLen r.rest p) :
    ∃ q, FirstIn crlf (r.rest.drop (p + Post.httpHdrContentLen.length)) q := by
  apply exists_firstIn
  have hdrop : blankLine = r.rest.drop (r.rest.length - 4) :=
    List.suffix_iff_eq_drop.mp r.blankLine_suffix_rest
  have hsuffix : blankLine <:+ r.rest.drop (p + Post.httpHdrContentLen.length) := by
    rw [hdrop]
    exact List.drop_suffix_drop_left _ (r.firstIn_length hp)
  have hline : crlf <:+: blankLine := ⟨[], crlf, rfl⟩
  exact hline.trans hsuffix.isInfix

end PostRequest

/-! ## What the parser makes of it -/

namespace Post

section Whole

variable {data : Mem} {uri rest : List UInt8} {n : Nat}

/-- The parser finds the URI of a POST, and waits for the blank line. -/
theorem httpParseData_postText (hbytes : bytes data (postText uri rest).length = postText uri rest)
    (hspace : 32 ∉ uri) (hzero : 0 ∉ postText uri rest) (hline : crlf <:+: rest)
    (hle : (postText uri rest).length ≤ n) (hlt : n < 65536) :
    httpParseData data n =
      if (strnstr data (crlf ++ crlf) n).isSome then .post uri.length else .other .incomplete := by
  have hlength := length_postText uri rest
  have htwo : 2 ≤ rest.length := hline.length_le
  have hstart : ∀ k ≤ 5, bytes data k = (chars "POST ").take k := by
    intro k hk
    have htake : (postText uri rest).take k = (chars "POST ").take k := by
      simp only [postText, List.append_assoc]
      exact List.take_append_of_le_length hk
    rw [bytes_take hbytes (by omega), htake]
  obtain ⟨q, hq⟩ : ∃ q, FirstIn crlf (postText uri rest) q :=
    exists_firstIn (hline.trans (List.suffix_append _ _).isInfix)
  have hend : strnstr data crlf n = some q := by
    have hq' := hq.le (by decide)
    rw [strnstr_of_first hbytes hzero (by decide) hq, if_pos (by omega)]
  -- the parser of GET requests does not know the method
  have hbad : Meu1oARM.httpParseData data n = .badMethod := by
    have hmin : minReqLen ≤ n := by
      simp only [minReqLen]
      omega
    have hget : bytes data 4 ≠ chars "GET " := by
      rw [hstart 4 (by decide)]
      decide
    rw [Meu1oARM.httpParseData, if_pos hmin, hend]
    dsimp only
    rw [if_neg hget]
  have huri : strnstr (shift data 5) (chars " ") (u16 (n - 5)) = some uri.length := by
    have hbehind := bytes_drop hbytes 5
    rw [drop_postText_uri] at hbehind
    -- no space stands in the URI
    have hfirst : FirstIn (chars " ") (uri ++ chars " " ++ rest) uri.length := by
      constructor
      · rw [List.append_assoc, List.drop_left]
        exact List.prefix_append _ _
      · intro j hj hoccurs
        rw [List.append_assoc, List.drop_append_of_le_length (Nat.le_of_lt hj),
          List.drop_eq_getElem_cons hj] at hoccurs
        have hbyte : (32 : UInt8) = uri[j] := (List.cons_prefix_cons.mp hoccurs).1
        exact hspace (hbyte ▸ List.getElem_mem hj)
    have hzero' : 0 ∉ uri ++ chars " " ++ rest := by
      rw [← drop_postText_uri]
      exact fun hmem => hzero (List.mem_of_mem_drop hmem)
    have hone : (chars " ").length = 1 := by decide
    rw [strnstr_of_first hbehind hzero' (by decide) hfirst, u16_of_lt (by omega), if_pos (by omega)]
  have hpost : bytes data 5 = chars "POST " := hstart 5 (Nat.le_refl 5)
  rw [httpParseData, hbad]
  dsimp only
  rw [if_pos hpost, huri]
  dsimp only
  rw [u16_of_lt (by omega)]

end Whole

variable (r : PostRequest) {data : Mem}

/-- A first part of the header is not complete. -/
theorem httpParseData_part {xs : List UInt8} (hbytes : bytes data xs.length = xs)
    (hpart : xs <+: r.text) (hne : xs ≠ r.text) :
    httpParseData data xs.length = .other .incomplete := by
  have hsize : xs.length < 65536 :=
    Nat.lt_of_le_of_lt (Nat.le_trans hpart.length_le r.length_le) (by decide)
  have hzero : 0 ∉ xs := fun hmem => r.nonzero (hpart.subset hmem)
  have hblank : strnstr data (crlf ++ crlf) xs.length = none := by
    refine strnstr_none (by decide) fun p hle hmatch => ?_
    obtain ⟨t, ht⟩ := hpart
    have hfour : (crlf ++ crlf).length = 4 := by decide
    have hoccurs : blankLine <+: r.text.drop p := by
      rw [← ht, List.drop_append_of_le_length (by omega)]
      exact List.prefix_append_of_prefix ((occurs_of_bytes hbytes hle).mp hmatch)
    have hend : p + 4 = r.text.length := r.ends_once p hoccurs
    apply hne
    rw [← ht] at hend ⊢
    rw [List.length_append] at hend
    rw [List.eq_nil_of_length_eq_zero (by omega : t.length = 0), List.append_nil]
  by_cases hline : crlf <:+: xs
  · -- the line end is behind the URI
    obtain ⟨rest, rfl⟩ : ∃ rest, xs = postText r.uri rest := by
      rcases List.prefix_or_prefix_of_prefix hpart (List.prefix_append _ r.rest) with hshort | hlong
      · have hcr : (13 : UInt8) ∈ xs := hline.mem (by decide)
        exact absurd (hshort.subset hcr) r.uri_line
      · obtain ⟨rest, hrest⟩ := hlong
        exact ⟨rest, hrest.symm⟩
    have hspace : 32 ∉ r.uri := fun hmem => (r.uri_plain 32 hmem).1 rfl
    rw [httpParseData_postText hbytes hspace hzero (crlf_infix_append r.uri_line hline)
      (Nat.le_refl _) hsize, hblank]
    rfl
  · have hend : strnstr data crlf xs.length = none := by
      have hnone : ¬ (strnstr data crlf xs.length).isSome := by
        rw [strnstr_bytes_isSome crlf hbytes (by decide) (by decide), cstr_eq_self hzero]
        exact hline
      simpa using hnone
    have hincomplete : Meu1oARM.httpParseData data xs.length = .incomplete := by
      unfold Meu1oARM.httpParseData
      split
      · rw [hend]
      · rfl
    rw [httpParseData, hincomplete]

section Complete

variable (hbytes : bytes data r.text.length = r.text) {n : Nat} (hle : r.text.length ≤ n)
include hbytes hle

/-- With the whole header the parser finds the URI of the POST. -/
theorem httpParseData_post (hlt : n < 65536) : httpParseData data n = .post r.uri.length := by
  have hspace : 32 ∉ r.uri := fun hmem => (r.uri_plain 32 hmem).1 rfl
  have hline : crlf <:+: r.rest := by
    have hblank : crlf <:+: blankLine := ⟨[], crlf, rfl⟩
    exact hblank.trans r.blankLine_suffix_rest.isInfix
  obtain ⟨q, hq⟩ := exists_firstIn r.ends.isInfix
  have hq' := hq.le (by decide)
  have hend : strnstr data (crlf ++ crlf) n = some q := by
    have htext : blankLine.length = (crlf ++ crlf).length := rfl
    have hbound : q + (crlf ++ crlf).length ≤ n := Nat.le_trans (htext ▸ hq') hle
    exact (strnstr_of_first hbytes r.nonzero (by decide) hq n).trans (if_pos hbound)
  rw [httpParseData_postText hbytes hspace r.nonzero hline hle hlt, hend]
  rfl

/-- The header that is found announces what the first length in it reads as, if that is short
enough. -/
theorem httpPostHeader_post {p q : Nat} (hp : FirstIn httpHdrContentLen r.rest p)
    (hq : FirstIn crlf (r.rest.drop (p + httpHdrContentLen.length)) q) :
    httpPostHeader data n (5 + r.uri.length) =
      if q + crlf.length ≤ httpHdrContentLenDigitMaxLen then
        some
          { contentLen := atoi ((r.rest.drop (p + httpHdrContentLen.length)).take q)
            lenEnd := 5 + r.uri.length + 1 + p + httpHdrContentLen.length + q
            hdrLen := r.text.length
            hdrDataLen := r.rest.length }
      else none := by
  have hlength := length_postText r.uri r.rest
  have hblank := r.blankLine_suffix_rest.length_le
  have hfour : blankLine.length = 4 := by decide
  have htext : r.text.length = 5 + r.uri.length + 1 + r.rest.length := hlength
  have hrest := bytes_drop hbytes (5 + r.uri.length + 1)
  have hdrop : r.text.drop (5 + r.uri.length + 1) = r.rest := drop_postText_rest r.uri r.rest
  rw [hdrop] at hrest
  have hnum := bytes_drop hrest (p + httpHdrContentLen.length)
  rw [shift_shift, ← Nat.add_assoc] at hnum
  have hend : strnstr (shift data (5 + r.uri.length + 1)) (crlf ++ crlf)
      (n - (5 + r.uri.length + 1)) = some (r.rest.length - 4) := by
    refine (strnstr_of_first hrest r.rest_nonzero (by decide) r.firstIn_blankLine _).trans ?_
    exact if_pos (by omega)
  have hlen : strnstr (shift data (5 + r.uri.length + 1)) httpHdrContentLen (r.rest.length - 4) =
      some p := by
    rw [strnstr_of_first hrest r.rest_nonzero (by decide) hp, if_pos (r.firstIn_length hp)]
  have hzero : 0 ∉ r.rest.drop (p + httpHdrContentLen.length) := fun hmem =>
    r.rest_nonzero (List.mem_of_mem_drop hmem)
  have hqle := hq.le (by decide)
  have htake : bytes (shift data (5 + r.uri.length + 1 + p + httpHdrContentLen.length)) q =
      (r.rest.drop (p + httpHdrContentLen.length)).take q := by
    have hpart := bytes_front hnum (List.take_prefix q _)
    rwa [List.length_take, Nat.min_eq_left (by omega)] at hpart
  simp only [httpPostHeader, hend, hlen]
  rw [strnstr_of_first hnum hzero (by decide) hq]
  by_cases hshort : q + crlf.length ≤ httpHdrContentLenDigitMaxLen
  · rw [if_pos hshort, if_pos hshort]
    dsimp only
    rw [htake, Nat.min_eq_right (by omega), Nat.min_eq_right (by omega)]
    congr 2
    · omega
    · omega
  · rw [if_neg hshort, if_neg hshort]

/-- The header ends where the body begins. -/
theorem hdrLen_eq {h : Header} (hfound : httpPostHeader data n (5 + r.uri.length) = some h) :
    h.hdrLen = r.text.length := by
  obtain ⟨p, hp⟩ := r.exists_firstIn_length
  obtain ⟨q, hq⟩ := r.exists_firstIn_end hp
  rw [httpPostHeader_post r hbytes hle hp hq] at hfound
  split at hfound
  · obtain rfl := Option.some.inj hfound
    rfl
  · cases hfound

/-- The application is told of `m` bytes if and only if the first length in the header reads so. -/
theorem httpPostHeader_iff (m : Nat) :
    (∃ h, httpPostHeader data n (5 + r.uri.length) = some h ∧ h.contentLen = m) ↔
      FirstLength r.rest m := by
  obtain ⟨p, hp⟩ := r.exists_firstIn_length
  obtain ⟨q, hq⟩ := r.exists_firstIn_end hp
  rw [httpPostHeader_post r hbytes hle hp hq]
  constructor
  · rintro ⟨h, hfound, hm⟩
    split at hfound
    next hshort =>
      obtain rfl := Option.some.inj hfound
      exact ⟨p, q, hp, hq, hshort, hm⟩
    next => cases hfound
  · rintro ⟨p', q', hp', hq', hshort, hm⟩
    obtain rfl := hp.unique hp'
    obtain rfl := hq.unique hq'
    rw [if_pos hshort]
    exact ⟨_, rfl, hm⟩

end Complete

/-! ## The queue of the header -/

section Queue

variable (o : Oracle) (reqBuf : Mem) {req : List Pbuf}

theorem requestParsed_part (hpart : pbufBytes req <+: r.text) (hne : pbufBytes req ≠ r.text) :
    requestParsed o req reqBuf = .other .incomplete := by
  have hsize : (pbufBytes req).length ≤ reqBufsize := Nat.le_trans hpart.length_le r.length_le
  obtain ⟨hlength, hbytes⟩ :=
    requestData_parsedBytes o reqBuf (Nat.lt_of_le_of_lt hsize (by decide))
  rw [parsedBytes_of_short hsize] at hlength hbytes
  rw [requestParsed, hlength]
  exact httpParseData_part r hbytes hpart hne

variable (htext : r.text <+: pbufBytes req) (hsize : (pbufBytes req).length < 65536)
include htext hsize

/-- The shared buffer is large enough for the header. -/
theorem requestData_text :
    bytes (requestData o req reqBuf).1 r.text.length = r.text ∧
      r.text.length ≤ (requestData o req reqBuf).2.1 ∧ (requestData o req reqBuf).2.1 < 65536 := by
  obtain ⟨hlength, hbytes⟩ := requestData_parsedBytes o reqBuf hsize
  have hparsed : r.text <+: parsedBytes req := by
    unfold parsedBytes
    split
    next q => simpa [pbufBytes] using htext
    next => exact List.prefix_take_iff.mpr ⟨htext, r.length_le⟩
  rw [hlength]
  exact ⟨bytes_front hbytes hparsed, hparsed.length_le,
    Nat.lt_of_le_of_lt (length_parsedBytes_le req) hsize⟩

theorem requestParsed_post : requestParsed o req reqBuf = .post r.uri.length := by
  obtain ⟨hbytes, hle, hlt⟩ := requestData_text r o reqBuf htext hsize
  exact httpParseData_post r hbytes hle hlt

theorem requestHeader_iff (m : Nat) :
    (∃ h, requestHeader o req reqBuf r.uri.length = some h ∧ h.contentLen = m) ↔
      FirstLength r.rest m := by
  obtain ⟨hbytes, hle, -⟩ := requestData_text r o reqBuf htext hsize
  exact httpPostHeader_iff r hbytes hle m

theorem requestHeader_hdrLen {h : Header}
    (hfound : requestHeader o req reqBuf r.uri.length = some h) : h.hdrLen = r.text.length := by
  obtain ⟨hbytes, hle, -⟩ := requestData_text r o reqBuf htext hsize
  exact hdrLen_eq r hbytes hle hfound

end Queue

/-! ## The buffers of the header -/

@[simp] theorem hideHeader_ids (n : Nat) (q : List Pbuf) :
    (hideHeader n q).map Pbuf.id = q.map Pbuf.id := by
  cases q with
  | nil => rfl
  | cons b q => rfl

/-- What is left behind the buffers of the header, with the rest of the header hidden, are the
bytes behind the header. -/
theorem skipHeader_spec {n : Nat} {req heads q : List Pbuf} {startOffset : Nat}
    (h : skipHeader n req = (heads, startOffset, q)) :
    heads ++ q = req ∧ pbufBytes (hideHeader startOffset q) = (pbufBytes req).drop n := by
  induction req generalizing n heads with
  | nil =>
      obtain ⟨rfl, rfl, rfl⟩ : heads = [] ∧ startOffset = n ∧ q = [] := by
        simpa [skipHeader, eq_comm] using h
      exact ⟨rfl, by simp [hideHeader, pbufBytes]⟩
  | cons b req ih =>
      have hbytes : pbufBytes (b :: req) = b.payload ++ pbufBytes req := rfl
      rw [skipHeader] at h
      split at h
      next hle =>
        obtain ⟨heads', off, q', hskip⟩ : ∃ heads' off q',
            skipHeader (n - b.payload.length) req = (heads', off, q') := ⟨_, _, _, rfl⟩
        rw [hskip] at h
        obtain ⟨rfl, rfl, rfl⟩ : b :: heads' = heads ∧ off = startOffset ∧ q' = q := by
          simpa using h
        obtain ⟨hsplit, hbehind⟩ := ih hskip
        refine ⟨by rw [List.cons_append, hsplit], ?_⟩
        rw [hbehind, hbytes, List.drop_append, List.drop_eq_nil_of_le hle, List.nil_append]
      next hlong =>
        obtain ⟨rfl, rfl, rfl⟩ : heads = [] ∧ startOffset = n ∧ q = b :: req := by
          simpa [eq_comm] using h
        refine ⟨rfl, ?_⟩
        rw [hbytes, List.drop_append_of_le_length (by omega)]
        rfl

end Post

end Meu1oARM
