import Mathlib.Data.Nat.Find
import Mathlib.Tactic.IntervalCases
import Meu1oARM.Httpd.Arrival
import Meu1oARM.Httpd.Receive

/-! # The request line

Every search of the parser goes through the whole of the received data, as far as a null
byte. So the end of the URI can lie in a header line.
-/

namespace Meu1oARM

open Machine CString

/-! ## Searching in the bytes of a request -/

section Search

variable {data : Mem} {ys token : List UInt8}

theorem cstr_isPrefix (ys : List UInt8) : cstr ys <+: ys := List.takeWhile_prefix _

/-- An occurrence in front of the first null byte is one without a null byte before it. -/
theorem occurs_in_cstr_iff (htoken : token ≠ []) (hzero : 0 ∉ token) {q : Nat} :
    token <+: (cstr ys).drop q ↔ 0 ∉ ys.take q ∧ token <+: ys.drop q := by
  constructor
  · intro h
    have hlength : q < (cstr ys).length := by
      have hle := h.length_le
      have hpos := List.length_pos_of_ne_nil htoken
      rw [List.length_drop] at hle
      omega
    obtain ⟨rest, hrest⟩ := cstr_isPrefix ys
    have hle := Nat.le_of_lt hlength
    constructor
    · rw [← hrest, List.take_append_of_le_length hle]
      exact fun hmem => zero_notMem_cstr ys (List.mem_of_mem_take hmem)
    · rw [← hrest, List.drop_append_of_le_length hle]
      exact h.trans (List.prefix_append _ _)
  · rintro ⟨hbefore, rest, hrest⟩
    have hlength : (ys.take q).length = q := by
      have hpos := List.length_pos_of_ne_nil htoken
      have hdrop := congrArg List.length hrest
      rw [List.length_append, List.length_drop] at hdrop
      rw [List.length_take]
      omega
    have hsplit : cstr ys = ys.take q ++ (token ++ cstr rest) := by
      rw [← cstr_append hzero, ← cstr_append hbefore, hrest, List.take_append_drop]
    rw [hsplit, List.drop_left' hlength]
    exact List.prefix_append _ _

/-- `strnstr` finds what occurs first in front of the first null byte. -/
theorem strnstr_bytes_iff (hbytes : bytes data ys.length = ys) (htoken : token ≠ [])
    (hzero : 0 ∉ token) {q : Nat} :
    strnstr data token ys.length = some q ↔
      token <+: (cstr ys).drop q ∧ ∀ j < q, ¬ token <+: (cstr ys).drop j := by
  have hpos := List.length_pos_of_ne_nil htoken
  rw [strnstr_eq_some_iff htoken]
  constructor
  · rintro ⟨hle, hnonzero, hmatch, hfirst⟩
    have hbefore : 0 ∉ ys.take q := by
      rw [← bytes_take hbytes (by omega : q ≤ ys.length), bytes, List.mem_map]
      rintro ⟨j, hj, hzero'⟩
      exact hnonzero j (Nat.le_of_lt (List.mem_range.mp hj)) hzero'
    refine ⟨(occurs_in_cstr_iff htoken hzero).mpr
      ⟨hbefore, (occurs_of_bytes hbytes hle).mp hmatch⟩, fun j hj hoccurs => ?_⟩
    apply hfirst j hj
    exact (occurs_of_bytes hbytes (by omega)).mpr ((occurs_in_cstr_iff htoken hzero).mp hoccurs).2
  · rintro ⟨hoccurs, hfirst⟩
    obtain ⟨hbefore, hfront⟩ := (occurs_in_cstr_iff htoken hzero).mp hoccurs
    have hle : q + token.length ≤ ys.length := by
      have hlength := hfront.length_le
      rw [List.length_drop] at hlength
      omega
    have hmatch := (occurs_of_bytes hbytes hle).mpr hfront
    refine ⟨hle, fun j hj hdata => ?_, hmatch, fun j hj hmatch' => ?_⟩
    · rcases Nat.lt_or_eq_of_le hj with hlt | rfl
      · apply hbefore
        rw [← bytes_take hbytes (by omega : q ≤ ys.length), ← hdata]
        exact mem_bytes data hlt
      · apply hzero
        have hmem := mem_bytes (shift data j) hpos
        rwa [hmatch, shift, Nat.add_zero, hdata] at hmem
    · apply hfirst j hj
      rw [occurs_in_cstr_iff htoken hzero]
      refine ⟨fun hmem => hbefore ?_, (occurs_of_bytes hbytes (by omega)).mp hmatch'⟩
      exact (List.take_prefix_take_left (Nat.le_of_lt hj)).subset hmem

theorem infix_iff_drop {l : List UInt8} : token <:+: l ↔ ∃ q, token <+: l.drop q := by
  constructor
  · rintro ⟨before, after, heq⟩
    exact ⟨before.length, after, by rw [← heq, List.append_assoc, List.drop_left]⟩
  · rintro ⟨q, hq⟩
    exact hq.isInfix.trans (List.drop_suffix q _).isInfix

variable (token) in
theorem strnstr_bytes_isSome (hbytes : bytes data ys.length = ys) (htoken : token ≠ [])
    (hzero : 0 ∉ token) : (strnstr data token ys.length).isSome ↔ token <:+: cstr ys := by
  rw [infix_iff_drop, Option.isSome_iff_exists]
  constructor
  · rintro ⟨q, hq⟩
    exact ⟨q, ((strnstr_bytes_iff hbytes htoken hzero).mp hq).1⟩
  · intro hex
    exact ⟨Nat.find hex, (strnstr_bytes_iff hbytes htoken hzero).mpr
      ⟨Nat.find_spec hex, fun j hj => Nat.find_min hex hj⟩⟩

end Search

/-! ## What the parser makes of the bytes -/

/-- What stands behind the method, up to a null byte. -/
def behindMethod (ys : List UInt8) : List UInt8 := cstr (ys.drop 4)

section Parser

variable {data : Mem} {ys : List UInt8} (hbytes : bytes data ys.length = ys)
  (hsize : ys.length < 65536)
include hbytes

theorem method_iff (hfour : 4 ≤ ys.length) :
    bytes data 4 = chars "GET " ↔ chars "GET " <+: ys := by
  have h : bytes (shift data 0) (chars "GET ").length = chars "GET " ↔
      chars "GET " <+: ys.drop 0 := occurs_of_bytes hbytes (by simpa [chars] using hfour)
  rwa [shift_zero, List.drop_zero] at h

omit hbytes in
/-- A line end in a request with the method stands behind the method. -/
theorem crlf_behind (hget : chars "GET " <+: ys) (hline : crlf <:+: cstr ys) :
    crlf <:+: behindMethod ys := by
  obtain ⟨behind, rfl⟩ := hget
  have hcstr : cstr (chars "GET " ++ behind) = chars "GET " ++ cstr behind :=
    cstr_append (by decide) _
  have hdrop : behindMethod (chars "GET " ++ behind) = cstr behind := by
    rw [behindMethod, List.drop_left' (by decide)]
  rw [hcstr, infix_iff_drop] at hline
  obtain ⟨q, hq⟩ := hline
  rw [hdrop, infix_iff_drop]
  by_cases hlt : q < 4
  · interval_cases q <;> simp [chars, crlf] at hq
  · refine ⟨q - 4, ?_⟩
    rwa [List.drop_append, List.drop_eq_nil_of_le (by simp [chars]; omega)] at hq

include hsize

/-- The decisions of the parser on a request with the method. -/
theorem httpParseData_get (hmin : minReqLen ≤ ys.length) (hline : crlf <:+: cstr ys)
    (hget : chars "GET " <+: ys) :
    ∃ uriLen is09,
      (if is09 = true then ¬ chars " " <:+: behindMethod ys ∧
            strnstr (shift data 4) crlf (ys.drop 4).length = some uriLen
        else strnstr (shift data 4) (chars " ") (ys.drop 4).length = some uriLen) ∧
      httpParseData data ys.length =
        if (strnstr data blankLine ys.length).isSome then .dispatch uriLen is09
        else .incomplete := by
  have hfour : 4 ≤ ys.length := Nat.le_trans (by decide) hmin
  have hmethod := (method_iff hbytes hfour).mpr hget
  have hbehind := bytes_drop hbytes 4
  have hleft : u16 (ys.length - 4) = (ys.drop 4).length := by
    rw [List.length_drop, u16_of_lt (by omega)]
  obtain ⟨end_, hend⟩ := Option.isSome_iff_exists.mp
    ((strnstr_bytes_isSome crlf hbytes (by decide) (by decide)).mpr hline)
  -- a position in the data fits 16 bits
  have hshort : ∀ {token : List UInt8} {q : Nat}, token ≠ [] →
      strnstr (shift data 4) token (ys.drop 4).length = some q → u16 q = q := by
    intro token q htoken hq
    have hle := (strnstr_some hq htoken).1
    rw [List.length_drop] at hle
    exact u16_of_lt (by omega)
  unfold httpParseData
  rw [if_pos hmin, hend]
  dsimp only
  rw [if_pos hmethod, hleft]
  cases hspace : strnstr (shift data 4) (chars " ") (ys.drop 4).length with
  | some q =>
      refine ⟨q, false, rfl, ?_⟩
      dsimp only
      rw [hshort (by decide) hspace]
      rfl
  | none =>
      -- without a space the URI ends with the line, as in HTTP/0.9
      obtain ⟨q, hq⟩ := Option.isSome_iff_exists.mp
        ((strnstr_bytes_isSome crlf hbehind (by decide) (by decide)).mpr
          (crlf_behind hget hline))
      refine ⟨q, true, ⟨?_, hq⟩, ?_⟩
      · intro hmem
        have hsome := (strnstr_bytes_isSome (chars " ") hbehind (by decide) (by decide)).mpr hmem
        rw [hspace] at hsome
        cases hsome
      · dsimp only
        rw [hq]
        dsimp only
        rw [hshort (by decide) hq]
        rfl

omit hsize in
theorem httpParseData_other (hmin : minReqLen ≤ ys.length) (hline : crlf <:+: cstr ys)
    (hget : ¬ chars "GET " <+: ys) : httpParseData data ys.length = .badMethod := by
  have hfour : 4 ≤ ys.length := Nat.le_trans (by decide) hmin
  have hmethod := (method_iff hbytes hfour).not.mpr hget
  obtain ⟨q, hq⟩ := Option.isSome_iff_exists.mp
    ((strnstr_bytes_isSome crlf hbytes (by decide) (by decide)).mpr hline)
  simp [httpParseData, hmin, hq, hmethod]

/-- The request stays pending when it is too short, when a null byte hides its line end, or, for
the method, its blank line. -/
theorem httpParseData_incomplete_iff :
    httpParseData data ys.length = .incomplete ↔
      ¬(minReqLen ≤ ys.length ∧ crlf <:+: cstr ys ∧
        (chars "GET " <+: ys → blankLine <:+: cstr ys)) := by
  by_cases hmin : minReqLen ≤ ys.length
  · by_cases hline : crlf <:+: cstr ys
    · by_cases hget : chars "GET " <+: ys
      · obtain ⟨uriLen, is09, -, hparse⟩ := httpParseData_get hbytes hsize hmin hline hget
        have hfound := strnstr_bytes_isSome blankLine hbytes (by decide) (by decide)
        rw [hparse]
        by_cases hblank : blankLine <:+: cstr ys
        · simp [hmin, hline, hfound.mpr hblank, hblank]
        · simp [hget, hfound.not.mpr hblank, hblank]
      · simp [httpParseData_other hbytes hmin hline hget, hmin, hline, hget]
    · have hnone := (strnstr_bytes_isSome crlf hbytes (by decide) (by decide)).not.mpr hline
      rw [Option.not_isSome_iff_eq_none] at hnone
      simp [httpParseData, hline, hnone]
  · simp [httpParseData, hmin]

/-- Where the parser finds the end of the URI. -/
structure UriEnd (ys : List UInt8) (uriLen : Nat) (is09 : Bool) : Prop where
  found : (if is09 then crlf else chars " ") <+: (behindMethod ys).drop uriLen
  first : ∀ j < uriLen, ¬ (if is09 then crlf else chars " ") <+: (behindMethod ys).drop j
  no_space : is09 = true → 32 ∉ behindMethod ys

/-- A request that is dispatched. -/
theorem httpParseData_dispatched {uriLen : Nat} {is09 : Bool}
    (hdispatch : httpParseData data ys.length = .dispatch uriLen is09) :
    UriEnd ys uriLen is09 ∧
      cstr (bytes (shift data 4) uriLen) = (behindMethod ys).take uriLen := by
  -- a request that lacks one of these is not dispatched
  have hready : minReqLen ≤ ys.length ∧ crlf <:+: cstr ys ∧
      (chars "GET " <+: ys → blankLine <:+: cstr ys) := by
    by_contra hnot
    cases hdispatch.symm.trans ((httpParseData_incomplete_iff hbytes hsize).mpr hnot)
  obtain ⟨hmin, hline, -⟩ := hready
  have hget : chars "GET " <+: ys := by
    by_contra hnot
    cases hdispatch.symm.trans (httpParseData_other hbytes hmin hline hnot)
  obtain ⟨uriLen', is09', hsearch, hparse⟩ := httpParseData_get hbytes hsize hmin hline hget
  rw [hparse] at hdispatch
  split at hdispatch
  next =>
    obtain ⟨rfl, rfl⟩ : uriLen' = uriLen ∧ is09' = is09 := by simpa using hdispatch
    have hbehind := bytes_drop hbytes 4
    have huriEnd : UriEnd ys uriLen' is09' := by
      cases is09' with
      | false =>
          obtain ⟨hfound, hfirst⟩ :=
            (strnstr_bytes_iff hbehind (by decide) (by decide)).mp hsearch
          exact ⟨hfound, hfirst, nofun⟩
      | true =>
          obtain ⟨hfound, hfirst⟩ :=
            (strnstr_bytes_iff hbehind (by decide) (by decide)).mp hsearch.2
          refine ⟨hfound, hfirst, fun _ hmem => hsearch.1 ?_⟩
          obtain ⟨before, after, heq⟩ := List.append_of_mem hmem
          exact ⟨before, after, by rw [heq]; simp [chars]⟩
    refine ⟨huriEnd, ?_⟩
    -- the URI ends in front of the first null byte, so the string is all of it
    have hle : uriLen' ≤ (cstr (ys.drop 4)).length := by
      have hlength := huriEnd.found.length_le
      rw [List.length_drop, behindMethod] at hlength
      have hpos : 0 < (if is09' = true then crlf else chars " ").length := by
        cases is09' <;> decide
      omega
    obtain ⟨rest, hrest⟩ := cstr_isPrefix (ys.drop 4)
    have hle' : uriLen' ≤ (ys.drop 4).length := by
      rw [← hrest, List.length_append]
      exact Nat.le_trans hle (Nat.le_add_right _ _)
    rw [bytes_take hbehind hle', ← hrest, List.take_append_of_le_length hle, cstr_eq_self]
    · rfl
    · exact fun hmem => zero_notMem_cstr _ (List.mem_of_mem_take hmem)
  next => cases hdispatch

end Parser

/-! ## The first line -/

/-- The URI stands between the method and the first space or line end, and is plain; `is09` says
that it is a line end. -/
structure FirstLine (ys uri : List UInt8) (is09 : Bool) : Prop where
  follows : uri ++ (if is09 then crlf else chars " ") <+: ys.drop 4
  no_space : 32 ∉ uri
  no_cr : 13 ∉ uri
  no_lf : 10 ∉ uri

def isLineByte (b : UInt8) : Bool := b == 32 || b == 13 || b == 10

/-- The first space, CR or LF behind the method is a space, or it begins a line end and no space
follows. Bytes behind a null byte do not count. -/
def LineEnds (ys : List UInt8) : Prop :=
  let tail := (behindMethod ys).dropWhile (!isLineByte ·)
  tail.head? = some 32 ∨ (crlf <+: tail ∧ 32 ∉ tail)

section FirstLine

variable {ys : List UInt8} {uriLen : Nat} {is09 : Bool}

/-- The parser's end of the URI is where the line bytes begin, if what it looks for is there. -/
theorem UriEnd.length_eq (h : UriEnd ys uriLen is09) {before after : List UInt8}
    (hsplit : behindMethod ys = before ++ after)
    (hbefore : ∀ b ∈ before, isLineByte b = false)
    (hafter : (if is09 then crlf else chars " ") <+: after) : uriLen = before.length := by
  have hat : (if is09 then crlf else chars " ") <+: (behindMethod ys).drop before.length := by
    rw [hsplit, List.drop_left]
    exact hafter
  rcases Nat.lt_trichotomy uriLen before.length with hlt | heq | hgt
  · have hfound := h.found
    rw [hsplit, List.drop_append_of_le_length (Nat.le_of_lt hlt),
      List.drop_eq_getElem_cons hlt] at hfound
    have hbyte := hbefore _ (List.getElem_mem hlt)
    cases is09 with
    | true =>
        obtain ⟨heq, -⟩ := List.cons_prefix_cons.mp hfound
        rw [← heq] at hbyte
        cases hbyte
    | false =>
        obtain ⟨heq, -⟩ := List.cons_prefix_cons.mp hfound
        rw [← heq] at hbyte
        cases hbyte
  · exact heq
  · exact absurd hat (h.first _ hgt)

theorem FirstLine.plain {uri : List UInt8} (h : FirstLine ys uri is09) :
    ∀ b ∈ uri, isLineByte b = false := by
  intro b hb
  have hspace : b ≠ 32 := fun heq => h.no_space (heq ▸ hb)
  have hcr : b ≠ 13 := fun heq => h.no_cr (heq ▸ hb)
  have hlf : b ≠ 10 := fun heq => h.no_lf (heq ▸ hb)
  simp [isLineByte, hspace, hcr, hlf]

/-- What the line bytes leave behind a plain text. -/
theorem dropWhile_plain {before after : List UInt8} (hbefore : ∀ b ∈ before, isLineByte b = false)
    (hafter : ∀ b ∈ after.head?, isLineByte b = true) :
    (before ++ after).dropWhile (!isLineByte ·) = after := by
  rw [List.dropWhile_append_of_pos]
  · cases after with
    | nil => rfl
    | cons b after =>
        rw [List.dropWhile_cons_of_neg]
        simpa using hafter b rfl
  · intro b hb
    simp [hbefore b hb]

/-- The URI that the parser cuts out is the one of the first line if and only if the line ends
there. -/
theorem UriEnd.firstLine_iff (h : UriEnd ys uriLen is09) :
    FirstLine ys ((behindMethod ys).take uriLen) is09 ↔ LineEnds ys := by
  constructor
  · intro hfirst
    obtain ⟨rest, hrest⟩ := h.found
    have hsplit := List.take_append_drop uriLen (behindMethod ys)
    rw [← hrest] at hsplit
    rw [LineEnds, ← hsplit, dropWhile_plain hfirst.plain]
    · cases is09 with
      | false => exact Or.inl rfl
      | true =>
          right
          refine ⟨List.prefix_append _ _, fun hmem => h.no_space rfl ?_⟩
          rw [← hsplit]
          exact List.mem_append_right _ hmem
    · cases is09 <;> simp [chars, crlf, isLineByte]
  · intro hends
    -- the line is split at its first space or line end
    have hsplit : behindMethod ys = (behindMethod ys).takeWhile (!isLineByte ·) ++
        (behindMethod ys).dropWhile (!isLineByte ·) := List.takeWhile_append_dropWhile.symm
    have hplain : ∀ b ∈ (behindMethod ys).takeWhile (!isLineByte ·), isLineByte b = false := by
      intro b hb
      simpa using List.all_eq_true.mp List.all_takeWhile b hb
    rw [LineEnds] at hends
    generalize (behindMethod ys).takeWhile (!isLineByte ·) = before at hsplit hplain
    generalize (behindMethod ys).dropWhile (!isLineByte ·) = after at hsplit hends
    have hafter : (if is09 then crlf else chars " ") <+: after := by
      rcases hends with hspace | ⟨hcrlf, hnot⟩
      · obtain ⟨rest, rfl⟩ := List.head?_eq_some_iff.mp hspace
        cases is09 with
        | false => exact ⟨rest, rfl⟩
        | true =>
            apply absurd _ (h.no_space rfl)
            rw [hsplit]
            simp
      · cases is09 with
        | true => exact hcrlf
        | false =>
            -- the parser has found a space, but not in front of the line end
            have hmem : 32 ∈ behindMethod ys :=
              (List.drop_suffix uriLen _).subset (h.found.subset (by decide))
            rw [hsplit, List.mem_append] at hmem
            rcases hmem with hmem | hmem
            · cases hplain 32 hmem
            · exact absurd hmem hnot
    have htake : (behindMethod ys).take uriLen = before := by
      rw [h.length_eq hsplit hplain hafter, hsplit, List.take_left]
    have hnot : ∀ b, isLineByte b = true → b ∉ before := by
      intro b hb hmem
      rw [hplain b hmem] at hb
      cases hb
    rw [htake]
    refine ⟨?_, hnot 32 rfl, hnot 13 rfl, hnot 10 rfl⟩
    obtain ⟨rest, hrest⟩ := hafter
    refine List.IsPrefix.trans ⟨rest, ?_⟩ (cstr_isPrefix (ys.drop 4))
    rw [List.append_assoc, hrest, ← hsplit]
    rfl

end FirstLine

/-! ## Every request of every connection -/

/-- The bytes of a queue that the parser gets: one buffer as it is, a chain as far as the shared
buffer holds it. -/
def parsedBytes : List Pbuf → List UInt8
  | [q] => q.payload
  | req => (pbufBytes req).take reqBufsize

theorem length_parsedBytes_le (req : List Pbuf) :
    (parsedBytes req).length ≤ (pbufBytes req).length := by
  unfold parsedBytes
  split
  · simp [pbufBytes]
  · exact List.length_take_le' _ _

theorem parsedBytes_of_chain {req : List Pbuf} (h : ∀ q, req ≠ [q]) :
    parsedBytes req = (pbufBytes req).take reqBufsize := by
  match req, h with
  | [], _ | _ :: _ :: _, _ => rfl
  | [q], h => exact absurd rfl (h q)

theorem requestData_parsedBytes (o : Oracle) {req : List Pbuf} (reqBuf : Mem)
    (hsize : (pbufBytes req).length < 65536) :
    (requestData o req reqBuf).2.1 = (parsedBytes req).length ∧
      bytes (requestData o req reqBuf).1 (parsedBytes req).length = parsedBytes req := by
  unfold requestData
  split
  next q =>
    have hone : pbufBytes [q] = q.payload := by simp [pbufBytes]
    rw [hone] at hsize
    rw [parsedBytes]
    exact ⟨u16_of_lt hsize, by rw [bytes_ofList _ _ _ (Nat.le_refl _), List.take_length]⟩
  next hchain =>
    rw [parsedBytes_of_chain fun q hq => hchain q hq]
    have hlen : min (totLen req) reqBufsize = ((pbufBytes req).take reqBufsize).length := by
      rw [totLen, u16_of_lt hsize, List.length_take, Nat.min_comm]
    have htake : (pbufBytes req).take ((pbufBytes req).take reqBufsize).length =
        (pbufBytes req).take reqBufsize := by
      rw [List.length_take, ← List.take_take, List.take_length]
    refine ⟨hlen, ?_⟩
    simp only [hlen, pbufCopyPartial, htake]
    rw [bytes_ofList _ _ _ (Nat.le_refl _), List.take_length]

section Connections

variable {σ : Type} {site : Site σ}

theorem mem_lookups {uri : List UInt8} {is09 : Bool} {acts : List Action} :
    (uri, is09) ∈ lookups acts ↔ .findFile uri is09 ∈ acts := by
  rw [lookups, List.mem_filterMap]
  constructor
  · rintro ⟨a, ha, hlookup⟩
    cases a with
    | findFile uri' is09' =>
        obtain ⟨rfl, rfl⟩ : uri' = uri ∧ is09' = is09 := by simpa [Action.lookup] using hlookup
        exact ha
    | _ => cases hlookup
  · exact fun ha => ⟨_, ha, rfl⟩

/-- Data is looked up only when it completes the request of a connection that waits. -/
theorem lookups_recv {c : Ctx σ} {i : Nat} (hlinked : Linked site i c) {e : Call} {p : Delivery}
    (hcallback : e.callback = .recv p .ok) {uri : List UInt8} {is09 : Bool}
    (hfind : .findFile uri is09 ∈ newActions c (connStep site c (.call e))) :
    ∃ hs, c.cell = .live hs ∧ ∃ uriLen,
      requestParsed e.oracle (hs.req ++ pbufChain c.pcb.nextId p.payloads) c.sys.httpdReqBuf =
          .dispatch uriLen is09 ∧
        uri = requestUri e.oracle (hs.req ++ pbufChain c.pcb.nextId p.payloads)
          c.sys.httpdReqBuf uriLen := by
  obtain ⟨acts, htrace⟩ := (connStep_moves_free hlinked (.call e)).trace
  rw [newActions_eq htrace.symm, ← mem_lookups] at hfind
  -- in every case but one the callback looks nothing up
  have hnone : lookups (connStep site c (.call e)).pcb.trace ≠ lookups c.pcb.trace := by
    rw [← htrace, lookups_append]
    intro heq
    rw [List.append_right_eq_self.mp heq] at hfind
    cases hfind
  cases hlinked with
  | ended hended => exact absurd (by rw [connStep, if_neg hended]) hnone
  | closing hopen hcell =>
      apply absurd _ hnone
      rw [connStep, if_pos hopen, Ctx.leave_pcb, Ctx.call]
      simp only [hcallback]
      rw [httpRecv_null (by exact hcell) (by exact hopen)]
      simp [Pcb.shut, Ctx.received, Ctx.window, Action.lookup]
  | @active hs hopen hcell harg hself hactive =>
      by_cases hdata : p.payloads = []
      · apply absurd _ hnone
        rw [connStep, if_pos hopen, Ctx.leave_pcb, Ctx.call]
        simp only [hcallback]
        rw [httpRecv_fin (by exact hcell) (by exact hopen) (Or.inr (by simp [hdata]))]
        simp [Ctx.closed, Pcb.shut, Ctx.received, Ctx.window, Action.lookup]
      · rcases hactive.2 with ⟨hwaiting, -⟩ | ⟨f, is09', hserving, hreq, -⟩
        · cases arrival hcell hopen harg hactive hwaiting hcallback hdata with
          | incomplete hparsed hbounds hlive _ _ hsame =>
              obtain ⟨q, hsame⟩ := hsame
              exact absurd (by simp [hsame]) hnone
          | rejected hparsed hnull hlookups => exact absurd hlookups hnone
          | found uriLen is09' hparsed hlookups hserving =>
              rw [← htrace, lookups_append, List.append_cancel_left_eq] at hlookups
              rw [hlookups, List.mem_singleton, Prod.mk.injEq] at hfind
              obtain ⟨rfl, rfl⟩ := hfind
              exact ⟨hs, hcell, uriLen, hparsed, rfl⟩
        · apply absurd _ hnone
          rw [connStep, if_pos hopen, Ctx.leave_pcb, Ctx.call]
          simp only [hcallback]
          rw [httpRecv_serving (by exact hcell) (by exact hopen) (by simpa using hdata)
            (by simp [hserving.handle]) hreq]
          rfl

/-- What the parser gets when the call delivers `p` to a connection with the queue of `hs`. -/
def receivedBytes (c : Ctx σ) (hs : HttpState) (p : Delivery) : List UInt8 :=
  parsedBytes (hs.req ++ pbufChain c.pcb.nextId p.payloads)

/-- Whenever a request is looked up, the URI is the one of its first line if and only if the
line ends there. -/
theorem uri_from_first_line_iff (site : Site σ) (sys : Sys σ) (es : List (WorldEvent σ)) (i : Nat)
    {e : Call} {p : Delivery} (hcallback : e.callback = .recv p .ok) {hs : HttpState}
    (hlive : (World.connection site sys es i).cell = .live hs) {uri : List UInt8} {is09 : Bool}
    (hfind : .findFile uri is09 ∈ newActions (World.connection site sys es i)
      (connStep site (World.connection site sys es i) (.call e))) :
    FirstLine (receivedBytes (World.connection site sys es i) hs p) uri is09 ↔
      LineEnds (receivedBytes (World.connection site sys es i) hs p) := by
  obtain ⟨hs', hcell, uriLen, hparsed, rfl⟩ :=
    lookups_recv (connection_linked site sys es i) hcallback hfind
  obtain rfl : hs' = hs := Cell.live.inj (hcell.symm.trans hlive)
  have hsize := length_received (connection_queueShort site sys es i _ hlive).1 p
    (World.connection site sys es i).pcb.nextId
  obtain ⟨hlength, hbytes⟩ := requestData_parsedBytes e.oracle
    (World.connection site sys es i).sys.httpdReqBuf hsize
  rw [requestParsed, hlength] at hparsed
  obtain ⟨huriEnd, huri⟩ := httpParseData_dispatched hbytes
    (Nat.lt_of_le_of_lt (length_parsedBytes_le _) hsize) hparsed
  rw [requestUri, huri]
  exact huriEnd.firstLine_iff

/-- A request for `/a.ssi`. -/
def wholeRequest : Call := .data .willing 2920 (chars "GET /a.ssi HTTP/1.0\r\n\r\n") (by decide)

theorem uri_from_first_line_trial :
    FirstLine (receivedBytes (World.connection trialSite trialSys [.accept 0 .willing] 0)
      { httpStateInit with addr := 0, pcb := 0 }
      (.single (chars "GET /a.ssi HTTP/1.0\r\n\r\n") (by decide))) (chars "/a.ssi") false := by
  apply (uri_from_first_line_iff trialSite trialSys [.accept 0 .willing] 0
    (e := wholeRequest) rfl rfl (by decide +kernel)).mpr
  exact Or.inl (by decide +kernel)

/-- Without a version the URI ends at the first space of a header line. -/
def versionlessRequest : Call := .data .willing 2920 (chars "GET /\r\nHost: a\r\n\r\n") (by decide)

theorem uri_from_header_line :
    ∃ uri is09, .findFile uri is09 ∈
        newActions (World.connection trialSite trialSys [.accept 0 .willing] 0)
          (connStep trialSite (World.connection trialSite trialSys [.accept 0 .willing] 0)
            (.call versionlessRequest)) ∧
      ¬FirstLine (receivedBytes (World.connection trialSite trialSys [.accept 0 .willing] 0)
        { httpStateInit with addr := 0, pcb := 0 }
        (.single (chars "GET /\r\nHost: a\r\n\r\n") (by decide))) uri is09 := by
  refine ⟨chars "/\r\nHost:", false, by decide +kernel, fun h => ?_⟩
  exact absurd h.no_cr (by decide)

end Connections

end Meu1oARM
