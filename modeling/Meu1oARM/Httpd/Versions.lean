import Meu1oARM.Httpd.HeaderBlock
import Meu1oARM.Httpd.Response

/-! # Responses to requests of HTTP/0.9

A response of HTTP/0.9 starts behind the header of the file, but the scanner starts at
the front of it all the same.
-/

namespace Meu1oARM

open Machine CString

variable {σ : Type}

/-- What follows the first blank line. -/
def behindBlankLine : List UInt8 → List UInt8
  | [] => []
  | b :: bs =>
    if blankLine.isPrefixOf (b :: bs) then (b :: bs).drop blankLine.length else behindBlankLine bs

/-- The header of a stored file: its only blank line is its end, and nothing in it starts a tag. -/
structure HttpHeader where
  text : List UInt8
  ends : blankLine <:+ text
  ends_once : ∀ p, blankLine <+: text.drop p → p + blankLine.length = text.length
  nonzero : 0 ∉ text
  no_tag : tagLeadIn.getD 0 0 ∉ text

/-- What follows a text that has its only blank line at its end. -/
theorem behindBlankLine_append {text : List UInt8} (hends : blankLine <:+ text)
    (honce : ∀ p, blankLine <+: text.drop p → p + blankLine.length = text.length)
    (body : List UInt8) : behindBlankLine (text ++ body) = body := by
  induction text with
  | nil => cases List.suffix_nil.mp hends
  | cons b text ih =>
      rw [List.cons_append, behindBlankLine]
      split
      next hfront =>
        rw [List.isPrefixOf_iff_prefix, ← List.cons_append] at hfront
        have hfirst : blankLine <+: b :: text :=
          List.prefix_of_prefix_length_le hfront (List.prefix_append _ _) hends.length_le
        have hlength := honce 0 hfirst
        rw [← List.cons_append, List.drop_left' (by omega)]
      next hnot =>
        apply ih
        · rcases List.suffix_cons_iff.mp hends with heq | hsuffix
          · apply absurd _ hnot
            rw [List.isPrefixOf_iff_prefix, ← List.cons_append, ← heq]
            exact List.prefix_append _ _
          · exact hsuffix
        · intro p hp
          have hlength := honce (p + 1) hp
          rw [List.length_cons] at hlength
          omega

namespace HttpHeader

variable (header : HttpHeader) (body : List UInt8)

theorem behind : behindBlankLine (header.text ++ body) = body :=
  behindBlankLine_append header.ends header.ends_once body

/-- `http_init_file` finds the end of the header. -/
theorem headerEnd_eq {f : FsFile} (hdata : f.data = header.text ++ body)
    (hincluded : f.httpHeaderIncluded = true) : headerEnd f true = header.text.length := by
  have hfour : blankLine.length ≤ header.text.length := header.ends.length_le
  have hlast : header.text.drop (header.text.length - blankLine.length) = blankLine :=
    (List.suffix_iff_eq_drop.mp header.ends).symm
  have hbytes : bytes (fun i => f.data.getD i 0) f.data.length = f.data := by
    have hall : bytes (fileMem f.data 0) f.data.length = (f.data.drop 0).take f.data.length :=
      bytes_fileMem (by omega)
    rwa [fileMem, shift_zero, List.drop_zero, List.take_length] at hall
  have hfound : strnstr (fun i => f.data.getD i 0) (crlf ++ crlf) f.len =
      some (header.text.length - blankLine.length) := by
    rw [FsFile.len]
    refine (strnstr_bytes_iff hbytes (by decide) (by decide)).mpr ⟨?_, fun j hj hearlier => ?_⟩
    · rw [occurs_in_cstr_iff (by decide) (by decide), hdata,
        List.take_append_of_le_length (Nat.sub_le _ _),
        List.drop_append_of_le_length (Nat.sub_le _ _), hlast]
      exact ⟨fun hmem => header.nonzero (List.mem_of_mem_take hmem), List.prefix_append _ _⟩
    · rw [occurs_in_cstr_iff (by decide) (by decide), hdata,
        List.drop_append_of_le_length (by omega)] at hearlier
      have hwithin : blankLine <+: header.text.drop j := by
        refine List.prefix_of_prefix_length_le hearlier.2 (List.prefix_append _ _) ?_
        have hlen : blankLine.length ≤ (header.text.drop j).length := by
          rw [List.length_drop]
          omega
        exact hlen
      have hlength := header.ends_once j hwithin
      omega
  have hlen : blankLine.length = 4 := rfl
  simp only [headerEnd, hincluded, Bool.and_self, if_true, hfound]
  omega

/-- The scanner passes over the header. -/
theorem ssiResponse_eq (site : Site σ) (start : Nat) :
    ssiResponse site (header.text ++ body) start =
      header.text.drop start ++ Expand.served Scan.step (tagText site) .idle 0
        (start - header.text.length) body := by
  apply Expand.served_append_of_quiet
  intro b hb
  have hnot : b ≠ tagLeadIn.getD 0 0 := fun heq => header.no_tag (heq ▸ hb)
  simp only [Scan.step, if_neg hnot]

/-- Both responses have the same body. -/
theorem response_eq (site : Site σ) (ssi : Bool) :
    response site (header.text ++ body) 0 ssi =
      header.text ++ response site (header.text ++ body) header.text.length ssi := by
  cases ssi with
  | false => simp [response]
  | true =>
      simp only [response, if_true, ssiResponse_eq, List.drop_zero, List.drop_length, Nat.zero_sub,
        Nat.sub_self, List.nil_append]

end HttpHeader

/-! ## Two connections -/

theorem Stored.mem_root {root : List FsdataFile} {f : FsFile} (h : Stored root f) :
    ∃ file ∈ root, file.data = f.data ∧ file.httpHeaderIncluded = f.httpHeaderIncluded := by
  obtain ⟨name, hopen⟩ := h
  obtain ⟨file, hfind, rfl⟩ := Option.map_eq_some_iff.mp hopen
  exact ⟨file, List.mem_of_find?_eq_some hfind, rfl, rfl⟩

namespace HttpHeader

variable (header : HttpHeader) {body : List UInt8} {site : Site σ} {sys : Sys σ}
  {es : List (WorldEvent σ)} {i start : Nat} {ssi : Bool}

theorem length_pos : 0 < header.text.length :=
  Nat.lt_of_lt_of_le (by decide : 0 < blankLine.length) header.ends.length_le

/-- A complete response of HTTP/1.x. -/
theorem http1_response
    (hopened : .opened (header.text ++ body) false start ssi ∈
      (World.connection site sys es i).pcb.trace)
    (heof : .eof ∈ (World.connection site sys es i).pcb.trace) :
    enqueued (World.connection site sys es i).pcb.trace =
      response site (header.text ++ body) 0 ssi := by
  have hlinked := connection_linked site sys es i
  generalize World.connection site sys es i = c at hopened heof hlinked ⊢
  obtain ⟨f, hdata, rfl, ⟨_, _, _, _, hno⟩ | ⟨_, _, hdone⟩⟩ := opened_cases hlinked hopened
  · exact absurd heof hno
  · have hcomplete := hdone heof
    rw [headerEnd_of_http1] at hcomplete
    have hpos := header.length_pos
    apply hcomplete.response_eq
    rw [List.length_append]
    omega

/-- A complete response of HTTP/0.9 starts behind the header. -/
theorem http09_response
    (hincluded : ∀ file ∈ site.root, file.data = header.text ++ body →
      file.httpHeaderIncluded = true)
    (hopened : .opened (header.text ++ body) true start ssi ∈
      (World.connection site sys es i).pcb.trace)
    (heof : .eof ∈ (World.connection site sys es i).pcb.trace) :
    enqueued (World.connection site sys es i).pcb.trace =
      response site (header.text ++ body) header.text.length ssi := by
  have hstart : start = header.text.length := by
    obtain ⟨f, hstored, hdata, hend⟩ :=
      connection_sourced site sys es i _ (mem_openings.mp hopened)
    obtain ⟨file, hmem, hfile, hflag⟩ := hstored.mem_root
    have hflag' := hincluded file hmem (hfile.trans hdata.symm)
    exact hend.trans (header.headerEnd_eq body hdata.symm (hflag.symm.trans hflag'))
  subst hstart
  have hlinked := connection_linked site sys es i
  generalize World.connection site sys es i = c at hopened heof hlinked ⊢
  obtain ⟨f, hdata, _, ⟨_, _, _, _, hno⟩ | ⟨_, _, hdone⟩⟩ := opened_cases hlinked hopened
  · exact absurd heof hno
  · have hcomplete := hdone heof
    rcases Nat.lt_or_ge header.text.length (header.text ++ body).length with hlt | hge
    · exact hcomplete.response_eq hlt
    · have hnil : body = [] := by
        rw [List.length_append] at hge
        exact List.length_eq_zero_iff.mp (by omega)
      rw [(hcomplete.empty hge).1]
      cases ssi with
      | false => simp [response, hnil]
      | true =>
          rw [response, if_pos rfl, header.ssiResponse_eq, hnil, List.drop_length]
          rfl

end HttpHeader

/-- Whatever lwIP does meanwhile, the response for a file to a request of HTTP/1.x is the header and
behind it the response to a request of HTTP/0.9, which is therefore the former without the header. -/
theorem versions_serve_same_body (header : HttpHeader) (body : List UInt8) {site site' : Site σ}
    (hinserts : tagText site = tagText site')
    (hincluded : ∀ file ∈ site.root, file.data = header.text ++ body →
      file.httpHeaderIncluded = true)
    {sys sys' : Sys σ} {es es' : List (WorldEvent σ)} {i i' start start' : Nat} {ssi : Bool}
    (hopened : .opened (header.text ++ body) true start ssi ∈
      (World.connection site sys es i).pcb.trace)
    (heof : .eof ∈ (World.connection site sys es i).pcb.trace)
    (hopened' : .opened (header.text ++ body) false start' ssi ∈
      (World.connection site' sys' es' i').pcb.trace)
    (heof' : .eof ∈ (World.connection site' sys' es' i').pcb.trace) :
    enqueued (World.connection site' sys' es' i').pcb.trace =
        header.text ++ enqueued (World.connection site sys es i).pcb.trace ∧
      enqueued (World.connection site sys es i).pcb.trace =
        behindBlankLine (enqueued (World.connection site' sys' es' i').pcb.trace) := by
  have hsame : response site' (header.text ++ body) 0 ssi =
      response site (header.text ++ body) 0 ssi := by
    simp only [response, ssiResponse, hinserts]
  rw [header.http09_response hincluded hopened heof, header.http1_response hopened' heof', hsame,
    header.response_eq, header.behind]
  exact ⟨rfl, rfl⟩

/-! ## A page with a header -/

def trialHeader : HttpHeader where
  text := chars "HTTP/1.0 200 OK\r\n\r\n"
  ends := ⟨chars "HTTP/1.0 200 OK", by decide⟩
  ends_once := ends_once_of_lt (by decide +kernel)
  nonzero := by decide
  no_tag := by decide

/-- A server with one page, which has a header. -/
def headerSite : Site Unit :=
  { trialSite with
    root := [
      { name := chars "/h.ssi", data := trialHeader.text ++ chars "x<!--#t-->y"
        size_lt := by decide, httpHeaderIncluded := true }] }

/-- The page is asked for without a version. -/
def versionless : List (WorldEvent Unit) :=
  [.accept 0 .willing, .call 0 (.data .willing 2920 (chars "GET /h.ssi\r\n\r\n") (by decide))]

/-- The page is asked for with a version, and sent in pieces. -/
def versioned : List (WorldEvent Unit) :=
  [.accept 0 .willing,
    .call 0 (.data .willing 3 (chars "GET /h.ssi HTTP/1.0\r\n\r\n") (by decide)),
    .call 0 (.under .sent .willing 30),
    .call 0 (.under .poll .starved 3),
    .call 0 (.under .sent .willing 2920)]

theorem versions_serve_same_body_trial :
    enqueued (World.connection headerSite trialSys versioned 0).pcb.trace =
        trialHeader.text ++ enqueued (World.connection headerSite trialSys versionless 0).pcb.trace ∧
      enqueued (World.connection headerSite trialSys versionless 0).pcb.trace =
        behindBlankLine (enqueued (World.connection headerSite trialSys versioned 0).pcb.trace) := by
  have hopened : .opened (trialHeader.text ++ chars "x<!--#t-->y") true 19 true ∈
      (World.connection headerSite trialSys versionless 0).pcb.trace := by
    decide +kernel
  have hopened' : .opened (trialHeader.text ++ chars "x<!--#t-->y") false 0 true ∈
      (World.connection headerSite trialSys versioned 0).pcb.trace := by
    decide +kernel
  refine versions_serve_same_body trialHeader (chars "x<!--#t-->y") rfl ?_ hopened
    (by decide +kernel) hopened' (by decide +kernel)
  intro file hfile _
  obtain rfl := List.mem_singleton.mp hfile
  rfl

end Meu1oARM
