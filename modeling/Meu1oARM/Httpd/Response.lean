import Meu1oARM.Httpd.World

/-! # Responses

What a peer receives depends on the file it has asked for, and not on when lwIP
calls, how much it takes at a time or what other connections do. A file without
tags arrives as it is stored. A file with tags arrives with their inserts, except
that the scan ends with the last character: the insert of a tag that ends there
is fetched and never sent.
-/

namespace Meu1oARM

open CString

variable {σ : Type}

variable {site : Site σ} {sys : Sys σ} {es : List (WorldEvent σ)} {i : Nat}

theorem mem_openings {data : List UInt8} {is09 ssi : Bool} {start : Nat} {trace : List Action} :
    .opened data is09 start ssi ∈ trace ↔ ⟨data, is09, start, ssi⟩ ∈ openings trace := by
  simp only [openings, List.mem_filterMap]
  constructor
  · exact fun h => ⟨_, h, rfl⟩
  · rintro ⟨a, ha, hopening⟩
    cases a <;> simp [Action.opening] at hopening
    obtain ⟨rfl, rfl, rfl, rfl⟩ := hopening
    exact ha

/-- A connection that has opened a file goes on serving it, or has answered with it. -/
theorem opened_cases {c : Ctx σ} {self : Nat} (h : Linked site self c) {data : List UInt8}
    {is09 ssi : Bool} {start : Nat} (hopened : .opened data is09 start ssi ∈ c.pcb.trace) :
    ∃ f : FsFile, data = f.data ∧ start = headerEnd f is09 ∧
      ((∃ hs, c.cell = .live hs ∧ Serving site f start c.pcb hs ∧ hs.ssi.isSome = ssi ∧
          .eof ∉ c.pcb.trace) ∨
        ((∀ hs, c.cell ≠ .live hs) ∧ enqueued c.pcb.trace <+: response site data start ssi ∧
          (.eof ∈ c.pcb.trace → Complete site data start ssi c.pcb.trace))) := by
  rw [mem_openings] at hopened
  have hanswered : Answered site c.pcb.trace → (∀ hs, c.cell ≠ .live hs) →
      ∃ f : FsFile, data = f.data ∧ start = headerEnd f is09 ∧
        ((∃ hs, c.cell = .live hs ∧ Serving site f start c.pcb hs ∧ hs.ssi.isSome = ssi ∧
            .eof ∉ c.pcb.trace) ∨
          ((∀ hs, c.cell ≠ .live hs) ∧ enqueued c.pcb.trace <+: response site data start ssi ∧
            (.eof ∈ c.pcb.trace → Complete site data start ssi c.pcb.trace))) := by
    rintro (⟨hnone, _⟩ | ⟨f, is09', ssi', hone, hfirst, hdone⟩) hdead
    · simp [hnone] at hopened
    · rw [hone, List.mem_singleton, Opening.mk.injEq] at hopened
      obtain ⟨rfl, rfl, rfl, rfl⟩ := hopened
      exact ⟨f, rfl, rfl, Or.inr ⟨hdead, hfirst, hdone⟩⟩
  cases h with
  | @active hs hopen hcell harg hself hactive =>
      obtain ⟨heof, ⟨_, _, _, hnone⟩ | ⟨f, is09', hserving, _, hone⟩⟩ := hactive
      · simp [hnone] at hopened
      · rw [hone, List.mem_singleton, Opening.mk.injEq] at hopened
        obtain ⟨rfl, rfl, rfl, rfl⟩ := hopened
        exact ⟨f, rfl, rfl, Or.inl ⟨hs, hcell, hserving, rfl, heof⟩⟩
  | closing _ hcell _ _ hanswer => exact hanswered hanswer (by simp [hcell])
  | ended _ hcell hanswer => exact hanswered hanswer hcell

/-- While a file without tags is served, its first bytes have been enqueued. -/
theorem Serving.sent_of_plain {f : FsFile} {pcb : Pcb} {hs : HttpState}
    (h : Serving site f 0 pcb hs) (hssi : hs.ssi = none) :
    ∃ file, hs.file = some file ∧ file + hs.left = f.data.length ∧
      enqueued pcb.trace = f.data.take file := by
  obtain ⟨file, hfile, hsending | hnothing⟩ := h.sending
  · rw [hssi] at hsending
    have hplain : PlainStream f.data 0 pcb file hs.left := hsending
    refine ⟨file, hfile, hplain.left_eq, ?_⟩
    have hstream : enqueued pcb.trace ++ f.data.drop file = f.data := hplain.stream
    exact List.append_cancel_right (hstream.trans (List.take_append_drop file f.data).symm)
  · have hdata : f.data = [] := List.length_eq_zero_iff.mp hnothing.start_eq.symm
    exact ⟨file, hfile, by rw [hnothing.file_eq, hnothing.left_eq, hdata]; rfl,
      by rw [hnothing.enqueued_eq, hdata, List.take_nil]⟩

/-- A file without tags arrives as it is stored, and is never overrun. -/
theorem plain_file_delivered {data : List UInt8} {start : Nat}
    (hopened : .opened data false start false ∈ (World.connection site sys es i).pcb.trace) :
    (∀ hs, (World.connection site sys es i).cell = .live hs →
        hs.left ≤ data.length ∧
          enqueued (World.connection site sys es i).pcb.trace =
            data.take (data.length - hs.left) ∧
          hs.file = some (data.length - hs.left)) ∧
      (.eof ∈ (World.connection site sys es i).pcb.trace →
        enqueued (World.connection site sys es i).pcb.trace = data) ∧
      .assertFailed .eofNotReached ∉ (World.connection site sys es i).pcb.trace := by
  have hlinked := connection_linked site sys es i
  have hregular := connection_regular site sys es i
  generalize World.connection site sys es i = c at hopened hlinked hregular ⊢
  refine ⟨?_, ?_, fun hmem => by simpa [Action.isRegular] using hregular _ hmem⟩
  · intro hs hcell
    obtain ⟨f, rfl, rfl, ⟨hs', hcell', hserving, hssi, _⟩ | ⟨hdead, _⟩⟩ :=
      opened_cases hlinked hopened
    · obtain rfl : hs = hs' := by simpa using hcell.symm.trans hcell'
      rw [headerEnd_of_http1] at hserving
      obtain ⟨file, hfile, hleft, hsplit⟩ := hserving.sent_of_plain (by simpa using hssi)
      have hfile' : f.data.length - hs.left = file := by omega
      exact ⟨by omega, by rw [hfile', hsplit], by rw [hfile', hfile]⟩
    · exact absurd hcell (hdead hs)
  · intro heof
    obtain ⟨f, rfl, rfl, ⟨_, _, _, _, hno⟩ | ⟨_, _, hdone⟩⟩ := opened_cases hlinked hopened
    · exact absurd heof hno
    · have hcomplete := hdone heof
      rw [headerEnd_of_http1] at hcomplete
      rcases Nat.eq_zero_or_pos f.data.length with hzero | hpos
      · rw [(hcomplete.empty (Nat.le_of_eq hzero)).1, List.length_eq_zero_iff.mp hzero]
      · simpa [response] using hcomplete.response_eq hpos

/-- The page without tags, and a peer that goes on talking. -/
theorem plain_file_delivered_trial :
    enqueued (World.connection trialSite trialSys
        [.accept 0 .willing,
          .call 0 (.data .willing 4 (chars "GET /c.htm HTTP/1.0\r\n\r\n") (by decide)),
          .call 0 (.data .starved 3 (chars "more") (by decide)),
          .call 0 (.under .sent .starved 0),
          .call 0 (.under .poll .willing 2920)] 0).pcb.trace = chars "plain text" :=
  have hopened : .opened (chars "plain text") false 0 false ∈ (World.connection trialSite trialSys
      [.accept 0 .willing,
        .call 0 (.data .willing 4 (chars "GET /c.htm HTTP/1.0\r\n\r\n") (by decide)),
        .call 0 (.data .starved 3 (chars "more") (by decide)),
        .call 0 (.under .sent .starved 0),
        .call 0 (.under .poll .willing 2920)] 0).pcb.trace := by
    decide +kernel
  (plain_file_delivered hopened).2.1 (by decide +kernel)

/-- What is sent for a file with tags depends on nothing but the file and the inserts: it is the
file with each insert behind its tag, but for the insert of a tag that ends the file. -/
theorem ssi_output_fixed (insert : Nat → List UInt8 → List UInt8) (data : List UInt8) (start : Nat)
    (hinsert : tagText site = insert)
    (hopened : .opened data false start true ∈ (World.connection site sys es i).pcb.trace) :
    enqueued (World.connection site sys es i).pcb.trace <+:
        Expand.served Scan.step insert .idle 0 0 data ∧
      (.eof ∈ (World.connection site sys es i).pcb.trace →
        enqueued (World.connection site sys es i).pcb.trace =
          Expand.served Scan.step insert .idle 0 0 data) := by
  subst hinsert
  have hlinked := connection_linked site sys es i
  generalize World.connection site sys es i = c at hopened hlinked ⊢
  have hresponse : Expand.served Scan.step (tagText site) .idle 0 0 data =
      response site data 0 true := rfl
  rw [hresponse]
  obtain ⟨f, rfl, rfl, ⟨hs, _, hserving, hssi, hno⟩ | ⟨_, hfirst, hdone⟩⟩ :=
    opened_cases hlinked hopened
  · rw [headerEnd_of_http1] at hserving
    have hfirst := hserving.firstPart
    rw [hssi] at hfirst
    exact ⟨hfirst, fun heof => absurd heof hno⟩
  · rw [headerEnd_of_http1] at hfirst hdone
    refine ⟨hfirst, fun heof => ?_⟩
    rcases Nat.eq_zero_or_pos f.data.length with hzero | hpos
    · rw [((hdone heof).empty (Nat.le_of_eq hzero)).1, List.length_eq_zero_iff.mp hzero]
      rfl
    · exact (hdone heof).response_eq hpos

/-- The page with a tag, once sent at once and once in pieces. -/
theorem ssi_output_fixed_trial :
    enqueued (World.connection trialSite trialSys
        [.accept 0 .willing,
          .call 0 (.data .willing 2920 (chars "GET /a.ssi HTTP/1.0\r\n\r\n") (by decide))]
        0).pcb.trace = chars "x<!--#t--><b>***UNKNOWN TAG t***</b>y" ∧
      enqueued (World.connection trialSite trialSys
        [.accept 0 .willing,
          .call 0 (.data .willing 3 (chars "GET /a.ssi HTTP/1.0\r\n\r\n") (by decide)),
          .call 0 (.under .sent .willing 20),
          .call 0 (.under .poll .starved 3),
          .call 0 (.under .sent .willing 2920)] 0).pcb.trace = chars "x<!--#t--><b>***UNKNOWN TAG t***</b>y" := by
  have hserved : Expand.served Scan.step (tagText trialSite) .idle 0 0 (chars "x<!--#t-->y") =
      chars "x<!--#t--><b>***UNKNOWN TAG t***</b>y" := by
    decide +kernel
  rw [← hserved]
  exact ⟨(ssi_output_fixed (tagText trialSite) (chars "x<!--#t-->y") 0 rfl
      (by decide +kernel)).2 (by decide +kernel),
    (ssi_output_fixed (tagText trialSite) (chars "x<!--#t-->y") 0 rfl
      (by decide +kernel)).2 (by decide +kernel)⟩

theorem Scan.step_lf (s : Scan) : (s.step 10).2 = none := by
  cases s with
  | idle | leadin n | name xs =>
      simp only [Scan.step]
      repeat' split
      all_goals rfl
  | leadout n xs =>
      have hnot : (10 : UInt8) ≠ tagLeadOut.getD n 0 := by
        rcases n with _ | _ | _ | n
        · decide
        · decide
        · decide
        · have hnil : tagLeadOut[n + 3]? = none := by simp [tagLeadOut, chars]
          rw [List.getD_eq_getElem?_getD, hnil]
          decide
      simp only [Scan.step, if_neg hnot]
      split <;> rfl

/-- A response that has nothing to send follows a file that does not end in a tag. -/
theorem finalInsert_of_empty (site : Site σ) {f : FsFile} {is09 : Bool}
    (h : f.data.length ≤ headerEnd f is09) : finalInsert site f.data = [] := by
  rcases headerEnd_after_lf f is09 with hzero | hlf
  · rw [hzero, Nat.le_zero, List.length_eq_zero_iff] at h
    rw [h]
    rfl
  · have hend : headerEnd f is09 = f.data.length := Nat.le_antisymm (headerEnd_le f is09) h
    rw [hend, ← List.getLast?_eq_getElem?] at hlf
    exact Expand.final_eq_nil _ _ Scan.step_lf hlf _ _

/-- When a file with tags has ended, every insert follows its tag unless the file ends in a
tag with an insert that is not empty. -/
theorem ssi_expansion_complete_iff {data : List UInt8} {is09 : Bool} {start : Nat}
    (hopened : .opened data is09 start true ∈ (World.connection site sys es i).pcb.trace)
    (heof : .eof ∈ (World.connection site sys es i).pcb.trace) :
    enqueued (World.connection site sys es i).pcb.trace =
        Expand.splice 0 start data (tagInserts (World.connection site sys es i).pcb.trace) ↔
      finalInsert site data = [] := by
  have hlinked := connection_linked site sys es i
  generalize World.connection site sys es i = c at hopened heof hlinked ⊢
  obtain ⟨f, rfl, rfl, ⟨_, _, _, _, hno⟩ | ⟨_, _, hdone⟩⟩ := opened_cases hlinked hopened
  · exact absurd heof hno
  · have hcomplete := hdone heof
    rcases Nat.lt_or_ge (headerEnd f is09) f.data.length with hlt | hge
    · rw [hcomplete.response_eq hlt, hcomplete.inserts_eq hlt rfl, fileInserts,
        Expand.splice_inserts, Expand.expand_eq_served_append_final]
      exact List.self_eq_append_right
    · rw [(hcomplete.empty hge).1, (hcomplete.empty hge).2,
        Expand.splice_skipped 0 _ f.data hge]
      simp [finalInsert_of_empty site hge]

/-- The page that ends in a tag arrives without the insert of that tag. -/
theorem ssi_expansion_incomplete :
    let trace := (World.connection trialSite trialSys
      [.accept 0 .willing,
        .call 0 (.data .willing 2920 (chars "GET /b.ssi HTTP/1.0\r\n\r\n") (by decide))] 0).pcb.trace
    .opened (chars "x<!--#t-->") false 0 true ∈ trace ∧ .eof ∈ trace ∧
      enqueued trace ≠ Expand.splice 0 0 (chars "x<!--#t-->") (tagInserts trace) := by
  decide +kernel

/-- The page with a character behind its tag arrives with the insert. -/
theorem ssi_expansion_complete_trial :
    let trace := (World.connection trialSite trialSys
      [.accept 0 .willing,
        .call 0 (.data .willing 2920 (chars "GET /a.ssi HTTP/1.0\r\n\r\n") (by decide))] 0).pcb.trace
    enqueued trace = Expand.splice 0 0 (chars "x<!--#t-->y") (tagInserts trace) :=
  have hopened : .opened (chars "x<!--#t-->y") false 0 true ∈ (World.connection trialSite trialSys
      [.accept 0 .willing,
        .call 0 (.data .willing 2920 (chars "GET /a.ssi HTTP/1.0\r\n\r\n") (by decide))]
      0).pcb.trace := by
    decide +kernel
  (ssi_expansion_complete_iff hopened (by decide +kernel)).mpr (by decide +kernel)

end Meu1oARM
