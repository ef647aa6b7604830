import Meu1oARM.Httpd.TagScan

/-! # What an SSI connection owes

The bytes enqueued together with what the state of the connection still owes are
the response at every point of `http_send_data_ssi`. No choice of lengths and no
refused write changes their concatenation.
-/

namespace Meu1oARM

open Machine CString

/-- The rest of an insert that is being sent. The loop ends with the last character of the
file, so the insert of a tag that ends there is not sent. -/
def HttpSsiState.pendingInsert (ssi : HttpSsiState) : List UInt8 :=
  if ssi.tagState = .sending ∧ ssi.parseLeft ≠ 0 then
    bytes ssi.insertMem (ssi.tagInsertLen - ssi.tagIndex)
  else []

/-- What is still to be sent when the file has been sent up to `file`. -/
def ssiOwed (site : TagSite) (data : List UInt8) (file : Nat) (ssi : HttpSsiState) : List UInt8 :=
  Expand.window data file ssi.parsed ++ (ssi.pendingInsert ++
    Expand.served Scan.step (tagText site) ssi.scan ssi.calls (file - ssi.parsed)
      (data.drop ssi.parsed))

/-- The inserts that are still to be fetched. -/
def insertsAhead (site : TagSite) (data : List UInt8) (ssi : HttpSsiState) :
    List (Nat × List UInt8) :=
  Expand.inserts Scan.step (tagText site) ssi.scan ssi.calls ssi.parsed (data.drop ssi.parsed)

/-- All inserts of a file. -/
def fileInserts (site : TagSite) (data : List UInt8) : List (Nat × List UInt8) :=
  Expand.inserts Scan.step (tagText site) .idle 0 0 data

/-- The fields of an SSI connection fit together while the file is sent from `start` on. -/
structure SsiStream (site : TagSite) (data : List UInt8) (start : Nat) (pcb : Pcb)
    (file left : Nat) (ssi : HttpSsiState) : Prop where
  opened : pcb.status = .opened
  scanning : ssi.Scanning
  size_lt : data.length < 2147483648
  start_lt : start < data.length
  left_eq : file + left = data.length
  parse_eq : ssi.parsed + ssi.parseLeft = data.length
  start_le : start ≤ file
  file_le : file ≤ start ∨ file ≤ ssi.parsed
  tagEnd_eq : ssi.tagState = .sending → ssi.tagEnd = ssi.parsed
  insertLen_lt : ssi.tagState = .sending → ssi.tagInsertLen < 65536
  insertLen_le : site.Fits → ssi.tagState = .sending → ssi.tagInsertLen ≤ maxTagInsertLen
  tagIndex_le : ssi.tagState = .sending → ssi.tagIndex ≤ ssi.tagInsertLen
  tagIndex_eq : ssi.tagState = .sending → file < ssi.parsed → ssi.tagIndex = 0
  stream : enqueued pcb.trace ++ ssiOwed site data file ssi = ssiResponse site data start
  inserts : tagInserts pcb.trace ++ insertsAhead site data ssi = fileInserts site data

variable {site : TagSite} {o : Oracle} {data : List UInt8} {start : Nat}

theorem HttpSsiState.pendingInsert_of_ne {ssi : HttpSsiState} (h : ssi.tagState ≠ .sending) :
    ssi.pendingInsert = [] := by
  simp [pendingInsert, h]

/-- When the whole file has been sent, nothing is owed and every insert has been fetched. -/
theorem SsiStream.done {pcb : Pcb} {file left : Nat} {ssi : HttpSsiState}
    (h : SsiStream site data start pcb file left ssi) (hleft : left = 0) :
    enqueued pcb.trace = ssiResponse site data start ∧
      tagInserts pcb.trace = fileInserts site data := by
  have hfile : file = data.length := by have := h.left_eq; omega
  have hparsed : ssi.parsed = data.length := by
    have := h.file_le
    have := h.parse_eq
    have := h.start_lt
    omega
  have hrest : ssi.parseLeft = 0 := by have := h.parse_eq; omega
  have howed : ssiOwed site data file ssi = [] := by
    simp [ssiOwed, Expand.window, HttpSsiState.pendingInsert, hfile, hparsed, hrest, Expand.served]
  have hahead : insertsAhead site data ssi = [] := by
    simp [insertsAhead, hparsed, Expand.inserts]
  have hstream := h.stream
  have hinserts := h.inserts
  rw [howed, List.append_nil] at hstream
  rw [hahead, List.append_nil] at hinserts
  exact ⟨hstream, hinserts⟩

namespace SsiSend

/-- What an iteration does: the scanner reads a character that completes no tag, it finds the end of
the lead-in, it reads the last character of a tag, or an insert is sent. -/
inductive Iter (site : TagSite) (o : Oracle) (data : List UInt8) (s : SsiSend) : SsiSend → Prop
  | reads {s' : SsiSend} (hstate : s.ssi.tagState ≠ .sending)
      (hreads : Reads (data.getD s.ssi.parsed 0) s s') : Iter site o data s s'
  | leadin (hstate : s.ssi.tagState = .leadin) (hidx : s.ssi.tagIndex = tagLeadIn.length) :
      Iter site o data s { s with ssi := { s.ssi with tagIndex := 0, tagState := .found } }
  | complete (hstate : s.ssi.tagState ≠ .sending)
      (hstep : s.ssi.scan.step (data.getD s.ssi.parsed 0) = (.idle, some (cstr s.ssi.tagName))) :
      Iter site o data s ({ s with ssi := s.ssi.advance }.tagComplete site o data)
  | sending (hstate : s.ssi.tagState = .sending) : Iter site o data s (s.caseSending o data)

theorem iter_spec (site : TagSite) (o : Oracle) (data : List UInt8) {s : SsiSend}
    (hscan : s.ssi.Scanning) : Iter site o data s (s.iter site o data) := by
  cases hstate : s.ssi.tagState with
  | none =>
      simp only [SsiSend.iter, hstate]
      exact .reads (by simp [hstate]) (reads_none _ hscan hstate)
  | leadin =>
      simp only [SsiSend.iter, hstate]
      by_cases hidx : s.ssi.tagIndex = tagLeadIn.length
      · rw [caseLeadin, if_pos hidx]
        exact .leadin hstate hidx
      · exact .reads (by simp [hstate]) (reads_leadin _ hscan hstate hidx)
  | found =>
      simp only [SsiSend.iter, hstate]
      exact .reads (by simp [hstate]) (reads_found _ hscan hstate)
  | leadout =>
      simp only [SsiSend.iter, hstate]
      by_cases hlast : data.getD s.ssi.parsed 0 = tagLeadOut.getD s.ssi.tagIndex 0 ∧
          s.ssi.tagIndex = tagLeadOut.length - 1 ∧
          ¬ (s.ssi.tagIndex = 0 ∧ isTagSpace (data.getD s.ssi.parsed 0))
      · obtain ⟨hb, hidx, hspace⟩ := hlast
        rw [caseLeadout, if_neg hspace, if_pos hb, if_pos hidx]
        refine .complete (by simp [hstate]) ?_
        simp only [HttpSsiState.scan, hstate, Scan.step]
        rw [if_neg hspace, if_pos hb, if_pos hidx]
      · exact .reads (by simp [hstate]) (reads_leadout _ hscan hstate hlast)
  | sending =>
      simp only [SsiSend.iter, hstate]
      exact .sending hstate

/-- The invariant of `http_send_data_ssi`, which was called with the control block `p` and
the scanner `id`. -/
structure Stream (site : TagSite) (data : List UInt8) (start : Nat) (p : Pcb) (id : Nat)
    (s : SsiSend) : Prop extends SsiStream site data start s.pcb s.file s.left s.ssi where
  sends : p.Sends s.pcb
  id_eq : s.ssi.id = id

variable {p : Pcb} {id : Nat} {s : SsiSend}

/-- An assertion changes nothing. -/
theorem Stream.check (h : Stream site data start p id s) (cond : Bool) {a : Assertion}
    (ha : (Action.assertFailed a).isSending) :
    Stream site data start p id { s with pcb := s.pcb.check cond a } :=
  { h with
    opened := (Pcb.Sends.check s.pcb ha cond).status_eq.trans h.opened
    sends := h.sends.trans (.check s.pcb ha cond)
    stream := by simpa using h.stream
    inserts := by simpa using h.inserts }

/-- Sending file bytes that have been parsed. -/
theorem Stream.writeFile (h : Stream site data start p id s) {len : Nat}
    (hlen : s.file + len ≤ s.ssi.parsed) : Stream site data start p id (s.writeFile o data len) := by
  have hparse := h.parse_eq
  have hleft := h.left_eq
  have hspec := httpWrite_wrote o h.opened .file s.file (fileMem data s.file) len
  simp only [SsiSend.writeFile]
  generalize httpWrite o s.pcb .file s.file (fileMem data s.file) len = result at hspec ⊢
  obtain ⟨err, sent, pcb⟩ := result
  dsimp only
  have hstatus := hspec.sends.status_eq.trans h.opened
  by_cases hok : err = .ok
  · have hsent : sent ≤ len := hspec.length_le hok
    have hsize := h.size_lt
    have hsub : sub32 s.left sent = s.left - sent := sub32_of_le (by omega) (by omega)
    have hbytes : enqueued pcb.trace =
        enqueued s.pcb.trace ++ bytes (fileMem data s.file) sent := hspec.bytes_eq hok
    rw [bytes_fileMem (by omega)] at hbytes
    rw [if_pos hok]
    refine {
      opened := hstatus, scanning := h.scanning, size_lt := h.size_lt, start_lt := h.start_lt
      left_eq := by simp only [hsub]; omega
      parse_eq := h.parse_eq
      start_le := Nat.le_trans h.start_le (Nat.le_add_right ..)
      file_le := Or.inr (by simp only; omega)
      tagEnd_eq := h.tagEnd_eq, insertLen_lt := h.insertLen_lt, insertLen_le := h.insertLen_le
      tagIndex_le := h.tagIndex_le
      tagIndex_eq := fun hstate hlt => h.tagIndex_eq hstate (by simp only at hlt; omega)
      sends := h.sends.trans hspec.sends, id_eq := h.id_eq
      stream := ?_, inserts := ?_ }
    · -- the file is not ahead of the scanner, so what is sent comes off the window
      have hskip : s.file - s.ssi.parsed = 0 := by omega
      have hskip' : s.file + sent - s.ssi.parsed = 0 := by omega
      have hstream := h.stream
      rw [ssiOwed, hskip, Expand.window_send (n := sent) data (by omega)] at hstream
      rw [hbytes, ssiOwed, hskip', ← hstream]
      simp only [List.append_assoc]
    · rw [hspec.inserts]
      exact h.inserts
  · rw [if_neg hok]
    exact { h with
      opened := hstatus, sends := h.sends.trans hspec.sends
      stream := by rw [hspec.refused hok]; exact h.stream
      inserts := by rw [hspec.inserts]; exact h.inserts }

/-- The blocks before and after the loop. -/
theorem Stream.sendParsed (h : Stream site data start p id s) (hgap : s.file < s.ssi.parsed) :
    Stream site data start p id (s.sendParsed o data) := by
  have hclamp := clampLen_le (s.pcb.check
    (decide (s.pcb.sndBuf.toNat < s.ssi.parsed - s.file) || decide (s.ssi.parsed - s.file ≤ 65535))
    .gapFits) (s.ssi.parsed - s.file)
  exact (h.check _ rfl).writeFile (by simp only; omega)

/-- The clamp of the two places that send the file up to the end of a tag. -/
theorem tagGap_le (gap len : Nat) : (if gap < len then u16 gap else len) ≤ gap := by
  have hmod := u16_le gap
  split <;> omega

/-- The next character while there is one. -/
theorem Stream.next (h : Stream site data start p id s) (hmore : s.ssi.parseLeft ≠ 0) :
    data[s.ssi.parsed]? = some (data.getD s.ssi.parsed 0) := by
  have hparse := h.parse_eq
  have hlt : s.ssi.parsed < data.length := by omega
  simp [List.getD_eq_getElem?_getD, List.getElem?_eq_getElem hlt]

/-- The scanner has read a character that completes no tag. -/
theorem Stream.reads (h : Stream site data start p id s) (hmore : s.ssi.parseLeft ≠ 0)
    (hstate : s.ssi.tagState ≠ .sending) {s' : SsiSend}
    (hreads : Reads (data.getD s.ssi.parsed 0) s s') : Stream site data start p id s' := by
  have hparse := h.parse_eq
  have hsize := h.size_lt
  have hb := h.next hmore
  have hleft : s'.ssi.parseLeft = s.ssi.parseLeft - 1 := by
    rw [hreads.parseLeft_eq]
    exact sub32_of_le (by omega) (by omega)
  have hfile := hreads.file_eq
  have hparsed := hreads.parsed_eq
  have hne := hreads.state_ne
  exact {
    opened := hreads.sends.status_eq.trans h.opened
    scanning := hreads.scanning, size_lt := h.size_lt, start_lt := h.start_lt
    left_eq := by rw [hfile, hreads.left_eq]; exact h.left_eq
    parse_eq := by omega
    start_le := by rw [hfile]; exact h.start_le
    file_le := by
      have := h.file_le
      omega
    tagEnd_eq := fun hs => absurd hs hne, insertLen_lt := fun hs => absurd hs hne
    insertLen_le := fun _ hs => absurd hs hne
    tagIndex_le := fun hs => absurd hs hne, tagIndex_eq := fun hs => absurd hs hne
    sends := h.sends.trans hreads.sends, id_eq := hreads.id_eq.trans h.id_eq
    stream := by
      have hstream := h.stream
      rw [ssiOwed, HttpSsiState.pendingInsert_of_ne hstate, List.nil_append,
        ← Expand.window_served_none hb hreads.step_eq] at hstream
      rw [hreads.enqueued_eq, ssiOwed, HttpSsiState.pendingInsert_of_ne hne, List.nil_append, hfile,
        hparsed, hreads.calls_eq, hstream]
    inserts := by
      have hinserts := h.inserts
      rw [insertsAhead, Expand.inserts_none hb hreads.step_eq] at hinserts
      rw [hreads.inserts_eq, insertsAhead, hparsed, hreads.calls_eq, hinserts] }

/-- The last character of a tag has been read. -/
theorem Stream.tagComplete (h : Stream site data start p id s) (hmore : s.ssi.parseLeft ≠ 0)
    (hstate : s.ssi.tagState ≠ .sending)
    (hstep : s.ssi.scan.step (data.getD s.ssi.parsed 0) = (.idle, some (cstr s.ssi.tagName))) :
    Stream site data start p id ({ s with ssi := s.ssi.advance }.tagComplete site o data) := by
  obtain ⟨mem, len, hget, hbytes, hlt, hlen⟩ := getTagInsert_spec site s.ssi.advance
  have hparse := h.parse_eq
  have hsize := h.size_lt
  have hb := h.next hmore
  have hleft : s.ssi.advance.parseLeft = s.ssi.parseLeft - 1 :=
    HttpSsiState.advance_parseLeft hmore (by omega)
  have htext : tagText site s.ssi.calls (cstr s.ssi.tagName) = bytes mem len := hbytes.symm
  -- the insert is now owed in front of the rest of the file
  have hfetched : Stream site data start p id
      { s with
        pcb := s.pcb.log (.tagInsert (s.ssi.parsed + 1) (cstr s.ssi.tagName) (bytes mem len))
        ssi := { s.ssi.advance with
          calls := s.ssi.calls + 1, tagInsert := mem, tagInsertLen := len, tagIndex := 0
          tagState := .sending, tagEnd := s.ssi.parsed + 1 } } := {
    opened := h.opened
    scanning := ⟨h.scanning.name_length, nofun, nofun, nofun⟩
    size_lt := h.size_lt, start_lt := h.start_lt, left_eq := h.left_eq
    parse_eq := by simp only [HttpSsiState.advance_parsed, hleft]; omega
    start_le := h.start_le
    file_le := by
      have := h.file_le
      simp only [HttpSsiState.advance_parsed]
      omega
    tagEnd_eq := fun _ => rfl, insertLen_lt := fun _ => hlt, insertLen_le := fun hfits _ => hlen hfits
    tagIndex_le := fun _ => Nat.zero_le _, tagIndex_eq := fun _ _ => rfl
    sends := h.sends.trans (.log s.pcb rfl), id_eq := h.id_eq
    stream := by
      have hstream := h.stream
      rw [ssiOwed, HttpSsiState.pendingInsert_of_ne hstate, List.nil_append,
        ← Expand.window_served_some hb hstep, htext] at hstream
      have hend : s.ssi.parseLeft - 1 ≠ 0 ↔ s.ssi.parsed + 1 < data.length := by omega
      simp only [Pcb.log, enqueued_append, enqueued_cons, enqueued_nil, Action.sentBytes,
        List.append_nil, ssiOwed, HttpSsiState.pendingInsert, HttpSsiState.insertMem,
        HttpSsiState.advance_parsed, HttpSsiState.scan, hleft, hend, true_and, shift_zero,
        Nat.sub_zero]
      exact hstream
    inserts := by
      have hinserts := h.inserts
      rw [insertsAhead, Expand.inserts_some hb hstep, htext] at hinserts
      simpa [Pcb.log, tagInserts, Action.insertAt, insertsAhead, HttpSsiState.scan] using hinserts }
  simp only [SsiSend.tagComplete, hget]
  split
  next hgap =>
    -- the file in front of the tag is sent at once
    exact hfetched.writeFile (Nat.add_le_of_le_sub' (Nat.le_of_lt hgap) (tagGap_le _ _))
  next => exact hfetched

/-- `case TAG_SENDING` -/
theorem Stream.caseSending (h : Stream site data start p id s) (hmore : s.ssi.parseLeft ≠ 0)
    (hstate : s.ssi.tagState = .sending) :
    Stream site data start p id (s.caseSending o data) := by
  have hend := h.tagEnd_eq hstate
  have hindex := h.tagIndex_le hstate
  have hinsert := h.insertLen_lt hstate
  simp only [SsiSend.caseSending]
  split
  next hgap =>
    -- a part of the file in front of the tag
    have hle := tagGap_le (s.ssi.tagEnd - s.file) s.len
    exact h.writeFile (by omega)
  next hgap =>
    -- nothing is owed of the file, so the next bytes are those of the insert
    have hwindow : Expand.window data s.file s.ssi.parsed = [] :=
      Expand.window_of_le data (by omega)
    split
    next hrest =>
      have hle := tagGap_le (s.ssi.tagInsertLen - s.ssi.tagIndex) s.len
      generalize (if s.ssi.tagInsertLen - s.ssi.tagIndex < s.len
        then u16 (s.ssi.tagInsertLen - s.ssi.tagIndex) else s.len) = len at hle
      have hspec := httpWrite_wrote o h.opened .insert s.ssi.tagIndex s.ssi.insertMem len
      generalize httpWrite o s.pcb .insert s.ssi.tagIndex s.ssi.insertMem len = result at hspec ⊢
      obtain ⟨err, sent, pcb⟩ := result
      dsimp only
      have hstatus := hspec.sends.status_eq.trans h.opened
      by_cases hok : err = .ok
      · have hsent : sent ≤ len := hspec.length_le hok
        have hmod : u16 (s.ssi.tagIndex + sent) = s.ssi.tagIndex + sent :=
          u16_of_lt (by omega)
        simp only [hok, if_true, hmod]
        refine { h with
          opened := hstatus, sends := h.sends.trans hspec.sends
          scanning := ⟨h.scanning.name_length, by simp [hstate], by simp [hstate], by simp [hstate]⟩
          tagIndex_le := fun _ => by simp only; omega
          tagIndex_eq := fun _ hlt => by simp only at hlt; omega
          stream := ?_
          inserts := by
            rw [hspec.inserts]
            simpa only [insertsAhead, HttpSsiState.scan, hstate] using h.inserts }
        have hstream := h.stream
        have hsplit : s.ssi.tagInsertLen - s.ssi.tagIndex =
            sent + (s.ssi.tagInsertLen - (s.ssi.tagIndex + sent)) := by omega
        rw [ssiOwed, hwindow, List.nil_append, HttpSsiState.pendingInsert,
          if_pos ⟨hstate, hmore⟩, hsplit, bytes_add] at hstream
        rw [hspec.bytes_eq hok, ← hstream]
        simp only [ssiOwed, hwindow, List.nil_append, HttpSsiState.pendingInsert, hstate, hmore,
          HttpSsiState.insertMem, shift_shift, HttpSsiState.scan, ne_eq, not_false_eq_true,
          and_self, if_true, List.append_assoc]
      · simp only [hok, if_false]
        exact { h with
          opened := hstatus, sends := h.sends.trans hspec.sends
          stream := by rw [hspec.refused hok]; exact h.stream
          inserts := by rw [hspec.inserts]; exact h.inserts }
    next hrest =>
      -- the insert has been sent, and the scanner starts again
      have hidle : s.ssi.tagInsertLen - s.ssi.tagIndex = 0 := by omega
      exact { h with
        scanning := ⟨h.scanning.name_length, by simp, by simp, by simp⟩
        tagEnd_eq := by simp, insertLen_lt := by simp, insertLen_le := by simp
        tagIndex_le := by simp, tagIndex_eq := by simp
        stream := by
          simpa [ssiOwed, HttpSsiState.pendingInsert, HttpSsiState.scan, hstate, hidle]
            using h.stream
        inserts := by simpa [insertsAhead, HttpSsiState.scan, hstate] using h.inserts }

/-- One iteration. -/
theorem Stream.iter (h : Stream site data start p id s) (hmore : s.ssi.parseLeft ≠ 0) :
    Stream site data start p id (s.iter site o data) := by
  have hscan := h.scanning
  have hspec := iter_spec site o data hscan
  generalize s.iter site o data = s' at hspec ⊢
  cases hspec with
  | reads hstate hreads => exact h.reads hmore hstate hreads
  | leadin hstate hidx =>
      exact { h with
        scanning := ⟨hscan.name_length, nofun, fun _ => Nat.zero_le _, nofun⟩
        tagEnd_eq := nofun, insertLen_lt := nofun, insertLen_le := fun _ => nofun
        tagIndex_le := nofun, tagIndex_eq := nofun
        stream := by
          simpa [ssiOwed, HttpSsiState.pendingInsert, HttpSsiState.scan, hstate, hidx]
            using h.stream
        inserts := by simpa [insertsAhead, HttpSsiState.scan, hstate, hidx] using h.inserts }
  | complete hstate hstep => exact h.tagComplete hmore hstate hstep
  | sending hstate => exact h.caseSending hmore hstate

/-- The block behind the loop. -/
theorem scanAndSend_cases {t : SsiSend} {returned : Bool}
    (hloop : s.loop site o data (s.loopFuel data) = (t, returned)) :
    s.scanAndSend site o data = t ∨
      (t.file < t.ssi.parsed ∧ s.scanAndSend site o data = t.sendParsed o data) := by
  rw [SsiSend.scanAndSend, hloop]
  dsimp only
  split
  next => exact Or.inl rfl
  next =>
    split
    next hgap => exact Or.inr ⟨hgap.2, rfl⟩
    next => exact Or.inl rfl

section Invariant

variable {I : SsiSend → Prop}
  (hiter : ∀ s, I s → s.ssi.parseLeft ≠ 0 → I (s.iter site o data))
  (hparsed : ∀ s, I s → s.file < s.ssi.parsed → I (s.sendParsed o data))
include hiter

/-- What every iteration keeps, the loop keeps. -/
theorem loop_invariant (h : I s) (fuel : Nat) : I (s.loop site o data fuel).1 := by
  induction fuel generalizing s with
  | zero => exact h
  | succ fuel ih =>
      rw [SsiSend.loop]
      split
      next => exact h
      next hgo =>
        split
        next => exact h
        next => exact ih (hiter s h fun hzero => hgo (Or.inl hzero))

include hparsed

theorem scanAndSend_invariant (h : I s) : I (s.scanAndSend site o data) := by
  have hloop := loop_invariant hiter h (s.loopFuel data)
  rcases hresult : s.loop site o data (s.loopFuel data) with ⟨t, returned⟩
  rw [hresult] at hloop
  rcases scanAndSend_cases hresult with heq | ⟨hgap, heq⟩
  · rw [heq]
    exact hloop
  · rw [heq]
    exact hparsed t hloop hgap

/-- What every iteration keeps, and sending what has been parsed, `http_send_data_ssi` keeps. -/
theorem send_invariant (h : I s) : I (s.send site o data) := by
  rw [SsiSend.send]
  split
  next hgap =>
    have hsent := hparsed s h hgap
    dsimp only
    split
    next => exact hsent
    next => exact scanAndSend_invariant hiter hparsed hsent
  next => exact scanAndSend_invariant hiter hparsed h

end Invariant

/-- The body of `http_send_data_ssi` keeps the invariant. -/
theorem Stream.send (h : Stream site data start p id s) :
    Stream site data start p id (s.send site o data) :=
  send_invariant (fun _ h hmore => h.iter hmore) (fun _ h hgap => h.sendParsed hgap) h

end SsiSend

end Meu1oARM
