import Meu1oARM.Foundation.Tokens
import Meu1oARM.Httpd.World

/-! # The tags that are looked up

A connection with a scanner looks up the tags that the scanner reports, one after the
other. At every point of `http_send_data_ssi` those that have been looked up and those that
are still to be reported are all of them.
-/

namespace Meu1oARM

open Machine CString Tokens

variable {site : TagSite} {o : Oracle} {data : List UInt8}

/-- The name that an action looks up, with the offset of the end of its tag. -/
def Action.tagCall : Action → Option (Nat × List UInt8)
  | .tagInsert pos name _ => some (pos, name)
  | _ => none

def tagCalls (trace : List Action) : List (Nat × List UInt8) := trace.filterMap Action.tagCall

/-- The tags that the scanner reports in a file. -/
def fileTags (data : List UInt8) : List (Nat × List UInt8) := reported Scan.step .idle 0 data

/-- What has been looked up, and what the scanner is still to report. -/
def Looks (data : List UInt8) (trace : List Action) (ssi : HttpSsiState) : Prop :=
  tagCalls trace ++ reported Scan.step ssi.scan ssi.parsed (data.drop ssi.parsed) = fileTags data

@[simp] theorem tagCalls_append (s t : List Action) : tagCalls (s ++ t) = tagCalls s ++ tagCalls t :=
  List.filterMap_append

@[simp] theorem tagCalls_cons (a : Action) (t : List Action) :
    tagCalls (a :: t) = a.tagCall.toList ++ tagCalls t := by
  cases hcall : a.tagCall <;> simp [tagCalls, hcall]

@[simp] theorem tagCalls_nil : tagCalls [] = [] := rfl

/-- Where no insert is fetched, nothing is looked up. -/
theorem tagCalls_eq_nil {acts : List Action} (h : tagInserts acts = []) : tagCalls acts = [] := by
  refine List.filterMap_eq_nil_iff.mpr fun a ha => ?_
  have hnone := List.filterMap_eq_nil_iff.mp h a ha
  cases a <;> first | rfl | simp [Action.insertAt] at hnone

theorem tagCalls_of_quiet {acts : List Action} (h : ∀ a ∈ acts, a.isQuiet) : tagCalls acts = [] :=
  tagCalls_eq_nil (tagInserts_of_quiet h)

/-- Sending that fetches no insert looks nothing up. -/
theorem Pcb.Sends.tagCalls_eq {p q : Pcb} (h : p.Sends q)
    (hinserts : tagInserts q.trace = tagInserts p.trace) : tagCalls q.trace = tagCalls p.trace := by
  obtain ⟨acts, -, htrace⟩ := h.trace_eq
  rw [htrace, tagInserts_append, List.append_right_eq_self] at hinserts
  rw [htrace, tagCalls_append, tagCalls_eq_nil hinserts, List.append_nil]

theorem Looks.congr {s t : List Action} {ssi ssi' : HttpSsiState} (h : Looks data t ssi)
    (hcalls : tagCalls s = tagCalls t) (hscan : ssi'.scan = ssi.scan)
    (hparsed : ssi'.parsed = ssi.parsed) : Looks data s ssi' := by
  rw [Looks, hcalls, hscan, hparsed]
  exact h

/-! ## The scanner of the source -/

namespace SsiSend

variable {start : Nat} {p : Pcb} {id : Nat} {s : SsiSend}

/-- The invariant of `http_send_data_ssi` with what has been looked up. -/
structure Looking (site : TagSite) (data : List UInt8) (start : Nat) (p : Pcb) (id : Nat)
    (s : SsiSend) : Prop extends Stream site data start p id s where
  looks : Looks data s.pcb.trace s.ssi

variable (o data) in
/-- Sending bytes of the file changes neither the scanner nor what has been looked up. -/
theorem writeFile_scan (hopen : s.pcb.status = .opened) (len : Nat) :
    (s.writeFile o data len).ssi = s.ssi ∧
      tagCalls (s.writeFile o data len).pcb.trace = tagCalls s.pcb.trace := by
  have hspec := httpWrite_wrote o hopen .file s.file (fileMem data s.file) len
  have hcalls := hspec.sends.tagCalls_eq hspec.inserts
  simp only [SsiSend.writeFile]
  generalize httpWrite o s.pcb .file s.file (fileMem data s.file) len = result at hcalls ⊢
  obtain ⟨err, sent, pcb⟩ := result
  dsimp only at hcalls ⊢
  split
  · exact ⟨rfl, hcalls⟩
  · exact ⟨rfl, hcalls⟩

theorem Looking.sendParsed (h : Looking site data start p id s) (hgap : s.file < s.ssi.parsed) :
    Looking site data start p id (s.sendParsed o data) := by
  refine ⟨h.toStream.sendParsed hgap, ?_⟩
  simp only [SsiSend.sendParsed]
  generalize (decide (s.pcb.sndBuf.toNat < s.ssi.parsed - s.file) ||
    decide (s.ssi.parsed - s.file ≤ 65535)) = cond
  have hsends : s.pcb.Sends (s.pcb.check cond .gapFits) := .check s.pcb rfl cond
  obtain ⟨hssi, hcalls⟩ := writeFile_scan o data
    (s := { s with pcb := s.pcb.check cond .gapFits }) (hsends.status_eq.trans h.opened)
    (clampLen (s.pcb.check cond .gapFits) (s.ssi.parsed - s.file))
  refine h.looks.congr (hcalls.trans (hsends.tagCalls_eq (by simp))) ?_ ?_
  · rw [hssi]
  · rw [hssi]

/-- While an insert is sent, the scanner is idle and nothing is looked up. -/
theorem Looking.caseSending (h : Looking site data start p id s) (hmore : s.ssi.parseLeft ≠ 0)
    (hstate : s.ssi.tagState = .sending) :
    Looking site data start p id (s.caseSending o data) := by
  refine ⟨h.toStream.caseSending hmore hstate, ?_⟩
  have hidle : s.ssi.scan = .idle := by simp only [HttpSsiState.scan, hstate]
  simp only [SsiSend.caseSending]
  split
  next =>
    obtain ⟨hssi, hcalls⟩ := writeFile_scan o data h.opened
      (if s.ssi.tagEnd - s.file < s.len then u16 (s.ssi.tagEnd - s.file) else s.len)
    exact h.looks.congr hcalls (by rw [hssi]) (by rw [hssi])
  next =>
    split
    next =>
      generalize (if s.ssi.tagInsertLen - s.ssi.tagIndex < s.len
        then u16 (s.ssi.tagInsertLen - s.ssi.tagIndex) else s.len) = len
      have hspec := httpWrite_wrote o h.opened .insert s.ssi.tagIndex s.ssi.insertMem len
      have hcalls := hspec.sends.tagCalls_eq hspec.inserts
      generalize httpWrite o s.pcb .insert s.ssi.tagIndex s.ssi.insertMem len = result at hcalls ⊢
      obtain ⟨err, sent, pcb⟩ := result
      dsimp only at hcalls ⊢
      split
      · refine h.looks.congr hcalls ?_ rfl
        rw [hidle]
        simp only [HttpSsiState.scan, hstate]
      · exact h.looks.congr hcalls rfl rfl
    next =>
      refine h.looks.congr rfl ?_ rfl
      rw [hidle]
      rfl

/-- The tag whose last character is read is looked up. -/
theorem Looking.tagComplete (h : Looking site data start p id s) (hmore : s.ssi.parseLeft ≠ 0)
    (hstate : s.ssi.tagState ≠ .sending)
    (hstep : s.ssi.scan.step (data.getD s.ssi.parsed 0) = (.idle, some (cstr s.ssi.tagName))) :
    Looking site data start p id ({ s with ssi := s.ssi.advance }.tagComplete site o data) := by
  refine ⟨h.toStream.tagComplete hmore hstate hstep, ?_⟩
  obtain ⟨mem, len, hget, -, -⟩ := getTagInsert_spec site s.ssi.advance
  have hlooks := h.looks
  rw [Looks, Expand.drop_of_getElem? (h.next hmore), reported, hstep] at hlooks
  have hfetched : Looks data
      (s.pcb.log (.tagInsert (s.ssi.parsed + 1) (cstr s.ssi.tagName) (bytes mem len))).trace
      { s.ssi.advance with
        calls := s.ssi.calls + 1, tagInsert := mem, tagInsertLen := len, tagIndex := 0
        tagState := .sending, tagEnd := s.ssi.parsed + 1 } := by
    simpa [Looks, Pcb.log, Action.tagCall, HttpSsiState.scan] using hlooks
  simp only [SsiSend.tagComplete, hget]
  split
  next =>
    have hopen : (s.pcb.log
        (.tagInsert (s.ssi.parsed + 1) (cstr s.ssi.tagName) (bytes mem len))).status = .opened :=
      h.opened
    obtain ⟨hssi, hcalls⟩ := writeFile_scan o data
      (s := { s with
        pcb := s.pcb.log (.tagInsert (s.ssi.parsed + 1) (cstr s.ssi.tagName) (bytes mem len))
        ssi := { s.ssi.advance with
          calls := s.ssi.calls + 1, tagInsert := mem, tagInsertLen := len, tagIndex := 0
          tagState := .sending, tagEnd := s.ssi.parsed + 1 } }) hopen
      (if s.ssi.parsed + 1 - s.file < s.len then u16 (s.ssi.parsed + 1 - s.file) else s.len)
    refine hfetched.congr hcalls ?_ ?_
    · exact congrArg HttpSsiState.scan hssi
    · exact congrArg HttpSsiState.parsed hssi
  next => exact hfetched

theorem Looking.iter (h : Looking site data start p id s) (hmore : s.ssi.parseLeft ≠ 0) :
    Looking site data start p id (s.iter site o data) := by
  have hstream := h.toStream.iter (o := o) hmore
  have hspec := iter_spec site o data h.scanning
  generalize s.iter site o data = s' at hspec hstream ⊢
  cases hspec with
  | reads hstate hreads =>
      refine ⟨hstream, ?_⟩
      have hlooks := h.looks
      rw [Looks, Expand.drop_of_getElem? (h.next hmore), reported, hreads.step_eq] at hlooks
      rw [Looks, hreads.parsed_eq, hreads.sends.tagCalls_eq hreads.inserts_eq]
      exact hlooks
  | leadin hstate hidx =>
      refine ⟨hstream, h.looks.congr rfl ?_ rfl⟩
      simp only [HttpSsiState.scan, hstate, hidx, if_true, List.take_zero]
  | complete hstate hstep => exact h.tagComplete hmore hstate hstep
  | sending hstate => exact h.caseSending hmore hstate

theorem Looking.send (h : Looking site data start p id s) :
    Looking site data start p id (s.send site o data) :=
  send_invariant (fun _ h hmore => h.iter hmore) (fun _ h hgap => h.sendParsed hgap) h

end SsiSend

/-! ## Sending -/

variable {σ : Type} {site : Site σ} {f : FsFile} {start : Nat} {c : Ctx σ} {hs : HttpState}

/-- `http_send` while a file is served. -/
theorem httpSend_looks (hcell : c.cell = .live hs) (hleft : hs.left ≠ 0)
    (h : Serving site f start c.pcb hs)
    (hlooks : ∀ ssi, hs.ssi = some ssi → Looks f.data c.pcb.trace ssi) :
    ∃ pcb' hs', c.pcb.Sends pcb' ∧ hs.SentTo hs' ∧ Serving site f start pcb' hs' ∧
      (∀ ssi, hs'.ssi = some ssi → Looks f.data pcb'.trace ssi) ∧
        ((httpSend site o c).2 = { c with pcb := pcb', cell := .live hs' } ∨
          (hs'.left = 0 ∧ httpSend site o c =
            (0, ({ c with pcb := pcb', cell := .live hs' }.log .eof).closed o hs'))) := by
  cases hssi : hs.ssi with
  | none =>
      obtain ⟨pcb', hs', hsends, hsent, hserving, hout⟩ := httpSend_serving (o := o) hcell hleft h
      have hnone : hs'.ssi = none := by simpa [hssi] using hsent.2
      exact ⟨pcb', hs', hsends, hsent, hserving, by simp [hnone], hout.imp And.right id⟩
  | some ssi =>
      obtain ⟨file, hfile, hsending | hnothing⟩ := h.sending
      case inr => exact absurd hnothing.left_eq hleft
      rw [hssi] at hsending
      have hstream : SsiStream site f.data start c.pcb file hs.left ssi := hsending
      -- the loop starts from what the calls before have left
      have hlooking : SsiSend.Looking site f.data start c.pcb ssi.id
          { pcb := c.pcb, ssi, file, left := hs.left, err := .ok, len := c.pcb.sndBuf.toNat
            dataToSend := 0 } :=
        { hstream with sends := .refl c.pcb, id_eq := rfl, looks := hlooks ssi hssi }
      have hsent := hlooking.send (o := o)
      have hdata : hs.handle.elim [] FsFile.data = f.data := by simp [h.handle]
      simp only [httpSend, hcell, Ctx.readHs_of_live hcell, Ctx.hs_of_live hcell, if_neg hleft,
        httpSendData, hdata, hssi, httpSendDataSsi, Pcb.touch_of_opened h.opened, hfile,
        Option.getD_some]
      generalize SsiSend.send site o f.data _ = s at hsent ⊢
      rw [Ctx.setHs_of_live (c := { c with pcb := s.pcb, cell := .live hs }) rfl]
      have hserving : Serving site f start s.pcb
          { hs with file := some s.file, left := s.left, ssi := some s.ssi } :=
        ⟨h.handle, h.index, s.file, rfl, Or.inl hsent.toSsiStream⟩
      refine ⟨s.pcb, { hs with file := some s.file, left := s.left, ssi := some s.ssi },
        hsent.sends, ⟨rfl, by simp [hssi, hsent.id_eq]⟩, hserving, ?_, ?_⟩
      · intro ssi' hssi'
        obtain rfl : s.ssi = ssi' := Option.some.inj hssi'
        exact hsent.looks
      · rw [sent_eq o (c := { c with
          pcb := s.pcb
          cell := .live { hs with file := some s.file, left := s.left, ssi := some s.ssi } }) rfl
          hserving]
        by_cases hdone : s.left = 0
        · rw [if_pos hdone]
          exact Or.inr ⟨hdone, rfl⟩
        · rw [if_neg hdone]
          exact Or.inl rfl

/-- The connection has looked up the tags of the file that it serves as far as it has been scanned,
and all of them when the file has ended. -/
structure Scanned (c : Ctx σ) : Prop where
  serving : ∀ hs f ssi, c.cell = .live hs → hs.handle = some f → hs.ssi = some ssi →
    Looks f.data c.pcb.trace ssi
  ended : (∀ hs, c.cell ≠ .live hs) → .eof ∈ c.pcb.trace → ∀ x ∈ openings c.pcb.trace,
    x.ssi = true → x.start < x.data.length → tagCalls c.pcb.trace = fileTags x.data

/-- When nothing is left of the file, all of it has been scanned. -/
theorem Serving.looked {ssi : HttpSsiState} (h : Serving site f start c.pcb hs) (hleft : hs.left = 0)
    (hssi : hs.ssi = some ssi) (hlooks : Looks f.data c.pcb.trace ssi)
    (hstart : start < f.data.length) : tagCalls c.pcb.trace = fileTags f.data := by
  obtain ⟨file, -, hsending | hnothing⟩ := h.sending
  · rw [hssi] at hsending
    have hstream : SsiStream site f.data start c.pcb file hs.left ssi := hsending
    have hparsed : f.data.length ≤ ssi.parsed := by
      have hfile := hstream.left_eq
      have hle := hstream.file_le
      omega
    rw [Looks, List.drop_of_length_le hparsed, reported, List.append_nil] at hlooks
    exact hlooks
  · have heq := hnothing.start_eq
    omega

/-- The end of the file closes the connection. -/
theorem scanned_of_eof (o : Oracle) (hs : HttpState)
    (h : ∀ x ∈ openings c.pcb.trace, x.ssi = true → x.start < x.data.length →
      tagCalls c.pcb.trace = fileTags x.data) : Scanned ((c.log .eof).closed o hs).leave := by
  have hquiet : ∀ a ∈ hs.releases ++ [.closed o.close], a.isQuiet := by
    intro a ha
    rcases List.mem_append.mp ha with hmem | hmem
    · exact hs.releases_quiet a hmem
    · obtain rfl := List.mem_singleton.mp hmem
      rfl
  have htrace : ((c.log .eof).closed o hs).leave.pcb.trace =
      c.pcb.trace ++ [.eof] ++ (hs.releases ++ [.closed o.close]) := by
    simp [Ctx.leave_pcb, Ctx.closed, Pcb.shut, Ctx.log, Pcb.log]
  refine ⟨fun hs' _ _ hlive => absurd hlive (Cell.null_ne_live hs'),
    fun _ _ x hx hssi hstart => ?_⟩
  rw [htrace, openings_append, openings_append, openings_of_quiet hquiet] at hx
  rw [htrace, tagCalls_append, tagCalls_append, tagCalls_of_quiet hquiet]
  simpa [Action.opening, Action.tagCall] using h x (by simpa [Action.opening] using hx) hssi hstart

/-- Sending looks up the tags that the scanner passes. -/
theorem httpSend_scanned (hcell : c.cell = .live hs) (hopen : c.pcb.status = .opened)
    (harg : c.pcb.callbackArg = .state hs.addr) (hactive : Active site c.pcb hs)
    (h : Scanned c) : Scanned (httpSend site o c).2.leave := by
  obtain ⟨-, ⟨hwaiting, -, -, hnone⟩ | ⟨f, is09, hserving, -, hone⟩⟩ := hactive
  · rw [httpSend_eof hcell hopen hwaiting.left (by simp [hwaiting.handle])]
    apply scanned_of_eof
    rw [hnone]
    exact nofun
  have hlooks : ∀ ssi, hs.ssi = some ssi → Looks f.data c.pcb.trace ssi :=
    fun ssi => h.serving hs f ssi hcell hserving.handle
  by_cases hleft : hs.left = 0
  · rw [httpSend_eof hcell hopen hleft (by simp [hserving.handle, hserving.index])]
    apply scanned_of_eof
    rw [hone]
    intro x hx hssi hstart
    obtain rfl := List.mem_singleton.mp hx
    obtain ⟨ssi, hssi⟩ := Option.isSome_iff_exists.mp hssi
    exact hserving.looked hleft hssi (hlooks ssi hssi) hstart
  obtain ⟨pcb', hs', hsends, hsent, hserving', hlooks', hstay | ⟨hleft', hdone⟩⟩ :=
    httpSend_looks (o := o) hcell hleft hserving hlooks
  · rw [hstay, Ctx.leave_of_state (hsends.callbackArg_eq.trans harg)]
    refine ⟨fun hs'' f' ssi hlive hhandle hssi => ?_, fun hdead => absurd rfl (hdead hs')⟩
    obtain rfl := Cell.live.inj hlive
    obtain rfl : f = f' := Option.some.inj (hserving'.handle.symm.trans hhandle)
    exact hlooks' ssi hssi
  · obtain ⟨acts, hsending, htrace⟩ := hsends.trace_eq
    have hssi' : hs'.ssi.isSome = hs.ssi.isSome := by
      simpa using congrArg Option.isSome hsent.2
    rw [hdone]
    apply scanned_of_eof
    have hopenings : openings pcb'.trace = [⟨f.data, is09, headerEnd f is09, hs'.ssi.isSome⟩] := by
      rw [htrace, openings_append, openings_of_sending hsending, List.append_nil, hone, hssi']
    rw [hopenings]
    intro x hx hssi hstart
    obtain rfl := List.mem_singleton.mp hx
    obtain ⟨ssi, hssi⟩ := Option.isSome_iff_exists.mp hssi
    exact hserving'.looked hleft' hssi (hlooks' ssi hssi) hstart

/-! ## Before and after -/

/-- The scanner of a file that has just been opened has everything ahead of it. -/
theorem Opens.scanned {is09 : Bool} {id : Nat} {acts : List Action} (h : Opens is09 id hs acts)
    {req : List Pbuf} (hcell : c.cell = .live { hs with req := req })
    (hnone : tagInserts c.pcb.trace = []) : Scanned c := by
  refine ⟨fun hs' f ssi hlive hhandle hssi => ?_, fun hdead => absurd hcell (hdead _)⟩
  obtain rfl := Cell.live.inj (hcell.symm.trans hlive)
  cases h with
  | nothing hwaiting => exact absurd (hwaiting.handle.symm.trans hhandle) nofun
  | plain _ _ _ _ _ hplain => exact absurd (hplain.symm.trans hssi) nofun
  | ssi f' hhandle' _ _ _ hssi' =>
      obtain rfl : f' = f := Option.some.inj (hhandle'.symm.trans hhandle)
      obtain rfl : httpSsiStateInit id f' = ssi := Option.some.inj (hssi'.symm.trans hssi)
      rw [Looks, tagCalls_eq_nil hnone]
      rfl

section Quiet

variable {c' : Ctx σ} {acts : List Action} (htrace : c'.pcb.trace = c.pcb.trace ++ acts)
  (hquiet : ∀ a ∈ acts, a.isQuiet)
include htrace hquiet

/-- While the file and the scanner stay, nothing else matters. -/
theorem Scanned.live {hs' : HttpState} (h : Scanned c) (hcell : c.cell = .live hs)
    (hcell' : c'.cell = .live hs') (hhandle : hs'.handle = hs.handle) (hssi : hs'.ssi = hs.ssi) :
    Scanned c' := by
  refine ⟨fun hs'' f ssi hlive hf hscan => ?_, fun hdead => absurd hcell' (hdead hs')⟩
  obtain rfl : hs' = hs'' := Cell.live.inj (hcell'.symm.trans hlive)
  rw [Looks, htrace, tagCalls_append, tagCalls_of_quiet hquiet, List.append_nil]
  exact h.serving hs f ssi hcell (hhandle.symm.trans hf) (hssi.symm.trans hscan)

/-- Once the connection has no state, nothing more is looked up. -/
theorem Scanned.dead (h : Scanned c) (hdead : ∀ hs, c.cell ≠ .live hs)
    (hdead' : ∀ hs, c'.cell ≠ .live hs) : Scanned c' := by
  have hsame : SameAnswer c'.pcb.trace c.pcb.trace := htrace ▸ .append_quiet _ hquiet
  refine ⟨fun hs' _ _ hlive => absurd hlive (hdead' hs'), fun _ heof => ?_⟩
  rw [hsame.openings_eq, htrace, tagCalls_append, tagCalls_of_quiet hquiet, List.append_nil]
  exact h.ended hdead (hsame.eof_iff.mp heof)

/-- A connection that is torn down has not reached the end of its file. -/
theorem scanned_of_torn (heof : .eof ∉ c.pcb.trace) (hdead' : ∀ hs, c'.cell ≠ .live hs) :
    Scanned c' := by
  have hsame : SameAnswer c'.pcb.trace c.pcb.trace := htrace ▸ .append_quiet _ hquiet
  exact ⟨fun hs' _ _ hlive => absurd hlive (hdead' hs'),
    fun _ hmem => absurd (hsame.eof_iff.mp hmem) heof⟩

end Quiet

theorem Scanned.congr {c' : Ctx σ} {hs' : HttpState} (h : Scanned c)
    (htrace : c'.pcb.trace = c.pcb.trace) (hcell : c.cell = .live hs) (hcell' : c'.cell = .live hs')
    (hhandle : hs'.handle = hs.handle) (hssi : hs'.ssi = hs.ssi) : Scanned c' := by
  have hnothing : c'.pcb.trace = c.pcb.trace ++ [] := by rw [htrace, List.append_nil]
  exact h.live hnothing nofun hcell hcell' hhandle hssi

end Meu1oARM
