import Meu1oARM.Httpd.Send
import Meu1oARM.Httpd.SsiStream

/-! # What a connection owes while it serves a file

With and without tags, an open file stands for one response, and `http_send`
moves bytes from what is owed to what has been enqueued until nothing is owed.
-/

namespace Meu1oARM

variable {σ : Type}

/-- The response for a file from the offset `start` on. -/
def response (site : Site σ) (data : List UInt8) (start : Nat) (ssi : Bool) : List UInt8 :=
  if ssi then ssiResponse site data start else data.drop start

/-- The file has been sent from `start` up to `file`. -/
def Sending (site : Site σ) (data : List UInt8) (start : Nat) (pcb : Pcb) (file left : Nat) :
    Option HttpSsiState → Prop
  | none => PlainStream data start pcb file left
  | some ssi => SsiStream site data start pcb file left ssi

/-- A response that starts at the end of the file has no bytes, and nothing is done for it. -/
structure NothingToSend (data : List UInt8) (start : Nat) (pcb : Pcb) (file left : Nat) :
    Prop where
  opened : pcb.status = .opened
  start_eq : start = data.length
  file_eq : file = start
  left_eq : left = 0
  enqueued_eq : enqueued pcb.trace = []
  inserts_eq : tagInserts pcb.trace = []

/-- The connection serves the file `f`, from the offset `start` on. -/
structure Serving (site : Site σ) (f : FsFile) (start : Nat) (pcb : Pcb) (hs : HttpState) :
    Prop where
  handle : hs.handle = some f
  index : f.index = f.data.length
  sending : ∃ file, hs.file = some file ∧
    (Sending site f.data start pcb file hs.left hs.ssi ∨
      NothingToSend f.data start pcb file hs.left)

/-- The state `hs'` is `hs` after some sending. -/
def HttpState.SentTo (hs hs' : HttpState) : Prop :=
  hs' = { hs with file := hs'.file, left := hs'.left, ssi := hs'.ssi } ∧
    hs'.ssi.map HttpSsiState.id = hs.ssi.map HttpSsiState.id

variable {site : Site σ} {o : Oracle} {f : FsFile} {start : Nat} {pcb : Pcb} {hs : HttpState}

theorem Sending.opened {data : List UInt8} {file left : Nat} {ssi : Option HttpSsiState}
    (h : Sending site data start pcb file left ssi) : pcb.status = .opened := by
  cases ssi with
  | none => exact PlainStream.opened h
  | some ssi => exact SsiStream.opened h

theorem Serving.opened (h : Serving site f start pcb hs) : pcb.status = .opened := by
  obtain ⟨_, _, hsending | hnothing⟩ := h.sending
  · exact hsending.opened
  · exact hnothing.opened

theorem Serving.bytesLeft_le (h : Serving site f start pcb hs) :
    hs.handle.elim 0 fsBytesLeft ≤ 0 := by
  simp [h.handle, fsBytesLeft, FsFile.len, h.index]

/-- Only what has been enqueued and fetched on the connection counts. -/
theorem Sending.congr {data : List UInt8} {file left : Nat} {ssi : Option HttpSsiState} {q : Pcb}
    (h : Sending site data start pcb file left ssi) (hopen : q.status = .opened)
    (henq : enqueued q.trace = enqueued pcb.trace)
    (hins : tagInserts q.trace = tagInserts pcb.trace) :
    Sending site data start q file left ssi := by
  cases ssi with
  | none =>
      have hplain : PlainStream data start pcb file left := h
      exact { hplain with opened := hopen, stream := by rw [henq]; exact hplain.stream }
  | some ssi =>
      have hssi : SsiStream site data start pcb file left ssi := h
      exact { hssi with
        opened := hopen
        stream := by rw [henq]; exact hssi.stream
        inserts := by rw [hins]; exact hssi.inserts }

theorem Serving.congr {q : Pcb} (h : Serving site f start pcb hs) (hopen : q.status = .opened)
    (henq : enqueued q.trace = enqueued pcb.trace)
    (hins : tagInserts q.trace = tagInserts pcb.trace) : Serving site f start q hs := by
  obtain ⟨file, hfile, hsending | hnothing⟩ := h.sending
  · exact ⟨h.handle, h.index, file, hfile, Or.inl (hsending.congr hopen henq hins)⟩
  · exact ⟨h.handle, h.index, file, hfile, Or.inr ⟨hopen, hnothing.start_eq, hnothing.file_eq,
      hnothing.left_eq, henq.trans hnothing.enqueued_eq, hins.trans hnothing.inserts_eq⟩⟩

/-- The response and the inserts fetched for it when `trace` ends with the file. -/
structure Complete (site : Site σ) (data : List UInt8) (start : Nat) (ssi : Bool)
    (trace : List Action) : Prop where
  response_eq : start < data.length → enqueued trace = response site data start ssi
  inserts_eq : start < data.length → ssi = true → tagInserts trace = fileInserts site data
  empty : data.length ≤ start → enqueued trace = [] ∧ tagInserts trace = []

theorem Sending.start_lt {data : List UInt8} {file left : Nat} {ssi : Option HttpSsiState}
    (h : Sending site data start pcb file left ssi) : start < data.length := by
  cases ssi with
  | none => exact PlainStream.start_lt h
  | some ssi => exact SsiStream.start_lt h

/-- A file of which nothing is left has been sent completely. -/
theorem Serving.done (h : Serving site f start pcb hs) (hleft : hs.left = 0) :
    Complete site f.data start hs.ssi.isSome pcb.trace := by
  obtain ⟨file, _, hsending | hnothing⟩ := h.sending
  · have hstart := hsending.start_lt
    cases hssi : hs.ssi with
    | none =>
        rw [hssi] at hsending
        have hdone := PlainStream.done hsending hleft
        exact ⟨fun _ => hdone, fun _ => nofun, fun h => absurd hstart (Nat.not_lt.mpr h)⟩
    | some ssi =>
        rw [hssi] at hsending
        have hdone := SsiStream.done hsending hleft
        exact ⟨fun _ => hdone.1, fun _ _ => hdone.2, fun h => absurd hstart (Nat.not_lt.mpr h)⟩
  · have hstart := hnothing.start_eq
    exact ⟨fun h => by omega, fun h => by omega, fun _ => ⟨hnothing.enqueued_eq, hnothing.inserts_eq⟩⟩

/-- At any time a first part of the response has been enqueued. -/
theorem Serving.firstPart (h : Serving site f start pcb hs) :
    enqueued pcb.trace <+: response site f.data start hs.ssi.isSome := by
  obtain ⟨file, _, hsending | hnothing⟩ := h.sending
  · cases hssi : hs.ssi with
    | none =>
        rw [hssi] at hsending
        exact ⟨_, PlainStream.stream hsending⟩
    | some ssi =>
        rw [hssi] at hsending
        exact ⟨_, SsiStream.stream hsending⟩
  · rw [hnothing.enqueued_eq]
    exact List.nil_prefix

/-- The specification of `http_send_data_ssi`. -/
theorem httpSendDataSsi_spec {data : List UInt8} {file : Nat} {ssi : HttpSsiState}
    (hfile : hs.file = some file) (h : SsiStream site data start pcb file hs.left ssi) :
    ∃ dataToSend pcb' file' left' ssi', httpSendDataSsi site o data pcb hs ssi =
        (dataToSend, pcb', { hs with file := some file', left := left', ssi := some ssi' }) ∧
      pcb.Sends pcb' ∧ ssi'.id = ssi.id ∧ SsiStream site data start pcb' file' left' ssi' := by
  have hstart : SsiSend.Stream site data start pcb ssi.id
      { pcb, ssi, file, left := hs.left, err := .ok, len := pcb.sndBuf.toNat, dataToSend := 0 } :=
    { h with sends := .refl pcb, id_eq := rfl }
  have hsent := hstart.send (o := o)
  simp only [httpSendDataSsi, Pcb.touch_of_opened h.opened, hfile, Option.getD_some]
  exact ⟨_, _, _, _, _, rfl, hsent.sends, hsent.id_eq, hsent.toSsiStream⟩

/-- What `http_send` does with the file being served: it sends something, and closes the
connection when nothing is left. -/
def SendOutcome (site : Site σ) (o : Oracle) (f : FsFile) (start : Nat) (c : Ctx σ)
    (hs : HttpState) (result : Nat × Ctx σ) : Prop :=
  ∃ pcb' hs', c.pcb.Sends pcb' ∧ hs.SentTo hs' ∧ Serving site f start pcb' hs' ∧
    ((hs'.left ≠ 0 ∧ result.2 = { c with pcb := pcb', cell := .live hs' }) ∨
      (hs'.left = 0 ∧
        result = (0, ({ c with pcb := pcb', cell := .live hs' }.log .eof).closed o hs')))

/-- The end of `http_send`, after either of the sending routines. -/
theorem sent_eq (o : Oracle) {c : Ctx σ} (hcell : c.cell = .live hs)
    (h : Serving site f start c.pcb hs) (dataToSend : Nat) :
    (if hs.left = 0 ∧ hs.handle.elim 0 fsBytesLeft ≤ 0 then (0, httpEof o c) else (dataToSend, c)) =
      if hs.left = 0 then (0, (c.log .eof).closed o hs) else (dataToSend, c) := by
  by_cases hleft : hs.left = 0
  · rw [if_pos ⟨hleft, h.bytesLeft_le⟩, if_pos hleft, httpEof_live hs hcell h.opened]
  · rw [if_neg fun hdone => hleft hdone.1, if_neg hleft]

theorem httpSendData_spec {c : Ctx σ} (hcell : c.cell = .live hs) (hleft : hs.left ≠ 0)
    (h : Serving site f start c.pcb hs) :
    SendOutcome site o f start c hs (httpSendData site o c) := by
  obtain ⟨file, hfile, hsending | hnothing⟩ := h.sending
  case inr => exact absurd hnothing.left_eq hleft
  -- both sending routines leave a control block and a state for which the claim is the same
  have finish : ∀ dataToSend pcb' hs', c.pcb.Sends pcb' → hs.SentTo hs' →
      Serving site f start pcb' hs' →
      SendOutcome site o f start c hs
        (if hs'.left = 0 ∧ hs'.handle.elim 0 fsBytesLeft ≤ 0
          then (0, httpEof o { c with pcb := pcb', cell := .live hs' })
          else (dataToSend, { c with pcb := pcb', cell := .live hs' })) := by
    intro dataToSend pcb' hs' hsends hsent hserving
    refine ⟨pcb', hs', hsends, hsent, hserving, ?_⟩
    rw [sent_eq o (c := { c with pcb := pcb', cell := .live hs' }) rfl hserving]
    by_cases hleft : hs'.left = 0
    · rw [if_pos hleft]
      exact Or.inr ⟨hleft, rfl⟩
    · rw [if_neg hleft]
      exact Or.inl ⟨hleft, rfl⟩
  have hdata : hs.handle.elim [] FsFile.data = f.data := by simp [h.handle]
  simp only [httpSendData, Ctx.readHs_of_live hcell, Ctx.hs_of_live hcell, hdata]
  cases hssi : hs.ssi with
  | none =>
      rw [hssi] at hsending
      obtain ⟨d, pcb', file', left', hsend, hsends, hstream⟩ :=
        httpSendDataNonssi_spec o hfile hsending
      simp only [hsend]
      rw [Ctx.setHs_of_live (c := { c with pcb := pcb' }) hcell]
      refine finish d pcb' { hs with file := some file', left := left' } hsends ⟨rfl, rfl⟩
        ⟨h.handle, h.index, file', rfl, Or.inl ?_⟩
      rw [hssi]
      exact hstream
  | some ssi =>
      rw [hssi] at hsending
      obtain ⟨d, pcb', file', left', ssi', hsend, hsends, hid, hstream⟩ :=
        httpSendDataSsi_spec (o := o) hfile hsending
      simp only [hsend]
      rw [Ctx.setHs_of_live (c := { c with pcb := pcb' }) hcell]
      refine finish d pcb' { hs with file := some file', left := left', ssi := some ssi' } hsends
        ⟨rfl, ?_⟩ ⟨h.handle, h.index, file', rfl, Or.inl hstream⟩
      simp [hssi, hid]

/-- `http_send` while a file is served. -/
theorem httpSend_serving {c : Ctx σ} (hcell : c.cell = .live hs) (hleft : hs.left ≠ 0)
    (h : Serving site f start c.pcb hs) :
    SendOutcome site o f start c hs (httpSend site o c) := by
  simp only [httpSend, hcell, Ctx.readHs_of_live hcell, Ctx.hs_of_live hcell, if_neg hleft]
  exact httpSendData_spec hcell hleft h

/-- `http_send` when nothing is left, or no file is open. -/
theorem httpSend_eof {c : Ctx σ} (hcell : c.cell = .live hs) (hopen : c.pcb.status = .opened)
    (hleft : hs.left = 0) (hhandle : ∀ f ∈ hs.handle, f.index = f.data.length) :
    httpSend site o c = (0, (c.log .eof).closed o hs) := by
  simp only [httpSend, hcell, Ctx.readHs_of_live hcell, Ctx.hs_of_live hcell, if_pos hleft,
    httpCheckEof, httpEof_live hs hcell hopen]
  cases hf : hs.handle with
  | none => rfl
  | some f =>
      have hdone : fsBytesLeft f ≤ 0 := by
        simp [fsBytesLeft, FsFile.len, hhandle f hf]
      simp [hdone]

end Meu1oARM
