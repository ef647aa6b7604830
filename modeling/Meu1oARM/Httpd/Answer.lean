import Meu1oARM.Httpd.Opening

/-! # The answer of a connection

What a connection has answered shows in its trace: the file it opened, the bytes
it enqueued, the inserts it fetched, and whether the file ended.
-/

namespace Meu1oARM

variable {σ : Type} {site : Site σ}

/-- An action that is no part of an answer. -/
def Action.isQuiet : Action → Bool
  | .write .. | .tagInsert .. | .opened .. | .eof => false
  | _ => true

/-- Two traces show the same answer. -/
structure SameAnswer (s t : List Action) : Prop where
  enqueued_eq : enqueued s = enqueued t
  inserts_eq : tagInserts s = tagInserts t
  openings_eq : openings s = openings t
  eof_iff : .eof ∈ s ↔ .eof ∈ t

theorem enqueued_of_quiet {acts : List Action} (h : ∀ a ∈ acts, a.isQuiet) :
    enqueued acts = [] := by
  refine List.flatMap_eq_nil_iff.mpr fun a ha => ?_
  have hquiet := h a ha
  cases a <;> first | rfl | simp [Action.isQuiet] at hquiet

theorem tagInserts_of_quiet {acts : List Action} (h : ∀ a ∈ acts, a.isQuiet) :
    tagInserts acts = [] := by
  refine List.filterMap_eq_nil_iff.mpr fun a ha => ?_
  have hquiet := h a ha
  cases a <;> first | rfl | simp [Action.isQuiet] at hquiet

theorem openings_of_quiet {acts : List Action} (h : ∀ a ∈ acts, a.isQuiet) :
    openings acts = [] := by
  refine List.filterMap_eq_nil_iff.mpr fun a ha => ?_
  have hquiet := h a ha
  cases a <;> first | rfl | simp [Action.isQuiet] at hquiet

theorem SameAnswer.refl (t : List Action) : SameAnswer t t := ⟨rfl, rfl, rfl, Iff.rfl⟩

theorem SameAnswer.trans {r s t : List Action} (hrs : SameAnswer r s) (hst : SameAnswer s t) :
    SameAnswer r t :=
  ⟨hrs.enqueued_eq.trans hst.enqueued_eq, hrs.inserts_eq.trans hst.inserts_eq,
    hrs.openings_eq.trans hst.openings_eq, hrs.eof_iff.trans hst.eof_iff⟩

theorem SameAnswer.append_quiet (t : List Action) {acts : List Action}
    (h : ∀ a ∈ acts, a.isQuiet) : SameAnswer (t ++ acts) t where
  enqueued_eq := by simp [enqueued_of_quiet h]
  inserts_eq := by simp [tagInserts_of_quiet h]
  openings_eq := by simp [openings_of_quiet h]
  eof_iff := by
    have hnot : Action.eof ∉ acts := fun hmem => by simpa [Action.isQuiet] using h _ hmem
    simp [hnot]

theorem freed_quiet (p : List Pbuf) : ∀ a ∈ freed p, a.isQuiet := by
  simp [freed, Action.isQuiet]

theorem queued_quiet (p : List Pbuf) : ∀ a ∈ queued p, a.isQuiet := by
  simp [queued, Action.isQuiet]

theorem HttpState.releases_quiet (hs : HttpState) : ∀ a ∈ hs.releases, a.isQuiet := by
  cases hssi : hs.ssi <;> simp [releases, hssi, Action.isQuiet]

/-- The connection waits for its request and has answered nothing, or serves the file of its
answer, with no request left. -/
def Active (site : Site σ) (pcb : Pcb) (hs : HttpState) : Prop :=
  .eof ∉ pcb.trace ∧
    ((hs.Waiting ∧ enqueued pcb.trace = [] ∧ tagInserts pcb.trace = [] ∧
        openings pcb.trace = []) ∨
      ∃ f is09, Serving site f (headerEnd f is09) pcb hs ∧ hs.req = [] ∧
        openings pcb.trace = [⟨f.data, is09, headerEnd f is09, hs.ssi.isSome⟩])

/-- The trace of a connection that has ended: it has answered nothing, or a first part of the
response for one file, and all of it if the file ended. -/
def Answered (site : Site σ) (trace : List Action) : Prop :=
  (openings trace = [] ∧ enqueued trace = []) ∨
    ∃ (f : FsFile) (is09 ssi : Bool),
      openings trace = [⟨f.data, is09, headerEnd f is09, ssi⟩] ∧
        enqueued trace <+: response site f.data (headerEnd f is09) ssi ∧
          (.eof ∈ trace → Complete site f.data (headerEnd f is09) ssi trace)

theorem Active.congr {hs : HttpState} {pcb q : Pcb} (h : Active site pcb hs)
    (hopen : q.status = .opened) (hsame : SameAnswer q.trace pcb.trace) : Active site q hs := by
  obtain ⟨heof, ⟨hwaiting, henq, hins, hnone⟩ | ⟨f, is09, hserving, hreq, hone⟩⟩ := h
  · exact ⟨fun h => heof (hsame.eof_iff.mp h), Or.inl ⟨hwaiting, hsame.enqueued_eq.trans henq,
      hsame.inserts_eq.trans hins, hsame.openings_eq.trans hnone⟩⟩
  · exact ⟨fun h => heof (hsame.eof_iff.mp h), Or.inr ⟨f, is09,
      hserving.congr hopen hsame.enqueued_eq hsame.inserts_eq, hreq,
      hsame.openings_eq.trans hone⟩⟩

/-- The retry counter plays no part in sending. -/
theorem Active.retries {hs : HttpState} {pcb : Pcb} (h : Active site pcb hs) (n : Nat) :
    Active site pcb { hs with retries := n } := by
  obtain ⟨heof, ⟨hwaiting, hquiet⟩ | ⟨f, is09, hserving, hrest⟩⟩ := h
  · exact ⟨heof, Or.inl ⟨⟨hwaiting.handle, hwaiting.file, hwaiting.left, hwaiting.ssi⟩, hquiet⟩⟩
  · exact ⟨heof, Or.inr ⟨f, is09, ⟨hserving.handle, hserving.index, hserving.sending⟩, hrest⟩⟩

/-- While a connection waits, its queue may change. -/
theorem Active.withReq {hs : HttpState} {pcb q : Pcb} (h : Active site pcb hs)
    (hwaiting : hs.Waiting) (hsame : SameAnswer q.trace pcb.trace) (req : List Pbuf) :
    Active site q { hs with req := req } := by
  obtain ⟨heof, ⟨_, henq, hins, hnone⟩ | ⟨f, is09, hserving, _⟩⟩ := h
  · exact ⟨fun h => heof (hsame.eof_iff.mp h), Or.inl
      ⟨⟨hwaiting.handle, hwaiting.file, hwaiting.left, hwaiting.ssi⟩,
        hsame.enqueued_eq.trans henq, hsame.inserts_eq.trans hins,
        hsame.openings_eq.trans hnone⟩⟩
  · exact absurd (hwaiting.handle.symm.trans hserving.handle) nofun

/-- A connection that waits has answered nothing. -/
theorem Active.unanswered {hs : HttpState} {pcb : Pcb} (h : Active site pcb hs)
    (hwaiting : hs.Waiting) :
    .eof ∉ pcb.trace ∧ enqueued pcb.trace = [] ∧ tagInserts pcb.trace = [] ∧
      openings pcb.trace = [] := by
  obtain ⟨heof, ⟨_, hquiet⟩ | ⟨f, is09, hserving, _⟩⟩ := h
  · exact ⟨heof, hquiet⟩
  · exact absurd (hwaiting.handle.symm.trans hserving.handle) nofun

/-- Some sending leaves an active connection with a file active. -/
theorem Active.sent {hs hs' : HttpState} {pcb q : Pcb} {f : FsFile} {is09 : Bool}
    (heof : .eof ∉ pcb.trace)
    (hone : openings pcb.trace = [⟨f.data, is09, headerEnd f is09, hs.ssi.isSome⟩])
    (hreq : hs.req = []) (hsends : pcb.Sends q) (hsent : hs.SentTo hs')
    (hserving : Serving site f (headerEnd f is09) q hs') : Active site q hs' := by
  obtain ⟨acts, hacts, htrace⟩ := hsends.trace_eq
  have hssi : hs'.ssi.isSome = hs.ssi.isSome := by
    simpa using congrArg Option.isSome hsent.2
  refine ⟨?_, Or.inr ⟨f, is09, hserving, ?_, ?_⟩⟩
  · rw [htrace, List.mem_append, not_or]
    exact ⟨heof, fun hmem => by simpa [Action.isSending] using hacts _ hmem⟩
  · rw [hsent.1]
    exact hreq
  · rw [htrace, openings_append, openings_of_sending hacts, List.append_nil, hone, hssi]

theorem Answered.congr {s t : List Action} (h : Answered site t) (hsame : SameAnswer s t) :
    Answered site s := by
  rcases h with ⟨hnone, henq⟩ | ⟨f, is09, ssi, hone, hfirst, hdone⟩
  · exact Or.inl ⟨hsame.openings_eq.trans hnone, hsame.enqueued_eq.trans henq⟩
  · refine Or.inr ⟨f, is09, ssi, hsame.openings_eq.trans hone, ?_, fun heof => ?_⟩
    · rw [hsame.enqueued_eq]
      exact hfirst
    · have hcomplete := hdone (hsame.eof_iff.mp heof)
      exact ⟨fun h => hsame.enqueued_eq.trans (hcomplete.response_eq h),
        fun h hssi => hsame.inserts_eq.trans (hcomplete.inserts_eq h hssi),
        fun h => ⟨hsame.enqueued_eq.trans (hcomplete.empty h).1,
          hsame.inserts_eq.trans (hcomplete.empty h).2⟩⟩

/-- An active connection that is closed has answered a first part of its response. -/
theorem Active.answered {hs : HttpState} {pcb : Pcb} (h : Active site pcb hs) :
    Answered site pcb.trace := by
  obtain ⟨heof, ⟨_, henq, _, hnone⟩ | ⟨f, is09, hserving, _, hone⟩⟩ := h
  · exact Or.inl ⟨hnone, henq⟩
  · exact Or.inr ⟨f, is09, _, hone, hserving.firstPart, fun hmem => absurd hmem heof⟩

/-- An active connection that is closed when nothing is left has answered all of it. -/
theorem Active.answered_eof {hs : HttpState} {pcb : Pcb} (h : Active site pcb hs)
    (hleft : hs.left = 0) : Answered site (pcb.trace ++ [.eof]) := by
  obtain ⟨heof, ⟨_, henq, _, hnone⟩ | ⟨f, is09, hserving, _, hone⟩⟩ := h
  · exact Or.inl ⟨by simpa [Action.opening] using hnone, by simpa [Action.sentBytes] using henq⟩
  · have hdone := hserving.done hleft
    refine Or.inr ⟨f, is09, _, by simpa [Action.opening] using hone, ?_, fun _ => ?_⟩
    · simpa [Action.sentBytes] using hserving.firstPart
    · exact ⟨by simpa [Action.sentBytes] using hdone.response_eq,
        by simpa [Action.insertAt] using hdone.inserts_eq,
        by simpa [Action.sentBytes, Action.insertAt] using hdone.empty⟩

/-! ## Opening a file -/

/-- Opening a file is only the start of an answer. -/
theorem Opens.trace {is09 : Bool} {id : Nat} {hs : HttpState} {acts : List Action}
    (h : Opens is09 id hs acts) :
    enqueued acts = [] ∧ tagInserts acts = [] ∧ .eof ∉ acts := by
  cases h with
  | nothing => exact ⟨rfl, rfl, nofun⟩
  | plain f =>
      cases hheader : f.httpHeaderIncluded <;>
        simp [headerCheck, hheader, Action.sentBytes, Action.insertAt]
  | ssi f =>
      cases hheader : f.httpHeaderIncluded <;>
        simp [headerCheck, hheader, Action.sentBytes, Action.insertAt]

/-- What is served after the request has been found. -/
theorem Found.active {is09 : Bool} {id n : Nat} {hs hs' : HttpState} {acts : List Action}
    (h : Found is09 id hs hs' n acts) {q : Pcb} (hopen : q.status = .opened)
    {trace : List Action} (heof : .eof ∉ trace) (henq : enqueued trace = [])
    (hins : tagInserts trace = []) (hnone : openings trace = []) (uri : List UInt8)
    (p : List Pbuf) (htrace : q.trace = trace ++ .findFile uri is09 :: acts ++ freed p) :
    Active site q { hs' with req := [] } := by
  have hsame : SameAnswer q.trace (trace ++ .findFile uri is09 :: acts) := by
    rw [htrace]
    exact .append_quiet _ (freed_quiet p)
  obtain ⟨hacts, hacts', hacts''⟩ := h.opens.trace
  have henq' : enqueued q.trace = [] := by
    simp [hsame.enqueued_eq, henq, hacts, Action.sentBytes]
  have hins' : tagInserts q.trace = [] := by
    simp [hsame.inserts_eq, hins, hacts', Action.insertAt]
  refine ⟨by simp [hsame.eof_iff, heof, hacts''], ?_⟩
  have hopenings : openings q.trace = openings acts := by
    simp [hsame.openings_eq, hnone, Action.opening]
  rcases h.opens.serving site hopen henq' hins' with ⟨hwaiting, hnothing⟩ | ⟨f, hserving, hone⟩
  · exact Or.inl ⟨⟨hwaiting.handle, hwaiting.file, hwaiting.left, hwaiting.ssi⟩, henq', hins',
      hopenings.trans hnothing⟩
  · exact Or.inr ⟨f, is09, ⟨hserving.handle, hserving.index, hserving.sending⟩, rfl,
      hopenings.trans hone⟩

/-- A connection that waits is active after its request has been found. -/
theorem Active.dispatched {is09 : Bool} {id n : Nat} {hs hs₀ hs' : HttpState} {pcb q : Pcb}
    {acts : List Action} (h : Active site pcb hs) (hwaiting : hs.Waiting)
    (hfound : Found is09 id hs₀ hs' n acts) (hopen : q.status = .opened) (uri : List UInt8)
    (p p' : List Pbuf)
    (htrace : q.trace = pcb.trace ++ queued p ++ .findFile uri is09 :: acts ++ freed p') :
    Active site q { hs' with req := [] } := by
  obtain ⟨heof, henq, hins, hnone⟩ := h.unanswered hwaiting
  have hsame : SameAnswer (pcb.trace ++ queued p) pcb.trace := .append_quiet _ (queued_quiet _)
  exact hfound.active hopen (fun h => heof (hsame.eof_iff.mp h)) (hsame.enqueued_eq.trans henq)
    (hsame.inserts_eq.trans hins) (hsame.openings_eq.trans hnone) uri p' htrace

end Meu1oARM
