import Meu1oARM.Httpd.Parsing

/-! # One dispatch for every division of a request

A connection collects the pieces of a request in its queue, whatever the other
connections write into the shared buffer in between. The last piece, and no other,
looks the URI up.
-/

namespace Meu1oARM

open Machine CString

variable {σ : Type} {site : Site σ}

/-- The URIs that have been looked up, each with whether the request was one of HTTP/0.9. -/
def Action.lookup : Action → Option (List UInt8 × Bool)
  | .findFile uri is09 => some (uri, is09)
  | _ => none

def lookups (trace : List Action) : List (List UInt8 × Bool) := trace.filterMap Action.lookup

@[simp] theorem lookups_append (s t : List Action) :
    lookups (s ++ t) = lookups s ++ lookups t := by
  simp [lookups]

@[simp] theorem lookups_cons (a : Action) (t : List Action) :
    lookups (a :: t) = a.lookup.toList ++ lookups t := by
  cases h : a.lookup <;> simp [lookups, h]

@[simp] theorem lookups_nil : lookups [] = [] := rfl

@[simp] theorem lookups_queued (p : List Pbuf) : lookups (queued p) = [] := by
  simp [lookups, queued, Action.lookup, List.filterMap_eq_nil_iff]

@[simp] theorem lookups_freed (p : List Pbuf) : lookups (freed p) = [] := by
  simp [lookups, freed, Action.lookup, List.filterMap_eq_nil_iff]

@[simp] theorem lookups_releases (hs : HttpState) : lookups hs.releases = [] := by
  cases hssi : hs.ssi <;> simp [HttpState.releases, hssi, Action.lookup]

theorem lookups_of_sending {acts : List Action} (h : ∀ a ∈ acts, a.isSending) :
    lookups acts = [] := by
  refine List.filterMap_eq_nil_iff.mpr fun a ha => ?_
  have hsending := h a ha
  cases a with
  | findFile => simp [Action.isSending] at hsending
  | _ => rfl

theorem lookups_of_opening {acts : List Action} (h : ∀ a ∈ acts, a.isOpening) :
    lookups acts = [] := by
  refine List.filterMap_eq_nil_iff.mpr fun a ha => ?_
  have hopening := h a ha
  cases a with
  | findFile => simp [Action.isOpening] at hopening
  | _ => rfl

/-- Sending looks nothing up. -/
theorem httpSend_lookups {o : Oracle} {c : Ctx σ} {hs : HttpState} (hcell : c.cell = .live hs)
    (hopen : c.pcb.status = .opened) (hactive : Active site c.pcb hs) :
    lookups (httpSend site o c).2.pcb.trace = lookups c.pcb.trace := by
  obtain ⟨pcb', hs', _, hsends, _, hstay | ⟨_, hdone⟩⟩ :=
    httpSend_moves (o := o) False hcell hopen hactive
  all_goals
    obtain ⟨acts, hacts, htrace⟩ := hsends.trace_eq
    have hnone := lookups_of_sending hacts
  · simp [hstay, htrace, hnone]
  · simp [hdone, htrace, hnone, Ctx.closed, Pcb.shut, Ctx.log, Pcb.log, Action.lookup]

/-! ## What the parser makes of the pieces -/

theorem pbufBytes_eq (p : List Pbuf) : pbufBytes p = (p.map Pbuf.payload).flatten := rfl

section Pieces

variable (r : Http1Request) (o : Oracle) {req : List Pbuf} (reqBuf : Mem)

/-- A first part of the request is not complete. -/
theorem requestParsed_incomplete (hpart : pbufBytes req <+: r.text)
    (hne : pbufBytes req ≠ r.text) : requestParsed o req reqBuf = .incomplete := by
  obtain ⟨hlen, hbytes⟩ := requestData_spec o reqBuf (Nat.le_trans hpart.length_le r.length_le)
  obtain ⟨t, ht⟩ := hpart
  rw [requestParsed, hlen]
  refine httpParseData_incomplete hbytes ?_ ?_
  · intro hfour
    rw [← r.take_text, ← ht, List.take_append_of_le_length hfour]
  · intro p hblank
    have hle : 4 ≤ (pbufBytes req).length - p := by
      simpa [blankLine, crlf] using hblank.length_le
    have hfull : blankLine <+: r.text.drop p := by
      rw [← ht, List.drop_append_of_le_length (by omega)]
      exact List.prefix_append_of_prefix hblank
    have hend : p + 4 = r.text.length := r.ends_once p hfull
    have ht' : t = [] := by
      have hlength := congrArg List.length ht
      rw [List.length_append] at hlength
      exact List.length_eq_zero_iff.mp (by omega)
    exact hne (by simpa [ht'] using ht)

/-- The whole request is dispatched with its URI. -/
theorem requestParsed_dispatch (htext : pbufBytes req = r.text) :
    requestParsed o req reqBuf = .dispatch r.uri.length false ∧
      requestUri o req reqBuf r.uri.length = r.uri := by
  have hle := r.length_le
  obtain ⟨hlen, hbytes⟩ := requestData_spec o reqBuf (htext ▸ hle : (pbufBytes req).length ≤ reqBufsize)
  rw [htext] at hlen hbytes
  rw [requestParsed, hlen, requestUri]
  exact ⟨httpParseData_dispatch r hbytes, requestUri_eq r hbytes⟩

omit r in
/-- What fits the queue does not overflow its counters. -/
theorem withinBounds_of_le (hle : (pbufBytes req).length ≤ reqBufsize)
    (hcount : req.length ≤ reqQueuelen) : WithinBounds req := by
  have hsmall : req.length < 256 := Nat.lt_of_le_of_lt hcount (by decide)
  rw [WithinBounds, totLen, pbufClen, u8_of_lt hsmall,
    u16_of_lt (Nat.lt_of_le_of_lt hle (by decide))]
  exact ⟨hle, hcount⟩

/-- No part of a request is too long to be queued. -/
theorem withinBounds_of_part (hpart : pbufBytes req <+: r.text) (hcount : req.length ≤ reqQueuelen) :
    WithinBounds req :=
  withinBounds_of_le (Nat.le_trans hpart.length_le r.length_le) hcount

end Pieces

/-! ## A connection that collects a request -/

/-- The connection has received the pieces `xs` of a request, and done nothing but queue them. -/
structure Collecting (site : Site σ) (xs : List (List UInt8)) (c : Ctx σ) (hs : HttpState) :
    Prop where
  opened : c.pcb.status = .opened
  cell : c.cell = .live hs
  arg : c.pcb.callbackArg = .state hs.addr
  waiting : hs.Waiting
  active : Active site c.pcb hs
  payloads : hs.req.map Pbuf.payload = xs
  lookups : lookups c.pcb.trace = []

/-- The callback delivers the piece `x` in one buffer. -/
def Brings (e : Call) (x : List UInt8) : Prop :=
  ∃ p, e.callback = .recv p .ok ∧ p.payloads = [x]

namespace Collecting

variable {xs : List (List UInt8)} {x : List UInt8} {c : Ctx σ} {hs : HttpState} {e : Call}
  (r : Http1Request)

theorem others (h : Collecting site xs c hs) (sys : Sys σ) :
    Collecting site xs { c with sys } hs :=
  ⟨h.opened, h.cell, h.arg, h.waiting, h.active, h.payloads, h.lookups⟩

/-- The callback parses the queue with the piece at its end. -/
theorem step_eq (h : Collecting site xs c hs) (hbrings : Brings e x) :
    ∃ result : Err × Ctx σ,
      connStep site c (.call e) = (httpRecvParsed site e.oracle result.1 result.2).leave ∧
        RequestOutcome site e.oracle (pbufChain c.pcb.nextId [x]) ((c.window e).received [x]) hs
          result := by
  obtain ⟨p, hcallback, hpayloads⟩ := hbrings
  have hcell : ((c.window e).received [x]).cell = .live hs := h.cell
  have hopen : ((c.window e).received [x]).pcb.status = .opened := h.opened
  refine ⟨_, ?_, httpParseRequest_spec site e.oracle _ hcell h.waiting⟩
  rw [← httpRecv_waiting hcell hopen (by simp) h.waiting]
  simp only [connStep, if_pos h.opened, Ctx.call, hcallback, hpayloads]
  rfl

/-- The queue with the piece at its end. -/
theorem payloads_queued (h : Collecting site xs c hs) (n : Nat) (x : List UInt8) :
    (hs.req ++ pbufChain n [x]).map Pbuf.payload = xs ++ [x] := by
  simp [h.payloads, pbufChain]

/-- A piece that does not complete the request is put into the queue. -/
theorem collect (h : Collecting site xs c hs) (hbrings : Brings e x)
    (hpart : (xs ++ [x]).flatten <+: r.text) (hne : (xs ++ [x]).flatten ≠ r.text)
    (hcount : (xs ++ [x]).length ≤ reqQueuelen) :
    ∃ hs', Collecting site (xs ++ [x]) (connStep site c (.call e)) hs' := by
  obtain ⟨result, hstep, hspec⟩ := h.step_eq hbrings
  have hpayloads := h.payloads_queued c.pcb.nextId x
  rw [← hpayloads] at hpart hne hcount
  rw [List.length_map] at hcount
  have hparsed := requestParsed_incomplete r e.oracle c.sys.httpdReqBuf hpart hne
  have hbounds := withinBounds_of_part r hpart hcount
  rw [hstep]
  cases hspec with
  | incomplete sys =>
      rw [httpRecvParsed_inprogress, Ctx.leave_of_state (by exact h.arg)]
      exact ⟨_, h.opened, rfl, h.arg,
        ⟨h.waiting.handle, h.waiting.file, h.waiting.left, h.waiting.ssi⟩,
        h.active.withReq h.waiting (.append_quiet _ (queued_quiet _)) _, hpayloads,
        by simp [Ctx.withQueued, Ctx.received, Ctx.window, h.lookups]⟩
  | rejected sys hrejected =>
      rcases hrejected with hbad | ⟨_, hlong⟩
      · exact Parsed.noConfusion (hparsed.symm.trans hbad)
      · exact absurd hbounds hlong
  | found uriLen is09 uri hs' n acts sys hfound => exact Parsed.noConfusion (hparsed.symm.trans hfound)

/-- The piece that completes the request looks its URI up. -/
theorem dispatch (h : Collecting site xs c hs) (hbrings : Brings e x)
    (htext : (xs ++ [x]).flatten = r.text) :
    Meu1oARM.lookups (connStep site c (.call e)).pcb.trace = [(r.uri, false)] := by
  obtain ⟨result, hstep, hspec⟩ := h.step_eq hbrings
  rw [← h.payloads_queued c.pcb.nextId x] at htext
  obtain ⟨hparsed, huri⟩ := requestParsed_dispatch r e.oracle c.sys.httpdReqBuf htext
  rw [hstep]
  cases hspec with
  | incomplete sys _ hincomplete => exact Parsed.noConfusion (hparsed.symm.trans hincomplete)
  | rejected sys hrejected =>
      rcases hrejected with hbad | ⟨hincomplete, _⟩
      · exact Parsed.noConfusion (hparsed.symm.trans hbad)
      · exact Parsed.noConfusion (hparsed.symm.trans hincomplete)
  | found uriLen is09 uri hs' n acts sys hdispatch huri' hfound =>
      obtain ⟨rfl, rfl⟩ : r.uri.length = uriLen ∧ false = is09 := by
        simpa using hparsed.symm.trans hdispatch
      obtain rfl : r.uri = uri := (huri'.trans huri).symm
      have hopening := lookups_of_opening hfound.opens.isOpening
      dsimp only
      have hactive := h.active.dispatched h.waiting hfound
        (q := { (c.window e).pcb with
          nextId := n
          trace := c.pcb.trace ++ queued (pbufChain c.pcb.nextId [x]) ++
            .findFile r.uri false :: acts ++ freed hs'.req }) h.opened r.uri _ _ rfl
      rw [httpRecvParsed_ok hs' rfl, Ctx.leave_pcb,
        httpSend_lookups (by exact rfl) (by exact h.opened) (by exact hactive)]
      simp [Ctx.received, Ctx.window, h.lookups, hopening, Action.lookup]

/-- What happens to other connections does not show in the trace. -/
theorem run_others {es : List (ConnEvent σ)} (hnone : es.filterMap ConnEvent.asCall = [])
    (c : Ctx σ) : (Run.run (connStep site) c es).pcb = c.pcb := by
  induction es generalizing c with
  | nil => rfl
  | cons e es ih =>
      cases e with
      | call e => simp [ConnEvent.asCall] at hnone
      | others sys => exact ih hnone { c with sys }

/-- A first part of a request that is not all of it has no longer part that is. -/
theorem part_of_part {xs ys : List (List UInt8)} {y : List UInt8}
    (hpart : (xs ++ y :: ys).flatten <+: r.text) (hne : (xs ++ y :: ys).flatten ≠ r.text) :
    (xs ++ [y]).flatten <+: r.text ∧ (xs ++ [y]).flatten ≠ r.text := by
  have hshorter : (xs ++ [y]).flatten <+: (xs ++ y :: ys).flatten := ⟨ys.flatten, by simp⟩
  refine ⟨hshorter.trans hpart, fun heq => hne ?_⟩
  rw [heq] at hshorter
  exact hpart.eq_of_length (Nat.le_antisymm hpart.length_le hshorter.length_le)

/-- The pieces `ys` are collected unless they complete the request. -/
theorem run (h : Collecting site xs c hs) {es : List (ConnEvent σ)} {ys : List (List UInt8)}
    (hbrings : List.Forall₂ Brings (es.filterMap ConnEvent.asCall) ys) (hne : ∀ y ∈ ys, y ≠ [])
    (hcount : (xs ++ ys).length ≤ reqQueuelen) :
    ((xs ++ ys).flatten <+: r.text → (xs ++ ys).flatten ≠ r.text →
        ∃ hs', Collecting site (xs ++ ys) (Run.run (connStep site) c es) hs') ∧
      ((xs ++ ys).flatten = r.text → ys ≠ [] →
        Meu1oARM.lookups (Run.run (connStep site) c es).pcb.trace = [(r.uri, false)]) := by
  induction es generalizing xs ys c hs with
  | nil =>
      cases hbrings
      exact ⟨fun _ _ => ⟨hs, by simpa using h⟩, fun _ hnil => absurd rfl hnil⟩
  | cons e es ih =>
      cases e with
      | others sys => exact ih (h.others sys) hbrings hne hcount
      | call e =>
          cases hbrings with
          | @cons _ y _ ys hone hrest =>
              -- the induction goes on with the first delivery in the queue
              have hsplit : xs ++ y :: ys = xs ++ [y] ++ ys := by simp
              have hcount' : (xs ++ [y]).length ≤ reqQueuelen := by
                simp only [List.length_append, List.length_cons, List.length_nil] at hcount ⊢
                omega
              have hne' : ∀ z ∈ ys, z ≠ [] := fun z hz => hne z (List.mem_cons_of_mem y hz)
              constructor
              · intro hpart hmore
                obtain ⟨hpart', hmore'⟩ := part_of_part r hpart hmore
                obtain ⟨hs', hcollecting⟩ := h.collect r hone hpart' hmore' hcount'
                rw [hsplit] at hpart hmore hcount ⊢
                exact (ih hcollecting hrest hne' hcount).1 hpart hmore
              · intro htext _
                -- the request is complete with this delivery, or with a later one
                cases ys with
                | nil =>
                    cases hrest' : es.filterMap ConnEvent.asCall with
                    | nil =>
                        rw [Run.run_cons, run_others hrest']
                        exact h.dispatch r hone htext
                    | cons e' es' =>
                        rw [hrest'] at hrest
                        cases hrest
                | cons z zs =>
                    have hz := List.length_pos_of_ne_nil (hne' z List.mem_cons_self)
                    have hpart : (xs ++ [y]).flatten <+: r.text :=
                      ⟨(z :: zs).flatten, by rw [← htext]; simp⟩
                    have hmore : (xs ++ [y]).flatten ≠ r.text := by
                      intro heq
                      have hlength := congrArg List.length (heq.trans htext.symm)
                      simp only [List.flatten_append, List.flatten_cons, List.flatten_nil,
                        List.length_append, List.length_nil] at hlength
                      omega
                    obtain ⟨hs', hcollecting⟩ := h.collect r hone hpart hmore hcount'
                    rw [hsplit] at htext hcount
                    exact (ih hcollecting hrest hne' hcount).2 htext (List.cons_ne_nil z zs)

end Collecting

theorem accept_collecting (site : Site σ) {o : Oracle} (halloc : o.stateAlloc) (self addr : Nat)
    (sys : Sys σ) :
    Collecting site [] (Ctx.accept o self addr sys)
      { httpStateInit with addr := addr, pcb := self } := by
  rw [accept_eq, if_pos halloc]
  refine ⟨rfl, rfl, rfl, ⟨rfl, rfl, rfl, rfl⟩, ⟨?_, Or.inl ⟨⟨rfl, rfl, rfl, rfl⟩, ?_⟩⟩, rfl, rfl⟩
  · simp
  · exact ⟨rfl, rfl, rfl⟩

/-- However a request is divided and whatever the other connections do meanwhile, the
connection stays open and silent until the last piece, and that looks the URI up once. -/
theorem request_dispatched_once (r : Http1Request) {pieces : List (List UInt8)}
    (hpieces : pieces.flatten = r.text) (hne : ∀ x ∈ pieces, x ≠ [])
    (hcount : pieces.length ≤ reqQueuelen) (sys : Sys σ) (es fs : List (WorldEvent σ)) {i : Nat}
    {o : Oracle} (hnew : (World.connection site sys es i).pcb.status = .absent)
    (halloc : o.stateAlloc) {k : Nat}
    (hbrings : List.Forall₂ Brings (fs.filterMap (WorldEvent.callOf i)) (pieces.take k)) :
    let c := World.connection site sys (es ++ .accept i o :: fs) i
    (k < pieces.length →
        c.pcb.status = .opened ∧ enqueued c.pcb.trace = [] ∧ lookups c.pcb.trace = []) ∧
      (pieces.length ≤ k → lookups c.pcb.trace = [(r.uri, false)]) := by
  have hok := World.run_ok site sys es
  simp only [World.connection, Run.run_append, Run.run_cons] at hnew ⊢
  generalize Run.run (World.step site) (World.init sys) es = w at hnew hok ⊢
  have hstart := World.view_accept site o hnew
  have hcollecting := accept_collecting site halloc i w.nextHs w.sys
  rw [← hstart] at hcollecting
  -- from here on the connection is followed on its own
  have hpresent : ((w.step site (.accept i o)).pcbs i).status ≠ .absent := by
    have hopen : ((w.step site (.accept i o)).pcbs i).status = .opened := hcollecting.opened
    rw [hopen]
    exact PcbStatus.noConfusion
  obtain ⟨gs, hcalls, hrun⟩ := (hok.step (.accept i o)).run_view hpresent fs
  rw [← hcalls] at hbrings
  have hcount' : ([] ++ pieces.take k).length ≤ reqQueuelen := by
    rw [List.nil_append, List.length_take]
    omega
  obtain ⟨hcollect, hdispatch⟩ :=
    hcollecting.run r hbrings (fun x hx => hne x (List.mem_of_mem_take hx)) hcount'
  rw [List.nil_append] at hcollect hdispatch
  rw [hrun]
  constructor
  · intro hk
    have hsplit : (pieces.take k).flatten ++ (pieces.drop k).flatten = r.text := by
      rw [← List.flatten_append, List.take_append_drop, hpieces]
    -- a piece that is missing is not empty
    have hmore : (pieces.take k).flatten ≠ r.text := by
      intro heq
      have hnil : (pieces.drop k).flatten = [] := by
        rw [heq] at hsplit
        exact List.append_right_eq_self.mp hsplit
      rw [List.drop_eq_getElem_cons hk, List.flatten_cons, List.append_eq_nil_iff] at hnil
      exact hne _ (List.getElem_mem hk) hnil.1
    obtain ⟨hs', hdone⟩ := hcollect ⟨_, hsplit⟩ hmore
    exact ⟨hdone.opened, (hdone.active.unanswered hdone.waiting).2.1, hdone.lookups⟩
  · intro hk
    rw [List.take_of_length_le hk] at hdispatch
    refine hdispatch hpieces fun hnil => ?_
    have hlength := r.length_text
    rw [← hpieces, hnil, List.flatten_nil, List.length_nil] at hlength
    omega

/-- Where a blank line can begin. -/
theorem ends_once_of_lt {text : List UInt8}
    (h : ∀ p < text.length, blankLine <+: text.drop p → p + blankLine.length = text.length) (p : Nat)
    (hblank : blankLine <+: text.drop p) : p + blankLine.length = text.length := by
  refine h p ?_ hblank
  have hle := hblank.length_le
  have hfour : blankLine.length = 4 := by decide
  rw [List.length_drop] at hle
  omega

def trialRequest : Http1Request where
  uri := chars "/a.ssi"
  rest := chars "HTTP/1.0\r\n\r\n"
  uri_plain := by simp [chars]
  nonzero := by decide
  length_le := by decide
  ends := by decide
  ends_once := ends_once_of_lt (by decide +kernel)

/-- A request in three pieces, between which another connection is served. -/
def interleaved : List (WorldEvent Unit) :=
  [.call 0 (.data .willing 2920 (chars "GET /a.s") (by decide)),
    .call 1 (.data .willing 2920 (chars "GET /b.ssi HTTP/1.0\r\n") (by decide)),
    .call 0 (.data .willing 2920 (chars "si HTTP/1.0\r\n\r") (by decide)),
    .call 1 (.data .willing 2920 (chars "\r\n") (by decide)),
    .call 0 (.data .willing 2920 (chars "\n") (by decide))]

theorem request_dispatched_once_trial :
    lookups (World.connection trialSite trialSys
      ([.accept 1 .willing] ++ .accept 0 .willing :: interleaved) 0).pcb.trace =
        [(chars "/a.ssi", false)] := by
  have hpieces : [chars "GET /a.s", chars "si HTTP/1.0\r\n\r", chars "\n"].flatten =
      trialRequest.text := by
    decide +kernel
  have hone : ∀ o sndBuf x hx, Brings (.data o sndBuf x hx) x := fun _ _ _ _ => ⟨_, rfl, rfl⟩
  have hbrings : List.Forall₂ Brings (interleaved.filterMap (WorldEvent.callOf 0))
      ([chars "GET /a.s", chars "si HTTP/1.0\r\n\r", chars "\n"].take 3) :=
    .cons (hone ..) (.cons (hone ..) (.cons (hone ..) .nil))
  exact (request_dispatched_once trialRequest hpieces (by decide) (by decide) trialSys
    [.accept 1 .willing] interleaved (by decide +kernel) rfl hbrings).2 (Nat.le_refl 3)

end Meu1oARM
