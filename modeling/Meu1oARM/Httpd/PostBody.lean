import Meu1oARM.Httpd.HeaderBlock
import Meu1oARM.Httpd.PostHeader
import Meu1oARM.Httpd.PostSignals

/-! # The body of a POST

The buffers that hold the end of the header hold the start of the body. From there on each buffer
that arrives is handed to the application as it is, until as many bytes have been handed over as
the header announces.
-/

namespace Meu1oARM

open Machine CString

variable {σ : Type} {site : Site σ} {app : PostApp σ} {o : Oracle} {c c' : PostCtx σ}
  {hs : HttpState} {self : Nat}

/-! ## What is handed over and what is freed -/

/-- The buffers that the call hands to the application. -/
def PostCall.handed : PostCall → List Pbuf
  | .receiveData p _ => p
  | _ => []

def handed (calls : List PostCall) : List Pbuf := calls.flatMap PostCall.handed

def Action.freedPbuf : Action → Option Nat
  | .free (.pbuf id) => some id
  | _ => none

/-- The buffers that have been freed on a connection. -/
def freedPbufs (trace : List Action) : List Nat := trace.filterMap Action.freedPbuf

@[simp] theorem handed_append (s t : List PostCall) : handed (s ++ t) = handed s ++ handed t := by
  simp [handed]

@[simp] theorem handed_cons (call : PostCall) (t : List PostCall) :
    handed (call :: t) = call.handed ++ handed t := by
  simp [handed]

@[simp] theorem handed_nil : handed [] = [] := rfl

@[simp] theorem freedPbufs_append (s t : List Action) :
    freedPbufs (s ++ t) = freedPbufs s ++ freedPbufs t := by
  simp [freedPbufs]

@[simp] theorem freedPbufs_cons (a : Action) (t : List Action) :
    freedPbufs (a :: t) = a.freedPbuf.toList ++ freedPbufs t := by
  cases h : a.freedPbuf <;> simp [freedPbufs, h]

@[simp] theorem freedPbufs_nil : freedPbufs [] = [] := rfl

@[simp] theorem freedPbufs_freed (p : List Pbuf) : freedPbufs (freed p) = p.map Pbuf.id := by
  simp [freedPbufs, freed, Action.freedPbuf, List.filterMap_map, Function.comp_def]

@[simp] theorem freedPbufs_queued (p : List Pbuf) : freedPbufs (queued p) = [] := by
  simp [freedPbufs, queued, Action.freedPbuf, List.filterMap_eq_nil_iff]

@[simp] theorem freedPbufs_releases (hs : HttpState) : freedPbufs hs.releases = [] := by
  cases hssi : hs.ssi <;> simp [HttpState.releases, hssi, Action.freedPbuf]

theorem freedPbufs_of_sending {acts : List Action} (h : ∀ a ∈ acts, a.isSending) :
    freedPbufs acts = [] := by
  refine List.filterMap_eq_nil_iff.mpr fun a ha => ?_
  have hsending := h a ha
  cases a with
  | free => simp [Action.isSending] at hsending
  | _ => rfl

theorem freedPbufs_of_opening {acts : List Action} (h : ∀ a ∈ acts, a.isOpening) :
    freedPbufs acts = [] := by
  refine List.filterMap_eq_nil_iff.mpr fun a ha => ?_
  have hopening := h a ha
  cases a with
  | free => simp [Action.isOpening] at hopening
  | _ => rfl

/-- Sending frees no buffer. -/
theorem httpSend_freedPbufs {d : Ctx σ} (hcell : d.cell = .live hs)
    (hopen : d.pcb.status = .opened) (hactive : Active site d.pcb hs) :
    freedPbufs (httpSend site o d).2.pcb.trace = freedPbufs d.pcb.trace := by
  obtain ⟨pcb', hs', hsends, -, ⟨-, hstay⟩ | hdone⟩ := httpSend_sentTo (o := o) hcell hopen hactive
  all_goals
    obtain ⟨acts, hacts, htrace⟩ := hsends.trace_eq
    have hnone := freedPbufs_of_sending hacts
  · simp [hstay, htrace, hnone]
  · simp [hdone, htrace, hnone, Ctx.closed, Pcb.shut, Ctx.log, Pcb.log, Action.freedPbuf]

/-- A poll frees no buffer. -/
theorem poll_freedPbufs {d : Ctx σ} (h : Linked site self d) {e : Call}
    (hcallback : e.callback = .poll) :
    freedPbufs (connStep site d (.call e)).pcb.trace = freedPbufs d.pcb.trace := by
  cases h with
  | @active hs hopen hcell harg hself hactive =>
      have htried : ∀ n, freedPbufs (d.tried site e hs n).pcb.trace = freedPbufs d.pcb.trace := by
        intro n
        have hsends := httpSend_freedPbufs (o := e.oracle)
          (d := { d.window e with cell := .live { hs with retries := n } }) rfl hopen
          ((hactive.retries n).congr hopen (.refl _))
        rw [Ctx.tried, Ctx.leave_pcb, hsends]
        rfl
      by_cases hlimit : u8 (hs.retries + 1) = maxRetries
      · rw [connStep, if_pos hopen, poll_leave_limit e hcallback hcell hopen hlimit]
        simp [Ctx.closed, Pcb.shut, Ctx.window, Action.freedPbuf]
      · cases poll_reaction hcell hopen harg hactive hcallback with
        | torn acts htears => exact absurd (by simpa [TearsDown, hcallback] using htears) hlimit
        | arrives p hrecv => cases hcallback.symm.trans hrecv
        | ignores p hrecv => cases hcallback.symm.trans hrecv
        | counts _ _ _ heq =>
            rw [heq]
            rfl
        | sends n _ heq =>
            rcases heq with heq | heq
            · rw [heq, htried]
            · rw [heq, Ctx.log, Pcb.log, freedPbufs_append, htried]
              simp [Action.freedPbuf]
  | closing hopen hcell =>
      -- closing again frees nothing
      have hclose : httpCloseConn e.oracle (d.window e) =
          (e.oracle.close, { d.window e with pcb := (d.window e).pcb.shut e.oracle [] }) :=
        httpCloseConn_null hcell hopen
      have hcell' : (d.window e).cell = .null := hcell
      simp only [connStep, if_pos hopen, Ctx.leave_pcb, Ctx.call, hcallback, httpPoll, hcell',
        hclose]
      split
      · cases hfails : e.oracle.closeFails <;>
          simp [tcpAbort, Pcb.shut, Ctx.window, Action.freedPbuf, Pcb.touch, Pcb.log, hfails]
      · simp [Pcb.shut, Ctx.window, Action.freedPbuf]
  | ended hended => rw [connStep, if_neg hended]

/-! ## One handover -/

/-- The application takes every POST and all of its data. -/
structure PostApp.Accepts (app : PostApp σ) : Prop where
  begin_ok : ∀ addr state uri httpRequest contentLen,
    (app.httpdPostBegin addr state uri httpRequest contentLen).1 = .ok
  data_ok : ∀ addr state p, (app.httpdPostReceiveData addr state p).1 = .ok

/-- The chain `p` has been handed over, and nothing has been freed. As long as more is awaited, the
connection keeps its state. -/
structure Handover (p : List Pbuf) (hs : HttpState) (c c' : PostCtx σ) : Prop where
  announced_eq : announced c'.calls = announced c.calls
  handed_eq : handed c'.calls = handed c.calls ++ p
  left_eq : c'.postContentLenLeft = c.postContentLenLeft - totLen p
  freed_eq : freedPbufs c'.ctx.pcb.trace = freedPbufs c.ctx.pcb.trace
  stays : c'.postContentLenLeft ≠ 0 →
    c'.ctx.pcb.nextId = c.ctx.pcb.nextId ∧ c'.ctx.cell = .live hs

/-- What `http_recv` does with a chain of the body. -/
theorem Awaiting.handover (h : Awaiting site self c.ctx hs) (happ : app.Accepts) {p : List Pbuf}
    (hout : Post.BodyOutcome app p c hs c') :
    Handover p hs c
      ((if c'.postContentLenLeft = 0 then (Post.httpSend site app o c').2 else c').map
        Ctx.leave) := by
  cases hout with
  | more sys hok hleft =>
      dsimp only
      rw [if_neg hleft, PostCtx.map, Ctx.leave_of_state (by exact h.arg)]
      exact ⟨by simp [PostCall.announced], by simp [PostCall.handed], rfl, rfl,
        fun _ => ⟨rfl, h.cell⟩⟩
  | done err responseUri hs' n acts sys herr hlast hfound =>
      obtain rfl : .ok = err := (happ.data_ok _ _ _).symm.trans herr
      have hleft : c.postContentLenLeft - totLen p = 0 := hlast.resolve_left (not_not.mpr rfl)
      have hfreed := httpSend_freedPbufs (o := o)
        (d :=
          { sys
            cell := .live hs'
            pcb := { c.ctx.pcb with
              nextId := n, trace := c.ctx.pcb.trace ++ .findFile responseUri false :: acts } })
        rfl h.opened (h.found hfound responseUri)
      dsimp only
      rw [if_pos hleft, Post.httpSend_done (by rfl) (by exact hleft)]
      refine ⟨?_, ?_, rfl, ?_, fun hne => absurd hleft hne⟩
      · simp [PostCtx.map, PostCtx.lift, PostCall.announced]
      · simp [PostCtx.map, PostCtx.lift, PostCall.handed]
      · simp only [PostCtx.map, PostCtx.lift, Ctx.leave_pcb]
        rw [hfreed]
        simp [Action.freedPbuf, freedPbufs_of_opening hfound.opens.isOpening]

/-- What `http_recv` does when the header is complete. -/
theorem Awaiting.first (h : Awaiting site self c.ctx hs) (happ : app.Accepts)
    (hleft : c.postContentLenLeft ≠ 0) {q : List Pbuf} {startOffset : Nat}
    (hbody : if q = [] then c' = c
      else Post.BodyOutcome app (Post.hideHeader startOffset q) c hs c') :
    Handover (Post.hideHeader startOffset q) hs c
      ((Post.httpRecvParsed site app o .ok c').map Ctx.leave) := by
  by_cases hq : q = []
  · rw [if_pos hq] at hbody
    subst hbody hq
    rw [Post.httpRecvParsed_accepted h.cell h.req, if_neg hleft, PostCtx.map,
      Ctx.leave_of_state (by exact h.arg)]
    exact ⟨rfl, by simp [Post.hideHeader], rfl, rfl, fun _ => ⟨rfl, h.cell⟩⟩
  · rw [if_neg hq] at hbody
    obtain ⟨hs', hcell', hreq'⟩ := hbody.req h.cell h.req
    rw [Post.httpRecvParsed_accepted hcell' hreq']
    exact h.handover happ hbody

/-! ## A POST in pieces -/

/-- The buffers that a run hands to the connection. -/
def received (es : List (ConnEvent σ)) : List (List UInt8) := es.flatMap ConnEvent.pieces

def ConnEvent.isPoll : ConnEvent σ → Bool
  | .call e =>
    match e.callback with
    | .poll => true
    | _ => false
  | .others _ => false

/-- The run hands over the header `text` and the body behind it, or a first part of both, in
deliveries of any size, and the header fits the queue. Meanwhile other connections go on, and this
one is not polled up to the retry limit. -/
structure Segmented (text body : List UInt8) (es : List (ConnEvent σ)) : Prop where
  calls : ∀ e, .call e ∈ es →
    e.callback = .poll ∨ ∃ p, e.callback = .recv p .ok ∧ p.payloads.flatten ≠ []
  polls_lt : es.countP ConnEvent.isPoll < maxRetries
  part : (received es).flatten <+: text ++ body
  fits : ∀ fs, fs <+: es → (received fs).flatten.length < text.length →
    (received fs).length ≤ reqQueuelen

/-- Of the buffers `xs`, the application has been handed what is behind the header, in order, and is
still to be handed the rest of the announced length. Each buffer has been handed over, has been
freed or is in the queue. -/
structure Intact (r : PostRequest) (xs : List (List UInt8)) (c : PostCtx σ) : Prop where
  announced_eq : announced c.calls =
    if r.text.length ≤ xs.flatten.length then [(r.contentLen : Int)] else []
  handed_eq : pbufBytes (handed c.calls) = xs.flatten.drop r.text.length
  left_eq : r.text.length ≤ xs.flatten.length →
    c.postContentLenLeft + (pbufBytes (handed c.calls)).length = r.contentLen
  pbufs_eq : freedPbufs c.ctx.pcb.trace ++ (handed c.calls).map Pbuf.id ++
    c.ctx.queue.map Pbuf.id = List.range xs.length

/-- The header is complete, and `n` bytes have been announced. -/
structure Taken (r : PostRequest) (n : Nat) (xs : List (List UInt8)) (c : PostCtx σ) : Prop where
  long : r.text.length ≤ xs.flatten.length
  announced_eq : announced c.calls = [(n : Int)]
  handed_eq : pbufBytes (handed c.calls) = xs.flatten.drop r.text.length
  left_eq : c.postContentLenLeft = n - (xs.flatten.length - r.text.length)
  pbufs_eq : freedPbufs c.ctx.pcb.trace ++ (handed c.calls).map Pbuf.id = List.range xs.length

/-- The connection has the buffers `xs` in its queue, has done nothing else, and has been polled at
most `polls` times. -/
structure Queued (xs : List (List UInt8)) (polls : Nat) (c : PostCtx σ) (hs : HttpState) :
    Prop where
  cell : c.ctx.cell = .live hs
  waiting : hs.Waiting
  req_eq : hs.req = pbufChain 0 xs
  nextId_eq : c.ctx.pcb.nextId = xs.length
  left_eq : c.postContentLenLeft = 0
  calls_eq : c.calls = []
  freed_eq : freedPbufs c.ctx.pcb.trace = []
  retries_le : hs.retries ≤ polls

/-- The connection has been sent the buffers `xs` and has been polled at most `polls` times: they
are in its queue, or the header among them is complete. -/
inductive Phase (r : PostRequest) (xs : List (List UInt8)) (polls : Nat) (c : PostCtx σ) : Prop
  | header {hs : HttpState} (hqueued : Queued xs polls c hs)
      (hshort : xs.flatten.length < r.text.length)
  | body (htaken : Taken r r.contentLen xs c)
      (hstays : c.postContentLenLeft ≠ 0 → c.ctx.pcb.nextId = xs.length ∧
        ∃ hs, c.ctx.cell = .live hs ∧ hs.retries ≤ polls)

variable {r : PostRequest} {xs : List (List UInt8)} {polls : Nat}

theorem range_append (m n : Nat) : List.range m ++ List.range' m n = List.range (m + n) := by
  have h := List.range'_append_1 (s := 0) (m := m) (n := n)
  rwa [Nat.zero_add, ← List.range_eq_range', ← List.range_eq_range'] at h

theorem pbufChain_zero_ids (xs : List (List UInt8)) :
    (pbufChain 0 xs).map Pbuf.id = List.range xs.length := by
  rw [pbufChain_ids, List.range_eq_range']

theorem totLen_pbufChain (n : Nat) (p : Delivery) :
    totLen (pbufChain n p.payloads) = p.payloads.flatten.length := by
  have hsize : p.payloads.flatten.length < 65536 := Nat.lt_of_le_of_lt p.size_le (by decide)
  rw [totLen, pbufBytes_pbufChain, u16_of_lt hsize]

/-- More of the body is handed over. -/
theorem Taken.handover {n : Nat} {d : PostCtx σ} (h : Taken r n xs c)
    (hnext : c.ctx.pcb.nextId = xs.length) {p : Delivery}
    (hover : Handover (pbufChain c.ctx.pcb.nextId p.payloads) hs d c') (hcalls : d.calls = c.calls)
    (hleft : d.postContentLenLeft = c.postContentLenLeft)
    (htrace : d.ctx.pcb.trace = c.ctx.pcb.trace) :
    Taken r n (xs ++ p.payloads) c' where
  long := by
    have hlong := h.long
    rw [List.flatten_append, List.length_append]
    omega
  announced_eq := by rw [hover.announced_eq, hcalls, h.announced_eq]
  handed_eq := by
    rw [hover.handed_eq, hcalls, pbufBytes_append, h.handed_eq, pbufBytes_pbufChain,
      List.flatten_append, List.drop_append_of_le_length h.long]
  left_eq := by
    have hlong := h.long
    rw [hover.left_eq, hleft, h.left_eq, totLen_pbufChain, List.flatten_append, List.length_append]
    omega
  pbufs_eq := by
    rw [hover.freed_eq, htrace, hover.handed_eq, hcalls, List.map_append, ← List.append_assoc,
      h.pbufs_eq, pbufChain_ids, hnext, range_append, List.length_append]

/-! ## Steps -/

theorem Linked.of_live {d : Ctx σ} (h : Linked site self d) (hcell : d.cell = .live hs) :
    d.pcb.status = .opened ∧ d.pcb.callbackArg = .state hs.addr ∧ hs.pcb = self ∧
      Active site d.pcb hs := by
  cases h with
  | active hopen hcell' harg hself hactive =>
      obtain rfl := Cell.live.inj (hcell.symm.trans hcell')
      exact ⟨hopen, harg, hself, hactive⟩
  | closing _ hnull => cases hcell.symm.trans hnull
  | ended _ hdead => exact absurd hcell (hdead hs)

/-- A connection with a state and a body outstanding waits for it. -/
theorem Signalled.awaiting (h : Signalled site self c) (hcell : c.ctx.cell = .live hs)
    (hleft : c.postContentLenLeft ≠ 0) : Awaiting site self c.ctx hs := by
  obtain ⟨hopen, harg, hself, hactive⟩ := h.linked.of_live hcell
  cases h.record with
  | idle hzero => exact absurd hzero hleft
  | body hcell' hwaiting hreq =>
      obtain rfl := Cell.live.inj (hcell.symm.trans hcell')
      exact ⟨hopen, hcell, harg, hself, hactive, hwaiting, hreq⟩
  | complete _ _ hzero => exact absurd hzero hleft
  | cut _ _ _ _ hdead => exact absurd hcell (hdead hs)

/-- Once a POST has been accepted, nothing is queued. -/
theorem Signalled.queue_eq (h : Signalled site self c) (hannounced : announced c.calls ≠ []) :
    c.ctx.queue = [] := by
  cases h.record with
  | idle _ hnone => exact absurd hnone hannounced
  | body hcell _ hreq => rw [c.ctx.queue_of_live hcell, hreq]
  | complete _ _ _ _ _ _ hhandle =>
      cases hcell : c.ctx.cell with
      | live hs =>
          rw [c.ctx.queue_of_live hcell]
          obtain ⟨-, -, -, -, ⟨hwaiting, -⟩ | ⟨_, _, _, hreq, -⟩⟩ := h.linked.of_live hcell
          · exact absurd hwaiting.handle (hhandle hs hcell)
          · exact hreq
      | null | freed => exact c.ctx.queue_of_dead (by simp [hcell])
  | cut _ _ _ _ hdead => exact c.ctx.queue_of_dead hdead

/-- The queue with a delivery at its end. -/
theorem Queued.append (h : Queued xs polls c hs) (ys : List (List UInt8)) :
    hs.req ++ pbufChain c.ctx.pcb.nextId ys = pbufChain 0 (xs ++ ys) := by
  rw [h.req_eq, h.nextId_eq, pbufChain_append, Nat.zero_add]

/-- What has arrived is a part of the header, in no more buffers than the queue takes. -/
structure HeaderPart (r : PostRequest) (ys : List (List UInt8)) : Prop where
  part : ys.flatten <+: r.text
  short : ys.flatten.length < r.text.length
  count : ys.length ≤ reqQueuelen

/-- A part of the header is put into the queue. -/
theorem Queued.recv_part (app : PostApp σ) (h : Queued xs polls c hs)
    (hlinked : Linked site self c.ctx) {e : Call} {p : Delivery}
    (hcallback : e.callback = .recv p .ok) (hdata : p.payloads ≠ [])
    (hheader : HeaderPart r (xs ++ p.payloads)) :
    ∃ hs', Queued (xs ++ p.payloads) polls (postStep site app c (.call e)) hs' := by
  obtain ⟨hpart, hshort, hcount⟩ := hheader
  obtain ⟨hopen, harg, -, -⟩ := hlinked.of_live h.cell
  have hwaiting := h.waiting
  have hqueue := h.append p.payloads
  have hbytes := pbufBytes_pbufChain 0 (xs ++ p.payloads)
  have hparsed : Post.requestParsed e.oracle (pbufChain 0 (xs ++ p.payloads))
      c.ctx.sys.httpdReqBuf = .other .incomplete := by
    apply Post.requestParsed_part r
    · rwa [hbytes]
    · rw [hbytes]
      exact fun heq => Nat.ne_of_lt hshort (congrArg List.length heq)
  -- the header fits the queue
  have hbounds : WithinBounds (pbufChain 0 (xs ++ p.payloads)) := by
    apply withinBounds_of_le
    · rw [hbytes]
      exact Nat.le_trans hpart.length_le r.length_le
    · rwa [length_pbufChain]
  obtain ⟨result, hspec, hstep⟩ :=
    postStep_waiting site app h.cell hopen h.left_eq hwaiting hcallback hdata
  rw [hstep]
  cases hspec with
  | incomplete sys =>
      rw [httpRecvParsed_queued (by exact harg) (by exact h.left_eq)]
      refine ⟨_, rfl, ⟨hwaiting.handle, hwaiting.file, hwaiting.left, hwaiting.ssi⟩, hqueue, ?_,
        h.left_eq, h.calls_eq, ?_, h.retries_le⟩
      · rw [List.length_append, ← h.nextId_eq]
        rfl
      · simpa [PostCtx.map, PostCtx.arrived, Ctx.withQueued, Ctx.received, Ctx.window] using h.freed_eq
  | unannounced sys uriLen hpost =>
      rw [hqueue] at hpost
      cases hparsed.symm.trans hpost
  | rejected sys hrejected =>
      rw [hqueue] at hrejected
      exact absurd hbounds (hrejected hparsed)
  | found uriLen is09 uri hs' n acts sys hfound =>
      rw [hqueue] at hfound
      cases hparsed.symm.trans hfound
  | denied uriLen h err state uri hs' n acts sys hbegins =>
      rw [hqueue] at hbegins
      cases hparsed.symm.trans hbegins.parsed
  | accepted uriLen h heads q startOffset sys c' hbegins =>
      rw [hqueue] at hbegins
      cases hparsed.symm.trans hbegins.parsed

/-- The buffers behind the header have been handed over for the first time. -/
theorem Queued.taken (h : Queued xs polls c hs) {e : Call} {p : Delivery} {heads q : List Pbuf}
    {call : PostCall} {n : Nat} {sys : Sys σ}
    (hover : Handover q { hs with req := [] }
      ((c.arrived e p).accepted hs (pbufChain c.ctx.pcb.nextId p.payloads) heads call n sys) c')
    (hannounced : call.announced = some (n : Int)) (hhanded : call.handed = [])
    (hids : heads.map Pbuf.id ++ q.map Pbuf.id = List.range (xs ++ p.payloads).length)
    (hbehind : pbufBytes q = (xs ++ p.payloads).flatten.drop r.text.length)
    (hlong : r.text.length ≤ (xs ++ p.payloads).flatten.length)
    (hsize : (xs ++ p.payloads).flatten.length < 65536) : Taken r n (xs ++ p.payloads) c' where
  long := hlong
  announced_eq := by
    rw [hover.announced_eq]
    simp [PostCtx.accepted, PostCtx.arrived, h.calls_eq, hannounced]
  handed_eq := by
    rw [hover.handed_eq]
    simp [PostCtx.accepted, PostCtx.arrived, h.calls_eq, hhanded, hbehind]
  left_eq := by
    have hsmall : ((xs ++ p.payloads).flatten.drop r.text.length).length < 65536 := by
      rw [List.length_drop]
      omega
    rw [hover.left_eq, totLen, hbehind, u16_of_lt hsmall, List.length_drop]
    rfl
  pbufs_eq := by
    rw [hover.freed_eq, hover.handed_eq, ← hids]
    simp [PostCtx.accepted, PostCtx.arrived, Ctx.received, Ctx.window, h.calls_eq, h.freed_eq,
      hhanded]

/-- The header is complete: either it announces no body, or the application has been handed what
is behind it. -/
theorem Queued.recv_complete (h : Queued xs polls c hs) (hlinked : Linked site self c.ctx)
    (happ : app.Accepts) {e : Call} {p : Delivery} (hcallback : e.callback = .recv p .ok)
    (hdata : p.payloads ≠ []) (htext : r.text <+: (xs ++ p.payloads).flatten)
    (hsize : (xs ++ p.payloads).flatten.length < 65536) :
    (∃ n, 0 < n ∧ FirstLength r.rest n ∧
        Taken r n (xs ++ p.payloads) (postStep site app c (.call e)) ∧
        ((postStep site app c (.call e)).postContentLenLeft ≠ 0 →
          (postStep site app c (.call e)).ctx.pcb.nextId = (xs ++ p.payloads).length ∧
            (postStep site app c (.call e)).ctx.cell = .live { hs with req := [] })) ∨
      (announced (postStep site app c (.call e)).calls = [] ∧
        ∀ n, 0 < n → ¬ FirstLength r.rest n) := by
  obtain ⟨hopen, harg, hself, hactive⟩ := hlinked.of_live h.cell
  have hwaiting := h.waiting
  have hcalls := h.calls_eq
  have hqueue := h.append p.payloads
  have hbytes := pbufBytes_pbufChain 0 (xs ++ p.payloads)
  rw [← hbytes] at htext hsize
  have hparsed := Post.requestParsed_post r e.oracle c.ctx.sys.httpdReqBuf htext hsize
  have hheader := Post.requestHeader_iff r e.oracle c.ctx.sys.httpdReqBuf htext hsize
  obtain ⟨result, hspec, hstep⟩ :=
    postStep_waiting site app h.cell hopen h.left_eq hwaiting hcallback hdata
  rw [hstep]
  cases hspec with
  | incomplete sys hincomplete =>
      rw [hqueue] at hincomplete
      cases hparsed.symm.trans hincomplete
  | unannounced sys uriLen hpost hnone =>
      rw [hqueue] at hpost hnone
      obtain rfl : r.uri.length = uriLen := by simpa using hparsed.symm.trans hpost
      right
      refine ⟨?_, fun n _ hfirst => ?_⟩
      · rw [httpRecvParsed_queued (by exact harg) (by exact h.left_eq)]
        simp [PostCtx.map, PostCtx.arrived, hcalls]
      · obtain ⟨_, hsome, -⟩ := (hheader n).mpr hfirst
        cases hnone.symm.trans hsome
  | rejected sys _ hrejected =>
      rw [hqueue] at hrejected
      obtain ⟨f, hsome, hpos⟩ := hrejected _ hparsed
      right
      refine ⟨?_, fun n hn hfirst => ?_⟩
      · rw [Post.httpRecvParsed_done .arg (by rfl) (by exact h.left_eq)]
        simp [PostCtx.map, PostCtx.arrived, hcalls]
      · obtain ⟨f', hsome', hlen⟩ := (hheader n).mpr hfirst
        obtain rfl := Option.some.inj (hsome.symm.trans hsome')
        omega
  | found uriLen is09 uri hs' n acts sys hfound =>
      rw [hqueue] at hfound
      cases hparsed.symm.trans hfound
  | denied uriLen f err state uri hs' n acts sys hbegins herr =>
      obtain ⟨responseUri, hanswer⟩ := hbegins.answer
      exact absurd ((congrArg Prod.fst hanswer).symm.trans (happ.begin_ok _ _ _ _ _)) herr
  | accepted uriLen f heads q startOffset sys c' hbegins hskip hbody =>
      have hparsed' := hbegins.parsed
      have hsome := hbegins.header
      have hpos := hbegins.pos
      simp only [PostCtx.arrived, Ctx.received, Ctx.window] at hparsed' hsome
      rw [hqueue] at hskip hparsed' hsome
      obtain rfl : r.uri.length = uriLen := by simpa using hparsed.symm.trans hparsed'
      have hlength : u32 f.contentLen.toNat = f.contentLen.toNat := Post.u32_contentLen hbegins.header
      have hcast : ((f.contentLen.toNat : Nat) : Int) = f.contentLen := Int.toNat_of_nonneg (by omega)
      have hend := Post.requestHeader_hdrLen r e.oracle c.ctx.sys.httpdReqBuf htext hsize hsome
      obtain ⟨hsplit, hbehind⟩ := Post.skipHeader_spec hskip
      rw [hend] at hbehind
      rw [hbytes] at hbehind htext
      -- the buffers of the header are freed, and the first part of the body is handed over
      have hbase := Awaiting.accepted (c := c.arrived e p) hopen harg hself
        (hactive.congr hopen (.refl _)) hwaiting (pbufChain c.ctx.pcb.nextId p.payloads) heads
        (Post.beginCall e.oracle (hs.req ++ pbufChain c.ctx.pcb.nextId p.payloads)
          c.ctx.sys.httpdReqBuf r.uri.length f .ok) (u32 f.contentLen.toNat) sys
      have hzero : u32 f.contentLen.toNat ≠ 0 := by
        rw [hlength]
        omega
      have hover := hbase.first (o := e.oracle) happ hzero hbody
      rw [hlength] at hover
      have hids : heads.map Pbuf.id ++ (Post.hideHeader startOffset q).map Pbuf.id =
          List.range (xs ++ p.payloads).length := by
        rw [Post.hideHeader_ids, ← pbufChain_zero_ids, ← hsplit, List.map_append]
      left
      refine ⟨f.contentLen.toNat, by omega, (hheader _).mp ⟨f, hsome, hcast.symm⟩, ?_, ?_⟩
      · exact h.taken hover (congrArg some hcast.symm) rfl hids hbehind htext.length_le
          (hbytes ▸ hsize)
      · intro hmore
        obtain ⟨hnext', hcell'⟩ := hover.stays hmore
        refine ⟨?_, hcell'⟩
        rw [hnext', List.length_append, ← h.nextId_eq]
        rfl

/-- More of the body arrives. -/
theorem Taken.recv {n : Nat} (h : Taken r n xs c) (hnext : c.ctx.pcb.nextId = xs.length)
    (hawaiting : Awaiting site self c.ctx hs) (hleft : c.postContentLenLeft ≠ 0)
    (happ : app.Accepts) {e : Call} {p : Delivery} (hcallback : e.callback = .recv p .ok)
    (hdata : p.payloads ≠ []) :
    Taken r n (xs ++ p.payloads) (postStep site app c (.call e)) ∧
      ((postStep site app c (.call e)).postContentLenLeft ≠ 0 →
        (postStep site app c (.call e)).ctx.pcb.nextId = (xs ++ p.payloads).length ∧
          (postStep site app c (.call e)).ctx.cell = .live { hs with retries := 0 }) := by
  obtain ⟨c', hout, hstep⟩ := postStep_body site app hawaiting.cell hawaiting.opened hleft
    hawaiting.waiting hcallback hdata
  have hreset : Awaiting site self { (c.arrived e p).ctx with cell := .live { hs with retries := 0 } }
      { hs with retries := 0 } :=
    hawaiting.congr 0 rfl hawaiting.opened rfl (.refl _)
  have hover := Awaiting.handover (c := { c.arrived e p with ctx := _ }) (o := e.oracle) hreset happ
    hout
  rw [hstep]
  refine ⟨h.handover hnext hover rfl rfl rfl, fun hmore => ?_⟩
  obtain ⟨hnext', hcell'⟩ := hover.stays hmore
  refine ⟨?_, hcell'⟩
  rw [hnext', List.length_append, ← hnext]
  rfl

/-- A poll changes neither the queue nor what has been handed over. -/
theorem Phase.poll (h : Phase r xs polls c) (hsignalled : Signalled site self c) {e : Call}
    (hcallback : e.callback = .poll) (hlimit : polls + 1 < maxRetries) :
    Phase r xs (polls + 1) (postStep site app c (.call e)) := by
  have hcounts : ∀ hs : HttpState, hs.retries ≤ polls → u8 (hs.retries + 1) ≠ maxRetries ∧
      u8 (hs.retries + 1) ≤ polls + 1 := by
    intro hs hretries
    rw [u8_succ (by omega)]
    omega
  cases h with
  | @header hs hqueued hshort =>
      obtain ⟨hopen, harg, -, -⟩ := hsignalled.linked.of_live hqueued.cell
      obtain ⟨hbelow, hcount⟩ := hcounts hs hqueued.retries_le
      have hwaiting := hqueued.waiting
      rw [postStep_counts hqueued.cell hopen harg hwaiting.handle hcallback hbelow]
      exact .header ⟨rfl, ⟨hwaiting.handle, hwaiting.file, hwaiting.left, hwaiting.ssi⟩,
        hqueued.req_eq, hqueued.nextId_eq, hqueued.left_eq, hqueued.calls_eq, hqueued.freed_eq,
        hcount⟩ hshort
  | body htaken hstays =>
      by_cases hleft : c.postContentLenLeft = 0
      · -- the connection does what it does in the build without POST
        have hstep : ∀ d : Ctx σ, freedPbufs d.pcb.trace = freedPbufs c.ctx.pcb.trace →
            Phase r xs (polls + 1) { c with ctx := d } := by
          intro d hfreed
          refine .body ⟨htaken.long, htaken.announced_eq, htaken.handed_eq, htaken.left_eq, ?_⟩
            fun hne => absurd hleft hne
          rw [hfreed]
          exact htaken.pbufs_eq
        have hconn := hstep _ (poll_freedPbufs hsignalled.linked hcallback)
        cases hcell : c.ctx.cell with
        | null =>
            rw [postStep_null hcell]
            exact hconn
        | live hs =>
            obtain ⟨hopen, -, -, hactive⟩ := hsignalled.linked.of_live hcell
            have hreq : hs.req = [] := by
              rw [← c.ctx.queue_of_live hcell]
              exact hsignalled.queue_eq (by simp [htaken.announced_eq])
            rw [postStep_done hcell hopen hleft (fun _ => hreq) fun p hrecv =>
              absurd (hcallback.symm.trans hrecv) Callback.noConfusion]
            exact hconn
        | freed =>
            cases hsignalled.linked with
            | active _ hcell' => cases hcell.symm.trans hcell'
            | closing _ hcell' => cases hcell.symm.trans hcell'
            | ended hended =>
                rw [postStep, if_neg hended]
                exact hstep c.ctx rfl
      · obtain ⟨hnext, hs, hcell, hretries⟩ := hstays hleft
        have hawaiting := hsignalled.awaiting hcell hleft
        obtain ⟨hbelow, hcount⟩ := hcounts hs hretries
        rw [postStep_counts hcell hawaiting.opened hawaiting.arg hawaiting.waiting.handle hcallback
          hbelow]
        exact .body ⟨htaken.long, htaken.announced_eq, htaken.handed_eq, htaken.left_eq,
          htaken.pbufs_eq⟩ fun _ => ⟨hnext, _, rfl, hcount⟩

/-- What happens to other connections changes neither the queue nor what has been handed over. -/
theorem Phase.others (h : Phase r xs polls c) (sys : Sys σ) :
    Phase r xs polls (c.map ({ · with sys })) := by
  cases h with
  | header hqueued hshort =>
      exact .header ⟨hqueued.cell, hqueued.waiting, hqueued.req_eq, hqueued.nextId_eq,
        hqueued.left_eq, hqueued.calls_eq, hqueued.freed_eq, hqueued.retries_le⟩ hshort
  | body htaken hstays =>
      exact .body ⟨htaken.long, htaken.announced_eq, htaken.handed_eq, htaken.left_eq,
        htaken.pbufs_eq⟩ hstays

/-- Data arrives of a POST whose length is read where it stands. -/
theorem Phase.recv (h : Phase r xs polls c) (hsignalled : Signalled site self c)
    (happ : app.Accepts) (hfirst : FirstLength r.rest r.contentLen) {body : List UInt8}
    (hbody : body.length = r.contentLen) {e : Call} {p : Delivery}
    (hcallback : e.callback = .recv p .ok) (hdata : p.payloads.flatten ≠ [])
    (hpart : (xs ++ p.payloads).flatten <+: r.text ++ body)
    (hfits : (xs ++ p.payloads).flatten.length < r.text.length →
      (xs ++ p.payloads).length ≤ reqQueuelen) :
    Phase r (xs ++ p.payloads) polls (postStep site app c (.call e)) := by
  have hdata' : p.payloads ≠ [] := by
    rintro hnil
    exact hdata (by simp [hnil])
  have hmore := List.length_pos_of_ne_nil hdata
  have hlength : (xs ++ p.payloads).flatten.length =
      xs.flatten.length + p.payloads.flatten.length := by
    rw [List.flatten_append, List.length_append]
  cases h with
  | header hqueued hshort =>
      -- the header may go on, or be complete with the delivery
      by_cases hpartial : (xs ++ p.payloads).flatten.length < r.text.length
      · have hpart' : (xs ++ p.payloads).flatten <+: r.text :=
          List.prefix_of_prefix_length_le hpart (List.prefix_append _ _) (Nat.le_of_lt hpartial)
        obtain ⟨hs', hqueued'⟩ := hqueued.recv_part app hsignalled.linked hcallback hdata'
          ⟨hpart', hpartial, hfits hpartial⟩
        exact .header hqueued' hpartial
      · have htext : r.text <+: (xs ++ p.payloads).flatten :=
          List.prefix_of_prefix_length_le (List.prefix_append _ _) hpart (Nat.le_of_not_lt hpartial)
        have hsize : (xs ++ p.payloads).flatten.length < 65536 := by
          have hheader : r.text.length ≤ 1023 := r.length_le
          have hwindow : p.payloads.flatten.length ≤ 2920 := p.size_le
          omega
        rcases hqueued.recv_complete hsignalled.linked happ hcallback hdata' htext hsize with
          ⟨n, -, hn, htaken, hstays⟩ | ⟨-, hnone⟩
        · obtain rfl := hfirst.unique hn
          refine .body htaken fun hleft => ?_
          obtain ⟨hnext, hcell⟩ := hstays hleft
          exact ⟨hnext, _, hcell, hqueued.retries_le⟩
        · exact absurd hfirst (hnone _ r.positive)
  | body htaken hstays =>
      -- what arrives belongs to the body, so something of it was still awaited
      have hleft : c.postContentLenLeft ≠ 0 := by
        have hle := hpart.length_le
        have hlong := htaken.long
        rw [htaken.left_eq]
        rw [List.length_append, hbody] at hle
        omega
      obtain ⟨hnext, hs, hcell, -⟩ := hstays hleft
      obtain ⟨htaken', hstays'⟩ := htaken.recv hnext (hsignalled.awaiting hcell hleft) hleft happ
        hcallback hdata'
      refine .body htaken' fun hleft' => ?_
      obtain ⟨hnext', hcell'⟩ := hstays' hleft'
      exact ⟨hnext', _, hcell', Nat.zero_le _⟩

/-! ## Runs -/

theorem PostRequest.text_pos (r : PostRequest) : 0 < r.text.length := by
  have hlength := length_postText r.uri r.rest
  rw [PostRequest.text]
  omega

theorem accept_queued (halloc : o.stateAlloc) (self addr : Nat) (sys : Sys σ) :
    Queued [] 0 (PostCtx.accept o self addr sys) { httpStateInit with addr := addr, pcb := self } := by
  rw [PostCtx.accept, accept_eq, if_pos halloc]
  exact ⟨rfl, ⟨rfl, rfl, rfl, rfl⟩, rfl, rfl, rfl, rfl, rfl, Nat.le_refl 0⟩

@[simp] theorem received_append (es fs : List (ConnEvent σ)) :
    received (es ++ fs) = received es ++ received fs := by
  simp [received]

@[simp] theorem received_cons (e : ConnEvent σ) (es : List (ConnEvent σ)) :
    received (e :: es) = e.pieces ++ received es := rfl

@[simp] theorem received_nil : received ([] : List (ConnEvent σ)) = [] := rfl

theorem Segmented.of_append {text body : List UInt8} {es fs : List (ConnEvent σ)}
    (h : Segmented text body (es ++ fs)) : Segmented text body es where
  calls e he := h.calls e (List.mem_append_left fs he)
  polls_lt := by
    have hlt := h.polls_lt
    rw [List.countP_append] at hlt
    omega
  part := by
    have hpart := h.part
    rw [received_append, List.flatten_append] at hpart
    exact (List.prefix_append _ _).trans hpart
  fits gs hgs := h.fits gs (hgs.trans (List.prefix_append es fs))

/-- An application that takes everything refuses nothing. -/
theorem Segmented.orderly {text body : List UInt8} {es : List (ConnEvent σ)} {e : ConnEvent σ}
    (h : Segmented text body (es ++ [e])) (happ : app.Accepts) (c : PostCtx σ) :
    Orderly app c e := by
  cases e with
  | others sys => trivial
  | call e =>
      intro hs _
      refine ⟨fun herr => ?_, fun left p state _ => Or.inl (happ.data_ok _ _ _)⟩
      rcases h.calls e (by simp) with hpoll | ⟨p, hrecv, -⟩
      · cases herr.symm.trans hpoll
      · cases herr.symm.trans hrecv

/-- The phase of a connection to which a POST is sent. -/
theorem phase_run (happ : app.Accepts) (halloc : o.stateAlloc)
    (hfirst : FirstLength r.rest r.contentLen) {body : List UInt8}
    (hbody : body.length = r.contentLen) (self addr : Nat) (sys : Sys σ)
    {es : List (ConnEvent σ)} (hseg : Segmented r.text body es) :
    let c := Run.run (postStep site app) (.accept o self addr sys) es
    Signalled site self c ∧ Phase r (received es) (es.countP ConnEvent.isPoll) c := by
  -- the last event comes after a run that is itself in segments
  induction es using List.reverseRecOn with
  | nil =>
      exact ⟨accept_signalled site o self addr sys,
        .header (accept_queued halloc self addr sys) r.text_pos⟩
  | append_singleton es e ih =>
      obtain ⟨hsignalled, hphase⟩ := ih hseg.of_append
      have hsignalled' := hsignalled.step (hseg.orderly happ _)
      have hpart := hseg.part
      have hpolls := hseg.polls_lt
      rw [List.countP_append] at hpolls
      dsimp only
      rw [Run.run_concat, received_append, received_cons, received_nil, List.append_nil,
        List.countP_append]
      refine ⟨hsignalled', ?_⟩
      cases e with
      | others sys =>
          rw [ConnEvent.pieces, List.append_nil]
          exact hphase.others sys
      | call e =>
          rcases hseg.calls e (by simp) with hpoll | ⟨p, hrecv, hdata⟩
          · have hpieces : e.pieces = [] := by simp [Call.pieces, hpoll]
            have hcount : [ConnEvent.call (σ := σ) e].countP ConnEvent.isPoll = 1 := by
              simp [ConnEvent.isPoll, hpoll]
            rw [hcount] at hpolls ⊢
            rw [ConnEvent.pieces, hpieces, List.append_nil]
            exact hphase.poll hsignalled hpoll hpolls
          · have hpieces : e.pieces = p.payloads := by simp [Call.pieces, hrecv]
            have hcount : [ConnEvent.call (σ := σ) e].countP ConnEvent.isPoll = 0 := by
              simp [ConnEvent.isPoll, hrecv]
            have hreceived : received (es ++ [ConnEvent.call e]) = received es ++ p.payloads := by
              simp [ConnEvent.pieces, hpieces]
            have hfits := hseg.fits _ List.prefix_rfl
            rw [hreceived] at hpart hfits
            rw [hcount, ConnEvent.pieces, hpieces]
            exact hphase.recv hsignalled happ hfirst hbody hrecv hdata hpart hfits

/-- What the phases say of what has been handed over. -/
theorem Phase.intact (h : Phase r xs polls c) (hsignalled : Signalled site self c)
    {body : List UInt8} (hbody : body.length = r.contentLen) (hpart : xs.flatten <+: r.text ++ body) :
    Intact r xs c := by
  cases h with
  | @header hs hqueued hshort =>
      have hlong := Nat.not_le_of_lt hshort
      have hnone : handed c.calls = [] := by simp [hqueued.calls_eq]
      refine ⟨?_, ?_, fun hle => absurd hle hlong, ?_⟩
      · rw [if_neg hlong, hqueued.calls_eq, announced_nil]
      · rw [hnone, List.drop_eq_nil_of_le (Nat.le_of_lt hshort)]
        rfl
      · rw [hqueued.freed_eq, hnone, c.ctx.queue_of_live hqueued.cell, hqueued.req_eq,
          pbufChain_zero_ids]
        rfl
  | body htaken hstays =>
      have hlong := htaken.long
      refine ⟨?_, htaken.handed_eq, fun _ => ?_, ?_⟩
      · rw [if_pos hlong, htaken.announced_eq]
      · have hle := hpart.length_le
        rw [List.length_append, hbody] at hle
        rw [htaken.left_eq, htaken.handed_eq, List.length_drop]
        omega
      · rw [hsignalled.queue_eq (by simp [htaken.announced_eq]), htaken.pbufs_eq, List.map_nil,
          List.append_nil]

/-- A header that arrives at once. -/
def PostRequest.whole (r : PostRequest) : ConnEvent σ :=
  .call (.data .willing 0 r.text (Nat.le_trans r.length_le (by decide)))

theorem PostRequest.whole_segmented (r : PostRequest) (body : List UInt8) :
    Segmented r.text body [(r.whole : ConnEvent σ)] := by
  have hreceived : received [(r.whole : ConnEvent σ)] = [r.text] := rfl
  have hpolls : [(r.whole : ConnEvent σ)].countP ConnEvent.isPoll = 0 := rfl
  refine ⟨?_, by rw [hpolls]; decide, ?_, ?_⟩
  · intro e he
    obtain rfl : e = _ := ConnEvent.call.inj (List.mem_singleton.mp he)
    refine Or.inr ⟨_, rfl, ?_⟩
    have hpos := r.text_pos
    simpa [Delivery.single] using List.ne_nil_of_length_pos hpos
  · rw [hreceived]
    simp
  · intro fs hfs hshort
    rcases List.prefix_cons_iff.mp hfs with rfl | ⟨gs, rfl, hgs⟩
    · exact Nat.zero_le _
    · obtain rfl := List.prefix_nil.mp hgs
      rw [hreceived] at hshort
      simp at hshort

/-- The body of a POST arrives intact, in whatever pieces the POST is sent, if and only if its
length is what the first length in its header reads as. -/
theorem post_body_intact (site : Site σ) (app : PostApp σ) (happ : app.Accepts) (o : Oracle)
    (halloc : o.stateAlloc) (self addr : Nat) (sys : Sys σ) (r : PostRequest) (body : List UInt8)
    (hbody : body.length = r.contentLen) :
    (∀ es : List (ConnEvent σ), Segmented r.text body es →
        Intact r (received es) (Run.run (postStep site app) (.accept o self addr sys) es)) ↔
      FirstLength r.rest r.contentLen := by
  constructor
  · intro hintact
    have hannounced := (hintact [r.whole] (r.whole_segmented body)).announced_eq
    have hreceived : received [(r.whole : ConnEvent σ)] = [r.text] := rfl
    rw [hreceived, if_pos (by simp), Run.run_cons, Run.run_nil] at hannounced
    have hqueued : Queued [] 0 (PostCtx.accept o self addr sys) _ := accept_queued halloc self addr sys
    have hlinked : Linked site self (PostCtx.accept o self addr sys).ctx :=
      accept_linked site o self addr sys
    have hsize : r.text.length < 65536 := Nat.lt_of_le_of_lt r.length_le (by decide)
    have hwindow : r.text.length ≤ tcpWnd := Nat.le_trans r.length_le (by decide)
    have hcallback : (Call.data .willing 0 r.text hwindow).callback =
        .recv (.single r.text hwindow) .ok := rfl
    rcases hqueued.recv_complete (r := r) hlinked happ hcallback (by simp [Delivery.single])
      (by simp [Delivery.single]) (by simpa [Delivery.single] using hsize) with
      ⟨n, -, hfirst, htaken, -⟩ | ⟨hnone, -⟩
    · have hlength : (n : Int) = r.contentLen := by
        simpa using htaken.announced_eq.symm.trans hannounced
      obtain rfl : n = r.contentLen := by exact_mod_cast hlength
      exact hfirst
    · cases hnone.symm.trans hannounced
  · intro hfirst es hseg
    obtain ⟨hsignalled, hphase⟩ := phase_run happ halloc hfirst hbody self addr sys hseg
    exact hphase.intact hsignalled hbody hseg.part

section Trial

/-- A POST that announces a body of five bytes. -/
def trialPostRequest : PostRequest where
  uri := chars "/p"
  rest := chars "HTTP/1.0\r\nContent-Length: 5\r\n\r\n"
  digits := chars "5"
  uri_plain := by simp [chars]
  nonzero := by decide
  length_le := by decide
  ends := by decide
  ends_once := ends_once_of_lt (by decide +kernel)
  line := by decide +kernel
  digits_length := by decide
  digits_plain := by simp [chars, isDigit]
  positive := by decide

/-- Another field of the header ends in the name of the field with the length. -/
def mistakenRequest : PostRequest where
  uri := chars "/p"
  rest := chars "HTTP/1.0\r\nX-Content-Length: 3\r\nContent-Length: 5\r\n\r\n"
  digits := chars "5"
  uri_plain := by simp [chars]
  nonzero := by decide
  length_le := by decide
  ends := by decide
  ends_once := ends_once_of_lt (by decide +kernel)
  line := by decide +kernel
  digits_length := by decide
  digits_plain := by simp [chars, isDigit]
  positive := by decide

/-- The header in two deliveries, the second of which begins the body, a poll, and the rest. -/
def trialSegments : List (ConnEvent Unit) :=
  [.call (.data .willing 4 (chars "POST /p HTTP/1.0\r\nContent-Le") (Nat.le_of_ble_eq_true rfl)),
    .call (.data .willing 4 (chars "ngth: 5\r\n\r\nab") (Nat.le_of_ble_eq_true rfl)),
    .call (.under .poll .willing 4),
    .call (.data .willing 4 (chars "cde") (Nat.le_of_ble_eq_true rfl))]

theorem trialPostApp_accepts : (trialPostApp none).Accepts :=
  ⟨fun _ _ _ _ _ => rfl, fun _ _ _ => rfl⟩

theorem trialSegments_segmented :
    Segmented trialPostRequest.text (chars "abcde") trialSegments := by
  refine ⟨?_, by decide, by decide +kernel, ?_⟩
  · intro e he
    simp only [trialSegments, List.mem_cons, ConnEvent.call.injEq, List.not_mem_nil, or_false] at he
    rcases he with rfl | rfl | rfl | rfl
    · exact Or.inr ⟨_, rfl, by decide⟩
    · exact Or.inr ⟨_, rfl, by decide⟩
    · exact Or.inl rfl
    · exact Or.inr ⟨_, rfl, by decide⟩
  · intro fs hfs _
    have hcount : (received trialSegments).length ≤ reqQueuelen := by decide
    obtain ⟨gs, hgs⟩ := hfs
    rw [← hgs, received_append, List.length_append] at hcount
    omega

theorem post_body_intact_trial :
    Intact trialPostRequest (received trialSegments)
      (Run.run (postStep trialSite (trialPostApp none)) (.accept .willing 0 0 trialSys)
        trialSegments) := by
  have hfirst : FirstLength trialPostRequest.rest trialPostRequest.contentLen :=
    ⟨10, 1, ⟨by decide, by decide⟩, ⟨by decide, by decide⟩, by decide, by decide⟩
  exact (post_body_intact trialSite (trialPostApp none) trialPostApp_accepts .willing rfl 0 0 trialSys
    trialPostRequest (chars "abcde") (by decide)).mpr hfirst trialSegments trialSegments_segmented

/-- Of a body of five bytes three are awaited. -/
theorem post_body_mistaken :
    Segmented mistakenRequest.text (chars "abcde") [(mistakenRequest.whole : ConnEvent Unit)] ∧
      ¬ Intact mistakenRequest (received [(mistakenRequest.whole : ConnEvent Unit)])
        (Run.run (postStep trialSite (trialPostApp none)) (.accept .willing 0 0 trialSys)
          [mistakenRequest.whole]) := by
  refine ⟨mistakenRequest.whole_segmented _, fun h => ?_⟩
  have hleft := h.left_eq (by decide +kernel)
  exact absurd hleft (by decide +kernel)

end Trial

end Meu1oARM
