import Meu1oARM.Httpd.Segments
import Meu1oARM.Httpd.TagLookup

/-! # Data for a connection that waits

The data that arrives goes to the end of the queue, and the whole queue is parsed. The
queue stays as it is, or the request is rejected, or its URI is looked up.
-/

namespace Meu1oARM

open Machine CString

variable {σ : Type} {site : Site σ} {o : Oracle} {c : Ctx σ} {hs : HttpState}

def Action.isOpened : Action → Bool
  | .opened .. => true
  | _ => false

/-- What a callback has added to the trace. -/
def newActions (c c' : Ctx σ) : List Action := c'.pcb.trace.drop c.pcb.trace.length

theorem newActions_eq {c' : Ctx σ} {acts : List Action}
    (h : c'.pcb.trace = c.pcb.trace ++ acts) : newActions c c' = acts := by
  rw [newActions, h, List.drop_left]

theorem mem_freed {q : Pbuf} {p : List Pbuf} (h : q ∈ p) : .free (.pbuf q.id) ∈ freed p :=
  List.mem_map_of_mem h

theorem Ctx.leave_closed (o : Oracle) (hs : HttpState) (c : Ctx σ) :
    (c.closed o hs).leave = { c.closed o hs with cell := .null } := rfl

/-- Sending moves on in the file and in the scanner, or it finds the end and closes. -/
theorem httpSend_sentTo (hcell : c.cell = .live hs) (hopen : c.pcb.status = .opened)
    (hactive : Active site c.pcb hs) :
    ∃ pcb' hs', c.pcb.Sends pcb' ∧ hs.SentTo hs' ∧
      ((hs.left ≠ 0 ∧ (httpSend site o c).2 = { c with pcb := pcb', cell := .live hs' }) ∨
        httpSend site o c =
          (0, ({ c with pcb := pcb', cell := .live hs' }.log .eof).closed o hs')) := by
  have hdone : hs.left = 0 → (∀ f ∈ hs.handle, f.index = f.data.length) →
      httpSend site o c = (0, ({ c with pcb := c.pcb, cell := .live hs }.log .eof).closed o hs) := by
    intro hleft hhandle
    rw [httpSend_eof hcell hopen hleft hhandle, ← hcell]
  obtain ⟨-, ⟨hwaiting, -⟩ | ⟨f, is09, hserving, -, -⟩⟩ := hactive
  · exact ⟨c.pcb, hs, .refl _, ⟨rfl, rfl⟩,
      Or.inr (hdone hwaiting.left (by simp [hwaiting.handle]))⟩
  · by_cases hleft : hs.left = 0
    · exact ⟨c.pcb, hs, .refl _, ⟨rfl, rfl⟩,
        Or.inr (hdone hleft (by simp [hserving.handle, hserving.index]))⟩
    · obtain ⟨pcb', hs', hsends, hsent, -, hout⟩ :=
        httpSend_serving (o := o) hcell hleft hserving
      exact ⟨pcb', hs', hsends, hsent, hout.imp (fun hstay => ⟨hleft, hstay.2⟩) And.right⟩

/-- Opening a file sets the handle and resets the counter, also when there is none. -/
theorem httpInitFile_hs (file : Option FsFile) (is09 tagCheck : Bool) (hcell : c.cell = .live hs) :
    (httpInitFile o file is09 tagCheck c).hs.handle = file ∧
      (httpInitFile o file is09 tagCheck c).hs.retries = 0 := by
  cases file with
  | none => simp [httpInitFile, Ctx.hs, Ctx.setHs, hcell]
  | some f =>
      cases halloc : tagCheck && o.ssiAlloc <;>
        simp [httpInitFile, halloc, Ctx.hs, Ctx.setHs, hcell, Ctx.log, Pcb.log]

theorem httpFindFile_hs (uri : List UInt8) (is09 : Bool) (hcell : c.cell = .live hs) :
    (∀ f, (httpFindFile site o uri is09 c).2.hs.handle = some f → Stored site.root f) ∧
      (httpFindFile site o uri is09 c).2.hs.retries = 0 := by
  simp only [httpFindFile, Ctx.readHs_of_live hcell]
  split
  · obtain ⟨hhandle, hretries⟩ := httpInitFile_hs (o := o) (c := c.log (.findFile uri is09))
      (openDefaultFile site.root).1 is09 (openDefaultFile site.root).2 hcell
    rw [hhandle]
    exact ⟨fun f hf => openDefaultFile_stored hf, hretries⟩
  · obtain ⟨page, cut, sys, params, paramVals, hcgi⟩ :=
      callCgi_spec site uri (c := c.log (.findFile uri is09)) hcell
    simp only [hcgi]
    obtain ⟨hhandle, hretries⟩ := httpInitFile_hs (o := o)
      (c := { c.log (.findFile uri is09) with
        sys := sys, cell := .live { hs with params, paramVals } })
      (openNamedFile site.root page).1 is09 (openNamedFile site.root page).2 rfl
    rw [hhandle]
    exact ⟨fun f hf => openNamedFile_stored hf, hretries⟩

variable (site o) in
/-- A request that is complete has found a stored file or none, and leaves the counter at zero. -/
theorem httpParseRequest_hs (p : List Pbuf) (hcell : c.cell = .live hs)
    (hok : (httpParseRequest site o p c).1 = .ok) :
    (∀ f, (httpParseRequest site o p c).2.hs.handle = some f → Stored site.root f) ∧
      (httpParseRequest site o p c).2.hs.retries = 0 := by
  have hqueue : enqueuePbuf p c = c.withQueued hs p c.sys := by
    simp only [enqueuePbuf, Ctx.hs_of_live hcell, Ctx.setHs_of_live hcell, pbufCat, Ctx.withQueued]
  unfold httpParseRequest at hok ⊢
  simp only [Ctx.readHs_of_live hcell, hqueue] at hok ⊢
  split at hok
  · cases hok
  next hidle =>
    rw [if_neg hidle]
    split at hok
    next uriLen is09 hdispatch =>
      dsimp only
      obtain ⟨sys, hpatch⟩ := patchReqBuf_eq (σ := σ) _ _ _ _
      rw [hpatch]
      exact httpFindFile_hs _ _ (Eq.refl (Cell.live { hs with req := hs.req ++ p }))
    · cases hok
    · split at hok <;> cases hok

/-- A file that is found shows in the trace, or there is nothing to send. -/
theorem Opens.any_opened {is09 : Bool} {id : Nat} {acts : List Action}
    (h : Opens is09 id hs acts) (hleft : hs.left ≠ 0) : acts.any Action.isOpened = true := by
  cases h with
  | nothing hwaiting => exact absurd hwaiting.left hleft
  | plain | ssi => simp [Action.isOpened]

/-- A state with something left to send has a file. -/
theorem Opens.handle_ne_none {is09 : Bool} {id : Nat} {acts : List Action}
    (h : Opens is09 id hs acts) (hleft : hs.left ≠ 0) : hs.handle ≠ none := by
  cases h with
  | nothing hwaiting => exact absurd hwaiting.left hleft
  | plain f hhandle | ssi f hhandle => simp [hhandle]

/-- Sending the file that has just been opened. -/
theorem httpSend_opened {before : List Action} (opening : List Action)
    (htrace : c.pcb.trace = before ++ opening) (hcell : c.cell = .live hs)
    (hopen : c.pcb.status = .opened) (hactive : Active site c.pcb hs) (hreq : hs.req = [])
    (hretries : hs.retries = 0)
    (hopened : hs.left ≠ 0 → hs.handle ≠ none ∧ opening.any Action.isOpened = true) :
    ∃ acts, (httpSend site o c).2.leave.pcb.trace = before ++ acts ∧ opening <+: acts ∧
      ∀ hs', (httpSend site o c).2.leave.cell = .live hs' →
        hs'.handle ≠ none ∧ hs'.req = [] ∧ hs'.retries = 0 ∧
          acts.any Action.isOpened = true := by
  obtain ⟨pcb', hs', hsends, hsent, ⟨hleft, hstay⟩ | hdone⟩ :=
    httpSend_sentTo (o := o) hcell hopen hactive
  · obtain ⟨acts, -, htrace'⟩ := hsends.trace_eq
    obtain ⟨hhandle, hany⟩ := hopened hleft
    rw [hstay]
    refine ⟨opening ++ acts, ?_, List.prefix_append _ _, fun hs'' hlive => ?_⟩
    · rw [Ctx.leave_pcb, ← List.append_assoc, ← htrace]
      exact htrace'
    · obtain rfl : hs'' = hs' := by
        unfold Ctx.leave at hlive
        split at hlive
        · simpa using hlive.symm
        · cases hlive
      rw [hsent.1]
      exact ⟨hhandle, hreq, hretries, by simp [hany]⟩
  · -- all of it has been sent, and the connection is closed
    obtain ⟨acts, -, htrace'⟩ := hsends.trace_eq
    rw [hdone, Ctx.leave_closed]
    refine ⟨opening ++ acts ++ .eof :: (hs'.releases ++ [.closed o.close]), ?_, ?_, nofun⟩
    swap
    · rw [List.append_assoc]
      exact List.prefix_append _ _
    simp [Ctx.closed, Pcb.shut, Ctx.log, Pcb.log, htrace', htrace]

/-- Every file that has been opened is stored, and its response starts behind its header if that is
left out. -/
def Sourced (site : Site σ) (trace : List Action) : Prop :=
  ∀ x ∈ openings trace, ∃ f, Stored site.root f ∧ x.data = f.data ∧ x.start = headerEnd f x.is09

theorem Sourced.of_openings_eq {s t : List Action} (h : Sourced site t)
    (heq : openings s = openings t) : Sourced site s := by
  rw [Sourced, heq]
  exact h

theorem Sourced.of_nil {t : List Action} (h : openings t = []) : Sourced site t := by
  rw [Sourced, h]
  exact fun x hx => absurd hx List.not_mem_nil

/-- What an active connection has opened is what it serves. -/
theorem Active.sourced (h : Active site c.pcb hs)
    (hstored : ∀ f, hs.handle = some f → Stored site.root f) : Sourced site c.pcb.trace := by
  obtain ⟨-, ⟨-, -, -, hnone⟩ | ⟨f, is09, hserving, -, hone⟩⟩ := h
  · exact .of_nil hnone
  · rw [Sourced, hone]
    intro x hx
    obtain rfl := List.mem_singleton.mp hx
    exact ⟨f, hstored f hserving.handle, rfl, rfl⟩

/-- Sending opens nothing. -/
theorem httpSend_openings (hcell : c.cell = .live hs) (hopen : c.pcb.status = .opened)
    (hactive : Active site c.pcb hs) :
    openings (httpSend site o c).2.pcb.trace = openings c.pcb.trace := by
  obtain ⟨pcb', hs', hsends, -, ⟨-, hstay⟩ | hdone⟩ :=
    httpSend_sentTo (o := o) hcell hopen hactive
  · obtain ⟨acts, hsending, htrace⟩ := hsends.trace_eq
    rw [hstay, htrace, openings_append, openings_of_sending hsending, List.append_nil]
  · obtain ⟨acts, hsending, htrace⟩ := hsends.trace_eq
    have hreleases := openings_of_quiet hs'.releases_quiet
    simp [hdone, Ctx.closed, Pcb.shut, Ctx.log, Pcb.log, htrace, openings_of_sending hsending,
      hreleases, Action.opening]

/-- What becomes of the queue `req`, which ends in the data that has just arrived. -/
inductive Arrival (site : Site σ) (o : Oracle) (req : List Pbuf) (c : Ctx σ) (hs : HttpState)
    (c' : Ctx σ) : Prop
  | incomplete (hparsed : requestParsed o req c.sys.httpdReqBuf = .incomplete)
      (hbounds : WithinBounds req) (hcell : c'.cell = .live { hs with req := req })
      (harg : c'.pcb.callbackArg = c.pcb.callbackArg) (hopen : c'.pcb.status = .opened)
      (hsame : ∃ p, c'.pcb.trace = c.pcb.trace ++ queued p)
  | rejected (hparsed : requestParsed o req c.sys.httpdReqBuf = .badMethod ∨
        requestParsed o req c.sys.httpdReqBuf = .incomplete ∧ ¬ WithinBounds req)
      (hcell : c'.cell = .null) (hlookups : lookups c'.pcb.trace = lookups c.pcb.trace)
      (hfreed : ∀ q ∈ req, .free (.pbuf q.id) ∈ c'.pcb.trace)
      (hopenings : openings c'.pcb.trace = openings c.pcb.trace)
  | found (uriLen : Nat) (is09 : Bool)
      (hparsed : requestParsed o req c.sys.httpdReqBuf = .dispatch uriLen is09)
      (hlookups : lookups c'.pcb.trace = lookups c.pcb.trace ++
        [(requestUri o req c.sys.httpdReqBuf uriLen, is09)])
      (hserving : ∃ acts, c'.pcb.trace = c.pcb.trace ++ acts ∧ ∀ hs', c'.cell = .live hs' →
        hs'.handle ≠ none ∧ hs'.req = [] ∧ hs'.retries = 0 ∧ acts.any Action.isOpened = true)
      (hfreed : ∀ q ∈ req, .free (.pbuf q.id) ∈ c'.pcb.trace)
      (hsourced : Sourced site c'.pcb.trace) (hscanned : Scanned c')

/-- A request is found when the file that `opening` has opened is sent. -/
theorem Arrival.of_opened {req : List Pbuf} {c d : Ctx σ} {hs hs' : HttpState} {uriLen : Nat}
    {is09 : Bool} (opening : List Action)
    (hparsed : requestParsed o req c.sys.httpdReqBuf = .dispatch uriLen is09)
    (hlookups : lookups opening = [(requestUri o req c.sys.httpdReqBuf uriLen, is09)])
    (hfreed : ∀ q ∈ req, .free (.pbuf q.id) ∈ opening)
    (htrace : d.pcb.trace = c.pcb.trace ++ opening) (hcell : d.cell = .live hs')
    (hopen : d.pcb.status = .opened) (harg : d.pcb.callbackArg = .state hs'.addr)
    (hactive : Active site d.pcb hs') (hscanned : Scanned d) (hreq : hs'.req = [])
    (hretries : hs'.retries = 0) (hstored : ∀ f, hs'.handle = some f → Stored site.root f)
    (hopened : hs'.left ≠ 0 → hs'.handle ≠ none ∧ opening.any Action.isOpened = true) :
    Arrival site o req c hs (httpSend site o d).2.leave := by
  obtain ⟨acts, htrace', hfirst, hlater⟩ :=
    httpSend_opened (o := o) opening htrace hcell hopen hactive hreq hretries hopened
  refine .found uriLen is09 hparsed ?_ ⟨acts, htrace', hlater⟩ (fun q hq => ?_) ?_
    (httpSend_scanned hcell hopen harg hactive hscanned)
  · rw [Ctx.leave_pcb, httpSend_lookups hcell hopen hactive, htrace, lookups_append, hlookups]
  · rw [htrace']
    exact List.mem_append_right _ (hfirst.subset (hfreed q hq))
  · rw [Ctx.leave_pcb]
    exact (hactive.sourced hstored).of_openings_eq (httpSend_openings hcell hopen hactive)

/-- The specification of `http_recv` for a connection that waits. -/
theorem arrival (hcell : c.cell = .live hs) (hopen : c.pcb.status = .opened)
    (harg : c.pcb.callbackArg = .state hs.addr) (hactive : Active site c.pcb hs)
    (hwaiting : hs.Waiting) {e : Call} {p : Delivery} (hcallback : e.callback = .recv p .ok)
    (hdata : p.payloads ≠ []) :
    Arrival site e.oracle (hs.req ++ pbufChain c.pcb.nextId p.payloads) c hs
      (connStep site c (.call e)) := by
  have hcell' : ((c.window e).received p.payloads).cell = .live hs := hcell
  have hopen' : ((c.window e).received p.payloads).pcb.status = .opened := hopen
  have hdata' : pbufChain c.pcb.nextId p.payloads ≠ [] := by simpa using hdata
  have hstep : connStep site c (.call e) =
      (httpRecv site e.oracle (pbufChain c.pcb.nextId p.payloads) .ok
        ((c.window e).received p.payloads)).leave := by
    simp only [connStep, if_pos hopen, Ctx.call, hcallback]
    rfl
  rw [hstep, httpRecv_waiting hcell' hopen' hdata' hwaiting]
  have hspec := httpParseRequest_spec site e.oracle (pbufChain c.pcb.nextId p.payloads) hcell'
    hwaiting
  have hhs := httpParseRequest_hs site e.oracle (pbufChain c.pcb.nextId p.payloads) hcell'
  generalize httpParseRequest site e.oracle (pbufChain c.pcb.nextId p.payloads)
    ((c.window e).received p.payloads) = result at hspec hhs ⊢
  cases hspec with
  | incomplete sys hbounds hparsed =>
      rw [httpRecvParsed_inprogress, Ctx.leave_of_state (by exact harg)]
      exact .incomplete hparsed hbounds rfl rfl hopen ⟨_, rfl⟩
  | rejected sys hparsed =>
      dsimp only
      rw [httpRecvParsed_arg (c := ((c.window e).received p.payloads).withQueued hs
          (pbufChain c.pcb.nextId p.payloads) sys)
        (Eq.refl (Cell.live { hs with req := hs.req ++ pbufChain c.pcb.nextId p.payloads }))
        hopen, Ctx.leave_closed]
      refine .rejected hparsed rfl ?_ ?_ ?_
      · simp [Ctx.closed, Pcb.shut, Ctx.withQueued, Ctx.received, Ctx.window, Action.lookup]
      · intro q hq
        have hmem := mem_freed hq
        simp [Ctx.closed, Pcb.shut, Ctx.withQueued, hmem]
      · have hreleases := openings_of_quiet (HttpState.releases_quiet { hs with req := [] })
        simp [Ctx.closed, Pcb.shut, Ctx.withQueued, Ctx.received, Ctx.window, Action.opening,
          openings_of_quiet (queued_quiet _), openings_of_quiet (freed_quiet _), hreleases]
  | found uriLen is09 uri hs' n acts sys hparsed huri hfound =>
      subst huri
      dsimp only
      have hopening := lookups_of_opening hfound.opens.isOpening
      have hactive' := hactive.dispatched hwaiting hfound
        (q := { (c.window e).pcb with
          nextId := n
          trace := c.pcb.trace ++ queued (pbufChain c.pcb.nextId p.payloads) ++
            .findFile (requestUri e.oracle (hs.req ++ pbufChain c.pcb.nextId p.payloads)
              c.sys.httpdReqBuf uriLen) is09 :: acts ++ freed hs'.req }) hopen _ _ _ rfl
      have harg' : c.pcb.callbackArg = .state hs'.addr := by
        rw [hfound.addr_eq]
        exact harg
      obtain ⟨-, -, hnone, -⟩ := hactive.unanswered hwaiting
      obtain ⟨-, hfetched, -⟩ := hfound.opens.trace
      -- what has been opened is scanned from its start, and nothing of it has been sent
      have hscanned : Scanned
          { sys
            cell := .live { hs' with req := [] }
            pcb := { (c.window e).pcb with
              nextId := n
              trace := c.pcb.trace ++ queued (pbufChain c.pcb.nextId p.payloads) ++
                .findFile (requestUri e.oracle (hs.req ++ pbufChain c.pcb.nextId p.payloads)
                  c.sys.httpdReqBuf uriLen) is09 :: acts ++ freed hs'.req } } := by
        apply hfound.opens.scanned rfl
        simp [hnone, hfetched, Action.insertAt, tagInserts_of_quiet (queued_quiet _),
          tagInserts_of_quiet (freed_quiet _)]
      rw [httpRecvParsed_ok hs' rfl]
      refine .of_opened (queued (pbufChain c.pcb.nextId p.payloads) ++
          (.findFile (requestUri e.oracle (hs.req ++ pbufChain c.pcb.nextId p.payloads)
            c.sys.httpdReqBuf uriLen) is09 :: acts ++ freed hs'.req))
        hparsed ?_ ?_ ?_ rfl hopen harg' hactive' hscanned rfl (hhs rfl).2 (hhs rfl).1
        fun hleft => ⟨hfound.opens.handle_ne_none hleft, ?_⟩
      · simp [hopening, Action.lookup]
      · intro q hq
        have hmem := mem_freed (hfound.req_eq ▸ hq : q ∈ hs'.req)
        simp [hmem]
      · simp [Ctx.received, Ctx.window]
      · simp [hfound.opens.any_opened hleft]

/-! ## The queue -/

/-- The queue is as short as a request may be. -/
def QueueShort (c : Ctx σ) : Prop :=
  ∀ hs, c.cell = .live hs → (pbufBytes hs.req).length ≤ reqBufsize ∧ hs.req.length ≤ reqQueuelen

theorem length_received {req : List Pbuf} (hreq : (pbufBytes req).length ≤ reqBufsize)
    (p : Delivery) (n : Nat) : (pbufBytes (req ++ pbufChain n p.payloads)).length < 65536 := by
  have hsize := p.size_le
  have hbuf : reqBufsize = 1023 := rfl
  have hwnd : tcpWnd = 2920 := rfl
  rw [pbufBytes_append, pbufBytes_pbufChain, List.length_append]
  omega

/-- No counter of a short queue with a delivery behind it wraps around. -/
theorem withinBounds_iff {req : List Pbuf} (hreq : (pbufBytes req).length ≤ reqBufsize)
    (hcount : req.length ≤ reqQueuelen) (p : Delivery) (n : Nat) :
    WithinBounds (req ++ pbufChain n p.payloads) ↔
      (pbufBytes (req ++ pbufChain n p.payloads)).length ≤ reqBufsize ∧
        (req ++ pbufChain n p.payloads).length ≤ reqQueuelen := by
  have hpool := p.count_le
  have hqueue : reqQueuelen = 5 := rfl
  have hcount' : pbufPoolSize = 10 := rfl
  have hlt : (req ++ pbufChain n p.payloads).length < 256 := by
    rw [List.length_append, length_pbufChain]
    omega
  unfold WithinBounds totLen pbufClen
  rw [u16_of_lt (length_received hreq p n), u8_of_lt hlt]

theorem Move.queueShort {keep : Prop} {c' : Ctx σ} (h : Move site keep c c')
    (hshort : QueueShort c) : QueueShort c' := by
  have hempty : ∀ {hs' : HttpState}, hs'.req = [] → (pbufBytes hs'.req).length ≤ reqBufsize ∧
      hs'.req.length ≤ reqQueuelen := by
    intro hs' hreq
    rw [hreq]
    exact ⟨Nat.zero_le _, Nat.zero_le _⟩
  cases h with
  | window | share | drop | ignore | output | closeNull | abortNull | resetNull => exact hshort
  | retries hcell n =>
      have hbefore := hshort _ hcell
      intro hs' hlive
      obtain rfl := Cell.live.inj hlive
      exact hbefore
  | queue hcell hwaiting p hbounds =>
      obtain ⟨hreq, hcount⟩ := hshort _ hcell
      intro hs' hlive
      obtain rfl := Cell.live.inj hlive
      exact (withinBounds_iff hreq hcount p _).mp hbounds
  | discard | dispatch =>
      intro hs' hlive
      obtain rfl := Cell.live.inj hlive
      exact hempty rfl
  | send hcell hsends hsent hactive =>
      have hbefore := hshort _ hcell
      intro hs' hlive
      obtain rfl := Cell.live.inj hlive
      rw [hsent.1]
      exact hbefore
  | close | finish | reset => exact nofun

theorem connection_queueShort (site : Site σ) (sys : Sys σ) (es : List (WorldEvent σ)) (i : Nat) :
    QueueShort (World.connection site sys es i) := by
  refine World.run_invariant (I := fun _ c => QueueShort c) ?_ ?_ ?_ sys es i
  · exact fun _ _ => nofun
  · intro i o addr sys hs' hlive
    rw [accept_eq] at hlive
    split at hlive
    · obtain rfl := Cell.live.inj hlive
      exact ⟨Nat.zero_le _, Nat.zero_le _⟩
    · cases hlive
  · exact fun i c c' _ hshort hmove => hmove.queueShort hshort

end Meu1oARM
