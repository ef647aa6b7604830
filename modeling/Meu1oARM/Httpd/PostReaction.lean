import Meu1oARM.Httpd.Post
import Meu1oARM.Httpd.Reaction

/-! # What a callback does in the build with POST

As long as nothing of a body is outstanding, and the data that arrives is no POST, a
connection does what it does in the build without. An outstanding body shows in three
places: the data that arrives belongs to it, nothing is sent until it is complete, and the
application hears of it when the connection is closed.
-/

namespace Meu1oARM

open Machine CString

variable {σ : Type} {site : Site σ} {app : PostApp σ} {o : Oracle} {c : PostCtx σ}
  {hs : HttpState} {self : Nat}

/-- The application has been told of the end of a connection whose body is outstanding. -/
def PostCtx.told (app : PostApp σ) (c : PostCtx σ) : PostCtx σ :=
  if c.postContentLenLeft ≠ 0 then (Post.httpdPostFinished app c).2 else c

@[simp] theorem PostCtx.told_of_done (hleft : c.postContentLenLeft = 0) : c.told app = c := by
  simp [told, hleft]

/-- What a function of the build without POST does, with its result. -/
def PostCtx.lift {α : Type} (f : Ctx σ → α × Ctx σ) (c : PostCtx σ) : α × PostCtx σ :=
  ((f c.ctx).1, c.map fun c => (f c).2)

theorem PostCtx.lift_eq {α : Type} (f : Ctx σ → α × Ctx σ) (c : PostCtx σ) :
    c.lift f = ((f c.ctx).1, { c with ctx := (f c.ctx).2 }) := rfl

theorem PostCtx.readHs_of_live (hcell : c.ctx.cell = .live hs) : c.readHs = c := by
  simp only [readHs, map, Ctx.readHs_of_live hcell]

namespace Post

/-! ## Closing and sending -/

theorem httpCloseConn_live (hcell : c.ctx.cell = .live hs) (hopen : c.ctx.pcb.status = .opened) :
    httpCloseConn app o c = (o.close, (c.told app).map (Ctx.closed o hs)) := by
  have hread : c.readHs = c := by
    simp only [PostCtx.readHs, PostCtx.map, Ctx.readHs_of_live hcell]
  have htold : (c.told app).ctx.cell = .live hs ∧ (c.told app).ctx.pcb.status = .opened := by
    unfold PostCtx.told
    split
    · exact ⟨hcell, hopen⟩
    · exact ⟨hcell, hopen⟩
  have hclose : Meu1oARM.httpCloseOrAbortConn o (c.told app).ctx false =
      (o.close, (c.told app).ctx.closed o hs) := Meu1oARM.httpCloseConn_live htold.1 htold.2
  rw [httpCloseConn, httpCloseOrAbortConn, hcell]
  dsimp only
  rw [hread, ← PostCtx.told, hclose]
  rfl

theorem httpEof_live (hcell : c.ctx.cell = .live hs) (hopen : c.ctx.pcb.status = .opened) :
    httpEof app o c = ((c.map (·.log .eof)).told app).map (Ctx.closed o hs) := by
  rw [httpEof, httpCloseConn_live (c := c.map (·.log .eof)) hcell hopen]

/-- Without an outstanding body a connection is closed as in the build without POST. -/
theorem httpCloseConn_done (hcell : c.ctx.cell ≠ .freed) (hleft : c.postContentLenLeft = 0) :
    httpCloseConn app o c = c.lift (Meu1oARM.httpCloseConn o) := by
  rw [httpCloseConn, httpCloseOrAbortConn]
  cases hlive : c.ctx.cell with
  | null => rfl
  | live hs =>
      dsimp only
      rw [PostCtx.readHs_of_live hlive, if_neg (not_not.mpr hleft)]
      rfl
  | freed => exact absurd hlive hcell

theorem httpEof_done (hcell : c.ctx.cell ≠ .freed) (hleft : c.postContentLenLeft = 0) :
    httpEof app o c = c.map (Meu1oARM.httpEof o) := by
  rw [httpEof, httpCloseConn_done (c := c.map (·.log .eof)) hcell hleft]
  rfl

theorem httpCheckEof_done (hcell : c.ctx.cell = .live hs) (hleft : c.postContentLenLeft = 0) :
    httpCheckEof app o c = c.lift (Meu1oARM.httpCheckEof o) := by
  have heof : httpEof app o c = c.map (Meu1oARM.httpEof o) :=
    httpEof_done (by rw [hcell]; exact Cell.noConfusion) hleft
  simp only [httpCheckEof, Meu1oARM.httpCheckEof, PostCtx.lift, PostCtx.readHs_of_live hcell,
    Ctx.readHs_of_live hcell, heof, PostCtx.hs, Ctx.hs_of_live hcell, PostCtx.map]
  cases hs.handle with
  | none => rfl
  | some f =>
      dsimp only
      split
      · rfl
      · rfl

theorem httpSendData_done (hcell : c.ctx.cell = .live hs) (hleft : c.postContentLenLeft = 0) :
    httpSendData site app o c = c.lift (Meu1oARM.httpSendData site o) := by
  have heof : ∀ d : Ctx σ, d.cell ≠ .freed →
      httpEof app o { c with ctx := d } = { c with ctx := Meu1oARM.httpEof o d } :=
    fun d hd => httpEof_done (c := { c with ctx := d }) hd hleft
  have hset : ∀ pcb hs', ({ c.ctx with pcb := pcb } : Ctx σ).setHs hs' =
      { c.ctx with pcb := pcb, cell := .live hs' } :=
    fun pcb hs' => Ctx.setHs_of_live (c := { c.ctx with pcb := pcb }) hcell hs'
  simp only [httpSendData, Meu1oARM.httpSendData, PostCtx.lift, PostCtx.readHs_of_live hcell,
    Ctx.readHs_of_live hcell, PostCtx.hs, Ctx.hs_of_live hcell, PostCtx.map]
  cases hs.ssi with
  | none =>
      rw [hset, heof _ (by exact Cell.noConfusion)]
      dsimp only
      split
      · rfl
      · rfl
  | some ssi =>
      rw [hset, heof _ (by exact Cell.noConfusion)]
      dsimp only
      split
      · rfl
      · rfl

theorem httpCheckEof_cell (hcell : c.ctx.cell = .live hs)
    (hmore : (Meu1oARM.httpCheckEof o c.ctx).1 ≠ 0) :
    (Meu1oARM.httpCheckEof o c.ctx).2.cell = .live hs := by
  simp only [Meu1oARM.httpCheckEof, Ctx.readHs_of_live hcell, Ctx.hs_of_live hcell] at hmore ⊢
  cases hhandle : hs.handle with
  | none => simp [hhandle] at hmore
  | some f =>
      rw [hhandle] at hmore
      dsimp only at hmore ⊢
      split at hmore
      · exact absurd rfl hmore
      next hend =>
        rw [if_neg hend]
        exact hcell

/-- Without an outstanding body, sending is that of the build without POST. -/
theorem httpSend_done (hcell : c.ctx.cell = .live hs) (hleft : c.postContentLenLeft = 0) :
    httpSend site app o c = c.lift (Meu1oARM.httpSend site o) := by
  have hcheck : httpCheckEof app o c = _ := httpCheckEof_done hcell hleft
  simp only [httpSend, Meu1oARM.httpSend, PostCtx.lift, hcell, PostCtx.readHs_of_live hcell,
    Ctx.readHs_of_live hcell, PostCtx.hs, Ctx.hs_of_live hcell, PostCtx.map] at hcheck ⊢
  rw [hcheck]
  split
  next =>
    dsimp only
    split
    next => rfl
    next hmore =>
      exact httpSendData_done (c := { c with ctx := (Meu1oARM.httpCheckEof o c.ctx).2 })
        (httpCheckEof_cell hcell hmore) hleft
  next => exact httpSendData_done hcell hleft

/-- While no file is open, sending finds the end. -/
theorem httpSend_waiting (hcell : c.ctx.cell = .live hs) (hwaiting : hs.Waiting) :
    httpSend site app o c = (0, httpEof app o c) := by
  simp [httpSend, httpCheckEof, hcell, PostCtx.readHs_of_live hcell, PostCtx.hs,
    Ctx.hs_of_live hcell, hwaiting.left, hwaiting.handle]

/-! ## Callbacks -/

/-- `http_sent` resets the retry counter and tries to send. -/
theorem httpSent_live (hcell : c.ctx.cell = .live hs) :
    httpSent site app o c =
      (httpSend site app o
        { c with ctx := { c.ctx with cell := .live { hs with retries := 0 } } }).2 := by
  have hset := Ctx.setHs_of_live hcell { hs with retries := 0 }
  simp only [httpSent, PostCtx.map, hcell, PostCtx.setHs, PostCtx.hs, Ctx.hs_of_live hcell, hset]

theorem httpSent_done (hcell : c.ctx.cell = .live hs) (hleft : c.postContentLenLeft = 0) :
    httpSent site app o c = c.map (Meu1oARM.httpSent site o) := by
  have hset := Ctx.setHs_of_live hcell { hs with retries := 0 }
  rw [httpSent_live hcell, httpSend_done (by rfl) (by exact hleft)]
  simp only [Meu1oARM.httpSent, PostCtx.map, PostCtx.lift, hcell, Ctx.hs_of_live hcell, hset]

theorem httpPoll_counted (hcell : c.ctx.cell = .live hs) :
    httpPoll site app o c =
      if u8 (hs.retries + 1) = maxRetries then
        (.ok, (httpCloseConn app o (c.map (·.counted hs))).2)
      else if hs.handle.isSome then
        (.ok,
          if (httpSend site app o (c.map (·.counted hs))).1 ≠ 0 then
            (httpSend site app o (c.map (·.counted hs))).2.map
              fun c => { c with pcb := tcpOutput c.pcb }
          else (httpSend site app o (c.map (·.counted hs))).2)
      else (.ok, c.map (·.counted hs)) := by
  have hset := Ctx.setHs_of_live hcell { hs with retries := u8 (hs.retries + 1) }
  simp only [httpPoll, PostCtx.map, hcell, PostCtx.setHs, PostCtx.hs, Ctx.hs_of_live hcell, hset]
  rfl

theorem httpPoll_done (hcell : c.ctx.cell = .live hs) (hleft : c.postContentLenLeft = 0) :
    httpPoll site app o c = c.lift (Meu1oARM.httpPoll site o) := by
  have hcell' : (c.map (·.counted hs)).ctx.cell =
      .live { hs with retries := u8 (hs.retries + 1) } := rfl
  have hsend : httpSend site app o (c.map (·.counted hs)) = _ := httpSend_done hcell' hleft
  have hclose : httpCloseConn app o (c.map (·.counted hs)) = _ :=
    httpCloseConn_done (by rw [hcell']; exact Cell.noConfusion) hleft
  rw [httpPoll_counted hcell, PostCtx.lift_eq (Meu1oARM.httpPoll site o),
    Meu1oARM.httpPoll_counted hcell, hsend, hclose]
  split
  · rfl
  · split
    · by_cases hmore : (Meu1oARM.httpSend site o (c.ctx.counted hs)).1 = 0
      · simp [PostCtx.lift, PostCtx.map, hmore]
      · simp [PostCtx.lift, PostCtx.map, hmore]
    · rfl

/-- `http_recv` gives data back that belongs to no request, and closes. -/
theorem httpRecv_fin (hcell : c.ctx.cell = .live hs) (hopen : c.ctx.pcb.status = .opened)
    {p : List Pbuf} {err : Err} (hfin : err ≠ .ok ∨ p = []) :
    httpRecv site app o p err c =
      ((c.map fun c => { c with pcb := { c.pcb with trace := c.pcb.trace ++ freed p } }).told
        app).map (Ctx.closed o hs) := by
  have hdrop := recvDrop_eq (c := c.ctx) (p := p) hopen
  have hclose : httpCloseConn app o
      (c.map fun c => { c with pcb := { c.pcb with trace := c.pcb.trace ++ freed p } }) = _ :=
    httpCloseConn_live hcell hopen
  have hdrop' : (if p ≠ [] then c.map fun c => pbufFree p { c with pcb := tcpRecved c.pcb } else c) =
      c.map fun c => { c with pcb := { c.pcb with trace := c.pcb.trace ++ freed p } } := by
    rw [PostCtx.map, PostCtx.map, ← hdrop]
    split
    · rfl
    · rfl
  simp only [httpRecv, hcell, if_pos hfin]
  rw [hdrop', hclose]

/-- `http_recv` ignores data while a file is sent. -/
theorem httpRecv_serving (hcell : c.ctx.cell = .live hs) (hopen : c.ctx.pcb.status = .opened)
    (hleft : c.postContentLenLeft = 0) {p : List Pbuf} (hdata : p ≠ []) (hhandle : hs.handle ≠ none)
    (hreq : hs.req = []) : httpRecv site app o p .ok c = c := by
  have hself : ({ hs with req := [] } : HttpState) = hs := by rw [← hreq]
  have hsome : hs.handle.isNone = false := by
    cases hh : hs.handle with
    | none => exact absurd hh hhandle
    | some f => rfl
  obtain ⟨⟨pcb, cell, sys⟩, left, calls⟩ := c
  subst hcell hleft
  simp [httpRecv, hdata, tcpRecved, Pcb.touch_of_opened hopen, PostCtx.readHs, PostCtx.hs,
    PostCtx.map, PostCtx.setHs, Ctx.readHs, Ctx.hs, hsome, httpRecvParsed, pbufFree, Ctx.setHs,
    hreq, freed, hself]

/-! ## The body -/

/-- What the application's answer to the chain `p` leads to: more of the body is awaited, or the
application is told that there is no more and the file that it names is opened. -/
inductive BodyOutcome (app : PostApp σ) (p : List Pbuf) (c : PostCtx σ) (hs : HttpState) :
    PostCtx σ → Prop
  | more (sys : Sys σ) (hok : (app.httpdPostReceiveData hs.addr c.ctx.sys.app p).1 = .ok)
      (hleft : c.postContentLenLeft - totLen p ≠ 0) :
      BodyOutcome app p c hs
        { ctx := { c.ctx with sys }
          postContentLenLeft := c.postContentLenLeft - totLen p
          calls := c.calls ++ [.receiveData p .ok] }
  | done (err : Err) (responseUri : List UInt8) (hs' : HttpState) (n : Nat) (acts : List Action)
      (sys : Sys σ) (herr : (app.httpdPostReceiveData hs.addr c.ctx.sys.app p).1 = err)
      (hlast : err ≠ .ok ∨ c.postContentLenLeft - totLen p = 0)
      (hfound : Found false c.ctx.pcb.nextId hs hs' n acts) :
      BodyOutcome app p c hs
        { ctx :=
            { sys
              cell := .live hs'
              pcb := { c.ctx.pcb with
                nextId := n, trace := c.ctx.pcb.trace ++ .findFile responseUri false :: acts } }
          postContentLenLeft := c.postContentLenLeft - totLen p
          calls := c.calls ++ [.receiveData p err, .finished responseUri] }

/-- The shared part of the server plays no role in what becomes of the body. -/
theorem BodyOutcome.withSys {p : List Pbuf} {c' : PostCtx σ} (h : BodyOutcome app p c hs c')
    (sys : Sys σ) : BodyOutcome app p c hs (c'.map ({ · with sys })) := by
  cases h with
  | more _ hok hleft => exact .more sys hok hleft
  | done err responseUri hs' n acts _ herr hlast hfound =>
      exact .done err responseUri hs' n acts sys herr hlast hfound

/-- The queue stays empty while the body is handed over. -/
theorem BodyOutcome.req {p : List Pbuf} {c' : PostCtx σ} (h : BodyOutcome app p c hs c')
    (hcell : c.ctx.cell = .live hs) (hreq : hs.req = []) :
    ∃ hs', c'.ctx.cell = .live hs' ∧ hs'.req = [] := by
  cases h with
  | more => exact ⟨hs, hcell, hreq⟩
  | done err responseUri hs' n acts sys herr hlast hfound =>
      exact ⟨hs', rfl, hfound.req_eq.trans hreq⟩

/-- The specification of `http_handle_post_finished`. -/
theorem httpHandlePostFinished_spec (site : Site σ) (app : PostApp σ) (o : Oracle)
    (hcell : c.ctx.cell = .live hs) (hwaiting : hs.Waiting) :
    ∃ responseUri hs' n acts sys, httpHandlePostFinished site app o c =
        (.ok,
          { c with
            ctx :=
              { sys
                cell := .live hs'
                pcb := { c.ctx.pcb with
                  nextId := n
                  trace := c.ctx.pcb.trace ++ .findFile responseUri false :: acts } }
            calls := c.calls ++ [.finished responseUri] }) ∧
      Found false c.ctx.pcb.nextId hs hs' n acts := by
  obtain ⟨responseUri, hfinished⟩ : ∃ responseUri, httpdPostFinished app c =
      (responseUri, c.called (.finished responseUri)
        (app.httpdPostFinished c.hs.addr c.ctx.sys.app).2) := ⟨_, rfl⟩
  obtain ⟨cut, hs', n, acts, sys, hfind, hfound⟩ := httpFindFile_spec site o responseUri false
    (c := (c.called (.finished responseUri)
      (app.httpdPostFinished c.hs.addr c.ctx.sys.app).2).ctx) hcell hwaiting
  refine ⟨responseUri, hs', n, acts, sys, ?_, hfound⟩
  rw [httpHandlePostFinished, hfinished]
  dsimp only [PostCtx.map]
  rw [hfind]
  rfl

/-- The specification of `http_post_rxpbuf`. -/
theorem httpPostRxpbuf_spec (site : Site σ) (app : PostApp σ) (o : Oracle) (p : List Pbuf)
    (hcell : c.ctx.cell = .live hs) (hwaiting : hs.Waiting) :
    ∃ c', httpPostRxpbuf site app o p c = (.ok, c') ∧ BodyOutcome app p c hs c' := by
  have hleft : (if c.postContentLenLeft < totLen p then 0 else c.postContentLenLeft - totLen p) =
      c.postContentLenLeft - totLen p := by
    split
    · omega
    · rfl
  have haddr : c.hs.addr = hs.addr := by rw [PostCtx.hs, Ctx.hs_of_live hcell]
  have haddr' : ∀ n, ({ c with postContentLenLeft := n } : PostCtx σ).hs.addr = hs.addr :=
    fun _ => haddr
  obtain ⟨err, state, hanswer⟩ : ∃ err state,
      app.httpdPostReceiveData hs.addr c.ctx.sys.app p = (err, state) := ⟨_, _, rfl⟩
  simp only [httpPostRxpbuf, PostCtx.readHs_of_live hcell, hleft, haddr', hanswer, PostCtx.called]
  split
  next hlast =>
    obtain ⟨responseUri, hs', n, acts, sys, hfinished, hfound⟩ :=
      httpHandlePostFinished_spec site app o
        (c :=
          { ctx := { c.ctx with sys := { c.ctx.sys with app := state } }
            postContentLenLeft := c.postContentLenLeft - totLen p
            calls := c.calls ++ [.receiveData p err] }) hcell hwaiting
    refine ⟨_, hfinished, ?_⟩
    have hout : BodyOutcome app p c hs _ :=
      .done err responseUri hs' n acts sys (congrArg Prod.fst hanswer) hlast hfound
    simpa using hout
  next hlast =>
    obtain ⟨hok, hmore⟩ : err = .ok ∧ c.postContentLenLeft - totLen p ≠ 0 := by
      simpa only [not_or, not_not, ne_eq] using hlast
    subst hok
    exact ⟨_, rfl, .more _ (congrArg Prod.fst hanswer) hmore⟩

/-! ## The request -/

/-- What the parser makes of the queue `req`. -/
def requestParsed (o : Oracle) (req : List Pbuf) (reqBuf : Mem) : Request :=
  httpParseData (requestData o req reqBuf).1 (requestData o req reqBuf).2.1

/-- The URI of a POST when it has `uriLen` bytes. -/
def requestUri (o : Oracle) (req : List Pbuf) (reqBuf : Mem) (uriLen : Nat) : List UInt8 :=
  cstr (bytes (shift (requestData o req reqBuf).1 5) uriLen)

/-- The header of a POST whose URI has `uriLen` bytes. -/
def requestHeader (o : Oracle) (req : List Pbuf) (reqBuf : Mem) (uriLen : Nat) :
    Option Header :=
  httpPostHeader (requestData o req reqBuf).1 (requestData o req reqBuf).2.1 (5 + uriLen)

/-- The raw request that the application is shown. -/
def httpRequest (o : Oracle) (req : List Pbuf) (reqBuf : Mem) (uriLen : Nat) (h : Header) :
    List UInt8 :=
  bytes (shift (terminate (requestData o req reqBuf).1 h.lenEnd) (5 + uriLen + 1)) h.hdrDataLen

theorem atoi_le (s : List UInt8) : atoi s ≤ 2147483647 := by
  have hclamp : ∀ x : Int, clampInt x ≤ 2147483647 := fun x => by
    unfold clampInt
    omega
  unfold atoi
  split
  · decide
  · split
    · exact hclamp _
    · split
      · exact hclamp _
      · exact hclamp _

/-- An announced length is an `int`. -/
theorem contentLen_le {data : Mem} {dataLen uriEnd : Nat} {h : Header}
    (hfound : httpPostHeader data dataLen uriEnd = some h) : h.contentLen ≤ 2147483647 := by
  simp only [httpPostHeader] at hfound
  split at hfound
  · cases hfound
  · split at hfound
    · cases hfound
    · split at hfound
      · cases hfound
      · obtain rfl := Option.some.inj hfound
        exact atoi_le _

theorem u32_contentLen {data : Mem} {dataLen uriEnd : Nat} {h : Header}
    (hfound : httpPostHeader data dataLen uriEnd = some h) :
    u32 h.contentLen.toNat = h.contentLen.toNat := by
  have hle := contentLen_le hfound
  exact u32_of_lt (by omega)

/-- The queue `req` holds a POST with the header `h`, and the application answers `err` to it and
is then in the state `state`. -/
structure Begins (app : PostApp σ) (o : Oracle) (req : List Pbuf) (sys : Sys σ) (addr uriLen : Nat)
    (h : Header) (err : Err) (state : σ) : Prop where
  parsed : requestParsed o req sys.httpdReqBuf = .post uriLen
  header : requestHeader o req sys.httpdReqBuf uriLen = some h
  pos : 0 < h.contentLen
  answer : ∃ responseUri,
    app.httpdPostBegin addr sys.app (requestUri o req sys.httpdReqBuf uriLen)
      (httpRequest o req sys.httpdReqBuf uriLen h) h.contentLen = (err, responseUri, state)

/-- The call of the application that begins a POST. -/
def beginCall (o : Oracle) (req : List Pbuf) (reqBuf : Mem) (uriLen : Nat) (h : Header)
    (err : Err) : PostCall :=
  .begin (requestUri o req reqBuf uriLen) (httpRequest o req reqBuf uriLen h) h.contentLen err

end Post

/-- The connection after the application has accepted a POST that announces `n` bytes: the
buffers `heads`, which hold nothing but the header, have been freed. -/
def PostCtx.accepted (c : PostCtx σ) (hs : HttpState) (p heads : List Pbuf) (call : PostCall)
    (n : Nat) (sys : Sys σ) : PostCtx σ where
  ctx :=
    { sys
      cell := .live { hs with req := [] }
      pcb := { c.ctx.pcb with trace := c.ctx.pcb.trace ++ queued p ++ freed heads } }
  postContentLenLeft := n
  calls := c.calls ++ [call]

namespace Post

/-- What becomes of the request: it goes on waiting, it is rejected, its URI is looked up, or it is
a POST that the application denies or accepts. -/
inductive RequestOutcome (app : PostApp σ) (o : Oracle) (p : List Pbuf) (c : PostCtx σ)
    (hs : HttpState) : Err × PostCtx σ → Prop
  | incomplete (sys : Sys σ)
      (hparsed : requestParsed o (hs.req ++ p) c.ctx.sys.httpdReqBuf = .other .incomplete)
      (hbounds : WithinBounds (hs.req ++ p)) :
      RequestOutcome app o p c hs (.inprogress, c.map (·.withQueued hs p sys))
  | unannounced (sys : Sys σ) (uriLen : Nat)
      (hparsed : requestParsed o (hs.req ++ p) c.ctx.sys.httpdReqBuf = .post uriLen)
      (hheader : requestHeader o (hs.req ++ p) c.ctx.sys.httpdReqBuf uriLen = none) :
      RequestOutcome app o p c hs (.inprogress, c.map (·.withQueued hs p sys))
  | rejected (sys : Sys σ)
      (hparsed : requestParsed o (hs.req ++ p) c.ctx.sys.httpdReqBuf = .other .incomplete →
        ¬ WithinBounds (hs.req ++ p))
      (hheader : ∀ uriLen, requestParsed o (hs.req ++ p) c.ctx.sys.httpdReqBuf = .post uriLen →
        ∃ h, requestHeader o (hs.req ++ p) c.ctx.sys.httpdReqBuf uriLen = some h ∧
          ¬ 0 < h.contentLen) :
      RequestOutcome app o p c hs (.arg, c.map (·.withQueued hs p sys))
  | found (uriLen : Nat) (is09 : Bool) (uri : List UInt8) (hs' : HttpState) (n : Nat)
      (acts : List Action) (sys : Sys σ)
      (hparsed : requestParsed o (hs.req ++ p) c.ctx.sys.httpdReqBuf =
        .other (.dispatch uriLen is09))
      (hfound : Found is09 c.ctx.pcb.nextId { hs with req := hs.req ++ p } hs' n acts) :
      RequestOutcome app o p c hs (.ok,
        { c with
          ctx :=
            { sys
              cell := .live hs'
              pcb := { c.ctx.pcb with
                nextId := n
                trace := c.ctx.pcb.trace ++ queued p ++ .findFile uri is09 :: acts } } })
  | denied (uriLen : Nat) (h : Header) (err : Err) (state : σ) (uri : List UInt8)
      (hs' : HttpState) (n : Nat) (acts : List Action) (sys : Sys σ)
      (hbegins : Begins app o (hs.req ++ p) c.ctx.sys hs.addr uriLen h err state) (herr : err ≠ .ok)
      (hfound : Found false c.ctx.pcb.nextId { hs with req := hs.req ++ p } hs' n acts) :
      RequestOutcome app o p c hs (.ok,
        { c with
          ctx :=
            { sys
              cell := .live hs'
              pcb := { c.ctx.pcb with
                nextId := n
                trace := c.ctx.pcb.trace ++ queued p ++ .findFile uri false :: acts } }
          calls := c.calls ++
            [beginCall o (hs.req ++ p) c.ctx.sys.httpdReqBuf uriLen h err] })
  | accepted (uriLen : Nat) (h : Header) (heads q : List Pbuf) (startOffset : Nat) (sys : Sys σ)
      (c' : PostCtx σ)
      (hbegins : Begins app o (hs.req ++ p) c.ctx.sys hs.addr uriLen h .ok sys.app)
      (hskip : skipHeader h.hdrLen (hs.req ++ p) = (heads, startOffset, q))
      (hbody :
        let base := c.accepted hs p heads
          (beginCall o (hs.req ++ p) c.ctx.sys.httpdReqBuf uriLen h .ok)
          (u32 h.contentLen.toNat) sys
        if q = [] then c' = base
        else BodyOutcome app (hideHeader startOffset q) base { hs with req := [] } c') :
      RequestOutcome app o p c hs (.ok, c')

/-- Terminating strings in the request changes at most the shared buffer. -/
theorem patchReqBuf_eq (req : List Pbuf) (off : Nat) (xs : List UInt8) (c : Ctx σ) :
    ∃ reqBuf, patchReqBuf req off xs c =
      { c with sys := { c.sys with httpdReqBuf := reqBuf } } := by
  unfold patchReqBuf
  split
  · exact ⟨c.sys.httpdReqBuf, rfl⟩
  · exact ⟨_, rfl⟩

/-- The two patches around the URI. -/
theorem patchReqBuf_twice (req : List Pbuf) (uriEnd : Nat) (c : Ctx σ) :
    ∃ reqBuf, patchReqBuf req 4 [0] (patchReqBuf req uriEnd [0] c) =
      { c with sys := { c.sys with httpdReqBuf := reqBuf } } := by
  obtain ⟨reqBuf, hpatch⟩ := patchReqBuf_eq req uriEnd [0] c
  obtain ⟨reqBuf', hpatch'⟩ := patchReqBuf_eq req 4 [0] (patchReqBuf req uriEnd [0] c)
  exact ⟨reqBuf', by rw [hpatch', hpatch]⟩

/-- A POST that the application denies is answered with the file that it names. -/
theorem httpPostRequest_denied (site : Site σ) (o : Oracle) (req : List Pbuf) {data : Mem}
    {dataLen uriEnd : Nat} {uri : List UInt8} {h : Header} {err : Err} {responseUri : List UInt8} {state : σ}
    (hcell : c.ctx.cell = .live hs) (hwaiting : hs.Waiting)
    (hheader : httpPostHeader data dataLen uriEnd = some h) (hpos : 0 < h.contentLen)
    (hanswer : app.httpdPostBegin hs.addr c.ctx.sys.app uri
      (bytes (shift (terminate data h.lenEnd) (uriEnd + 1)) h.hdrDataLen) h.contentLen =
        (err, responseUri, state)) (herr : err ≠ .ok) :
    ∃ hs' n acts sys, httpPostRequest site app o req data dataLen uri uriEnd c =
        (.ok,
          { c with
            ctx :=
              { sys
                cell := .live hs'
                pcb := { c.ctx.pcb with
                  nextId := n
                  trace := c.ctx.pcb.trace ++ .findFile (cstr responseUri) false :: acts } }
            calls := c.calls ++
              [.begin uri (bytes (shift (terminate data h.lenEnd) (uriEnd + 1)) h.hdrDataLen)
                h.contentLen err] }) ∧
      Found false c.ctx.pcb.nextId hs hs' n acts := by
  obtain ⟨reqBuf, hpatch⟩ := patchReqBuf_eq (σ := σ) req h.lenEnd [0] c.ctx
  obtain ⟨cut, hs', n, acts, sys, hfind, hfound⟩ := httpFindFile_spec site o (cstr responseUri)
    false (c := { c.ctx with sys := { c.ctx.sys with httpdReqBuf := reqBuf, app := state } }) hcell
    hwaiting
  refine ⟨hs', n, acts, sys, ?_, hfound⟩
  obtain ⟨⟨pcb, cell, sys⟩, left, calls⟩ := c
  subst hcell
  simp only [httpPostRequest, hheader, PostCtx.map, hpatch, if_pos hpos, PostCtx.hs, Ctx.hs, hanswer,
    if_neg herr, PostCtx.called, hfind]

/-- A POST that the application accepts: what of the body has arrived is handed to it. -/
theorem httpPostRequest_accepted (site : Site σ) (o : Oracle) {req : List Pbuf} {data : Mem}
    {dataLen uriEnd : Nat} {uri : List UInt8} {h : Header} {responseUri : List UInt8} {state : σ}
    (hcell : c.ctx.cell = .live hs) (hwaiting : hs.Waiting)
    (hheader : httpPostHeader data dataLen uriEnd = some h) (hpos : 0 < h.contentLen)
    (hanswer : app.httpdPostBegin hs.addr c.ctx.sys.app uri
      (bytes (shift (terminate data h.lenEnd) (uriEnd + 1)) h.hdrDataLen) h.contentLen =
        (.ok, responseUri, state)) {heads q : List Pbuf} {startOffset : Nat}
    (hskip : skipHeader h.hdrLen req = (heads, startOffset, q)) :
    ∃ sys c', sys.app = state ∧
      httpPostRequest site app o req data dataLen uri uriEnd c = (.ok, c') ∧
        let base : PostCtx σ :=
          { ctx :=
              { sys
                cell := .live { hs with req := [] }
                pcb := { c.ctx.pcb with trace := c.ctx.pcb.trace ++ freed heads } }
            postContentLenLeft := u32 h.contentLen.toNat
            calls := c.calls ++
              [.begin uri (bytes (shift (terminate data h.lenEnd) (uriEnd + 1)) h.hdrDataLen)
                h.contentLen .ok] }
        if q = [] then c' = base
        else BodyOutcome app (hideHeader startOffset q) base { hs with req := [] } c' := by
  obtain ⟨reqBuf, hpatch⟩ := patchReqBuf_eq (σ := σ) req h.lenEnd [0] c.ctx
  obtain ⟨⟨pcb, cell, sys⟩, left, calls⟩ := c
  subst hcell
  refine ⟨{ sys with httpdReqBuf := reqBuf, app := state }, ?_⟩
  simp only [httpPostRequest, hheader, PostCtx.map, hpatch, if_pos hpos, PostCtx.hs, Ctx.hs, hanswer,
    if_true, PostCtx.called, hskip, pbufFree, PostCtx.setHs, Ctx.setHs]
  by_cases hq : q = []
  · subst hq
    simp
  · obtain ⟨c', hrx, hbody⟩ := httpPostRxpbuf_spec site app o (hideHeader startOffset q)
      (c :=
        { ctx := ⟨{ pcb with trace := pcb.trace ++ freed heads }, .live { hs with req := [] },
            { sys with httpdReqBuf := reqBuf, app := state }⟩
          postContentLenLeft := u32 h.contentLen.toNat
          calls := calls ++
            [.begin uri (bytes (shift (terminate data h.lenEnd) (uriEnd + 1)) h.hdrDataLen)
              h.contentLen .ok] }) (Eq.refl (Cell.live { hs with req := [] }))
      ⟨hwaiting.handle, hwaiting.file, hwaiting.left, hwaiting.ssi⟩
    exact ⟨c', trivial, by simpa [hq] using hrx, by simpa [hq] using hbody⟩

/-- A request that is not a POST is rejected, unless it may still be completed. -/
theorem RequestOutcome.of_rejected {p : List Pbuf} (sys : Sys σ) {parsed : Request}
    (hparsed : requestParsed o (hs.req ++ p) c.ctx.sys.httpdReqBuf = parsed)
    (hbounds : parsed = .other .incomplete → ¬ WithinBounds (hs.req ++ p))
    (hpost : ∀ uriLen, parsed ≠ .post uriLen) :
    RequestOutcome app o p c hs (.arg, c.map (·.withQueued hs p sys)) :=
  .rejected sys (fun h => hbounds (hparsed.symm.trans h))
    fun uriLen h => absurd (hparsed.symm.trans h) (hpost uriLen)

/-- `http_parse_request` from the result of `http_post_request` on. -/
def postParsed (req : List Pbuf) (uriLen : Nat) (result : Err × PostCtx σ) : Err × PostCtx σ :=
  if result.1 = .ok then
    (result.1, result.2.map fun c => patchReqBuf req 4 [0] (patchReqBuf req (5 + uriLen) [0] c))
  else result

section Parser

variable {p : List Pbuf} {data reqBuf : Mem} {dataLen uriLen : Nat} {h : Header} {err : Err}
  {responseUri : List UInt8} {state : σ} (site : Site σ)

/-- What the application is asked is what the request says. -/
theorem begins_of_answer
    (hdata : requestData o (hs.req ++ p) c.ctx.sys.httpdReqBuf = (data, dataLen, reqBuf))
    (hparsed : httpParseData data dataLen = .post uriLen)
    (hheader : httpPostHeader data dataLen (5 + uriLen) = some h) (hpos : 0 < h.contentLen)
    (hanswer : app.httpdPostBegin hs.addr c.ctx.sys.app (cstr (bytes (shift data 5) uriLen))
      (bytes (shift (terminate data h.lenEnd) (5 + uriLen + 1)) h.hdrDataLen) h.contentLen =
        (err, responseUri, state)) :
    Begins app o (hs.req ++ p) c.ctx.sys hs.addr uriLen h err state ∧
      beginCall o (hs.req ++ p) c.ctx.sys.httpdReqBuf uriLen h err =
        .begin (cstr (bytes (shift data 5) uriLen))
          (bytes (shift (terminate data h.lenEnd) (5 + uriLen + 1)) h.hdrDataLen)
          h.contentLen err := by
  have huri : requestUri o (hs.req ++ p) c.ctx.sys.httpdReqBuf uriLen =
      cstr (bytes (shift data 5) uriLen) := by rw [requestUri, hdata]
  have hrequest : httpRequest o (hs.req ++ p) c.ctx.sys.httpdReqBuf uriLen h =
      bytes (shift (terminate data h.lenEnd) (5 + uriLen + 1)) h.hdrDataLen := by
    rw [httpRequest, hdata]
  refine ⟨⟨?_, ?_, hpos, responseUri, ?_⟩, ?_⟩
  · rwa [requestParsed, hdata]
  · rwa [requestHeader, hdata]
  · rwa [huri, hrequest]
  · rw [beginCall, huri, hrequest]

/-- The application accepts the POST. -/
theorem RequestOutcome.of_accepted (hwaiting : ({ hs with req := hs.req ++ p } : HttpState).Waiting)
    (hheader : httpPostHeader data dataLen (5 + uriLen) = some h) (hpos : 0 < h.contentLen)
    (hanswer : app.httpdPostBegin hs.addr c.ctx.sys.app (cstr (bytes (shift data 5) uriLen))
      (bytes (shift (terminate data h.lenEnd) (5 + uriLen + 1)) h.hdrDataLen) h.contentLen =
        (.ok, responseUri, state))
    (hbegins : Begins app o (hs.req ++ p) c.ctx.sys hs.addr uriLen h .ok state)
    (hcall : beginCall o (hs.req ++ p) c.ctx.sys.httpdReqBuf uriLen h .ok =
      .begin (cstr (bytes (shift data 5) uriLen))
        (bytes (shift (terminate data h.lenEnd) (5 + uriLen + 1)) h.hdrDataLen) h.contentLen .ok) :
    RequestOutcome app o p c hs (postParsed (hs.req ++ p) uriLen
      (httpPostRequest site app o (hs.req ++ p) data dataLen (cstr (bytes (shift data 5) uriLen))
        (5 + uriLen) (c.map (·.withQueued hs p { c.ctx.sys with httpdReqBuf := reqBuf })))) := by
  obtain ⟨heads, startOffset, q, hskip⟩ : ∃ heads startOffset q,
      skipHeader h.hdrLen (hs.req ++ p) = (heads, startOffset, q) := ⟨_, _, _, rfl⟩
  obtain ⟨sys, c', hstate, hpost, hbody⟩ := httpPostRequest_accepted site o
    (c := c.map (·.withQueued hs p { c.ctx.sys with httpdReqBuf := reqBuf }))
    (Eq.refl (Cell.live { hs with req := hs.req ++ p })) hwaiting hheader hpos hanswer hskip
  obtain ⟨reqBuf', hpatch⟩ := patchReqBuf_twice (hs.req ++ p) (5 + uriLen) c'.ctx
  simp only [PostCtx.map, Ctx.withQueued] at hpost hbody ⊢
  simp only [postParsed, hpost, if_true, PostCtx.map, hpatch]
  subst hstate
  rw [← hcall] at hbody
  -- without a byte behind the header, nothing is handed over yet
  by_cases hq : q = []
  · subst hq
    simp only [if_true] at hbody
    subst hbody
    refine .accepted uriLen h heads [] startOffset { sys with httpdReqBuf := reqBuf' } _ hbegins
      hskip ?_
    simp only [if_true]
    rfl
  · rw [if_neg hq] at hbody
    refine .accepted uriLen h heads q startOffset sys _ hbegins hskip ?_
    dsimp only
    rw [if_neg hq]
    exact hbody.withSys _

/-- The application denies the POST. -/
theorem RequestOutcome.of_denied (hwaiting : ({ hs with req := hs.req ++ p } : HttpState).Waiting)
    (hheader : httpPostHeader data dataLen (5 + uriLen) = some h) (hpos : 0 < h.contentLen)
    (hanswer : app.httpdPostBegin hs.addr c.ctx.sys.app (cstr (bytes (shift data 5) uriLen))
      (bytes (shift (terminate data h.lenEnd) (5 + uriLen + 1)) h.hdrDataLen) h.contentLen =
        (err, responseUri, state)) (herr : err ≠ .ok)
    (hbegins : Begins app o (hs.req ++ p) c.ctx.sys hs.addr uriLen h err state)
    (hcall : beginCall o (hs.req ++ p) c.ctx.sys.httpdReqBuf uriLen h err =
      .begin (cstr (bytes (shift data 5) uriLen))
        (bytes (shift (terminate data h.lenEnd) (5 + uriLen + 1)) h.hdrDataLen) h.contentLen err) :
    RequestOutcome app o p c hs (postParsed (hs.req ++ p) uriLen
      (httpPostRequest site app o (hs.req ++ p) data dataLen (cstr (bytes (shift data 5) uriLen))
        (5 + uriLen) (c.map (·.withQueued hs p { c.ctx.sys with httpdReqBuf := reqBuf })))) := by
  obtain ⟨hs', n, acts, sys, hpost, hfound⟩ := httpPostRequest_denied site o (hs.req ++ p)
    (c := c.map (·.withQueued hs p { c.ctx.sys with httpdReqBuf := reqBuf }))
    (Eq.refl (Cell.live { hs with req := hs.req ++ p })) hwaiting hheader hpos hanswer herr
  -- the answer is looked up, so the result is not an error and the request is patched
  obtain ⟨reqBuf', hpatch⟩ := patchReqBuf_twice (hs.req ++ p) (5 + uriLen)
    { sys
      cell := .live hs'
      pcb := { c.ctx.pcb with
        nextId := n
        trace := c.ctx.pcb.trace ++ queued p ++ .findFile (cstr responseUri) false :: acts } }
  simp only [PostCtx.map, Ctx.withQueued] at hpost ⊢
  simp only [postParsed, hpost, if_true, PostCtx.map, hpatch, ← hcall]
  exact .denied uriLen h err state _ hs' n acts _ hbegins herr hfound

/-- The specification of `http_post_request` as `http_parse_request` calls it. -/
theorem httpPostRequest_spec (hwaiting : ({ hs with req := hs.req ++ p } : HttpState).Waiting)
    (hdata : requestData o (hs.req ++ p) c.ctx.sys.httpdReqBuf = (data, dataLen, reqBuf))
    (hparsed : httpParseData data dataLen = .post uriLen) :
    RequestOutcome app o p c hs (postParsed (hs.req ++ p) uriLen
      (httpPostRequest site app o (hs.req ++ p) data dataLen (cstr (bytes (shift data 5) uriLen))
        (5 + uriLen) (c.map (·.withQueued hs p { c.ctx.sys with httpdReqBuf := reqBuf })))) := by
  have hpost : requestParsed o (hs.req ++ p) c.ctx.sys.httpdReqBuf = .post uriLen := by
    rwa [requestParsed, hdata]
  have hfind : requestHeader o (hs.req ++ p) c.ctx.sys.httpdReqBuf uriLen =
      httpPostHeader data dataLen (5 + uriLen) := by rw [requestHeader, hdata]
  cases hheader : httpPostHeader data dataLen (5 + uriLen) with
  | none =>
      simp only [httpPostRequest, hheader]
      exact .unannounced { c.ctx.sys with httpdReqBuf := reqBuf } uriLen hpost
        (hfind.trans hheader)
  | some h =>
      by_cases hpos : 0 < h.contentLen
      · obtain ⟨err, responseUri, state, hanswer⟩ : ∃ err responseUri state,
            app.httpdPostBegin hs.addr c.ctx.sys.app (cstr (bytes (shift data 5) uriLen))
              (bytes (shift (terminate data h.lenEnd) (5 + uriLen + 1)) h.hdrDataLen)
              h.contentLen = (err, responseUri, state) := ⟨_, _, _, rfl⟩
        obtain ⟨hbegins, hcall⟩ := begins_of_answer hdata hparsed hheader hpos hanswer
        by_cases herr : err = .ok
        · subst herr
          exact .of_accepted site hwaiting hheader hpos hanswer hbegins hcall
        · exact .of_denied site hwaiting hheader hpos hanswer herr hbegins hcall
      · -- a length that is not positive is rejected before the application is asked
        obtain ⟨reqBuf', hpatch⟩ := patchReqBuf_eq (hs.req ++ p) h.lenEnd [0]
          (c.ctx.withQueued hs p { c.ctx.sys with httpdReqBuf := reqBuf })
        simp only [postParsed, httpPostRequest, hheader, if_neg hpos, PostCtx.map]
        rw [hpatch, if_neg (by exact Err.noConfusion)]
        refine .rejected { c.ctx.sys with httpdReqBuf := reqBuf' } ?_ fun uriLen' h' => ?_
        · intro h
          cases hpost.symm.trans h
        · obtain rfl := Request.post.inj (hpost.symm.trans h')
          exact ⟨h, hfind.trans hheader, hpos⟩

end Parser

/-- The specification of `http_parse_request` for a connection that waits. -/
theorem httpParseRequest_spec (site : Site σ) (app : PostApp σ) (o : Oracle) (p : List Pbuf)
    (hcell : c.ctx.cell = .live hs) (hwaiting : hs.Waiting) :
    RequestOutcome app o p c hs (httpParseRequest site app o p c) := by
  have hidle : ¬ (hs.handle.isSome ∨ hs.file.isSome) := by simp [hwaiting.handle, hwaiting.file]
  -- the parser reads the queue with the chain at its end
  have hqueue : enqueuePbuf p c.ctx = c.ctx.withQueued hs p c.ctx.sys := by
    simp only [enqueuePbuf, Ctx.hs_of_live hcell, Ctx.setHs_of_live hcell, pbufCat, Ctx.withQueued]
  have hreq : (c.ctx.withQueued hs p c.ctx.sys).hs.req = hs.req ++ p := rfl
  have hsys : (c.ctx.withQueued hs p c.ctx.sys).sys = c.ctx.sys := rfl
  have hqueued : ({ hs with req := hs.req ++ p } : HttpState).Waiting :=
    ⟨hwaiting.handle, hwaiting.file, hwaiting.left, hwaiting.ssi⟩
  simp only [httpParseRequest, PostCtx.readHs_of_live hcell, PostCtx.hs, Ctx.hs_of_live hcell,
    if_neg hidle, PostCtx.map, hqueue, hreq, hsys]
  obtain ⟨data, dataLen, reqBuf, hdata⟩ : ∃ data dataLen reqBuf,
      requestData o (hs.req ++ p) c.ctx.sys.httpdReqBuf = (data, dataLen, reqBuf) :=
    ⟨_, _, _, rfl⟩
  have hresult : ∀ parsed, httpParseData data dataLen = parsed →
      requestParsed o (hs.req ++ p) c.ctx.sys.httpdReqBuf = parsed := by
    intro parsed h
    rwa [requestParsed, hdata]
  rw [hdata]
  dsimp only
  cases hcase : httpParseData data dataLen with
  | badRequest =>
      exact .of_rejected { c.ctx.sys with httpdReqBuf := reqBuf } (hresult _ hcase)
        (fun h => Request.noConfusion h) fun _ h => Request.noConfusion h
  | other parsed =>
      have hcase' := hresult _ hcase
      cases parsed with
      | incomplete =>
          by_cases hbounds :
              totLen (hs.req ++ p) ≤ reqBufsize ∧ pbufClen (hs.req ++ p) ≤ reqQueuelen
          · dsimp only
            rw [if_pos hbounds]
            exact .incomplete { c.ctx.sys with httpdReqBuf := reqBuf } hcase' hbounds
          · dsimp only
            rw [if_neg hbounds]
            exact .of_rejected { c.ctx.sys with httpdReqBuf := reqBuf } hcase' (fun _ => hbounds)
              fun _ h => Request.noConfusion h
      | badMethod =>
          obtain ⟨reqBuf', hpatch⟩ := patchReqBuf_eq (hs.req ++ p) 4 [0]
            (c.ctx.withQueued hs p { c.ctx.sys with httpdReqBuf := reqBuf })
          dsimp only [Ctx.withQueued] at hpatch ⊢
          rw [hpatch]
          refine .of_rejected { c.ctx.sys with httpdReqBuf := reqBuf' } hcase' (fun h => ?_)
            fun _ h => Request.noConfusion h
          cases h
      | dispatch uriLen is09 =>
          obtain ⟨cut, hs', n, acts, sys, hfind, hfound⟩ := httpFindFile_spec site o
            (cstr (bytes (shift data 4) uriLen)) is09
            (c := c.ctx.withQueued hs p { c.ctx.sys with httpdReqBuf := reqBuf })
            (Eq.refl (Cell.live { hs with req := hs.req ++ p })) hqueued
          dsimp only [Ctx.withQueued] at hfind ⊢
          rw [hfind]
          dsimp only
          obtain ⟨reqBuf', hpatch⟩ := patchReqBuf_eq (σ := σ) (hs.req ++ p) 3 (0 :: cut ++ [0])
            { sys
              cell := .live hs'
              pcb := { c.ctx.pcb with
                nextId := n
                trace := c.ctx.pcb.trace ++ queued p ++
                  .findFile (cstr (bytes (shift data 4) uriLen)) is09 :: acts } }
          rw [hpatch]
          exact .found uriLen is09 _ hs' n acts _ hcase' hfound
  | post uriLen => exact httpPostRequest_spec site hqueued hdata hcase

/-! ## Data that arrives -/

theorem httpRecvParsed_done (parsed : Err) (hcell : c.ctx.cell = .live hs)
    (hleft : c.postContentLenLeft = 0) :
    httpRecvParsed site app o parsed c = c.map (Meu1oARM.httpRecvParsed site o parsed) := by
  obtain ⟨⟨pcb, cell, sys⟩, left, calls⟩ := c
  subst hcell hleft
  have hsend : ∀ d : Ctx σ, d.cell = .live { hs with req := [] } →
      httpSend site app o ⟨d, 0, calls⟩ =
        ((Meu1oARM.httpSend site o d).1, ⟨(Meu1oARM.httpSend site o d).2, 0, calls⟩) :=
    fun d hd => httpSend_done (c := ⟨d, 0, calls⟩) hd rfl
  have hclose : ∀ d : Ctx σ, d.cell ≠ .freed →
      httpCloseConn app o ⟨d, 0, calls⟩ =
        ((Meu1oARM.httpCloseConn o d).1, ⟨(Meu1oARM.httpCloseConn o d).2, 0, calls⟩) :=
    fun d hd => httpCloseConn_done (c := ⟨d, 0, calls⟩) hd rfl
  cases parsed <;>
    simp [httpRecvParsed, Meu1oARM.httpRecvParsed, PostCtx.readHs, Ctx.readHs, PostCtx.hs,
      PostCtx.setHs, PostCtx.map, Ctx.hs, Ctx.setHs, pbufFree, hsend, hclose]

/-- The request is gone when a POST has been accepted, and nothing is sent before its body is
complete. -/
theorem httpRecvParsed_accepted (hcell : c.ctx.cell = .live hs) (hreq : hs.req = []) :
    httpRecvParsed site app o .ok c =
      if c.postContentLenLeft = 0 then (httpSend site app o c).2 else c := by
  have hself : ({ hs with req := [] } : HttpState) = hs := by rw [← hreq]
  obtain ⟨⟨pcb, cell, sys⟩, left, calls⟩ := c
  subst hcell
  simp [httpRecvParsed, PostCtx.readHs, PostCtx.hs, PostCtx.map, PostCtx.setHs, Ctx.readHs, Ctx.hs,
    Ctx.setHs, pbufFree, hreq, freed, hself]

/-- `http_recv` of data while the connection waits. -/
theorem httpRecv_waiting (hcell : c.ctx.cell = .live hs) (hopen : c.ctx.pcb.status = .opened)
    (hleft : c.postContentLenLeft = 0) {p : List Pbuf} (hdata : p ≠ []) (hwaiting : hs.Waiting) :
    httpRecv site app o p .ok c =
      httpRecvParsed site app o (httpParseRequest site app o p c).1
        (httpParseRequest site app o p c).2 := by
  have hspec := httpParseRequest_spec site app o p hcell hwaiting
  obtain ⟨⟨pcb, cell, sys⟩, left, calls⟩ := c
  subst hcell hleft
  generalize hresult : httpParseRequest site app o p ⟨⟨pcb, .live hs, sys⟩, 0, calls⟩ = result
    at hspec ⊢
  simp only [httpRecv, ne_eq, not_true_eq_false, hdata, or_self, if_false, tcpRecved,
    Pcb.touch_of_opened hopen, PostCtx.map, PostCtx.readHs, Ctx.readHs, PostCtx.hs, Ctx.hs,
    hwaiting.handle, Option.isNone_none, if_true, Nat.lt_irrefl, hresult]
  cases hspec <;> rfl

/-- `http_recv` of data while a body is outstanding. -/
theorem httpRecv_body (site : Site σ) (app : PostApp σ) (o : Oracle)
    (hcell : c.ctx.cell = .live hs) (hopen : c.ctx.pcb.status = .opened)
    (hleft : 0 < c.postContentLenLeft) {p : List Pbuf} (hdata : p ≠ []) (hwaiting : hs.Waiting) :
    ∃ c', BodyOutcome app p { c with ctx := { c.ctx with cell := .live { hs with retries := 0 } } }
        { hs with retries := 0 } c' ∧
      httpRecv site app o p .ok c =
        if c'.postContentLenLeft = 0 then (httpSend site app o c').2 else c' := by
  obtain ⟨c', hrx, hbody⟩ := httpPostRxpbuf_spec site app o p
    (c := { c with ctx := { c.ctx with cell := .live { hs with retries := 0 } } })
    (Eq.refl (Cell.live { hs with retries := 0 }))
    ⟨hwaiting.handle, hwaiting.file, hwaiting.left, hwaiting.ssi⟩
  refine ⟨c', hbody, ?_⟩
  obtain ⟨⟨pcb, cell, sys⟩, left, calls⟩ := c
  subst hcell
  simp only [httpRecv, ne_eq, not_true_eq_false, hdata, or_self, if_false, tcpRecved,
    Pcb.touch_of_opened hopen, PostCtx.map, PostCtx.readHs, Ctx.readHs, PostCtx.hs, Ctx.hs,
    PostCtx.setHs, Ctx.setHs, if_pos hleft, hrx]

end Post

/-! ## Steps -/

/-- The connection when `http_recv` is called with the delivery `p`. -/
def PostCtx.arrived (c : PostCtx σ) (e : Call) (p : Delivery) : PostCtx σ :=
  { c with ctx := (c.ctx.window e).received p.payloads }

theorem PostCtx.call_recv {e : Call} {p : Delivery} {err : Err}
    (hcallback : e.callback = .recv p err) :
    c.call site app e =
      Post.httpRecv site app e.oracle (pbufChain c.ctx.pcb.nextId p.payloads) err
        (c.arrived e p) := by
  simp only [PostCtx.call, hcallback]
  rfl

/-- A callback that does what it does in the build without POST is such a step. -/
theorem postStep_of_call {e : Call} (hcall : c.call site app e = c.map (·.call site e)) :
    postStep site app c (.call e) = c.map (connStep site · (.call e)) := by
  simp only [postStep, connStep, PostCtx.map] at hcall ⊢
  by_cases hopen : c.ctx.pcb.status = .opened
  · rw [if_pos hopen, if_pos hopen, hcall]
  · rw [if_neg hopen, if_neg hopen]

theorem postStep_null (hcell : c.ctx.cell = .null) (e : Call) :
    postStep site app c (.call e) = c.map (connStep site · (.call e)) := by
  obtain ⟨⟨pcb, cell, sys⟩, left, calls⟩ := c
  subst hcell
  have hclose : ∀ (pcb : Pcb), Post.httpCloseConn app e.oracle ⟨⟨pcb, .null, sys⟩, left, calls⟩ =
      ((httpCloseConn e.oracle ⟨pcb, .null, sys⟩).1,
        ⟨(httpCloseConn e.oracle ⟨pcb, .null, sys⟩).2, left, calls⟩) := fun _ => rfl
  apply postStep_of_call
  unfold PostCtx.call Ctx.call
  cases hcallback : e.callback with
  | recv p err =>
      by_cases hp : pbufChain pcb.nextId p.payloads = []
      · simp [Post.httpRecv, httpRecv, PostCtx.map, Ctx.window, Ctx.received, hp, hclose]
      · simp [Post.httpRecv, httpRecv, PostCtx.map, Ctx.window, Ctx.received, hp, hclose, pbufFree]
  | sent => rfl
  | poll =>
      by_cases hmem : (httpCloseConn e.oracle (Ctx.window e ⟨pcb, .null, sys⟩)).1 = .mem
      · simp only [Ctx.window] at hmem
        simp [Post.httpPoll, httpPoll, PostCtx.map, Ctx.window, hclose, hmem]
      · simp only [Ctx.window] at hmem
        simp [Post.httpPoll, httpPoll, PostCtx.map, Ctx.window, hclose, hmem]
  | err => rfl

/-- Without an outstanding body and without data for the parser, a connection does what it does
in the build without POST. -/
theorem postStep_done (hcell : c.ctx.cell = .live hs) (hopen : c.ctx.pcb.status = .opened)
    (hleft : c.postContentLenLeft = 0) (hreq : hs.handle ≠ none → hs.req = []) {e : Call}
    (hidle : ∀ p, e.callback = .recv p .ok → p.payloads ≠ [] → hs.handle ≠ none) :
    postStep site app c (.call e) = c.map (connStep site · (.call e)) := by
  apply postStep_of_call
  cases hcallback : e.callback with
  | recv p err =>
      have hopen' : ((c.ctx.window e).received p.payloads).pcb.status = .opened := hopen
      have hother : c.ctx.call site e =
          httpRecv site e.oracle (pbufChain c.ctx.pcb.nextId p.payloads) err
            ((c.ctx.window e).received p.payloads) := by
        simp only [Ctx.call, hcallback]
        rfl
      rw [PostCtx.call_recv hcallback, PostCtx.map, hother]
      by_cases hfin : err ≠ .ok ∨ p.payloads = []
      · have hfin' : err ≠ .ok ∨ pbufChain c.ctx.pcb.nextId p.payloads = [] := by simpa using hfin
        rw [Post.httpRecv_fin (c := c.arrived e p) hcell hopen' hfin',
          PostCtx.told_of_done (by exact hleft),
          Meu1oARM.httpRecv_fin (c := (c.ctx.window e).received p.payloads) hcell hopen' hfin']
        rfl
      · obtain ⟨rfl, hdata⟩ : err = .ok ∧ p.payloads ≠ [] := by simpa using hfin
        have hhandle := hidle p hcallback hdata
        have hdata' : pbufChain c.ctx.pcb.nextId p.payloads ≠ [] := by simpa using hdata
        rw [Post.httpRecv_serving (c := c.arrived e p) hcell hopen' hleft hdata' hhandle
            (hreq hhandle),
          Meu1oARM.httpRecv_serving (c := (c.ctx.window e).received p.payloads) hcell hopen' hdata'
            hhandle (hreq hhandle)]
        rfl
  | sent =>
      simp only [PostCtx.call, PostCtx.map, Ctx.call, hcallback]
      exact Post.httpSent_done (c := { c with ctx := c.ctx.window e }) hcell hleft
  | poll =>
      simp only [PostCtx.call, PostCtx.map, Ctx.call, hcallback]
      exact congrArg Prod.snd
        (Post.httpPoll_done (c := { c with ctx := c.ctx.window e }) hcell hleft)
  | err => simp only [PostCtx.call, PostCtx.map, Ctx.call, hcallback]

/-- Data for the parser. -/
theorem postStep_waiting (site : Site σ) (app : PostApp σ) (hcell : c.ctx.cell = .live hs)
    (hopen : c.ctx.pcb.status = .opened)
    (hleft : c.postContentLenLeft = 0) (hwaiting : hs.Waiting) {e : Call} {p : Delivery}
    (hcallback : e.callback = .recv p .ok) (hdata : p.payloads ≠ []) :
    ∃ result, Post.RequestOutcome app e.oracle (pbufChain c.ctx.pcb.nextId p.payloads)
        (c.arrived e p) hs result ∧
      postStep site app c (.call e) =
        (Post.httpRecvParsed site app e.oracle result.1 result.2).map Ctx.leave := by
  have hdata' : pbufChain c.ctx.pcb.nextId p.payloads ≠ [] := by simpa using hdata
  refine ⟨_, Post.httpParseRequest_spec site app e.oracle (pbufChain c.ctx.pcb.nextId p.payloads)
    (c := c.arrived e p) hcell hwaiting, ?_⟩
  rw [postStep, if_pos hopen, PostCtx.call_recv hcallback,
    Post.httpRecv_waiting (c := c.arrived e p) hcell hopen hleft hdata' hwaiting]

/-- Nothing happens as long as the request waits in the queue. -/
theorem httpRecvParsed_queued {a : Nat} (harg : c.ctx.pcb.callbackArg = .state a)
    (hleft : c.postContentLenLeft = 0) (p : List Pbuf) (sys : Sys σ) :
    (Post.httpRecvParsed site app o .inprogress (c.map (·.withQueued hs p sys))).map Ctx.leave =
      c.map (·.withQueued hs p sys) := by
  rw [Post.httpRecvParsed_done .inprogress (by rfl) (by exact hleft)]
  simp only [PostCtx.map]
  rw [httpRecvParsed_inprogress, Ctx.leave_of_state (by exact harg)]

/-- Data of the body. -/
theorem postStep_body (site : Site σ) (app : PostApp σ) (hcell : c.ctx.cell = .live hs)
    (hopen : c.ctx.pcb.status = .opened)
    (hleft : c.postContentLenLeft ≠ 0) (hwaiting : hs.Waiting) {e : Call} {p : Delivery}
    (hcallback : e.callback = .recv p .ok) (hdata : p.payloads ≠ []) :
    ∃ c', Post.BodyOutcome app (pbufChain c.ctx.pcb.nextId p.payloads)
        { c.arrived e p with
          ctx := { (c.arrived e p).ctx with cell := .live { hs with retries := 0 } } }
        { hs with retries := 0 } c' ∧
      postStep site app c (.call e) =
        (if c'.postContentLenLeft = 0 then (Post.httpSend site app e.oracle c').2 else c').map
          Ctx.leave := by
  obtain ⟨c', hout, hrecv⟩ := Post.httpRecv_body site app e.oracle
    (c := c.arrived e p) (p := pbufChain c.ctx.pcb.nextId p.payloads) hcell hopen
    (Nat.pos_of_ne_zero hleft) (by simpa using hdata) hwaiting
  refine ⟨c', hout, ?_⟩
  rw [postStep, if_pos hopen, PostCtx.call_recv hcallback, hrecv]

/-- A connection that waits counts the polls, up to the limit. -/
theorem postStep_counts (hcell : c.ctx.cell = .live hs) (hopen : c.ctx.pcb.status = .opened)
    {a : Nat} (harg : c.ctx.pcb.callbackArg = .state a) (hhandle : hs.handle = none) {e : Call}
    (hcallback : e.callback = .poll) (hlimit : u8 (hs.retries + 1) ≠ maxRetries) :
    postStep site app c (.call e) = c.map fun d => (d.window e).counted hs := by
  have hnone : ¬ hs.handle.isSome := by simp [hhandle]
  simp only [postStep, if_pos hopen, PostCtx.call, hcallback]
  rw [Post.httpPoll_counted (by exact hcell), if_neg hlimit, if_neg hnone]
  simp only [PostCtx.map]
  rw [Ctx.leave_of_state (by exact harg)]

end Meu1oARM
