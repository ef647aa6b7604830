import Meu1oARM.Httpd.Connection

/-! # The build with POST

The functions of httpd.c that read differently with `LWIP_HTTPD_SUPPORT_POST` on and
`LWIP_HTTPD_POST_MANUAL_WND` off. The others are those of the build without POST.
-/

namespace Meu1oARM

open Machine CString

/-- What the application implements for POST. Each function is told the connection. What
`httpdPostBegin` and `httpdPostFinished` leave in the buffer for the name of the response file,
which is empty before the call, is the list that they return. -/
structure PostApp (σ : Type) where
  httpdPostBegin : Nat → σ → List UInt8 → List UInt8 → Int → Err × List UInt8 × σ
  httpdPostReceiveData : Nat → σ → List Pbuf → Err × σ
  httpdPostFinished : Nat → σ → List UInt8 × σ

/-- A call of the application, with what it answers. -/
inductive PostCall
  | begin (uri httpRequest : List UInt8) (contentLen : Int) (err : Err)
  | receiveData (p : List Pbuf) (err : Err)
  | finished (responseUri : List UInt8)
  deriving DecidableEq, Repr

/-- What a callback works on. `postContentLenLeft` is the field of `http_state` that only this
build has. `calls` is bookkeeping: the calls of the application for this connection, in order. -/
structure PostCtx (σ : Type) where
  ctx : Ctx σ
  postContentLenLeft : Nat
  calls : List PostCall

namespace PostCtx

variable {σ : Type}

/-- What does not depend on the switch. -/
def map (f : Ctx σ → Ctx σ) (c : PostCtx σ) : PostCtx σ := { c with ctx := f c.ctx }

def hs (c : PostCtx σ) : HttpState := c.ctx.hs

def setHs (c : PostCtx σ) (hs : HttpState) : PostCtx σ := c.map (·.setHs hs)

def readHs (c : PostCtx σ) : PostCtx σ := c.map Ctx.readHs

/-- The application has answered `call` and is now in the state `app`. -/
def called (call : PostCall) (app : σ) (c : PostCtx σ) : PostCtx σ :=
  { c with ctx := { c.ctx with sys := { c.ctx.sys with app } }, calls := c.calls ++ [call] }

end PostCtx

namespace Post

variable {σ : Type}

/-! ## Closing and sending -/

/-- `httpd_post_finished`, called with an empty buffer for the name of the response file. -/
def httpdPostFinished (app : PostApp σ) (c : PostCtx σ) : List UInt8 × PostCtx σ :=
  let (responseUri, state) := app.httpdPostFinished c.hs.addr c.ctx.sys.app
  (cstr responseUri, c.called (.finished (cstr responseUri)) state)

/-- `http_close_or_abort_conn` -/
def httpCloseOrAbortConn (app : PostApp σ) (o : Oracle) (c : PostCtx σ) (abortConn : Bool) :
    Err × PostCtx σ :=
  let c :=
    match c.ctx.cell with
    | .null => c
    | _ =>
      let c := c.readHs
      if c.postContentLenLeft ≠ 0 then (httpdPostFinished app c).2 else c
  let (err, ctx) := Meu1oARM.httpCloseOrAbortConn o c.ctx abortConn
  (err, { c with ctx })

/-- `http_close_conn` -/
def httpCloseConn (app : PostApp σ) (o : Oracle) (c : PostCtx σ) : Err × PostCtx σ :=
  httpCloseOrAbortConn app o c false

/-- `http_eof` -/
def httpEof (app : PostApp σ) (o : Oracle) (c : PostCtx σ) : PostCtx σ :=
  (httpCloseConn app o (c.map (·.log .eof))).2

/-- `http_check_eof` -/
def httpCheckEof (app : PostApp σ) (o : Oracle) (c : PostCtx σ) : Nat × PostCtx σ :=
  let c := c.readHs
  match c.hs.handle with
  | none => (0, httpEof app o c)
  | some handle =>
    if fsBytesLeft handle ≤ 0 then (0, httpEof app o c)
    else (1, c.map fun c => { c with pcb := c.pcb.check false .eofNotReached })

/-- `http_send` from the choice of the sending routine on. -/
def httpSendData (site : Site σ) (app : PostApp σ) (o : Oracle) (c : PostCtx σ) :
    Nat × PostCtx σ :=
  let hs := c.readHs.hs
  let data := hs.handle.elim [] FsFile.data
  let (dataToSend, pcb, hs) :=
    match hs.ssi with
    | some ssi => httpSendDataSsi site o data c.readHs.ctx.pcb hs ssi
    | none => httpSendDataNonssi o data c.readHs.ctx.pcb hs
  let c := c.map fun c => { c with pcb }.setHs hs
  if hs.left = 0 ∧ hs.handle.elim 0 fsBytesLeft ≤ 0 then (0, httpEof app o c) else (dataToSend, c)

/-- `http_send` -/
def httpSend (site : Site σ) (app : PostApp σ) (o : Oracle) (c : PostCtx σ) : Nat × PostCtx σ :=
  match c.ctx.cell with
  | .null => (0, c)
  | _ =>
    if c.readHs.hs.left = 0 then
      let (more, c) := httpCheckEof app o c.readHs
      if more = 0 then (0, c) else httpSendData site app o c
    else httpSendData site app o c.readHs

/-- `http_sent` -/
def httpSent (site : Site σ) (app : PostApp σ) (o : Oracle) (c : PostCtx σ) : PostCtx σ :=
  match c.ctx.cell with
  | .null => c
  | _ => (httpSend site app o (c.setHs { c.hs with retries := 0 })).2

/-- `http_poll` -/
def httpPoll (site : Site σ) (app : PostApp σ) (o : Oracle) (c : PostCtx σ) : Err × PostCtx σ :=
  match c.ctx.cell with
  | .null =>
    let (closed, c) := httpCloseConn app o c
    if closed = .mem then (.abrt, c.map tcpAbort) else (.ok, c)
  | _ =>
    let c := c.setHs { c.hs with retries := u8 (c.hs.retries + 1) }
    if c.hs.retries = maxRetries then (.ok, (httpCloseConn app o c).2)
    else if c.hs.handle.isSome then
      let (dataToSend, c) := httpSend site app o c
      (.ok, if dataToSend ≠ 0 then c.map fun c => { c with pcb := tcpOutput c.pcb } else c)
    else (.ok, c)

/-! ## The body -/

/-- `http_handle_post_finished` -/
def httpHandlePostFinished (site : Site σ) (app : PostApp σ) (o : Oracle) (c : PostCtx σ) :
    Err × PostCtx σ :=
  let (responseUri, c) := httpdPostFinished app c
  (.ok, c.map fun c => (httpFindFile site o responseUri false c).2)

/-- `http_post_rxpbuf` -/
def httpPostRxpbuf (site : Site σ) (app : PostApp σ) (o : Oracle) (p : List Pbuf)
    (c : PostCtx σ) : Err × PostCtx σ :=
  let c := c.readHs
  let c :=
    { c with
      postContentLenLeft :=
        if c.postContentLenLeft < totLen p then 0 else c.postContentLenLeft - totLen p }
  let (err, state) := app.httpdPostReceiveData c.hs.addr c.ctx.sys.app p
  let c := c.called (.receiveData p err) state
  if err ≠ .ok ∨ c.postContentLenLeft = 0 then httpHandlePostFinished site app o c else (.ok, c)

/-! ## The header -/

/-- `HTTP_HDR_CONTENT_LEN` -/
def httpHdrContentLen : List UInt8 := chars "Content-Length: "

/-- `HTTP_HDR_CONTENT_LEN_DIGIT_MAX_LEN` -/
def httpHdrContentLenDigitMaxLen : Nat := 10

/-- What `http_post_request` finds in a header: the length it announces, where the text of the
length ends, and the length of the header from the start of the data and from the URI on. -/
structure Header where
  contentLen : Int
  lenEnd : Nat
  hdrLen : Nat
  hdrDataLen : Nat
  deriving DecidableEq, Repr

/-- The searches of `http_post_request` in the data, whose URI ends at `uriEnd`. -/
def httpPostHeader (data : Mem) (dataLen uriEnd : Nat) : Option Header :=
  let rest := uriEnd + 1
  match strnstr (shift data rest) (crlf ++ crlf) (dataLen - rest) with
  | none => none
  | some crlfcrlf =>
    match strnstr (shift data rest) httpHdrContentLen crlfcrlf with
    | none => none
    | some scontentLen =>
      let contentLenNum := rest + scontentLen + httpHdrContentLen.length
      match strnstr (shift data contentLenNum) crlf httpHdrContentLenDigitMaxLen with
      | none => none
      | some scontentLenEnd =>
        some
          { contentLen := atoi (bytes (shift data contentLenNum) scontentLenEnd)
            lenEnd := contentLenNum + scontentLenEnd
            hdrLen := min dataLen (rest + crlfcrlf + 4)
            hdrDataLen := min dataLen (crlfcrlf + 4) }

/-- The data with the byte at `off` set to zero. -/
def terminate (data : Mem) (off : Nat) : Mem := fun i => if i = off then 0 else data i

/-- The pbufs in front of the one where the body starts, what is left of the header in that one,
and the chain from it on. -/
def skipHeader (startOffset : Nat) : List Pbuf → List Pbuf × Nat × List Pbuf
  | [] => ([], startOffset, [])
  | q :: qs =>
    if q.payload.length ≤ startOffset then
      let (heads, startOffset, rest) := skipHeader (startOffset - q.payload.length) qs
      (q :: heads, startOffset, rest)
    else ([], startOffset, q :: qs)

/-- `pbuf_header` with a negative increment: the first `n` bytes of the first pbuf are hidden. -/
def hideHeader (n : Nat) : List Pbuf → List Pbuf
  | [] => []
  | q :: qs => { q with payload := q.payload.drop n } :: qs

/-- `http_post_request` of the queue `req`, whose first bytes are `data`. What it changes in the
data lies in the header, so it shows in the shared buffer only. -/
def httpPostRequest (site : Site σ) (app : PostApp σ) (o : Oracle) (req : List Pbuf) (data : Mem)
    (dataLen : Nat) (uri : List UInt8) (uriEnd : Nat) (c : PostCtx σ) : Err × PostCtx σ :=
  match httpPostHeader data dataLen uriEnd with
  | none => (.inprogress, c)
  | some h =>
    let c := c.map (patchReqBuf req h.lenEnd [0])
    if 0 < h.contentLen then
      let httpRequest := bytes (shift (terminate data h.lenEnd) (uriEnd + 1)) h.hdrDataLen
      let (err, responseUri, state) :=
        app.httpdPostBegin c.hs.addr c.ctx.sys.app uri httpRequest h.contentLen
      let c := c.called (.begin uri httpRequest h.contentLen err) state
      if err = .ok then
        let c := { c with postContentLenLeft := u32 h.contentLen.toNat }
        let (heads, startOffset, q) := skipHeader h.hdrLen req
        let c := c.map (pbufFree heads)
        let c := c.setHs { c.hs with req := [] }
        if q ≠ [] then httpPostRxpbuf site app o (hideHeader startOffset q) c else (.ok, c)
      else (.ok, c.map fun c => (httpFindFile site o (cstr responseUri) false c).2)
    else (.arg, c)

/-- What the parser makes of the data received so far. -/
inductive Request
  | other (parsed : Parsed)
  | badRequest
  | post (uriLen : Nat)
  deriving DecidableEq, Repr

/-- The parsing of `http_parse_request`, from the test of `data_len` on. Without POST a line that
does not begin with `GET` is a bad method, whatever follows it. -/
def httpParseData (data : Mem) (dataLen : Nat) : Request :=
  match Meu1oARM.httpParseData data dataLen with
  | .badMethod =>
    if bytes data 5 = chars "POST " then
      match strnstr (shift data 5) (chars " ") (u16 (dataLen - 5)) with
      -- a line without a space behind the URI is one of HTTP/0.9
      | none => .badRequest
      | some uriLen =>
        if (strnstr data (crlf ++ crlf) dataLen).isSome then .post (u16 uriLen)
        else .other .incomplete
    else .other .badMethod
  | parsed => .other parsed

/-- `http_parse_request` -/
def httpParseRequest (site : Site σ) (app : PostApp σ) (o : Oracle) (p : List Pbuf)
    (c : PostCtx σ) : Err × PostCtx σ :=
  let c := c.readHs
  if c.hs.handle.isSome ∨ c.hs.file.isSome then (.use, c)
  else
    let c := c.map (enqueuePbuf p)
    let req := c.hs.req
    let (data, dataLen, reqBuf) := requestData o req c.ctx.sys.httpdReqBuf
    let c := c.map fun c => { c with sys := { c.sys with httpdReqBuf := reqBuf } }
    match httpParseData data dataLen with
    | .other (.dispatch uriLen is09) =>
      let (uri, ctx) := httpFindFile site o (cstr (bytes (shift data 4) uriLen)) is09 c.ctx
      (.ok, { c with ctx := patchReqBuf req 3 (0 :: uri ++ [0]) ctx })
    | .other .badMethod => (.arg, c.map (patchReqBuf req 4 [0]))
    | .other .incomplete =>
      if totLen req ≤ reqBufsize ∧ pbufClen req ≤ reqQueuelen then (.inprogress, c) else (.arg, c)
    | .badRequest => (.arg, c)
    | .post uriLen =>
      let (err, c) := httpPostRequest site app o req data dataLen
        (cstr (bytes (shift data 5) uriLen)) (5 + uriLen) c
      -- after an error the spaces around the URI are put back
      if err = .ok then (err, c.map fun c => patchReqBuf req 4 [0] (patchReqBuf req (5 + uriLen) [0] c))
      else (err, c)

/-! ## Callbacks -/

/-- `http_recv` from the result of the parser on. -/
def httpRecvParsed (site : Site σ) (app : PostApp σ) (o : Oracle) (parsed : Err) (c : PostCtx σ) :
    PostCtx σ :=
  let c :=
    if parsed ≠ .inprogress then
      let c := c.readHs
      (c.map (pbufFree c.hs.req)).setHs { c.hs with req := [] }
    else c
  if parsed = .ok then
    if c.postContentLenLeft = 0 then (httpSend site app o c).2 else c
  else if parsed = .arg then (httpCloseConn app o c).2
  else c

/-- `http_recv` -/
def httpRecv (site : Site σ) (app : PostApp σ) (o : Oracle) (p : List Pbuf) (err : Err)
    (c : PostCtx σ) : PostCtx σ :=
  let recved (c : Ctx σ) : Ctx σ := { c with pcb := tcpRecved c.pcb }
  match c.ctx.cell with
  | .null =>
    let c := if p ≠ [] then c.map fun c => pbufFree p (recved c) else c
    (httpCloseConn app o c).2
  | _ =>
    if err ≠ .ok ∨ p = [] then
      let c := if p ≠ [] then c.map fun c => pbufFree p (recved c) else c
      (httpCloseConn app o c).2
    else
      let c := (c.map recved).readHs
      if 0 < c.postContentLenLeft then
        let c := c.setHs { c.hs with retries := 0 }
        let (_, c) := httpPostRxpbuf site app o p c
        if c.postContentLenLeft = 0 then (httpSend site app o c).2 else c
      else if c.hs.handle.isNone then
        let (parsed, c) := httpParseRequest site app o p c
        let expected := parsed = .ok ∨ parsed = .inprogress ∨ parsed = .arg ∨ parsed = .use
        httpRecvParsed site app o parsed
          (c.map fun c => { c with pcb := c.pcb.check expected .parseResult })
      else httpRecvParsed site app o .abrt c

end Post

namespace PostCtx

variable {σ : Type}

/-- One callback of an open connection. -/
def call (site : Site σ) (app : PostApp σ) (e : Call) (c : PostCtx σ) : PostCtx σ :=
  let c := c.map (Ctx.window e)
  match e.callback with
  | .recv p err =>
    Post.httpRecv site app e.oracle (pbufChain c.ctx.pcb.nextId p.payloads) err
      (c.map (·.received p.payloads))
  | .sent => Post.httpSent site app e.oracle c
  | .poll => (Post.httpPoll site app e.oracle c).2
  | .err => c.map fun c => httpErr { c with pcb := { c.pcb with status := .reset } }

/-- The accept callback on a fresh control block: nothing is left of any body. -/
def accept (o : Oracle) (self addr : Nat) (sys : Sys σ) : PostCtx σ where
  ctx := Ctx.accept o self addr sys
  postContentLenLeft := 0
  calls := []

end PostCtx

/-- One step of a connection. -/
def postStep {σ : Type} (site : Site σ) (app : PostApp σ) (c : PostCtx σ) :
    ConnEvent σ → PostCtx σ
  | .call e => if c.ctx.pcb.status = .opened then (c.call site app e).map Ctx.leave else c
  | .others sys => c.map ({ · with sys })

end Meu1oARM
