import Meu1oARM.Httpd.File
import Meu1oARM.Lwip.Pbuf

/-! # Parsing a request

`http_parse_request` queues what arrives and tries to parse the queue from the
start. A queue of one buffer is parsed in place; a longer one is copied into the
buffer that all connections share.
-/

namespace Meu1oARM

open Machine CString

variable {σ : Type}

/-- What the parser makes of the data received so far. -/
inductive Parsed
  | incomplete
  | badMethod
  | dispatch (uriLen : Nat) (is09 : Bool)
  deriving DecidableEq, Repr

/-- The parsing of `http_parse_request`, from the test of `data_len` on. -/
def httpParseData (data : Mem) (dataLen : Nat) : Parsed :=
  if minReqLen ≤ dataLen then
    match strnstr data crlf dataLen with
    | none => .incomplete
    | some _ =>
      if bytes data 4 = chars "GET " then
        let leftLen := u16 (dataLen - 4)
        let (sp2, is09) :=
          match strnstr (shift data 4) (chars " ") leftLen with
          | some sp2 => (some sp2, false)
          | none => (strnstr (shift data 4) crlf leftLen, true)
        match sp2 with
        | some uriLen =>
          if (strnstr data (crlf ++ crlf) dataLen).isSome then .dispatch (u16 uriLen) is09
          else .incomplete
        | none => .incomplete
      else .badMethod
  else .incomplete

def freed (p : List Pbuf) : List Action := p.map fun q => .free (.pbuf q.id)

def queued (p : List Pbuf) : List Action := p.map fun q => .queued q.id

/-- `pbuf_free` of a chain whose buffers have no other reference. -/
def pbufFree (p : List Pbuf) (c : Ctx σ) : Ctx σ :=
  { c with pcb := { c.pcb with trace := c.pcb.trace ++ freed p } }

/-- The chain `p` is put at the end of the request. -/
def enqueuePbuf (p : List Pbuf) (c : Ctx σ) : Ctx σ :=
  let c := c.setHs { c.hs with req := pbufCat c.hs.req p }
  { c with pcb := { c.pcb with trace := c.pcb.trace ++ queued p } }

/-- The data to parse, its length, and the shared buffer when the data was copied there. -/
def requestData (o : Oracle) (req : List Pbuf) (reqBuf : Mem) : Mem × Nat × Mem :=
  match req with
  | [q] => (ofList q.payload o.slack, u16 q.payload.length, reqBuf)
  | _ =>
    let dataLen := min (totLen req) reqBufsize
    let buf := pbufCopyPartial req reqBuf dataLen
    (buf, dataLen, buf)

/-- A change of the parsed data shows in the shared buffer when it was parsed there. -/
def patchReqBuf (req : List Pbuf) (off : Nat) (xs : List UInt8) (c : Ctx σ) : Ctx σ :=
  match req with
  | [_] => c
  | _ =>
    let buf := c.sys.httpdReqBuf
    let tail := ofList xs (shift buf (off + xs.length))
    { c with sys := { c.sys with httpdReqBuf := fun i => if off ≤ i then tail (i - off) else buf i } }

/-- `http_parse_request`. The method and the URI are terminated in place. -/
def httpParseRequest (site : Site σ) (o : Oracle) (p : List Pbuf) (c : Ctx σ) : Err × Ctx σ :=
  let c := c.readHs
  if c.hs.handle.isSome ∨ c.hs.file.isSome then (.use, c)
  else
    let c := enqueuePbuf p c
    let req := c.hs.req
    let (data, dataLen, reqBuf) := requestData o req c.sys.httpdReqBuf
    let c := { c with sys := { c.sys with httpdReqBuf := reqBuf } }
    match httpParseData data dataLen with
    | .dispatch uriLen is09 =>
      let (uri, c) := httpFindFile site o (cstr (bytes (shift data 4) uriLen)) is09 c
      (.ok, patchReqBuf req 3 (0 :: uri ++ [0]) c)
    | .badMethod => (.arg, patchReqBuf req 4 [0] c)
    | .incomplete =>
      if totLen req ≤ reqBufsize ∧ pbufClen req ≤ reqQueuelen then (.inprogress, c) else (.arg, c)

end Meu1oARM
