import Meu1oARM.Lwip.Tcp
import Meu1oARM.Lwip.Pbuf

/-! # State of the web server

The structures of httpd.h and fs.h in the configuration that is built: SSI and
CGI on, POST off, static headers, no dynamic file reads, request lists on. Every
pointer into a stored file is the offset from the start of its contents, and
`none` is the null pointer.
-/

namespace Meu1oARM

open Machine CString

/-! ## Configuration -/

/-- `LWIP_HTTPD_MAX_CGI_PARAMETERS` -/
def maxCgiParameters : Nat := 16

/-- `LWIP_HTTPD_MAX_TAG_NAME_LEN` -/
def maxTagNameLen : Nat := 8

/-- `LWIP_HTTPD_MAX_TAG_INSERT_LEN` -/
def maxTagInsertLen : Nat := 192

/-- `HTTPD_MAX_RETRIES` -/
def maxRetries : Nat := 4

/-- `LWIP_HTTPD_REQ_QUEUELEN` -/
def reqQueuelen : Nat := 5

/-- `LWIP_HTTPD_REQ_BUFSIZE`, which is `LWIP_HTTPD_MAX_REQ_LENGTH`: at most 1023, and at
most what `LWIP_HTTPD_REQ_QUEUELEN` pool buffers of 1518 bytes hold. -/
def reqBufsize : Nat := min 1023 (reqQueuelen * 1518)

/-- `MIN_REQ_LEN` -/
def minReqLen : Nat := 7

/-! ## Stored files -/

/-- `struct fsdata_file`; the `int` length is the size of the contents. -/
structure FsdataFile where
  name : List UInt8
  data : List UInt8
  size_lt : data.length < 2147483648
  httpHeaderIncluded : Bool

/-- `struct fs_file` of an opened file. -/
structure FsFile where
  data : List UInt8
  size_lt : data.length < 2147483648
  index : Nat
  httpHeaderIncluded : Bool

def FsFile.len (f : FsFile) : Nat := f.data.length

def fsOpen (root : List FsdataFile) (name : List UInt8) : Option FsFile :=
  (root.find? fun f => f.name == name).map fun f =>
    { data := f.data, size_lt := f.size_lt, index := f.data.length,
      httpHeaderIncluded := f.httpHeaderIncluded }

def fsBytesLeft (f : FsFile) : Int := (f.len : Int) - f.index

/-! ## Connections -/

/-- `enum tag_check_state` -/
inductive TagCheckState
  | none | leadin | found | leadout | sending
  deriving DecidableEq, Repr

/-- `struct http_ssi_state`. `tagInsert` is the memory from the insert buffer on.
`id` and `calls` are bookkeeping: which allocation this is, and how many tags
have been looked up. -/
structure HttpSsiState where
  id : Nat
  calls : Nat
  parsed : Nat
  tagEnd : Nat
  parseLeft : Nat
  tagIndex : Nat
  tagInsertLen : Nat
  tagNameLen : Nat
  tagName : List UInt8
  tagInsert : Mem
  tagState : TagCheckState

/-- `struct http_state`. `addr` is bookkeeping: where it was allocated. -/
structure HttpState where
  addr : Nat
  handle : Option FsFile
  file : Option Nat
  pcb : Nat
  req : List Pbuf
  left : Nat
  retries : Nat
  ssi : Option HttpSsiState
  params : List (Option Nat)
  paramVals : List (Option Nat)

/-- `http_state_init` -/
def httpStateInit : HttpState where
  addr := 0
  handle := none
  file := none
  pcb := 0
  req := []
  left := 0
  retries := 0
  ssi := none
  params := List.replicate maxCgiParameters none
  paramVals := List.replicate maxCgiParameters none

instance : Inhabited HttpState := ⟨httpStateInit⟩

/-- The allocation that a callback argument points to. -/
inductive Cell
  | null
  | live (hs : HttpState)
  | freed

def Cell.isLive : Cell → Bool
  | .live _ => true
  | _ => false

theorem Cell.null_ne_live (hs : HttpState) : Cell.null ≠ .live hs := Cell.noConfusion

theorem Cell.freed_ne_live (hs : HttpState) : Cell.freed ≠ .live hs := Cell.noConfusion

/-! ## The application -/

/-- The arguments of a CGI handler: the parameter string after it was cut in place, and
the two arrays of `http_state` that point into it. -/
structure CgiArgs where
  buf : List UInt8
  params : List (Option Nat)
  paramVals : List (Option Nat)

/-- `tCGI`. A handler changes the state `σ` of the application and names the page to serve. -/
structure Cgi (σ : Type) where
  name : List UInt8
  handler : σ → Nat → Nat → CgiArgs → σ × List UInt8

/-- What an SSI handler leaves in the insert buffer and the length it returns. -/
structure RawInsert where
  mem : Mem
  len : UInt16

/-- An answer of an SSI handler within the bound that it is given. -/
structure Insert extends RawInsert where
  len_le : len.toNat ≤ maxTagInsertLen

/-- What `http_set_ssi_handler` registers: the tags, and the handler (`tSSIHandler`), which is
asked for the tag at an index. Its answer may differ from call to call, so it is given the
number of the call on the connection. -/
structure TagSite where
  tags : List (List UInt8)
  ssiHandler : Nat → Nat → RawInsert

/-- Every answer is within the bound that the handler is given. -/
def TagSite.Fits (site : TagSite) : Prop :=
  ∀ k loop, (site.ssiHandler k loop).len.toNat ≤ maxTagInsertLen

/-- What the server serves: the stored files, the CGI table and the SSI tags. The SSI
handler is asked for the tag at an index; its answer may differ from call to call, so
it is given the number of the call on the connection. -/
structure Site (σ : Type) where
  root : List FsdataFile
  cgis : List (Cgi σ)
  tags : List (List UInt8)
  ssiHandler : Nat → Nat → Insert

/-- The tags of a site and their handler. -/
@[coe] def Site.tagSite {σ : Type} (site : Site σ) : TagSite where
  tags := site.tags
  ssiHandler k loop := (site.ssiHandler k loop).toRawInsert

instance {σ : Type} : CoeOut (Site σ) TagSite := ⟨Site.tagSite⟩

theorem Site.fits {σ : Type} (site : Site σ) : site.tagSite.Fits :=
  fun k loop => (site.ssiHandler k loop).len_le

/-- What all connections share: the buffer that requests in several pieces are copied
into, and the state of the application. -/
structure Sys (σ : Type) where
  httpdReqBuf : Mem
  app : σ

/-- What a callback of one connection works on. -/
structure Ctx (σ : Type) where
  pcb : Pcb
  cell : Cell
  sys : Sys σ

namespace Ctx

variable {σ : Type}

def log (c : Ctx σ) (a : Action) : Ctx σ := { c with pcb := c.pcb.log a }

/-- The `http_state` behind the callback argument. -/
def hs (c : Ctx σ) : HttpState :=
  match c.cell with
  | .live hs => hs
  | _ => default

/-- Every access to an `http_state` that is not there is recorded. -/
def readHs (c : Ctx σ) : Ctx σ :=
  match c.cell with
  | .live _ => c
  | _ => c.log (.fault .freedState)

def setHs (c : Ctx σ) (hs : HttpState) : Ctx σ :=
  match c.cell with
  | .live _ => { c with cell := .live hs }
  | _ => c.readHs

def trace (c : Ctx σ) : List Action := c.pcb.trace

end Ctx

end Meu1oARM
