import Meu1oARM.Httpd.Cgi
import Meu1oARM.Httpd.Strnstr

/-! # Finding the file to serve -/

namespace Meu1oARM

open Machine CString

variable {σ : Type}

/-- `CRLF` -/
def crlf : List UInt8 := [13, 10]

/-- `g_psDefaultFilenames` -/
def defaultFilenames : List (List UInt8 × Bool) :=
  [(chars "/index.shtml", true), (chars "/index.ssi", true), (chars "/index.shtm", true),
   (chars "/index.html", false), (chars "/index.htm", false)]

/-- `g_pcSSIExtensions` -/
def ssiExtensions : List (List UInt8) :=
  [chars ".shtml", chars ".shtm", chars ".ssi", chars ".xml"]

/-- The names that `http_get_404_file` tries. -/
def notFoundFilenames : List (List UInt8) :=
  [chars "/404.html", chars "/404.htm", chars "/404.shtml"]

/-- `http_get_404_file`: the file and its name. -/
def httpGet404File (root : List FsdataFile) : Option (FsFile × List UInt8) :=
  notFoundFilenames.findSome? fun uri => (fsOpen root uri).map (·, uri)

/-- The start of the contents behind the header, for a response without one. -/
def headerEnd (file : FsFile) (is09 : Bool) : Nat :=
  if file.httpHeaderIncluded && is09 then
    match strnstr (fun i => file.data.getD i 0) (crlf ++ crlf) file.len with
    | some fileStart => fileStart + 4
    | none => 0
  else 0

/-- The `http_ssi_state` that `http_init_file` sets up. -/
def httpSsiStateInit (id : Nat) (file : FsFile) : HttpSsiState where
  id := id
  calls := 0
  parsed := 0
  tagEnd := 0
  parseLeft := file.len
  tagIndex := 0
  tagInsertLen := 0
  tagNameLen := 0
  tagName := List.replicate (maxTagNameLen + 1) 0
  tagInsert := fun _ => 0
  tagState := .none

/-- `http_init_file` -/
def httpInitFile (o : Oracle) (file : Option FsFile) (is09 : Bool) (tagCheck : Bool)
    (c : Ctx σ) : Ctx σ :=
  match file with
  | some file =>
    let c :=
      if tagCheck && o.ssiAlloc then
        let id := c.pcb.nextId
        let c := { c with pcb := { c.pcb.log (.alloc (.ssi id)) with nextId := id + 1 } }
        c.setHs { c.hs with ssi := some (httpSsiStateInit id file) }
      else c
    let start := headerEnd file is09
    let c := c.setHs
      { c.hs with
        handle := some file, file := some start, left := sub32 file.len start, retries := 0 }
    let c := { c with pcb := c.pcb.check file.httpHeaderIncluded .headerIncluded }
    c.log (.opened file.data is09 start c.hs.ssi.isSome)
  | none => c.setHs { c.hs with handle := none, file := none, left := 0, retries := 0 }

/-- The file for `/`, and whether it is scanned for tags. -/
def openDefaultFile (root : List FsdataFile) : Option FsFile × Bool :=
  match defaultFilenames.findSome? fun f => (fsOpen root f.1).map (·, f.2) with
  | some (file, shtml) => (some file, shtml)
  | none => ((httpGet404File root).map Prod.fst, false)

/-- The file for any other name, and whether it is scanned for tags. -/
def openNamedFile (root : List FsdataFile) (uri : List UInt8) : Option FsFile × Bool :=
  match (fsOpen root uri).map (·, uri) <|> httpGet404File root with
  | some (file, name) => (some file, ssiExtensions.any (strstr name))
  | none => (none, false)

/-- The URI without its parameters, and the parameters if there is a `?`. -/
def splitUri (uri : List UInt8) : List UInt8 × Option (List UInt8) :=
  match strchr uri 0 63 with
  | some q => (uri.take q, some (uri.drop (q + 1)))
  | none => (uri, none)

/-- The CGI call of `http_find_file`: the name of the page to serve, the URI as it was cut,
and the connection afterwards. -/
def callCgi (site : Site σ) (uri : List UInt8) (c : Ctx σ) : List UInt8 × List UInt8 × Ctx σ :=
  let (base, params) := splitUri uri
  let cut := params.elim base (base ++ 0 :: ·)
  match site.cgis.findIdx? (·.name == base), site.cgis.find? (·.name == base) with
  | some i, some cgi =>
    let (count, args) := extractUriParameters params c.hs
    let (app, page) := cgi.handler c.sys.app i count args
    let c := { c with sys := { c.sys with app } }
    (page, params.elim base (fun _ => base ++ 0 :: args.buf.dropLast),
      c.setHs { c.hs with params := args.params, paramVals := args.paramVals })
  | _, _ => (base, cut, c)

/-- `http_find_file`: the URI as it was cut in place, and the connection. -/
def httpFindFile (site : Site σ) (o : Oracle) (uri : List UInt8) (is09 : Bool) (c : Ctx σ) :
    List UInt8 × Ctx σ :=
  let c := c.readHs.log (.findFile uri is09)
  if uri = [47] then
    let (file, tagCheck) := openDefaultFile site.root
    (uri, httpInitFile o file is09 tagCheck c)
  else
    let (page, cut, c) := callCgi site uri c
    let (file, tagCheck) := openNamedFile site.root page
    (cut, httpInitFile o file is09 tagCheck c)

end Meu1oARM
