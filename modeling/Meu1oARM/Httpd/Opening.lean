import Meu1oARM.Httpd.Request
import Meu1oARM.Httpd.Serving

/-! # What a request does to a connection

A connection that waits for its request goes on waiting, is to be closed, or has
been given what `http_find_file` found: no file, or a file that is to be sent from
the first byte of the response on.
-/

namespace Meu1oARM

open Machine CString

variable {σ : Type} {site : Site σ} {o : Oracle}

/-- The connection waits for its request. -/
structure HttpState.Waiting (hs : HttpState) : Prop where
  handle : hs.handle = none
  file : hs.file = none
  left : hs.left = 0
  ssi : hs.ssi = none

/-- The trace of the assertion in `http_init_file`. -/
def headerCheck (f : FsFile) : List Action :=
  if f.httpHeaderIncluded then [] else [.assertFailed .headerIncluded]

/-- How `http_init_file` leaves the state: without a file, with a file, or with a file and a
scanner called `id`. The list is what shows in the trace. -/
inductive Opens (is09 : Bool) (id : Nat) (hs : HttpState) : List Action → Prop
  | nothing (hwaiting : hs.Waiting) : Opens is09 id hs []
  | plain (f : FsFile) (hhandle : hs.handle = some f) (hindex : f.index = f.data.length)
      (hfile : hs.file = some (headerEnd f is09))
      (hleft : hs.left = f.data.length - headerEnd f is09) (hssi : hs.ssi = none) :
      Opens is09 id hs (headerCheck f ++ [.opened f.data is09 (headerEnd f is09) false])
  | ssi (f : FsFile) (hhandle : hs.handle = some f) (hindex : f.index = f.data.length)
      (hfile : hs.file = some (headerEnd f is09))
      (hleft : hs.left = f.data.length - headerEnd f is09)
      (hssi : hs.ssi = some (httpSsiStateInit id f)) :
      Opens is09 id hs
        (.alloc (.ssi id) :: (headerCheck f ++ [.opened f.data is09 (headerEnd f is09) true]))

/-- What opening a file may add to the trace. -/
def Action.isOpening : Action → Bool
  | .alloc (.ssi _) | .assertFailed .headerIncluded | .opened .. => true
  | _ => false

theorem Opens.isOpening {is09 : Bool} {id : Nat} {hs : HttpState} {acts : List Action}
    (h : Opens is09 id hs acts) : ∀ a ∈ acts, a.isOpening := by
  cases h with
  | nothing => exact nofun
  | plain f =>
      cases hheader : f.httpHeaderIncluded <;> simp [headerCheck, hheader, Action.isOpening]
  | ssi f => cases hheader : f.httpHeaderIncluded <;> simp [headerCheck, hheader, Action.isOpening]

/-- What `http_find_file` leaves alone in the state `hs`, when the next free name is `id`
before and `n` afterwards, and what shows in the trace. -/
structure Found (is09 : Bool) (id : Nat) (hs hs' : HttpState) (n : Nat) (acts : List Action) :
    Prop where
  addr_eq : hs'.addr = hs.addr
  pcb_eq : hs'.pcb = hs.pcb
  req_eq : hs'.req = hs.req
  opens : Opens is09 id hs' acts
  nextId_le : id ≤ n
  nextId_lt : .alloc (.ssi id) ∈ acts → id < n

theorem headerEnd_of_http1 (f : FsFile) : headerEnd f false = 0 := by
  simp [headerEnd]

theorem headerEnd_le (f : FsFile) (is09 : Bool) : headerEnd f is09 ≤ f.data.length := by
  unfold headerEnd
  split
  · split
    next hfound => exact (strnstr_some hfound (by simp [crlf])).1
    next => exact Nat.zero_le _
  · exact Nat.zero_le _

/-- A response without the header starts behind a line feed. -/
theorem headerEnd_after_lf (f : FsFile) (is09 : Bool) :
    headerEnd f is09 = 0 ∨ f.data[headerEnd f is09 - 1]? = some 10 := by
  unfold headerEnd
  split
  · split
    next start hfound =>
      right
      obtain ⟨hle, hmatch⟩ := strnstr_some hfound (by simp [crlf])
      have hle' : start + 4 ≤ f.data.length := hle
      have hlast := congrArg (fun l => l[3]?) hmatch
      simpa [bytes, shift, crlf, List.getD_eq_getElem?_getD,
        List.getElem?_eq_getElem (show start + 3 < f.data.length by omega)] using hlast
    next => exact Or.inl rfl
  · exact Or.inl rfl

/-- The file is one of those that the server stores. -/
def Stored (root : List FsdataFile) (f : FsFile) : Prop := ∃ name, fsOpen root name = some f

theorem Stored.index {root : List FsdataFile} {f : FsFile} (h : Stored root f) :
    f.index = f.data.length := by
  obtain ⟨name, hopen⟩ := h
  obtain ⟨_, _, rfl⟩ := Option.map_eq_some_iff.mp hopen
  rfl

theorem httpGet404File_stored {root : List FsdataFile} {f : FsFile} {uri : List UInt8}
    (h : httpGet404File root = some (f, uri)) : Stored root f := by
  obtain ⟨name, _, hopen⟩ := List.exists_of_findSome?_eq_some h
  obtain ⟨g, hg, heq⟩ := Option.map_eq_some_iff.mp hopen
  obtain rfl : g = f := congrArg Prod.fst heq
  exact ⟨name, hg⟩

theorem openDefaultFile_stored {root : List FsdataFile} {f : FsFile}
    (h : (openDefaultFile root).1 = some f) : Stored root f := by
  unfold openDefaultFile at h
  split at h
  next file shtml hfound =>
    obtain ⟨⟨name, _⟩, _, hopen⟩ := List.exists_of_findSome?_eq_some hfound
    obtain ⟨g, hg, heq⟩ := Option.map_eq_some_iff.mp hopen
    obtain rfl : file = f := by simpa using h
    obtain rfl : g = file := congrArg Prod.fst heq
    exact ⟨name, hg⟩
  next =>
    obtain ⟨⟨g, uri⟩, hg, rfl⟩ := Option.map_eq_some_iff.mp h
    exact httpGet404File_stored hg

theorem openNamedFile_stored {root : List FsdataFile} {name : List UInt8} {f : FsFile}
    (h : (openNamedFile root name).1 = some f) : Stored root f := by
  unfold openNamedFile at h
  cases hopen : fsOpen root name with
  | some g =>
      obtain rfl : g = f := by simpa [hopen] using h
      exact ⟨name, hopen⟩
  | none =>
      cases hget : httpGet404File root with
      | none => simp [hopen, hget] at h
      | some found =>
          obtain ⟨g, uri⟩ := found
          obtain rfl : g = f := by simpa [hopen, hget] using h
          exact httpGet404File_stored hget

/-- A CGI handler changes the application and the parameters of the request. -/
theorem callCgi_spec (site : Site σ) (uri : List UInt8) {c : Ctx σ} {hs : HttpState}
    (hcell : c.cell = .live hs) :
    ∃ page cut sys params paramVals, callCgi site uri c =
      (page, cut, { c with sys := sys, cell := .live { hs with params, paramVals } }) := by
  simp only [callCgi, Ctx.hs, Ctx.setHs, hcell]
  split
  next => exact ⟨_, _, _, _, _, rfl⟩
  next => exact ⟨_, _, c.sys, hs.params, hs.paramVals, by rw [← hcell]⟩

theorem headerCheck_eq (f : FsFile) (pcb : Pcb) :
    pcb.check f.httpHeaderIncluded .headerIncluded =
      { pcb with trace := pcb.trace ++ headerCheck f } := by
  cases hheader : f.httpHeaderIncluded <;> simp [Pcb.check, Pcb.log, headerCheck, hheader]

theorem httpInitFile_spec (is09 tagCheck : Bool) {file : Option FsFile}
    (hindex : ∀ f, file = some f → f.index = f.data.length) {c : Ctx σ} {hs : HttpState}
    (hcell : c.cell = .live hs) (hwaiting : hs.Waiting) :
    ∃ hs' n acts, httpInitFile o file is09 tagCheck c =
        { c with
          cell := .live hs'
          pcb := { c.pcb with nextId := n, trace := c.pcb.trace ++ acts } } ∧
      Found is09 c.pcb.nextId hs hs' n acts := by
  cases file with
  | none =>
      refine ⟨{ hs with handle := none, file := none, left := 0, retries := 0 }, c.pcb.nextId, [],
        ?_, rfl, rfl, rfl, .nothing ⟨rfl, rfl, rfl, hwaiting.ssi⟩, Nat.le_refl _, nofun⟩
      simp [httpInitFile, Ctx.hs, Ctx.setHs, hcell]
  | some f =>
      have hle := headerEnd_le f is09
      have hsize := f.size_lt
      have hsub : sub32 f.len (headerEnd f is09) = f.data.length - headerEnd f is09 :=
        sub32_of_le hle (by simp only [FsFile.len]; omega)
      have hf := hindex f rfl
      by_cases halloc : (tagCheck && o.ssiAlloc) = true
      · refine ⟨{ hs with
            handle := some f, file := some (headerEnd f is09)
            left := f.data.length - headerEnd f is09, retries := 0
            ssi := some (httpSsiStateInit c.pcb.nextId f) }, c.pcb.nextId + 1, _, ?_, rfl, rfl, rfl,
            .ssi f rfl hf rfl rfl rfl, Nat.le_succ _, fun _ => Nat.lt_succ_self _⟩
        simp [httpInitFile, halloc, Ctx.hs, Ctx.setHs, hcell, Ctx.log, Pcb.log, headerCheck_eq, hsub]
      · refine ⟨{ hs with
            handle := some f, file := some (headerEnd f is09)
            left := f.data.length - headerEnd f is09, retries := 0 }, c.pcb.nextId, _, ?_, rfl, rfl,
            rfl, .plain f rfl hf rfl rfl hwaiting.ssi, Nat.le_refl _, ?_⟩
        · simp [httpInitFile, halloc, Ctx.hs, Ctx.setHs, hcell, Ctx.log, Pcb.log, headerCheck_eq,
            hsub, hwaiting.ssi]
        · cases hheader : f.httpHeaderIncluded <;> simp [headerCheck, hheader]

/-- The specification of `http_find_file`. -/
theorem httpFindFile_spec (site : Site σ) (o : Oracle) (uri : List UInt8) (is09 : Bool)
    {c : Ctx σ} {hs : HttpState} (hcell : c.cell = .live hs) (hwaiting : hs.Waiting) :
    ∃ cut hs' n acts sys, httpFindFile site o uri is09 c =
        (cut,
          { sys
            cell := .live hs'
            pcb := { c.pcb with
              nextId := n, trace := c.pcb.trace ++ .findFile uri is09 :: acts } }) ∧
      Found is09 c.pcb.nextId hs hs' n acts := by
  simp only [httpFindFile, Ctx.readHs_of_live hcell]
  split
  next =>
    obtain ⟨hs', n, acts, hinit, hfound⟩ := httpInitFile_spec (o := o) is09
      (openDefaultFile site.root).2 (fun f hf => (openDefaultFile_stored hf).index)
      (c := c.log (.findFile uri is09)) hcell hwaiting
    refine ⟨uri, hs', n, acts, c.sys, ?_, hfound⟩
    rw [hinit]
    simp [Ctx.log, Pcb.log]
  next =>
    obtain ⟨page, cut, sys, params, paramVals, hcgi⟩ :=
      callCgi_spec site uri (c := c.log (.findFile uri is09)) hcell
    simp only [hcgi]
    obtain ⟨hs', n, acts, hinit, hfound⟩ := httpInitFile_spec (o := o) is09
      (openNamedFile site.root page).2 (fun f hf => (openNamedFile_stored hf).index)
      (c := { c.log (.findFile uri is09) with
        sys := sys, cell := .live { hs with params, paramVals } }) rfl
      ⟨hwaiting.handle, hwaiting.file, hwaiting.left, hwaiting.ssi⟩
    refine ⟨cut, hs', n, acts, sys, ?_, ⟨hfound.addr_eq, hfound.pcb_eq, hfound.req_eq,
      hfound.opens, hfound.nextId_le, hfound.nextId_lt⟩⟩
    rw [hinit]
    simp [Ctx.log, Pcb.log]

theorem httpSsiStateInit_stream {f : FsFile} {start : Nat} {pcb : Pcb} (site : TagSite) (id : Nat)
    (hopen : pcb.status = .opened) (henq : enqueued pcb.trace = [])
    (hins : tagInserts pcb.trace = []) (hstart : start < f.data.length) :
    SsiStream site f.data start pcb start (f.data.length - start) (httpSsiStateInit id f) where
  opened := hopen
  scanning := ⟨by simp [httpSsiStateInit], nofun, nofun, nofun⟩
  size_lt := f.size_lt
  start_lt := hstart
  left_eq := by omega
  parse_eq := by simp [httpSsiStateInit, FsFile.len]
  start_le := Nat.le_refl _
  file_le := Or.inl (Nat.le_refl _)
  tagEnd_eq := nofun
  insertLen_lt := nofun
  insertLen_le _ := nofun
  tagIndex_le := nofun
  tagIndex_eq := nofun
  stream := by
    simp [henq, ssiOwed, ssiResponse, httpSsiStateInit, Expand.window_of_le,
      HttpSsiState.pendingInsert, HttpSsiState.scan]
  inserts := by simp [hins, insertsAhead, fileInserts, httpSsiStateInit, HttpSsiState.scan]

theorem openings_headerCheck (f : FsFile) : openings (headerCheck f) = [] := by
  cases hheader : f.httpHeaderIncluded <;> simp [headerCheck, hheader, Action.opening]

/-- A file that has just been opened is served from the first byte of the response on. -/
theorem Opens.serving {is09 : Bool} {id : Nat} {hs : HttpState} {acts : List Action}
    (h : Opens is09 id hs acts) (site : Site σ) {pcb : Pcb} (hopen : pcb.status = .opened)
    (henq : enqueued pcb.trace = []) (hins : tagInserts pcb.trace = []) :
    (hs.Waiting ∧ openings acts = []) ∨
      ∃ f, Serving site f (headerEnd f is09) pcb hs ∧
        openings acts = [⟨f.data, is09, headerEnd f is09, hs.ssi.isSome⟩] := by
  cases h with
  | nothing hwaiting => exact Or.inl ⟨hwaiting, rfl⟩
  | plain f hhandle hindex hfile hleft hssi =>
      right
      have hle := headerEnd_le f is09
      refine ⟨f, ⟨hhandle, hindex, _, hfile, ?_⟩, by simp [openings_headerCheck, Action.opening, hssi]⟩
      rcases Nat.lt_or_ge (headerEnd f is09) f.data.length with hlt | hge
      · left
        rw [hssi]
        exact ⟨hopen, f.size_lt, hlt, by omega, Nat.le_refl _, by simp [henq]⟩
      · exact Or.inr ⟨hopen, by omega, rfl, by omega, henq, hins⟩
  | ssi f hhandle hindex hfile hleft hssi =>
      right
      have hle := headerEnd_le f is09
      refine ⟨f, ⟨hhandle, hindex, _, hfile, ?_⟩, by simp [openings_headerCheck, Action.opening, hssi]⟩
      rcases Nat.lt_or_ge (headerEnd f is09) f.data.length with hlt | hge
      · left
        rw [hssi, hleft]
        exact httpSsiStateInit_stream site id hopen henq hins hlt
      · exact Or.inr ⟨hopen, by omega, rfl, by omega, henq, hins⟩

/-- The connection with the chain `p` at the end of its request. -/
def Ctx.withQueued (c : Ctx σ) (hs : HttpState) (p : List Pbuf) (sys : Sys σ) : Ctx σ :=
  { sys
    cell := .live { hs with req := hs.req ++ p }
    pcb := { c.pcb with trace := c.pcb.trace ++ queued p } }

/-- Terminating strings in the request changes at most the shared buffer. -/
theorem patchReqBuf_eq (req : List Pbuf) (off : Nat) (xs : List UInt8) (c : Ctx σ) :
    ∃ sys, patchReqBuf req off xs c = { c with sys := sys } := by
  unfold patchReqBuf
  split
  · exact ⟨c.sys, rfl⟩
  · exact ⟨_, rfl⟩

/-- What the parser makes of the queue `req`. -/
def requestParsed (o : Oracle) (req : List Pbuf) (reqBuf : Mem) : Parsed :=
  httpParseData (requestData o req reqBuf).1 (requestData o req reqBuf).2.1

/-- The URI that is looked up when it has `uriLen` bytes. -/
def requestUri (o : Oracle) (req : List Pbuf) (reqBuf : Mem) (uriLen : Nat) : List UInt8 :=
  cstr (bytes (shift (requestData o req reqBuf).1 4) uriLen)

/-- The queue is not longer than a request may be. -/
def WithinBounds (req : List Pbuf) : Prop :=
  totLen req ≤ reqBufsize ∧ pbufClen req ≤ reqQueuelen

/-- What becomes of the request: the queue is left waiting within its bounds, it is
rejected, or its URI is looked up. -/
inductive RequestOutcome (site : Site σ) (o : Oracle) (p : List Pbuf) (c : Ctx σ)
    (hs : HttpState) : Err × Ctx σ → Prop
  | incomplete (sys : Sys σ) (hbounds : WithinBounds (hs.req ++ p))
      (hparsed : requestParsed o (hs.req ++ p) c.sys.httpdReqBuf = .incomplete) :
      RequestOutcome site o p c hs (.inprogress, c.withQueued hs p sys)
  | rejected (sys : Sys σ) (hparsed : requestParsed o (hs.req ++ p) c.sys.httpdReqBuf = .badMethod ∨
        requestParsed o (hs.req ++ p) c.sys.httpdReqBuf = .incomplete ∧
          ¬ WithinBounds (hs.req ++ p)) :
      RequestOutcome site o p c hs (.arg, c.withQueued hs p sys)
  | found (uriLen : Nat) (is09 : Bool) (uri : List UInt8) (hs' : HttpState) (n : Nat)
      (acts : List Action) (sys : Sys σ)
      (hparsed : requestParsed o (hs.req ++ p) c.sys.httpdReqBuf = .dispatch uriLen is09)
      (huri : uri = requestUri o (hs.req ++ p) c.sys.httpdReqBuf uriLen)
      (hfound : Found is09 c.pcb.nextId { hs with req := hs.req ++ p } hs' n acts) :
      RequestOutcome site o p c hs (.ok,
        { sys
          cell := .live hs'
          pcb := { c.pcb with
            nextId := n
            trace := c.pcb.trace ++ queued p ++ .findFile uri is09 :: acts } })

/-- The specification of `http_parse_request` for a connection that waits. -/
theorem httpParseRequest_spec (site : Site σ) (o : Oracle) (p : List Pbuf) {c : Ctx σ}
    {hs : HttpState} (hcell : c.cell = .live hs) (hwaiting : hs.Waiting) :
    RequestOutcome site o p c hs (httpParseRequest site o p c) := by
  have hidle : ¬ (hs.handle.isSome ∨ hs.file.isSome) := by simp [hwaiting.handle, hwaiting.file]
  have hqueue : enqueuePbuf p c = c.withQueued hs p c.sys := by
    simp only [enqueuePbuf, Ctx.hs_of_live hcell, Ctx.setHs_of_live hcell, pbufCat, Ctx.withQueued]
  have hreq : (c.withQueued hs p c.sys).hs.req = hs.req ++ p := rfl
  simp only [httpParseRequest, Ctx.readHs_of_live hcell, Ctx.hs_of_live hcell, if_neg hidle, hqueue]
  rw [hreq]
  have hsys : (c.withQueued hs p c.sys).sys = c.sys := rfl
  rw [hsys]
  have huri : ∀ uriLen, requestUri o (hs.req ++ p) c.sys.httpdReqBuf uriLen =
      cstr (bytes (shift (requestData o (hs.req ++ p) c.sys.httpdReqBuf).1 4) uriLen) :=
    fun _ => rfl
  have hparsed : requestParsed o (hs.req ++ p) c.sys.httpdReqBuf =
      httpParseData (requestData o (hs.req ++ p) c.sys.httpdReqBuf).1
        (requestData o (hs.req ++ p) c.sys.httpdReqBuf).2.1 := rfl
  generalize requestData o (hs.req ++ p) c.sys.httpdReqBuf = request at huri hparsed ⊢
  obtain ⟨data, dataLen, reqBuf⟩ := request
  dsimp only at huri hparsed ⊢
  cases hresult : httpParseData data dataLen with
  | incomplete =>
      rw [hresult] at hparsed
      by_cases hbounds : totLen (hs.req ++ p) ≤ reqBufsize ∧ pbufClen (hs.req ++ p) ≤ reqQueuelen
      · rw [if_pos hbounds]
        exact .incomplete { c.sys with httpdReqBuf := reqBuf } hbounds hparsed
      · rw [if_neg hbounds]
        exact .rejected { c.sys with httpdReqBuf := reqBuf } (Or.inr ⟨hparsed, hbounds⟩)
  | badMethod =>
      obtain ⟨sys, hpatch⟩ := patchReqBuf_eq (hs.req ++ p) 4 [0]
        (c.withQueued hs p { c.sys with httpdReqBuf := reqBuf })
      have hrejected : RequestOutcome site o p c hs (.arg, c.withQueued hs p sys) :=
        .rejected sys (Or.inl (hparsed.trans hresult))
      rwa [show c.withQueued hs p sys = _ from hpatch.symm] at hrejected
  | dispatch uriLen is09 =>
      obtain ⟨cut, hs', n, acts, sys, hfind, hfound⟩ := httpFindFile_spec site o
        (cstr (bytes (shift data 4) uriLen)) is09
        (c := { c.withQueued hs p c.sys with sys := { c.sys with httpdReqBuf := reqBuf } })
        (Eq.refl (Cell.live { hs with req := hs.req ++ p }))
        ⟨hwaiting.handle, hwaiting.file, hwaiting.left, hwaiting.ssi⟩
      have hfinish : ∀ off xs (c' : Ctx σ), c'.cell = .live hs' → c'.pcb =
            { c.pcb with
              nextId := n
              trace := c.pcb.trace ++ queued p ++
                .findFile (cstr (bytes (shift data 4) uriLen)) is09 :: acts } →
          RequestOutcome site o p c hs (.ok, patchReqBuf (hs.req ++ p) off xs c') := by
        intro off xs c' hcell' hpcb'
        obtain ⟨sys', hpatch⟩ := patchReqBuf_eq (hs.req ++ p) off xs c'
        rw [hpatch, hcell', hpcb']
        exact .found uriLen is09 _ hs' n acts sys' (hparsed.trans hresult) (huri uriLen).symm hfound
      dsimp only at hfind ⊢
      rw [hfind]
      exact hfinish _ _ _ rfl rfl

end Meu1oARM
