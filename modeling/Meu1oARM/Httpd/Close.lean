import Meu1oARM.Httpd.State

/-! # Closing a connection

Every way a connection ends goes through `http_state_free`, and all but the
error callback through `http_close_or_abort_conn`.
-/

namespace Meu1oARM

variable {σ : Type}

/-- `http_state_eof` -/
def httpStateEof (c : Ctx σ) : Ctx σ :=
  let c := c.readHs
  let c := c.setHs { c.hs with handle := none }
  match c.hs.ssi with
  | some ssi => (c.log (.free (.ssi ssi.id))).setHs { c.hs with ssi := none }
  | none => c

/-- `http_state_free` of a state that is not null. -/
def httpStateFree (c : Ctx σ) : Ctx σ :=
  let c := httpStateEof c
  { c.log (.free (.state c.hs.addr)) with cell := .freed }

/-- `http_err` -/
def httpErr (c : Ctx σ) : Ctx σ :=
  match c.cell with
  | .null => c
  | _ => httpStateFree c

/-- `tcp_abort` gives the control block back and then calls the error callback. -/
def tcpAbort (c : Ctx σ) : Ctx σ :=
  let errf := c.pcb.errf
  let c := { c with pcb := { c.pcb.touch.log .aborted with status := .aborted } }
  if errf then httpErr c else c

/-- `http_close_or_abort_conn`; the state to free is the one the callback got. -/
def httpCloseOrAbortConn (o : Oracle) (c : Ctx σ) (abortConn : Bool) : Err × Ctx σ :=
  let pcb := tcpArg c.pcb .null
  let pcb := tcpRecv pcb false
  let pcb := tcpErr pcb false
  let pcb := tcpPoll pcb false
  let pcb := tcpSent pcb false
  let c := { c with pcb }
  let c := match c.cell with
    | .null => c
    | _ => httpStateFree c
  if abortConn then (.ok, tcpAbort c)
  else
    let (err, pcb) := tcpClose o c.pcb
    (err, { c with pcb := if err ≠ .ok then tcpPoll pcb true else pcb })

/-- `http_close_conn` -/
def httpCloseConn (o : Oracle) (c : Ctx σ) : Err × Ctx σ := httpCloseOrAbortConn o c false

/-- `http_eof`: without keep-alive the connection is closed. -/
def httpEof (o : Oracle) (c : Ctx σ) : Ctx σ := (httpCloseConn o (c.log .eof)).2

/-! ## What the functions do -/

/-- What freeing an `http_state` gives back. -/
def HttpState.releases (hs : HttpState) : List Action :=
  (match hs.ssi with
    | some ssi => [.free (.ssi ssi.id)]
    | none => []) ++ [.free (.state hs.addr)]

/-- The control block after `http_close_or_abort_conn` has done `acts` on the way. -/
def Pcb.shut (o : Oracle) (acts : List Action) (pcb : Pcb) : Pcb :=
  { pcb with
    status := if o.closeFails then .opened else .closed
    callbackArg := .null, recv := false, sent := false, errf := false, poll := o.closeFails
    trace := pcb.trace ++ acts ++ [.closed o.close] }

/-- The connection after it has been closed with the state `hs`. -/
def Ctx.closed (o : Oracle) (hs : HttpState) (c : Ctx σ) : Ctx σ :=
  { c with cell := .freed, pcb := c.pcb.shut o hs.releases }

variable {o : Oracle} {c : Ctx σ} {hs : HttpState}

theorem Ctx.hs_of_live (hcell : c.cell = .live hs) : c.hs = hs := by
  simp [Ctx.hs, hcell]

theorem Ctx.readHs_of_live (hcell : c.cell = .live hs) : c.readHs = c := by
  simp [Ctx.readHs, hcell]

theorem Ctx.setHs_of_live (hcell : c.cell = .live hs) (hs' : HttpState) :
    c.setHs hs' = { c with cell := .live hs' } := by
  simp [Ctx.setHs, hcell]

variable (hs) in
/-- What `http_state_free` does to a state that is there. -/
theorem httpStateFree_live (hcell : c.cell = .live hs) :
    httpStateFree c =
      { c with
        cell := .freed
        pcb := { c.pcb with trace := c.pcb.trace ++ hs.releases } } := by
  have hread : c.readHs = c := c.readHs_of_live hcell
  cases hssi : hs.ssi with
  | none =>
      simp [httpStateFree, httpStateEof, hread, Ctx.setHs, hcell, Ctx.hs, hssi, Ctx.log,
        Pcb.log, HttpState.releases]
  | some ssi =>
      simp [httpStateFree, httpStateEof, hread, Ctx.setHs, hcell, Ctx.hs, hssi, Ctx.log,
        Pcb.log, HttpState.releases]

theorem httpCloseConn_live (hcell : c.cell = .live hs) (hopen : c.pcb.status = .opened) :
    httpCloseConn o c = (o.close, c.closed o hs) := by
  simp only [httpCloseConn, httpCloseOrAbortConn, hcell]
  rw [httpStateFree_live hs rfl]
  cases hfails : o.closeFails <;>
    simp [tcpClose, tcpArg, tcpRecv, tcpErr, tcpPoll, tcpSent, Pcb.touch, Pcb.log, hopen,
      Oracle.close, hfails, Ctx.closed, Pcb.shut]

theorem httpCloseConn_null (hcell : c.cell = .null) (hopen : c.pcb.status = .opened) :
    httpCloseConn o c = (o.close, { c with pcb := c.pcb.shut o [] }) := by
  simp only [httpCloseConn, httpCloseOrAbortConn, hcell]
  cases hfails : o.closeFails <;>
    simp [tcpClose, tcpArg, tcpRecv, tcpErr, tcpPoll, tcpSent, Pcb.touch, Pcb.log, hopen,
      Oracle.close, hfails, Pcb.shut]

variable (hs) in
theorem httpEof_live (hcell : c.cell = .live hs) (hopen : c.pcb.status = .opened) :
    httpEof o c = (c.log .eof).closed o hs := by
  have hclose : httpCloseConn o (c.log .eof) = (o.close, (c.log .eof).closed o hs) :=
    httpCloseConn_live hcell hopen
  rw [httpEof, hclose]

end Meu1oARM
