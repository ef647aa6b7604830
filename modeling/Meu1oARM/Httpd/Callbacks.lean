import Meu1oARM.Httpd.Request
import Meu1oARM.Httpd.Send

/-! # The callbacks of a connection

A callback finds in the `cell` of its context what the callback argument of the
control block points to.
-/

namespace Meu1oARM

open Machine CString

variable {σ : Type}

/-- `http_sent` -/
def httpSent (site : Site σ) (o : Oracle) (c : Ctx σ) : Ctx σ :=
  match c.cell with
  | .null => c
  | _ => (httpSend site o (c.setHs { c.hs with retries := 0 })).2

/-- `http_poll` -/
def httpPoll (site : Site σ) (o : Oracle) (c : Ctx σ) : Err × Ctx σ :=
  match c.cell with
  | .null =>
    let (closed, c) := httpCloseConn o c
    if closed = .mem then (.abrt, tcpAbort c) else (.ok, c)
  | _ =>
    let c := c.setHs { c.hs with retries := u8 (c.hs.retries + 1) }
    if c.hs.retries = maxRetries then (.ok, (httpCloseConn o c).2)
    else if c.hs.handle.isSome then
      let (dataToSend, c) := httpSend site o c
      (.ok, if dataToSend ≠ 0 then { c with pcb := tcpOutput c.pcb } else c)
    else (.ok, c)

/-- `http_recv` from the result of the parser on. -/
def httpRecvParsed (site : Site σ) (o : Oracle) (parsed : Err) (c : Ctx σ) : Ctx σ :=
  let c :=
    if parsed ≠ .inprogress then
      let c := c.readHs
      (pbufFree c.hs.req c).setHs { c.hs with req := [] }
    else c
  if parsed = .ok then (httpSend site o c).2
  else if parsed = .arg then (httpCloseConn o c).2
  else c

/-- `http_recv`; the null pointer is the empty chain. -/
def httpRecv (site : Site σ) (o : Oracle) (p : List Pbuf) (err : Err) (c : Ctx σ) : Ctx σ :=
  match c.cell with
  | .null =>
    let c := if p ≠ [] then pbufFree p { c with pcb := tcpRecved c.pcb } else c
    (httpCloseConn o c).2
  | _ =>
    if err ≠ .ok ∨ p = [] then
      let c := if p ≠ [] then pbufFree p { c with pcb := tcpRecved c.pcb } else c
      (httpCloseConn o c).2
    else
      let c := { c with pcb := tcpRecved c.pcb }.readHs
      if c.hs.handle.isNone then
        let (parsed, c) := httpParseRequest site o p c
        let expected := parsed = .ok ∨ parsed = .inprogress ∨ parsed = .arg ∨ parsed = .use
        httpRecvParsed site o parsed { c with pcb := c.pcb.check expected .parseResult }
      else httpRecvParsed site o .abrt c

/-- `http_state_alloc` -/
def httpStateAlloc (o : Oracle) (addr : Nat) (c : Ctx σ) : Option HttpState × Ctx σ :=
  if o.stateAlloc then
    (some { httpStateInit with addr }, c.log (.alloc (.state addr)))
  else (none, c)

/-- `http_accept` of the connection `self`, when the allocator would hand out `addr`. -/
def httpAccept (o : Oracle) (self addr : Nat) (c : Ctx σ) : Err × Ctx σ :=
  match httpStateAlloc o addr c with
  | (none, c) => (.mem, c)
  | (some hs, c) =>
    let pcb := tcpArg c.pcb (.state addr)
    let pcb := tcpRecv pcb true
    let pcb := tcpErr pcb true
    let pcb := tcpPoll pcb true
    let pcb := tcpSent pcb true
    (.ok, { c with pcb, cell := .live { hs with pcb := self } })

end Meu1oARM
