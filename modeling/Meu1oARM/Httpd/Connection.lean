import Meu1oARM.Foundation.Run
import Meu1oARM.Httpd.Callbacks

/-! # One connection and all connections

lwIP calls the callbacks of an open control block in any order, each time with
whatever send buffer it then has. It may call every one of the four, also those
that the server has taken back. A connection sees the callbacks of the others
only as changes of what all of them share.
-/

namespace Meu1oARM

open CString

variable {σ : Type}

/-- Data that TCP hands over: within the receive window, held in buffers of the pool. -/
structure Delivery where
  payloads : List (List UInt8)
  size_le : payloads.flatten.length ≤ tcpWnd
  count_le : payloads.length ≤ pbufPoolSize

/-- A callback of an open connection. A `recv` without payloads passes the null pointer. -/
inductive Callback
  | recv (p : Delivery) (err : Err)
  | sent
  | poll
  | err

/-- A callback with the answers of lwIP during it and the send buffer it finds. -/
structure Call where
  callback : Callback
  oracle : Oracle
  sndBuf : UInt16
  sndQueuelen : UInt16
  mss : UInt16

/-- A control block as it is passed to the accept callback. -/
def Pcb.fresh : Pcb where
  status := .opened
  callbackArg := .listen
  recv := false
  sent := false
  errf := false
  poll := false
  sndBuf := 0
  sndQueuelen := 0
  mss := 0
  writes := 0
  nextId := 0
  trace := []

namespace Ctx

/-- The send buffer as the callback `e` finds it. -/
def window (e : Call) (c : Ctx σ) : Ctx σ :=
  { c with pcb := { c.pcb with sndBuf := e.sndBuf, sndQueuelen := e.sndQueuelen, mss := e.mss } }

/-- The names from `nextId` on are given to the buffers of a delivery. -/
def received (c : Ctx σ) (xs : List (List UInt8)) : Ctx σ :=
  { c with pcb := { c.pcb with nextId := c.pcb.nextId + xs.length } }

/-- One callback of an open connection. Before the error callback, lwIP deallocates the
control block. -/
def call (site : Site σ) (e : Call) (c : Ctx σ) : Ctx σ :=
  let c := c.window e
  match e.callback with
  | .recv p err =>
    httpRecv site e.oracle (pbufChain c.pcb.nextId p.payloads) err (c.received p.payloads)
  | .sent => httpSent site e.oracle c
  | .poll => (httpPoll site e.oracle c).2
  | .err => httpErr { c with pcb := { c.pcb with status := .reset } }

/-- The accept callback on a fresh control block; lwIP aborts the connection when it
returns an error. -/
def accept (o : Oracle) (self addr : Nat) (sys : Sys σ) : Ctx σ :=
  let (err, c) := httpAccept o self addr { pcb := .fresh, cell := .null, sys }
  if err = .ok then c else tcpAbort c

/-- After a callback the connection reaches its `http_state` through the callback argument. -/
def leave (c : Ctx σ) : Ctx σ :=
  match c.pcb.callbackArg with
  | .state _ => c
  | _ => { c with cell := .null }

end Ctx

/-- What happens on one connection: a callback, or something elsewhere that changes what
all connections share. -/
inductive ConnEvent (σ : Type)
  | call (e : Call)
  | others (sys : Sys σ)

/-- The callback of an event, if it is one of this connection. -/
def ConnEvent.asCall : ConnEvent σ → Option Call
  | .call e => some e
  | .others _ => none

/-- One step of a connection. -/
def connStep (site : Site σ) (c : Ctx σ) : ConnEvent σ → Ctx σ
  | .call e => if c.pcb.status = .opened then (c.call site e).leave else c
  | .others sys => { c with sys }

/-! ## All connections -/

/-- The server with all of its connections. `heap` holds the `http_state` allocations. -/
structure World (σ : Type) where
  pcbs : Nat → Pcb
  heap : Nat → Cell
  nextHs : Nat
  sys : Sys σ

inductive WorldEvent (σ : Type)
  | accept (i : Nat) (o : Oracle)
  | call (i : Nat) (e : Call)
  | app (app : σ)

/-- The callback of an event of the server, if it is one of connection `i`. -/
def WorldEvent.callOf (i : Nat) : WorldEvent σ → Option Call
  | .call j e => if j = i then some e else none
  | _ => none

namespace World

/-- A server without connections. -/
def init (sys : Sys σ) : World σ where
  pcbs := fun _ => { Pcb.fresh with status := .absent }
  heap := fun _ => .null
  nextHs := 0
  sys := sys

/-- What a callback argument points to. -/
def deref (w : World σ) : Arg → Cell
  | .state a => w.heap a
  | _ => .null

/-- Connection `i` as its callbacks see it. -/
def view (w : World σ) (i : Nat) : Ctx σ :=
  { pcb := w.pcbs i, cell := w.deref (w.pcbs i).callbackArg, sys := w.sys }

/-- The allocation that the argument `arg` points to gets the contents `cell`. -/
def store (heap : Nat → Cell) (arg : Arg) (cell : Cell) : Nat → Cell :=
  match arg with
  | .state a => Function.update heap a cell
  | _ => heap

/-- The server after a callback of connection `i` has left the context `c`. -/
def put (w : World σ) (i : Nat) (c : Ctx σ) : World σ :=
  { w with
    pcbs := Function.update w.pcbs i c.pcb
    heap := store w.heap (w.pcbs i).callbackArg c.cell
    sys := c.sys }

def step (site : Site σ) (w : World σ) : WorldEvent σ → World σ
  | .accept i o =>
    if (w.pcbs i).status = .absent then
      let c := Ctx.accept o i w.nextHs w.sys
      { w with
        pcbs := Function.update w.pcbs i c.pcb
        heap := store w.heap (.state w.nextHs) c.cell
        nextHs := w.nextHs + 1
        sys := c.sys }
    else w
  | .call i e =>
    if (w.pcbs i).status = .opened then w.put i ((w.view i).call site e) else w
  | .app app => { w with sys := { w.sys with app } }

end World

end Meu1oARM
