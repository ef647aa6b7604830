import Meu1oARM.Foundation.Run
import Meu1oARM.Lwip.TcpIn

/-! # One end of a connection

The application writes, reads and closes; the timers run out at any time; and any
segment may arrive. What has been written and read is recorded beside the control block.
-/

namespace Meu1oARM

open Machine Serial

/-- What an application asks lwIP for; `mem` answers the requests for memory. -/
inductive AppCall
  | write (data : List UInt8) (copy more : Bool) (mem : Nat → Bool)
  | output (mem : Bool)
  | recved (len : Nat) (mem : Bool)
  | close (mem : Nat → Bool)
  | abort

/-- An established connection and its application. -/
structure Endpoint where
  pcb : TcpPcb
  /-- the control block is on the list of active ones -/
  active : Bool
  /-- `TF_RXCLOSED` -/
  rxClosed : Bool
  /-- what `tcp_write` has taken so far -/
  written : List UInt8
  /-- what the receive function has been given so far -/
  read : List UInt8
  /-- the receive function has been told of the end of the stream -/
  eof : Bool

inductive TcpEvent
  | call (c : AppCall)
  | fastTimer (mem : Bool)
  | rexmitTimer (mem : Bool)
  | persistTimer (mem : Bool)
  | input (inseg : Inseg) (mem : Bool) (sent received closed : List AppCall) (memOut : Bool)

namespace Endpoint

open TcpPcb

/-- `tcp_close` -/
def tcpClose (e : Endpoint) (mem : Nat → Bool) : Endpoint :=
  let e := { e with rxClosed := true }
  if (e.pcb.state = .established ∨ e.pcb.state = .closeWait) ∧ e.pcb.rcvWnd ≠ tcpWnd then
    -- the peer is told by a RST that not everything has been read
    { e with active := false }
  else { e with pcb := (e.pcb.tcpCloseShutdown mem).2 }

def call (e : Endpoint) (c : AppCall) : Endpoint :=
  if e.active then
    match c with
    | .write data copy more mem =>
      match e.pcb.tcpWrite data copy more mem with
      | (.ok, pcb) => { e with pcb, written := e.written ++ data }
      | (_, pcb) => { e with pcb }
    | .output mem => { e with pcb := e.pcb.tcpOutput mem }
    | .recved len mem => { e with pcb := e.pcb.tcpRecved len mem }
    | .close mem => e.tcpClose mem
    | .abort => { e with active := false }
  else e

/-- `tcp_fasttmr` for one connection: a delayed ACK is sent. -/
def fastTimer (e : Endpoint) (mem : Bool) : Endpoint :=
  if e.pcb.ackDelay then
    { e with pcb := { e.pcb.tcpAckNow.tcpOutput mem with ackDelay := false, ackNow := false } }
  else e

/-- `TCP_MAXRTX` of opt.h. -/
def tcpMaxrtx : Nat := 12

/-- `tcp_slowtmr` when the retransmission timer has run out. -/
def rexmitTimer (e : Endpoint) (mem : Bool) : Endpoint :=
  if e.pcb.nrtx = tcpMaxrtx then { e with active := false }
  else { e with pcb := e.pcb.rexmitTimeout mem }

/-- The application is told how much has been acknowledged. -/
def notifySent (e : Endpoint) (calls : List AppCall) : Endpoint :=
  if 0 < e.pcb.acked then Run.run call e calls else e

/-- The application is given the data. -/
def notifyReceived (e : Endpoint) (recvData : Option (List (List UInt8))) (calls : List AppCall) :
    Endpoint :=
  match recvData with
  | none => e
  | some p =>
    if e.active = false then e
    else if e.rxClosed then { e with active := false }
    else Run.run call { e with read := e.read ++ p.flatten } calls

/-- The application is told of the end of the stream. -/
def notifyClosed (e : Endpoint) (gotFin : Bool) (calls : List AppCall) : Endpoint :=
  if gotFin ∧ e.active then
    -- the application does not call `tcp_recved` for the FIN
    let rcvWnd := if e.pcb.rcvWnd ≠ tcpWnd then u16 (e.pcb.rcvWnd + 1) else e.pcb.rcvWnd
    Run.run call { e with pcb := { e.pcb with rcvWnd }, eof := true } calls
  else e

/-- The end of `tcp_input`. -/
def finishInput (e : Endpoint) (mem : Bool) : Endpoint :=
  if e.active then { e with pcb := { e.pcb with inInput := false }.tcpOutput mem } else e

/-- What `tcp_input` does behind `tcp_process`. -/
def processed (e : Endpoint) (r : Received) (ending : Ending) (sent received closed : List AppCall)
    (mem : Bool) : Endpoint :=
  if ending ≠ .alive then { e with pcb := r.pcb, active := false }
  else if r.pcb.state = .timeWait then
    -- data that come behind `tcp_close` are not handed over
    if e.rxClosed ∧ r.recvData ≠ none then { e with pcb := r.pcb, active := false }
    else { e with
      pcb := { r.pcb with inInput := false }.tcpOutput mem
      active := false
      read := e.read ++ r.recvData.elim [] List.flatten
      eof := e.eof || r.gotFin }
  else
    let e := ({ e with pcb := r.pcb }.notifySent sent).notifyReceived r.recvData received
    (e.notifyClosed r.gotFin closed).finishInput mem

/-- `tcp_input` for a segment of the connection, whose application makes some calls when it is told
of something. -/
def input (e : Endpoint) (inseg : Inseg) (mem : Bool) (sent received closed : List AppCall)
    (memOut : Bool) : Endpoint :=
  let result := { e.pcb with inInput := true }.tcpProcess inseg mem
  e.processed result.1 result.2 sent received closed memOut

def step (e : Endpoint) (ev : TcpEvent) : Endpoint :=
  if e.active then
    match ev with
    | .call c => e.call c
    | .fastTimer mem => e.fastTimer mem
    | .rexmitTimer mem => e.rexmitTimer mem
    | .persistTimer mem => { e with pcb := e.pcb.tcpZeroWindowProbe mem }
    | .input inseg mem sent received closed memOut => e.input inseg mem sent received closed memOut
  else e

end Endpoint

end Meu1oARM
