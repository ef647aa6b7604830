import Meu1oARM.Lwip.TcpOut

/-! # The receiving side of TCP

`tcp_receive` and the states of an established connection, in the build without a queue
for segments that come out of order.
-/

namespace Meu1oARM

open Machine Serial

/-- The header of a segment that has arrived, and the bytes of its options. -/
structure Header where
  seqno : Nat
  ackno : Nat
  wnd : Nat
  ack : Bool
  syn : Bool
  fin : Bool
  rst : Bool
  opts : List UInt8
  deriving DecidableEq, Repr

/-- `inseg`: the segment that has arrived, its data in a chain of pbufs. -/
structure Inseg where
  hdr : Header
  len : Nat
  p : List (List UInt8)
  deriving DecidableEq, Repr

/-- `TCP_TCPLEN` -/
def Inseg.tcpLen (inseg : Inseg) : Nat :=
  inseg.len + if inseg.hdr.fin || inseg.hdr.syn then 1 else 0

/-- `pcb->state` as a number. -/
def TcpState.toNat : TcpState → Nat
  | closed => 0
  | listen => 1
  | synSent => 2
  | synRcvd => 3
  | established => 4
  | finWait1 => 5
  | finWait2 => 6
  | closeWait => 7
  | closing => 8
  | lastAck => 9
  | timeWait => 10

/-- Data are moved out at the front of a chain, whose first pbuf stays. -/
def trimFront : List (List UInt8) → Nat → List (List UInt8)
  | [], _ => []
  | b :: bs, off => if b.length < off then [] :: trimFront bs (off - b.length) else b.drop off :: bs

/-- `pbuf_realloc` to a length that is not greater. -/
def pbufRealloc : List (List UInt8) → Nat → List (List UInt8)
  | [], _ => []
  | b :: bs, n => if n > b.length then b :: pbufRealloc bs (n - b.length) else [b.take n]

namespace TcpPcb

/-! ## Acknowledgements -/

/-- The window that the segment announces is taken over unless the segment is an old one. -/
def updateWindow (pcb : TcpPcb) (hdr : Header) : TcpPcb :=
  if lt pcb.sndWl1 hdr.seqno ∨ (pcb.sndWl1 = hdr.seqno ∧ lt pcb.sndWl2 hdr.ackno) ∨
      (pcb.sndWl2 = hdr.ackno ∧ pcb.sndWnd < hdr.wnd) then
    { pcb with
      sndWnd := hdr.wnd
      sndWndMax := if pcb.sndWndMax < hdr.wnd then hdr.wnd else pcb.sndWndMax
      sndWl1 := hdr.seqno
      sndWl2 := hdr.ackno }
  else pcb

/-- The window is the one announced before, some data are on their way, and the segment
acknowledges none of them. -/
def isDupack (pcb : TcpPcb) (rightWndEdge tcplen : Nat) (hdr : Header) : Bool :=
  tcplen = 0 ∧ u32 (pcb.sndWl2 + pcb.sndWnd) = rightWndEdge ∧ 0 ≤ pcb.rtime ∧
    pcb.lastack = hdr.ackno

/-- One acknowledgement more that acknowledges nothing new. -/
def countDupack (pcb : TcpPcb) : TcpPcb :=
  let pcb :=
    if pcb.dupacks < u8 (pcb.dupacks + 1) then { pcb with dupacks := pcb.dupacks + 1 } else pcb
  if 3 < pcb.dupacks then
    if pcb.cwnd < u16 (pcb.cwnd + pcb.mss) then { pcb with cwnd := pcb.cwnd + pcb.mss } else pcb
  else if pcb.dupacks = 3 then pcb.tcpRexmitFast
  else pcb

/-- An acknowledged segment, which has been taken off its queue, is freed. -/
def freeSegment (pcb : TcpPcb) (seg : Segment) : TcpPcb :=
  let pcb := pcb.check (seg.clen ≤ pcb.sndQueuelen)
  let pcb := { pcb with
    acked := if pcb.acked ≠ 0 ∧ seg.fin then pcb.acked - 1 else pcb.acked
    sndQueuelen := toU16 (pcb.sndQueuelen - seg.clen) }
  if pcb.sndQueuelen ≠ 0 then pcb.check (pcb.unacked ≠ [] ∨ pcb.unsent ≠ []) else pcb

/-- The loop of `tcp_receive` over `unacked`. -/
def freeUnacked (ackno : Nat) : List Segment → TcpPcb → TcpPcb
  | [], pcb => pcb
  | seg :: rest, pcb =>
    if leq (u32 (seg.seqno + seg.tcpLen)) ackno then
      freeUnacked ackno rest ({ pcb with unacked := rest }.freeSegment seg)
    else pcb

/-- The loop of `tcp_receive` over `unsent`. -/
def freeUnsent (ackno : Nat) : List Segment → TcpPcb → TcpPcb
  | [], pcb => pcb
  | seg :: rest, pcb =>
    if between ackno (u32 (seg.seqno + seg.tcpLen)) pcb.sndNxt then
      freeUnsent ackno rest
        ({ pcb with
          unsent := rest
          unsentOversize := if rest = [] then 0 else pcb.unsentOversize }.freeSegment seg)
    else pcb

/-- A fast retransmission is over when something new is acknowledged. -/
def endRecovery (pcb : TcpPcb) : TcpPcb :=
  if pcb.infr then { pcb with infr := false, cwnd := pcb.ssthresh } else pcb

/-- The congestion window grows. -/
def growCwnd (pcb : TcpPcb) : TcpPcb :=
  if pcb.cwnd < pcb.ssthresh then
    if pcb.cwnd < u16 (pcb.cwnd + pcb.mss) then { pcb with cwnd := pcb.cwnd + pcb.mss } else pcb
  else
    let newCwnd := u16 (pcb.cwnd + pcb.mss * pcb.mss / pcb.cwnd)
    if pcb.cwnd < newCwnd then { pcb with cwnd := newCwnd } else pcb

/-- The counters when new data are acknowledged. -/
def ackCounters (pcb : TcpPcb) (ackno : Nat) : TcpPcb :=
  let pcb := pcb.endRecovery
  let acked := u16 (sub32 ackno pcb.lastack)
  { pcb with
    nrtx := 0
    acked
    sndBuf := u16 (pcb.sndBuf + acked)
    dupacks := 0
    lastack := ackno }.growCwnd

/-- New data are acknowledged. -/
def ackNewData (pcb : TcpPcb) (ackno : Nat) : TcpPcb :=
  let pcb := pcb.ackCounters ackno
  let pcb := freeUnacked ackno pcb.unacked pcb
  { pcb with rtime := if pcb.unacked = [] then -1 else 0 }

/-- Nothing new is acknowledged. -/
def repeatAck (pcb : TcpPcb) (rightWndEdge : Nat) (inseg : Inseg) : TcpPcb :=
  let pcb := { pcb with acked := 0 }
  if pcb.isDupack rightWndEdge inseg.tcpLen inseg.hdr then pcb.countDupack
  else { pcb with dupacks := 0 }

/-- What `tcp_receive` does with the acknowledgement of a segment. -/
def receiveAck (pcb : TcpPcb) (inseg : Inseg) : TcpPcb :=
  let rightWndEdge := u32 (pcb.sndWnd + pcb.sndWl2)
  let ackno := inseg.hdr.ackno
  let pcb := pcb.updateWindow inseg.hdr
  let pcb :=
    if leq ackno pcb.lastack then pcb.repeatAck rightWndEdge inseg
    else if between ackno (u32 (pcb.lastack + 1)) pcb.sndNxt then pcb.ackNewData ackno
    else { pcb with acked := 0 }
  freeUnsent ackno pcb.unsent pcb

/-! ## Data -/

/-- `tcp_ack` -/
def tcpAck (pcb : TcpPcb) : TcpPcb :=
  if pcb.ackDelay then { pcb with ackDelay := false, ackNow := true }
  else { pcb with ackDelay := true }

/-- `tcp_ack_now` -/
def tcpAckNow (pcb : TcpPcb) : TcpPcb := { pcb with ackNow := true }

/-- `tcp_update_rcv_ann_wnd` -/
def tcpUpdateRcvAnnWnd (pcb : TcpPcb) : Nat × TcpPcb :=
  let newRightEdge := u32 (pcb.rcvNxt + pcb.rcvWnd)
  if geq newRightEdge (u32 (pcb.rcvAnnRightEdge + min (tcpWnd / 2) pcb.mss)) then
    (sub32 newRightEdge pcb.rcvAnnRightEdge, { pcb with rcvAnnWnd := pcb.rcvWnd })
  else if gt pcb.rcvNxt pcb.rcvAnnRightEdge then (0, { pcb with rcvAnnWnd := 0 })
  else
    let newRcvAnnWnd := sub32 pcb.rcvAnnRightEdge pcb.rcvNxt
    let pcb := pcb.check (newRcvAnnWnd ≤ 65535)
    (0, { pcb with rcvAnnWnd := u16 newRcvAnnWnd })

/-- `TCP_WND_UPDATE_THRESHOLD` -/
def tcpWndUpdateThreshold : Nat := tcpWnd / 4

/-- `tcp_recved` -/
def tcpRecved (pcb : TcpPcb) (len : Nat) (mem : Bool) : TcpPcb :=
  let pcb := pcb.check (len ≤ 65535 - pcb.rcvWnd)
  let rcvWnd := u16 (pcb.rcvWnd + len)
  let pcb := { pcb with rcvWnd := if tcpWnd < rcvWnd then tcpWnd else rcvWnd }
  let update := pcb.tcpUpdateRcvAnnWnd
  if tcpWndUpdateThreshold ≤ update.1 then update.2.tcpAckNow.tcpOutput mem else update.2

/-- What a segment leads to: the data handed to the application and the flags of `recv_flags`. -/
structure Received where
  pcb : TcpPcb
  recvData : Option (List (List UInt8))
  gotFin : Bool

/-- The front of a segment that repeats received data is cut off. -/
def trimInseg (pcb : TcpPcb) (inseg : Inseg) : Inseg :=
  let off := sub32 pcb.rcvNxt inseg.hdr.seqno
  { hdr := { inseg.hdr with seqno := pcb.rcvNxt }
    len := inseg.len - u16 off
    p := trimFront inseg.p off }

/-- A segment that is longer than the window is cut off at its end. -/
def fitInseg (pcb : TcpPcb) (inseg : Inseg) : Inseg :=
  if pcb.rcvWnd < inseg.tcpLen then
    let len := if inseg.hdr.syn then pcb.rcvWnd - 1 else pcb.rcvWnd
    { hdr := { inseg.hdr with fin := false }, len, p := pbufRealloc inseg.p len }
  else inseg

/-- The data of the segment are the next ones. -/
def acceptData (pcb : TcpPcb) (inseg : Inseg) : Received :=
  let long : Bool := pcb.rcvWnd < inseg.tcpLen
  let inseg := pcb.fitInseg inseg
  let tcplen := inseg.tcpLen
  let pcb :=
    if long then pcb.check (u32 (inseg.hdr.seqno + tcplen) = u32 (pcb.rcvNxt + pcb.rcvWnd)) else pcb
  let pcb := { pcb with rcvNxt := u32 (inseg.hdr.seqno + tcplen) }
  let pcb := pcb.check (tcplen ≤ pcb.rcvWnd)
  let pcb := { pcb with rcvWnd := toU16 (pcb.rcvWnd - tcplen) }
  let pcb := pcb.tcpUpdateRcvAnnWnd.2
  { pcb := pcb.tcpAck
    recvData := if 0 < inseg.p.flatten.length then some inseg.p else none
    gotFin := inseg.hdr.fin }

/-- A segment that may be the next one; `mem` says whether there is memory for an empty ACK. -/
def receiveNext (pcb : TcpPcb) (inseg : Inseg) (rightEdge : Nat) (mem : Bool) : Received :=
  if between inseg.hdr.seqno pcb.rcvNxt rightEdge then
    if pcb.rcvNxt = inseg.hdr.seqno then pcb.acceptData inseg
    else { pcb := pcb.tcpSendEmptyAck mem, recvData := none, gotFin := false }
  else { pcb := pcb.tcpSendEmptyAck mem, recvData := none, gotFin := false }

/-- What `tcp_receive` does with the data of a segment. -/
def receiveData (pcb : TcpPcb) (inseg : Inseg) (mem : Bool) : Received :=
  let tcplen := inseg.tcpLen
  let seqno := inseg.hdr.seqno
  let rightEdge := u32 (pcb.rcvNxt + pcb.rcvWnd + 4294967295)
  if 0 < tcplen ∧ pcb.state.toNat < TcpState.closeWait.toNat then
    if between pcb.rcvNxt (u32 (seqno + 1)) (u32 (seqno + tcplen + 4294967295)) then
      let off := sub32 pcb.rcvNxt seqno
      ((pcb.check (off < 32767)).check (off ≤ inseg.p.flatten.length)).receiveNext
        (pcb.trimInseg inseg) rightEdge mem
    else if lt seqno pcb.rcvNxt then pcb.tcpAckNow.receiveNext inseg rightEdge mem
    else pcb.receiveNext inseg rightEdge mem
  else
    { pcb := if between seqno pcb.rcvNxt rightEdge then pcb else pcb.tcpAckNow
      recvData := none
      gotFin := false }

/-- `tcp_receive` -/
def tcpReceive (pcb : TcpPcb) (inseg : Inseg) (mem : Bool) : Received :=
  let pcb := pcb.check (TcpState.established.toNat ≤ pcb.state.toNat)
  let pcb := if inseg.hdr.ack then pcb.receiveAck inseg else pcb
  pcb.receiveData inseg mem

/-! ## Options -/

/-- The MSS that is used when the peer asks for `mss`. -/
def limitMss (mss : Nat) : Nat := if tcpMss < mss ∨ mss = 0 then tcpMss else mss

/-- The loop of `tcp_parseopt` over the options that are left, for the value of `pcb->mss`. No
option is shorter than a byte, so the number of bytes is fuel enough. -/
def parseOpts : Nat → List UInt8 → Nat → Nat
  | fuel + 1, opt :: opts, mss =>
    if opt = 0 then mss
    else if opt = 1 then parseOpts fuel opts mss
    else if opt = 2 then
      match opts with
      | len :: hi :: lo :: opts =>
        if len = 4 then parseOpts fuel opts (limitMss (hi.toNat * 256 + lo.toNat)) else mss
      | _ => mss
    else
      match opts with
      | len :: _ => if len = 0 then mss else parseOpts fuel ((opt :: opts).drop len.toNat) mss
      -- whatever is read behind the options, they are at their end
      | [] => mss
  | _, _, mss => mss

/-- `tcp_parseopt` -/
def tcpParseopt (pcb : TcpPcb) (hdr : Header) : TcpPcb :=
  { pcb with mss := parseOpts hdr.opts.length hdr.opts pcb.mss }

/-! ## The states of a connection -/

/-- `tcp_pcb_purge`, of what is modelled. -/
def tcpPcbPurge (pcb : TcpPcb) : TcpPcb :=
  { pcb with rtime := -1, unsent := [], unacked := [], unsentOversize := 0 }

/-- What becomes of a control block: `TF_RESET` and `TF_CLOSED` of `recv_flags`. -/
inductive Ending
  | alive | reset | closed
  deriving DecidableEq, Repr

/-- `tcp_process` in the states from ESTABLISHED on. -/
def tcpProcess (pcb : TcpPcb) (inseg : Inseg) (mem : Bool) : Received × Ending :=
  let hdr := inseg.hdr
  let idle (pcb : TcpPcb) : Received := { pcb, recvData := none, gotFin := false }
  let timeWait (r : Received) : Received :=
    { r with pcb := { r.pcb.tcpAckNow.tcpPcbPurge with state := .timeWait } }
  if hdr.rst then
    if between hdr.seqno pcb.rcvNxt (u32 (pcb.rcvNxt + pcb.rcvWnd)) then
      (idle { pcb with ackDelay := false }, .reset)
    else (idle pcb, .alive)
  else if hdr.syn then (idle pcb.tcpAckNow, .alive)
  else
    let pcb := pcb.tcpParseopt hdr
    let r := pcb.tcpReceive inseg mem
    let finAcked : Bool := hdr.ack ∧ hdr.ackno = r.pcb.sndNxt
    match pcb.state with
    | .established | .closeWait =>
      if r.gotFin then ({ r with pcb := { r.pcb.tcpAckNow with state := .closeWait } }, .alive)
      else (r, .alive)
    | .finWait1 =>
      if r.gotFin then
        if finAcked then (timeWait r, .alive)
        else ({ r with pcb := { r.pcb.tcpAckNow with state := .closing } }, .alive)
      else if finAcked then ({ r with pcb := { r.pcb with state := .finWait2 } }, .alive)
      else (r, .alive)
    | .finWait2 => if r.gotFin then (timeWait r, .alive) else (r, .alive)
    | .closing =>
      if finAcked then
        ({ r with pcb := { r.pcb.tcpPcbPurge with state := .timeWait } }, .alive)
      else (r, .alive)
    | .lastAck => if finAcked then (r, .closed) else (r, .alive)
    | _ => (idle pcb, .alive)

/-- A FIN is enqueued, and the connection enters the next state. -/
def closeTo (pcb : TcpPcb) (state : TcpState) (mem : Nat → Bool) : Err × TcpPcb :=
  match pcb.tcpSendFin mem with
  | (.ok, pcb) => (.ok, { pcb with state }.tcpOutput (mem 2))
  | (err, pcb) => (err, pcb)

/-- `tcp_close_shutdown` where all received data have been read. -/
def tcpCloseShutdown (pcb : TcpPcb) (mem : Nat → Bool) : Err × TcpPcb :=
  match pcb.state with
  | .established => pcb.closeTo .finWait1 mem
  | .closeWait => pcb.closeTo .lastAck mem
  | _ => (.ok, pcb)

end TcpPcb

end Meu1oARM
