import Meu1oARM.Foundation.Serial
import Meu1oARM.Lwip.Heap
import Meu1oARM.Lwip.Tcp

/-! # The sending side of TCP

The queues `unsent` and `unacked` of a control block hold the segments that have not
been sent and those that have been sent and not been acknowledged. What is handed to IP
is recorded in `wire`, which is not part of the C structure.
-/

namespace Meu1oARM

open Machine Serial

/-- `enum tcp_state` -/
inductive TcpState
  | closed | listen | synSent | synRcvd | established | finWait1 | finWait2 | closeWait
  | closing | lastAck | timeWait
  deriving DecidableEq, Repr

/-- `TCP_MSS` of lwipopts.h, and `TCP_OVERSIZE` of opt.h. -/
def tcpMss : Nat := 1500 - 40

/-- `TCP_SND_BUF` of lwipopts.h. -/
def tcpSndBuf : Nat := 2 * tcpMss

/-- `TCP_SNDQUEUELEN_OVERFLOW` -/
def tcpSndQueuelenOverflow : Nat := 65535 - 3

/-- A pbuf of a segment: its data, and the bytes allocated behind them. -/
structure SegmentBuf where
  data : List UInt8
  spare : Nat
  deriving DecidableEq, Repr

/-- `struct tcp_seg` with the fields of its header that `tcp_write` and the others set. -/
structure Segment where
  seqno : Nat
  len : Nat
  bufs : List SegmentBuf
  syn : Bool
  fin : Bool
  psh : Bool
  ack : Bool
  deriving DecidableEq, Repr

/-- A segment as it is handed to IP. -/
structure Packet where
  seqno : Nat
  ackno : Nat
  wnd : Nat
  syn : Bool
  fin : Bool
  data : List UInt8
  deriving DecidableEq, Repr

namespace Segment

/-- `TCP_TCPLEN` -/
def tcpLen (seg : Segment) : Nat := seg.len + if seg.fin || seg.syn then 1 else 0

/-- `LWIP_TCP_OPT_LENGTH`: the segments with an option are those with SYN. -/
def optLen (seg : Segment) : Nat := if seg.syn then 4 else 0

/-- `pbuf_clen(seg->p)` -/
def clen (seg : Segment) : Nat := u8 seg.bufs.length

def data (seg : Segment) : List UInt8 := seg.bufs.flatMap SegmentBuf.data

end Segment

structure TcpPcb where
  state : TcpState
  ackDelay : Bool
  ackNow : Bool
  infr : Bool
  finQueued : Bool
  nodelay : Bool
  nagleMemErr : Bool
  mss : Nat
  rtime : Int
  dupacks : Nat
  lastack : Nat
  cwnd : Nat
  ssthresh : Nat
  nrtx : Nat
  rcvNxt : Nat
  rcvWnd : Nat
  rcvAnnWnd : Nat
  rcvAnnRightEdge : Nat
  sndNxt : Nat
  sndWl1 : Nat
  sndWl2 : Nat
  sndLbb : Nat
  sndWnd : Nat
  sndWndMax : Nat
  acked : Nat
  sndBuf : Nat
  sndQueuelen : Nat
  unsentOversize : Nat
  unsent : List Segment
  unacked : List Segment
  /-- `tcp_input_pcb` points to this control block -/
  inInput : Bool
  /-- every `LWIP_ASSERT` so far has held -/
  asserted : Bool
  /-- every loop so far has come to an end -/
  returned : Bool
  wire : List Packet

namespace TcpPcb

/-- `LWIP_ASSERT` -/
def check (pcb : TcpPcb) (cond : Bool) : TcpPcb := { pcb with asserted := pcb.asserted && cond }

/-! ## `tcp_write` -/

/-- `tcp_write_checks` -/
def tcpWriteChecks (pcb : TcpPcb) (len : Nat) : Err × TcpPcb :=
  if pcb.state ≠ .established ∧ pcb.state ≠ .closeWait ∧ pcb.state ≠ .synSent ∧
      pcb.state ≠ .synRcvd then
    (.conn, pcb)
  else if len = 0 then (.ok, pcb)
  else if pcb.sndBuf < len then (.mem, { pcb with nagleMemErr := true })
  else if tcpSndQueuelenMax ≤ pcb.sndQueuelen ∨ tcpSndQueuelenOverflow < pcb.sndQueuelen then
    (.mem, { pcb with nagleMemErr := true })
  else if pcb.sndQueuelen ≠ 0 then (.ok, pcb.check (pcb.unacked ≠ [] ∨ pcb.unsent ≠ []))
  else (.ok, pcb.check (pcb.unacked = [] ∧ pcb.unsent = []))

/-- The size that `tcp_pbuf_prealloc` allocates for `length` bytes. -/
def tcpPbufPrealloc (pcb : TcpPcb) (length maxLength : Nat) (more firstSeg : Bool) : Nat :=
  if length < maxLength ∧ (more ∨ (pcb.nodelay = false ∧
      (firstSeg = false ∨ pcb.unsent ≠ [] ∨ pcb.unacked ≠ []))) then
    min maxLength (memAlignSize (length + tcpMss))
  else length

/-- The local variables of `tcp_write`. `allocs` counts the requests for memory so far. -/
structure Writing where
  pos : Nat
  queuelen : Nat
  oversize : Nat
  oversizeUsed : Nat
  concatP : Option SegmentBuf
  queue : List Segment
  touched : Bool
  allocs : Nat
  deriving DecidableEq, Repr

/-- Phase 1: what fits behind the data of the last unsent segment is copied there. -/
def phase1 (pcb : TcpPcb) (len : Nat) : Writing :=
  if 0 < pcb.unsentOversize then
    let used := if pcb.unsentOversize < len then pcb.unsentOversize else len
    { pos := used, queuelen := pcb.sndQueuelen, oversize := pcb.unsentOversize - used,
      oversizeUsed := used, concatP := none, queue := [], touched := true, allocs := 0 }
  else
    { pos := 0, queuelen := pcb.sndQueuelen, oversize := 0, oversizeUsed := 0, concatP := none,
      queue := [], touched := false, allocs := 0 }

/-- Phase 2: a new pbuf is chained to the last unsent segment, or memory runs out. -/
def phase2 (pcb : TcpPcb) (last : Segment) (mssLocal : Nat) (data : List UInt8) (copy more : Bool)
    (mem : Nat → Bool) (w : Writing) : Option Writing :=
  let space := toU16 (toU16 (mssLocal - (last.len + last.optLen)) - w.oversizeUsed)
  if w.pos < data.length ∧ 0 < space ∧ 0 < last.len then
    let seglen := if space < data.length - w.pos then space else data.length - w.pos
    let bytes := (data.drop w.pos).take seglen
    if mem w.allocs then
      let alloc := if copy then pcb.tcpPbufPrealloc seglen space more true else seglen
      some { w with
        pos := w.pos + seglen
        queuelen := u16 (w.queuelen + 1)
        oversize := if copy then alloc - seglen else w.oversize
        concatP := some { data := bytes, spare := alloc - seglen }
        touched := true
        allocs := w.allocs + 1 }
    else none
  else some w

/-- The buffers of a new segment, how many requests for memory they take, and what is allocated
behind the data. -/
def newBufs (pcb : TcpPcb) (bytes : List UInt8) (mssLocal : Nat) (copy more firstSeg : Bool)
    (oversize : Nat) : List SegmentBuf × Nat × Nat :=
  if copy then
    let spare := pcb.tcpPbufPrealloc bytes.length mssLocal more firstSeg - bytes.length
    ([{ data := bytes, spare }], 1, spare)
  else ([{ data := [], spare := 0 }, { data := bytes, spare := 0 }], 2, oversize)

/-- Phase 3: new segments for the rest. The answer is `none` where memory or the queue runs out;
without fuel the loop would not end. -/
def phase3 (pcb : TcpPcb) (mssLocal : Nat) (data : List UInt8) (copy more : Bool)
    (mem : Nat → Bool) : Nat → Writing → Option (Option Writing)
  | 0, _ => none
  | fuel + 1, w =>
    if w.pos < data.length then
      let left := data.length - w.pos
      let seglen := if left > mssLocal then mssLocal else left
      let bytes := (data.drop w.pos).take seglen
      let (bufs, requests, oversize) :=
        pcb.newBufs bytes mssLocal copy more (w.queue = []) w.oversize
      if (List.range' w.allocs requests).all mem then
        let queuelen := u16 (w.queuelen + u8 bufs.length)
        if tcpSndQueuelenMax < queuelen ∨ tcpSndQueuelenOverflow < queuelen then some none
        else if mem (w.allocs + requests) then
          let seg : Segment :=
            { seqno := u32 (pcb.sndLbb + w.pos), len := seglen, bufs
              syn := false, fin := false, psh := false, ack := false }
          pcb.phase3 mssLocal data copy more mem fuel { w with
            pos := w.pos + seglen
            queuelen
            oversize
            queue := w.queue ++ [seg]
            touched := true
            allocs := w.allocs + requests + 1 }
        else some none
      else some none
    else some (some w)

/-- Bytes are copied behind the data of the last pbuf of a chain. -/
def fillLast (bytes : List UInt8) : List SegmentBuf → List SegmentBuf
  | [] => []
  | [b] => [{ data := b.data ++ bytes, spare := b.spare - bytes.length }]
  | b :: b' :: bs => b :: fillLast bytes (b' :: bs)

/-- What phases 1 and 2 do to the last unsent segment. -/
def extendLast (seg : Segment) (data : List UInt8) (w : Writing) : Segment :=
  { seg with
    len := seg.len + w.oversizeUsed + (w.concatP.elim 0 fun b => b.data.length)
    bufs :=
      (if 0 < w.oversizeUsed then fillLast (data.take w.oversizeUsed) seg.bufs else seg.bufs) ++
        w.concatP.toList }

/-- A list with its last element changed. -/
def mapLast {α : Type} (f : α → α) (xs : List α) : List α :=
  match xs.getLast? with
  | none => []
  | some x => xs.dropLast ++ [f x]

/-- All phases were successful: the control block takes over what has been prepared. -/
def commit (pcb : TcpPcb) (data : List UInt8) (more : Bool) (w : Writing) : TcpPcb :=
  let unsent := mapLast (extendLast · data w) pcb.unsent ++ w.queue
  let pcb := { pcb with
    unsent := if w.touched ∧ more = false then mapLast ({ · with psh := true }) unsent else unsent
    unsentOversize := w.oversize
    sndLbb := u32 (pcb.sndLbb + data.length)
    sndBuf := pcb.sndBuf - data.length
    sndQueuelen := w.queuelen }
  if pcb.sndQueuelen ≠ 0 then pcb.check (pcb.unacked ≠ [] ∨ pcb.unsent ≠ []) else pcb

/-- `memerr` of `tcp_write`: what has been prepared is freed. -/
def outOfMemory (pcb : TcpPcb) : TcpPcb :=
  let pcb := { pcb with nagleMemErr := true }
  if pcb.sndQueuelen ≠ 0 then pcb.check (pcb.unacked ≠ [] ∨ pcb.unsent ≠ []) else pcb

/-- Phases 1 and 2, which are left out where no segment is waiting to be sent. -/
def writeBehind (pcb : TcpPcb) (mssLocal : Nat) (data : List UInt8) (copy more : Bool)
    (mem : Nat → Bool) : Option Writing :=
  match pcb.unsent.getLast? with
  | some last => pcb.phase2 last mssLocal data copy more mem (pcb.phase1 data.length)
  | none =>
    some { pos := 0, queuelen := pcb.sndQueuelen, oversize := 0, oversizeUsed := 0,
           concatP := none, queue := [], touched := false, allocs := 0 }

/-- Phase 3 and what it leads to. -/
def writeSegments (pcb : TcpPcb) (mssLocal : Nat) (data : List UInt8) (copy more : Bool)
    (mem : Nat → Bool) (w : Writing) : Err × TcpPcb :=
  -- the data that are not copied start a pbuf of their own
  let pcb := if w.pos < data.length ∧ copy = false then pcb.check (w.oversize = 0) else pcb
  match pcb.phase3 mssLocal data copy more mem (tcpSndQueuelenMax + 1) w with
  | none => (.ok, { pcb with returned := false })
  | some none => (.mem, pcb.outOfMemory)
  | some (some w) => (.ok, pcb.commit data more w)

/-- `tcp_write` of data that are not at `NULL`; `mem` answers its requests for memory. -/
def tcpWrite (pcb : TcpPcb) (data : List UInt8) (copy more : Bool) (mem : Nat → Bool) :
    Err × TcpPcb :=
  let mssLocal := min pcb.mss (pcb.sndWndMax / 2)
  match pcb.tcpWriteChecks data.length with
  | (.ok, pcb) =>
    let pcb := if pcb.unsent = [] then pcb.check (pcb.unsentOversize = 0) else pcb
    match pcb.writeBehind mssLocal data copy more mem with
    | none => (.mem, pcb.outOfMemory)
    | some w => pcb.writeSegments mssLocal data copy more mem w
  | (err, pcb) => (err, pcb)

/-! ## SYN and FIN -/

/-- `tcp_enqueue_flags` -/
def tcpEnqueueFlags (pcb : TcpPcb) (syn fin : Bool) (mem : Nat → Bool) : Err × TcpPcb :=
  let pcb := pcb.check (syn || fin)
  if tcpSndQueuelenMax ≤ pcb.sndQueuelen ∨ tcpSndQueuelenOverflow < pcb.sndQueuelen then
    (.mem, { pcb with nagleMemErr := true })
  else if pcb.sndBuf = 0 then (.mem, pcb)
  else if mem 0 = false ∨ mem 1 = false then (.mem, { pcb with nagleMemErr := true })
  else
    let seg : Segment :=
      { seqno := pcb.sndLbb, len := 0, bufs := [{ data := [], spare := 0 }]
        syn, fin, psh := false, ack := false }
    let pcb := { pcb with
      unsent := pcb.unsent ++ [seg]
      unsentOversize := 0
      sndLbb := if syn || fin then u32 (pcb.sndLbb + 1) else pcb.sndLbb
      sndBuf := if syn || fin then pcb.sndBuf - 1 else pcb.sndBuf
      finQueued := pcb.finQueued || fin
      sndQueuelen := u16 (pcb.sndQueuelen + seg.clen) }
    (.ok, if pcb.sndQueuelen ≠ 0 then pcb.check (pcb.unacked ≠ [] ∨ pcb.unsent ≠ []) else pcb)

/-- `tcp_send_fin` -/
def tcpSendFin (pcb : TcpPcb) (mem : Nat → Bool) : Err × TcpPcb :=
  match pcb.unsent.getLast? with
  | some last =>
    if last.syn = false ∧ last.fin = false then
      (.ok, { pcb with
        unsent := mapLast ({ · with fin := true }) pcb.unsent
        finQueued := true })
    else pcb.tcpEnqueueFlags false true mem
  | none => pcb.tcpEnqueueFlags false true mem

/-! ## `tcp_output` -/

/-- `tcp_output_segment` -/
def tcpOutputSegment (pcb : TcpPcb) (seg : Segment) : TcpPcb :=
  { pcb with
    rcvAnnRightEdge := u32 (pcb.rcvNxt + pcb.rcvAnnWnd)
    rtime := if pcb.rtime = -1 then 0 else pcb.rtime
    wire := pcb.wire ++ [{
      seqno := seg.seqno
      ackno := pcb.rcvNxt
      wnd := pcb.rcvAnnWnd
      syn := seg.syn
      fin := seg.fin
      data := seg.data }] }

/-- `tcp_send_empty_ack`; `mem` says whether there is memory for it. -/
def tcpSendEmptyAck (pcb : TcpPcb) (mem : Bool) : TcpPcb :=
  if mem then
    { pcb with
      rcvAnnRightEdge := u32 (pcb.rcvNxt + pcb.rcvAnnWnd)
      ackDelay := false
      ackNow := false
      wire := pcb.wire ++ [{
        seqno := pcb.sndNxt
        ackno := pcb.rcvNxt
        wnd := pcb.rcvAnnWnd
        syn := false
        fin := false
        data := [] }] }
  else pcb

/-- `tcp_do_output_nagle` -/
def tcpDoOutputNagle (pcb : TcpPcb) : Bool :=
  pcb.unacked = [] || (pcb.nodelay || pcb.infr) ||
    (match pcb.unsent with
      | [] => false
      | seg :: rest => rest ≠ [] || pcb.mss ≤ seg.len) ||
    (pcb.sndBuf = 0 || tcpSndQueuelenMax ≤ pcb.sndQueuelen)

/-- The segment lies in the window. -/
def inWindow (pcb : TcpPcb) (wnd : Nat) (seg : Segment) : Bool :=
  u32 (sub32 seg.seqno pcb.lastack + seg.len) ≤ wnd

/-- A segment is put in front of the first one that does not come before it. -/
def insertSorted (seg : Segment) : List Segment → List Segment
  | [] => [seg]
  | s :: ss => if lt s.seqno seg.seqno then s :: insertSorted seg ss else seg :: s :: ss

/-- A segment that has been sent is put on the queue of unacknowledged ones. -/
def enqueueUnacked (unacked : List Segment) (seg : Segment) : List Segment :=
  match unacked.getLast? with
  | none => [seg]
  | some useg =>
    if lt seg.seqno useg.seqno then insertSorted seg unacked else unacked ++ [seg]

/-- One segment is taken from `unsent` and sent. -/
def sendSegment (pcb : TcpPcb) (seg : Segment) (rest : List Segment) : TcpPcb :=
  let pcb := { pcb with unsent := rest }
  let established : Bool := pcb.state ≠ .synSent
  let seg := { seg with ack := seg.ack || established }
  let pcb := { pcb with
    ackDelay := pcb.ackDelay && !established
    ackNow := pcb.ackNow && !established }
  let pcb := pcb.tcpOutputSegment seg
  let sndNxt := u32 (seg.seqno + seg.tcpLen)
  { pcb with
    sndNxt := if lt pcb.sndNxt sndNxt then sndNxt else pcb.sndNxt
    unacked := if 0 < seg.tcpLen then enqueueUnacked pcb.unacked seg else pcb.unacked }

/-- The loop of `tcp_output` over `unsent`. -/
def outputLoop (wnd : Nat) : List Segment → TcpPcb → TcpPcb
  | [], pcb => pcb
  | seg :: rest, pcb =>
    if pcb.inWindow wnd seg then
      if pcb.tcpDoOutputNagle = false ∧ pcb.nagleMemErr = false ∧ pcb.finQueued = false then pcb
      else outputLoop wnd rest (pcb.sendSegment seg rest)
    else pcb

/-- There is no segment to send, or the window does not allow it. -/
def nothingFits (pcb : TcpPcb) (wnd : Nat) : Bool :=
  match pcb.unsent with
  | [] => true
  | seg :: _ => !pcb.inWindow wnd seg

/-- `tcp_output`; `mem` says whether there is memory for an empty ACK. -/
def tcpOutput (pcb : TcpPcb) (mem : Bool) : TcpPcb :=
  if pcb.inInput then pcb
  else
    let wnd := min pcb.sndWnd pcb.cwnd
    if pcb.ackNow ∧ pcb.nothingFits wnd then pcb.tcpSendEmptyAck mem
    else
      let pcb := outputLoop wnd pcb.unsent pcb
      { pcb with
        unsentOversize := if pcb.unsent = [] then 0 else pcb.unsentOversize
        nagleMemErr := false }

/-! ## Retransmission -/

/-- `tcp_rexmit_rto` -/
def tcpRexmitRto (pcb : TcpPcb) (mem : Bool) : TcpPcb :=
  if pcb.unacked = [] then pcb
  else
    { pcb with
      unsent := pcb.unacked ++ pcb.unsent
      unacked := []
      nrtx := u8 (pcb.nrtx + 1) }.tcpOutput mem

/-- `tcp_rexmit` -/
def tcpRexmit (pcb : TcpPcb) : TcpPcb :=
  match pcb.unacked with
  | [] => pcb
  | seg :: rest =>
    { pcb with
      unacked := rest
      unsent := insertSorted seg pcb.unsent
      -- with nothing behind it, the segment is the last one
      unsentOversize :=
        if pcb.unsent.all fun s => lt s.seqno seg.seqno then 0 else pcb.unsentOversize
      nrtx := u8 (pcb.nrtx + 1) }

/-- `tcp_rexmit_fast` -/
def tcpRexmitFast (pcb : TcpPcb) : TcpPcb :=
  if pcb.unacked ≠ [] ∧ pcb.infr = false then
    let pcb := pcb.tcpRexmit
    let ssthresh := if pcb.cwnd > pcb.sndWnd then pcb.sndWnd / 2 else pcb.cwnd / 2
    let ssthresh := if ssthresh < 2 * pcb.mss then u16 (2 * pcb.mss) else ssthresh
    { pcb with
      ssthresh
      cwnd := u16 (ssthresh + 3 * pcb.mss)
      infr := true }
  else pcb

/-- What `tcp_slowtmr` does when the retransmission timer has run out. -/
def rexmitTimeout (pcb : TcpPcb) (mem : Bool) : TcpPcb :=
  if pcb.unacked = [] then pcb
  else
    let effWnd := min pcb.cwnd pcb.sndWnd
    let ssthresh := effWnd / 2
    { pcb with
      rtime := 0
      ssthresh := if ssthresh < 2 * pcb.mss then u16 (2 * pcb.mss) else ssthresh
      cwnd := pcb.mss }.tcpRexmitRto mem

/-- `tcp_zero_window_probe`: one byte of the first segment, or its FIN, is sent. -/
def tcpZeroWindowProbe (pcb : TcpPcb) (mem : Bool) : TcpPcb :=
  match (pcb.unacked ++ pcb.unsent).head? with
  | none => pcb
  | some seg =>
    let isFin : Bool := seg.fin ∧ seg.len = 0
    if mem then
      { pcb with
        rcvAnnRightEdge := u32 (pcb.rcvNxt + pcb.rcvAnnWnd)
        wire := pcb.wire ++ [{
          seqno := seg.seqno
          ackno := pcb.rcvNxt
          wnd := pcb.rcvAnnWnd
          syn := false
          fin := isFin
          data := if isFin then [] else seg.data.take 1 }] }
    else pcb

end TcpPcb

end Meu1oARM
