import Meu1oARM.Foundation.CString

/-! # The TCP side of a connection

A protocol control block holds what the web server reads and writes of it: the
callbacks it has registered, the argument lwIP hands to them, and the state of
the send buffer. Everything lwIP decides by itself during a callback is an
answer of an `Oracle`. The `trace` of a control block is not part of the C
structure: it records what the server does on the connection, in order.
-/

namespace Meu1oARM

open CString

/-- `err_t` of lwIP. -/
inductive Err
  | ok | mem | buf | timeout | rte | inprogress | val | wouldblock | use | isconn
  | abrt | rst | clsd | conn | arg | netif
  deriving DecidableEq, Repr

/-- The memory a block of data is sent from. -/
inductive Src
  | file | insert
  deriving DecidableEq, Repr

/-- What the server obtains for a connection and has to give back. -/
inductive Resource
  | state (addr : Nat)
  | ssi (id : Nat)
  | pbuf (id : Nat)
  deriving DecidableEq, Repr

/-- The assertions the server makes at run time. -/
inductive Assertion
  | eofNotReached | leftFits | gapFits | tagIndexFits | headerIncluded | parseResult
  deriving DecidableEq, Repr

/-- An access the C program must never make. -/
inductive Fault
  | freedState | closedPcb
  deriving DecidableEq, Repr

inductive Action
  | write (src : Src) (off : Nat) (data : List UInt8)
  | refused (len : Nat) (err : Err)
  | tagInsert (pos : Nat) (name : List UInt8) (insert : List UInt8)
  | findFile (uri : List UInt8) (is09 : Bool)
  | opened (data : List UInt8) (is09 : Bool) (start : Nat) (ssi : Bool)
  | queued (id : Nat)
  | alloc (r : Resource)
  | free (r : Resource)
  | eof
  | closed (err : Err)
  | aborted
  | output
  | assertFailed (a : Assertion)
  | fault (f : Fault)
  deriving DecidableEq, Repr

/-- The argument that lwIP passes to the callbacks of a control block. -/
inductive Arg
  | null
  | listen
  | state (addr : Nat)
  deriving DecidableEq, Repr

inductive PcbStatus
  | absent | opened | closed | aborted | reset
  deriving DecidableEq, Repr

/-- The answers of lwIP and of the allocator during one callback. `write k` is
the verdict on the `k`-th `tcp_write` of the connection, `queuelen k` the length
of the send queue after it, and `slack` what lies behind a received payload. A
`tcp_close` fails only for want of memory, when no FIN can be enqueued. -/
structure Oracle where
  write : Nat → Err
  queuelen : Nat → UInt16
  closeFails : Bool
  stateAlloc : Bool
  ssiAlloc : Bool
  slack : Mem

structure Pcb where
  status : PcbStatus
  callbackArg : Arg
  recv : Bool
  sent : Bool
  errf : Bool
  poll : Bool
  sndBuf : UInt16
  sndQueuelen : UInt16
  mss : UInt16
  writes : Nat
  nextId : Nat
  trace : List Action

/-- `TCP_SND_QUEUELEN` of lwipopts.h. -/
def tcpSndQueuelenMax : Nat := 12

/-- `TCP_WND` of lwipopts.h, the most a peer may have sent unacknowledged. -/
def tcpWnd : Nat := 2 * 1460

namespace Pcb

def log (pcb : Pcb) (a : Action) : Pcb := { pcb with trace := pcb.trace ++ [a] }

/-- Every access to a control block that lwIP may have deallocated is recorded. -/
def touch (pcb : Pcb) : Pcb :=
  if pcb.status = .opened then pcb else pcb.log (.fault .closedPcb)

/-- `LWIP_ASSERT`. -/
def check (pcb : Pcb) (cond : Bool) (a : Assertion) : Pcb :=
  if cond then pcb else pcb.log (.assertFailed a)

end Pcb

/-- `tcp_write`: all of the data or nothing, and never more than the send buffer takes. -/
def tcpWrite (o : Oracle) (pcb : Pcb) (src : Src) (off : Nat) (arg : Mem) (len : Nat) :
    Err × Pcb :=
  let pcb := pcb.touch
  let verdict :=
    if o.write pcb.writes = .ok ∧ pcb.sndBuf.toNat < len then .mem else o.write pcb.writes
  if verdict = .ok then
    (.ok, { pcb with
      sndBuf := UInt16.ofNat (pcb.sndBuf.toNat - len)
      sndQueuelen := o.queuelen pcb.writes
      writes := pcb.writes + 1
      trace := pcb.trace ++ [.write src off (bytes arg len)] })
  else
    (verdict, { pcb with
      writes := pcb.writes + 1
      trace := pcb.trace ++ [.refused len verdict] })

def tcpArg (pcb : Pcb) (arg : Arg) : Pcb := { pcb.touch with callbackArg := arg }

def tcpRecv (pcb : Pcb) (set : Bool) : Pcb := { pcb.touch with recv := set }

def tcpSent (pcb : Pcb) (set : Bool) : Pcb := { pcb.touch with sent := set }

def tcpErr (pcb : Pcb) (set : Bool) : Pcb := { pcb.touch with errf := set }

def tcpPoll (pcb : Pcb) (set : Bool) : Pcb := { pcb.touch with poll := set }

/-- `tcp_recved` only moves the receive window, which the server never reads. -/
def tcpRecved (pcb : Pcb) : Pcb := pcb.touch

def tcpOutput (pcb : Pcb) : Pcb := pcb.touch.log .output

/-- The answer of `tcp_close`. -/
def Oracle.close (o : Oracle) : Err := if o.closeFails then .mem else .ok

/-- `tcp_close`: the control block is given back to lwIP unless an error is returned. -/
def tcpClose (o : Oracle) (pcb : Pcb) : Err × Pcb :=
  let pcb := pcb.touch.log (.closed o.close)
  (o.close, if o.close = .ok then { pcb with status := .closed } else pcb)

/-- What sending a file does on a connection, apart from ending it. -/
def Action.isSending : Action → Bool
  | .write .. | .refused .. | .tagInsert .. => true
  | .assertFailed .leftFits | .assertFailed .gapFits | .assertFailed .tagIndexFits => true
  | _ => false

/-- The control block `q` is `p` after some sending. -/
def Pcb.Sends (p q : Pcb) : Prop :=
  ∃ acts, (∀ a ∈ acts, a.isSending) ∧
    q = { p with
      sndBuf := q.sndBuf, sndQueuelen := q.sndQueuelen, writes := q.writes,
      trace := p.trace ++ acts }

/-- What the server has enqueued on a connection. -/
def Action.sentBytes : Action → List UInt8
  | .write _ _ data => data
  | _ => []

def enqueued (trace : List Action) : List UInt8 := trace.flatMap Action.sentBytes

/-- The inserts that the scanner has fetched, with the offsets of the tags' ends. -/
def Action.insertAt : Action → Option (Nat × List UInt8)
  | .tagInsert pos _ insert => some (pos, insert)
  | _ => none

def tagInserts (trace : List Action) : List (Nat × List UInt8) := trace.filterMap Action.insertAt

/-- The file a response is made of: its contents, whether the request is one of HTTP/0.9, the
offset of the first byte of the response, and whether the file is scanned for tags. -/
structure Opening where
  data : List UInt8
  is09 : Bool
  start : Nat
  ssi : Bool
  deriving DecidableEq, Repr

def Action.opening : Action → Option Opening
  | .opened data is09 start ssi => some { data, is09, start, ssi }
  | _ => none

/-- The files that have been opened on a connection. -/
def openings (trace : List Action) : List Opening := trace.filterMap Action.opening

@[simp] theorem enqueued_nil : enqueued [] = [] := rfl

@[simp] theorem enqueued_append (s t : List Action) :
    enqueued (s ++ t) = enqueued s ++ enqueued t := by
  simp [enqueued]

@[simp] theorem enqueued_cons (a : Action) (t : List Action) :
    enqueued (a :: t) = a.sentBytes ++ enqueued t := by
  simp [enqueued]

@[simp] theorem tagInserts_append (s t : List Action) :
    tagInserts (s ++ t) = tagInserts s ++ tagInserts t := by
  simp [tagInserts]

@[simp] theorem tagInserts_nil : tagInserts [] = [] := rfl

@[simp] theorem tagInserts_cons (a : Action) (t : List Action) :
    tagInserts (a :: t) = a.insertAt.toList ++ tagInserts t := by
  cases h : a.insertAt <;> simp [tagInserts, h]

@[simp] theorem openings_nil : openings [] = [] := rfl

@[simp] theorem openings_append (s t : List Action) :
    openings (s ++ t) = openings s ++ openings t := by
  simp [openings]

@[simp] theorem openings_cons (a : Action) (t : List Action) :
    openings (a :: t) = a.opening.toList ++ openings t := by
  cases h : a.opening <;> simp [openings, h]

theorem openings_of_sending {acts : List Action} (h : ∀ a ∈ acts, a.isSending) :
    openings acts = [] := by
  refine List.filterMap_eq_nil_iff.mpr fun a ha => ?_
  have hsending := h a ha
  cases a <;> first | rfl | simp [Action.isSending] at hsending

namespace Pcb

theorem touch_of_opened {pcb : Pcb} (hopen : pcb.status = .opened) : pcb.touch = pcb := by
  simp [touch, hopen]

namespace Sends

variable {p q r : Pcb}

theorem refl (p : Pcb) : p.Sends p := ⟨[], by simp, by simp⟩

theorem trans (hpq : p.Sends q) (hqr : q.Sends r) : p.Sends r := by
  obtain ⟨acts, hacts, hq⟩ := hpq
  obtain ⟨more, hmore, hr⟩ := hqr
  refine ⟨acts ++ more, ?_, ?_⟩
  · simp only [List.mem_append]
    rintro a (ha | ha)
    exacts [hacts a ha, hmore a ha]
  · rw [hr, hq]
    simp

/-- One sending action more. -/
theorem log (p : Pcb) {a : Action} (ha : a.isSending) : p.Sends (p.log a) :=
  ⟨[a], by simpa using ha, rfl⟩

theorem check (p : Pcb) {a : Assertion} (ha : (Action.assertFailed a).isSending) (cond : Bool) :
    p.Sends (p.check cond a) := by
  cases cond with
  | true => exact refl p
  | false => exact log p ha

variable (h : p.Sends q)
include h

theorem status_eq : q.status = p.status := by
  obtain ⟨_, _, hq⟩ := h
  rw [hq]

theorem callbackArg_eq : q.callbackArg = p.callbackArg := by
  obtain ⟨_, _, hq⟩ := h
  rw [hq]

theorem nextId_eq : q.nextId = p.nextId := by
  obtain ⟨_, _, hq⟩ := h
  rw [hq]

theorem trace_eq : ∃ acts, (∀ a ∈ acts, a.isSending) ∧ q.trace = p.trace ++ acts := by
  obtain ⟨acts, hacts, hq⟩ := h
  exact ⟨acts, hacts, by rw [hq]⟩

end Sends

@[simp] theorem enqueued_check (p : Pcb) (cond : Bool) (a : Assertion) :
    enqueued (p.check cond a).trace = enqueued p.trace := by
  cases cond <;> simp [check, log, Action.sentBytes]

@[simp] theorem tagInserts_check (p : Pcb) (cond : Bool) (a : Assertion) :
    tagInserts (p.check cond a).trace = tagInserts p.trace := by
  cases cond <;> simp [check, log, tagInserts, Action.insertAt]

end Pcb

end Meu1oARM
