import Meu1oARM.Foundation.Slice
import Meu1oARM.Lwip.TcpIn

/-! # What the send queues hold

Everything that takes a sequence number is a symbol: a byte, or the FIN behind the last
one. The queues hold the symbols of the stream from the first one that is not
acknowledged on, in segments whose sequence numbers follow each other.
-/

namespace Meu1oARM

open Machine Serial

/-- What the bytes written so far, and the end of the stream, take of the sequence space. -/
def symbols (written : List UInt8) (fin : Bool) : List (Option UInt8) :=
  written.map some ++ if fin then [none] else []

theorem length_symbols (data : List UInt8) (fin : Bool) :
    (symbols data fin).length = data.length + if fin then 1 else 0 := by
  rw [symbols, List.length_append, List.length_map]
  split <;> rfl

theorem length_symbols_le (data : List UInt8) (fin : Bool) :
    (symbols data fin).length ≤ data.length + 1 := by
  rw [length_symbols]
  split <;> omega

theorem symbols_take (data : List UInt8) (fin : Bool) {n : Nat} (h : n ≤ data.length) :
    symbols (data.take n) false = (symbols data fin).take n := by
  unfold symbols
  rw [List.take_append_of_le_length (by simpa using h), List.map_take]
  simp

theorem symbols_drop (data : List UInt8) (fin : Bool) {n : Nat} (h : n ≤ data.length) :
    symbols (data.drop n) fin = (symbols data fin).drop n := by
  unfold symbols
  rw [List.drop_append_of_le_length (by simpa using h), List.map_drop]

namespace Segment

def symbols (seg : Segment) : List (Option UInt8) := Meu1oARM.symbols seg.data seg.fin

/-- A segment but for the flags of its header that take no sequence number. -/
def core (seg : Segment) : Segment := { seg with psh := false, ack := false }

/-- A segment of the queues, no longer than `limit`. -/
structure Wf (limit : Nat) (seg : Segment) : Prop where
  len : seg.len = seg.data.length
  le : seg.len ≤ limit
  pos : 0 < seg.tcpLen
  syn : seg.syn = false
  bufs : seg.bufs ≠ []

variable {limit : Nat} {seg : Segment}

@[simp] theorem wf_core : seg.core.Wf limit ↔ seg.Wf limit :=
  ⟨fun h => ⟨h.1, h.2, h.3, h.4, h.5⟩, fun h => ⟨h.1, h.2, h.3, h.4, h.5⟩⟩

theorem Wf.mono {limit' : Nat} (h : seg.Wf limit) (hle : limit ≤ limit') : seg.Wf limit' :=
  { h with le := Nat.le_trans h.le hle }

theorem Wf.length_symbols (h : seg.Wf limit) : seg.symbols.length = seg.tcpLen := by
  rw [symbols, Meu1oARM.symbols, tcpLen, h.syn, h.len]
  cases seg.fin <;> simp

theorem Wf.tcpLen_le (h : seg.Wf limit) : seg.tcpLen ≤ limit + 1 := by
  have hle := h.le
  unfold tcpLen
  split <;> omega

end Segment

/-- The sequence numbers of the segments follow each other from position `x` on. -/
def InSequence (base : Nat) : Nat → List Segment → Prop
  | _, [] => True
  | x, seg :: segs => seg.seqno = seqAt base x ∧ InSequence base (x + seg.tcpLen) segs

/-- How much of the sequence space the segments take. -/
def extent : List Segment → Nat
  | [] => 0
  | seg :: segs => seg.tcpLen + extent segs

/-- How many pbufs the segments consist of. -/
def pbufCount : List Segment → Nat
  | [] => 0
  | seg :: segs => seg.bufs.length + pbufCount segs

variable {base x limit : Nat} {segs segs' : List Segment} {seg : Segment}

@[simp] theorem extent_nil : extent [] = 0 := rfl

@[simp] theorem extent_cons (seg : Segment) (segs : List Segment) :
    extent (seg :: segs) = seg.tcpLen + extent segs := rfl

@[simp] theorem extent_append (segs segs' : List Segment) :
    extent (segs ++ segs') = extent segs + extent segs' := by
  induction segs with
  | nil => simp
  | cons seg segs ih => simp [ih, Nat.add_assoc]

@[simp] theorem pbufCount_nil : pbufCount [] = 0 := rfl

@[simp] theorem pbufCount_cons (seg : Segment) (segs : List Segment) :
    pbufCount (seg :: segs) = seg.bufs.length + pbufCount segs := rfl

@[simp] theorem pbufCount_append (segs segs' : List Segment) :
    pbufCount (segs ++ segs') = pbufCount segs + pbufCount segs' := by
  induction segs with
  | nil => simp
  | cons seg segs ih => simp [ih, Nat.add_assoc]

@[simp] theorem extent_map_core (segs : List Segment) :
    extent (segs.map Segment.core) = extent segs := by
  induction segs with
  | nil => rfl
  | cons seg segs ih => exact congrArg (seg.tcpLen + ·) ih

@[simp] theorem pbufCount_map_core (segs : List Segment) :
    pbufCount (segs.map Segment.core) = pbufCount segs := by
  induction segs with
  | nil => rfl
  | cons seg segs ih => exact congrArg (seg.bufs.length + ·) ih

theorem symbols_map_core (segs : List Segment) :
    (segs.map Segment.core).flatMap Segment.symbols = segs.flatMap Segment.symbols := by
  rw [List.flatMap_map]
  rfl

theorem pbufCount_eq_zero (h : ∀ seg ∈ segs, seg.Wf limit) : pbufCount segs = 0 ↔ segs = [] := by
  cases segs with
  | nil => simp
  | cons seg segs =>
      have hbufs := List.length_pos_iff.mpr (h seg List.mem_cons_self).bufs
      simp only [pbufCount_cons, reduceCtorEq, iff_false]
      omega

theorem length_flatMap_symbols (h : ∀ seg ∈ segs, seg.Wf limit) :
    (segs.flatMap Segment.symbols).length = extent segs := by
  induction segs with
  | nil => rfl
  | cons seg segs ih =>
      obtain ⟨hseg, hsegs⟩ := List.forall_mem_cons.mp h
      rw [List.flatMap_cons, List.length_append, hseg.length_symbols, ih hsegs, extent_cons]

namespace InSequence

theorem append_iff :
    InSequence base x (segs ++ segs') ↔
      InSequence base x segs ∧ InSequence base (x + extent segs) segs' := by
  induction segs generalizing x with
  | nil => simp [InSequence]
  | cons seg segs ih =>
      simp only [List.cons_append, InSequence, ih, extent_cons, and_assoc, Nat.add_assoc]

theorem seqno_eq (h : InSequence base x (segs ++ seg :: segs')) :
    seg.seqno = seqAt base (x + extent segs) :=
  (append_iff.mp h).2.1

@[simp] theorem map_core_iff :
    InSequence base x (segs.map Segment.core) ↔ InSequence base x segs := by
  induction segs generalizing x with
  | nil => rfl
  | cons seg segs ih => exact and_congr Iff.rfl ih

end InSequence

/-- A segment of a queue that holds a stream from `x` on. -/
theorem isSlice_of_eq {stream : List (Option UInt8)} (hwf : ∀ seg ∈ segs, seg.Wf limit)
    (hcontent : (segs ++ seg :: segs').flatMap Segment.symbols = stream.drop x) :
    IsSlice stream (x + extent segs) seg.symbols := by
  have hall : IsSlice stream x ((segs ++ seg :: segs').flatMap Segment.symbols) :=
    hcontent ▸ IsSlice.drop_self stream x
  rw [List.flatMap_append, List.flatMap_cons] at hall
  have hseg := hall.right.left
  rwa [length_flatMap_symbols hwf] at hseg

namespace TcpPcb

/-- The longest segment that `tcp_write` makes. -/
def mssLocal (pcb : TcpPcb) : Nat := min pcb.mss (pcb.sndWndMax / 2)

/-- Everything written and not yet freed. -/
def queue (pcb : TcpPcb) : List Segment := pcb.unacked ++ pcb.unsent

/-- What an open connection has told its peer: the symbols of its stream. -/
def stream (pcb : TcpPcb) (written : List UInt8) : List (Option UInt8) :=
  symbols written pcb.finQueued

/-- The position of a connection in its stream: its sequence numbers start at `base`, the queue at
`start`, everything in front of `una` is acknowledged and everything in front of `nxt` has been
sent. -/
structure Progress where
  base : Nat
  written : List UInt8
  start : Nat
  una : Nat
  nxt : Nat

/-- The send queues hold the stream from `start` on, and the counters agree with them. -/
structure Holding (g : Progress) (pcb : TcpPcb) : Prop where
  wf : ∀ seg ∈ pcb.queue, seg.Wf pcb.mssLocal
  queued : InSequence g.base g.start pcb.queue
  content : pcb.queue.flatMap Segment.symbols = (pcb.stream g.written).drop g.start
  start_le : g.start ≤ g.una
  una_le : g.una ≤ g.nxt
  sent : g.start + extent pcb.unacked ≤ g.nxt
  nxt_le : g.nxt ≤ (pcb.stream g.written).length
  lastack : pcb.lastack = seqAt g.base g.una
  sndNxt : pcb.sndNxt = seqAt g.base g.nxt
  sndLbb : pcb.finQueued = false → pcb.sndLbb = seqAt g.base g.written.length
  room_le : tcpSndBuf + g.una ≤ pcb.sndBuf + (pcb.stream g.written).length
  room_ge : pcb.sndBuf + (pcb.stream g.written).length ≤
    tcpSndBuf + g.una + if pcb.finQueued then 1 else 0
  queuelen : pcb.sndQueuelen = pbufCount pcb.queue
  queuelen_le : pcb.sndQueuelen ≤ tcpSndQueuelenMax
  oversize_none : pcb.unsent = [] → pcb.unsentOversize = 0
  oversize : ∀ seg ∈ pcb.unsent.getLast?, seg.len + pcb.unsentOversize ≤ pcb.mssLocal ∧
    ∀ b ∈ seg.bufs.getLast?, pcb.unsentOversize ≤ b.spare
  shut : pcb.finQueued = true → pcb.state ≠ .established ∧ pcb.state ≠ .closeWait ∧
    pcb.state ≠ .synSent ∧ pcb.state ≠ .synRcvd
  mss_pos : 0 < pcb.mss
  mss_le : pcb.mss ≤ tcpMss

/-- The queues start with the segment that has the first symbol that is not acknowledged. -/
structure Pending (g : Progress) (pcb : TcpPcb) : Prop extends Holding g pcb where
  head : ∀ seg ∈ pcb.queue.head?, g.una < g.start + seg.tcpLen

/-- A control block with nothing but what `Pending` reads. -/
def sendView (pcb : TcpPcb) : TcpPcb := { pcb with
  ackDelay := false, ackNow := false, infr := false, nodelay := false, nagleMemErr := false
  rtime := 0, dupacks := 0, cwnd := 0, ssthresh := 0, nrtx := 0
  rcvNxt := 0, rcvWnd := 0, rcvAnnWnd := 0, rcvAnnRightEdge := 0
  sndWl1 := 0, sndWl2 := 0, sndWnd := 0, acked := 0
  unsent := pcb.unsent.map Segment.core
  unacked := pcb.unacked.map Segment.core
  inInput := false, asserted := true, returned := true, wire := [] }

variable {pcb pcb' : TcpPcb} {g : Progress}

theorem sendView_queue (pcb : TcpPcb) : pcb.sendView.queue = pcb.queue.map Segment.core :=
  List.map_append.symm

theorem holding_sendView : Holding g pcb.sendView ↔ Holding g pcb := by
  have hwf : (∀ seg ∈ pcb.sendView.queue, seg.Wf pcb.sendView.mssLocal) ↔
      ∀ seg ∈ pcb.queue, seg.Wf pcb.mssLocal := by
    rw [sendView_queue, List.forall_mem_map]
    simp only [Segment.wf_core]
    rfl
  have hover : (∀ seg ∈ pcb.sendView.unsent.getLast?,
        seg.len + pcb.sendView.unsentOversize ≤ pcb.sendView.mssLocal ∧
          ∀ b ∈ seg.bufs.getLast?, pcb.sendView.unsentOversize ≤ b.spare) ↔
      ∀ seg ∈ pcb.unsent.getLast?, seg.len + pcb.unsentOversize ≤ pcb.mssLocal ∧
        ∀ b ∈ seg.bufs.getLast?, pcb.unsentOversize ≤ b.spare := by
    simp only [sendView, List.getLast?_map]
    cases pcb.unsent.getLast? with
    | none => simp
    | some seg => simp [Segment.core, mssLocal]
  constructor
  · intro h
    refine ⟨hwf.mp h.wf, ?_, ?_, h.start_le, h.una_le, ?_, h.nxt_le, h.lastack, h.sndNxt, h.sndLbb,
      h.room_le, h.room_ge, ?_, h.queuelen_le, ?_, hover.mp h.oversize, h.shut, h.mss_pos, h.mss_le⟩
    · simpa [sendView_queue] using h.queued
    · rw [← symbols_map_core, ← sendView_queue]
      exact h.content
    · simpa [sendView] using h.sent
    · rw [← pbufCount_map_core, ← sendView_queue]
      exact h.queuelen
    · intro hnil
      exact h.oversize_none (by simp [sendView, hnil])
  · intro h
    refine ⟨hwf.mpr h.wf, ?_, ?_, h.start_le, h.una_le, ?_, h.nxt_le, h.lastack, h.sndNxt, h.sndLbb,
      h.room_le, h.room_ge, ?_, h.queuelen_le, ?_, hover.mpr h.oversize, h.shut, h.mss_pos, h.mss_le⟩
    · simpa [sendView_queue] using h.queued
    · rw [sendView_queue, symbols_map_core]
      exact h.content
    · simpa [sendView] using h.sent
    · rw [sendView_queue, pbufCount_map_core]
      exact h.queuelen
    · intro hnil
      exact h.oversize_none (List.map_eq_nil_iff.mp hnil)

theorem pending_sendView : Pending g pcb.sendView ↔ Pending g pcb := by
  have hhead : (∀ seg ∈ pcb.sendView.queue.head?, g.una < g.start + seg.tcpLen) ↔
      ∀ seg ∈ pcb.queue.head?, g.una < g.start + seg.tcpLen := by
    rw [sendView_queue, List.head?_map]
    cases pcb.queue.head? with
    | none => simp
    | some seg => simp [Segment.core, Segment.tcpLen]
  constructor
  · intro h
    exact ⟨holding_sendView.mp h.toHolding, hhead.mp h.head⟩
  · intro h
    exact ⟨holding_sendView.mpr h.toHolding, hhead.mpr h.head⟩

theorem Holding.congr (h : Holding g pcb) (heq : pcb'.sendView = pcb.sendView) :
    Holding g pcb' := by
  rw [← holding_sendView] at h ⊢
  rw [heq]
  exact h

namespace Holding

/-- Before a FIN is enqueued, no segment carries one. -/
theorem fin_eq_false (h : Holding g pcb) (hfin : pcb.finQueued = false) {seg : Segment}
    (hmem : seg ∈ pcb.queue) : seg.fin = false := by
  by_contra hne
  have hnone : none ∈ pcb.queue.flatMap Segment.symbols := by
    refine List.mem_flatMap.mpr ⟨seg, hmem, ?_⟩
    simpa [Segment.symbols, symbols] using hne
  rw [h.content] at hnone
  have hstream := List.mem_of_mem_drop hnone
  simp [stream, symbols, hfin] at hstream

theorem extent_queue (h : Holding g pcb) :
    extent pcb.queue = (pcb.stream g.written).length - g.start := by
  rw [← length_flatMap_symbols h.wf, h.content, List.length_drop]

theorem mssLocal_le (h : Holding g pcb) : pcb.mssLocal ≤ tcpMss :=
  Nat.le_trans (Nat.min_le_left _ _) h.mss_le

/-- All that matters lies in a small part of the sequence space. -/
theorem stream_length_le (h : Holding g pcb) :
    (pcb.stream g.written).length ≤ g.una + (tcpSndBuf + 1) := by
  have hroom := h.room_ge
  have hone : (if pcb.finQueued then 1 else 0) ≤ 1 := by split <;> decide
  omega

end Holding

namespace Pending

theorem congr (h : Pending g pcb) (heq : pcb'.sendView = pcb.sendView) : Pending g pcb' := by
  rw [← pending_sendView] at h ⊢
  rw [heq]
  exact h

/-- The queue starts within a segment of the first symbol that is not acknowledged. -/
theorem una_lt (h : Pending g pcb) : g.una ≤ g.start + (tcpMss + 1) := by
  cases hqueue : pcb.queue with
  | nil =>
      have hcontent := h.content
      rw [hqueue] at hcontent
      have hlength := congrArg List.length hcontent
      have hle := h.una_le
      have hle' := h.nxt_le
      have hstart := h.start_le
      simp only [List.flatMap_nil, List.length_nil, List.length_drop] at hlength
      omega
  | cons seg segs =>
      have hhead := h.head seg (by rw [hqueue]; rfl)
      have hlen := (h.wf seg (by rw [hqueue]; exact List.mem_cons_self)).tcpLen_le
      have hmss := h.mssLocal_le
      omega

theorem span_le (h : Pending g pcb) : (pcb.stream g.written).length ≤ g.start + 8192 := by
  have huna := h.una_lt
  have hlength := h.stream_length_le
  have hbuf : tcpSndBuf = 2920 := rfl
  have hmss : tcpMss = 1460 := rfl
  omega

end Pending

/-! ## The sanity checks -/

@[simp] theorem check_true (pcb : TcpPcb) : pcb.check true = pcb := by
  simp [check]

theorem check_of {cond : Bool} (h : cond = true) (pcb : TcpPcb) : pcb.check cond = pcb := by
  rw [h, check_true]

/-- `snd_queuelen` tells whether the queues are empty. -/
theorem Holding.queuelen_eq_zero (h : Holding g pcb) :
    pcb.sndQueuelen = 0 ↔ pcb.unacked = [] ∧ pcb.unsent = [] := by
  rw [h.queuelen, pbufCount_eq_zero h.wf, queue, List.append_eq_nil_iff]

/-- The sanity check behind every change of the queues. -/
theorem Holding.check_queuelen (h : Holding g pcb) :
    (if pcb.sndQueuelen ≠ 0 then pcb.check (pcb.unacked ≠ [] ∨ pcb.unsent ≠ []) else pcb) = pcb := by
  split
  next hne =>
    apply check_of
    rw [decide_eq_true_eq, ← Decidable.not_and_iff_not_or_not, ← h.queuelen_eq_zero]
    exact hne
  next _ => rfl

end TcpPcb

end Meu1oARM
