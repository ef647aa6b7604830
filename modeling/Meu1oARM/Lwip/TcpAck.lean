import Meu1oARM.Lwip.TcpSend

/-! # What an acknowledgement does to the queue

The segments that are acknowledged as a whole are freed from the front of the queue on.
The third acknowledgement that says the same starts a fast retransmission, and one that
says nothing new leaves the queue as it is.
-/

namespace Meu1oARM

open Machine Serial

namespace TcpPcb

variable {pcb pcb' : TcpPcb} {g : Progress} {seg : Segment} {segs : List Segment} {ackno : Nat}

/-- A control block without what an acknowledgement changes. -/
def recvView (pcb : TcpPcb) : TcpPcb := { pcb with
  infr := false, nagleMemErr := false, rtime := 0, dupacks := 0, nrtx := 0, cwnd := 0, ssthresh := 0
  lastack := 0, sndNxt := 0, sndWl1 := 0, sndWl2 := 0, sndWnd := 0, sndWndMax := 0, acked := 0
  sndBuf := 0, sndQueuelen := 0, unsentOversize := 0, unsent := [], unacked := [] }

/-- What is known of the peer's window. -/
def window (pcb : TcpPcb) : Nat × Nat × Nat × Nat :=
  (pcb.sndWnd, pcb.sndWndMax, pcb.sndWl1, pcb.sndWl2)

/-! ## One segment -/

/-- A FIN that has been freed. -/
def finFreed (g : Progress) (pcb : TcpPcb) : Nat :=
  if pcb.finQueued ∧ (pcb.stream g.written).length = g.start then 1 else 0

/-- The first segment of the queue is freed, which is acknowledged as a whole. -/
theorem Holding.freeSegment {unacked unsent : List Segment} {oversize : Nat} (h : Holding g pcb)
    (hqueue : pcb.queue = seg :: (unacked ++ unsent)) (hacked : g.start + seg.tcpLen ≤ g.una)
    (hsent : g.start + seg.tcpLen + extent unacked ≤ g.nxt) (hnone : unsent = [] → oversize = 0)
    (hover : ∀ seg ∈ unsent.getLast?, seg.len + oversize ≤ pcb.mssLocal ∧
      ∀ b ∈ seg.bufs.getLast?, oversize ≤ b.spare) :
    Holding { g with start := g.start + seg.tcpLen }
        ({ pcb with unacked, unsent, unsentOversize := oversize }.freeSegment seg) ∧
      ({ pcb with unacked, unsent, unsentOversize := oversize }.freeSegment seg) = { pcb with
        unacked
        unsent
        unsentOversize := oversize
        acked := if pcb.acked ≠ 0 ∧ seg.fin then pcb.acked - 1 else pcb.acked
        sndQueuelen := pcb.sndQueuelen - seg.bufs.length } := by
  have hmax : tcpSndQueuelenMax = 12 := rfl
  have hwf := h.wf
  have hqueued := h.queued
  have hcontent := h.content
  have hcount := h.queuelen
  have hcount_le := h.queuelen_le
  rw [hqueue] at hwf hqueued hcontent hcount
  rw [pbufCount_cons] at hcount
  obtain ⟨hseg, hrest⟩ := List.forall_mem_cons.mp hwf
  have hclen : seg.clen = seg.bufs.length := u8_of_lt (by omega)
  have hlen : toU16 ((pcb.sndQueuelen : Int) - (seg.bufs.length : Nat)) =
      pcb.sndQueuelen - seg.bufs.length := by
    unfold toU16
    omega
  have hnew : Holding { g with start := g.start + seg.tcpLen } { pcb with
      unacked
      unsent
      unsentOversize := oversize
      acked := if pcb.acked ≠ 0 ∧ seg.fin then pcb.acked - 1 else pcb.acked
      sndQueuelen := pcb.sndQueuelen - seg.bufs.length } :=
    { wf := hrest
      queued := hqueued.2
      content := by
        change (unacked ++ unsent).flatMap Segment.symbols = _
        rw [← List.drop_drop]
        change _ = ((pcb.stream g.written).drop g.start).drop seg.tcpLen
        rw [← hcontent, List.flatMap_cons, ← hseg.length_symbols, List.drop_left]
      start_le := hacked
      una_le := h.una_le
      sent := hsent
      nxt_le := h.nxt_le
      lastack := h.lastack
      sndNxt := h.sndNxt
      sndLbb := h.sndLbb
      room_le := h.room_le
      room_ge := h.room_ge
      queuelen := by
        change pcb.sndQueuelen - seg.bufs.length = pbufCount (unacked ++ unsent)
        omega
      queuelen_le := Nat.le_trans (Nat.sub_le _ _) hcount_le
      oversize_none := hnone
      oversize := hover
      shut := h.shut
      mss_pos := h.mss_pos
      mss_le := h.mss_le }
  have heq : ({ pcb with unacked, unsent, unsentOversize := oversize } : TcpPcb).freeSegment seg =
      { pcb with
        unacked
        unsent
        unsentOversize := oversize
        acked := if pcb.acked ≠ 0 ∧ seg.fin then pcb.acked - 1 else pcb.acked
        sndQueuelen := pcb.sndQueuelen - seg.bufs.length } := by
    unfold TcpPcb.freeSegment
    rw [check_of (by simpa [hclen] using (by omega : seg.bufs.length ≤ pcb.sndQueuelen))]
    dsimp only
    rw [hclen, hlen]
    exact hnew.check_queuelen
  rw [heq]
  exact ⟨hnew, rfl⟩

/-! ## The FIN -/

theorem symbols_getElem? (written : List UInt8) (fin : Bool) (i : Nat) :
    (symbols written fin)[i]? = some none ↔ fin = true ∧ i = written.length := by
  unfold symbols
  rcases Nat.lt_trichotomy i written.length with hlt | rfl | hgt
  · rw [List.getElem?_append_left (by simpa using hlt)]
    simp [Nat.ne_of_lt hlt]
  · rw [List.getElem?_append_right (by simp)]
    cases fin <;> simp
  · rw [List.getElem?_append_right (by simpa using Nat.le_of_lt hgt)]
    have hne : i - written.length ≠ 0 := Nat.sub_ne_zero_of_lt hgt
    cases fin <;> simp [Nat.ne_of_gt hgt, hne]

/-- The segment with the FIN is the one that ends where the stream does. -/
theorem Holding.fin_iff (h : Holding g pcb) (hqueue : pcb.queue = seg :: segs) :
    seg.fin = true ↔
      pcb.finQueued = true ∧ (pcb.stream g.written).length = g.start + seg.tcpLen := by
  have hseg := h.wf seg (by rw [hqueue]; exact List.mem_cons_self)
  have hlength : (pcb.stream g.written).length =
      g.written.length + if pcb.finQueued then 1 else 0 := by
    rw [stream, length_symbols]
  have hsymbols : ∀ i, i < seg.tcpLen → (pcb.stream g.written)[g.start + i]? = seg.symbols[i]? := by
    intro i hi
    have hcontent := h.content
    rw [hqueue, List.flatMap_cons] at hcontent
    rw [← List.getElem?_drop, ← hcontent, List.getElem?_append_left]
    rwa [hseg.length_symbols]
  have hlen : seg.tcpLen = seg.data.length + if seg.fin then 1 else 0 := by
    rw [Segment.tcpLen, hseg.syn, hseg.len, Bool.or_false]
  have hpos := hseg.pos
  have hlast := hsymbols (seg.tcpLen - 1) (by omega)
  have hiff : seg.symbols[seg.tcpLen - 1]? = some none ↔ seg.fin = true := by
    rw [Segment.symbols, symbols_getElem?, and_iff_left_iff_imp]
    intro hfin
    rw [hlen, if_pos hfin, Nat.add_sub_cancel]
  rw [← hiff, ← hlast, stream, symbols_getElem?, ← stream]
  constructor
  · rintro ⟨hfin, heq⟩
    rw [if_pos hfin] at hlength
    exact ⟨hfin, by omega⟩
  · rintro ⟨hfin, heq⟩
    rw [if_pos hfin] at hlength
    exact ⟨hfin, by omega⟩

/-! ## The loops -/

/-- Segments are freed from the front of the queue on; `acked` does not count the FIN. -/
structure Frees (g : Progress) (pcb : TcpPcb) (start : Nat) (pcb' : TcpPcb) : Prop where
  holding : Holding { g with start } pcb'
  le : g.start ≤ start
  view : pcb'.recvView = pcb.recvView
  window : pcb'.window = pcb.window
  acked : pcb'.acked + finFreed { g with start } pcb' = pcb.acked + finFreed g pcb

theorem Frees.refl (h : Holding g pcb) : Frees g pcb g.start pcb :=
  ⟨h, Nat.le_refl _, rfl, rfl, rfl⟩

theorem Frees.trans {start start' : Nat} {pcb'' : TcpPcb} (h : Frees g pcb start pcb')
    (h' : Frees { g with start } pcb' start' pcb'') : Frees g pcb start' pcb'' :=
  ⟨h'.holding, Nat.le_trans h.le h'.le, h'.view.trans h.view, h'.window.trans h.window,
    h'.acked.trans h.acked⟩

theorem Frees.stream_eq {start : Nat} (h : Frees g pcb start pcb') : pcb'.stream = pcb.stream := by
  have hfin : pcb'.finQueued = pcb.finQueued := (congrArg finQueued h.view :)
  funext written
  rw [stream, hfin, stream]

theorem Frees.span {start n : Nat} (h : Frees g pcb start pcb')
    (hspan : (pcb.stream g.written).length ≤ g.start + n) :
    (pcb'.stream g.written).length ≤ start + n := by
  have hle := h.le
  rw [h.stream_eq]
  omega

/-- One segment is freed. -/
theorem Holding.frees {unacked unsent : List Segment} {oversize : Nat} (h : Holding g pcb)
    (hqueue : pcb.queue = seg :: (unacked ++ unsent)) (hacked : g.start + seg.tcpLen ≤ g.una)
    (hsent : g.start + seg.tcpLen + extent unacked ≤ g.nxt) (hnone : unsent = [] → oversize = 0)
    (hover : ∀ seg ∈ unsent.getLast?, seg.len + oversize ≤ pcb.mssLocal ∧
      ∀ b ∈ seg.bufs.getLast?, oversize ≤ b.spare)
    (hpos : 0 < pcb.acked + finFreed g pcb) :
    Frees g pcb (g.start + seg.tcpLen)
        ({ pcb with unacked, unsent, unsentOversize := oversize }.freeSegment seg) ∧
      ({ pcb with unacked, unsent, unsentOversize := oversize }.freeSegment seg).unacked = unacked ∧
      ({ pcb with unacked, unsent, unsentOversize := oversize }.freeSegment seg).unsent = unsent := by
  obtain ⟨hnew, heq⟩ := h.freeSegment hqueue hacked hsent hnone hover
  rw [heq] at hnew ⊢
  refine ⟨⟨hnew, Nat.le_add_right _ _, rfl, rfl, ?_⟩, rfl, rfl⟩
  have hfin := h.fin_iff hqueue
  have hsegpos := (h.wf seg (by rw [hqueue]; exact List.mem_cons_self)).pos
  have hle := h.una_le
  have hle' := h.nxt_le
  have hbefore : finFreed g pcb = 0 := if_neg fun hfreed => by omega
  have hafter : finFreed { g with start := g.start + seg.tcpLen } { pcb with
      unacked
      unsent
      unsentOversize := oversize
      acked := if pcb.acked ≠ 0 ∧ seg.fin then pcb.acked - 1 else pcb.acked
      sndQueuelen := pcb.sndQueuelen - seg.bufs.length } = if seg.fin then 1 else 0 := by
    unfold finFreed
    exact if_congr hfin.symm rfl rfl
  rw [hafter, hbefore]
  rw [hbefore] at hpos
  dsimp only
  cases seg.fin with
  | true => simp only [and_true, if_true]; split <;> omega
  | false => simp

theorem freeUnacked_spec (h : Holding g pcb) (hack : ackno = seqAt g.base g.una)
    (hspan : (pcb.stream g.written).length ≤ g.start + 8192)
    (hpos : 0 < pcb.acked + finFreed g pcb) (hunacked : pcb.unacked = segs) :
    ∃ start, Frees g pcb start (freeUnacked ackno segs pcb) ∧
      (freeUnacked ackno segs pcb).unsent = pcb.unsent ∧
      ∀ seg ∈ (freeUnacked ackno segs pcb).unacked.head?, g.una < start + seg.tcpLen := by
  induction segs generalizing pcb g with
  | nil =>
      refine ⟨g.start, .refl h, rfl, ?_⟩
      unfold freeUnacked
      rw [hunacked]
      nofun
  | cons seg rest ih =>
      have hqueue : pcb.queue = seg :: (rest ++ pcb.unsent) := by rw [queue, hunacked]; rfl
      have hqueued := h.queued
      have hsent := h.sent
      have hnxt := h.nxt_le
      have huna := h.una_le
      have hstart := h.start_le
      rw [hqueue] at hqueued
      rw [hunacked, extent_cons, ← Nat.add_assoc] at hsent
      have hnear : Near (g.start + seg.tcpLen) g.una := by constructor <;> omega
      have hiff : leq (u32 (seg.seqno + seg.tcpLen)) ackno = true ↔
          g.start + seg.tcpLen ≤ g.una := by
        rw [hqueued.1, u32_seqAt_add, hack, leq_iff hnear]
      unfold freeUnacked
      split
      next hleq =>
        obtain ⟨hfrees, hunacked', hunsent'⟩ :=
          h.frees hqueue (hiff.mp hleq) hsent h.oversize_none h.oversize hpos
        obtain ⟨start, hfrees', hunsent'', hhead⟩ := ih hfrees.holding hack
          (hfrees.span hspan) (hfrees.acked ▸ hpos) hunacked'
        exact ⟨start, hfrees.trans hfrees', hunsent''.trans hunsent', hhead⟩
      next hleq =>
        rw [hiff, Nat.not_le] at hleq
        refine ⟨g.start, .refl h, rfl, ?_⟩
        rw [hunacked]
        intro s hs
        obtain rfl := Option.some.inj hs
        exact hleq

theorem freeUnsent_spec (h : Holding g pcb) (hack : ackno = seqAt g.base g.una)
    (hspan : (pcb.stream g.written).length ≤ g.start + 8192)
    (hpos : 0 < pcb.acked + finFreed g pcb) (hunacked : pcb.unacked = [])
    (hunsent : pcb.unsent = segs) :
    ∃ start, Frees g pcb start (freeUnsent ackno segs pcb) ∧
      (freeUnsent ackno segs pcb).unacked = [] ∧
      ∀ seg ∈ (freeUnsent ackno segs pcb).unsent.head?, g.una < start + seg.tcpLen := by
  induction segs generalizing pcb g with
  | nil =>
      refine ⟨g.start, .refl h, hunacked, ?_⟩
      unfold freeUnsent
      rw [hunsent]
      nofun
  | cons seg rest ih =>
      have hqueue : pcb.queue = seg :: (pcb.unacked ++ rest) := by rw [queue, hunacked, hunsent]; rfl
      have hqueued := h.queued
      have hnxt := h.nxt_le
      have huna := h.una_le
      have hstart := h.start_le
      have hend := h.extent_queue
      rw [hqueue] at hqueued hend
      rw [extent_cons] at hend
      have hnear : Near g.una (g.start + seg.tcpLen) := by constructor <;> omega
      have hnear' : Near g.una g.nxt := by constructor <;> omega
      have hiff : between ackno (u32 (seg.seqno + seg.tcpLen)) pcb.sndNxt = true ↔
          g.start + seg.tcpLen ≤ g.una := by
        rw [hqueued.1, u32_seqAt_add, hack, h.sndNxt, between_iff hnear hnear']
        exact and_iff_left huna
      have hover : ∀ seg ∈ rest.getLast?,
          seg.len + (if rest = [] then 0 else pcb.unsentOversize) ≤ pcb.mssLocal ∧
            ∀ b ∈ seg.bufs.getLast?, (if rest = [] then 0 else pcb.unsentOversize) ≤ b.spare := by
        intro last hlast
        cases rest with
        | nil => cases hlast
        | cons s ss =>
            rw [if_neg (List.cons_ne_nil _ _)]
            refine h.oversize last ?_
            rw [hunsent, List.getLast?_cons_cons]
            exact hlast
      unfold freeUnsent
      split
      next hbetween =>
        have hsent : g.start + seg.tcpLen + extent pcb.unacked ≤ g.nxt := by
          rw [hunacked]
          exact Nat.le_trans (hiff.mp hbetween) huna
        obtain ⟨hfrees, hunacked', hunsent'⟩ :=
          h.frees hqueue (hiff.mp hbetween) hsent (fun hnil => if_pos hnil) hover hpos
        obtain ⟨start, hfrees', hunacked'', hhead⟩ := ih hfrees.holding hack
          (hfrees.span hspan) (hfrees.acked ▸ hpos) (hunacked'.trans hunacked) hunsent'
        exact ⟨start, hfrees.trans hfrees', hunacked'', hhead⟩
      next hbetween =>
        rw [hiff, Nat.not_le] at hbetween
        refine ⟨g.start, .refl h, hunacked, ?_⟩
        rw [hunsent]
        intro s hs
        obtain rfl := Option.some.inj hs
        exact hbetween

/-- Where the first segment of `unsent` is not acknowledged, nothing is freed. -/
theorem freeUnsent_eq (h : ∀ seg ∈ pcb.unsent.head?,
    between ackno (u32 (seg.seqno + seg.tcpLen)) pcb.sndNxt = false) :
    freeUnsent ackno pcb.unsent pcb = pcb := by
  cases hunsent : pcb.unsent with
  | nil => rfl
  | cons seg rest =>
      unfold freeUnsent
      rw [h seg (by rw [hunsent]; rfl), if_neg (by decide)]

/-! ## New data are acknowledged -/

theorem endRecovery_views (pcb : TcpPcb) : pcb.endRecovery.sendView = pcb.sendView ∧
    pcb.endRecovery.recvView = pcb.recvView ∧ pcb.endRecovery.window = pcb.window ∧
    pcb.endRecovery.lastack = pcb.lastack := by
  unfold endRecovery
  split <;> exact ⟨rfl, rfl, rfl, rfl⟩

theorem growCwnd_views (pcb : TcpPcb) : pcb.growCwnd.sendView = pcb.sendView ∧
    pcb.growCwnd.recvView = pcb.recvView ∧ pcb.growCwnd.window = pcb.window ∧
    pcb.growCwnd.acked = pcb.acked := by
  unfold growCwnd
  dsimp only
  split <;> split <;> exact ⟨rfl, rfl, rfl, rfl⟩

/-- The peer has acknowledged the next `d` symbols. -/
theorem Holding.acknowledge {d : Nat} (h : Holding g pcb) (hle : g.una + d ≤ g.nxt) :
    Holding { g with una := g.una + d }
      { pcb with lastack := seqAt g.base (g.una + d), sndBuf := pcb.sndBuf + d } :=
  { wf := h.wf
    queued := h.queued
    content := h.content
    start_le := Nat.le_add_right_of_le h.start_le
    una_le := hle
    sent := h.sent
    nxt_le := h.nxt_le
    lastack := rfl
    sndNxt := h.sndNxt
    sndLbb := h.sndLbb
    room_le := by
      have hroom := h.room_le
      change tcpSndBuf + (g.una + d) ≤ pcb.sndBuf + d + (pcb.stream g.written).length
      omega
    room_ge := by
      have hroom := h.room_ge
      change pcb.sndBuf + d + (pcb.stream g.written).length ≤
        tcpSndBuf + (g.una + d) + if pcb.finQueued then 1 else 0
      omega
    queuelen := h.queuelen
    queuelen_le := h.queuelen_le
    oversize_none := h.oversize_none
    oversize := h.oversize
    shut := h.shut
    mss_pos := h.mss_pos
    mss_le := h.mss_le }

/-- The queue has come to its end when everything is acknowledged. -/
theorem Pending.finFreed_eq (h : Pending g pcb) :
    finFreed g pcb = if pcb.finQueued ∧ (pcb.stream g.written).length = g.una then 1 else 0 := by
  have hstart := h.start_le
  have hle := Nat.le_trans h.una_le h.nxt_le
  have hextent := h.extent_queue
  have hiff : (pcb.stream g.written).length = g.start ↔ (pcb.stream g.written).length = g.una := by
    cases hqueue : pcb.queue with
    | nil =>
        rw [hqueue, extent_nil] at hextent
        omega
    | cons seg segs =>
        have hhead := h.head seg (by rw [hqueue]; rfl)
        rw [hqueue, extent_cons] at hextent
        omega
  unfold finFreed
  exact if_congr (and_congr_right fun _ => hiff) rfl rfl

/-- How many bytes, of the next `d` symbols, the application is told of. -/
def ackedBytes (g : Progress) (pcb : TcpPcb) (d : Nat) : Nat :=
  if pcb.finQueued ∧ (pcb.stream g.written).length = g.una + d then d - 1 else d

theorem ackCounters_spec {d : Nat} (h : Pending g pcb) (hack : ackno = seqAt g.base (g.una + d))
    (hle : g.una + d ≤ g.nxt) :
    Holding { g with una := g.una + d } (pcb.ackCounters ackno) ∧
      (pcb.ackCounters ackno).recvView = pcb.recvView ∧
      (pcb.ackCounters ackno).window = pcb.window ∧ (pcb.ackCounters ackno).acked = d := by
  obtain ⟨hsend, hrecv, hwindow, hlastack⟩ := endRecovery_views pcb
  have hlength := h.stream_length_le
  have hnxt := h.nxt_le
  have hroom := h.room_ge
  have hone : (if pcb.finQueued then 1 else 0) ≤ 1 := by split <;> decide
  have hmax : tcpSndBuf = 2920 := rfl
  have hsub : u16 (sub32 ackno pcb.lastack) = d := by
    rw [hack, h.lastack, sub32_seqAt (Nat.le_add_right _ _) (by omega), Nat.add_sub_cancel_left]
    exact u16_of_lt (by omega)
  have hsndBuf : pcb.endRecovery.sndBuf = pcb.sndBuf := (congrArg sndBuf hsend :)
  have hbuf : u16 (pcb.sndBuf + d) = pcb.sndBuf + d := u16_of_lt (by omega)
  have hend := (h.toHolding.congr hsend).acknowledge hle
  unfold ackCounters
  dsimp only
  rw [hlastack, hsub, hsndBuf, hbuf]
  obtain ⟨hsend', hrecv', hwindow', hacked⟩ := growCwnd_views { pcb.endRecovery with
    nrtx := 0, acked := d, sndBuf := pcb.sndBuf + d, dupacks := 0, lastack := ackno }
  refine ⟨?_, hrecv'.trans hrecv, hwindow'.trans hwindow, hacked⟩
  rw [hsndBuf, ← hack] at hend
  exact hend.congr hsend'

/-- What an acknowledgement of the next `d` symbols leads to. -/
structure Acknowledges (g : Progress) (pcb : TcpPcb) (d : Nat) (pcb' : TcpPcb) : Prop where
  sending : ∃ start, g.start ≤ start ∧ Pending { g with start, una := g.una + d } pcb'
  view : pcb'.recvView = pcb.recvView
  window : pcb'.window = pcb.window
  acked : pcb'.acked = ackedBytes g pcb d

/-- The first segment of the queue has something that is not acknowledged. -/
theorem Frees.acknowledges {start d : Nat} {pcb'' : TcpPcb} (hd : 0 < d)
    (h : Frees { g with una := g.una + d } pcb' start pcb'') (hstart : g.start ≤ start)
    (hhead : ∀ seg ∈ pcb''.queue.head?, g.una + d < start + seg.tcpLen)
    (hview : pcb'.recvView = pcb.recvView) (hwindow : pcb'.window = pcb.window)
    (hacked : pcb'.acked + finFreed { g with una := g.una + d } pcb' = d) :
    Acknowledges g pcb d pcb'' := by
  have hsending : Pending { g with start, una := g.una + d } pcb'' := ⟨h.holding, hhead⟩
  refine ⟨⟨start, hstart, hsending⟩, h.view.trans hview, h.window.trans hwindow, ?_⟩
  have hfreed := hsending.finFreed_eq
  have hsum := h.acked.trans hacked
  have hfin : pcb''.finQueued = pcb.finQueued := (congrArg finQueued (h.view.trans hview) :)
  rw [stream, hfin, ← stream] at hfreed
  rw [hfreed] at hsum
  unfold ackedBytes
  dsimp only at hsum
  split at hsum
  next hall =>
    rw [if_pos hall]
    omega
  next hall =>
    rw [if_neg hall]
    omega

/-- Where a segment of `unacked` is not acknowledged, none of `unsent` is. -/
theorem Holding.freeUnsent_eq (h : Holding g pcb) (hack : ackno = seqAt g.base g.una)
    (hspan : (pcb.stream g.written).length ≤ g.start + 8192)
    (hhead : ∀ seg ∈ pcb.queue.head?, g.una < g.start + seg.tcpLen) (hne : pcb.unacked ≠ []) :
    freeUnsent ackno pcb.unsent pcb = pcb := by
  apply TcpPcb.freeUnsent_eq
  intro seg hseg
  obtain ⟨rest, hunsent⟩ := List.head?_eq_some_iff.mp hseg
  obtain ⟨s, ss, hunacked⟩ := List.exists_cons_of_ne_nil hne
  have hqueue : pcb.queue = pcb.unacked ++ seg :: rest := by rw [queue, hunsent]
  have hfirst := hhead s (by rw [hqueue, hunacked]; rfl)
  have hqueued := h.queued
  have hend := h.extent_queue
  have hstart := h.start_le
  have huna := Nat.le_trans h.una_le h.nxt_le
  rw [hqueue] at hqueued hend
  rw [hunacked] at hend
  simp only [extent_append, extent_cons] at hend
  have hnear : Near g.una (g.start + extent pcb.unacked + seg.tcpLen) := by
    rw [hunacked, extent_cons]
    constructor <;> omega
  rw [hqueued.seqno_eq, u32_seqAt_add, hack, between, Bool.and_eq_false_iff]
  left
  rw [← Bool.not_eq_true, geq_iff hnear, hunacked, extent_cons]
  omega

theorem ackNewData_spec {d : Nat} (h : Pending g pcb) (hack : ackno = seqAt g.base (g.una + d))
    (hd : 0 < d) (hle : g.una + d ≤ g.nxt) :
    Acknowledges g pcb d
      (freeUnsent ackno (pcb.ackNewData ackno).unsent (pcb.ackNewData ackno)) := by
  obtain ⟨hcount, hview, hwindow, hacked⟩ := ackCounters_spec h hack hle
  have hstream : (pcb.ackCounters ackno).stream = pcb.stream := by
    have hfin : (pcb.ackCounters ackno).finQueued = pcb.finQueued := (congrArg finQueued hview :)
    funext written
    rw [stream, hfin, stream]
  have hfreed : finFreed { g with una := g.una + d } (pcb.ackCounters ackno) = 0 := by
    have hstart := h.start_le
    have hnxt := h.nxt_le
    apply if_neg
    rw [hstream]
    dsimp only
    omega
  have hsum : (pcb.ackCounters ackno).acked +
      finFreed { g with una := g.una + d } (pcb.ackCounters ackno) = d := by
    rw [hacked, hfreed, Nat.add_zero]
  have hspan : ((pcb.ackCounters ackno).stream g.written).length ≤ g.start + 8192 :=
    hstream ▸ h.span_le
  obtain ⟨start, hfrees, hunsent, hhead⟩ := freeUnacked_spec hcount hack hspan (hsum ▸ hd) rfl
  have hfrees' : Frees { g with una := g.una + d } (pcb.ackCounters ackno) start
      (pcb.ackNewData ackno) :=
    ⟨hfrees.holding.congr rfl, hfrees.le, hfrees.view, hfrees.window, hfrees.acked⟩
  have hspan' := hfrees'.span hspan
  by_cases hunacked : (pcb.ackNewData ackno).unacked = []
  · obtain ⟨start', hfrees'', hunacked', hhead'⟩ := freeUnsent_spec hfrees'.holding hack hspan'
      (by rw [hfrees'.acked, hsum]; exact hd) hunacked rfl
    refine (hfrees'.trans hfrees'').acknowledges hd (Nat.le_trans hfrees.le hfrees''.le) ?_ hview
      hwindow hsum
    rw [queue, hunacked', List.nil_append]
    exact hhead'
  · have hhead' : ∀ seg ∈ (pcb.ackNewData ackno).queue.head?, g.una + d < start + seg.tcpLen := by
      intro seg hseg
      refine hhead seg ?_
      rw [queue, List.head?_append_of_ne_nil _ hunacked] at hseg
      exact hseg
    rw [hfrees'.holding.freeUnsent_eq hack hspan' hhead' hunacked]
    exact hfrees'.acknowledges hd hfrees.le hhead' hview hwindow hsum

/-! ## The window and duplicate acknowledgements -/

/-- A peer that announces a greater window allows longer segments. -/
theorem Pending.growWindow {wndMax : Nat} (h : Pending g pcb) (hle : pcb.sndWndMax ≤ wndMax) :
    Pending g { pcb with sndWndMax := wndMax } := by
  have hmss : pcb.mssLocal ≤ min pcb.mss (wndMax / 2) :=
    Nat.le_min.mpr ⟨Nat.min_le_left _ _,
      Nat.le_trans (Nat.min_le_right _ _) (Nat.div_le_div_right hle)⟩
  exact
    { h with
      wf := fun seg hseg => (h.wf seg hseg).mono hmss
      oversize := fun seg hseg =>
        ⟨Nat.le_trans (h.oversize seg hseg).1 hmss, (h.oversize seg hseg).2⟩ }

theorem updateWindow_spec (h : Pending g pcb) (hdr : Header) :
    Pending g (pcb.updateWindow hdr) ∧ (pcb.updateWindow hdr).recvView = pcb.recvView := by
  unfold updateWindow
  split
  next _ =>
    refine ⟨?_, rfl⟩
    have hle : pcb.sndWndMax ≤ if pcb.sndWndMax < hdr.wnd then hdr.wnd else pcb.sndWndMax := by
      split <;> omega
    exact (h.growWindow hle).congr rfl
  next _ => exact ⟨h, rfl⟩

/-- What an acknowledgement leads to that acknowledges nothing new. -/
inductive Repeats (g : Progress) (pcb pcb' : TcpPcb) : Prop
  | sending (h : Pending g pcb') (hview : pcb'.recvView = pcb.recvView)
      (hwindow : pcb'.window = pcb.window) (hacked : pcb'.acked = pcb.acked)
  | resending {seg : Segment} {rest : List Segment} (h : Resending g pcb' seg rest)
      (hseg : seg ∈ pcb.unacked.head?) (hview : pcb'.recvView = pcb.recvView)
      (hwindow : pcb'.window = pcb.window) (hacked : pcb'.acked = pcb.acked)

theorem tcpRexmitFast_repeats (h : Pending g pcb) (hwords : Words pcb) :
    Repeats g pcb pcb.tcpRexmitFast := by
  cases hunacked : pcb.unacked with
  | nil =>
      have heq : pcb.tcpRexmitFast = pcb := if_neg (by simp [hunacked])
      rw [heq]
      exact .sending h rfl rfl rfl
  | cons seg rest =>
      cases hinfr : pcb.infr with
      | true =>
          have heq : pcb.tcpRexmitFast = pcb := if_neg (by simp [hinfr])
          rw [heq]
          exact .sending h rfl rfl rfl
      | false =>
          have hviews : pcb.tcpRexmitFast.recvView = pcb.recvView ∧
              pcb.tcpRexmitFast.window = pcb.window ∧ pcb.tcpRexmitFast.acked = pcb.acked := by
            unfold tcpRexmitFast tcpRexmit
            rw [if_pos ⟨by simp [hunacked], hinfr⟩, hunacked]
            exact ⟨rfl, rfl, rfl⟩
          have hresend := tcpRexmitFast_spec h hwords hinfr hunacked
          exact .resending hresend (by rw [hunacked]; rfl) hviews.1 hviews.2.1 hviews.2.2

theorem countDupack_repeats (h : Pending g pcb) (hwords : Words pcb) :
    Repeats g pcb pcb.countDupack := by
  unfold countDupack
  have hcount : ∀ pcb', (pcb' = pcb ∨ pcb' = { pcb with dupacks := pcb.dupacks + 1 }) →
      Repeats g pcb (if 3 < pcb'.dupacks then
          if pcb'.cwnd < u16 (pcb'.cwnd + pcb'.mss) then { pcb' with cwnd := pcb'.cwnd + pcb'.mss }
          else pcb'
        else if pcb'.dupacks = 3 then pcb'.tcpRexmitFast else pcb') := by
    intro pcb' hpcb'
    have hsame : Pending g pcb' ∧ Words pcb' ∧ pcb'.unacked = pcb.unacked ∧
        pcb'.recvView = pcb.recvView ∧ pcb'.window = pcb.window ∧ pcb'.acked = pcb.acked := by
      rcases hpcb' with rfl | rfl
      · exact ⟨h, hwords, rfl, rfl, rfl, rfl⟩
      · exact ⟨h.congr rfl, hwords.congr rfl rfl rfl, rfl, rfl, rfl, rfl⟩
    obtain ⟨hsend, hwords', hunacked, hview, hwindow, hacked⟩ := hsame
    split
    next _ =>
      split
      next _ => exact .sending (hsend.congr rfl) hview hwindow hacked
      next _ => exact .sending hsend hview hwindow hacked
    next _ =>
      split
      next _ =>
        cases tcpRexmitFast_repeats hsend hwords' with
        | sending h' hview' hwindow' hacked' =>
            exact .sending h' (hview'.trans hview) (hwindow'.trans hwindow) (hacked'.trans hacked)
        | resending h' hseg hview' hwindow' hacked' =>
            exact .resending h' (hunacked ▸ hseg) (hview'.trans hview) (hwindow'.trans hwindow)
              (hacked'.trans hacked)
      next _ => exact .sending hsend hview hwindow hacked
  apply hcount
  split
  next _ => exact .inr rfl
  next _ => exact .inl rfl

theorem repeatAck_repeats (h : Pending g pcb) (hwords : Words pcb) (rightWndEdge : Nat)
    (inseg : Inseg) :
    Repeats g { pcb with acked := 0 } (pcb.repeatAck rightWndEdge inseg) := by
  have hzero : Pending g { pcb with acked := 0 } := h.congr rfl
  unfold repeatAck
  dsimp only
  split
  next _ => exact countDupack_repeats hzero (hwords.congr rfl rfl rfl)
  next _ => exact .sending (h.congr rfl) rfl rfl rfl

/-- A fast retransmission starts with an empty segment that repeats the last acknowledgement. -/
theorem repeatAck_sending (h : Pending g pcb) {rightWndEdge : Nat} {inseg : Inseg}
    (hdup : ¬ (inseg.tcpLen = 0 ∧ inseg.hdr.ackno = pcb.lastack)) :
    Pending g (pcb.repeatAck rightWndEdge inseg) := by
  have hdup' : ({ pcb with acked := 0 } : TcpPcb).isDupack rightWndEdge inseg.tcpLen inseg.hdr =
      false := by
    unfold isDupack
    rw [decide_eq_false_iff_not]
    rintro ⟨hlen, -, -, hack⟩
    exact hdup ⟨hlen, hack.symm⟩
  unfold repeatAck
  dsimp only
  rw [hdup', if_neg (by decide)]
  exact h.congr rfl

/-! ## The whole of it -/

/-- The acknowledgement does not lie half of the sequence space behind: then the segments in front
of it cannot be told from those behind it. -/
def Timely (pcb : TcpPcb) (ackno : Nat) : Prop :=
  sub32 pcb.lastack ackno < 2147475456 ∨ 2147483648 < sub32 pcb.lastack ackno

/-- How many symbols more an acknowledgement number acknowledges. -/
def Progress.ackedBy (g : Progress) (ackno : Nat) : Nat :=
  if sub32 ackno (seqAt g.base g.una) ≤ g.nxt - g.una then sub32 ackno (seqAt g.base g.una) else 0

/-- What the acknowledgement of a segment leads to. -/
inductive AckResult (g : Progress) (pcb : TcpPcb) (inseg : Inseg) (pcb' : TcpPcb) : Prop
  | sending (h : Acknowledges g (pcb.updateWindow inseg.hdr) (g.ackedBy inseg.hdr.ackno) pcb')
  | resending {seg : Segment} {rest : List Segment} (h : Resending g pcb' seg rest)
      (hseg : seg ∈ pcb.unacked.head?) (hview : pcb'.recvView = pcb.recvView)
      (hwindow : pcb'.window = (pcb.updateWindow inseg.hdr).window) (hacked : pcb'.acked = 0)
      (hnone : inseg.hdr.ackno = pcb.lastack) (hempty : inseg.tcpLen = 0)

/-- What lies behind an acknowledgement that is not new is not acknowledged by it. -/
theorem between_eq_false {x y : Nat} (hleq : leq ackno (seqAt g.base g.una) = true)
    (htimely : sub32 (seqAt g.base g.una) ackno < 2147475456 ∨
      2147483648 < sub32 (seqAt g.base g.una) ackno)
    (hx : g.una < x) (hx' : x ≤ g.una + 8192) : between ackno (seqAt g.base x) y = false := by
  rw [between, Bool.and_eq_false_iff]
  left
  unfold leq at hleq
  rw [decide_eq_true_eq] at hleq
  unfold geq
  rw [decide_eq_false_iff_not]
  unfold sub32 seqAt u32 at *
  omega

/-- The first segment of `unsent` ends behind what is acknowledged. -/
theorem Pending.unsent_head (h : Pending g pcb) (hseg : seg ∈ pcb.unsent.head?) :
    ∃ x, u32 (seg.seqno + seg.tcpLen) = seqAt g.base x ∧ g.una < x ∧ x ≤ g.una + 8192 := by
  obtain ⟨rest, hunsent⟩ := List.head?_eq_some_iff.mp hseg
  have hqueue : pcb.queue = pcb.unacked ++ seg :: rest := by rw [queue, hunsent]
  have hqueued := h.queued
  have hend := h.extent_queue
  have hhead := h.head
  have hstart := h.start_le
  have hspan := h.span_le
  have huna := Nat.le_trans h.una_le h.nxt_le
  rw [hqueue] at hqueued hend hhead
  simp only [extent_append, extent_cons] at hend
  refine ⟨_, by rw [hqueued.seqno_eq, u32_seqAt_add], ?_, by omega⟩
  cases hunacked : pcb.unacked with
  | nil =>
      rw [hunacked] at hhead
      have hlt := hhead seg rfl
      rw [extent_nil]
      omega
  | cons s ss =>
      rw [hunacked] at hhead
      have hlt := hhead s rfl
      rw [extent_cons]
      omega

/-- So does a segment that is about to be sent once more. -/
theorem Resending.unsent_head {rest : List Segment} (h : Resending g pcb seg rest) :
    ∃ x, u32 (seg.seqno + seg.tcpLen) = seqAt g.base x ∧ g.una < x ∧ x ≤ g.una + 8192 := by
  have hspan := h.sending.span_le
  have hstart := h.sending.start_le
  have hsent := h.sending.sent
  have hnxt := h.sending.nxt_le
  have hlt := h.sending.head seg rfl
  change g.start + (seg.tcpLen + extent pcb.unacked) ≤ g.nxt at hsent
  refine ⟨g.start + seg.tcpLen, ?_, hlt, by omega⟩
  rw [h.sending.queued.1, u32_seqAt_add]

theorem Repeats.freeUnsent {p : TcpPcb} (h : Repeats g p pcb)
    (hleq : leq ackno (seqAt g.base g.una) = true)
    (htimely : sub32 (seqAt g.base g.una) ackno < 2147475456 ∨
      2147483648 < sub32 (seqAt g.base g.una) ackno) : freeUnsent ackno pcb.unsent pcb = pcb := by
  apply freeUnsent_eq
  intro seg hseg
  cases h with
  | sending h =>
      obtain ⟨x, hx, hlt, hle⟩ := h.unsent_head hseg
      rw [hx]
      exact between_eq_false hleq htimely hlt hle
  | resending h =>
      obtain ⟨x, hx, hlt, hle⟩ := h.unsent_head
      rw [h.unsent] at hseg
      obtain rfl := Option.some.inj hseg
      rw [hx]
      exact between_eq_false hleq htimely hlt hle

theorem Pending.acknowledges_zero (h : Pending g pcb') (hview : pcb'.recvView = pcb.recvView)
    (hwindow : pcb'.window = pcb.window) (hacked : pcb'.acked = 0) : Acknowledges g pcb 0 pcb' := by
  refine ⟨⟨g.start, Nat.le_refl _, h⟩, hview, hwindow, hacked.trans ?_⟩
  unfold ackedBytes
  split <;> rfl

/-- The cases of an acknowledgement number. -/
theorem Pending.ackedBy_cases (h : Pending g pcb) (hackno : ackno < 4294967296) :
    if leq ackno pcb.lastack then g.ackedBy ackno = 0
    else if between ackno (u32 (pcb.lastack + 1)) pcb.sndNxt then
      ackno = seqAt g.base (g.una + g.ackedBy ackno) ∧ 0 < g.ackedBy ackno ∧
        g.una + g.ackedBy ackno ≤ g.nxt
    else g.ackedBy ackno = 0 ∧ leq ackno pcb.sndNxt = false := by
  have hle := h.una_le
  have hlength := h.stream_length_le
  have hnxt_le := h.nxt_le
  have hmax : tcpSndBuf = 2920 := rfl
  have hat := seqAt_add_sub32 hackno g.base g.una
  rw [h.lastack, h.sndNxt, u32_seqAt_add]
  generalize hd : sub32 ackno (seqAt g.base g.una) = d at hat
  have hdlt : d < 4294967296 := hd ▸ Nat.mod_lt _ (by decide)
  have hleq : leq ackno (seqAt g.base g.una) = true ↔ d = 0 ∨ 2147483648 ≤ d := by
    unfold leq
    rw [decide_eq_true_eq, hd]
  have hgeq : geq ackno (seqAt g.base (g.una + 1)) = true ↔ 0 < d ∧ d ≤ 2147483648 := by
    unfold geq
    rw [decide_eq_true_eq, ← hat]
    unfold sub32 seqAt u32
    omega
  have hleq' : leq ackno (seqAt g.base g.nxt) = true ↔
      d ≤ g.nxt - g.una ∨ g.nxt - g.una + 2147483648 ≤ d := by
    unfold leq
    rw [decide_eq_true_eq, ← hat]
    unfold sub32 seqAt u32
    omega
  unfold Progress.ackedBy
  rw [hd]
  split
  next h1 =>
    rw [hleq] at h1
    split <;> omega
  next h1 =>
    rw [hleq] at h1
    split
    next h2 =>
      rw [between, Bool.and_eq_true, hgeq, hleq'] at h2
      rw [if_pos (by omega)]
      exact ⟨hat.symm, by omega, by omega⟩
    next h2 =>
      rw [between, Bool.and_eq_true, hgeq, hleq'] at h2
      rw [← Bool.not_eq_true, hleq']
      refine ⟨?_, by omega⟩
      split <;> omega

theorem updateWindow_frame (pcb : TcpPcb) (hdr : Header) :
    (pcb.updateWindow hdr).unacked = pcb.unacked ∧ (pcb.updateWindow hdr).lastack = pcb.lastack := by
  unfold updateWindow
  split <;> exact ⟨rfl, rfl⟩

theorem Words.updateWindow (h : Words pcb) {hdr : Header} (hwnd : hdr.wnd < 65536) :
    Words (pcb.updateWindow hdr) := by
  unfold TcpPcb.updateWindow
  split
  · exact ⟨h.cwnd, h.ssthresh, hwnd⟩
  · exact h

theorem receiveAck_spec {inseg : Inseg} (h : Pending g pcb) (hwords : Words pcb)
    (hackno : inseg.hdr.ackno < 4294967296) (hwnd : inseg.hdr.wnd < 65536)
    (htimely : pcb.Timely inseg.hdr.ackno) : AckResult g pcb inseg (pcb.receiveAck inseg) := by
  obtain ⟨hwin, hview⟩ := updateWindow_spec h inseg.hdr
  obtain ⟨hunacked, hlastack⟩ := updateWindow_frame pcb inseg.hdr
  have hcases := hwin.ackedBy_cases hackno
  unfold Timely at htimely
  rw [h.lastack] at htimely
  unfold receiveAck
  dsimp only
  split
  next hleq =>
    rw [if_pos hleq] at hcases
    have hrepeats := repeatAck_repeats hwin (hwords.updateWindow hwnd)
      (u32 (pcb.sndWnd + pcb.sndWl2)) inseg
    have hsending := @repeatAck_sending _ _ hwin (u32 (pcb.sndWnd + pcb.sndWl2)) inseg
    rw [hwin.lastack] at hleq
    rw [hrepeats.freeUnsent hleq htimely]
    generalize (pcb.updateWindow inseg.hdr).repeatAck _ inseg = pcb' at hrepeats hsending
    cases hrepeats with
    | sending h' hview' hwindow' hacked' =>
        refine .sending ?_
        rw [hcases]
        exact h'.acknowledges_zero hview' hwindow' hacked'
    | resending h' hseg hview' hwindow' hacked' =>
        by_cases hdup : inseg.tcpLen = 0 ∧ inseg.hdr.ackno = (pcb.updateWindow inseg.hdr).lastack
        · exact .resending h' (hunacked ▸ hseg) (hview'.trans hview) hwindow' hacked'
            (hdup.2.trans hlastack) hdup.1
        · refine .sending ?_
          rw [hcases]
          exact (hsending hdup).acknowledges_zero hview' hwindow' hacked'
  next hleq =>
    rw [if_neg hleq] at hcases
    split
    next hbetween =>
      rw [if_pos hbetween] at hcases
      exact .sending (ackNewData_spec hwin hcases.1 hcases.2.1 hcases.2.2)
    next hbetween =>
      rw [if_neg hbetween] at hcases
      rw [freeUnsent_eq]
      · refine .sending ?_
        rw [hcases.1]
        exact Pending.acknowledges_zero (hwin.congr rfl) rfl rfl rfl
      · intro seg _
        rw [between, Bool.and_eq_false_iff]
        exact .inr hcases.2

/-! ## The windows fit into 16 bits -/

theorem Words.check (h : Words pcb) (cond : Bool) : Words (pcb.check cond) := h.congr rfl rfl rfl

theorem Words.freeSegment (h : Words pcb) (seg : Segment) : Words (pcb.freeSegment seg) := by
  unfold TcpPcb.freeSegment
  dsimp only
  split <;> exact h.congr rfl rfl rfl

theorem Words.freeUnacked (h : Words pcb) : Words (freeUnacked ackno segs pcb) := by
  induction segs generalizing pcb with
  | nil => exact h
  | cons seg rest ih =>
      unfold TcpPcb.freeUnacked
      split
      · exact ih ((h.congr rfl rfl rfl : Words { pcb with unacked := rest }).freeSegment seg)
      · exact h

theorem Words.freeUnsent (h : Words pcb) : Words (freeUnsent ackno segs pcb) := by
  induction segs generalizing pcb with
  | nil => exact h
  | cons seg rest ih =>
      unfold TcpPcb.freeUnsent
      split
      · apply ih
        apply Words.freeSegment
        exact h.congr rfl rfl rfl
      · exact h

theorem Words.growCwnd (h : Words pcb) (hmss : pcb.mss ≤ tcpMss) : Words pcb.growCwnd := by
  have hcwnd := h.cwnd
  have hmax : tcpMss = 1460 := rfl
  unfold TcpPcb.growCwnd
  split
  · split
    next hlt =>
      refine ⟨?_, h.ssthresh, h.sndWnd⟩
      unfold u16 at hlt
      dsimp only
      omega
    next _ => exact h
  · dsimp only
    split
    · exact ⟨u16_lt _, h.ssthresh, h.sndWnd⟩
    · exact h

theorem Words.endRecovery (h : Words pcb) : Words pcb.endRecovery := by
  unfold TcpPcb.endRecovery
  split
  · exact ⟨h.ssthresh, h.ssthresh, h.sndWnd⟩
  · exact h

theorem Words.ackNewData (h : Words pcb) (hmss : pcb.mss ≤ tcpMss) (ackno : Nat) :
    Words (pcb.ackNewData ackno) := by
  have hmss' : pcb.endRecovery.mss = pcb.mss := by
    unfold TcpPcb.endRecovery
    split <;> rfl
  have hcount : Words (pcb.ackCounters ackno) := by
    unfold ackCounters
    apply Words.growCwnd
    · exact h.endRecovery.congr rfl rfl rfl
    · exact hmss' ▸ hmss
  have hfree : Words (TcpPcb.freeUnacked ackno (pcb.ackCounters ackno).unacked
      (pcb.ackCounters ackno)) := hcount.freeUnacked
  exact hfree.congr rfl rfl rfl

theorem Words.repeatAck (h : Words pcb) (hmss : pcb.mss ≤ tcpMss) (rightWndEdge : Nat)
    (inseg : Inseg) : Words (pcb.repeatAck rightWndEdge inseg) := by
  have hcount : ∀ pcb' : TcpPcb, Words pcb' → pcb'.mss ≤ tcpMss →
      Words (if 3 < pcb'.dupacks then
          if pcb'.cwnd < u16 (pcb'.cwnd + pcb'.mss) then { pcb' with cwnd := pcb'.cwnd + pcb'.mss }
          else pcb'
        else if pcb'.dupacks = 3 then pcb'.tcpRexmitFast else pcb') := by
    intro pcb' hwords hmss'
    have hcwnd := hwords.cwnd
    have hmax : tcpMss = 1460 := rfl
    split
    · split
      next hlt =>
        refine ⟨?_, hwords.ssthresh, hwords.sndWnd⟩
        unfold u16 at hlt
        dsimp only
        omega
      next _ => exact hwords
    · split
      · exact (tcpRexmitFast_words hwords hmss').1
      · exact hwords
  unfold TcpPcb.repeatAck
  dsimp only
  split
  · apply hcount
    · split <;> exact h.congr rfl rfl rfl
    · split <;> exact hmss
  · exact h.congr rfl rfl rfl

theorem Words.receiveAck {inseg : Inseg} (h : Words pcb) (hmss : pcb.mss ≤ tcpMss)
    (hwnd : inseg.hdr.wnd < 65536) : Words (pcb.receiveAck inseg) := by
  have hwin := h.updateWindow hwnd
  have hmss' : (pcb.updateWindow inseg.hdr).mss ≤ tcpMss := by
    unfold TcpPcb.updateWindow
    split <;> exact hmss
  unfold TcpPcb.receiveAck
  dsimp only
  apply Words.freeUnsent
  split
  · exact hwin.repeatAck hmss' _ _
  · split
    · exact hwin.ackNewData hmss' _
    · exact hwin.congr rfl rfl rfl

end TcpPcb

end Meu1oARM
