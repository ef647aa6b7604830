import Meu1oARM.Lwip.TcpQueue

/-! # What `tcp_output` does to the queue

Segments move from the front of `unsent` to the end of `unacked`, which leaves the
queue as it is. A segment that is being retransmitted has been taken out of `unacked`
and goes back to its front.
-/

namespace Meu1oARM

open Machine Serial

namespace TcpPcb

variable {pcb pcb' pcb'' : TcpPcb} {g : Progress} {seg : Segment} {rest : List Segment}

/-! ## What is sent -/

/-- A packet of a connection: a piece of its stream that starts in the queue or behind it. -/
structure Emitted (g : Progress) (pcb : TcpPcb) (p : Packet) : Prop where
  syn : p.syn = false
  len : p.data.length ≤ tcpMss
  slice : ∃ y, g.start ≤ y ∧ y + (symbols p.data p.fin).length ≤ (pcb.stream g.written).length ∧
    p.seqno = seqAt g.base y ∧ IsSlice (pcb.stream g.written) y (symbols p.data p.fin)

/-- A control block without what `tcp_output` changes, and without the state of the congestion
control. -/
def outView (pcb : TcpPcb) : TcpPcb := { pcb with
  ackDelay := false, ackNow := false, rcvAnnRightEdge := 0, sndNxt := 0, nagleMemErr := false
  unsentOversize := 0, unsent := [], unacked := [], wire := []
  rtime := 0, nrtx := 0, cwnd := 0, ssthresh := 0 }

/-- Some packets are sent, and nothing else happens. -/
structure Emits (g : Progress) (pcb pcb' : TcpPcb) : Prop where
  view : pcb'.outView = pcb.outView
  wire : ∃ packets, pcb'.wire = pcb.wire ++ packets ∧ ∀ p ∈ packets, Emitted g pcb p

theorem stream_eq (h : pcb'.outView = pcb.outView) : pcb'.stream = pcb.stream := by
  have hfin : pcb'.finQueued = pcb.finQueued := (congrArg finQueued h :)
  funext written
  rw [stream, hfin, stream]

theorem Emitted.congr {p : Packet} (h : Emitted g pcb p) (heq : pcb'.outView = pcb.outView) :
    Emitted g pcb' p := by
  refine ⟨h.syn, h.len, ?_⟩
  rw [stream_eq heq]
  exact h.slice

namespace Emits

theorem refl (g : Progress) (pcb : TcpPcb) : Emits g pcb pcb :=
  ⟨rfl, [], (List.append_nil _).symm, nofun⟩

theorem trans (h : Emits g pcb pcb') (h' : Emits g pcb' pcb'') : Emits g pcb pcb'' := by
  obtain ⟨packets, hwire, hall⟩ := h.wire
  obtain ⟨packets', hwire', hall'⟩ := h'.wire
  refine ⟨h'.view.trans h.view, packets ++ packets', ?_, ?_⟩
  · rw [hwire', hwire, List.append_assoc]
  · exact List.forall_mem_append.mpr ⟨hall, fun p hp => (hall' p hp).congr h.view.symm⟩

/-- Which packets there are does not depend on how much has been sent. -/
theorem of_nxt {nxt : Nat} (h : Emits { g with nxt } pcb pcb') : Emits g pcb pcb' := by
  obtain ⟨packets, hwire, hall⟩ := h.wire
  exact ⟨h.view, packets, hwire, fun p hp => ⟨(hall p hp).syn, (hall p hp).len, (hall p hp).slice⟩⟩

/-- The same packets, but for what `tcp_output` does besides. -/
theorem congr (h : Emits g pcb pcb') (heq : pcb''.outView = pcb'.outView)
    (hwire : pcb''.wire = pcb'.wire) : Emits g pcb pcb'' :=
  ⟨heq.trans h.view, hwire ▸ h.wire⟩

end Emits

/-! ## One segment -/

/-- What `tcp_output` does at its end. -/
def settled (pcb : TcpPcb) : TcpPcb :=
  { pcb with unsentOversize := if pcb.unsent = [] then 0 else pcb.unsentOversize }

theorem Pending.settled (h : Pending g pcb) : Pending g pcb.settled := by
  have heq : (if pcb.unsent = [] then 0 else pcb.unsentOversize) = pcb.unsentOversize :=
    ite_eq_right_iff.mpr fun hnil => (h.oversize_none hnil).symm
  rw [TcpPcb.settled, heq]
  exact h

/-- Positions of the stream, from the queue on, are near each other. -/
theorem Pending.near (h : Pending g pcb) {x y : Nat} (hx : g.start ≤ x)
    (hx' : x ≤ (pcb.stream g.written).length) (hy : g.start ≤ y)
    (hy' : y ≤ (pcb.stream g.written).length) : Near x y := by
  have hspan := h.span_le
  constructor <;> omega

/-- The effect on the sequence numbers when the segment at `y` has been sent. -/
theorem Pending.sndNxt_send (h : Pending g pcb) {y n : Nat} (hy : g.start ≤ y)
    (hend : y + n ≤ (pcb.stream g.written).length) :
    (if lt pcb.sndNxt (u32 (seqAt g.base y + n)) then u32 (seqAt g.base y + n) else pcb.sndNxt) =
      seqAt g.base (max g.nxt (y + n)) := by
  have hnxt := Nat.le_trans h.start_le h.una_le
  have hnear : Near g.nxt (y + n) := h.near hnxt h.nxt_le (Nat.le_add_right_of_le hy) hend
  rw [h.sndNxt, u32_seqAt_add]
  split
  next hlt => rw [Nat.max_eq_right (Nat.le_of_lt ((lt_iff hnear).mp hlt))]
  next hge =>
    rw [lt_iff hnear, Nat.not_lt] at hge
    rw [Nat.max_eq_left hge]

/-- Segments move between the two queues. -/
theorem Pending.requeue {unsent unacked : List Segment} {nxt sndNxt oversize : Nat}
    (h : Pending g pcb) (hqueue : unacked ++ unsent = pcb.queue)
    (hsent : g.start + extent unacked ≤ nxt) (hle : g.nxt ≤ nxt)
    (hnxt : nxt ≤ (pcb.stream g.written).length) (hsndNxt : sndNxt = seqAt g.base nxt)
    (hnone : unsent = [] → oversize = 0)
    (hover : ∀ seg ∈ unsent.getLast?, seg.len + oversize ≤ pcb.mssLocal ∧
      ∀ b ∈ seg.bufs.getLast?, oversize ≤ b.spare) :
    Pending { g with nxt } { pcb with unsent, unacked, sndNxt, unsentOversize := oversize } := by
  have heq : ({ pcb with unsent, unacked, sndNxt, unsentOversize := oversize } : TcpPcb).queue =
      pcb.queue := hqueue
  exact
    { wf := by rw [heq]; exact h.wf
      queued := by rw [heq]; exact h.queued
      content := by rw [heq]; exact h.content
      start_le := h.start_le
      head := by rw [heq]; exact h.head
      una_le := Nat.le_trans h.una_le hle
      sent := hsent
      nxt_le := hnxt
      lastack := h.lastack
      sndNxt := hsndNxt
      sndLbb := h.sndLbb
      room_le := h.room_le
      room_ge := h.room_ge
      queuelen := by rw [heq]; exact h.queuelen
      queuelen_le := h.queuelen_le
      oversize_none := hnone
      oversize := hover
      shut := h.shut
      mss_pos := h.mss_pos
      mss_le := h.mss_le }

/-- What lies between the start of the queue and the end of one of its segments. -/
theorem Pending.extent_le (h : Pending g pcb) {segs segs' : List Segment}
    (hqueue : pcb.queue = segs ++ segs') :
    g.start + extent segs ≤ (pcb.stream g.written).length := by
  have hstart := Nat.le_trans h.start_le (Nat.le_trans h.una_le h.nxt_le)
  have hextent := h.extent_queue
  rw [hqueue, extent_append] at hextent
  omega

/-- The segment goes to the end of `unacked`. -/
theorem sending_move (h : Pending g pcb.settled) (hunsent : pcb.unsent = seg :: rest) :
    Pending { g with nxt := max g.nxt (g.start + extent pcb.unacked + seg.tcpLen) }
      { pcb with
        unsent := rest
        unacked := pcb.unacked ++ [seg]
        sndNxt :=
          if lt pcb.sndNxt (u32 (seg.seqno + seg.tcpLen)) then u32 (seg.seqno + seg.tcpLen)
          else pcb.sndNxt }.settled := by
  have hqueue : pcb.settled.queue = pcb.unacked ++ seg :: rest :=
    congrArg (pcb.unacked ++ ·) hunsent
  have hqueue' : pcb.unacked ++ [seg] ++ rest = pcb.settled.queue := by
    rw [hqueue, List.append_assoc, List.singleton_append]
  have hextent : extent (pcb.unacked ++ [seg]) = extent pcb.unacked + seg.tcpLen := by
    rw [extent_append, extent_cons, extent_nil, Nat.add_zero]
  have hend := h.extent_le hqueue'.symm
  rw [hextent, ← Nat.add_assoc] at hend
  have hsndNxt := h.sndNxt_send (Nat.le_add_right g.start (extent pcb.unacked)) hend
  have hqueued := h.queued
  rw [hqueue] at hqueued
  rw [← hqueued.seqno_eq] at hsndNxt
  refine h.requeue hqueue' ?_ (Nat.le_max_left _ _) (Nat.max_le.mpr ⟨h.nxt_le, hend⟩) hsndNxt
    (fun hnil => if_pos hnil) ?_
  · rw [hextent, ← Nat.add_assoc]
    exact Nat.le_max_right _ _
  · intro last hlast
    have hover := h.oversize
    cases rest with
    | nil => cases hlast
    | cons s ss =>
        unfold TcpPcb.settled at hover
        rw [hunsent, if_neg (List.cons_ne_nil _ _)] at hover
        refine hover last ?_
        rw [List.getLast?_cons_cons]
        exact hlast

/-- The packet of a segment of the queue. -/
theorem Pending.emitted (h : Pending g pcb) {segs segs' : List Segment}
    (hqueue : pcb.queue = segs ++ seg :: segs') (ackno wnd : Nat) :
    Emitted g pcb
      { seqno := seg.seqno, ackno, wnd, syn := seg.syn, fin := seg.fin, data := seg.data } := by
  have hwf := h.wf
  have hqueued := h.queued
  have hcontent := h.content
  rw [hqueue] at hwf hqueued hcontent
  obtain ⟨hsegs, hseg, -⟩ := List.forall_mem_append.mp hwf |>.imp_right List.forall_mem_cons.mp
  have hslice := isSlice_of_eq hsegs hcontent
  have hne : seg.symbols ≠ [] := by
    apply List.ne_nil_of_length_pos
    rw [hseg.length_symbols]
    exact hseg.pos
  exact ⟨hseg.syn, hseg.len ▸ Nat.le_trans hseg.le h.mssLocal_le, _, Nat.le_add_right _ _,
    hslice.le_length hne, hqueued.seqno_eq, hslice⟩

/-- The flag that `tcp_output` sets in the header. -/
def acking (pcb : TcpPcb) (seg : Segment) : Segment :=
  { seg with ack := seg.ack || decide (pcb.state ≠ .synSent) }

@[simp] theorem core_acking (pcb : TcpPcb) (seg : Segment) : (pcb.acking seg).core = seg.core := rfl

/-- The queues after one segment has been sent. -/
theorem sending_sendSegment (unacked : List Segment) (hpos : 0 < seg.tcpLen)
    (hunacked : (enqueueUnacked pcb.unacked (pcb.acking seg)).map Segment.core =
      unacked.map Segment.core)
    (h : Pending g
      { pcb with
        unsent := rest
        unacked
        sndNxt :=
          if lt pcb.sndNxt (u32 (seg.seqno + seg.tcpLen)) then u32 (seg.seqno + seg.tcpLen)
          else pcb.sndNxt }.settled) : Pending g (pcb.sendSegment seg rest).settled := by
  have hqueue : (pcb.sendSegment seg rest).unacked = enqueueUnacked pcb.unacked (pcb.acking seg) :=
    if_pos hpos
  apply h.congr
  simp only [sendView, settled, hqueue, hunacked]
  rfl

/-- The packet of the segment is sent. -/
theorem emits_sendSegment (h : ∀ ackno wnd, Emitted g pcb
      { seqno := seg.seqno, ackno, wnd, syn := seg.syn, fin := seg.fin, data := seg.data }) :
    Emits g pcb (pcb.sendSegment seg rest) :=
  ⟨rfl, _, rfl, List.forall_mem_singleton.mpr (h _ _)⟩

/-- The segments of the queue come one after the other. -/
theorem Pending.seqno_lt (h : Pending g pcb) {s s' : Segment} {segs segs' segs'' : List Segment}
    (hqueue : pcb.queue = segs ++ s :: segs' ++ s' :: segs'') :
    lt s.seqno s'.seqno = true ∧ lt s'.seqno s.seqno = false := by
  have hqueued := h.queued
  have hpos := (h.wf s (by simp [hqueue])).pos
  rw [hqueue] at hqueued
  have hs' := hqueued.seqno_eq
  rw [List.append_assoc, List.cons_append] at hqueued
  rw [hqueued.seqno_eq, hs']
  have hle : g.start + extent segs ≤ (pcb.stream g.written).length :=
    h.extent_le (hqueue.trans (List.append_assoc segs (s :: segs') (s' :: segs'')))
  have hle' := h.extent_le hqueue
  have hnear : Near (g.start + extent segs) (g.start + extent (segs ++ s :: segs')) :=
    h.near (Nat.le_add_right _ _) hle (Nat.le_add_right _ _) hle'
  have hlt : extent segs < extent (segs ++ s :: segs') := by
    rw [extent_append, extent_cons]
    omega
  rw [lt_iff hnear, ← Bool.not_eq_true, lt_iff hnear.symm]
  omega

/-- A segment that comes behind all others goes to the end. -/
theorem enqueueUnacked_last {unacked : List Segment}
    (h : ∀ useg ∈ unacked.getLast?, lt seg.seqno useg.seqno = false) :
    enqueueUnacked unacked seg = unacked ++ [seg] := by
  unfold enqueueUnacked
  split
  next hnone => rw [List.getLast?_eq_none_iff.mp hnone, List.nil_append]
  next useg hsome => rw [h useg hsome, if_neg (by decide)]

/-- A segment that comes in front of all others goes to the front. -/
theorem enqueueUnacked_first {unacked : List Segment}
    (hlast : ∀ useg ∈ unacked.getLast?, lt seg.seqno useg.seqno = true)
    (hfirst : ∀ useg ∈ unacked.head?, lt useg.seqno seg.seqno = false) :
    enqueueUnacked unacked seg = seg :: unacked := by
  unfold enqueueUnacked
  split
  next hnone => rw [List.getLast?_eq_none_iff.mp hnone]
  next useg hsome =>
    rw [if_pos (hlast useg hsome)]
    cases unacked with
    | nil => cases hsome
    | cons s ss =>
        rw [insertSorted, hfirst s rfl, if_neg (by decide)]

/-- The first segment of `unsent` is sent. -/
theorem sendSegment_spec (h : Pending g pcb.settled) (hunsent : pcb.unsent = seg :: rest) :
    ∃ nxt, g.nxt ≤ nxt ∧ Pending { g with nxt } (pcb.sendSegment seg rest).settled ∧
      Emits g pcb (pcb.sendSegment seg rest) := by
  have hqueue : pcb.settled.queue = pcb.unacked ++ seg :: rest :=
    congrArg (pcb.unacked ++ ·) hunsent
  have hpos := (h.wf seg (by simp [hqueue])).pos
  refine ⟨_, Nat.le_max_left _ _, sending_sendSegment _ hpos ?_ (sending_move h hunsent),
    emits_sendSegment ?_⟩
  · rw [enqueueUnacked_last]
    · rw [List.map_append, List.map_append]
      rfl
    · intro useg huseg
      obtain ⟨init, hinit⟩ := List.getLast?_eq_some_iff.mp huseg
      have hsplit : pcb.settled.queue = init ++ useg :: [] ++ seg :: rest := by
        rw [hqueue, hinit]
      exact (h.seqno_lt hsplit).2
  · exact fun ackno wnd => (h.emitted hqueue ackno wnd).congr rfl

/-- The queues with the first segment of `unsent` back at the front of `unacked`. -/
def restored (pcb : TcpPcb) (seg : Segment) (rest : List Segment) : TcpPcb :=
  { pcb with unacked := seg :: pcb.unacked, unsent := rest }

/-- A segment has been taken out of `unacked` to be sent once more. -/
structure Resending (g : Progress) (pcb : TcpPcb) (seg : Segment) (rest : List Segment) : Prop where
  unsent : pcb.unsent = seg :: rest
  infr : pcb.infr = true
  cwnd : pcb.mss ≤ pcb.cwnd
  sending : Pending g (pcb.restored seg rest)

/-- The segment is sent once more. -/
theorem Resending.sendSegment_spec (h : Resending g pcb seg rest) :
    Pending g (pcb.sendSegment seg rest).settled ∧ Emits g pcb (pcb.sendSegment seg rest) := by
  have hqueue : (pcb.restored seg rest).queue = seg :: (pcb.unacked ++ rest) := rfl
  have hpos := (h.sending.wf seg (by simp [hqueue])).pos
  have hend : g.start + seg.tcpLen ≤ g.nxt :=
    Nat.le_trans (Nat.add_le_add_left (Nat.le_add_right _ _) _) h.sending.sent
  have hseqno := h.sending.queued.1
  have hsndNxt := h.sending.sndNxt_send (Nat.le_refl g.start) (Nat.le_trans hend h.sending.nxt_le)
  rw [← hseqno, Nat.max_eq_left hend] at hsndNxt
  change (if lt pcb.sndNxt (u32 (seg.seqno + seg.tcpLen)) then u32 (seg.seqno + seg.tcpLen)
    else pcb.sndNxt) = _ at hsndNxt
  refine ⟨sending_sendSegment (seg :: pcb.unacked) hpos ?_ ?_, emits_sendSegment ?_⟩
  · rw [enqueueUnacked_first]
    · rfl
    · intro useg huseg
      obtain ⟨init, hinit⟩ := List.getLast?_eq_some_iff.mp huseg
      have hsplit : seg :: (pcb.unacked ++ rest) = [] ++ seg :: init ++ useg :: rest := by
        simp [hinit]
      exact (h.sending.seqno_lt (hqueue.trans hsplit)).1
    · intro useg huseg
      obtain ⟨tail, htail⟩ := List.head?_eq_some_iff.mp huseg
      have hsplit : seg :: (pcb.unacked ++ rest) = [] ++ seg :: [] ++ useg :: (tail ++ rest) := by
        simp [htail]
      exact (h.sending.seqno_lt (hqueue.trans hsplit)).2
  · rw [hsndNxt, ← h.sending.sndNxt]
    exact h.sending.settled
  · exact fun ackno wnd =>
      (h.sending.emitted (hqueue.trans (List.nil_append _).symm) ackno wnd).congr rfl

/-! ## The whole function -/

theorem outputLoop_spec {wnd : Nat} {segs : List Segment} (h : Pending g pcb.settled)
    (hunsent : pcb.unsent = segs) :
    ∃ nxt, g.nxt ≤ nxt ∧ Pending { g with nxt } (outputLoop wnd segs pcb).settled ∧
      Emits g pcb (outputLoop wnd segs pcb) := by
  induction segs generalizing pcb g with
  | nil => exact ⟨g.nxt, Nat.le_refl _, h, .refl g pcb⟩
  | cons seg rest ih =>
      unfold outputLoop
      split
      next _ =>
        split
        next _ => exact ⟨g.nxt, Nat.le_refl _, h, .refl g pcb⟩
        next _ =>
          obtain ⟨nxt, hle, hsend, hemits⟩ := sendSegment_spec h hunsent
          obtain ⟨nxt', hle', hsend', hemits'⟩ := ih hsend rfl
          exact ⟨nxt', Nat.le_trans hle hle', hsend', hemits.trans hemits'.of_nxt⟩
      next _ => exact ⟨g.nxt, Nat.le_refl _, h, .refl g pcb⟩

/-- What is left of the queues when the loop has come to its end. -/
theorem finishOutput_spec {nxt : Nat} (h : Pending { g with nxt } pcb'.settled)
    (hemits : Emits g pcb pcb') :
    Pending { g with nxt } { pcb'.settled with nagleMemErr := false } ∧
      Emits g pcb { pcb'.settled with nagleMemErr := false } :=
  ⟨h.congr rfl, hemits.congr rfl rfl⟩

theorem sendEmptyAck_spec (h : Pending g pcb) (mem : Bool) :
    Pending g (pcb.tcpSendEmptyAck mem) ∧ Emits g pcb (pcb.tcpSendEmptyAck mem) := by
  unfold tcpSendEmptyAck
  split
  next _ =>
    refine ⟨h.congr rfl, rfl, _, rfl, ?_⟩
    rw [List.forall_mem_singleton]
    exact ⟨rfl, Nat.zero_le _, g.nxt, Nat.le_trans h.start_le h.una_le, h.nxt_le,
      h.sndNxt, IsSlice.nil _ _⟩
  next _ => exact ⟨h, .refl g pcb⟩

theorem tcpOutput_spec (h : Pending g pcb) (mem : Bool) :
    ∃ nxt, g.nxt ≤ nxt ∧ Pending { g with nxt } (pcb.tcpOutput mem) ∧
      Emits g pcb (pcb.tcpOutput mem) := by
  unfold tcpOutput
  dsimp only
  split
  next _ => exact ⟨g.nxt, Nat.le_refl _, h, .refl g pcb⟩
  next _ =>
    split
    next _ => exact ⟨g.nxt, Nat.le_refl _, sendEmptyAck_spec h mem⟩
    next _ =>
      obtain ⟨nxt, hle, hsend, hemits⟩ := outputLoop_spec h.settled rfl
      exact ⟨nxt, hle, finishOutput_spec hsend hemits⟩

/-- `tcp_output` after something that has sent nothing but packets. -/
theorem Emits.tcpOutput (hemits : Emits g pcb pcb') (h : Pending g pcb') (mem : Bool) :
    ∃ nxt, g.nxt ≤ nxt ∧ Pending { g with nxt } (pcb'.tcpOutput mem) ∧
      Emits g pcb (pcb'.tcpOutput mem) := by
  obtain ⟨nxt, hle, hsend, hemits'⟩ := tcpOutput_spec h mem
  exact ⟨nxt, hle, hsend, hemits.trans hemits'⟩

/-- The windows fit into 16 bits. -/
structure Words (pcb : TcpPcb) : Prop where
  cwnd : pcb.cwnd < 65536
  ssthresh : pcb.ssthresh < 65536
  sndWnd : pcb.sndWnd < 65536

theorem Words.congr (h : Words pcb) (hcwnd : pcb'.cwnd = pcb.cwnd)
    (hssthresh : pcb'.ssthresh = pcb.ssthresh) (hsndWnd : pcb'.sndWnd = pcb.sndWnd) : Words pcb' :=
  ⟨hcwnd ▸ h.cwnd, hssthresh ▸ h.ssthresh, hsndWnd ▸ h.sndWnd⟩

theorem Words.outputLoop {wnd : Nat} {segs : List Segment} (h : Words pcb) :
    Words (outputLoop wnd segs pcb) := by
  induction segs generalizing pcb with
  | nil => exact h
  | cons seg rest ih =>
      unfold TcpPcb.outputLoop
      split
      next _ =>
        split
        next _ => exact h
        next _ => exact ih (h.congr rfl rfl rfl)
      next _ => exact h

theorem Words.tcpOutput (h : Words pcb) (mem : Bool) : Words (pcb.tcpOutput mem) := by
  unfold TcpPcb.tcpOutput
  dsimp only
  split
  next _ => exact h
  next _ =>
    split
    next _ =>
      unfold tcpSendEmptyAck
      split
      · exact h.congr rfl rfl rfl
      · exact h
    next _ =>
      have hloop : Words (TcpPcb.outputLoop (min pcb.sndWnd pcb.cwnd) pcb.unsent pcb) := h.outputLoop
      exact hloop.congr rfl rfl rfl

/-- The segment that is to be sent once more lies in the window. -/
def CanResend (pcb : TcpPcb) (seg : Segment) : Prop :=
  pcb.inInput = false ∧ pcb.inWindow (min pcb.sndWnd pcb.cwnd) seg = true

/-- A fast retransmission ends with the segment back in its place. -/
theorem Resending.tcpOutput_spec (h : Resending g pcb seg rest) (hcan : pcb.CanResend seg)
    (mem : Bool) :
    ∃ nxt, g.nxt ≤ nxt ∧ Pending { g with nxt } (pcb.tcpOutput mem) ∧
      Emits g pcb (pcb.tcpOutput mem) := by
  obtain ⟨hinput, hwindow⟩ := hcan
  have hnagle : pcb.tcpDoOutputNagle = true := by
    simp [tcpDoOutputNagle, h.infr]
  unfold tcpOutput
  dsimp only
  have hfits : pcb.nothingFits (min pcb.sndWnd pcb.cwnd) = false := by
    unfold nothingFits
    rw [h.unsent]
    simp [hwindow]
  rw [if_neg (by simp [hinput]), if_neg (by simp [hfits]), h.unsent]
  unfold outputLoop
  rw [if_pos hwindow, if_neg (by simp [hnagle])]
  obtain ⟨hsend, hemits⟩ := h.sendSegment_spec
  obtain ⟨nxt, hle, hsend', hemits'⟩ := outputLoop_spec hsend rfl
  exact ⟨nxt, hle, finishOutput_spec hsend' (hemits.trans hemits')⟩

/-- A probe is the first symbol of the segment. -/
theorem probe_symbols {limit : Nat} (hseg : seg.Wf limit) :
    symbols (if decide (seg.fin = true ∧ seg.len = 0) = true then [] else seg.data.take 1)
        (decide (seg.fin = true ∧ seg.len = 0)) = (symbols seg.data seg.fin).take 1 := by
  by_cases hfin : seg.fin = true ∧ seg.len = 0
  · have hdata : seg.data = [] := List.eq_nil_of_length_eq_zero (hseg.len ▸ hfin.2)
    simp [hfin, hdata, symbols]
  · have hlen : 1 ≤ seg.data.length := by
      have hpos := hseg.pos
      rw [Segment.tcpLen, hseg.syn, Bool.or_false, hseg.len] at hpos
      rw [hseg.len] at hfin
      by_contra hlt
      refine hfin ⟨?_, by omega⟩
      by_contra hne
      rw [if_neg hne] at hpos
      omega
    simp only [hfin, decide_false, Bool.false_eq_true, if_false]
    exact symbols_take _ seg.fin hlen

/-- One symbol of the first segment is sent, wherever that stands. -/
theorem zeroWindowProbe_spec (h : Pending g pcb) (mem : Bool) :
    Pending g (pcb.tcpZeroWindowProbe mem) ∧ Emits g pcb (pcb.tcpZeroWindowProbe mem) := by
  unfold tcpZeroWindowProbe
  split
  next _ => exact ⟨h, .refl g pcb⟩
  next seg hhead =>
    obtain ⟨segs, hqueue⟩ := List.head?_eq_some_iff.mp hhead
    have hseg := h.wf seg (by rw [queue, hqueue]; exact List.mem_cons_self)
    obtain ⟨y, hstart, hend, hseqno, hslice⟩ :=
      (h.emitted (hqueue.trans (List.nil_append _).symm) 0 0).slice
    dsimp only
    split
    next _ =>
      refine ⟨h.congr rfl, rfl, _, rfl, ?_⟩
      rw [List.forall_mem_singleton]
      refine ⟨rfl, ?_, y, hstart, ?_, hseqno, ?_⟩
      · split
        · exact Nat.zero_le _
        · exact Nat.le_trans (List.length_take_le _ _) (by decide)
      · dsimp only
        rw [probe_symbols hseg]
        exact Nat.le_trans (Nat.add_le_add_left (List.length_take_le' _ _) y) hend
      · dsimp only
        rw [probe_symbols hseg]
        exact hslice.take 1
    next _ => exact ⟨h, .refl g pcb⟩

/-! ## Retransmission -/

/-- All that has been sent goes back to the front of `unsent`. -/
theorem Pending.rexmitRto (h : Pending g pcb) :
    Pending g { pcb with unsent := pcb.unacked ++ pcb.unsent, unacked := [] } := by
  refine h.requeue (List.nil_append _) ?_ (Nat.le_refl _) h.nxt_le h.sndNxt ?_ ?_
  · exact Nat.le_trans h.start_le h.una_le
  · intro hnil
    exact h.oversize_none (List.append_eq_nil_iff.mp hnil).2
  · intro seg hseg
    cases hunsent : pcb.unsent with
    | nil =>
        rw [hunsent, List.append_nil] at hseg
        rw [h.oversize_none hunsent]
        have hmem : seg ∈ pcb.queue := List.mem_append_left _ (List.mem_of_getLast? hseg)
        exact ⟨(h.wf seg hmem).le, fun b _ => Nat.zero_le _⟩
    | cons s ss =>
        refine h.oversize seg ?_
        have hne : pcb.unsent ≠ [] := by simp [hunsent]
        rwa [List.getLast?_append_of_ne_nil _ hne] at hseg

/-- The retransmission timer runs out. -/
theorem rexmitTimeout_spec (h : Pending g pcb) (mem : Bool) :
    ∃ nxt, g.nxt ≤ nxt ∧ Pending { g with nxt } (pcb.rexmitTimeout mem) ∧
      Emits g pcb (pcb.rexmitTimeout mem) := by
  unfold rexmitTimeout
  split
  next _ => exact ⟨g.nxt, Nat.le_refl _, h, .refl g pcb⟩
  next hne =>
    unfold tcpRexmitRto
    rw [if_neg hne]
    apply Emits.tcpOutput
    · exact ⟨rfl, [], (List.append_nil _).symm, nofun⟩
    · exact h.rexmitRto.congr rfl

theorem Words.rexmitTimeout (h : Words pcb) (hmss : pcb.mss ≤ tcpMss) (mem : Bool) :
    Words (pcb.rexmitTimeout mem) := by
  have hmax : tcpMss = 1460 := rfl
  have hcwnd := h.cwnd
  unfold TcpPcb.rexmitTimeout
  split
  next _ => exact h
  next hne =>
    unfold tcpRexmitRto
    rw [if_neg hne]
    apply Words.tcpOutput
    refine ⟨?_, ?_, h.sndWnd⟩
    · dsimp only
      omega
    · dsimp only
      split
      · exact u16_lt _
      · omega

/-- What `tcp_rexmit_fast` leaves of the windows. -/
theorem tcpRexmitFast_words (h : Words pcb) (hmss : pcb.mss ≤ tcpMss) :
    Words pcb.tcpRexmitFast ∧
      (pcb.unacked ≠ [] ∧ pcb.infr = false → pcb.mss ≤ pcb.tcpRexmitFast.cwnd) := by
  have hmax : tcpMss = 1460 := rfl
  have hcwnd := h.cwnd
  have hsndWnd := h.sndWnd
  have hssthresh : ∀ ssthresh, ssthresh = (if pcb.cwnd > pcb.sndWnd then pcb.sndWnd / 2 else
      pcb.cwnd / 2) → (if ssthresh < 2 * pcb.mss then u16 (2 * pcb.mss) else ssthresh) ≤ 32767 := by
    rintro ssthresh rfl
    rw [u16_of_lt (by omega)]
    split <;> split <;> omega
  have hpcb : pcb.tcpRexmit.cwnd = pcb.cwnd ∧ pcb.tcpRexmit.sndWnd = pcb.sndWnd ∧
      pcb.tcpRexmit.mss = pcb.mss := by
    unfold tcpRexmit
    split <;> exact ⟨rfl, rfl, rfl⟩
  unfold tcpRexmitFast
  split
  next _ =>
    dsimp only
    rw [hpcb.1, hpcb.2.1, hpcb.2.2]
    have hle := hssthresh _ rfl
    generalize (if (if pcb.cwnd > pcb.sndWnd then pcb.sndWnd / 2 else pcb.cwnd / 2) < 2 * pcb.mss then
      u16 (2 * pcb.mss) else if pcb.cwnd > pcb.sndWnd then pcb.sndWnd / 2 else pcb.cwnd / 2) =
        ssthresh at hle
    refine ⟨⟨u16_lt _, by dsimp only; omega, hpcb.2.1 ▸ h.sndWnd⟩, fun _ => ?_⟩
    rw [u16_of_lt (by omega)]
    omega
  next hne => exact ⟨h, fun hdo => absurd hdo hne⟩

/-- `tcp_rexmit_fast` takes the first segment out of `unacked`. -/
theorem tcpRexmitFast_spec (h : Pending g pcb) (hwords : Words pcb) (hinfr : pcb.infr = false)
    (hunacked : pcb.unacked = seg :: rest) : Resending g pcb.tcpRexmitFast seg pcb.unsent := by
  have hcwnd := (tcpRexmitFast_words hwords h.mss_le).2 ⟨by simp [hunacked], hinfr⟩
  have hinsert : insertSorted seg pcb.unsent = seg :: pcb.unsent := by
    cases hunsent : pcb.unsent with
    | nil => rfl
    | cons s ss =>
        have hsplit : pcb.queue = [] ++ seg :: rest ++ s :: ss := by
          rw [queue, hunacked, hunsent, List.nil_append]
        rw [insertSorted, (h.seqno_lt hsplit).2, if_neg (by decide)]
  have hoversize : (if pcb.unsent.all fun s => lt s.seqno seg.seqno then 0 else
      pcb.unsentOversize) = pcb.unsentOversize := by
    rw [ite_eq_right_iff]
    intro hall
    cases hunsent : pcb.unsent with
    | nil => exact (h.oversize_none hunsent).symm
    | cons s ss =>
        have hsplit : pcb.queue = [] ++ seg :: rest ++ s :: ss := by
          rw [queue, hunacked, hunsent, List.nil_append]
        have hlt := List.all_eq_true.mp hall s (by simp [hunsent])
        rw [(h.seqno_lt hsplit).2] at hlt
        cases hlt
  unfold tcpRexmitFast at hcwnd ⊢
  rw [if_pos ⟨by simp [hunacked], hinfr⟩] at hcwnd ⊢
  unfold tcpRexmit at hcwnd ⊢
  rw [hunacked] at hcwnd ⊢
  dsimp only at hcwnd ⊢
  rw [hinsert, hoversize]
  refine ⟨rfl, rfl, hcwnd, h.congr ?_⟩
  unfold restored sendView
  rw [hunacked]

/-! ## What is certainly sent -/

/-- Whatever the loop of `tcp_output` sends, it sends behind what has been sent. -/
theorem outputLoop_wire (wnd : Nat) (segs : List Segment) (pcb : TcpPcb) :
    ∃ packets, (outputLoop wnd segs pcb).wire = pcb.wire ++ packets := by
  induction segs generalizing pcb with
  | nil => exact ⟨[], (List.append_nil _).symm⟩
  | cons seg rest ih =>
      unfold outputLoop
      split
      next _ =>
        split
        next _ => exact ⟨[], (List.append_nil _).symm⟩
        next _ =>
          obtain ⟨packets, hpackets⟩ := ih (pcb.sendSegment seg rest)
          have hsent : ∃ p, (pcb.sendSegment seg rest).wire = pcb.wire ++ [p] := ⟨_, rfl⟩
          obtain ⟨p, hsent⟩ := hsent
          exact ⟨[p] ++ packets, by rw [hpackets, hsent, List.append_assoc]⟩
      next _ => exact ⟨[], (List.append_nil _).symm⟩

/-- With nothing under way, `tcp_output` sends the first segment that the windows allow. -/
theorem tcpOutput_first (hinput : pcb.inInput = false) (hunacked : pcb.unacked = [])
    (hunsent : pcb.unsent = seg :: rest)
    (hfits : pcb.inWindow (min pcb.sndWnd pcb.cwnd) seg = true) (mem : Bool) :
    ∃ p packets, (pcb.tcpOutput mem).wire = pcb.wire ++ p :: packets ∧ p.seqno = seg.seqno ∧
      p.data = seg.data ∧ p.fin = seg.fin := by
  have hsome : pcb.nothingFits (min pcb.sndWnd pcb.cwnd) = false := by
    unfold nothingFits
    rw [hunsent]
    simp [hfits]
  have hnagle : pcb.tcpDoOutputNagle = true := by
    simp [tcpDoOutputNagle, hunacked]
  obtain ⟨packets, hpackets⟩ :=
    outputLoop_wire (min pcb.sndWnd pcb.cwnd) rest (pcb.sendSegment seg rest)
  have hsent : (pcb.sendSegment seg rest).wire = pcb.wire ++
      [{ seqno := seg.seqno, ackno := pcb.rcvNxt, wnd := pcb.rcvAnnWnd, syn := seg.syn
         fin := seg.fin, data := seg.data }] := rfl
  unfold TcpPcb.tcpOutput
  rw [if_neg (by simp [hinput])]
  dsimp only
  rw [if_neg (by simp [hsome]), hunsent]
  unfold outputLoop
  rw [if_pos hfits, if_neg (by simp [hnagle])]
  refine ⟨{ seqno := seg.seqno, ackno := pcb.rcvNxt, wnd := pcb.rcvAnnWnd, syn := seg.syn
            fin := seg.fin, data := seg.data }, packets, ?_, rfl, rfl, rfl⟩
  dsimp only
  rw [hpackets, hsent, List.append_assoc]
  rfl

/-- The first segment that is not acknowledged fits a congestion window of one segment. -/
theorem Pending.inWindow_mss (h : Pending g pcb) (hqueue : pcb.queue = seg :: rest)
    (hwnd : pcb.inWindow pcb.sndWnd seg = true) :
    pcb.inWindow (min pcb.sndWnd pcb.mss) seg = true := by
  have hwf := h.wf seg (by rw [hqueue]; exact List.mem_cons_self)
  have hhead := h.head seg (by rw [hqueue]; rfl)
  have hqueued := h.queued
  rw [hqueue] at hqueued
  have hstart := h.start_le
  have hmss : tcpMss = 1460 := rfl
  have hmssle := h.mss_le
  have hle : seg.len ≤ pcb.mss := Nat.le_trans hwf.le (Nat.min_le_left _ _)
  have hlen : seg.tcpLen ≤ seg.len + 1 := by
    unfold Segment.tcpLen
    split <;> omega
  unfold inWindow at hwnd ⊢
  rw [decide_eq_true_eq] at hwnd ⊢
  refine Nat.le_min.mpr ⟨hwnd, ?_⟩
  rw [hqueued.1, h.lastack]
  unfold sub32 seqAt u32
  omega

/-- When the retransmission timer has run out, the first segment that is not acknowledged is sent
again. -/
theorem rexmitTimeout_first (hinput : pcb.inInput = false) (hunacked : pcb.unacked = seg :: rest)
    (hfits : pcb.inWindow (min pcb.sndWnd pcb.mss) seg = true) (mem : Bool) :
    ∃ p packets, (pcb.rexmitTimeout mem).wire = pcb.wire ++ p :: packets ∧ p.seqno = seg.seqno ∧
      p.data = seg.data ∧ p.fin = seg.fin := by
  have hne : pcb.unacked ≠ [] := by
    rw [hunacked]
    exact List.cons_ne_nil _ _
  unfold rexmitTimeout
  rw [if_neg hne]
  dsimp only
  unfold tcpRexmitRto
  rw [if_neg hne]
  dsimp only
  apply tcpOutput_first
  · exact hinput
  · rfl
  · dsimp only
    rw [hunacked]
    rfl
  · exact hfits

end TcpPcb

end Meu1oARM
