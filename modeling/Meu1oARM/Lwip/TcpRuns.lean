import Meu1oARM.Lwip.TcpDelivery

/-! # Runs of one end of a connection

Whatever the application, the timers and the peer do, the queues hold what is not
acknowledged, every packet is a piece of what has been written, and no window that was
announced is taken back.
-/

namespace Meu1oARM

open Machine Serial TcpPcb

/-! ## One event -/

namespace TcpEvent

/-- What the event may acknowledge. -/
def ackno : TcpEvent → Option Nat
  | .input inseg _ _ _ _ _ => if inseg.hdr.ack then some inseg.hdr.ackno else none
  | _ => none

/-- An application that takes no more than there can be, and a peer that sends pieces of its stream
`peer`. -/
def Ok (pbase : Nat) (peer : List (Option UInt8)) (e : Endpoint) : TcpEvent → Prop
  | .call c => Endpoint.CallOk c
  | .input inseg _ sent received closed _ =>
    Admitted pbase e.count e.announced peer e.pcb inseg ∧ (∀ c ∈ sent, Endpoint.CallOk c) ∧
      (∀ c ∈ received, Endpoint.CallOk c) ∧ ∀ c ∈ closed, Endpoint.CallOk c
  | _ => True

theorem Ok.heeded {pbase : Nat} {peer : List (Option UInt8)} {e : Endpoint} {ev : TcpEvent}
    (h : ev.Ok pbase peer e) : Endpoint.Heeded pbase peer e ev := by
  cases ev with
  | call c => exact h
  | fastTimer mem => trivial
  | rexmitTimer mem => trivial
  | persistTimer mem => trivial
  | input inseg mem sent received closed memOut =>
      exact ⟨fun hrst hsyn => (h.1 hrst hsyn).1.carries, h.2⟩

end TcpEvent

namespace Endpoint

variable {e e₀ : Endpoint} {g : Progress} {base pbase low n edge : Nat} {peer : List (Option UInt8)}
  {pw : List UInt8} {pf : Bool} {ev : TcpEvent}

theorem Talking.step (h : Talking base g e) (hr : Receiving pbase e.count e.announced e.pcb)
    (hactive : e.active = true) (hlow : low ≤ e.stream.length) (hev : ev.Ok pbase peer e) :
    Advances base low g ev.ackno e (e.step ev) := by
  unfold Endpoint.step
  rw [if_pos hactive]
  cases ev with
  | call c => exact (h.call hr hactive hlow hev).advances _
  | fastTimer mem => exact (h.fastTimer hlow mem).advances _
  | rexmitTimer mem => exact (h.rexmitTimer hlow mem).advances _
  | persistTimer mem => exact (h.persistTimer hlow mem).advances _
  | input inseg mem sent received closed memOut =>
      obtain ⟨hin, hsent, hreceived, hclosed⟩ := hev
      exact h.input hr hactive hlow hin hsent hreceived hclosed mem memOut

/-! ## Any number of events -/

/-- What has happened to an end since it was `e₀`. -/
structure Course (base pbase : Nat) (pw : List UInt8) (pf : Bool) (e₀ e : Endpoint) : Prop where
  hearing : ∃ n edge, Receiving pbase n edge e.pcb ∧ Listening pw pf n e
  sending : ∃ una, (e.active = true → ∃ g, g.una = una ∧ Talking base g e) ∧
    Effect base e₀.stream.length una e₀ e

/-- Where an end stands that is told of everything. -/
theorem Listening.receiving (hl : Listening pw pf n e) (hr : Receiving pbase n edge e.pcb)
    (hactive : e.active = true) : Receiving pbase e.count e.announced e.pcb := by
  rwa [hl.count hactive, hl.announced_eq hr hactive]

theorem una_mono {ackno : Option Nat} {g' : Progress}
    (h : g'.una = g.una ∨ ∃ a ∈ ackno, g'.una = g.una + g.ackedBy a) : g.una ≤ g'.una := by
  cases h with
  | inl hsame => exact Nat.le_of_eq hsame.symm
  | inr hmore =>
      obtain ⟨a, -, hmore⟩ := hmore
      exact hmore ▸ Nat.le_add_right _ _

theorem Course.step (h : Course base pbase pw pf e₀ e) (hev : ev.Ok pbase (symbols pw pf) e) :
    Course base pbase pw pf e₀ (e.step ev) := by
  cases hactive : e.active with
  | false =>
      rw [step_inactive hactive]
      exact h
  | true =>
      obtain ⟨n, edge, hr, hl⟩ := h.hearing
      obtain ⟨una, htalk, heffect⟩ := h.sending
      obtain ⟨g, rfl, hnow⟩ := htalk hactive
      obtain ⟨n', edge', hhears, hl'⟩ := hl.step hr hev.heeded
      obtain ⟨g', huna, htalk', heffect'⟩ :=
        hnow.step (hl.receiving hr hactive) hactive heffect.stream.length_le hev
      exact ⟨⟨n', edge', hhears.receiving, hl'⟩, g'.una, fun hactive' => ⟨g', rfl, htalk' hactive'⟩,
        heffect.trans heffect' (una_mono huna)⟩

theorem Course.run (h : Course base pbase pw pf e₀ e) {evs : List TcpEvent}
    (hevs : Run.Steps Endpoint.step (fun e ev => ev.Ok pbase (symbols pw pf) e) e evs) :
    Course base pbase pw pf e₀ (Run.run Endpoint.step e evs) :=
  Run.invariant (fun _ _ hcourse hev => hcourse.step hev) h hevs

/-! ## The connection that has just been opened -/

/-- A connection that has just been opened: nothing has been written and nothing has come. -/
structure Opened (base pbase : Nat) (e : Endpoint) : Prop where
  written : e.written = []
  read : e.read = []
  eof : e.eof = false
  active : e.active = true
  state : e.pcb.state = .established
  finQueued : e.pcb.finQueued = false
  mss_pos : 0 < e.pcb.mss
  mss_le : e.pcb.mss ≤ tcpMss
  lastack : e.pcb.lastack = seqAt base 0
  sndNxt : e.pcb.sndNxt = seqAt base 0
  sndLbb : e.pcb.sndLbb = seqAt base 0
  sndBuf : e.pcb.sndBuf = tcpSndBuf
  sndQueuelen : e.pcb.sndQueuelen = 0
  unsentOversize : e.pcb.unsentOversize = 0
  unsent : e.pcb.unsent = []
  unacked : e.pcb.unacked = []
  words : Words e.pcb
  rcvNxt : e.pcb.rcvNxt = seqAt pbase 0
  rcvAnnRightEdge : ∃ edge ≤ tcpWnd, e.pcb.rcvAnnRightEdge = seqAt pbase edge
  rcvAnnWnd : e.pcb.rcvAnnWnd = tcpWnd
  rcvWnd : e.pcb.rcvWnd = tcpWnd
  asserted : e.pcb.asserted = true
  returned : e.pcb.returned = true
  wire : e.pcb.wire = []

theorem Opened.stream_eq (h : Opened base pbase e) : e.stream = [] := by
  rw [stream, h.written, h.finQueued]
  rfl

theorem Opened.count_eq (h : Opened base pbase e) : e.count = 0 := by
  rw [Endpoint.count_eq, h.read, h.eof]
  rfl

theorem Opened.sending (h : Opened base pbase e) :
    Pending { base, written := [], start := 0, una := 0, nxt := 0 } e.pcb := by
  have hqueue : e.pcb.queue = [] := by
    rw [queue, h.unacked, h.unsent]
    rfl
  have hstream : e.pcb.stream [] = [] := by
    rw [TcpPcb.stream, h.finQueued]
    rfl
  refine ⟨⟨?_, ?_, ?_, Nat.le_refl _, Nat.le_refl _, ?_, Nat.zero_le _, h.lastack, h.sndNxt,
    fun _ => h.sndLbb, ?_, ?_, ?_, ?_, fun _ => h.unsentOversize, ?_, ?_, h.mss_pos, h.mss_le⟩, ?_⟩
  · rw [hqueue]
    exact List.forall_mem_nil _
  · rw [hqueue]
    trivial
  · rw [hqueue, hstream]
    rfl
  · rw [h.unacked]
    exact Nat.le_refl _
  · rw [hstream, h.sndBuf]
    exact Nat.le_refl _
  · rw [hstream, h.sndBuf]
    exact Nat.le_add_right _ _
  · rw [hqueue, h.sndQueuelen]
    rfl
  · rw [h.sndQueuelen]
    exact Nat.zero_le _
  · rw [h.unsent]
    intro seg hseg
    cases hseg
  · rw [h.finQueued]
    intro htrue
    cases htrue
  · rw [hqueue]
    intro seg hseg
    cases hseg

theorem Opened.receiving (h : Opened base pbase e) : ∃ edge, Receiving pbase 0 edge e.pcb := by
  obtain ⟨edge, hle, hright⟩ := h.rcvAnnRightEdge
  refine ⟨edge, h.rcvNxt, hright, ?_, ?_, Nat.le_of_eq h.rcvWnd, Nat.zero_le _⟩
  · rw [h.rcvAnnWnd, Nat.zero_add]
    exact hle
  · exact Nat.le_of_eq (h.rcvAnnWnd.trans h.rcvWnd.symm)

theorem Opened.talking (h : Opened base pbase e) :
    Talking base { base, written := [], start := 0, una := 0, nxt := 0 } e := by
  refine ⟨rfl, h.written.symm, h.sending, h.words, ?_⟩
  rw [h.state]
  unfold Connected
  decide

theorem Opened.listening (h : Opened base pbase e) (pw : List UInt8) (pf : Bool) :
    Listening pw pf 0 e := by
  refine ⟨⟨?_, fun heof => ?_⟩, Nat.le_of_eq h.count_eq, Nat.zero_le _, fun _ => h.count_eq⟩
  · rw [h.read]
    exact List.nil_prefix
  · rw [h.eof] at heof
    cases heof

theorem Opened.course (h : Opened base pbase e) (pw : List UInt8) (pf : Bool) :
    Course base pbase pw pf e e := by
  obtain ⟨edge, hr⟩ := h.receiving
  exact ⟨⟨0, edge, hr, h.listening pw pf⟩, 0, fun _ => ⟨_, rfl, h.talking⟩, .refl e⟩

/-- A run in which the application takes no more than there can be and the peer sends pieces of its
stream. -/
def Played (pbase : Nat) (peer : List (Option UInt8)) (e : Endpoint) (evs : List TcpEvent) : Prop :=
  Run.Steps Endpoint.step (fun e ev => ev.Ok pbase peer e) e evs

/-! ## A sample connection -/

/-- A connection whose peer allows 1000 bytes. -/
def sampleEnd : Endpoint where
  pcb :=
    { state := .established
      ackDelay := false, ackNow := false, infr := false, finQueued := false, nodelay := false
      nagleMemErr := false, mss := 1460, rtime := -1, dupacks := 0, lastack := 100
      cwnd := 2920, ssthresh := 14600, nrtx := 0
      rcvNxt := 4294967295, rcvWnd := 2920, rcvAnnWnd := 2920, rcvAnnRightEdge := 2919
      sndNxt := 100, sndWl1 := 4294967294, sndWl2 := 100, sndLbb := 100
      sndWnd := 1000, sndWndMax := 1000, acked := 0, sndBuf := 2920, sndQueuelen := 0
      unsentOversize := 0, unsent := [], unacked := [], inInput := false
      asserted := true, returned := true, wire := [] }
  active := true
  rxClosed := false
  written := []
  read := []
  eof := false

/-- Two bytes are written and sent; the peer acknowledges them with three bytes and its FIN, which
are read; and the connection is closed. -/
def sampleEvents : List TcpEvent :=
  [.call (.write [65, 66] true false fun _ => true),
   .call (.output true),
   .input
     { hdr := { seqno := 4294967295, ackno := 102, wnd := 1000, ack := true, syn := false
                fin := true, rst := false, opts := [] }
       len := 3, p := [[1, 2], [3]] }
     true [] [.recved 3 true] [] true,
   .call (.close fun _ => true)]

theorem opened_sampleEnd : Opened 100 4294967295 sampleEnd where
  written := rfl
  read := rfl
  eof := rfl
  active := rfl
  state := rfl
  finQueued := rfl
  mss_pos := by decide
  mss_le := by decide
  lastack := rfl
  sndNxt := rfl
  sndLbb := rfl
  sndBuf := rfl
  sndQueuelen := rfl
  unsentOversize := rfl
  unsent := rfl
  unacked := rfl
  words := ⟨by decide, by decide, by decide⟩
  rcvNxt := rfl
  rcvAnnRightEdge := ⟨2920, by decide, by decide⟩
  rcvAnnWnd := rfl
  rcvWnd := rfl
  asserted := rfl
  returned := rfl
  wire := rfl

theorem played_sampleEvents :
    Played 4294967295 (symbols [1, 2, 3] true) sampleEnd sampleEvents := by
  refine ⟨trivial, trivial, ⟨fun _ _ => ?_, List.forall_mem_nil _, ?_, List.forall_mem_nil _⟩,
    trivial, trivial⟩
  · refine ⟨⟨⟨0, ⟨rfl, rfl⟩, rfl, ?_, by decide, by decide, by decide⟩, by decide, by decide, ?_,
      ?_⟩, by decide⟩
    · exact List.prefix_rfl
    · intro _
      unfold Timely
      decide
    · intro _ heq
      exact absurd heq (by decide)
  · intro c hc
    obtain rfl := List.mem_singleton.mp hc
    unfold CallOk
    decide

/-! ## What holds in every run -/

variable {evs evs' : List TcpEvent}

theorem Opened.run_course (h : Opened base pbase e) (hevs : Played pbase (symbols pw pf) e evs) :
    Course base pbase pw pf e (Run.run Endpoint.step e evs) :=
  (h.course pw pf).run hevs

theorem Played.fed (h : Played pbase peer e evs) : Fed pbase peer e evs :=
  Run.Steps.mono (fun _ _ hev => hev.heeded) h

theorem Opened.run_hears (h : Opened base pbase e) (hevs : Fed pbase (symbols pw pf) e evs) :
    ∃ edge n' edge', Hears pbase 0 edge n' edge' e.pcb (Run.run Endpoint.step e evs).pcb ∧
      Listening pw pf n' (Run.run Endpoint.step e evs) := by
  obtain ⟨edge, hr⟩ := h.receiving
  exact ⟨edge, (h.listening pw pf).run hr hevs⟩

/-- A piece of what takes sequence numbers, as a piece of the bytes. -/
theorem piece_of_slice {written data : List UInt8} {wfin fin : Bool} {y : Nat}
    (h : IsSlice (symbols written wfin) y (symbols data fin)) :
    IsSlice written y data ∧ (fin = true → wfin = true ∧ y + data.length = written.length) := by
  by_cases hnil : symbols data fin = []
  · obtain ⟨rfl, rfl⟩ : data = [] ∧ fin = false := by
      unfold symbols at hnil
      obtain ⟨hdata, hfin⟩ := List.append_eq_nil_iff.mp hnil
      refine ⟨List.map_eq_nil_iff.mp hdata, ?_⟩
      cases fin with
      | false => rfl
      | true => cases hfin
    exact ⟨IsSlice.nil _ _, fun hfin => Bool.noConfusion hfin⟩
  · have hend := h.le_length hnil
    have hpos := List.length_pos_iff.mpr hnil
    have hlen := length_symbols_le written wfin
    exact isSlice_symbols (by omega) h

/-- Every packet is the piece of what has been written that its sequence number says, with the FIN
at the end alone, and acknowledges nothing that the peer has not sent. -/
theorem packets_of_run (h : Opened base pbase e) (hevs : Played pbase (symbols pw pf) e evs) :
    ∀ p ∈ (Run.run Endpoint.step e evs).pcb.wire, p.syn = false ∧ p.data.length ≤ tcpMss ∧
      (∃ y, p.seqno = seqAt base y ∧
        IsSlice (Run.run Endpoint.step e evs).written y p.data ∧
        (p.fin = true → (Run.run Endpoint.step e evs).pcb.finQueued = true ∧
          y + p.data.length = (Run.run Endpoint.step e evs).written.length)) ∧
      ∃ a, a ≤ (symbols pw pf).length ∧ p.ackno = seqAt pbase a := by
  obtain ⟨-, una, -, heffect⟩ := h.run_course hevs
  obtain ⟨packets, hwire, hall⟩ := heffect.wire
  obtain ⟨edge, n', edge', hhears, hl⟩ := h.run_hears hevs.fed
  obtain ⟨packets', hwire', hall'⟩ := hhears.wire
  rw [h.wire, List.nil_append] at hwire hwire'
  intro p hp
  have hack : Allows pbase 0 edge n' edge' p := hall' p (hwire' ▸ hp)
  rw [hwire] at hp
  obtain ⟨hsyn, hlen, y, -, -, hseqno, hslice⟩ := hall p hp
  obtain ⟨a, -, ha, hackno, -, -⟩ := hack
  exact ⟨hsyn, hlen, ⟨y, hseqno, piece_of_slice hslice⟩, a, Nat.le_trans ha hl.le_length, hackno⟩

theorem packets_of_run_sampleEnd :
    false = false ∧ [65, 66].length ≤ tcpMss ∧
      (∃ y, 100 = seqAt 100 y ∧
        IsSlice (Run.run Endpoint.step sampleEnd sampleEvents).written y [65, 66] ∧
        (false = true → (Run.run Endpoint.step sampleEnd sampleEvents).pcb.finQueued = true ∧
          y + [65, 66].length = (Run.run Endpoint.step sampleEnd sampleEvents).written.length)) ∧
      ∃ a, a ≤ (symbols [1, 2, 3] true).length ∧ 4294967295 = seqAt 4294967295 a :=
  packets_of_run opened_sampleEnd played_sampleEvents
    { seqno := 100, ackno := 4294967295, wnd := 2920, syn := false, fin := false
      data := [65, 66] } (by decide)

example : (Run.run Endpoint.step sampleEnd sampleEvents).pcb.wire.map Packet.data =
    [[65, 66], [], []] := by decide

/-- The queues of a connection that is there hold exactly what has been written and is not
acknowledged, and the counters agree with them. -/
theorem queues_of_run (h : Opened base pbase e) (hevs : Played pbase (symbols pw pf) e evs)
    (hactive : (Run.run Endpoint.step e evs).active = true) :
    ∃ g : Progress, g.base = base ∧ g.written = (Run.run Endpoint.step e evs).written ∧
      Pending g (Run.run Endpoint.step e evs).pcb := by
  obtain ⟨-, una, htalk, -⟩ := h.run_course hevs
  obtain ⟨g, -, htalk⟩ := htalk hactive
  exact ⟨g, htalk.base, htalk.written, htalk.sending⟩

theorem queues_of_run_sampleEnd :
    ∃ g : Progress, g.base = 100 ∧
      g.written = (Run.run Endpoint.step sampleEnd sampleEvents).written ∧
      Pending g (Run.run Endpoint.step sampleEnd sampleEvents).pcb :=
  queues_of_run opened_sampleEnd played_sampleEvents (by decide)

/-- The application has been given the peer's bytes from the first one on, in order and without a
gap, and has been told of the end where they end. -/
theorem read_of_run (h : Opened base pbase e) (hevs : Fed pbase (symbols pw pf) e evs) :
    (Run.run Endpoint.step e evs).read <+: pw ∧
      ((Run.run Endpoint.step e evs).eof = true →
        (Run.run Endpoint.step e evs).read = pw ∧ pf = true) := by
  obtain ⟨-, n', edge', -, hl⟩ := h.run_hears hevs
  exact ⟨hl.reading.read, hl.reading.eof⟩

theorem read_of_run_sampleEnd :
    (Run.run Endpoint.step sampleEnd sampleEvents).read <+: [1, 2, 3] ∧
      ((Run.run Endpoint.step sampleEnd sampleEvents).eof = true →
        (Run.run Endpoint.step sampleEnd sampleEvents).read = [1, 2, 3] ∧ true = true) :=
  read_of_run opened_sampleEnd played_sampleEvents.fed

/-- Where the peer allows it, the retransmission timer sends the segment that has the first symbol
which is not acknowledged. -/
theorem rexmit_of_run (h : Opened base pbase e) (hevs : Played pbase (symbols pw pf) e evs)
    (hactive : (Run.run Endpoint.step e evs).active = true) {seg : Segment} {rest : List Segment}
    (hunacked : (Run.run Endpoint.step e evs).pcb.unacked = seg :: rest)
    (hwnd : (Run.run Endpoint.step e evs).pcb.inWindow (Run.run Endpoint.step e evs).pcb.sndWnd seg =
      true)
    (hinput : e.pcb.inInput = false)
    (hnrtx : (Run.run Endpoint.step e evs).pcb.nrtx ≠ tcpMaxrtx) (mem : Bool) :
    (∃ p packets, ((Run.run Endpoint.step e evs).rexmitTimer mem).pcb.wire =
        (Run.run Endpoint.step e evs).pcb.wire ++ p :: packets ∧
      p.seqno = seg.seqno ∧ p.data = seg.data ∧ p.fin = seg.fin) ∧
    ∃ y u, seg.seqno = seqAt base y ∧ (Run.run Endpoint.step e evs).pcb.lastack = seqAt base u ∧
      y ≤ u ∧ u < y + seg.tcpLen := by
  obtain ⟨-, una, htalk, -⟩ := h.run_course hevs
  obtain ⟨g, -, htalk⟩ := htalk hactive
  have hsend := htalk.sending
  have hbase := htalk.base
  have hinput := run_inInput hinput hactive
  unfold Endpoint.rexmitTimer
  rw [if_neg hnrtx]
  dsimp only
  generalize (Run.run Endpoint.step e evs).pcb = pcb at *
  have hqueue : pcb.queue = seg :: (rest ++ pcb.unsent) := by
    rw [queue, hunacked]
    rfl
  have hhead := hsend.head seg (by rw [hqueue]; rfl)
  have hqueued := hsend.queued
  rw [hqueue] at hqueued
  exact ⟨rexmitTimeout_first hinput hunacked (hsend.inWindow_mss hqueue hwnd) mem,
    g.start, g.una, hbase ▸ hqueued.1, hbase ▸ hsend.lastack, hsend.start_le, hhead⟩

theorem rexmit_of_run_sampleEnd :
    (∃ p packets,
      ((Run.run Endpoint.step sampleEnd (sampleEvents.take 2)).rexmitTimer true).pcb.wire =
        (Run.run Endpoint.step sampleEnd (sampleEvents.take 2)).pcb.wire ++ p :: packets ∧
      p.seqno = 100 ∧ p.data = [65, 66] ∧ p.fin = false) ∧
    ∃ y u, 100 = seqAt 100 y ∧
      (Run.run Endpoint.step sampleEnd (sampleEvents.take 2)).pcb.lastack = seqAt 100 u ∧
      y ≤ u ∧ u < y + 2 :=
  @rexmit_of_run sampleEnd 100 4294967295 [1, 2, 3] true (sampleEvents.take 2) opened_sampleEnd
    (played_sampleEvents.of_isPrefixOf (List.take_prefix 2 sampleEvents)) (by decide)
    { seqno := 100, len := 2, bufs := [{ data := [65, 66], spare := 0 }], syn := false
      fin := false, psh := true, ack := true } [] (by decide) (by decide) (by decide) (by decide) true

/-- No window is taken back: whatever is sent later allows the peer as much as before, and what it
acknowledges has been accepted since. -/
theorem window_of_run (h : Opened base pbase e)
    (hevs : Fed pbase (symbols pw pf) e (evs ++ evs')) :
    ∃ n edge, n ≤ (symbols pw pf).length ∧
      (Run.run Endpoint.step e (evs ++ evs')).pcb.rcvNxt = seqAt pbase n ∧
      ((Run.run Endpoint.step e (evs ++ evs')).active = true →
        n = (Run.run Endpoint.step e (evs ++ evs')).count ∧
          edge = (Run.run Endpoint.step e (evs ++ evs')).announced) ∧
      (Run.run Endpoint.step e evs).announced ≤ edge ∧
      ∃ packets, (Run.run Endpoint.step e (evs ++ evs')).pcb.wire =
          (Run.run Endpoint.step e evs).pcb.wire ++ packets ∧
        ∀ p ∈ packets, ∃ a, (Run.run Endpoint.step e evs).count ≤ a ∧ a ≤ n ∧
          p.ackno = seqAt pbase a ∧ (Run.run Endpoint.step e evs).announced ≤ a + p.wnd ∧
          a + p.wnd ≤ edge := by
  obtain ⟨hfirst, hsecond⟩ := Run.steps_append.mp hevs
  obtain ⟨_, n₁, edge₁, hhears₁, hl₁⟩ := h.run_hears hfirst
  rw [Run.run_append]
  generalize Run.run Endpoint.step e evs = e₁ at *
  have hr₁ := hhears₁.receiving
  have hcount : e₁.count ≤ n₁ := hl₁.count_le
  have hannounced : e₁.announced ≤ edge₁ := by
    rw [announced_eq hr₁]
    omega
  obtain ⟨n, edge, hhears, hl⟩ := hl₁.run hr₁ hsecond
  obtain ⟨packets, hwire, hall⟩ := hhears.wire
  refine ⟨n, edge, hl.le_length, hhears.receiving.rcvNxt, fun hactive => ?_,
    Nat.le_trans hannounced hhears.edge_le, packets, hwire, fun p hp => ?_⟩
  · exact ⟨(hl.count hactive).symm, (hl.announced_eq hhears.receiving hactive).symm⟩
  · obtain ⟨a, hlow, ha, hackno, hwnd, hwnd'⟩ := hall p hp
    exact ⟨a, Nat.le_trans hcount hlow, ha, hackno, Nat.le_trans hannounced hwnd, hwnd'⟩

theorem window_of_run_sampleEnd :
    ∃ n edge, n ≤ (symbols [1, 2, 3] true).length ∧
      (Run.run Endpoint.step sampleEnd sampleEvents).pcb.rcvNxt = seqAt 4294967295 n ∧
      ((Run.run Endpoint.step sampleEnd sampleEvents).active = true →
        n = (Run.run Endpoint.step sampleEnd sampleEvents).count ∧
          edge = (Run.run Endpoint.step sampleEnd sampleEvents).announced) ∧
      (Run.run Endpoint.step sampleEnd (sampleEvents.take 2)).announced ≤ edge ∧
      ∃ packets, (Run.run Endpoint.step sampleEnd sampleEvents).pcb.wire =
          (Run.run Endpoint.step sampleEnd (sampleEvents.take 2)).pcb.wire ++ packets ∧
        ∀ p ∈ packets, ∃ a, (Run.run Endpoint.step sampleEnd (sampleEvents.take 2)).count ≤ a ∧
          a ≤ n ∧ p.ackno = seqAt 4294967295 a ∧
          (Run.run Endpoint.step sampleEnd (sampleEvents.take 2)).announced ≤ a + p.wnd ∧
          a + p.wnd ≤ edge :=
  @window_of_run sampleEnd 100 4294967295 [1, 2, 3] true (sampleEvents.take 2)
    (sampleEvents.drop 2) opened_sampleEnd played_sampleEvents.fed

end Endpoint

end Meu1oARM
