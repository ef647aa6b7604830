import Mathlib.Logic.Function.Basic
import Meu1oARM.Lwip.TcpRuns

/-! # Two ends and the network between them

The network may lose, repeat and reorder what the ends send. Each end is given a
beginning of what the other one has written, and what is acknowledged has been read.
-/

namespace Meu1oARM

open Machine Serial TcpPcb Endpoint

/-- A packet on its way, and how far its sender had come in both directions before it was sent. -/
structure Flight where
  packet : Packet
  sent : Nat
  heard : Nat
  deriving DecidableEq

/-- Two ends, and all the packets that each of them has sent. -/
structure Link where
  ends : Bool → Endpoint
  flights : Bool → List Flight

/-- The segment as which a packet arrives, in some pbufs. lwIP puts an option into a SYN only. -/
structure Arrives (p : Packet) (inseg : Inseg) : Prop where
  hdr : inseg.hdr =
    { seqno := p.seqno, ackno := p.ackno, wnd := u16 p.wnd, ack := true, syn := p.syn, fin := p.fin
      rst := false, opts := [] }
  len : inseg.len = p.data.length
  data : inseg.p.flatten = p.data

namespace Link

variable {l : Link} {s t : Bool} {ev : TcpEvent} {base : Bool → Nat}

/-- Something happens to the end `ev.1`. -/
def step (l : Link) (ev : Bool × TcpEvent) : Link :=
  let e := l.ends ev.1
  let e' := e.step ev.2
  { ends := Function.update l.ends ev.1 e'
    flights := Function.update l.flights ev.1
      (l.flights ev.1 ++ (e'.pcb.wire.drop e.pcb.wire.length).map fun packet =>
        { packet, sent := e.stream.length, heard := e.count }) }

/-- A segment is a packet that the other end has sent, at some time since which neither direction
has come far, and takes back no window that is in use. -/
def Delivers (l : Link) (s : Bool) (inseg : Inseg) : Prop :=
  (∃ f ∈ l.flights !s, Arrives f.packet inseg ∧ (l.ends s).count ≤ f.sent + 536870912 ∧
    (l.ends s).stream.length ≤ f.heard + 536870912) ∧
  (inseg.hdr.ackno = (l.ends s).pcb.lastack → ∀ seg ∈ (l.ends s).pcb.unacked.head?,
    (l.ends s).pcb.inWindow ((l.ends s).pcb.updateWindow inseg.hdr).sndWnd seg = true)

def Ok (l : Link) (ev : Bool × TcpEvent) : Prop :=
  match ev.2 with
  | .call c => CallOk c
  | .input inseg _ sent received closed _ =>
    l.Delivers ev.1 inseg ∧ (∀ c ∈ sent, CallOk c) ∧ (∀ c ∈ received, CallOk c) ∧
      ∀ c ∈ closed, CallOk c
  | _ => True

theorem not_ne_self (s : Bool) : (!s) ≠ s := by
  cases s <;> decide

theorem not_or_eq (t s : Bool) : t = s ∨ t = !s := by
  cases t <;> cases s <;> decide

@[simp] theorem step_ends_self (l : Link) (s : Bool) (ev : TcpEvent) :
    (l.step (s, ev)).ends s = (l.ends s).step ev := Function.update_self _ _ _

@[simp] theorem step_ends_not (l : Link) (s : Bool) (ev : TcpEvent) :
    (l.step (s, ev)).ends (!s) = l.ends (!s) := Function.update_of_ne (not_ne_self s) _ _

@[simp] theorem step_flights_self (l : Link) (s : Bool) (ev : TcpEvent) :
    (l.step (s, ev)).flights s = l.flights s ++
      (((l.ends s).step ev).pcb.wire.drop (l.ends s).pcb.wire.length).map fun packet =>
        { packet, sent := (l.ends s).stream.length, heard := (l.ends s).count } :=
  Function.update_self _ _ _

@[simp] theorem step_flights_not (l : Link) (s : Bool) (ev : TcpEvent) :
    (l.step (s, ev)).flights (!s) = l.flights (!s) :=
  Function.update_of_ne (not_ne_self s) _ _

/-! ## How the two ends fit together -/

/-- How far an end has come: what it has accepted, what it has allowed the peer to send, and what of
its own stream is acknowledged. -/
structure Mark where
  n : Nat
  edge : Nat
  una : Nat

/-- One end of a link, whose peer has come to `m'`. -/
structure Fits (base : Bool → Nat) (l : Link) (s : Bool) (m m' : Mark) : Prop where
  listening : Listening (l.ends !s).written (l.ends !s).pcb.finQueued m.n (l.ends s)
  receiving : Receiving (base !s) m.n m.edge (l.ends s).pcb
  una_le : m.una ≤ m'.n
  una_le_edge : m.una ≤ m'.edge
  talking : (l.ends s).active = true → ∃ g, g.una = m.una ∧ Talking (base s) g (l.ends s)
  flights : ∀ f ∈ l.flights s, Sent (base s) (l.ends s).stream f.sent m.una f.packet ∧
    Allows (base !s) f.heard 0 m.n m.edge f.packet

/-- The invariant of a link. -/
def Joined (base : Bool → Nat) (l : Link) : Prop :=
  ∃ m : Bool → Mark, ∀ s, Fits base l s (m s) (m !s)

/-- The peer's stream has grown. -/
theorem listening_mono {e : Endpoint} {n : Nat} {pw pw' : List UInt8} {pf pf' : Bool}
    (hstream : symbols pw pf <+: symbols pw' pf') (h : Listening pw pf n e) :
    Listening pw' pf' n e := by
  have hslice : IsSlice (symbols pw' pf') 0 (symbols pw pf) := hstream
  obtain ⟨hpiece, hend⟩ := piece_of_slice hslice
  have hpw : pw <+: pw' := hpiece
  refine ⟨⟨h.reading.read.trans hpw, fun heof => ?_⟩, h.count_le,
    Nat.le_trans h.le_length hstream.length_le, h.count⟩
  obtain ⟨hread, hpf⟩ := h.reading.eof heof
  obtain ⟨hpf', hlength⟩ := hend hpf
  rw [hread]
  exact ⟨hpw.eq_of_length (by rwa [Nat.zero_add] at hlength), hpf'⟩

/-! ## What arrives -/

/-- An acknowledgement that is not too old acknowledges what it says, or nothing. -/
theorem acked_le {g : Progress} {pcb : TcpPcb} {a : Nat} (h : Pending g pcb)
    (hnew : a ≤ g.una + (tcpSndBuf + 1)) (hold : g.una ≤ a + 536870912) :
    g.una + g.ackedBy (seqAt g.base a) ≤ max g.una a := by
  have hbuf : tcpSndBuf = 2920 := rfl
  have hnxt := h.nxt_le
  have hroom := h.stream_length_le
  unfold Progress.ackedBy
  by_cases hle : g.una ≤ a
  · rw [sub32_seqAt hle (by omega)]
    split <;> omega
  · rw [Nat.not_le] at hle
    rw [sub32_seqAt_of_lt hle (by omega), if_neg (by omega)]
    exact Nat.le_max_left _ _

theorem timely_of_near {g : Progress} {pcb : TcpPcb} {a : Nat} (h : Pending g pcb)
    (hnew : a ≤ g.una + (tcpSndBuf + 1)) (hold : g.una ≤ a + 536870912) :
    pcb.Timely (seqAt g.base a) := by
  have hbuf : tcpSndBuf = 2920 := rfl
  unfold Timely
  rw [h.lastack]
  by_cases hle : a ≤ g.una
  · rw [sub32_seqAt hle (by omega)]
    exact .inl (by omega)
  · rw [Nat.not_le] at hle
    rw [sub32_seqAt_of_lt hle (by omega)]
    exact .inr (by omega)

variable {m m' : Mark} {g : Progress} {inseg : Inseg}

/-- Where the acknowledgement of a packet that arrives stands. -/
theorem Delivers.ackno (h' : Fits base l (!s) m' m)
    (htalk : Talking (base s) g (l.ends s)) (hd : l.Delivers s inseg) :
    inseg.hdr.ack = true ∧ ∃ a, inseg.hdr.ackno = seqAt g.base a ∧ a ≤ m'.n ∧ a ≤ m'.edge ∧
      a ≤ g.una + (tcpSndBuf + 1) ∧ g.una ≤ a + 536870912 := by
  obtain ⟨⟨f, hf, harrives, -, hheard⟩, -⟩ := hd
  obtain ⟨a, hlow, ha, hackno, -, hedge⟩ := (h'.flights f hf).2
  have hn : m'.n ≤ (l.ends !!s).stream.length := h'.listening.le_length
  rw [Bool.not_not] at hackno hn
  have hlength : (l.ends s).stream.length ≤ g.una + (tcpSndBuf + 1) := by
    rw [htalk.stream_eq]
    exact htalk.sending.stream_length_le
  have huna : g.una ≤ (l.ends s).stream.length := by
    rw [htalk.stream_eq]
    exact Nat.le_trans htalk.sending.una_le htalk.sending.nxt_le
  rw [harrives.hdr]
  refine ⟨rfl, a, ?_, ha, by omega, by omega, by omega⟩
  rw [htalk.base]
  exact hackno

/-- What the other end has sent is admitted. -/
theorem Delivers.admitted (h' : Fits base l (!s) m' m)
    (htalk : Talking (base s) g (l.ends s)) (hn : m.n = (l.ends s).count)
    (hd : l.Delivers s inseg) :
    Admitted (base !s) m.n m.edge (l.ends !s).stream (l.ends s).pcb inseg := by
  intro _ _
  have hbuf : tcpSndBuf = 2920 := rfl
  have hmax : tcpMss = 1460 := rfl
  obtain ⟨-, a, hackno, -, -, hnew, hold⟩ := Delivers.ackno h' htalk hd
  obtain ⟨⟨f, hf, harrives, hcount, -⟩, hcovers⟩ := hd
  have hsent := (h'.flights f hf).1
  obtain ⟨y, hlow, hend, hseqno, hslice⟩ := hsent.data
  have hlen := hsent.len
  have hedge := h'.una_le_edge
  have hwf : inseg.Wf := by
    refine ⟨?_, ?_⟩
    · rw [harrives.len, harrives.data]
    · rw [harrives.hdr]
      exact hsent.syn
  have hsymbols : inseg.symbols = symbols f.packet.data f.packet.fin := by
    rw [Inseg.symbols, harrives.data, harrives.hdr]
  have htcpLen : inseg.tcpLen = (symbols f.packet.data f.packet.fin).length := by
    rw [← hwf.length_symbols, hsymbols]
  have hshort := length_symbols_le f.packet.data f.packet.fin
  have hmss : (l.ends s).pcb.mss ≤ ((l.ends s).pcb.tcpParseopt inseg.hdr).mss := by
    rw [harrives.hdr]
    exact Nat.le_refl _
  refine ⟨⟨⟨y, hwf, ?_, ?_, by omega, by omega, by omega⟩, ?_, ?_, fun _ => ?_, fun _ => hcovers⟩,
    hmss⟩
  · rw [harrives.hdr]
    exact hseqno
  · rw [hsymbols]
    exact hslice
  · rw [hackno]
    exact seqAt_lt _ _
  · rw [harrives.hdr]
    exact Nat.mod_lt _ (by decide)
  · rw [hackno]
    exact timely_of_near htalk.sending hnew hold

theorem Ok.event (h' : Fits base l (!s) m' m)
    (htalk : Talking (base s) g (l.ends s)) (hn : m.n = (l.ends s).count)
    (hedge : m.edge = (l.ends s).announced) (hok : l.Ok (s, ev)) :
    ev.Ok (base !s) (l.ends !s).stream (l.ends s) := by
  cases ev with
  | call c => exact hok
  | fastTimer mem => trivial
  | rexmitTimer mem => trivial
  | persistTimer mem => trivial
  | input inseg mem sent received closed memOut =>
      refine ⟨?_, hok.2⟩
      have hadmitted := Delivers.admitted h' htalk hn hok.1
      rwa [hn, hedge] at hadmitted

/-! ## One event, and any number of them -/

theorem step_inactive (hactive : (l.ends s).active = false) (ev : TcpEvent) : l.step (s, ev) = l := by
  have hend : (l.ends s).step ev = l.ends s := Endpoint.step_inactive hactive ev
  unfold step
  dsimp only
  rw [hend, List.drop_length, List.map_nil, List.append_nil, Function.update_eq_self,
    Function.update_eq_self]

/-- What the event leaves of the end that it happens to. -/
theorem Fits.step_self {g' : Progress} {n' edge' : Nat} (h : Fits base l s m m')
    (h' : Fits base l (!s) m' m) (hg : g.una = m.una) (htalk : Talking (base s) g (l.ends s))
    (hcount : (l.ends s).count = m.n) (hok : l.Ok (s, ev))
    (hl : Listening (l.ends !s).written (l.ends !s).pcb.finQueued n' ((l.ends s).step ev))
    (hhears : Hears (base !s) m.n m.edge n' edge' (l.ends s).pcb ((l.ends s).step ev).pcb)
    (huna : g'.una = g.una ∨ ∃ a ∈ ev.ackno, g'.una = g.una + g.ackedBy a)
    (htalk' : ((l.ends s).step ev).active = true → Talking (base s) g' ((l.ends s).step ev))
    (heffect : Effect (base s) (l.ends s).stream.length g'.una (l.ends s) ((l.ends s).step ev)) :
    Fits base (l.step (s, ev)) s { n := n', edge := edge', una := g'.una } m' := by
  have hmono : m.una ≤ g'.una := hg ▸ una_mono huna
  have hbound : g'.una ≤ m'.n ∧ g'.una ≤ m'.edge := by
    cases huna with
    | inl hsame =>
        rw [hsame, hg]
        exact ⟨h.una_le, h.una_le_edge⟩
    | inr hmore =>
        obtain ⟨a, ha, hmore⟩ := hmore
        cases ev with
        | call c => cases ha
        | fastTimer mem => cases ha
        | rexmitTimer mem => cases ha
        | persistTimer mem => cases ha
        | input inseg mem sent received closed memOut =>
            obtain ⟨hack, x, hackno, hxn, hxedge, hnew, hold⟩ := Delivers.ackno h' htalk hok.1
            rw [TcpEvent.ackno, if_pos hack, Option.mem_some_iff] at ha
            rw [← ha, hackno] at hmore
            have hle := acked_le htalk.sending hnew hold
            rw [← hmore] at hle
            have hn' := h.una_le
            have hedge' := h.una_le_edge
            exact ⟨by omega, by omega⟩
  refine ⟨?_, ?_, hbound.1, hbound.2, ?_, ?_⟩
  · rw [step_ends_not, step_ends_self]
    exact hl
  · rw [step_ends_self]
    exact hhears.receiving
  · rw [step_ends_self]
    exact fun hactive => ⟨g', rfl, htalk' hactive⟩
  · obtain ⟨packets, hwire, hall⟩ := heffect.wire
    obtain ⟨packets', hwire', hall'⟩ := hhears.wire
    obtain rfl : packets = packets' := List.append_cancel_left (hwire.symm.trans hwire')
    rw [step_flights_self, step_ends_self, hwire, List.drop_left]
    refine List.forall_mem_append.mpr ⟨fun f hf => ?_, ?_⟩
    · obtain ⟨hsent, hallows⟩ := h.flights f hf
      exact ⟨hsent.mono heffect.stream hmono,
        hallows.mono (Nat.le_refl _) (Nat.le_refl _) hhears.count_le hhears.edge_le⟩
    · intro f hf
      obtain ⟨p, hp, rfl⟩ := List.mem_map.mp hf
      exact ⟨hall p hp, (hall' p hp).mono (Nat.le_of_eq hcount) (Nat.zero_le _) (Nat.le_refl _)
        (Nat.le_refl _)⟩

/-- What the event leaves of the other end. -/
theorem Fits.step_other {n' edge' una' : Nat} (h' : Fits base l (!s) m' m)
    (hstream : (l.ends s).stream <+: ((l.ends s).step ev).stream) (hn : m.n ≤ n')
    (hedge : m.edge ≤ edge') :
    Fits base (l.step (s, ev)) (!s) m' { n := n', edge := edge', una := una' } := by
  have hlistening := h'.listening
  have hreceiving := h'.receiving
  have htalking := h'.talking
  have hflights := h'.flights
  rw [Bool.not_not] at hlistening hreceiving hflights
  refine ⟨?_, ?_, Nat.le_trans h'.una_le hn, Nat.le_trans h'.una_le_edge hedge, ?_, ?_⟩
  · rw [Bool.not_not, step_ends_self, step_ends_not]
    exact listening_mono hstream hlistening
  · rw [Bool.not_not, step_ends_not]
    exact hreceiving
  · rw [step_ends_not]
    exact htalking
  · rw [Bool.not_not, step_flights_not, step_ends_not]
    exact hflights

theorem Joined.step (h : Joined base l) (hok : l.Ok (s, ev)) : Joined base (l.step (s, ev)) := by
  cases hactive : (l.ends s).active with
  | false =>
      rw [step_inactive hactive]
      exact h
  | true =>
      obtain ⟨m, hm⟩ := h
      have hs := hm s
      have hs' := hm !s
      rw [Bool.not_not] at hs'
      obtain ⟨g, hg, htalk⟩ := hs.talking hactive
      have hcount := hs.listening.count hactive
      have hannounced := hs.listening.announced_eq hs.receiving hactive
      have hev := Ok.event hs' htalk hcount.symm hannounced.symm hok
      obtain ⟨n', edge', hhears, hl⟩ := hs.listening.step hs.receiving hev.heeded
      obtain ⟨g', huna, htalking, heffect⟩ :=
        htalk.step (hs.listening.receiving hs.receiving hactive) hactive (Nat.le_refl _) hev
      have hself := hs.step_self hs' hg htalk hcount hok hl hhears huna htalking heffect
      have hother : Fits base (l.step (s, ev)) (!s) (m !s) { n := n', edge := edge', una := g'.una } :=
        hs'.step_other heffect.stream hhears.count_le hhears.edge_le
      refine ⟨Function.update m s { n := n', edge := edge', una := g'.una }, fun t => ?_⟩
      rcases not_or_eq t s with rfl | rfl
      · rw [Function.update_self, Function.update_of_ne (not_ne_self t)]
        exact hself
      · rw [Bool.not_not, Function.update_self, Function.update_of_ne (not_ne_self s)]
        exact hother

theorem Joined.run (h : Joined base l) {evs : List (Bool × TcpEvent)}
    (hevs : Run.Steps Link.step Ok l evs) : Joined base (Run.run Link.step l evs) :=
  Run.invariant (fun _ _ hjoined hok => hjoined.step hok) h hevs

/-- Two ends that have just opened a connection with each other. -/
structure Opened (base : Bool → Nat) (l : Link) : Prop where
  ends : ∀ s, Endpoint.Opened (base s) (base !s) (l.ends s)
  flights : ∀ s, l.flights s = []

theorem Opened.joined (h : Opened base l) : Joined base l := by
  refine ⟨fun s => { n := 0, edge := (l.ends s).announced, una := 0 }, fun s => ?_⟩
  refine ⟨(h.ends s).listening _ _, ?_, Nat.le_refl _, Nat.zero_le _,
    fun _ => ⟨_, rfl, (h.ends s).talking⟩, ?_⟩
  · obtain ⟨edge, hr⟩ := (h.ends s).receiving
    dsimp only
    rw [announced_eq hr, (h.ends s).count_eq, Nat.zero_add, Nat.sub_zero]
    exact hr
  · rw [h.flights s]
    exact List.forall_mem_nil _

/-! ## A sample link -/

/-- Two ends that allow each other 1000 bytes. -/
def sampleLink : Link where
  ends s :=
    if s then
      { sampleEnd with
        pcb := { sampleEnd.pcb with
          lastack := 4294967295, sndNxt := 4294967295, sndLbb := 4294967295
          rcvNxt := 100, rcvAnnRightEdge := 3020, sndWl1 := 99, sndWl2 := 4294967295 } }
    else sampleEnd
  flights _ := []

/-- Two bytes are written and sent; when they arrive, they are answered by another one; the first end
sends its bytes once more, and then the answer arrives. -/
def sampleLinkEvents : List (Bool × TcpEvent) :=
  [(false, .call (.write [65, 66] true false fun _ => true)),
   (false, .call (.output true)),
   (true, .input
     { hdr := { seqno := 100, ackno := 4294967295, wnd := 2920, ack := true, syn := false
                fin := false, rst := false, opts := [] }
       len := 2, p := [[65], [66]] }
     true [] [.write [67] true false fun _ => true] [] true),
   (false, .rexmitTimer true),
   (false, .input
     { hdr := { seqno := 4294967295, ackno := 102, wnd := 2918, ack := true, syn := false
                fin := false, rst := false, opts := [] }
       len := 1, p := [[67]] }
     true [] [] [] true)]

/-- The first sequence numbers of the ends of the sample. -/
def sampleBase (s : Bool) : Nat := if s then 4294967295 else 100

theorem opened_sampleLink : Opened sampleBase sampleLink := by
  have hleft := opened_sampleEnd
  refine ⟨fun s => ?_, fun _ => rfl⟩
  cases s with
  | false => exact hleft
  | true =>
      exact
        { written := rfl, read := rfl, eof := rfl, active := rfl, state := rfl, finQueued := rfl
          mss_pos := hleft.mss_pos, mss_le := hleft.mss_le
          lastack := rfl, sndNxt := rfl, sndLbb := rfl, sndBuf := rfl, sndQueuelen := rfl
          unsentOversize := rfl, unsent := rfl, unacked := rfl, words := hleft.words.congr rfl rfl rfl
          rcvNxt := rfl, rcvAnnRightEdge := ⟨2920, by decide, rfl⟩, rcvAnnWnd := rfl, rcvWnd := rfl
          asserted := rfl, returned := rfl, wire := rfl }

theorem steps_sampleLink : Run.Steps Link.step Ok sampleLink sampleLinkEvents := by
  refine ⟨trivial, trivial, ⟨⟨⟨_, List.mem_cons_self, ⟨rfl, rfl, rfl⟩, by decide, by decide⟩, ?_⟩,
    List.forall_mem_nil _, ?_, List.forall_mem_nil _⟩, trivial,
    ⟨⟨⟨_, List.mem_cons_self, ⟨rfl, rfl, rfl⟩, by decide, by decide⟩, ?_⟩,
    List.forall_mem_nil _, List.forall_mem_nil _, List.forall_mem_nil _⟩, trivial⟩
  · intro _ seg hseg
    exact (Option.not_mem_none seg hseg).elim
  · intro c hc
    obtain rfl := List.mem_singleton.mp hc
    trivial
  · intro heq
    exact absurd heq (by decide)

/-! ## What holds in every run -/

variable {evs : List (Bool × TcpEvent)}

/-- Each end has been given a beginning of what the other one has written, without a gap or a
repetition, and has been told of the end of it only at its end. -/
theorem delivered_of_run (h : Opened base l) (hevs : Run.Steps Link.step Ok l evs) (s : Bool) :
    ((Run.run Link.step l evs).ends s).read <+: ((Run.run Link.step l evs).ends !s).written ∧
      (((Run.run Link.step l evs).ends s).eof = true →
        ((Run.run Link.step l evs).ends s).read = ((Run.run Link.step l evs).ends !s).written ∧
          ((Run.run Link.step l evs).ends !s).pcb.finQueued = true) := by
  obtain ⟨m, hm⟩ := h.joined.run hevs
  exact ⟨(hm s).listening.reading.read, (hm s).listening.reading.eof⟩

theorem delivered_of_run_sampleLink :
    ((Run.run Link.step sampleLink sampleLinkEvents).ends false).read <+:
        ((Run.run Link.step sampleLink sampleLinkEvents).ends true).written ∧
      (((Run.run Link.step sampleLink sampleLinkEvents).ends false).eof = true →
        ((Run.run Link.step sampleLink sampleLinkEvents).ends false).read =
            ((Run.run Link.step sampleLink sampleLinkEvents).ends true).written ∧
          ((Run.run Link.step sampleLink sampleLinkEvents).ends true).pcb.finQueued = true) :=
  delivered_of_run opened_sampleLink steps_sampleLink false

example : ((Run.run Link.step sampleLink sampleLinkEvents).ends false).read = [67] := by decide

/-- While both ends are there, all that is acknowledged, and all that room has been made for in the
send buffer, has been given to the other application. -/
theorem acknowledged_of_run (h : Opened base l) (hevs : Run.Steps Link.step Ok l evs) (s : Bool)
    (hactive : ((Run.run Link.step l evs).ends s).active = true)
    (hactive' : ((Run.run Link.step l evs).ends !s).active = true) :
    (∃ u, ((Run.run Link.step l evs).ends s).pcb.lastack = seqAt (base s) u ∧
      u ≤ ((Run.run Link.step l evs).ends !s).count ∧
      ((Run.run Link.step l evs).ends !s).count ≤ ((Run.run Link.step l evs).ends s).stream.length ∧
      ((Run.run Link.step l evs).ends s).stream.length ≤ u + (tcpSndBuf + 1)) ∧
    ((Run.run Link.step l evs).ends s).pcb.sndBuf +
        ((Run.run Link.step l evs).ends s).written.length ≤
      tcpSndBuf + ((Run.run Link.step l evs).ends !s).count := by
  obtain ⟨m, hm⟩ := h.joined.run hevs
  generalize Run.run Link.step l evs = l' at *
  have hs := hm s
  have hs' := hm !s
  rw [Bool.not_not] at hs'
  obtain ⟨g, hg, htalk⟩ := hs.talking hactive
  have hn := hs'.listening.count hactive'
  have huna := hs.una_le
  have hlength : (m !s).n ≤ (l'.ends !!s).stream.length := hs'.listening.le_length
  rw [Bool.not_not] at hlength
  rw [← hg, ← hn] at huna
  rw [← hn] at hlength
  have hsend := htalk.sending
  have hroom := hsend.stream_length_le
  have hbuf := hsend.room_ge
  have hstream : (l'.ends s).stream.length =
      (l'.ends s).written.length + if (l'.ends s).pcb.finQueued then 1 else 0 := by
    rw [Endpoint.stream, length_symbols]
  rw [← htalk.stream_eq] at hroom hbuf
  refine ⟨⟨g.una, ?_, huna, hlength, hroom⟩, by omega⟩
  rw [← htalk.base]
  exact hsend.lastack

theorem acknowledged_of_run_sampleLink :
    (∃ u, ((Run.run Link.step sampleLink sampleLinkEvents).ends false).pcb.lastack =
        seqAt (sampleBase false) u ∧
      u ≤ ((Run.run Link.step sampleLink sampleLinkEvents).ends true).count ∧
      ((Run.run Link.step sampleLink sampleLinkEvents).ends true).count ≤
        ((Run.run Link.step sampleLink sampleLinkEvents).ends false).stream.length ∧
      ((Run.run Link.step sampleLink sampleLinkEvents).ends false).stream.length ≤
        u + (tcpSndBuf + 1)) ∧
    ((Run.run Link.step sampleLink sampleLinkEvents).ends false).pcb.sndBuf +
        ((Run.run Link.step sampleLink sampleLinkEvents).ends false).written.length ≤
      tcpSndBuf + ((Run.run Link.step sampleLink sampleLinkEvents).ends true).count :=
  acknowledged_of_run opened_sampleLink steps_sampleLink false (by decide) (by decide)

end Link

end Meu1oARM
