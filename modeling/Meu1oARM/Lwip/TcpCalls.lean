import Meu1oARM.Lwip.TcpReading
import Meu1oARM.Lwip.TcpWrite

/-! # What the application and the timers do to the queues

The queues grow by what is written, and every packet that is sent is a piece of the stream.
-/

namespace Meu1oARM

open Machine Serial TcpPcb

/-- A packet that has been sent: a piece of the stream, not before `low`. It does not go further
beyond `una`, up to where something is acknowledged, than the send buffer. -/
structure Sent (base : Nat) (stream : List (Option UInt8)) (low una : Nat) (p : Packet) : Prop where
  syn : p.syn = false
  len : p.data.length ≤ tcpMss
  data : ∃ y, low ≤ y + 8192 ∧ y + (symbols p.data p.fin).length ≤ una + (tcpSndBuf + 1) ∧
    p.seqno = seqAt base y ∧ IsSlice stream y (symbols p.data p.fin)

theorem Sent.mono {base low una una' : Nat} {stream stream' : List (Option UInt8)} {p : Packet}
    (h : Sent base stream low una p) (hstream : stream <+: stream') (huna : una ≤ una') :
    Sent base stream' low una' p := by
  obtain ⟨y, hy, hend, hseqno, hslice⟩ := h.data
  exact ⟨h.syn, h.len, y, hy, Nat.le_trans hend (Nat.add_le_add_right huna _), hseqno,
    hslice.of_prefix hstream⟩

/-- The states of a connection that is open, or on its way to being closed. -/
def Connected (state : TcpState) : Prop :=
  TcpState.established.toNat ≤ state.toNat ∧ state ≠ .timeWait

namespace Endpoint

variable {e e' e'' : Endpoint} {g g' : Progress} {base pbase low n edge una una' : Nat}

/-- What the peer is to be told. -/
def stream (e : Endpoint) : List (Option UInt8) := symbols e.written e.pcb.finQueued

/-- The invariant of the sending side while the connection is there. -/
structure Talking (base : Nat) (g : Progress) (e : Endpoint) : Prop where
  base : g.base = base
  written : g.written = e.written
  sending : Pending g e.pcb
  words : Words e.pcb
  state : Connected e.pcb.state

/-- What an event does to the history of an end. -/
structure Effect (base low una : Nat) (e e' : Endpoint) : Prop where
  stream : e.stream <+: e'.stream
  wire : ∃ packets, e'.pcb.wire = e.pcb.wire ++ packets ∧
    ∀ p ∈ packets, Sent base e'.stream low una p
  asserted : e'.pcb.asserted = e.pcb.asserted
  returned : e'.pcb.returned = e.pcb.returned

theorem Effect.of_eq (hstream : e.stream <+: e'.stream) (hwire : e'.pcb.wire = e.pcb.wire)
    (hasserted : e'.pcb.asserted = e.pcb.asserted) (hreturned : e'.pcb.returned = e.pcb.returned) :
    Effect base low una e e' :=
  ⟨hstream, ⟨[], hwire.trans (List.append_nil _).symm, nofun⟩, hasserted, hreturned⟩

theorem Effect.refl (e : Endpoint) : Effect base low una e e :=
  .of_eq List.prefix_rfl rfl rfl rfl

theorem Effect.trans (h : Effect base low una e e') (h' : Effect base low una' e' e'')
    (huna : una ≤ una') : Effect base low una' e e'' := by
  obtain ⟨packets, hwire, hall⟩ := h.wire
  obtain ⟨packets', hwire', hall'⟩ := h'.wire
  refine ⟨h.stream.trans h'.stream, ⟨packets ++ packets', ?_, ?_⟩, h'.asserted.trans h.asserted,
    h'.returned.trans h.returned⟩
  · rw [hwire', hwire, List.append_assoc]
  · exact List.forall_mem_append.mpr ⟨fun p hp => (hall p hp).mono h'.stream huna, hall'⟩

theorem Talking.stream_eq (h : Talking base g e) : e.stream = e.pcb.stream g.written := by
  rw [stream, TcpPcb.stream, h.written]

/-- What a step does to the sending side that acknowledges nothing. -/
def Quiet (base low : Nat) (g : Progress) (e e' : Endpoint) : Prop :=
  ∃ g', g'.una = g.una ∧ (e'.active = true → Talking base g' e') ∧ Effect base low g.una e e'

theorem Talking.quiet (h : Talking base g e') (heffect : Effect base low g.una e e') :
    Quiet base low g e e' := ⟨g, rfl, fun _ => h, heffect⟩

theorem Talking.quiet_refl (h : Talking base g e) : Quiet base low g e e := h.quiet (.refl e)

/-- The connection is given up. -/
theorem quiet_inactive (hactive : e'.active = false) (hwritten : e'.written = e.written)
    (hpcb : e'.pcb = e.pcb) : Quiet base low g e e' := by
  have hstream : e'.stream = e.stream := by
    rw [stream, stream, hwritten, hpcb]
  refine ⟨g, rfl, fun htrue => ?_, .of_eq (hstream ▸ List.prefix_rfl) ?_ ?_ ?_⟩
  · exact absurd htrue (by simp [hactive])
  all_goals rw [hpcb]

/-- Something was done before that has no effect by itself. -/
theorem Quiet.behind {d : Endpoint} (h : Quiet base low g d e') (heffect : Effect base low g.una e d) :
    Quiet base low g e e' := by
  obtain ⟨g', huna, htalk, heffect'⟩ := h
  exact ⟨g', huna, htalk, heffect.trans heffect' (Nat.le_refl _)⟩

/-- Two steps. -/
theorem Quiet.trans (h : Quiet base low g e e')
    (hnext : ∀ g', g'.una = g.una → e'.active = true → Talking base g' e' → e.stream <+: e'.stream →
      Quiet base low g' e' e'')
    (hdead : e'.active = false → e'' = e') : Quiet base low g e e'' := by
  obtain ⟨g', huna, htalk, heffect⟩ := h
  cases hactive : e'.active with
  | false =>
      rw [hdead hactive]
      exact ⟨g', huna, htalk, heffect⟩
  | true =>
      obtain ⟨g'', huna', htalk', heffect'⟩ := hnext g' huna hactive (htalk hactive) heffect.stream
      exact ⟨g'', huna'.trans huna, htalk', heffect.trans (huna ▸ heffect') (Nat.le_refl _)⟩

/-- Packets are sent. -/
theorem quiet_of_emits {pcb : TcpPcb} (hbase : g.base = base) (hwritten : g.written = e.written)
    (hspan : e.stream.length ≤ g.start + 8192) (hconnected : Connected e.pcb.state)
    (hlow : low ≤ e.stream.length) (hsend : Pending g' pcb) (hbase' : g'.base = g.base)
    (hwritten' : g'.written = g.written) (huna : g'.una = g.una) (hwords : Words pcb)
    (hemits : Emits g e.pcb pcb) : Quiet base low g e { e with pcb } := by
  obtain ⟨packets, hwire, hall⟩ := hemits.wire
  have hstate : pcb.state = e.pcb.state := (congrArg TcpPcb.state hemits.view :)
  have hfin : pcb.finQueued = e.pcb.finQueued := (congrArg finQueued hemits.view :)
  have hstream : ({ e with pcb } : Endpoint).stream = e.stream := by
    rw [stream, stream, hfin]
  have hstream' : e.stream = e.pcb.stream g.written := by
    rw [stream, TcpPcb.stream, hwritten]
  refine ⟨g', huna, fun _ => ⟨hbase'.trans hbase, hwritten'.trans hwritten, hsend, hwords,
    hstate ▸ hconnected⟩, hstream ▸ List.prefix_rfl, ⟨packets, hwire, fun p hp => ?_⟩,
    (congrArg TcpPcb.asserted hemits.view :), (congrArg TcpPcb.returned hemits.view :)⟩
  obtain ⟨y, hstart, hend, hseqno, hslice⟩ := (hall p hp).slice
  have hroom : (e.pcb.stream g.written).length ≤ g.una + (tcpSndBuf + 1) := by
    have hlength := hsend.stream_length_le
    rwa [TcpPcb.stream_eq hemits.view, hwritten', huna] at hlength
  rw [hstream]
  refine ⟨(hall p hp).syn, (hall p hp).len, y, by omega, Nat.le_trans hend hroom, hbase ▸ hseqno, ?_⟩
  rw [hstream']
  exact hslice

theorem Talking.span_le (h : Talking base g e) : e.stream.length ≤ g.start + 8192 := by
  rw [h.stream_eq]
  exact h.sending.span_le

/-- What is sent next lies neither far behind the end of the stream nor far beyond what is
acknowledged. -/
theorem Talking.nxt_bounds (h : Talking base g e) :
    e.stream.length ≤ g.nxt + 8192 ∧ g.nxt ≤ g.una + (tcpSndBuf + 1) := by
  have hspan := h.span_le
  have hstart := h.sending.start_le
  have huna := h.sending.una_le
  exact ⟨by omega, Nat.le_trans h.sending.nxt_le h.sending.stream_length_le⟩

theorem Talking.emits {pcb : TcpPcb} (h : Talking base g e) (hlow : low ≤ e.stream.length)
    (hsend : Pending g' pcb) (hbase : g'.base = g.base) (hwritten : g'.written = g.written)
    (huna : g'.una = g.una) (hwords : Words pcb) (hemits : Emits g e.pcb pcb) :
    Quiet base low g e { e with pcb } :=
  quiet_of_emits h.base h.written h.span_le h.state hlow hsend hbase hwritten huna hwords hemits

/-! ## What the application does -/

theorem Talking.output (h : Talking base g e) (hlow : low ≤ e.stream.length) (mem : Bool) :
    Quiet base low g e { e with pcb := e.pcb.tcpOutput mem } := by
  obtain ⟨nxt, _, hsend, hemits⟩ := tcpOutput_spec h.sending mem
  exact h.emits hlow hsend rfl rfl rfl (h.words.tcpOutput mem) hemits

/-- Everything is enqueued, or nothing changes. -/
theorem Talking.write (h : Talking base g e) (hactive : e.active = true)
    (data : List UInt8) (copy more : Bool) (mem : Nat → Bool) :
    Quiet base low g e (e.call (.write data copy more mem)) := by
  have hspec := tcpWrite_spec h.sending data copy more mem
  unfold call
  rw [if_pos hactive]
  dsimp only
  generalize e.pcb.tcpWrite data copy more mem = result at hspec
  cases hspec with
  | error hne =>
      rename_i err memErr
      have hpcb : Talking base g { e with pcb := { e.pcb with nagleMemErr := memErr } } :=
        ⟨h.base, h.written, h.sending.congr rfl, h.words.congr rfl rfl rfl, h.state⟩
      split
      next heq => exact absurd (Prod.mk.inj heq).1 hne
      next heq =>
        obtain ⟨rfl, rfl⟩ := Prod.mk.inj heq
        exact hpcb.quiet (.of_eq List.prefix_rfl rfl rfl rfl)
  | done hfin hroom hsend hframe =>
      subst hframe
      dsimp only
      refine ⟨{ g with written := g.written ++ data }, rfl,
        fun _ => ⟨h.base, ?_, hsend, h.words.congr rfl rfl rfl, h.state⟩, .of_eq ?_ rfl rfl rfl⟩
      · rw [h.written]
      · unfold stream
        dsimp only
        rw [hfin, symbols_append]
        exact List.prefix_append _ _

/-- What `tcp_recved` may announce goes out with what waits to be sent. -/
theorem Talking.recved (h : Talking base g e) (hr : Receiving pbase n edge e.pcb)
    (hlow : low ≤ e.stream.length) {len : Nat} (hlen : len ≤ 65535 - tcpWnd) (mem : Bool) :
    Quiet base low g e { e with pcb := e.pcb.tcpRecved len mem } := by
  obtain ⟨rcvWnd, rcvAnnWnd, -, hsame | hsent⟩ := tcpRecved_eq hr hlen mem
  · have htalk : Talking base g { e with pcb := { e.pcb with rcvWnd, rcvAnnWnd } } :=
      ⟨h.base, h.written, h.sending.congr rfl, h.words.congr rfl rfl rfl, h.state⟩
    rw [hsame]
    exact htalk.quiet (.of_eq List.prefix_rfl rfl rfl rfl)
  · have htalk : Talking base g
        { e with pcb := ({ e.pcb with rcvWnd, rcvAnnWnd } : TcpPcb).tcpAckNow } :=
      ⟨h.base, h.written, h.sending.congr rfl, h.words.congr rfl rfl rfl, h.state⟩
    rw [hsent]
    exact (htalk.output hlow mem).behind (.of_eq List.prefix_rfl rfl rfl rfl)

theorem symbols_prefix_fin (written : List UInt8) (fin : Bool) :
    symbols written false <+: symbols written fin := by
  cases fin with
  | false => exact List.prefix_rfl
  | true => exact symbols_fin written ▸ List.prefix_append _ _

theorem Talking.closeTo (h : Talking base g e) (hlow : low ≤ e.stream.length)
    (hfin : e.pcb.finQueued = false) {state : TcpState} (hshut : Shut state)
    (hconnected : Connected state) (mem : Nat → Bool) :
    Quiet base low g e { e with pcb := (e.pcb.closeTo state mem).2 } := by
  have hspec := tcpSendFin_spec h.sending hfin mem
  unfold TcpPcb.closeTo
  generalize e.pcb.tcpSendFin mem = result at hspec
  cases hspec with
  | error hne =>
      rename_i err memErr
      have hpcb : Talking base g { e with pcb := { e.pcb with nagleMemErr := memErr } } :=
        ⟨h.base, h.written, h.sending.congr rfl, h.words.congr rfl rfl rfl, h.state⟩
      split
      next heq => exact absurd (Prod.mk.inj heq).1 hne
      next heq =>
        obtain ⟨rfl, rfl⟩ := Prod.mk.inj heq
        exact hpcb.quiet (.of_eq List.prefix_rfl rfl rfl rfl)
  | done hsend hframe =>
      rename_i pcb' unsent oversize queuelen lbb room
      have hpcb : Talking base g { e with pcb := { pcb' with state } } := by
        refine ⟨h.base, h.written, hsend state hshut, ?_, hconnected⟩
        subst hframe
        exact h.words.congr rfl rfl rfl
      have hfirst : Effect base low g.una e { e with pcb := { pcb' with state } } := by
        subst hframe
        refine .of_eq ?_ rfl rfl rfl
        unfold stream
        rw [hfin]
        exact symbols_prefix_fin _ _
      exact (hpcb.output (Nat.le_trans hlow hfirst.stream.length_le) (mem 2)).behind hfirst

theorem Talking.close (h : Talking base g e) (hlow : low ≤ e.stream.length) (mem : Nat → Bool) :
    Quiet base low g e (e.tcpClose mem) := by
  have hfin : e.pcb.state = .established ∨ e.pcb.state = .closeWait → e.pcb.finQueued = false := by
    intro hstate
    by_contra hne
    have hshut := h.sending.shut (by simpa using hne)
    exact hstate.elim hshut.1 hshut.2.1
  have hclosed : Talking base g { e with rxClosed := true } :=
    ⟨h.base, h.written, h.sending, h.words, h.state⟩
  unfold tcpClose
  dsimp only
  split
  next _ => exact quiet_inactive rfl rfl rfl
  next _ =>
    refine Quiet.behind (d := { e with rxClosed := true }) ?_ (.of_eq List.prefix_rfl rfl rfl rfl)
    unfold tcpCloseShutdown
    split
    next hstate =>
      exact hclosed.closeTo hlow (hfin (.inl hstate)) (by unfold Shut; decide)
        (by unfold Connected; decide) mem
    next hstate =>
      exact hclosed.closeTo hlow (hfin (.inr hstate)) (by unfold Shut; decide)
        (by unfold Connected; decide) mem
    next _ => exact hclosed.quiet_refl

theorem Talking.call (h : Talking base g e) (hr : Receiving pbase n edge e.pcb)
    (hactive : e.active = true) (hlow : low ≤ e.stream.length) {c : AppCall} (hc : CallOk c) :
    Quiet base low g e (e.call c) := by
  cases c with
  | write data copy more mem => exact h.write hactive data copy more mem
  | output mem =>
      unfold Endpoint.call
      rw [if_pos hactive]
      exact h.output hlow mem
  | recved len mem =>
      unfold Endpoint.call
      rw [if_pos hactive]
      exact h.recved hr hlow hc mem
  | close mem =>
      unfold Endpoint.call
      rw [if_pos hactive]
      exact h.close hlow mem
  | abort =>
      unfold Endpoint.call
      rw [if_pos hactive]
      exact quiet_inactive rfl rfl rfl

theorem Talking.calls (h : Talking base g e) (hr : Receiving pbase n edge e.pcb)
    (hactive : e.active = true) (hlow : low ≤ e.stream.length) {cs : List AppCall}
    (hcs : ∀ c ∈ cs, CallOk c) : Quiet base low g e (Run.run Endpoint.call e cs) := by
  induction cs generalizing e g edge with
  | nil => exact h.quiet_refl
  | cons c cs ih =>
      obtain ⟨hc, hcs⟩ := List.forall_mem_cons.mp hcs
      obtain ⟨edge', hhears⟩ := (call_tells hr hc).hears
      refine (h.call hr hactive hlow hc).trans ?_ ?_
      · intro g' _ hactive' htalk hstream
        exact ih htalk hhears.receiving hactive' (Nat.le_trans hlow hstream.length_le) hcs
      · intro hinactive
        exact run_call_inactive hinactive cs

/-! ## The timers -/

theorem Talking.fastTimer (h : Talking base g e) (hlow : low ≤ e.stream.length) (mem : Bool) :
    Quiet base low g e (e.fastTimer mem) := by
  unfold Endpoint.fastTimer
  split
  next _ =>
    have hsend : Pending g e.pcb.tcpAckNow := h.sending.congr rfl
    obtain ⟨nxt, _, hsend', hemits⟩ := tcpOutput_spec hsend mem
    have hwords : Words (e.pcb.tcpAckNow.tcpOutput mem) :=
      (h.words.congr rfl rfl rfl : Words e.pcb.tcpAckNow).tcpOutput mem
    have hfirst : Emits g e.pcb e.pcb.tcpAckNow :=
      ⟨rfl, [], (List.append_nil _).symm, nofun⟩
    have hlast : Pending { g with nxt } { e.pcb.tcpAckNow.tcpOutput mem with
        ackDelay := false, ackNow := false } := hsend'.congr rfl
    exact h.emits hlow hlast rfl rfl rfl (hwords.congr rfl rfl rfl)
      ((hfirst.trans hemits).congr rfl rfl)
  next _ => exact h.quiet_refl

theorem Talking.rexmitTimer (h : Talking base g e) (hlow : low ≤ e.stream.length) (mem : Bool) :
    Quiet base low g e (e.rexmitTimer mem) := by
  unfold Endpoint.rexmitTimer
  split
  next _ => exact quiet_inactive rfl rfl rfl
  next _ =>
    obtain ⟨nxt, _, hsend, hemits⟩ := rexmitTimeout_spec h.sending mem
    exact h.emits hlow hsend rfl rfl rfl (h.words.rexmitTimeout h.sending.mss_le mem) hemits

theorem Talking.persistTimer (h : Talking base g e) (hlow : low ≤ e.stream.length) (mem : Bool) :
    Quiet base low g e { e with pcb := e.pcb.tcpZeroWindowProbe mem } := by
  obtain ⟨hsend, hemits⟩ := zeroWindowProbe_spec h.sending mem
  refine h.emits hlow hsend rfl rfl rfl ?_ hemits
  unfold tcpZeroWindowProbe
  split
  · exact h.words
  · dsimp only
    split
    · exact h.words.congr rfl rfl rfl
    · exact h.words

end Endpoint

end Meu1oARM
