import Meu1oARM.Lwip.TcpInput

/-! # What a segment leads to

A segment that arrives leads to calls of the application, which may ask for anything
meanwhile; whatever is sent is a piece of the own stream.
-/

namespace Meu1oARM

open Machine Serial TcpPcb

namespace Endpoint

variable {e e' : Endpoint} {g g' : Progress} {base pbase low n edge : Nat}

/-! ## What `tcp_input` does behind `tcp_process` -/

theorem Talking.notifySent (h : Talking base g e) (hr : Receiving pbase n edge e.pcb)
    (hactive : e.active = true) (hlow : low ≤ e.stream.length) {calls : List AppCall}
    (hcalls : ∀ c ∈ calls, CallOk c) : Quiet base low g e (e.notifySent calls) := by
  unfold Endpoint.notifySent
  split
  · exact h.calls hr hactive hlow hcalls
  · exact h.quiet_refl

theorem Talking.notifyReceived (h : Talking base g e) (hr : Receiving pbase n edge e.pcb)
    (hactive : e.active = true) (hlow : low ≤ e.stream.length)
    (recvData : Option (List (List UInt8))) {calls : List AppCall}
    (hcalls : ∀ c ∈ calls, CallOk c) : Quiet base low g e (e.notifyReceived recvData calls) := by
  unfold Endpoint.notifyReceived
  cases recvData with
  | none => exact h.quiet_refl
  | some p =>
      dsimp only
      rw [if_neg (by simp [hactive])]
      split
      next _ => exact quiet_inactive rfl rfl rfl
      next _ =>
        have hread : Talking base g { e with read := e.read ++ p.flatten } :=
          ⟨h.base, h.written, h.sending, h.words, h.state⟩
        exact (hread.calls hr hactive hlow hcalls).behind (.of_eq List.prefix_rfl rfl rfl rfl)

theorem Talking.notifyClosed (h : Talking base g e) (hr : Receiving pbase n edge e.pcb)
    (hactive : e.active = true) (hlow : low ≤ e.stream.length) (gotFin : Bool)
    {calls : List AppCall} (hcalls : ∀ c ∈ calls, CallOk c) :
    Quiet base low g e (e.notifyClosed gotFin calls) := by
  unfold Endpoint.notifyClosed
  cases gotFin with
  | false =>
      rw [if_neg (by simp)]
      exact h.quiet_refl
  | true =>
      rw [if_pos ⟨rfl, hactive⟩]
      have hroom := hr.addFin
      generalize (if e.pcb.rcvWnd ≠ tcpWnd then u16 (e.pcb.rcvWnd + 1) else e.pcb.rcvWnd) = rcvWnd
        at hroom
      have heof : Talking base g { e with pcb := { e.pcb with rcvWnd }, eof := true } :=
        ⟨h.base, h.written, h.sending.congr rfl, h.words.congr rfl rfl rfl, h.state⟩
      exact (heof.calls hroom hactive hlow hcalls).behind (.of_eq List.prefix_rfl rfl rfl rfl)

/-- `tcp_output` at the end of `tcp_input`, where a fast retransmission may be under way. -/
theorem finishInput_quiet (hbase : g.base = base) (hwritten : g.written = e.written)
    (hspan : e.stream.length ≤ g.start + 8192) (hmid : Mid g e.pcb) (hwords : Words e.pcb)
    (hconnected : Connected e.pcb.state) (hactive : e.active = true)
    (hlow : low ≤ e.stream.length) (mem : Bool) : Quiet base low g e (e.finishInput mem) := by
  unfold Endpoint.finishInput
  rw [if_pos hactive]
  have hmid' : Mid g { e.pcb with inInput := false } := hmid.congr rfl rfl rfl rfl rfl
  obtain ⟨nxt, _, hsend, hemits⟩ := hmid'.tcpOutput rfl mem
  have hwords' : Words { e.pcb with inInput := false } := hwords.congr rfl rfl rfl
  exact (quiet_of_emits (e := { e with pcb := { e.pcb with inInput := false } }) hbase hwritten
    hspan hconnected hlow hsend rfl rfl rfl (hwords'.tcpOutput mem) hemits).behind
    (.of_eq List.prefix_rfl rfl rfl rfl)

/-- The application is told of what the segment has brought, and what is due is sent. -/
theorem Talking.told (h : Talking base g e) (hr : Receiving pbase n edge e.pcb)
    (hactive : e.active = true) (hlow : low ≤ e.stream.length)
    (recvData : Option (List (List UInt8))) (gotFin : Bool) {sent received closed : List AppCall}
    (hsent : ∀ c ∈ sent, CallOk c) (hreceived : ∀ c ∈ received, CallOk c)
    (hclosed : ∀ c ∈ closed, CallOk c) (mem : Bool) :
    Quiet base low g e ((((e.notifySent sent).notifyReceived recvData received).notifyClosed gotFin
      closed).finishInput mem) := by
  obtain ⟨edge₁, hhears₁⟩ := (notifySent_tells hr hsent).hears
  refine (h.notifySent hr hactive hlow hsent).trans ?_ ?_
  · intro g₁ _ hactive₁ h₁ hstream₁
    have hlow₁ := Nat.le_trans hlow hstream₁.length_le
    have hr₁ := hhears₁.receiving
    obtain ⟨edge₂, hhears₂⟩ := (notifyReceived_tells hr₁ hactive₁ recvData hreceived).hears
    refine (h₁.notifyReceived hr₁ hactive₁ hlow₁ recvData hreceived).trans ?_ ?_
    · intro g₂ _ hactive₂ h₂ hstream₂
      have hlow₂ := Nat.le_trans hlow₁ hstream₂.length_le
      refine (h₂.notifyClosed hhears₂.receiving hactive₂ hlow₂ gotFin hclosed).trans ?_ ?_
      · intro g₃ _ hactive₃ h₃ hstream₃
        exact finishInput_quiet h₃.base h₃.written h₃.span_le (.sending h₃.sending) h₃.words h₃.state
          hactive₃ (Nat.le_trans hlow₂ hstream₃.length_le) mem
      · exact fun hdead => finishInput_inactive hdead mem
    · intro hdead
      rw [notifyClosed_inactive hdead, finishInput_inactive hdead]
  · intro hdead
    rw [notifyReceived_inactive hdead, notifyClosed_inactive hdead, finishInput_inactive hdead]

/-! ## A segment arrives -/

/-- What an event does to the sending side, which may acknowledge something by `ackno`. -/
def Advances (base low : Nat) (g : Progress) (ackno : Option Nat) (e e' : Endpoint) : Prop :=
  ∃ g', (g'.una = g.una ∨ ∃ a ∈ ackno, g'.una = g.una + g.ackedBy a) ∧
    (e'.active = true → Talking base g' e') ∧ Effect base low g'.una e e'

/-- An event that brings nothing from the peer. -/
theorem Quiet.advances (h : Quiet base low g e e') (ackno : Option Nat) :
    Advances base low g ackno e e' := by
  obtain ⟨g', huna, htalk, heffect⟩ := h
  exact ⟨g', .inl huna, htalk, huna.symm ▸ heffect⟩

/-- What `tcp_process` leaves of the end it works on. -/
theorem effect_processed {inseg : Inseg} {pcb : TcpPcb} {result : Received × Ending}
    (h : Talking base g e) (hp : Processed inseg g g' pcb result) (hwire : pcb.wire = e.pcb.wire)
    (hfin : pcb.finQueued = e.pcb.finQueued) (hasserted : pcb.asserted = e.pcb.asserted)
    (hreturned : pcb.returned = e.pcb.returned) (hlow : low ≤ e.stream.length) :
    Effect base low g'.una e { e with pcb := result.1.pcb } := by
  have hstream : ({ e with pcb := result.1.pcb } : Endpoint).stream = e.stream := by
    rw [stream, stream, hp.finQueued, hfin]
  cases hp.wire with
  | inl hsame =>
      exact .of_eq (hstream ▸ List.prefix_rfl) (hsame.trans hwire) (hp.asserted.trans hasserted)
        (hp.returned.trans hreturned)
  | inr hone =>
      obtain ⟨p, hone, hempty⟩ := hone
      refine ⟨hstream ▸ List.prefix_rfl, ⟨[p], hone.trans (by rw [hwire]), ?_⟩,
        hp.asserted.trans hasserted, hp.returned.trans hreturned⟩
      rw [List.forall_mem_singleton]
      have hsymbols : symbols p.data p.fin = [] := by
        rw [hempty.data, hempty.fin]
        rfl
      refine ⟨hempty.syn, hempty.data ▸ Nat.zero_le _, g'.nxt, ?_, ?_, ?_, ?_⟩
      · exact hp.nxt ▸ Nat.le_trans hlow h.nxt_bounds.1
      · rw [hsymbols, hp.nxt]
        exact Nat.le_trans h.nxt_bounds.2 (Nat.add_le_add_right hp.una_le _)
      · rw [hempty.seqno, hp.base, h.base]
      · rw [hsymbols]
        exact IsSlice.nil _ _

/-- With nothing to send, `tcp_output` sends at most an empty ACK. -/
theorem tcpOutput_nothing {pcb : TcpPcb} (hunsent : pcb.unsent = []) (mem : Bool) :
    (pcb.tcpOutput mem).outView = pcb.outView ∧
      ((pcb.tcpOutput mem).wire = pcb.wire ∨
        (pcb.tcpOutput mem).wire = pcb.wire ++ [pcb.emptyAck]) := by
  unfold TcpPcb.tcpOutput
  dsimp only
  split
  next _ => exact ⟨rfl, .inl rfl⟩
  next _ =>
    split
    next _ =>
      unfold tcpSendEmptyAck
      split
      next _ => exact ⟨rfl, .inr rfl⟩
      next _ => exact ⟨rfl, .inl rfl⟩
    next _ =>
      rw [hunsent]
      exact ⟨rfl, .inl rfl⟩

/-- The ACK that is sent on entering TIME_WAIT. -/
theorem effect_timeWait {pcb : TcpPcb} (hunsent : pcb.unsent = [])
    (hsndNxt : pcb.sndNxt = seqAt base g.nxt) (hlow : low ≤ g.nxt + 8192)
    (hroom : g.nxt ≤ g.una + (tcpSndBuf + 1)) (hpcb : e.pcb = pcb)
    (hwritten : e'.written = e.written) {memOut : Bool}
    (hpcb' : e'.pcb = ({ pcb with inInput := false } : TcpPcb).tcpOutput memOut) :
    Effect base low g.una e e' := by
  subst hpcb
  have hempty : ({ e.pcb with inInput := false } : TcpPcb).unsent = [] := hunsent
  obtain ⟨hview, hwire⟩ := tcpOutput_nothing hempty memOut
  rw [← hpcb'] at hview hwire
  have hasserted : e'.pcb.asserted = e.pcb.asserted := (congrArg TcpPcb.asserted hview :)
  have hreturned : e'.pcb.returned = e.pcb.returned := (congrArg TcpPcb.returned hview :)
  have hfin : e'.pcb.finQueued = e.pcb.finQueued := (congrArg finQueued hview :)
  have hstream : e'.stream = e.stream := by
    rw [stream, stream, hwritten, hfin]
  cases hwire with
  | inl hsame => exact .of_eq (hstream ▸ List.prefix_rfl) hsame hasserted hreturned
  | inr hone =>
      refine ⟨hstream ▸ List.prefix_rfl, ⟨_, hone, ?_⟩, hasserted, hreturned⟩
      rw [List.forall_mem_singleton]
      exact ⟨rfl, Nat.zero_le _, g.nxt, hlow, hroom, hsndNxt, IsSlice.nil _ _⟩

/-- `TF_IN_INPUT` plays no part in what a segment must be like. -/
theorem admitted_inInput {peer : List (Option UInt8)} {inseg : Inseg} {pcb : TcpPcb}
    (h : Admitted pbase n edge peer pcb inseg) :
    Admitted pbase n edge peer { pcb with inInput := true } inseg := by
  intro hrst hsyn
  obtain ⟨hok, hmss⟩ := h hrst hsyn
  exact ⟨hok.congr rfl rfl rfl rfl rfl, hmss⟩

/-- Behind `tcp_process` the application is told of what the segment has brought, and what is due
is sent. -/
theorem Talking.processed {inseg : Inseg} {pcb : TcpPcb} {result : Received × Ending}
    (h : Talking base g e) (hactive : e.active = true) (hp : Processed inseg g g' pcb result)
    (hr : Receiving pbase n edge result.1.pcb) (hlow : low ≤ e.stream.length)
    (hstream : e.stream <+: ({ e with pcb := result.1.pcb } : Endpoint).stream)
    {sent received closed : List AppCall} (hsent : ∀ c ∈ sent, CallOk c)
    (hreceived : ∀ c ∈ received, CallOk c) (hclosed : ∀ c ∈ closed, CallOk c) (memOut : Bool) :
    Quiet base low g' { e with pcb := result.1.pcb }
      (e.processed result.1 result.2 sent received closed memOut) := by
  have hbase : g'.base = base := hp.base.trans h.base
  have hwritten : g'.written = e.written := hp.written.trans h.written
  have hlow' := Nat.le_trans hlow hstream.length_le
  unfold Endpoint.processed
  split
  next _ => exact quiet_inactive rfl rfl rfl
  next halive =>
    rw [not_not] at halive
    split
    next htimeWait =>
      split
      next _ => exact quiet_inactive rfl rfl rfl
      next _ =>
        obtain ⟨hunsent, hsndNxt⟩ := hp.timeWait htimeWait
        have hnear : low ≤ g'.nxt + 8192 := hp.nxt ▸ Nat.le_trans hlow h.nxt_bounds.1
        have hroom : g'.nxt ≤ g'.una + (tcpSndBuf + 1) := by
          rw [hp.nxt]
          exact Nat.le_trans h.nxt_bounds.2 (Nat.add_le_add_right hp.una_le _)
        exact ⟨g', rfl, nofun, effect_timeWait hunsent (hbase ▸ hsndNxt) hnear hroom rfl rfl rfl⟩
    next hstate =>
      obtain ⟨hconnected, hmid, hquiet⟩ := hp.alive halive hstate
      cases hquiet with
      | inl hsend =>
          have htalk : Talking base g' { e with pcb := result.1.pcb } :=
            ⟨hbase, hwritten, hsend, hp.words, hconnected⟩
          exact htalk.told hr hactive hlow' result.1.recvData result.1.gotFin hsent hreceived hclosed
            memOut
      | inr hnothing =>
          -- a fast retransmission: nothing has come that the application is told of
          obtain ⟨hacked, hnone, hfin⟩ := hnothing
          rw [hnone, hfin]
          have hsame : ({ e with pcb := result.1.pcb } : Endpoint).notifySent sent =
              { e with pcb := result.1.pcb } := if_neg (by simp [hacked])
          have hspan : ({ e with pcb := result.1.pcb } : Endpoint).stream.length ≤
              g'.start + 8192 := by
            rw [stream, ← hwritten]
            exact hmid.span_le
          dsimp only
          rw [hsame]
          exact finishInput_quiet (e := { e with pcb := result.1.pcb }) hbase hwritten hspan hmid
            hp.words hconnected hactive hlow' memOut

/-- A segment arrives: something may be acknowledged, and whatever is sent is a piece of the own
stream. -/
theorem Talking.input (h : Talking base g e) (hr : Receiving pbase n edge e.pcb)
    (hactive : e.active = true) (hlow : low ≤ e.stream.length) {peer : List (Option UInt8)}
    {inseg : Inseg} (hin : Admitted pbase n edge peer e.pcb inseg)
    {sent received closed : List AppCall} (hsent : ∀ c ∈ sent, CallOk c)
    (hreceived : ∀ c ∈ received, CallOk c) (hclosed : ∀ c ∈ closed, CallOk c) (mem memOut : Bool) :
    Advances base low g (if inseg.hdr.ack then some inseg.hdr.ackno else none) e
      (e.input inseg mem sent received closed memOut) := by
  have hsend : Pending g { e.pcb with inInput := true } := h.sending.congr rfl
  have hwords : Words { e.pcb with inInput := true } := h.words.congr rfl rfl rfl
  have hrecv : Receiving pbase n edge { e.pcb with inInput := true } := hr.congr rfl rfl rfl rfl
  obtain ⟨g', hp⟩ := tcpProcess_spec hsend hwords hrecv h.state (admitted_inInput hin) mem
  obtain ⟨-, edge', hhears⟩ := tcpProcess_heard hrecv (fun hrst hsyn => (hin hrst hsyn).1.carries) mem
  have heffect := effect_processed h hp rfl rfl rfl rfl hlow
  unfold Endpoint.input
  dsimp only
  generalize ({ e.pcb with inInput := true } : TcpPcb).tcpProcess inseg mem = result
    at hp hhears heffect
  obtain ⟨g'', huna'', htalk, heffect'⟩ := h.processed hactive hp hhears.receiving hlow heffect.stream
    hsent hreceived hclosed memOut
  have huna : g'.una = g.una ∨ ∃ a ∈ (if inseg.hdr.ack then some inseg.hdr.ackno else none),
      g'.una = g.una + g.ackedBy a := by
    refine hp.una.imp_right fun hack => ⟨inseg.hdr.ackno, ?_, hack.2⟩
    rw [if_pos hack.1]
    rfl
  exact ⟨g'', by rwa [huna''], htalk,
    heffect.trans (huna''.symm ▸ heffect') (Nat.le_of_eq huna''.symm)⟩

end Endpoint

end Meu1oARM
