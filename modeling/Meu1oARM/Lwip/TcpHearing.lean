import Meu1oARM.Lwip.TcpEnd
import Meu1oARM.Lwip.TcpReceive

/-! # What one end hears

What is accepted of the peer, and how far the peer is allowed to send, depends neither on
the queues of the sending side nor on what the peer acknowledges.
-/

namespace Meu1oARM

open Machine Serial

namespace TcpPcb

variable {pcb pcb' pcb'' : TcpPcb} {pbase n n' n'' edge edge' edge'' : Nat}
  {stream : List (Option UInt8)} {inseg : Inseg}

/-! ## What the sending side leaves alone -/

/-- The fields of the receiving side, and what has been sent. -/
def hearing (pcb : TcpPcb) : Nat × Nat × Nat × Nat × Bool × List Packet :=
  (pcb.rcvNxt, pcb.rcvWnd, pcb.rcvAnnWnd, pcb.rcvAnnRightEdge, pcb.inInput, pcb.wire)

@[simp] theorem check_hearing (pcb : TcpPcb) (cond : Bool) :
    (pcb.check cond).hearing = pcb.hearing := rfl

@[simp] theorem outOfMemory_hearing (pcb : TcpPcb) : pcb.outOfMemory.hearing = pcb.hearing := by
  unfold outOfMemory
  dsimp only
  split <;> rfl

@[simp] theorem commit_hearing (pcb : TcpPcb) (data : List UInt8) (more : Bool) (w : Writing) :
    (pcb.commit data more w).hearing = pcb.hearing := by
  unfold commit
  dsimp only
  split <;> rfl

theorem writeSegments_hearing (pcb : TcpPcb) (mssLocal : Nat) (data : List UInt8)
    (copy more : Bool) (mem : Nat → Bool) (w : Writing) :
    (pcb.writeSegments mssLocal data copy more mem w).2.hearing = pcb.hearing := by
  have hcheck : (if w.pos < data.length ∧ copy = false then pcb.check (w.oversize = 0)
      else pcb).hearing = pcb.hearing := by
    split <;> rfl
  unfold writeSegments
  dsimp only
  generalize (if w.pos < data.length ∧ copy = false then pcb.check (w.oversize = 0)
    else pcb) = checked at hcheck
  split
  next _ => exact hcheck
  next _ => exact (outOfMemory_hearing _).trans hcheck
  next _ => exact (commit_hearing _ _ _ _).trans hcheck

theorem tcpWriteChecks_hearing (pcb : TcpPcb) (len : Nat) :
    (pcb.tcpWriteChecks len).2.hearing = pcb.hearing := by
  unfold tcpWriteChecks
  repeat' split
  all_goals rfl

theorem tcpWrite_hearing (pcb : TcpPcb) (data : List UInt8) (copy more : Bool)
    (mem : Nat → Bool) : (pcb.tcpWrite data copy more mem).2.hearing = pcb.hearing := by
  have hchecks := tcpWriteChecks_hearing pcb data.length
  unfold tcpWrite
  dsimp only
  generalize pcb.tcpWriteChecks data.length = checks at hchecks
  split
  next checked =>
    have hcheck : (if checked.unsent = [] then checked.check (checked.unsentOversize = 0)
        else checked).hearing = pcb.hearing := by
      split <;> exact hchecks
    generalize (if checked.unsent = [] then checked.check (checked.unsentOversize = 0)
      else checked) = checked' at hcheck
    split
    next _ => exact (outOfMemory_hearing _).trans hcheck
    next _ => exact (writeSegments_hearing _ _ _ _ _ _ _).trans hcheck
  next _ => exact hchecks

theorem tcpSendFin_hearing (pcb : TcpPcb) (mem : Nat → Bool) :
    (pcb.tcpSendFin mem).2.hearing = pcb.hearing := by
  have hflags : (pcb.tcpEnqueueFlags false true mem).2.hearing = pcb.hearing := by
    unfold tcpEnqueueFlags
    dsimp only
    repeat' split
    all_goals rfl
  unfold tcpSendFin
  split
  · split
    · rfl
    · exact hflags
  · exact hflags

@[simp] theorem freeSegment_hearing (pcb : TcpPcb) (seg : Segment) :
    (pcb.freeSegment seg).hearing = pcb.hearing := by
  unfold freeSegment
  dsimp only
  split <;> rfl

theorem freeUnacked_hearing (ackno : Nat) (segs : List Segment) (pcb : TcpPcb) :
    (freeUnacked ackno segs pcb).hearing = pcb.hearing := by
  induction segs generalizing pcb with
  | nil => rfl
  | cons seg rest ih =>
      unfold freeUnacked
      split
      · exact (ih _).trans (freeSegment_hearing _ _)
      · rfl

theorem freeUnsent_hearing (ackno : Nat) (segs : List Segment) (pcb : TcpPcb) :
    (freeUnsent ackno segs pcb).hearing = pcb.hearing := by
  induction segs generalizing pcb with
  | nil => rfl
  | cons seg rest ih =>
      unfold freeUnsent
      split
      · exact (ih _).trans (freeSegment_hearing _ _)
      · rfl

theorem ackNewData_hearing (pcb : TcpPcb) (ackno : Nat) :
    (pcb.ackNewData ackno).hearing = pcb.hearing := by
  have hrecovery : pcb.endRecovery.hearing = pcb.hearing := by
    unfold endRecovery
    split <;> rfl
  have hgrow : ∀ p : TcpPcb, p.growCwnd.hearing = p.hearing := by
    intro p
    unfold growCwnd
    dsimp only
    repeat' split
    all_goals rfl
  have hcounters : (pcb.ackCounters ackno).hearing = pcb.hearing := by
    unfold ackCounters
    exact (hgrow _).trans hrecovery
  exact (freeUnacked_hearing _ _ _).trans hcounters

theorem countDupack_hearing (pcb : TcpPcb) : pcb.countDupack.hearing = pcb.hearing := by
  have hrexmit : ∀ p : TcpPcb, p.tcpRexmit.hearing = p.hearing := by
    intro p
    unfold tcpRexmit
    split <;> rfl
  have hfast : ∀ p : TcpPcb, p.tcpRexmitFast.hearing = p.hearing := by
    intro p
    unfold tcpRexmitFast
    split
    · exact hrexmit p
    · rfl
  have hcount : (if pcb.dupacks < u8 (pcb.dupacks + 1) then { pcb with dupacks := pcb.dupacks + 1 }
      else pcb).hearing = pcb.hearing := by
    split <;> rfl
  unfold countDupack
  dsimp only
  generalize (if pcb.dupacks < u8 (pcb.dupacks + 1) then { pcb with dupacks := pcb.dupacks + 1 }
    else pcb) = counted at hcount
  split
  · split <;> exact hcount
  · split
    · exact (hfast _).trans hcount
    · exact hcount

theorem receiveAck_hearing (pcb : TcpPcb) (inseg : Inseg) :
    (pcb.receiveAck inseg).hearing = pcb.hearing := by
  have hupdate : (pcb.updateWindow inseg.hdr).hearing = pcb.hearing := by
    unfold updateWindow
    split <;> rfl
  unfold receiveAck
  dsimp only
  generalize pcb.updateWindow inseg.hdr = updated at hupdate
  refine (freeUnsent_hearing _ _ _).trans (Eq.trans ?_ hupdate)
  split
  · unfold repeatAck
    dsimp only
    split
    · exact countDupack_hearing _
    · rfl
  · split
    · exact ackNewData_hearing _ _
    · rfl

/-! ## What is announced -/

/-- Nothing is accepted, and every packet that is sent acknowledges what has been accepted and
announces the whole window. -/
structure Announces (pcb pcb' : TcpPcb) : Prop where
  rcvNxt : pcb'.rcvNxt = pcb.rcvNxt
  rcvWnd : pcb'.rcvWnd = pcb.rcvWnd
  rcvAnnWnd : pcb'.rcvAnnWnd = pcb.rcvAnnWnd
  inInput : pcb'.inInput = pcb.inInput
  wire : ∃ packets, pcb'.wire = pcb.wire ++ packets ∧
    (∀ p ∈ packets, p.ackno = pcb.rcvNxt ∧ p.wnd = pcb.rcvAnnWnd) ∧
    pcb'.rcvAnnRightEdge =
      if packets = [] then pcb.rcvAnnRightEdge else u32 (pcb.rcvNxt + pcb.rcvAnnWnd)

namespace Announces

theorem of_hearing (h : pcb'.hearing = pcb.hearing) : Announces pcb pcb' := by
  simp only [hearing, Prod.mk.injEq] at h
  obtain ⟨hnxt, hwnd, hann, hright, hinput, hwire⟩ := h
  exact ⟨hnxt, hwnd, hann, hinput, [], hwire.trans (List.append_nil _).symm, nofun, hright⟩

theorem refl (pcb : TcpPcb) : Announces pcb pcb := of_hearing rfl

/-- One packet is sent. -/
theorem of_packet {p : Packet} (hackno : p.ackno = pcb.rcvNxt) (hwnd : p.wnd = pcb.rcvAnnWnd)
    (hpcb : pcb'.hearing = (pcb.rcvNxt, pcb.rcvWnd, pcb.rcvAnnWnd, u32 (pcb.rcvNxt + pcb.rcvAnnWnd),
      pcb.inInput, pcb.wire ++ [p])) : Announces pcb pcb' := by
  simp only [hearing, Prod.mk.injEq] at hpcb
  obtain ⟨hnxt, hrcvWnd, hann, hright, hinput, hwire⟩ := hpcb
  exact ⟨hnxt, hrcvWnd, hann, hinput, [p], hwire,
    List.forall_mem_singleton.mpr ⟨hackno, hwnd⟩, hright⟩

theorem trans (h : Announces pcb pcb') (h' : Announces pcb' pcb'') : Announces pcb pcb'' := by
  obtain ⟨packets, hwire, hall, hright⟩ := h.wire
  obtain ⟨packets', hwire', hall', hright'⟩ := h'.wire
  rw [h.rcvNxt, h.rcvAnnWnd] at hall' hright'
  refine ⟨h'.rcvNxt.trans h.rcvNxt, h'.rcvWnd.trans h.rcvWnd, h'.rcvAnnWnd.trans h.rcvAnnWnd,
    h'.inInput.trans h.inInput, packets ++ packets', ?_, List.forall_mem_append.mpr ⟨hall, hall'⟩,
    ?_⟩
  · rw [hwire', hwire, List.append_assoc]
  · rw [hright', hright]
    cases packets <;> cases packets' <;> rfl

/-- Something was done before that the receiving side knows nothing of. -/
theorem behind (h : Announces pcb' pcb'') (heq : pcb'.hearing = pcb.hearing) :
    Announces pcb pcb'' :=
  (of_hearing heq).trans h

end Announces

theorem sendSegment_announces (pcb : TcpPcb) (seg : Segment) (rest : List Segment) :
    Announces pcb (pcb.sendSegment seg rest) := by
  unfold sendSegment tcpOutputSegment
  exact .of_packet rfl rfl rfl

theorem outputLoop_announces (wnd : Nat) (segs : List Segment) (pcb : TcpPcb) :
    Announces pcb (outputLoop wnd segs pcb) := by
  induction segs generalizing pcb with
  | nil => exact .refl pcb
  | cons seg rest ih =>
      unfold outputLoop
      split
      · split
        · exact .refl pcb
        · exact (sendSegment_announces pcb seg rest).trans (ih _)
      · exact .refl pcb

theorem tcpOutput_announces (pcb : TcpPcb) (mem : Bool) : Announces pcb (pcb.tcpOutput mem) := by
  unfold tcpOutput
  dsimp only
  split
  next _ => exact .refl pcb
  next _ =>
    split
    next _ =>
      unfold tcpSendEmptyAck
      split
      · exact .of_packet rfl rfl rfl
      · exact .refl pcb
    next _ => exact (outputLoop_announces _ _ _).trans (.of_hearing rfl)

theorem tcpRexmitRto_announces (pcb : TcpPcb) (mem : Bool) :
    Announces pcb (pcb.tcpRexmitRto mem) := by
  unfold tcpRexmitRto
  split
  next _ => exact .refl pcb
  next _ => exact (tcpOutput_announces _ mem).behind rfl

theorem rexmitTimeout_announces (pcb : TcpPcb) (mem : Bool) :
    Announces pcb (pcb.rexmitTimeout mem) := by
  unfold rexmitTimeout
  split
  next _ => exact .refl pcb
  next _ => exact (tcpRexmitRto_announces _ mem).behind rfl

theorem tcpZeroWindowProbe_announces (pcb : TcpPcb) (mem : Bool) :
    Announces pcb (pcb.tcpZeroWindowProbe mem) := by
  unfold tcpZeroWindowProbe
  split
  next _ => exact .refl pcb
  next _ =>
    dsimp only
    split
    · exact .of_packet rfl rfl rfl
    · exact .refl pcb

theorem closeTo_announces (pcb : TcpPcb) (state : TcpState) (mem : Nat → Bool) :
    Announces pcb (pcb.closeTo state mem).2 := by
  have hfin := tcpSendFin_hearing pcb mem
  unfold closeTo
  generalize pcb.tcpSendFin mem = result at hfin
  split
  next _ => exact (tcpOutput_announces _ _).behind hfin
  next _ => exact .of_hearing hfin

theorem tcpCloseShutdown_announces (pcb : TcpPcb) (mem : Nat → Bool) :
    Announces pcb (pcb.tcpCloseShutdown mem).2 := by
  unfold tcpCloseShutdown
  split
  · exact closeTo_announces _ _ _
  · exact closeTo_announces _ _ _
  · exact .refl pcb

theorem tcpRecved_inInput (pcb : TcpPcb) (len : Nat) (mem : Bool) :
    (pcb.tcpRecved len mem).inInput = pcb.inInput := by
  have hupdate : ∀ p : TcpPcb, p.tcpUpdateRcvAnnWnd.2.inInput = p.inInput := by
    intro p
    unfold tcpUpdateRcvAnnWnd
    dsimp only
    repeat' split
    all_goals rfl
  have hsend : ∀ p : TcpPcb, (if tcpWndUpdateThreshold ≤ p.tcpUpdateRcvAnnWnd.1 then
      p.tcpUpdateRcvAnnWnd.2.tcpAckNow.tcpOutput mem else p.tcpUpdateRcvAnnWnd.2).inInput =
        p.inInput := by
    intro p
    split
    · exact (tcpOutput_announces _ mem).inInput.trans (hupdate p)
    · exact hupdate p
  exact hsend _

/-! ## What is accepted -/

/-- A packet that acknowledges between `n` and `n'` symbols, with a window that ends between `edge`
and `edge'`. -/
def Allows (pbase n edge n' edge' : Nat) (p : Packet) : Prop :=
  ∃ a, n ≤ a ∧ a ≤ n' ∧ p.ackno = seqAt pbase a ∧ edge ≤ a + p.wnd ∧ a + p.wnd ≤ edge'

theorem Allows.mono {m d m' d' : Nat} {p : Packet} (h : Allows pbase n edge n' edge' p)
    (hn : m ≤ n) (hedge : d ≤ edge) (hn' : n' ≤ m') (hedge' : edge' ≤ d') :
    Allows pbase m d m' d' p := by
  obtain ⟨a, hlow, hle, hackno, hwnd, hwnd'⟩ := h
  exact ⟨a, Nat.le_trans hn hlow, Nat.le_trans hle hn', hackno, Nat.le_trans hedge hwnd,
    Nat.le_trans hwnd' hedge'⟩

/-- The receiving side goes on from `n` accepted symbols and a window up to `edge` to `n'` and
`edge'`, and takes back neither in what it sends. -/
structure Hears (pbase n edge n' edge' : Nat) (pcb pcb' : TcpPcb) : Prop where
  count_le : n ≤ n'
  edge_le : edge ≤ edge'
  receiving : Receiving pbase n' edge' pcb'
  wire : ∃ packets, pcb'.wire = pcb.wire ++ packets ∧
    ∀ p ∈ packets, Allows pbase n edge n' edge' p

namespace Hears

theorem of_wire (h : Receiving pbase n edge pcb') (hwire : pcb'.wire = pcb.wire) :
    Hears pbase n edge n edge pcb pcb' :=
  ⟨Nat.le_refl _, Nat.le_refl _, h, [], hwire.trans (List.append_nil _).symm, nofun⟩

theorem trans (h : Hears pbase n edge n' edge' pcb pcb')
    (h' : Hears pbase n' edge' n'' edge'' pcb' pcb'') : Hears pbase n edge n'' edge'' pcb pcb'' := by
  obtain ⟨packets, hwire, hall⟩ := h.wire
  obtain ⟨packets', hwire', hall'⟩ := h'.wire
  refine ⟨Nat.le_trans h.count_le h'.count_le, Nat.le_trans h.edge_le h'.edge_le, h'.receiving,
    packets ++ packets', ?_, List.forall_mem_append.mpr ⟨fun p hp => ?_, fun p hp => ?_⟩⟩
  · rw [hwire', hwire, List.append_assoc]
  · exact (hall p hp).mono (Nat.le_refl _) (Nat.le_refl _) h'.count_le h'.edge_le
  · exact (hall' p hp).mono h.count_le h.edge_le (Nat.le_refl _) (Nat.le_refl _)

/-- Something was done before that sends nothing. -/
theorem behind (h : Hears pbase n edge n' edge' pcb' pcb'') (hwire : pcb'.wire = pcb.wire) :
    Hears pbase n edge n' edge' pcb pcb'' :=
  ⟨h.count_le, h.edge_le, h.receiving, hwire ▸ h.wire⟩

/-- The fields of the receiving side are kept. -/
theorem congr (h : Hears pbase n edge n' edge' pcb pcb') (hnxt : pcb''.rcvNxt = pcb'.rcvNxt)
    (hright : pcb''.rcvAnnRightEdge = pcb'.rcvAnnRightEdge)
    (hann : pcb''.rcvAnnWnd = pcb'.rcvAnnWnd) (hwnd : pcb''.rcvWnd = pcb'.rcvWnd)
    (hwire : pcb''.wire = pcb'.wire) : Hears pbase n edge n' edge' pcb pcb'' :=
  ⟨h.count_le, h.edge_le, h.receiving.congr hnxt hright hann hwnd, hwire ▸ h.wire⟩

end Hears

theorem Receiving.announces (h : Receiving pbase n edge pcb) (ha : Announces pcb pcb') :
    ∃ edge', Hears pbase n edge n edge' pcb pcb' := by
  obtain ⟨packets, hwire, hall, hright⟩ := ha.wire
  cases packets with
  | nil =>
      exact ⟨edge, .of_wire (h.congr ha.rcvNxt hright ha.rcvAnnWnd ha.rcvWnd)
        (hwire.trans (List.append_nil _))⟩
  | cons q packets =>
      refine ⟨n + pcb.rcvAnnWnd, Nat.le_refl _, h.edge_le,
        h.announce ha.rcvNxt hright ha.rcvAnnWnd ha.rcvWnd, q :: packets, hwire, fun p hp => ?_⟩
      obtain ⟨hackno, hwnd⟩ := hall p hp
      exact ⟨n, Nat.le_refl _, Nat.le_refl _, hackno.trans h.rcvNxt, hwnd ▸ h.edge_le,
        Nat.le_of_eq (congrArg (n + ·) hwnd)⟩

theorem Receiving.congr_hearing (h : Receiving pbase n edge pcb)
    (heq : pcb'.hearing = pcb.hearing) : Receiving pbase n edge pcb' := by
  simp only [hearing, Prod.mk.injEq] at heq
  obtain ⟨hnxt, hwnd, hann, hright, -, -⟩ := heq
  exact h.congr hnxt hright hann hwnd

/-- The FIN of the peer takes no room any more. -/
theorem Receiving.addFin (h : Receiving pbase n edge pcb) : Receiving pbase n edge { pcb with
    rcvWnd := if pcb.rcvWnd ≠ tcpWnd then u16 (pcb.rcvWnd + 1) else pcb.rcvWnd } := by
  have hmax : tcpWnd = 2920 := rfl
  have hwnd := h.wnd_le
  have hann := h.ann_le
  have hle : pcb.rcvWnd ≤ (if pcb.rcvWnd ≠ tcpWnd then u16 (pcb.rcvWnd + 1) else pcb.rcvWnd) ∧
      (if pcb.rcvWnd ≠ tcpWnd then u16 (pcb.rcvWnd + 1) else pcb.rcvWnd) ≤ tcpWnd := by
    split
    next hne =>
      rw [u16_of_lt (by omega)]
      omega
    next heq => omega
  exact ⟨h.rcvNxt, h.right, h.edge_le, Nat.le_trans hann hle.1, hle.2, h.near⟩

/-- `tcp_recved` makes room, and announces it where it is worth a packet. -/
theorem tcpRecved_eq (h : Receiving pbase n edge pcb) {len : Nat} (hlen : len ≤ 65535 - tcpWnd)
    (mem : Bool) : ∃ rcvWnd rcvAnnWnd, Receiving pbase n edge { pcb with rcvWnd, rcvAnnWnd } ∧
      (pcb.tcpRecved len mem = { pcb with rcvWnd, rcvAnnWnd } ∨
        pcb.tcpRecved len mem =
          ({ pcb with rcvWnd, rcvAnnWnd } : TcpPcb).tcpAckNow.tcpOutput mem) := by
  have hmax : tcpWnd = 2920 := rfl
  have hwnd := h.wnd_le
  have hann := h.ann_le
  have hedge := h.edge_le
  have hcheck : pcb.check (len ≤ 65535 - pcb.rcvWnd) = pcb :=
    check_of (decide_eq_true (by omega)) _
  have hcap : (if tcpWnd < u16 (pcb.rcvWnd + len) then tcpWnd else u16 (pcb.rcvWnd + len)) =
      min tcpWnd (pcb.rcvWnd + len) := by
    rw [u16_of_lt (by omega)]
    split <;> omega
  obtain ⟨annWnd, hupdate, hedge', hann'⟩ := @tcpUpdateRcvAnnWnd_spec
    { pcb with rcvWnd := min tcpWnd (pcb.rcvWnd + len) } pbase n edge h.rcvNxt h.right
    (by dsimp only; omega) (Nat.min_le_left _ _) h.near
  refine ⟨min tcpWnd (pcb.rcvWnd + len), annWnd,
    ⟨h.rcvNxt, h.right, hedge', hann', Nat.min_le_left _ _, h.near⟩, ?_⟩
  unfold tcpRecved
  dsimp only
  rw [hcheck, hcap, hupdate]
  split
  · exact .inr rfl
  · exact .inl rfl

theorem tcpRecved_hears (h : Receiving pbase n edge pcb) {len : Nat} (hlen : len ≤ 65535 - tcpWnd)
    (mem : Bool) : ∃ edge', Hears pbase n edge n edge' pcb (pcb.tcpRecved len mem) := by
  obtain ⟨rcvWnd, rcvAnnWnd, hrecv, hsame | hsent⟩ := tcpRecved_eq h hlen mem
  · rw [hsame]
    exact ⟨edge, .of_wire hrecv rfl⟩
  · have hnow : Receiving pbase n edge
        ({ pcb with rcvWnd, rcvAnnWnd } : TcpPcb).tcpAckNow := hrecv.congr rfl rfl rfl rfl
    obtain ⟨edge', hhears⟩ := hnow.announces (tcpOutput_announces _ mem)
    rw [hsent]
    exact ⟨edge', hhears.behind rfl⟩

/-- What a segment leads to: the next symbols of the peer's stream are accepted. -/
structure Heard (pbase n edge : Nat) (stream : List (Option UInt8)) (pcb : TcpPcb) (r : Received) :
    Prop where
  slice : IsSlice stream n r.symbols
  hears : ∃ edge', Hears pbase n edge (n + r.symbols.length) edge' pcb r.pcb

theorem Accepts.heard {r : Received} (h : Accepts pbase n edge stream pcb r)
    (hrecv : Receiving pbase n edge pcb) : Heard pbase n edge stream pcb r := by
  obtain ⟨edge', hle, hrecv', hwire⟩ := h.receiving
  refine ⟨h.slice, edge', Nat.le_add_right _ _, hle, hrecv', ?_⟩
  cases hwire with
  | inl hsame => exact ⟨[], hsame.trans (List.append_nil _).symm, nofun⟩
  | inr hone =>
      refine ⟨[pcb.emptyAck], hone.1, List.forall_mem_singleton.mpr ?_⟩
      exact ⟨n, Nat.le_refl _, Nat.le_add_right _ _, hrecv.rcvNxt, hrecv.edge_le, hone.2⟩

/-- What the states of a connection do with it plays no part. -/
theorem Heard.congr {r : Received} (h : Heard pbase n edge stream pcb r)
    (hpcb : pcb'.hearing = r.pcb.hearing) : Heard pbase n edge stream pcb { r with pcb := pcb' } := by
  obtain ⟨edge', hhears⟩ := h.hears
  simp only [hearing, Prod.mk.injEq] at hpcb
  obtain ⟨hnxt, hwnd, hann, hright, -, hwire⟩ := hpcb
  exact ⟨h.slice, edge', hhears.congr hnxt hright hann hwnd hwire⟩

theorem heard_nothing (h : Receiving pbase n edge pcb) (heq : pcb'.hearing = pcb.hearing) :
    Heard pbase n edge stream pcb { pcb := pcb', recvData := none, gotFin := false } := by
  have hwire : pcb'.wire = pcb.wire := by
    simp only [hearing, Prod.mk.injEq] at heq
    exact heq.2.2.2.2.2
  exact ⟨IsSlice.nil _ _, edge, .of_wire (h.congr_hearing heq) hwire⟩

theorem tcpReceive_heard {y : Nat} (h : Receiving pbase n edge pcb)
    (hin : Carries pbase n edge stream inseg y) (mem : Bool) :
    Heard pbase n edge stream pcb (pcb.tcpReceive inseg mem) := by
  have hacked : (if inseg.hdr.ack then
      (pcb.check (TcpState.established.toNat ≤ pcb.state.toNat)).receiveAck inseg
      else pcb.check (TcpState.established.toNat ≤ pcb.state.toNat)).hearing = pcb.hearing := by
    split
    · exact receiveAck_hearing _ _
    · rfl
  unfold tcpReceive
  dsimp only
  generalize (if inseg.hdr.ack then
    (pcb.check (TcpState.established.toNat ≤ pcb.state.toNat)).receiveAck inseg
    else pcb.check (TcpState.established.toNat ≤ pcb.state.toNat)) = pcb' at hacked
  have hrecv := h.congr_hearing hacked
  obtain ⟨hslice, edge', hhears⟩ := (receiveData_spec hrecv hin mem).heard hrecv
  have hwire : pcb'.wire = pcb.wire := by
    simp only [hearing, Prod.mk.injEq] at hacked
    exact hacked.2.2.2.2.2
  exact ⟨hslice, edge', hhears.behind hwire⟩

/-- Whatever state the connection is in, and whatever the segment acknowledges. -/
theorem tcpProcess_heard (h : Receiving pbase n edge pcb)
    (hin : inseg.hdr.rst = false → inseg.hdr.syn = false →
      ∃ y, Carries pbase n edge stream inseg y) (mem : Bool) :
    Heard pbase n edge stream pcb (pcb.tcpProcess inseg mem).1 := by
  unfold tcpProcess
  dsimp only
  split
  next _ => split <;> exact heard_nothing h rfl
  next hrst =>
    split
    next _ => exact heard_nothing h rfl
    next hsyn =>
      obtain ⟨y, hcarries⟩ := hin (by simpa using hrst) (by simpa using hsyn)
      have hparsed : Receiving pbase n edge (pcb.tcpParseopt inseg.hdr) := h.congr_hearing rfl
      obtain ⟨hslice, edge', hhears⟩ := tcpReceive_heard hparsed hcarries mem
      generalize (pcb.tcpParseopt inseg.hdr).tcpReceive inseg mem = r at hslice hhears
      have hheard : Heard pbase n edge stream pcb r :=
        ⟨hslice, edge', hhears.behind rfl⟩
      split
      -- in each state the fields of the receiving side are those that `tcp_receive` leaves
      all_goals repeat' split
      all_goals first
        | exact hheard
        | exact hheard.congr rfl
        | exact heard_nothing h rfl

end TcpPcb

end Meu1oARM
