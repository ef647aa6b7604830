import Meu1oARM.Lwip.TcpCalls

/-! # What a segment does to a connection

A segment may acknowledge something, carry the next data and the end of the peer's
stream, and lead to calls of the application; at its end `tcp_output` is called, which
completes a fast retransmission.
-/

namespace Meu1oARM

open Machine Serial TcpPcb

namespace TcpPcb

variable {pcb pcb' : TcpPcb} {g : Progress} {seg : Segment} {rest : List Segment}

/-! ## A fast retransmission within `tcp_input` -/

/-- The send queues between an acknowledgement and the end of `tcp_input`. -/
inductive Mid (g : Progress) (pcb : TcpPcb) : Prop
  | sending (h : Pending g pcb)
  | resending {seg : Segment} {rest : List Segment} (h : Resending g pcb seg rest)
      (hfits : pcb.inWindow pcb.sndWnd seg = true)

theorem Resending.congr (h : Resending g pcb seg rest) (hsend : pcb'.sendView = pcb.sendView)
    (hunsent : pcb'.unsent = pcb.unsent) (hinfr : pcb'.infr = pcb.infr)
    (hcwnd : pcb'.cwnd = pcb.cwnd) : Resending g pcb' seg rest := by
  have hmss : pcb'.mss = pcb.mss := (congrArg mss hsend :)
  have hview : ∀ p : TcpPcb, (p.restored seg rest).sendView =
      { p.sendView with
        unacked := seg.core :: p.sendView.unacked
        unsent := rest.map Segment.core } := fun _ => rfl
  refine ⟨hunsent.trans h.unsent, hinfr.trans h.infr, by rw [hmss, hcwnd]; exact h.cwnd,
    h.sending.congr ?_⟩
  rw [hview, hview, hsend]

/-- The state may change, as long as nothing is written behind a FIN. -/
theorem Pending.setState (h : Pending g pcb) {state : TcpState}
    (hshut : pcb.finQueued = true → Shut state) : Pending g { pcb with state } :=
  { h with shut := hshut }

theorem Mid.setState (h : Mid g pcb) {state : TcpState}
    (hshut : pcb.finQueued = true → Shut state) : Mid g { pcb with state } := by
  cases h with
  | sending h => exact .sending (h.setState hshut)
  | resending h hfits =>
      exact .resending ⟨h.unsent, h.infr, h.cwnd, h.sending.setState hshut⟩ hfits

theorem Mid.congr (h : Mid g pcb) (hsend : pcb'.sendView = pcb.sendView)
    (hunsent : pcb'.unsent = pcb.unsent) (hinfr : pcb'.infr = pcb.infr)
    (hcwnd : pcb'.cwnd = pcb.cwnd) (hsndWnd : pcb'.sndWnd = pcb.sndWnd) : Mid g pcb' := by
  cases h with
  | sending h => exact .sending (h.congr hsend)
  | resending h hfits =>
      have hlastack : pcb'.lastack = pcb.lastack := (congrArg lastack hsend :)
      refine .resending (h.congr hsend hunsent hinfr hcwnd) ?_
      unfold inWindow at hfits ⊢
      rw [hlastack, hsndWnd]
      exact hfits

/-- The segment to be sent once more is no longer than the congestion window. -/
theorem Resending.inWindow_cwnd (h : Resending g pcb seg rest) : pcb.inWindow pcb.cwnd seg = true := by
  have hmss : tcpMss = 1460 := rfl
  have hwf := h.sending.wf seg List.mem_cons_self
  have hle : seg.len ≤ pcb.mss := Nat.le_trans hwf.le (Nat.min_le_left _ _)
  have hmssle : pcb.mss ≤ tcpMss := h.sending.mss_le
  have hcwnd := h.cwnd
  have hstart := h.sending.start_le
  have hhead := h.sending.head seg rfl
  have hlen : seg.tcpLen ≤ seg.len + 1 := by
    unfold Segment.tcpLen
    split <;> omega
  have hlastack : pcb.lastack = seqAt g.base g.una := h.sending.lastack
  have hsub : u32 (sub32 seg.seqno pcb.lastack + seg.len) = g.start + seg.len - g.una := by
    rw [h.sending.queued.1, hlastack]
    unfold sub32 seqAt u32
    omega
  unfold inWindow
  rw [decide_eq_true_eq, hsub]
  omega

theorem Mid.span_le (h : Mid g pcb) : (pcb.stream g.written).length ≤ g.start + 8192 := by
  cases h with
  | sending h => exact h.span_le
  | resending h => exact h.sending.span_le

theorem Mid.sndNxt (h : Mid g pcb) : pcb.sndNxt = seqAt g.base g.nxt := by
  cases h with
  | sending h => exact h.sndNxt
  | resending h => exact h.sending.sndNxt

theorem Mid.room_le (h : Mid g pcb) :
    (pcb.stream g.written).length ≤ g.una + (tcpSndBuf + 1) := by
  cases h with
  | sending h => exact h.stream_length_le
  | resending h => exact h.sending.stream_length_le

/-- `tcp_output` at the end of `tcp_input`. -/
theorem Mid.tcpOutput (h : Mid g pcb) (hinput : pcb.inInput = false) (mem : Bool) :
    ∃ nxt, g.nxt ≤ nxt ∧ Pending { g with nxt } (pcb.tcpOutput mem) ∧
      Emits g pcb (pcb.tcpOutput mem) := by
  cases h with
  | sending h => exact tcpOutput_spec h mem
  | resending h hfits =>
      refine h.tcpOutput_spec ⟨hinput, ?_⟩ mem
      have hcwnd := h.inWindow_cwnd
      unfold inWindow at hfits hcwnd ⊢
      rw [decide_eq_true_eq] at hfits hcwnd ⊢
      exact Nat.le_min.mpr ⟨hfits, hcwnd⟩

/-! ## `tcp_parseopt` -/

@[simp] theorem parseOpts_nil (fuel mss : Nat) : parseOpts fuel [] mss = mss := by
  cases fuel <;> rfl

/-- The loop comes to its end before there is no fuel left. -/
theorem parseOpts_fuel (fuel more : Nat) {opts : List UInt8} (hfuel : opts.length ≤ fuel)
    (mss : Nat) : parseOpts (fuel + more) opts mss = parseOpts fuel opts mss := by
  induction fuel generalizing opts mss with
  | zero =>
      obtain rfl := List.eq_nil_of_length_eq_zero (Nat.le_zero.mp hfuel)
      rw [parseOpts_nil, parseOpts_nil]
  | succ fuel ih =>
      cases opts with
      | nil => rw [parseOpts_nil, parseOpts_nil]
      | cons opt opts =>
          have hle : opts.length ≤ fuel := Nat.le_of_succ_le_succ hfuel
          rw [Nat.add_right_comm]
          unfold parseOpts
          split
          next _ => rfl
          next _ =>
            split
            next _ => exact ih hle mss
            next _ =>
              split
              next _ =>
                split
                next len hi lo rest =>
                  have hrest : rest.length ≤ fuel := by
                    simp only [List.length_cons] at hle
                    omega
                  rw [ih hrest]
                next _ => rfl
              next _ =>
                split
                next len rest =>
                  split
                  next _ => rfl
                  next hne =>
                    apply ih
                    have hpos : len.toNat ≠ 0 := fun hzero => hne (UInt8.toNat_inj.mp hzero)
                    rw [List.length_drop, List.length_cons]
                    omega
                next _ => rfl

theorem limitMss_bounds (mss : Nat) : 0 < limitMss mss ∧ limitMss mss ≤ tcpMss := by
  have hmax : tcpMss = 1460 := rfl
  unfold limitMss
  split <;> omega

/-- The MSS stays between 1 and `TCP_MSS`, whatever the peer asks for. -/
theorem parseOpts_bounds (fuel : Nat) (opts : List UInt8) {mss : Nat} (h : 0 < mss ∧ mss ≤ tcpMss) :
    0 < parseOpts fuel opts mss ∧ parseOpts fuel opts mss ≤ tcpMss := by
  induction fuel generalizing opts mss with
  | zero => exact h
  | succ fuel ih =>
      cases opts with
      | nil => exact h
      | cons opt opts =>
          unfold parseOpts
          split
          next _ => exact h
          next _ =>
            split
            next _ => exact ih _ h
            next _ =>
              split
              next _ =>
                split
                next _ =>
                  split
                  next _ => exact ih _ (limitMss_bounds _)
                  next _ => exact h
                next _ => exact h
              next _ =>
                split
                next _ =>
                  split
                  next _ => exact h
                  next _ => exact ih _ h
                next _ => exact h

/-- Longer segments are allowed. -/
theorem Pending.growMss {mss : Nat} (h : Pending g pcb) (hle : pcb.mss ≤ mss) (hmax : mss ≤ tcpMss) :
    Pending g { pcb with mss } := by
  have hlocal : pcb.mssLocal ≤ min mss (pcb.sndWndMax / 2) := by
    unfold mssLocal
    omega
  exact
    { h with
      wf := fun seg hseg => (h.wf seg hseg).mono hlocal
      oversize := fun seg hseg =>
        ⟨Nat.le_trans (h.oversize seg hseg).1 hlocal, (h.oversize seg hseg).2⟩
      mss_pos := Nat.lt_of_lt_of_le h.mss_pos hle
      mss_le := hmax }

@[simp] theorem tcpParseopt_state (pcb : TcpPcb) (hdr : Header) :
    (pcb.tcpParseopt hdr).state = pcb.state := rfl

theorem tcpParseopt_spec {hdr : Header} (h : Pending g pcb)
    (hmss : pcb.mss ≤ (pcb.tcpParseopt hdr).mss) : Pending g (pcb.tcpParseopt hdr) :=
  h.growMss hmss (parseOpts_bounds _ _ ⟨h.mss_pos, h.mss_le⟩).2

/-! ## `tcp_receive` -/

/-- A segment that the peer may have sent: it carries a piece of the peer's stream, does not
acknowledge something half of the sequence space away, and does not take back so much of the window
that the first segment under way does not fit any more. -/
structure Acceptable (base n edge : Nat) (stream : List (Option UInt8)) (pcb : TcpPcb)
    (inseg : Inseg) : Prop where
  carries : ∃ y, Carries base n edge stream inseg y
  ackno : inseg.hdr.ackno < 4294967296
  wnd : inseg.hdr.wnd < 65536
  timely : inseg.hdr.ack = true → pcb.Timely inseg.hdr.ackno
  covers : inseg.hdr.ack = true → inseg.hdr.ackno = pcb.lastack → ∀ seg ∈ pcb.unacked.head?,
    pcb.inWindow (pcb.updateWindow inseg.hdr).sndWnd seg = true

theorem updateWindow_sndWnd (hwl1 : pcb'.sndWl1 = pcb.sndWl1) (hwl2 : pcb'.sndWl2 = pcb.sndWl2)
    (hwnd : pcb'.sndWnd = pcb.sndWnd) (hdr : Header) :
    (pcb'.updateWindow hdr).sndWnd = (pcb.updateWindow hdr).sndWnd := by
  unfold updateWindow
  rw [hwl1, hwl2, hwnd]
  split
  · rfl
  · exact hwnd

theorem Acceptable.congr {base n edge : Nat} {stream : List (Option UInt8)} {inseg : Inseg}
    (h : Acceptable base n edge stream pcb inseg) (hlastack : pcb'.lastack = pcb.lastack)
    (hunacked : pcb'.unacked = pcb.unacked) (hwl1 : pcb'.sndWl1 = pcb.sndWl1)
    (hwl2 : pcb'.sndWl2 = pcb.sndWl2) (hwnd : pcb'.sndWnd = pcb.sndWnd) :
    Acceptable base n edge stream pcb' inseg := by
  refine ⟨h.carries, h.ackno, h.wnd, ?_, fun hack heq seg hseg => ?_⟩
  · unfold Timely
    rw [hlastack]
    exact h.timely
  · rw [hlastack] at heq
    rw [hunacked] at hseg
    have hfits := h.covers hack heq seg hseg
    unfold inWindow at hfits ⊢
    rwa [updateWindow_sndWnd hwl1 hwl2 hwnd, hlastack]

/-- A packet without data. -/
structure EmptyAck (g : Progress) (p : Packet) : Prop where
  syn : p.syn = false
  fin : p.fin = false
  data : p.data = []
  seqno : p.seqno = seqAt g.base g.nxt

/-- What `tcp_receive` leaves. -/
structure Receives (inseg : Inseg) (g g' : Progress) (pcb : TcpPcb) (r : Received) : Prop where
  base : g'.base = g.base
  written : g'.written = g.written
  nxt : g'.nxt = g.nxt
  una : g'.una = g.una + if inseg.hdr.ack then g.ackedBy inseg.hdr.ackno else 0
  acked : inseg.hdr.ack = true → r.pcb.acked = ackedBytes g pcb (g.ackedBy inseg.hdr.ackno)
  mid : Mid g' r.pcb
  quiet : Pending g' r.pcb ∨ r.pcb.acked = 0 ∧ r.recvData = none ∧ r.gotFin = false
  words : Words r.pcb
  wire : r.pcb.wire = pcb.wire ∨ ∃ p, r.pcb.wire = pcb.wire ++ [p] ∧ EmptyAck g' p
  state : r.pcb.state = pcb.state
  finQueued : r.pcb.finQueued = pcb.finQueued
  inInput : r.pcb.inInput = pcb.inInput
  asserted : r.pcb.asserted = pcb.asserted
  returned : r.pcb.returned = pcb.returned

theorem dataView_sendView (h : pcb'.dataView = pcb.dataView) : pcb'.sendView = pcb.sendView :=
  (congrArg sendView h :)

/-- An empty segment brings nothing. -/
theorem receiveData_empty {inseg : Inseg} (hempty : inseg.tcpLen = 0) (pcb : TcpPcb) (mem : Bool) :
    (pcb.receiveData inseg mem).recvData = none ∧ (pcb.receiveData inseg mem).gotFin = false := by
  unfold receiveData
  dsimp only
  rw [if_neg (by omega)]
  exact ⟨rfl, rfl⟩

/-- The control block after the acknowledgement of a segment. -/
structure Acked (inseg : Inseg) (g g' : Progress) (pcb pcb' : TcpPcb) : Prop where
  base : g'.base = g.base
  written : g'.written = g.written
  nxt : g'.nxt = g.nxt
  una : g'.una = g.una + if inseg.hdr.ack then g.ackedBy inseg.hdr.ackno else 0
  acked : inseg.hdr.ack = true → pcb'.acked = ackedBytes g pcb (g.ackedBy inseg.hdr.ackno)
  mid : Mid g' pcb'
  quiet : Pending g' pcb' ∨ pcb'.acked = 0 ∧ inseg.tcpLen = 0
  words : Words pcb'
  view : pcb'.recvView = pcb.recvView

theorem acked_spec {stream : List (Option UInt8)} {base n edge : Nat} {inseg : Inseg}
    (h : Pending g pcb) (hwords : Words pcb) (hin : Acceptable base n edge stream pcb inseg) :
    ∃ g', Acked inseg g g' pcb (if inseg.hdr.ack then pcb.receiveAck inseg else pcb) := by
  cases hack : inseg.hdr.ack with
  | false =>
      exact ⟨g, rfl, rfl, rfl, by simp [hack], by simp [hack], .sending h, .inl h, hwords, rfl⟩
  | true =>
      have hresult := receiveAck_spec h hwords hin.ackno hin.wnd (hin.timely hack)
      have hwords' := hwords.receiveAck h.mss_le hin.wnd
      have hview := (updateWindow_spec h inseg.hdr).2
      have hbytes : ∀ d, ackedBytes g (pcb.updateWindow inseg.hdr) d = ackedBytes g pcb d := by
        intro d
        have hfin : (pcb.updateWindow inseg.hdr).finQueued = pcb.finQueued :=
          (congrArg finQueued hview :)
        rw [ackedBytes, ackedBytes, TcpPcb.stream, TcpPcb.stream, hfin]
      simp only [if_true]
      generalize pcb.receiveAck inseg = pcb' at hresult hwords'
      cases hresult with
      | sending hacks =>
          obtain ⟨start, hstart, hsend⟩ := hacks.sending
          exact ⟨{ g with start, una := g.una + g.ackedBy inseg.hdr.ackno }, rfl, rfl, rfl,
            by simp [hack], fun _ => hacks.acked.trans (hbytes _),
            .sending hsend, .inl hsend, hwords', hacks.view.trans hview⟩
      | resending hresend hseg hview' hwindow hzero hnone hempty =>
          have hby : g.ackedBy inseg.hdr.ackno = 0 := by
            rw [hnone, h.lastack, Progress.ackedBy, sub32_seqAt (Nat.le_refl _) (by omega)]
            simp
          have hlastack : pcb'.lastack = pcb.lastack :=
            hresend.sending.lastack.trans h.lastack.symm
          have hwnd : pcb'.sndWnd = (pcb.updateWindow inseg.hdr).sndWnd := (congrArg Prod.fst hwindow :)
          have hfits := hin.covers hack hnone _ hseg
          refine ⟨g, rfl, rfl, rfl, by simp [hby], fun _ => ?_, .resending hresend ?_,
            .inr ⟨hzero, hempty⟩, hwords', hview'⟩
          · rw [hzero, hby]
            unfold ackedBytes
            split <;> rfl
          · unfold inWindow at hfits ⊢
            rw [hlastack, hwnd]
            exact hfits

theorem tcpReceive_spec {stream : List (Option UInt8)} {base n edge : Nat} {inseg : Inseg}
    (h : Pending g pcb) (hwords : Words pcb) (hrecv : Receiving base n edge pcb)
    (hstate : Connected pcb.state) (hin : Acceptable base n edge stream pcb inseg) (mem : Bool) :
    ∃ g', Receives inseg g g' pcb (pcb.tcpReceive inseg mem) := by
  obtain ⟨g', hacked⟩ := acked_spec h hwords hin
  obtain ⟨y, hcarries⟩ := hin.carries
  unfold tcpReceive
  rw [check_of (decide_eq_true hstate.1)]
  dsimp only
  generalize (if inseg.hdr.ack then pcb.receiveAck inseg else pcb) = pcb' at hacked
  have hview := hacked.view
  have hrecv' : Receiving base n edge pcb' :=
    hrecv.congr (congrArg rcvNxt hview :) (congrArg rcvAnnRightEdge hview :)
      (congrArg rcvAnnWnd hview :) (congrArg rcvWnd hview :)
  have haccepts := receiveData_spec hrecv' hcarries mem
  have hempty := fun hzero : inseg.tcpLen = 0 => receiveData_empty hzero pcb' mem
  generalize pcb'.receiveData inseg mem = r at haccepts hempty
  have hdata := haccepts.view
  obtain ⟨_, -, -, hwire⟩ := haccepts.receiving
  have hwire' : pcb'.wire = pcb.wire := (congrArg wire hview :)
  refine ⟨g', hacked.base, hacked.written, hacked.nxt, hacked.una,
    fun hack => Eq.trans (congrArg TcpPcb.acked hdata :) (hacked.acked hack), ?_, ?_, ?_, ?_, ?_, ?_,
    ?_, ?_, ?_⟩
  · exact hacked.mid.congr (dataView_sendView hdata) (congrArg TcpPcb.unsent hdata :)
      (congrArg infr hdata :) (congrArg cwnd hdata :) (congrArg sndWnd hdata :)
  · cases hacked.quiet with
    | inl hsend => exact .inl (hsend.congr (dataView_sendView hdata))
    | inr hquiet =>
        obtain ⟨hnone, hfin⟩ := hempty hquiet.2
        exact .inr ⟨Eq.trans (congrArg TcpPcb.acked hdata :) hquiet.1, hnone, hfin⟩
  · exact hacked.words.congr (congrArg cwnd hdata :) (congrArg ssthresh hdata :)
      (congrArg sndWnd hdata :)
  · cases hwire with
    | inl hsame => exact .inl (hsame.trans hwire')
    | inr hone =>
        exact .inr ⟨pcb'.emptyAck, hwire' ▸ hone.1, rfl, rfl, rfl, hacked.mid.sndNxt⟩
  · exact Eq.trans (congrArg TcpPcb.state hdata :) (congrArg TcpPcb.state hview :)
  · exact Eq.trans (congrArg finQueued hdata :) (congrArg finQueued hview :)
  · exact Eq.trans (congrArg inInput hdata :) (congrArg inInput hview :)
  · exact Eq.trans (congrArg asserted hdata :) (congrArg asserted hview :)
  · exact Eq.trans (congrArg returned hdata :) (congrArg returned hview :)

/-! ## `tcp_process` -/

/-- What `tcp_process` leaves. -/
structure Processed (inseg : Inseg) (g g' : Progress) (pcb : TcpPcb) (result : Received × Ending) :
    Prop where
  base : g'.base = g.base
  written : g'.written = g.written
  nxt : g'.nxt = g.nxt
  una : g'.una = g.una ∨ inseg.hdr.ack = true ∧ g'.una = g.una + g.ackedBy inseg.hdr.ackno
  words : Words result.1.pcb
  wire : result.1.pcb.wire = pcb.wire ∨ ∃ p, result.1.pcb.wire = pcb.wire ++ [p] ∧ EmptyAck g' p
  finQueued : result.1.pcb.finQueued = pcb.finQueued
  asserted : result.1.pcb.asserted = pcb.asserted
  returned : result.1.pcb.returned = pcb.returned
  timeWait : result.1.pcb.state = .timeWait →
    result.1.pcb.unsent = [] ∧ result.1.pcb.sndNxt = seqAt g'.base g'.nxt
  alive : result.2 = .alive → result.1.pcb.state ≠ .timeWait →
    Connected result.1.pcb.state ∧ Mid g' result.1.pcb ∧
      (Pending g' result.1.pcb ∨
        result.1.pcb.acked = 0 ∧ result.1.recvData = none ∧ result.1.gotFin = false)

variable {stream : List (Option UInt8)} {pbase n edge : Nat} {inseg : Inseg} {g' : Progress}
  {r : Received}

theorem Processed.una_le {result : Received × Ending}
    (h : Processed inseg g g' pcb result) : g.una ≤ g'.una := by
  cases h.una with
  | inl hsame => exact Nat.le_of_eq hsame.symm
  | inr hmore => exact hmore.2 ▸ Nat.le_add_right _ _

/-- Nothing is done with a segment. -/
theorem processed_idle (h : Pending g pcb) (hwords : Words pcb)
    (hstate : Connected pcb.state) (hpcb : pcb' = pcb ∨ pcb' = pcb.tcpAckNow ∨
      pcb' = { pcb with ackDelay := false }) (ending : Ending) :
    Processed inseg g g pcb
      ({ pcb := pcb', recvData := none, gotFin := false }, ending) := by
  have hsend : Pending g pcb' := by
    rcases hpcb with rfl | rfl | rfl
    · exact h
    · exact h.congr rfl
    · exact h.congr rfl
  rcases hpcb with rfl | rfl | rfl
  all_goals
    exact ⟨rfl, rfl, rfl, .inl rfl, hwords.congr rfl rfl rfl, .inl rfl, rfl, rfl, rfl,
      fun htimeWait => absurd htimeWait hstate.2, fun _ _ => ⟨hstate, .sending hsend, .inl hsend⟩⟩

/-- The connection stays, in some state. -/
theorem Receives.processed (h : Receives inseg g g' pcb r) {state : TcpState}
    (hconnected : Connected state) (hshut : pcb.finQueued = true → Shut state)
    (hpcb : pcb' = { r.pcb with state } ∨ pcb' = { r.pcb.tcpAckNow with state }) :
    Processed inseg g g' pcb ({ r with pcb := pcb' }, .alive) := by
  have hshut' : r.pcb.finQueued = true → Shut state := by rwa [h.finQueued]
  have huna : g'.una = g.una ∨ inseg.hdr.ack = true ∧
      g'.una = g.una + g.ackedBy inseg.hdr.ackno := by
    have huna := h.una
    cases hack : inseg.hdr.ack with
    | true => exact .inr ⟨rfl, by simpa [hack] using huna⟩
    | false => exact .inl (by simpa [hack] using huna)
  have hmid : Mid g' pcb' := by
    rcases hpcb with rfl | rfl
    · exact h.mid.setState hshut'
    · exact (h.mid.setState hshut').congr rfl rfl rfl rfl rfl
  have hquiet : Pending g' pcb' ∨ pcb'.acked = 0 ∧ r.recvData = none ∧ r.gotFin = false := by
    rcases hpcb with rfl | rfl
    · exact h.quiet.imp_left fun hsend => hsend.setState hshut'
    · exact h.quiet.imp_left fun hsend => (hsend.setState hshut').congr rfl
  rcases hpcb with rfl | rfl
  all_goals
    exact ⟨h.base, h.written, h.nxt, huna, h.words.congr rfl rfl rfl, h.wire, h.finQueued,
      h.asserted, h.returned,
      fun htimeWait => absurd htimeWait hconnected.2, fun _ _ => ⟨hconnected, hmid, hquiet⟩⟩

/-- The connection is taken down, or enters TIME_WAIT. -/
theorem Receives.processed_end (h : Receives inseg g g' pcb r) {ending : Ending}
    (hend : pcb'.state = .timeWait ∨ ending ≠ .alive) (hwords : Words pcb')
    (hwire : pcb'.wire = r.pcb.wire) (hfin : pcb'.finQueued = r.pcb.finQueued)
    (hasserted : pcb'.asserted = r.pcb.asserted) (hreturned : pcb'.returned = r.pcb.returned)
    (hpurged : pcb'.state = .timeWait → pcb'.unsent = [] ∧ pcb'.sndNxt = r.pcb.sndNxt) :
    Processed inseg g g' pcb ({ r with pcb := pcb' }, ending) := by
  have huna : g'.una = g.una ∨ inseg.hdr.ack = true ∧
      g'.una = g.una + g.ackedBy inseg.hdr.ackno := by
    have huna := h.una
    cases hack : inseg.hdr.ack with
    | true => exact .inr ⟨rfl, by simpa [hack] using huna⟩
    | false => exact .inl (by simpa [hack] using huna)
  refine ⟨h.base, h.written, h.nxt, huna, hwords, ?_, hfin.trans h.finQueued,
    hasserted.trans h.asserted, hreturned.trans h.returned,
    fun htimeWait => ⟨(hpurged htimeWait).1, (hpurged htimeWait).2.trans h.mid.sndNxt⟩,
    fun halive hstate => ?_⟩
  · dsimp only
    rw [hwire]
    exact h.wire
  · exact (hend.elim hstate fun hne => hne halive).elim

/-- A segment that resets, opens or carries something, and does not ask for shorter segments. -/
def Admitted (base n edge : Nat) (stream : List (Option UInt8)) (pcb : TcpPcb) (inseg : Inseg) :
    Prop :=
  inseg.hdr.rst = false → inseg.hdr.syn = false →
    Acceptable base n edge stream pcb inseg ∧ pcb.mss ≤ (pcb.tcpParseopt inseg.hdr).mss

theorem tcpProcess_spec (h : Pending g pcb) (hwords : Words pcb)
    (hrecv : Receiving pbase n edge pcb) (hstate : Connected pcb.state)
    (hin : Admitted pbase n edge stream pcb inseg) (mem : Bool) :
    ∃ g', Processed inseg g g' pcb (pcb.tcpProcess inseg mem) := by
  have hshut : pcb.finQueued = true → Shut pcb.state := h.shut
  unfold tcpProcess
  dsimp only
  split
  next _ =>
    split
    · exact ⟨g, processed_idle h hwords hstate (.inr (.inr rfl)) _⟩
    · exact ⟨g, processed_idle h hwords hstate (.inl rfl) _⟩
  next hrst =>
    split
    next _ => exact ⟨g, processed_idle h hwords hstate (.inr (.inl rfl)) _⟩
    next hsyn =>
      obtain ⟨hok, hmss⟩ := hin (by simpa using hrst) (by simpa using hsyn)
      obtain ⟨g', hparsed⟩ := tcpReceive_spec (tcpParseopt_spec h hmss)
        (hwords.congr rfl rfl rfl) (hrecv.congr rfl rfl rfl rfl) hstate
        (hok.congr rfl rfl rfl rfl rfl) mem
      rw [tcpParseopt_state]
      generalize (pcb.tcpParseopt inseg.hdr).tcpReceive inseg mem = r at hparsed
      have hr : Receives inseg g g' pcb r := { hparsed with }
      have hsame : Processed inseg g g' pcb (r, .alive) :=
        hr.processed (hr.state ▸ hstate) (hr.state ▸ hshut) (.inl rfl)
      have htimeWait : Processed inseg g g' pcb
          ({ r with pcb := { r.pcb.tcpPcbPurge with state := .timeWait } }, .alive) :=
        hr.processed_end (.inl rfl) (hr.words.congr rfl rfl rfl) rfl rfl rfl rfl fun _ => ⟨rfl, rfl⟩
      have htimeWait' : Processed inseg g g' pcb
          ({ r with pcb := { r.pcb.tcpAckNow.tcpPcbPurge with state := .timeWait } }, .alive) :=
        hr.processed_end (.inl rfl) (hr.words.congr rfl rfl rfl) rfl rfl rfl rfl fun _ => ⟨rfl, rfl⟩
      have hfinWait2 : Connected .finWait2 ∧ Shut .finWait2 := by
        unfold Connected Shut
        decide
      have hclosing : Connected .closing ∧ Shut .closing := by
        unfold Connected Shut
        decide
      have hcloseWait : Connected .closeWait := by
        unfold Connected
        decide
      have hclosed : Processed inseg g g' pcb (r, .closed) :=
        hr.processed_end (.inr (by decide)) hr.words rfl rfl rfl rfl
          fun htimeWait => absurd (hr.state.symm.trans htimeWait) hstate.2
      refine ⟨g', ?_⟩
      cases hpcb : pcb.state with
      | established =>
          dsimp only
          split
          · exact hr.processed hcloseWait (fun hfin => absurd hpcb (hshut hfin).1) (.inr rfl)
          · exact hsame
      | closeWait =>
          dsimp only
          split
          · exact hr.processed hcloseWait (fun hfin => absurd hpcb (hshut hfin).2.1) (.inr rfl)
          · exact hsame
      | finWait1 =>
          dsimp only
          split
          · split
            · exact htimeWait'
            · exact hr.processed hclosing.1 (fun _ => hclosing.2) (.inr rfl)
          · split
            · exact hr.processed hfinWait2.1 (fun _ => hfinWait2.2) (.inl rfl)
            · exact hsame
      | finWait2 =>
          dsimp only
          split
          · exact htimeWait'
          · exact hsame
      | closing =>
          dsimp only
          split
          · exact htimeWait
          · exact hsame
      | lastAck =>
          dsimp only
          split
          · exact hclosed
          · exact hsame
      | closed => exact absurd hstate.1 (by rw [hpcb]; decide)
      | listen => exact absurd hstate.1 (by rw [hpcb]; decide)
      | synSent => exact absurd hstate.1 (by rw [hpcb]; decide)
      | synRcvd => exact absurd hstate.1 (by rw [hpcb]; decide)
      | timeWait => exact absurd hpcb hstate.2

end TcpPcb

end Meu1oARM
