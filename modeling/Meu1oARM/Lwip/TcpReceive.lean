import Meu1oARM.Lwip.TcpAck

/-! # What the receiving side accepts

Whatever pieces of the peer's stream arrive, in whatever order and however often, the
application is handed the stream from its beginning on, and the right edge of the window
that has been announced never moves back.
-/

namespace Meu1oARM

open Machine Serial

/-! ## Chains of pbufs -/

theorem flatten_trimFront (p : List (List UInt8)) (off : Nat) :
    (trimFront p off).flatten = p.flatten.drop off := by
  induction p generalizing off with
  | nil => simp [trimFront]
  | cons b bs ih =>
      unfold trimFront
      split
      next hlt => rw [List.flatten_cons, List.nil_append, ih, List.flatten_cons, List.drop_append,
          List.drop_of_length_le (Nat.le_of_lt hlt), List.nil_append]
      next hge =>
        rw [List.flatten_cons, List.flatten_cons, List.drop_append_of_le_length (Nat.not_lt.mp hge)]

theorem flatten_pbufRealloc (p : List (List UInt8)) (n : Nat) :
    (pbufRealloc p n).flatten = p.flatten.take n := by
  induction p generalizing n with
  | nil => simp [pbufRealloc]
  | cons b bs ih =>
      unfold pbufRealloc
      split
      next hgt => rw [List.flatten_cons, List.flatten_cons, ih, List.take_append,
          List.take_of_length_le (Nat.le_of_lt hgt)]
      next hle =>
        rw [List.flatten_cons, List.flatten_nil, List.append_nil, List.flatten_cons,
          List.take_append_of_le_length (Nat.not_lt.mp hle)]

/-- What a segment stands for. -/
def Inseg.symbols (inseg : Inseg) : List (Option UInt8) :=
  Meu1oARM.symbols inseg.p.flatten inseg.hdr.fin

/-- A segment whose length field agrees with its pbufs. -/
structure Inseg.Wf (inseg : Inseg) : Prop where
  len : inseg.len = inseg.p.flatten.length
  syn : inseg.hdr.syn = false

theorem Inseg.Wf.length_symbols {inseg : Inseg} (h : inseg.Wf) :
    inseg.symbols.length = inseg.tcpLen := by
  rw [Inseg.symbols, Meu1oARM.length_symbols, Inseg.tcpLen, h.syn, h.len, Bool.or_false]

namespace TcpPcb

variable {pcb pcb' : TcpPcb} {base n edge : Nat} {inseg : Inseg}

/-- The receiving side has accepted `n` symbols of the peer's stream and has announced a window up
to `edge`. -/
structure Receiving (base n edge : Nat) (pcb : TcpPcb) : Prop where
  rcvNxt : pcb.rcvNxt = seqAt base n
  right : pcb.rcvAnnRightEdge = seqAt base edge
  edge_le : edge ≤ n + pcb.rcvAnnWnd
  ann_le : pcb.rcvAnnWnd ≤ pcb.rcvWnd
  wnd_le : pcb.rcvWnd ≤ tcpWnd
  near : n ≤ edge + 1073741824

theorem Receiving.congr (h : Receiving base n edge pcb) (hnxt : pcb'.rcvNxt = pcb.rcvNxt)
    (hright : pcb'.rcvAnnRightEdge = pcb.rcvAnnRightEdge) (hann : pcb'.rcvAnnWnd = pcb.rcvAnnWnd)
    (hwnd : pcb'.rcvWnd = pcb.rcvWnd) : Receiving base n edge pcb' :=
  ⟨hnxt.trans h.rcvNxt, hright.trans h.right, hann ▸ h.edge_le, hann ▸ hwnd ▸ h.ann_le,
    hwnd ▸ h.wnd_le, h.near⟩

/-- When something has been sent, the peer knows of the whole window. -/
theorem Receiving.announce (h : Receiving base n edge pcb) (hnxt : pcb'.rcvNxt = pcb.rcvNxt)
    (hright : pcb'.rcvAnnRightEdge = u32 (pcb.rcvNxt + pcb.rcvAnnWnd))
    (hann : pcb'.rcvAnnWnd = pcb.rcvAnnWnd) (hwnd : pcb'.rcvWnd = pcb.rcvWnd) :
    Receiving base n (n + pcb.rcvAnnWnd) pcb' :=
  ⟨hnxt.trans h.rcvNxt, by rw [hright, h.rcvNxt, u32_seqAt_add], hann ▸ Nat.le_refl _,
    hann ▸ hwnd ▸ h.ann_le, hwnd ▸ h.wnd_le, by omega⟩

/-- The window that is announced reaches at least as far as before, and no further than there is
room. -/
theorem tcpUpdateRcvAnnWnd_spec (hnxt : pcb.rcvNxt = seqAt base n)
    (hright : pcb.rcvAnnRightEdge = seqAt base edge) (hedge : edge ≤ n + pcb.rcvWnd)
    (hwnd : pcb.rcvWnd ≤ tcpWnd) (hnear : n ≤ edge + 1073741824) :
    ∃ annWnd, pcb.tcpUpdateRcvAnnWnd.2 = { pcb with rcvAnnWnd := annWnd } ∧
      edge ≤ n + annWnd ∧ annWnd ≤ pcb.rcvWnd := by
  have hmax : tcpWnd = 2920 := rfl
  have hgt : Near n edge := by constructor <;> omega
  have hiff : gt pcb.rcvNxt pcb.rcvAnnRightEdge = true ↔ edge < n := by
    rw [hnxt, hright, gt_iff hgt]
  unfold tcpUpdateRcvAnnWnd
  dsimp only
  split
  next _ => exact ⟨pcb.rcvWnd, rfl, hedge, Nat.le_refl _⟩
  next _ =>
    split
    next hbehind => exact ⟨0, rfl, Nat.le_of_lt (hiff.mp hbehind), Nat.zero_le _⟩
    next hbehind =>
      rw [hiff, Nat.not_lt] at hbehind
      have hsub : sub32 pcb.rcvAnnRightEdge pcb.rcvNxt = edge - n := by
        rw [hnxt, hright]
        exact sub32_seqAt hbehind (by omega)
      rw [hsub, check_of (by rw [decide_eq_true_eq]; omega), u16_of_lt (by omega)]
      exact ⟨edge - n, rfl, by omega, by omega⟩

/-! ## The segment that is next -/

/-- A segment that is cut off at the end of the window. -/
theorem fitInseg_spec (h : inseg.Wf) (pcb : TcpPcb) :
    (pcb.fitInseg inseg).Wf ∧ (pcb.fitInseg inseg).hdr.seqno = inseg.hdr.seqno ∧
      (pcb.fitInseg inseg).tcpLen = min pcb.rcvWnd inseg.tcpLen ∧
      (pcb.fitInseg inseg).symbols = inseg.symbols.take pcb.rcvWnd := by
  have hlength := h.length_symbols
  unfold fitInseg
  split
  next hlong =>
    have hle : pcb.rcvWnd ≤ inseg.p.flatten.length := by
      rw [Inseg.tcpLen, h.syn, h.len] at hlong
      split at hlong <;> omega
    have hsyn : (if inseg.hdr.syn then pcb.rcvWnd - 1 else pcb.rcvWnd) = pcb.rcvWnd :=
      if_neg (by simp [h.syn])
    rw [hsyn]
    have hlen : ((pbufRealloc inseg.p pcb.rcvWnd).flatten).length = pcb.rcvWnd := by
      rw [flatten_pbufRealloc, List.length_take, Nat.min_eq_left hle]
    refine ⟨⟨hlen.symm, h.syn⟩, rfl, ?_, ?_⟩
    · rw [Inseg.tcpLen, h.syn, Nat.min_eq_left (Nat.le_of_lt hlong)]
      rfl
    · rw [Inseg.symbols, flatten_pbufRealloc, symbols_take _ inseg.hdr.fin hle]
      rfl
  next hshort =>
    refine ⟨h, rfl, (Nat.min_eq_right (Nat.not_lt.mp hshort)).symm, ?_⟩
    rw [List.take_of_length_le (hlength ▸ Nat.not_lt.mp hshort)]

/-- A control block without what the data of a segment change. -/
def dataView (pcb : TcpPcb) : TcpPcb := { pcb with
  rcvNxt := 0, rcvWnd := 0, rcvAnnWnd := 0, rcvAnnRightEdge := 0, ackDelay := false
  ackNow := false, wire := [] }

/-- An empty segment that repeats what has been accepted. -/
def emptyAck (pcb : TcpPcb) : Packet :=
  { seqno := pcb.sndNxt, ackno := pcb.rcvNxt, wnd := pcb.rcvAnnWnd, syn := false, fin := false
    data := [] }

/-- The symbols that a segment has led to: the data for the application, and the FIN. -/
def Received.symbols (r : Received) : List (Option UInt8) :=
  Meu1oARM.symbols (r.recvData.elim [] List.flatten) r.gotFin

/-- What `tcp_receive` has accepted of a segment: the next symbols of the peer's stream. -/
structure Accepts (base n edge : Nat) (stream : List (Option UInt8)) (pcb : TcpPcb) (r : Received) :
    Prop where
  view : r.pcb.dataView = pcb.dataView
  slice : IsSlice stream n r.symbols
  receiving : ∃ edge', edge ≤ edge' ∧ Receiving base (n + r.symbols.length) edge' r.pcb ∧
    (r.pcb.wire = pcb.wire ∨
      r.pcb.wire = pcb.wire ++ [pcb.emptyAck] ∧ n + pcb.rcvAnnWnd ≤ edge')

theorem tcpAck_dataView (pcb : TcpPcb) : pcb.tcpAck.dataView = pcb.dataView := by
  unfold tcpAck
  split <;> rfl

theorem tcpAck_wire (pcb : TcpPcb) : pcb.tcpAck.wire = pcb.wire := by
  unfold tcpAck
  split <;> rfl

theorem Receiving.tcpAck (h : Receiving base n edge pcb) : Receiving base n edge pcb.tcpAck := by
  unfold TcpPcb.tcpAck
  split <;> exact h.congr rfl rfl rfl rfl

theorem acceptData_spec {stream : List (Option UInt8)} (h : Receiving base n edge pcb)
    (hwf : inseg.Wf) (hseqno : inseg.hdr.seqno = pcb.rcvNxt)
    (hslice : IsSlice stream n inseg.symbols) (hnear : n + inseg.tcpLen ≤ edge + 1073741824) :
    Accepts base n edge stream pcb (pcb.acceptData inseg) := by
  have hmax : tcpWnd = 2920 := rfl
  have hwnd := h.wnd_le
  have hann := h.ann_le
  have hedge := h.edge_le
  obtain ⟨hwf', hseqno', hlen', hsymbols'⟩ := fitInseg_spec hwf pcb
  rw [hseqno, h.rcvNxt] at hseqno'
  have hlong : ∀ long : Bool, long = decide (pcb.rcvWnd < inseg.tcpLen) →
      (if long then
        pcb.check (u32 ((pcb.fitInseg inseg).hdr.seqno + (pcb.fitInseg inseg).tcpLen) =
          u32 (pcb.rcvNxt + pcb.rcvWnd))
      else pcb) = pcb := by
    rintro long rfl
    rw [ite_eq_right_iff]
    intro hlong
    apply check_of
    rw [decide_eq_true_eq] at hlong ⊢
    rw [hseqno', hlen', Nat.min_eq_left (Nat.le_of_lt hlong), h.rcvNxt]
  generalize htcplen : (pcb.fitInseg inseg).tcpLen = tcplen at hlen'
  have hle : tcplen ≤ pcb.rcvWnd := hlen' ▸ Nat.min_le_left _ _
  have hle' : tcplen ≤ inseg.tcpLen := hlen' ▸ Nat.min_le_right _ _
  have hsub : toU16 ((pcb.rcvWnd : Int) - (tcplen : Nat)) = pcb.rcvWnd - tcplen := by
    unfold toU16
    omega
  obtain ⟨annWnd, hupdate, hann', hle''⟩ := @tcpUpdateRcvAnnWnd_spec
    { pcb with rcvNxt := seqAt base (n + tcplen), rcvWnd := pcb.rcvWnd - tcplen } base (n + tcplen)
    edge rfl h.right (by dsimp only; omega) (by dsimp only; omega) (by omega)
  have hdata : ((if 0 < (pcb.fitInseg inseg).p.flatten.length then
      some (pcb.fitInseg inseg).p else none).elim [] List.flatten) =
        (pcb.fitInseg inseg).p.flatten := by
    split
    next _ => rfl
    next hzero => exact (List.eq_nil_of_length_eq_zero (Nat.eq_zero_of_not_pos hzero)).symm
  have hsymbols : (pcb.acceptData inseg).symbols = (pcb.fitInseg inseg).symbols := by
    unfold Received.symbols acceptData
    dsimp only
    rw [hdata]
    rfl
  have hpcb : (pcb.acceptData inseg).pcb = ({ pcb with
      rcvNxt := seqAt base (n + tcplen)
      rcvWnd := pcb.rcvWnd - tcplen
      rcvAnnWnd := annWnd } : TcpPcb).tcpAck := by
    unfold acceptData
    dsimp only
    rw [hlong _ rfl, htcplen, check_of (by simpa using hle), hsub, hseqno', u32_seqAt_add, hupdate]
  have hlength : (pcb.acceptData inseg).symbols.length = tcplen := by
    rw [hsymbols, hwf'.length_symbols, htcplen]
  refine ⟨?_, ?_, edge, Nat.le_refl _, ?_, .inl ?_⟩
  · rw [hpcb]
    exact tcpAck_dataView _
  · rw [hsymbols, hsymbols']
    exact hslice.take _
  · rw [hpcb, hlength]
    exact Receiving.tcpAck ⟨rfl, h.right, hann', hle'', by dsimp only; omega, by omega⟩
  · rw [hpcb]
    exact tcpAck_wire _

/-! ## Any segment -/

/-- A segment that is trimmed at its front. -/
theorem trimInseg_spec {y : Nat} (hwf : inseg.Wf) (hnxt : pcb.rcvNxt = seqAt base n)
    (hseqno : inseg.hdr.seqno = seqAt base y) (hle : y ≤ n) (hoff : n - y ≤ inseg.len)
    (hlen : inseg.len < 65536) :
    (pcb.trimInseg inseg).Wf ∧ (pcb.trimInseg inseg).hdr.seqno = pcb.rcvNxt ∧
      (pcb.trimInseg inseg).tcpLen ≤ inseg.tcpLen ∧
      (pcb.trimInseg inseg).symbols = inseg.symbols.drop (n - y) := by
  have hsub : sub32 pcb.rcvNxt inseg.hdr.seqno = n - y := by
    rw [hnxt, hseqno]
    exact sub32_seqAt hle (by omega)
  have hlength := hwf.len
  unfold trimInseg
  dsimp only
  rw [hsub, u16_of_lt (by omega)]
  refine ⟨⟨?_, hwf.syn⟩, rfl, ?_, ?_⟩
  · rw [flatten_trimFront, List.length_drop, ← hlength]
  · exact Nat.add_le_add_right (Nat.sub_le _ _) _
  · rw [Inseg.symbols, flatten_trimFront, symbols_drop _ _ (hlength ▸ hoff)]
    rfl

/-- A segment that is not accepted is answered. -/
theorem accepts_emptyAck {stream : List (Option UInt8)} (h : Receiving base n edge pcb')
    (hview : pcb'.dataView = pcb.dataView) (hwire : pcb'.wire = pcb.wire)
    (hack : pcb'.emptyAck = pcb.emptyAck) (mem : Bool) :
    Accepts base n edge stream pcb
      { pcb := pcb'.tcpSendEmptyAck mem, recvData := none, gotFin := false } := by
  unfold tcpSendEmptyAck
  split
  next _ =>
    refine ⟨hview, IsSlice.nil _ _, n + pcb'.rcvAnnWnd, h.edge_le, ?_, .inr ⟨?_, ?_⟩⟩
    · exact h.announce rfl rfl rfl rfl
    · dsimp only
      rw [hwire, ← hack]
      rfl
    · exact Nat.le_of_eq (congrArg (n + ·.wnd) hack.symm)
  next _ => exact ⟨hview, IsSlice.nil _ _, edge, Nat.le_refl _, h, .inl hwire⟩

theorem accepts_nothing {stream : List (Option UInt8)} (h : Receiving base n edge pcb')
    (hview : pcb'.dataView = pcb.dataView) (hwire : pcb'.wire = pcb.wire) :
    Accepts base n edge stream pcb { pcb := pcb', recvData := none, gotFin := false } :=
  ⟨hview, IsSlice.nil _ _, edge, Nat.le_refl _, h, .inl hwire⟩

/-- A segment that carries the piece of the peer's stream at `y`, which is not far from what has
been accepted and from what has been announced. -/
structure Carries (base n edge : Nat) (stream : List (Option UInt8)) (inseg : Inseg) (y : Nat) :
    Prop where
  wf : inseg.Wf
  seqno : inseg.hdr.seqno = seqAt base y
  slice : IsSlice stream y inseg.symbols
  len : inseg.tcpLen ≤ 32767
  behind : n ≤ y + 1073741824
  ahead : y + inseg.tcpLen ≤ edge + 1073741824

/-- A segment that is accepted where it starts at the next symbol. -/
theorem receiveNext_spec {stream : List (Option UInt8)} (h : Receiving base n edge pcb)
    (hwf : inseg.Wf) (hslice : inseg.hdr.seqno = pcb.rcvNxt → IsSlice stream n inseg.symbols)
    (hnear : inseg.hdr.seqno = pcb.rcvNxt → n + inseg.tcpLen ≤ edge + 1073741824) (rightEdge : Nat)
    (mem : Bool) : Accepts base n edge stream pcb (pcb.receiveNext inseg rightEdge mem) := by
  unfold receiveNext
  split
  next _ =>
    split
    next heq => exact acceptData_spec h hwf heq.symm (hslice heq.symm) (hnear heq.symm)
    next _ => exact accepts_emptyAck h rfl rfl rfl mem
  next _ => exact accepts_emptyAck h rfl rfl rfl mem

theorem receiveData_spec {stream : List (Option UInt8)} {y : Nat} (h : Receiving base n edge pcb)
    (hin : Carries base n edge stream inseg y) (mem : Bool) :
    Accepts base n edge stream pcb (pcb.receiveData inseg mem) := by
  have hmax : tcpWnd = 2920 := rfl
  have hwnd := h.wnd_le
  have hann := h.ann_le
  have hedge := h.edge_le
  have hbehind := hin.behind
  have hahead := hin.ahead
  have hlen := hin.len
  have hle : inseg.len ≤ inseg.tcpLen := Nat.le_add_right _ _
  have hle' : inseg.tcpLen ≤ inseg.len + 1 := by
    unfold Inseg.tcpLen
    split <;> omega
  unfold receiveData
  dsimp only
  split
  next hdata =>
    obtain ⟨hpos, -⟩ := hdata
    have hnear : Near n (y + 1) := by constructor <;> omega
    have hnear' : Near n (y + inseg.tcpLen - 1) := by constructor <;> omega
    have hiff : between pcb.rcvNxt (u32 (inseg.hdr.seqno + 1))
        (u32 (inseg.hdr.seqno + inseg.tcpLen + 4294967295)) = true ↔
          y + 1 ≤ n ∧ n ≤ y + inseg.tcpLen - 1 := by
      rw [h.rcvNxt, hin.seqno, u32_seqAt_add, u32_seqAt_pred _ _ hpos, between_iff hnear hnear']
    split
    next hoverlap =>
      rw [hiff] at hoverlap
      obtain ⟨hlow, hhigh⟩ := hoverlap
      obtain ⟨hwf', hseqno', hlen', hsymbols'⟩ :=
        trimInseg_spec hin.wf h.rcvNxt hin.seqno (by omega) (by omega) (by omega)
      have hoff : sub32 pcb.rcvNxt inseg.hdr.seqno = n - y := by
        rw [h.rcvNxt, hin.seqno]
        exact sub32_seqAt (by omega) (by omega)
      have hfit : n - y ≤ inseg.p.flatten.length := by
        rw [← hin.wf.len]
        omega
      rw [hoff, check_of (decide_eq_true hfit), check_of (decide_eq_true (by omega))]
      have hlength : (pcb.trimInseg inseg).tcpLen = inseg.tcpLen - (n - y) := by
        rw [← hwf'.length_symbols, hsymbols', List.length_drop, hin.wf.length_symbols]
      refine receiveNext_spec h hwf' (fun _ => ?_) (fun _ => by omega) _ mem
      have hslice := hin.slice.drop (n - y)
      rwa [← hsymbols', Nat.add_sub_cancel' (by omega)] at hslice
    next _ =>
      have hsame : inseg.hdr.seqno = pcb.rcvNxt → y = n := by
        rw [hin.seqno, h.rcvNxt, seqAt_inj (by constructor <;> omega)]
        exact id
      split
      next hold =>
        have haccepts := receiveNext_spec (h.congr rfl rfl rfl rfl : Receiving base n edge
          pcb.tcpAckNow) hin.wf (fun heq => hsame heq ▸ hin.slice)
          (fun heq => hsame heq ▸ hahead) (u32 (pcb.rcvNxt + pcb.rcvWnd + 4294967295)) mem
        exact ⟨haccepts.view, haccepts.slice, haccepts.receiving⟩
      next _ =>
        exact receiveNext_spec h hin.wf (fun heq => hsame heq ▸ hin.slice)
          (fun heq => hsame heq ▸ hahead) _ mem
  next _ =>
    split
    next _ => exact accepts_nothing h rfl rfl
    next _ => exact accepts_nothing (h.congr rfl rfl rfl rfl) rfl rfl

end TcpPcb

end Meu1oARM
