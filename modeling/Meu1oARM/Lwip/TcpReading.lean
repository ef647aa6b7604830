import Meu1oARM.Lwip.TcpHearing

/-! # What the application is told of

The application is given the peer's stream from its beginning on, whatever it asks for
meanwhile, and the window that is announced never moves back.
-/

namespace Meu1oARM

open Machine Serial TcpPcb

/-- A piece of a stream: its bytes are a piece of the bytes, and its FIN stands at the end. -/
theorem isSlice_symbols {written data : List UInt8} {wfin fin : Bool} {n : Nat}
    (hn : n ≤ written.length) (h : IsSlice (symbols written wfin) n (symbols data fin)) :
    IsSlice written n data ∧ (fin = true → wfin = true ∧ n + data.length = written.length) := by
  have hbytes : ∀ (w : List UInt8) (f : Bool), (symbols w f).filterMap id = w := by
    intro w f
    unfold symbols
    rw [List.filterMap_append, List.filterMap_map]
    cases f <;> simp
  constructor
  · have hpiece := List.IsPrefix.filterMap id h
    rw [hbytes] at hpiece
    have hdrop : ((symbols written wfin).drop n).filterMap id = written.drop n := by
      rw [← symbols_drop _ _ hn, hbytes]
    rwa [hdrop] at hpiece
  · intro hfin
    have hat : (symbols data fin)[data.length]? = some none :=
      (symbols_getElem? _ _ _).mpr ⟨hfin, rfl⟩
    obtain ⟨t, ht⟩ := h
    have hat' : ((symbols written wfin).drop n)[data.length]? = some none := by
      rw [← ht, List.getElem?_append_left, hat]
      rw [symbols, hfin]
      simp
    rwa [List.getElem?_drop, symbols_getElem?] at hat'

namespace Endpoint

variable {e e' e'' : Endpoint} {pbase n edge : Nat} {data data' : List UInt8} {fin fin' : Bool}
  {pw : List UInt8} {pf : Bool}

/-! ## What the application reads -/

/-- How much of the peer's stream the application has been told of. -/
def count (e : Endpoint) : Nat := (symbols e.read e.eof).length

/-- The application has been given the peer's bytes from the first one on, and has been told of the
end at the end. -/
structure Reading (pw : List UInt8) (pf : Bool) (e : Endpoint) : Prop where
  read : e.read <+: pw
  eof : e.eof = true → e.read = pw ∧ pf = true

theorem count_eq (e : Endpoint) : e.count = e.read.length + if e.eof then 1 else 0 :=
  length_symbols _ _

/-- The next symbols of the peer's stream. -/
theorem Reading.next (h : Reading pw pf e) {data : List UInt8} {fin : Bool}
    (hslice : IsSlice (symbols pw pf) e.count (symbols data fin)) :
    e.read ++ data <+: pw ∧ (fin = true → e.read ++ data = pw ∧ pf = true) ∧
      (e.eof = true → data = [] ∧ fin = false) := by
  cases heof : e.eof with
  | true =>
      obtain ⟨hread, hpf⟩ := h.eof heof
      have hcount : (symbols pw pf).length ≤ e.count :=
        Nat.le_of_eq (by rw [count, heof, hread, hpf])
      have hnil : symbols data fin = [] := by
        have hle := hslice.length_le
        rw [List.length_drop, Nat.sub_eq_zero_of_le hcount] at hle
        exact List.eq_nil_of_length_eq_zero (Nat.le_zero.mp hle)
      unfold symbols at hnil
      obtain ⟨hdata, hfin⟩ := List.append_eq_nil_iff.mp hnil
      rw [List.map_eq_nil_iff] at hdata
      have hfin' : fin = false := by
        cases fin with
        | false => rfl
        | true => cases hfin
      subst hdata hfin'
      exact ⟨by simpa using h.read, nofun, fun _ => ⟨rfl, rfl⟩⟩
  | false =>
      have hcount : e.count = e.read.length := by
        rw [count_eq, heof]
        rfl
      rw [hcount] at hslice
      obtain ⟨hbytes, hend⟩ := isSlice_symbols h.read.length_le hslice
      have htake := hbytes.take_append
      rw [← List.prefix_iff_eq_take.mp h.read] at htake
      refine ⟨?_, fun hfin => ?_, nofun⟩
      · rw [htake]
        exact List.take_prefix _ _
      · obtain ⟨hpf, hlength⟩ := hend hfin
        rw [htake, hlength, List.take_length]
        exact ⟨rfl, hpf⟩

theorem Reading.count_le (h : Reading pw pf e) : e.count ≤ (symbols pw pf).length := by
  rw [count_eq, length_symbols]
  cases heof : e.eof with
  | false =>
      have hread := h.read.length_le
      simp only [Bool.false_eq_true, if_false]
      omega
  | true =>
      obtain ⟨hread, hpf⟩ := h.eof heof
      exact Nat.le_of_eq (by rw [hread, hpf])

/-! ## What the application is given -/

/-- The application is given `data`, and told of the end of the stream if `fin`, unless the
connection is given up before. -/
structure Given (data : List UInt8) (fin : Bool) (e e' : Endpoint) : Prop where
  read : ∃ part, part <+: data ∧ e'.read = e.read ++ part
  eof : e'.eof = true → e.eof = true ∨ fin = true ∧ e'.read = e.read ++ data
  all : e'.active = true → e'.read = e.read ++ data ∧ e'.eof = (e.eof || fin)

namespace Given

theorem of_eq (hread : e'.read = e.read ++ data) (heof : e'.eof = (e.eof || fin)) :
    Given data fin e e' := by
  refine ⟨⟨data, List.prefix_rfl, hread⟩, fun htrue => ?_, fun _ => ⟨hread, heof⟩⟩
  rw [heof, Bool.or_eq_true] at htrue
  exact htrue.imp_right fun hfin => ⟨hfin, hread⟩

theorem nothing (hread : e'.read = e.read) (heof : e'.eof = e.eof) : Given [] false e e' :=
  of_eq (hread.trans (List.append_nil _).symm) (heof.trans (Bool.or_false _).symm)

/-- The connection is given up. -/
theorem of_inactive (hactive : e'.active = false) (hread : e'.read = e.read)
    (heof : e'.eof = e.eof) : Given data fin e e' :=
  ⟨⟨[], List.nil_prefix, hread.trans (List.append_nil _).symm⟩, fun htrue => .inl (heof ▸ htrue),
    fun htrue => absurd htrue (by simp [hactive])⟩

/-- Nothing is told behind the end of the stream. -/
theorem trans (h : Given data fin e e') (hnext : e'.active = true → Given data' fin' e' e'')
    (hdead : e'.active = false → e'' = e') (hend : fin = true → data' = []) :
    Given (data ++ data') (fin || fin') e e'' := by
  obtain ⟨part, hpart, hread⟩ := h.read
  cases hactive : e'.active with
  | false =>
      rw [hdead hactive]
      refine ⟨⟨part, hpart.trans (List.prefix_append _ _), hread⟩, fun htrue => ?_,
        fun htrue => absurd htrue (by simp [hactive])⟩
      refine (h.eof htrue).imp_right fun hfin => ⟨by simp [hfin.1], ?_⟩
      rw [hend hfin.1, List.append_nil]
      exact hfin.2
  | true =>
      obtain ⟨hread, heof⟩ := h.all hactive
      have h' := hnext hactive
      obtain ⟨part', hpart', hread'⟩ := h'.read
      refine ⟨⟨data ++ part', ?_, ?_⟩, fun htrue => ?_, fun htrue => ?_⟩
      · exact (List.prefix_append_right_inj data).mpr hpart'
      · rw [hread', hread, List.append_assoc]
      · cases h'.eof htrue with
        | inl hbefore =>
            refine (h.eof hbefore).imp_right fun hfin => ⟨by simp [hfin.1], ?_⟩
            rw [hend hfin.1, List.prefix_nil] at hpart'
            rw [hread', hpart', hfin.2, hend hfin.1, List.append_nil, List.append_nil]
        | inr hfin =>
            refine .inr ⟨by simp [hfin.1], ?_⟩
            rw [hfin.2, hread, List.append_assoc]
      · obtain ⟨hread', heof'⟩ := h'.all htrue
        rw [hread', hread, heof', heof, List.append_assoc, Bool.or_assoc]
        exact ⟨rfl, rfl⟩

/-- What the application is given is the next part of what it reads. -/
theorem reading (h : Given data fin e e') (hr : Reading pw pf e)
    (hslice : IsSlice (symbols pw pf) e.count (symbols data fin)) : Reading pw pf e' := by
  obtain ⟨hpiece, hfin, heof⟩ := hr.next hslice
  obtain ⟨part, hpart, hread⟩ := h.read
  refine ⟨?_, fun htrue => ?_⟩
  · rw [hread]
    exact ((List.prefix_append_right_inj e.read).mpr hpart).trans hpiece
  · cases h.eof htrue with
    | inl hbefore =>
        obtain ⟨hall, hpf⟩ := hr.eof hbefore
        rw [(heof hbefore).1, List.prefix_nil] at hpart
        rw [hread, hpart, List.append_nil]
        exact ⟨hall, hpf⟩
    | inr hnow =>
        rw [hnow.2]
        exact hfin hnow.1

theorem count_le (h : Given data fin e e') : e'.count ≤ e.count + (symbols data fin).length := by
  obtain ⟨part, hpart, hread⟩ := h.read
  have heof := h.eof
  have hle := hpart.length_le
  rw [count_eq, count_eq, length_symbols, hread, List.length_append]
  cases hnow : e'.eof with
  | false =>
      simp only [Bool.false_eq_true, if_false]
      omega
  | true =>
      rcases heof hnow with hbefore | ⟨hfin, -⟩
      · simp only [hbefore, if_true]
        omega
      · simp only [hfin, if_true]
        omega

theorem count_eq (h : Given data fin e e') (hr : Reading pw pf e)
    (hslice : IsSlice (symbols pw pf) e.count (symbols data fin)) (hactive : e'.active = true) :
    e'.count = e.count + (symbols data fin).length := by
  obtain ⟨-, -, heof⟩ := hr.next hslice
  obtain ⟨hread', heof'⟩ := h.all hactive
  rw [Endpoint.count_eq, Endpoint.count_eq, hread', heof', length_symbols, List.length_append]
  cases hbefore : e.eof with
  | true =>
      obtain ⟨rfl, rfl⟩ := heof hbefore
      simp
  | false => simp [Nat.add_assoc]

end Given

/-! ## What is announced -/

/-- How far the peer has been allowed to send. -/
def announced (e : Endpoint) : Nat :=
  if geq e.pcb.rcvAnnRightEdge e.pcb.rcvNxt then
    e.count + sub32 e.pcb.rcvAnnRightEdge e.pcb.rcvNxt
  else e.count - sub32 e.pcb.rcvNxt e.pcb.rcvAnnRightEdge

theorem announced_eq (h : Receiving pbase n edge e.pcb) : e.announced = e.count + edge - n := by
  have hmax : tcpWnd = 2920 := rfl
  have hedge := h.edge_le
  have hann := h.ann_le
  have hwnd := h.wnd_le
  have hnear := h.near
  unfold announced
  rw [h.right, h.rcvNxt]
  split
  next hge =>
    rw [geq_iff (by constructor <;> omega)] at hge
    rw [sub32_seqAt hge (by omega)]
    omega
  next hlt =>
    rw [geq_iff (by constructor <;> omega), Nat.not_le] at hlt
    rw [sub32_seqAt (Nat.le_of_lt hlt) (by omega)]
    omega

/-! ## What the application asks for -/

/-- The application takes no more than a segment of 65535 bytes allows. -/
def CallOk : AppCall → Prop
  | .recved len _ => len ≤ 65535 - tcpWnd
  | _ => True

/-- The application is given `data`, and told of the end if `fin`; nothing is accepted meanwhile. -/
structure Tells (pbase n edge : Nat) (data : List UInt8) (fin : Bool) (e e' : Endpoint) : Prop where
  given : Given data fin e e'
  hears : ∃ edge', Hears pbase n edge n edge' e.pcb e'.pcb

theorem Tells.trans (h : Tells pbase n edge data fin e e')
    (hnext : ∀ edge', e'.active = true → Receiving pbase n edge' e'.pcb →
      Tells pbase n edge' data' fin' e' e'')
    (hdead : e'.active = false → e'' = e') (hend : fin = true → data' = []) :
    Tells pbase n edge (data ++ data') (fin || fin') e e'' := by
  obtain ⟨edge', hhears⟩ := h.hears
  refine ⟨h.given.trans (fun hactive => ?_) hdead hend, ?_⟩
  · exact (hnext edge' hactive hhears.receiving).given
  · cases hactive : e'.active with
    | false =>
        rw [hdead hactive]
        exact ⟨edge', hhears⟩
    | true =>
        obtain ⟨edge'', hhears'⟩ := (hnext edge' hactive hhears.receiving).hears
        exact ⟨edge'', hhears.trans hhears'⟩

/-- Nothing is told. -/
theorem Tells.nothing (hread : e'.read = e.read) (heof : e'.eof = e.eof)
    (hhears : ∃ edge', Hears pbase n edge n edge' e.pcb e'.pcb) : Tells pbase n edge [] false e e' :=
  ⟨.nothing hread heof, hhears⟩

theorem tells_refl (h : Receiving pbase n edge e.pcb) : Tells pbase n edge [] false e e :=
  .nothing rfl rfl ⟨edge, .of_wire h rfl⟩

/-- The connection is given up before the application is told of anything. -/
theorem tells_inactive (h : Receiving pbase n edge e.pcb) (hactive : e'.active = false)
    (hread : e'.read = e.read) (heof : e'.eof = e.eof) (hpcb : e'.pcb = e.pcb) :
    Tells pbase n edge data fin e e' := by
  refine ⟨.of_inactive hactive hread heof, edge, ?_⟩
  rw [hpcb]
  exact .of_wire h rfl

/-- The application was told of something, and nothing is told after that. -/
theorem Tells.after {d : Endpoint} (h : Tells pbase n edge [] false d e')
    (hread : d.read = e.read ++ data) (heof : d.eof = (e.eof || fin))
    (hdead : d.active = false → e' = d) (hwire : d.pcb.wire = e.pcb.wire) :
    Tells pbase n edge data fin e e' := by
  obtain ⟨edge', hhears⟩ := h.hears
  have hgiven := (Given.of_eq hread heof).trans (fun _ => h.given) hdead fun _ => rfl
  rw [List.append_nil, Bool.or_false] at hgiven
  exact ⟨hgiven, edge', hhears.behind hwire⟩

theorem tcpClose_tells (h : Receiving pbase n edge e.pcb) (mem : Nat → Bool) :
    Tells pbase n edge [] false e (e.tcpClose mem) := by
  unfold tcpClose
  dsimp only
  split
  next _ => exact tells_inactive h rfl rfl rfl rfl
  next _ => exact .nothing rfl rfl (h.announces (tcpCloseShutdown_announces _ mem))

theorem call_tells (h : Receiving pbase n edge e.pcb) {c : AppCall} (hc : CallOk c) :
    Tells pbase n edge [] false e (e.call c) := by
  unfold call
  split
  next _ =>
    cases c with
    | write data copy more mem =>
        have hwrite := tcpWrite_hearing e.pcb data copy more mem
        dsimp only
        generalize e.pcb.tcpWrite data copy more mem = result at hwrite
        split
        next _ => exact .nothing rfl rfl (h.announces (.of_hearing hwrite))
        next _ => exact .nothing rfl rfl (h.announces (.of_hearing hwrite))
    | output mem => exact .nothing rfl rfl (h.announces (tcpOutput_announces _ mem))
    | recved len mem => exact .nothing rfl rfl (tcpRecved_hears h hc mem)
    | close mem => exact tcpClose_tells h mem
    | abort => exact tells_inactive h rfl rfl rfl rfl
  next _ => exact tells_refl h

/-- On a connection that is gone, a call does nothing. -/
theorem run_call_inactive (hactive : e.active = false) (cs : List AppCall) :
    Run.run Endpoint.call e cs = e := by
  induction cs with
  | nil => rfl
  | cons c cs ih =>
      have hc : e.call c = e := by
        unfold Endpoint.call
        rw [if_neg (by simp [hactive])]
      rw [Run.run_cons, hc, ih]

theorem calls_tells (h : Receiving pbase n edge e.pcb) {cs : List AppCall}
    (hcs : ∀ c ∈ cs, CallOk c) : Tells pbase n edge [] false e (Run.run Endpoint.call e cs) := by
  induction cs generalizing e edge with
  | nil => exact tells_refl h
  | cons c cs ih =>
      obtain ⟨hc, hcs⟩ := List.forall_mem_cons.mp hcs
      refine (call_tells h hc).trans (fun edge' _ hrecv => ih hrecv hcs) (fun hdead => ?_) nofun
      exact run_call_inactive hdead cs

/-! ## What `tcp_input` does behind `tcp_process` -/

theorem notifySent_tells (h : Receiving pbase n edge e.pcb) {calls : List AppCall}
    (hcalls : ∀ c ∈ calls, CallOk c) : Tells pbase n edge [] false e (e.notifySent calls) := by
  unfold notifySent
  split
  · exact calls_tells h hcalls
  · exact tells_refl h

theorem notifyReceived_inactive (hactive : e.active = false)
    (recvData : Option (List (List UInt8))) (calls : List AppCall) :
    e.notifyReceived recvData calls = e := by
  unfold notifyReceived
  cases recvData with
  | none => rfl
  | some p => exact if_pos hactive

theorem notifyReceived_tells (h : Receiving pbase n edge e.pcb) (hactive : e.active = true)
    (recvData : Option (List (List UInt8))) {calls : List AppCall}
    (hcalls : ∀ c ∈ calls, CallOk c) :
    Tells pbase n edge (recvData.elim [] List.flatten) false e
      (e.notifyReceived recvData calls) := by
  unfold notifyReceived
  cases recvData with
  | none => exact tells_refl h
  | some p =>
      dsimp only [Option.elim]
      rw [if_neg (by simp [hactive])]
      split
      next _ => exact tells_inactive h rfl rfl rfl rfl
      next _ =>
        have hread : Receiving pbase n edge ({ e with read := e.read ++ p.flatten } : Endpoint).pcb :=
          h
        exact (calls_tells hread hcalls).after rfl (Bool.or_false _).symm
          (fun hdead => run_call_inactive hdead calls) rfl

theorem notifyClosed_inactive (hactive : e.active = false) (gotFin : Bool) (calls : List AppCall) :
    e.notifyClosed gotFin calls = e :=
  if_neg fun h => absurd h.2 (by simp [hactive])

theorem notifyClosed_tells (h : Receiving pbase n edge e.pcb) (hactive : e.active = true)
    (gotFin : Bool) {calls : List AppCall} (hcalls : ∀ c ∈ calls, CallOk c) :
    Tells pbase n edge [] gotFin e (e.notifyClosed gotFin calls) := by
  unfold notifyClosed
  cases gotFin with
  | false =>
      rw [if_neg (by simp)]
      exact tells_refl h
  | true =>
      rw [if_pos ⟨rfl, hactive⟩]
      have heof := h.addFin
      generalize (if e.pcb.rcvWnd ≠ tcpWnd then u16 (e.pcb.rcvWnd + 1) else e.pcb.rcvWnd) = rcvWnd
        at heof
      have heof : Receiving pbase n edge
          ({ e with pcb := { e.pcb with rcvWnd }, eof := true } : Endpoint).pcb := heof
      exact (calls_tells heof hcalls).after (List.append_nil _).symm (Bool.or_true _).symm
        (fun hdead => run_call_inactive hdead calls) rfl

theorem finishInput_inactive (hactive : e.active = false) (mem : Bool) : e.finishInput mem = e :=
  if_neg (by simp [hactive])

theorem finishInput_tells (h : Receiving pbase n edge e.pcb) (mem : Bool) :
    Tells pbase n edge [] false e (e.finishInput mem) := by
  have hinput : Receiving pbase n edge { e.pcb with inInput := false } := h.congr rfl rfl rfl rfl
  unfold finishInput
  split
  · obtain ⟨edge', hhears⟩ := hinput.announces (tcpOutput_announces _ mem)
    refine .nothing rfl rfl ⟨edge', ?_⟩
    exact hhears.behind rfl
  · exact tells_refl h

/-- The application is told of everything that a segment has brought. -/
theorem processed_tells {r : Received} (h : Receiving pbase n edge r.pcb) (ending : Ending)
    {sent received closed : List AppCall} (hsent : ∀ c ∈ sent, CallOk c)
    (hreceived : ∀ c ∈ received, CallOk c) (hclosed : ∀ c ∈ closed, CallOk c) (mem : Bool) :
    Tells pbase n edge (r.recvData.elim [] List.flatten) r.gotFin { e with pcb := r.pcb }
      (e.processed r ending sent received closed mem) := by
  have hpcb : Receiving pbase n edge ({ e with pcb := r.pcb } : Endpoint).pcb := h
  unfold processed
  split
  next _ => exact tells_inactive hpcb rfl rfl rfl rfl
  next _ =>
    split
    next _ =>
      split
      next _ => exact tells_inactive hpcb rfl rfl rfl rfl
      next _ =>
        have hinput : Receiving pbase n edge { r.pcb with inInput := false } :=
          h.congr rfl rfl rfl rfl
        obtain ⟨edge', hhears⟩ := hinput.announces (tcpOutput_announces _ mem)
        refine ⟨.of_eq rfl rfl, edge', ?_⟩
        exact hhears.behind rfl
    next _ =>
      have hall : Tells pbase n edge ([] ++ (r.recvData.elim [] List.flatten ++ ([] ++ [])))
          (false || (false || (r.gotFin || false))) { e with pcb := r.pcb }
          (((({ e with pcb := r.pcb } : Endpoint).notifySent sent).notifyReceived r.recvData
            received).notifyClosed r.gotFin closed |>.finishInput mem) := by
        refine (notifySent_tells hpcb hsent).trans (fun edge₁ hactive₁ h₁ => ?_) ?_ nofun
        · refine (notifyReceived_tells h₁ hactive₁ r.recvData hreceived).trans
            (fun edge₂ hactive₂ h₂ => ?_) ?_ nofun
          · refine (notifyClosed_tells h₂ hactive₂ r.gotFin hclosed).trans
              (fun edge₃ _ h₃ => finishInput_tells h₃ mem) ?_ fun _ => rfl
            exact fun hdead => finishInput_inactive hdead mem
          · intro hdead
            rw [notifyClosed_inactive hdead, finishInput_inactive hdead]
        · intro hdead
          rw [notifyReceived_inactive hdead, notifyClosed_inactive hdead, finishInput_inactive hdead]
      rwa [List.nil_append, List.append_nil, List.append_nil, Bool.false_or, Bool.false_or,
        Bool.or_false] at hall

/-! ## Any event -/

/-- What an application and a peer may do that sends pieces of its stream `peer`, whatever it
acknowledges. -/
def Heeded (pbase : Nat) (peer : List (Option UInt8)) (e : Endpoint) : TcpEvent → Prop
  | .call c => CallOk c
  | .input inseg _ sent received closed _ =>
    (inseg.hdr.rst = false → inseg.hdr.syn = false →
      ∃ y, Carries pbase e.count e.announced peer inseg y) ∧ (∀ c ∈ sent, CallOk c) ∧
      (∀ c ∈ received, CallOk c) ∧ ∀ c ∈ closed, CallOk c
  | _ => True

/-- An end that has accepted `n` symbols of the peer's stream, and has told the application of all
of them while the connection is there. -/
structure Listening (pw : List UInt8) (pf : Bool) (n : Nat) (e : Endpoint) : Prop where
  reading : Reading pw pf e
  count_le : e.count ≤ n
  le_length : n ≤ (symbols pw pf).length
  count : e.active = true → e.count = n

/-- Where the window ends that has been announced. -/
theorem Listening.announced_eq (hl : Listening pw pf n e) (h : Receiving pbase n edge e.pcb)
    (hactive : e.active = true) : e.announced = edge := by
  rw [Endpoint.announced_eq h, hl.count hactive, Nat.add_sub_cancel_left]

/-- Nothing has come. -/
theorem Tells.listening (h : Tells pbase e.count edge [] false e e') (hl : Listening pw pf n e)
    (hactive : e.active = true) : ∃ edge', Hears pbase n edge n edge' e.pcb e'.pcb ∧
      Listening pw pf n e' := by
  obtain ⟨edge', hhears⟩ := h.hears
  have hnil : IsSlice (symbols pw pf) e.count (symbols [] false) := IsSlice.nil _ _
  have hle := h.given.count_le
  rw [hl.count hactive] at hhears
  refine ⟨edge', hhears, h.given.reading hl.reading hnil, Nat.le_trans hle hl.count_le, hl.le_length,
    fun hactive' => ?_⟩
  rw [h.given.count_eq hl.reading hnil hactive', ← hl.count hactive]
  rfl

theorem step_inactive (hactive : e.active = false) (ev : TcpEvent) : e.step ev = e :=
  if_neg (by simp [hactive])

/-- A segment arrives: the next symbols are accepted, and the application is told of them. -/
theorem input_listening (h : Receiving pbase e.count edge e.pcb) (hl : Listening pw pf e.count e)
    {inseg : Inseg}
    (hin : inseg.hdr.rst = false → inseg.hdr.syn = false →
      ∃ y, Carries pbase e.count edge (symbols pw pf) inseg y)
    {sent received closed : List AppCall} (hsent : ∀ c ∈ sent, CallOk c)
    (hreceived : ∀ c ∈ received, CallOk c) (hclosed : ∀ c ∈ closed, CallOk c) (mem memOut : Bool) :
    ∃ n' edge', Hears pbase e.count edge n' edge' e.pcb
        (e.input inseg mem sent received closed memOut).pcb ∧
      Listening pw pf n' (e.input inseg mem sent received closed memOut) := by
  have hinput : Receiving pbase e.count edge { e.pcb with inInput := true } :=
    h.congr rfl rfl rfl rfl
  obtain ⟨hslice, edge', hhears⟩ := tcpProcess_heard hinput hin mem
  unfold input
  dsimp only
  generalize ({ e.pcb with inInput := true } : TcpPcb).tcpProcess inseg mem = result at hslice hhears
  obtain ⟨hgiven, edge'', hhears'⟩ := processed_tells (e := e) hhears.receiving result.2 hsent hreceived
    hclosed memOut
  have hle := hgiven.count_le
  have hreading : Reading pw pf { e with pcb := result.1.pcb } := ⟨hl.reading.read, hl.reading.eof⟩
  have hhears : Hears pbase e.count edge (e.count + result.1.symbols.length) edge' e.pcb
      result.1.pcb := hhears.behind rfl
  refine ⟨e.count + result.1.symbols.length, edge'', hhears.trans hhears',
    hgiven.reading hreading hslice, hle, ?_, fun hactive' => ?_⟩
  · cases hnil : result.1.symbols with
    | nil => exact hl.le_length
    | cons x xs =>
        have hend := hslice.le_length (by simp [hnil])
        rwa [hnil] at hend
  · exact hgiven.count_eq hreading hslice hactive'

theorem Listening.step {ev : TcpEvent} (hl : Listening pw pf n e) (h : Receiving pbase n edge e.pcb)
    (hev : Heeded pbase (symbols pw pf) e ev) :
    ∃ n' edge', Hears pbase n edge n' edge' e.pcb (e.step ev).pcb ∧ Listening pw pf n' (e.step ev) := by
  cases hactive : e.active with
  | false =>
      rw [step_inactive hactive]
      exact ⟨n, edge, .of_wire h rfl, hl⟩
  | true =>
      have hannounced := hl.announced_eq h hactive
      obtain rfl := hl.count hactive
      unfold Endpoint.step
      rw [if_pos hactive]
      cases ev with
      | call c => exact ⟨_, (call_tells h hev).listening hl hactive⟩
      | fastTimer mem =>
          refine ⟨_, Tells.listening ?_ hl hactive⟩
          dsimp only
          unfold fastTimer
          split
          · have hnow : Announces e.pcb e.pcb.tcpAckNow := .of_hearing rfl
            have hsent := hnow.trans (tcpOutput_announces _ mem)
            exact .nothing rfl rfl (h.announces (hsent.trans (.of_hearing rfl)))
          · exact tells_refl h
      | rexmitTimer mem =>
          refine ⟨_, Tells.listening ?_ hl hactive⟩
          dsimp only
          unfold rexmitTimer
          split
          · exact tells_inactive h rfl rfl rfl rfl
          · exact .nothing rfl rfl (h.announces (rexmitTimeout_announces _ mem))
      | persistTimer mem =>
          refine ⟨_, Tells.listening ?_ hl hactive⟩
          exact .nothing rfl rfl (h.announces (tcpZeroWindowProbe_announces _ mem))
      | input inseg mem sent received closed memOut =>
          obtain ⟨hin, hsent, hreceived, hclosed⟩ := hev
          rw [hannounced] at hin
          exact input_listening h hl hin hsent hreceived hclosed mem memOut

/-! ## `TF_IN_INPUT` -/

theorem call_inInput (h : e.pcb.inInput = false) (c : AppCall) : (e.call c).pcb.inInput = false := by
  unfold call
  split
  next _ =>
    cases c with
    | write data copy more mem =>
        have hwrite := (Announces.of_hearing (tcpWrite_hearing e.pcb data copy more mem)).inInput
        dsimp only
        generalize e.pcb.tcpWrite data copy more mem = result at hwrite
        split
        next _ => exact hwrite.trans h
        next _ => exact hwrite.trans h
    | output mem => exact (tcpOutput_announces _ mem).inInput.trans h
    | recved len mem => exact (tcpRecved_inInput _ len mem).trans h
    | close mem =>
        dsimp only
        unfold tcpClose
        dsimp only
        split
        next _ => exact h
        next _ => exact (tcpCloseShutdown_announces _ mem).inInput.trans h
    | abort => exact h
  next _ => exact h

/-- Between two segments `tcp_input` is not running. -/
theorem step_inInput (h : e.pcb.inInput = false) {ev : TcpEvent}
    (hactive : (e.step ev).active = true) : (e.step ev).pcb.inInput = false := by
  unfold Endpoint.step at hactive ⊢
  split at hactive
  next hpresent =>
    rw [if_pos hpresent]
    cases ev with
    | call c => exact call_inInput h c
    | fastTimer mem =>
        dsimp only
        unfold fastTimer
        split
        · exact (tcpOutput_announces e.pcb.tcpAckNow mem).inInput.trans h
        · exact h
    | rexmitTimer mem =>
        dsimp only
        unfold rexmitTimer
        split
        · exact h
        · exact (rexmitTimeout_announces _ mem).inInput.trans h
    | persistTimer mem => exact (tcpZeroWindowProbe_announces _ mem).inInput.trans h
    | input inseg mem sent received closed memOut =>
        dsimp only at hactive ⊢
        unfold input at hactive ⊢
        dsimp only at hactive ⊢
        generalize ({ e.pcb with inInput := true } : TcpPcb).tcpProcess inseg mem = result
          at hactive ⊢
        unfold processed at hactive ⊢
        split at hactive
        next _ => cases hactive
        next halive =>
          rw [if_neg halive]
          split at hactive
          next _ => split at hactive <;> cases hactive
          next hstate =>
            rw [if_neg hstate]
            dsimp only at hactive ⊢
            generalize ((({ e with pcb := result.1.pcb } : Endpoint).notifySent sent).notifyReceived
              result.1.recvData received).notifyClosed result.1.gotFin closed = told at hactive ⊢
            unfold finishInput at hactive ⊢
            split at hactive
            next htold =>
              rw [if_pos htold]
              exact (tcpOutput_announces _ memOut).inInput
            next hgone => exact absurd hactive hgone
  next _ => rwa [if_neg ‹_›]

theorem run_inInput (h : e.pcb.inInput = false) {evs : List TcpEvent}
    (hactive : (Run.run Endpoint.step e evs).active = true) :
    (Run.run Endpoint.step e evs).pcb.inInput = false := by
  refine Run.invariant_of_step (I := fun e' : Endpoint => e'.active = true → e'.pcb.inInput = false)
    (fun e' ev hbefore hactive' => ?_) (fun _ => h) evs hactive
  cases hpresent : e'.active with
  | true => exact step_inInput (hbefore hpresent) hactive'
  | false =>
      rw [step_inactive hpresent] at hactive'
      exact absurd hactive' (by simp [hpresent])

/-! ## Any number of events -/

/-- A run in which the application takes no more than there can be, and what arrives is a piece of
the peer's stream. -/
def Fed (pbase : Nat) (peer : List (Option UInt8)) (e : Endpoint) (evs : List TcpEvent) : Prop :=
  Run.Steps Endpoint.step (Heeded pbase peer) e evs

theorem Listening.run {evs : List TcpEvent} (hl : Listening pw pf n e)
    (h : Receiving pbase n edge e.pcb) (hevs : Fed pbase (symbols pw pf) e evs) :
    ∃ n' edge', Hears pbase n edge n' edge' e.pcb (Run.run Endpoint.step e evs).pcb ∧
      Listening pw pf n' (Run.run Endpoint.step e evs) := by
  refine Run.invariant (I := fun e' : Endpoint => ∃ n' edge', Hears pbase n edge n' edge' e.pcb e'.pcb ∧
    Listening pw pf n' e') (fun e' ev hreached hev => ?_) ⟨n, edge, .of_wire h rfl, hl⟩ hevs
  obtain ⟨n', edge', hhears, hl'⟩ := hreached
  obtain ⟨n'', edge'', hhears', hl''⟩ := hl'.step hhears.receiving hev
  exact ⟨n'', edge'', hhears.trans hhears', hl''⟩

end Endpoint

end Meu1oARM
