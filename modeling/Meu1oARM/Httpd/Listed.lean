import Meu1oARM.Httpd.Connections

/-! # What the list of connections holds

At all times the list holds the states that are live, each once, in the order in
which their connections have been accepted.
-/

namespace Meu1oARM

open LinkedList

variable {σ : Type} {site : Site σ} {c d : Ctx σ} {hs : HttpState}

theorem Cell.isLive_iff {cell : Cell} : cell.isLive = true ↔ ∃ hs, cell = .live hs := by
  cases cell <;> simp [isLive]

/-! ## What a callback leaves of a state -/

/-- A callback leaves a connection its state, or frees it without aborting the connection. -/
inductive Stays (c c' : Ctx σ) : Prop
  | kept (hs' : HttpState) (hcell : c'.cell = .live hs') (hopen : c'.pcb.status = .opened)
      (harg : c'.pcb.callbackArg = c.pcb.callbackArg)
  | lost (hcell : ∀ hs', c'.cell ≠ .live hs') (hstatus : c'.pcb.status ≠ .aborted)

theorem Stays.of_closed (c d : Ctx σ) (o : Oracle) (hs : HttpState) : Stays c (d.closed o hs) := by
  refine .lost (fun hs' h => Cell.noConfusion h) ?_
  cases hfails : o.closeFails <;> simp [Ctx.closed, Pcb.shut, hfails]

theorem Stays.of_send (o : Oracle) (hcell : d.cell = .live hs) (hopen : d.pcb.status = .opened)
    (hactive : Active site d.pcb hs) (harg : d.pcb.callbackArg = c.pcb.callbackArg) :
    Stays c (httpSend site o d).2 := by
  obtain ⟨pcb', hs', hsends, -, ⟨-, hstay⟩ | hdone⟩ := httpSend_sentTo (o := o) hcell hopen hactive
  · rw [hstay]
    exact .kept hs' rfl (hsends.status_eq.trans hopen) (hsends.callbackArg_eq.trans harg)
  · rw [hdone]
    exact .of_closed ..

theorem Stays.output (h : Stays c d) : Stays c { d with pcb := tcpOutput d.pcb } := by
  have hstatus : (tcpOutput d.pcb).status = d.pcb.status := by
    unfold tcpOutput Pcb.touch
    split <;> rfl
  have harg : (tcpOutput d.pcb).callbackArg = d.pcb.callbackArg := by
    unfold tcpOutput Pcb.touch
    split <;> rfl
  cases h with
  | kept hs' hcell hopen hkept => exact .kept hs' hcell (hstatus.trans hopen) (harg.trans hkept)
  | lost hcell hended => exact .lost hcell fun h => hended (hstatus.symm.trans h)

/-- `http_recv` of data for a connection that waits. -/
theorem recv_stays {o : Oracle} (hcell : c.cell = .live hs) (hopen : c.pcb.status = .opened)
    (hactive : Active site c.pcb hs) (hwaiting : hs.Waiting) (p : Delivery)
    (hdata : p.payloads ≠ []) :
    Stays c (httpRecv site o (pbufChain c.pcb.nextId p.payloads) .ok (c.received p.payloads)) := by
  have hcell' : (c.received p.payloads).cell = .live hs := hcell
  have hopen' : (c.received p.payloads).pcb.status = .opened := hopen
  have hdata' : pbufChain c.pcb.nextId p.payloads ≠ [] := by simpa using hdata
  rw [httpRecv_waiting hcell' hopen' hdata' hwaiting]
  have hspec := httpParseRequest_spec site o (pbufChain c.pcb.nextId p.payloads) hcell' hwaiting
  generalize httpParseRequest site o (pbufChain c.pcb.nextId p.payloads) (c.received p.payloads) =
    result at hspec ⊢
  cases hspec with
  | incomplete sys hbounds hparsed =>
      rw [httpRecvParsed_inprogress]
      exact .kept _ rfl hopen rfl
  | rejected sys hparsed =>
      dsimp only
      rw [httpRecvParsed_arg (c := (c.received p.payloads).withQueued hs
          (pbufChain c.pcb.nextId p.payloads) sys)
        (Eq.refl (Cell.live { hs with req := hs.req ++ pbufChain c.pcb.nextId p.payloads })) hopen]
      exact .of_closed ..
  | found uriLen is09 uri hs' n acts sys hparsed huri hfound =>
      have hactive' := hactive.dispatched hwaiting hfound
        (q := { c.pcb with
          nextId := n
          trace := c.pcb.trace ++ queued (pbufChain c.pcb.nextId p.payloads) ++
            .findFile uri is09 :: acts ++ freed hs'.req }) hopen _ _ _ rfl
      rw [httpRecvParsed_ok hs' rfl]
      exact .of_send o rfl hopen hactive' rfl

theorem call_stays (hcell : c.cell = .live hs) (hopen : c.pcb.status = .opened)
    (hactive : Active site c.pcb hs) (e : Call) : Stays c (c.call site e) := by
  have hcell' : (c.window e).cell = .live hs := hcell
  have hactive' : Active site (c.window e).pcb hs := hactive.congr hopen (.refl _)
  unfold Ctx.call
  dsimp only
  cases hcallback : e.callback with
  | recv p err =>
      dsimp only
      by_cases hfin : err ≠ .ok ∨ p.payloads = []
      · have hfin' : err ≠ .ok ∨ pbufChain (c.window e).pcb.nextId p.payloads = [] := by
          simpa using hfin
        rw [httpRecv_fin (c := (c.window e).received p.payloads) hcell hopen hfin']
        exact .of_closed ..
      · obtain ⟨rfl, hdata⟩ : err = .ok ∧ p.payloads ≠ [] := by simpa using hfin
        rcases hactive.2 with ⟨hwaiting, -⟩ | ⟨f, is09, hserving, hreq, -⟩
        · have hstays := recv_stays (o := e.oracle) hcell' hopen hactive' hwaiting p hdata
          cases hstays with
          | kept hs' hcell hopen harg => exact .kept hs' hcell hopen harg
          | lost hcell hstatus => exact .lost hcell hstatus
        · have hhandle : hs.handle ≠ none := by simp [hserving.handle]
          have hdata' : pbufChain (c.window e).pcb.nextId p.payloads ≠ [] := by simpa using hdata
          rw [httpRecv_serving (c := (c.window e).received p.payloads) hcell hopen hdata' hhandle
            hreq]
          exact .kept hs hcell hopen rfl
  | sent =>
      simp only [httpSent, hcell', Ctx.hs_of_live hcell', Ctx.setHs_of_live hcell']
      exact .of_send e.oracle rfl hopen (hactive'.retries 0) rfl
  | poll =>
      dsimp only
      rw [httpPoll_counted hcell']
      split
      · rw [httpCloseConn_live (c := (c.window e).counted hs) rfl hopen]
        exact .of_closed ..
      · split
        · have hstays : Stays c (httpSend site e.oracle ((c.window e).counted hs)).2 :=
            .of_send e.oracle rfl hopen (hactive'.retries _) rfl
          dsimp only
          split
          · exact hstays.output
          · exact hstays
        · exact .kept _ rfl hopen rfl
  | err =>
      have herr : c.call site e = _ := err_call e hcallback hcell
      simp only [Ctx.call, hcallback] at herr
      rw [herr]
      exact .lost (fun hs' h => Cell.noConfusion h) (by simp)

/-- `http_close_or_abort_conn` frees the state before lwIP aborts the connection. -/
theorem httpAbortConn_live {o : Oracle} (hcell : c.cell = .live hs) (hopen : c.pcb.status = .opened) :
    (httpCloseOrAbortConn o c true).2 =
      { c with
        cell := .freed
        pcb := { c.pcb with
          status := .aborted, callbackArg := .null, recv := false, sent := false, errf := false
          poll := false, trace := c.pcb.trace ++ (hs.releases ++ [.aborted]) } } := by
  simp only [httpCloseOrAbortConn, hcell]
  rw [httpStateFree_live hs rfl]
  simp [tcpAbort, tcpArg, tcpRecv, tcpErr, tcpPoll, tcpSent, Pcb.touch, Pcb.log, hopen]

namespace World

variable {w w' : World σ} {i a : Nat}

/-! ## The states that are live -/

/-- The states that are live, in the order in which they have been allocated. -/
def live (w : World σ) : List Nat := (List.range w.nextHs).filter fun a => (w.heap a).isLive

theorem mem_live : a ∈ w.live ↔ a < w.nextHs ∧ ∃ hs, w.heap a = .live hs := by
  rw [live, List.mem_filter, List.mem_range, Cell.isLive_iff]

theorem live_nodup (w : World σ) : w.live.Nodup := List.nodup_range.filter _

theorem length_live_le (w : World σ) : w.live.length ≤ w.nextHs := by
  have hle := List.length_filter_le (fun a => (w.heap a).isLive) (List.range w.nextHs)
  rwa [List.length_range] at hle

theorem live_congr (hnext : w'.nextHs = w.nextHs)
    (hsame : ∀ b, (w'.heap b).isLive = (w.heap b).isLive) : w'.live = w.live := by
  rw [live, live, hnext]
  exact List.filter_congr fun b _ => hsame b

theorem live_erase (hnext : w'.nextHs = w.nextHs) (hdead : (w'.heap a).isLive = false)
    (hsame : ∀ b, b ≠ a → (w'.heap b).isLive = (w.heap b).isLive) : w'.live = w.live.erase a := by
  rw [w.live_nodup.erase_eq_filter, live, live, hnext, List.filter_filter]
  apply List.filter_congr
  intro b _
  by_cases hb : b = a
  · simp [hb, hdead]
  · simp [hb, hsame b hb]

theorem live_succ (hnext : w'.nextHs = w.nextHs + 1)
    (hsame : ∀ b, b < w.nextHs → (w'.heap b).isLive = (w.heap b).isLive) :
    w'.live = w.live ++ if (w'.heap w.nextHs).isLive then [w.nextHs] else [] := by
  have hfirst : (List.range w.nextHs).filter (fun a => (w'.heap a).isLive) =
      (List.range w.nextHs).filter fun a => (w.heap a).isLive :=
    List.filter_congr fun b hb => hsame b (List.mem_range.mp hb)
  rw [live, live, hnext, List.range_succ, List.filter_append, hfirst, List.filter_singleton,
    Bool.cond_eq_ite]

/-! ## States and their connections -/

/-- Every connection is linked, and every live state is what its connection points to. -/
structure Backed (site : Site σ) (w : World σ) : Prop extends Ok site w where
  owned : ∀ a hs, w.heap a = .live hs → (w.pcbs hs.pcb).callbackArg = .state a

theorem init_backed (site : Site σ) (sys : Sys σ) : Backed site (init sys) where
  toOk := init_ok site sys
  owned _ _ hlive := Cell.noConfusion hlive

namespace Backed

theorem lt (h : Backed site w) (hlive : w.heap a = .live hs) : a < w.nextHs :=
  h.fresh hs.pcb a (h.owned a hs hlive)

theorem mem_live (h : Backed site w) : a ∈ w.live ↔ ∃ hs, w.heap a = .live hs := by
  rw [World.mem_live]
  exact ⟨And.right, fun hlive => ⟨hlive.elim fun _ => h.lt, hlive⟩⟩

/-- The connection of a live state. -/
theorem active (h : Backed site w) (hlive : w.heap a = .live hs) :
    (w.pcbs hs.pcb).status = .opened ∧ (w.view hs.pcb).cell = .live hs ∧
      Active site (w.pcbs hs.pcb) hs := by
  have hcell : (w.view hs.pcb).cell = .live hs := by
    rw [view, h.owned a hs hlive]
    exact hlive
  cases h.linked hs.pcb with
  | ended _ hdead => exact absurd hcell (hdead hs)
  | closing _ hnull => exact Cell.noConfusion (hnull.symm.trans hcell)
  | active hopen hcell' _ _ hactive =>
      obtain rfl := Cell.live.inj (hcell.symm.trans hcell')
      exact ⟨hopen, hcell, hactive⟩

/-- Two live states do not belong to one connection. -/
theorem pcb_inj (h : Backed site w) {b : Nat} {hs' : HttpState} (ha : w.heap a = .live hs)
    (hb : w.heap b = .live hs') (hpcb : hs.pcb = hs'.pcb) : a = b := by
  have harg := h.owned a hs ha
  rw [hpcb, h.owned b hs' hb] at harg
  exact (Arg.state.inj harg).symm

/-- What a callback of connection `i` has to leave for the server to stay as it was. -/
theorem put (h : Backed site w) {c' : Ctx σ} (hopen : (w.pcbs i).status = .opened)
    (harg : c'.pcb.callbackArg = (w.pcbs i).callbackArg ∨ c'.pcb.callbackArg = .null)
    (hlinked : Linked site i c'.leave)
    (hkept : ∀ hs', c'.cell = .live hs' → c'.pcb.callbackArg = (w.pcbs i).callbackArg) :
    Backed site (w.put i c') where
  linked j := by
    by_cases hij : i = j
    · subst hij
      rw [view_put_self harg]
      exact hlinked
    · rw [h.toOk.view_put_other hij hopen]
      have hmove : Move site False (w.view j) { w.view j with sys := c'.sys } := .share _ _
      exact hmove.linked (h.linked j)
  fresh j b hj := by
    by_cases hij : j = i
    · subst hij
      have hj' : c'.pcb.callbackArg = .state b := by simpa [World.put] using hj
      rcases harg with hsame | hnull
      · exact h.fresh j b (hsame.symm.trans hj')
      · exact Arg.noConfusion (hj'.symm.trans hnull)
    · exact h.fresh j b (by simpa [World.put, hij] using hj)
  owned b hs' hlive := by
    cases hi : (w.pcbs i).callbackArg with
    | null | listen =>
        have hlive' : w.heap b = .live hs' := by simpa [World.put, store, hi] using hlive
        have hown := h.owned b hs' hlive'
        have hne : hs'.pcb ≠ i := by
          rintro rfl
          exact Arg.noConfusion (hi.symm.trans hown)
        simpa [World.put, hne] using hown
    | state a =>
        by_cases hb : b = a
        · subst hb
          have hcell : c'.cell = .live hs' := by simpa [World.put, store, hi] using hlive
          have harg' : c'.pcb.callbackArg = .state b := (hkept hs' hcell).trans hi
          rw [Ctx.leave_of_state harg'] at hlinked
          cases hlinked with
          | ended _ hdead => exact absurd hcell (hdead hs')
          | closing _ hnull => exact Cell.noConfusion (hnull.symm.trans hcell)
          | active _ hcell' _ hself =>
              obtain rfl := Cell.live.inj (hcell.symm.trans hcell')
              simpa [World.put, hself] using harg'
        · have hlive' : w.heap b = .live hs' := by
            simpa [World.put, store, hi, hb] using hlive
          have hown := h.owned b hs' hlive'
          have hne : hs'.pcb ≠ i := by
            rintro rfl
            exact hb (Arg.state.inj (hown.symm.trans hi))
          simpa [World.put, hne] using hown

theorem linked_active (h : Backed site w) (hopen : (w.pcbs i).status = .opened)
    (harg : (w.pcbs i).callbackArg = .state a) :
    ∃ hs, w.heap a = .live hs ∧ hs.pcb = i ∧ Active site (w.pcbs i) hs := by
  cases h.linked i with
  | ended hended => exact absurd hopen hended
  | closing _ _ hnull => exact Arg.noConfusion (harg.symm.trans hnull)
  | active _ hcell _ hself hactive =>
      have hheap : w.deref (w.pcbs i).callbackArg = .live _ := hcell
      rw [harg] at hheap
      exact ⟨_, hheap, hself, hactive⟩

/-- A connection whose state is live is not aborted by its own callbacks. -/
theorem call_stays (h : Backed site w) (hopen : (w.pcbs i).status = .opened)
    (harg : (w.pcbs i).callbackArg = .state a) (e : Call) :
    Stays (w.view i) ((w.view i).call site e) := by
  obtain ⟨hs, hlive, -, hactive⟩ := h.linked_active hopen harg
  have hcell : (w.view i).cell = .live hs := by
    rw [view, harg]
    exact hlive
  exact Meu1oARM.call_stays hcell hopen hactive e

theorem call (h : Backed site w) (i : Nat) (e : Call) : Backed site (w.step site (.call i e)) := by
  by_cases hopen : (w.pcbs i).status = .opened
  · have hmoves := connStep_moves_free (h.linked i) (.call e)
    have hlinked := h.toOk.linked_step (.call i e) i
    rw [h.toOk.view_step (.call i e) (by simp)] at hlinked
    simp only [project, if_true, connStep, if_pos (show (w.view i).pcb.status = .opened from hopen)]
      at hmoves hlinked
    have harg := hmoves.callbackArg
    rw [Ctx.leave_pcb] at harg
    simp only [step, if_pos hopen]
    refine h.put hopen harg hlinked ?_
    intro hs' hcell
    cases hi : (w.pcbs i).callbackArg with
    | state a =>
        cases h.call_stays hopen hi e with
        | kept _ _ _ hkept => exact hkept.trans hi
        | lost hdead => exact absurd hcell (hdead hs')
    | null =>
        rcases harg with hsame | hnull
        · exact hsame.trans hi
        · exact hnull
    | listen =>
        cases h.linked i with
        | ended hended => exact absurd hopen hended
        | closing _ _ hnull => exact Arg.noConfusion (hi.symm.trans hnull)
        | active _ _ hstate => exact Arg.noConfusion (hi.symm.trans hstate)
  · simp only [step, if_neg hopen]
    exact h

theorem accept (h : Backed site w) (i : Nat) (o : Oracle) :
    Backed site (w.step site (.accept i o)) := by
  refine ⟨h.toOk.step _, ?_⟩
  by_cases habsent : (w.pcbs i).status = .absent
  · intro a hs hlive
    simp only [step, if_pos habsent, accept_eq] at hlive ⊢
    by_cases ha : a = w.nextHs
    · subst ha
      cases halloc : o.stateAlloc with
      | true =>
          obtain rfl : hs = { httpStateInit with addr := w.nextHs, pcb := i } := by
            simpa [halloc, store, eq_comm] using hlive
          simp
      | false => simp [halloc, store] at hlive
    · have hlive' : w.heap a = .live hs := by
        split at hlive <;> simpa [store, ha] using hlive
      have hne : hs.pcb ≠ i := by
        rintro rfl
        rw [(h.active hlive').1] at habsent
        exact PcbStatus.noConfusion habsent
      rw [Function.update_of_ne hne]
      exact h.owned a hs hlive'
  · simp only [step, if_neg habsent]
    exact h.owned

theorem app (h : Backed site w) (app : σ) : Backed site (w.step site (.app app)) :=
  ⟨h.toOk.step _, h.owned⟩

end Backed

end World

namespace Connections

variable {s : Connections σ} {i a : Nat}

/-- The list holds the states that are live. -/
structure Ok (site : Site σ) (s : Connections σ) : Prop where
  backed : World.Backed site s.world
  lists : Lists s.next s.httpConnections s.world.live

theorem init_ok (site : Site σ) (sys : Sys σ) : Ok site (init sys) where
  backed := World.init_backed site sys
  lists := .nil

/-- The list stays as it is when nothing becomes live and nothing ceases to be. -/
theorem Ok.withWorld (h : Ok site s) {w : World σ} (hbacked : World.Backed site w)
    (hnext : w.nextHs = s.world.nextHs)
    (hsame : ∀ b, (w.heap b).isLive = (s.world.heap b).isLive) :
    Ok site { s with world := w } := by
  refine ⟨hbacked, ?_⟩
  rw [World.live_congr hnext hsame]
  exact h.lists

/-- A state is freed and taken off the list. -/
theorem Ok.unlinked (h : Ok site s) {w : World σ} (hbacked : World.Backed site w)
    (hlive : s.world.heap a = .live hs) (hnext : w.nextHs = s.world.nextHs)
    (hdead : (w.heap a).isLive = false)
    (hsame : ∀ b, b ≠ a → (w.heap b).isLive = (s.world.heap b).isLive) :
    Ok site { s.unlink a with world := w } := by
  refine ⟨hbacked, ?_⟩
  rw [World.live_erase hnext hdead hsame]
  exact unlink_lists h.lists (h.backed.mem_live.mpr ⟨hs, hlive⟩) s.world.length_live_le

/-! ## The callbacks -/

theorem Ok.settle (h : Ok site s) (hopen : (s.world.pcbs i).status = .opened) (e : Call) :
    Ok site (s.settle i (s.world.step site (.call i e))) := by
  have hbacked := h.backed.call i e
  have hnext : (s.world.step site (.call i e)).nextHs = s.world.nextHs := by
    simp only [World.step, if_pos hopen]
    rfl
  have hheap : (s.world.step site (.call i e)).heap = World.store s.world.heap
      (s.world.pcbs i).callbackArg ((s.world.view i).call site e).cell := by
    simp only [World.step, if_pos hopen]
    rfl
  generalize s.world.step site (.call i e) = w at hbacked hnext hheap ⊢
  unfold Connections.settle
  cases harg : (s.world.pcbs i).callbackArg with
  | state a =>
      rw [harg] at hheap
      obtain ⟨hs, hlive, -, -⟩ := h.backed.linked_active hopen harg
      have hsame : ∀ b, b ≠ a → (w.heap b).isLive = (s.world.heap b).isLive := by
        intro b hb
        simp [hheap, World.store, hb]
      dsimp only
      split
      next hfreed =>
        have hdead : (w.heap a).isLive = false := by simpa [hlive, Cell.isLive] using hfreed
        exact h.unlinked hbacked hlive hnext hdead hsame
      next hkept =>
        refine h.withWorld hbacked hnext fun b => ?_
        by_cases hb : b = a
        · subst hb
          simpa [hlive, Cell.isLive] using hkept
        · exact hsame b hb
  | null | listen =>
      rw [harg] at hheap
      refine h.withWorld hbacked hnext fun b => ?_
      rw [hheap]
      rfl

/-- A connection is accepted after the attempts to allocate a state for it. -/
theorem Ok.accepted (h : Ok site s) (habsent : (s.world.pcbs i).status = .absent) (o : Oracle) :
    Ok site { (if o.stateAlloc then s.link s.world.nextHs else s) with
      world := s.world.step site (.accept i o) } := by
  have hbacked := h.backed.accept i o
  have hnext : (s.world.step site (.accept i o)).nextHs = s.world.nextHs + 1 := by
    simp only [World.step, if_pos habsent]
  have hnew : ((s.world.step site (.accept i o)).heap s.world.nextHs).isLive = o.stateAlloc := by
    simp only [World.step, if_pos habsent, accept_eq]
    cases o.stateAlloc <;> simp [World.store, Cell.isLive]
  have hsame : ∀ b, b < s.world.nextHs →
      ((s.world.step site (.accept i o)).heap b).isLive = (s.world.heap b).isLive := by
    intro b hb
    have hne : b ≠ s.world.nextHs := Nat.ne_of_lt hb
    simp [World.step, habsent, World.store, hne]
  refine ⟨hbacked, ?_⟩
  rw [World.live_succ hnext hsame, hnew]
  cases halloc : o.stateAlloc with
  | false =>
      simp only [Bool.false_eq_true, if_false, List.append_nil]
      exact h.lists
  | true =>
      have hfresh : s.world.nextHs ∉ s.world.live := fun hmem =>
        Nat.lt_irrefl _ (World.mem_live.mp hmem).1
      exact link_lists h.lists hfresh s.world.length_live_le

/-! ## The connection that is aborted -/

/-- The connection of the state `v` has been aborted, if there is one, and nothing else has
happened. -/
structure Sacrifice (site : Site σ) (v : Option Nat) (s s' : Connections σ) : Prop where
  ok : Ok site s'
  pcbs_eq : ∀ j, (∀ a ∈ v, (s.world.heap a).state.pcb ≠ j) → s'.world.pcbs j = s.world.pcbs j
  aborted : ∀ a ∈ v, (s'.world.pcbs (s.world.heap a).state.pcb).status = .aborted

theorem Ok.spared (h : Ok site s) : Sacrifice site none s s :=
  ⟨h, fun _ _ => rfl, by simp⟩

theorem Ok.abortConn (h : Ok site s) (o : Oracle) (hlive : s.world.heap a = .live hs) :
    Sacrifice site (some a) s (s.abortConn o a) := by
  have harg := h.backed.owned a hs hlive
  obtain ⟨hopen, hcell, hactive⟩ := h.backed.active hlive
  have hview : s.world.view hs.pcb =
      { pcb := s.world.pcbs hs.pcb, cell := s.world.heap a, sys := s.world.sys } := by
    rw [World.view, harg]
    rfl
  have haborts := httpAbortConn_live (o := o) hcell hopen
  have hworld : (s.abortConn o a).world =
      s.world.put hs.pcb (httpCloseOrAbortConn o (s.world.view hs.pcb) true).2 := by
    rw [hview]
    simp [Connections.abortConn, World.put, World.store, harg, hlive, Cell.state]
  rw [haborts] at hworld
  have hended : Linked site hs.pcb (Ctx.leave (σ := σ)
      { s.world.view hs.pcb with
        cell := .freed
        pcb := { (s.world.view hs.pcb).pcb with
          status := .aborted, callbackArg := .null, recv := false, sent := false, errf := false
          poll := false
          trace := (s.world.view hs.pcb).pcb.trace ++ (hs.releases ++ [.aborted]) } }) := by
    refine .ended (by simp [Ctx.leave]) (by simp [Ctx.leave]) ?_
    refine hactive.answered.congr (.append_quiet _ fun b hb => ?_)
    rcases List.mem_append.mp hb with hmem | hmem
    · exact HttpState.releases_quiet hs b hmem
    · obtain rfl := List.mem_singleton.mp hmem
      rfl
  have hbacked := h.backed.put hopen (Or.inr rfl) hended fun _ hfreed => Cell.noConfusion hfreed
  rw [← hworld] at hbacked
  have hpcb : (s.world.heap a).state.pcb = hs.pcb := by rw [hlive, Cell.state]
  refine ⟨?_, ?_, ?_⟩
  · have hlisted := h.unlinked hbacked hlive (by rw [hworld]; rfl)
      (by simp [hworld, World.put, World.store, harg, Cell.isLive])
      (fun b hb => by simp [hworld, World.put, World.store, harg, hb])
    exact hlisted
  · intro j hj
    have hne : j ≠ hs.pcb := fun heq => hj a rfl (hpcb.trans heq.symm)
    simp [hworld, World.put, hne]
  · rintro b hb
    obtain rfl : a = b := by simpa using hb
    simp [hworld, World.put, hpcb]

/-- The state that is freed when an allocation fails: the last one behind the first that may be. -/
def victim (s : Connections σ) (ssiRequired : Bool) : Option Nat :=
  (s.world.live.tail.filter (mayFree s.world.heap ssiRequired)).getLast?

theorem victim_mem {ssiRequired : Bool} (h : a ∈ s.victim ssiRequired) :
    a ∈ s.world.live.tail ∧ mayFree s.world.heap ssiRequired a = true :=
  List.mem_filter.mp (List.mem_of_getLast? h)

theorem Ok.kill (h : Ok site s) (o : Oracle) (ssiRequired : Bool) :
    Sacrifice site (s.victim ssiRequired) s (s.httpKillOldestConnection o ssiRequired) := by
  have hvictim : (killLoop s.world.heap s.next ssiRequired s.world.nextHs s.httpConnections
      none).bind s.next = s.victim ssiRequired := by
    have hlists := h.lists
    have hlength := s.world.length_live_le
    unfold victim
    cases hhead : s.httpConnections with
    | none =>
        rw [hhead] at hlists
        rw [hlists.eq_nil]
        cases s.world.nextHs <;> rfl
    | some first =>
        rw [hhead] at hlists
        generalize s.world.live = l at hlists hlength
        cases hlists with
        | cons hrest =>
            rw [killLoop_eq (.cons hrest) (Nat.le_of_succ_le hlength), Option.bind_none,
              Option.or_none, List.tail_cons]
  unfold httpKillOldestConnection
  rw [hvictim]
  cases hfound : s.victim ssiRequired with
  | none => exact h.spared
  | some a =>
      obtain ⟨hmem, -⟩ := victim_mem hfound
      obtain ⟨hs, hlive⟩ := h.backed.mem_live.mp (List.mem_of_mem_tail hmem)
      exact h.abortConn o hlive

end Connections

end Meu1oARM
