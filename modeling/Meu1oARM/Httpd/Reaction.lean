import Meu1oARM.Httpd.Arrival

/-! # What a callback does to a connection

Before they send or close, the callbacks of a connection with a state do little. What
becomes of the connection is one of five things.
-/

namespace Meu1oARM

open Machine

variable {σ : Type} {site : Site σ} {o : Oracle} {c : Ctx σ} {hs : HttpState}

/-- The connection after a poll has been counted. -/
def Ctx.counted (c : Ctx σ) (hs : HttpState) : Ctx σ :=
  { c with cell := .live { hs with retries := Machine.u8 (hs.retries + 1) } }

/-- The connection after `http_sent` or `http_poll` has tried to send, when the counter was set to
`n` before. -/
def Ctx.tried (site : Site σ) (e : Call) (c : Ctx σ) (hs : HttpState) (n : Nat) : Ctx σ :=
  (httpSend site e.oracle { c.window e with cell := .live { hs with retries := n } }).2.leave

/-- What becomes of an active connection in the callback `e`: it is torn down, its request goes
on, data is ignored, a poll is counted, or something is sent. -/
inductive Reaction (site : Site σ) (e : Call) (c : Ctx σ) (hs : HttpState) (c' : Ctx σ) : Prop
  | torn (acts : List Action) (htears : TearsDown hs e)
      (htrace : c'.pcb.trace = c.pcb.trace ++ acts) (hquiet : ∀ a ∈ acts, a.isQuiet)
      (hlookups : lookups acts = []) (hdead : ∀ hs', c'.cell ≠ .live hs')
  | arrives (p : Delivery) (hcallback : e.callback = .recv p .ok) (hdata : p.payloads ≠ [])
      (hwaiting : hs.Waiting)
      (harrival : Arrival site e.oracle (hs.req ++ pbufChain c.pcb.nextId p.payloads) c hs c')
  | ignores (p : Delivery) (hcallback : e.callback = .recv p .ok) (hhandle : hs.handle ≠ none)
      (heq : c' = (c.window e).received p.payloads)
  | counts (hcallback : e.callback = .poll) (hlimit : u8 (hs.retries + 1) ≠ maxRetries)
      (hhandle : hs.handle = none) (heq : c' = (c.window e).counted hs)
  | sends (n : Nat) (hn : (e.callback = .sent ∧ n = 0) ∨
        (e.callback = .poll ∧ n = u8 (hs.retries + 1) ∧ n ≠ maxRetries ∧ hs.handle ≠ none))
      (heq : c' = c.tried site e hs n ∨ c' = (c.tried site e hs n).log .output)

/-! ## The callbacks -/

theorem httpPoll_counted (hcell : c.cell = .live hs) :
    httpPoll site o c =
      if Machine.u8 (hs.retries + 1) = maxRetries then (.ok, (httpCloseConn o (c.counted hs)).2)
      else if hs.handle.isSome then
        (.ok,
          if (httpSend site o (c.counted hs)).1 ≠ 0 then
            { (httpSend site o (c.counted hs)).2 with
              pcb := tcpOutput (httpSend site o (c.counted hs)).2.pcb }
          else (httpSend site o (c.counted hs)).2)
      else (.ok, c.counted hs) := by
  simp only [httpPoll, hcell, Ctx.hs_of_live hcell, Ctx.setHs_of_live hcell]
  rfl

theorem poll_leave_limit (e : Call) (hcallback : e.callback = .poll) (hcell : c.cell = .live hs)
    (hopen : c.pcb.status = .opened) (hlimit : Machine.u8 (hs.retries + 1) = maxRetries) :
    (c.call site e).leave = { (c.window e).closed e.oracle hs with cell := .null } := by
  have hcell' : (c.window e).cell = .live hs := hcell
  have hcall : c.call site e = (httpPoll site e.oracle (c.window e)).2 := by
    simp only [Ctx.call, hcallback]
  rw [hcall, httpPoll_counted hcell', if_pos hlimit,
    httpCloseConn_live (c := (c.window e).counted hs) rfl hopen]
  rfl

/-- The error callback frees the state of a control block that lwIP has deallocated. -/
theorem err_call (e : Call) (hcallback : e.callback = .err) (hcell : c.cell = .live hs) :
    c.call site e =
      { c.window e with
        cell := .freed
        pcb := { (c.window e).pcb with
          status := .reset, trace := c.pcb.trace ++ hs.releases } } := by
  have hfree := httpStateFree_live hs
    (c := { c.window e with pcb := { (c.window e).pcb with status := .reset } }) hcell
  simp only [Ctx.call, hcallback, httpErr, Ctx.window, hcell] at hfree ⊢
  exact hfree

theorem Ctx.leave_log (c : Ctx σ) (a : Action) : (c.log a).leave = c.leave.log a := by
  obtain ⟨pcb, cell, sys⟩ := c
  unfold Ctx.leave Ctx.log
  dsimp only [Pcb.log]
  split <;> rfl

theorem closing_quiet (hs : HttpState) (o : Oracle) :
    ∀ a ∈ hs.releases ++ [.closed o.close], a.isQuiet := by
  intro a ha
  rcases List.mem_append.mp ha with hmem | hmem
  · exact hs.releases_quiet a hmem
  · obtain rfl := List.mem_singleton.mp hmem
    rfl

theorem lookups_closing (hs : HttpState) (o : Oracle) :
    lookups (hs.releases ++ [.closed o.close]) = [] := by
  simp [Action.lookup]

/-- `http_recv` tears the connection down, takes the data or ignores it. -/
theorem recv_reaction (hcell : c.cell = .live hs) (hopen : c.pcb.status = .opened)
    (harg : c.pcb.callbackArg = .state hs.addr) (hactive : Active site c.pcb hs) {e : Call}
    {p : Delivery} {err : Err} (hcallback : e.callback = .recv p err) :
    Reaction site e c hs (connStep site c (.call e)) := by
  have hcell' : ((c.window e).received p.payloads).cell = .live hs := hcell
  have hopen' : ((c.window e).received p.payloads).pcb.status = .opened := hopen
  have harg' : ((c.window e).received p.payloads).pcb.callbackArg = .state hs.addr := harg
  have hstep : connStep site c (.call e) =
      (httpRecv site e.oracle (pbufChain c.pcb.nextId p.payloads) err
        ((c.window e).received p.payloads)).leave := by
    simp only [connStep, if_pos hopen, Ctx.call, hcallback]
    rfl
  by_cases hfin : err ≠ .ok ∨ p.payloads = []
  · rw [hstep, httpRecv_fin hcell' hopen' (by simpa using hfin), Ctx.leave_closed]
    refine .torn (freed (pbufChain c.pcb.nextId p.payloads) ++
      (hs.releases ++ [.closed e.oracle.close])) ?_ ?_ ?_ ?_ Cell.null_ne_live
    · simpa [TearsDown, hcallback] using hfin
    · simp [Ctx.closed, Pcb.shut, Ctx.received, Ctx.window]
    · intro a ha
      rcases List.mem_append.mp ha with hmem | hmem
      · exact freed_quiet _ a hmem
      · exact closing_quiet hs e.oracle a hmem
    · rw [lookups_append, lookups_freed, lookups_closing, List.append_nil]
  · obtain ⟨rfl, hdata⟩ : err = .ok ∧ p.payloads ≠ [] := by simpa using hfin
    rcases hactive.2 with ⟨hwaiting, -⟩ | ⟨f, is09, hserving, hreq, -⟩
    · exact .arrives p hcallback hdata hwaiting
        (arrival hcell hopen harg hactive hwaiting hcallback hdata)
    · have hhandle : hs.handle ≠ none := by simp [hserving.handle]
      rw [hstep, httpRecv_serving hcell' hopen' (by simpa using hdata) hhandle hreq,
        Ctx.leave_of_state harg']
      exact .ignores p hcallback hhandle rfl

/-- `http_poll` tears the connection down at the limit, and sends when a file is open. -/
theorem poll_reaction (hcell : c.cell = .live hs) (hopen : c.pcb.status = .opened)
    (harg : c.pcb.callbackArg = .state hs.addr) (hactive : Active site c.pcb hs) {e : Call}
    (hcallback : e.callback = .poll) : Reaction site e c hs (connStep site c (.call e)) := by
  have hcell' : (c.window e).cell = .live hs := hcell
  have hactive' : Active site (c.window e).pcb hs := hactive.congr hopen (.refl _)
  have hstep : connStep site c (.call e) = (c.call site e).leave := if_pos hopen
  have hcall : c.call site e = (httpPoll site e.oracle (c.window e)).2 := by
    simp only [Ctx.call, hcallback]
  rw [hstep]
  by_cases hlimit : u8 (hs.retries + 1) = maxRetries
  · rw [poll_leave_limit e hcallback hcell hopen hlimit]
    refine .torn (hs.releases ++ [.closed e.oracle.close]) ?_ ?_ (closing_quiet hs e.oracle)
      (lookups_closing hs e.oracle) Cell.null_ne_live
    · simpa [TearsDown, hcallback] using hlimit
    · simp [Ctx.closed, Pcb.shut, Ctx.window]
  rw [hcall, httpPoll_counted hcell', if_neg hlimit]
  cases hhandle : hs.handle with
  | none =>
      rw [if_neg (by simp), Ctx.leave_of_state (c := (c.window e).counted hs) harg]
      exact .counts hcallback hlimit hhandle rfl
  | some f =>
      rw [if_pos (by simp)]
      refine .sends (u8 (hs.retries + 1)) (Or.inr ⟨hcallback, rfl, hlimit, by simp [hhandle]⟩) ?_
      obtain ⟨pcb', hs', hsends, -, ⟨-, hstay⟩ | hdone⟩ :=
        httpSend_sentTo (o := e.oracle) (c := (c.window e).counted hs) rfl hopen
          (hactive'.retries _)
      · -- the connection has stayed, and what is queued may be put out
        have hopen' : (httpSend site e.oracle ((c.window e).counted hs)).2.pcb.status = .opened := by
          rw [hstay]
          exact hsends.status_eq.trans hopen
        split
        · right
          rw [Ctx.tried, ← Ctx.leave_log]
          simp only [tcpOutput, Pcb.touch_of_opened hopen']
          rfl
        · exact Or.inl rfl
      · left
        rw [if_neg (by simp [hdone])]
        rfl

theorem reaction (hcell : c.cell = .live hs) (hopen : c.pcb.status = .opened)
    (harg : c.pcb.callbackArg = .state hs.addr) (hactive : Active site c.pcb hs) (e : Call) :
    Reaction site e c hs (connStep site c (.call e)) := by
  have hstep : connStep site c (.call e) = (c.call site e).leave := if_pos hopen
  cases hcallback : e.callback with
  | recv p err => exact recv_reaction hcell hopen harg hactive hcallback
  | sent =>
      have hcell' : (c.window e).cell = .live hs := hcell
      refine .sends 0 (Or.inl ⟨hcallback, rfl⟩) (Or.inl ?_)
      rw [hstep]
      simp only [Ctx.call, hcallback, httpSent, hcell', Ctx.hs_of_live hcell',
        Ctx.setHs_of_live hcell', Ctx.tried]
  | poll => exact poll_reaction hcell hopen harg hactive hcallback
  | err =>
      rw [hstep, err_call e hcallback hcell, Ctx.leave_of_state (by exact harg)]
      refine .torn hs.releases ?_ rfl hs.releases_quiet (lookups_releases hs) Cell.freed_ne_live
      simp [TearsDown, hcallback]

/-! ## Connections without a state -/

/-- A state that is gone does not come back, and nothing is done for a request. -/
theorem Move.dead {keep : Prop} {c' : Ctx σ} (h : Move site keep c c')
    (hcell : ∀ hs, c.cell ≠ .live hs) :
    (∀ hs, c'.cell ≠ .live hs) ∧ ∃ acts, c'.pcb.trace = c.pcb.trace ++ acts ∧
      (∀ a ∈ acts, a.isQuiet) ∧ lookups acts = [] := by
  cases h with
  | window | share | resetNull => exact ⟨hcell, [], (List.append_nil _).symm, nofun, rfl⟩
  | drop xs => exact ⟨hcell, _, rfl, freed_quiet _, lookups_freed _⟩
  | output | abortNull => exact ⟨hcell, _, rfl, by simp [Action.isQuiet], rfl⟩
  | closeNull hopen hnull o =>
      exact ⟨hcell, [.closed o.close], by simp [Pcb.shut], by simp [Action.isQuiet], rfl⟩
  | retries hlive | ignore hlive | queue hlive | discard hlive | dispatch _ _ _ hlive
  | send hlive | close hlive | finish hlive | reset hlive => exact absurd hlive (hcell _)

theorem Moves.dead {keep : Prop} {c' : Ctx σ} (h : Moves site keep c c')
    (hcell : ∀ hs, c.cell ≠ .live hs) :
    (∀ hs, c'.cell ≠ .live hs) ∧ ∃ acts, c'.pcb.trace = c.pcb.trace ++ acts ∧
      (∀ a ∈ acts, a.isQuiet) ∧ lookups acts = [] := by
  induction h with
  | refl => exact ⟨hcell, [], (List.append_nil _).symm, nofun, rfl⟩
  | tail _ hmove ih =>
      obtain ⟨hcell', acts, htrace, hquiet, hlookups⟩ := ih
      obtain ⟨hcell'', more, htrace', hquiet', hlookups'⟩ := hmove.dead hcell'
      refine ⟨hcell'', acts ++ more, ?_, ?_, ?_⟩
      · rw [htrace', htrace, List.append_assoc]
      · intro a ha
        rcases List.mem_append.mp ha with hmem | hmem
        exacts [hquiet a hmem, hquiet' a hmem]
      · rw [lookups_append, hlookups, hlookups', List.append_nil]

theorem Moves.not_live {keep : Prop} {c' : Ctx σ} (h : Moves site keep c c')
    (hcell : ∀ hs, c.cell ≠ .live hs) : ∀ hs, c'.cell ≠ .live hs := (h.dead hcell).1

end Meu1oARM
