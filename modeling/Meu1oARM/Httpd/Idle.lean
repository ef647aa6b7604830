import Meu1oARM.Httpd.Reaction
import Meu1oARM.Httpd.Safety

/-! # Idle connections

The retry counter of a connection counts the polls since it was accepted, since a file
was opened, or since sent data was last acknowledged. At the limit the connection is
closed; data that is received does not hold that off.
-/

namespace Meu1oARM

variable {σ : Type}

/-- The polls since the last reset, after an event that has led from `c` to `c'`. -/
def pollsAfter (polls : Nat) (c c' : Ctx σ) : ConnEvent σ → Nat
  | .others _ => polls
  | .call e =>
    match e.callback with
    | .poll => polls + 1
    | .sent => 0
    | .recv .. | .err => if (newActions c c').any Action.isOpened then 0 else polls

/-- A connection, with its polls since the last reset for the bookkeeping. -/
structure Watched (σ : Type) where
  ctx : Ctx σ
  polls : Nat

namespace Watched

/-- A connection that has been accepted. -/
def accept (o : Oracle) (self addr : Nat) (sys : Sys σ) : Watched σ :=
  { ctx := .accept o self addr sys, polls := 0 }

def step (site : Site σ) (w : Watched σ) (e : ConnEvent σ) : Watched σ :=
  { ctx := connStep site w.ctx e, polls := pollsAfter w.polls w.ctx (connStep site w.ctx e) e }

end Watched

/-- `http_close_conn` has been called, and not because the end of a file was reached. -/
def ClosedIdle (c c' : Ctx σ) : Prop :=
  (∃ err, .closed err ∈ newActions c c') ∧ .eof ∉ newActions c c'

/-- The idle time of a connection: its counter counts the polls and stays below the limit, and
a poll closes it for idleness if and only if it is the one that reaches the limit. If the FIN
cannot be enqueued then, the next poll closes or aborts the connection. -/
structure OnTime (site : Site σ) (w : Watched σ) : Prop where
  counted : w.ctx.pcb.status = .opened → ∀ hs, w.ctx.cell = .live hs →
    hs.retries = w.polls ∧ hs.retries < maxRetries
  closes : w.ctx.pcb.status = .opened → ∀ hs, w.ctx.cell = .live hs →
    ∀ e : Call, e.callback = .poll →
      (ClosedIdle w.ctx (connStep site w.ctx (.call e)) ↔ w.polls + 1 = maxRetries)
  closed : w.ctx.pcb.status = .opened → ∀ hs, w.ctx.cell = .live hs →
    ∀ e : Call, e.callback = .poll → w.polls + 1 = maxRetries →
      (connStep site w.ctx (.call e)).cell = .null ∧
        (connStep site w.ctx (.call e)).pcb.status =
          if e.oracle.closeFails then .opened else .closed
  retried : w.ctx.pcb.status = .opened → w.ctx.cell = .null → ∀ e : Call, e.callback = .poll →
    (connStep site w.ctx (.call e)).pcb.status ≠ .opened

section Calls

variable {site : Site σ} {o : Oracle} {c : Ctx σ} {hs : HttpState}

/-- After sending, the connection has its state with the same counter, or it has closed at the
end of the file. -/
theorem httpSend_leave (hcell : c.cell = .live hs) (hopen : c.pcb.status = .opened)
    (harg : c.pcb.callbackArg = .state hs.addr) (hactive : Active site c.pcb hs) :
    ∃ acts, (httpSend site o c).2.leave.pcb.trace = c.pcb.trace ++ acts ∧
      ((hs.left ≠ 0 ∧ (∀ a ∈ acts, a.isSending) ∧
          ∃ hs', (httpSend site o c).2.leave.cell = .live hs' ∧ hs'.retries = hs.retries) ∨
        ((httpSend site o c).2.leave.cell = .null ∧ .eof ∈ acts)) := by
  obtain ⟨pcb', hs', hsends, hsent, ⟨hleft, hstay⟩ | hdone⟩ :=
    httpSend_sentTo (o := o) hcell hopen hactive
  · obtain ⟨acts, hsending, htrace⟩ := hsends.trace_eq
    rw [hstay, Ctx.leave_of_state (hsends.callbackArg_eq.trans harg)]
    exact ⟨acts, htrace, Or.inl ⟨hleft, hsending, hs', rfl, by rw [hsent.1]⟩⟩
  · obtain ⟨acts, hsending, htrace⟩ := hsends.trace_eq
    rw [hdone, Ctx.leave_closed]
    refine ⟨acts ++ [.eof] ++ hs'.releases ++ [.closed o.close], ?_, Or.inr ⟨rfl, by simp⟩⟩
    simp [Ctx.closed, Pcb.shut, Ctx.log, Pcb.log, htrace]

/-- The same for a callback that has set the counter to `n` before it sends. -/
theorem tried_leave (hopen : c.pcb.status = .opened) (harg : c.pcb.callbackArg = .state hs.addr)
    (hactive : Active site c.pcb hs) (e : Call) (n : Nat) :
    ∃ acts, (c.tried site e hs n).pcb.trace = c.pcb.trace ++ acts ∧
      (((∀ a ∈ acts, a.isSending) ∧
          ∃ hs', (c.tried site e hs n).cell = .live hs' ∧ hs'.retries = n) ∨
        ((c.tried site e hs n).cell = .null ∧ .eof ∈ acts)) := by
  have hactive' : Active site (c.window e).pcb hs := hactive.congr hopen (.refl _)
  obtain ⟨acts, htrace, hout⟩ := httpSend_leave (o := e.oracle)
    (c := { c.window e with cell := .live { hs with retries := n } }) rfl hopen harg
    (hactive'.retries n)
  exact ⟨acts, htrace, hout.imp And.right id⟩

theorem queued_not_opened (p : List Pbuf) : (queued p).any Action.isOpened = false := by
  simp [queued, Action.isOpened]

/-- Received data resets the counter only when it completes a request. -/
theorem Arrival.retries {req : List Pbuf} {c' : Ctx σ} (h : Arrival site o req c hs c')
    {hs' : HttpState} (hlive : c'.cell = .live hs') :
    hs'.retries = if (newActions c c').any Action.isOpened then 0 else hs.retries := by
  cases h with
  | incomplete _ _ hcell _ _ hsame =>
      obtain ⟨p, htrace⟩ := hsame
      obtain rfl := Cell.live.inj (hcell.symm.trans hlive)
      rw [newActions_eq htrace, queued_not_opened]
      rfl
  | rejected _ hnull => cases hnull.symm.trans hlive
  | found _ _ _ _ hserving =>
      obtain ⟨acts, htrace, hlater⟩ := hserving
      obtain ⟨-, -, hretries, hopened⟩ := hlater hs' hlive
      rw [newActions_eq htrace, hretries, if_pos hopened]

theorem u8_succ {n : Nat} (h : n < maxRetries) : Machine.u8 (n + 1) = n + 1 :=
  Nat.mod_eq_of_lt (Nat.lt_of_le_of_lt h (by decide))

/-- Every callback that leaves the state leaves its counter with the number of polls. -/
theorem Reaction.counted {c' : Ctx σ} {hs' : HttpState} {e : Call} {polls : Nat}
    (h : Reaction site e c hs c') (hcell : c.cell = .live hs) (hopen : c.pcb.status = .opened)
    (harg : c.pcb.callbackArg = .state hs.addr) (hactive : Active site c.pcb hs)
    (hretries : hs.retries = polls) (hlt : polls < maxRetries) (hlive : c'.cell = .live hs') :
    hs'.retries = pollsAfter polls c c' (.call e) ∧
      pollsAfter polls c c' (.call e) < maxRetries := by
  have hzero : 0 < maxRetries := by decide
  cases h with
  | torn acts _ _ _ _ hdead => exact absurd hlive (hdead hs')
  | arrives p hcallback _ _ harrival =>
      have hpolls := harrival.retries hlive
      rw [hretries] at hpolls
      simp only [pollsAfter, hcallback]
      refine ⟨hpolls, ?_⟩
      split
      · exact hzero
      · exact hlt
  | ignores p hcallback _ heq =>
      subst heq
      have hsame : newActions c ((c.window e).received p.payloads) = [] :=
        newActions_eq (List.append_nil _).symm
      obtain rfl := Cell.live.inj (hcell.symm.trans hlive)
      simp only [pollsAfter, hcallback, hsame]
      exact ⟨hretries, hlt⟩
  | counts hcallback hlimit _ heq =>
      subst heq
      obtain rfl := Cell.live.inj hlive
      rw [hretries, u8_succ hlt] at hlimit
      simp only [pollsAfter, hcallback, hretries, u8_succ hlt]
      exact ⟨trivial, by omega⟩
  | sends n hn heq =>
      -- the state that is left is the one with the counter set
      have htried : (c.tried site e hs n).cell = .live hs' := by
        rcases heq with rfl | rfl
        · exact hlive
        · exact hlive
      obtain ⟨acts, -, ⟨-, hs'', hlive', hn'⟩ | ⟨hnull, -⟩⟩ := tried_leave hopen harg hactive e n
      · obtain rfl := Cell.live.inj (htried.symm.trans hlive')
        rcases hn with ⟨hcallback, rfl⟩ | ⟨hcallback, rfl, hlimit, -⟩
        · simp only [pollsAfter, hcallback]
          exact ⟨hn', hzero⟩
        · rw [hretries, u8_succ hlt] at hn' hlimit
          simp only [pollsAfter, hcallback]
          exact ⟨hn', by omega⟩
      · cases hnull.symm.trans htried

/-- A poll below the limit closes the connection only at the end of the file. -/
theorem Reaction.not_closedIdle {c' : Ctx σ} {e : Call} (h : Reaction site e c hs c')
    (hopen : c.pcb.status = .opened) (harg : c.pcb.callbackArg = .state hs.addr)
    (hactive : Active site c.pcb hs) (hcallback : e.callback = .poll)
    (hlimit : Machine.u8 (hs.retries + 1) ≠ maxRetries) : ¬ClosedIdle c c' := by
  rintro ⟨⟨err, hclosed⟩, heof⟩
  cases h with
  | torn acts htears => exact hlimit (by simpa [TearsDown, hcallback] using htears)
  | arrives p hrecv | ignores p hrecv => exact Callback.noConfusion (hcallback.symm.trans hrecv)
  | counts _ _ _ heq =>
      have hsame : newActions c c' = [] := newActions_eq (by rw [heq]; exact (List.append_nil _).symm)
      rw [hsame] at hclosed
      cases hclosed
  | sends n hn heq =>
      obtain ⟨acts, htrace, hout⟩ := tried_leave hopen harg hactive e n
      have hadds : newActions c c' = acts ∨ newActions c c' = acts ++ [.output] := by
        rcases heq with rfl | rfl
        · exact Or.inl (newActions_eq htrace)
        · right
          apply newActions_eq
          rw [← List.append_assoc, ← htrace]
          rfl
      have hmem : ∀ {a}, a ∈ newActions c c' → a ∈ acts ∨ a = .output := by
        intro a ha
        rcases hadds with hsame | hsame
        · exact Or.inl (hsame ▸ ha)
        · rw [hsame, List.mem_append, List.mem_singleton] at ha
          exact ha
      rcases hout with ⟨hsending, -⟩ | ⟨-, hend⟩
      · rcases hmem hclosed with hacts | hout
        · exact absurd (hsending _ hacts) (by simp [Action.isSending])
        · cases hout
      · apply heof
        rcases hadds with hsame | hsame
        · rw [hsame]
          exact hend
        · rw [hsame]
          exact List.mem_append_left _ hend

end Calls

namespace Watched

variable {site : Site σ} {i : Nat}

/-- The counter of an open connection counts the polls, and is below the limit. -/
structure Counted (site : Site σ) (i : Nat) (w : Watched σ) : Prop where
  linked : Linked site i w.ctx
  retries : w.ctx.pcb.status = .opened → ∀ hs, w.ctx.cell = .live hs →
    hs.retries = w.polls ∧ w.polls < maxRetries

theorem accept_counted (site : Site σ) (o : Oracle) (i addr : Nat) (sys : Sys σ) :
    Counted site i (accept o i addr sys) where
  linked := accept_linked site o i addr sys
  retries _ hs hlive := by
    rw [accept, accept_eq] at hlive
    split at hlive
    · obtain rfl : _ = hs := by simpa using hlive
      exact ⟨rfl, (by decide : 0 < maxRetries)⟩
    · cases hlive

theorem Counted.step {w : Watched σ} (h : Counted site i w) (e : ConnEvent σ) :
    Counted site i (w.step site e) := by
  have hmoves := connStep_moves_free h.linked e
  refine ⟨(hmoves.invariant (I := fun _ => True) (fun _ _ _ _ _ => trivial) h.linked trivial).1, ?_⟩
  intro hopened hs' hlive
  cases e with
  | others sys => exact h.retries hopened hs' hlive
  | call e =>
      cases h.linked with
      | @active hs hopen hcell harg hself hactive =>
          obtain ⟨hretries, hlt⟩ := h.retries hopen _ hcell
          exact (reaction hcell hopen harg hactive e).counted hcell hopen harg hactive hretries hlt
            hlive
      | closing hopen hcell =>
          exact absurd hlive (hmoves.not_live (by simp [hcell]) hs')
      | ended hended hcell =>
          exact absurd hlive (hmoves.not_live hcell hs')

theorem counted_run (site : Site σ) (o : Oracle) (i addr : Nat) (sys : Sys σ)
    (es : List (ConnEvent σ)) :
    Counted site i (Run.run (step site) (accept o i addr sys) es) :=
  Run.invariant_of_step (fun _ e h => h.step e) (accept_counted site o i addr sys) es

/-- The state of an open connection and its poll are those of the limit, or the poll is below
it. -/
theorem Counted.active {w : Watched σ} (h : Counted site i w) (hopen : w.ctx.pcb.status = .opened)
    {hs : HttpState} (hcell : w.ctx.cell = .live hs) :
    w.ctx.pcb.callbackArg = .state hs.addr ∧ Active site w.ctx.pcb hs ∧
      (Machine.u8 (hs.retries + 1) = maxRetries ↔ w.polls + 1 = maxRetries) := by
  obtain ⟨hretries, hlt⟩ := h.retries hopen hs hcell
  cases h.linked with
  | @active hs' _ hcell' harg _ hactive =>
      obtain rfl : hs' = hs := by simpa using hcell'.symm.trans hcell
      rw [hretries, u8_succ hlt]
      exact ⟨harg, hactive, Iff.rfl⟩
  | closing _ hnull => cases hnull.symm.trans hcell
  | ended hended => exact absurd hopen hended

theorem Counted.onTime {w : Watched σ} (h : Counted site i w) : OnTime site w where
  counted hopen hs hcell := by
    obtain ⟨hretries, hlt⟩ := h.retries hopen hs hcell
    exact ⟨hretries, hretries ▸ hlt⟩
  closes hopen hs hcell e hcallback := by
    obtain ⟨harg, hactive, hlimit⟩ := h.active hopen hcell
    have hstep : connStep site w.ctx (.call e) = (w.ctx.call site e).leave := if_pos hopen
    rw [← hlimit]
    constructor
    · intro hclosed
      by_contra hbelow
      exact (reaction hcell hopen harg hactive e).not_closedIdle hopen harg hactive hcallback hbelow
        hclosed
    · intro hreached
      -- the limit is reached: the callback closes without sending
      have htrace : (w.ctx.call site e).leave.pcb.trace =
          w.ctx.pcb.trace ++ (hs.releases ++ [.closed e.oracle.close]) := by
        rw [poll_leave_limit e hcallback hcell hopen hreached]
        simp [Ctx.closed, Pcb.shut, Ctx.window]
      have hreleases : Action.eof ∉ hs.releases := fun hmem =>
        absurd (HttpState.releases_quiet hs _ hmem) (by simp [Action.isQuiet])
      rw [ClosedIdle, hstep, newActions_eq htrace]
      exact ⟨⟨e.oracle.close, by simp⟩, by simp [hreleases]⟩
  closed hopen hs hcell e hcallback hpolls := by
    obtain ⟨-, -, hlimit⟩ := h.active hopen hcell
    have hstep : connStep site w.ctx (.call e) = (w.ctx.call site e).leave := if_pos hopen
    rw [hstep, poll_leave_limit e hcallback hcell hopen (hlimit.mpr hpolls)]
    exact ⟨rfl, rfl⟩
  retried hopen hcell e hcallback := by
    have hcall : w.ctx.call site e = (httpPoll site e.oracle (w.ctx.window e)).2 := by
      simp only [Ctx.call, hcallback]
    rw [connStep, if_pos hopen, Ctx.leave_pcb, hcall]
    have hends : (httpPoll site e.oracle (w.ctx.window e)).2.pcb.status = .closed ∨
        (httpPoll site e.oracle (w.ctx.window e)).2.pcb.status = .aborted :=
      httpPoll_null_ends hcell hopen
    rcases hends with hclosed | haborted
    · simp [hclosed]
    · simp [haborted]

/-- Whatever callbacks come in whatever order, an idle connection is closed on time. -/
theorem idle_closed_on_time (site : Site σ) (o : Oracle) (i addr : Nat) (sys : Sys σ)
    (es : List (ConnEvent σ)) : OnTime site (Run.run (step site) (accept o i addr sys) es) :=
  (counted_run site o i addr sys es).onTime

end Watched

end Meu1oARM
