import Meu1oARM.Httpd.Linked

/-! # All connections at once

A callback of one connection changes what the others share, and nothing else of
them. So every run of the server is, for each connection, a run of its own, and
what holds along those holds for the server.
-/

namespace Meu1oARM

variable {σ : Type} {site : Site σ}

/-- A callback leaves its argument in place or takes it back. -/
theorem Move.callbackArg {keep : Prop} {c c' : Ctx σ} (h : Move site keep c c') :
    c'.pcb.callbackArg = c.pcb.callbackArg ∨ c'.pcb.callbackArg = .null := by
  cases h with
  | send hcell hsends => exact Or.inl hsends.callbackArg_eq
  | close | finish | closeNull => exact Or.inr rfl
  | _ => exact Or.inl rfl

theorem Moves.callbackArg {keep : Prop} {c c' : Ctx σ} (h : Moves site keep c c') :
    c'.pcb.callbackArg = c.pcb.callbackArg ∨ c'.pcb.callbackArg = .null := by
  induction h with
  | refl => exact Or.inl rfl
  | tail _ hstep ih =>
      rcases hstep.callbackArg with heq | hnull
      · rw [heq]
        exact ih
      · exact Or.inr hnull

/-- A connection that has been accepted is not forgotten. -/
theorem Move.present {keep : Prop} {c c' : Ctx σ} (h : Move site keep c c')
    (hpresent : c.pcb.status ≠ .absent) : c'.pcb.status ≠ .absent := by
  cases h with
  | send hcell hsends =>
      rw [hsends.status_eq]
      exact hpresent
  | close hcell hkeep o | finish hcell hkeep hleft o | closeNull hopen hcell o =>
      cases hfails : o.closeFails <;> simp [Ctx.closed, Pcb.shut, hfails]
  | reset | abortNull | resetNull => exact PcbStatus.noConfusion
  | _ => exact hpresent

theorem Moves.present {keep : Prop} {c c' : Ctx σ} (h : Moves site keep c c')
    (hpresent : c.pcb.status ≠ .absent) : c'.pcb.status ≠ .absent := by
  induction h with
  | refl => exact hpresent
  | tail _ hstep ih => exact hstep.present ih

theorem Ctx.leave_pcb (c : Ctx σ) : c.leave.pcb = c.pcb := by
  unfold Ctx.leave
  split <;> rfl

/-- The accept callback registers a fresh state, or lwIP aborts the connection. -/
theorem accept_eq (o : Oracle) (self addr : Nat) (sys : Sys σ) :
    Ctx.accept o self addr sys =
      if o.stateAlloc then
        { sys
          cell := .live { httpStateInit with addr := addr, pcb := self }
          pcb := { Pcb.fresh with
            callbackArg := .state addr, recv := true, errf := true, poll := true, sent := true
            trace := [.alloc (.state addr)] } }
      else
        { sys, cell := .null, pcb := { Pcb.fresh with status := .aborted, trace := [.aborted] } } := by
  cases halloc : o.stateAlloc <;>
    simp [Ctx.accept, httpAccept, httpStateAlloc, halloc, Pcb.fresh, tcpAbort, tcpArg, tcpRecv,
      tcpErr, tcpPoll, tcpSent, Pcb.touch, Ctx.log, Pcb.log]

theorem accept_linked (site : Site σ) (o : Oracle) (self addr : Nat) (sys : Sys σ) :
    Linked site self (Ctx.accept o self addr sys) := by
  rw [accept_eq]
  split
  · refine .active rfl rfl rfl rfl ⟨by simp, Or.inl ⟨⟨rfl, rfl, rfl, rfl⟩, ?_⟩⟩
    exact ⟨rfl, rfl, rfl⟩
  · exact .ended nofun nofun (Or.inl ⟨rfl, rfl⟩)

namespace World

/-- Every connection is linked, and the allocator has never handed out what it will hand out. -/
structure Ok (site : Site σ) (w : World σ) : Prop where
  linked : ∀ i, Linked site i (w.view i)
  fresh : ∀ i a, (w.pcbs i).callbackArg = .state a → a < w.nextHs

theorem init_ok (site : Site σ) (sys : Sys σ) : Ok site (init sys) where
  linked _ := .ended nofun nofun (Or.inl ⟨rfl, rfl⟩)
  fresh _ _ := nofun

variable {w : World σ} {i : Nat}

/-- The connection itself after a callback. -/
theorem view_put_self {c' : Ctx σ}
    (harg : c'.pcb.callbackArg = (w.pcbs i).callbackArg ∨ c'.pcb.callbackArg = .null) :
    (w.put i c').view i = c'.leave := by
  obtain ⟨pcb, cell, sys⟩ := c'
  cases hnew : pcb.callbackArg with
  | null => simp [view, put, deref, Ctx.leave, hnew]
  | listen => simp [view, put, deref, Ctx.leave, hnew]
  | state a =>
      have hold : (w.pcbs i).callbackArg = .state a := by
        rcases harg with heq | hnull
        · rw [← heq, hnew]
        · exact Arg.noConfusion (hnew.symm.trans hnull)
      simp [view, put, deref, store, Ctx.leave, hnew, hold]

/-- Two connections do not share a state. -/
theorem Ok.callbackArg_ne (h : Ok site w) {j a : Nat} (hij : i ≠ j)
    (hopen : (w.pcbs i).status = .opened) (hi : (w.pcbs i).callbackArg = .state a) :
    (w.pcbs j).callbackArg ≠ .state a := by
  intro hj
  have hviewi : (w.view i).cell = w.heap a := by simp [view, deref, hi]
  have hviewj : (w.view j).cell = w.heap a := by simp [view, deref, hj]
  cases h.linked i with
  | ended hended => exact hended hopen
  | closing _ _ harg => exact absurd (hi.symm.trans harg) nofun
  | @active hs _ hcell _ hself _ =>
      have hheap : (w.view j).cell = .live hs := hviewj.trans (hviewi.symm.trans hcell)
      cases h.linked j with
      | ended _ hdead => exact hdead hs hheap
      | closing _ hnull => exact absurd (hnull.symm.trans hheap) nofun
      | @active hs' _ hcell' _ hself' _ =>
          obtain rfl : hs = hs' := by simpa using hheap.symm.trans hcell'
          exact hij (hself.symm.trans hself')

/-- The other connections after a callback. -/
theorem Ok.view_put_other (h : Ok site w) {j : Nat} (hij : i ≠ j)
    (hopen : (w.pcbs i).status = .opened) (c' : Ctx σ) :
    (w.put i c').view j = { w.view j with sys := c'.sys } := by
  have hji : j ≠ i := hij.symm
  cases hj : (w.pcbs j).callbackArg with
  | null => simp [view, put, deref, hji, hj]
  | listen => simp [view, put, deref, hji, hj]
  | state b =>
      cases hi : (w.pcbs i).callbackArg with
      | null => simp [view, put, deref, store, hji, hj, hi]
      | listen => simp [view, put, deref, store, hji, hj, hi]
      | state a =>
          have hne : b ≠ a := fun heq => h.callbackArg_ne hij hopen hi (heq ▸ hj)
          simp [view, put, deref, store, hji, hj, hi, hne]

/-- What an event of the server is for one of the connections. -/
def project (site : Site σ) (w : World σ) (i : Nat) (e : WorldEvent σ) : ConnEvent σ :=
  match e with
  | .call j e => if j = i then .call e else .others (w.step site (.call j e)).sys
  | e => .others (w.step site e).sys

/-- A connection that is not being accepted sees an event of the server as one of its own. -/
theorem Ok.view_step (h : Ok site w) (e : WorldEvent σ)
    (haccept : ∀ o, e = .accept i o → (w.pcbs i).status ≠ .absent) :
    (w.step site e).view i = connStep site (w.view i) (project site w i e) := by
  cases e with
  | app app => rfl
  | accept j o =>
      simp only [project, connStep, step]
      split
      next habsent =>
        have hij : i ≠ j := by
          rintro rfl
          exact haccept o rfl habsent
        cases hi : (w.pcbs i).callbackArg with
        | null => simp [view, deref, hij, hi]
        | listen => simp [view, deref, hij, hi]
        | state a =>
            -- the new state has an address of its own
            have hne : a ≠ w.nextHs := Nat.ne_of_lt (h.fresh i a hi)
            simp [view, deref, store, hij, hi, hne]
      next => rfl
  | call j e =>
      simp only [project]
      split
      next hij =>
        -- the callback of the connection itself
        subst hij
        simp only [connStep, step]
        by_cases hopen : (w.pcbs j).status = .opened
        · have hopen' : (w.view j).pcb.status = .opened := hopen
          rw [if_pos hopen, if_pos hopen']
          have hmoves := connStep_moves_free (h.linked j) (.call e)
          simp only [connStep, if_pos hopen'] at hmoves
          have harg := hmoves.callbackArg
          rw [Ctx.leave_pcb] at harg
          exact view_put_self harg
        · have hopen' : ¬ (w.view j).pcb.status = .opened := hopen
          rw [if_neg hopen, if_neg hopen']
      next hij =>
        simp only [connStep, step]
        split
        next hopen => exact h.view_put_other hij hopen _
        next => rfl

/-- A connection that has been accepted. -/
theorem view_accept (site : Site σ) (o : Oracle) (habsent : (w.pcbs i).status = .absent) :
    (w.step site (.accept i o)).view i = Ctx.accept o i w.nextHs w.sys := by
  simp only [step, if_pos habsent, accept_eq]
  split <;> simp [view, deref, store, Pcb.fresh]

theorem Ok.linked_step (h : Ok site w) (e : WorldEvent σ) (i : Nat) :
    Linked site i ((w.step site e).view i) := by
  by_cases haccept : ∀ o, e = .accept i o → (w.pcbs i).status ≠ .absent
  · rw [h.view_step e haccept]
    exact ((connStep_moves_free (h.linked i) _).invariant
      (I := fun _ => True) (fun _ _ _ _ _ => trivial) (h.linked i) trivial).1
  · simp only [not_forall, ne_eq, not_not] at haccept
    obtain ⟨o, rfl, habsent⟩ := haccept
    rw [view_accept site o habsent]
    exact accept_linked site o i w.nextHs w.sys

theorem Ok.callbackArg_step (h : Ok site w) (e : WorldEvent σ) {i a : Nat}
    (harg : ((w.step site e).pcbs i).callbackArg = .state a) : a < (w.step site e).nextHs := by
  have hmono : w.nextHs ≤ (w.step site e).nextHs := by
    cases e with
    | accept j o =>
        simp only [step]
        split
        · exact Nat.le_succ _
        · exact Nat.le_refl _
    | call j e =>
        simp only [step]
        split <;> exact Nat.le_refl _
    | app app => exact Nat.le_refl _
  by_cases haccept : ∀ o, e = .accept i o → (w.pcbs i).status ≠ .absent
  · have hview := h.view_step e haccept
    have hold := (connStep_moves_free (h.linked i) (project site w i e)).callbackArg
    rw [← hview] at hold
    rcases hold with heq | hnull
    · have hlt : a < w.nextHs := h.fresh i a (heq.symm.trans harg)
      omega
    · exact absurd (harg.symm.trans hnull) nofun
  · simp only [not_forall, ne_eq, not_not] at haccept
    obtain ⟨o, rfl, habsent⟩ := haccept
    have hview := congrArg (fun c => c.pcb.callbackArg) (view_accept site o habsent)
    have haccepted : (Ctx.accept o i w.nextHs w.sys).pcb.callbackArg = .state a :=
      hview.symm.trans harg
    have hnext : (w.step site (.accept i o)).nextHs = w.nextHs + 1 := by
      simp only [step, if_pos habsent]
    rw [accept_eq] at haccepted
    split at haccepted
    · obtain rfl : w.nextHs = a := by simpa using haccepted
      omega
    · simp [Pcb.fresh] at haccepted

theorem Ok.step (h : Ok site w) (e : WorldEvent σ) : Ok site (w.step site e) :=
  ⟨h.linked_step e, fun _ _ harg => h.callbackArg_step e harg⟩

theorem run_ok (site : Site σ) (sys : Sys σ) (es : List (WorldEvent σ)) :
    Ok site (Run.run (World.step site) (init sys) es) :=
  Run.invariant_of_step (fun _ e h => h.step e) (init_ok site sys) es

theorem Ok.present_step (h : Ok site w) (e : WorldEvent σ) {i : Nat}
    (hpresent : (w.pcbs i).status ≠ .absent) : ((w.step site e).pcbs i).status ≠ .absent := by
  have hview := h.view_step (i := i) e fun _ _ => hpresent
  have hmoves := connStep_moves_free (h.linked i) (project site w i e)
  rw [← hview] at hmoves
  exact hmoves.present hpresent

/-- Every run of the server is, for each of its connections, a run of its own. -/
theorem Ok.run_view (h : Ok site w) {i : Nat} (hpresent : (w.pcbs i).status ≠ .absent)
    (es : List (WorldEvent σ)) :
    ∃ fs : List (ConnEvent σ),
      fs.filterMap ConnEvent.asCall = es.filterMap (WorldEvent.callOf i) ∧
        (Run.run (World.step site) w es).view i = Run.run (connStep site) (w.view i) fs := by
  induction es generalizing w with
  | nil => exact ⟨[], rfl, rfl⟩
  | cons e es ih =>
      obtain ⟨fs, hcalls, hrun⟩ := ih (h.step e) (h.present_step e hpresent)
      refine ⟨project site w i e :: fs, ?_, ?_⟩
      · have hcall : ConnEvent.asCall (project site w i e) = WorldEvent.callOf i e := by
          cases e with
          | call j e =>
              simp only [project, WorldEvent.callOf]
              split <;> rfl
          | accept | app => rfl
        rw [List.filterMap_cons, List.filterMap_cons, hcall, hcalls]
      · rw [Run.run_cons, Run.run_cons, hrun, h.view_step e fun _ _ => hpresent]

/-- What holds of a connection that is accepted, and is kept by every step, holds of every
connection of the server at all times. -/
theorem run_step_invariant {I : Nat → Ctx σ → Prop}
    (hinit : ∀ i sys, I i ((init sys).view i))
    (haccept : ∀ i o addr sys, I i (Ctx.accept o i addr sys))
    (hstep : ∀ i c e, Linked site i c → I i c → I i (connStep site c e))
    (sys : Sys σ) (es : List (WorldEvent σ)) (i : Nat) :
    I i ((Run.run (World.step site) (init sys) es).view i) := by
  have hinv : ∀ w e, (Ok site w ∧ ∀ i, I i (w.view i)) →
      Ok site (w.step site e) ∧ ∀ i, I i ((w.step site e).view i) := by
    rintro w e ⟨hok, hI⟩
    refine ⟨hok.step e, fun i => ?_⟩
    by_cases hnew : ∀ o, e = .accept i o → (w.pcbs i).status ≠ .absent
    · rw [hok.view_step e hnew]
      exact hstep i _ _ (hok.linked i) (hI i)
    · simp only [not_forall, ne_eq, not_not] at hnew
      obtain ⟨o, rfl, habsent⟩ := hnew
      rw [view_accept site o habsent]
      exact haccept i o w.nextHs w.sys
  exact (Run.invariant_of_step hinv ⟨init_ok site sys, fun i => hinit i sys⟩ es).2 i

/-- The same for what is kept by every move. -/
theorem run_invariant {I : Nat → Ctx σ → Prop}
    (hinit : ∀ i sys, I i ((init sys).view i))
    (haccept : ∀ i o addr sys, I i (Ctx.accept o i addr sys))
    (hmove : ∀ i c c', Linked site i c → I i c → Move site False c c' → I i c')
    (sys : Sys σ) (es : List (WorldEvent σ)) (i : Nat) :
    I i ((Run.run (World.step site) (init sys) es).view i) := by
  refine run_step_invariant hinit haccept (fun i c e hlinked hI => ?_) sys es i
  exact ((connStep_moves_free hlinked e).invariant (fun c c' => hmove i c c') hlinked hI).2

end World

/-- Connection `i` of a server that has gone through the events `es`. -/
def World.connection (site : Site σ) (sys : Sys σ) (es : List (WorldEvent σ)) (i : Nat) : Ctx σ :=
  (Run.run (World.step site) (World.init sys) es).view i

section Connection

variable (site : Site σ) (sys : Sys σ) (es : List (WorldEvent σ)) (i : Nat)

theorem connection_linked : Linked site i (World.connection site sys es i) :=
  (World.run_ok site sys es).linked i

/-- No connection ever accesses what is gone, nor fails the assertion of `http_check_eof`. -/
theorem connection_regular :
    ∀ a ∈ (World.connection site sys es i).pcb.trace, a.isRegular := by
  refine World.run_invariant (I := fun _ c => ∀ a ∈ c.pcb.trace, a.isRegular) ?_ ?_ ?_ sys es i
  · exact fun _ _ => nofun
  · intro i o addr sys
    rw [accept_eq]
    split <;> simp [Action.isRegular]
  · intro i c c' _ hregular hmove
    obtain ⟨acts, htrace, hacts⟩ := hmove.trace
    rw [htrace]
    intro a ha
    rcases List.mem_append.mp ha with hmem | hmem
    exacts [hregular a hmem, hacts a hmem]

end Connection

/-! ## A server to try things on -/

section Trial

open CString

/-- lwIP takes everything, and every allocation succeeds. -/
def Oracle.willing : Oracle where
  write := fun _ => .ok
  queuelen := fun _ => 0
  closeFails := false
  stateAlloc := true
  ssiAlloc := true
  slack := fun _ => 0

/-- Nothing can be enqueued, not even a FIN. -/
def Oracle.starved : Oracle :=
  { Oracle.willing with write := fun _ => .mem, closeFails := true }

def Call.under (callback : Callback) (o : Oracle) (sndBuf : UInt16) : Call where
  callback := callback
  oracle := o
  sndBuf := sndBuf
  sndQueuelen := 0
  mss := 1460

/-- Data that arrives in one buffer. -/
def Delivery.single (xs : List UInt8) (h : xs.length ≤ tcpWnd) : Delivery where
  payloads := [xs]
  size_le := by simpa using h
  count_le := (by decide : 1 ≤ pbufPoolSize)

/-- Data that arrives in one buffer while the send buffer has `sndBuf` bytes left. -/
def Call.data (o : Oracle) (sndBuf : UInt16) (xs : List UInt8) (h : xs.length ≤ tcpWnd) : Call :=
  .under (.recv (.single xs h) .ok) o sndBuf

/-- The null pointer, with which TCP says that the peer has closed. -/
def Delivery.null : Delivery where
  payloads := []
  size_le := by decide
  count_le := by decide

/-- A page with a tag between two characters, one that ends in a tag, and one without tags. -/
def trialRoot : List FsdataFile :=
  [ { name := chars "/a.ssi", data := chars "x<!--#t-->y", size_lt := by decide
      httpHeaderIncluded := true },
    { name := chars "/b.ssi", data := chars "x<!--#t-->", size_lt := by decide
      httpHeaderIncluded := true },
    { name := chars "/c.htm", data := chars "plain text", size_lt := by decide
      httpHeaderIncluded := true } ]

def trialSite : Site Unit where
  root := trialRoot
  cgis := []
  tags := []
  ssiHandler := fun _ _ => { mem := fun _ => 0, len := 0, len_le := by decide }

def trialSys : Sys Unit := ⟨fun _ => 0, ()⟩

end Trial

end Meu1oARM
