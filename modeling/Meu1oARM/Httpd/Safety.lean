import Meu1oARM.Httpd.Receive

/-! # No use after free

Whatever the callbacks of all connections do and in whatever order they come, a
control block points to a state of its own or to none, no state is freed twice or
accessed after that, and no control block is accessed after lwIP has taken it back.
-/

namespace Meu1oARM

variable {σ : Type} {site : Site σ} {keep : Prop} {base self : Nat} {c c' : Ctx σ}

/-! ## What a poll does -/

/-- A connection with a state is polled without being aborted. -/
theorem httpPoll_live {hs : HttpState} {o : Oracle} (hcell : c.cell = .live hs)
    (hopen : c.pcb.status = .opened) (hactive : Active site c.pcb hs) :
    (httpPoll site o c).1 = .ok ∧
      ∃ acts, (httpPoll site o c).2.pcb.trace = c.pcb.trace ++ acts ∧ .aborted ∉ acts := by
  have hclosing : ∀ hs' : HttpState, Action.aborted ∉ hs'.releases ++ [.closed o.close] := by
    intro hs'
    cases hssi : hs'.ssi <;> simp [HttpState.releases, hssi]
  simp only [httpPoll, hcell, Ctx.hs_of_live hcell, Ctx.setHs_of_live hcell]
  generalize Machine.u8 (hs.retries + 1) = n
  split
  next =>
    rw [httpCloseConn_live (c := { c with cell := .live { hs with retries := n } }) rfl hopen]
    exact ⟨rfl, _, List.append_assoc .., hclosing _⟩
  next =>
    split
    next =>
      obtain ⟨pcb', hs', _, hsends, _, hsent⟩ :=
        httpSend_moves (o := o) (c := { c with cell := .live { hs with retries := n } }) False rfl
          hopen (hactive.retries n)
      obtain ⟨acts, hacts, htrace⟩ := hsends.trace_eq
      have hsending : Action.aborted ∉ acts := fun hmem => by
        simpa [Action.isSending] using hacts _ hmem
      have hopen' : pcb'.status = .opened := hsends.status_eq.trans hopen
      refine ⟨rfl, ?_⟩
      generalize httpSend site o { c with cell := .live { hs with retries := n } } = result
        at hsent
      obtain ⟨dataToSend, c'⟩ := result
      rcases hsent with hstay | ⟨_, hdone⟩
      · obtain rfl : c' = _ := hstay
        by_cases hdata : dataToSend ≠ 0
        · refine ⟨acts ++ [.output], ?_, by simp [hsending]⟩
          simp [if_pos hdata, tcpOutput, Pcb.touch_of_opened hopen', Pcb.log, htrace]
        · exact ⟨acts, by simp only [if_neg hdata, htrace], hsending⟩
      · obtain ⟨rfl, rfl⟩ : dataToSend = 0 ∧ c' = _ := by simpa using hdone
        refine ⟨acts ++ .eof :: (hs'.releases ++ [.closed o.close]), ?_, ?_⟩
        · simp [Ctx.closed, Pcb.shut, Ctx.log, Pcb.log, htrace]
        · simpa [hsending] using hclosing hs'
    next => exact ⟨rfl, [], by simp, List.not_mem_nil⟩

/-- `http_poll` answers `ERR_ABRT` exactly when it has aborted the connection. -/
theorem httpPoll_abrt_iff (hlinked : Linked site self c) (hopen : c.pcb.status = .opened)
    (o : Oracle) :
    (httpPoll site o c).1 = .abrt ↔
      .aborted ∈ (httpPoll site o c).2.pcb.trace.drop c.pcb.trace.length := by
  cases hlinked with
  | ended hended => exact absurd hopen hended
  | active _ hcell _ _ hactive =>
      obtain ⟨hok, acts, htrace, hnot⟩ := httpPoll_live (o := o) hcell hopen hactive
      simp [hok, htrace, hnot]
  | closing _ hcell =>
      rw [httpPoll_null hcell hopen]
      split <;> simp [Pcb.shut]

/-- A connection without a state is closed or aborted by the next poll. -/
theorem httpPoll_null_ends {o : Oracle} (hcell : c.cell = .null) (hopen : c.pcb.status = .opened) :
    (httpPoll site o c).2.pcb.status = .closed ∨ (httpPoll site o c).2.pcb.status = .aborted := by
  rw [httpPoll_null hcell hopen]
  split
  next => exact Or.inr rfl
  next hfails => exact Or.inl (by simp [Pcb.shut, hfails])

/-- A state is freed at most once by the connection that has allocated it. -/
theorem Accounted.count_free_le (h : Accounted False 0 c) (a : Nat) :
    c.pcb.trace.count (.free (.state a)) ≤ 1 := by
  rw [← count_released]
  by_cases hmem : .state a ∈ released c.pcb.trace
  · have hbalance := h.balance _ (h.released_obtained _ hmem nofun) nofun
    omega
  · rw [List.count_eq_zero.mpr hmem]
    exact Nat.zero_le 1

theorem Accounted.allocated_of_freed (h : Accounted False 0 c) {a : Nat}
    (hfreed : .free (.state a) ∈ c.pcb.trace) : .state a ∈ obtained c.pcb.trace :=
  h.released_obtained _ (List.mem_filterMap.mpr ⟨_, hfreed, rfl⟩) nofun

/-! ## Connections that have been closed -/

/-- No `tcp_close` precedes the end of a state. -/
def Unclosed (c : Ctx σ) : Prop :=
  ∀ hs, c.cell = .live hs → ∀ err, .closed err ∉ c.pcb.trace

theorem Move.unclosed (h : Move site keep c c') (hunclosed : Unclosed c) : Unclosed c' := by
  have hextend : ∀ {hs}, c.cell = .live hs → ∀ {acts}, (∀ err, .closed err ∉ acts) →
      c'.pcb.trace = c.pcb.trace ++ acts → Unclosed c' := by
    intro hs hcell acts hacts htrace _ _ err hmem
    rw [htrace, List.mem_append] at hmem
    exact hmem.elim (hunclosed hs hcell err) (hacts err)
  cases h with
  | window | share | ignore | resetNull => exact hunclosed
  | retries hcell n => exact hextend hcell (fun _ => List.not_mem_nil) (List.append_nil _).symm
  | drop xs =>
      intro hs hcell err hmem
      simp [freed, hunclosed hs hcell err] at hmem
  | output =>
      intro hs hcell err hmem
      simp [Ctx.log, Pcb.log, hunclosed hs hcell err] at hmem
  | queue hcell => exact hextend hcell (by simp [queued]) rfl
  | discard hcell => exact hextend hcell (by simp [queued, freed]) (List.append_assoc ..)
  | dispatch uri is09 hopen hcell hwaiting xs hfound =>
      have hopening := hfound.opens.isOpening
      refine hextend hcell (fun err hmem => ?_) (by rw [List.append_assoc, List.append_assoc])
      simp only [queued, freed, List.mem_append, List.mem_map, List.mem_cons, reduceCtorEq,
        and_false, exists_false, or_false, false_or] at hmem
      simpa [Action.isOpening] using hopening _ hmem
  | send hcell hsends =>
      obtain ⟨acts, hacts, htrace⟩ := hsends.trace_eq
      refine hextend hcell (fun err hmem => ?_) htrace
      simpa [Action.isSending] using hacts _ hmem
  | close | finish => exact fun hs hlive => absurd hlive (Cell.null_ne_live hs)
  | reset => exact fun hs hlive => absurd hlive (Cell.freed_ne_live hs)
  | closeNull hopen hcell | abortNull hopen hcell =>
      exact fun hs hlive => absurd (hcell.symm.trans hlive) (Cell.null_ne_live hs)

theorem World.init_accounted (i : Nat) (sys : Sys σ) :
    Accounted keep base ((World.init sys).view i) := by
  constructor <;> simp [World.init, World.view, World.deref, Pcb.fresh, held]

theorem accept_unclosed (o : Oracle) (self addr : Nat) (sys : Sys σ) :
    Unclosed (Ctx.accept o self addr sys) := by
  rw [accept_eq]
  split
  · simp [Unclosed]
  · exact fun _ => nofun

namespace World

variable {w : World σ}

/-! ## Who allocates a state -/

/-- The addresses of the states that connection `i` has allocated. -/
def Allocated (w : World σ) (i a : Nat) : Prop := .state a ∈ obtained (w.pcbs i).trace

/-- A state is allocated when a connection is accepted. -/
theorem Ok.allocated_step (h : Ok site w) (e : WorldEvent σ) {i a : Nat}
    (halloc : (w.step site e).Allocated i a) :
    w.Allocated i a ∨ ∃ o, e = .accept i o ∧ (w.pcbs i).status = .absent ∧ a = w.nextHs := by
  by_cases haccept : ∀ o, e = .accept i o → (w.pcbs i).status ≠ .absent
  · left
    have hmoves := connStep_moves_free (h.linked i) (project site w i e)
    rw [← h.view_step e haccept] at hmoves
    have hsame : ∀ c c' : Ctx σ, Moves site False c c' →
        .state a ∈ obtained c'.pcb.trace → .state a ∈ obtained c.pcb.trace := by
      intro c c' hmoves
      induction hmoves with
      | refl => exact id
      | tail _ hmove ih => exact fun hmem => ih (hmove.obtained_state.mp hmem)
    exact hsame _ _ hmoves halloc
  · right
    simp only [not_forall, ne_eq, not_not] at haccept
    obtain ⟨o, rfl, habsent⟩ := haccept
    have hview := view_accept site o habsent
    have hmem : .state a ∈ obtained (Ctx.accept o i w.nextHs w.sys).pcb.trace := by
      rw [← hview]
      exact halloc
    rw [obtained_accept] at hmem
    split at hmem
    · exact ⟨o, rfl, habsent, by simpa using hmem⟩
    · simp at hmem

/-- Every state has been allocated by one connection. -/
structure Owned (w : World σ) : Prop where
  below : ∀ i a, w.Allocated i a → a < w.nextHs
  unique : ∀ i j a, w.Allocated i a → w.Allocated j a → i = j

theorem nextHs_le_step (site : Site σ) (w : World σ) (e : WorldEvent σ) :
    w.nextHs ≤ (w.step site e).nextHs := by
  cases e with
  | accept j o =>
      simp only [step]
      split
      · exact Nat.le_succ _
      · exact Nat.le_refl _
  | call j e =>
      simp only [step]
      split <;> exact Nat.le_refl _
  | app app => exact Nat.le_refl _

theorem Owned.step (h : Owned w) (hok : Ok site w) (e : WorldEvent σ) :
    Owned (w.step site e) where
  below i a halloc := by
    rcases hok.allocated_step e halloc with hold | ⟨o, rfl, habsent, rfl⟩
    · exact Nat.lt_of_lt_of_le (h.below i a hold) (nextHs_le_step site w e)
    · simp only [World.step, if_pos habsent]
      exact Nat.lt_succ_self _
  unique i j a hi hj := by
    rcases hok.allocated_step e hi with hi | ⟨o, rfl, _, rfl⟩ <;>
      rcases hok.allocated_step _ hj with hj | ⟨o', he, _, hnew⟩
    · exact h.unique i j a hi hj
    · exact absurd (h.below i a hi) (by omega)
    · exact absurd (h.below j _ hj) (by omega)
    · cases he
      rfl

theorem run_owned (site : Site σ) (sys : Sys σ) (es : List (WorldEvent σ)) :
    Owned (Run.run (World.step site) (init sys) es) :=
  (Run.invariant_of_step (I := fun w => Ok site w ∧ Owned w)
    (fun _ e h => ⟨h.1.step e, h.2.step h.1 e⟩)
    ⟨init_ok site sys, ⟨fun _ _ => nofun, fun _ _ _ => nofun⟩⟩ es).2

/-! ## The safety of the server -/

/-- What holds of the server between callbacks. -/
structure Safe (site : Site σ) (w : World σ) : Prop where
  /-- An open control block points to nothing or to a state that points back. -/
  callbackArg : ∀ i, (w.pcbs i).status = .opened → (w.pcbs i).callbackArg = .null ∨
    ∃ a hs, (w.pcbs i).callbackArg = .state a ∧ w.heap a = .live hs ∧ hs.pcb = i
  /-- No state is freed twice, neither by one connection nor by two. -/
  freed_once : ∀ i a, (w.pcbs i).trace.count (.free (.state a)) ≤ 1
  freed_by_one : ∀ i j a, .free (.state a) ∈ (w.pcbs i).trace →
    .free (.state a) ∈ (w.pcbs j).trace → i = j
  /-- No state is accessed after it has been freed. -/
  no_freed_access : ∀ i, .fault .freedState ∉ (w.pcbs i).trace
  /-- No control block is accessed after lwIP has taken it back. -/
  no_closed_access : ∀ i, .fault .closedPcb ∉ (w.pcbs i).trace
  /-- A poll answers `ERR_ABRT` exactly when it aborts the connection. -/
  abrt_iff : ∀ i (e : Call), (w.pcbs i).status = .opened →
    ((httpPoll site e.oracle ((w.view i).window e)).1 = .abrt ↔
      .aborted ∈
        (httpPoll site e.oracle ((w.view i).window e)).2.pcb.trace.drop (w.pcbs i).trace.length)
  /-- A connection that could not be closed is polled, and closed or aborted by the next poll. -/
  close_failed : ∀ i err, (w.pcbs i).status = .opened → .closed err ∈ (w.pcbs i).trace →
    (w.pcbs i).callbackArg = .null ∧ (w.pcbs i).poll = true ∧
      ∀ e : Call, e.callback = .poll →
        ((w.step site (.call i e)).pcbs i).status = .closed ∨
          ((w.step site (.call i e)).pcbs i).status = .aborted

/-- Every connection accounts for its states, and has not been closed while it has one. -/
theorem run_kept (site : Site σ) (sys : Sys σ) (es : List (WorldEvent σ)) (i : Nat) :
    Accounted False 0 (connection site sys es i) ∧ Unclosed (connection site sys es i) := by
  refine run_invariant (I := fun _ c => Accounted False 0 c ∧ Unclosed c) ?_ ?_ ?_ sys es i
  · intro i sys
    exact ⟨init_accounted i sys, fun _ => nofun⟩
  · exact fun i o addr sys => ⟨accept_accounted o i addr sys, accept_unclosed o i addr sys⟩
  · exact fun i c c' _ h hmove => ⟨hmove.accounted h.1, hmove.unclosed h.2⟩

theorem Ok.callbackArg (h : Ok site w) {i : Nat} (hopen : (w.pcbs i).status = .opened) :
    (w.pcbs i).callbackArg = .null ∨
      ∃ a hs, (w.pcbs i).callbackArg = .state a ∧ w.heap a = .live hs ∧ hs.pcb = i := by
  cases h.linked i with
  | ended hended => exact absurd hopen hended
  | closing _ _ harg => exact Or.inl harg
  | @active hs _ hcell harg hself _ =>
      have harg' : (w.pcbs i).callbackArg = .state hs.addr := harg
      have hheap : w.deref (w.pcbs i).callbackArg = .live hs := hcell
      rw [harg'] at hheap
      exact Or.inr ⟨hs.addr, hs, harg', hheap, hself⟩

/-- The server is safe after every run. -/
theorem run_safe (site : Site σ) (sys : Sys σ) (es : List (WorldEvent σ)) :
    Safe site (Run.run (World.step site) (init sys) es) := by
  have hok := run_ok site sys es
  have howned := run_owned site sys es
  have hkept := run_kept site sys es
  have hregular := connection_regular site sys es
  simp only [connection] at hkept hregular
  generalize Run.run (World.step site) (init sys) es = w at *
  refine {
    callbackArg := fun i => hok.callbackArg
    freed_once := fun i a => (hkept i).1.count_free_le a
    freed_by_one := fun i j a hi hj =>
      howned.unique i j a ((hkept i).1.allocated_of_freed hi) ((hkept j).1.allocated_of_freed hj)
    no_freed_access := fun i hmem => by simpa [Action.isRegular] using hregular i _ hmem
    no_closed_access := fun i hmem => by simpa [Action.isRegular] using hregular i _ hmem
    abrt_iff := fun i e hopen => ?_
    close_failed := fun i err hopen hclosed => ?_ }
  · have hmove : Move site False (w.view i) ((w.view i).window e) := .window _ e
    exact httpPoll_abrt_iff (hmove.linked (hok.linked i)) hopen e.oracle
  · cases hok.linked i with
    | ended hended => exact absurd hopen hended
    | active _ hcell => exact absurd hclosed ((hkept i).2 _ hcell err)
    | closing _ hcell harg hpoll =>
        refine ⟨harg, hpoll, fun e hcallback => ?_⟩
        have hstep : ((w.step site (.call i e)).pcbs i) =
            (httpPoll site e.oracle ((w.view i).window e)).2.pcb := by
          simp [World.step, hopen, put, Ctx.call, hcallback]
        rw [hstep]
        exact httpPoll_null_ends hcell hopen

end World

end Meu1oARM
