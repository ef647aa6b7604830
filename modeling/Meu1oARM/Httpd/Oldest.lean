import Meu1oARM.Httpd.Listed

/-! # Which connection is aborted

When an allocation fails, the oldest of the other connections is to be aborted. The
search goes on to the newest one, and it never considers the first of the list.
-/

namespace Meu1oARM

open LinkedList

variable {σ : Type} {site : Site σ} {c c' : Ctx σ} {hs : HttpState}

/-! ## Who asks for an `http_ssi_state` -/

/-- If there is a state, it serves a file. -/
def Served (c : Ctx σ) : Prop := ∀ hs, c.cell = .live hs → hs.handle ≠ none

theorem sending_not_ssiAlloc {acts : List Action} (h : ∀ a ∈ acts, a.isSending = true) :
    ∀ a ∈ acts, a.isSsiAlloc = false := by
  intro a ha
  have hsending := h a ha
  cases a with
  | alloc r => simp [Action.isSending] at hsending
  | _ => rfl

theorem releases_not_ssiAlloc (hs : HttpState) : ∀ a ∈ hs.releases, a.isSsiAlloc = false := by
  cases hssi : hs.ssi <;> simp [HttpState.releases, hssi, Action.isSsiAlloc]

/-- A connection that serves a file goes on to do so, and asks for no `http_ssi_state`. -/
theorem Move.served {keep : Prop} (h : Move site keep c c') (hserved : Served c) :
    Served c' ∧ ∃ acts, c'.pcb.trace = c.pcb.trace ++ acts ∧ ∀ a ∈ acts, a.isSsiAlloc = false := by
  have hreleases := releases_not_ssiAlloc
  cases h with
  | window | share | ignore | resetNull => exact ⟨hserved, [], (List.append_nil _).symm, by simp⟩
  | retries hcell n =>
      have hhandle := hserved _ hcell
      refine ⟨fun hs' hlive => ?_, [], (List.append_nil _).symm, by simp⟩
      obtain rfl := Cell.live.inj hlive
      exact hhandle
  | drop xs => exact ⟨hserved, _, rfl, by simp [freed, Action.isSsiAlloc]⟩
  | output => exact ⟨hserved, _, rfl, by simp [Action.isSsiAlloc]⟩
  | queue hcell hwaiting | discard hcell hwaiting | dispatch _ _ _ hcell hwaiting =>
      exact absurd hwaiting.handle (hserved _ hcell)
  | send hcell hsends hsent =>
      have hhandle := hserved _ hcell
      obtain ⟨acts, hsending, htrace⟩ := hsends.trace_eq
      refine ⟨fun hs' hlive => ?_, acts, htrace, sending_not_ssiAlloc hsending⟩
      obtain rfl := Cell.live.inj hlive
      rw [hsent.1]
      exact hhandle
  | @close hs hcell hkeep o =>
      refine ⟨fun hs' hlive => Cell.noConfusion hlive, hs.releases ++ [.closed o.close],
        by simp [Ctx.closed, Pcb.shut], fun a ha => ?_⟩
      rcases List.mem_append.mp ha with hmem | hmem
      · exact hreleases hs a hmem
      · obtain rfl := List.mem_singleton.mp hmem
        rfl
  | @finish hs hcell hkeep hleft o =>
      refine ⟨fun hs' hlive => Cell.noConfusion hlive, .eof :: (hs.releases ++ [.closed o.close]),
        by simp [Ctx.closed, Pcb.shut, Ctx.log, Pcb.log], fun a ha => ?_⟩
      rcases List.mem_cons.mp ha with rfl | hmem
      · rfl
      · rcases List.mem_append.mp hmem with hmem | hmem
        · exact hreleases hs a hmem
        · obtain rfl := List.mem_singleton.mp hmem
          rfl
  | @reset hs => exact ⟨fun hs' hlive => Cell.noConfusion hlive, hs.releases, rfl, hreleases hs⟩
  | closeNull _ hnull o =>
      refine ⟨hserved, [.closed o.close], by simp [Pcb.shut], by simp [Action.isSsiAlloc]⟩
  | abortNull => exact ⟨hserved, _, rfl, by simp [Action.isSsiAlloc]⟩

theorem Moves.served {keep : Prop} (h : Moves site keep c c') (hserved : Served c) :
    Served c' ∧ ∃ acts, c'.pcb.trace = c.pcb.trace ++ acts ∧ ∀ a ∈ acts, a.isSsiAlloc = false := by
  induction h with
  | refl => exact ⟨hserved, [], (List.append_nil _).symm, by simp⟩
  | tail _ hmove ih =>
      obtain ⟨hserved', acts, htrace, hacts⟩ := ih
      obtain ⟨hserved'', more, htrace', hmore⟩ := hmove.served hserved'
      refine ⟨hserved'', acts ++ more, by rw [htrace', htrace, List.append_assoc], fun a ha => ?_⟩
      rcases List.mem_append.mp ha with hmem | hmem
      exacts [hacts a hmem, hmore a hmem]

/-- A callback that asks for an `http_ssi_state` belongs to a connection without one. -/
theorem ssi_none_of_asksSsi {i : Nat} (hlinked : Linked site i c) (hopen : c.pcb.status = .opened)
    (hcell : c.cell = .live hs) {e : Call} (hasks : e.asksSsi site c = true) : hs.ssi = none := by
  cases hlinked with
  | ended hended => exact absurd hopen hended
  | closing _ hnull => exact Cell.noConfusion (hnull.symm.trans hcell)
  | @active hs' _ hcell' harg hself hactive =>
      obtain rfl := Cell.live.inj (hcell.symm.trans hcell')
      rcases hactive.2 with ⟨hwaiting, -⟩ | ⟨f, is09, hserving, -⟩
      · exact hwaiting.ssi
      · have hserved : Served c := by
          intro hs' hlive
          obtain rfl := Cell.live.inj (hcell.symm.trans hlive)
          simp [hserving.handle]
        have hmoves := connStep_moves_free (.active hopen hcell' harg hself hactive)
          (.call (e.withSsi true))
        obtain ⟨-, acts, htrace, hacts⟩ := hmoves.served hserved
        simp only [connStep, if_pos hopen] at htrace
        rw [Ctx.leave_pcb] at htrace
        rw [Call.asksSsi, newActions_eq htrace, List.any_eq_true] at hasks
        obtain ⟨a, ha, halloc⟩ := hasks
        exact absurd halloc (by simp [hacts a ha])

/-- The first and the last of some elements are one, and it is not the first of all. -/
theorem getLast_tail_filter_iff {α : Type} {l : List α} (hnodup : l.Nodup) {p : α → Bool} {a : α}
    (hhead : (l.filter p).head? = some a) :
    (l.tail.filter p).getLast? = some a ↔ l.filter p = [a] ∧ l.head? ≠ some a := by
  cases l with
  | nil => simp at hhead
  | cons x t =>
      obtain ⟨hx, hnodup⟩ := List.nodup_cons.mp hnodup
      rw [List.tail_cons, List.head?_cons, List.filter_cons] at *
      by_cases hp : p x = true
      · rw [if_pos hp] at hhead ⊢
        obtain rfl : x = a := by simpa using hhead
        -- the first element is not considered
        refine iff_of_false (fun hlast => ?_) fun h => h.2 rfl
        exact hx (List.mem_of_mem_filter (List.mem_of_getLast? hlast))
      · rw [if_neg hp] at hhead ⊢
        have hmem : a ∈ t := List.mem_of_mem_filter (List.mem_of_head? hhead)
        have hne : some x ≠ some a := by
          rintro ⟨rfl⟩
          exact hx hmem
        have hfiltered := hnodup.filter p
        generalize t.filter p = m at hhead hfiltered ⊢
        cases m with
        | nil => simp at hhead
        | cons b m =>
            obtain rfl : b = a := by simpa using hhead
            obtain ⟨hb, -⟩ := List.nodup_cons.mp hfiltered
            constructor
            · intro hlast
              refine ⟨?_, hne⟩
              cases m with
              | nil => rfl
              | cons d m =>
                  rw [List.getLast?_cons_cons] at hlast
                  exact absurd (List.mem_of_getLast? hlast) hb
            · rintro ⟨hone, -⟩
              rw [hone]
              rfl

namespace Connections

variable {s s₁ s' : Connections σ} {i : Nat}

/-! ## What is to be aborted and what is -/

/-- The other states that may be freed for the sake of connection `i`, the least recently
accepted first. -/
def candidates (s : Connections σ) (i : Nat) (ssiRequired : Bool) : List Nat :=
  s.world.live.filter fun a =>
    (s.world.heap a).state.pcb ≠ i && mayFree s.world.heap ssiRequired a

/-- The allocation that fails in the event: for which connection, and whether it is one of an
`http_ssi_state`. -/
def exhausts (site : Site σ) (s : Connections σ) : Event σ → Option (Nat × Bool)
  | .accept i o _ =>
    if (s.world.pcbs i).status = .absent ∧ o.stateAlloc = false then some (i, false) else none
  | .call i e _ =>
    if (s.world.pcbs i).status = .opened ∧ e.asksSsi site (s.world.view i) = true ∧
        e.oracle.ssiAlloc = false then some (i, true)
    else none
  | .app _ => none

/-- The states whose connections have been aborted on the way from `s` to `s'`. -/
def aborted (s s' : Connections σ) : List Nat :=
  s.world.live.filter fun a => (s'.world.pcbs (s.world.heap a).state.pcb).status = .aborted

/-- When an allocation fails and there is a connection to abort for it, the oldest one is. -/
def SacrificesOldest (site : Site σ) (s : Connections σ) (e : Event σ) : Prop :=
  ∀ i ssiRequired a, s.exhausts site e = some (i, ssiRequired) →
    (s.candidates i ssiRequired).head? = some a → s.aborted (s.step site e) = [a]

/-- When an allocation fails and there is a connection to abort for it, there is one only, and
an older connection that is not. -/
def LoneCandidate (site : Site σ) (s : Connections σ) (e : Event σ) : Prop :=
  ∀ i ssiRequired a, s.exhausts site e = some (i, ssiRequired) →
    (s.candidates i ssiRequired).head? = some a →
      s.candidates i ssiRequired = [a] ∧ s.world.live.head? ≠ some a

theorem Sacrifice.aborted_eq {v : Option Nat} (h : Ok site s) (hsac : Sacrifice site v s s₁)
    (hv : ∀ a ∈ v, a ∈ s.world.live)
    (hsame : ∀ a hs, s.world.heap a = .live hs → ((s'.world.pcbs hs.pcb).status = .aborted ↔
      (s₁.world.pcbs hs.pcb).status = .aborted)) : s.aborted s' = v.toList := by
  have hiff : ∀ a ∈ s.world.live,
      decide ((s'.world.pcbs (s.world.heap a).state.pcb).status = .aborted) =
        decide (v = some a) := by
    intro a ha
    obtain ⟨hs, hlive⟩ := h.backed.mem_live.mp ha
    have hstate : (s.world.heap a).state = hs := by rw [hlive, Cell.state]
    rw [decide_eq_decide, hstate, hsame a hs hlive]
    constructor
    · intro haborted
      by_contra hne
      have hkept : s₁.world.pcbs hs.pcb = s.world.pcbs hs.pcb := by
        apply hsac.pcbs_eq
        intro b hb hpcb
        obtain ⟨hs', hlive'⟩ := h.backed.mem_live.mp (hv b hb)
        rw [hlive', Cell.state] at hpcb
        obtain rfl := h.backed.pcb_inj hlive' hlive hpcb
        exact hne hb
      rw [hkept, (h.backed.active hlive).1] at haborted
      exact PcbStatus.noConfusion haborted
    · rintro rfl
      have haborted := hsac.aborted a rfl
      rwa [hstate] at haborted
  rw [Connections.aborted, List.filter_congr hiff]
  cases v with
  | none => simp
  | some a =>
      have hcount := List.count_eq_one_of_mem s.world.live_nodup (hv a rfl)
      have hbeq : (fun b => decide (some a = some b)) = fun b => b == a := by
        funext b
        simp [eq_comm, beq_eq_decide]
      rw [hbeq, List.filter_beq, hcount]
      rfl

/-! ## The steps -/

theorem link_world (s : Connections σ) (a : Nat) : (s.link a).world = s.world := by
  unfold link
  dsimp only
  split <;> rfl

theorem aborted_of_none (h : Ok site s)
    (hsame : ∀ a hs, s.world.heap a = .live hs → (s'.world.pcbs hs.pcb).status ≠ .aborted) :
    s.aborted s' = [] := by
  refine h.spared.aborted_eq h (by simp) fun a hs hlive => ?_
  rw [(h.backed.active hlive).1]
  exact iff_of_false (hsame a hs hlive) PcbStatus.noConfusion

/-- A connection is accepted, after one has been aborted for it or not. -/
theorem Sacrifice.step_accept {v : Option Nat} (h : Ok site s) (hsac : Sacrifice site v s s₁)
    (hv : ∀ a ∈ v, a ∈ s.world.live) (habsent : (s.world.pcbs i).status = .absent) (o : Oracle) :
    Ok site { (if o.stateAlloc then s₁.link s₁.world.nextHs else s₁) with
        world := s₁.world.step site (.accept i o) } ∧
      s.aborted { (if o.stateAlloc then s₁.link s₁.world.nextHs else s₁) with
        world := s₁.world.step site (.accept i o) } = v.toList := by
  have hother : ∀ a hs, s.world.heap a = .live hs → hs.pcb ≠ i := by
    rintro a hs hlive rfl
    rw [(h.backed.active hlive).1] at habsent
    exact PcbStatus.noConfusion habsent
  have habsent' : (s₁.world.pcbs i).status = .absent := by
    rw [hsac.pcbs_eq, habsent]
    intro a ha hpcb
    obtain ⟨hs, hlive⟩ := h.backed.mem_live.mp (hv a ha)
    rw [hlive, Cell.state] at hpcb
    exact hother a hs hlive hpcb
  refine ⟨hsac.ok.accepted habsent' o, hsac.aborted_eq h hv fun a hs hlive => ?_⟩
  simp [World.step, habsent', hother a hs hlive]

/-- A callback, after another connection has been aborted for it or not. -/
theorem Sacrifice.step_call {v : Option Nat} (h : Ok site s) (hsac : Sacrifice site v s s₁)
    (hv : ∀ a ∈ v, a ∈ s.world.live) (hother : ∀ a ∈ v, (s.world.heap a).state.pcb ≠ i)
    (hopen : (s.world.pcbs i).status = .opened) (e : Call) :
    Ok site (s₁.settle i (s₁.world.step site (.call i e))) ∧
      s.aborted (s₁.settle i (s₁.world.step site (.call i e))) = v.toList := by
  have hpcb : s₁.world.pcbs i = s.world.pcbs i := hsac.pcbs_eq i hother
  have hopen' : (s₁.world.pcbs i).status = .opened := by rw [hpcb, hopen]
  have hworld : ∀ w, (s₁.settle i w).world = w := by
    intro w
    unfold settle
    split
    · split <;> rfl
    · rfl
  refine ⟨hsac.ok.settle hopen' e, hsac.aborted_eq h hv fun a hs hlive => ?_⟩
  rw [hworld]
  simp only [World.step, if_pos hopen', World.put]
  by_cases hself : hs.pcb = i
  · -- the connection of the callback itself
    subst hself
    have harg : (s₁.world.pcbs hs.pcb).callbackArg = .state a := by
      rw [hpcb]
      exact h.backed.owned a hs hlive
    rw [Function.update_self, hopen']
    refine iff_of_false ?_ PcbStatus.noConfusion
    cases hsac.ok.backed.call_stays hopen' harg e with
    | kept _ _ hopened =>
        rw [hopened]
        exact PcbStatus.noConfusion
    | lost _ hstatus => exact hstatus
  · rw [Function.update_of_ne hself]

/-- The states that may be freed belong to other connections. -/
theorem Ok.candidates_eq (h : Ok site s) {e : Event σ} {ssiRequired : Bool}
    (hexhausts : s.exhausts site e = some (i, ssiRequired)) :
    s.candidates i ssiRequired = s.world.live.filter (mayFree s.world.heap ssiRequired) := by
  apply List.filter_congr
  intro a ha
  obtain ⟨hs, hlive⟩ := h.backed.mem_live.mp ha
  have hother : mayFree s.world.heap ssiRequired a = true → hs.pcb ≠ i := by
    rintro hmay rfl
    obtain ⟨hopen, hcell, -⟩ := h.backed.active hlive
    cases e with
    | accept j o again =>
        simp only [exhausts, Option.ite_none_right_eq_some, Option.some.injEq, Prod.mk.injEq]
          at hexhausts
        obtain ⟨⟨habsent, -⟩, rfl, -⟩ := hexhausts
        rw [hopen] at habsent
        exact PcbStatus.noConfusion habsent
    | call j e again =>
        simp only [exhausts, Option.ite_none_right_eq_some, Option.some.injEq, Prod.mk.injEq]
          at hexhausts
        obtain ⟨⟨-, hasks, -⟩, rfl, rfl⟩ := hexhausts
        have hnone := ssi_none_of_asksSsi (h.backed.linked hs.pcb) hopen hcell hasks
        simp [mayFree, hlive, Cell.state, hnone] at hmay
    | app => simp [exhausts] at hexhausts
  rw [hlive, Cell.state]
  cases hmay : mayFree s.world.heap ssiRequired a with
  | true => simp [hother hmay]
  | false => simp

/-- An event keeps the list. If an allocation fails in it, the last connection behind the first
that may be is aborted. -/
theorem Ok.step (h : Ok site s) (e : Event σ) :
    Ok site (s.step site e) ∧ s.aborted (s.step site e) =
      ((s.exhausts site e).bind fun x => s.victim x.2).toList := by
  have hmem : ∀ ssiRequired, ∀ a ∈ s.victim ssiRequired, a ∈ s.world.live :=
    fun _ a ha => List.mem_of_mem_tail (victim_mem ha).1
  cases e with
  | accept i o again =>
      by_cases habsent : (s.world.pcbs i).status = .absent
      · cases halloc : o.stateAlloc with
        | true =>
            have hstep := h.spared.step_accept h (by simp) habsent { o with stateAlloc := true }
            simpa [Connections.step, httpStateAlloc, exhausts, habsent, halloc, link_world]
              using hstep
        | false =>
            have hstep := (h.kill o false).step_accept h (hmem false) habsent
              { o with stateAlloc := again }
            cases again <;>
              simpa [Connections.step, httpStateAlloc, exhausts, habsent, halloc, link_world]
                using hstep
      · have hnone : s.aborted s = [] := aborted_of_none h fun a hs hlive => by
          simp [(h.backed.active hlive).1]
        simpa [Connections.step, exhausts, habsent] using ⟨h, hnone⟩
  | call i e again =>
      by_cases hopen : (s.world.pcbs i).status = .opened
      · cases hasks : e.asksSsi site (s.world.view i) with
        | false =>
            have hstep := h.spared.step_call h (by simp) (by simp) hopen
              (e.withSsi e.oracle.ssiAlloc)
            simpa [Connections.step, exhausts, hopen, hasks] using hstep
        | true =>
            cases halloc : e.oracle.ssiAlloc with
            | true =>
                have hstep := h.spared.step_call h (by simp) (by simp) hopen (e.withSsi true)
                simpa [Connections.step, httpSsiStateAlloc, exhausts, hopen, hasks, halloc]
                  using hstep
            | false =>
                have hexhausts : s.exhausts site (.call i e again) = some (i, true) := by
                  simp [exhausts, hopen, hasks, halloc]
                have hother : ∀ a ∈ s.victim true, (s.world.heap a).state.pcb ≠ i := by
                  intro a ha
                  have hcandidate : a ∈ s.candidates i true := by
                    rw [h.candidates_eq hexhausts]
                    exact List.mem_filter.mpr ⟨hmem true a ha, (victim_mem ha).2⟩
                  have hboth := (List.mem_filter.mp hcandidate).2
                  rw [Bool.and_eq_true] at hboth
                  simpa using hboth.1
                have hstep := (h.kill e.oracle true).step_call h (hmem true) hother hopen
                  (e.withSsi again)
                simpa [Connections.step, httpSsiStateAlloc, hexhausts, hopen, hasks, halloc]
                  using hstep
      · have hnone : s.aborted s = [] := aborted_of_none h fun a hs hlive => by
          simp [(h.backed.active hlive).1]
        simpa [Connections.step, exhausts, hopen] using ⟨h, hnone⟩
  | app app =>
      refine ⟨h.withWorld (h.backed.app app) rfl fun _ => rfl, ?_⟩
      exact aborted_of_none h fun a hs hlive => by
        simp [Connections.step, World.step, (h.backed.active hlive).1]

theorem Ok.sacrificesOldest_iff (h : Ok site s) (e : Event σ) :
    SacrificesOldest site s e ↔ LoneCandidate site s e := by
  refine forall_congr' fun i => forall_congr' fun ssiRequired => forall_congr' fun a =>
    forall_congr' fun hexhausts => forall_congr' fun hhead => ?_
  rw [(h.step e).2, hexhausts]
  rw [h.candidates_eq hexhausts] at hhead ⊢
  rw [← getLast_tail_filter_iff s.world.live_nodup hhead]
  change (s.victim ssiRequired).toList = [a] ↔ s.victim ssiRequired = some a
  cases s.victim ssiRequired <;> simp

/-- For an `http_state` a connection is never aborted as it should be. -/
theorem Ok.loneCandidate_accept_iff (h : Ok site s) (habsent : (s.world.pcbs i).status = .absent)
    {o : Oracle} (hfails : o.stateAlloc = false) (again : Bool) :
    LoneCandidate site s (.accept i o again) ↔ s.world.live = [] := by
  have hexhausts : s.exhausts site (.accept i o again) = some (i, false) := by
    simp [exhausts, habsent, hfails]
  have hall : s.candidates i false = s.world.live := by
    rw [h.candidates_eq hexhausts]
    exact List.filter_eq_self.mpr fun _ _ => rfl
  constructor
  · intro hlone
    by_contra hne
    obtain ⟨a, l, hl⟩ := List.exists_cons_of_ne_nil hne
    have hhead : s.world.live.head? = some a := by rw [hl, List.head?_cons]
    exact (hlone i false a hexhausts (hall ▸ hhead)).2 hhead
  · intro hnil j ssiRequired a hexhausts' hhead
    obtain ⟨rfl, rfl⟩ : i = j ∧ false = ssiRequired := by simpa [hexhausts] using hexhausts'
    rw [hall, hnil] at hhead
    cases hhead

/-- In every run the list holds the live states, each once and the oldest first. -/
theorem lists_of_run (site : Site σ) (sys : Sys σ) (es : List (Event σ)) :
    Lists (Run.run (step site) (init sys) es).next
        (Run.run (step site) (init sys) es).httpConnections
        (Run.run (step site) (init sys) es).world.live ∧
      (Run.run (step site) (init sys) es).world.live.Nodup :=
  ⟨(Run.invariant_of_step (fun _ e h => (h.step e).1) (init_ok site sys) es).lists,
    World.live_nodup _⟩

/-- The list is right in every run. Whenever an allocation fails, the oldest of the other
connections is aborted if and only if, whenever there is one, it is the only one that may be and not
the oldest of all. -/
theorem kills_oldest_iff (site : Site σ) (sys : Sys σ) (es : List (Event σ)) :
    (Lists (Run.run (step site) (init sys) es).next
        (Run.run (step site) (init sys) es).httpConnections
        (Run.run (step site) (init sys) es).world.live ∧
      Run.Steps (step site) (SacrificesOldest site) (init sys) es) ↔
      Run.Steps (step site) (LoneCandidate site) (init sys) es := by
  constructor
  · rintro ⟨-, hsteps⟩
    exact hsteps.of_invariant (fun _ e h _ => (h.step e).1)
      (fun _ e h => (h.sacrificesOldest_iff e).mp) (init_ok site sys)
  · intro hsteps
    refine ⟨(lists_of_run site sys es).1, ?_⟩
    exact hsteps.of_invariant (fun _ e h _ => (h.step e).1)
      (fun _ e h => (h.sacrificesOldest_iff e).mpr) (init_ok site sys)

/-- Nothing can be allocated at the first attempt. -/
def exhausted : Oracle := { Oracle.willing with stateAlloc := false, ssiAlloc := false }

/-- Two connections are open when there is no memory for a third. -/
def crowd : List (Event Unit) :=
  [.accept 0 .willing true, .accept 1 .willing true, .accept 2 exhausted true]

/-- The newest connection is aborted, and the oldest is not. -/
theorem newest_killed :
    ¬ (Lists (Run.run (step trialSite) (init trialSys) crowd).next
          (Run.run (step trialSite) (init trialSys) crowd).httpConnections
          (Run.run (step trialSite) (init trialSys) crowd).world.live ∧
        Run.Steps (step trialSite) (SacrificesOldest trialSite) (init trialSys) crowd) := by
  rintro ⟨-, -, -, hlast, -⟩
  have holdest := hlast 2 false 0 (by decide +kernel) (by decide +kernel)
  exact absurd holdest (by decide +kernel)

/-- The only connection that holds an `http_ssi_state` is aborted for the sake of the oldest one. -/
example :
    let s := Run.run (step trialSite) (init trialSys)
      [.accept 0 .willing true, .accept 1 .willing true, .accept 2 .willing true,
        .call 1 (.data .willing 2 (CString.chars "GET /a.ssi HTTP/1.0\r\n\r\n") (by decide)) true]
    s.aborted (s.step trialSite
      (.call 0 (.data exhausted 2 (CString.chars "GET /a.ssi HTTP/1.0\r\n\r\n") (by decide))
        true)) = [1] := by
  decide +kernel

end Connections

end Meu1oARM
