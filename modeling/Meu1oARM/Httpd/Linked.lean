import Meu1oARM.Httpd.Moves

/-! # Control block and `http_state`

Between callbacks an open control block points to an `http_state` that points
back to it, or to nothing, and then it is closed at the next poll. The invariant
also says what the connection has answered so far.
-/

namespace Meu1oARM

variable {σ : Type} {site : Site σ} {keep : Prop} {self : Nat} {c c' : Ctx σ}

/-- The connection `self` between callbacks. -/
inductive Linked (site : Site σ) (self : Nat) (c : Ctx σ) : Prop
  | active {hs : HttpState} (hopen : c.pcb.status = .opened) (hcell : c.cell = .live hs)
      (harg : c.pcb.callbackArg = .state hs.addr) (hself : hs.pcb = self)
      (hactive : Active site c.pcb hs)
  | closing (hopen : c.pcb.status = .opened) (hcell : c.cell = .null)
      (harg : c.pcb.callbackArg = .null) (hpoll : c.pcb.poll = true)
      (hanswered : Answered site c.pcb.trace)
  | ended (hended : c.pcb.status ≠ .opened) (hcell : ∀ hs, c.cell ≠ .live hs)
      (hanswered : Answered site c.pcb.trace)

/-- An action that the server may take: it accesses nothing that is gone, and the assertion
of `http_check_eof` holds. -/
def Action.isRegular : Action → Bool
  | .fault _ | .assertFailed .eofNotReached => false
  | _ => true

theorem Action.isRegular_of_sending {a : Action} (h : a.isSending) : a.isRegular := by
  cases a with
  | assertFailed a => cases a <;> simp_all [isSending, isRegular]
  | _ => simp_all [isSending, isRegular]

theorem Action.isRegular_of_opening {a : Action} (h : a.isOpening) : a.isRegular := by
  cases a with
  | assertFailed a => cases a <;> simp_all [isOpening, isRegular]
  | _ => simp_all [isOpening, isRegular]

theorem HttpState.releases_regular (hs : HttpState) : ∀ a ∈ hs.releases, a.isRegular := by
  cases hssi : hs.ssi <;> simp [releases, hssi, Action.isRegular]

theorem freed_regular (p : List Pbuf) : ∀ a ∈ freed p, a.isRegular := by
  simp [freed, Action.isRegular]

theorem queued_regular (p : List Pbuf) : ∀ a ∈ queued p, a.isRegular := by
  simp [queued, Action.isRegular]

/-- A move only adds to the trace, and only regular actions. -/
theorem Move.trace (h : Move site keep c c') :
    ∃ acts, c'.pcb.trace = c.pcb.trace ++ acts ∧ ∀ a ∈ acts, a.isRegular := by
  have hreleases := HttpState.releases_regular
  have hfreed := freed_regular
  have hqueued := queued_regular
  cases h with
  | window | share | retries | ignore | resetNull => exact ⟨[], by simp [Ctx.window], nofun⟩
  | drop xs => exact ⟨_, rfl, freed_regular _⟩
  | queue hcell hwaiting p => exact ⟨_, rfl, hqueued _⟩
  | discard hcell hwaiting xs =>
      refine ⟨_, List.append_assoc .., fun a ha => ?_⟩
      rcases List.mem_append.mp ha with hmem | hmem
      exacts [hqueued _ a hmem, hfreed _ a hmem]
  | dispatch uri is09 hopen hcell hwaiting xs hfound =>
      refine ⟨_, by rw [List.append_assoc, List.append_assoc], fun a ha => ?_⟩
      rcases List.mem_append.mp ha with hmem | hmem
      · exact hqueued _ a hmem
      · rcases List.mem_append.mp hmem with hmem | hmem
        · rcases List.mem_cons.mp hmem with rfl | hmem
          · rfl
          · exact Action.isRegular_of_opening (hfound.opens.isOpening a hmem)
        · exact hfreed _ a hmem
  | send hcell hsends hsent hactive =>
      obtain ⟨acts, hacts, htrace⟩ := hsends.trace_eq
      exact ⟨acts, htrace, fun a ha => Action.isRegular_of_sending (hacts a ha)⟩
  | output => exact ⟨_, rfl, by simp [Action.isRegular]⟩
  | close hcell hkeep o =>
      refine ⟨_, List.append_assoc .., fun a ha => ?_⟩
      rcases List.mem_append.mp ha with hmem | hmem
      · exact hreleases _ a hmem
      · simp_all [Action.isRegular]
  | finish hcell hkeep hleft o =>
      rename_i hs
      refine ⟨.eof :: (hs.releases ++ [.closed o.close]), ?_, fun a ha => ?_⟩
      · simp [Ctx.closed, Pcb.shut, Ctx.log, Pcb.log]
      · rcases List.mem_cons.mp ha with rfl | hmem
        · rfl
        · rcases List.mem_append.mp hmem with hmem | hmem
          · exact hreleases hs a hmem
          · simp_all [Action.isRegular]
  | reset hcell hkeep => exact ⟨_, rfl, hreleases _⟩
  | closeNull hopen hcell o =>
      exact ⟨[.closed o.close], by simp [Pcb.shut], by simp [Action.isRegular]⟩
  | abortNull => exact ⟨_, rfl, by simp [Action.isRegular]⟩

/-- Closing ends the connection or leaves it to the next poll. -/
theorem Linked.of_shut {o : Oracle} {acts : List Action} {pcb : Pcb} {sys : Sys σ}
    (hanswered : Answered site (pcb.shut o acts).trace) :
    Linked site self { pcb := pcb.shut o acts, cell := .null, sys } := by
  cases hfails : o.closeFails with
  | true => exact .closing (by simp [Pcb.shut, hfails]) rfl rfl (by simp [Pcb.shut, hfails]) hanswered
  | false => exact .ended (by simp [Pcb.shut, hfails]) Cell.null_ne_live hanswered

/-- Closing is no part of an answer. -/
theorem shut_same (pcb : Pcb) (o : Oracle) {acts : List Action} (hacts : ∀ a ∈ acts, a.isQuiet) :
    SameAnswer (pcb.shut o acts).trace pcb.trace := by
  have hquiet : ∀ a ∈ acts ++ [.closed o.close], a.isQuiet := by
    intro a ha
    rcases List.mem_append.mp ha with hmem | hmem
    · exact hacts a hmem
    · simp_all [Action.isQuiet]
  simpa [Pcb.shut] using SameAnswer.append_quiet pcb.trace hquiet

/-- A move of an active connection leaves it active, or ends its answer. -/
theorem Move.linked_active {hs : HttpState} (h : Move site keep c c')
    (hopen : c.pcb.status = .opened) (hcell : c.cell = .live hs)
    (harg : c.pcb.callbackArg = .state hs.addr) (hself : hs.pcb = self)
    (hactive : Active site c.pcb hs) : Linked site self c' := by
  -- a move that needs a state is made with the one that there is
  have hlive : ∀ {hs'}, c.cell = .live hs' → hs' = hs := fun h => by
    simpa [hcell] using h.symm
  cases h with
  | window e => exact .active hopen hcell harg hself (hactive.congr hopen (.refl _))
  | share sys => exact .active hopen hcell harg hself hactive
  | retries hcell' n =>
      obtain rfl := hlive hcell'
      exact .active hopen rfl harg hself (hactive.retries n)
  | drop xs =>
      exact .active hopen hcell harg hself
        (hactive.congr hopen (.append_quiet _ (freed_quiet _)))
  | ignore hcell' hhandle n => exact .active hopen hcell harg hself (hactive.congr hopen (.refl _))
  | queue hcell' hwaiting p =>
      obtain rfl := hlive hcell'
      exact .active hopen rfl harg hself
        (hactive.withReq hwaiting (.append_quiet _ (queued_quiet _)) _)
  | discard hcell' hwaiting xs =>
      obtain rfl := hlive hcell'
      exact .active hopen rfl harg hself
        (hactive.withReq hwaiting (.trans (.append_quiet _ (freed_quiet _))
          (.append_quiet _ (queued_quiet _))) _)
  | dispatch uri is09 hopen' hcell' hwaiting xs hfound =>
      obtain rfl := hlive hcell'
      exact .active hopen rfl (by rw [harg, hfound.addr_eq]) (hfound.pcb_eq.trans hself)
        (hactive.dispatched hwaiting hfound hopen uri _ _ rfl)
  | send hcell' hsends hsent hactive' =>
      obtain rfl := hlive hcell'
      have haddr := congrArg HttpState.addr hsent.1
      have hpcb := congrArg HttpState.pcb hsent.1
      exact .active (hsends.status_eq.trans hopen) rfl
        (hsends.callbackArg_eq.trans (harg.trans (congrArg Arg.state haddr.symm)))
        (hpcb.trans hself) hactive'
  | output =>
      exact .active hopen hcell harg hself
        (hactive.congr hopen (.append_quiet _ (by simp [Action.isQuiet])))
  | close hcell' hkeep o =>
      obtain rfl := hlive hcell'
      exact .of_shut (hactive.answered.congr (shut_same _ o (HttpState.releases_quiet _)))
  | finish hcell' hkeep hleft o =>
      obtain rfl := hlive hcell'
      exact .of_shut ((hactive.answered_eof hleft).congr
        (shut_same (c.log .eof).pcb o (HttpState.releases_quiet _)))
  | reset hcell' hkeep =>
      obtain rfl := hlive hcell'
      exact .ended PcbStatus.noConfusion Cell.freed_ne_live
        (hactive.answered.congr (.append_quiet _ (HttpState.releases_quiet _)))
  | closeNull _ hnull | abortNull _ hnull | resetNull _ hnull =>
      exact absurd (hnull.symm.trans hcell) (Cell.null_ne_live hs)

/-- A move of a connection that waits to be closed. -/
theorem Move.linked_closing (h : Move site keep c c') (hopen : c.pcb.status = .opened)
    (hcell : c.cell = .null) (harg : c.pcb.callbackArg = .null) (hpoll : c.pcb.poll = true)
    (hanswered : Answered site c.pcb.trace) : Linked site self c' := by
  cases h with
  | window e => exact .closing hopen hcell harg hpoll hanswered
  | share sys => exact .closing hopen hcell harg hpoll hanswered
  | drop xs =>
      exact .closing hopen hcell harg hpoll (hanswered.congr (.append_quiet _ (freed_quiet _)))
  | output =>
      exact .closing hopen hcell harg hpoll
        (hanswered.congr (.append_quiet _ (by simp [Action.isQuiet])))
  | closeNull _ _ o =>
      rw [hcell]
      exact .of_shut (hanswered.congr (shut_same _ o (by simp)))
  | abortNull _ _ =>
      exact .ended PcbStatus.noConfusion (by simp [hcell])
        (hanswered.congr (.append_quiet _ (by simp [Action.isQuiet])))
  | resetNull _ _ => exact .ended PcbStatus.noConfusion (by simp [hcell]) hanswered
  | retries hlive | ignore hlive | queue hlive | discard hlive | dispatch _ _ _ hlive
  | send hlive | close hlive | finish hlive | reset hlive =>
      exact absurd (hcell.symm.trans hlive) (Cell.null_ne_live _)

/-- Nothing more happens to a connection that has ended. -/
theorem Move.linked_ended (h : Move site keep c c') (hended : c.pcb.status ≠ .opened)
    (hcell : ∀ hs, c.cell ≠ .live hs) (hanswered : Answered site c.pcb.trace) :
    Linked site self c' := by
  cases h with
  | window e => exact .ended hended hcell hanswered
  | share sys => exact .ended hended hcell hanswered
  | drop xs =>
      exact .ended hended hcell (hanswered.congr (.append_quiet _ (freed_quiet _)))
  | output =>
      exact .ended hended hcell (hanswered.congr (.append_quiet _ (by simp [Action.isQuiet])))
  | closeNull hopen | abortNull hopen | resetNull hopen => exact absurd hopen hended
  | retries hlive | ignore hlive | queue hlive | discard hlive | dispatch _ _ _ hlive
  | send hlive | close hlive | finish hlive | reset hlive =>
      exact absurd hlive (hcell _)

/-- Every move keeps the link. -/
theorem Move.linked (h : Move site keep c c') (hlinked : Linked site self c) :
    Linked site self c' := by
  cases hlinked with
  | active hopen hcell harg hself hactive =>
      exact h.linked_active hopen hcell harg hself hactive
  | closing hopen hcell harg hpoll hanswered =>
      exact h.linked_closing hopen hcell harg hpoll hanswered
  | ended hended hcell hanswered => exact h.linked_ended hended hcell hanswered

/-- The queue is empty when the event `e` may tear the connection down. -/
def Tidy (c : Ctx σ) : ConnEvent σ → Prop
  | .call e => ∀ hs, c.cell = .live hs → TearsDown hs e → hs.req = []
  | .others _ => True

/-- Every event of a connection is a sequence of moves. -/
theorem connStep_moves (hlinked : Linked site self c) (e : ConnEvent σ)
    (hkeep : keep → Tidy c e) : Moves site keep c (connStep site c e) := by
  cases e with
  | others sys => exact .single (.share c sys)
  | call e =>
      cases hlinked with
      | active hopen hcell harg hself hactive =>
          simp only [connStep, if_pos hopen]
          exact call_moves hcell hopen harg hactive e fun hk => hkeep hk _ hcell
      | closing hopen hcell =>
          simp only [connStep, if_pos hopen]
          exact callNull_moves hcell hopen e
      | ended hended =>
          simp only [connStep, if_neg hended]
          exact .refl

/-- The same without a condition on the queue. -/
theorem connStep_moves_free (hlinked : Linked site self c) (e : ConnEvent σ) :
    Moves site False c (connStep site c e) :=
  connStep_moves hlinked e nofun

/-- What every move keeps, a sequence of moves keeps. -/
theorem Moves.invariant {I : Ctx σ → Prop}
    (hmove : ∀ c c', Linked site self c → I c → Move site keep c c' → I c')
    (h : Moves site keep c c') (hlinked : Linked site self c) (hI : I c) :
    Linked site self c' ∧ I c' := by
  induction h with
  | refl => exact ⟨hlinked, hI⟩
  | tail _ hstep ih => exact ⟨hstep.linked ih.1, hmove _ _ ih.1 ih.2 hstep⟩

/-- What every move keeps holds after every run whose events are tidy, if `keep` asks for it. -/
theorem connRun_invariant {I : Ctx σ → Prop}
    (hmove : ∀ c c', Linked site self c → I c → Move site keep c c' → I c')
    (hlinked : Linked site self c) (hI : I c) {es : List (ConnEvent σ)}
    (htidy : Run.Steps (connStep site) (fun c e => keep → Tidy c e) c es) :
    Linked site self (Run.run (connStep site) c es) ∧ I (Run.run (connStep site) c es) :=
  Run.invariant (I := fun c => Linked site self c ∧ I c)
    (fun _ e h hkeep => (connStep_moves h.1 e hkeep).invariant hmove h.1 h.2) ⟨hlinked, hI⟩ htidy

end Meu1oARM
