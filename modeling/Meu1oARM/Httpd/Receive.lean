import Meu1oARM.Httpd.Resources

/-! # What becomes of received data

A pbuf that is handed to `http_recv` is put into the queue or freed, except when
it arrives while a file is being sent: then it is neither. The queue never grows
beyond its bounds, because a request that does is rejected and its queue freed.
-/

namespace Meu1oARM

open Machine CString

variable {σ : Type} {site : Site σ} {keep : Prop} {base self : Nat} {c c' : Ctx σ}

/-- The request queue of a connection. -/
def Ctx.queue (c : Ctx σ) : List Pbuf :=
  match c.cell with
  | .live hs => hs.req
  | _ => []

/-- The queue holds at most the buffers and the bytes of its configuration. -/
def QueueBound (c : Ctx σ) : Prop :=
  c.queue.length ≤ reqQueuelen ∧ (pbufBytes c.queue).length ≤ reqBufsize

/-- If the event is a call of `http_recv`, each pbuf it is given is afterwards in the queue
once, or it has been freed once, and not both. -/
def Conserves (site : Site σ) (c : Ctx σ) (e : ConnEvent σ) : Prop :=
  ∀ call p err, e = .call call → call.callback = .recv p err → c.pcb.status = .opened →
    ∀ q ∈ pbufChain c.pcb.nextId p.payloads,
      (pbufs (connStep site c e).queue).count (.pbuf q.id) +
        (connStep site c e).pcb.trace.count (.free (.pbuf q.id)) = 1

/-- Data that arrives while a file is being sent. -/
def LateData (c : Ctx σ) (e : ConnEvent σ) : Prop :=
  ∃ call p hs f, e = .call call ∧ call.callback = .recv p .ok ∧ p.payloads ≠ [] ∧
    c.pcb.status = .opened ∧ c.cell = .live hs ∧ hs.handle = some f

theorem Ctx.queue_of_live {hs : HttpState} (hcell : c.cell = .live hs) : c.queue = hs.req := by
  simp [queue, hcell]

theorem Ctx.queue_of_dead (hcell : ∀ hs, c.cell ≠ .live hs) : c.queue = [] := by
  unfold queue
  split
  next hs hlive => exact absurd hlive (hcell hs)
  next => rfl

theorem count_held (id : Nat) (c : Ctx σ) :
    (held c.cell).count (.pbuf id) = (pbufs c.queue).count (.pbuf id) := by
  cases hcell : c.cell with
  | live hs =>
      have hparts : hs.parts.count (.pbuf id) = 0 := by
        cases hssi : hs.ssi <;> simp [HttpState.parts, hssi]
      simp [held, Ctx.queue_of_live hcell, hparts]
  | null => simp [held, Ctx.queue, hcell, pbufs]
  | freed => simp [held, Ctx.queue, hcell, pbufs]

/-! ## The bounds of the queue -/

theorem queueBound_of_nil (hnil : c.queue = []) : QueueBound c := by
  simp [QueueBound, hnil, pbufBytes]

theorem Move.queueBound (h : Move site keep c c') (hbound : QueueBound c) : QueueBound c' := by
  cases h with
  | queue hcell hwaiting p hbounds =>
      obtain ⟨hsize, hcount⟩ := hbounds
      have hbytes : p.payloads.flatten.length ≤ 2920 := p.size_le
      have hbuffers : p.payloads.length ≤ 10 := p.count_le
      have hsizeLimit : reqBufsize = 1023 := by decide
      rw [QueueBound, Ctx.queue_of_live hcell, hsizeLimit, reqQueuelen] at hbound
      rw [totLen, pbufBytes_append, pbufBytes_pbufChain, List.length_append, hsizeLimit,
        u16_of_lt (by omega)] at hsize
      rw [pbufClen, List.length_append, length_pbufChain, reqQueuelen, u8_of_lt (by omega)] at hcount
      rw [QueueBound, Ctx.queue_of_live rfl, pbufBytes_append, pbufBytes_pbufChain,
        List.length_append, List.length_append, length_pbufChain, hsizeLimit, reqQueuelen]
      exact ⟨hcount, hsize⟩
  | retries hcell n =>
      rw [QueueBound, Ctx.queue_of_live hcell] at hbound
      exact hbound
  | send hcell hsends hsent =>
      rw [QueueBound, Ctx.queue_of_live hcell] at hbound
      rw [QueueBound, Ctx.queue_of_live rfl, hsent.1]
      exact hbound
  | discard | dispatch | close | finish | reset => exact queueBound_of_nil rfl
  | _ => exact hbound

theorem accept_queueBound (o : Oracle) (self addr : Nat) (sys : Sys σ) :
    QueueBound (Ctx.accept o self addr sys) := by
  rw [accept_eq]
  split <;> exact queueBound_of_nil rfl

/-! ## Data that is dropped, queued and lost -/

/-- From here on every pbuf is accounted for, whatever was lost before. -/
theorem Accounted.rebase (h : Accounted False base c) : Accounted True c.pcb.nextId c where
  nodup := h.nodup
  balance r hr hkeep := h.balance r hr fun hpbuf =>
    absurd (h.obtained_before r hr) (hkeep hpbuf).2
  held_obtained := h.held_obtained
  released_obtained := h.released_obtained
  obtained_before := h.obtained_before
  released_before := h.released_before

theorem between_of_mem_chain {n : Nat} {xs : List (List UInt8)} {q : Pbuf}
    (hq : q ∈ pbufChain n xs) : (Resource.pbuf q.id).between n (n + xs.length) :=
  between_of_mem_pbufChain (List.mem_map.mpr ⟨q, hq, rfl⟩)

/-- Nothing has happened yet to a pbuf that is about to be received. -/
theorem Accounted.count_fresh (h : Accounted keep base c) {xs : List (List UInt8)} {q : Pbuf}
    (hq : q ∈ pbufChain c.pcb.nextId xs) :
    (pbufs c.queue).count (.pbuf q.id) = 0 ∧ c.pcb.trace.count (.free (.pbuf q.id)) = 0 := by
  have hnot := (between_of_mem_chain hq).not_before
  rw [← count_held, ← count_released]
  exact ⟨List.count_eq_zero.mpr fun hmem => hnot (h.held_before hmem),
    List.count_eq_zero.mpr fun hmem => hnot (h.released_before _ hmem)⟩

/-- A chain that is freed once is freed once. -/
theorem count_freed_chain {n : Nat} {xs : List (List UInt8)} {q : Pbuf}
    (hq : q ∈ pbufChain n xs) :
    (freed (pbufChain n xs)).count (.free (.pbuf q.id)) = 1 := by
  rw [← count_released, released_freed]
  exact List.count_eq_one_of_mem (nodup_pbufs_pbufChain n xs) (List.mem_map.mpr ⟨q, hq, rfl⟩)

/-- Data that is dropped before the connection is closed is freed once. -/
theorem Accounted.conserves_dropped (h : Accounted keep base c) {xs : List (List UInt8)}
    {acts : List Action} (hacts : ∀ id, .free (.pbuf id) ∉ acts) (hdead : ∀ hs, c'.cell ≠ .live hs)
    (htrace : c'.pcb.trace = c.pcb.trace ++ freed (pbufChain c.pcb.nextId xs) ++ acts) {q : Pbuf}
    (hq : q ∈ pbufChain c.pcb.nextId xs) :
    (pbufs c'.queue).count (.pbuf q.id) + c'.pcb.trace.count (.free (.pbuf q.id)) = 1 := by
  rw [Ctx.queue_of_dead hdead, htrace, List.count_append, List.count_append, (h.count_fresh hq).2,
    count_freed_chain hq, List.count_eq_zero.mpr (hacts q.id)]
  rfl

theorem Moves.trace (h : Moves site keep c c') : c.pcb.trace <+: c'.pcb.trace := by
  induction h with
  | refl => exact List.prefix_rfl
  | tail _ hmove ih =>
      obtain ⟨acts, htrace, _⟩ := hmove.trace
      rw [htrace]
      exact List.prefix_append_of_prefix ih

theorem Moves.accounted (h : Moves site keep c c') (hacc : Accounted keep base c) :
    Accounted keep base c' := by
  induction h with
  | refl => exact hacc
  | tail _ hmove ih => exact hmove.accounted ih

/-- Data that is put into the queue stays there, or is freed once. -/
theorem Accounted.conserves_queued (h : Accounted False base c) {xs : List (List UInt8)}
    (hmoves : Moves site True c c')
    (hqueued : c.pcb.trace ++ queued (pbufChain c.pcb.nextId xs) <+: c'.pcb.trace) {q : Pbuf}
    (hq : q ∈ pbufChain c.pcb.nextId xs) :
    (pbufs c'.queue).count (.pbuf q.id) + c'.pcb.trace.count (.free (.pbuf q.id)) = 1 := by
  have hmem : .pbuf q.id ∈ obtained c'.pcb.trace := by
    obtain ⟨acts, htrace⟩ := hqueued
    have hmem : .pbuf q.id ∈ pbufs (pbufChain c.pcb.nextId xs) := List.mem_map.mpr ⟨q, hq, rfl⟩
    simp [← htrace, hmem]
  have hbalance := (hmoves.accounted h.rebase).balance _ hmem fun _ =>
    ⟨trivial, (between_of_mem_chain hq).not_before⟩
  rw [count_held, count_released] at hbalance
  omega

/-- Freeing a state and closing frees no pbuf. -/
theorem closing_frees_no_pbuf (hs : HttpState) (o : Oracle) (id : Nat) :
    .free (.pbuf id) ∉ hs.releases ++ [.closed o.close] := by
  cases hssi : hs.ssi <;> simp [HttpState.releases, hssi]

/-- A call of `http_recv` on an open connection loses data only while a file is being sent. -/
theorem conserves_recv (hlinked : Linked site self c) (hacc : Accounted False base c)
    {call : Call} {p : Delivery} {err : Err} (hcallback : call.callback = .recv p err)
    (hopen : c.pcb.status = .opened)
    (hlate : ¬ LateData c (.call call)) {q : Pbuf}
    (hq : q ∈ pbufChain c.pcb.nextId p.payloads) :
    (pbufs (connStep site c (.call call)).queue).count (.pbuf q.id) +
      (connStep site c (.call call)).pcb.trace.count (.free (.pbuf q.id)) = 1 := by
  have hdata : p.payloads ≠ [] := by
    rintro hnil
    simp [hnil, pbufChain] at hq
  have hstep : connStep site c (.call call) =
      (httpRecv site call.oracle (pbufChain c.pcb.nextId p.payloads) err
        ((c.window call).received p.payloads)).leave := by
    simp only [connStep, if_pos hopen, Ctx.call, hcallback]
    rfl
  rw [hstep]
  cases hlinked with
  | ended hended => exact absurd hopen hended
  | closing _ hcell =>
      -- a connection that closes drops the data
      rw [httpRecv_null (c := (c.window call).received p.payloads) hcell hopen,
        Ctx.leave_of_null (by exact hcell)]
      have hclose : ∀ id, .free (.pbuf id) ∉ [Action.closed call.oracle.close] := by simp
      refine hacc.conserves_dropped hclose ?_ ?_ hq
      · simp [Ctx.window, Ctx.received, hcell]
      · simp [Pcb.shut, Ctx.window, Ctx.received]
  | @active hs _ hcell harg hself hactive =>
      have hactive' : Active site (c.window call).pcb hs := hactive.congr hopen (.refl _)
      by_cases hok : err = .ok
      · subst hok
        rcases hactive.2 with ⟨hwaiting, _⟩ | ⟨f, is09, hserving, _⟩
        · -- the data is queued, and the queue accounts for it from then on
          obtain ⟨c', hmove, hqueued, hmoves⟩ := httpRecv_waiting_moves
            (o := call.oracle) True (c := c.window call) hcell hopen harg hactive' hwaiting p hdata
          exact hacc.conserves_queued (.head (.window c call) (.head hmove hmoves))
            (hqueued.trans hmoves.trace) hq
        · exact absurd ⟨call, p, hs, f, rfl, hcallback, hdata, hopen, hcell, hserving.handle⟩ hlate
      · rw [httpRecv_fin (c := (c.window call).received p.payloads) hcell hopen (Or.inl hok)]
        refine hacc.conserves_dropped (closing_frees_no_pbuf hs call.oracle) ?_ ?_ hq
        · simp [Ctx.leave, Ctx.closed, Pcb.shut]
        · simp [Ctx.leave, Ctx.closed, Pcb.shut, Ctx.window, Ctx.received]

/-- Data that arrives while a file is being sent is lost. -/
theorem lost_of_lateData (hlinked : Linked site self c) (hacc : Accounted False base c)
    {e : ConnEvent σ} (hlate : LateData c e) : ¬ Conserves site c e := by
  obtain ⟨call, p, hs, f, rfl, hcallback, hdata, hopen, hcell, hhandle⟩ := hlate
  intro hconserves
  obtain ⟨x, xs, hpayloads⟩ := List.exists_cons_of_ne_nil hdata
  have hq : { id := c.pcb.nextId, payload := x } ∈ pbufChain c.pcb.nextId p.payloads := by
    simp [hpayloads, pbufChain]
  have hone := hconserves call p .ok rfl hcallback hopen _ hq
  have hstep : connStep site c (.call call) = (c.window call).received p.payloads := by
    cases hlinked with
    | ended hended => exact absurd hopen hended
    | closing _ hcell' => exact absurd (hcell'.symm.trans hcell) (Cell.null_ne_live hs)
    | @active hs' _ hcell' harg hself hactive =>
        obtain rfl : hs' = hs := by simpa using hcell'.symm.trans hcell
        have hreq : hs'.req = [] := by
          rcases hactive.2 with ⟨hwaiting, _⟩ | ⟨_, _, _, hreq, _⟩
          · exact absurd (hhandle.symm.trans hwaiting.handle) (Option.some_ne_none f)
          · exact hreq
        simp only [connStep, if_pos hopen, Ctx.call, hcallback]
        rw [httpRecv_serving (c := (c.window call).received p.payloads) hcell hopen
          (by simpa using hdata) (by simp [hhandle]) hreq, Ctx.leave_of_state (by exact harg)]
  rw [hstep] at hone
  have hfresh := hacc.count_fresh hq
  have hqueue : ((c.window call).received p.payloads).queue = c.queue := rfl
  have htrace : ((c.window call).received p.payloads).pcb.trace = c.pcb.trace := rfl
  rw [hqueue, htrace] at hone
  omega

/-- In every run, each call of `http_recv` keeps or frees the pbufs it is given unless they
arrive while a file is being sent, and the queue stays within its bounds. -/
theorem received_pbufs_conserved_iff (o : Oracle) (self addr : Nat) (sys : Sys σ)
    (es : List (ConnEvent σ)) :
    Run.Steps (connStep site) (fun c e => Conserves site c e ↔ ¬ LateData c e)
        (Ctx.accept o self addr sys) es ∧
      QueueBound (Run.run (connStep site) (Ctx.accept o self addr sys) es) := by
  have hstep : ∀ c e, Linked site self c ∧ Accounted False 0 c ∧ QueueBound c →
      Linked site self (connStep site c e) ∧ Accounted False 0 (connStep site c e) ∧
        QueueBound (connStep site c e) := by
    rintro c e ⟨hlinked, hinv⟩
    exact (connStep_moves_free hlinked e).invariant
      (I := fun c => Accounted False 0 c ∧ QueueBound c)
      (fun _ _ _ h hmove => ⟨hmove.accounted h.1, hmove.queueBound h.2⟩) hlinked hinv
  have hstart := And.intro (accept_linked site o self addr sys)
    (And.intro (accept_accounted o self addr sys : Accounted False 0 _)
      (accept_queueBound o self addr sys))
  refine ⟨Run.steps_of_invariant hstep ?_ hstart es,
    (Run.invariant_of_step hstep hstart es).2.2⟩
  rintro c e ⟨hlinked, hacc, _⟩
  refine ⟨fun hconserves hlate => lost_of_lateData hlinked hacc hlate hconserves, fun hlate => ?_⟩
  rintro call p err rfl hcallback hopen q hq
  exact conserves_recv hlinked hacc hcallback hopen hlate hq

/-- A peer that goes on talking before the page has been sent. -/
def talkative : List (ConnEvent Unit) :=
  [.call (.data .willing 4 (chars "GET /c.htm HTTP/1.0\r\n\r\n") (by decide)),
    .call (.data .willing 4 (chars "more") (by decide))]

/-- The second buffer is neither in the queue nor freed. -/
theorem late_data_lost :
    let c := Run.run (connStep trialSite) (Ctx.accept .willing 0 0 trialSys) talkative
    c.pcb.nextId = 2 ∧ c.pcb.status = .opened ∧
      (pbufs c.queue).count (.pbuf 1) + c.pcb.trace.count (.free (.pbuf 1)) = 0 := by
  decide +kernel

end Meu1oARM
