import Meu1oARM.Httpd.PostReaction

/-! # The end of a POST

The application hears of the end of a POST when its body is complete, when it refuses data,
and when the connection is closed. All three look at the one counter of the bytes that are
left, and a refusal does not clear it.
-/

namespace Meu1oARM

open Machine CString

variable {σ : Type} {site : Site σ} {app : PostApp σ} {o : Oracle} {c c' : PostCtx σ}
  {hs : HttpState} {self : Nat}

/-! ## What the application has been told -/

/-- The length of the body that the application has accepted with the call. -/
def PostCall.announced : PostCall → Option Int
  | .begin _ _ contentLen .ok => some contentLen
  | _ => none

def announced (calls : List PostCall) : List Int := calls.filterMap PostCall.announced

/-- The name of the response file, if the call is that of the end. -/
def PostCall.response : PostCall → Option (List UInt8)
  | .finished responseUri => some responseUri
  | _ => none

def responses (calls : List PostCall) : List (List UInt8) := calls.filterMap PostCall.response

/-- What a call leaves to be handed over of `n` bytes. -/
def PostCall.remaining (n : Nat) : PostCall → Nat
  | .begin _ _ contentLen .ok => contentLen.toNat
  | .receiveData p _ => n - totLen p
  | _ => n

/-- The announced bytes that the application has not been handed. -/
def outstanding (calls : List PostCall) : Nat := calls.foldl PostCall.remaining 0

@[simp] theorem announced_append (s t : List PostCall) :
    announced (s ++ t) = announced s ++ announced t := by
  simp [announced]

@[simp] theorem announced_cons (call : PostCall) (t : List PostCall) :
    announced (call :: t) = call.announced.toList ++ announced t := by
  cases h : call.announced <;> simp [announced, h]

@[simp] theorem announced_nil : announced [] = [] := rfl

@[simp] theorem responses_append (s t : List PostCall) :
    responses (s ++ t) = responses s ++ responses t := by
  simp [responses]

@[simp] theorem responses_cons (call : PostCall) (t : List PostCall) :
    responses (call :: t) = call.response.toList ++ responses t := by
  cases h : call.response <;> simp [responses, h]

@[simp] theorem responses_nil : responses [] = [] := rfl

@[simp] theorem outstanding_append (s t : List PostCall) :
    outstanding (s ++ t) = t.foldl PostCall.remaining (outstanding s) := by
  simp [outstanding]

/-- A POST that the application accepts ends once: the application is told so once, and handed
nothing afterwards. It has been told when the body is complete, and when the connection is gone.
The file that it then names is looked up once, unless the connection is closed before the body is
complete, and what is sent of it is sent in order from its start. -/
structure PostOnce (site : Site σ) (c : PostCtx σ) : Prop where
  announced_le : (announced c.calls).length ≤ 1
  responses_le : (responses c.calls).length ≤ 1
  silent : ∀ before after responseUri, c.calls = before ++ .finished responseUri :: after →
    ∀ p err, .receiveData p err ∉ after
  ended : announced c.calls ≠ [] → (∀ hs, c.ctx.cell ≠ .live hs) →
    (responses c.calls).length = 1
  received : announced c.calls ≠ [] → outstanding c.calls = 0 →
    (responses c.calls).length = 1
  lookups_eq : announced c.calls ≠ [] →
    lookups c.ctx.pcb.trace = (responses c.calls).map (·, false) ∨
      outstanding c.calls ≠ 0 ∧ lookups c.ctx.pcb.trace = []
  answered : Answered site c.ctx.pcb.trace

/-- What the callback `e` hands to the application, when `left` bytes of the body are still to
come and the application is in the state `state`. -/
inductive Offers (app : PostApp σ) (c : PostCtx σ) (e : Call) (hs : HttpState) :
    Nat → List Pbuf → σ → Prop
  | body {p : Delivery} (hcallback : e.callback = .recv p .ok) (hdata : p.payloads ≠ [])
      (hleft : 0 < c.postContentLenLeft) :
      Offers app c e hs c.postContentLenLeft (pbufChain c.ctx.pcb.nextId p.payloads) c.ctx.sys.app
  | first {p : Delivery} {uriLen : Nat} {h : Post.Header} {state : σ} {heads q : List Pbuf}
      {startOffset : Nat} (hcallback : e.callback = .recv p .ok) (hdata : p.payloads ≠ [])
      (hhandle : hs.handle = none) (hleft : c.postContentLenLeft = 0)
      (hbegins : Post.Begins app e.oracle (hs.req ++ pbufChain c.ctx.pcb.nextId p.payloads)
        c.ctx.sys hs.addr uriLen h .ok state)
      (hskip : Post.skipHeader h.hdrLen (hs.req ++ pbufChain c.ctx.pcb.nextId p.payloads) =
        (heads, startOffset, q)) (hbody : q ≠ []) :
      Offers app c e hs (u32 h.contentLen.toNat) (Post.hideHeader startOffset q) state

/-- The application refuses only data with which the body is complete, and the connection is not
reset while the body is outstanding. -/
def Orderly (app : PostApp σ) (c : PostCtx σ) : ConnEvent σ → Prop
  | .call e => ∀ hs, c.ctx.cell = .live hs →
    (e.callback = .err → c.postContentLenLeft = 0) ∧
      ∀ left p state, Offers app c e hs left p state →
        (app.httpdPostReceiveData hs.addr state p).1 = .ok ∨ left ≤ totLen p
  | .others _ => True

/-! ## The record of a connection -/

/-- The application has accepted a POST, of which `n` bytes are still to come, and has not been
told of its end. -/
structure Open (calls : List PostCall) (n : Nat) : Prop where
  announced : (Meu1oARM.announced calls).length = 1
  responses : responses calls = []
  outstanding : outstanding calls = n

/-- What the application has been told in each phase of a connection: nothing of a POST, a POST
whose body is awaited, the end of a POST with or without all of its body. -/
inductive Record (c : PostCtx σ) : Prop
  | idle (hleft : c.postContentLenLeft = 0) (hannounced : announced c.calls = [])
      (hresponses : responses c.calls = [])
      (hlookups : ∀ hs, c.ctx.cell = .live hs → hs.handle = none → lookups c.ctx.pcb.trace = [])
  | body {hs : HttpState} (hcell : c.ctx.cell = .live hs) (hwaiting : hs.Waiting)
      (hreq : hs.req = []) (hleft : c.postContentLenLeft ≠ 0)
      (hopen : Open c.calls c.postContentLenLeft) (hlookups : lookups c.ctx.pcb.trace = [])
  | complete (calls : List PostCall) (responseUri : List UInt8) (hleft : c.postContentLenLeft = 0)
      (hcalls : c.calls = calls ++ [.finished responseUri]) (hopen : Open calls 0)
      (hlookups : lookups c.ctx.pcb.trace = [(responseUri, false)])
      (hhandle : ∀ hs, c.ctx.cell = .live hs → hs.handle ≠ none)
  | cut (calls : List PostCall) (responseUri : List UInt8) (n : Nat) (hn : n ≠ 0)
      (hdead : ∀ hs, c.ctx.cell ≠ .live hs)
      (hcalls : c.calls = calls ++ [.finished responseUri]) (hopen : Open calls n)
      (hlookups : lookups c.ctx.pcb.trace = [])

/-- The connection `i` between callbacks. -/
structure Signalled (site : Site σ) (i : Nat) (c : PostCtx σ) : Prop where
  linked : Linked site i c.ctx
  record : Record c

/-- Nothing follows the only call of the end. -/
theorem not_mem_after_finished {calls before after : List PostCall} {r s : List UInt8}
    (hnone : responses calls = []) (heq : calls ++ [.finished r] = before ++ .finished s :: after) :
    after = [] := by
  rcases List.eq_nil_or_concat after with rfl | ⟨after, last, rfl⟩
  · rfl
  · have hcons : before ++ .finished s :: (after ++ [last]) =
        (before ++ .finished s :: after) ++ [last] := by simp
    rw [List.concat_eq_append, hcons] at heq
    obtain ⟨rfl, -⟩ := List.append_inj' heq rfl
    simp [PostCall.response] at hnone

theorem Record.postOnce (h : Record c) (hanswered : Answered site c.ctx.pcb.trace) :
    PostOnce site c := by
  cases h with
  | idle hleft hannounced hresponses hlookups =>
      refine ⟨by simp [hannounced], by simp [hresponses], ?_, ?_, ?_, ?_, hanswered⟩
      · intro before after responseUri heq
        simp [heq, PostCall.response] at hresponses
      · exact fun hne => absurd hannounced hne
      · exact fun hne => absurd hannounced hne
      · exact fun hne => absurd hannounced hne
  | body hcell hwaiting hreq hleft hopen hlookups =>
      refine ⟨Nat.le_of_eq hopen.announced, by simp [hopen.responses], ?_, ?_, ?_, ?_, hanswered⟩
      · intro before after responseUri heq
        have hnone := hopen.responses
        simp [heq, PostCall.response] at hnone
      · exact fun _ hdead => absurd hcell (hdead _)
      · exact fun _ hzero => absurd (hopen.outstanding.symm.trans hzero) hleft
      · exact fun _ => Or.inr ⟨by rwa [hopen.outstanding], hlookups⟩
  | complete calls responseUri hleft hcalls hopen hlookups hhandle =>
      have hone : responses c.calls = [responseUri] := by
        simp [hcalls, hopen.responses, PostCall.response]
      refine ⟨?_, by simp [hone], ?_, ?_, ?_, ?_, hanswered⟩
      · simp [hcalls, hopen.announced, PostCall.announced]
      · intro before after _ heq p err
        simp [not_mem_after_finished hopen.responses (hcalls.symm.trans heq)]
      · exact fun _ _ => by simp [hone]
      · exact fun _ _ => by simp [hone]
      · intro _
        rw [hone, hlookups]
        exact Or.inl rfl
  | cut calls responseUri n hn hdead hcalls hopen hlookups =>
      have hone : responses c.calls = [responseUri] := by
        simp [hcalls, hopen.responses, PostCall.response]
      -- the connection has ended with a part of the body outstanding
      have hleft : outstanding c.calls ≠ 0 := by
        simpa [hcalls, hopen.outstanding, PostCall.remaining] using hn
      refine ⟨?_, by simp [hone], ?_, ?_, ?_, ?_, hanswered⟩
      · simp [hcalls, hopen.announced, PostCall.announced]
      · intro before after _ heq p err
        simp [not_mem_after_finished hopen.responses (hcalls.symm.trans heq)]
      · exact fun _ _ => by simp [hone]
      · exact fun _ hzero => absurd hzero hleft
      · exact fun _ => Or.inr ⟨hleft, hlookups⟩

/-! ## Sending and closing -/

/-- Sending looks nothing up, and goes on only with a file. -/
theorem httpSend_settles (self : Nat) (o : Oracle) {d : Ctx σ} (hcell : d.cell = .live hs)
    (hopen : d.pcb.status = .opened) (harg : d.pcb.callbackArg = .state hs.addr) (hself : hs.pcb = self)
    (hactive : Active site d.pcb hs) :
    Linked site self (httpSend site o d).2.leave ∧
      lookups (httpSend site o d).2.leave.pcb.trace = lookups d.pcb.trace ∧
      ∀ hs', (httpSend site o d).2.leave.cell = .live hs' → hs'.handle ≠ none := by
  have hmoves : Moves site False d (httpSend site o d).2.leave :=
    httpSend_moves_leave hcell hopen harg hactive False.elim
  refine ⟨(hmoves.invariant (I := fun _ => True) (fun _ _ _ _ _ => trivial)
    (.active hopen hcell harg hself hactive) trivial).1, ?_, ?_⟩
  · rw [Ctx.leave_pcb, httpSend_lookups hcell hopen hactive]
  · intro hs' hlive
    obtain ⟨pcb', hs'', hsends, hsent, ⟨hleft, hstay⟩ | hdone⟩ :=
      httpSend_sentTo (o := o) hcell hopen hactive
    · have harg' : pcb'.callbackArg = .state hs.addr := hsends.callbackArg_eq.trans harg
      rw [hstay, Ctx.leave_of_state (by exact harg')] at hlive
      obtain rfl := Cell.live.inj hlive
      rw [hsent.1]
      rcases hactive.2 with ⟨hwaiting, -⟩ | ⟨f, is09, hserving, -⟩
      · exact absurd hwaiting.left hleft
      · simp [hserving.handle]
    · rw [hdone, Ctx.leave_closed] at hlive
      cases hlive

theorem linked_closed {d : Ctx σ} (h : Linked site self d) (hcell : d.cell = .live hs) (o : Oracle) :
    Linked site self { d.closed o hs with cell := .null } := by
  have hmove : Move site False d { d.closed o hs with cell := .null } := .close hcell False.elim o
  exact hmove.linked h

/-- Closing tells the application of the end of an outstanding body. -/
theorem Signalled.of_told (hleft : c.postContentLenLeft ≠ 0)
    (hopen : Open c.calls c.postContentLenLeft) (hlookups : lookups c.ctx.pcb.trace = [])
    (hlinked : ∀ sys, Linked site self { ({ c.ctx with sys } : Ctx σ).closed o hs with cell := .null }) :
    Signalled site self (((c.told app).map (Ctx.closed o hs)).map Ctx.leave) := by
  rw [PostCtx.told, if_pos hleft]
  refine ⟨hlinked _, .cut c.calls _ c.postContentLenLeft hleft
    (fun _ hlive => Cell.noConfusion hlive) rfl hopen ?_⟩
  have htrace : lookups (c.ctx.pcb.trace ++ hs.releases ++ [.closed o.close]) = [] := by
    simp [hlookups, Action.lookup]
  exact htrace

/-! ## The body -/

/-- The connection `i` has taken the request and waits for the body. -/
structure Awaiting (site : Site σ) (i : Nat) (c : Ctx σ) (hs : HttpState) : Prop where
  opened : c.pcb.status = .opened
  cell : c.cell = .live hs
  arg : c.pcb.callbackArg = .state hs.addr
  self_eq : hs.pcb = i
  active : Active site c.pcb hs
  waiting : hs.Waiting
  req : hs.req = []

theorem Awaiting.linked {d : Ctx σ} (h : Awaiting site self d hs) : Linked site self d :=
  .active h.opened h.cell h.arg h.self_eq h.active

/-- A connection that waits stays so when nothing is answered. -/
theorem Awaiting.congr {d d' : Ctx σ} (h : Awaiting site self d hs) (n : Nat)
    (hcell : d'.cell = .live { hs with retries := n }) (hopen : d'.pcb.status = .opened)
    (harg : d'.pcb.callbackArg = d.pcb.callbackArg) (hsame : SameAnswer d'.pcb.trace d.pcb.trace) :
    Awaiting site self d' { hs with retries := n } where
  opened := hopen
  cell := hcell
  arg := harg.trans h.arg
  self_eq := h.self_eq
  active := (h.active.retries n).congr hopen hsame
  waiting := ⟨h.waiting.handle, h.waiting.file, h.waiting.left, h.waiting.ssi⟩
  req := h.req

theorem Awaiting.closed {d : Ctx σ} (h : Awaiting site self d hs) (sys : Sys σ) :
    Linked site self { ({ d with sys } : Ctx σ).closed o hs with cell := .null } :=
  linked_closed (d := { d with sys }) (.active h.opened h.cell h.arg h.self_eq h.active) h.cell o

theorem Awaiting.finished {d : Ctx σ} (h : Awaiting site self d hs) (sys : Sys σ) :
    Linked site self { ({ d.log .eof with sys } : Ctx σ).closed o hs with cell := .null } := by
  have hmove : Move site False { d with sys } { (({ d with sys } : Ctx σ).log .eof).closed o hs with
      cell := .null } := .finish (by exact h.cell) False.elim h.waiting.left o
  exact hmove.linked (.active h.opened h.cell h.arg h.self_eq h.active)

/-- The file that is opened while a connection waits is the one that it serves. -/
theorem Awaiting.found {d : Ctx σ} (h : Awaiting site self d hs) {hs' : HttpState} {n : Nat}
    {acts : List Action} (hfound : Found false d.pcb.nextId hs hs' n acts) (uri : List UInt8) :
    Active site
      { d.pcb with nextId := n, trace := d.pcb.trace ++ .findFile uri false :: acts } hs' := by
  have hreq : hs'.req = [] := hfound.req_eq.trans h.req
  have hself : ({ hs' with req := [] } : HttpState) = hs' := by rw [← hreq]
  obtain ⟨heof, henq, hins, hnone⟩ := h.active.unanswered h.waiting
  have hactive : Active site _ { hs' with req := [] } := hfound.active
    (q := { d.pcb with nextId := n, trace := d.pcb.trace ++ .findFile uri false :: acts })
    h.opened heof henq hins hnone uri [] (by simp [freed])
  rwa [hself] at hactive

/-- With the request taken, the body is awaited. -/
theorem Awaiting.accepted (hopen : c.ctx.pcb.status = .opened)
    (harg : c.ctx.pcb.callbackArg = .state hs.addr) (hself : hs.pcb = self)
    (hactive : Active site c.ctx.pcb hs) (hwaiting : hs.Waiting) (p heads : List Pbuf)
    (call : PostCall) (n : Nat) (sys : Sys σ) :
    Awaiting site self (c.accepted hs p heads call n sys).ctx { hs with req := [] } := by
  have hsame : SameAnswer (c.ctx.pcb.trace ++ queued p ++ freed heads) c.ctx.pcb.trace :=
    (SameAnswer.append_quiet _ (freed_quiet _)).trans (.append_quiet _ (queued_quiet _))
  exact ⟨hopen, rfl, harg, hself, hactive.withReq hwaiting hsame [],
    ⟨hwaiting.handle, hwaiting.file, hwaiting.left, hwaiting.ssi⟩, rfl⟩

/-- The application has been handed a chain. If it refuses nothing but the last one, the rest of
the body is awaited, or the file that it names is sent. -/
theorem Signalled.of_body {p : List Pbuf} (h : Awaiting site self c.ctx hs)
    (hopen : Open c.calls c.postContentLenLeft) (hlookups : lookups c.ctx.pcb.trace = [])
    (hout : Post.BodyOutcome app p c hs c')
    (horderly : (app.httpdPostReceiveData hs.addr c.ctx.sys.app p).1 = .ok ∨
      c.postContentLenLeft ≤ totLen p) :
    Signalled site self
      ((if c'.postContentLenLeft = 0 then (Post.httpSend site app o c').2 else c').map
        Ctx.leave) := by
  cases hout with
  | more sys hok hleft =>
      dsimp only
      rw [if_neg hleft, PostCtx.map, Ctx.leave_of_state (by exact h.arg)]
      have hcalls : Open (c.calls ++ [.receiveData p .ok]) (c.postContentLenLeft - totLen p) :=
        ⟨by simp [hopen.announced, PostCall.announced], by simp [hopen.responses, PostCall.response],
          by simp [hopen.outstanding, PostCall.remaining]⟩
      exact ⟨.active h.opened h.cell h.arg h.self_eq h.active,
        .body h.cell h.waiting h.req hleft hcalls hlookups⟩
  | done err responseUri hs' n acts sys herr hlast hfound =>
      -- a refusal ends the body only when it is complete
      have hleft : c.postContentLenLeft - totLen p = 0 := by
        rcases hlast with hrefused | hzero
        · have hle := horderly.resolve_left (fun hok => hrefused (herr.symm.trans hok))
          omega
        · exact hzero
      have hactive := h.found hfound responseUri
      have harg : c.ctx.pcb.callbackArg = .state hs'.addr := by
        rw [hfound.addr_eq]
        exact h.arg
      obtain ⟨hlinked, hsame, hhandle⟩ := httpSend_settles self o
        (d :=
          { sys
            cell := .live hs'
            pcb := { c.ctx.pcb with
              nextId := n, trace := c.ctx.pcb.trace ++ .findFile responseUri false :: acts } })
        rfl h.opened harg (hfound.pcb_eq.trans h.self_eq) hactive
      dsimp only
      rw [if_pos hleft, Post.httpSend_done (by rfl) (by exact hleft)]
      refine ⟨hlinked, .complete (c.calls ++ [.receiveData p err]) responseUri hleft ?_ ?_ ?_ hhandle⟩
      · simp [PostCtx.map, PostCtx.lift]
      · refine ⟨by simp [hopen.announced, PostCall.announced],
          by simp [hopen.responses, PostCall.response], ?_⟩
        simp [hopen.outstanding, PostCall.remaining, hleft]
      · refine hsame.trans ?_
        simp [hlookups, Action.lookup, lookups_of_opening hfound.opens.isOpening]

/-- A callback while a body is outstanding. -/
theorem Signalled.step_body (h : Awaiting site self c.ctx hs) (hleft : c.postContentLenLeft ≠ 0)
    (hopen : Open c.calls c.postContentLenLeft) (hlookups : lookups c.ctx.pcb.trace = []) {e : Call}
    (horderly : Orderly app c (.call e)) :
    Signalled site self (postStep site app c (.call e)) := by
  obtain ⟨hreset, hoffers⟩ := horderly hs h.cell
  have hwindow : Awaiting site self (c.ctx.window e) hs :=
    h.congr hs.retries h.cell h.opened rfl (.refl _)
  cases hcallback : e.callback with
  | recv p err =>
      have harrived : Awaiting site self (c.arrived e p).ctx hs :=
        h.congr hs.retries h.cell h.opened rfl (.refl _)
      by_cases hfin : err ≠ .ok ∨ p.payloads = []
      · rw [postStep, if_pos h.opened, PostCtx.call_recv hcallback,
          Post.httpRecv_fin harrived.cell harrived.opened (by simpa using hfin)]
        -- the connection is closed, and the application is told so
        have hdropped : Awaiting site self
            { (c.arrived e p).ctx with
              pcb := { (c.arrived e p).ctx.pcb with
                trace := (c.arrived e p).ctx.pcb.trace ++
                  freed (pbufChain c.ctx.pcb.nextId p.payloads) } } hs :=
          harrived.congr hs.retries harrived.cell harrived.opened rfl
            (.append_quiet _ (freed_quiet _))
        have htrace : lookups (c.ctx.pcb.trace ++ freed (pbufChain c.ctx.pcb.nextId p.payloads)) =
            [] := by
          simpa using hlookups
        exact .of_told hleft hopen htrace hdropped.closed
      · obtain ⟨rfl, hdata⟩ : err = .ok ∧ p.payloads ≠ [] := by simpa using hfin
        obtain ⟨c', hout, hstep⟩ :=
          postStep_body site app h.cell h.opened hleft h.waiting hcallback hdata
        rw [hstep]
        -- what arrives resets the counter of retries
        have hreset : Awaiting site self
            { (c.arrived e p).ctx with cell := .live { hs with retries := 0 } }
            { hs with retries := 0 } :=
          harrived.congr 0 rfl harrived.opened rfl (.refl _)
        exact .of_body (c := { c.arrived e p with ctx := _ }) hreset hopen hlookups hout
          (hoffers _ _ _ (.body hcallback hdata (Nat.pos_of_ne_zero hleft)))
  | sent =>
      have hreset : Awaiting site self
          { c.ctx.window e with cell := .live { hs with retries := 0 } } { hs with retries := 0 } :=
        hwindow.congr 0 rfl hwindow.opened rfl (.refl _)
      have htrace : lookups (c.ctx.pcb.trace ++ [.eof]) = [] := by
        simp [hlookups, Action.lookup]
      simp only [postStep, if_pos h.opened, PostCtx.call, hcallback]
      rw [Post.httpSent_live (by exact hwindow.cell), Post.httpSend_waiting (by rfl) hreset.waiting,
        Post.httpEof_live (by rfl) (by exact hreset.opened)]
      exact .of_told hleft hopen htrace hreset.finished
  | poll =>
      have hcounted : Awaiting site self ((c.ctx.window e).counted hs)
          { hs with retries := u8 (hs.retries + 1) } :=
        hwindow.congr _ rfl hwindow.opened rfl (.refl _)
      by_cases hlimit : u8 (hs.retries + 1) = maxRetries
      · simp only [postStep, if_pos h.opened, PostCtx.call, hcallback]
        rw [Post.httpPoll_counted (by exact hwindow.cell), if_pos hlimit,
          Post.httpCloseConn_live (by exact hcounted.cell) (by exact hcounted.opened)]
        exact .of_told hleft hopen hlookups hcounted.closed
      · rw [postStep_counts h.cell h.opened h.arg h.waiting.handle hcallback hlimit]
        exact ⟨hcounted.linked, .body hcounted.cell hcounted.waiting hcounted.req hleft hopen hlookups⟩
  | err => exact absurd (hreset hcallback) hleft

/-! ## No body outstanding -/

/-- As long as no body is outstanding, what the application has been told stays as it is. -/
theorem Record.still (h : Record c) (hdone : c.postContentLenLeft = 0 ∨ ∀ hs, c.ctx.cell ≠ .live hs)
    (hleft : c'.postContentLenLeft = c.postContentLenLeft) (hcalls : c'.calls = c.calls)
    (hlookups : lookups c'.ctx.pcb.trace = lookups c.ctx.pcb.trace)
    (hlive : ∀ hs', c'.ctx.cell = .live hs' →
      ∃ hs, c.ctx.cell = .live hs ∧ (hs'.handle = none → hs.handle = none)) : Record c' := by
  cases h with
  | idle hleft' hannounced hresponses hnone =>
      refine .idle (hleft.trans hleft') (hcalls ▸ hannounced) (hcalls ▸ hresponses) ?_
      intro hs' hcell hhandle
      obtain ⟨hs, hcell', hhandle'⟩ := hlive hs' hcell
      rw [hlookups]
      exact hnone hs hcell' (hhandle' hhandle)
  | body hcell hwaiting hreq hleft' =>
      rcases hdone with hzero | hdead
      · exact absurd hzero hleft'
      · exact absurd hcell (hdead _)
  | complete calls responseUri hleft' hcalls' hopen hone hhandle =>
      refine .complete calls responseUri (hleft.trans hleft') (hcalls.trans hcalls') hopen
        (hlookups.trans hone) ?_
      intro hs' hcell hnone
      obtain ⟨hs, hcell', hnone'⟩ := hlive hs' hcell
      exact hhandle hs hcell' (hnone' hnone)
  | cut calls responseUri n hn hdead hcalls' hopen hnone =>
      refine .cut calls responseUri n hn ?_ (hcalls.trans hcalls') hopen (hlookups.trans hnone)
      intro hs' hcell
      obtain ⟨hs, hcell', -⟩ := hlive hs' hcell
      exact hdead hs hcell'

/-- A callback of a connection without a state. -/
theorem Signalled.step_dead (h : Signalled site self c) (hdead : ∀ hs, c.ctx.cell ≠ .live hs)
    (e : Call) : Signalled site self (postStep site app c (.call e)) := by
  cases h.linked with
  | active hopen hcell => exact absurd hcell (hdead _)
  | closing hopen hcell =>
      have hmoves := connStep_moves_free h.linked (.call e)
      obtain ⟨hdead', acts, htrace, -, hlookups⟩ := hmoves.dead hdead
      rw [postStep_null hcell]
      refine ⟨(hmoves.invariant (I := fun _ => True) (fun _ _ _ _ _ => trivial) h.linked
        trivial).1, h.record.still (Or.inr hdead) rfl rfl ?_ ?_⟩
      · simp only [PostCtx.map]
        rw [htrace, lookups_append, hlookups, List.append_nil]
      · exact fun hs' hlive => absurd hlive (hdead' hs')
  | ended hended =>
      rw [postStep, if_neg hended]
      exact h

/-- A callback that gives the parser nothing, while no body is outstanding. -/
theorem Signalled.step_done (h : Signalled site self c) (hcell : c.ctx.cell = .live hs)
    (hopen : c.ctx.pcb.status = .opened) (harg : c.ctx.pcb.callbackArg = .state hs.addr)
    (hself : hs.pcb = self) (hactive : Active site c.ctx.pcb hs)
    (hleft : c.postContentLenLeft = 0) {e : Call}
    (hidle : ∀ p, e.callback = .recv p .ok → p.payloads ≠ [] → hs.handle ≠ none) :
    Signalled site self (postStep site app c (.call e)) := by
  have hreq : hs.handle ≠ none → hs.req = [] := by
    intro hhandle
    rcases hactive.2 with ⟨hwaiting, -⟩ | ⟨_, _, _, hreq, -⟩
    · exact absurd hwaiting.handle hhandle
    · exact hreq
  have hmoves := connStep_moves_free h.linked (.call e)
  have hreaction := reaction hcell hopen harg hactive e
  rw [postStep_done hcell hopen hleft hreq hidle]
  refine ⟨(hmoves.invariant (I := fun _ => True) (fun _ _ _ _ _ => trivial) h.linked trivial).1, ?_⟩
  have hstill : lookups (connStep site c.ctx (.call e)).pcb.trace = lookups c.ctx.pcb.trace →
      (∀ hs', (connStep site c.ctx (.call e)).cell = .live hs' → hs'.handle = none →
        hs.handle = none) → Record (c.map (connStep site · (.call e))) :=
    fun hlookups hlive => h.record.still (Or.inl hleft) rfl rfl hlookups
      fun hs' hcell' => ⟨hs, hcell, hlive hs' hcell'⟩
  cases hreaction with
  | torn acts htears htrace hquiet hlookups hdead =>
      refine hstill ?_ fun hs' hlive => absurd hlive (hdead hs')
      rw [htrace, lookups_append, hlookups, List.append_nil]
  | arrives p hcallback hdata hwaiting => exact absurd hwaiting.handle (hidle p hcallback hdata)
  | ignores p hcallback hhandle heq =>
      rw [heq] at hstill
      refine hstill rfl fun hs' hlive hnone => ?_
      obtain rfl := Cell.live.inj (hcell.symm.trans hlive)
      exact hnone
  | counts hcallback hlimit hhandle heq =>
      rw [heq] at hstill
      exact hstill rfl fun _ _ _ => hhandle
  | sends n hn heq =>
      obtain ⟨-, hsame, hhandle⟩ := httpSend_settles self e.oracle
        (d := { c.ctx.window e with cell := .live { hs with retries := n } }) rfl hopen harg hself
        ((hactive.retries n).congr hopen (.refl _))
      have hsame' : lookups (c.ctx.tried site e hs n).pcb.trace = lookups c.ctx.pcb.trace := hsame
      rcases heq with heq | heq
      · rw [heq] at hstill
        exact hstill hsame' fun hs' hlive hnone => absurd hnone (hhandle hs' hlive)
      · rw [heq] at hstill
        refine hstill ?_ fun hs' hlive hnone => absurd hnone (hhandle hs' hlive)
        simpa [Ctx.log, Pcb.log, Action.lookup] using hsame'

/-! ## Data for the parser -/

/-- The file that has been found for a request is sent. -/
theorem Signalled.of_found (hopen : c.ctx.pcb.status = .opened)
    (harg : c.ctx.pcb.callbackArg = .state hs.addr) (hself : hs.pcb = self)
    (hactive : Active site c.ctx.pcb hs) (hwaiting : hs.Waiting) (hleft : c.postContentLenLeft = 0)
    {calls : List PostCall} (hannounced : announced calls = []) (hresponses : responses calls = [])
    {p : List Pbuf} {is09 : Bool} {uri : List UInt8} {hs' : HttpState} {n : Nat}
    {acts : List Action}
    (hfound : Found is09 c.ctx.pcb.nextId { hs with req := hs.req ++ p } hs' n acts)
    (sys : Sys σ) :
    Signalled site self
      ((Post.httpRecvParsed site app o .ok
        { c with
          ctx :=
            { sys
              cell := .live hs'
              pcb := { c.ctx.pcb with
                nextId := n
                trace := c.ctx.pcb.trace ++ queued p ++ .findFile uri is09 :: acts } }
          calls }).map Ctx.leave) := by
  have hactive' := hactive.dispatched hwaiting hfound
    (q := { c.ctx.pcb with
      nextId := n
      trace := c.ctx.pcb.trace ++ queued p ++ .findFile uri is09 :: acts ++ freed hs'.req })
    hopen uri _ _ rfl
  have harg' : c.ctx.pcb.callbackArg = .state hs'.addr := by
    rw [hfound.addr_eq]
    exact harg
  obtain ⟨hlinked, -, hhandle⟩ := httpSend_settles self o
    (d :=
      { sys
        cell := .live { hs' with req := [] }
        pcb := { c.ctx.pcb with
          nextId := n
          trace := c.ctx.pcb.trace ++ queued p ++ .findFile uri is09 :: acts ++ freed hs'.req } })
    rfl hopen harg' (hfound.pcb_eq.trans hself) hactive'
  rw [Post.httpRecvParsed_done .ok (by rfl) (by exact hleft)]
  simp only [PostCtx.map]
  rw [httpRecvParsed_ok hs' rfl]
  exact ⟨hlinked, .idle hleft hannounced hresponses
    fun hs'' hlive hnone => absurd hnone (hhandle hs'' hlive)⟩

/-- The application has accepted a POST, and is handed what of the body has come with the header. -/
theorem Signalled.of_accepted (h : Awaiting site self c.ctx hs) (hleft : c.postContentLenLeft ≠ 0)
    (hopen : Open c.calls c.postContentLenLeft) (hlookups : lookups c.ctx.pcb.trace = [])
    {q : List Pbuf} {startOffset : Nat}
    (hbody : if q = [] then c' = c
      else Post.BodyOutcome app (Post.hideHeader startOffset q) c hs c')
    (horderly : q ≠ [] →
      (app.httpdPostReceiveData hs.addr c.ctx.sys.app (Post.hideHeader startOffset q)).1 = .ok ∨
        c.postContentLenLeft ≤ totLen (Post.hideHeader startOffset q)) :
    Signalled site self ((Post.httpRecvParsed site app o .ok c').map Ctx.leave) := by
  by_cases hq : q = []
  · rw [if_pos hq] at hbody
    subst hbody
    rw [Post.httpRecvParsed_accepted h.cell h.req, if_neg hleft, PostCtx.map,
      Ctx.leave_of_state (by exact h.arg)]
    exact ⟨h.linked, .body h.cell h.waiting h.req hleft hopen hlookups⟩
  · rw [if_neg hq] at hbody
    obtain ⟨hs', hcell', hreq'⟩ := hbody.req h.cell h.req
    rw [Post.httpRecvParsed_accepted hcell' hreq']
    exact .of_body h hopen hlookups hbody (horderly hq)

/-- Data that arrives while the connection waits for its request. -/
theorem Signalled.step_parse (hcell : c.ctx.cell = .live hs) (hopen : c.ctx.pcb.status = .opened)
    (harg : c.ctx.pcb.callbackArg = .state hs.addr) (hself : hs.pcb = self)
    (hactive : Active site c.ctx.pcb hs) (hwaiting : hs.Waiting) (hleft : c.postContentLenLeft = 0)
    (hannounced : announced c.calls = []) (hresponses : responses c.calls = [])
    (hlookups : lookups c.ctx.pcb.trace = []) {e : Call} {p : Delivery}
    (hcallback : e.callback = .recv p .ok) (hdata : p.payloads ≠ [])
    (horderly : Orderly app c (.call e)) : Signalled site self (postStep site app c (.call e)) := by
  have hoffers := (horderly hs hcell).2
  obtain ⟨result, hspec, hstep⟩ := postStep_waiting site app hcell hopen hleft hwaiting
    hcallback hdata
  rw [hstep]
  have harrived : Active site (c.arrived e p).ctx.pcb hs := hactive.congr hopen (.refl _)
  -- the queue is kept when the header is not complete, or not found to be
  have hstays : ∀ sys, Signalled site self
      ((Post.httpRecvParsed site app e.oracle .inprogress ((c.arrived e p).map
        (·.withQueued hs (pbufChain c.ctx.pcb.nextId p.payloads) sys))).map Ctx.leave) := by
    intro sys
    have hqueued := harrived.withReq hwaiting
      (q := { (c.arrived e p).ctx.pcb with
        trace := c.ctx.pcb.trace ++ queued (pbufChain c.ctx.pcb.nextId p.payloads) })
      (.append_quiet _ (queued_quiet _)) (hs.req ++ pbufChain c.ctx.pcb.nextId p.payloads)
    rw [httpRecvParsed_queued (by exact harg) (by exact hleft)]
    refine ⟨.active hopen rfl harg hself hqueued, .idle hleft hannounced hresponses fun _ _ _ => ?_⟩
    simpa [PostCtx.map, PostCtx.arrived, Ctx.withQueued, Ctx.received, Ctx.window] using hlookups
  cases hspec with
  | incomplete sys => exact hstays sys
  | unannounced sys uriLen => exact hstays sys
  | rejected sys =>
      have hqueued := harrived.withReq hwaiting
        (q := { (c.arrived e p).ctx.pcb with
          trace := c.ctx.pcb.trace ++ queued (pbufChain c.ctx.pcb.nextId p.payloads) ++
            freed (hs.req ++ pbufChain c.ctx.pcb.nextId p.payloads) })
        ((SameAnswer.append_quiet _ (freed_quiet _)).trans (.append_quiet _ (queued_quiet _))) []
      rw [Post.httpRecvParsed_done .arg (by rfl) (by exact hleft)]
      simp only [PostCtx.map]
      rw [httpRecvParsed_arg (by rfl) (by exact hopen), Ctx.leave_closed]
      refine ⟨linked_closed ?_ (by rfl) e.oracle, ?_⟩
      · exact .active hopen rfl harg hself hqueued
      · exact .idle hleft hannounced hresponses fun hs' hlive => Cell.noConfusion hlive
  | found uriLen is09 uri hs' n acts sys hparsed hfound =>
      exact .of_found (c := c.arrived e p) hopen harg hself harrived hwaiting hleft hannounced
        hresponses hfound sys
  | denied uriLen h err state uri hs' n acts sys hbegins herr hfound =>
      -- a POST that is denied is not counted as announced
      have hdenied : (Post.beginCall e.oracle (hs.req ++ pbufChain c.ctx.pcb.nextId p.payloads)
          c.ctx.sys.httpdReqBuf uriLen h err).announced = none := by
        cases err with
        | ok => exact absurd rfl herr
        | _ => rfl
      refine .of_found (c := c.arrived e p) hopen harg hself harrived hwaiting hleft ?_ ?_ hfound sys
      · rw [announced_append, announced_cons]
        exact congrArg₂ (· ++ ·) hannounced (congrArg (·.toList ++ []) hdenied)
      · rw [responses_append]
        exact congrArg (· ++ []) hresponses
  | accepted uriLen h heads q startOffset sys c' hbegins hskip hbody =>
      have hbegins' : Post.Begins app e.oracle (hs.req ++ pbufChain c.ctx.pcb.nextId p.payloads)
        c.ctx.sys hs.addr uriLen h .ok sys.app := hbegins
      have hlength : u32 h.contentLen.toNat = h.contentLen.toNat :=
        Post.u32_contentLen hbegins'.header
      have hpos := hbegins'.pos
      have hzero : u32 h.contentLen.toNat ≠ 0 := by
        rw [hlength]
        omega
      have hbase : Awaiting site self ((c.arrived e p).accepted hs
          (pbufChain c.ctx.pcb.nextId p.payloads) heads
          (Post.beginCall e.oracle (hs.req ++ pbufChain c.ctx.pcb.nextId p.payloads)
            c.ctx.sys.httpdReqBuf uriLen h .ok) (u32 h.contentLen.toNat) sys).ctx
          { hs with req := [] } :=
        .accepted (c := c.arrived e p) hopen harg hself harrived hwaiting _ _ _ _ sys
      have hbegun : Open (c.calls ++ [Post.beginCall e.oracle
          (hs.req ++ pbufChain c.ctx.pcb.nextId p.payloads) c.ctx.sys.httpdReqBuf uriLen h .ok])
          (u32 h.contentLen.toNat) := by
        refine ⟨?_, ?_, ?_⟩
        · simp [hannounced, Post.beginCall, PostCall.announced]
        · simp [hresponses, Post.beginCall, PostCall.response]
        · simp [Post.beginCall, PostCall.remaining, hlength]
      have hnone : lookups (c.ctx.pcb.trace ++ queued (pbufChain c.ctx.pcb.nextId p.payloads) ++
          freed heads) = [] := by
        simp [hlookups]
      exact .of_accepted hbase hzero hbegun hnone hbody fun hq =>
        hoffers _ _ _ (.first hcallback hdata hwaiting.handle hleft hbegins' hskip hq)

/-- What happens to other connections changes nothing that the application has been told. -/
theorem Record.others (h : Record c) (sys : Sys σ) : Record (c.map ({ · with sys })) := by
  cases h with
  | idle hleft hannounced hresponses hlookups => exact .idle hleft hannounced hresponses hlookups
  | body hcell hwaiting hreq hleft hopen hlookups =>
      exact .body hcell hwaiting hreq hleft hopen hlookups
  | complete calls responseUri hleft hcalls hopen hlookups hhandle =>
      exact .complete calls responseUri hleft hcalls hopen hlookups hhandle
  | cut calls responseUri n hn hdead hcalls hopen hlookups =>
      exact .cut calls responseUri n hn hdead hcalls hopen hlookups

theorem Signalled.step (h : Signalled site self c) {e : ConnEvent σ} (horderly : Orderly app c e) :
    Signalled site self (postStep site app c e) := by
  cases e with
  | others sys =>
      have hmove : Move site False c.ctx _ := .share c.ctx sys
      exact ⟨hmove.linked h.linked, h.record.others sys⟩
  | call e =>
      cases h.linked with
      | closing hopen hcell =>
          exact h.step_dead (fun hs hlive => by rw [hcell] at hlive; cases hlive) e
      | ended hended hcell => exact h.step_dead hcell e
      | @active hs hopen hcell harg hself hactive =>
          cases h.record with
          | cut _ _ _ _ hdead => exact absurd hcell (hdead hs)
          | body hcell' hwaiting hreq hleft hbegun hlookups =>
              obtain rfl := Cell.live.inj (hcell'.symm.trans hcell)
              exact .step_body ⟨hopen, hcell, harg, hself, hactive, hwaiting, hreq⟩ hleft hbegun
                hlookups horderly
          | complete _ _ hleft _ _ _ hhandle =>
              exact h.step_done hcell hopen harg hself hactive hleft fun _ _ _ => hhandle hs hcell
          | idle hleft hannounced hresponses hlookups =>
              by_cases hparse : ∃ p, e.callback = .recv p .ok ∧ p.payloads ≠ [] ∧ hs.handle = none
              · obtain ⟨p, hcallback, hdata, hhandle⟩ := hparse
                have hwaiting : hs.Waiting := by
                  rcases hactive.2 with ⟨hwaiting, -⟩ | ⟨f, is09, hserving, -⟩
                  · exact hwaiting
                  · cases hhandle.symm.trans hserving.handle
                exact .step_parse hcell hopen harg hself hactive hwaiting hleft hannounced hresponses
                  (hlookups hs hcell hhandle) hcallback hdata horderly
              · exact h.step_done hcell hopen harg hself hactive hleft
                  fun p hcallback hdata hnone => hparse ⟨p, hcallback, hdata, hnone⟩

theorem accept_signalled (site : Site σ) (o : Oracle) (self addr : Nat) (sys : Sys σ) :
    Signalled site self (PostCtx.accept o self addr sys) := by
  refine ⟨accept_linked site o self addr sys, .idle rfl rfl rfl fun hs hlive _ => ?_⟩
  simp only [PostCtx.accept] at hlive ⊢
  rw [accept_eq] at hlive ⊢
  split at hlive
  next halloc =>
    rw [if_pos halloc]
    rfl
  next => cases hlive

/-- In every run in which the application refuses only data that completes a body, and no
connection is reset while a body is outstanding, a POST ends once. -/
theorem post_finished_once (site : Site σ) (app : PostApp σ) (o : Oracle) (self addr : Nat)
    (sys : Sys σ) (es : List (ConnEvent σ))
    (horderly : Run.Steps (postStep site app) (Orderly app) (.accept o self addr sys) es) :
    PostOnce site (Run.run (postStep site app) (.accept o self addr sys) es) := by
  have h := Run.invariant (I := Signalled site self) (fun _ _ h horderly => h.step horderly)
    (accept_signalled site o self addr sys) horderly
  apply h.record.postOnce
  cases h.linked with
  | active hopen hcell harg hself hactive => exact hactive.answered
  | closing hopen hcell harg hpoll hanswered => exact hanswered
  | ended hended hcell hanswered => exact hanswered

section Trial

/-- The application accepts every POST and names one file, and refuses the data `refused`. -/
def trialPostApp (refused : Option (List UInt8)) : PostApp Unit where
  httpdPostBegin _ state _ _ _ := (.ok, [], state)
  httpdPostReceiveData _ state p := (if refused = some (pbufBytes p) then .val else .ok, state)
  httpdPostFinished _ state := (chars "/c.htm", state)

def trialPostHeader : List UInt8 := chars "POST /p HTTP/1.0\r\nContent-Length: 5\r\n\r\n"

/-- A POST whose body arrives in two parts. -/
def trialPost : List (ConnEvent Unit) :=
  [.call (.data .willing 4 trialPostHeader (by decide)),
    .call (.data .willing 4 (chars "ab") (by decide)),
    .call (.data .willing 4 (chars "cde") (by decide))]

/-- A connection that is reset before the body of a POST arrives. -/
def trialReset : List (ConnEvent Unit) :=
  [.call (.data .willing 4 trialPostHeader (by decide)), .call (.under .err .willing 4)]

theorem post_finished_once_trial :
    PostOnce trialSite (Run.run (postStep trialSite (trialPostApp none))
      (.accept .willing 0 0 trialSys) trialPost) := by
  have hdata : ∀ c x hx, Orderly (trialPostApp none) c (.call (.data .willing 4 x hx)) :=
    fun _ _ _ _ _ => ⟨fun herr => Callback.noConfusion herr, fun _ _ _ _ => Or.inl rfl⟩
  exact post_finished_once trialSite (trialPostApp none) .willing 0 0 trialSys trialPost
    ⟨hdata _ _ _, hdata _ _ _, hdata _ _ _, trivial⟩

/-- The application refuses the first part of a body and is told of the end twice, or a connection
is reset and the application is not told of the end. -/
theorem post_finished_twice_or_never :
    ¬ PostOnce trialSite (Run.run (postStep trialSite (trialPostApp (some (chars "ab"))))
        (.accept .willing 0 0 trialSys) trialPost) ∧
      ¬ PostOnce trialSite (Run.run (postStep trialSite (trialPostApp none))
        (.accept .willing 0 0 trialSys) trialReset) := by
  constructor
  · intro h
    exact absurd h.responses_le (by decide +kernel)
  · intro h
    have hdead : (Run.run (postStep trialSite (trialPostApp none))
        (.accept .willing 0 0 trialSys) trialReset).ctx.cell.isLive = false := by
      decide +kernel
    have hended := h.ended (by decide +kernel) fun hs hlive => by
      rw [hlive] at hdead
      cases hdead
    exact absurd hended (by decide +kernel)

end Trial

end Meu1oARM
