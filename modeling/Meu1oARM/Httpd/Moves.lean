import Mathlib.Logic.Relation
import Meu1oARM.Httpd.Connection
import Meu1oARM.Httpd.Answer

/-! # The moves of a connection

Every callback is a sequence of a few elementary moves: data is queued, dropped or
ignored, a request is dispatched, some of the file is sent, the connection is
closed. A property that every move keeps holds whatever lwIP does.
-/

namespace Meu1oARM

open CString

variable {σ : Type}

/-- The elementary moves of an open connection. When `keep` holds, no connection is torn
down with a request in its queue. -/
inductive Move (site : Site σ) (keep : Prop) : Ctx σ → Ctx σ → Prop
  | window (c : Ctx σ) (e : Call) : Move site keep c (c.window e)
  | share (c : Ctx σ) (sys : Sys σ) : Move site keep c { c with sys }
  | retries {c : Ctx σ} {hs : HttpState} (hcell : c.cell = .live hs) (n : Nat) :
      Move site keep c { c with cell := .live { hs with retries := n } }
  | drop (c : Ctx σ) (xs : List (List UInt8)) :
      Move site keep c
        { c with
          pcb := { c.pcb with
            nextId := c.pcb.nextId + xs.length
            trace := c.pcb.trace ++ freed (pbufChain c.pcb.nextId xs) } }
  | ignore {c : Ctx σ} {hs : HttpState} (hcell : c.cell = .live hs) (hhandle : hs.handle ≠ none)
      (n : Nat) :
      Move site keep c { c with pcb := { c.pcb with nextId := c.pcb.nextId + n } }
  | queue {c : Ctx σ} {hs : HttpState} (hcell : c.cell = .live hs) (hwaiting : hs.Waiting)
      (p : Delivery) (hbounds : WithinBounds (hs.req ++ pbufChain c.pcb.nextId p.payloads)) :
      Move site keep c
        { c with
          cell := .live { hs with req := hs.req ++ pbufChain c.pcb.nextId p.payloads }
          pcb := { c.pcb with
            nextId := c.pcb.nextId + p.payloads.length
            trace := c.pcb.trace ++ queued (pbufChain c.pcb.nextId p.payloads) } }
  | discard {c : Ctx σ} {hs : HttpState} (hcell : c.cell = .live hs) (hwaiting : hs.Waiting)
      (xs : List (List UInt8)) :
      Move site keep c
        { c with
          cell := .live { hs with req := [] }
          pcb := { c.pcb with
            nextId := c.pcb.nextId + xs.length
            trace := c.pcb.trace ++ queued (pbufChain c.pcb.nextId xs) ++
              freed (hs.req ++ pbufChain c.pcb.nextId xs) } }
  | dispatch {c : Ctx σ} {hs hs' : HttpState} {n : Nat} {acts : List Action} (uri : List UInt8)
      (is09 : Bool) (hopen : c.pcb.status = .opened) (hcell : c.cell = .live hs)
      (hwaiting : hs.Waiting) (xs : List (List UInt8))
      (hfound : Found is09 (c.pcb.nextId + xs.length)
        { hs with req := hs.req ++ pbufChain c.pcb.nextId xs } hs' n acts) :
      Move site keep c
        { c with
          cell := .live { hs' with req := [] }
          pcb := { c.pcb with
            nextId := n
            trace := c.pcb.trace ++ queued (pbufChain c.pcb.nextId xs) ++
              .findFile uri is09 :: acts ++ freed (hs.req ++ pbufChain c.pcb.nextId xs) } }
  | send {c : Ctx σ} {hs hs' : HttpState} {pcb' : Pcb} (hcell : c.cell = .live hs)
      (hsends : c.pcb.Sends pcb') (hsent : hs.SentTo hs') (hactive : Active site pcb' hs') :
      Move site keep c { c with pcb := pcb', cell := .live hs' }
  | output (c : Ctx σ) : Move site keep c (c.log .output)
  | close {c : Ctx σ} {hs : HttpState} (hcell : c.cell = .live hs) (hkeep : keep → hs.req = [])
      (o : Oracle) : Move site keep c { c.closed o hs with cell := .null }
  | finish {c : Ctx σ} {hs : HttpState} (hcell : c.cell = .live hs) (hkeep : keep → hs.req = [])
      (hleft : hs.left = 0) (o : Oracle) :
      Move site keep c { (c.log .eof).closed o hs with cell := .null }
  | reset {c : Ctx σ} {hs : HttpState} (hcell : c.cell = .live hs) (hkeep : keep → hs.req = []) :
      Move site keep c
        { c with
          cell := .freed
          pcb := { c.pcb with status := .reset, trace := c.pcb.trace ++ hs.releases } }
  | closeNull {c : Ctx σ} (hopen : c.pcb.status = .opened) (hcell : c.cell = .null) (o : Oracle) :
      Move site keep c { c with pcb := c.pcb.shut o [] }
  | abortNull {c : Ctx σ} (hopen : c.pcb.status = .opened) (hcell : c.cell = .null) :
      Move site keep c
        { c with
          pcb := { c.pcb with status := .aborted, trace := c.pcb.trace ++ [.aborted] } }
  | resetNull {c : Ctx σ} (hopen : c.pcb.status = .opened) (hcell : c.cell = .null) :
      Move site keep c { c with pcb := { c.pcb with status := .reset } }

/-- A sequence of moves. -/
abbrev Moves (site : Site σ) (keep : Prop) : Ctx σ → Ctx σ → Prop :=
  Relation.ReflTransGen (Move site keep)

variable {site : Site σ} {keep : Prop} {o : Oracle} {c : Ctx σ} {hs : HttpState}

theorem Move.toMoves {c c' : Ctx σ} (h : Move site keep c c') : Moves site keep c c' := .single h

theorem Ctx.leave_of_state {a : Nat} (harg : c.pcb.callbackArg = .state a) : c.leave = c := by
  simp [leave, harg]

theorem Ctx.leave_of_null (hcell : c.cell = .null) : c.leave = c := by
  obtain ⟨pcb, cell, sys⟩ := c
  subst hcell
  unfold leave
  split <;> rfl

/-! ## The callbacks -/

/-- `http_send` sends something, or finds the end of the file and closes. -/
theorem httpSend_moves (keep : Prop) (hcell : c.cell = .live hs) (hopen : c.pcb.status = .opened)
    (hactive : Active site c.pcb hs) :
    ∃ pcb' hs', Moves site keep c { c with pcb := pcb', cell := .live hs' } ∧
      c.pcb.Sends pcb' ∧ hs'.req = hs.req ∧
      ((httpSend site o c).2 = { c with pcb := pcb', cell := .live hs' } ∨
        (hs'.left = 0 ∧
          httpSend site o c =
            (0, ({ c with pcb := pcb', cell := .live hs' }.log .eof).closed o hs'))) := by
  have hself : ({ c with cell := .live hs } : Ctx σ) = c := by rw [← hcell]
  by_cases hleft : hs.left = 0
  · refine ⟨c.pcb, hs, by rw [hself], .refl _, rfl, Or.inr ⟨hleft, ?_⟩⟩
    rw [hself]
    refine httpSend_eof hcell hopen hleft ?_
    obtain ⟨_, ⟨hwaiting, _⟩ | ⟨f, is09, hserving, _⟩⟩ := hactive
    · simp [hwaiting.handle]
    · simp [hserving.handle, hserving.index]
  · obtain ⟨heof, ⟨hwaiting, _⟩ | ⟨f, is09, hserving, hreq, hone⟩⟩ := hactive
    · exact absurd hwaiting.left hleft
    · obtain ⟨pcb', hs', hsends, hsent, hserving', hout⟩ :=
        httpSend_serving (o := o) hcell hleft hserving
      have hreq' : hs'.req = hs.req := by rw [hsent.1]
      have hactive' : Active site pcb' hs' := .sent heof hone hreq hsends hsent hserving'
      exact ⟨pcb', hs', (Move.send hcell hsends hsent hactive').toMoves, hsends, hreq',
        hout.imp And.right id⟩

/-- When the state is reached through the callback argument, so it is after sending. -/
theorem httpSend_moves_leave (hcell : c.cell = .live hs) (hopen : c.pcb.status = .opened)
    (harg : c.pcb.callbackArg = .state hs.addr) (hactive : Active site c.pcb hs)
    (hkeep : keep → hs.req = []) : Moves site keep c (httpSend site o c).2.leave := by
  obtain ⟨pcb', hs', hmoves, hsends, hreq, hstay | ⟨hleft, hdone⟩⟩ :=
    httpSend_moves (o := o) keep hcell hopen hactive
  · rw [hstay]
    simpa [Ctx.leave, hsends.callbackArg_eq, harg] using hmoves
  · rw [hdone]
    exact hmoves.tail (.finish rfl (fun hk => hreq.trans (hkeep hk)) hleft o)

/-- Before `http_sent` and `http_poll` send anything, they touch only the retry counter. -/
theorem httpSent_moves (hcell : c.cell = .live hs) (hopen : c.pcb.status = .opened)
    (harg : c.pcb.callbackArg = .state hs.addr) (hactive : Active site c.pcb hs)
    (hkeep : keep → hs.req = []) : Moves site keep c (httpSent site o c).leave := by
  simp only [httpSent, hcell, Ctx.hs_of_live hcell, Ctx.setHs_of_live hcell]
  exact .head (.retries hcell 0)
    (httpSend_moves_leave (Eq.refl (Cell.live { hs with retries := 0 })) hopen harg
      (hactive.retries 0) hkeep)

theorem httpErr_moves (hcell : c.cell = .live hs)
    (harg : c.pcb.callbackArg = .state hs.addr) (hkeep : keep → hs.req = []) :
    Moves site keep c (httpErr { c with pcb := { c.pcb with status := .reset } }).leave := by
  have hfree := httpStateFree_live hs (c := { c with pcb := { c.pcb with status := .reset } }) hcell
  simp only [httpErr, hcell] at hfree ⊢
  rw [hfree]
  have hmoves : Moves site keep c _ := (Move.reset hcell hkeep).toMoves
  simpa [Ctx.leave, harg] using hmoves

/-- The request is torn down only at the retry limit, or when the file ends. -/
theorem httpPoll_moves (hcell : c.cell = .live hs) (hopen : c.pcb.status = .opened)
    (harg : c.pcb.callbackArg = .state hs.addr) (hactive : Active site c.pcb hs)
    (hkeep : keep → Machine.u8 (hs.retries + 1) = maxRetries → hs.req = []) :
    Moves site keep c (httpPoll site o c).2.leave := by
  simp only [httpPoll, hcell, Ctx.hs_of_live hcell, Ctx.setHs_of_live hcell]
  generalize hn : Machine.u8 (hs.retries + 1) = n at hkeep
  refine .head (.retries hcell n) ?_
  have hactive' := hactive.retries n
  split
  next hlimit =>
    have hlimit' : n = maxRetries := hlimit
    rw [httpCloseConn_live (c := { c with cell := .live { hs with retries := n } }) rfl hopen]
    have hkeep' : keep → ({ hs with retries := n } : HttpState).req = [] := fun hk => hkeep hk hlimit'
    exact (Move.close rfl hkeep' o).toMoves
  next =>
    split
    next hhandle =>
      -- a connection that serves a file has given its request back
      have hreq : hs.req = [] := by
        obtain ⟨_, ⟨hwaiting, _⟩ | ⟨_, _, _, hreq, _⟩⟩ := hactive
        · have hsome : hs.handle.isSome = true := hhandle
          simp [hwaiting.handle] at hsome
        · exact hreq
      obtain ⟨pcb', hs', hmoves, hsends, hreq', hstay | ⟨hleft, hdone⟩⟩ :=
        httpSend_moves (o := o) (c := { c with cell := .live { hs with retries := n } }) keep rfl
          hopen hactive'
      · have hopen' : pcb'.status = .opened := hsends.status_eq.trans hopen
        have harg' : pcb'.callbackArg = .state hs.addr := hsends.callbackArg_eq.trans harg
        generalize httpSend site o { c with cell := .live { hs with retries := n } } = result
          at hstay
        obtain ⟨dataToSend, c'⟩ := result
        obtain rfl : c' = _ := hstay
        by_cases hdata : dataToSend ≠ 0
        · simp only [if_pos hdata, tcpOutput, Pcb.touch_of_opened hopen']
          refine hmoves.tail ?_
          have hmove : Move site keep _ _ := .output { c with pcb := pcb', cell := .live hs' }
          simpa [Ctx.leave, Ctx.log, Pcb.log, harg'] using hmove
        · simp only [if_neg hdata]
          simpa [Ctx.leave, harg'] using hmoves
      · rw [hdone]
        exact hmoves.tail (.finish rfl (fun _ => hreq'.trans hreq) hleft o)
    next =>
      simp only [Ctx.leave, harg]
      exact .refl

/-- `http_recv` gives data back that it does not parse. -/
theorem recvDrop_eq {p : List Pbuf} (hopen : c.pcb.status = .opened) :
    (if p ≠ [] then pbufFree p { c with pcb := tcpRecved c.pcb } else c) =
      { c with pcb := { c.pcb with trace := c.pcb.trace ++ freed p } } := by
  by_cases hp : p = []
  · simp [hp, freed]
  · simp [hp, pbufFree, tcpRecved, Pcb.touch_of_opened hopen]

/-- `http_recv` of the null pointer, or with an error, closes the connection. -/
theorem httpRecv_fin (hcell : c.cell = .live hs) (hopen : c.pcb.status = .opened)
    {p : List Pbuf} {err : Err} (hfin : err ≠ .ok ∨ p = []) :
    httpRecv site o p err c =
      { c with pcb := { c.pcb with trace := c.pcb.trace ++ freed p } }.closed o hs := by
  have hclose := httpCloseConn_live (o := o)
    (c := { c with pcb := { c.pcb with trace := c.pcb.trace ++ freed p } }) hcell hopen
  obtain ⟨pcb, cell, sys⟩ := c
  subst hcell
  simp only [httpRecv, if_pos hfin]
  rw [recvDrop_eq hopen, hclose]

/-- `http_recv` of data while a file is sent frees nothing but a queue that is empty. -/
theorem httpRecv_serving (hcell : c.cell = .live hs) (hopen : c.pcb.status = .opened)
    {p : List Pbuf} (hdata : p ≠ []) (hhandle : hs.handle ≠ none) (hreq : hs.req = []) :
    httpRecv site o p .ok c = c := by
  have hself : ({ hs with req := [] } : HttpState) = hs := by rw [← hreq]
  have hsome : hs.handle.isNone = false := by
    cases hh : hs.handle with
    | none => exact absurd hh hhandle
    | some f => rfl
  obtain ⟨pcb, cell, sys⟩ := c
  subst hcell
  simp [httpRecv, hdata, tcpRecved, Pcb.touch_of_opened hopen, Ctx.readHs, Ctx.hs, hsome,
    httpRecvParsed, pbufFree, Ctx.setHs, hreq, freed, hself]

/-- `http_recv` of data while the connection waits. -/
theorem httpRecv_waiting (hcell : c.cell = .live hs) (hopen : c.pcb.status = .opened)
    {p : List Pbuf} (hdata : p ≠ []) (hwaiting : hs.Waiting) :
    httpRecv site o p .ok c =
      httpRecvParsed site o (httpParseRequest site o p c).1 (httpParseRequest site o p c).2 := by
  have hspec := httpParseRequest_spec site o p hcell hwaiting
  obtain ⟨pcb, cell, sys⟩ := c
  subst hcell
  generalize hresult : httpParseRequest site o p ⟨pcb, .live hs, sys⟩ = result at hspec ⊢
  simp only [httpRecv, ne_eq, not_true_eq_false, hdata, or_self, if_false, tcpRecved,
    Pcb.touch_of_opened hopen, Ctx.readHs, Ctx.hs, hwaiting.handle, Option.isNone_none, if_true,
    hresult]
  cases hspec <;> rfl

theorem httpRecvParsed_inprogress : httpRecvParsed site o .inprogress c = c := by
  simp [httpRecvParsed]

/-- The queue is freed, and the connection closed. -/
theorem httpRecvParsed_arg (hcell : c.cell = .live hs) (hopen : c.pcb.status = .opened) :
    httpRecvParsed site o .arg c =
      { c with
        cell := .live { hs with req := [] }
        pcb := { c.pcb with trace := c.pcb.trace ++ freed hs.req } }.closed o
          { hs with req := [] } := by
  obtain ⟨pcb, cell, sys⟩ := c
  subst hcell
  have hclose := httpCloseConn_live (o := o)
    (c := ⟨{ pcb with trace := pcb.trace ++ freed hs.req }, .live { hs with req := [] }, sys⟩)
    (Eq.refl (Cell.live { hs with req := [] })) hopen
  simp [httpRecvParsed, Ctx.readHs, Ctx.hs, Ctx.setHs, pbufFree, hclose]

/-- The queue is freed, and the file sent. -/
theorem httpRecvParsed_ok (hs : HttpState) (hcell : c.cell = .live hs) :
    httpRecvParsed site o .ok c =
      (httpSend site o
        { c with
          cell := .live { hs with req := [] }
          pcb := { c.pcb with trace := c.pcb.trace ++ freed hs.req } }).2 := by
  obtain ⟨pcb, cell, sys⟩ := c
  subst hcell
  simp [httpRecvParsed, Ctx.readHs, Ctx.hs, Ctx.setHs, pbufFree]

/-- `http_recv` of data while the connection waits: the data is queued first. -/
theorem httpRecv_waiting_moves (keep : Prop) (hcell : c.cell = .live hs)
    (hopen : c.pcb.status = .opened) (harg : c.pcb.callbackArg = .state hs.addr)
    (hactive : Active site c.pcb hs) (hwaiting : hs.Waiting) (p : Delivery)
    (hdata : p.payloads ≠ []) :
    ∃ c', Move site keep c c' ∧
      c.pcb.trace ++ queued (pbufChain c.pcb.nextId p.payloads) <+: c'.pcb.trace ∧
      Moves site keep c'
        (httpRecv site o (pbufChain c.pcb.nextId p.payloads) .ok (c.received p.payloads)).leave := by
  have hcell' : (c.received p.payloads).cell = .live hs := hcell
  have hopen' : (c.received p.payloads).pcb.status = .opened := hopen
  have hdata' : pbufChain c.pcb.nextId p.payloads ≠ [] := by simpa using hdata
  rw [httpRecv_waiting hcell' hopen' hdata' hwaiting]
  have hspec := httpParseRequest_spec site o (pbufChain c.pcb.nextId p.payloads) hcell' hwaiting
  generalize httpParseRequest site o (pbufChain c.pcb.nextId p.payloads) (c.received p.payloads) =
    result at hspec ⊢
  cases hspec with
  | incomplete sys hbounds =>
      rw [httpRecvParsed_inprogress, Ctx.leave_of_state (by exact harg)]
      exact ⟨_, .queue hcell hwaiting p hbounds, List.prefix_rfl, .single (.share _ sys)⟩
  | rejected sys =>
      dsimp only
      rw [httpRecvParsed_arg
        (c := (c.received p.payloads).withQueued hs (pbufChain c.pcb.nextId p.payloads) sys)
        (Eq.refl (Cell.live { hs with req := hs.req ++ pbufChain c.pcb.nextId p.payloads })) hopen]
      exact ⟨_, .discard hcell hwaiting p.payloads, List.prefix_append .., .head (.share _ sys)
        (.single (.close (Eq.refl (Cell.live { hs with req := [] })) (fun _ => rfl) o))⟩
  | found uriLen is09 uri hs' n acts sys _ _ hfound =>
      dsimp only
      rw [httpRecvParsed_ok hs' rfl, hfound.req_eq]
      refine ⟨_, .dispatch uri is09 hopen hcell hwaiting p.payloads hfound,
        List.prefix_append_of_prefix (List.prefix_append ..), .head (.share _ sys) ?_⟩
      -- what follows is the first attempt to send
      have harg' : c.pcb.callbackArg = .state hs'.addr := by
        rw [hfound.addr_eq]
        exact harg
      exact httpSend_moves_leave rfl hopen harg'
        (hactive.dispatched hwaiting hfound hopen uri _ _ rfl) (fun _ => rfl)

/-- `http_recv` gives the connection up on the null pointer, an error or a bad request. -/
theorem httpRecv_moves (hcell : c.cell = .live hs) (hopen : c.pcb.status = .opened)
    (harg : c.pcb.callbackArg = .state hs.addr) (hactive : Active site c.pcb hs)
    (p : Delivery) (err : Err) (hkeep : keep → err ≠ .ok ∨ p.payloads = [] → hs.req = []) :
    Moves site keep c
      (httpRecv site o (pbufChain c.pcb.nextId p.payloads) err (c.received p.payloads)).leave := by
  have hcell' : (c.received p.payloads).cell = .live hs := hcell
  have hopen' : (c.received p.payloads).pcb.status = .opened := hopen
  by_cases hfin : err ≠ .ok ∨ p.payloads = []
  · rw [httpRecv_fin hcell' hopen' (by simpa using hfin)]
    exact .head (.drop c p.payloads)
      (.single (.close (by exact hcell) (fun hk => hkeep hk hfin) o))
  · obtain ⟨rfl, hdata⟩ : err = .ok ∧ p.payloads ≠ [] := by simpa using hfin
    rcases hactive.2 with ⟨hwaiting, _⟩ | ⟨f, is09, hserving, hreq, _⟩
    · obtain ⟨c', hmove, _, hmoves⟩ :=
        httpRecv_waiting_moves (o := o) keep hcell hopen harg hactive hwaiting p hdata
      exact .head hmove hmoves
    · rw [httpRecv_serving hcell' hopen' (by simpa using hdata) (by simp [hserving.handle]) hreq,
        Ctx.leave_of_state (by exact harg)]
      exact .single (.ignore hcell (by simp [hserving.handle]) p.payloads.length)

/-- A null callback argument closes the connection, and aborts it when that fails. -/
theorem httpPoll_null (hcell : c.cell = .null) (hopen : c.pcb.status = .opened) :
    httpPoll site o c =
      if o.closeFails then
        (.abrt, { c with
          pcb := { c.pcb.shut o [] with
            status := .aborted, trace := (c.pcb.shut o []).trace ++ [.aborted] } })
      else (.ok, { c with pcb := c.pcb.shut o [] }) := by
  have hclose := httpCloseConn_null (o := o) hcell hopen
  obtain ⟨pcb, cell, sys⟩ := c
  subst hcell
  cases hfails : o.closeFails <;>
    simp [httpPoll, hclose, Oracle.close, hfails, tcpAbort, Pcb.shut, Pcb.touch, Pcb.log]

theorem httpRecv_null (hcell : c.cell = .null) (hopen : c.pcb.status = .opened) (p : List Pbuf)
    (err : Err) :
    httpRecv site o p err c =
      { c with
        pcb := { c.pcb with trace := c.pcb.trace ++ freed p }.shut o [] } := by
  have hclose := httpCloseConn_null (o := o)
    (c := { c with pcb := { c.pcb with trace := c.pcb.trace ++ freed p } }) hcell hopen
  obtain ⟨pcb, cell, sys⟩ := c
  subst hcell
  simp only [httpRecv]
  rw [recvDrop_eq hopen, hclose]

theorem httpErr_null (hcell : c.cell = .null) : httpErr c = c := by
  simp [httpErr, hcell]

theorem callNull_moves (hcell : c.cell = .null) (hopen : c.pcb.status = .opened) (e : Call) :
    Moves site keep c (c.call site e).leave := by
  have hcell' : (c.window e).cell = .null := hcell
  have hopen' : (c.window e).pcb.status = .opened := hopen
  refine .head (.window c e) ?_
  unfold Ctx.call
  dsimp only
  cases e.callback with
  | recv p err =>
      dsimp only
      rw [httpRecv_null (c := (c.window e).received p.payloads) hcell hopen,
        Ctx.leave_of_null (by exact hcell)]
      exact .head (.drop _ p.payloads) (.single (.closeNull (by exact hopen) (by exact hcell) e.oracle))
  | sent =>
      simp only [httpSent, hcell']
      rw [Ctx.leave_of_null hcell']
  | poll =>
      dsimp only
      rw [httpPoll_null hcell' hopen']
      split
      next hfails =>
        rw [Ctx.leave_of_null (by exact hcell)]
        exact .head (.closeNull hopen' hcell' e.oracle)
          (.single (.abortNull (by simp [Pcb.shut, hfails]) (by exact hcell)))
      next =>
        rw [Ctx.leave_of_null (by exact hcell)]
        exact .single (.closeNull hopen' hcell' e.oracle)
  | err =>
      rw [httpErr_null (by exact hcell), Ctx.leave_of_null (by exact hcell)]
      exact .single (.resetNull hopen' hcell')

/-- The callbacks that may end a connection before its request is complete. -/
def TearsDown (hs : HttpState) (e : Call) : Prop :=
  match e.callback with
  | .recv p err => err ≠ .ok ∨ p.payloads = []
  | .poll => Machine.u8 (hs.retries + 1) = maxRetries
  | .sent | .err => True

/-- A callback of an active connection is a sequence of moves. -/
theorem call_moves (hcell : c.cell = .live hs) (hopen : c.pcb.status = .opened)
    (harg : c.pcb.callbackArg = .state hs.addr) (hactive : Active site c.pcb hs) (e : Call)
    (hkeep : keep → TearsDown hs e → hs.req = []) :
    Moves site keep c (c.call site e).leave := by
  have hactive' : Active site (c.window e).pcb hs := hactive.congr hopen (.refl _)
  refine .head (.window c e) ?_
  unfold Ctx.call
  unfold TearsDown at hkeep
  dsimp only
  cases hcallback : e.callback with
  | recv p err =>
      rw [hcallback] at hkeep
      exact httpRecv_moves (c := c.window e) hcell hopen harg hactive' p err hkeep
  | sent =>
      rw [hcallback] at hkeep
      exact httpSent_moves (c := c.window e) hcell hopen harg hactive' fun hk => hkeep hk trivial
  | poll =>
      rw [hcallback] at hkeep
      exact httpPoll_moves (c := c.window e) hcell hopen harg hactive' hkeep
  | err =>
      rw [hcallback] at hkeep
      exact httpErr_moves (c := c.window e) hcell harg fun hk => hkeep hk trivial

end Meu1oARM
