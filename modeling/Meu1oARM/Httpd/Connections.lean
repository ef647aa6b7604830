import Meu1oARM.Foundation.LinkedList
import Meu1oARM.Httpd.Reaction

/-! # The list of connections

With `LWIP_HTTPD_KILL_OLD_ON_CONNECTIONS_EXCEEDED` the server keeps a list of its
connections, and when an allocation fails it aborts one of them and tries again.
The loops through the list are bounded by the number of states that were ever
allocated, which is no less than its length.
-/

namespace Meu1oARM

open LinkedList

variable {σ : Type}

/-- What is read of an `http_state` through a pointer to it. -/
def Cell.state : Cell → HttpState
  | .live hs => hs
  | _ => default

/-- The server with the list of its connections: `next` is the field of that name of the
`http_state` at an address. -/
structure Connections (σ : Type) where
  world : World σ
  next : Nat → Option Nat
  httpConnections : Option Nat

namespace Connections

def init (sys : Sys σ) : Connections σ where
  world := .init sys
  next := fun _ => none
  httpConnections := none

/-! ## The loops -/

/-- The loop of `http_state_alloc` to the end of the list. -/
def lastLoop (next : Nat → Option Nat) : Nat → Nat → Nat
  | 0, last => last
  | fuel + 1, last =>
    match next last with
    | some behind => lastLoop next fuel behind
    | none => last

/-- The loop of `http_state_free` that takes `hs` off the list; it returns the field `next`. -/
def unlinkLoop (next : Nat → Option Nat) (hs : Nat) : Nat → Nat → Nat → Option Nat
  | 0, _ => next
  | fuel + 1, last =>
    match next last with
    | some behind =>
      if behind = hs then Function.update next last (next hs) else unlinkLoop next hs fuel behind
    | none => next

/-- The loop of `http_kill_oldest_connection`; it returns `hs_free_next`. -/
def killLoop (heap : Nat → Cell) (next : Nat → Option Nat) (ssiRequired : Bool) :
    Nat → Option Nat → Option Nat → Option Nat
  | fuel + 1, some hs, hsFreeNext =>
    match next hs with
    | some behind =>
      let hsFreeNext :=
        if ssiRequired then
          if (heap behind).state.ssi.isSome then some hs else hsFreeNext
        else some hs
      killLoop heap next ssiRequired fuel (some behind) hsFreeNext
    | none => hsFreeNext
  | _, _, hsFreeNext => hsFreeNext

/-! ## The operations -/

/-- What `http_state_alloc` does with the state that it has obtained. -/
def link (s : Connections σ) (ret : Nat) : Connections σ :=
  -- `http_state_init` has cleared the field
  let next := Function.update s.next ret none
  match s.httpConnections with
  | none => { s with next, httpConnections := some ret }
  | some first =>
    { s with next := Function.update next (lastLoop next s.world.nextHs first) (some ret) }

/-- What `http_state_free` does to the list. -/
def unlink (s : Connections σ) (hs : Nat) : Connections σ :=
  match s.httpConnections with
  | none => s
  | some first =>
    if first = hs then { s with httpConnections := s.next hs }
    else { s with next := unlinkLoop s.next hs s.world.nextHs first }

/-- `http_close_or_abort_conn` of the connection of the state `hs`, which is aborted. -/
def abortConn (s : Connections σ) (o : Oracle) (hs : Nat) : Connections σ :=
  let pcb := (s.world.heap hs).state.pcb
  let c := (httpCloseOrAbortConn o
    { pcb := s.world.pcbs pcb, cell := s.world.heap hs, sys := s.world.sys } true).2
  { s.unlink hs with
    world := { s.world with
      pcbs := Function.update s.world.pcbs pcb c.pcb
      heap := Function.update s.world.heap hs c.cell
      sys := c.sys } }

/-- `http_kill_oldest_connection` -/
def httpKillOldestConnection (s : Connections σ) (o : Oracle) (ssiRequired : Bool) :
    Connections σ :=
  match (killLoop s.world.heap s.next ssiRequired s.world.nextHs s.httpConnections none).bind
      s.next with
  | some hs => s.abortConn o hs
  | none => s

/-- `http_state_alloc`: whether there is a state. The second attempt is made after a connection
has been aborted, and `again` is its result. -/
def httpStateAlloc (s : Connections σ) (o : Oracle) (again : Bool) : Bool × Connections σ :=
  let (ret, s) := if o.stateAlloc then (true, s) else (again, s.httpKillOldestConnection o false)
  (ret, if ret then s.link s.world.nextHs else s)

/-- `http_ssi_state_alloc` -/
def httpSsiStateAlloc (s : Connections σ) (o : Oracle) (again : Bool) : Bool × Connections σ :=
  if o.ssiAlloc then (true, s) else (again, s.httpKillOldestConnection o true)

end Connections

/-! ## The events -/

def Action.isSsiAlloc : Action → Bool
  | .alloc (.ssi _) => true
  | _ => false

/-- The callback with `ret` as the result of `http_ssi_state_alloc`. -/
def Call.withSsi (e : Call) (ret : Bool) : Call :=
  { e with oracle := { e.oracle with ssiAlloc := ret } }

/-- The callback calls `http_ssi_state_alloc`: it obtains a state if there is one. -/
def Call.asksSsi (site : Site σ) (e : Call) (c : Ctx σ) : Bool :=
  (newActions c (c.call site (e.withSsi true))).any Action.isSsiAlloc

namespace Connections

/-- What happens to the server; `again` is the result of the second attempt to allocate
something, if there is one. -/
inductive Event (σ : Type)
  | accept (i : Nat) (o : Oracle) (again : Bool)
  | call (i : Nat) (e : Call) (again : Bool)
  | app (app : σ)

/-- A callback of connection `i` has turned the server into `w`. If it has freed its state, it has
taken it off the list. -/
def settle (s : Connections σ) (i : Nat) (w : World σ) : Connections σ :=
  match (s.world.pcbs i).callbackArg with
  | .state hs =>
    if (s.world.heap hs).isLive && !(w.heap hs).isLive then { s.unlink hs with world := w }
    else { s with world := w }
  | _ => { s with world := w }

/-- One event. A callback makes at most one allocation, and what `http_kill_oldest_connection` does
in it concerns other connections, so it comes before the rest of the callback. -/
def step (site : Site σ) (s : Connections σ) : Event σ → Connections σ
  | .accept i o again =>
    if (s.world.pcbs i).status = .absent then
      let (ret, s) := s.httpStateAlloc o again
      { s with world := s.world.step site (.accept i { o with stateAlloc := ret }) }
    else s
  | .call i e again =>
    if (s.world.pcbs i).status = .opened then
      let (ret, s) :=
        if e.asksSsi site (s.world.view i) then s.httpSsiStateAlloc e.oracle again
        else (e.oracle.ssiAlloc, s)
      s.settle i (s.world.step site (.call i (e.withSsi ret)))
    else s
  | .app app => { s with world := s.world.step site (.app app) }

/-! ## What the operations do to the list -/

variable {s : Connections σ} {next : Nat → Option Nat} {heap : Nat → Cell} {a b : Nat}
  {l r : List Nat}

theorem lastLoop_eq {fuel : Nat} (h : Lists next (some a) (l ++ [b])) (hfuel : l.length ≤ fuel) :
    lastLoop next fuel a = b := by
  induction l generalizing a fuel with
  | nil =>
      have hend : next b = none := h.next_eq (r := [])
      obtain rfl : a = b := by simpa using h.head_eq
      cases fuel with
      | zero => rfl
      | succ fuel => simp only [lastLoop, hend]
  | cons c l ih =>
      obtain rfl : a = c := by simpa using h.head_eq
      obtain ⟨fuel, rfl⟩ := Nat.exists_eq_add_one_of_ne_zero (by simp at hfuel; omega : fuel ≠ 0)
      have hrest := h.rest
      cases hnext : next a with
      | none =>
          rw [hnext] at hrest
          simpa using hrest.eq_nil
      | some behind =>
          rw [hnext] at hrest
          simp only [lastLoop, hnext]
          exact ih hrest (Nat.le_of_succ_le_succ hfuel)

theorem unlinkLoop_eq {fuel hs : Nat} (h : Lists next (some a) (l ++ b :: hs :: r))
    (hfuel : l.length < fuel) :
    unlinkLoop next hs fuel a = Function.update next b (next hs) := by
  obtain ⟨fuel, rfl⟩ := Nat.exists_eq_add_one_of_ne_zero (Nat.ne_zero_of_lt hfuel)
  induction l generalizing a fuel with
  | nil =>
      obtain rfl : a = b := by simpa using h.head_eq
      have hnext : next a = some hs := h.next_eq (l := [])
      simp only [unlinkLoop, hnext, if_true]
  | cons c l ih =>
      obtain rfl : a = c := by simpa using h.head_eq
      have hrest := h.rest
      cases hnext : next a with
      | none =>
          rw [hnext] at hrest
          simpa using hrest.eq_nil
      | some behind =>
          rw [hnext] at hrest
          have hne : behind ≠ hs := by
            rintro rfl
            -- the list would pass `hs` twice
            have hnodup := hrest.nodup
            have hhead := hrest.head_eq
            cases l <;> simp_all
          obtain ⟨fuel, rfl⟩ :=
            Nat.exists_eq_add_one_of_ne_zero (by simp at hfuel; omega : fuel ≠ 0)
          simp only [unlinkLoop, hnext, if_neg hne]
          exact ih hrest fuel (Nat.lt_of_succ_lt_succ hfuel)

/-- The state may be freed for the sake of an allocation. -/
def mayFree (heap : Nat → Cell) (ssiRequired : Bool) (a : Nat) : Bool :=
  !ssiRequired || (heap a).state.ssi.isSome

/-- The loop finds the last state behind the first that may be freed. -/
theorem killLoop_eq {fuel : Nat} {ssiRequired : Bool} {hsFreeNext : Option Nat}
    (h : Lists next (some a) (a :: l)) (hfuel : l.length ≤ fuel) :
    (killLoop heap next ssiRequired fuel (some a) hsFreeNext).bind next =
      (l.filter (mayFree heap ssiRequired)).getLast?.or (hsFreeNext.bind next) := by
  induction l generalizing a fuel hsFreeNext with
  | nil =>
      have hend : next a = none := h.next_eq (l := []) (r := [])
      cases fuel with
      | zero => simp [killLoop]
      | succ fuel => simp [killLoop, hend]
  | cons b l ih =>
      have hnext : next a = some b := h.next_eq (l := [])
      obtain ⟨fuel, rfl⟩ := Nat.exists_eq_add_one_of_ne_zero (by simp at hfuel; omega : fuel ≠ 0)
      have hrest : Lists next (some b) (b :: l) := hnext ▸ h.rest
      simp only [killLoop, hnext]
      rw [ih hrest (Nat.le_of_succ_le_succ hfuel), List.filter_cons]
      cases hmay : mayFree heap ssiRequired b with
      | true =>
          have hset : (if ssiRequired = true then
              if (heap b).state.ssi.isSome = true then some a else hsFreeNext
              else some a) = some a := by
            cases ssiRequired <;> simp_all [mayFree]
          rw [hset, if_pos rfl, List.getLast?_cons]
          cases (l.filter (mayFree heap ssiRequired)).getLast? <;> simp [hnext]
      | false =>
          have hkeep : (if ssiRequired = true then
              if (heap b).state.ssi.isSome = true then some a else hsFreeNext
              else some a) = hsFreeNext := by
            cases ssiRequired <;> simp_all [mayFree]
          rw [hkeep, if_neg Bool.false_ne_true]

/-- A state that is linked stands at the end of the list. -/
theorem link_lists {ret : Nat} (h : Lists s.next s.httpConnections l) (hnew : ret ∉ l)
    (hlength : l.length ≤ s.world.nextHs) :
    Lists (s.link ret).next (s.link ret).httpConnections (l ++ [ret]) := by
  have hclear := h.update_of_not_mem hnew none
  unfold link
  cases hhead : s.httpConnections with
  | none =>
      rw [hhead] at hclear
      obtain rfl := hclear.eq_nil
      dsimp only
      apply Lists.cons
      rw [Function.update_self]
      exact .nil
  | some first =>
      rw [hhead] at hclear
      rcases List.eq_nil_or_concat l with rfl | ⟨l, last, rfl⟩
      · cases hclear
      · rw [List.concat_eq_append] at *
        rw [List.length_append] at hlength
        have hlast := lastLoop_eq hclear (by omega : l.length ≤ s.world.nextHs)
        simp only [hlast]
        exact hclear.push hnew (Function.update_self ret none s.next)

/-- A state that is freed leaves the list. -/
theorem unlink_lists (h : Lists s.next s.httpConnections l) (hmem : a ∈ l)
    (hlength : l.length ≤ s.world.nextHs) :
    Lists (s.unlink a).next (s.unlink a).httpConnections (l.erase a) := by
  have hnodup := h.nodup
  obtain ⟨front, r, rfl⟩ := List.append_of_mem hmem
  have hnot : a ∉ front := fun hfront =>
    (List.nodup_append.mp hnodup).2.2 a hfront a List.mem_cons_self rfl
  rw [List.erase_append_right _ hnot, List.erase_cons_head]
  unfold unlink
  cases hhead : s.httpConnections with
  | none =>
      rw [hhead] at h
      simpa using h.eq_nil
  | some first =>
      rw [hhead] at h
      rcases List.eq_nil_or_concat front with rfl | ⟨front, b, rfl⟩
      · obtain rfl : first = a := by simpa using h.head_eq
        dsimp only
        rw [if_pos rfl]
        exact h.rest
      · rw [List.concat_eq_append] at *
        have hne : first ≠ a := by
          rintro rfl
          have hfirst := h.head_eq
          cases front <;> simp_all
        rw [List.append_assoc] at h hlength
        dsimp only
        rw [if_neg hne, List.append_assoc]
        have hlt : front.length < s.world.nextHs := by
          simp at hlength
          omega
        simp only [unlinkLoop_eq h hlt]
        exact h.unlink

end Connections

end Meu1oARM
