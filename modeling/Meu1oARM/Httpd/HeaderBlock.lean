import Meu1oARM.Httpd.Idle
import Meu1oARM.Httpd.RequestLine

/-! # The end of the header

A connection that waits has nothing but the buffers it has received so far. What is in
them decides whether it goes on waiting.
-/

namespace Meu1oARM

open Machine CString

variable {σ : Type} {site : Site σ}

/-- The bytes have a line end, and with the method also a blank line, in front of the first null
byte. -/
structure Ready (text : List UInt8) : Prop where
  long : minReqLen ≤ text.length
  line : crlf <:+: cstr text
  block : chars "GET " <+: text → blankLine <:+: cstr text

/-- The buffers are more than may be queued, or they hold a request that is ready. -/
def Decides (xs : List (List UInt8)) : Prop :=
  reqBufsize < xs.flatten.length ∨ reqQueuelen < xs.length ∨ Ready xs.flatten

/-- The connection has no state left, or it serves a file and has nothing in its queue. -/
def Over (c : Ctx σ) : Prop := ∀ hs, c.cell = .live hs → hs.handle ≠ none ∧ hs.req = []

theorem Over.of_dead {c : Ctx σ} (h : ∀ hs, c.cell ≠ .live hs) : Over c :=
  fun hs hlive => absurd hlive (h hs)

/-- The buffers that a callback hands to the parser of a connection that waits. -/
def Call.pieces (e : Call) : List (List UInt8) :=
  match e.callback with
  | .recv p .ok => p.payloads
  | _ => []

/-! ## More data decides no less -/

theorem cstr_isPrefix_append (xs ys : List UInt8) : cstr xs <+: cstr (xs ++ ys) := by
  unfold cstr
  rw [List.takeWhile_append]
  split
  next hall =>
    rw [(List.takeWhile_prefix _).eq_of_length hall]
    exact List.prefix_append _ _
  next => exact List.prefix_rfl

theorem Ready.append {xs : List UInt8} (h : Ready xs) (ys : List UInt8) : Ready (xs ++ ys) where
  long := by
    have hlong := h.long
    rw [List.length_append]
    omega
  line := h.line.trans (cstr_isPrefix_append xs ys).isInfix
  block hget := by
    have hfour : (chars "GET ").length ≤ xs.length := Nat.le_trans (by decide) h.long
    have hget' : chars "GET " <+: xs :=
      List.prefix_of_prefix_length_le hget (List.prefix_append _ _) hfour
    exact (h.block hget').trans (cstr_isPrefix_append xs ys).isInfix

theorem Decides.append {xs : List (List UInt8)} (h : Decides xs) (ys : List (List UInt8)) :
    Decides (xs ++ ys) := by
  rcases h with hsize | hcount | hready
  · left
    rw [List.flatten_append, List.length_append]
    omega
  · right; left
    rw [List.length_append]
    omega
  · right; right
    rw [List.flatten_append]
    exact hready.append _

/-! ## One callback -/

theorem parsedBytes_of_short {req : List Pbuf} (h : (pbufBytes req).length ≤ reqBufsize) :
    parsedBytes req = pbufBytes req := by
  unfold parsedBytes
  split
  · simp [pbufBytes]
  · exact List.take_of_length_le h

/-- The parser leaves the queue waiting if and only if its buffers decide nothing. -/
theorem requestParsed_incomplete_iff (o : Oracle) (reqBuf : Mem) {req : List Pbuf}
    (hreq : (pbufBytes req).length ≤ reqBufsize) (hcount : req.length ≤ reqQueuelen) :
    requestParsed o req reqBuf = .incomplete ↔ ¬Decides (req.map Pbuf.payload) := by
  have hsize : (pbufBytes req).length < 65536 := Nat.lt_of_le_of_lt hreq (by decide)
  obtain ⟨hlength, hbytes⟩ := requestData_parsedBytes o reqBuf hsize
  rw [parsedBytes_of_short hreq] at hlength hbytes
  rw [requestParsed, hlength, httpParseData_incomplete_iff hbytes hsize, Decides, ← pbufBytes_eq,
    List.length_map]
  refine not_congr ⟨fun hready => Or.inr (Or.inr ⟨hready.1, hready.2.1, hready.2.2⟩), ?_⟩
  rintro (hlarge | hmany | hready)
  · omega
  · omega
  · exact ⟨hready.long, hready.line, hready.block⟩

/-- The queue `req` has been decided: each of its buffers was freed, and the connection has no
state left or serves a file. -/
structure Settled (req : List Pbuf) (c : Ctx σ) : Prop where
  isOver : Over c
  freed : ∀ q ∈ req, .free (.pbuf q.id) ∈ c.pcb.trace

variable {xs : List (List UInt8)} {c c' : Ctx σ} {hs : HttpState}

theorem Collecting.bounds (h : Collecting site xs c hs) (hshort : ¬Decides xs) :
    (pbufBytes hs.req).length ≤ reqBufsize ∧ hs.req.length ≤ reqQueuelen := by
  have hcount : hs.req.length = xs.length := by rw [← h.payloads, List.length_map]
  rw [pbufBytes_eq, h.payloads, hcount]
  exact ⟨Nat.le_of_not_lt fun hlt => hshort (Or.inl hlt),
    Nat.le_of_not_lt fun hlt => hshort (Or.inr (Or.inl hlt))⟩

/-- The actions look nothing up, open nothing and enqueue nothing. -/
structure Silent (acts : List Action) : Prop where
  lookups : Meu1oARM.lookups acts = []
  openings : Meu1oARM.openings acts = []
  enqueued : Meu1oARM.enqueued acts = []

theorem Silent.append {s t : List Action} (hs : Silent s) (ht : Silent t) : Silent (s ++ t) where
  lookups := by rw [lookups_append, hs.lookups, ht.lookups, List.append_nil]
  openings := by rw [openings_append, hs.openings, ht.openings, List.append_nil]
  enqueued := by rw [enqueued_append, hs.enqueued, ht.enqueued, List.append_nil]

theorem Silent.of_quiet {acts : List Action} (hquiet : ∀ a ∈ acts, a.isQuiet)
    (hlookups : Meu1oARM.lookups acts = []) : Silent acts :=
  ⟨hlookups, openings_of_quiet hquiet, enqueued_of_quiet hquiet⟩

theorem silent_freed (p : List Pbuf) : Silent (freed p) := .of_quiet (freed_quiet p) (lookups_freed p)

theorem silent_releases (hs : HttpState) : Silent hs.releases :=
  .of_quiet hs.releases_quiet (lookups_releases hs)

theorem silent_closing (hs : HttpState) (o : Oracle) : Silent (hs.releases ++ [.closed o.close]) :=
  (silent_releases hs).append ⟨rfl, rfl, rfl⟩

theorem Collecting.silent (h : Collecting site xs c hs) : Silent c.pcb.trace := by
  obtain ⟨-, henqueued, -, hopenings⟩ := h.active.unanswered h.waiting
  exact ⟨h.lookups, hopenings, henqueued⟩

/-- A connection that collects goes on waiting when data arrives, or the data decides. -/
theorem Collecting.recv (h : Collecting site xs c hs) (hshort : ¬Decides xs) {e : Call}
    {p : Delivery} (hcallback : e.callback = .recv p .ok) (hdata : p.payloads ≠ []) :
    (¬Decides (xs ++ p.payloads) ∧
        ∃ hs', Collecting site (xs ++ p.payloads) (connStep site c (.call e)) hs') ∨
      (Decides (xs ++ p.payloads) ∧
        Settled (hs.req ++ pbufChain c.pcb.nextId p.payloads) (connStep site c (.call e)) ∧
        Sourced site (connStep site c (.call e)).pcb.trace) := by
  obtain ⟨hsize, hcount⟩ := h.bounds hshort
  have hbounds := withinBounds_iff hsize hcount p c.pcb.nextId
  have hpayloads : (hs.req ++ pbufChain c.pcb.nextId p.payloads).map Pbuf.payload =
      xs ++ p.payloads := by
    rw [List.map_append, h.payloads, pbufChain_payloads]
  -- within the bounds of the queue the parser waits for the blank line
  have hparse : WithinBounds (hs.req ++ pbufChain c.pcb.nextId p.payloads) →
      (requestParsed e.oracle (hs.req ++ pbufChain c.pcb.nextId p.payloads) c.sys.httpdReqBuf =
          .incomplete ↔ ¬Decides (xs ++ p.payloads)) := by
    intro hwithin
    obtain ⟨hsize', hcount'⟩ := hbounds.mp hwithin
    rw [requestParsed_incomplete_iff e.oracle _ hsize' hcount', hpayloads]
  -- beyond them the request is given up
  have hlong : ¬WithinBounds (hs.req ++ pbufChain c.pcb.nextId p.payloads) →
      Decides (xs ++ p.payloads) := by
    intro hnot
    rw [hbounds, pbufBytes_eq, hpayloads, ← List.length_map Pbuf.payload, hpayloads] at hnot
    by_contra hundecided
    exact hnot ⟨Nat.le_of_not_lt fun hlt => hundecided (Or.inl hlt),
      Nat.le_of_not_lt fun hlt => hundecided (Or.inr (Or.inl hlt))⟩
  have hdecides : requestParsed e.oracle (hs.req ++ pbufChain c.pcb.nextId p.payloads)
      c.sys.httpdReqBuf ≠ .incomplete → Decides (xs ++ p.payloads) := by
    intro hparsed
    by_cases hwithin : WithinBounds (hs.req ++ pbufChain c.pcb.nextId p.payloads)
    · by_contra hundecided
      exact hparsed ((hparse hwithin).mpr hundecided)
    · exact hlong hwithin
  cases arrival h.cell h.opened h.arg h.active h.waiting hcallback hdata with
  | incomplete hparsed hwithin hcell harg hopen hsame =>
      obtain ⟨q, htrace⟩ := hsame
      refine Or.inl ⟨(hparse hwithin).mp hparsed, _, hopen, hcell, harg.trans h.arg,
        ⟨h.waiting.handle, h.waiting.file, h.waiting.left, h.waiting.ssi⟩, ?_, hpayloads, ?_⟩
      · apply h.active.withReq h.waiting
        rw [htrace]
        exact .append_quiet _ (queued_quiet q)
      · rw [htrace, lookups_append, h.lookups, lookups_queued]
        rfl
  | rejected hparsed hnull _ hfreed hopenings =>
      refine Or.inr ⟨?_, ⟨fun hs' hlive => ?_, hfreed⟩, ?_⟩
      · rcases hparsed with hbad | ⟨-, hnot⟩
        · exact hdecides (by simp [hbad])
        · exact hlong hnot
      · rw [hnull] at hlive
        cases hlive
      · exact .of_nil (hopenings.trans h.silent.openings)
  | found uriLen is09 hparsed _ hserving hfreed hsourced =>
      obtain ⟨acts, -, hlater⟩ := hserving
      refine Or.inr ⟨hdecides (by simp [hparsed]), ⟨fun hs' hlive => ?_, hfreed⟩, hsourced⟩
      obtain ⟨hhandle, hreq, -⟩ := hlater hs' hlive
      exact ⟨hhandle, hreq⟩

/-- The connection has no state left, and has done nothing for a request. -/
structure Gone (c : Ctx σ) : Prop where
  dead : ∀ hs, c.cell ≠ .live hs
  silent : Silent c.pcb.trace

/-- What a connection has become that has been sent the buffers `xs`: it waits with them in its
queue, or it was torn down before, or they were enough for a decision. -/
inductive Fate (site : Site σ) (xs : List (List UInt8)) (c : Ctx σ) : Prop
  | pending (hs : HttpState) (hcollecting : Collecting site xs c hs) (hshort : ¬Decides xs)
  | gone (hgone : Gone c)
  | decided (hdecides : Decides xs) (hover : Over c) (hsourced : Sourced site c.pcb.trace)

/-- A connection without a state does nothing for a request. -/
theorem Moves.gone {keep : Prop} (h : Moves site keep c c') (hgone : Gone c) : Gone c' := by
  obtain ⟨hdead, acts, htrace, hquiet, hlookups⟩ := h.dead hgone.dead
  refine ⟨hdead, ?_⟩
  rw [htrace]
  exact hgone.silent.append (.of_quiet hquiet hlookups)

/-- A connection that collects is gone when it is torn down. -/
theorem Collecting.gone (h : Collecting site xs c hs) {acts : List Action}
    (htrace : c'.pcb.trace = c.pcb.trace ++ acts) (hacts : Silent acts)
    (hdead : ∀ hs', c'.cell ≠ .live hs') : Fate site xs c' := by
  refine .gone ⟨hdead, ?_⟩
  rw [htrace]
  exact h.silent.append hacts

theorem TearsDown.pieces {e : Call} (h : TearsDown hs e) : e.pieces = [] := by
  cases hcallback : e.callback with
  | recv p err =>
      have hfin : err ≠ .ok ∨ p.payloads = [] := by simpa [TearsDown, hcallback] using h
      cases err with
      | ok => simpa [Call.pieces, hcallback] using hfin
      | _ => simp [Call.pieces, hcallback]
  | sent | poll | err => simp [Call.pieces, hcallback]

/-- Sending closes a connection that collects. -/
theorem Collecting.tried_gone (h : Collecting site xs c hs) (e : Call) (n : Nat) :
    Gone (c.tried site e hs n) := by
  have hend : httpSend site e.oracle { c.window e with cell := .live { hs with retries := n } } =
      (0, ({ c.window e with cell := .live { hs with retries := n } }.log .eof).closed e.oracle
        { hs with retries := n }) :=
    httpSend_eof rfl h.opened h.waiting.left (by simp [h.waiting.handle])
  have htrace : (c.tried site e hs n).pcb.trace =
      c.pcb.trace ++ ([.eof] ++ (hs.releases ++ [.closed e.oracle.close])) := by
    rw [Ctx.tried, hend]
    simp [Ctx.leave_pcb, Ctx.closed, Pcb.shut, Ctx.log, Pcb.log, Ctx.window, HttpState.releases]
  refine ⟨?_, ?_⟩
  · rw [Ctx.tried, hend]
    exact Cell.null_ne_live
  · rw [htrace]
    exact h.silent.append (Silent.append ⟨rfl, rfl, rfl⟩ (silent_closing hs e.oracle))

/-- Data decides or not, and the other callbacks leave a connection that collects as it is, or tear
it down. -/
theorem Collecting.call (h : Collecting site xs c hs) (hshort : ¬Decides xs) (e : Call) :
    Fate site (xs ++ e.pieces) (connStep site c (.call e)) := by
  have hreaction := reaction h.cell h.opened h.arg h.active e
  cases hreaction with
  | torn acts htears htrace hquiet hlookups hdead =>
      rw [htears.pieces, List.append_nil]
      exact h.gone htrace (.of_quiet hquiet hlookups) hdead
  | arrives p hcallback hdata =>
      have hpieces : e.pieces = p.payloads := by simp [Call.pieces, hcallback]
      rw [hpieces]
      rcases h.recv hshort hcallback hdata with
        ⟨hshort', hs', hcollecting⟩ | ⟨hdecides, hsettled, hsourced⟩
      · exact .pending hs' hcollecting hshort'
      · exact .decided hdecides hsettled.isOver hsourced
  | ignores p _ hhandle => exact absurd h.waiting.handle hhandle
  | counts hcallback _ _ heq =>
      have hpieces : e.pieces = [] := by simp [Call.pieces, hcallback]
      have hactive : Active site (c.window e).pcb hs := h.active.congr h.opened (.refl _)
      rw [heq, hpieces, List.append_nil]
      exact .pending _ ⟨h.opened, rfl, h.arg,
        ⟨h.waiting.handle, h.waiting.file, h.waiting.left, h.waiting.ssi⟩,
        hactive.retries _, h.payloads, h.lookups⟩ hshort
  | sends n _ heq =>
      have hgone := h.tried_gone e n
      rcases heq with heq | heq
      · rw [heq]
        exact .gone hgone
      · rw [heq]
        have hmoves : Moves site False _ _ := .single (.output (c.tried site e hs n))
        exact .gone (hmoves.gone hgone)

/-! ## A whole run -/

/-- A connection that is over takes no request and opens nothing. -/
theorem Move.isOver {keep : Prop} (h : Move site keep c c') (hover : Over c) :
    Over c' ∧ openings c'.pcb.trace = openings c.pcb.trace := by
  have hadds : ∀ {acts}, openings acts = [] → c'.pcb.trace = c.pcb.trace ++ acts →
      openings c'.pcb.trace = openings c.pcb.trace := by
    intro acts hnone htrace
    rw [htrace, openings_append, hnone, List.append_nil]
  cases h with
  | window | share | ignore | resetNull => exact ⟨hover, rfl⟩
  | drop xs => exact ⟨hover, hadds (silent_freed _).openings rfl⟩
  | output | abortNull => exact ⟨hover, hadds rfl rfl⟩
  | closeNull hopen hcell o =>
      have hnone : openings [.closed o.close] = [] := rfl
      exact ⟨hover, hadds hnone (by simp [Pcb.shut])⟩
  | retries hcell n =>
      have hbefore := hover _ hcell
      refine ⟨fun hs' hlive => ?_, rfl⟩
      obtain rfl := Cell.live.inj hlive
      exact hbefore
  | queue hcell hwaiting | discard hcell hwaiting | dispatch _ _ _ hcell hwaiting =>
      exact absurd hwaiting.handle (hover _ hcell).1
  | send hcell hsends hsent =>
      have hbefore := hover _ hcell
      obtain ⟨acts, hsending, htrace⟩ := hsends.trace_eq
      refine ⟨fun hs' hlive => ?_, hadds (openings_of_sending hsending) htrace⟩
      obtain rfl := Cell.live.inj hlive
      rw [hsent.1]
      exact hbefore
  | close hcell hkeep o =>
      exact ⟨.of_dead Cell.null_ne_live, hadds (silent_closing _ o).openings
        (List.append_assoc ..)⟩
  | @finish hs hcell hkeep hleft o =>
      have hnone : openings ([.eof] ++ (hs.releases ++ [.closed o.close])) = [] :=
        (Silent.append ⟨rfl, rfl, rfl⟩ (silent_closing hs o)).openings
      exact ⟨.of_dead Cell.null_ne_live,
        hadds hnone (by simp [Ctx.closed, Pcb.shut, Ctx.log, Pcb.log])⟩
  | reset hcell hkeep =>
      exact ⟨.of_dead Cell.freed_ne_live, hadds (silent_releases _).openings rfl⟩

theorem Moves.isOver {keep : Prop} (h : Moves site keep c c') (hover : Over c) :
    Over c' ∧ openings c'.pcb.trace = openings c.pcb.trace := by
  induction h with
  | refl => exact ⟨hover, rfl⟩
  | tail _ hmove ih =>
      obtain ⟨hover', hopenings⟩ := hmove.isOver ih.1
      exact ⟨hover', hopenings.trans ih.2⟩

/-- The buffers that an event hands to the parser. -/
def ConnEvent.pieces : ConnEvent σ → List (List UInt8)
  | .call e => e.pieces
  | .others _ => []

theorem Fate.step (h : Fate site xs c) {i : Nat} (hlinked : Linked site i c) (e : ConnEvent σ) :
    Fate site (xs ++ e.pieces) (connStep site c e) := by
  have hmoves := connStep_moves_free hlinked e
  cases h with
  | pending hs hcollecting hshort =>
      cases e with
      | others sys =>
          rw [ConnEvent.pieces, List.append_nil]
          exact .pending hs (hcollecting.others sys) hshort
      | call e => exact hcollecting.call hshort e
  | gone hgone => exact .gone (hmoves.gone hgone)
  | decided hdecides hover hsourced =>
      obtain ⟨hover', hopenings⟩ := hmoves.isOver hover
      exact .decided (hdecides.append _) hover' (hsourced.of_openings_eq hopenings)

theorem Fate.run (h : Fate site xs c) {i : Nat} (hlinked : Linked site i c)
    (es : List (ConnEvent σ)) :
    Fate site (xs ++ es.flatMap ConnEvent.pieces) (Run.run (connStep site) c es) := by
  induction es generalizing xs c with
  | nil => simpa using h
  | cons e es ih =>
      have hlinked' := ((connStep_moves_free hlinked e).invariant (I := fun _ => True)
        (fun _ _ _ _ _ => trivial) hlinked trivial).1
      rw [Run.run_cons, List.flatMap_cons, ← List.append_assoc]
      exact ih (h.step hlinked e) hlinked'

theorem not_decides_nil : ¬Decides [] := by
  rintro (hsize | hcount | hready)
  · cases hsize
  · cases hcount
  · exact absurd hready.long (by decide)

/-- The buffers that connection `i` has been sent, in the order of their arrival. -/
def deliveries (i : Nat) (es : List (WorldEvent σ)) : List (List UInt8) :=
  (es.filterMap (WorldEvent.callOf i)).flatMap Call.pieces

theorem flatMap_pieces (es : List (ConnEvent σ)) :
    es.flatMap ConnEvent.pieces = (es.filterMap ConnEvent.asCall).flatMap Call.pieces := by
  induction es with
  | nil => rfl
  | cons e es ih =>
      rw [List.flatMap_cons, ih]
      cases e with
      | call e => rfl
      | others sys => rfl

/-- A connection of the server that has been accepted and then been sent some buffers. -/
theorem connection_fate (site : Site σ) (sys : Sys σ) (es fs : List (WorldEvent σ)) {i : Nat}
    {o : Oracle} (hnew : (World.connection site sys es i).pcb.status = .absent)
    (halloc : o.stateAlloc) :
    Fate site (deliveries i fs) (World.connection site sys (es ++ .accept i o :: fs) i) := by
  have hok := World.run_ok site sys es
  simp only [World.connection, Run.run_append, Run.run_cons] at hnew ⊢
  generalize Run.run (World.step site) (World.init sys) es = w at hnew hok ⊢
  have hstart := World.view_accept site o hnew
  have hcollecting := accept_collecting site halloc i w.nextHs w.sys
  rw [← hstart] at hcollecting
  have hpresent : ((w.step site (.accept i o)).pcbs i).status ≠ .absent := by
    have hopen : ((w.step site (.accept i o)).pcbs i).status = .opened := hcollecting.opened
    rw [hopen]
    exact PcbStatus.noConfusion
  have hok' := hok.step (.accept i o)
  obtain ⟨gs, hcalls, hrun⟩ := hok'.run_view hpresent fs
  have hfate := (Fate.pending _ hcollecting not_decides_nil).run (hok'.linked i) gs
  rw [List.nil_append, flatMap_pieces, hcalls] at hfate
  rw [hrun]
  exact hfate

/-- Every file that a connection opens is one of those that the server stores. -/
theorem connection_sourced (site : Site σ) (sys : Sys σ) (es : List (WorldEvent σ)) (i : Nat) :
    Sourced site (World.connection site sys es i).pcb.trace := by
  have hfate : ∃ xs, Fate site xs (World.connection site sys es i) := by
    refine World.run_step_invariant (I := fun _ c => ∃ xs, Fate site xs c) ?_ ?_ ?_ sys es i
    · exact fun _ _ => ⟨[], .gone ⟨Cell.null_ne_live, rfl, rfl, rfl⟩⟩
    · intro i o addr sys
      by_cases halloc : o.stateAlloc = true
      · exact ⟨[], .pending _ (accept_collecting site halloc i addr sys) not_decides_nil⟩
      · refine ⟨[], .gone ?_⟩
        rw [accept_eq, if_neg halloc]
        exact ⟨Cell.null_ne_live, rfl, rfl, rfl⟩
    · rintro i c e hlinked ⟨xs, h⟩
      exact ⟨_, h.step hlinked e⟩
  obtain ⟨xs, hfate⟩ := hfate
  cases hfate with
  | pending hs hcollecting =>
      exact .of_nil hcollecting.silent.openings
  | gone hgone => exact .of_nil hgone.silent.openings
  | decided _ _ hsourced => exact hsourced

/-! ## The end of the header decides -/

/-- No null byte hides the line end, or, for the method, the blank line. -/
structure BlockEnds (text : List UInt8) : Prop where
  line : crlf <:+: cstr text
  block : chars "GET " <+: text → blankLine <:+: cstr text

theorem BlockEnds.decides_iff {xs : List (List UInt8)} (h : BlockEnds xs.flatten) :
    Decides xs ↔ minReqLen ≤ xs.flatten.length ∨ reqQueuelen < xs.length := by
  constructor
  · rintro (hsize | hcount | hready)
    · exact Or.inl (Nat.le_trans (by decide) (Nat.le_of_lt hsize))
    · exact Or.inr hcount
    · exact Or.inl hready.long
  · rintro (hlong | hcount)
    · exact Or.inr (Or.inr ⟨hlong, h.line, h.block⟩)
    · exact Or.inr (Or.inl hcount)

/-- A request whose header has ended is decided by the call that delivers its end, if and only if
it is not shorter than the shortest request, or has filled the queue. -/
theorem complete_header_decided_iff (site : Site σ) (sys : Sys σ) (es fs : List (WorldEvent σ))
    {i : Nat} {o : Oracle} (hnew : (World.connection site sys es i).pcb.status = .absent)
    (halloc : o.stateAlloc) {hs : HttpState}
    (hlive : (World.connection site sys (es ++ .accept i o :: fs) i).cell = .live hs)
    (hwaiting : hs.Waiting) {e : Call} {p : Delivery} (hcallback : e.callback = .recv p .ok)
    (hdata : p.payloads ≠ []) (hends : BlockEnds (deliveries i fs ++ p.payloads).flatten) :
    let c := World.connection site sys (es ++ .accept i o :: fs) i
    Settled (hs.req ++ pbufChain c.pcb.nextId p.payloads) (connStep site c (.call e)) ↔
      minReqLen ≤ (deliveries i fs ++ p.payloads).flatten.length ∨
        reqQueuelen < (deliveries i fs ++ p.payloads).length := by
  intro c
  rw [← hends.decides_iff]
  cases connection_fate site sys es fs hnew halloc with
  | pending hs' hcollecting hshort =>
      obtain rfl : hs' = hs := Cell.live.inj (hcollecting.cell.symm.trans hlive)
      rcases hcollecting.recv hshort hcallback hdata with
        ⟨hundecided, hs'', hcollecting'⟩ | ⟨hdecides, hsettled, -⟩
      · refine ⟨fun hsettled => ?_, fun hdecides => absurd hdecides hundecided⟩
        exact absurd hcollecting'.waiting.handle (hsettled.isOver _ hcollecting'.cell).1
      · exact ⟨fun _ => hdecides, fun _ => hsettled⟩
  | gone hgone => exact absurd hlive (hgone.dead hs)
  | decided hdecides hover => exact absurd hwaiting.handle (hover hs hlive).1

/-- An accepted connection of the trial server. -/
def trialConnection : Ctx Unit := World.connection trialSite trialSys [.accept 0 .willing] 0

theorem complete_header_decided_trial :
    Settled (pbufChain 0 [chars "GET /a.ssi HTTP/1.0\r\n\r\n"])
      (connStep trialSite trialConnection (.call wholeRequest)) := by
  apply (complete_header_decided_iff trialSite trialSys [] [] (i := 0) (o := .willing)
    (e := wholeRequest) (p := .single (chars "GET /a.ssi HTTP/1.0\r\n\r\n") (by decide)) rfl rfl rfl
    (⟨rfl, rfl, rfl, rfl⟩ : HttpState.Waiting { httpStateInit with addr := 0, pcb := 0 }) rfl
    (by decide) ⟨?_, fun _ => ?_⟩).mpr
  · exact Or.inl (by decide)
  · exact ⟨chars "GET /a.ssi HTTP/1.0", crlf, by decide⟩
  · exact ⟨chars "GET /a.ssi HTTP/1.0", [], by decide⟩

/-- A header that is shorter than any request stays undecided, and so does one behind a null
byte. -/
theorem complete_header_undecided :
    (blankLine <:+: (chars "\r\n\r\n").take reqBufsize ∧
      ¬Over (connStep trialSite trialConnection
        (.call (.data .willing 2920 (chars "\r\n\r\n") (by decide))))) ∧
    blankLine <:+: (chars "GET /\x00 HTTP/1.0\r\n\r\n").take reqBufsize ∧
      ¬Over (connStep trialSite trialConnection
        (.call (.data .willing 2920 (chars "GET /\x00 HTTP/1.0\r\n\r\n") (by decide)))) := by
  refine ⟨⟨⟨[], [], by decide⟩, fun h => ?_⟩, ⟨chars "GET /\x00 HTTP/1.0", [], by decide⟩,
    fun h => ?_⟩
  · exact absurd rfl (h { httpStateInit with
      addr := 0, pcb := 0, req := pbufChain 0 [chars "\r\n\r\n"] } rfl).1
  · exact absurd rfl (h { httpStateInit with
      addr := 0, pcb := 0
      req := pbufChain 0 [chars "GET /\x00 HTTP/1.0\r\n\r\n"] } rfl).1

/-! ## Simple requests -/

/-- A simple request of HTTP/0.9. -/
def simpleRequest (uri : List UInt8) : List UInt8 := chars "GET " ++ uri ++ crlf

theorem simpleRequest_not_ready {uri : List UInt8} (huri : 13 ∉ uri) :
    ¬Ready (simpleRequest uri) := by
  intro hready
  have hget : chars "GET " <+: simpleRequest uri := by
    rw [simpleRequest, List.append_assoc]
    exact List.prefix_append _ _
  have hblock := (hready.block hget).trans (cstr_isPrefix (simpleRequest uri)).isInfix
  have hcount : (simpleRequest uri).count 13 = 1 := by
    rw [simpleRequest, List.count_append, List.count_append, List.count_eq_zero.mpr huri]
    decide
  have htwo : 2 ≤ (simpleRequest uri).count 13 := hblock.sublist.count_le 13
  omega

/-- A simple request is never looked up, however it is divided and whatever else happens. -/
theorem simple_request_unanswered (site : Site σ) (sys : Sys σ) (es fs : List (WorldEvent σ))
    {i : Nat} {o : Oracle} (hnew : (World.connection site sys es i).pcb.status = .absent)
    (halloc : o.stateAlloc) {uri : List UInt8} (huri : 13 ∉ uri)
    (hreceived : (deliveries i fs).flatten = simpleRequest uri)
    (hsize : (simpleRequest uri).length ≤ reqBufsize)
    (hcount : (deliveries i fs).length ≤ reqQueuelen) :
    let c := World.connection site sys (es ++ .accept i o :: fs) i
    lookups c.pcb.trace = [] ∧ enqueued c.pcb.trace = [] := by
  intro c
  cases connection_fate site sys es fs hnew halloc with
  | pending hs hcollecting hshort =>
      exact ⟨hcollecting.silent.lookups, hcollecting.silent.enqueued⟩
  | gone hgone => exact ⟨hgone.silent.lookups, hgone.silent.enqueued⟩
  | decided hdecides hover =>
      rcases hdecides with hlarge | hmany | hready
      · rw [hreceived] at hlarge
        omega
      · omega
      · rw [hreceived] at hready
        exact absurd hready (simpleRequest_not_ready huri)

theorem simple_request_trial :
    lookups (World.connection trialSite trialSys [.accept 0 .willing,
        .call 0 (.data .willing 2920 (chars "GET /a.") (by decide)),
        .call 0 (.data .willing 2920 (chars "ssi\r\n") (by decide))] 0).pcb.trace = [] :=
  have hplain : 13 ∉ chars "/a.ssi" := by decide
  (simple_request_unanswered trialSite trialSys []
    [.call 0 (.data .willing 2920 (chars "GET /a.") (by decide)),
      .call 0 (.data .willing 2920 (chars "ssi\r\n") (by decide))]
    (i := 0) (o := .willing) rfl rfl hplain (by decide) (by decide) (by decide)).1

/-- The simple request for a page of the server gets no answer. -/
theorem simple_request_pending :
    let c := connStep trialSite trialConnection
      (.call (.data .willing 2920 (simpleRequest (chars "/a.ssi")) (by decide)))
    ¬Over c ∧ (chars "/a.ssi", true) ∉ lookups c.pcb.trace := by
  refine ⟨fun h => ?_, by decide +kernel⟩
  exact absurd rfl (h { httpStateInit with
    addr := 0, pcb := 0, req := pbufChain 0 [simpleRequest (chars "/a.ssi")] }
    rfl).1

end Meu1oARM
