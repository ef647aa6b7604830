import Mathlib.Data.List.Nodup
import Meu1oARM.Httpd.World

/-! # Accounting for what a connection holds

Everything a connection obtains is held by its `http_state` until it is freed, and
it is freed once. The pbufs of a request are the exception: they are lost when the
connection is torn down with a request in its queue. The results about pbufs are
for runs in which that does not happen.
-/

namespace Meu1oARM

open CString

variable {σ : Type}

/-- What an action obtains. A pbuf is obtained when it is put into the queue. -/
def Action.obtains : Action → Option Resource
  | .alloc r => some r
  | .queued id => some (.pbuf id)
  | _ => none

def Action.frees : Action → Option Resource
  | .free r => some r
  | _ => none

/-- What has been obtained on a connection. -/
def obtained (trace : List Action) : List Resource := trace.filterMap Action.obtains

/-- What has been freed on a connection. -/
def released (trace : List Action) : List Resource := trace.filterMap Action.frees

def Resource.isPbuf : Resource → Bool
  | .pbuf _ => true
  | _ => false

/-- The name of a resource lies between `n` and `m`. States are named by their addresses. -/
def Resource.between (n m : Nat) : Resource → Prop
  | .state _ => False
  | .ssi id | .pbuf id => n ≤ id ∧ id < m

/-- The name of a resource has been given out before `n`. -/
def Resource.before (n : Nat) : Resource → Prop
  | .state _ => True
  | .ssi id | .pbuf id => id < n

def pbufs (p : List Pbuf) : List Resource := p.map fun q => .pbuf q.id

/-- What `http_state_free` frees. -/
def HttpState.parts (hs : HttpState) : List Resource :=
  hs.ssi.toList.map (fun ssi => .ssi ssi.id) ++ [.state hs.addr]

/-- What an `http_state` holds. -/
def held : Cell → List Resource
  | .live hs => hs.parts ++ pbufs hs.req
  | _ => []

theorem held_live {cell : Cell} {hs : HttpState} (hcell : cell = .live hs) :
    held cell = hs.parts ++ pbufs hs.req := by
  rw [hcell]
  rfl

/-- Only the queue depends on the request. -/
@[simp] theorem held_live_req (hs : HttpState) (req : List Pbuf) :
    held (.live { hs with req }) = hs.parts ++ pbufs req := rfl

@[simp] theorem obtained_append (s t : List Action) :
    obtained (s ++ t) = obtained s ++ obtained t := by
  simp [obtained]

@[simp] theorem obtained_cons (a : Action) (t : List Action) :
    obtained (a :: t) = a.obtains.toList ++ obtained t := by
  cases h : a.obtains <;> simp [obtained, h]

@[simp] theorem obtained_nil : obtained [] = [] := rfl

@[simp] theorem released_append (s t : List Action) :
    released (s ++ t) = released s ++ released t := by
  simp [released]

@[simp] theorem released_cons (a : Action) (t : List Action) :
    released (a :: t) = a.frees.toList ++ released t := by
  cases h : a.frees <;> simp [released, h]

@[simp] theorem released_nil : released [] = [] := rfl

@[simp] theorem pbufs_append (p q : List Pbuf) : pbufs (p ++ q) = pbufs p ++ pbufs q := by
  simp [pbufs]

@[simp] theorem obtained_freed (p : List Pbuf) : obtained (freed p) = [] := by
  simp [obtained, freed, Action.obtains, List.filterMap_eq_nil_iff]

@[simp] theorem released_freed (p : List Pbuf) : released (freed p) = pbufs p := by
  simp [released, freed, pbufs, Action.frees, List.filterMap_map, Function.comp_def]

@[simp] theorem obtained_queued (p : List Pbuf) : obtained (queued p) = pbufs p := by
  simp [obtained, queued, pbufs, Action.obtains, List.filterMap_map, Function.comp_def]

@[simp] theorem released_queued (p : List Pbuf) : released (queued p) = [] := by
  simp [released, queued, Action.frees, List.filterMap_eq_nil_iff]

@[simp] theorem obtained_releases (hs : HttpState) : obtained hs.releases = [] := by
  cases hssi : hs.ssi <;> simp [HttpState.releases, hssi, Action.obtains]

@[simp] theorem released_releases (hs : HttpState) : released hs.releases = hs.parts := by
  cases hssi : hs.ssi <;> simp [HttpState.releases, HttpState.parts, hssi, Action.frees]

theorem obtained_of_sending {acts : List Action} (h : ∀ a ∈ acts, a.isSending) :
    obtained acts = [] := by
  refine List.filterMap_eq_nil_iff.mpr fun a ha => ?_
  have hsending := h a ha
  cases a with
  | alloc | queued => simp [Action.isSending] at hsending
  | _ => rfl

theorem released_of_sending {acts : List Action} (h : ∀ a ∈ acts, a.isSending) :
    released acts = [] := by
  refine List.filterMap_eq_nil_iff.mpr fun a ha => ?_
  have hsending := h a ha
  cases a with
  | free => simp [Action.isSending] at hsending
  | _ => rfl

theorem isPbuf_of_mem_pbufs {p : List Pbuf} {r : Resource} (h : r ∈ pbufs p) : r.isPbuf := by
  obtain ⟨_, _, rfl⟩ := List.mem_map.mp h
  rfl

theorem count_pbufs {p : List Pbuf} {r : Resource} (h : ¬ r.isPbuf) : (pbufs p).count r = 0 :=
  List.count_eq_zero.mpr fun hmem => h (isPbuf_of_mem_pbufs hmem)

/-- The buffers of a delivery have names of their own. -/
theorem pbufs_pbufChain (n : Nat) (xs : List (List UInt8)) :
    pbufs (pbufChain n xs) = (List.range' n xs.length).map Resource.pbuf := by
  rw [← pbufChain_ids, List.map_map]
  rfl

theorem between_of_mem_pbufChain {n : Nat} {xs : List (List UInt8)} {r : Resource}
    (h : r ∈ pbufs (pbufChain n xs)) : r.between n (n + xs.length) := by
  rw [pbufs_pbufChain] at h
  obtain ⟨id, hid, rfl⟩ := List.mem_map.mp h
  simpa [Resource.between, List.mem_range'_1] using hid

theorem nodup_pbufs_pbufChain (n : Nat) (xs : List (List UInt8)) :
    (pbufs (pbufChain n xs)).Nodup := by
  rw [pbufs_pbufChain]
  exact List.Nodup.map (fun _ _ => Resource.pbuf.inj) List.nodup_range'

namespace Resource

variable {n m : Nat} {r : Resource}

theorem before.mono (h : r.before n) (hle : n ≤ m) : r.before m := by
  cases r with
  | state => trivial
  | ssi | pbuf => exact Nat.lt_of_lt_of_le h hle

theorem between.mono {k : Nat} (h : r.between n m) (hle : m ≤ k) : r.between n k := by
  cases r with
  | state => exact h
  | ssi | pbuf => exact ⟨h.1, Nat.lt_of_lt_of_le h.2 hle⟩

theorem between.before (h : r.between n m) : r.before m := by
  cases r with
  | state => trivial
  | ssi | pbuf => exact h.2

theorem between.not_before (h : r.between n m) : ¬ r.before n := by
  cases r with
  | state => exact absurd h id
  | ssi | pbuf => exact Nat.not_lt.mpr h.1

end Resource

/-- What has been obtained is held, or has been freed once. For pbufs this needs `keep`, and it
is said only of those with a name from `base` on. -/
structure Accounted (keep : Prop) (base : Nat) (c : Ctx σ) : Prop where
  nodup : (obtained c.pcb.trace).Nodup
  balance : ∀ r ∈ obtained c.pcb.trace, (r.isPbuf → keep ∧ ¬ r.before base) →
    (released c.pcb.trace).count r + (held c.cell).count r = 1
  held_obtained : ∀ r ∈ held c.cell, r ∈ obtained c.pcb.trace
  released_obtained : ∀ r ∈ released c.pcb.trace, ¬ r.isPbuf → r ∈ obtained c.pcb.trace
  obtained_before : ∀ r ∈ obtained c.pcb.trace, r.before c.pcb.nextId
  released_before : ∀ r ∈ released c.pcb.trace, r.before c.pcb.nextId

variable {site : Site σ} {keep : Prop} {base self : Nat} {c c' : Ctx σ}

theorem Accounted.held_before (h : Accounted keep base c) {r : Resource} (hr : r ∈ held c.cell) :
    r.before c.pcb.nextId :=
  h.obtained_before r (h.held_obtained r hr)

/-- What the actions `acts` of a move have to satisfy: what they obtain is new, what they free
was held or is new, and the rest is held. -/
structure Exchange (keep : Prop) (c c' : Ctx σ) (acts : List Action) : Prop where
  trace_eq : c'.pcb.trace = c.pcb.trace ++ acts
  nextId_le : c.pcb.nextId ≤ c'.pcb.nextId
  nodup : (obtained acts).Nodup
  obtains : ∀ r ∈ obtained acts, r.between c.pcb.nextId c'.pcb.nextId
  releases : ∀ r ∈ released acts, r ∈ held c.cell ∨ r.isPbuf ∧ r.between c.pcb.nextId c'.pcb.nextId
  holds : ∀ r ∈ held c'.cell, r ∈ held c.cell ∨ r ∈ obtained acts
  balance : ∀ r, r.before c.pcb.nextId ∨ r ∈ obtained acts → (r.isPbuf → keep) →
    (released acts).count r + (held c'.cell).count r =
      (held c.cell).count r + (obtained acts).count r

theorem Accounted.exchange {acts : List Action} (h : Accounted keep base c)
    (hex : Exchange keep c c' acts) : Accounted keep base c' := by
  have hnew : ∀ r ∈ obtained c.pcb.trace, r ∉ obtained acts := fun r hr hmem =>
    (hex.obtains r hmem).not_before (h.obtained_before r hr)
  refine ⟨?_, ?_, ?_, ?_, ?_, ?_⟩
  · rw [hex.trace_eq, obtained_append]
    exact List.Nodup.append h.nodup hex.nodup fun r hr hmem => hnew r hr hmem
  · intro r hr hkeep
    rw [hex.trace_eq, obtained_append, List.mem_append] at hr
    rw [hex.trace_eq, released_append, List.count_append]
    rcases hr with hold | hmem
    · -- an old resource is not obtained again
      have hbefore := h.balance r hold hkeep
      have hstep := hex.balance r (Or.inl (h.obtained_before r hold)) fun hp => (hkeep hp).1
      rw [List.count_eq_zero.mpr (hnew r hold)] at hstep
      omega
    · -- a new one has not been released or held before
      have hnot := (hex.obtains r hmem).not_before
      have hfreed : (released c.pcb.trace).count r = 0 :=
        List.count_eq_zero.mpr fun hmem => hnot (h.released_before r hmem)
      have hheld : (held c.cell).count r = 0 :=
        List.count_eq_zero.mpr fun hmem => hnot (h.held_before hmem)
      have hstep := hex.balance r (Or.inr hmem) fun hp => (hkeep hp).1
      rw [List.count_eq_one_of_mem (by exact hex.nodup) hmem] at hstep
      omega
  · intro r hr
    rw [hex.trace_eq, obtained_append, List.mem_append]
    exact (hex.holds r hr).imp_left (h.held_obtained r)
  · intro r hr hpbuf
    rw [hex.trace_eq, released_append, List.mem_append] at hr
    rw [hex.trace_eq, obtained_append, List.mem_append]
    rcases hr with hold | hmem
    · exact Or.inl (h.released_obtained r hold hpbuf)
    · rcases hex.releases r hmem with hheld | ⟨hisPbuf, _⟩
      · exact Or.inl (h.held_obtained r hheld)
      · exact absurd hisPbuf hpbuf
  · intro r hr
    rw [hex.trace_eq, obtained_append, List.mem_append] at hr
    rcases hr with hold | hmem
    · exact (h.obtained_before r hold).mono hex.nextId_le
    · exact (hex.obtains r hmem).before
  · intro r hr
    rw [hex.trace_eq, released_append, List.mem_append] at hr
    rcases hr with hold | hmem
    · exact (h.released_before r hold).mono hex.nextId_le
    · rcases hex.releases r hmem with hheld | ⟨_, hbetween⟩
      · exact (h.held_before hheld).mono hex.nextId_le
      · exact hbetween.before

/-- A move that neither obtains nor frees anything. -/
theorem Exchange.idle {acts : List Action} (htrace : c'.pcb.trace = c.pcb.trace ++ acts)
    (hid : c.pcb.nextId ≤ c'.pcb.nextId) (hobtained : obtained acts = [])
    (hreleased : released acts = []) (hheld : held c'.cell = held c.cell) :
    Exchange keep c c' acts where
  trace_eq := htrace
  nextId_le := hid
  nodup := by simp [hobtained]
  obtains := by simp [hobtained]
  releases := by simp [hreleased]
  holds := by simp +contextual [hheld]
  balance := by simp [hobtained, hreleased, hheld]

/-- A move that frees the state and its scanner. -/
theorem Exchange.teardown {hs : HttpState} {acts : List Action} (hcell : c.cell = .live hs)
    (htrace : c'.pcb.trace = c.pcb.trace ++ acts) (hid : c.pcb.nextId ≤ c'.pcb.nextId)
    (hobtained : obtained acts = []) (hreleased : released acts = hs.parts)
    (hdead : held c'.cell = []) (hkeep : keep → hs.req = []) : Exchange keep c c' acts where
  trace_eq := htrace
  nextId_le := hid
  nodup := by simp [hobtained]
  obtains := by simp [hobtained]
  releases r hr := by
    rw [hreleased] at hr
    simp [held_live hcell, hr]
  holds := by simp [hdead]
  balance r _ hr := by
    have hreq : (pbufs hs.req).count r = 0 := by
      by_cases hpbuf : r.isPbuf
      · simp [hkeep (hr hpbuf), pbufs]
      · exact count_pbufs hpbuf
    simp [hobtained, hreleased, hdead, held_live hcell, hreq]

/-- What `http_find_file` obtains is the scanner of the file it opens. -/
theorem Found.parts {is09 : Bool} {id n : Nat} {hs hs' : HttpState} {acts : List Action}
    (h : Found is09 id hs hs' n acts) (hwaiting : hs.Waiting) :
    released acts = [] ∧ (obtained acts = [] ∧ hs'.parts = hs.parts ∨
      obtained acts = [.ssi id] ∧ hs'.parts = .ssi id :: hs.parts ∧ id < n) := by
  have hheader : ∀ f, obtained (headerCheck f) = [] ∧ released (headerCheck f) = [] := by
    intro f
    cases hincluded : f.httpHeaderIncluded <;>
      simp [headerCheck, hincluded, Action.obtains, Action.frees]
  have haddr := h.addr_eq
  have hid := h.nextId_lt
  cases h.opens with
  | nothing hwaiting' =>
      exact ⟨rfl, Or.inl ⟨rfl, by simp [HttpState.parts, hwaiting.ssi, hwaiting'.ssi, haddr]⟩⟩
  | plain f _ _ _ _ hssi =>
      refine ⟨by simp [hheader, Action.frees], Or.inl ⟨by simp [hheader, Action.obtains], ?_⟩⟩
      simp [HttpState.parts, hwaiting.ssi, hssi, haddr]
  | ssi f _ _ _ _ hssi =>
      refine ⟨by simp [hheader, Action.frees], Or.inr ⟨by simp [hheader, Action.obtains], ?_, ?_⟩⟩
      · simp [HttpState.parts, hwaiting.ssi, hssi, haddr, httpSsiStateInit]
      · exact hid List.mem_cons_self

/-- Data that is put into the queue and freed with it. -/
theorem Exchange.discard {hs : HttpState} (hcell : c.cell = .live hs) (xs : List (List UInt8)) :
    Exchange keep c
      { c with
        cell := .live { hs with req := [] }
        pcb := { c.pcb with
          nextId := c.pcb.nextId + xs.length
          trace := c.pcb.trace ++ queued (pbufChain c.pcb.nextId xs) ++
            freed (hs.req ++ pbufChain c.pcb.nextId xs) } }
      (queued (pbufChain c.pcb.nextId xs) ++ freed (hs.req ++ pbufChain c.pcb.nextId xs)) := by
  refine ⟨List.append_assoc .., Nat.le_add_right .., ?_, ?_, ?_, ?_, ?_⟩
  · simpa using nodup_pbufs_pbufChain _ xs
  · simpa using fun r => between_of_mem_pbufChain
  · intro r hr
    rcases (by simpa using hr : r ∈ pbufs hs.req ∨ r ∈ pbufs (pbufChain c.pcb.nextId xs))
      with hold | hnew
    · exact Or.inl (by simp [held_live hcell, hold])
    · exact Or.inr ⟨isPbuf_of_mem_pbufs hnew, between_of_mem_pbufChain hnew⟩
  · simp +contextual [held_live hcell, pbufs]
  · intro r _ _
    simp [held_live hcell, pbufs]
    omega

/-- A request that is found frees the queue, and may obtain a scanner. -/
theorem Exchange.dispatch {is09 : Bool} {hs hs' : HttpState} {n : Nat} {acts : List Action}
    (hcell : c.cell = .live hs) (hwaiting : hs.Waiting) (xs : List (List UInt8))
    (hfound : Found is09 (c.pcb.nextId + xs.length)
      { hs with req := hs.req ++ pbufChain c.pcb.nextId xs } hs' n acts) (uri : List UInt8) :
    Exchange keep c
      { c with
        cell := .live { hs' with req := [] }
        pcb := { c.pcb with
          nextId := n
          trace := c.pcb.trace ++ queued (pbufChain c.pcb.nextId xs) ++
            .findFile uri is09 :: acts ++ freed (hs.req ++ pbufChain c.pcb.nextId xs) } }
      (queued (pbufChain c.pcb.nextId xs) ++
        (.findFile uri is09 :: acts ++ freed (hs.req ++ pbufChain c.pcb.nextId xs))) := by
  obtain ⟨hreleased, hparts⟩ :=
    hfound.parts ⟨hwaiting.handle, hwaiting.file, hwaiting.left, hwaiting.ssi⟩
  have hgot : obtained (queued (pbufChain c.pcb.nextId xs) ++
        (.findFile uri is09 :: acts ++ freed (hs.req ++ pbufChain c.pcb.nextId xs))) =
      pbufs (pbufChain c.pcb.nextId xs) ++ obtained acts := by
    simp [Action.obtains]
  have hgone : released (queued (pbufChain c.pcb.nextId xs) ++
        (.findFile uri is09 :: acts ++ freed (hs.req ++ pbufChain c.pcb.nextId xs))) =
      pbufs hs.req ++ pbufs (pbufChain c.pcb.nextId xs) := by
    simp [Action.frees, hreleased]
  have hheld : held (.live { hs' with req := [] }) = hs'.parts := by simp [pbufs]
  have hsame : ({ hs with req := hs.req ++ pbufChain c.pcb.nextId xs } : HttpState).parts =
      hs.parts := rfl
  have hle := hfound.nextId_le
  have hnodup := nodup_pbufs_pbufChain c.pcb.nextId xs
  have hbetween : ∀ r ∈ pbufs (pbufChain c.pcb.nextId xs), r.between c.pcb.nextId n :=
    fun r hr => (between_of_mem_pbufChain hr).mono hle
  rw [hsame] at hparts
  refine ⟨by simp, Nat.le_trans (Nat.le_add_right ..) hle, ?_, ?_, ?_, ?_, ?_⟩ <;>
    simp only [hgot, hgone, hheld, held_live hcell]
  · -- nothing is obtained twice: a scanner is not a buffer
    rcases hparts with ⟨hobtained, _⟩ | ⟨hobtained, _⟩
    · simpa [hobtained] using hnodup
    · rw [hobtained]
      refine List.Nodup.append hnodup (List.nodup_singleton _) fun r hr hssi => ?_
      have hpbuf := isPbuf_of_mem_pbufs hr
      simp [List.mem_singleton.mp hssi, Resource.isPbuf] at hpbuf
  · -- what is obtained has a new number
    intro r hr
    rcases List.mem_append.mp hr with hnew | hssi
    · exact hbetween r hnew
    · rcases hparts with ⟨hobtained, _⟩ | ⟨hobtained, _, hlt⟩
      · simp [hobtained] at hssi
      · rw [hobtained, List.mem_singleton] at hssi
        rw [hssi]
        exact ⟨Nat.le_add_right .., hlt⟩
  · -- what is released was held, or is a buffer of this delivery
    intro r hr
    rcases List.mem_append.mp hr with hold | hnew
    · exact Or.inl (List.mem_append_right _ hold)
    · exact Or.inr ⟨isPbuf_of_mem_pbufs hnew, hbetween r hnew⟩
  · -- what is held afterwards was held or has been obtained
    rcases hparts with ⟨_, hparts⟩ | ⟨hobtained, hparts, _⟩
    · simp +contextual [hparts]
    · simp +contextual [hparts, hobtained]
  · -- the balance of each resource
    intro r _ _
    rcases hparts with ⟨hobtained, hparts⟩ | ⟨hobtained, hparts, _⟩
    · simp [hobtained, hparts]
      omega
    · simp [hobtained, hparts, List.count_cons]
      omega

/-- Every move exchanges what it takes for what it gives. -/
theorem Move.exchange (h : Move site keep c c') : ∃ acts, Exchange keep c c' acts := by
  cases h with
  | window e | share sys => exact ⟨[], .idle (by simp [Ctx.window]) (Nat.le_refl _) rfl rfl rfl⟩
  | retries hcell n =>
      exact ⟨[], .idle (by simp) (Nat.le_refl _) rfl rfl (by rw [hcell]; rfl)⟩
  | ignore hcell hhandle n => exact ⟨[], .idle (by simp) (Nat.le_add_right ..) rfl rfl rfl⟩
  | output => exact ⟨_, .idle rfl (Nat.le_refl _) rfl rfl rfl⟩
  | closeNull hopen hcell o =>
      exact ⟨[.closed o.close], .idle (by simp [Pcb.shut]) (Nat.le_refl _) rfl rfl rfl⟩
  | abortNull => exact ⟨_, .idle rfl (Nat.le_refl _) rfl rfl rfl⟩
  | resetNull => exact ⟨[], .idle (by simp) (Nat.le_refl _) rfl rfl rfl⟩
  | @send hs hs' pcb' hcell hsends hsent hactive =>
      obtain ⟨acts, hacts, htrace⟩ := hsends.trace_eq
      refine ⟨acts, .idle htrace (Nat.le_of_eq hsends.nextId_eq.symm) (obtained_of_sending hacts)
        (released_of_sending hacts) ?_⟩
      -- sending changes neither the scanner nor the queue of the state
      have hids : hs'.ssi.toList.map (fun ssi => Resource.ssi ssi.id) =
          hs.ssi.toList.map (fun ssi => Resource.ssi ssi.id) := by
        have hid := hsent.2
        cases hssi : hs.ssi <;> cases hssi' : hs'.ssi <;> simp_all
      have haddr : hs'.addr = hs.addr := by rw [hsent.1]
      have hreq : hs'.req = hs.req := by rw [hsent.1]
      simp [hcell, held, HttpState.parts, hids, haddr, hreq]
  | drop xs =>
      refine ⟨_, rfl, Nat.le_add_right .., ?_, ?_, ?_, ?_, ?_⟩
      · simp
      · simp
      · intro r hr
        rw [released_freed] at hr
        exact Or.inr ⟨isPbuf_of_mem_pbufs hr, between_of_mem_pbufChain hr⟩
      · exact fun r hr => Or.inl hr
      · intro r hr _
        -- the buffers that are dropped are new, so an older resource is none of them
        have hbefore : r.before c.pcb.nextId := by simpa using hr
        have hcount : (pbufs (pbufChain c.pcb.nextId xs)).count r = 0 :=
          List.count_eq_zero.mpr fun hmem => (between_of_mem_pbufChain hmem).not_before hbefore
        simp [hcount]
  | queue hcell hwaiting p =>
      refine ⟨_, rfl, Nat.le_add_right .., ?_, ?_, ?_, ?_, ?_⟩
      · simpa using nodup_pbufs_pbufChain _ p.payloads
      · simpa using fun r => between_of_mem_pbufChain
      · simp
      · simp only [held_live hcell, held_live_req, pbufs_append, obtained_queued, List.mem_append]
        tauto
      · simp [held_live hcell, Nat.add_assoc]
  | discard hcell hwaiting xs => exact ⟨_, .discard hcell xs⟩
  | dispatch uri is09 hopen hcell hwaiting xs hfound =>
      exact ⟨_, .dispatch hcell hwaiting xs hfound uri⟩
  | close hcell hkeep o =>
      exact ⟨_, .teardown hcell (List.append_assoc ..) (Nat.le_refl _)
        (by simp [Action.obtains]) (by simp [Action.frees]) rfl hkeep⟩
  | @finish hs hcell hkeep hleft o =>
      exact ⟨.eof :: (hs.releases ++ [.closed o.close]), .teardown hcell
        (by simp [Ctx.closed, Pcb.shut, Ctx.log, Pcb.log]) (Nat.le_refl _)
        (by simp [Action.obtains]) (by simp [Action.frees]) rfl hkeep⟩
  | reset hcell hkeep =>
      exact ⟨_, .teardown hcell rfl (Nat.le_refl _) (by simp) (by simp) rfl hkeep⟩

theorem Move.accounted (h : Move site keep c c') (hacc : Accounted keep base c) :
    Accounted keep base c' := by
  obtain ⟨acts, hex⟩ := h.exchange
  exact hacc.exchange hex

/-- No callback allocates an `http_state`. -/
theorem Move.obtained_state (h : Move site keep c c') {addr : Nat} :
    .state addr ∈ obtained c'.pcb.trace ↔ .state addr ∈ obtained c.pcb.trace := by
  obtain ⟨acts, hex⟩ := h.exchange
  have hnot : .state addr ∉ obtained acts := fun hmem => hex.obtains _ hmem
  simp [hex.trace_eq, hnot]

theorem obtained_accept (o : Oracle) (self addr : Nat) (sys : Sys σ) :
    obtained (Ctx.accept o self addr sys).pcb.trace = if o.stateAlloc then [.state addr] else [] := by
  rw [accept_eq]
  split <;> simp [Action.obtains]

theorem accept_accounted (o : Oracle) (self addr : Nat) (sys : Sys σ) :
    Accounted keep base (Ctx.accept o self addr sys) := by
  rw [accept_eq]
  split <;> constructor <;>
    simp [Action.obtains, Action.frees, held, HttpState.parts, pbufs, httpStateInit,
      Resource.before]

theorem count_released (trace : List Action) (r : Resource) :
    (released trace).count r = trace.count (.free r) := by
  induction trace with
  | nil => rfl
  | cons a trace ih =>
      rw [released_cons, List.count_append, ih, List.count_cons, Nat.add_comm]
      cases a with
      | free r' => simp [Action.frees, List.count_singleton]
      | _ => simp [Action.frees]

/-- A connection that has lost its state holds nothing. -/
theorem Accounted.freed_once {addr : Nat} (h : Accounted keep base c)
    (hstate : ∀ a, .state a ∈ obtained c.pcb.trace → a = addr)
    (hfreed : .free (.state addr) ∈ c.pcb.trace) {r : Resource} (hr : r ∈ obtained c.pcb.trace)
    (hkeep : r.isPbuf → keep ∧ ¬ r.before base) : c.pcb.trace.count (.free r) = 1 := by
  have hreleased : .state addr ∈ released c.pcb.trace :=
    List.mem_filterMap.mpr ⟨_, hfreed, rfl⟩
  have hnone : held c.cell = [] := by
    cases hcell : c.cell with
    | live hs =>
        have hheld : .state hs.addr ∈ held c.cell := by
          simp [held_live hcell, HttpState.parts]
        have haddr := hstate _ (h.held_obtained _ hheld)
        have hbalance := h.balance _ (h.held_obtained _ hheld) nofun
        have hcount := List.count_pos_iff.mpr hheld
        rw [haddr] at hbalance hcount
        have hcount' := List.count_pos_iff.mpr hreleased
        omega
    | null | freed => rfl
  have hbalance := h.balance r hr hkeep
  rwa [hnone, List.count_nil, Nat.add_zero, count_released] at hbalance

/-- Once its state has been freed, a connection has freed everything once, provided that no
event has torn it down with a request in its queue. -/
theorem teardown_releases_everything (o : Oracle) (self addr : Nat) (sys : Sys σ)
    {es : List (ConnEvent σ)}
    (htidy : Run.Steps (connStep site) Tidy (Ctx.accept o self addr sys) es)
    (hfreed : .free (.state addr) ∈
      (Run.run (connStep site) (Ctx.accept o self addr sys) es).pcb.trace) :
    ∀ r ∈ obtained (Run.run (connStep site) (Ctx.accept o self addr sys) es).pcb.trace,
      (Run.run (connStep site) (Ctx.accept o self addr sys) es).pcb.trace.count (.free r) = 1 := by
  have hinv := connRun_invariant
    (I := fun c => Accounted True 0 c ∧ ∀ a, .state a ∈ obtained c.pcb.trace → a = addr)
    (fun c c' _ h (hmove : Move site True c c') =>
      ⟨hmove.accounted h.1, fun a ha => h.2 a (hmove.obtained_state.mp ha)⟩)
    (accept_linked site o self addr sys)
    ⟨accept_accounted o self addr sys, fun a ha => by
      rw [obtained_accept] at ha
      split at ha <;> simp_all⟩
    (htidy.mono fun _ _ h _ => h)
  obtain ⟨_, hacc, hstate⟩ := hinv
  refine fun r hr => hacc.freed_once hstate hfreed hr fun hpbuf => ⟨trivial, ?_⟩
  cases r with
  | pbuf id => exact Nat.not_lt_zero id
  | state | ssi => simp [Resource.isPbuf] at hpbuf

/-- A request in two pieces. -/
def inPieces : List (ConnEvent Unit) :=
  [.call (.data .willing 2920 (chars "GET /a.ssi HT") (by decide)),
    .call (.data .willing 2920 (chars "TP/1.0\r\n\r\n") (by decide))]

theorem teardown_releases_everything_trial :
    (Run.run (connStep trialSite) (Ctx.accept .willing 0 0 trialSys) inPieces).pcb.trace.count
      (.free (.pbuf 0)) = 1 := by
  have hnot : ∀ hs o sndBuf xs hxs, ¬ TearsDown hs (.data o sndBuf xs hxs) := by
    simp [TearsDown, Call.data, Call.under, Delivery.single]
  have htidy : Run.Steps (connStep trialSite) Tidy (Ctx.accept .willing 0 0 trialSys) inPieces :=
    ⟨fun hs _ hdown => (hnot hs _ _ _ _ hdown).elim, fun hs _ hdown => (hnot hs _ _ _ _ hdown).elim,
      trivial⟩
  exact teardown_releases_everything .willing 0 0 trialSys htidy (by decide +kernel) (.pbuf 0)
    (by decide +kernel)

/-- A request that has not arrived completely when the peer resets the connection. -/
def brokenOff : List (ConnEvent Unit) :=
  [.call (.data .willing 2920 (chars "GET / HTTP/1.0") (by decide)),
    .call (.under .err .willing 2920)]

/-- The pbuf of a request that was broken off is never freed. -/
theorem teardown_loses_request :
    let trace := (Run.run (connStep trialSite) (Ctx.accept .willing 0 0 trialSys) brokenOff).pcb.trace
    .free (.state 0) ∈ trace ∧ .pbuf 0 ∈ obtained trace ∧ trace.count (.free (.pbuf 0)) = 0 := by
  decide +kernel

end Meu1oARM
