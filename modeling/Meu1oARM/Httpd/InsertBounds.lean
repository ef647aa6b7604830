import Meu1oARM.Foundation.Pieces
import Meu1oARM.Httpd.SsiProgress
import Meu1oARM.Httpd.TagLookup

/-! # What is sent of an insert

The type of an SSI handler turns the number that it returns into a `u16_t`, and
`get_tag_insert` takes it for the length of the insert as it is. The insert is sent in pieces
that join up to this length.
-/

namespace Meu1oARM

open Machine CString Pieces

/-- What an SSI handler leaves in the memory from the insert buffer on, and the number that it
returns: of characters, or a negative one for a failure. -/
structure SsiReply where
  mem : Mem
  value : Int

/-- The handler as `tSSIHandler`, whose result is a `u16_t`. -/
def replySite (tags : List (List UInt8)) (reply : Nat → Nat → SsiReply) : TagSite where
  tags := tags
  ssiHandler k loop := { mem := (reply k loop).mem, len := UInt16.ofNat (toU16 (reply k loop).value) }

/-- What an action has to do with inserts: a tag is looked up, or a piece of its insert is sent. -/
def Action.insertEvent : Action → Option (Event (Nat × List UInt8) UInt8)
  | .tagInsert pos name _ => some (.start (pos, name))
  | .write .insert off data => some (.piece off data)
  | _ => none

def insertEvents (trace : List Action) : List (Event (Nat × List UInt8) UInt8) :=
  trace.filterMap Action.insertEvent

@[simp] theorem insertEvents_append (s t : List Action) :
    insertEvents (s ++ t) = insertEvents s ++ insertEvents t :=
  List.filterMap_append

@[simp] theorem insertEvents_cons (a : Action) (t : List Action) :
    insertEvents (a :: t) = a.insertEvent.toList ++ insertEvents t := by
  cases hevent : a.insertEvent <;> simp [insertEvents, hevent]

@[simp] theorem insertEvents_nil : insertEvents [] = [] := rfl

@[simp] theorem insertEvents_check (pcb : Pcb) (cond : Bool) (a : Assertion) :
    insertEvents (pcb.check cond a).trace = insertEvents pcb.trace := by
  cases cond <;> simp [Pcb.check, Pcb.log, Action.insertEvent]

theorem starts_insertEvents (trace : List Action) : starts (insertEvents trace) = tagCalls trace := by
  induction trace with
  | nil => rfl
  | cons a trace ih =>
      rw [insertEvents_cons, starts_append, ih, tagCalls_cons]
      congr 1
      cases a with
      | write src _ _ => cases src <;> rfl
      | _ => rfl

/-- The number that the handler returns for the `k`-th tag, if one is registered for its name. -/
def returned (tags : List (List UInt8)) (reply : Nat → Nat → SsiReply)
    (tag : Nat × Nat × List UInt8) : Option Int :=
  (tags.findIdx? (· == tag.2.2)).map fun loop => (reply tag.1 loop).value

/-- A piece lies inside `tag_insert`, and it is empty if the handler has failed. -/
def PieceInside (tags : List (List UInt8)) (reply : Nat → Nat → SsiReply)
    (tag : Option (Nat × Nat × List UInt8)) (off : Nat) (data : List UInt8) : Prop :=
  off + data.length ≤ maxTagInsertLen + 1 ∧
    ∀ value ∈ tag.bind (returned tags reply), value < 0 → data = []

/-- All bytes that have been sent of inserts lie inside `tag_insert`, and none have been sent where
the handler has failed. -/
def InsertsInside (tags : List (List UInt8)) (reply : Nat → Nat → SsiReply)
    (trace : List Action) : Prop :=
  Each (PieceInside tags reply) 0 none (insertEvents trace)

/-- The condition on a number that a handler returns: as a `u16_t` it is at most the size of
`tag_insert`, and 0 if the handler has failed. -/
def ReplyFits (value : Int) : Prop :=
  toU16 value ≤ maxTagInsertLen + 1 ∧ (value < 0 → toU16 value = 0)

/-- The handler's number fits for every registered tag that does not end with the file. -/
def RepliesFit (tags : List (List UInt8)) (reply : Nat → Nat → SsiReply) (data : List UInt8) :
    Prop :=
  ∀ k pos name, (fileTags data)[k]? = some (pos, name) → pos < data.length →
    ∀ value ∈ returned tags reply (k, pos, name), ReplyFits value

/-! ## The pieces join up -/

/-- What is sent of the insert for a tag: nothing if the file ends with the tag. -/
def insertLimit (site : TagSite) (data : List UInt8) (k : Nat) (tag : Nat × List UInt8) : Nat :=
  if tag.1 < data.length then (tagText site k tag.2).length else 0

/-- The inserts of all tags but the one that is being worked on have been sent. -/
structure Inserting (site : TagSite) (data : List UInt8) (trace : List Action)
    (ssi : HttpSsiState) : Prop where
  idle : ssi.tagState ≠ .sending → Sent (insertLimit site data) ssi.calls (insertEvents trace)
  sending : ssi.tagState = .sending → ∃ k log name pieces, ssi.calls = k + 1 ∧
    insertEvents trace = log ++ .start (ssi.parsed, name) :: pieces ∧
    Sent (insertLimit site data) k log ∧ Covers ssi.tagIndex pieces ∧
    (ssi.tagIndex ≠ 0 → ssi.parsed < data.length) ∧
    ssi.tagInsertLen = (tagText site k name).length

variable {site : TagSite} {o : Oracle} {data : List UInt8}

/-- The whole insert has been sent, or the file ends with its tag. -/
theorem Inserting.sent {trace : List Action} {ssi : HttpSsiState}
    (h : Inserting site data trace ssi)
    (hlast : ssi.tagState = .sending →
      ssi.tagIndex = if ssi.parsed < data.length then ssi.tagInsertLen else 0) :
    Sent (insertLimit site data) ssi.calls (insertEvents trace) := by
  by_cases hstate : ssi.tagState = .sending
  · obtain ⟨k, log, name, pieces, hcalls, hlog, hsent, hcovers, -, hlimit⟩ := h.sending hstate
    rw [hcalls, hlog]
    refine .block hsent ?_
    rw [hlast hstate, hlimit] at hcovers
    exact hcovers
  · exact h.idle hstate

theorem tcpWrite_events (o : Oracle) (pcb : Pcb) (src : Src) (off : Nat) (ptr : Mem) (len : Nat) :
    ∃ err next, tcpWrite o pcb src off ptr len = (err, next) ∧
      insertEvents next.trace = insertEvents pcb.trace ++
        if src = .insert ∧ err = .ok then [.piece off (bytes ptr len)] else [] := by
  have htouch : insertEvents pcb.touch.trace = insertEvents pcb.trace := by
    unfold Pcb.touch
    split
    · rfl
    · simp [Pcb.log, Action.insertEvent]
  simp only [tcpWrite]
  generalize (if o.write pcb.touch.writes = .ok ∧ pcb.touch.sndBuf.toNat < len then Err.mem
    else o.write pcb.touch.writes) = verdict
  by_cases hok : verdict = .ok
  · rw [if_pos hok]
    refine ⟨.ok, _, rfl, ?_⟩
    cases src <;> simp [htouch, Action.insertEvent]
  · rw [if_neg hok]
    exact ⟨verdict, _, rfl, by simp [hok, htouch, Action.insertEvent]⟩

theorem httpWriteLoop_events (o : Oracle) (src : Src) (off : Nat) (ptr : Mem) (fuel len : Nat)
    (pcb : Pcb) :
    insertEvents (httpWriteLoop o src off ptr fuel len pcb).2.2.trace = insertEvents pcb.trace ++
      if src = .insert ∧ (httpWriteLoop o src off ptr fuel len pcb).1 = .ok
        then [.piece off (bytes ptr (httpWriteLoop o src off ptr fuel len pcb).2.1)] else [] := by
  induction fuel generalizing len pcb with
  | zero => simp [httpWriteLoop]
  | succ fuel ih =>
      obtain ⟨err, next, hwrite, hone⟩ := tcpWrite_events o pcb src off ptr len
      simp only [httpWriteLoop, hwrite]
      by_cases hmem : err = .mem
      · subst hmem
        rw [if_neg (by simp), List.append_nil] at hone
        simp only [if_true]
        generalize (if next.sndBuf = 0 ∨ tcpSndQueuelenMax ≤ next.sndQueuelen.toNat
          then 1 else len / 2) = shorter
        split
        next => rw [ih, hone]
        next => rw [hone, if_neg (by simp), List.append_nil]
      · simp only [hmem, if_false]
        exact hone

/-- The piece that `http_write` sends. -/
theorem httpWrite_events (o : Oracle) (pcb : Pcb) (src : Src) (off : Nat) (ptr : Mem) (len : Nat) :
    insertEvents (httpWrite o pcb src off ptr len).2.2.trace = insertEvents pcb.trace ++
      if src = .insert ∧ (httpWrite o pcb src off ptr len).1 = .ok ∧ 0 < len
        then [.piece off (bytes ptr (httpWrite o pcb src off ptr len).2.1)] else [] := by
  unfold httpWrite
  by_cases hzero : len = 0
  · simp [hzero]
  · simp only [if_neg hzero, Nat.pos_of_ne_zero hzero, and_true]
    exact httpWriteLoop_events o src off ptr len len pcb

namespace SsiSend

variable {start : Nat} {p : Pcb} {id : Nat} {s s' : SsiSend}

theorem writeFile_events (o : Oracle) (data : List UInt8) (s : SsiSend) (len : Nat) :
    insertEvents (s.writeFile o data len).pcb.trace = insertEvents s.pcb.trace := by
  have hevents := httpWrite_events o s.pcb .file s.file (fileMem data s.file) len
  simp only [SsiSend.writeFile]
  generalize httpWrite o s.pcb .file s.file (fileMem data s.file) len = result at hevents ⊢
  obtain ⟨err, sent, pcb⟩ := result
  rw [if_neg (by simp), List.append_nil] at hevents
  split <;> exact hevents

/-- Nothing that concerns the inserts changes. -/
theorem inserting_congr (h : Inserting site data s.pcb.trace s.ssi)
    (hevents : insertEvents s'.pcb.trace = insertEvents s.pcb.trace) (hssi : s'.ssi = s.ssi) :
    Inserting site data s'.pcb.trace s'.ssi := by
  rw [hssi]
  exact ⟨hevents ▸ h.idle, hevents ▸ h.sending⟩

/-- A tag is looked up, and nothing of its insert has been sent yet. -/
theorem fetched_inserting (site : TagSite) (h : Inserting site data s.pcb.trace s.ssi)
    (hstate : s.ssi.tagState ≠ .sending) :
    Inserting site data (s.fetched site).pcb.trace (s.fetched site).ssi := by
  obtain ⟨mem, len, heq, hbytes, -⟩ := fetched_eq site s
  rw [heq]
  refine ⟨fun hne => absurd rfl hne, fun _ => ⟨s.ssi.calls, insertEvents s.pcb.trace,
    cstr s.ssi.tagName, [], rfl, ?_, h.idle hstate, .nil, fun hne => absurd rfl hne, ?_⟩⟩
  · simp [Pcb.log, Action.insertEvent]
  · rw [← hbytes, length_bytes]

/-- A further piece of the insert is sent, or none. -/
theorem writeInsert_inserting (h : Inserting site data s.pcb.trace s.ssi)
    (hstream : s.Stream site data start p id) (hmore : s.ssi.parseLeft ≠ 0)
    (hstate : s.ssi.tagState = .sending) {len : Nat}
    (hlen : len ≤ s.ssi.tagInsertLen - s.ssi.tagIndex) :
    Inserting site data (s.writeInsert o len).pcb.trace (s.writeInsert o len).ssi := by
  obtain ⟨k, log, name, pieces, hcalls, hlog, hsent, hcovers, hrest, hlimit⟩ := h.sending hstate
  have hinsert := hstream.insertLen_lt hstate
  have hindex := hstream.tagIndex_le hstate
  have hparse := hstream.parse_eq
  have hevents := httpWrite_events o s.pcb .insert s.ssi.tagIndex s.ssi.insertMem len
  have hspec := httpWrite_wrote o hstream.opened .insert s.ssi.tagIndex s.ssi.insertMem len
  simp only [SsiSend.writeInsert]
  generalize httpWrite o s.pcb .insert s.ssi.tagIndex s.ssi.insertMem len = result at hevents hspec ⊢
  obtain ⟨err, sent, pcb⟩ := result
  dsimp only at hevents ⊢
  by_cases hok : err = .ok
  · have hle : sent ≤ len := hspec.length_le hok
    have hpos : 0 < len → 0 < sent := hspec.length_pos hok
    rw [if_pos hok]
    have hmod : u16 (s.ssi.tagIndex + sent) = s.ssi.tagIndex + sent := u16_of_lt (by omega)
    refine ⟨fun hne => absurd hstate hne, fun _ => ?_⟩
    dsimp only
    rw [hmod]
    by_cases hzero : len = 0
    · -- nothing was asked for
      have hnone : sent = 0 := by omega
      rw [if_neg (by simp [hzero]), List.append_nil] at hevents
      refine ⟨k, log, name, pieces, hcalls, hevents.trans hlog, hsent, ?_, fun _ => by omega, hlimit⟩
      rw [hnone]
      exact hcovers
    · have hsome := hpos (Nat.pos_of_ne_zero hzero)
      rw [if_pos ⟨rfl, hok, Nat.pos_of_ne_zero hzero⟩, hlog] at hevents
      refine ⟨k, log, name, _, hcalls, by rw [hevents, List.append_assoc, List.cons_append], hsent, ?_,
        fun _ => by omega, hlimit⟩
      have hbytes : (bytes s.ssi.insertMem sent).length = sent := length_bytes _ _
      have hne : bytes s.ssi.insertMem sent ≠ [] := by
        apply List.ne_nil_of_length_pos
        rw [hbytes]
        exact hsome
      have hnext := hcovers.snoc hne
      rwa [hbytes] at hnext
  · rw [if_neg hok]
    rw [if_neg (by simp [hok]), List.append_nil] at hevents
    exact ⟨fun hne => absurd hstate hne,
      fun _ => ⟨k, log, name, pieces, hcalls, hevents.trans hlog, hsent, hcovers, hrest, hlimit⟩⟩

theorem Turn.inserting (hturn : Turn site o data s s') (h : s.Stream site data start p id)
    (hmore : s.ssi.parseLeft ≠ 0) (hins : Inserting site data s.pcb.trace s.ssi) :
    Inserting site data s'.pcb.trace s'.ssi := by
  cases hturn with
  | reads hstate hreads =>
      obtain ⟨cond, hpcb⟩ := hreads.pcb_eq
      refine ⟨fun _ => ?_, fun hsending => absurd hsending hreads.state_ne⟩
      rw [hpcb, insertEvents_check, hreads.calls_eq]
      exact hins.idle hstate
  | leadin hstate => exact ⟨fun _ => hins.idle (by simp [hstate]), fun hsending => by simp at hsending⟩
  | fetches hstate => exact fetched_inserting site hins hstate
  | completes hstate =>
      have hfetched := fetched_inserting site hins hstate
      refine inserting_congr hfetched (writeFile_events ..) ?_
      exact (writeFile_writes o data (h.fetched_opened site) _).2.1
  | sendsFile =>
      exact inserting_congr hins (writeFile_events ..) (writeFile_writes o data h.opened _).2.1
  | sendsInsert hstate => exact writeInsert_inserting hins h hmore hstate (asked_le_gap _ _)
  | done hstate hsent hrest =>
      have hparse := h.parse_eq
      have hindex := h.tagIndex_le hstate
      refine ⟨fun _ => hins.sent fun _ => ?_, fun hsending => by simp at hsending⟩
      rw [if_pos (by omega)]
      omega

/-- The invariant of `http_send_data_ssi` with what has been sent of the inserts. -/
structure Expanding (site : TagSite) (data : List UInt8) (start : Nat) (p : Pcb) (id : Nat)
    (s : SsiSend) : Prop extends Looking site data start p id s where
  inserting : Inserting site data s.pcb.trace s.ssi

theorem Expanding.iter (h : Expanding site data start p id s) (hmore : s.ssi.parseLeft ≠ 0) :
    Expanding site data start p id (s.iter site o data) :=
  ⟨h.toLooking.iter hmore,
    (iter_turn site o data h.scanning).inserting h.toStream hmore h.inserting⟩

theorem Expanding.sendParsed (h : Expanding site data start p id s) (hgap : s.file < s.ssi.parsed) :
    Expanding site data start p id (s.sendParsed o data) := by
  refine ⟨h.toLooking.sendParsed hgap, ?_⟩
  have hchecked := h.check (decide (s.pcb.sndBuf.toNat < s.ssi.parsed - s.file) ||
    decide (s.ssi.parsed - s.file ≤ 65535)) (a := .gapFits) rfl
  refine inserting_congr (s := s) h.inserting ?_ (writeFile_writes o data hchecked.opened _).2.1
  exact (writeFile_events ..).trans (insertEvents_check ..)

theorem Expanding.send (h : Expanding site data start p id s) :
    Expanding site data start p id (s.send site o data) :=
  send_invariant (fun _ h hmore => h.iter hmore) (fun _ h hgap => h.sendParsed hgap) h

end SsiSend

/-! ## Over the calls -/

variable {f : FsFile} {is09 : Bool} {start : Nat} {c : Pcb × HttpState}

theorem insertEvents_of_unsent {trace : List Action} (h : ∀ a ∈ trace, a.isSending = false) :
    insertEvents trace = [] := by
  refine List.filterMap_eq_nil_iff.mpr fun a ha => ?_
  have hno := h a ha
  cases a <;> first | rfl | simp [Action.isSending] at hno

/-- The connection serves the file, with what has been looked up and sent of the inserts. If there
is nothing to be sent from the beginning, no insert is. -/
structure SsiExpanding (site : TagSite) (f : FsFile) (start : Nat) (c : Pcb × HttpState) :
    Prop where
  expanding : ∃ file ssi, c.2.file = some file ∧ c.2.ssi = some ssi ∧
    ((f.data.length ≤ start ∧ c.2.left = 0 ∧ insertEvents c.1.trace = []) ∨
      (SsiStream site f.data start c.1 file c.2.left ssi ∧
        Looks f.data c.1.trace ssi ∧ Inserting site f.data c.1.trace ssi))

theorem SsiOpened.left_eq (h : SsiOpened f is09 c) :
    c.2.left = f.data.length - headerEnd f is09 := by
  have hsize := f.size_lt
  exact h.left.trans (sub32_of_le (headerEnd_le f is09) (by simp only [FsFile.len]; omega))

theorem SsiOpened.expanding (h : SsiOpened f is09 c) : SsiExpanding site f (headerEnd f is09) c := by
  have hevents := insertEvents_of_unsent h.unsent
  have hcalls : tagCalls c.1.trace = [] := tagCalls_eq_nil (tagInserts_of_unsent h.unsent)
  have hserving : SsiServing site f (headerEnd f is09) c := h.serving
  obtain ⟨file, ssi, hfile, hssi, hzero | hstream⟩ := hserving.stream
  · have hleft := h.left_eq
    exact ⟨file, ssi, hfile, hssi, Or.inl ⟨by omega, hzero, hevents⟩⟩
  obtain ⟨id, hinit⟩ := h.ssi
  obtain rfl := Option.some.inj (hinit.symm.trans hssi)
  refine ⟨file, _, hfile, hssi, Or.inr ⟨hstream, ?_, ?_⟩⟩
  · rw [Looks, hcalls]
    rfl
  · refine ⟨fun _ => ?_, fun hsending => absurd hsending (by simp [httpSsiStateInit])⟩
    rw [hevents]
    exact .nil

theorem SsiExpanding.run (h : SsiExpanding site f start c) (call : SsiCall) :
    SsiExpanding site f start (call.run site f.data c) := by
  obtain ⟨file, ssi, hfile, hssi, ⟨-, hzero, -⟩ | ⟨hstream, hlooks, hinserting⟩⟩ := h.expanding
  · have hstay : call.run site f.data c = c := by simp [SsiCall.run, hssi, hzero]
    rw [hstay]
    exact h
  simp only [SsiCall.run, hssi]
  split
  next => exact h
  next hleft =>
    have hserving : SsiServing site f start c := ⟨file, ssi, hfile, hssi, Or.inr hstream⟩
    have hopen : (call.window c.1).status = .opened := hstream.opened
    have htrace : (call.start c ssi).pcb.trace = c.1.trace := by
      simp only [SsiCall.start, Pcb.touch_of_opened hopen]
      rfl
    have hexpanding : (call.start c ssi).Expanding site f.data start (call.window c.1) ssi.id :=
      ⟨⟨hserving.start call hssi hleft, htrace ▸ hlooks⟩, htrace ▸ hinserting⟩
    have hsent := hexpanding.send (o := call.oracle)
    exact ⟨_, _, rfl, rfl, Or.inr ⟨hsent.toSsiStream, hsent.looks, hsent.inserting⟩⟩

theorem ssiCalled_expanding (h : SsiOpened f is09 c) (calls : List SsiCall) :
    SsiExpanding site f (headerEnd f is09) (ssiCalled site f c calls) :=
  Run.invariant_of_step (fun _ call h => h.run call) h.expanding calls

/-! ## Inside the buffer -/

section Reply

variable {tags : List (List UInt8)} {reply : Nat → Nat → SsiReply} {trace : List Action}
  {ssi : HttpSsiState}

/-- What the pieces of a block that is sent up to `n` amount to. -/
def SentInside (tags : List (List UInt8)) (reply : Nat → Nat → SsiReply) (k : Nat)
    (tag : Nat × List UInt8) (n : Nat) : Prop :=
  n ≤ maxTagInsertLen + 1 ∧ ∀ value ∈ returned tags reply (k, tag), value < 0 → n = 0

theorem sentInside_zero (k : Nat) (tag : Nat × List UInt8) : SentInside tags reply k tag 0 :=
  ⟨Nat.zero_le _, fun _ _ _ => rfl⟩

theorem sentInside_add (k : Nat) (tag : Nat × List UInt8) (n : Nat) (data : List UInt8)
    (hdata : data ≠ []) :
    SentInside tags reply k tag n ∧ PieceInside tags reply (some (k, tag)) n data ↔
      SentInside tags reply k tag (n + data.length) := by
  have hpos := List.length_pos_iff.mpr hdata
  constructor
  · rintro ⟨-, hle, hfailed⟩
    exact ⟨hle, fun value hvalue hneg => absurd (hfailed value hvalue hneg) hdata⟩
  · rintro ⟨hle, hfailed⟩
    refine ⟨⟨by omega, fun value hvalue hneg => ?_⟩, hle, fun value hvalue hneg => ?_⟩
    · have hzero := hfailed value hvalue hneg
      omega
    · have hzero := hfailed value hvalue hneg
      omega

theorem SentInside.mono {k : Nat} {tag : Nat × List UInt8} {m n : Nat}
    (h : SentInside tags reply k tag n) (hle : m ≤ n) : SentInside tags reply k tag m :=
  ⟨Nat.le_trans hle h.1, fun value hvalue hneg => by have hzero := h.2 value hvalue hneg; omega⟩

/-- The length of the insert is what the handler returned as a `u16_t`. -/
theorem sentInside_limit_iff (k pos : Nat) (name : List UInt8) :
    SentInside tags reply k (pos, name) (insertLimit (replySite tags reply) data k (pos, name)) ↔
      (pos < data.length → ∀ value ∈ returned tags reply (k, pos, name), ReplyFits value) := by
  by_cases hpos : pos < data.length
  · simp only [insertLimit, hpos, if_true, forall_const, SentInside, tagText, returned, replySite]
    cases hfind : tags.findIdx? (· == name) with
    | none =>
        have hle := length_unknownTagText_le name
        simp only [Option.map_none, Option.not_mem_none, false_implies, implies_true, and_true,
          iff_true]
        omega
    | some loop =>
        have hlt : toU16 (reply k loop).value < 65536 := by
          unfold toU16
          omega
        have hlen : (UInt16.ofNat (toU16 (reply k loop).value)).toNat = toU16 (reply k loop).value :=
          UInt16.toNat_ofNat_of_lt hlt
        simp [ReplyFits, hlen]
  · simp only [insertLimit, hpos, if_false, false_implies, iff_true]
    exact sentInside_zero k (pos, name)

theorem insertsInside_iff_of_sent {k : Nat}
    (h : Sent (insertLimit (replySite tags reply) data) k (insertEvents trace)) :
    InsertsInside tags reply trace ↔ ∀ i pos name, (tagCalls trace)[i]? = some (pos, name) →
      pos < data.length → ∀ value ∈ returned tags reply (i, pos, name), ReplyFits value := by
  rw [InsertsInside, h.each_iff sentInside_zero sentInside_add, starts_insertEvents]
  constructor
  · intro hall i pos name hi
    exact (sentInside_limit_iff i pos name).mp (hall i (pos, name) hi)
  · rintro hall i ⟨pos, name⟩ hi
    exact (sentInside_limit_iff i pos name).mpr (hall i pos name hi)

/-- While an insert is being sent, its pieces are a part of it. -/
theorem Inserting.inside (h : Inserting (replySite tags reply) data trace ssi)
    (hindex : ssi.tagState = .sending → ssi.tagIndex ≤ ssi.tagInsertLen)
    (hlooks : Looks data trace ssi) (hfit : RepliesFit tags reply data) :
    InsertsInside tags reply trace := by
  -- the calls so far are the first ones that the file asks for
  have hknown : ∀ (i : Nat) tag, (tagCalls trace)[i]? = some tag → (fileTags data)[i]? = some tag := by
    intro i tag hi
    rw [← hlooks, List.getElem?_append_left (List.getElem?_eq_some_iff.mp hi).1]
    exact hi
  by_cases hstate : ssi.tagState = .sending
  · obtain ⟨k, log, name, pieces, -, hlog, hsent, hcovers, hroom, hlimit⟩ := h.sending hstate
    have hlength := hsent.length_starts
    have hstarts := starts_insertEvents trace
    rw [hlog, starts_append, starts_start, hcovers.starts_eq] at hstarts
    have hlast : (tagCalls trace)[k]? = some (ssi.parsed, name) := by
      rw [← hstarts, List.getElem?_append_right (Nat.le_of_eq hlength), hlength, Nat.sub_self]
      rfl
    rw [InsertsInside, hlog, each_start, Nat.zero_add, hlength,
      hsent.each_iff sentInside_zero sentInside_add,
      hcovers.each_iff (sentInside_zero k _) (sentInside_add k _)]
    constructor
    · rintro i ⟨pos, name'⟩ hi
      refine (sentInside_limit_iff i pos name').mpr fun hpos => hfit i pos name' (hknown i _ ?_) hpos
      rw [← hstarts, List.getElem?_append_left (List.getElem?_eq_some_iff.mp hi).1]
      exact hi
    · by_cases hzero : ssi.tagIndex = 0
      · rw [hzero]
        exact sentInside_zero k _
      · have hpos := hroom hzero
        -- what has been sent of the current insert is a first part of it
        have hwhole : SentInside tags reply k (ssi.parsed, name)
            (insertLimit (replySite tags reply) data k (ssi.parsed, name)) :=
          (sentInside_limit_iff k ssi.parsed name).mpr
            fun _ => hfit k ssi.parsed name (hknown k _ hlast) hpos
        refine hwhole.mono ?_
        rw [insertLimit, if_pos hpos, ← hlimit]
        exact hindex hstate
  · rw [insertsInside_iff_of_sent (h.idle hstate)]
    intro i pos name hi hpos
    exact hfit i pos name (hknown i _ hi) hpos

/-- When the whole file has been sent, the pieces are the whole inserts. -/
theorem Inserting.inside_iff {pcb : Pcb} {file left : Nat}
    (h : Inserting (replySite tags reply) data pcb.trace ssi)
    (hstream : SsiStream (replySite tags reply) data start pcb file left ssi)
    (hlooks : Looks data pcb.trace ssi) (hdone : left = 0) :
    InsertsInside tags reply pcb.trace ↔ RepliesFit tags reply data := by
  have hparsed : data.length ≤ ssi.parsed := by
    have hfile := hstream.left_eq
    have hle := hstream.file_le
    have hstart := hstream.start_lt
    omega
  have hall : tagCalls pcb.trace = fileTags data := by
    rw [Looks, List.drop_of_length_le hparsed, Tokens.reported, List.append_nil] at hlooks
    exact hlooks
  rw [insertsInside_iff_of_sent (h.sent fun hstate => ?_), hall]
  · rfl
  · rw [if_neg (Nat.not_lt.mpr hparsed)]
    obtain ⟨-, -, -, -, -, -, -, -, hroom, -⟩ := h.sending hstate
    by_contra hne
    exact absurd (hroom hne) (Nat.not_lt.mpr hparsed)

end Reply

variable {tags : List (List UInt8)} {reply : Nat → Nat → SsiReply}

/-- After any calls. -/
theorem SsiExpanding.inside (h : SsiExpanding (replySite tags reply) f start c)
    (hfit : RepliesFit tags reply f.data) : InsertsInside tags reply c.1.trace := by
  obtain ⟨file, ssi, -, -, ⟨-, -, hevents⟩ | ⟨hstream, hlooks, hinserting⟩⟩ := h.expanding
  · rw [InsertsInside, hevents]
    trivial
  · exact hinserting.inside hstream.tagIndex_le hlooks hfit

/-- After the last of them. -/
theorem SsiExpanding.inside_iff (h : SsiExpanding (replySite tags reply) f start c)
    (hstart : start < f.data.length) (hdone : c.2.left = 0) :
    InsertsInside tags reply c.1.trace ↔ RepliesFit tags reply f.data := by
  obtain ⟨file, ssi, -, -, ⟨hnothing, -, -⟩ | ⟨hstream, hlooks, hinserting⟩⟩ := h.expanding
  · exact absurd hstart (Nat.not_lt.mpr hnothing)
  · exact hinserting.inside_iff hstream hlooks hdone

/-- The bytes that are sent of the inserts lie inside `tag_insert`, and none are sent where the
handler fails, exactly if the handler's number fits for every registered tag. -/
theorem inserts_inside_iff (h : SsiOpened f is09 c) (hsome : c.2.left ≠ 0) :
    (∀ calls, InsertsInside tags reply (ssiCalled (replySite tags reply) f c calls).1.trace) ↔
      RepliesFit tags reply f.data := by
  have hleft := h.left_eq
  have hserving : SsiServing (replySite tags reply) f (headerEnd f is09) c := h.serving
  constructor
  · intro hall
    obtain ⟨n, hdone⟩ := hserving.sent
    exact ((ssiCalled_expanding h _).inside_iff (by omega) hdone).mp (hall _)
  · intro hfit calls
    exact (ssiCalled_expanding h calls).inside hfit

/-- A handler that writes three characters. -/
theorem inserts_inside_three :
    RepliesFit [chars "a"] (fun _ _ => { mem := fun _ => 65, value := 3 }) tagPage.data ∧
      InsertsInside [chars "a"] (fun _ _ => { mem := fun _ => 65, value := 3 })
        (ssiCalled (replySite [chars "a"] fun _ _ => { mem := fun _ => 65, value := 3 }) tagPage
          tagPageOpened [roomyCall]).1.trace := by
  have hfits : ReplyFits 3 := ⟨by decide, by decide⟩
  have hreplies : RepliesFit [chars "a"] (fun _ _ => { mem := fun _ => 65, value := 3 })
      tagPage.data := by
    intro _ _ _ _ _ value hvalue
    obtain ⟨_, -, rfl⟩ := Option.map_eq_some_iff.mp hvalue
    exact hfits
  exact ⟨hreplies, (inserts_inside_iff tagPageOpened_opened (by decide)).mpr hreplies [roomyCall]⟩

instance (tags : List (List UInt8)) (reply : Nat → Nat → SsiReply)
    (tag : Option (Nat × Nat × List UInt8)) (off : Nat) (data : List UInt8) :
    Decidable (PieceInside tags reply tag off data) :=
  inferInstanceAs (Decidable (_ ∧ _))

instance (tags : List (List UInt8)) (reply : Nat → Nat → SsiReply) (trace : List Action) :
    Decidable (InsertsInside tags reply trace) :=
  inferInstanceAs (Decidable (Each ..))

/-- A handler fails with -1, and 290 bytes of its 65535 are sent in the first call. Another one
returns 300. -/
theorem failed_insert_sent :
    ¬ InsertsInside [chars "a"] (fun _ _ => { mem := fun _ => 65, value := -1 })
      (ssiCalled (replySite [chars "a"] fun _ _ => { mem := fun _ => 65, value := -1 }) tagPage
        tagPageOpened [{ roomyCall with sndBuf := 300 }]).1.trace ∧
    ¬ InsertsInside [chars "a"] (fun _ _ => { mem := fun _ => 65, value := 300 })
      (ssiCalled (replySite [chars "a"] fun _ _ => { mem := fun _ => 65, value := 300 }) tagPage
        tagPageOpened [{ roomyCall with sndBuf := 300 }]).1.trace := by
  decide +kernel

end Meu1oARM
