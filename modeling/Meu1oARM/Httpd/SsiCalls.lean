import Meu1oARM.Foundation.Loop
import Meu1oARM.Foundation.Run
import Meu1oARM.Httpd.Opening

/-! # The calls of `http_send_data_ssi`

A file with tags is sent in a number of calls, which `http_send` makes as long as
something is left. What lwIP answers and how much of the send buffer is free differ from
call to call. In each of them the loop is looked at round by round.
-/

namespace Meu1oARM

open Machine CString

/-- A call: the answers of lwIP to it, and what the control block says of the send buffer. -/
structure SsiCall where
  oracle : Oracle
  sndBuf : UInt16
  sndQueuelen : UInt16
  mss : UInt16

/-- The control block when the call is made. -/
def SsiCall.window (call : SsiCall) (pcb : Pcb) : Pcb :=
  { pcb with sndBuf := call.sndBuf, sndQueuelen := call.sndQueuelen, mss := call.mss }

/-- `http_send` of a connection with a scanner: it calls `http_send_data_ssi` if something is
left to be sent. -/
def SsiCall.run (site : TagSite) (data : List UInt8) (c : Pcb × HttpState) (call : SsiCall) :
    Pcb × HttpState :=
  match c.2.ssi with
  | some ssi =>
    if c.2.left = 0 then c
    else (httpSendDataSsi site call.oracle data (call.window c.1) c.2 ssi).2
  | none => c

/-- The variables of `http_send_data_ssi` when it is called. -/
def SsiCall.start (call : SsiCall) (c : Pcb × HttpState) (ssi : HttpSsiState) : SsiSend where
  pcb := (call.window c.1).touch
  ssi := ssi
  file := c.2.file.getD 0
  left := c.2.left
  err := .ok
  len := (call.window c.1).touch.sndBuf.toNat
  dataToSend := 0

/-- What `http_init_file` leaves for a file with tags, on a connection on which nothing has been
sent. -/
structure SsiOpened (f : FsFile) (is09 : Bool) (c : Pcb × HttpState) : Prop where
  opened : c.1.status = .opened
  unsent : ∀ a ∈ c.1.trace, a.isSending = false
  file : c.2.file = some (headerEnd f is09)
  left : c.2.left = sub32 f.len (headerEnd f is09)
  ssi : ∃ id, c.2.ssi = some (httpSsiStateInit id f)

/-- The connection after some calls. -/
def ssiCalled (site : TagSite) (f : FsFile) (c : Pcb × HttpState) (calls : List SsiCall) :
    Pcb × HttpState :=
  Run.run (SsiCall.run site f.data) c calls

namespace SsiSend

variable (site : TagSite) (o : Oracle) (data : List UInt8)

/-- The loop is left in front of this round. -/
def Leaves (s : SsiSend) : Prop := s.ssi.parseLeft = 0 ∨ s.err ≠ .ok ∨ s.len = 0

instance (s : SsiSend) : Decidable s.Leaves := inferInstanceAs (Decidable (_ ∨ _))

/-- The state in which `http_send_data_ssi` comes to its loop, if it does. -/
def toLoop (s : SsiSend) : Option SsiSend :=
  if s.file < s.ssi.parsed then
    if (s.sendParsed o data).pcb.sndBuf = 0 then none else some (s.sendParsed o data)
  else some s

/-- The state in front of round `k` of the loop. -/
def front (s : SsiSend) (k : Nat) : SsiSend := (SsiSend.iter site o data)^[k] s

/-- The loop comes to the front of round `k`. -/
def Reaches (s : SsiSend) (k : Nat) : Prop := Loop.Reaches (SsiSend.iter site o data) Leaves s k

variable {site o data}

theorem send_eq (s : SsiSend) : s.send site o data =
    match s.toLoop o data with
    | some t => t.scanAndSend site o data
    | none => s.sendParsed o data := by
  unfold SsiSend.send toLoop
  by_cases hgap : s.file < s.ssi.parsed
  · by_cases hfull : (s.sendParsed o data).pcb.sndBuf = 0 <;> simp [hgap, hfull]
  · simp [hgap]

/-- The loop, once it is known where it stops. -/
theorem loop_eq {n : Nat} {s : SsiSend} (hstop : (s.front site o data n).Leaves)
    (hreach : s.Reaches site o data n) {fuel : Nat} (hfuel : n < fuel) :
    s.loop site o data fuel = (s.front site o data n,
      decide ((s.front site o data n).ssi.parseLeft ≠ 0 ∧ (s.front site o data n).err = .ok)) := by
  induction n generalizing s fuel with
  | zero =>
      obtain ⟨fuel, rfl⟩ := Nat.exists_eq_add_of_lt hfuel
      have hleaves : s.Leaves := hstop
      have hfront : s.front site o data 0 = s := rfl
      rw [Nat.zero_add, SsiSend.loop, hfront]
      by_cases hdone : s.ssi.parseLeft = 0 ∨ s.err ≠ .ok
      · rw [if_pos hdone]
        rcases hdone with hzero | herr
        · simp [hzero]
        · simp [herr]
      · rw [if_neg hdone]
        simp only [not_or, ne_eq, not_not] at hdone
        have hlen : s.len = 0 := (hleaves.resolve_left hdone.1).resolve_left (not_not.mpr hdone.2)
        simp [hlen, hdone.1, hdone.2]
  | succ n ih =>
      obtain ⟨fuel, rfl⟩ : ∃ m, fuel = m + 1 := ⟨fuel - 1, by omega⟩
      obtain ⟨hgo, hrest⟩ := Loop.reaches_succ_iff.mp hreach
      have hfront : s.front site o data (n + 1) = (s.iter site o data).front site o data n :=
        Function.iterate_succ_apply ..
      simp only [Leaves, not_or] at hgo
      rw [hfront] at hstop ⊢
      rw [SsiSend.loop, if_neg (by simp [hgo.1, hgo.2.1]), if_neg hgo.2.2]
      exact ih hstop hrest (by omega)

end SsiSend

/-! ## The calls are those of the server -/

section Server

variable {σ : Type} {hs : HttpState} {c : Ctx σ}

/-- `http_find_file` opens a file with tags. -/
theorem Opens.ssiOpened {is09 : Bool} {id : Nat} {acts before : List Action} {pcb : Pcb} {f : FsFile}
    (h : Opens is09 id hs acts) (hhandle : hs.handle = some f) (hssi : hs.ssi.isSome)
    (hopen : pcb.status = .opened) (htrace : pcb.trace = before ++ acts)
    (hunsent : ∀ a ∈ before, a.isSending = false) : SsiOpened f is09 (pcb, hs) := by
  have hle := headerEnd_le f is09
  have hsize := f.size_lt
  have hsub : sub32 f.len (headerEnd f is09) = f.data.length - headerEnd f is09 :=
    sub32_of_le hle (by simp only [FsFile.len]; omega)
  have hopening := h.isOpening
  have hquiet : ∀ a ∈ pcb.trace, a.isSending = false := by
    intro a ha
    rw [htrace] at ha
    rcases List.mem_append.mp ha with hmem | hmem
    · exact hunsent a hmem
    · have hisOpening := hopening a hmem
      revert hisOpening
      cases a with
      | assertFailed assertion => cases assertion <;> simp [Action.isOpening, Action.isSending]
      | _ => simp [Action.isOpening, Action.isSending]
  cases h with
  | nothing hwaiting => simp [hwaiting.handle] at hhandle
  | plain _ _ _ _ _ hplain => simp [hplain] at hssi
  | ssi f' hhandle' _ hfile hleft hscanner =>
      obtain rfl : f' = f := Option.some.inj (hhandle'.symm.trans hhandle)
      exact ⟨hopen, hquiet, hfile, hleft.trans hsub.symm, id, hscanner⟩

/-- Until the end of the file, `http_send` leaves what the call leaves. -/
theorem httpSend_run {site : Site σ} {o : Oracle} {f : FsFile}
    (hcell : c.cell = .live hs) (hhandle : hs.handle = some f) (hssi : hs.ssi.isSome)
    (hleft : hs.left ≠ 0) {call : SsiCall} (ho : call.oracle = o)
    (hcall : call.window c.pcb = c.pcb)
    (hmore : (call.run site f.data (c.pcb, hs)).2.left ≠ 0) :
    (httpSend site o c).2 = { c with
      pcb := (call.run site f.data (c.pcb, hs)).1
      cell := .live (call.run site f.data (c.pcb, hs)).2 } := by
  obtain ⟨ssi, hssi⟩ := Option.isSome_iff_exists.mp hssi
  have hdata : hs.handle.elim [] FsFile.data = f.data := by simp [hhandle]
  simp only [SsiCall.run, hssi, if_neg hleft, ho, hcall] at hmore ⊢
  simp only [httpSend, hcell, Ctx.readHs_of_live hcell, Ctx.hs_of_live hcell, if_neg hleft,
    httpSendData, hdata, hssi]
  generalize httpSendDataSsi site o f.data c.pcb hs ssi = result at hmore ⊢
  obtain ⟨dataToSend, pcb, hs'⟩ := result
  dsimp only at hmore ⊢
  rw [Ctx.setHs_of_live (c := { c with pcb, cell := .live hs }) rfl,
    if_neg fun hdone => hmore hdone.1]

end Server

/-! ## The invariant along the calls -/

variable {site : TagSite} {f : FsFile} {is09 : Bool} {c : Pcb × HttpState}

theorem enqueued_of_unsent {trace : List Action} (h : ∀ a ∈ trace, a.isSending = false) :
    enqueued trace = [] := by
  refine List.flatMap_eq_nil_iff.mpr fun a ha => ?_
  have hno := h a ha
  cases a <;> first | rfl | simp [Action.isSending] at hno

theorem tagInserts_of_unsent {trace : List Action} (h : ∀ a ∈ trace, a.isSending = false) :
    tagInserts trace = [] := by
  refine List.filterMap_eq_nil_iff.mpr fun a ha => ?_
  have hno := h a ha
  cases a <;> first | rfl | simp [Action.isSending] at hno

/-- The connection serves the file with its scanner. -/
structure SsiServing (site : TagSite) (f : FsFile) (start : Nat) (c : Pcb × HttpState) : Prop where
  stream : ∃ file ssi, c.2.file = some file ∧ c.2.ssi = some ssi ∧
    (c.2.left = 0 ∨ SsiStream site f.data start c.1 file c.2.left ssi)

theorem SsiOpened.serving (h : SsiOpened f is09 c) : SsiServing site f (headerEnd f is09) c := by
  obtain ⟨id, hssi⟩ := h.ssi
  have hle := headerEnd_le f is09
  have hsize := f.size_lt
  have hsub : sub32 f.len (headerEnd f is09) = f.data.length - headerEnd f is09 :=
    sub32_of_le hle (by simp only [FsFile.len]; omega)
  have hleft := h.left.trans hsub
  refine ⟨_, _, h.file, hssi, ?_⟩
  rcases Nat.lt_or_ge (headerEnd f is09) f.data.length with hlt | hge
  · right
    rw [hleft]
    exact httpSsiStateInit_stream site id h.opened (enqueued_of_unsent h.unsent)
      (tagInserts_of_unsent h.unsent) hlt
  · left
    omega

/-- A call in which something is left to be sent. -/
theorem SsiServing.start {start : Nat} (h : SsiServing site f start c) (call : SsiCall)
    {ssi : HttpSsiState} (hssi : c.2.ssi = some ssi) (hleft : c.2.left ≠ 0) :
    (call.start c ssi).Stream site f.data start (call.window c.1) ssi.id := by
  obtain ⟨file, ssi', hfile, hssi', hzero | hstream⟩ := h.stream
  · exact absurd hzero hleft
  obtain rfl := Option.some.inj (hssi.symm.trans hssi')
  have hopen : (call.window c.1).status = .opened := hstream.opened
  have hstart : call.start c ssi =
      { pcb := call.window c.1, ssi, file, left := c.2.left, err := .ok
        len := (call.window c.1).sndBuf.toNat, dataToSend := 0 } := by
    simp [SsiCall.start, Pcb.touch_of_opened hopen, hfile]
  rw [hstart]
  exact { hstream with sends := .refl _, id_eq := rfl }

theorem SsiServing.run {start : Nat} (h : SsiServing site f start c) (call : SsiCall) :
    SsiServing site f start (call.run site f.data c) := by
  obtain ⟨file, ssi, hfile, hssi, hsending⟩ := h.stream
  simp only [SsiCall.run, hssi]
  split
  next => exact h
  next hleft =>
    have hsent := (h.start call hssi hleft).send (o := call.oracle)
    exact ⟨_, _, rfl, rfl, Or.inr hsent.toSsiStream⟩

/-- The invariant after any number of calls. -/
theorem ssiCalled_serving (h : SsiOpened f is09 c) (calls : List SsiCall) :
    SsiServing site f (headerEnd f is09) (ssiCalled site f c calls) :=
  Run.invariant_of_step (fun _ call h => h.run call) h.serving calls

/-! ## A page with a tag -/

def tagPage : FsFile where
  data := chars "<!--#a-->x"
  size_lt := Nat.le_of_ble_eq_true rfl
  index := 10
  httpHeaderIncluded := true

/-- The connection that is to send it. -/
def tagPageOpened : Pcb × HttpState :=
  ({ status := .opened, callbackArg := .state 0, recv := true, sent := true, errf := true
     poll := true, sndBuf := 0, sndQueuelen := 0, mss := 0, writes := 0, nextId := 1, trace := [] },
    { httpStateInit with
      handle := some tagPage, file := some 0, left := 10, ssi := some (httpSsiStateInit 0 tagPage) })

theorem tagPageOpened_opened : SsiOpened tagPage false tagPageOpened :=
  ⟨rfl, fun _ ha => absurd ha List.not_mem_nil, rfl, rfl, 0, rfl⟩

/-- A call that may send as much as the send buffer takes. -/
def roomyCall : SsiCall where
  oracle :=
    { write := fun _ => .ok, queuelen := fun _ => 0, closeFails := false, stateAlloc := true
      ssiAlloc := true, slack := fun _ => 0 }
  sndBuf := 65535
  sndQueuelen := 0
  mss := 1460

/-- The tag is registered, and the handler returns an empty insert. -/
def emptyInsertSite : TagSite where
  tags := [chars "a"]
  ssiHandler := fun _ _ => { mem := fun _ => 0, len := 0 }

end Meu1oARM
