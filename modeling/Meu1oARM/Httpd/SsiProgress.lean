import Meu1oARM.Httpd.SsiCounters

/-! # Calls that get on

When lwIP takes everything that fits into the send buffer, each call of
`http_send_data_ssi` reads or enqueues something. So after some calls nothing of the page
is left.
-/

namespace Meu1oARM

open Machine CString

variable {site : TagSite} {o : Oracle} {data : List UInt8}

/-- What fits into the send buffer is taken. -/
theorem httpWrite_ok (hwrite : ∀ k, o.write k = .ok) (pcb : Pcb) (src : Src) (off : Nat) (ptr : Mem)
    {len : Nat} (hroom : len ≤ pcb.sndBuf.toNat) : (httpWrite o pcb src off ptr len).1 = .ok := by
  have htouch : pcb.touch.sndBuf = pcb.sndBuf := by
    unfold Pcb.touch
    split <;> rfl
  have hfits : ¬ pcb.sndBuf.toNat < len := Nat.not_lt.mpr hroom
  unfold httpWrite
  cases len with
  | zero => rfl
  | succ len =>
      simp [httpWriteLoop, tcpWrite, hwrite, htouch, hfits]

namespace SsiSend

variable {s s' : SsiSend} {start : Nat} {p : Pcb} {id : Nat}

theorem writeFile_err (o : Oracle) (data : List UInt8) (s : SsiSend) (len : Nat) :
    (s.writeFile o data len).err = (httpWrite o s.pcb .file s.file (fileMem data s.file) len).1 := by
  simp only [SsiSend.writeFile]
  split <;> rfl

theorem writeInsert_err (s : SsiSend) (len : Nat) : (s.writeInsert o len).err =
    (httpWrite o s.pcb .insert s.ssi.tagIndex s.ssi.insertMem len).1 := by
  simp only [SsiSend.writeInsert]
  split <;> rfl

/-- The first write of a call succeeds. -/
theorem Turn.err_ok (hturn : Turn site o data s s') (hwrite : ∀ k, o.write k = .ok)
    (herr : s.err = .ok) (hroom : s.len ≤ s.pcb.sndBuf.toNat) : s'.err = .ok := by
  have hasked : ∀ gap, asked gap s.len ≤ s.pcb.sndBuf.toNat :=
    fun gap => Nat.le_trans asked_le_len hroom
  cases hturn with
  | reads _ hreads => rw [hreads.err_eq, herr]
  | leadin => exact herr
  | fetches => exact herr
  | completes =>
      rw [writeFile_err]
      exact httpWrite_ok hwrite _ _ _ _ (hasked _)
  | sendsFile =>
      rw [writeFile_err]
      exact httpWrite_ok hwrite _ _ _ _ (hasked _)
  | sendsInsert =>
      rw [writeInsert_err]
      exact httpWrite_ok hwrite _ _ _ _ (hasked _)
  | done => exact herr

/-- What is left of the file, to be sent and to be scanned. -/
def remaining (data : List UInt8) (s : SsiSend) : Nat := s.left + s.measure data

theorem remaining_congr {s t : SsiSend} (hleft : s.left = t.left) (hssi : s.ssi = t.ssi)
    (hfile : s.file = t.file) : s.remaining data = t.remaining data := by
  simp only [remaining, measure, work, hleft, hssi, hfile]

theorem Round.remaining_iter (h : s.Round site data start p id) (hgo : ¬ s.Leaves) :
    (s.iter site o data).remaining data ≤ s.remaining data ∧
      ((s.iter site o data).err = .ok →
        (s.iter site o data).remaining data < s.remaining data) := by
  obtain ⟨hle, hless⟩ := h.measure_iter (o := o) hgo
  have hleft := (h.narrows (o := o) (.refl s) fun hzero => hgo (Or.inl hzero)).2.2
  refine ⟨Nat.add_le_add hleft hle, fun hok => ?_⟩
  exact Nat.add_lt_add_of_le_of_lt hleft (hless hok)

theorem Round.remaining_front (h : s.Round site data start p id) {k : Nat}
    (hreach : s.Reaches site o data k) :
    (s.front site o data k).Round site data start p id ∧
      (s.front site o data k).remaining data ≤ s.remaining data :=
  Loop.invariant (I := fun t => t.Round site data start p id ∧ t.remaining data ≤ s.remaining data)
    (fun _ h hgo => ⟨h.1.iter fun hzero => hgo (Or.inl hzero),
      Nat.le_trans (h.1.remaining_iter hgo).1 h.2⟩) ⟨h, Nat.le_refl _⟩ hreach

theorem work_le_of_file {s s' : SsiSend} (hssi : s'.ssi = s.ssi) (hfile : s.file ≤ s'.file) :
    s'.work ≤ s.work := by
  unfold work
  rw [hssi]
  cases s.ssi.tagState with
  | sending =>
      dsimp only
      omega
  | _ => exact Nat.le_refl _

/-- File bytes that are sent are no longer left. -/
theorem Stream.remaining_sendParsed (h : s.Stream site data start p id)
    (hgap : s.file < s.ssi.parsed) : (s.sendParsed o data).remaining data ≤ s.remaining data ∧
      (s.file < (s.sendParsed o data).file →
        (s.sendParsed o data).remaining data < s.remaining data) := by
  obtain ⟨hround, hfile, hssi⟩ := h.sendParsed_round (o := o) hgap
  have hwork := work_le_of_file hssi hfile
  have hleft := h.left_eq
  have hleft' := hround.left_eq
  simp only [remaining, measure, hssi]
  constructor <;> omega

theorem clampLen_le_sndBuf (pcb : Pcb) (gap : Nat) : clampLen pcb gap ≤ pcb.sndBuf.toNat := by
  have hmod := u16_le gap
  have hmss := u16_le (2 * pcb.mss.toNat)
  unfold clampLen
  dsimp only
  split <;> split <;> omega

theorem clampLen_pos {pcb : Pcb} {gap : Nat} (hgap : 0 < gap) (hsnd : 0 < pcb.sndBuf.toNat)
    (hmss : 0 < pcb.mss.toNat) : 0 < clampLen pcb gap := by
  have hlt := pcb.sndBuf.toNat_lt
  unfold clampLen
  dsimp only
  split
  next =>
    split
    next hless =>
      rw [u16_of_lt (by omega)]
      omega
    next => exact hsnd
  next hroom =>
    rw [u16_of_lt (by omega)]
    split
    next hless =>
      rw [u16_of_lt (by omega)]
      omega
    next => exact hgap

/-- There is room in the send buffer, and lwIP takes what fits. -/
structure Roomy (o : Oracle) (s : SsiSend) : Prop where
  write : ∀ k, o.write k = .ok
  err : s.err = .ok
  len : s.len = s.pcb.sndBuf.toNat
  sndBuf : 0 < s.pcb.sndBuf.toNat
  mss : 0 < s.pcb.mss.toNat

theorem Stream.sendParsed_moves (h : s.Stream site data start p id)
    (hgap : s.file < s.ssi.parsed) (hroomy : s.Roomy o) : s.file < (s.sendParsed o data).file := by
  have hchecked := h.check (decide (s.pcb.sndBuf.toNat < s.ssi.parsed - s.file) ||
    decide (s.ssi.parsed - s.file ≤ 65535)) (a := .gapFits) rfl
  simp only [SsiSend.sendParsed]
  generalize (decide (s.pcb.sndBuf.toNat < s.ssi.parsed - s.file) ||
    decide (s.ssi.parsed - s.file ≤ 65535)) = cond at hchecked ⊢
  have hsnd : (s.pcb.check cond .gapFits).sndBuf = s.pcb.sndBuf := by
    cases cond <;> rfl
  have hmss : (s.pcb.check cond .gapFits).mss = s.pcb.mss := by
    cases cond <;> rfl
  have hpos : 0 < clampLen (s.pcb.check cond .gapFits) (s.ssi.parsed - s.file) :=
    clampLen_pos (Nat.sub_pos_of_lt hgap) (hsnd ▸ hroomy.sndBuf) (hmss ▸ hroomy.mss)
  obtain ⟨hwrites, -, hfile, -⟩ := writeFile_writes o data hchecked.opened
    (clampLen (s.pcb.check cond .gapFits) (s.ssi.parsed - s.file))
  have hok := (writeFile_err o data { s with pcb := s.pcb.check cond .gapFits } _).trans
    (httpWrite_ok hroomy.write _ .file s.file (fileMem data s.file)
      (clampLen_le_sndBuf (s.pcb.check cond .gapFits) (s.ssi.parsed - s.file)))
  rw [hfile hok]
  have hsome := (hwrites.sent hok).1 hpos
  exact Nat.lt_add_of_pos_right hsome

/-- Behind the loop. -/
theorem Round.remaining_scanAndSend (h : s.Round site data start p id) (o : Oracle) :
    (s.scanAndSend site o data).remaining data ≤ s.remaining data ∧
      (¬ s.Leaves → (s.iter site o data).err = .ok →
        (s.scanAndSend site o data).remaining data < s.remaining data) := by
  obtain ⟨n, hends⟩ := h.ends o
  have hloop := hends.loop_eq _ hends.lt_fuel
  obtain ⟨hfront, hle⟩ := h.remaining_front hends.reaches
  have hlast : (s.scanAndSend site o data).remaining data ≤ (s.front site o data n).remaining data := by
    rcases hresult : s.loop site o data (s.loopFuel data) with ⟨t, returned⟩
    rw [hresult] at hloop
    obtain rfl : t = s.front site o data n := hloop
    rcases scanAndSend_cases hresult with heq | ⟨hgap, heq⟩
    · exact Nat.le_of_eq (congrArg (remaining data) heq)
    · rw [heq]
      exact (hfront.toStream.remaining_sendParsed hgap).1
  refine ⟨Nat.le_trans hlast hle, fun hgo hok => Nat.lt_of_le_of_lt hlast ?_⟩
  cases n with
  | zero => exact absurd hends.leaves hgo
  | succ n =>
      obtain ⟨-, hrest⟩ := Loop.reaches_succ_iff.mp hends.reaches
      have hnext : s.front site o data (n + 1) = (s.iter site o data).front site o data n :=
        Function.iterate_succ_apply ..
      rw [hnext]
      exact Nat.lt_of_le_of_lt ((h.iter fun hzero => hgo (Or.inl hzero)).remaining_front hrest).2
        ((h.remaining_iter hgo).2 hok)

/-- A call that has room gets on. -/
theorem Round.remaining_send (h : s.Round site data start p id) (hleft : s.left ≠ 0)
    (hroomy : s.Roomy o) : (s.send site o data).remaining data < s.remaining data := by
  rw [SsiSend.send]
  split
  next hgap =>
    have hsent := (h.toStream.remaining_sendParsed hgap).2 (h.toStream.sendParsed_moves hgap hroomy)
    dsimp only
    split
    next => exact hsent
    next => exact Nat.lt_of_le_of_lt ((h.sendParsed_round hgap).1.remaining_scanAndSend o).1 hsent
  next hgap =>
    have hmore : s.ssi.parseLeft ≠ 0 := by
      have hfile := h.left_eq
      have hparse := h.parse_eq
      omega
    have hlen : s.len ≠ 0 := by
      rw [hroomy.len]
      exact Nat.ne_of_gt hroomy.sndBuf
    refine (h.remaining_scanAndSend o).2 ?_ ?_
    · rintro (hzero | herr | hempty)
      · exact hmore hzero
      · exact herr hroomy.err
      · exact hlen hempty
    · exact (iter_turn site o data h.scanning).err_ok hroomy.write hroomy.err
        (Nat.le_of_eq hroomy.len)

end SsiSend

variable {f : FsFile} {start : Nat} {c : Pcb × HttpState}

/-- What is left on a connection. -/
def ssiRemaining (data : List UInt8) (c : Pcb × HttpState) : Nat :=
  c.2.ssi.elim 0 fun ssi => (roomyCall.start c ssi).remaining data

theorem ssiRemaining_of_sent {s : SsiSend} {hs : HttpState} :
    ssiRemaining data (s.pcb, { hs with file := some s.file, left := s.left, ssi := some s.ssi }) =
      s.remaining data := by
  rw [ssiRemaining, Option.elim_some]
  exact SsiSend.remaining_congr rfl rfl rfl

theorem ssiRemaining_run {ssi : HttpSsiState} (hssi : c.2.ssi = some ssi) (hleft : c.2.left ≠ 0) :
    ssiRemaining data (roomyCall.run site data c) =
      ((roomyCall.start c ssi).send site roomyCall.oracle data).remaining data := by
  simp only [SsiCall.run, hssi, if_neg hleft]
  exact ssiRemaining_of_sent

theorem SsiServing.remaining_run (h : SsiServing site f start c) (hleft : c.2.left ≠ 0) :
    ssiRemaining f.data (roomyCall.run site f.data c) < ssiRemaining f.data c := by
  obtain ⟨file, ssi, hfile, hssi, -⟩ := h.stream
  have hopen : (roomyCall.window c.1).status = .opened := by
    obtain ⟨file', ssi', -, -, hzero | hstream⟩ := h.stream
    · exact absurd hzero hleft
    · exact hstream.opened
  have hroomy : (roomyCall.start c ssi).Roomy roomyCall.oracle := by
    refine ⟨fun _ => rfl, rfl, rfl, ?_, ?_⟩
    · rw [SsiCall.start, Pcb.touch_of_opened hopen]
      exact (by decide : 0 < (65535 : UInt16).toNat)
    · rw [SsiCall.start, Pcb.touch_of_opened hopen]
      exact (by decide : 0 < (1460 : UInt16).toNat)
  have hbefore : ssiRemaining f.data c = (roomyCall.start c ssi).remaining f.data := by
    rw [ssiRemaining, hssi, Option.elim_some]
  rw [ssiRemaining_run hssi hleft, hbefore]
  exact (h.round roomyCall hssi hleft).remaining_send hleft hroomy

/-- With enough calls that have room the whole page is sent. -/
theorem SsiServing.sent (h : SsiServing site f start c) :
    ∃ n, (ssiCalled site f c (List.replicate n roomyCall)).2.left = 0 := by
  induction hm : ssiRemaining f.data c using Nat.strongRecOn generalizing c with
  | ind bound ih =>
      by_cases hleft : c.2.left = 0
      · exact ⟨0, hleft⟩
      · obtain ⟨n, hn⟩ := ih _ (hm ▸ h.remaining_run hleft) (h.run roomyCall) rfl
        exact ⟨n + 1, hn⟩

end Meu1oARM
