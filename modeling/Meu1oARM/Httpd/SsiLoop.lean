import Meu1oARM.Httpd.SsiCalls

/-! # The loop of `http_send_data_ssi`, round by round

A round reads a character, or it sends a piece of the file or of an insert, or it only
changes the state of the scanner. What it does to the lengths and to the counters is said
once, and it follows that the counters stay together and that the loop ends.
-/

namespace Meu1oARM

open Machine CString

variable {site : TagSite} {o : Oracle} {data : List UInt8}

namespace SsiSend

/-- A write of at most `len` bytes: `sent` bytes were enqueued, or none and there is an error. -/
structure Writes (s s' : SsiSend) (len : Nat) : Prop where
  len_le : s'.len ≤ len
  parseLeft_eq : s'.ssi.parseLeft = s.ssi.parseLeft
  parsed_eq : s'.ssi.parsed = s.ssi.parsed
  state_eq : s'.ssi.tagState = s.ssi.tagState
  tagEnd_eq : s'.ssi.tagEnd = s.ssi.tagEnd
  insertLen_eq : s'.ssi.tagInsertLen = s.ssi.tagInsertLen
  sent : s'.err = .ok → (0 < len → 0 < s'.len) ∧
    (enqueued s'.pcb.trace).length = (enqueued s.pcb.trace).length + s'.len

variable {s s' : SsiSend}

/-- File bytes are sent. -/
theorem writeFile_writes (o : Oracle) (data : List UInt8) (hopen : s.pcb.status = .opened) (len : Nat) :
    s.Writes (s.writeFile o data len) len ∧
      (s.writeFile o data len).ssi = s.ssi ∧
      ((s.writeFile o data len).err = .ok →
        (s.writeFile o data len).file = s.file + (s.writeFile o data len).len) ∧
      s.file ≤ (s.writeFile o data len).file := by
  have hspec := httpWrite_wrote o hopen .file s.file (fileMem data s.file) len
  have hle := httpWrite_length_le o s.pcb .file s.file (fileMem data s.file) len
  simp only [SsiSend.writeFile]
  generalize httpWrite o s.pcb .file s.file (fileMem data s.file) len = result at hspec hle ⊢
  obtain ⟨err, sent, pcb⟩ := result
  dsimp only at hle ⊢
  by_cases hok : err = .ok
  · rw [if_pos hok]
    refine ⟨⟨hle, rfl, rfl, rfl, rfl, rfl, fun _ => ⟨hspec.length_pos hok, ?_⟩⟩, rfl, fun _ => rfl,
      Nat.le_add_right _ _⟩
    rw [hspec.bytes_eq hok]
    simp
  · rw [if_neg hok]
    exact ⟨⟨hle, rfl, rfl, rfl, rfl, rfl, fun h => absurd h hok⟩, rfl, fun h => absurd h hok,
      Nat.le_refl _⟩

/-- A piece of the insert is sent. -/
def writeInsert (o : Oracle) (s : SsiSend) (len : Nat) : SsiSend :=
  let (err, len, pcb) := httpWrite o s.pcb .insert s.ssi.tagIndex s.ssi.insertMem len
  if err = .ok then
    { s with
      pcb, err, len, dataToSend := 1
      ssi := { s.ssi with tagIndex := u16 (s.ssi.tagIndex + len) } }
  else { s with pcb, err, len }

theorem writeInsert_writes (o : Oracle) (hopen : s.pcb.status = .opened) (len : Nat) :
    s.Writes (s.writeInsert o len) len ∧
      ((s.writeInsert o len).err = .ok →
        (s.writeInsert o len).ssi.tagIndex = u16 (s.ssi.tagIndex + (s.writeInsert o len).len)) ∧
      ((s.writeInsert o len).err ≠ .ok → (s.writeInsert o len).ssi = s.ssi) ∧
      (s.writeInsert o len).file = s.file := by
  have hspec := httpWrite_wrote o hopen .insert s.ssi.tagIndex s.ssi.insertMem len
  have hle := httpWrite_length_le o s.pcb .insert s.ssi.tagIndex s.ssi.insertMem len
  simp only [SsiSend.writeInsert]
  generalize httpWrite o s.pcb .insert s.ssi.tagIndex s.ssi.insertMem len = result at hspec hle ⊢
  obtain ⟨err, sent, pcb⟩ := result
  dsimp only at hle ⊢
  by_cases hok : err = .ok
  · rw [if_pos hok]
    refine ⟨⟨hle, rfl, rfl, rfl, rfl, rfl, fun _ => ⟨hspec.length_pos hok, ?_⟩⟩, fun _ => rfl,
      fun hno => absurd hok hno, rfl⟩
    rw [hspec.bytes_eq hok]
    simp
  · rw [if_neg hok]
    exact ⟨⟨hle, rfl, rfl, rfl, rfl, rfl, fun h => absurd h hok⟩, fun h => absurd h hok,
      fun _ => rfl, rfl⟩

/-- The length that is asked for when `gap` bytes are left and `len` fit. -/
def asked (gap len : Nat) : Nat := if gap < len then u16 gap else len

/-- The state after a tag has been looked up whose last character is the next one. -/
def fetched (site : TagSite) (s : SsiSend) : SsiSend :=
  let ssi := getTagInsert site s.ssi.advance
  { s with
    pcb := s.pcb.log (.tagInsert ssi.parsed (cstr ssi.tagName) (bytes ssi.tagInsert ssi.tagInsertLen))
    ssi := { ssi with tagIndex := 0, tagState := .sending, tagEnd := ssi.parsed } }

/-- What a round does. -/
inductive Turn (site : TagSite) (o : Oracle) (data : List UInt8) (s : SsiSend) : SsiSend → Prop
  | reads {s' : SsiSend} (hstate : s.ssi.tagState ≠ .sending)
      (hreads : Reads (data.getD s.ssi.parsed 0) s s') : Turn site o data s s'
  | leadin (hstate : s.ssi.tagState = .leadin) (hidx : s.ssi.tagIndex = tagLeadIn.length) :
      Turn site o data s { s with ssi := { s.ssi with tagIndex := 0, tagState := .found } }
  | fetches (hstate : s.ssi.tagState ≠ .sending)
      (hstep : s.ssi.scan.step (data.getD s.ssi.parsed 0) = (.idle, some (cstr s.ssi.tagName)))
      (hsent : ¬ s.file < (s.fetched site).ssi.tagEnd) : Turn site o data s (s.fetched site)
  | completes (hstate : s.ssi.tagState ≠ .sending)
      (hstep : s.ssi.scan.step (data.getD s.ssi.parsed 0) = (.idle, some (cstr s.ssi.tagName)))
      (hgap : s.file < (s.fetched site).ssi.tagEnd) :
      Turn site o data s ((s.fetched site).writeFile o data
        (asked ((s.fetched site).ssi.tagEnd - s.file) s.len))
  | sendsFile (hstate : s.ssi.tagState = .sending) (hgap : s.file < s.ssi.tagEnd) :
      Turn site o data s (s.writeFile o data (asked (s.ssi.tagEnd - s.file) s.len))
  | sendsInsert (hstate : s.ssi.tagState = .sending) (hsent : ¬ s.file < s.ssi.tagEnd)
      (hrest : s.ssi.tagIndex < s.ssi.tagInsertLen) :
      Turn site o data s
        (s.writeInsert o (asked (s.ssi.tagInsertLen - s.ssi.tagIndex) s.len))
  | done (hstate : s.ssi.tagState = .sending) (hsent : ¬ s.file < s.ssi.tagEnd)
      (hrest : ¬ s.ssi.tagIndex < s.ssi.tagInsertLen) :
      Turn site o data s { s with ssi := { s.ssi with tagIndex := 0, tagState := .none } }

theorem iter_turn (site : TagSite) (o : Oracle) (data : List UInt8) (hscan : s.ssi.Scanning) :
    Turn site o data s (s.iter site o data) := by
  have hspec := iter_spec site o data hscan
  generalize s.iter site o data = s' at hspec ⊢
  cases hspec with
  | reads hstate hreads => exact .reads hstate hreads
  | leadin hstate hidx => exact .leadin hstate hidx
  | complete hstate hstep =>
      have hcomplete : ({ s with ssi := s.ssi.advance }.tagComplete site o data) =
          if s.file < (s.fetched site).ssi.tagEnd then
            (s.fetched site).writeFile o data (asked ((s.fetched site).ssi.tagEnd - s.file) s.len)
          else s.fetched site := rfl
      rw [hcomplete]
      split
      next hgap => exact .completes hstate hstep hgap
      next hsent => exact .fetches hstate hstep hsent
  | sending hstate =>
      have hsending : s.caseSending o data =
          if s.file < s.ssi.tagEnd then
            s.writeFile o data (asked (s.ssi.tagEnd - s.file) s.len)
          else if s.ssi.tagIndex < s.ssi.tagInsertLen then
            s.writeInsert o (asked (s.ssi.tagInsertLen - s.ssi.tagIndex) s.len)
          else { s with ssi := { s.ssi with tagIndex := 0, tagState := .none } } := rfl
      rw [hsending]
      split
      next hgap => exact .sendsFile hstate hgap
      next hsent =>
        split
        next hrest => exact .sendsInsert hstate hsent hrest
        next hrest => exact .done hstate hsent hrest

/-- The state after a lookup, with its insert. -/
theorem fetched_eq (site : TagSite) (s : SsiSend) :
    ∃ mem len, s.fetched site =
        { s with
          pcb := s.pcb.log (.tagInsert (s.ssi.parsed + 1) (cstr s.ssi.tagName) (bytes mem len))
          ssi := { s.ssi.advance with
            calls := s.ssi.calls + 1, tagInsert := mem, tagInsertLen := len, tagIndex := 0
            tagState := .sending, tagEnd := s.ssi.parsed + 1 } } ∧
      bytes mem len = tagText site s.ssi.calls (cstr s.ssi.tagName) ∧ len < 65536 := by
  obtain ⟨mem, len, hget, hbytes, hlt, -⟩ := getTagInsert_spec site s.ssi.advance
  refine ⟨mem, len, ?_, hbytes, hlt⟩
  simp only [fetched, hget]
  rfl

theorem asked_le_gap (gap len : Nat) : asked gap len ≤ gap := tagGap_le gap len

theorem asked_le_len {gap len : Nat} : asked gap len ≤ len := by
  have hmod := u16_le gap
  unfold asked
  split <;> omega

theorem asked_pos {gap len : Nat} (hgap : 0 < gap) (hlen : 0 < len) (hlt : len < 65536) :
    0 < asked gap len := by
  unfold asked
  split
  next hless =>
    rw [u16_of_lt (Nat.lt_trans hless hlt)]
    exact hgap
  next => exact hlen

variable {start : Nat} {p : Pcb} {id : Nat}

theorem Stream.parseLeft_lt (h : s.Stream site data start p id) : s.ssi.parseLeft < 4294967296 := by
  have hparse := h.parse_eq
  have hsize := h.size_lt
  omega

/-- The invariant in front of a round: the length that may be asked for is a `u16_t`. -/
structure Round (site : TagSite) (data : List UInt8) (start : Nat) (p : Pcb) (id : Nat)
    (s : SsiSend) : Prop extends Stream site data start p id s where
  len_lt : s.len < 65536

theorem clampLen_lt (pcb : Pcb) (gap : Nat) : clampLen pcb gap < 65536 := by
  have hsnd := pcb.sndBuf.toNat_lt
  have hgap := u16_lt gap
  have hmss := u16_lt (2 * pcb.mss.toNat)
  unfold clampLen
  dsimp only
  split <;> split <;> omega

/-- Sending what has been parsed, before and after the loop. -/
theorem Stream.sendParsed_round (h : s.Stream site data start p id)
    (hgap : s.file < s.ssi.parsed) : (s.sendParsed o data).Round site data start p id ∧
      s.file ≤ (s.sendParsed o data).file ∧ (s.sendParsed o data).ssi = s.ssi := by
  have hchecked := h.check (decide (s.pcb.sndBuf.toNat < s.ssi.parsed - s.file) ||
    decide (s.ssi.parsed - s.file ≤ 65535)) (a := .gapFits) rfl
  obtain ⟨hwrites, hssi, -, hfile⟩ := writeFile_writes o data hchecked.opened
    (clampLen (s.pcb.check (decide (s.pcb.sndBuf.toNat < s.ssi.parsed - s.file) ||
      decide (s.ssi.parsed - s.file ≤ 65535)) .gapFits) (s.ssi.parsed - s.file))
  exact ⟨⟨h.sendParsed hgap, Nat.lt_of_le_of_lt hwrites.len_le (clampLen_lt _ _)⟩, hfile, hssi⟩

/-- What both ways to the loop keep holds in front of it. -/
theorem toLoop_invariant {I : SsiSend → Prop} (h : I s)
    (hparsed : s.file < s.ssi.parsed → I (s.sendParsed o data)) {t : SsiSend}
    (ht : t ∈ s.toLoop o data) : I t := by
  unfold SsiSend.toLoop at ht
  split at ht
  next hgap =>
    split at ht
    next => exact absurd ht (by simp)
    next =>
      obtain rfl := Option.some.inj ht
      exact hparsed hgap
  next =>
    obtain rfl := Option.some.inj ht
    exact h

theorem Round.toLoop (h : s.Round site data start p id) {t : SsiSend}
    (ht : t ∈ s.toLoop o data) : t.Round site data start p id :=
  toLoop_invariant (I := Round site data start p id) h (fun hgap => (h.sendParsed_round hgap).1) ht

theorem Stream.fetched_opened (h : s.Stream site data start p id) (site : TagSite) :
    (s.fetched site).pcb.status = .opened := by
  obtain ⟨mem, len, heq, -, -⟩ := fetched_eq site s
  rw [heq]
  exact h.opened

/-- No round lets the length grow, and none goes back in the file. -/
theorem Turn.grows (hturn : Turn site o data s s') (h : s.Round site data start p id) :
    s'.len ≤ s.len ∧ s.file ≤ s'.file ∧ s.ssi.parsed ≤ s'.ssi.parsed := by
  cases hturn with
  | reads hstate hreads =>
      have hparsed := hreads.parsed_eq
      exact ⟨Nat.le_of_eq hreads.len_eq, Nat.le_of_eq hreads.file_eq.symm, by omega⟩
  | leadin => exact ⟨Nat.le_refl _, Nat.le_refl _, Nat.le_refl _⟩
  | fetches =>
      obtain ⟨mem, len, heq, -, -⟩ := fetched_eq site s
      rw [heq]
      exact ⟨Nat.le_refl _, Nat.le_refl _, Nat.le_succ _⟩
  | completes =>
      obtain ⟨hwrites, -, -, hfile⟩ := writeFile_writes o data (h.fetched_opened site)
        (asked ((s.fetched site).ssi.tagEnd - s.file) s.len)
      have hparsed := hwrites.parsed_eq
      obtain ⟨mem, len, heq, -, -⟩ := fetched_eq site s
      refine ⟨Nat.le_trans hwrites.len_le asked_le_len, ?_, ?_⟩
      · refine Nat.le_trans (Nat.le_of_eq ?_) hfile
        rw [heq]
      · rw [hparsed, heq]
        exact Nat.le_succ _
  | sendsFile =>
      obtain ⟨hwrites, hssi, -, hfile⟩ := writeFile_writes o data h.opened
        (asked (s.ssi.tagEnd - s.file) s.len)
      exact ⟨Nat.le_trans hwrites.len_le asked_le_len, hfile, Nat.le_of_eq hwrites.parsed_eq.symm⟩
  | sendsInsert =>
      obtain ⟨hwrites, -, -, hfile⟩ := writeInsert_writes o h.opened
        (asked (s.ssi.tagInsertLen - s.ssi.tagIndex) s.len)
      exact ⟨Nat.le_trans hwrites.len_le asked_le_len, Nat.le_of_eq hfile.symm,
        Nat.le_of_eq hwrites.parsed_eq.symm⟩
  | done => exact ⟨Nat.le_refl _, Nat.le_refl _, Nat.le_refl _⟩

theorem Round.iter (h : s.Round site data start p id) (hmore : s.ssi.parseLeft ≠ 0) :
    (s.iter site o data).Round site data start p id :=
  ⟨h.toStream.iter hmore,
    Nat.lt_of_le_of_lt ((iter_turn site o data h.scanning).grows h).1 h.len_lt⟩

theorem Round.front (h : s.Round site data start p id) {k : Nat}
    (hreach : s.Reaches site o data k) : (s.front site o data k).Round site data start p id :=
  Loop.invariant (fun _ h hgo => h.iter fun hzero => hgo (Or.inl hzero)) h hreach

end SsiSend

/-! ## The loop ends -/

/-- The states in the order in which a tag goes through them, from its first character to the
end of its insert. -/
def TagCheckState.stage : TagCheckState → Nat
  | .leadin => 0
  | .found => 1
  | .leadout => 2
  | .sending => 3
  | .none => 4

namespace SsiSend

variable {s s' : SsiSend} {start : Nat} {p : Pcb} {id : Nat}

/-- A round that reads no character changes to a later state, enqueues something or is the last. -/
def Progresses (s s' : SsiSend) : Prop :=
  s'.ssi.parsed = s.ssi.parsed →
    s.ssi.tagState.stage < s'.ssi.tagState.stage ∨
      (enqueued s.pcb.trace).length < (enqueued s'.pcb.trace).length ∨ s'.Leaves

/-- What is left to be done before the next character is read. -/
def work (s : SsiSend) : Nat :=
  match s.ssi.tagState with
  | .leadin => 1
  | .sending => (s.ssi.tagEnd - s.file) + (s.ssi.tagInsertLen - s.ssi.tagIndex) + 1
  | _ => 0

/-- The measure of the loop: the unread characters first, then the work between two of them. -/
def measure (data : List UInt8) (s : SsiSend) : Nat :=
  s.ssi.parseLeft * (data.length + 65537) + s.work

theorem work_of_ne {s : SsiSend} (h : s.ssi.tagState ≠ .sending) : s.work ≤ 1 := by
  unfold work
  cases hstate : s.ssi.tagState <;> simp_all

theorem work_of_sending {s : SsiSend} (h : s.ssi.tagState = .sending) :
    s.work = (s.ssi.tagEnd - s.file) + (s.ssi.tagInsertLen - s.ssi.tagIndex) + 1 := by
  simp only [work, h]

/-- Reading a character outweighs the work that it brings. -/
theorem measure_of_read {data : List UInt8} {s s' : SsiSend}
    (hread : s'.ssi.parseLeft + 1 = s.ssi.parseLeft) (hwork : s'.work < data.length + 65537) :
    s'.measure data < s.measure data := by
  unfold measure
  rw [← hread, Nat.succ_mul]
  omega

/-- At most the rest of the file and one insert are sent between two characters. -/
theorem Round.work_lt (h : s.Round site data start p id) : s.work < data.length + 65537 := by
  by_cases hstate : s.ssi.tagState = .sending
  · rw [work_of_sending hstate]
    have hend := h.tagEnd_eq hstate
    have hinsert := h.insertLen_lt hstate
    have hparse := h.parse_eq
    omega
  · have hwork := work_of_ne hstate
    omega

theorem Round.parseLeft_advance (h : s.Round site data start p id) (hmore : s.ssi.parseLeft ≠ 0) :
    sub32 s.ssi.parseLeft 1 + 1 = s.ssi.parseLeft := by
  rw [sub32_of_le (Nat.one_le_iff_ne_zero.mpr hmore) h.parseLeft_lt]
  exact Nat.succ_pred_eq_of_ne_zero hmore

/-- A character is read. -/
def ReadsOne (s s' : SsiSend) : Prop :=
  s'.ssi.parsed = s.ssi.parsed + 1 ∧ s'.ssi.parseLeft + 1 = s.ssi.parseLeft

/-- No character is read, and less is left to be done before the next one: the state is a later
one, or something is enqueued. -/
structure Works (s s' : SsiSend) : Prop where
  parseLeft_eq : s'.ssi.parseLeft = s.ssi.parseLeft
  work_lt : s'.work < s.work
  progress : s.ssi.tagState.stage < s'.ssi.tagState.stage ∨
    (enqueued s.pcb.trace).length < (enqueued s'.pcb.trace).length

/-- lwIP refuses what is due. -/
structure Fails (s s' : SsiSend) : Prop where
  parseLeft_eq : s'.ssi.parseLeft = s.ssi.parseLeft
  work_le : s'.work ≤ s.work
  err_ne : s'.err ≠ .ok

theorem Fails.leaves (h : s.Fails s') : s'.Leaves := Or.inr (Or.inl h.err_ne)

/-- A piece of what is due is enqueued, or lwIP refuses it. -/
theorem Writes.works {len : Nat} (hwrites : s.Writes s' len) (hlen : 0 < len)
    (hwork : s'.err = .ok → 0 < s'.len → s'.work < s.work)
    (hfails : s'.err ≠ .ok → s'.work ≤ s.work) : s.Works s' ∨ s.Fails s' := by
  by_cases hok : s'.err = .ok
  · obtain ⟨hpos, hbytes⟩ := hwrites.sent hok
    have hsome := hpos hlen
    exact Or.inl ⟨hwrites.parseLeft_eq, hwork hok hsome, Or.inr (by omega)⟩
  · exact Or.inr ⟨hwrites.parseLeft_eq, hfails hok, hok⟩

/-- A round reads a character, or it works off what is due, or lwIP refuses that. -/
theorem Turn.effect (hturn : Turn site o data s s') (h : s.Round site data start p id)
    (hgo : ¬ s.Leaves) : s.ReadsOne s' ∨ s.Works s' ∨ s.Fails s' := by
  simp only [Leaves, not_or] at hgo
  have hlen : 0 < s.len := Nat.pos_of_ne_zero hgo.2.2
  have hadvance := h.parseLeft_advance hgo.1
  cases hturn with
  | reads hstate hreads =>
      exact Or.inl ⟨hreads.parsed_eq, by rw [hreads.parseLeft_eq, hadvance]⟩
  | leadin hstate hidx =>
      refine Or.inr (Or.inl ⟨rfl, ?_, Or.inl ?_⟩)
      · simp only [work, hstate]
        exact Nat.zero_lt_one
      · simp only [hstate]
        decide
  | fetches =>
      obtain ⟨mem, len, heq, -, -⟩ := fetched_eq site s
      rw [heq]
      exact Or.inl ⟨rfl, hadvance⟩
  | completes =>
      obtain ⟨hwrites, -⟩ := writeFile_writes o data (h.fetched_opened site)
        (asked ((s.fetched site).ssi.tagEnd - s.file) s.len)
      obtain ⟨mem, len, heq, -, -⟩ := fetched_eq site s
      refine Or.inl ⟨?_, ?_⟩
      · rw [hwrites.parsed_eq, heq]
        rfl
      · rw [hwrites.parseLeft_eq, heq]
        exact hadvance
  | sendsFile hstate hgap =>
      -- what is written moves the file on, and there is less work
      obtain ⟨hwrites, hssi, hfile, hgrows⟩ := writeFile_writes o data h.opened
        (asked (s.ssi.tagEnd - s.file) s.len)
      refine Or.inr (hwrites.works (asked_pos (Nat.sub_pos_of_lt hgap) hlen h.len_lt) ?_ ?_)
      · intro hok hpos
        have hmoved := hfile hok
        rw [work_of_sending hstate, work_of_sending (hwrites.state_eq.trans hstate), hssi]
        omega
      · intro _
        rw [work_of_sending hstate, work_of_sending (hwrites.state_eq.trans hstate), hssi]
        omega
  | sendsInsert hstate hsent hrest =>
      obtain ⟨hwrites, hindex, hstays, hfile⟩ := writeInsert_writes o h.opened
        (asked (s.ssi.tagInsertLen - s.ssi.tagIndex) s.len)
      refine Or.inr (hwrites.works (asked_pos (Nat.sub_pos_of_lt hrest) hlen h.len_lt) ?_ ?_)
      · intro hok hpos
        have hle := Nat.le_trans hwrites.len_le (asked_le_gap _ _)
        have hinsert := h.insertLen_lt hstate
        have hmoved := hindex hok
        rw [u16_of_lt (by omega)] at hmoved
        rw [work_of_sending hstate, work_of_sending (hwrites.state_eq.trans hstate), hfile, hmoved,
          hwrites.tagEnd_eq, hwrites.insertLen_eq]
        omega
      · intro hno
        apply Nat.le_of_eq
        rw [work_of_sending hstate, work_of_sending (hwrites.state_eq.trans hstate), hfile,
          hstays hno]
  | done hstate =>
      refine Or.inr (Or.inl ⟨rfl, ?_, Or.inl ?_⟩)
      · rw [work_of_sending hstate]
        exact Nat.succ_pos _
      · simp only [hstate]
        decide

theorem Round.progresses (h : s.Round site data start p id) (hgo : ¬ s.Leaves) :
    s.Progresses (s.iter site o data) := by
  intro hparsed
  rcases (iter_turn site o data h.scanning).effect h hgo with hread | hworks | hfails
  · have hnext := hread.1
    omega
  · exact hworks.progress.imp_right Or.inl
  · exact Or.inr (Or.inr hfails.leaves)

/-- A round that does something lowers the measure, and no round raises it. -/
theorem Round.measure_iter (h : s.Round site data start p id) (hgo : ¬ s.Leaves) :
    (s.iter site o data).measure data ≤ s.measure data ∧
      ((s.iter site o data).err = .ok → (s.iter site o data).measure data < s.measure data) := by
  rcases (iter_turn site o data h.scanning).effect h hgo with hread | hworks | hfails
  · have hless := measure_of_read hread.2 (h.iter (o := o) fun hzero => hgo (Or.inl hzero)).work_lt
    exact ⟨Nat.le_of_lt hless, fun _ => hless⟩
  · have hless := hworks.work_lt
    simp only [measure, hworks.parseLeft_eq]
    exact ⟨by omega, fun _ => by omega⟩
  · have hle := hfails.work_le
    simp only [measure, hfails.parseLeft_eq]
    exact ⟨by omega, fun hok => absurd hok hfails.err_ne⟩

theorem Round.lower (h : s.Round site data start p id) (hgo : ¬ s.Leaves) :
    (s.iter site o data).Leaves ∨ (s.iter site o data).measure data < s.measure data := by
  by_cases hok : (s.iter site o data).err = .ok
  · exact Or.inr ((h.measure_iter hgo).2 hok)
  · exact Or.inl (Or.inr (Or.inl hok))

theorem Round.measure_lt (h : s.Round site data start p id) :
    s.measure data + 1 < s.loopFuel data := by
  have hwork := h.work_lt
  have hmul : s.ssi.parseLeft * (data.length + 65537) ≤ s.ssi.parseLeft * (data.length + 65540) :=
    Nat.mul_le_mul_left _ (by omega)
  unfold measure loopFuel
  rw [Nat.succ_mul]
  omega

/-- The loop that is entered with `t` makes `n` rounds. -/
structure Ends (site : TagSite) (o : Oracle) (data : List UInt8) (t : SsiSend) (n : Nat) :
    Prop where
  reaches : t.Reaches site o data n
  leaves : (t.front site o data n).Leaves
  progresses : ∀ j < n, (t.front site o data j).Progresses (t.front site o data (j + 1))
  lt_fuel : n < t.loopFuel data
  loop_eq : ∀ fuel, n < fuel → (t.loop site o data fuel).1 = t.front site o data n

theorem Round.ends (h : s.Round site data start p id) (o : Oracle) :
    ∃ n, s.Ends site o data n := by
  obtain ⟨n, hn, hstop, hreach⟩ := Loop.stops (m := measure data)
    (fun _ h hgo => Round.iter (o := o) h fun hzero => hgo (Or.inl hzero)) (fun _ h hgo => h.lower hgo) h
  refine ⟨n, hreach, hstop, ?_, Nat.lt_of_le_of_lt hn h.measure_lt, ?_⟩
  · intro j hj
    have hround := h.front (Loop.Reaches.mono hreach (Nat.le_of_lt hj))
    have hnext : s.front site o data (j + 1) = (s.front site o data j).iter site o data :=
      Function.iterate_succ_apply' ..
    rw [hnext]
    exact hround.progresses (hreach j hj)
  · intro fuel hfuel
    rw [loop_eq hstop hreach hfuel]

end SsiSend

variable {f : FsFile} {is09 : Bool} {c : Pcb × HttpState}

/-- At the beginning of a call the invariant of the rounds holds. -/
theorem SsiServing.round {start : Nat} (h : SsiServing site f start c) (call : SsiCall)
    {ssi : HttpSsiState} (hssi : c.2.ssi = some ssi) (hleft : c.2.left ≠ 0) :
    (call.start c ssi).Round site f.data start (call.window c.1) ssi.id :=
  ⟨h.start call hssi hleft, UInt16.toNat_lt _⟩

/-- The loop of `http_send_data_ssi` ends in every call that is made for a file with tags,
whatever the inserts are and however lwIP answers. -/
theorem ssi_loop_ends (h : SsiOpened f is09 c) (calls : List SsiCall) (call : SsiCall)
    {ssi : HttpSsiState} (hssi : (ssiCalled site f c calls).2.ssi = some ssi)
    (hleft : (ssiCalled site f c calls).2.left ≠ 0) {t : SsiSend}
    (ht : t ∈ (call.start (ssiCalled site f c calls) ssi).toLoop call.oracle f.data) :
    ∃ n, t.Ends site call.oracle f.data n :=
  (((ssiCalled_serving h calls).round call hssi hleft).toLoop ht).ends call.oracle

/-- An empty insert. -/
theorem ssi_loop_ends_empty :
    ∃ n, (roomyCall.start tagPageOpened (httpSsiStateInit 0 tagPage)).Ends emptyInsertSite
      roomyCall.oracle tagPage.data n :=
  ssi_loop_ends tagPageOpened_opened [] roomyCall rfl (by decide) rfl

end Meu1oARM
