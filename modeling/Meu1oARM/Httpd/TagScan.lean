import Meu1oARM.Foundation.Expand
import Meu1oARM.Httpd.Ssi

/-! # The tag scanner as a recogniser

`http_send_data_ssi` keeps the state of its scanner in the `http_ssi_state`.
Read as a recogniser of tags it determines one response for every file and every
choice of inserts, whatever happens while it is sent.
-/

namespace Meu1oARM

open Machine CString

/-- What the scanner has recognised before the next character: nothing, the first
characters of the lead-in, a part of the name, or the whole name and the first
characters of the lead-out. -/
inductive Scan
  | idle
  | leadin (n : Nat)
  | name (xs : List UInt8)
  | leadout (n : Nat) (xs : List UInt8)
  deriving DecidableEq, Repr

/-- One character, and the name of the tag that it completes. -/
def Scan.step (s : Scan) (b : UInt8) : Scan × Option (List UInt8) :=
  match s with
  | .idle => (if b = tagLeadIn.getD 0 0 then .leadin 1 else .idle, none)
  | .leadin n =>
    if b = tagLeadIn.getD n 0 then
      (if n + 1 = tagLeadIn.length then .name [] else .leadin (n + 1), none)
    else (.idle, none)
  | .name xs =>
    if xs = [] ∧ isTagSpace b then (.name xs, none)
    else if b = tagLeadOut.getD 0 0 ∨ isTagSpace b then
      (if xs = [] then .idle else .leadout (if b = tagLeadOut.getD 0 0 then 1 else 0) (cstr xs), none)
    else if xs.length < maxTagNameLen then (.name (xs ++ [b]), none)
    else (.idle, none)
  | .leadout n xs =>
    if n = 0 ∧ isTagSpace b then (.leadout n xs, none)
    else if b = tagLeadOut.getD n 0 then
      if n = tagLeadOut.length - 1 then (.idle, some xs) else (.leadout (n + 1) xs, none)
    else (.idle, none)

/-- What the scanner of a connection has recognised. -/
def HttpSsiState.scan (ssi : HttpSsiState) : Scan :=
  match ssi.tagState with
  | .none | .sending => .idle
  | .leadin => if ssi.tagIndex = tagLeadIn.length then .name [] else .leadin ssi.tagIndex
  | .found => .name (ssi.tagName.take ssi.tagIndex)
  | .leadout => .leadout ssi.tagIndex (cstr ssi.tagName)

variable {σ : Type}

/-- The insert for the `k`-th tag: the text of the handler, or the marker for a tag that
has none. -/
def tagText (site : TagSite) (k : Nat) (name : List UInt8) : List UInt8 :=
  match site.tags.findIdx? (· == name) with
  | some loop => bytes (site.ssiHandler k loop).mem (site.ssiHandler k loop).len.toNat
  | none => unknownTagText name

/-- The response for a file with tags, from the offset `start` on, as the server sends it. -/
def ssiResponse (site : TagSite) (data : List UInt8) (start : Nat) : List UInt8 :=
  Expand.served Scan.step (tagText site) .idle 0 start data

/-- The insert of a tag that ends with the file. -/
def finalInsert (site : TagSite) (data : List UInt8) : List UInt8 :=
  Expand.final Scan.step (tagText site) .idle 0 data

/-- The scanner's fields fit together; in particular nothing is stored behind the name. -/
structure HttpSsiState.Scanning (ssi : HttpSsiState) : Prop where
  name_length : ssi.tagName.length = maxTagNameLen + 1
  leadin : ssi.tagState = .leadin → 1 ≤ ssi.tagIndex ∧ ssi.tagIndex ≤ tagLeadIn.length
  found : ssi.tagState = .found → ssi.tagIndex ≤ maxTagNameLen
  leadout : ssi.tagState = .leadout → ssi.tagIndex < tagLeadOut.length

theorem zero_notMem_unknownTagText {name : List UInt8} (h : 0 ∉ name) :
    0 ∉ unknownTagText name := by
  have htake : 0 ∉ name.take (maxTagInsertLen - (unknownTag1.length + unknownTag2.length)) :=
    fun hmem => h (List.mem_of_mem_take hmem)
  simp only [unknownTagText, List.mem_append, not_or]
  exact ⟨⟨by decide, htake⟩, by decide⟩

theorem length_unknownTagText_le (name : List UInt8) :
    (unknownTagText name).length ≤ maxTagInsertLen := by
  have h1 : unknownTag1.length = 18 := by decide
  have h2 : unknownTag2.length = 7 := by decide
  simp only [unknownTagText, List.length_append, List.length_take, h1, h2, maxTagInsertLen]
  omega

/-- `get_tag_insert` leaves the text of the tag in the insert buffer and changes nothing else. -/
theorem getTagInsert_spec (site : TagSite) (ssi : HttpSsiState) :
    ∃ mem len, getTagInsert site ssi =
        { ssi with calls := ssi.calls + 1, tagInsert := mem, tagInsertLen := len } ∧
      bytes mem len = tagText site ssi.calls (cstr ssi.tagName) ∧ len < 65536 ∧
      (site.Fits → len ≤ maxTagInsertLen) := by
  unfold getTagInsert tagText
  cases htag : site.tags.findIdx? (· == cstr ssi.tagName) with
  | some loop =>
      exact ⟨_, _, rfl, rfl, (site.ssiHandler ssi.calls loop).len.toNat_lt,
        fun hfits => hfits ssi.calls loop⟩
  | none =>
      have hzero := zero_notMem_unknownTagText (zero_notMem_cstr ssi.tagName)
      have hle := length_unknownTagText_le (cstr ssi.tagName)
      have hlen : u16 (unknownTagText (cstr ssi.tagName)).length =
          (unknownTagText (cstr ssi.tagName)).length :=
        u16_of_lt (Nat.lt_of_le_of_lt hle (by decide))
      refine ⟨_, _, rfl, ?_, u16_lt _, fun _ => ?_⟩
      · rw [cstr_terminated hzero, hlen, bytes_ofList _ _ _ (by simp)]
        simp
      · rw [cstr_terminated hzero, hlen]
        exact hle

/-! ## The scanner of the source -/

variable {site : TagSite} {o : Oracle} {data : List UInt8}

namespace HttpSsiState

@[simp] theorem advance_tagState (ssi : HttpSsiState) : ssi.advance.tagState = ssi.tagState := rfl

@[simp] theorem advance_parsed (ssi : HttpSsiState) : ssi.advance.parsed = ssi.parsed + 1 := rfl

@[simp] theorem advance_calls (ssi : HttpSsiState) : ssi.advance.calls = ssi.calls := rfl

@[simp] theorem advance_scan (ssi : HttpSsiState) : ssi.advance.scan = ssi.scan := rfl

theorem advance_parseLeft {ssi : HttpSsiState} (hleft : ssi.parseLeft ≠ 0)
    (hlt : ssi.parseLeft < 4294967296) : ssi.advance.parseLeft = ssi.parseLeft - 1 :=
  sub32_of_le (by omega) hlt

theorem Scanning.advance {ssi : HttpSsiState} (h : ssi.Scanning) : ssi.advance.Scanning :=
  ⟨h.name_length, h.leadin, h.found, h.leadout⟩

end HttpSsiState

namespace SsiSend

/-- The scanner has read the character `b`, which completes no tag. -/
structure Reads (b : UInt8) (s s' : SsiSend) : Prop where
  pcb_eq : ∃ cond, s'.pcb = s.pcb.check cond .tagIndexFits
  sends : s.pcb.Sends s'.pcb
  enqueued_eq : enqueued s'.pcb.trace = enqueued s.pcb.trace
  inserts_eq : tagInserts s'.pcb.trace = tagInserts s.pcb.trace
  file_eq : s'.file = s.file
  left_eq : s'.left = s.left
  err_eq : s'.err = s.err
  len_eq : s'.len = s.len
  parsed_eq : s'.ssi.parsed = s.ssi.parsed + 1
  parseLeft_eq : s'.ssi.parseLeft = sub32 s.ssi.parseLeft 1
  calls_eq : s'.ssi.calls = s.ssi.calls
  id_eq : s'.ssi.id = s.ssi.id
  state_ne : s'.ssi.tagState ≠ .sending
  scanning : s'.ssi.Scanning
  step_eq : s.ssi.scan.step b = (s'.ssi.scan, none)

/-- The scanner changes its own fields and moves on. -/
theorem Reads.of_advance {b : UInt8} {s : SsiSend} (ssi : HttpSsiState) {pcb : Pcb}
    (hpcb : ∃ cond, pcb = s.pcb.check cond .tagIndexFits)
    (hparsed : ssi.parsed = s.ssi.parsed) (hleft : ssi.parseLeft = s.ssi.parseLeft)
    (hcalls : ssi.calls = s.ssi.calls) (hid : ssi.id = s.ssi.id)
    (hstate : ssi.tagState ≠ .sending)
    (hscanning : ssi.Scanning) (hstep : s.ssi.scan.step b = (ssi.scan, none)) :
    Reads b s { s with pcb, ssi := ssi.advance } := by
  obtain ⟨cond, rfl⟩ := hpcb
  exact {
    pcb_eq := ⟨cond, rfl⟩
    sends := .check _ rfl cond
    enqueued_eq := by simp
    inserts_eq := by simp
    file_eq := rfl, left_eq := rfl, err_eq := rfl, len_eq := rfl
    parsed_eq := by simp [hparsed]
    parseLeft_eq := by simp [HttpSsiState.advance, hleft]
    calls_eq := hcalls, id_eq := hid, state_ne := hstate, scanning := hscanning.advance
    step_eq := hstep }

/-- The variant without the assertion. -/
theorem Reads.of_scan {b : UInt8} {s : SsiSend} (ssi : HttpSsiState)
    (hparsed : ssi.parsed = s.ssi.parsed) (hleft : ssi.parseLeft = s.ssi.parseLeft)
    (hcalls : ssi.calls = s.ssi.calls) (hid : ssi.id = s.ssi.id)
    (hstate : ssi.tagState ≠ .sending)
    (hscanning : ssi.Scanning) (hstep : s.ssi.scan.step b = (ssi.scan, none)) :
    Reads b s { s with ssi := ssi.advance } :=
  .of_advance ssi ⟨true, rfl⟩ hparsed hleft hcalls hid hstate hscanning hstep

variable {s : SsiSend}

theorem reads_none (b : UInt8) (hscan : s.ssi.Scanning) (hstate : s.ssi.tagState = .none) :
    Reads b s (s.caseNone b) := by
  unfold caseNone
  split
  next hb =>
    refine .of_scan { s.ssi with tagState := .leadin, tagIndex := 1 } rfl rfl rfl rfl nofun
      ⟨hscan.name_length, fun _ => ⟨Nat.le_refl 1, (by decide : 1 ≤ tagLeadIn.length)⟩, nofun, nofun⟩ ?_
    simp only [HttpSsiState.scan, hstate, Scan.step, hb, if_true]
    rfl
  next hb =>
    refine .of_scan s.ssi rfl rfl rfl rfl (by simp [hstate]) hscan ?_
    simp only [HttpSsiState.scan, hstate, Scan.step, hb, if_false]

/-- Before the end of the lead-in. -/
theorem reads_leadin (b : UInt8) (hscan : s.ssi.Scanning) (hstate : s.ssi.tagState = .leadin)
    (hidx : s.ssi.tagIndex ≠ tagLeadIn.length) : Reads b s (s.caseLeadin b) := by
  have hbound := hscan.leadin hstate
  simp only [caseLeadin, hidx, if_false]
  split
  next hb =>
    refine .of_scan { s.ssi with tagIndex := s.ssi.tagIndex + 1 } rfl rfl rfl rfl (by simp [hstate])
      ⟨hscan.name_length, fun _ => ⟨Nat.le_add_left .., ?_⟩, by simp [hstate], by simp [hstate]⟩ ?_
    · simp only
      omega
    · simp only [HttpSsiState.scan, hstate, Scan.step, hidx, hb, if_false, if_true]
  next hb =>
    refine .of_scan { s.ssi with tagState := .none } rfl rfl rfl rfl nofun
      ⟨hscan.name_length, nofun, nofun, nofun⟩ ?_
    simp only [HttpSsiState.scan, hstate, Scan.step, hidx, hb, if_false]

/-- Before the end of the lead-out. -/
theorem reads_leadout (b : UInt8) (hscan : s.ssi.Scanning) (hstate : s.ssi.tagState = .leadout)
    (hmore : ¬ (b = tagLeadOut.getD s.ssi.tagIndex 0 ∧
      s.ssi.tagIndex = tagLeadOut.length - 1 ∧ ¬ (s.ssi.tagIndex = 0 ∧ isTagSpace b))) :
    Reads b s (s.caseLeadout site o data b) := by
  have hbound := hscan.leadout hstate
  simp only [caseLeadout]
  split
  next hspace =>
    refine .of_scan s.ssi rfl rfl rfl rfl (by simp [hstate]) hscan ?_
    simp only [HttpSsiState.scan, hstate, Scan.step, hspace, and_self, if_true]
  next hspace =>
    split
    next hb =>
      have hidx : s.ssi.tagIndex ≠ tagLeadOut.length - 1 := fun h => hmore ⟨hb, h, hspace⟩
      simp only [hidx, if_false]
      refine .of_scan { s.ssi with tagIndex := s.ssi.tagIndex + 1 } rfl rfl rfl rfl
        (by simp [hstate])
        ⟨hscan.name_length, by simp [hstate], by simp [hstate], fun _ => ?_⟩ ?_
      · simp only
        omega
      · simp only [HttpSsiState.scan, hstate, Scan.step]
        rw [if_neg hspace, if_pos hb, if_neg hidx]
    next hb =>
      refine .of_scan { s.ssi with tagState := .none } rfl rfl rfl rfl nofun
        ⟨hscan.name_length, nofun, nofun, nofun⟩ ?_
      simp only [HttpSsiState.scan, hstate, Scan.step, hspace, hb, if_false]

theorem reads_found (b : UInt8) (hscan : s.ssi.Scanning) (hstate : s.ssi.tagState = .found) :
    Reads b s (s.caseFound b) := by
  have hbound := hscan.found hstate
  have hname := hscan.name_length
  have hempty : (s.ssi.tagName.take s.ssi.tagIndex = []) ↔ s.ssi.tagIndex = 0 := by
    rw [List.take_eq_nil_iff, or_iff_left]
    rintro hnil
    simp [hnil] at hname
  have hlength : (s.ssi.tagName.take s.ssi.tagIndex).length = s.ssi.tagIndex := by
    rw [List.length_take]
    omega
  have hscan_eq : s.ssi.scan = .name (s.ssi.tagName.take s.ssi.tagIndex) := by
    simp only [HttpSsiState.scan, hstate]
  simp only [caseFound]
  split
  next hspace =>
    -- a space in front of the name
    refine .of_scan s.ssi rfl rfl rfl rfl (by simp [hstate]) hscan ?_
    rw [hscan_eq, Scan.step, if_pos ⟨hempty.mpr hspace.1, hspace.2⟩]
  next hspace =>
    split
    next hend =>
      split
      next hzero =>
        refine .of_scan { s.ssi with tagState := .none } rfl rfl rfl rfl nofun
          ⟨hscan.name_length, nofun, nofun, nofun⟩ ?_
        simp only [hscan_eq, Scan.step, hempty]
        rw [if_neg hspace, if_pos hend, if_pos hzero]
        rfl
      next hzero =>
        refine .of_advance _ ⟨_, rfl⟩ rfl rfl rfl rfl nofun
          ⟨by simpa using hname, nofun, nofun, fun _ => ?_⟩ ?_
        · simp only
          split <;> decide
        · -- the name is terminated in its buffer
          have hset : s.ssi.tagName.set s.ssi.tagIndex 0 =
              s.ssi.tagName.take s.ssi.tagIndex ++ 0 :: s.ssi.tagName.drop (s.ssi.tagIndex + 1) :=
            List.set_eq_take_append_cons_drop.trans (if_pos (by omega))
          simp only [hscan_eq, Scan.step, hempty]
          rw [if_neg hspace, if_pos hend, if_neg hzero]
          simp only [HttpSsiState.scan, hset, cstr_append_zero]
    next hend =>
      split
      next hroom =>
        refine .of_scan { s.ssi with
            tagName := s.ssi.tagName.set s.ssi.tagIndex b, tagIndex := s.ssi.tagIndex + 1 }
          rfl rfl rfl rfl (by simp [hstate])
          ⟨by simpa using hname, by simp [hstate], fun _ => hroom, by simp [hstate]⟩ ?_
        -- the byte goes into the buffer of the name
        have htake : (s.ssi.tagName.set s.ssi.tagIndex b).take (s.ssi.tagIndex + 1) =
            s.ssi.tagName.take s.ssi.tagIndex ++ [b] := by
          rw [List.take_add_one, List.take_set_of_le (Nat.le_refl _)]
          simp [hname, show s.ssi.tagIndex < maxTagNameLen + 1 by omega]
        simp only [hscan_eq, Scan.step, hempty, hlength]
        rw [if_neg hspace, if_neg hend, if_pos hroom]
        simp only [HttpSsiState.scan, hstate, htake]
      next hroom =>
        refine .of_scan { s.ssi with tagState := .none } rfl rfl rfl rfl nofun
          ⟨hscan.name_length, nofun, nofun, nofun⟩ ?_
        simp only [hscan_eq, Scan.step, hempty, hlength]
        rw [if_neg hspace, if_neg hend, if_neg hroom]
        rfl

end SsiSend

end Meu1oARM
