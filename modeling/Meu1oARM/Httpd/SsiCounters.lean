import Meu1oARM.Httpd.SsiLoop

/-! # The counters of `http_send_data_ssi`

Two offsets, two remaining lengths and one index describe where a connection stands in its
file and in its insert. They agree in front of every round, the index stays in the array
that it is used for, and no length is cut when it is converted.
-/

namespace Meu1oARM

open Machine CString

/-- `tag_index` is an index of the array that it is used for in the state, or the end of it. -/
structure HttpSsiState.Indexed (ssi : HttpSsiState) : Prop where
  leadin : ssi.tagState = .leadin → ssi.tagIndex ≤ tagLeadIn.length
  name_length : ssi.tagName.length = maxTagNameLen + 1
  found : ssi.tagState = .found → ssi.tagIndex < ssi.tagName.length
  leadout : ssi.tagState = .leadout → ssi.tagIndex < tagLeadOut.length
  sending : ssi.tagState = .sending →
    ssi.tagIndex ≤ ssi.tagInsertLen ∧ ssi.tagInsertLen ≤ maxTagInsertLen

variable {site : TagSite} {o : Oracle} {data : List UInt8}

namespace SsiSend

/-- Offsets, remaining lengths and the end of the tag agree. -/
structure Consistent (data : List UInt8) (s : SsiSend) : Prop where
  file_le : s.file ≤ s.ssi.parsed
  parsed_le : s.ssi.parsed ≤ data.length
  parse_eq : s.ssi.parsed + s.ssi.parseLeft = data.length
  left_eq : s.file + s.left = data.length
  tagEnd_eq : s.ssi.tagState = .sending → s.ssi.tagEnd = s.ssi.parsed
  indexed : s.ssi.Indexed

/-- Each length that the next round, or the block behind the loop, converts on its way keeps its
value. -/
structure Lossless (site : TagSite) (s : SsiSend) : Prop where
  /-- `(u16_t)(ssi->parsed - hs->file)` -/
  parsed : ¬ s.pcb.sndBuf.toNat < s.ssi.parsed - s.file →
    u16 (s.ssi.parsed - s.file) = s.ssi.parsed - s.file
  /-- `2 * tcp_mss(pcb)`, where it is less than the length. -/
  mss : 2 * s.pcb.mss.toNat < s.pcb.sndBuf.toNat → u16 (2 * s.pcb.mss.toNat) = 2 * s.pcb.mss.toNat
  /-- `(u16_t)(ssi->tag_end - hs->file)` in `TAG_SENDING` -/
  tagEnd : s.ssi.tagState = .sending → s.ssi.tagEnd - s.file < s.len →
    u16 (s.ssi.tagEnd - s.file) = s.ssi.tagEnd - s.file
  /-- The same when the tag has just been completed. -/
  completed : (s.fetched site).ssi.tagEnd - s.file < s.len →
    u16 ((s.fetched site).ssi.tagEnd - s.file) = (s.fetched site).ssi.tagEnd - s.file
  /-- `ssi->tag_insert_len - ssi->tag_index` -/
  insertRest : s.ssi.tagState = .sending → s.ssi.tagInsertLen - s.ssi.tagIndex < s.len →
    u16 (s.ssi.tagInsertLen - s.ssi.tagIndex) = s.ssi.tagInsertLen - s.ssi.tagIndex
  /-- `ssi->tag_index += len` for a part of the rest -/
  tagIndex : s.ssi.tagState = .sending → ∀ sent ≤ s.ssi.tagInsertLen - s.ssi.tagIndex,
    u16 (s.ssi.tagIndex + sent) = s.ssi.tagIndex + sent
  /-- `(u8_t)ssi->tag_index` -/
  tagNameLen : s.ssi.tagState = .found → u8 s.ssi.tagIndex = s.ssi.tagIndex
  /-- `(u16_t)len` in `get_tag_insert` -/
  unknownTag : u16 (unknownTagText (cstr s.ssi.tagName)).length =
    (unknownTagText (cstr s.ssi.tagName)).length

/-- The remaining lengths do not grow, as they would if one went below zero. -/
def Narrows (s s' : SsiSend) : Prop :=
  s'.ssi.parseLeft ≤ s.ssi.parseLeft ∧ s'.left ≤ s.left

/-- A call of `http_send_data_ssi` that begins with `s`, from its first line to its last. -/
structure CallConsistent (site : TagSite) (o : Oracle) (data : List UInt8) (s : SsiSend) :
    Prop where
  start : s.Consistent data ∧ s.Lossless site
  front : ∀ t ∈ s.toLoop o data, ∀ k, t.Reaches site o data k →
    (t.front site o data k).Consistent data ∧ (t.front site o data k).Lossless site ∧
      s.Narrows (t.front site o data k)
  round : ∀ t ∈ s.toLoop o data, ∀ k, t.Reaches site o data (k + 1) →
    (t.front site o data k).Narrows (t.front site o data (k + 1))
  result : (s.send site o data).Consistent data ∧ s.Narrows (s.send site o data)

variable {p : Pcb} {id : Nat} {s s' t : SsiSend}

theorem Stream.indexed {start : Nat} (h : s.Stream site data start p id) (hfits : site.Fits) :
    s.ssi.Indexed where
  leadin hstate := (h.scanning.leadin hstate).2
  name_length := h.scanning.name_length
  found hstate := by
    rw [h.scanning.name_length]
    exact Nat.lt_succ_of_le (h.scanning.found hstate)
  leadout := h.scanning.leadout
  sending hstate := ⟨h.tagIndex_le hstate, h.insertLen_le hfits hstate⟩

/-- A response of HTTP/1.x starts with the file, so nothing before it has been passed over. -/
theorem Stream.consistent (h : s.Stream site data 0 p id) (hfits : site.Fits) :
    s.Consistent data where
  file_le := by
    have hfile := h.file_le
    omega
  parsed_le := Nat.le_of_add_right_le (Nat.le_of_eq h.parse_eq)
  parse_eq := h.parse_eq
  left_eq := h.left_eq
  tagEnd_eq := h.tagEnd_eq
  indexed := h.indexed hfits

theorem Round.lossless {start : Nat} (h : s.Round site data start p id) : s.Lossless site where
  parsed hroom := by
    have hsnd := s.pcb.sndBuf.toNat_lt
    exact u16_of_lt (by omega)
  mss hless := by
    have hsnd := s.pcb.sndBuf.toNat_lt
    exact u16_of_lt (by omega)
  tagEnd _ hless := u16_of_lt (Nat.lt_trans hless h.len_lt)
  completed hless := u16_of_lt (Nat.lt_trans hless h.len_lt)
  insertRest _ hless := u16_of_lt (Nat.lt_trans hless h.len_lt)
  tagIndex hstate sent hsent := by
    have hindex := h.tagIndex_le hstate
    have hinsert := h.insertLen_lt hstate
    exact u16_of_lt (by omega)
  tagNameLen hstate := u8_of_lt (Nat.lt_of_le_of_lt (h.scanning.found hstate) (by decide))
  unknownTag := u16_of_lt (Nat.lt_of_le_of_lt (length_unknownTagText_le _) (by decide))

theorem Narrows.refl (s : SsiSend) : s.Narrows s := ⟨Nat.le_refl _, Nat.le_refl _⟩

theorem Narrows.trans (h : s.Narrows s') (h' : s'.Narrows t) : s.Narrows t :=
  ⟨Nat.le_trans h'.1 h.1, Nat.le_trans h'.2 h.2⟩

/-- Offsets that go on make the remaining lengths smaller. -/
theorem Stream.narrows {start : Nat} (h : s.Stream site data start p id)
    (h' : s'.Stream site data start p id) (hfile : s.file ≤ s'.file)
    (hparsed : s.ssi.parsed ≤ s'.ssi.parsed) : s.Narrows s' := by
  have hparse := h.parse_eq
  have hparse' := h'.parse_eq
  have hleft := h.left_eq
  have hleft' := h'.left_eq
  constructor <;> omega

/-- Going on from `s₀` with smaller lengths. -/
theorem Round.narrows {start : Nat} {s₀ : SsiSend} (h : s.Round site data start p id)
    (h₀ : s₀.Narrows s) (hmore : s.ssi.parseLeft ≠ 0) :
    (s.iter site o data).Round site data start p id ∧ s₀.Narrows (s.iter site o data) := by
  obtain ⟨-, hfile, hparsed⟩ := (iter_turn site o data h.scanning).grows h
  have hnext := h.iter (o := o) hmore
  exact ⟨hnext, h₀.trans (h.toStream.narrows hnext.toStream hfile hparsed)⟩

theorem Round.sendParsed_narrows {start : Nat} {s₀ : SsiSend} (h : s.Round site data start p id)
    (h₀ : s₀.Narrows s) (hgap : s.file < s.ssi.parsed) :
    (s.sendParsed o data).Round site data start p id ∧ s₀.Narrows (s.sendParsed o data) := by
  obtain ⟨hround, hfile, hssi⟩ := h.sendParsed_round (o := o) hgap
  exact ⟨hround, h₀.trans (h.toStream.narrows hround.toStream hfile
    (Nat.le_of_eq (congrArg HttpSsiState.parsed hssi.symm)))⟩

/-- What is in front of the loop, of each round and behind the loop. -/
theorem Round.callConsistent (h : s.Round site data 0 p id) (hfits : site.Fits) (o : Oracle) :
    s.CallConsistent site o data where
  start := ⟨h.toStream.consistent hfits, h.lossless⟩
  front t ht k hreach := by
    have hloop : t.Round site data 0 p id ∧ s.Narrows t :=
      toLoop_invariant (I := fun t => t.Round site data 0 p id ∧ s.Narrows t) ⟨h, .refl s⟩
        (h.sendParsed_narrows (.refl s)) ht
    obtain ⟨hfront, hnarrows⟩ :=
      Loop.invariant (I := fun t => t.Round site data 0 p id ∧ s.Narrows t)
        (fun _ h hgo => h.1.narrows h.2 fun hzero => hgo (Or.inl hzero)) hloop hreach
    exact ⟨hfront.toStream.consistent hfits, hfront.lossless, hnarrows⟩
  round t ht k hreach := by
    have hfront := (h.toLoop ht).front (Loop.Reaches.mono hreach (Nat.le_succ k))
    have hgo := hreach k (Nat.lt_succ_self k)
    have hnext : t.front site o data (k + 1) = (t.front site o data k).iter site o data :=
      Function.iterate_succ_apply' ..
    rw [hnext]
    exact (hfront.narrows (.refl _) fun hzero => hgo (Or.inl hzero)).2
  result := by
    have hsent := send_invariant (I := fun t => t.Round site data 0 p id ∧ s.Narrows t) (o := o)
      (fun _ h hmore => h.1.narrows h.2 hmore) (fun _ h hgap => h.1.sendParsed_narrows h.2 hgap)
      ⟨h, .refl s⟩
    exact ⟨hsent.1.toStream.consistent hfits, hsent.2⟩

end SsiSend

/-- Every call for a file with tags that answers a request of HTTP/1.x keeps the counters
together. -/
theorem ssi_counters_consistent {f : FsFile} {c : Pcb × HttpState} (hfits : site.Fits)
    (h : SsiOpened f false c) (calls : List SsiCall) (call : SsiCall) {ssi : HttpSsiState}
    (hssi : (ssiCalled site f c calls).2.ssi = some ssi)
    (hleft : (ssiCalled site f c calls).2.left ≠ 0) :
    (call.start (ssiCalled site f c calls) ssi).CallConsistent site call.oracle f.data := by
  have hround := (ssiCalled_serving h calls).round call hssi hleft
  rw [headerEnd_of_http1] at hround
  exact hround.callConsistent hfits call.oracle

/-- The first call for a page with a tag. -/
theorem ssi_counters_consistent_first :
    (roomyCall.start tagPageOpened (httpSsiStateInit 0 tagPage)).CallConsistent emptyInsertSite
      roomyCall.oracle tagPage.data :=
  ssi_counters_consistent (fun _ _ => Nat.zero_le _) tagPageOpened_opened [] roomyCall rfl
    (by decide)

end Meu1oARM
