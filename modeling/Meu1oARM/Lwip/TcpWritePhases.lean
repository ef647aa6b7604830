import Meu1oARM.Lwip.TcpQueue

/-! # The phases of `tcp_write`

The three phases prepare segments for all of the data, each within the longest segment
length, and count the pbufs of them.
-/

namespace Meu1oARM

open Machine Serial

namespace TcpPcb

variable {pcb : TcpPcb} {last : Segment} {data : List UInt8} {copy more : Bool} {mem : Nat → Bool}
  {w w' : Writing} {b : SegmentBuf} {limit : Nat}

@[simp] theorem mapLast_concat {α : Type} (f : α → α) (xs : List α) (x : α) :
    mapLast f (xs ++ [x]) = xs ++ [f x] := by
  simp [mapLast]

@[simp] theorem mapLast_nil {α : Type} (f : α → α) : mapLast f [] = [] := rfl

theorem fillLast_concat (bytes : List UInt8) (bs : List SegmentBuf) (b : SegmentBuf) :
    fillLast bytes (bs ++ [b]) =
      bs ++ [{ data := b.data ++ bytes, spare := b.spare - bytes.length }] := by
  induction bs with
  | nil => rfl
  | cons a bs ih =>
      cases bs with
      | nil => rfl
      | cons a' bs => simpa [fillLast] using ih

/-- Between the data and the longest length, `tcp_pbuf_prealloc` is free to choose. -/
theorem tcpPbufPrealloc_bounds {length maxLength : Nat} (h : length ≤ maxLength) (pcb : TcpPcb)
    (more firstSeg : Bool) : length ≤ pcb.tcpPbufPrealloc length maxLength more firstSeg ∧
      pcb.tcpPbufPrealloc length maxLength more firstSeg ≤ maxLength := by
  have halign : length + tcpMss ≤ memAlignSize (length + tcpMss) := by
    unfold memAlignSize memAlignment
    omega
  unfold tcpPbufPrealloc
  split
  · exact ⟨Nat.le_min.mpr ⟨h, by omega⟩, Nat.min_le_left _ _⟩
  · exact ⟨Nat.le_refl _, h⟩

/-! ## Phases 1 and 2 -/

/-- What phases 1 and 2 prepare for the last unsent segment. -/
structure Extended (pcb : TcpPcb) (limit : Nat) (last : Segment) (data : List UInt8) (copy : Bool)
    (w : Writing) : Prop where
  pos_le : w.pos ≤ data.length
  queue : w.queue = []
  appended : (extendLast last data w).data = last.data ++ data.take w.pos
  len : (extendLast last data w).len = last.len + w.pos
  bufs : last.bufs.length ≤ (extendLast last data w).bufs.length
  queuelen : w.queuelen + last.bufs.length =
    pcb.sndQueuelen + (extendLast last data w).bufs.length
  queuelen_le : w.queuelen ≤ pcb.sndQueuelen + min 1 data.length
  fits : (extendLast last data w).len + w.oversize ≤ limit
  spare : ∀ b ∈ (extendLast last data w).bufs.getLast?, w.oversize ≤ b.spare
  rest : w.pos < data.length → copy = false → w.oversize = 0

/-- What phase 1 prepares. -/
theorem phase1_extended (hfits : last.len + pcb.unsentOversize ≤ limit)
    (hspare : ∀ b ∈ last.bufs.getLast?, pcb.unsentOversize ≤ b.spare) (hbufs : last.bufs ≠ []) :
    Extended pcb limit last data copy (pcb.phase1 data.length) ∧
      (pcb.phase1 data.length).concatP = none ∧
      (pcb.phase1 data.length).pos = (pcb.phase1 data.length).oversizeUsed ∧
      ((pcb.phase1 data.length).pos < data.length → (pcb.phase1 data.length).oversize = 0) := by
  rcases List.eq_nil_or_concat last.bufs with hnil | ⟨bs, b, hlast⟩
  · exact absurd hnil hbufs
  rw [List.concat_eq_append] at hlast
  have hb := hspare b (by simp [hlast])
  unfold phase1
  split
  next hover =>
    dsimp only
    have hused : (if pcb.unsentOversize < data.length then pcb.unsentOversize else data.length) =
        min pcb.unsentOversize data.length := by
      split <;> omega
    rw [hused]
    have htake : (data.take (min pcb.unsentOversize data.length)).length =
        min pcb.unsentOversize data.length := by
      rw [List.length_take]
      omega
    refine ⟨⟨Nat.min_le_right _ _, rfl, ?_, ?_, ?_, ?_, by dsimp only; omega, ?_, ?_, ?_⟩, rfl, rfl, ?_⟩
    · simp only [extendLast, Segment.data, hlast, fillLast_concat]
      split
      next _ => simp
      next hzero =>
        have hzero' : min pcb.unsentOversize data.length = 0 := by omega
        simp [hzero']
    · simp [extendLast]
    · simp only [extendLast, hlast, fillLast_concat]
      split <;> simp
    · simp only [extendLast, hlast, fillLast_concat]
      split <;> simp
    · simp only [extendLast, Option.elim_none]
      omega
    · intro b' hb'
      simp only [extendLast, hlast, fillLast_concat, Option.toList_none, List.append_nil] at hb'
      split at hb'
      next _ =>
        rw [List.getLast?_append, List.getLast?_singleton] at hb'
        obtain rfl := Option.some.inj hb'
        simp only [htake]
        omega
      next hzero =>
        rw [List.getLast?_append, List.getLast?_singleton] at hb'
        obtain rfl := Option.some.inj hb'
        dsimp only
        omega
    · intro hlt _
      dsimp only at hlt ⊢
      omega
    · intro hlt
      omega
  next hover =>
    refine ⟨⟨Nat.zero_le _, rfl, ?_, ?_, ?_, ?_, by dsimp only; omega, ?_, ?_, ?_⟩, rfl, rfl, ?_⟩
    · simp [extendLast, Segment.data]
    · simp [extendLast]
    · simp [extendLast]
    · simp [extendLast]
    · simp only [extendLast, Option.elim_none]
      omega
    · exact fun _ _ => Nat.zero_le _
    · exact fun _ _ => rfl
    · exact fun _ => rfl

theorem extendLast_concat (seg : Segment) (data : List UInt8) (hnone : w.concatP = none)
    (hsome : w'.concatP = some b) (hused : w'.oversizeUsed = w.oversizeUsed) :
    extendLast seg data w' = { extendLast seg data w with
      len := (extendLast seg data w).len + b.data.length
      bufs := (extendLast seg data w).bufs ++ [b] } := by
  simp [extendLast, hnone, hsome, hused]

/-- A new pbuf is chained to the last segment. -/
theorem Extended.concat {k alloc : Nat} (hext : Extended pcb limit last data copy w)
    (hnone : w.concatP = none) (hlt' : w.pos < data.length) (hk : k ≤ data.length - w.pos)
    (halloc : k ≤ alloc)
    (hspace : last.len + w.pos + alloc ≤ limit) (hcopy : copy = false → alloc = k)
    (hqueuelen : w.queuelen = pcb.sndQueuelen) (hlt : w.queuelen < 65535)
    (hconcat : w'.concatP = some { data := (data.drop w.pos).take k, spare := alloc - k })
    (hused : w'.oversizeUsed = w.oversizeUsed) (hpos : w'.pos = w.pos + k)
    (hover : w'.oversize = alloc - k) (hqueue : w'.queue = w.queue)
    (hqueuelen' : w'.queuelen = u16 (w.queuelen + 1)) : Extended pcb limit last data copy w' := by
  have hpos_le := hext.pos_le
  have hbytes : ((data.drop w.pos).take k).length = k := by
    rw [List.length_take, List.length_drop]
    omega
  have hlen := hext.len
  have hcount := hext.queuelen
  rw [u16_of_lt (by omega)] at hqueuelen'
  have heq := extendLast_concat last data hnone hconcat hused
  refine ⟨by omega, hqueue.trans hext.queue, ?_, ?_, ?_, ?_, by omega, ?_, ?_, ?_⟩
  · have happended := hext.appended
    unfold Segment.data at happended ⊢
    rw [heq, hpos, List.take_add, ← List.append_assoc, ← happended]
    simp
  · rw [heq]
    dsimp only
    rw [hbytes, hlen, hpos, Nat.add_assoc]
  · have hbufs := hext.bufs
    rw [heq, List.length_append]
    omega
  · rw [heq, List.length_append, List.length_singleton]
    omega
  · rw [heq]
    dsimp only
    rw [hbytes, hlen, hover]
    omega
  · intro b hb
    rw [heq, List.getLast?_append, List.getLast?_singleton] at hb
    obtain rfl := Option.some.inj hb
    exact Nat.le_of_eq hover
  · intro _ hc
    rw [hover, hcopy hc, Nat.sub_self]

/-- What phases 1 and 2 prepare, unless memory runs out. -/
theorem phase2_extended (hfits : last.len + pcb.unsentOversize ≤ limit) (hlimit : limit < 65536)
    (hspare : ∀ b ∈ last.bufs.getLast?, pcb.unsentOversize ≤ b.spare) (hbufs : last.bufs ≠ [])
    (hsyn : last.syn = false) (hqueuelen : pcb.sndQueuelen ≤ tcpSndQueuelenMax)
    (hrun : pcb.phase2 last limit data copy more mem (pcb.phase1 data.length) = some w) :
    Extended pcb limit last data copy w := by
  obtain ⟨hext, hconcat, hpos, hover⟩ :
      Extended pcb limit last data copy (pcb.phase1 data.length) ∧ _ :=
    phase1_extended hfits hspare hbufs
  unfold phase2 at hrun
  dsimp only at hrun
  split at hrun
  next hroom =>
    split at hrun
    next _ =>
      obtain rfl := Option.some.inj hrun
      obtain ⟨hlt, hspace, _⟩ := hroom
      have hzero := hover hlt
      have hlen := hext.len
      have hle := hext.fits
      have hcount : (pcb.phase1 data.length).queuelen = pcb.sndQueuelen := by
        unfold phase1
        split <;> rfl
      have hspace' : toU16 (toU16 (limit - (last.len + last.optLen)) -
          (pcb.phase1 data.length).oversizeUsed) =
            limit - (last.len + (pcb.phase1 data.length).pos) := by
        rw [Segment.optLen, hsyn, ← hpos]
        unfold toU16
        simp only [Bool.false_eq_true, if_false]
        omega
      rw [hspace'] at hspace ⊢
      have hseglen : (if limit - (last.len + (pcb.phase1 data.length).pos) <
            data.length - (pcb.phase1 data.length).pos then
          limit - (last.len + (pcb.phase1 data.length).pos)
          else data.length - (pcb.phase1 data.length).pos) =
          min (limit - (last.len + (pcb.phase1 data.length).pos))
            (data.length - (pcb.phase1 data.length).pos) := by
        split <;> omega
      rw [hseglen]
      have hmax : tcpSndQueuelenMax = 12 := rfl
      obtain ⟨halloc, halloc'⟩ := tcpPbufPrealloc_bounds
        (Nat.min_le_left (limit - (last.len + (pcb.phase1 data.length).pos))
          (data.length - (pcb.phase1 data.length).pos)) pcb more true
      refine hext.concat hconcat hlt (Nat.min_le_right _ _) ?_ ?_ ?_ hcount (by omega) rfl rfl rfl ?_
        rfl rfl
      · split
        · exact halloc
        · exact Nat.le_refl _
      · split <;> omega
      · intro hc
        simp [hc]
      · dsimp only
        cases copy <;> simp [hzero]
    next _ => cases hrun
  next _ =>
    obtain rfl := Option.some.inj hrun
    exact hext

/-! ## Phase 3 -/

/-- What phase 3 prepares: segments for the data from `w.pos` on, which follow the ones of `w`. -/
structure Prepared (base lbb limit : Nat) (data : List UInt8) (w w' : Writing)
    (segs : List Segment) : Prop where
  queue : w'.queue = w.queue ++ segs
  used : w'.oversizeUsed = w.oversizeUsed
  concatP : w'.concatP = w.concatP
  queued : InSequence base (lbb + w.pos) segs
  content : segs.flatMap Segment.symbols = (data.drop w.pos).map some
  wf : ∀ seg ∈ segs, seg.Wf limit
  queuelen : w'.queuelen = w.queuelen + pbufCount segs
  queuelen_le : segs ≠ [] → w'.queuelen ≤ tcpSndQueuelenMax
  none : segs = [] → w'.oversize = w.oversize
  last : ∀ seg ∈ segs.getLast?, seg.len + w'.oversize ≤ limit ∧
    ∀ b ∈ seg.bufs.getLast?, w'.oversize ≤ b.spare

/-- The buffers of one new segment. -/
theorem newBufs_spec {bytes : List UInt8} {oversize : Nat} (hle : bytes.length ≤ limit)
    (hover : copy = false → oversize = 0) (pcb : TcpPcb) (more firstSeg : Bool) :
    ∃ bufs requests spare, pcb.newBufs bytes limit copy more firstSeg oversize =
        (bufs, requests, spare) ∧
      bufs.flatMap SegmentBuf.data = bytes ∧ 1 ≤ bufs.length ∧ bufs.length ≤ 2 ∧
      bytes.length + spare ≤ limit ∧ (∀ b ∈ bufs.getLast?, spare ≤ b.spare) ∧
      (copy = false → spare = 0) := by
  obtain ⟨hlo, hhi⟩ := tcpPbufPrealloc_bounds hle pcb more firstSeg
  cases copy with
  | true =>
      refine ⟨_, _, _, rfl, ?_, ?_, ?_, ?_, ?_, nofun⟩
      · simp
      · simp
      · simp
      · omega
      · intro b hb
        obtain rfl := Option.some.inj hb
        exact Nat.le_refl _
  | false =>
      have hzero := hover rfl
      refine ⟨_, _, _, rfl, ?_, ?_, ?_, ?_, ?_, fun _ => hzero⟩
      · simp
      · simp
      · simp
      · omega
      · simp [hzero]

/-- Without room for a segment, phase 3 fills the queue up and gives up. -/
theorem phase3_no_room {fuel : Nat} (hlt : w.pos < data.length) :
    pcb.phase3 0 data copy more mem fuel w ≠ some (some w') := by
  induction fuel generalizing w with
  | zero => nofun
  | succ fuel ih =>
      intro hrun
      unfold phase3 at hrun
      rw [if_pos hlt] at hrun
      dsimp only at hrun
      have hseglen : (if data.length - w.pos > 0 then 0 else data.length - w.pos) = 0 := by
        split <;> omega
      rw [hseglen] at hrun
      split at hrun
      · split at hrun
        · cases hrun
        · split at hrun
          · refine ih ?_ hrun
            exact hlt
          · cases hrun
      · cases hrun

/-- One segment in front of what the rest of the loop prepares. -/
theorem Prepared.cons {base lbb k spare : Nat} {bufs : List SegmentBuf} {segs : List Segment}
    {w₁ : Writing} (h : Prepared base lbb limit data w₁ w' segs)
    (hlbb : pcb.sndLbb = seqAt base lbb) (hk : 0 < k) (hle : k ≤ limit)
    (hbytes : ((data.drop w.pos).take k).length = k)
    (hdata : bufs.flatMap SegmentBuf.data = (data.drop w.pos).take k) (hbufs : 1 ≤ bufs.length)
    (hfits : k + spare ≤ limit) (hspare : ∀ b ∈ bufs.getLast?, spare ≤ b.spare)
    (hqueuelen : w.queuelen + bufs.length ≤ tcpSndQueuelenMax)
    (hw₁ : w₁ = { w with
      pos := w.pos + k
      queuelen := w.queuelen + bufs.length
      oversize := spare
      queue := w.queue ++ [{ seqno := u32 (pcb.sndLbb + w.pos), len := k, bufs
                             syn := false, fin := false, psh := false, ack := false }]
      touched := true
      allocs := w₁.allocs }) :
    Prepared base lbb limit data w w'
      ({ seqno := u32 (pcb.sndLbb + w.pos), len := k, bufs
         syn := false, fin := false, psh := false, ack := false } :: segs) := by
  have hpos : w₁.pos = w.pos + k := by rw [hw₁]
  have hcount : w₁.queuelen = w.queuelen + bufs.length := by rw [hw₁]
  have hover : w₁.oversize = spare := by rw [hw₁]
  refine ⟨?_, ?_, ?_, ?_, ?_, ?_, ?_, ?_, nofun, ?_⟩
  · rw [h.queue, hw₁]
    simp
  · rw [h.used, hw₁]
  · rw [h.concatP, hw₁]
  · refine ⟨?_, ?_⟩
    · dsimp only
      rw [hlbb, u32_seqAt_add]
    · have hqueued := h.queued
      rw [hpos, ← Nat.add_assoc] at hqueued
      exact hqueued
  · rw [List.flatMap_cons, h.content, hpos, ← List.drop_drop]
    simp only [Segment.symbols, symbols, Segment.data, hdata, Bool.false_eq_true, if_false,
      List.append_nil]
    rw [← List.map_append, List.take_append_drop]
  · refine List.forall_mem_cons.mpr ⟨⟨?_, hle, ?_, rfl, ?_⟩, h.wf⟩
    · rw [Segment.data, hdata, hbytes]
    · exact hk
    · exact List.ne_nil_of_length_pos hbufs
  · rw [h.queuelen, hcount, pbufCount_cons, Nat.add_assoc]
  · intro _
    cases segs with
    | nil =>
        rw [h.queuelen, hcount, pbufCount_nil]
        exact hqueuelen
    | cons seg segs => exact h.queuelen_le (List.cons_ne_nil seg segs)
  · intro seg hseg
    cases segs with
    | nil =>
        obtain rfl := Option.some.inj hseg
        rw [h.none rfl, hover]
        exact ⟨hfits, hspare⟩
    | cons s segs =>
        rw [List.getLast?_cons_cons] at hseg
        exact h.last seg hseg

theorem phase3_spec {base lbb fuel : Nat} (hlbb : pcb.sndLbb = seqAt base lbb)
    (hpos : w.pos ≤ data.length) (hqueuelen : w.queuelen < 65000)
    (hover : w.pos < data.length → copy = false → w.oversize = 0)
    (hrun : pcb.phase3 limit data copy more mem fuel w = some (some w')) :
    ∃ segs, Prepared base lbb limit data w w' segs := by
  induction fuel generalizing w with
  | zero => cases hrun
  | succ fuel ih =>
      have hlimit : w.pos < data.length → 0 < limit := fun hlt =>
        Nat.pos_of_ne_zero fun hzero => phase3_no_room hlt (hzero ▸ hrun)
      unfold phase3 at hrun
      split at hrun
      next hlt =>
        dsimp only at hrun
        have hroom := hlimit hlt
        have hseglen : (if data.length - w.pos > limit then limit else data.length - w.pos) =
            min limit (data.length - w.pos) := by
          split <;> omega
        rw [hseglen] at hrun
        have hbytes : ((data.drop w.pos).take (min limit (data.length - w.pos))).length =
            min limit (data.length - w.pos) := by
          rw [List.length_take, List.length_drop]
          omega
        have hle := Nat.le_trans (Nat.le_of_eq hbytes) (Nat.min_le_left _ _)
        obtain ⟨bufs, requests, spare, heq, hdata, hone, htwo, hfits, hspare, hzero⟩ :=
          newBufs_spec hle (hover hlt) pcb more (decide (w.queue = []))
        rw [heq] at hrun
        dsimp only at hrun
        rw [hbytes] at hfits
        split at hrun
        next _ =>
          split at hrun
          next _ => cases hrun
          next hqueue =>
            split at hrun
            next _ =>
              have hmax : tcpSndQueuelenMax = 12 := rfl
              have hcount : u16 (w.queuelen + u8 bufs.length) = w.queuelen + bufs.length := by
                rw [u8_of_lt (by omega), u16_of_lt (by omega)]
              rw [hcount] at hrun hqueue
              obtain ⟨segs, hprep⟩ := ih (by dsimp only; omega) (by dsimp only; omega)
                (fun _ hc => hzero hc) hrun
              exact ⟨_, hprep.cons hlbb (by omega) (Nat.min_le_left _ _) hbytes hdata hone hfits hspare
                (by omega) rfl⟩
            next _ => cases hrun
        next _ => cases hrun
      next hge =>
        obtain rfl := Option.some.inj (Option.some.inj hrun)
        refine ⟨[], ?_, rfl, rfl, trivial, ?_, nofun, rfl, by simp, fun _ => rfl, nofun⟩
        · simp
        · rw [List.drop_of_length_le (by omega)]
          rfl

theorem phase3_returns {fuel : Nat} (hfuel : tcpSndQueuelenMax < w.queuelen + fuel)
    (hqueuelen : w.queuelen ≤ tcpSndQueuelenMax) :
    pcb.phase3 limit data copy more mem fuel w ≠ none := by
  induction fuel generalizing w with
  | zero => omega
  | succ fuel ih =>
      intro hrun
      unfold phase3 at hrun
      split at hrun
      · dsimp only at hrun
        generalize hnew : pcb.newBufs _ limit copy more _ w.oversize = new at hrun
        obtain ⟨bufs, requests, spare⟩ := new
        have hlength : 1 ≤ bufs.length ∧ bufs.length ≤ 2 := by
          unfold newBufs at hnew
          split at hnew
          all_goals
            obtain ⟨rfl, -⟩ := Prod.mk.inj hnew
            simp
        dsimp only at hrun
        split at hrun
        · split at hrun
          · cases hrun
          next hqueue =>
            split at hrun
            · have hmax : tcpSndQueuelenMax = 12 := rfl
              have hcount : u16 (w.queuelen + u8 bufs.length) = w.queuelen + bufs.length := by
                rw [u8_of_lt (by omega), u16_of_lt (by omega)]
              rw [hcount] at hrun hqueue
              refine ih ?_ ?_ hrun
              · dsimp only
                omega
              · dsimp only
                omega
            · cases hrun
        · cases hrun
      · cases hrun

end TcpPcb

end Meu1oARM
