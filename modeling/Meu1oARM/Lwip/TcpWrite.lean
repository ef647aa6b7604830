import Meu1oARM.Lwip.TcpWritePhases

/-! # What `tcp_write` and `tcp_send_fin` do to the queue

The data, or the FIN, stand at the end of the queue, and the counters agree with it; or
memory or the queue runs out, and nothing is committed.
-/

namespace Meu1oARM

open Machine Serial

namespace TcpPcb

variable {pcb : TcpPcb} {last : Segment} {data : List UInt8} {copy more : Bool} {mem : Nat → Bool}
  {w w' : Writing} {limit : Nat}

/-! ## The new queue -/

/-- A stream that grows by some bytes. -/
theorem symbols_append (written data : List UInt8) :
    symbols (written ++ data) false = symbols written false ++ data.map some := by
  simp [symbols]

/-- A queue that has grown at its end. -/
theorem sending_grow {g : Progress} {written : List UInt8} {fin : Bool}
    {more : List (Option UInt8)} {unsent : List Segment} {state : TcpState}
    {oversize queuelen lbb room : Nat} (h : Pending g pcb)
    (hstream : symbols written fin = pcb.stream g.written ++ more)
    (hwf : ∀ seg ∈ pcb.unacked ++ unsent, seg.Wf pcb.mssLocal)
    (hqueued : InSequence g.base g.start (pcb.unacked ++ unsent))
    (hcontent : (pcb.unacked ++ unsent).flatMap Segment.symbols =
      pcb.queue.flatMap Segment.symbols ++ more)
    (hhead : ∀ seg' ∈ (pcb.unacked ++ unsent).head?, ∀ seg ∈ pcb.queue.head?,
      seg.tcpLen ≤ seg'.tcpLen)
    (hlbb : fin = false → lbb = seqAt g.base written.length)
    (hroom_le : pcb.sndBuf ≤ room + more.length)
    (hroom_ge : room + more.length ≤ pcb.sndBuf + if fin then 1 else 0)
    (hqueuelen : queuelen = pbufCount (pcb.unacked ++ unsent))
    (hqueuelen_le : queuelen ≤ tcpSndQueuelenMax) (hnone : unsent = [] → oversize = 0)
    (hover : ∀ seg ∈ unsent.getLast?, seg.len + oversize ≤ pcb.mssLocal ∧
      ∀ b ∈ seg.bufs.getLast?, oversize ≤ b.spare)
    (hfin : pcb.finQueued = false) (hshut : fin = true → state ≠ .established ∧
      state ≠ .closeWait ∧ state ≠ .synSent ∧ state ≠ .synRcvd) :
    Pending { g with written }
      { pcb with
        state
        finQueued := fin
        unsent
        unsentOversize := oversize
        sndLbb := lbb
        sndBuf := room
        sndQueuelen := queuelen } := by
  have hlength : (symbols written fin).length = (pcb.stream g.written).length + more.length := by
    rw [hstream, List.length_append]
  have hnxt := h.nxt_le
  have hle := h.room_le
  have hge := h.room_ge
  have hstart : g.start ≤ (pcb.stream g.written).length :=
    Nat.le_trans h.start_le (Nat.le_trans h.una_le hnxt)
  rw [hfin] at hge
  simp only [Bool.false_eq_true, if_false] at hge
  refine
    { wf := hwf
      queued := hqueued
      content := ?content
      start_le := h.start_le
      head := ?head
      una_le := h.una_le
      sent := h.sent
      nxt_le := ?nxt_le
      lastack := h.lastack
      sndNxt := h.sndNxt
      sndLbb := hlbb
      room_le := ?room_le
      room_ge := ?room_ge
      queuelen := hqueuelen
      queuelen_le := hqueuelen_le
      oversize_none := hnone
      oversize := hover
      shut := hshut
      mss_pos := h.mss_pos
      mss_le := h.mss_le }
  case content =>
    change (pcb.unacked ++ unsent).flatMap Segment.symbols = (symbols written fin).drop g.start
    rw [hcontent, h.content, hstream, List.drop_append_of_le_length hstart]
  case head =>
    intro seg' hseg'
    change g.una < g.start + seg'.tcpLen
    cases hqueue : pcb.queue with
    | nil =>
        have hempty := h.extent_queue
        rw [hqueue, extent_nil] at hempty
        have hpos := (hwf seg' (List.mem_of_head? hseg')).pos
        have huna := h.una_le
        omega
    | cons seg segs =>
        have hseg : seg ∈ pcb.queue.head? := by
          rw [hqueue]
          rfl
        exact Nat.lt_of_lt_of_le (h.head seg hseg) (Nat.add_le_add_left (hhead seg' hseg' seg hseg) _)
  case nxt_le =>
    change g.nxt ≤ (symbols written fin).length
    omega
  case room_le =>
    change tcpSndBuf + g.una ≤ room + (symbols written fin).length
    omega
  case room_ge =>
    change room + (symbols written fin).length ≤ tcpSndBuf + g.una + if fin then 1 else 0
    omega

/-- A queue that has grown by data. -/
theorem sending_append {g : Progress} {unsent : List Segment} {oversize queuelen : Nat}
    (h : Pending g pcb) (hfin : pcb.finQueued = false) (hroom : data.length ≤ pcb.sndBuf)
    (hwf : ∀ seg ∈ pcb.unacked ++ unsent, seg.Wf pcb.mssLocal)
    (hqueued : InSequence g.base g.start (pcb.unacked ++ unsent))
    (hcontent : (pcb.unacked ++ unsent).flatMap Segment.symbols =
      pcb.queue.flatMap Segment.symbols ++ data.map some)
    (hhead : ∀ seg' ∈ (pcb.unacked ++ unsent).head?, ∀ seg ∈ pcb.queue.head?,
      seg.tcpLen ≤ seg'.tcpLen)
    (hqueuelen : queuelen = pbufCount (pcb.unacked ++ unsent))
    (hqueuelen_le : queuelen ≤ tcpSndQueuelenMax) (hnone : unsent = [] → oversize = 0)
    (hover : ∀ seg ∈ unsent.getLast?, seg.len + oversize ≤ pcb.mssLocal ∧
      ∀ b ∈ seg.bufs.getLast?, oversize ≤ b.spare) :
    Pending { g with written := g.written ++ data }
      { pcb with
        unsent
        unsentOversize := oversize
        sndLbb := u32 (pcb.sndLbb + data.length)
        sndBuf := pcb.sndBuf - data.length
        sndQueuelen := queuelen } := by
  have hstream : symbols (g.written ++ data) pcb.finQueued =
      pcb.stream g.written ++ data.map some := by
    rw [stream, hfin, symbols_append]
  refine sending_grow h hstream hwf hqueued hcontent hhead ?_ ?_ ?_ hqueuelen hqueuelen_le hnone
    hover hfin h.shut
  · intro _
    rw [h.sndLbb hfin, u32_seqAt_add, List.length_append]
  · rw [List.length_map]
    omega
  · rw [List.length_map]
    omega

/-- The last unsent segment with some of the data behind it. -/
theorem Extended.wf (hext : Extended pcb limit last data copy w) (hlast : last.Wf limit) :
    (extendLast last data w).Wf limit := by
  have hpos := hext.pos_le
  have hfits := hext.fits
  refine ⟨?_, by omega, ?_, hlast.syn, ?_⟩
  · rw [hext.len, hext.appended, List.length_append, hlast.len, List.length_take]
    omega
  · have hlen := hlast.pos
    have hmore := hext.len
    unfold Segment.tcpLen at hlen ⊢
    rw [hmore]
    change 0 < last.len + w.pos + if last.fin || last.syn then 1 else 0
    omega
  · exact List.ne_nil_of_length_pos
      (Nat.lt_of_lt_of_le (List.length_pos_iff.mpr hlast.bufs) hext.bufs)

/-- What a `tcp_write` that succeeds leaves where a segment was waiting to be sent, but for the
flags of a header. -/
theorem sending_write {g : Progress} {init segs : List Segment} (h : Pending g pcb)
    (hfin : pcb.finQueued = false) (hunsent : pcb.unsent = init ++ [last])
    (hext : Extended pcb pcb.mssLocal last data copy w) (hroom : data.length ≤ pcb.sndBuf)
    (hprep : Prepared g.base g.written.length pcb.mssLocal data w w' segs)
    (hqueuelen : w'.queuelen ≤ tcpSndQueuelenMax) :
    Pending { g with written := g.written ++ data }
      { pcb with
        unsent := init ++ [extendLast last data w] ++ segs
        unsentOversize := w'.oversize
        sndLbb := u32 (pcb.sndLbb + data.length)
        sndBuf := pcb.sndBuf - data.length
        sndQueuelen := w'.queuelen } := by
  have hqueue : pcb.queue = pcb.unacked ++ init ++ [last] := by
    rw [queue, hunsent, List.append_assoc]
  have hqueue' : pcb.unacked ++ (init ++ [extendLast last data w] ++ segs) =
      pcb.unacked ++ init ++ [extendLast last data w] ++ segs := by
    simp only [List.append_assoc]
  have hmem : last ∈ pcb.queue := by simp [hqueue]
  have hlastfin : last.fin = false := h.fin_eq_false hfin hmem
  have hsymbols : (extendLast last data w).symbols =
      last.symbols ++ (data.take w.pos).map some := by
    have hfin' : (extendLast last data w).fin = false := hlastfin
    rw [Segment.symbols, Segment.symbols, hfin', hlastfin, hext.appended, symbols_append]
  have hold := h.wf
  have hqueued := h.queued
  have hcontent := h.content
  have hcount := h.queuelen
  have hextent := h.extent_queue
  rw [hqueue] at hold hqueued hcount hextent
  rw [InSequence.append_iff] at hqueued
  refine sending_append h hfin hroom ?_ ?_ ?_ ?_ ?_ hqueuelen (by simp) ?_
  · rw [hqueue']
    intro seg hseg
    rcases List.mem_append.mp hseg with hseg | hseg
    · rcases List.mem_append.mp hseg with hseg | hseg
      · exact hold seg (List.mem_append_left _ hseg)
      · obtain rfl := List.mem_singleton.mp hseg
        exact hext.wf (h.wf last hmem)
    · exact hprep.wf seg hseg
  · rw [hqueue', List.append_assoc, InSequence.append_iff]
    refine ⟨hqueued.1, ?_, ?_⟩
    · exact hqueued.2.1
    · have hlen : (extendLast last data w).tcpLen = last.tcpLen + w.pos := by
        have hlen := hext.len
        unfold Segment.tcpLen
        rw [hlen]
        change last.len + w.pos + (if last.fin || last.syn then 1 else 0) = _
        omega
      have hend : g.start + extent (pcb.unacked ++ init) + last.tcpLen = g.written.length := by
        have hle := h.start_le
        have hle' := h.una_le
        have hle'' := h.nxt_le
        rw [stream, hfin] at hextent hle''
        simp only [extent_append, extent_cons, extent_nil, symbols, List.length_append,
          List.length_map, Bool.false_eq_true, if_false, List.length_nil] at hextent hle'' ⊢
        omega
      rw [hlen, ← Nat.add_assoc, hend]
      exact hprep.queued
  · rw [hqueue', hqueue]
    simp only [List.flatMap_append, List.flatMap_cons, List.flatMap_nil, List.append_nil,
      hsymbols, hprep.content, List.append_assoc]
    rw [← List.map_append, List.take_append_drop]
  · rw [hqueue', hqueue]
    intro seg' hseg' seg hseg
    cases hpre : pcb.unacked ++ init with
    | nil =>
        rw [hpre] at hseg hseg'
        obtain rfl := Option.some.inj hseg
        obtain rfl := Option.some.inj hseg'
        have hlen := hext.len
        unfold Segment.tcpLen
        rw [hlen]
        exact Nat.add_le_add_right (Nat.le_add_right _ _) _
    | cons s ss =>
        rw [hpre] at hseg hseg'
        obtain rfl := Option.some.inj hseg
        obtain rfl := Option.some.inj hseg'
        exact Nat.le_refl _
  · have hbufs := hext.queuelen
    have hrest := hprep.queuelen
    rw [hqueue']
    simp only [pbufCount_append, pbufCount_cons, pbufCount_nil] at hcount ⊢
    omega
  · intro seg hseg
    cases hsegs : segs.getLast? with
    | none =>
        obtain rfl := List.getLast?_eq_none_iff.mp hsegs
        rw [List.append_nil, List.getLast?_concat] at hseg
        obtain rfl := Option.some.inj hseg
        rw [hprep.none rfl]
        exact ⟨hext.fits, hext.spare⟩
    | some s =>
        rw [List.getLast?_append, hsegs] at hseg
        obtain rfl := Option.some.inj hseg
        exact hprep.last s hsegs

/-- What a `tcp_write` that succeeds leaves where no segment was waiting. -/
theorem sending_write_nil {g : Progress} {segs : List Segment} (h : Pending g pcb)
    (hfin : pcb.finQueued = false) (hunsent : pcb.unsent = []) (hroom : data.length ≤ pcb.sndBuf)
    (hpos : w.pos = 0) (hover : w.oversize = 0) (hcount : w.queuelen = pcb.sndQueuelen)
    (hprep : Prepared g.base g.written.length pcb.mssLocal data w w' segs)
    (hqueuelen : w'.queuelen ≤ tcpSndQueuelenMax) :
    Pending { g with written := g.written ++ data }
      { pcb with
        unsent := segs
        unsentOversize := w'.oversize
        sndLbb := u32 (pcb.sndLbb + data.length)
        sndBuf := pcb.sndBuf - data.length
        sndQueuelen := w'.queuelen } := by
  have hqueue : pcb.queue = pcb.unacked := by rw [queue, hunsent, List.append_nil]
  have hold := h.wf
  have hqueued := h.queued
  have hlen := h.queuelen
  have hextent := h.extent_queue
  rw [hqueue] at hold hqueued hlen hextent
  refine sending_append h hfin hroom ?_ ?_ ?_ ?_ ?_ hqueuelen ?_ hprep.last
  · exact List.forall_mem_append.mpr ⟨hold, hprep.wf⟩
  · have hend : g.start + extent pcb.unacked = g.written.length + w.pos := by
      have hle := h.start_le
      have hle' := h.una_le
      have hle'' := h.nxt_le
      rw [stream, hfin] at hextent hle''
      simp only [symbols, List.length_append, List.length_map, Bool.false_eq_true, if_false,
        List.length_nil] at hextent hle''
      omega
    exact InSequence.append_iff.mpr ⟨hqueued, hend ▸ hprep.queued⟩
  · rw [hqueue, List.flatMap_append, hprep.content, hpos, List.drop_zero]
  · rw [hqueue]
    intro seg' hseg' seg hseg
    cases hpre : pcb.unacked with
    | nil =>
        rw [hpre] at hseg
        cases hseg
    | cons s ss =>
        rw [hpre] at hseg hseg'
        obtain rfl := Option.some.inj hseg
        obtain rfl := Option.some.inj hseg'
        exact Nat.le_refl _
  · rw [pbufCount_append, hprep.queuelen, hcount, hlen]
  · intro hnil
    rw [hprep.none hnil, hover]

/-! ## The whole function -/

theorem tcpWriteChecks_spec {g : Progress} (h : Pending g pcb) (len : Nat) :
    pcb.tcpWriteChecks len = (.ok, pcb) ∧ pcb.finQueued = false ∧ len ≤ pcb.sndBuf ∧
        pcb.sndQueuelen + min 1 len ≤ tcpSndQueuelenMax ∨
      ∃ err memErr, err ≠ .ok ∧
        pcb.tcpWriteChecks len = (err, { pcb with nagleMemErr := memErr }) := by
  have hmax : tcpSndQueuelenMax = 12 := rfl
  have hle := h.queuelen_le
  unfold tcpWriteChecks
  split
  next _ => exact .inr ⟨.conn, pcb.nagleMemErr, by decide, rfl⟩
  next hstate =>
    have hfin : pcb.finQueued = false :=
      Bool.eq_false_iff.mpr fun hfin => hstate (h.shut hfin)
    split
    next hzero => exact .inl ⟨rfl, hfin, by omega, by omega⟩
    next _ =>
      split
      next _ => exact .inr ⟨.mem, true, by decide, rfl⟩
      next hbuf =>
        split
        next _ => exact .inr ⟨.mem, true, by decide, rfl⟩
        next hqueue =>
          refine .inl ⟨?_, hfin, by omega, by omega⟩
          split
          next hne =>
            rw [Prod.mk.injEq]
            refine ⟨rfl, check_of ?_ pcb⟩
            rw [decide_eq_true_eq, ← Decidable.not_and_iff_not_or_not, ← h.queuelen_eq_zero]
            exact hne
          next heq =>
            rw [Prod.mk.injEq]
            refine ⟨rfl, check_of ?_ pcb⟩
            rw [decide_eq_true_eq, ← h.queuelen_eq_zero]
            exact Decidable.not_not.mp heq

theorem outOfMemory_eq {g : Progress} (h : Pending g pcb) :
    pcb.outOfMemory = { pcb with nagleMemErr := true } :=
  (h.congr rfl : Pending g { pcb with nagleMemErr := true }).toHolding.check_queuelen

theorem map_core_mapLast {f : Segment → Segment} (hf : ∀ seg, (f seg).core = seg.core)
    (segs : List Segment) : (mapLast f segs).map Segment.core = segs.map Segment.core := by
  rcases List.eq_nil_or_concat segs with rfl | ⟨init, seg, rfl⟩
  · rfl
  · rw [List.concat_eq_append, mapLast_concat, List.map_append, List.map_append]
    simp [hf]

/-- What is committed is what the phases have prepared. -/
theorem commit_spec {g' : Progress} {unsent : List Segment} (h : Pending g' { pcb with
      unsent
      unsentOversize := w.oversize
      sndLbb := u32 (pcb.sndLbb + data.length)
      sndBuf := pcb.sndBuf - data.length
      sndQueuelen := w.queuelen })
    (hunsent : mapLast (extendLast · data w) pcb.unsent ++ w.queue = unsent) :
    Pending g' (pcb.commit data more w) ∧ (pcb.commit data more w) = { pcb with
      unsent := (pcb.commit data more w).unsent
      unsentOversize := w.oversize
      sndLbb := u32 (pcb.sndLbb + data.length)
      sndBuf := pcb.sndBuf - data.length
      sndQueuelen := w.queuelen } := by
  obtain rfl := hunsent
  have hpsh : Pending g' { pcb with
      unsent :=
        if w.touched ∧ more = false then
          mapLast ({ · with psh := true }) (mapLast (extendLast · data w) pcb.unsent ++ w.queue)
        else mapLast (extendLast · data w) pcb.unsent ++ w.queue
      unsentOversize := w.oversize
      sndLbb := u32 (pcb.sndLbb + data.length)
      sndBuf := pcb.sndBuf - data.length
      sndQueuelen := w.queuelen } := by
    have hcore : ∀ segs : List Segment,
        (if w.touched ∧ more = false then mapLast ({ · with psh := true }) segs else segs).map
          Segment.core = segs.map Segment.core := by
      intro segs
      split
      · rw [map_core_mapLast]
        intro _
        rfl
      · rfl
    apply h.congr
    simp only [sendView, hcore]
  have heq := hpsh.toHolding.check_queuelen
  unfold commit
  dsimp only at heq ⊢
  rw [heq]
  exact ⟨hpsh, rfl⟩

/-- What a call of `tcp_write` leads to: everything is enqueued, or nothing is. -/
inductive WriteResult (g : Progress) (pcb : TcpPcb) (data : List UInt8) : Err × TcpPcb → Prop
  | error {err : Err} {memErr : Bool} (hne : err ≠ .ok) :
      WriteResult g pcb data (err, { pcb with nagleMemErr := memErr })
  | done {pcb' : TcpPcb} {unsent : List Segment} {oversize queuelen : Nat}
      (hfin : pcb.finQueued = false) (hroom : data.length ≤ pcb.sndBuf)
      (h : Pending { g with written := g.written ++ data } pcb')
      (hframe : pcb' = { pcb with
        unsent
        unsentOversize := oversize
        sndLbb := u32 (pcb.sndLbb + data.length)
        sndBuf := pcb.sndBuf - data.length
        sndQueuelen := queuelen }) :
      WriteResult g pcb data (.ok, pcb')

theorem writeSegments_spec {g : Progress} (h : Pending g pcb) (hfin : pcb.finQueued = false)
    (hroom : data.length ≤ pcb.sndBuf) (hpos : w.pos ≤ data.length)
    (hover : w.pos < data.length → copy = false → w.oversize = 0)
    (hqueuelen : w.queuelen ≤ tcpSndQueuelenMax)
    (hnew : ∀ w' segs, Prepared g.base g.written.length pcb.mssLocal data w w' segs →
      w'.queuelen ≤ tcpSndQueuelenMax →
      Pending { g with written := g.written ++ data } { pcb with
        unsent := mapLast (extendLast · data w') pcb.unsent ++ w'.queue
        unsentOversize := w'.oversize
        sndLbb := u32 (pcb.sndLbb + data.length)
        sndBuf := pcb.sndBuf - data.length
        sndQueuelen := w'.queuelen }) :
    WriteResult g pcb data (pcb.writeSegments pcb.mssLocal data copy more mem w) := by
  have hmax : tcpSndQueuelenMax = 12 := rfl
  have hcheck : (if w.pos < data.length ∧ copy = false then pcb.check (w.oversize = 0) else pcb) =
      pcb :=
    ite_eq_right_iff.mpr fun hcopy => check_of (by simp [hover hcopy.1 hcopy.2]) pcb
  unfold writeSegments
  dsimp only
  rw [hcheck]
  split
  next hrun => exact absurd hrun (phase3_returns (by omega) hqueuelen)
  next _ =>
    rw [outOfMemory_eq h]
    exact .error (by decide)
  next w' hrun =>
    obtain ⟨segs, hprep⟩ := phase3_spec (h.sndLbb hfin) hpos (by omega) hover hrun
    have hcount : w'.queuelen ≤ tcpSndQueuelenMax := by
      cases segs with
      | nil => exact hprep.queuelen ▸ hqueuelen
      | cons seg segs => exact hprep.queuelen_le (List.cons_ne_nil seg segs)
    obtain ⟨hsending, hframe⟩ := commit_spec (hnew w' segs hprep hcount) rfl
    exact .done hfin hroom hsending hframe

theorem tcpWrite_spec {g : Progress} (h : Pending g pcb) (data : List UInt8) (copy more : Bool)
    (mem : Nat → Bool) : WriteResult g pcb data (pcb.tcpWrite data copy more mem) := by
  have hmss := h.mssLocal_le
  have hmax : tcpMss = 1460 := rfl
  unfold tcpWrite
  rcases tcpWriteChecks_spec h data.length with ⟨hok, hfin, hroom, hqueuelen⟩ | ⟨err, memErr, hne, herr⟩
  · rw [hok]
    dsimp only
    rw [show min pcb.mss (pcb.sndWndMax / 2) = pcb.mssLocal from rfl]
    have hcheck : (if pcb.unsent = [] then pcb.check (pcb.unsentOversize = 0) else pcb) = pcb :=
      ite_eq_right_iff.mpr fun hnil => check_of (by simp [h.oversize_none hnil]) pcb
    rw [hcheck]
    rcases List.eq_nil_or_concat pcb.unsent with hunsent | ⟨init, last, hunsent⟩
    · have hlast : pcb.unsent.getLast? = none := by rw [hunsent, List.getLast?_nil]
      unfold writeBehind
      rw [hlast]
      refine writeSegments_spec h hfin hroom (Nat.zero_le _) (fun _ _ => rfl)
        (Nat.le_trans (Nat.le_add_right _ _) hqueuelen) ?_
      intro w' segs hprep hcount
      have hqueue : mapLast (extendLast · data w') pcb.unsent ++ w'.queue = segs := by
        rw [hunsent, mapLast_nil, hprep.queue]
        rfl
      rw [hqueue]
      exact sending_write_nil h hfin hunsent hroom rfl rfl rfl hprep hcount
    · rw [List.concat_eq_append] at hunsent
      have hlast : pcb.unsent.getLast? = some last := by rw [hunsent, List.getLast?_concat]
      have hwf := h.wf last (List.mem_append_right _ (List.mem_of_getLast? hlast))
      obtain ⟨hfits, hspare⟩ := h.oversize last hlast
      split
      next _ =>
        rw [outOfMemory_eq h]
        exact .error (by decide)
      next w hrun =>
        unfold writeBehind at hrun
        rw [hlast] at hrun
        have hext : Extended pcb pcb.mssLocal last data copy w :=
          phase2_extended hfits (by omega) hspare hwf.bufs hwf.syn h.queuelen_le hrun
        refine writeSegments_spec h hfin hroom hext.pos_le hext.rest
          (Nat.le_trans hext.queuelen_le hqueuelen) ?_
        intro w' segs hprep hcount
        have hqueue : mapLast (extendLast · data w') pcb.unsent ++ w'.queue =
            init ++ [extendLast last data w] ++ segs := by
          rw [hunsent, mapLast_concat, hprep.queue, hext.queue, List.nil_append]
          simp only [extendLast, hprep.used, hprep.concatP]
        rw [hqueue]
        exact sending_write h hfin hunsent hext hroom hprep hcount
  · rw [herr]
    split
    next heq => exact absurd (Prod.mk.inj heq).1 hne
    next heq =>
      obtain ⟨rfl, rfl⟩ := Prod.mk.inj heq
      exact .error hne

/-! ## The FIN -/

/-- The states in which nothing more can be written. -/
def Shut (state : TcpState) : Prop :=
  state ≠ .established ∧ state ≠ .closeWait ∧ state ≠ .synSent ∧ state ≠ .synRcvd

/-- A FIN is on the queue, in the state that the connection is about to enter, or nothing is. -/
inductive FinResult (g : Progress) (pcb : TcpPcb) : Err × TcpPcb → Prop
  | error {err : Err} {memErr : Bool} (hne : err ≠ .ok) :
      FinResult g pcb (err, { pcb with nagleMemErr := memErr })
  | done {pcb' : TcpPcb} {unsent : List Segment} {oversize queuelen lbb room : Nat}
      (h : ∀ state, Shut state → Pending g { pcb' with state })
      (hframe : pcb' = { pcb with
        finQueued := true
        unsent
        unsentOversize := oversize
        sndLbb := lbb
        sndBuf := room
        sndQueuelen := queuelen }) :
      FinResult g pcb (.ok, pcb')

theorem symbols_fin (written : List UInt8) :
    symbols written true = symbols written false ++ [none] := by
  simp [symbols]

theorem tcpEnqueueFlags_spec {g : Progress} (h : Pending g pcb) (hfin : pcb.finQueued = false)
    (mem : Nat → Bool) : FinResult g pcb (pcb.tcpEnqueueFlags false true mem) := by
  have hmax : tcpSndQueuelenMax = 12 := rfl
  unfold tcpEnqueueFlags
  rw [Bool.or_true, check_true]
  dsimp only
  split
  next _ => exact .error (by decide)
  next hqueue =>
    split
    next _ =>
      exact (FinResult.error (by decide) : FinResult g pcb (.mem, { pcb with
        nagleMemErr := pcb.nagleMemErr }))
    next hroom =>
      split
      next _ => exact .error (by decide)
      next _ =>
        generalize hseg : ({ seqno := pcb.sndLbb, len := 0, bufs := [{ data := [], spare := 0 }]
                             syn := false, fin := true, psh := false, ack := false } : Segment) = seg
        have hbufs : seg.bufs.length = 1 := by rw [← hseg]; rfl
        have hlen : seg.tcpLen = 1 := by rw [← hseg]; rfl
        have hcount : u16 (pcb.sndQueuelen + seg.clen) = pcb.sndQueuelen + 1 := by
          rw [Segment.clen, hbufs, u8_of_lt (by decide), u16_of_lt (by omega)]
        have hall : pcb.unacked ++ (pcb.unsent ++ [seg]) = pcb.queue ++ [seg] :=
          (List.append_assoc _ _ _).symm
        have hnew : ∀ state, Shut state → Pending g { pcb with
            state
            finQueued := true
            unsent := pcb.unsent ++ [seg]
            unsentOversize := 0
            sndLbb := u32 (pcb.sndLbb + 1)
            sndBuf := pcb.sndBuf - 1
            sndQueuelen := pcb.sndQueuelen + 1 } := by
          intro state hstate
          have hstream : symbols g.written true = pcb.stream g.written ++ [none] := by
            rw [symbols_fin, stream, hfin]
          refine sending_grow h hstream ?_ ?_ ?_ ?_ (fun hne => Bool.noConfusion hne) ?_ ?_ ?_ ?_
            (by simp) ?_ hfin (fun _ => hstate)
          · rw [hall]
            refine List.forall_mem_append.mpr ⟨h.wf, ?_⟩
            rw [List.forall_mem_singleton, ← hseg]
            exact ⟨rfl, Nat.zero_le _, Nat.one_pos, rfl, List.cons_ne_nil _ _⟩
          · rw [hall, InSequence.append_iff]
            refine ⟨h.queued, ?_, trivial⟩
            have hend : g.start + extent pcb.queue = g.written.length := by
              have hle := Nat.le_trans h.start_le (Nat.le_trans h.una_le h.nxt_le)
              rw [h.extent_queue]
              rw [stream, hfin] at hle ⊢
              simp only [symbols, List.length_append, List.length_map, Bool.false_eq_true, if_false,
                List.length_nil] at hle ⊢
              omega
            rw [hend, ← h.sndLbb hfin, ← hseg]
          · rw [hall, List.flatMap_append, ← hseg]
            rfl
          · rw [hall]
            intro seg' hseg' s hs
            rw [List.head?_append, Option.mem_def.mp hs] at hseg'
            obtain rfl := Option.some.inj hseg'
            exact Nat.le_refl _
          · rw [List.length_singleton]
            omega
          · rw [List.length_singleton, if_pos rfl]
            omega
          · rw [hall, pbufCount_append, h.queuelen, pbufCount_cons, hbufs, pbufCount_nil]
          · omega
          · intro s hs
            rw [List.getLast?_concat] at hs
            obtain rfl := Option.some.inj hs
            rw [← hseg]
            exact ⟨Nat.zero_le _, fun b _ => Nat.zero_le _⟩
        rw [hcount]
        simp only [Bool.or_true, if_true]
        rw [if_pos (Nat.succ_ne_zero _), check_of (by simp)]
        exact .done hnew rfl

theorem tcpSendFin_spec {g : Progress} (h : Pending g pcb) (hfin : pcb.finQueued = false)
    (mem : Nat → Bool) : FinResult g pcb (pcb.tcpSendFin mem) := by
  unfold tcpSendFin
  rcases List.eq_nil_or_concat pcb.unsent with hunsent | ⟨init, last, hunsent⟩
  · rw [hunsent, List.getLast?_nil]
    exact tcpEnqueueFlags_spec h hfin mem
  · rw [List.concat_eq_append] at hunsent
    have hlast : pcb.unsent.getLast? = some last := by rw [hunsent, List.getLast?_concat]
    rw [hlast]
    dsimp only
    split
    next hflags =>
      refine .done ?_ rfl
      intro state hstate
      change Pending g { pcb with
        state
        finQueued := true
        unsent := mapLast ({ · with fin := true }) pcb.unsent }
      have hqueue : pcb.queue = pcb.unacked ++ init ++ [last] := by
        rw [queue, hunsent, List.append_assoc]
      have hall : pcb.unacked ++ mapLast ({ · with fin := true }) pcb.unsent =
          pcb.unacked ++ init ++ [{ last with fin := true }] := by
        rw [hunsent, mapLast_concat, List.append_assoc]
      have hstream : symbols g.written true = pcb.stream g.written ++ [none] := by
        rw [symbols_fin, stream, hfin]
      have hold := h.wf
      have hqueued := h.queued
      rw [hqueue] at hold hqueued
      rw [InSequence.append_iff] at hqueued
      refine sending_grow h hstream ?_ ?_ ?_ ?_ (fun hne => Bool.noConfusion hne) ?_ ?_ ?_
        h.queuelen_le ?_ ?_ hfin (fun _ => hstate)
      · rw [hall]
        obtain ⟨hinit, hlastwf⟩ := List.forall_mem_append.mp hold
        rw [List.forall_mem_singleton] at hlastwf
        refine List.forall_mem_append.mpr ⟨hinit, ?_⟩
        rw [List.forall_mem_singleton]
        exact ⟨hlastwf.len, hlastwf.le, Nat.succ_pos _, hlastwf.syn, hlastwf.bufs⟩
      · rw [hall, InSequence.append_iff]
        exact ⟨hqueued.1, hqueued.2.1, trivial⟩
      · rw [hall, hqueue]
        simp only [List.flatMap_append, List.flatMap_cons, List.flatMap_nil, List.append_nil,
          List.append_assoc, Segment.symbols, hflags.2, symbols_fin]
        rfl
      · rw [hall, hqueue]
        intro seg' hseg' seg hseg
        cases hpre : pcb.unacked ++ init with
        | nil =>
            rw [hpre] at hseg hseg'
            obtain rfl := Option.some.inj hseg
            obtain rfl := Option.some.inj hseg'
            rw [Segment.tcpLen, hflags.1, hflags.2]
            exact Nat.le_succ _
        | cons s ss =>
            rw [hpre] at hseg hseg'
            obtain rfl := Option.some.inj hseg
            obtain rfl := Option.some.inj hseg'
            exact Nat.le_refl _
      · exact Nat.le_succ _
      · exact Nat.le_refl _
      · rw [hall, h.queuelen, hqueue]
        simp only [pbufCount_append, pbufCount_cons, pbufCount_nil]
      · rw [hunsent, mapLast_concat]
        simp
      · intro seg hseg
        rw [hunsent, mapLast_concat, List.getLast?_concat] at hseg
        obtain rfl := Option.some.inj hseg
        exact h.oversize last hlast
    next _ => exact tcpEnqueueFlags_spec h hfin mem

end TcpPcb

end Meu1oARM
