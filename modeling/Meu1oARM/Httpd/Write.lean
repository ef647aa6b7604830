import Mathlib.Algebra.Group.Nat.Defs
import Meu1oARM.Httpd.State

/-! # `http_write`

`http_write` tries smaller and smaller lengths until `tcp_write` accepts one.
-/

namespace Meu1oARM

open Machine CString

/-- The loop of `http_write`. The length at least halves from one attempt to the next, so
the first length is fuel enough. -/
def httpWriteLoop (o : Oracle) (src : Src) (off : Nat) (ptr : Mem) :
    Nat → Nat → Pcb → Err × Nat × Pcb
  | 0, len, pcb => (.mem, len, pcb)
  | fuel + 1, len, pcb =>
    let (err, pcb) := tcpWrite o pcb src off ptr len
    if err = .mem then
      let len :=
        if pcb.sndBuf = 0 ∨ tcpSndQueuelenMax ≤ pcb.sndQueuelen.toNat then 1 else len / 2
      if 1 < len then httpWriteLoop o src off ptr fuel len pcb else (err, len, pcb)
    else (err, len, pcb)

/-- `http_write`: the error, the length reported back in `*length`, and the control block. -/
def httpWrite (o : Oracle) (pcb : Pcb) (src : Src) (off : Nat) (ptr : Mem) (len : Nat) :
    Err × Nat × Pcb :=
  if len = 0 then (.ok, len, pcb) else httpWriteLoop o src off ptr len len pcb

/-- What a write of at most `len` bytes of `ptr` has done: it enqueued a first part of them,
which is empty only if nothing was asked for, or nothing. -/
structure Wrote (pcb : Pcb) (ptr : Mem) (len : Nat) (result : Err × Nat × Pcb) : Prop where
  sends : pcb.Sends result.2.2
  inserts : tagInserts result.2.2.trace = tagInserts pcb.trace
  length_le : result.1 = .ok → result.2.1 ≤ len
  length_pos : result.1 = .ok → 0 < len → 0 < result.2.1
  bytes_eq : result.1 = .ok →
    enqueued result.2.2.trace = enqueued pcb.trace ++ bytes ptr result.2.1
  refused : result.1 ≠ .ok → enqueued result.2.2.trace = enqueued pcb.trace

/-- `tcp_write` takes all of the data or none of it. -/
theorem tcpWrite_wrote (o : Oracle) {pcb : Pcb} (hopen : pcb.status = .opened) (src : Src)
    (off : Nat) (ptr : Mem) (len : Nat) :
    Wrote pcb ptr len ((tcpWrite o pcb src off ptr len).1, len, (tcpWrite o pcb src off ptr len).2) := by
  simp only [tcpWrite, Pcb.touch_of_opened hopen]
  generalize (if o.write pcb.writes = .ok ∧ pcb.sndBuf.toNat < len then Err.mem
    else o.write pcb.writes) = verdict
  by_cases hok : verdict = .ok
  · simp only [hok, if_true]
    refine ⟨⟨[_], ?_, rfl⟩, ?_, ?_, ?_, ?_, ?_⟩ <;>
      simp [Action.isSending, tagInserts, Action.insertAt, Action.sentBytes]
  · simp only [hok, if_false]
    refine ⟨⟨[_], ?_, rfl⟩, ?_, ?_, ?_, ?_, ?_⟩ <;>
      simp [Action.isSending, tagInserts, Action.insertAt, Action.sentBytes, hok]

theorem httpWriteLoop_wrote (o : Oracle) (src : Src) (off : Nat) (ptr : Mem) (fuel len : Nat)
    {pcb : Pcb} (hopen : pcb.status = .opened) (hlen : 0 < len) :
    Wrote pcb ptr len (httpWriteLoop o src off ptr fuel len pcb) := by
  induction fuel generalizing len pcb with
  | zero => exact ⟨.refl pcb, rfl, nofun, nofun, nofun, fun _ => rfl⟩
  | succ fuel ih =>
      have hone := tcpWrite_wrote o hopen src off ptr len
      simp only [httpWriteLoop]
      rcases hwrite : tcpWrite o pcb src off ptr len with ⟨err, next⟩
      rw [hwrite] at hone
      have hstatus : next.status = .opened := hone.sends.status_eq.trans hopen
      by_cases hmem : err = .mem
      · subst hmem
        simp only [if_true]
        generalize hshorter : (if next.sndBuf = 0 ∨ tcpSndQueuelenMax ≤ next.sndQueuelen.toNat
          then 1 else len / 2) = shorter
        split
        next hmore =>
          have hle : shorter ≤ len := by
            rw [← hshorter]
            split <;> omega
          have hrest := ih shorter hstatus (by omega)
          have hrefused := hone.refused nofun
          exact ⟨hone.sends.trans hrest.sends, hrest.inserts.trans hone.inserts,
            fun hok => Nat.le_trans (hrest.length_le hok) hle,
            fun hok _ => hrest.length_pos hok (by omega),
            fun hok => (hrest.bytes_eq hok).trans (by rw [hrefused]),
            fun hno => (hrest.refused hno).trans hrefused⟩
        next =>
          exact ⟨hone.sends, hone.inserts, nofun, nofun, nofun, hone.refused⟩
      · simpa [hmem] using hone

theorem httpWriteLoop_length_le (o : Oracle) (src : Src) (off : Nat) (ptr : Mem)
    (fuel len : Nat) (pcb : Pcb) (hlen : 0 < len) :
    (httpWriteLoop o src off ptr fuel len pcb).2.1 ≤ len := by
  induction fuel generalizing len pcb with
  | zero => exact Nat.le_refl len
  | succ fuel ih =>
      simp only [httpWriteLoop]
      rcases tcpWrite o pcb src off ptr len with ⟨err, next⟩
      dsimp only
      split
      next =>
        generalize hshorter : (if next.sndBuf = 0 ∨ tcpSndQueuelenMax ≤ next.sndQueuelen.toNat
          then 1 else len / 2) = shorter
        have hle : shorter ≤ len := by
          rw [← hshorter]
          split <;> omega
        split
        next hmore => exact Nat.le_trans (ih shorter next (by omega)) hle
        next => exact hle
      next => exact Nat.le_refl len

/-- Refused or not, the length never grows. -/
theorem httpWrite_length_le (o : Oracle) (pcb : Pcb) (src : Src) (off : Nat) (ptr : Mem)
    (len : Nat) : (httpWrite o pcb src off ptr len).2.1 ≤ len := by
  unfold httpWrite
  split
  next => exact Nat.le_refl len
  next hpos => exact httpWriteLoop_length_le o src off ptr len len pcb (Nat.pos_of_ne_zero hpos)

/-- The specification of `http_write`. -/
theorem httpWrite_wrote (o : Oracle) {pcb : Pcb} (hopen : pcb.status = .opened) (src : Src)
    (off : Nat) (ptr : Mem) (len : Nat) :
    Wrote pcb ptr len (httpWrite o pcb src off ptr len) := by
  unfold httpWrite
  split
  next hzero =>
    subst hzero
    exact ⟨.refl pcb, rfl, fun _ => Nat.le_refl _, fun _ h => h, fun _ => by simp, fun _ => rfl⟩
  next hpos => exact httpWriteLoop_wrote o src off ptr len len hopen (Nat.pos_of_ne_zero hpos)

/-- The fuel of the loop is never used up: it ends at one of the two exits of the source. -/
theorem httpWriteLoop_fuel (o : Oracle) (src : Src) (off : Nat) (ptr : Mem) (fuel more len : Nat)
    (pcb : Pcb) (hpos : 0 < len) (hfuel : len ≤ fuel) :
    httpWriteLoop o src off ptr (fuel + more) len pcb =
      httpWriteLoop o src off ptr fuel len pcb := by
  induction fuel generalizing len pcb with
  | zero => omega
  | succ fuel ih =>
      rw [Nat.add_right_comm]
      simp only [httpWriteLoop]
      rcases tcpWrite o pcb src off ptr len with ⟨err, next⟩
      by_cases hmem : err = .mem
      · simp only [hmem, if_true]
        generalize hshorter : (if next.sndBuf = 0 ∨ tcpSndQueuelenMax ≤ next.sndQueuelen.toNat
          then 1 else len / 2) = shorter
        split
        next hmore =>
          have hle : shorter ≤ fuel := by
            split at hshorter <;> omega
          exact ih shorter next (by omega) hle
        next => rfl
      · simp [hmem]

/-! ## The calls of `tcp_write` -/

/-- A call of `tcp_write`: the length it was asked for and its answer. -/
def Action.tcpWriteCall : Action → Option (Nat × Err)
  | .write _ _ data => some (data.length, .ok)
  | .refused len err => some (len, err)
  | _ => none

/-- The calls of `tcp_write` on a connection. -/
def tcpWrites (trace : List Action) : List (Nat × Err) := trace.filterMap Action.tcpWriteCall

@[simp] theorem tcpWrites_append (s t : List Action) :
    tcpWrites (s ++ t) = tcpWrites s ++ tcpWrites t := by
  simp [tcpWrites]

@[simp] theorem tcpWrites_nil : tcpWrites [] = [] := rfl

@[simp] theorem tcpWrites_cons (a : Action) (t : List Action) :
    tcpWrites (a :: t) = a.tcpWriteCall.toList ++ tcpWrites t := by
  cases h : a.tcpWriteCall <;> simp [tcpWrites, h]

@[simp] theorem tcpWrites_touch (pcb : Pcb) : tcpWrites pcb.touch.trace = tcpWrites pcb.trace := by
  unfold Pcb.touch
  split
  next => rfl
  next => simp [Pcb.log, Action.tcpWriteCall]

@[simp] theorem enqueued_touch (pcb : Pcb) : enqueued pcb.touch.trace = enqueued pcb.trace := by
  unfold Pcb.touch
  split
  next => rfl
  next => simp [Pcb.log, Action.sentBytes]

/-- There is no room for another `tcp_write`. -/
def Pcb.Full (pcb : Pcb) : Prop :=
  pcb.sndBuf = 0 ∨ tcpSndQueuelenMax ≤ pcb.sndQueuelen.toNat

/-- One call of `tcp_write`, on any control block. -/
theorem tcpWrite_call (o : Oracle) (pcb : Pcb) (src : Src) (off : Nat) (ptr : Mem) (len : Nat) :
    ∃ err next, tcpWrite o pcb src off ptr len = (err, next) ∧
      tcpWrites next.trace = tcpWrites pcb.trace ++ [(len, err)] ∧
      enqueued next.trace = enqueued pcb.trace ++ if err = .ok then bytes ptr len else [] := by
  simp only [tcpWrite]
  generalize (if o.write pcb.touch.writes = .ok ∧ pcb.touch.sndBuf.toNat < len then Err.mem
    else o.write pcb.touch.writes) = verdict
  by_cases hok : verdict = .ok
  · rw [if_pos hok]
    exact ⟨.ok, _, rfl, by simp [Action.tcpWriteCall],
      by simp [Action.sentBytes]⟩
  · rw [if_neg hok]
    exact ⟨verdict, _, rfl, by simp [Action.tcpWriteCall],
      by simp [Action.sentBytes, hok]⟩

/-- What the loop of `http_write` has done: `m` attempts were refused for want of memory, each
for half the length of the one before, and the next attempt ended the loop. -/
structure Attempts (pcb : Pcb) (ptr : Mem) (len m : Nat) (result : Err × Nat × Pcb) : Prop where
  calls_eq : tcpWrites result.2.2.trace = tcpWrites pcb.trace ++
    ((List.range m).map (fun k => (len / 2 ^ k, Err.mem)) ++ [(len / 2 ^ m, result.1)])
  last_pos : 0 < len / 2 ^ m
  length_eq : result.1 = .ok → result.2.1 = len / 2 ^ m
  enqueued_eq : enqueued result.2.2.trace = enqueued pcb.trace ++
    if result.1 = .ok then bytes ptr result.2.1 else []
  refused_all : result.1 = .mem → result.2.2.Full ∨ len / 2 ^ (m + 1) ≤ 1

theorem httpWriteLoop_attempts (o : Oracle) (src : Src) (off : Nat) (ptr : Mem) (fuel len : Nat)
    (pcb : Pcb) (hpos : 0 < len) (hfuel : len ≤ fuel) :
    ∃ m, Attempts pcb ptr len m (httpWriteLoop o src off ptr fuel len pcb) := by
  induction fuel generalizing len pcb with
  | zero => exact absurd hpos (Nat.not_lt.mpr hfuel)
  | succ fuel ih =>
      obtain ⟨err, next, hwrite, hcall, hbytes⟩ := tcpWrite_call o pcb src off ptr len
      simp only [httpWriteLoop, hwrite]
      by_cases hmem : err = .mem
      · subst hmem
        rw [if_neg (by simp), List.append_nil] at hbytes
        simp only [if_true]
        generalize hshorter : (if next.sndBuf = 0 ∨ tcpSndQueuelenMax ≤ next.sndQueuelen.toNat
          then 1 else len / 2) = shorter
        split
        next hmore =>
          -- a shorter length above 1 can only be the half
          have hhalf : len / 2 = shorter := by
            split at hshorter <;> omega
          obtain ⟨m, hrest⟩ := ih shorter next (by omega) (by omega)
          have hpow : ∀ k, len / 2 ^ (k + 1) = shorter / 2 ^ k := by
            intro k
            rw [Nat.pow_succ, Nat.mul_comm, ← Nat.div_div_eq_div_mul, hhalf]
          refine ⟨m + 1, ?_, ?_, ?_, ?_, ?_⟩
          · rw [hrest.calls_eq, hcall, hpow]
            simp [List.range_succ_eq_map, Function.comp_def, hpow]
          · rw [hpow]
            exact hrest.last_pos
          · rw [hpow]
            exact hrest.length_eq
          · rw [hrest.enqueued_eq, hbytes]
          · rw [hpow]
            exact hrest.refused_all
        next hstop =>
          refine ⟨0, by simpa using hcall, by simpa using hpos, nofun, by simpa using hbytes, ?_⟩
          intro _
          dsimp only [Pcb.Full]
          split at hshorter
          next hfull => exact Or.inl hfull
          next => exact Or.inr (by omega)
      · simp only [hmem, if_false]
        exact ⟨0, by simpa using hcall, by simpa using hpos, fun _ => by simp, hbytes,
          fun h => absurd h hmem⟩

/-- The attempts of `http_write` on a request that is not empty. -/
theorem httpWrite_attempts (o : Oracle) (pcb : Pcb) (src : Src) (off : Nat) (ptr : Mem) {len : Nat}
    (hpos : 0 < len) : ∃ m, Attempts pcb ptr len m (httpWrite o pcb src off ptr len) := by
  rw [httpWrite, if_neg (Nat.ne_of_gt hpos)]
  exact httpWriteLoop_attempts o src off ptr len len pcb hpos (Nat.le_refl len)

/-- A length of 16 bits is halved at most 15 times before it is 0. -/
theorem Attempts.lt_sixteen {pcb : Pcb} {ptr : Mem} {len m : Nat} {result : Err × Nat × Pcb}
    (h : Attempts pcb ptr len m result) (hlen : len < 2 ^ 16) : m < 16 := by
  have hle : 2 ^ m ≤ len := (Nat.div_pos_iff.mp h.last_pos).2
  exact (Nat.pow_lt_pow_iff_right (by decide : 1 < 2)).mp (Nat.lt_of_le_of_lt hle hlen)

/-- `http_write` reports exactly what it has enqueued, and answers what the last `tcp_write` has. -/
theorem httpWrite_reports (o : Oracle) (pcb : Pcb) (src : Src) (off : Nat) (ptr : Mem)
    (length : UInt16) :
    ∃ calls, tcpWrites (httpWrite o pcb src off ptr length.toNat).2.2.trace =
        tcpWrites pcb.trace ++ calls ∧
      calls.length ≤ 17 ∧
      (0 < length.toNat →
        ∃ len, calls.getLast? = some (len, (httpWrite o pcb src off ptr length.toNat).1)) ∧
      (calls.filter fun call => call.2 = .ok).length ≤ 1 ∧
      ((httpWrite o pcb src off ptr length.toNat).1 = .ok →
        (httpWrite o pcb src off ptr length.toNat).2.1 ≤ length.toNat ∧
        (0 < length.toNat → 1 ≤ (httpWrite o pcb src off ptr length.toNat).2.1 ∧
          ((httpWrite o pcb src off ptr length.toNat).2.1, Err.ok) ∈ calls) ∧
        enqueued (httpWrite o pcb src off ptr length.toNat).2.2.trace =
          enqueued pcb.trace ++ bytes ptr (httpWrite o pcb src off ptr length.toNat).2.1) ∧
      ((httpWrite o pcb src off ptr length.toNat).1 ≠ .ok →
        enqueued (httpWrite o pcb src off ptr length.toNat).2.2.trace = enqueued pcb.trace) ∧
      ((httpWrite o pcb src off ptr length.toNat).1 = .mem →
        (httpWrite o pcb src off ptr length.toNat).2.2.Full ∨
          ∀ k, k = 0 ∨ 2 ≤ length.toNat / 2 ^ k → (length.toNat / 2 ^ k, Err.mem) ∈ calls) := by
  have hlen : length.toNat < 2 ^ 16 := length.toNat_lt
  generalize length.toNat = len at hlen ⊢
  rcases Nat.eq_zero_or_pos len with rfl | hpos
  · exact ⟨[], by simp [httpWrite]⟩
  obtain ⟨m, h⟩ := httpWrite_attempts o pcb src off ptr hpos
  have hm := h.lt_sixteen hlen
  generalize httpWrite o pcb src off ptr len = result at h ⊢
  have hrefused : ((List.range m).map fun k => (len / 2 ^ k, Err.mem)).filter
      (fun call => call.2 = .ok) = [] := by
    simp
  refine ⟨_, h.calls_eq, ?_, fun _ => ⟨len / 2 ^ m, ?_⟩, ?_, ?_, ?_, ?_⟩
  · simp only [List.length_append, List.length_map, List.length_range, List.length_singleton]
    omega
  · rw [List.getLast?_concat]
  · rw [List.filter_append, hrefused, List.nil_append]
    exact List.length_filter_le _ _
  · intro hok
    have hlast := h.length_eq hok
    have hbytes := h.enqueued_eq
    rw [if_pos hok] at hbytes
    refine ⟨?_, fun _ => ⟨?_, ?_⟩, hbytes⟩
    · rw [hlast]
      exact Nat.div_le_self ..
    · rw [hlast]
      exact h.last_pos
    · rw [hlast, hok]
      simp
  · intro hno
    have hbytes := h.enqueued_eq
    rwa [if_neg hno, List.append_nil] at hbytes
  · intro hmem
    refine (h.refused_all hmem).imp_right fun hsmall k hk => ?_
    rw [hmem, List.mem_append]
    rcases Nat.lt_trichotomy k m with hlt | rfl | hgt
    · exact Or.inl (List.mem_map.mpr ⟨k, List.mem_range.mpr hlt, rfl⟩)
    · simp
    · -- the length after the last attempt is too small to be tried
      have hle : len / 2 ^ k ≤ len / 2 ^ (m + 1) :=
        Nat.div_le_div_left (Nat.pow_le_pow_right (by decide) hgt) (Nat.two_pow_pos _)
      omega

end Meu1oARM
