import Meu1oARM.Httpd.Write

/-! # Sending a file without SSI -/

namespace Meu1oARM

open Machine CString

/-- The contents of a file as memory from `off` on. -/
def fileMem (data : List UInt8) (off : Nat) : Mem := shift (fun i => data.getD i 0) off

/-- The length clamps before a block of `left` file bytes is sent: at most the send buffer,
at most two segments. -/
def clampLen (pcb : Pcb) (left : Nat) : Nat :=
  let len := if pcb.sndBuf.toNat < left then pcb.sndBuf.toNat else u16 left
  if 2 * pcb.mss.toNat < len then u16 (2 * pcb.mss.toNat) else len

theorem bytes_fileMem {data : List UInt8} {off n : Nat} (h : off + n ≤ data.length) :
    bytes (fileMem data off) n = (data.drop off).take n :=
  bytes_ofList_getD data 0 off n h

theorem clampLen_le (pcb : Pcb) (left : Nat) : clampLen pcb left ≤ left := by
  have hmod := u16_le left
  have hmss := u16_le (2 * pcb.mss.toNat)
  unfold clampLen
  dsimp only
  split <;> split <;> omega

/-- `http_send_data_nonssi` -/
def httpSendDataNonssi (o : Oracle) (data : List UInt8) (pcb : Pcb) (hs : HttpState) :
    Nat × Pcb × HttpState :=
  let pcb := pcb.touch
  let pcb := pcb.check (pcb.sndBuf.toNat < hs.left || u16 hs.left == hs.left) .leftFits
  let len := clampLen pcb hs.left
  let file := hs.file.getD 0
  let (err, len, pcb) := httpWrite o pcb .file file (fileMem data file) len
  if err = .ok then
    (1, pcb, { hs with file := some (file + len), left := sub32 hs.left len })
  else (0, pcb, hs)

/-- The fields of a connection without SSI fit together while the file is sent from `start`
on: what has been enqueued and what follows `file` are the response. -/
structure PlainStream (data : List UInt8) (start : Nat) (pcb : Pcb) (file left : Nat) : Prop where
  opened : pcb.status = .opened
  size_lt : data.length < 2147483648
  start_lt : start < data.length
  left_eq : file + left = data.length
  start_le : start ≤ file
  stream : enqueued pcb.trace ++ data.drop file = data.drop start

theorem PlainStream.done {data : List UInt8} {start : Nat} {pcb : Pcb} {file left : Nat}
    (h : PlainStream data start pcb file left) (hleft : left = 0) :
    enqueued pcb.trace = data.drop start := by
  have hfile : data.length ≤ file := by have := h.left_eq; omega
  simpa [List.drop_eq_nil_of_le hfile] using h.stream

/-- The specification of `http_send_data_nonssi`. -/
theorem httpSendDataNonssi_spec (o : Oracle) {data : List UInt8} {start : Nat} {pcb : Pcb}
    {hs : HttpState} {file : Nat} (hfile : hs.file = some file)
    (h : PlainStream data start pcb file hs.left) :
    ∃ dataToSend pcb' file' left', httpSendDataNonssi o data pcb hs =
        (dataToSend, pcb', { hs with file := some file', left := left' }) ∧
      pcb.Sends pcb' ∧ PlainStream data start pcb' file' left' := by
  simp only [httpSendDataNonssi, Pcb.touch_of_opened h.opened, hfile, Option.getD_some]
  generalize hcheck : pcb.check
    (decide (pcb.sndBuf.toNat < hs.left) || u16 hs.left == hs.left) .leftFits = pcb1
  have hsends : pcb.Sends pcb1 := hcheck ▸ .check pcb rfl _
  have henq : enqueued pcb1.trace = enqueued pcb.trace := by simp [← hcheck]
  have hopen : pcb1.status = .opened := hsends.status_eq.trans h.opened
  have hclamp := clampLen_le pcb1 hs.left
  have hspec := httpWrite_wrote o hopen .file file (fileMem data file) (clampLen pcb1 hs.left)
  generalize httpWrite o pcb1 .file file (fileMem data file) (clampLen pcb1 hs.left) = result
    at hspec ⊢
  obtain ⟨err, sent, pcb2⟩ := result
  have hopen2 : pcb2.status = .opened := hspec.sends.status_eq.trans hopen
  have hleft := h.left_eq
  have hsize := h.size_lt
  by_cases hok : err = .ok
  · have hsent : sent ≤ clampLen pcb1 hs.left := hspec.length_le hok
    -- no more is sent than is left
    have hsub : sub32 hs.left sent = hs.left - sent := sub32_of_le (by omega) (by omega)
    have hbytes : enqueued pcb2.trace = enqueued pcb1.trace ++ bytes (fileMem data file) sent :=
      hspec.bytes_eq hok
    rw [bytes_fileMem (by omega), henq] at hbytes
    simp only [hok, if_true, hsub]
    refine ⟨_, _, _, _, rfl, hsends.trans hspec.sends, hopen2, hsize, h.start_lt, by omega, ?_, ?_⟩
    · exact Nat.le_trans h.start_le (Nat.le_add_right ..)
    · rw [hbytes, List.append_assoc, ← List.drop_drop, List.take_append_drop]
      exact h.stream
  · simp only [hok, if_false]
    refine ⟨0, pcb2, file, hs.left, by rw [← hfile], hsends.trans hspec.sends, hopen2, hsize,
      h.start_lt, hleft, h.start_le, ?_⟩
    have hrefused : enqueued pcb2.trace = enqueued pcb1.trace := hspec.refused hok
    rw [hrefused, henq]
    exact h.stream

end Meu1oARM
