import Meu1oARM.Foundation.CString
import Meu1oARM.Foundation.Overwrite
import Meu1oARM.Foundation.Run

/-! # The log on the card

`append` mounts the volume, opens the log, seeks its end and writes. Of the file system
it is known that every call may fail on its own, that a call that fails leaves the file
and its pointer as they were, and that a write puts down a first part of the data at the
pointer.
-/

namespace Meu1oARM

open CString Overwrite

/-- `FRESULT` -/
inductive FResult
  | ok | diskErr | intErr | notReady | noFile | noPath | invalidName | denied | exist
  | invalidObject | writeProtected | invalidDrive | notEnabled | noFilesystem | mkfsAborted
  | timeout | locked | notEnoughCore | tooManyOpenFiles | invalidParameter
  deriving DecidableEq, Repr

/-- The volume: the files by their paths, and the work area registered for it. -/
structure Volume where
  workArea : Option Nat
  files : List UInt8 → Option (List UInt8)

/-- `FIL` -/
structure Fil where
  path : List UInt8
  fptr : Nat
  fsize : Nat

/-- What the calls of one `append` return; `written` is how much `f_write` takes at most. -/
structure FatFsAnswers where
  mount : FResult
  chdrive : FResult
  opening : FResult
  lseek : FResult
  write : FResult
  written : Nat
  close : FResult
  unmount : FResult

namespace Volume

/-- The contents of a file, which are empty as long as there is none. -/
def content (v : Volume) (path : List UInt8) : List UInt8 := (v.files path).getD []

def store (v : Volume) (path data : List UInt8) : Volume :=
  { v with files := fun q => if q = path then some data else v.files q }

end Volume

/-- `f_mount` with a work area, or with none to unmount the volume. -/
def fMount (answer : FResult) (fs : Option Nat) (v : Volume) : FResult × Volume :=
  (answer, if answer = .ok then { v with workArea := fs } else v)

/-- `f_chdrive` only chooses the current drive. -/
def fChdrive (answer : FResult) : FResult := answer

/-- `f_open` with `FA_OPEN_ALWAYS | FA_WRITE` -/
def fOpen (answer : FResult) (path : List UInt8) (v : Volume) : FResult × Fil × Volume :=
  (answer, { path, fptr := 0, fsize := (v.content path).length },
    if answer = .ok then v.store path (v.content path) else v)

/-- `f_lseek` -/
def fLseek (answer : FResult) (file : Fil) (ofs : Nat) : FResult × Fil :=
  (answer, if answer = .ok then { file with fptr := ofs } else file)

/-- `f_write`: with a full volume it takes less than all and is successful. -/
def fWrite (answer : FResult) (written : Nat) (file : Fil) (buff : List UInt8) (v : Volume) :
    FResult × Volume :=
  (answer, if answer = .ok then
    v.store file.path (writeAt (v.content file.path) file.fptr (buff.take written)) else v)

/-- `f_close` writes back what is cached; the contents are those that were written. -/
def fClose (answer : FResult) (v : Volume) : FResult × Volume := (answer, v)

/-- `SD_DRIVE_NUMBER` -/
def sdDriveNumber : List UInt8 := chars "1"

/-- The path that `append` makes of a name. -/
def pathWithDriveLetter (fileNameAndPath : List UInt8) : List UInt8 :=
  sdDriveNumber ++ chars ":" ++ fileNameAndPath

/-- What `append` does while the volume is mounted. Of the calls behind `f_open` no result is
looked at. -/
def appendMounted (a : FatFsAnswers) (fileNameAndPath text : List UInt8) (v : Volume) : Volume :=
  if fChdrive a.chdrive = .ok then
    let (fResult, file, v) := fOpen a.opening (pathWithDriveLetter fileNameAndPath) v
    let v :=
      if fResult = .ok then
        let (_, file) := fLseek a.lseek file file.fsize
        (fWrite a.write a.written file text v).2
      else v
    (fClose a.close v).2
  else v

/-- `append`, whose local variable `fileSystem` stands at the given address. -/
def append (a : FatFsAnswers) (fileSystem : Nat) (fileNameAndPath text : List UInt8) (v : Volume) :
    Volume :=
  let (fResult, v) := fMount a.mount (some fileSystem) v
  if fResult = .ok then (fMount a.unmount none (appendMounted a fileNameAndPath text v)).2
  else v

/-- One call of `append`. -/
structure AppendCall where
  answers : FatFsAnswers
  fileSystem : Nat
  name : List UInt8
  text : List UInt8

namespace AppendCall

def path (c : AppendCall) : List UInt8 := pathWithDriveLetter c.name

def run (v : Volume) (c : AppendCall) : Volume := append c.answers c.fileSystem c.name c.text v

/-- Every call of the file system succeeds, and the write takes all of the text. -/
structure Succeeds (c : AppendCall) : Prop where
  mount : c.answers.mount = .ok
  chdrive : c.answers.chdrive = .ok
  opening : c.answers.opening = .ok
  lseek : c.answers.lseek = .ok
  write : c.answers.write = .ok
  written : c.text.length ≤ c.answers.written
  close : c.answers.close = .ok
  unmount : c.answers.unmount = .ok

/-- The call comes to write. -/
structure Writes (c : AppendCall) : Prop where
  mount : c.answers.mount = .ok
  chdrive : c.answers.chdrive = .ok
  opening : c.answers.opening = .ok
  write : c.answers.write = .ok

/-- The call has appended a first part of the text, all of it if nothing failed, and has left
no work area behind. -/
structure Appends (v : Volume) (c : AppendCall) : Prop where
  grows : ∃ part, part <+: c.text ∧ (c.run v).content c.path = v.content c.path ++ part
  complete : c.Succeeds → (c.run v).content c.path = v.content c.path ++ c.text
  unmounts : c.answers.mount = .ok → (c.run v).workArea ≠ some c.fileSystem

/-- The condition: what is written is written behind a successful seek, or stands there anyway,
and unmounting succeeds. -/
structure Sought (v : Volume) (c : AppendCall) : Prop where
  seek : c.Writes → c.answers.lseek = .ok ∨
    c.text.take c.answers.written <+: v.content c.path ++ c.text
  unmount : c.answers.mount = .ok → c.answers.unmount = .ok

end AppendCall

section Volume

variable (v : Volume) (path data : List UInt8)

@[simp] theorem Volume.content_store : (v.store path data).content path = data := by
  simp [Volume.content, Volume.store]

@[simp] theorem Volume.workArea_store : (v.store path data).workArea = v.workArea := rfl

theorem Volume.content_store_of_ne {q : List UInt8} (h : q ≠ path) :
    (v.store path data).content q = v.content q := by
  simp [Volume.content, Volume.store, h]

/-- Creating a file that is not there changes no contents. -/
theorem Volume.content_store_self (q : List UInt8) :
    (v.store path (v.content path)).content q = v.content q := by
  by_cases h : q = path
  · rw [h, content_store]
  · exact v.content_store_of_ne path _ h

section FatFs

variable (answer : FResult) (file : Fil) (buff q : List UInt8) (n : Nat)

@[simp] theorem path_fLseek : (fLseek answer file n).2.path = file.path := by
  simp only [fLseek]
  split <;> rfl

/-- Opening creates a file at most, and a new file is empty. -/
@[simp] theorem content_fOpen : (fOpen answer path v).2.2.content q = v.content q := by
  simp only [fOpen]
  split
  · exact v.content_store_self path q
  · rfl

/-- A write that fails leaves its file alone, and every write the others. -/
theorem content_fWrite {q : List UInt8} (h : q = file.path → answer ≠ .ok) :
    (fWrite answer n file buff v).2.content q = v.content q := by
  simp only [fWrite]
  split
  next hok => exact v.content_store_of_ne _ _ fun heq => h heq hok
  next => rfl

end FatFs

/-- Mounting and unmounting leave the files alone. -/
@[simp] theorem content_fMount (answer : FResult) (fs : Option Nat) (q : List UInt8) :
    (fMount answer fs v).2.content q = v.content q := by
  simp only [fMount]
  split <;> rfl

end Volume

namespace AppendCall

variable (v : Volume) (c : AppendCall)

/-- Where the call writes. -/
def offset : Nat := if c.answers.lseek = .ok then (v.content c.path).length else 0

theorem workArea_appendMounted :
    (appendMounted c.answers c.name c.text v).workArea = v.workArea := by
  simp only [appendMounted, fOpen, fWrite, fClose]
  split
  · split
    · split <;> rfl
    · rfl
  · rfl

/-- The contents of the file after a write. -/
theorem content_appendMounted_of_writes (h : c.Writes) :
    (appendMounted c.answers c.name c.text v).content c.path =
      writeAt (v.content c.path) (c.offset v) (c.text.take c.answers.written) := by
  simp only [appendMounted, fChdrive, h.chdrive, fOpen, h.opening, fWrite, h.write, fClose, if_true,
    fLseek, offset, path]
  split <;> simp

/-- Nothing is written to another file, and nothing at all when a call fails in front of it. -/
theorem content_appendMounted {q : List UInt8}
    (h : q = c.path → c.answers.chdrive = .ok → c.answers.opening = .ok → c.answers.write ≠ .ok) :
    (appendMounted c.answers c.name c.text v).content q = v.content q := by
  simp only [appendMounted, fChdrive, fClose]
  split
  next hchdrive =>
    split
    next hopening =>
      refine (content_fWrite _ _ _ _ _ fun heq => ?_).trans (content_fOpen v _ _ q)
      rw [path_fLseek] at heq
      exact h heq hchdrive hopening
    next => exact content_fOpen v _ _ q
  next => rfl

theorem run_of_not_mounted (h : c.answers.mount ≠ .ok) : c.run v = v := by
  simp [run, append, fMount, h]

theorem run_of_mounted (h : c.answers.mount = .ok) :
    c.run v = (fMount c.answers.unmount none (appendMounted c.answers c.name c.text
      { v with workArea := some c.fileSystem })).2 := by
  simp [run, append, fMount, h]

theorem content_run_of_writes (h : c.Writes) :
    (c.run v).content c.path =
      writeAt (v.content c.path) (c.offset v) (c.text.take c.answers.written) := by
  rw [run_of_mounted v c h.mount, content_fMount]
  exact content_appendMounted_of_writes _ c h

theorem content_run {q : List UInt8} (h : ¬ (q = c.path ∧ c.Writes)) :
    (c.run v).content q = v.content q := by
  by_cases hmount : c.answers.mount = .ok
  · rw [run_of_mounted v c hmount, content_fMount]
    refine content_appendMounted _ c fun hq hchdrive hopening hwrite => ?_
    exact h ⟨hq, hmount, hchdrive, hopening, hwrite⟩
  · rw [run_of_not_mounted v c hmount]

theorem workArea_run (h : c.answers.mount = .ok) :
    (c.run v).workArea = if c.answers.unmount = .ok then none else some c.fileSystem := by
  rw [run_of_mounted v c h, fMount]
  split
  next => rfl
  next => rw [workArea_appendMounted]

/-- A call of `append` does what it is for exactly under the condition. -/
theorem appends_iff : c.Appends v ↔ c.Sought v := by
  constructor
  · intro h
    constructor
    · intro hwrites
      by_cases hseek : c.answers.lseek = .ok
      · exact Or.inl hseek
      · obtain ⟨part, hpart, hgrown⟩ := h.grows
        rw [content_run_of_writes v c hwrites, offset, if_neg hseek] at hgrown
        exact Or.inr ((writeAt_zero_take_iff _).mp ⟨part, hpart, hgrown⟩)
    · intro hmount
      by_contra hfails
      apply h.unmounts hmount
      rw [workArea_run v c hmount, if_neg hfails]
  · intro h
    refine ⟨?_, ?_, ?_⟩
    · by_cases hwrites : c.Writes
      · rw [content_run_of_writes v c hwrites]
        by_cases hseek : c.answers.lseek = .ok
        · rw [offset, if_pos hseek, writeAt_length]
          exact ⟨_, List.take_prefix _ _, rfl⟩
        · rw [offset, if_neg hseek]
          exact (writeAt_zero_take_iff _).mpr ((h.seek hwrites).resolve_left hseek)
      · exact ⟨[], List.nil_prefix, by rw [content_run v c fun hq => hwrites hq.2, List.append_nil]⟩
    · intro hall
      rw [content_run_of_writes v c ⟨hall.mount, hall.chdrive, hall.opening, hall.write⟩, offset,
        if_pos hall.lseek, writeAt_length, List.take_of_length_le hall.written]
    · intro hmount
      rw [workArea_run v c hmount, if_pos (h.unmount hmount)]
      exact nofun

/-- Under the condition no file loses anything. -/
theorem prefix_run (h : c.Sought v) (q : List UInt8) : v.content q <+: (c.run v).content q := by
  by_cases hq : q = c.path ∧ c.Writes
  · obtain ⟨part, -, hgrown⟩ := ((appends_iff v c).mpr h).grows
    rw [hq.1, hgrown]
    exact List.prefix_append _ _
  · have hsame := content_run v c hq
    exact ⟨[], by rw [hsame, List.append_nil]⟩

end AppendCall

/-- Every call of a run appends exactly when every call meets the condition, and in such a run
the files only grow at their ends. -/
theorem append_keeps_log_iff (v : Volume) (calls : List AppendCall) :
    (Run.Steps AppendCall.run (fun v c => c.Appends v) v calls ↔
        Run.Steps AppendCall.run (fun v c => c.Sought v) v calls) ∧
      (Run.Steps AppendCall.run (fun v c => c.Sought v) v calls →
        ∀ q, v.content q <+: (Run.run AppendCall.run v calls).content q) := by
  constructor
  · constructor
    · exact Run.Steps.mono fun v c h => (c.appends_iff v).mp h
    · exact Run.Steps.mono fun v c h => (c.appends_iff v).mpr h
  · intro hsteps q
    exact Run.invariant (I := fun w => v.content q <+: w.content q)
      (fun w c hw hc => hw.trans (c.prefix_run w hc q)) List.prefix_rfl hsteps

/-- A card on which every file holds three characters. -/
def Volume.trial : Volume where
  workArea := none
  files := fun _ => some (chars "old")

/-- Only the seek fails. -/
def AppendCall.unsought : AppendCall where
  answers :=
    { mount := .ok, chdrive := .ok, opening := .ok, lseek := .notReady, write := .ok
      written := 3, close := .ok, unmount := .ok }
  fileSystem := 0
  name := chars "/httpd.log"
  text := chars "new"

/-- Then the text stands where the beginning of the log was. -/
theorem append_overwrites_log : ¬ AppendCall.unsought.Appends Volume.trial := by
  intro h
  obtain ⟨part, -, hgrown⟩ := h.grows
  have hcontent : (AppendCall.unsought.run Volume.trial).content AppendCall.unsought.path =
      chars "new" := by
    decide +kernel
  have hfirst : chars "old" <+: chars "new" := ⟨part, (hcontent.symm.trans hgrown).symm⟩
  exact absurd hfirst (by decide)

end Meu1oARM
