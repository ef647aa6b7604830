import Meu1oARM.Board.Application
import Meu1oARM.Httpd.World

/-! # Requests for the handlers of the board

A request for a registered name runs `processaCGI` on the parameters of its query,
and the page served is `/index.shtml`.
-/

namespace Meu1oARM

open Machine CString

/-- A path with its query, if there is one. -/
def requestTarget (name : List UInt8) (query : Option (List UInt8)) : List UInt8 :=
  name ++ query.elim [] (63 :: ·)

section Split

variable {name : List UInt8}

theorem splitUri_none (hzero : 0 ∉ name) (hmark : 63 ∉ name) : splitUri name = (name, none) := by
  have hnone : name.findIdx? (· == 63) = none := by
    rw [List.findIdx?_eq_none_iff]
    intro b hb
    have hne : b ≠ 63 := fun heq => hmark (heq ▸ hb)
    simpa using hne
  simp [splitUri, strchr, cstr_eq_self hzero, hnone]

theorem splitUri_query (hzero : 0 ∉ name) (hmark : 63 ∉ name) (q : List UInt8) :
    splitUri (name ++ 63 :: q) = (name, some q) := by
  have hnone : name.findIdx? (· == 63) = none := by
    rw [List.findIdx?_eq_none_iff]
    intro b hb
    have hne : b ≠ 63 := fun heq => hmark (heq ▸ hb)
    simpa using hne
  have hcstr : cstr (name ++ 63 :: q) = name ++ 63 :: cstr q := by
    rw [cstr_append hzero]
    rfl
  have hstrchr : strchr (name ++ 63 :: q) 0 63 = some name.length := by
    simp [strchr, hcstr, List.findIdx?_append, hnone, List.findIdx?_cons]
  simp [splitUri, hstrchr]

theorem splitUri_requestTarget (hzero : 0 ∉ name) (hmark : 63 ∉ name)
    (query : Option (List UInt8)) : splitUri (requestTarget name query) = (name, query) := by
  cases query with
  | none => simpa [requestTarget] using splitUri_none hzero hmark
  | some q => exact splitUri_query hzero hmark q

end Split

section Dispatch

variable (root : List FsdataFile) (ssiHandler : Nat → Nat → Insert)

@[simp] theorem Ctx.sys_setHs {σ : Type} (c : Ctx σ) (hs : HttpState) :
    (c.setHs hs).sys = c.sys := by
  unfold Ctx.setHs Ctx.readHs
  split
  · rfl
  · split <;> rfl

/-- A name that is registered once is found at its place. -/
theorem find_registered {σ : Type} {cgis : List (Cgi σ)} (hnodup : (cgis.map (·.name)).Nodup)
    {i : Nat} {cgi : Cgi σ} (h : cgis[i]? = some cgi) :
    cgis.findIdx? (·.name == cgi.name) = some i ∧
      cgis.find? (·.name == cgi.name) = some cgi := by
  induction cgis generalizing i with
  | nil => simp at h
  | cons first rest ih =>
      rw [List.map_cons, List.nodup_cons] at hnodup
      cases i with
      | zero =>
          obtain rfl : first = cgi := by simpa using h
          simp [List.findIdx?_cons]
      | succ i =>
          have hrest : rest[i]? = some cgi := by simpa using h
          have hne : first.name ≠ cgi.name := fun heq =>
            hnodup.1 (heq ▸ List.mem_map_of_mem (List.mem_of_getElem? hrest))
          obtain ⟨hindex, hfind⟩ := ih hnodup.2 hrest
          simp [List.findIdx?_cons, hne, hindex, hfind]

theorem tabelaCgi_names :
    tabelaCgi.map (·.name) = [chars "/rele.cgi", chars "/data.cgi", chars "/hora.cgi"] := rfl

theorem tabelaCgi_handler {i : Nat} {cgi : Cgi Board} (h : tabelaCgi[i]? = some cgi) :
    cgi.handler = processaCgi := by
  have hmem := List.mem_of_getElem? h
  simp only [tabelaCgi, List.mem_cons, List.not_mem_nil, or_false] at hmem
  rcases hmem with rfl | rfl | rfl <;> rfl

/-- What `http_find_file` does with a request for a registered name. -/
theorem callCgi_board {i : Nat} {cgi : Cgi Board} (hcgi : tabelaCgi[i]? = some cgi)
    (query : Option (List UInt8)) (c : Ctx Board) :
    ∃ cut c', callCgi (boardSite root ssiHandler) (requestTarget cgi.name query) c =
        (chars "/index.shtml", cut, c') ∧
      c'.sys.app = (processaCgi c.sys.app i (extractUriParameters query c.hs).1
        (extractUriParameters query c.hs).2).1 := by
  have hname : cgi.name ∈ tabelaCgi.map (·.name) :=
    List.mem_map_of_mem (List.mem_of_getElem? hcgi)
  have hplain : 0 ∉ cgi.name ∧ 63 ∉ cgi.name := by
    have hall : ∀ name ∈ tabelaCgi.map (·.name), 0 ∉ name ∧ 63 ∉ name := by
      rw [tabelaCgi_names]
      decide
    exact hall _ hname
  have hnodup : (tabelaCgi.map (·.name)).Nodup := by
    rw [tabelaCgi_names]
    decide
  obtain ⟨hindex, hfind⟩ := find_registered hnodup hcgi
  have hcgis : (boardSite root ssiHandler).cgis = tabelaCgi := rfl
  simp only [callCgi, splitUri_requestTarget hplain.1 hplain.2, hcgis, hindex, hfind,
    tabelaCgi_handler hcgi]
  exact ⟨_, _, rfl, by simp⟩

/-- The board after a request for the `i`-th name. -/
theorem callCgi_app {i : Nat} {name : List UInt8} (hname : tabelaCgi[i]?.map (·.name) = some name)
    (query : Option (List UInt8)) (c : Ctx Board) :
    (callCgi (boardSite root ssiHandler) (requestTarget name query) c).2.2.sys.app =
      (processaCgi c.sys.app i (extractUriParameters query c.hs).1
        (extractUriParameters query c.hs).2).1 := by
  obtain ⟨cgi, hcgi, rfl⟩ := Option.map_eq_some_iff.mp hname
  obtain ⟨cut, c', hcall, happ⟩ := callCgi_board root ssiHandler hcgi query c
  rw [hcall, happ]

theorem httpInitFile_opened {σ : Type} (o : Oracle) (file : Option FsFile) (is09 tagCheck : Bool)
    {c : Ctx σ} {hs : HttpState} (hcell : c.cell = .live hs) :
    (httpInitFile o file is09 tagCheck c).hs.handle = file ∧
      (httpInitFile o file is09 tagCheck c).sys = c.sys := by
  cases file with
  | none => simp [httpInitFile, Ctx.setHs, Ctx.hs, hcell]
  | some f =>
      by_cases halloc : (tagCheck && o.ssiAlloc) = true
      · simp [httpInitFile, halloc, Ctx.setHs, Ctx.hs, hcell, Ctx.log]
      · simp [httpInitFile, halloc, Ctx.setHs, Ctx.hs, hcell, Ctx.log]

/-- A request for a registered name runs the handler and opens `/index.shtml`. -/
theorem httpFindFile_board {i : Nat} {cgi : Cgi Board} (hcgi : tabelaCgi[i]? = some cgi)
    (query : Option (List UInt8)) {c : Ctx Board} {hs : HttpState} (hcell : c.cell = .live hs)
    (o : Oracle) (is09 : Bool) :
    (httpFindFile (boardSite root ssiHandler) o (requestTarget cgi.name query) is09 c).2.sys.app =
        (processaCgi c.sys.app i (extractUriParameters query c.hs).1
          (extractUriParameters query c.hs).2).1 ∧
      (httpFindFile (boardSite root ssiHandler) o (requestTarget cgi.name query) is09
          c).2.hs.handle = (openNamedFile root (chars "/index.shtml")).1 := by
  have hlong : requestTarget cgi.name query ≠ [47] := by
    have hname : cgi.name ∈ tabelaCgi.map (·.name) :=
      List.mem_map_of_mem (List.mem_of_getElem? hcgi)
    have hlength : ∀ name ∈ tabelaCgi.map (·.name), name.length = 9 := by
      rw [tabelaCgi_names]
      decide
    intro heq
    have hsum := congrArg List.length heq
    rw [requestTarget, List.length_append, hlength _ hname] at hsum
    simp only [List.length_singleton] at hsum
    omega
  have hcell' : (c.log (.findFile (requestTarget cgi.name query) is09)).cell = .live hs := hcell
  obtain ⟨cut, c', hcall, happ⟩ := callCgi_board root ssiHandler hcgi
    query (c.log (.findFile (requestTarget cgi.name query) is09))
  obtain ⟨page, cut', sys, params, paramVals, hspec⟩ :=
    callCgi_spec (boardSite root ssiHandler) (requestTarget cgi.name query) hcell'
  have hlive : c'.cell = .live { hs with params, paramVals } := by
    rw [hcall, Prod.mk.injEq, Prod.mk.injEq] at hspec
    rw [hspec.2.2]
  simp only [httpFindFile, Ctx.readHs_of_live hcell, if_neg hlong, hcall]
  obtain ⟨hhandle, hsys⟩ := httpInitFile_opened o (openNamedFile root (chars "/index.shtml")).1
    is09 (openNamedFile root (chars "/index.shtml")).2 hlive
  exact ⟨(congrArg Sys.app hsys).trans happ, hhandle⟩

end Dispatch

section Trial

/-- A board with a card, whose clock shows `rtc` and whose heap is full of the byte `leftover`. -/
def Board.trial (rtc : UInt32) (leftover : UInt8) : Board where
  rtc := rtc
  date := { year := 0, month := 0, day := 0, hour := 0, minute := 0, second := 0 }
  relays := fun _ => true
  cardInserted := true
  cartao := false
  cartaoSsi := false
  cartaoCgi := false
  cartaoRelay := false
  valorAdc11p := 0
  heap := fun _ =>
    { bytes := List.replicate 12 leftover, size_le := by simp [mallocSize], null := false }
  mallocs := 0
  nullString := []
  stray := fun _ => 0
  uses := []
  accesses := []
  outOfTable := false

/-- A connection that waits for its request. -/
def Ctx.trial (b : Board) : Ctx Board where
  pcb := .fresh
  cell := .live httpStateInit
  sys := { httpdReqBuf := fun _ => 0, app := b }

/-- An empty insert. -/
def Insert.empty : Insert := { mem := fun _ => 0, len := 0, len_le := Nat.zero_le maxTagInsertLen }

/-- No files, and empty inserts. -/
def trialBoardSite : Site Board :=
  boardSite [] fun _ _ => Insert.empty

end Trial

end Meu1oARM
