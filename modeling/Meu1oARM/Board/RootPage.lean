import Meu1oARM.Board.Dispatch

/-! # The root page and its explicit name

`http_find_file` decides whether a page is scanned for tags by a flag of the table of
default names when `/` is asked for, and by a search in the name otherwise. Both
branches fall back to the same error page, and only the second looks at its name.
-/

namespace Meu1oARM

open CString

variable {σ : Type}

/-- The file that a request for `uri` is answered with, and whether it is scanned for tags. -/
def answeredWith (site : Site σ) (o : Oracle) (uri : List UInt8) (is09 : Bool) (c : Ctx σ) :
    Option FsFile × Bool :=
  ((httpFindFile site o uri is09 c).2.hs.handle, (httpFindFile site o uri is09 c).2.hs.ssi.isSome)

/-- Requests for the two names are answered alike on every connection. -/
def AnsweredAlike (site : Site σ) (uri uri' : List UInt8) : Prop :=
  ∀ (o : Oracle) (is09 : Bool) (c : Ctx σ) (hs : HttpState), c.cell = .live hs →
    answeredWith site o uri is09 c = answeredWith site o uri' is09 c

/-- The first entry of `g_psDefaultFilenames` whose file exists. -/
def firstDefault (root : List FsdataFile) : Option (List UInt8 × Bool) :=
  defaultFilenames.find? fun f => (fsOpen root f.1).isSome

/-- A name other than `/` that is neither a CGI nor a file. -/
structure Absent (site : Site σ) (uri : List UInt8) : Prop where
  ne_root : uri ≠ [47]
  no_file : fsOpen site.root (splitUri uri).1 = none
  no_cgi : ∀ cgi ∈ site.cgis, cgi.name ≠ (splitUri uri).1

/-- The root page is answered like its explicit name, or like any absent name. -/
structure RootServedAlike (site : Site σ) : Prop where
  named : ∀ f, firstDefault site.root = some f → AnsweredAlike site [47] f.1
  missing : firstDefault site.root = none → ∀ uri, Absent site uri → AnsweredAlike site [47] uri

section Opening

variable {site : Site σ} {root : List FsdataFile}

/-- What `http_init_file` makes of a file and a flag. -/
def openedAs (o : Oracle) (hs : HttpState) (found : Option FsFile × Bool) : Option FsFile × Bool :=
  (found.1, hs.ssi.isSome || (found.1.isSome && found.2 && o.ssiAlloc))

theorem httpInitFile_openedAs (o : Oracle) (found : Option FsFile × Bool) (is09 : Bool)
    {c : Ctx σ} {hs : HttpState} (hcell : c.cell = .live hs) :
    ((httpInitFile o found.1 is09 found.2 c).hs.handle,
      (httpInitFile o found.1 is09 found.2 c).hs.ssi.isSome) = openedAs o hs found := by
  obtain ⟨file, tagCheck⟩ := found
  cases file with
  | none => simp [httpInitFile, openedAs, Ctx.setHs, Ctx.hs, hcell]
  | some f =>
      cases htag : tagCheck <;> cases halloc : o.ssiAlloc <;>
        simp [httpInitFile, openedAs, halloc, Ctx.setHs, Ctx.hs, hcell, Ctx.log]

theorem answeredWith_root (o : Oracle) (is09 : Bool) {c : Ctx σ} {hs : HttpState}
    (hcell : c.cell = .live hs) :
    answeredWith site o [47] is09 c = openedAs o hs (openDefaultFile site.root) := by
  have hlog : (c.log (.findFile [47] is09)).cell = .live hs := hcell
  simp only [answeredWith, httpFindFile, Ctx.readHs_of_live hcell, if_true]
  exact httpInitFile_openedAs o (openDefaultFile site.root) is09 hlog

theorem answeredWith_named (o : Oracle) {uri : List UInt8} (is09 : Bool) {c : Ctx σ}
    {hs : HttpState} (hcell : c.cell = .live hs) (hne : uri ≠ [47])
    (hcgi : ∀ cgi ∈ site.cgis, cgi.name ≠ (splitUri uri).1) :
    answeredWith site o uri is09 c =
      openedAs o hs (openNamedFile site.root (splitUri uri).1) := by
  have hlog : (c.log (.findFile uri is09)).cell = .live hs := hcell
  have hnone : site.cgis.findIdx? (·.name == (splitUri uri).1) = none :=
    List.findIdx?_eq_none_iff.mpr fun cgi hmem => beq_eq_false_iff_ne.mpr (hcgi cgi hmem)
  simp only [answeredWith, httpFindFile, Ctx.readHs_of_live hcell, if_neg hne, callCgi, hnone]
  exact httpInitFile_openedAs o (openNamedFile site.root (splitUri uri).1) is09 hlog

/-- The table says of its names what their extensions say. -/
theorem defaultFilenames_shtml :
    ∀ f ∈ defaultFilenames, f.2 = ssiExtensions.any (strstr f.1) := by
  simp only [defaultFilenames, List.forall_mem_cons]
  decide

/-- The first name that exists is the one that is opened. -/
theorem findSome_of_find {names : List (List UInt8 × Bool)} {f : List UInt8 × Bool} {file : FsFile}
    (h : names.find? (fun f => (fsOpen root f.1).isSome) = some f)
    (hopen : fsOpen root f.1 = some file) :
    (names.findSome? fun f => (fsOpen root f.1).map (·, f.2)) = some (file, f.2) := by
  induction names with
  | nil => simp at h
  | cons name names ih =>
      cases hname : fsOpen root name.1 with
      | none =>
          rw [List.find?_cons_of_neg (by simp [hname])] at h
          rw [List.findSome?_cons, hname]
          exact ih h
      | some g =>
          rw [List.find?_cons_of_pos (by simp [hname])] at h
          obtain rfl := Option.some.inj h
          rw [List.findSome?_cons, hopen]
          rfl

theorem openDefaultFile_of_some {f : List UInt8 × Bool} (h : firstDefault root = some f) :
    openDefaultFile root = openNamedFile root f.1 := by
  have hshtml := defaultFilenames_shtml f (List.mem_of_find?_eq_some h)
  have hexists : (fsOpen root f.1).isSome :=
    List.find?_some (p := fun f : List UInt8 × Bool => (fsOpen root f.1).isSome) h
  obtain ⟨file, hopen⟩ := Option.isSome_iff_exists.mp hexists
  simp [openDefaultFile, findSome_of_find h hopen, openNamedFile, hopen, hshtml]

theorem openDefaultFile_of_none (h : firstDefault root = none) :
    openDefaultFile root = ((httpGet404File root).map Prod.fst, false) := by
  have hnone : (defaultFilenames.findSome? fun f => (fsOpen root f.1).map (·, f.2)) = none := by
    refine List.findSome?_eq_none_iff.mpr fun f hf => ?_
    have hopen := List.find?_eq_none.mp h f hf
    simpa using hopen
  simp [openDefaultFile, hnone]

theorem openNamedFile_of_none {uri : List UInt8} (h : fsOpen root uri = none) :
    openNamedFile root uri = ((httpGet404File root).map Prod.fst,
      (httpGet404File root).any fun found => ssiExtensions.any (strstr found.2)) := by
  cases hfound : httpGet404File root <;> simp [openNamedFile, h, hfound]

/-- The name of the error page asks for a scan when it is the last of the three. -/
theorem httpGet404File_scanned_iff (root : List FsdataFile) :
    ((httpGet404File root).any fun found => ssiExtensions.any (strstr found.2)) ↔
      fsOpen root (chars "/404.html") = none ∧ fsOpen root (chars "/404.htm") = none ∧
        (fsOpen root (chars "/404.shtml")).isSome := by
  have hhtml : ssiExtensions.any (strstr (chars "/404.html")) = false := by decide
  have hhtm : ssiExtensions.any (strstr (chars "/404.htm")) = false := by decide
  have hshtml : ssiExtensions.any (strstr (chars "/404.shtml")) = true := by decide
  simp only [httpGet404File, notFoundFilenames, List.findSome?_cons, List.findSome?_nil]
  cases fsOpen root (chars "/404.html") with
  | some f => simp [hhtml]
  | none =>
      cases fsOpen root (chars "/404.htm") with
      | some f => simp [hhtm]
      | none => cases fsOpen root (chars "/404.shtml") <;> simp [hshtml]

/-- There is always a name that no file has. -/
theorem exists_long_name (root : List FsdataFile) :
    ∃ n, ∀ f ∈ root, f.name.length < n := by
  induction root with
  | nil => exact ⟨0, by simp⟩
  | cons f root ih =>
      obtain ⟨n, hn⟩ := ih
      refine ⟨n + f.name.length + 1, ?_⟩
      intro g hg
      rcases List.mem_cons.mp hg with rfl | hmem
      · omega
      · have := hn g hmem
        omega

end Opening

section Board

variable (root : List FsdataFile) (ssiHandler : Nat → Nat → Insert)

theorem exists_absent : ∃ uri, Absent (boardSite root ssiHandler) uri := by
  obtain ⟨n, hn⟩ := exists_long_name root
  have hsplit : splitUri (List.replicate (n + 10) 97) = (List.replicate (n + 10) 97, none) :=
    splitUri_none (by simp) (by simp)
  refine ⟨List.replicate (n + 10) 97, ?_, ?_, ?_⟩
  · intro heq
    have hlength := congrArg List.length heq
    simp at hlength
  · rw [hsplit]
    refine Option.map_eq_none_iff.mpr (List.find?_eq_none.mpr fun f hf => ?_)
    have hlt := hn f hf
    intro heq
    have hlength := congrArg List.length (eq_of_beq heq)
    rw [List.length_replicate] at hlength
    omega
  · rw [hsplit]
    intro cgi hcgi heq
    have hname : cgi.name ∈ tabelaCgi.map (·.name) := List.mem_map_of_mem hcgi
    have hlength : ∀ name ∈ tabelaCgi.map (·.name), name.length = 9 := by
      rw [tabelaCgi_names]
      decide
    have hnine := hlength _ hname
    rw [heq, List.length_replicate] at hnine
    omega

/-- The default names are not those of a CGI. -/
theorem defaultFilenames_plain :
    ∀ f ∈ defaultFilenames, splitUri f.1 = (f.1, none) ∧ f.1 ≠ [47] ∧
      ∀ cgi ∈ tabelaCgi, cgi.name ≠ f.1 := by
  have hnames : ∀ f ∈ defaultFilenames, splitUri f.1 = (f.1, none) ∧ f.1 ≠ [47] ∧
      f.1 ∉ tabelaCgi.map (·.name) := by
    rw [tabelaCgi_names]
    simp only [defaultFilenames, List.forall_mem_cons]
    decide
  intro f hf
  obtain ⟨hsplit, hne, hcgi⟩ := hnames f hf
  refine ⟨hsplit, hne, ?_⟩
  intro cgi hmem heq
  exact hcgi (heq ▸ List.mem_map_of_mem hmem)

/-- The root page is answered like its explicit name, and like an absent name when there is
none, unless the error page is to be scanned for tags. -/
theorem root_served_alike_iff :
    RootServedAlike (boardSite root ssiHandler) ↔
      (firstDefault root).isSome ∨ (fsOpen root (chars "/404.html")).isSome ∨
        (fsOpen root (chars "/404.htm")).isSome ∨ fsOpen root (chars "/404.shtml") = none := by
  have hscanned := httpGet404File_scanned_iff (boardSite root ssiHandler).root
  constructor
  · intro halike
    by_contra hno
    simp only [not_or, Bool.not_eq_true, Option.isSome_eq_false_iff, Option.isNone_iff_eq_none,
      ← Option.isSome_iff_ne_none, ← ne_eq] at hno
    obtain ⟨hdefault, hhtml, hhtm, hshtml⟩ := hno
    have hnone : firstDefault (boardSite root ssiHandler).root = none := hdefault
    -- a name that no file has is answered with the scanned error page
    obtain ⟨uri, habsent⟩ := exists_absent root ssiHandler
    have hcell : (Ctx.trial (.trial 0 0)).cell = .live httpStateInit := rfl
    have hsame := halike.missing hnone uri habsent .willing false _ _ hcell
    rw [answeredWith_root _ _ hcell,
      answeredWith_named _ _ hcell habsent.ne_root habsent.no_cgi] at hsame
    have hscan := hscanned.mpr ⟨hhtml, hhtm, hshtml⟩
    rw [openDefaultFile_of_none hnone, openNamedFile_of_none habsent.no_file, hscan] at hsame
    cases hfound : httpGet404File (boardSite root ssiHandler).root with
    | none => simp [hfound] at hscan
    | some found => simp [hfound, openedAs, httpStateInit, Oracle.willing] at hsame
  · intro hcondition
    constructor
    · intro f hf o is09 c hs hcell
      obtain ⟨hsplit, hne, hcgi⟩ := defaultFilenames_plain f (List.mem_of_find?_eq_some hf)
      have hcgi' : ∀ cgi ∈ (boardSite root ssiHandler).cgis, cgi.name ≠ (splitUri f.1).1 := by
        rw [hsplit]
        exact hcgi
      rw [answeredWith_root o is09 hcell, answeredWith_named o is09 hcell hne hcgi', hsplit,
        openDefaultFile_of_some hf]
    · intro hnone uri habsent o is09 c hs hcell
      -- the error page is not scanned when it is asked for by a name
      have hplain : ((httpGet404File (boardSite root ssiHandler).root).any
          fun found => ssiExtensions.any (strstr found.2)) = false := by
        rw [Bool.eq_false_iff, ne_eq, hscanned]
        rintro ⟨hhtml, hhtm, hshtml⟩
        rcases hcondition with hdefault | hhtml' | hhtm' | hshtml'
        · exact Option.not_isSome_iff_eq_none.mpr hnone hdefault
        · exact Option.not_isSome_iff_eq_none.mpr hhtml hhtml'
        · exact Option.not_isSome_iff_eq_none.mpr hhtm hhtm'
        · exact Option.isSome_iff_ne_none.mp hshtml hshtml'
      rw [answeredWith_root o is09 hcell,
        answeredWith_named o is09 hcell habsent.ne_root habsent.no_cgi,
        openDefaultFile_of_none hnone, openNamedFile_of_none habsent.no_file, hplain]

end Board

section Trial

/-- A site whose only file is `/404.shtml`. -/
def errorPageSite : Site Board :=
  boardSite [{ name := chars "/404.shtml", data := chars "<!--#tag1-->!", size_lt := by simp [chars]
               httpHeaderIncluded := true }] fun _ _ => Insert.empty

/-- There the error page for `/` is not scanned for tags, and the one for an absent name is. -/
theorem root_error_page_unscanned : ¬ RootServedAlike errorPageSite := by
  intro halike
  have habsent : Absent errorPageSite (chars "/x") := ⟨by decide, by decide, by decide⟩
  have hsame := halike.missing (by decide) (chars "/x") habsent .willing false
    (.trial (.trial 0 0)) httpStateInit rfl
  have hroot : (answeredWith errorPageSite .willing [47] false (.trial (.trial 0 0))).2 = false := by
    decide +kernel
  have hnamed : (answeredWith errorPageSite .willing (chars "/x") false
      (.trial (.trial 0 0))).2 = true := by
    decide +kernel
  rw [← hsame, hroot] at hnamed
  exact absurd hnamed Bool.false_ne_true

end Trial

end Meu1oARM
