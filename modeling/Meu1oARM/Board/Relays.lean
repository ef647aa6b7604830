import Meu1oARM.Board.Dispatch

/-! # The strings a handler reads, and the relays it drives

The handler reads `pcParam[i]` and `pcValue[i]` up to the number of parameters, but
does not look whether the value is there.
-/

namespace Meu1oARM

open Machine CString

/-- The string exists: its index is below the number of parameters, and its pointer points to
a string that `extract_uri_parameters` has cut out. -/
def StringUse.Exists (u : StringUse) : Prop :=
  u.index < u.count ∧ ∃ s, u.args.PointsTo u.entry s

/-- The value of `rele` that switches a relay on. -/
def Relay.text : Relay → List UInt8
  | .shieldRelay1 => chars "1"
  | .shieldRelay2 => chars "2"
  | .shieldRelay3 => chars "3"
  | .shieldRelay4 => chars "4"
  | .onBoardRelay => chars "5"

/-- `pcParam[i]` -/
def nameUse (n : Nat) (args : CgiArgs) (i : Nat) : StringUse :=
  { value := false, index := i, count := n, args }

/-- `pcValue[i]` -/
def valueUse (n : Nat) (args : CgiArgs) (i : Nat) : StringUse :=
  { value := true, index := i, count := n, args }

section Strings

variable {args : CgiArgs} {n i : Nat} {piece s : List UInt8} (b : Board)

theorem Board.string_of_pointsTo {u : StringUse} (h : u.args.PointsTo u.entry s) :
    b.string u = s := by
  obtain ⟨before, rest, hbuf, hentry, hzero⟩ := h
  have hdrop : u.args.buf.drop before.length = s ++ 0 :: rest := by
    rw [hbuf, List.append_assoc, List.drop_left]
  simp only [Board.string, hentry, hdrop, cstr_terminated hzero]

theorem Board.string_congr {b b' : Board} (h : b.nullString = b'.nullString) (u : StringUse) :
    b.string u = b'.string u := by
  simp only [Board.string, h]

@[simp] theorem Board.string_use (u v : StringUse) : (b.use u).string v = b.string v := rfl

@[simp] theorem Board.relays_use (u : StringUse) : (b.use u).relays = b.relays := rfl

@[simp] theorem Board.nullString_use (u : StringUse) : (b.use u).nullString = b.nullString := rfl

@[simp] theorem Board.mem_uses_use (u v : StringUse) : v ∈ (b.use u).uses ↔ v ∈ b.uses ∨ v = u := by
  simp [Board.use]

@[simp] theorem Board.uses_writePinOutput (r : Relay) (output : Bool) :
    (b.writePinOutput r output).uses = b.uses := rfl

@[simp] theorem Board.nullString_writePinOutput (r : Relay) (output : Bool) :
    (b.writePinOutput r output).nullString = b.nullString := rfl

theorem CgiArgs.Holds.pointsTo_name (h : args.Holds i piece) :
    args.PointsTo (nameUse n args i).entry (paramName piece) := by
  obtain ⟨entry, hentry, hpoints⟩ := h.name
  simpa [nameUse, StringUse.entry, List.getD_eq_getElem?_getD, hentry] using hpoints

theorem CgiArgs.Holds.pointsTo_value (h : args.Holds i piece) {v : List UInt8}
    (hvalue : paramValue piece = some v) : args.PointsTo (valueUse n args i).entry v := by
  obtain ⟨entry, hentry, hpoints⟩ := h.value
  rw [hvalue] at hpoints
  simpa [valueUse, StringUse.entry, List.getD_eq_getElem?_getD, hentry] using hpoints

theorem Board.string_nameUse (h : args.Holds i piece) (n : Nat) :
    b.string (nameUse n args i) = paramName piece :=
  Board.string_of_pointsTo b (u := nameUse n args i) h.pointsTo_name

theorem Board.string_valueUse (h : args.Holds i piece) {v : List UInt8}
    (hvalue : paramValue piece = some v) (n : Nat) : b.string (valueUse n args i) = v :=
  Board.string_of_pointsTo b (u := valueUse n args i) (h.pointsTo_value hvalue)

theorem CgiArgs.Holds.nameUse_exists (h : args.Holds i piece) (hi : i < n) :
    (nameUse n args i).Exists :=
  ⟨hi, _, h.pointsTo_name⟩

/-- A value exists if and only if its piece has a `=`. -/
theorem CgiArgs.Holds.valueUse_exists_iff (h : args.Holds i piece) (hi : i < n) :
    (valueUse n args i).Exists ↔ 61 ∈ piece := by
  constructor
  · rintro ⟨-, s, before, rest, -, hentry, -⟩
    by_contra hmem
    obtain ⟨entry, hget, hnone⟩ := h.value
    have hvalue : paramValue piece = none := by simp [paramValue, hmem]
    rw [hvalue] at hnone
    simp [valueUse, StringUse.entry, List.getD_eq_getElem?_getD, hget, hnone] at hentry
  · intro hmem
    obtain ⟨v, hv⟩ := Option.isSome_iff_exists.mp (paramValue_isSome.mpr hmem)
    exact ⟨hi, v, h.pointsTo_value hv⟩

end Strings

section Comparing

variable (value : StringUse) (b : Board)

@[simp] theorem compareRele_nullString (l : List (List UInt8 × Relay)) :
    (Board.compareRele value l b).nullString = b.nullString := by
  induction l generalizing b with
  | nil => rfl
  | cons entry rest ih =>
      rw [Board.compareRele]
      split
      · rfl
      · exact ih _

/-- At least the first comparison reads the value. -/
theorem mem_uses_compareRele {l : List (List UInt8 × Relay)} (hl : l ≠ []) (u : StringUse) :
    u ∈ (Board.compareRele value l b).uses ↔ u ∈ b.uses ∨ u = value := by
  induction l generalizing b with
  | nil => exact absurd rfl hl
  | cons entry rest ih =>
      rw [Board.compareRele]
      split
      · simp
      · cases rest with
        | nil => simp [Board.compareRele]
        | cons entry' rest =>
            rw [ih _ (List.cons_ne_nil _ _)]
            simp

theorem compareRele_relays (l : List (List UInt8 × Relay)) (r : Relay) :
    (Board.compareRele value l b).relays r = true ↔
      b.relays r = true ∨ (l.find? (·.1 == b.string value)).map Prod.snd = some r := by
  induction l generalizing b with
  | nil => simp [Board.compareRele]
  | cons entry rest ih =>
      rw [Board.compareRele, Board.string_use]
      split
      next heq =>
        rw [List.find?_cons_of_pos (by simp [heq])]
        by_cases hr : r = entry.2
        · simp [Board.writePinOutput, hr]
        · simp [Board.writePinOutput, hr, Ne.symm hr]
      next hne =>
        rw [List.find?_cons_of_neg (by simpa using Ne.symm hne)]
        exact ih _

theorem find_releValues (s : List UInt8) (r : Relay) :
    (releValues.find? (·.1 == s)).map Prod.snd = some r ↔ s = r.text := by
  constructor
  · intro h
    obtain ⟨entry, hfind, rfl⟩ := Option.map_eq_some_iff.mp h
    have hs := List.find?_some hfind
    have hmem := List.mem_of_find?_eq_some hfind
    simp only [releValues, List.mem_cons, List.not_mem_nil, or_false] at hmem
    rcases hmem with rfl | rfl | rfl | rfl | rfl <;> exact (eq_of_beq hs).symm
  · rintro rfl
    cases r <;> decide

end Comparing

section Rounds

variable (n : Nat) (args : CgiArgs) (b : Board)

theorem releParam_eq (i : Nat) :
    Board.releParam n args b i =
      if b.string (nameUse n args i) = chars "rele" then
        Board.compareRele (valueUse n args i) releValues (b.use (nameUse n args i))
      else b.use (nameUse n args i) := rfl

@[simp] theorem releParam_nullString (i : Nat) :
    (Board.releParam n args b i).nullString = b.nullString := by
  rw [releParam_eq]
  split <;> simp

theorem mem_uses_releParam (i : Nat) (u : StringUse) :
    u ∈ (Board.releParam n args b i).uses ↔
      u ∈ b.uses ∨ u = nameUse n args i ∨
        (b.string (nameUse n args i) = chars "rele" ∧ u = valueUse n args i) := by
  rw [releParam_eq]
  split
  next heq =>
    rw [mem_uses_compareRele _ _ (by simp [releValues])]
    simp [heq, or_assoc]
  next hne => simp [hne]

theorem releParam_relays (i : Nat) (r : Relay) :
    (Board.releParam n args b i).relays r = true ↔
      b.relays r = true ∨
        (b.string (nameUse n args i) = chars "rele" ∧
          b.string (valueUse n args i) = r.text) := by
  rw [releParam_eq]
  split
  next heq =>
    rw [compareRele_relays, find_releValues]
    simp [heq]
  next hne => simp [hne]

/-- The rounds of the loop, as far as they have got. -/
theorem releParams_spec (k : Nat) :
    ((List.range k).foldl (Board.releParam n args) b).nullString = b.nullString ∧
      (∀ u, u ∈ ((List.range k).foldl (Board.releParam n args) b).uses ↔
        u ∈ b.uses ∨ ∃ i < k, u = nameUse n args i ∨
          (b.string (nameUse n args i) = chars "rele" ∧ u = valueUse n args i)) ∧
      ∀ r, ((List.range k).foldl (Board.releParam n args) b).relays r = true ↔
        b.relays r = true ∨ ∃ i < k, b.string (nameUse n args i) = chars "rele" ∧
          b.string (valueUse n args i) = r.text := by
  induction k with
  | zero => simp
  | succ k ih =>
      obtain ⟨hnull, huses, hrelays⟩ := ih
      have hstring := Board.string_congr hnull
      rw [List.range_succ, List.foldl_append, List.foldl_cons, List.foldl_nil]
      refine ⟨by simp [hnull], ?_, ?_⟩
      · intro u
        rw [mem_uses_releParam, huses, hstring]
        simp only [Nat.lt_succ_iff_lt_or_eq, or_and_right, exists_or, exists_eq_left, or_assoc]
      · intro r
        rw [releParam_relays, hrelays, hstring, hstring]
        simp only [Nat.lt_succ_iff_lt_or_eq, or_and_right, exists_or, exists_eq_left, or_assoc]

end Rounds

section Handler

variable (b : Board) (n : Nat) (args : CgiArgs)

theorem Board.uses_endCall : b.flagRelay.setDatetime.flagCgi.uses = b.uses := by
  rw [Board.flagCgi, Board.setDatetime, Board.flagRelay]

theorem Board.relays_endCall : b.flagRelay.setDatetime.flagCgi.relays = b.relays := by
  rw [Board.flagCgi, Board.setDatetime, Board.flagRelay]

theorem Board.uses_startCall : b.startCall.getDatetime.uses = [] := rfl

theorem Board.uses_relaysOff : b.relaysOff.uses = b.uses := rfl

/-- Up to the loop nothing changes the strings. -/
theorem Board.string_relaysOff : b.startCall.getDatetime.relaysOff.string = b.string := by
  funext u
  apply Board.string_congr
  rfl

theorem Board.relays_relaysOff (r : Relay) : b.relaysOff.relays r = false := by
  cases r <;> rfl

theorem processaCgi_rele :
    (processaCgi b 0 n args).1 =
      ((List.range n).foldl (Board.releParam n args)
        b.startCall.getDatetime.relaysOff).flagRelay.setDatetime.flagCgi := rfl

theorem mem_uses_processaCgi_rele (u : StringUse) :
    u ∈ (processaCgi b 0 n args).1.uses ↔
      ∃ i < n, u = nameUse n args i ∨
        (b.string (nameUse n args i) = chars "rele" ∧ u = valueUse n args i) := by
  rw [processaCgi_rele, Board.uses_endCall, (releParams_spec ..).2.1, Board.uses_relaysOff,
    Board.uses_startCall, Board.string_relaysOff]
  simp

theorem processaCgi_rele_relays (r : Relay) :
    (processaCgi b 0 n args).1.relays r = true ↔
      ∃ i < n, b.string (nameUse n args i) = chars "rele" ∧
        b.string (valueUse n args i) = r.text := by
  rw [processaCgi_rele, Board.relays_endCall, (releParams_spec ..).2.2, Board.relays_relaysOff,
    Board.string_relaysOff]
  simp

/-- The other two handlers read the first value only. -/
theorem uses_processaCgi_clock {i : Nat} (hi : i = 1 ∨ i = 2) :
    (processaCgi b i n args).1.uses = [valueUse n args 0] := by
  rcases hi with rfl | rfl <;> rfl

end Handler

section Query

variable (root : List FsdataFile) (ssiHandler : Nat → Nat → Insert)

/-- The parameters that a handler reads are there: each `rele` among those that fit into the
arrays has a value, or the first parameter has one. -/
def ParametersGiven (iIndex : Nat) (query : Option (List UInt8)) : Prop :=
  if iIndex = 0 then
    ∀ p ∈ (paramPieces query).take maxCgiParameters, paramName p = chars "rele" → 61 ∈ p
  else ∃ p, (paramPieces query).head? = some p ∧ 61 ∈ p

/-- The parameters that fit into the arrays, by their index. -/
theorem mem_take_iff {l : List (List UInt8)} {k : Nat} {p : List UInt8} :
    p ∈ l.take k ↔ ∃ i < min k l.length, l[i]? = some p := by
  rw [List.mem_iff_getElem?]
  constructor
  · rintro ⟨i, hi⟩
    have hlt := (List.getElem?_eq_some_iff.mp hi).1
    rw [List.length_take] at hlt
    refine ⟨i, hlt, ?_⟩
    rwa [List.getElem?_take_of_lt (by omega)] at hi
  · rintro ⟨i, hlt, hi⟩
    exact ⟨i, by rwa [List.getElem?_take_of_lt (by omega)]⟩

/-- A handler reads only strings that exist if and only if its parameters are given. -/
theorem cgi_strings_exist_iff {i : Nat} {cgi : Cgi Board} (hcgi : tabelaCgi[i]? = some cgi)
    {query : Option (List UInt8)} (hquery : ∀ s ∈ query, IsQuery s) {c : Ctx Board}
    (hfit : c.hs.ArraysFit) :
    (∀ u ∈ (callCgi (boardSite root ssiHandler) (requestTarget cgi.name query) c).2.2.sys.app.uses,
      u.Exists) ↔ ParametersGiven i query := by
  obtain ⟨cut, c', hcall, happ⟩ := callCgi_board root ssiHandler hcgi query c
  obtain ⟨hcount, hholds⟩ := extractUriParameters_spec hquery hfit
  rw [hcall]
  simp only [happ]
  generalize extractUriParameters query c.hs = extracted at hcount hholds
  obtain ⟨n, args⟩ := extracted
  simp only at hcount hholds
  subst hcount
  have hbound : i < 3 := (List.getElem?_eq_some_iff.mp hcgi).1
  rcases Nat.eq_zero_or_pos i with rfl | hpos
  · simp only [ParametersGiven, if_true, mem_uses_processaCgi_rele]
    constructor
    · intro h p hp hname
      obtain ⟨j, hj, hpiece⟩ := mem_take_iff.mp hp
      have hold := hholds j p hpiece (by omega)
      have hstring := c.sys.app.string_nameUse hold (min maxCgiParameters (paramPieces query).length)
      exact (hold.valueUse_exists_iff hj).mp (h _ ⟨j, hj, Or.inr ⟨hstring.trans hname, rfl⟩⟩)
    · rintro h u ⟨j, hj, hu⟩
      obtain ⟨p, hpiece⟩ : ∃ p, (paramPieces query)[j]? = some p :=
        ⟨_, List.getElem?_eq_getElem (by omega)⟩
      have hold := hholds j p hpiece (by omega)
      rcases hu with rfl | ⟨hname, rfl⟩
      · exact hold.nameUse_exists hj
      · rw [Board.string_nameUse _ hold] at hname
        exact (hold.valueUse_exists_iff hj).mpr (h p (mem_take_iff.mpr ⟨j, hj, hpiece⟩) hname)
  · -- the clock reads the value of the first parameter, whether there is one or not
    rw [uses_processaCgi_clock _ _ _ (by omega)]
    simp only [ParametersGiven, Nat.ne_of_gt hpos, if_false, List.mem_singleton, forall_eq]
    cases hpieces : paramPieces query with
    | nil => simp [StringUse.Exists, valueUse]
    | cons p rest =>
        rw [hpieces] at hholds
        have hold := hholds 0 p rfl (by decide)
        rw [hold.valueUse_exists_iff (by simp [maxCgiParameters])]
        simp

theorem cgi_strings_exist_trial :
    ParametersGiven 1 (some (chars "data=x")) ∧
      ∀ u ∈ (callCgi trialBoardSite (requestTarget (chars "/data.cgi") (some (chars "data=x")))
        (.trial (.trial 0 0))).2.2.sys.app.uses, u.Exists := by
  have hquery : ∀ s ∈ some (chars "data=x"), IsQuery s := IsQuery.of_some ⟨by decide, by decide⟩
  have hgiven : ParametersGiven 1 (some (chars "data=x")) := ⟨chars "data=x", by decide, by decide⟩
  refine ⟨hgiven, ?_⟩
  apply (cgi_strings_exist_iff [] (fun _ _ => Insert.empty) (i := 1)
    rfl hquery (c := .trial (.trial 0 0)) httpStateInit_arraysFit).mpr
  exact hgiven

/-- A request for `/data.cgi` without a query reads a value that is not there. -/
theorem cgi_string_missing :
    ¬∀ u ∈ (callCgi trialBoardSite (requestTarget (chars "/data.cgi") none)
        (.trial (.trial 0 0))).2.2.sys.app.uses, u.Exists := by
  obtain ⟨cut, c', hcall, happ⟩ := callCgi_board [] (fun _ _ => Insert.empty) (i := 1) rfl none
    (.trial (.trial 0 0))
  intro h
  have hread := h (valueUse 0 (extractUriParameters none httpStateInit).2 0) (by
    rw [trialBoardSite, hcall, happ, uses_processaCgi_clock _ _ _ (Or.inl rfl)]
    exact List.mem_singleton_self _)
  exact Nat.not_lt_zero _ hread.1

/-- After `/rele.cgi` a relay is on if and only if its value has been given to `rele`. -/
theorem relays_follow_query {q : List UInt8} (hq : IsQuery q)
    (hvalues : ∀ p ∈ paramPieces (some q), paramName p = chars "rele" → 61 ∈ p)
    {c : Ctx Board} {hs : HttpState} (hcell : c.cell = .live hs) (hfit : hs.ArraysFit)
    (o : Oracle) (is09 : Bool) :
    (∀ r : Relay,
      (httpFindFile (boardSite root ssiHandler) o
          (requestTarget (chars "/rele.cgi") (some q)) is09 c).2.sys.app.relays r = true ↔
        ∃ p ∈ (paramPieces (some q)).take maxCgiParameters,
          paramName p = chars "rele" ∧ paramValue p = some r.text) ∧
      (httpFindFile (boardSite root ssiHandler) o
          (requestTarget (chars "/rele.cgi") (some q)) is09 c).2.hs.handle =
        (openNamedFile root (chars "/index.shtml")).1 := by
  have hcgi : tabelaCgi[0]? = some { name := chars "/rele.cgi", handler := processaCgi } := rfl
  obtain ⟨happ, hhandle⟩ := httpFindFile_board root ssiHandler hcgi
    (some q) hcell o is09
  refine ⟨fun r => ?_, hhandle⟩
  have hcell' : c.hs = hs := by rw [Ctx.hs, hcell]
  obtain ⟨hcount, hholds⟩ := extractUriParameters_spec (IsQuery.of_some hq)
    (hcell' ▸ hfit : c.hs.ArraysFit)
  rw [happ]
  generalize extractUriParameters (some q) c.hs = extracted at hcount hholds
  obtain ⟨n, args⟩ := extracted
  simp only at hcount hholds
  subst hcount
  rw [processaCgi_rele_relays]
  constructor
  · -- the handler compares the value only if the name is right, so it has one
    rintro ⟨j, hj, hname, hvalue⟩
    obtain ⟨p, hpiece⟩ : ∃ p, (paramPieces (some q))[j]? = some p :=
      ⟨_, List.getElem?_eq_getElem (by omega)⟩
    have hold := hholds j p hpiece (by omega)
    rw [Board.string_nameUse _ hold] at hname
    obtain ⟨v, hv⟩ := Option.isSome_iff_exists.mp
      (paramValue_isSome.mpr (hvalues p (List.mem_of_getElem? hpiece) hname))
    rw [Board.string_valueUse _ hold hv] at hvalue
    exact ⟨p, mem_take_iff.mpr ⟨j, hj, hpiece⟩, hname, hvalue ▸ hv⟩
  · rintro ⟨p, hp, hname, hvalue⟩
    obtain ⟨j, hj, hpiece⟩ := mem_take_iff.mp hp
    have hold := hholds j p hpiece (by omega)
    exact ⟨j, hj, (Board.string_nameUse _ hold _).trans hname,
      Board.string_valueUse _ hold hvalue _⟩

theorem relays_follow_query_trial :
    (httpFindFile trialBoardSite .willing
        (requestTarget (chars "/rele.cgi") (some (chars "rele=2&x&rele=5=&rele=2"))) false
        (.trial (.trial 0 0))).2.sys.app.relays .shieldRelay2 = true ∧
      (httpFindFile trialBoardSite .willing
        (requestTarget (chars "/rele.cgi") (some (chars "rele=2&x&rele=5=&rele=2"))) false
        (.trial (.trial 0 0))).2.sys.app.relays .onBoardRelay = false := by
  have hpieces : paramPieces (some (chars "rele=2&x&rele=5=&rele=2")) =
      [chars "rele=2", chars "x", chars "rele=5=", chars "rele=2"] := by decide
  have hrelays := (relays_follow_query [] (fun _ _ => Insert.empty)
    (q := chars "rele=2&x&rele=5=&rele=2") ⟨by decide, by decide⟩
    (by rw [hpieces]; decide) (c := .trial (.trial 0 0)) rfl httpStateInit_arraysFit
    .willing false).1
  rw [hpieces] at hrelays
  constructor
  · exact (hrelays .shieldRelay2).mpr ⟨chars "rele=2", by decide, by decide, by decide⟩
  · apply Bool.eq_false_iff.mpr
    intro hon
    exact absurd ((hrelays .onBoardRelay).mp hon) (by decide)

end Query

end Meu1oARM
