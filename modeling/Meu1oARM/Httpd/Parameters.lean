import Mathlib.Data.List.TakeWhile
import Meu1oARM.Httpd.Cgi

/-! # What a handler finds in its arrays

The parameter string is cut in place at every `&` and at the first `=` of every
piece. Afterwards the arrays point to one string for the name of each piece, and
to one for its value if the piece has a `=`.
-/

namespace Meu1oARM

open CString

/-- The pieces of a parameter string. An empty string has none. -/
def paramPieces (query : Option (List UInt8)) : List (List UInt8) :=
  match query with
  | none | some [] => []
  | some s => s.splitOn 38

/-- The name of a parameter: what stands in front of the first `=`. -/
def paramName (piece : List UInt8) : List UInt8 := piece.takeWhile (· ≠ 61)

/-- The value of a parameter: what stands behind the first `=`. -/
def paramValue (piece : List UInt8) : Option (List UInt8) :=
  if 61 ∈ piece then some ((piece.dropWhile (· ≠ 61)).drop 1) else none

/-- An entry of an array points to a string inside the parameter string. -/
def CgiArgs.PointsTo (args : CgiArgs) (entry : Option Nat) (s : List UInt8) : Prop :=
  ∃ before rest, args.buf = before ++ s ++ 0 :: rest ∧ entry = some before.length ∧ 0 ∉ s

/-- The `i`-th entries of the arrays stand for the piece. -/
structure CgiArgs.Holds (args : CgiArgs) (i : Nat) (piece : List UInt8) : Prop where
  name : ∃ entry, args.params[i]? = some entry ∧ args.PointsTo entry (paramName piece)
  value : ∃ entry, args.paramVals[i]? = some entry ∧
    match paramValue piece with
    | none => entry = none
    | some v => args.PointsTo entry v

/-- A parameter string as it can stand in a URI. -/
def IsQuery (s : List UInt8) : Prop := 0 ∉ s ∧ 32 ∉ s

theorem IsQuery.of_some {q : List UInt8} (h : IsQuery q) : ∀ s ∈ some q, IsQuery s := by
  rintro s hs
  obtain rfl := Option.some.inj hs
  exact h

/-- The piece after its first `=` has been replaced. -/
def cutPiece (piece : List UInt8) : List UInt8 :=
  match paramValue piece with
  | none => piece
  | some v => paramName piece ++ 0 :: v

section Pieces

theorem paramPiece_eq {piece v : List UInt8} (h : paramValue piece = some v) :
    piece = paramName piece ++ 61 :: v := by
  unfold paramValue at h
  split at h
  next hmem =>
    obtain rfl : (piece.dropWhile (· ≠ 61)).drop 1 = v := by simpa using h
    have hne : piece.dropWhile (· ≠ 61) ≠ [] := by
      intro hnil
      have hall := List.dropWhile_eq_nil_iff.mp hnil 61 hmem
      simp at hall
    have hhead : (piece.dropWhile (· ≠ 61)).head hne = 61 := by
      simpa using List.head_dropWhile_not (fun b : UInt8 => decide (b ≠ 61)) hne
    have hcons := List.cons_head_tail hne
    rw [hhead] at hcons
    calc
      piece = paramName piece ++ piece.dropWhile (· ≠ 61) :=
        List.takeWhile_append_dropWhile.symm
      _ = paramName piece ++ 61 :: (piece.dropWhile (· ≠ 61)).drop 1 := by
        rw [List.drop_one, hcons]
  next => exact absurd h nofun

theorem notMem_of_paramValue {piece : List UInt8} (h : paramValue piece = none) : 61 ∉ piece := by
  intro hmem
  simp [paramValue, hmem] at h

theorem paramValue_isSome {piece : List UInt8} : (paramValue piece).isSome ↔ 61 ∈ piece := by
  unfold paramValue
  split <;> simp [*]

theorem paramName_of_none {piece : List UInt8} (h : paramValue piece = none) :
    paramName piece = piece := by
  have hmem := notMem_of_paramValue h
  unfold paramName
  refine List.takeWhile_eq_self_iff.mpr fun b hb => ?_
  have hne : b ≠ 61 := fun heq => hmem (heq ▸ hb)
  simpa using hne

theorem notMem_paramName (piece : List UInt8) : 61 ∉ paramName piece := by
  intro hmem
  have hne := List.mem_takeWhile_imp hmem
  simp at hne

theorem paramName_subset {piece : List UInt8} {b : UInt8} (h : b ∉ piece) :
    b ∉ paramName piece :=
  fun hmem => h ((List.takeWhile_sublist _).subset hmem)

theorem paramValue_subset {piece v : List UInt8} (h : paramValue piece = some v) {b : UInt8}
    (hb : b ∉ piece) : b ∉ v := by
  intro hmem
  apply hb
  rw [paramPiece_eq h]
  simp [hmem]

@[simp] theorem length_cutPiece (piece : List UInt8) : (cutPiece piece).length = piece.length := by
  cases h : paramValue piece with
  | none => simp [cutPiece, h]
  | some v =>
      have hpiece := congrArg List.length (paramPiece_eq h)
      simp only [List.length_append, List.length_cons] at hpiece
      simp [cutPiece, h, hpiece]

end Pieces

section Strchr

variable {done s rest : List UInt8} {ch : UInt8}

theorem strchr_eq (hzero : 0 ∉ s) :
    strchr (done ++ s ++ 0 :: rest) done.length ch =
      (s.findIdx? (· == ch)).map (done.length + ·) := by
  have hdrop : (done ++ s ++ 0 :: rest).drop done.length = s ++ 0 :: rest := by
    rw [List.append_assoc, List.drop_left]
  rw [strchr, hdrop, cstr_terminated hzero]

theorem strchr_none (hzero : 0 ∉ s) (h : ch ∉ s) :
    strchr (done ++ s ++ 0 :: rest) done.length ch = none := by
  rw [strchr_eq hzero, Option.map_eq_none_iff, List.findIdx?_eq_none_iff]
  intro b hb
  have hne : b ≠ ch := fun heq => h (heq ▸ hb)
  simpa using hne

theorem strchr_some {t : List UInt8} (hzero : 0 ∉ s ++ ch :: t) (h : ch ∉ s) :
    strchr (done ++ (s ++ ch :: t) ++ 0 :: rest) done.length ch =
      some (done.length + s.length) := by
  have hnone : s.findIdx? (· == ch) = none := by
    rw [List.findIdx?_eq_none_iff]
    intro b hb
    have hne : b ≠ ch := fun heq => h (heq ▸ hb)
    simpa using hne
  rw [strchr_eq hzero, List.findIdx?_append, hnone]
  simp [List.findIdx?_cons]

theorem set_append_length (a b : List UInt8) (x y : UInt8) (t : List UInt8) :
    (a ++ (b ++ x :: t)).set (a.length + b.length) y = a ++ (b ++ y :: t) := by
  rw [List.set_append_right _ _ (Nat.le_add_right ..), Nat.add_sub_cancel_left,
    List.set_append_right _ _ (Nat.le_refl _), Nat.sub_self, List.set_cons_zero]

end Strchr

section Loop

/-- Where the value of a piece starts, when the piece starts at `start`. -/
def valueEntry (start : Nat) (piece : List UInt8) : Option Nat :=
  (paramValue piece).map fun _ => start + (paramName piece).length + 1

/-- What one round of the loop leaves: the piece behind `done` is cut, and both arrays
point into it. -/
def CgiArgs.cut (args : CgiArgs) (loop : Nat) (done piece rest : List UInt8) : CgiArgs where
  buf := done ++ cutPiece piece ++ 0 :: rest
  params := args.params.set loop (some done.length)
  paramVals := args.paramVals.set loop (valueEntry done.length piece)

/-- The part of a round that looks for the `=`. -/
theorem extractUriParametersLoop_equals {done piece rest : List UInt8} (hzero : 0 ∉ piece)
    (fuel loop : Nat) (pair : Option Nat) (args : CgiArgs) :
    (match strchr (done ++ piece ++ 0 :: rest) done.length 61 with
      | some equals =>
        extractUriParametersLoop fuel (loop + 1) pair
          { buf := (done ++ piece ++ 0 :: rest).set equals 0
            params := args.params.set loop (some done.length)
            paramVals := args.paramVals.set loop (some (equals + 1)) }
      | none =>
        extractUriParametersLoop fuel (loop + 1) pair
          { buf := done ++ piece ++ 0 :: rest
            params := args.params.set loop (some done.length)
            paramVals := args.paramVals.set loop none }) =
      extractUriParametersLoop fuel (loop + 1) pair (args.cut loop done piece rest) := by
  cases hvalue : paramValue piece with
  | none =>
      rw [strchr_none hzero (notMem_of_paramValue hvalue)]
      simp [CgiArgs.cut, cutPiece, valueEntry, hvalue]
  | some v =>
      have hpiece := paramPiece_eq hvalue
      have hstrchr : strchr (done ++ piece ++ 0 :: rest) done.length 61 =
          some (done.length + (paramName piece).length) := by
        conv_lhs => rw [hpiece]
        exact strchr_some (hpiece ▸ hzero) (notMem_paramName piece)
      -- the equals sign becomes the terminator of the name
      have hset : (done ++ piece ++ 0 :: rest).set (done.length + (paramName piece).length) 0 =
          done ++ cutPiece piece ++ 0 :: rest := by
        have hsplit : done ++ piece ++ 0 :: rest =
            done ++ (paramName piece ++ 61 :: (v ++ 0 :: rest)) := by
          conv_lhs => rw [hpiece]
          simp
        rw [hsplit, set_append_length]
        simp [cutPiece, hvalue]
      simp only [hstrchr, hset]
      simp [CgiArgs.cut, valueEntry, hvalue]

/-- A round on the last piece ends the loop. -/
theorem extractUriParametersLoop_last {done piece : List UInt8} {args : CgiArgs}
    (hbuf : args.buf = done ++ piece ++ [0]) (hzero : 0 ∉ piece) (hspace : 32 ∉ piece)
    (hamp : 38 ∉ piece) (fuel loop : Nat) :
    extractUriParametersLoop (fuel + 1) loop (some done.length) args =
      (loop + 1, args.cut loop done piece []) := by
  rw [extractUriParametersLoop]
  simp only [hbuf, strchr_none hzero hamp, strchr_none hzero hspace]
  refine (extractUriParametersLoop_equals hzero fuel loop none args).trans ?_
  cases fuel <;> rfl

/-- A round on any other piece goes on behind it. -/
theorem extractUriParametersLoop_next {done piece rest : List UInt8} {args : CgiArgs}
    (hbuf : args.buf = done ++ (piece ++ 38 :: rest) ++ [0]) (hzero : 0 ∉ piece ++ 38 :: rest)
    (hamp : 38 ∉ piece) (fuel loop : Nat) :
    extractUriParametersLoop (fuel + 1) loop (some done.length) args =
      extractUriParametersLoop fuel (loop + 1) (some (done ++ cutPiece piece ++ [0]).length)
        (args.cut loop done piece (rest ++ [0])) := by
  have hset : (done ++ (piece ++ 38 :: rest) ++ [0]).set (done.length + piece.length) 0 =
      done ++ piece ++ 0 :: (rest ++ [0]) := by
    rw [List.append_assoc, List.append_assoc, List.cons_append, set_append_length,
      List.append_assoc]
  have hlength : (done ++ cutPiece piece ++ [0]).length = done.length + piece.length + 1 := by
    simp
    omega
  rw [extractUriParametersLoop, hlength]
  simp only [hbuf, strchr_some hzero hamp, hset]
  exact extractUriParametersLoop_equals (fun hmem => hzero (List.mem_append_left _ hmem)) ..

/-- A round writes the entries of its piece, and leaves the ones before it alone. -/
theorem CgiArgs.Holds.cut {args args' : CgiArgs} {loop : Nat} {done piece rest : List UInt8}
    (hzero : 0 ∉ piece) (hparams : loop < args.params.length)
    (hvals : loop < args.paramVals.length)
    (hbuf : ∃ tail, args'.buf = done ++ cutPiece piece ++ [0] ++ tail)
    (hfirst : ∀ j ≤ loop, args'.params[j]? = (args.cut loop done piece rest).params[j]? ∧
      args'.paramVals[j]? = (args.cut loop done piece rest).paramVals[j]?) :
    args'.Holds loop piece := by
  obtain ⟨tail, hbuf⟩ := hbuf
  obtain ⟨hname, hvalue⟩ := hfirst loop (Nat.le_refl _)
  rw [CgiArgs.cut, List.getElem?_set_self hparams] at hname
  rw [CgiArgs.cut, List.getElem?_set_self hvals] at hvalue
  cases hv : paramValue piece with
  | none =>
      refine ⟨⟨_, hname, done, tail, ?_, rfl, paramName_subset hzero⟩, _, hvalue, ?_⟩
      · simp [hbuf, cutPiece, hv, paramName_of_none hv]
      · simp [hv, valueEntry]
  | some v =>
      refine ⟨⟨_, hname, done, v ++ 0 :: tail, ?_, rfl, paramName_subset hzero⟩, _, hvalue, ?_⟩
      · simp [hbuf, cutPiece, hv]
      · simp only [hv]
        refine ⟨done ++ paramName piece ++ [0], tail, ?_, ?_, paramValue_subset hv hzero⟩
        · simp [hbuf, cutPiece, hv]
        · simp [valueEntry, hv, Nat.add_assoc]

/-- The loop of `extract_uri_parameters` on the pieces that are left, when `done` has been
cut already: `n` rounds take `n` pieces. -/
structure Extracted (fuel loop : Nat) (done : List UInt8) (args : CgiArgs)
    (pieces : List (List UInt8)) (r : Nat × CgiArgs) : Prop where
  count : r.1 = loop + min fuel pieces.length
  buf : ∃ tail, r.2.buf = done ++ tail
  before : ∀ j < loop, r.2.params[j]? = args.params[j]? ∧ r.2.paramVals[j]? = args.paramVals[j]?
  holds : ∀ (i : Nat) (piece : List UInt8), pieces[i]? = some piece → i < fuel →
    r.2.Holds (loop + i) piece

/-- One round in front of the others. -/
theorem Extracted.round {fuel loop : Nat} {done piece rest : List UInt8} {args : CgiArgs}
    {pieces : List (List UInt8)} {r : Nat × CgiArgs} (hzero : 0 ∉ piece)
    (hparams : loop < args.params.length) (hvals : loop < args.paramVals.length)
    (h : Extracted fuel (loop + 1) (done ++ cutPiece piece ++ [0]) (args.cut loop done piece rest)
      pieces r) :
    Extracted (fuel + 1) loop done args (piece :: pieces) r where
  count := by
    rw [h.count, List.length_cons]
    omega
  buf := by
    obtain ⟨tail, hbuf⟩ := h.buf
    exact ⟨cutPiece piece ++ [0] ++ tail, by simp [hbuf]⟩
  before := by
    intro j hj
    obtain ⟨hname, hvalue⟩ := h.before j (by omega)
    rw [hname, hvalue]
    simp [CgiArgs.cut, List.getElem?_set_ne (show loop ≠ j by omega)]
  holds := by
    intro i p hp hi
    cases i with
    | zero =>
        obtain rfl : piece = p := by simpa using hp
        exact CgiArgs.Holds.cut hzero hparams hvals h.buf fun j hj => h.before j (by omega)
    | succ i =>
        have hholds := h.holds i p (by simpa using hp) (by omega)
        rwa [Nat.add_assoc, Nat.add_comm 1] at hholds

theorem extractUriParametersLoop_extracted (fuel : Nat) {loop : Nat} {done s : List UInt8}
    {args : CgiArgs} (hbuf : args.buf = done ++ s ++ [0]) (hs : IsQuery s)
    (hparams : loop + fuel ≤ args.params.length) (hvals : loop + fuel ≤ args.paramVals.length) :
    Extracted fuel loop done args (s.splitOn 38)
      (extractUriParametersLoop fuel loop (some done.length) args) := by
  induction fuel generalizing loop done s args with
  | zero =>
      refine ⟨by simp [extractUriParametersLoop], ⟨s ++ [0], ?_⟩, ?_, nofun⟩
      · simp [extractUriParametersLoop, hbuf]
      · intro j _
        exact ⟨rfl, rfl⟩
  | succ fuel ih =>
      by_cases hamp : 38 ∈ s
      · obtain ⟨piece, rest, rfl, hpiece⟩ := List.eq_append_cons_of_mem hamp
        have hzero : 0 ∉ piece := fun hmem => hs.1 (List.mem_append_left _ hmem)
        have hrest : IsQuery rest := by
          constructor
          · exact fun hmem => hs.1 (List.mem_append_right _ (List.mem_cons_of_mem _ hmem))
          · exact fun hmem => hs.2 (List.mem_append_right _ (List.mem_cons_of_mem _ hmem))
        rw [extractUriParametersLoop_next hbuf hs.1 hpiece,
          List.splitOn_append_cons_self_of_not_mem hpiece]
        apply Extracted.round hzero (by omega) (by omega)
        apply ih (by simp [CgiArgs.cut]) hrest
        · simp [CgiArgs.cut]
          omega
        · simp [CgiArgs.cut]
          omega
      · rw [extractUriParametersLoop_last hbuf hs.1 hs.2 hamp, List.splitOn_eq_singleton hamp]
        apply Extracted.round hs.1 (by omega) (by omega)
        refine ⟨by simp, ⟨[], by simp [CgiArgs.cut]⟩, ?_, nofun⟩
        intro j _
        exact ⟨rfl, rfl⟩

end Loop

/-- The arrays of a connection have the length that the structure declares. -/
structure HttpState.ArraysFit (hs : HttpState) : Prop where
  params : hs.params.length = maxCgiParameters
  paramVals : hs.paramVals.length = maxCgiParameters

theorem httpStateInit_arraysFit : httpStateInit.ArraysFit := ⟨rfl, rfl⟩

/-- The handler gets one entry for each of the first pieces, as many as the arrays hold. -/
theorem extractUriParameters_spec {query : Option (List UInt8)} (hquery : ∀ s ∈ query, IsQuery s)
    {hs : HttpState} (hfit : hs.ArraysFit) :
    (extractUriParameters query hs).1 = min maxCgiParameters (paramPieces query).length ∧
      ∀ (i : Nat) (piece : List UInt8), (paramPieces query)[i]? = some piece →
        i < maxCgiParameters → (extractUriParameters query hs).2.Holds i piece := by
  cases query with
  | none => exact ⟨rfl, nofun⟩
  | some s =>
      by_cases hempty : s = []
      · subst hempty
        exact ⟨rfl, nofun⟩
      · obtain ⟨b, t, rfl⟩ := List.exists_cons_of_ne_nil hempty
        have hextracted : Extracted maxCgiParameters 0 []
            { buf := b :: t ++ [0], params := hs.params, paramVals := hs.paramVals }
            ((b :: t).splitOn 38) _ :=
          extractUriParametersLoop_extracted maxCgiParameters rfl (hquery _ rfl)
            (by simp [hfit.params]) (by simp [hfit.paramVals])
        constructor
        · simpa [extractUriParameters, paramPieces] using hextracted.count
        · intro i piece hpiece hi
          simpa [extractUriParameters] using hextracted.holds i piece hpiece hi

section Grammar

/-- The parameter string is cut in place. -/
theorem length_extractUriParametersLoop (fuel loop : Nat) (pair : Option Nat) (args : CgiArgs) :
    (extractUriParametersLoop fuel loop pair args).2.buf.length = args.buf.length := by
  induction fuel generalizing loop pair args with
  | zero => rfl
  | succ fuel ih =>
      cases pair with
      | none => rfl
      | some start =>
          rw [extractUriParametersLoop]
          cases strchr args.buf start 38 with
          | some amp =>
              dsimp only
              split
              · simp [ih]
              · simp [ih]
          | none =>
              cases strchr args.buf start 32 with
              | some space =>
                  dsimp only
                  split
                  · simp [ih]
                  · simp [ih]
              | none =>
                  dsimp only
                  split
                  · simp [ih]
                  · simp [ih]

/-- The string that a pointer of the arrays points to. -/
def CgiArgs.text (args : CgiArgs) (off : Nat) : List UInt8 := cstr (args.buf.drop off)

/-- The `i`-th name, and behind a `=` the value if there is one. -/
def CgiArgs.joined (args : CgiArgs) (i : Nat) : List UInt8 :=
  (args.params.getD i none).elim [] args.text ++
    (args.paramVals.getD i none).elim [] fun off => 61 :: args.text off

variable {args : CgiArgs} {i : Nat} {piece : List UInt8}

theorem CgiArgs.PointsTo.text_eq {entry : Option Nat} {s : List UInt8}
    (h : args.PointsTo entry s) : ∃ off, entry = some off ∧ args.text off = s := by
  obtain ⟨before, rest, hbuf, rfl, hzero⟩ := h
  refine ⟨_, rfl, ?_⟩
  rw [CgiArgs.text, hbuf, List.append_assoc, List.drop_left, cstr_terminated hzero]

theorem CgiArgs.Holds.joined_eq (h : args.Holds i piece) : args.joined i = piece := by
  obtain ⟨name, hname, hpoints⟩ := h.name
  obtain ⟨value, hvalue, hmatch⟩ := h.value
  obtain ⟨off, rfl, htext⟩ := hpoints.text_eq
  have hleft : args.params.getD i none = some off := by
    rw [List.getD_eq_getElem?_getD, hname, Option.getD_some]
  have hright : args.paramVals.getD i none = value := by
    rw [List.getD_eq_getElem?_getD, hvalue, Option.getD_some]
  rw [CgiArgs.joined, hleft, hright, Option.elim_some, htext]
  cases hv : paramValue piece with
  | none =>
      simp only [hv] at hmatch
      rw [hmatch, Option.elim_none, List.append_nil, paramName_of_none hv]
  | some v =>
      simp only [hv] at hmatch
      obtain ⟨off', rfl, htext'⟩ := CgiArgs.PointsTo.text_eq hmatch
      rw [Option.elim_some, htext', ← paramPiece_eq hv]

/-- `extract_uri_parameters` cuts a query into its pieces, and every piece into a name and a
value. -/
theorem parameters_follow_grammar {query : Option (List UInt8)}
    (hquery : ∀ s ∈ query, IsQuery s) {hs : HttpState} (hfit : hs.ArraysFit) :
    (query.getD [] = [] → (extractUriParameters query hs).1 = 0) ∧
      ∀ q ∈ query, q ≠ [] →
        (extractUriParameters query hs).1 = min maxCgiParameters (q.splitOn 38).length ∧
        (extractUriParameters query hs).2.buf.length = q.length + 1 ∧
        (∀ i < (extractUriParameters query hs).1, ∃ piece, (q.splitOn 38)[i]? = some piece ∧
          (extractUriParameters query hs).2.Holds i piece) ∧
        [38].intercalate ((List.range (extractUriParameters query hs).1).map
            (extractUriParameters query hs).2.joined) =
          [38].intercalate ((q.splitOn 38).take (extractUriParameters query hs).1) ∧
        ((q.splitOn 38).length ≤ maxCgiParameters →
          [38].intercalate ((List.range (extractUriParameters query hs).1).map
            (extractUriParameters query hs).2.joined) = q) := by
  obtain ⟨hcount, hholds⟩ := extractUriParameters_spec hquery hfit
  refine ⟨?_, ?_⟩
  · intro hempty
    have hnone : paramPieces query = [] := by
      rcases query with _ | _ | ⟨b, t⟩
      · rfl
      · rfl
      · exact absurd hempty (List.cons_ne_nil b t)
    rw [hcount, hnone]
    rfl
  rintro q hq hne
  obtain rfl : query = some q := hq
  obtain ⟨b, t, rfl⟩ := List.exists_cons_of_ne_nil hne
  have hlength : (extractUriParameters (some (b :: t)) hs).2.buf.length = (b :: t).length + 1 := by
    rw [extractUriParameters, if_neg (List.cons_ne_nil b t), length_extractUriParametersLoop]
    simp
  have hpieces : paramPieces (some (b :: t)) = (b :: t).splitOn 38 := rfl
  rw [hpieces] at hcount hholds
  generalize extractUriParameters (some (b :: t)) hs = result at hcount hholds hlength ⊢
  obtain ⟨n, args⟩ := result
  obtain rfl : n = min maxCgiParameters ((b :: t).splitOn 38).length := hcount
  -- each part of the string holds the piece of the query that it stands for
  have hparts : ∀ i < min maxCgiParameters ((b :: t).splitOn 38).length,
      ∃ piece, ((b :: t).splitOn 38)[i]? = some piece ∧ args.Holds i piece := by
    intro i hi
    have hget := List.getElem?_eq_getElem (l := (b :: t).splitOn 38) (i := i) (by omega)
    exact ⟨_, hget, hholds i _ hget (by omega)⟩
  have hjoined : (List.range (min maxCgiParameters ((b :: t).splitOn 38).length)).map args.joined =
      ((b :: t).splitOn 38).take (min maxCgiParameters ((b :: t).splitOn 38).length) := by
    apply List.ext_getElem?
    intro i
    rcases Nat.lt_or_ge i (min maxCgiParameters ((b :: t).splitOn 38).length) with hi | hi
    · obtain ⟨piece, hget, hold⟩ := hparts i hi
      rw [List.getElem?_take_of_lt hi, hget, List.getElem?_map, List.getElem?_range hi,
        Option.map_some, hold.joined_eq]
    · rw [List.getElem?_eq_none (by simpa using hi), List.getElem?_eq_none (by simp; omega)]
  refine ⟨rfl, hlength, hparts, congrArg _ hjoined, fun hfew => ?_⟩
  rw [hjoined, Nat.min_eq_right hfew, List.take_length]
  exact List.intercalate_splitOn _

/-- A query with an empty value, a value with a `=` in it and no value at all. -/
theorem parameters_follow_grammar_trial :
    (extractUriParameters (some (chars "a=&b=c=d&e")) httpStateInit).1 = 3 ∧
      [38].intercalate ((List.range 3).map
        (extractUriParameters (some (chars "a=&b=c=d&e")) httpStateInit).2.joined) =
      chars "a=&b=c=d&e" := by
  have hpieces : ((chars "a=&b=c=d&e").splitOn 38).length = 3 := by decide
  have hquery : IsQuery (chars "a=&b=c=d&e") := ⟨by decide, by decide⟩
  obtain ⟨hcount, -, -, -, hjoined⟩ :=
    (parameters_follow_grammar hquery.of_some httpStateInit_arraysFit).2 _ rfl (by decide)
  rw [hpieces] at hcount hjoined
  have hthree : (extractUriParameters (some (chars "a=&b=c=d&e")) httpStateInit).1 = 3 := hcount
  rw [hthree] at hjoined
  exact ⟨hthree, hjoined (by decide)⟩

end Grammar

end Meu1oARM
