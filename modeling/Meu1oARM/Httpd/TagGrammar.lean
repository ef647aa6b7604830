import Mathlib.Tactic.IntervalCases
import Meu1oARM.Foundation.Tokens
import Meu1oARM.Httpd.TagScan

/-! # The grammar of tags

A tag is a lead-in, a name and a lead-out, with white space around the name. The scanner
reports only tags. It misses one that begins while it is still reading an earlier
beginning of a tag, because it does not look again at the character that ends one.
-/

namespace Meu1oARM

open Machine CString Tokens

/-- A byte of a tag name. -/
def isNameByte (b : UInt8) : Bool := b != tagLeadOut.getD 0 0 && !isTagSpace b

structure IsTagName (name : List UInt8) : Prop where
  ne_nil : name ≠ []
  length_le : name.length ≤ maxTagNameLen
  plain : ∀ b ∈ name, isNameByte b = true

def IsTagSpaces (ws : List UInt8) : Prop := ∀ b ∈ ws, isTagSpace b = true

/-- The tags of the documentation, and their names. -/
inductive IsTag : List UInt8 → List UInt8 → Prop
  | intro {before name behind : List UInt8} (hbefore : IsTagSpaces before)
      (hname : IsTagName name) (hbehind : IsTagSpaces behind) :
      IsTag (tagLeadIn ++ (before ++ (name ++ (behind ++ tagLeadOut)))) name

/-- A beginning of a tag that is not all of it. -/
def IsStart (t : List UInt8) : Prop :=
  t ≠ [] ∧ ∃ rest name, rest ≠ [] ∧ IsTag (t ++ rest) name

/-- What the scanner is in the middle of, when it has read `t` since it was idle. -/
inductive Reading : List UInt8 → Scan → Prop
  | leadin {n : Nat} (hpos : 0 < n) (hlt : n < tagLeadIn.length) :
      Reading (tagLeadIn.take n) (.leadin n)
  | name {before xs : List UInt8} (hbefore : IsTagSpaces before) (hlength : xs.length ≤ maxTagNameLen)
      (hplain : ∀ b ∈ xs, isNameByte b = true) : Reading (tagLeadIn ++ (before ++ xs)) (.name xs)
  | leadout {before name behind : List UInt8} {n : Nat} (hbefore : IsTagSpaces before)
      (hname : IsTagName name) (hbehind : IsTagSpaces behind) (hmore : behind ≠ [] ∨ 0 < n)
      (hlt : n < tagLeadOut.length) :
      Reading (tagLeadIn ++ (before ++ (name ++ (behind ++ tagLeadOut.take n))))
        (.leadout n (cstr name))

/-! ## Beginnings of tags -/

theorem prefix_append_cases {B : Type*} {p as bs : List B} (h : p <+: as ++ bs) :
    p <+: as ∨ ∃ q, p = as ++ q ∧ q <+: bs := by
  rcases Nat.le_total p.length as.length with hle | hle
  · exact Or.inl (List.prefix_of_prefix_length_le h (List.prefix_append _ _) hle)
  · obtain ⟨q, rfl⟩ := List.prefix_of_prefix_length_le (List.prefix_append as bs) h hle
    exact Or.inr ⟨q, rfl, (List.prefix_append_right_inj as).mp h⟩

theorem IsTagSpaces.of_prefix {ws p : List UInt8} (h : IsTagSpaces ws) (hp : p <+: ws) :
    IsTagSpaces p := fun b hb => h b (hp.subset hb)

theorem isTagSpaces_nil : IsTagSpaces [] := nofun

theorem IsTagSpaces.concat {ws : List UInt8} (h : IsTagSpaces ws) {b : UInt8}
    (hb : isTagSpace b = true) : IsTagSpaces (ws ++ [b]) := by
  intro b' hb'
  rcases List.mem_append.mp hb' with hmem | hmem
  · exact h b' hmem
  · obtain rfl := List.mem_singleton.mp hmem
    exact hb

theorem reading_leadin : Reading tagLeadIn (.name []) := by
  have hreading : Reading (tagLeadIn ++ ([] ++ [])) (.name []) :=
    .name isTagSpaces_nil (Nat.zero_le _) nofun
  simpa using hreading

/-- A beginning of a tag is read without a rest. -/
theorem IsStart.reading {t : List UInt8} (h : IsStart t) : ∃ s, Reading t s := by
  obtain ⟨hne, rest, name, hrest, htag⟩ := h
  generalize hall : t ++ rest = all at htag
  cases htag with
  | @intro before name behind hbefore hname hbehind =>
      have hpart : t <+: tagLeadIn ++ (before ++ (name ++ (behind ++ tagLeadOut))) := ⟨rest, hall⟩
      -- each case is one part of the tag in which the beginning may end
      rcases prefix_append_cases hpart with hleadin | ⟨q₁, rfl, hq₁⟩
      · rw [List.prefix_iff_eq_take] at hleadin
        have hpos := List.length_pos_of_ne_nil hne
        rcases Nat.lt_or_ge t.length tagLeadIn.length with hlt | hge
        · rw [hleadin]
          exact ⟨_, .leadin hpos hlt⟩
        · rw [List.take_of_length_le hge] at hleadin
          rw [hleadin]
          exact ⟨_, reading_leadin⟩
      rcases prefix_append_cases hq₁ with hspaces | ⟨q₂, rfl, hq₂⟩
      · have hreading : Reading (tagLeadIn ++ (q₁ ++ [])) (.name []) :=
          .name (hbefore.of_prefix hspaces) (Nat.zero_le _) nofun
        rw [List.append_nil] at hreading
        exact ⟨_, hreading⟩
      rcases prefix_append_cases hq₂ with hpart | ⟨q₃, rfl, hq₃⟩
      · exact ⟨_, .name hbefore (Nat.le_trans hpart.length_le hname.length_le)
          fun b hb => hname.plain b (hpart.subset hb)⟩
      -- the whole name, before anything behind it is read
      have hwhole : Reading (tagLeadIn ++ (before ++ (name ++ []))) (.name name) := by
        rw [List.append_nil]
        exact .name hbefore hname.length_le hname.plain
      rcases prefix_append_cases hq₃ with hspaces | ⟨q, rfl, hq⟩
      · by_cases hnil : q₃ = []
        · rw [hnil]
          exact ⟨_, hwhole⟩
        · have hreading : Reading
              (tagLeadIn ++ (before ++ (name ++ (q₃ ++ tagLeadOut.take 0)))) (.leadout 0 (cstr name)) :=
            .leadout hbefore hname (hbehind.of_prefix hspaces) (Or.inl hnil) (by decide)
          rw [List.take_zero, List.append_nil] at hreading
          exact ⟨_, hreading⟩
      · have hlt : q.length < tagLeadOut.length := by
          refine Nat.lt_of_le_of_ne hq.length_le fun hlength => hrest ?_
          rw [hq.eq_of_length hlength, List.append_right_eq_self] at hall
          exact hall
        rw [List.prefix_iff_eq_take] at hq
        by_cases hnone : behind = [] ∧ q.length = 0
        · obtain ⟨rfl, hzero⟩ := hnone
          rw [List.length_eq_zero_iff.mp hzero]
          exact ⟨_, hwhole⟩
        · rw [hq]
          refine ⟨_, .leadout hbefore hname hbehind ?_ hlt⟩
          by_cases hnil : behind = []
          · exact Or.inr (Nat.pos_of_ne_zero fun hzero => hnone ⟨hnil, hzero⟩)
          · exact Or.inl hnil

theorem isTagName_t : IsTagName (chars "t") where
  ne_nil := by simp [chars]
  length_le := by decide
  plain := by simp [chars, isNameByte, isTagSpace, tagLeadOut]

theorem Reading.isStart {t : List UInt8} {s : Scan} (h : Reading t s) : IsStart t := by
  cases h with
  | @leadin n hpos hlt =>
      refine ⟨?_, tagLeadIn.drop n ++ ([] ++ (chars "t" ++ ([] ++ tagLeadOut))), chars "t", ?_, ?_⟩
      · intro hnil
        have hlength := congrArg List.length hnil
        rw [List.length_take, List.length_nil] at hlength
        omega
      · simp [chars]
      · rw [← List.append_assoc, List.take_append_drop]
        exact .intro isTagSpaces_nil isTagName_t isTagSpaces_nil
  | @name before xs hbefore hlength hplain =>
      refine ⟨by simp [tagLeadIn, chars], ?_⟩
      by_cases hnil : xs = []
      · refine ⟨chars "t" ++ ([] ++ tagLeadOut), chars "t", by simp [chars], ?_⟩
        rw [hnil, List.append_nil, List.append_assoc]
        exact .intro hbefore isTagName_t isTagSpaces_nil
      · refine ⟨[] ++ tagLeadOut, xs, by decide, ?_⟩
        rw [List.append_assoc, List.append_assoc]
        exact .intro hbefore ⟨hnil, hlength, hplain⟩ isTagSpaces_nil
  | @leadout before name behind n hbefore hname hbehind hmore hlt =>
      refine ⟨by simp [tagLeadIn, chars], tagLeadOut.drop n, name, ?_, ?_⟩
      · intro hnil
        have hlength := congrArg List.length hnil
        rw [List.length_drop, List.length_nil] at hlength
        omega
      · simp only [List.append_assoc, List.take_append_drop]
        exact .intro hbefore hname hbehind

/-! ## The scanner on a tag -/

theorem isTagSpace_ne_dash {b : UInt8} (h : isTagSpace b = true) : b ≠ tagLeadOut.getD 0 0 := by
  have hcases : b = 32 ∨ b = 9 ∨ b = 10 ∨ b = 13 := by
    simpa [isTagSpace, or_assoc] using h
  rcases hcases with rfl | rfl | rfl | rfl <;> decide

namespace Scan

theorem step_space {b : UInt8} (hb : isTagSpace b = true) :
    (Scan.name []).step b = (.name [], none) := by
  simp [step, hb]

theorem step_nameByte {xs : List UInt8} {b : UInt8} (hlength : xs.length < maxTagNameLen)
    (hb : isNameByte b = true) : (Scan.name xs).step b = (.name (xs ++ [b]), none) := by
  obtain ⟨hout, hspace⟩ : b ≠ tagLeadOut.getD 0 0 ∧ isTagSpace b = false := by
    simpa [isNameByte] using hb
  have hmore : ¬(b = tagLeadOut.getD 0 0 ∨ isTagSpace b = true) :=
    fun hend => hend.elim hout (by simp [hspace])
  rw [step, if_neg (by simp [hspace]), if_neg hmore, if_pos hlength]

theorem step_behind {name : List UInt8} (hne : name ≠ []) {b : UInt8} (hb : isTagSpace b = true) :
    (Scan.name name).step b = (.leadout 0 (cstr name), none) := by
  have hout := isTagSpace_ne_dash hb
  rw [step, if_neg (by simp [hne]), if_pos (Or.inr hb), if_neg hne, if_neg hout]

theorem step_dash {name : List UInt8} (hne : name ≠ []) :
    (Scan.name name).step 45 = (.leadout 1 (cstr name), none) := by
  have hdash : (45 : UInt8) = tagLeadOut.getD 0 0 := rfl
  rw [step, if_neg (by simp [hne]), if_pos (Or.inl hdash), if_neg hne, if_pos hdash]

theorem after_leadin {n : Nat} (hpos : 0 < n) (hlt : n < tagLeadIn.length) :
    after Scan.step .idle (tagLeadIn.take n) = .leadin n := by
  have hfive : tagLeadIn.length = 5 := rfl
  rw [hfive] at hlt
  interval_cases n <;> rfl

theorem after_spaces {ws : List UInt8} (hws : IsTagSpaces ws) :
    after Scan.step (.name []) ws = .name [] := by
  induction ws with
  | nil => rfl
  | cons b ws ih =>
      rw [after_cons, step_space (hws b List.mem_cons_self)]
      exact ih fun b' hb' => hws b' (List.mem_cons_of_mem b hb')

theorem after_name {xs ys : List UInt8} (hlength : xs.length + ys.length ≤ maxTagNameLen)
    (hplain : ∀ b ∈ ys, isNameByte b = true) :
    after Scan.step (.name xs) ys = .name (xs ++ ys) := by
  induction ys generalizing xs with
  | nil => rw [after_nil, List.append_nil]
  | cons b ys ih =>
      rw [List.length_cons] at hlength
      rw [after_cons, step_nameByte (by omega) (hplain b List.mem_cons_self), ih]
      · rw [List.append_assoc]
        rfl
      · rw [List.length_append, List.length_singleton]
        omega
      · exact fun b' hb' => hplain b' (List.mem_cons_of_mem b hb')

theorem after_behind {xs ws : List UInt8} (hws : IsTagSpaces ws) :
    after Scan.step (.leadout 0 xs) ws = .leadout 0 xs := by
  induction ws with
  | nil => rfl
  | cons b ws ih =>
      have hstep : (Scan.leadout 0 xs).step b = (.leadout 0 xs, none) := by
        simp [step, hws b List.mem_cons_self]
      rw [after_cons, hstep]
      exact ih fun b' hb' => hws b' (List.mem_cons_of_mem b hb')

theorem after_leadout {name behind : List UInt8} {n : Nat} (hne : name ≠ [])
    (hbehind : IsTagSpaces behind) (hmore : behind ≠ [] ∨ 0 < n) (hlt : n < tagLeadOut.length) :
    after Scan.step (.name name) (behind ++ tagLeadOut.take n) = .leadout n (cstr name) := by
  have hthree : tagLeadOut.length = 3 := rfl
  rw [hthree] at hlt
  cases behind with
  | nil =>
      have hpos : 0 < n := hmore.resolve_left (fun h => h rfl)
      interval_cases n
      · exact congrArg Prod.fst (step_dash hne)
      · have hdashes : [] ++ tagLeadOut.take 2 = [45, 45] := rfl
        rw [hdashes, after_cons, step_dash hne]
        rfl
  | cons b behind =>
      have hrest : IsTagSpaces behind := fun b' hb' => hbehind b' (List.mem_cons_of_mem b hb')
      rw [List.cons_append, after_cons, step_behind hne (hbehind b List.mem_cons_self),
        after_append, after_behind hrest]
      interval_cases n <;> rfl

end Scan

/-- The scanner that has read `t` since it was idle. -/
theorem Reading.after {t : List UInt8} {s : Scan} (h : Reading t s) :
    after Scan.step .idle t = s := by
  have hleadin : Tokens.after Scan.step .idle tagLeadIn = .name [] := rfl
  cases h with
  | leadin hpos hlt => exact Scan.after_leadin hpos hlt
  | name hbefore hlength hplain =>
      rw [after_append, hleadin, after_append, Scan.after_spaces hbefore]
      exact Scan.after_name (by simpa using hlength) hplain
  | leadout hbefore hname hbehind hmore hlt =>
      rw [after_append, hleadin, after_append, Scan.after_spaces hbefore, after_append,
        Scan.after_name (by simpa using hname.length_le) hname.plain, List.nil_append,
        Scan.after_leadout hname.ne_nil hbehind hmore hlt]

theorem Reading.ne_idle {t : List UInt8} {s : Scan} (h : Reading t s) : s ≠ .idle := by
  cases h <;> exact nofun

/-! ## The next character -/

theorem take_succ_getD {bs : List UInt8} {n : Nat} (h : n < bs.length) :
    bs.take (n + 1) = bs.take n ++ [bs.getD n 0] := by
  have hget : bs[n]? = some bs[n] := List.getElem?_eq_getElem h
  rw [List.take_succ_eq_append_getElem h, List.getD_eq_getElem?_getD, hget, Option.getD_some]

/-- A character after which the scanner is not idle leaves a beginning of a tag. -/
theorem Reading.concat {t : List UInt8} {s : Scan} (h : Reading t s) {b : UInt8}
    (hnext : (s.step b).1 ≠ .idle) : Reading (t ++ [b]) (s.step b).1 := by
  cases h with
  | @leadin n hpos hlt =>
      have hb : b = tagLeadIn.getD n 0 := by
        by_contra hnot
        exact hnext (by rw [Scan.step, if_neg hnot])
      have htake := take_succ_getD hlt
      rw [← hb] at htake
      rw [← htake, Scan.step, if_pos hb]
      by_cases hlast : n + 1 = tagLeadIn.length
      · rw [if_pos hlast, hlast, List.take_length]
        exact reading_leadin
      · rw [if_neg hlast]
        exact .leadin (Nat.succ_pos n) (by omega)
  | @name before xs hbefore hlength hplain =>
      rw [List.append_assoc, List.append_assoc]
      -- white space is skipped in front of the name and ends it behind
      by_cases hspace : isTagSpace b = true
      · by_cases hnil : xs = []
        · subst hnil
          have hreading : Reading (tagLeadIn ++ ((before ++ [b]) ++ [])) (.name []) :=
            .name (hbefore.concat hspace) (Nat.zero_le _) (by simp)
          rw [Scan.step_space hspace]
          simpa using hreading
        · have hreading : Reading (tagLeadIn ++ (before ++ (xs ++ ([b] ++ tagLeadOut.take 0))))
              (.leadout 0 (cstr xs)) :=
            .leadout hbefore ⟨hnil, hlength, hplain⟩ (isTagSpaces_nil.concat hspace)
              (Or.inl (by simp)) (by decide)
          rw [Scan.step_behind hnil hspace]
          simpa using hreading
      · by_cases hdash : b = tagLeadOut.getD 0 0
        · -- the lead-out may not begin before the name
          have hne : xs ≠ [] := by
            rintro rfl
            exact hnext (by rw [Scan.step, if_neg (by simp [hspace]), if_pos (Or.inl hdash), if_pos rfl])
          obtain rfl : b = 45 := hdash
          have hreading : Reading (tagLeadIn ++ (before ++ (xs ++ ([] ++ tagLeadOut.take 1))))
              (.leadout 1 (cstr xs)) :=
            .leadout hbefore ⟨hne, hlength, hplain⟩ isTagSpaces_nil (Or.inr Nat.one_pos) (by decide)
          rw [Scan.step_dash hne]
          exact hreading
        · have hbyte : isNameByte b = true := by
            simpa [isNameByte, hspace] using hdash
          have hroom : xs.length < maxTagNameLen := by
            by_contra hfull
            have hend : ¬(b = tagLeadOut.getD 0 0 ∨ isTagSpace b = true) :=
              fun hend => hend.elim hdash hspace
            exact hnext (by rw [Scan.step, if_neg (by simp [hspace]), if_neg hend, if_neg hfull])
          rw [Scan.step_nameByte hroom hbyte]
          refine .name hbefore ?_ ?_
          · rw [List.length_append, List.length_singleton]
            omega
          · intro b' hb'
            rcases List.mem_append.mp hb' with hmem | hmem
            · exact hplain b' hmem
            · obtain rfl := List.mem_singleton.mp hmem
              exact hbyte
  | @leadout before name behind n hbefore hname hbehind hmore hlt =>
      simp only [List.append_assoc]
      -- white space goes on only as long as nothing of the lead-out has been read
      by_cases hspace : n = 0 ∧ isTagSpace b = true
      · obtain ⟨rfl, hb⟩ := hspace
        have hreading : Reading
            (tagLeadIn ++ (before ++ (name ++ ((behind ++ [b]) ++ tagLeadOut.take 0))))
            (.leadout 0 (cstr name)) :=
          .leadout hbefore hname (hbehind.concat hb) (Or.inl (by simp)) hlt
        rw [Scan.step, if_pos ⟨rfl, hb⟩]
        simpa using hreading
      · have hb : b = tagLeadOut.getD n 0 := by
          by_contra hnot
          exact hnext (by rw [Scan.step, if_neg hspace, if_neg hnot])
        -- the last byte of the lead-out would end the tag
        have hlast : n ≠ tagLeadOut.length - 1 := by
          intro hlast
          exact hnext (by rw [Scan.step, if_neg hspace, if_pos hb, if_pos hlast])
        have htake := take_succ_getD hlt
        rw [← hb] at htake
        rw [← htake, Scan.step, if_neg hspace, if_pos hb, if_neg hlast]
        exact .leadout hbefore hname hbehind (Or.inr (Nat.succ_pos n)) (by omega)

/-- The scanner reports what is a tag. -/
theorem Reading.token {t : List UInt8} {s : Scan} (h : Reading t s) {b : UInt8} {m : List UInt8}
    (htoken : (s.step b).2 = some m) : ∃ name, IsTag (t ++ [b]) name ∧ m = cstr name := by
  cases h with
  | leadin | name =>
      -- before the lead-out the scanner never reports anything
      simp only [Scan.step] at htoken
      split at htoken
      · cases htoken
      · repeat' first | cases htoken | split at htoken
  | @leadout before name behind n hbefore hname hbehind hmore hlt =>
      rw [Scan.step] at htoken
      split at htoken
      · cases htoken
      split at htoken
      next hb =>
        split at htoken
        next hlast =>
          obtain rfl : cstr name = m := Option.some.inj htoken
          have hwhole : tagLeadOut.take n ++ [b] = tagLeadOut := by
            rw [hb, hlast]
            rfl
          refine ⟨name, ?_, rfl⟩
          simp only [List.append_assoc, hwhole]
          exact .intro hbefore hname hbehind
        · cases htoken
      · cases htoken

/-- A tag, once read, has been reported. -/
theorem IsTag.read {t name : List UInt8} (h : IsTag t name) :
    ∃ t', t = t' ++ [62] ∧ Reading t' (.leadout 2 (cstr name)) := by
  cases h with
  | @intro before name behind hbefore hname hbehind =>
      refine ⟨tagLeadIn ++ (before ++ (name ++ (behind ++ tagLeadOut.take 2))), ?_,
        .leadout hbefore hname hbehind (Or.inr (by decide)) (by decide)⟩
      simp only [List.append_assoc]
      rfl

theorem Scan.step_last (xs : List UInt8) : (Scan.leadout 2 xs).step 62 = (.idle, some xs) := rfl

theorem IsTag.after {t name : List UInt8} (h : IsTag t name) :
    after Scan.step .idle t = .idle := by
  obtain ⟨t', rfl, hreading⟩ := h.read
  rw [after_append, hreading.after, after_cons, Scan.step_last, after_nil]

/-- A scanner that is not idle is reading since it was idle for the last time. -/
theorem exists_reading {before : List UInt8} (h : after Scan.step .idle before ≠ .idle) :
    ∃ a t, before = a ++ t ∧ after Scan.step .idle a = .idle ∧
      Reading t (after Scan.step .idle before) := by
  induction before using List.reverseRecOn with
  | nil => exact absurd rfl h
  | append_singleton before b ih =>
      rw [after_append, after_cons, after_nil] at h ⊢
      by_cases hidle : after Scan.step .idle before = .idle
      · rw [hidle] at h ⊢
        have hb : b = tagLeadIn.getD 0 0 := by
          by_contra hnot
          exact h (by rw [Scan.step, if_neg hnot])
        refine ⟨before, [b], rfl, hidle, ?_⟩
        rw [hb]
        exact .leadin (n := 1) Nat.one_pos (by decide)
      · obtain ⟨a, t, hsplit, hstart, hreading⟩ := ih hidle
        exact ⟨a, t ++ [b], by rw [hsplit, List.append_assoc], hstart, hreading.concat h⟩

/-! ## Tags do not overlap -/

theorem IsTag.ne_nil {t name : List UInt8} (h : IsTag t name) : t ≠ [] := by
  cases h
  simp [tagLeadIn, chars]

theorem not_isNameByte_of_space {b : UInt8} (h : isTagSpace b = true) : isNameByte b = false := by
  simp [isNameByte, h]

/-- The name of a tag can be read off. -/
theorem IsTag.name_eq {t name : List UInt8} (h : IsTag t name) :
    name = ((t.drop tagLeadIn.length).dropWhile isTagSpace).takeWhile isNameByte := by
  cases h with
  | @intro before name behind hbefore hname hbehind =>
      have hspaces : (before ++ (name ++ (behind ++ tagLeadOut))).dropWhile isTagSpace =
          name ++ (behind ++ tagLeadOut) := by
        rw [List.dropWhile_append_of_pos hbefore]
        obtain ⟨b, xs, rfl⟩ := List.exists_cons_of_ne_nil hname.ne_nil
        have hb : isTagSpace b = false := by
          have hplain := hname.plain b List.mem_cons_self
          simp only [isNameByte, Bool.and_eq_true, Bool.not_eq_true'] at hplain
          exact hplain.2
        rw [List.cons_append, List.dropWhile_cons_of_neg (by simp [hb])]
      have hend : (behind ++ tagLeadOut).takeWhile isNameByte = [] := by
        cases behind with
        | nil => rfl
        | cons b behind =>
            have hb := not_isNameByte_of_space (hbehind b List.mem_cons_self)
            rw [List.cons_append, List.takeWhile_cons_of_neg (by simp [hb])]
      rw [List.drop_left, hspaces, List.takeWhile_append_of_pos hname.plain, hend, List.append_nil]

/-- A lead-in ends whatever the scanner is reading. -/
theorem Reading.reset {t : List UInt8} {s : Scan} (h : Reading t s) :
    ∃ k, Tokens.after Scan.step s (tagLeadIn.take k) = .idle := by
  cases h with
  | @leadin n hpos hlt =>
      have hnot : (60 : UInt8) ≠ tagLeadIn.getD n 0 := by
        have hfive : tagLeadIn.length = 5 := rfl
        rw [hfive] at hlt
        interval_cases n <;> decide
      refine ⟨1, ?_⟩
      have hone : tagLeadIn.take 1 = [60] := rfl
      rw [hone, after_cons, Scan.step, if_neg hnot, after_nil]
  | @name before xs hbefore hlength hplain =>
      have hfull : ∀ {ys : List UInt8} {b : UInt8}, isNameByte b = true →
          maxTagNameLen ≤ ys.length → (Scan.name ys).step b = (.idle, none) := by
        intro ys b hb hlong
        obtain ⟨hout, hspace⟩ : b ≠ tagLeadOut.getD 0 0 ∧ isTagSpace b = false := by
          simpa [isNameByte] using hb
        rw [Scan.step, if_neg (by simp [hspace]), if_neg (by simpa [hspace] using hout),
          if_neg (Nat.not_lt.mpr hlong)]
      -- the first two characters belong to the name, as long as there is room
      rcases Nat.lt_or_ge xs.length maxTagNameLen with hroom | hlong
      · rcases Nat.lt_or_ge (xs ++ [60]).length maxTagNameLen with hroom' | hlong
        · refine ⟨5, ?_⟩
          have hall : tagLeadIn.take 5 = [60, 33, 45, 45, 35] := rfl
          rw [hall, after_cons, Scan.step_nameByte hroom (by decide), after_cons,
            Scan.step_nameByte hroom' (by decide), after_cons, Scan.step_dash (by simp)]
          rfl
        · refine ⟨2, ?_⟩
          have htwo : tagLeadIn.take 2 = [60, 33] := rfl
          rw [htwo, after_cons, Scan.step_nameByte hroom (by decide), after_cons,
            hfull (by decide) hlong, after_nil]
      · refine ⟨1, ?_⟩
        have hone : tagLeadIn.take 1 = [60] := rfl
        rw [hone, after_cons, hfull (by decide) hlong, after_nil]
  | @leadout before name behind n hbefore hname hbehind hmore hlt =>
      have hnot : (60 : UInt8) ≠ tagLeadOut.getD n 0 := by
        have hthree : tagLeadOut.length = 3 := rfl
        rw [hthree] at hlt
        interval_cases n <;> decide
      refine ⟨1, ?_⟩
      have hone : tagLeadIn.take 1 = [60] := rfl
      have hspace : ¬(n = 0 ∧ isTagSpace 60 = true) := fun h => by simp [isTagSpace] at h
      rw [hone, after_cons, Scan.step, if_neg hspace, if_neg hnot, after_nil]

/-- A tag does not begin with another one. -/
theorem IsTag.eq_of_prefix {t t' name name' : List UInt8} (h : IsTag t name) (h' : IsTag t' name')
    (hfront : t <+: t') : t = t' := by
  obtain ⟨rest, rfl⟩ := hfront
  by_cases hrest : rest = []
  · rw [hrest, List.append_nil]
  · obtain ⟨s, hreading⟩ : ∃ s, Reading t s := IsStart.reading ⟨h.ne_nil, rest, name', hrest, h'⟩
    exact absurd (hreading.after.symm.trans h.after) hreading.ne_idle

theorem isTag_separate : Separate IsTag where
  ne_nil := IsTag.ne_nil
  unique h h' := h.name_eq.trans h'.name_eq.symm
  apart := by
    intro bs t a t' x y hfirst hsecond hlt
    have htag := hfirst.token
    have hfront : t <+: bs := hfirst.isPrefix
    by_cases hnil : a = []
    · subst hnil
      refine ⟨rfl, ?_⟩
      have hfront' : t' <+: bs := hsecond.isPrefix
      rcases Nat.le_total t.length t'.length with hle | hle
      · exact (htag.eq_of_prefix hsecond.token
          (List.prefix_of_prefix_length_le hfront hfront' hle)).symm
      · exact hsecond.token.eq_of_prefix htag
          (List.prefix_of_prefix_length_le hfront' hfront hle)
    · -- the second lead-in would end the first tag
      exfalso
      obtain ⟨rest, rfl⟩ : a <+: t := by
        refine List.prefix_of_prefix_length_le ?_ hfront (Nat.le_of_lt hlt)
        exact (List.prefix_append a t').trans hsecond.isPrefix
      have hrest : rest ≠ [] := by
        rintro rfl
        simp at hlt
      obtain ⟨s, hreading⟩ : ∃ s, Reading a s := IsStart.reading ⟨hnil, rest, x, hrest, htag⟩
      obtain ⟨k, hreset⟩ := hreading.reset
      have hidle : Tokens.after Scan.step .idle (a ++ tagLeadIn.take k) = .idle := by
        rw [after_append, hreading.after, hreset]
      have hleadin : a ++ tagLeadIn.take k <+: bs := by
        refine List.IsPrefix.trans ?_ hsecond.isPrefix
        rw [List.prefix_append_right_inj]
        obtain ⟨before, name, behind⟩ := hsecond.token
        exact (List.take_prefix k tagLeadIn).trans (List.prefix_append _ _)
      have hlast : 62 ∈ rest := by
        obtain ⟨t', heq, -⟩ := htag.read
        have hend := congrArg List.getLast? heq
        rw [List.getLast?_append_of_ne_nil a hrest, List.getLast?_concat] at hend
        exact List.mem_of_getLast? hend
      have hnot : ¬rest <+: tagLeadIn.take k := by
        intro hpart
        have hmem : 62 ∈ tagLeadIn := List.mem_of_mem_take (hpart.subset hlast)
        exact absurd hmem (by decide)
      rcases Nat.le_total (a ++ tagLeadIn.take k).length (a ++ rest).length with hle | hle
      · have hinner := List.prefix_of_prefix_length_le hleadin hfront hle
        obtain ⟨rest', heq⟩ := hinner
        have hrest' : rest' ≠ [] := by
          rintro rfl
          rw [List.append_nil, List.append_cancel_left_eq] at heq
          exact hnot (heq ▸ List.prefix_rfl)
        obtain ⟨s', hreading'⟩ : ∃ s', Reading (a ++ tagLeadIn.take k) s' :=
          IsStart.reading ⟨by simp [hnil], rest', x, hrest', heq ▸ htag⟩
        exact hreading'.ne_idle (hreading'.after.symm.trans hidle)
      · have houter := List.prefix_of_prefix_length_le hfront hleadin hle
        exact hnot ((List.prefix_append_right_inj a).mp houter)

/-! ## Places at rest -/

/-- No earlier place at rest begins a text that is still unfinished. -/
def AtRest (before : List UInt8) : Prop :=
  ∀ a t, before = a ++ t → IsStart t → ¬AtRest a
termination_by before.length
decreasing_by
  rename_i hsplit hstart
  have hpos := List.length_pos_of_ne_nil hstart.1
  rw [hsplit, List.length_append]
  omega

/-- The scanner is idle at the places at rest. -/
theorem atRest_iff (before : List UInt8) :
    AtRest before ↔ after Scan.step .idle before = .idle := by
  induction hlength : before.length using Nat.strong_induction_on generalizing before with
  | _ n ih =>
      rw [AtRest]
      constructor
      · intro hrest
        by_contra hbusy
        obtain ⟨a, t, hsplit, hidle, hreading⟩ := exists_reading hbusy
        have hstart := hreading.isStart
        have hpos := List.length_pos_of_ne_nil hstart.1
        refine hrest a t hsplit hstart ((ih a.length ?_ a rfl).mpr hidle)
        rw [← hlength, hsplit, List.length_append]
        omega
      · intro hidle a t hsplit hstart hrest
        have hpos := List.length_pos_of_ne_nil hstart.1
        have hidle' : after Scan.step .idle a = .idle := by
          refine (ih a.length ?_ a rfl).mp hrest
          rw [← hlength, hsplit, List.length_append]
          omega
        obtain ⟨s, hreading⟩ := hstart.reading
        rw [hsplit, after_append, hidle', hreading.after] at hidle
        exact hreading.ne_idle hidle

/-- The scanner reports the tags that begin at a place at rest. -/
theorem mem_reported_iff {data : List UInt8} {e : Nat} {m : List UInt8} :
    (e, m) ∈ reported Scan.step .idle 0 data ↔
      ∃ a t name, Occurs IsTag data a t name ∧ AtRest a ∧ e = a.length + t.length ∧
        m = cstr name := by
  rw [mem_reported]
  constructor
  · rintro ⟨before, b, rest, rfl, htoken, rfl⟩
    have hbusy : after Scan.step .idle before ≠ .idle := by
      intro hidle
      rw [hidle] at htoken
      cases htoken
    obtain ⟨a, t, rfl, hidle, hreading⟩ := exists_reading hbusy
    obtain ⟨name, htag, rfl⟩ := hreading.token htoken
    refine ⟨a, t ++ [b], name, ⟨htag, rest, ?_⟩, (atRest_iff a).mpr hidle, ?_, rfl⟩
    · simp
    · simp only [List.length_append, List.length_singleton]
      omega
  · rintro ⟨a, t, name, ⟨htag, rest, rfl⟩, hrest, rfl, rfl⟩
    obtain ⟨t', rfl, hreading⟩ := htag.read
    refine ⟨a ++ t', 62, rest, by simp, ?_, ?_⟩
    · rw [after_append, (atRest_iff a).mp hrest, hreading.after, Scan.step_last]
    · simp only [List.length_append, List.length_singleton]
      omega

/-- Every tag begins at a place at rest, and no null byte cuts its name. -/
def Unhidden (data : List UInt8) : Prop :=
  ∀ a t name, Occurs IsTag data a t name → AtRest a ∧ 0 ∉ name

/-- The scanner reports the leftmost tags if and only if none is hidden. -/
theorem leftmost_reported_iff (data : List UInt8) :
    Leftmost IsTag 0 data (reported Scan.step .idle 0 data) ↔ Unhidden data := by
  rw [leftmost_iff isTag_separate (reported_pairwise ..)]
  simp only [mem_reported_iff, Nat.zero_add]
  constructor
  · intro h a t name hoccurs
    obtain ⟨a', t', name', hoccurs', hrest, hend, hname⟩ := (h _ _).mpr ⟨a, t, hoccurs, rfl⟩
    obtain ⟨rfl, rfl⟩ := isTag_separate.eq_of_end hoccurs hoccurs' hend
    obtain rfl := isTag_separate.unique hoccurs.token hoccurs'.token
    refine ⟨hrest, ?_⟩
    rw [hname]
    exact zero_notMem_cstr name
  · intro hunhidden e m
    constructor
    · rintro ⟨a, t, name, hoccurs, -, rfl, rfl⟩
      rw [cstr_eq_self (hunhidden a t name hoccurs).2]
      exact ⟨a, t, hoccurs, rfl⟩
    · rintro ⟨a, t, hoccurs, rfl⟩
      obtain ⟨hrest, hzero⟩ := hunhidden a t m hoccurs
      exact ⟨a, t, m, hoccurs, hrest, rfl, (cstr_eq_self hzero).symm⟩

end Meu1oARM
