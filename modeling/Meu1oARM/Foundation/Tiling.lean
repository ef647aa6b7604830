import Mathlib.Data.List.Chain
import Mathlib.Tactic.Common

/-! # A range tiled by blocks

A range of memory is divided without gaps into blocks, each of them used or not. A
block is given back by merging it with the unused blocks beside it, so that no two
unused blocks lie side by side; then an unused block is all the room there is
between two used ones.
-/

namespace Tiling

structure Block where
  size : Nat
  used : Bool
  deriving DecidableEq, Repr

/-- The length of the range that the blocks tile. -/
def span : List Block → Nat
  | [] => 0
  | b :: bs => b.size + span bs

/-- The offset of the first unused block, or the end of the range. -/
def firstFree : Nat → List Block → Nat
  | o, [] => o
  | o, b :: bs => if b.used then firstFree (o + b.size) bs else o

/-- The offset of the first unused block of at least `n`. -/
def firstFit (n : Nat) : Nat → List Block → Option Nat
  | _, [] => none
  | o, b :: bs => if b.used = false ∧ n ≤ b.size then some o else firstFit n (o + b.size) bs

/-- Offsets and sizes of the used blocks. -/
def usedAt : Nat → List Block → List (Nat × Nat)
  | _, [] => []
  | o, b :: bs =>
      if b.used then (o, b.size) :: usedAt (o + b.size) bs else usedAt (o + b.size) bs

/-- No two unused blocks lie side by side. -/
def Coalesced (bs : List Block) : Prop := bs.IsChain fun a b => a.used = true ∨ b.used = true

/-- An unused block takes in the one behind it if that is unused, too. -/
def absorb (s : Nat) : List Block → List Block
  | [] => [⟨s, false⟩]
  | c :: cs => if c.used then ⟨s, false⟩ :: c :: cs else ⟨s + c.size, false⟩ :: cs

/-- `n` bytes of the unused block of size `s` between `pre` and `post` are taken, or all of it if
less than `least` would be left. -/
def taken (least n : Nat) (pre : List Block) (s : Nat) (post : List Block) : List Block :=
  if n + least ≤ s then pre ++ ⟨n, true⟩ :: ⟨s - n, false⟩ :: post else pre ++ ⟨s, true⟩ :: post

/-- The block of size `s` between `pre` and `post` is given back. -/
def release : List Block → Nat → List Block → List Block
  | [], s, post => absorb s post
  | [a], s, post => if a.used then a :: absorb s post else absorb a.size (absorb s post)
  | a :: a' :: pre, s, post => a :: release (a' :: pre) s post

variable {pre post bs cs : List Block} {b c : Block} {o s n : Nat}

/-! ## Sizes and offsets -/

@[simp] theorem span_nil : span [] = 0 := rfl

@[simp] theorem span_cons (b : Block) (bs : List Block) : span (b :: bs) = b.size + span bs := rfl

@[simp] theorem span_append (bs cs : List Block) : span (bs ++ cs) = span bs + span cs := by
  induction bs with
  | nil => simp
  | cons b bs ih => simp [ih, Nat.add_assoc]

theorem length_le_span (h : ∀ b ∈ bs, 0 < b.size) : bs.length ≤ span bs := by
  induction bs with
  | nil => exact Nat.le_refl 0
  | cons b bs ih =>
      have hb := h b List.mem_cons_self
      have hrest := ih fun c hc => h c (List.mem_cons_of_mem b hc)
      rw [List.length_cons, span_cons]
      omega

theorem usedAt_append (o : Nat) (bs cs : List Block) :
    usedAt o (bs ++ cs) = usedAt o bs ++ usedAt (o + span bs) cs := by
  induction bs generalizing o with
  | nil => simp [usedAt]
  | cons b bs ih =>
      simp only [List.cons_append, usedAt, ih, span_cons, Nat.add_assoc]
      split <;> rfl

theorem usedAt_free (o s : Nat) (bs : List Block) :
    usedAt o (⟨s, false⟩ :: bs) = usedAt (o + s) bs := by
  simp [usedAt]

theorem usedAt_used (o s : Nat) (bs : List Block) :
    usedAt o (⟨s, true⟩ :: bs) = (o, s) :: usedAt (o + s) bs := by
  simp [usedAt]

/-- A used block divides the range in what is before it and what is behind it. -/
theorem exists_split_of_mem_usedAt {p : Nat} (h : (p, s) ∈ usedAt o bs) :
    ∃ pre post, bs = pre ++ ⟨s, true⟩ :: post ∧ p = o + span pre := by
  induction bs generalizing o with
  | nil => exact absurd h List.not_mem_nil
  | cons b bs ih =>
      have hbehind (hmem : (p, s) ∈ usedAt (o + b.size) bs) :
          ∃ pre post, b :: bs = pre ++ ⟨s, true⟩ :: post ∧ p = o + span pre := by
        obtain ⟨pre, post, rfl, rfl⟩ := ih hmem
        exact ⟨b :: pre, post, rfl, by rw [span_cons, Nat.add_assoc]⟩
      unfold usedAt at h
      split at h
      next hused =>
        rcases List.mem_cons.mp h with heq | hmem
        · obtain ⟨rfl, rfl⟩ := Prod.mk.inj heq
          refine ⟨[], bs, ?_, by simp⟩
          rw [← hused]
          rfl
        · exact hbehind hmem
      next _ => exact hbehind h

theorem mem_usedAt_split (o : Nat) (pre : List Block) (s : Nat) (post : List Block) :
    (o + span pre, s) ∈ usedAt o (pre ++ ⟨s, true⟩ :: post) := by
  rw [usedAt_append, usedAt_used]
  exact List.mem_append_right _ List.mem_cons_self

/-- Used blocks lie in the range. -/
theorem usedAt_bounds {p : Nat} (h : (p, s) ∈ usedAt o bs) : o ≤ p ∧ p + s ≤ o + span bs := by
  obtain ⟨pre, post, rfl, rfl⟩ := exists_split_of_mem_usedAt h
  simp only [span_append, span_cons]
  omega

/-- Offsets tell blocks apart. -/
theorem usedAt_ne (hpos : ∀ b ∈ pre, 0 < b.size) (hs : 0 < s) (o : Nat) (post : List Block) :
    ∀ x ∈ usedAt o pre ++ usedAt (o + span pre + s) post, x.1 ≠ o + span pre := by
  rintro ⟨p, t⟩ hmem
  rcases List.mem_append.mp hmem with hmem | hmem
  · have hbound := usedAt_bounds hmem
    obtain ⟨front, back, rfl, rfl⟩ := exists_split_of_mem_usedAt hmem
    have ht : 0 < t := hpos ⟨t, true⟩ (by simp)
    dsimp only
    omega
  · have hbound := usedAt_bounds hmem
    dsimp only
    omega

/-- Used blocks do not overlap. -/
theorem usedAt_pairwise (o : Nat) (bs : List Block) :
    (usedAt o bs).Pairwise fun x y => x.1 + x.2 ≤ y.1 := by
  induction bs generalizing o with
  | nil => exact List.Pairwise.nil
  | cons b bs ih =>
      unfold usedAt
      split
      · refine List.pairwise_cons.mpr ⟨?_, ih _⟩
        rintro ⟨p, s⟩ hmem
        exact (usedAt_bounds hmem).1
      · exact ih _

theorem usedAt_disjoint {x y : Nat × Nat} (hx : x ∈ usedAt o bs) (hy : y ∈ usedAt o bs)
    (hne : x ≠ y) : x.1 + x.2 ≤ y.1 ∨ y.1 + y.2 ≤ x.1 := by
  have hpair : (usedAt o bs).Pairwise fun x y => x.1 + x.2 ≤ y.1 ∨ y.1 + y.2 ≤ x.1 :=
    (usedAt_pairwise o bs).imp Or.inl
  have : Std.Symm fun x y : Nat × Nat => x.1 + x.2 ≤ y.1 ∨ y.1 + y.2 ≤ x.1 := ⟨fun _ _ => Or.symm⟩
  exact hpair.forall hx hy hne

/-! ## The first unused block -/

theorem firstFree_cons (o : Nat) (b : Block) (bs : List Block) :
    firstFree o (b :: bs) = if b.used then firstFree (o + b.size) bs else o := rfl

theorem firstFree_free (o s : Nat) (bs : List Block) : firstFree o (⟨s, false⟩ :: bs) = o := by
  simp [firstFree]

theorem firstFree_used (o s : Nat) (bs : List Block) :
    firstFree o (⟨s, true⟩ :: bs) = firstFree (o + s) bs := by
  simp [firstFree]

theorem le_firstFree (o : Nat) (bs : List Block) : o ≤ firstFree o bs := by
  induction bs generalizing o with
  | nil => exact Nat.le_refl o
  | cons b bs ih =>
      unfold firstFree
      split
      · exact Nat.le_trans (Nat.le_add_right o b.size) (ih _)
      · exact Nat.le_refl o

theorem firstFree_le (o : Nat) (bs : List Block) : firstFree o bs ≤ o + span bs := by
  induction bs generalizing o with
  | nil => exact Nat.le_refl o
  | cons b bs ih =>
      rw [span_cons]
      unfold firstFree
      split
      · have hrest := ih (o + b.size)
        omega
      · omega

/-- The blocks in front of the first unused one, and the rest. -/
theorem exists_split_firstFree (o : Nat) (bs : List Block) :
    ∃ pre post, bs = pre ++ post ∧ (∀ b ∈ pre, b.used = true) ∧
      firstFree o bs = o + span pre ∧ ∀ b ∈ post.head?, b.used = false := by
  induction bs generalizing o with
  | nil => exact ⟨[], [], rfl, nofun, rfl, nofun⟩
  | cons b bs ih =>
      cases hused : b.used with
      | false =>
          refine ⟨[], b :: bs, rfl, nofun, by simp [firstFree, hused], ?_⟩
          intro c hc
          obtain rfl := Option.some.inj hc
          exact hused
      | true =>
          obtain ⟨pre, post, rfl, hpre, hfree, hpost⟩ := ih (o + b.size)
          refine ⟨b :: pre, post, rfl, List.forall_mem_cons.mpr ⟨hused, hpre⟩, ?_, hpost⟩
          rw [firstFree, if_pos hused, hfree, span_cons, Nat.add_assoc]

theorem firstFree_le_of_free (hfree : b.used = false) (o : Nat) (pre post : List Block) :
    firstFree o (pre ++ b :: post) ≤ o + span pre := by
  induction pre generalizing o with
  | nil => simp [firstFree, hfree]
  | cons a pre ih =>
      have hrest := ih (o + a.size)
      rw [List.cons_append, firstFree_cons, span_cons]
      split <;> omega

theorem firstFree_append (hpos : ∀ b ∈ pre, 0 < b.size) (o : Nat) (cs : List Block) :
    firstFree o (pre ++ cs) =
      if firstFree o pre = o + span pre then firstFree (o + span pre) cs else firstFree o pre := by
  induction pre generalizing o with
  | nil => simp [firstFree]
  | cons a pre ih =>
      obtain ⟨ha, hpre⟩ := List.forall_mem_cons.mp hpos
      rw [List.cons_append, firstFree_cons, firstFree_cons, span_cons, ← Nat.add_assoc]
      split
      next _ => exact ih hpre _
      next _ => rw [if_neg (by omega)]

/-- What lies behind an unused block does not matter. -/
theorem firstFree_of_free (o : Nat) (pre : List Block) (s s' : Nat) (post post' : List Block) :
    firstFree o (pre ++ ⟨s, false⟩ :: post) = firstFree o (pre ++ ⟨s', false⟩ :: post') := by
  induction pre generalizing o with
  | nil => rw [List.nil_append, List.nil_append, firstFree_free, firstFree_free]
  | cons a pre ih =>
      rw [List.cons_append, List.cons_append, firstFree_cons, firstFree_cons, ih]

/-- When a block is given back, the lowest unused block is the old one or that block. -/
theorem firstFree_give_back (o : Nat) (pre : List Block) (s : Nat) (post : List Block) :
    firstFree o (pre ++ ⟨s, false⟩ :: post) =
      min (o + span pre) (firstFree o (pre ++ ⟨s, true⟩ :: post)) := by
  induction pre generalizing o with
  | nil =>
      have hle := le_firstFree (o + s) post
      rw [List.nil_append, List.nil_append, firstFree_free, firstFree_used, span_nil]
      omega
  | cons a pre ih =>
      simp only [List.cons_append]
      rw [firstFree_cons o a, firstFree_cons o a, ih (o + a.size), span_cons]
      split <;> omega

theorem firstFit_append_of_used (hpre : ∀ b ∈ pre, b.used = true) (n o : Nat) (bs : List Block) :
    firstFit n o (pre ++ bs) = firstFit n (o + span pre) bs := by
  induction pre generalizing o with
  | nil => simp
  | cons b pre ih =>
      have hb := hpre b List.mem_cons_self
      rw [List.cons_append, firstFit, if_neg (by simp [hb]), span_cons, ← Nat.add_assoc]
      exact ih (fun c hc => hpre c (List.mem_cons_of_mem b hc)) _

theorem firstFit_of_span_lt (h : span bs < n) (o : Nat) : firstFit n o bs = none := by
  induction bs generalizing o with
  | nil => rfl
  | cons b bs ih =>
      rw [span_cons] at h
      rw [firstFit, if_neg (by omega)]
      exact ih (by omega) _

/-- A block that fits divides the range in what is before it and what is behind it. -/
theorem exists_split_of_firstFit {p : Nat} (h : firstFit n o bs = some p) :
    ∃ pre s post, bs = pre ++ ⟨s, false⟩ :: post ∧ p = o + span pre ∧ n ≤ s := by
  induction bs generalizing o with
  | nil => cases h
  | cons b bs ih =>
      unfold firstFit at h
      split at h
      next hfit =>
        refine ⟨[], b.size, bs, ?_, by simpa using (Option.some.inj h).symm, hfit.2⟩
        rw [← hfit.1]
        rfl
      next _ =>
        obtain ⟨pre, s, post, rfl, rfl, hn⟩ := ih h
        exact ⟨b :: pre, s, post, rfl, by rw [span_cons, Nat.add_assoc], hn⟩

theorem firstFit_eq_none_iff :
    firstFit n o bs = none ↔ ∀ b ∈ bs, b.used = false → b.size < n := by
  induction bs generalizing o with
  | nil => simp [firstFit]
  | cons b bs ih =>
      unfold firstFit
      split
      next hfit => simp [hfit.1, hfit.2]
      next hno =>
        rw [ih, List.forall_mem_cons, iff_and_self]
        intro _ hfree
        exact Nat.lt_of_not_le fun hle => hno ⟨hfree, hle⟩

/-! ## Blocks that are not side by side -/

/-- Whether blocks lie side by side does not depend on their sizes. -/
theorem Coalesced.congr (h : Coalesced bs) (hused : bs.map Block.used = cs.map Block.used) :
    Coalesced cs := by
  have hiff (ds : List Block) :
      Coalesced ds ↔ (ds.map Block.used).IsChain fun a b => a = true ∨ b = true :=
    (List.isChain_map (R := fun a b => a = true ∨ b = true) Block.used).symm
  rw [hiff] at h ⊢
  rwa [← hused]

/-- An unused block is taken. -/
theorem Coalesced.take (h : Coalesced (pre ++ ⟨s, false⟩ :: post)) (n : Nat) :
    Coalesced (pre ++ ⟨n, true⟩ :: post) := by
  obtain ⟨hpre, hrest, -⟩ := List.isChain_append.mp h
  refine List.isChain_append.mpr ⟨hpre, ?_, ?_⟩
  · exact List.isChain_cons.mpr ⟨fun _ _ => .inl rfl, (List.isChain_cons.mp hrest).2⟩
  · intro x _ y hy
    obtain rfl := Option.some.inj hy
    exact .inr rfl

/-- The first part of an unused block is taken. -/
theorem Coalesced.split (h : Coalesced (pre ++ ⟨s, false⟩ :: post)) (n m : Nat) :
    Coalesced (pre ++ ⟨n, true⟩ :: ⟨m, false⟩ :: post) := by
  obtain ⟨hpre, hrest, -⟩ := List.isChain_append.mp h
  refine List.isChain_append.mpr ⟨hpre, ?_, ?_⟩
  · refine List.isChain_cons.mpr ⟨fun _ _ => .inl rfl, ?_⟩
    exact (Coalesced.congr hrest rfl : Coalesced (⟨m, false⟩ :: post))
  · intro x _ y hy
    obtain rfl := Option.some.inj hy
    exact .inr rfl

/-- Where no two unused blocks lie side by side, no block fits if and only if there is no room
between the used ones. -/
theorem firstFit_eq_none_iff_no_room (h : Coalesced bs) (hn : 0 < n) (o : Nat) :
    firstFit n o bs = none ↔ ∀ p, o ≤ p → p + n ≤ o + span bs →
      ∃ x ∈ usedAt o bs, x.1 < p + n ∧ p < x.1 + x.2 := by
  rw [firstFit_eq_none_iff]
  constructor
  · intro hsmall p hlo hhi
    induction bs generalizing o with
    | nil =>
        rw [span_nil] at hhi
        omega
    | cons b bs ih =>
        obtain ⟨hnext, hrest⟩ := List.isChain_cons.mp h
        obtain ⟨hb, hbs⟩ := List.forall_mem_cons.mp hsmall
        rw [span_cons] at hhi
        have hbehind (hp : o + b.size ≤ p) := ih hrest (o + b.size) hbs hp (by omega)
        cases hused : b.used with
        | true =>
            rw [usedAt, if_pos hused]
            by_cases hp : o + b.size ≤ p
            · obtain ⟨x, hx, hmeet⟩ := hbehind hp
              exact ⟨x, List.mem_cons_of_mem _ hx, hmeet⟩
            · exact ⟨(o, b.size), List.mem_cons_self, by omega⟩
        | false =>
            rw [usedAt, if_neg (by simp [hused])]
            by_cases hp : o + b.size ≤ p
            · exact hbehind hp
            -- the range reaches beyond the unused block, and what lies there is used
            have hless := hb hused
            cases bs with
            | nil =>
                rw [span_nil] at hhi
                omega
            | cons c bs =>
                have hc : c.used = true := by simpa [hused] using hnext c rfl
                rw [usedAt, if_pos hc]
                exact ⟨(o + b.size, c.size), List.mem_cons_self, by omega⟩
  · intro hroom b hb hfree
    by_contra hge
    obtain ⟨pre, post, rfl⟩ := List.append_of_mem hb
    obtain ⟨⟨q, t⟩, hx, hlt, hgt⟩ := hroom (o + span pre) (by omega) (by simp; omega)
    rw [usedAt_append, usedAt, if_neg (by simp [hfree])] at hx
    rcases List.mem_append.mp hx with hx | hx
    · have hbound := usedAt_bounds hx
      omega
    · have hbound := usedAt_bounds hx
      omega

/-! ## Taking a block -/

/-- The size of the block that `taken` makes a used one. -/
def takenSize (least n s : Nat) : Nat := if n + least ≤ s then n else s

theorem le_takenSize (h : n ≤ s) (least : Nat) : n ≤ takenSize least n s := by
  unfold takenSize
  split <;> omega

section Taken

variable {least : Nat}

theorem span_taken (h : n ≤ s) :
    span (taken least n pre s post) = span (pre ++ ⟨s, false⟩ :: post) := by
  unfold taken
  split
  · simp only [span_append, span_cons]
    omega
  · simp

theorem usedAt_taken (h : n ≤ s) (o : Nat) : usedAt o (taken least n pre s post) =
    usedAt o pre ++ (o + span pre, takenSize least n s) :: usedAt (o + span pre + s) post := by
  unfold taken takenSize
  split
  next hsplit =>
    have hat : o + span pre + n + (s - n) = o + span pre + s := by omega
    rw [usedAt_append, usedAt_used, usedAt_free, hat]
  next _ => rw [usedAt_append, usedAt_used]

theorem sizes_taken {P : Nat → Prop} (hn : P n) (hrest : n + least ≤ s → P (s - n))
    (h : ∀ b ∈ pre ++ ⟨s, false⟩ :: post, P b.size) :
    ∀ b ∈ taken least n pre s post, P b.size := by
  have hs : P s := h ⟨s, false⟩ (by simp)
  have hpre : ∀ b ∈ pre, P b.size := fun b hb => h b (by simp [hb])
  have hpost : ∀ b ∈ post, P b.size := fun b hb => h b (by simp [hb])
  unfold taken
  split
  next hsplit =>
    simp only [List.forall_mem_append, List.forall_mem_cons]
    exact ⟨hpre, hn, hrest hsplit, hpost⟩
  next _ =>
    simp only [List.forall_mem_append, List.forall_mem_cons]
    exact ⟨hpre, hs, hpost⟩

theorem coalesced_taken (h : Coalesced (pre ++ ⟨s, false⟩ :: post)) :
    Coalesced (taken least n pre s post) := by
  unfold taken
  split
  · exact h.split n (s - n)
  · exact h.take s

theorem exists_taken (least n : Nat) (pre : List Block) (s : Nat) (post : List Block) :
    ∃ t rest, taken least n pre s post = pre ++ ⟨t, true⟩ :: rest := by
  unfold taken
  split
  · exact ⟨n, _, rfl⟩
  · exact ⟨s, _, rfl⟩

end Taken

/-! ## Giving a block back -/

theorem span_absorb (s : Nat) (bs : List Block) : span (absorb s bs) = s + span bs := by
  cases bs with
  | nil => simp [absorb]
  | cons c cs =>
      rw [absorb]
      split
      · simp
      · simp only [span_cons]
        omega

theorem usedAt_absorb (o s : Nat) (bs : List Block) :
    usedAt o (absorb s bs) = usedAt (o + s) bs := by
  cases bs with
  | nil => simp [absorb, usedAt]
  | cons c cs =>
      rw [absorb]
      split
      next _ => rw [usedAt_free]
      next hfree => rw [usedAt_free, usedAt, if_neg hfree, Nat.add_assoc]

theorem firstFree_absorb (o s : Nat) (bs : List Block) : firstFree o (absorb s bs) = o := by
  cases bs with
  | nil => exact firstFree_free o s []
  | cons c cs =>
      rw [absorb]
      split <;> exact firstFree_free ..

/-- A property of sizes that sums keep. -/
theorem exists_absorb (s : Nat) (bs : List Block) :
    ∃ m rest, absorb s bs = ⟨m, false⟩ :: rest := by
  cases bs with
  | nil => exact ⟨s, [], rfl⟩
  | cons c cs =>
      rw [absorb]
      split
      · exact ⟨s, c :: cs, rfl⟩
      · exact ⟨s + c.size, cs, rfl⟩

theorem release_concat (pre : List Block) (a : Block) (s : Nat) (post : List Block) :
    release (pre ++ [a]) s post =
      pre ++ if a.used then a :: absorb s post else absorb a.size (absorb s post) := by
  induction pre with
  | nil => rfl
  | cons b pre ih =>
      cases pre with
      | nil => exact congrArg (b :: ·) ih
      | cons c pre => exact congrArg (b :: ·) ih

theorem usedAt_release (o : Nat) (pre : List Block) (s : Nat) (post : List Block) :
    usedAt o (release pre s post) = usedAt o (pre ++ ⟨s, false⟩ :: post) := by
  induction pre generalizing o with
  | nil => simp [release, usedAt_absorb, usedAt_free]
  | cons a pre ih =>
      cases pre with
      | nil =>
          rw [release]
          split
          next hused => simp [usedAt, hused, usedAt_absorb]
          next hfree => simp [usedAt, hfree, usedAt_absorb]
      | cons a' pre =>
          rw [release, usedAt, ih, List.cons_append, List.cons_append, usedAt]
          rfl

theorem coalesced_absorb (s : Nat) (h : Coalesced bs) : Coalesced (absorb s bs) := by
  cases bs with
  | nil => exact List.isChain_singleton _
  | cons c cs =>
      rw [absorb]
      split
      next hused => exact List.isChain_cons.mpr ⟨fun d hd => .inr (Option.some.inj hd ▸ hused), h⟩
      next hfree =>
        have hused : (c :: cs).map Block.used =
            ((⟨s + c.size, false⟩ : Block) :: cs).map Block.used := by simpa using hfree
        exact h.congr hused

theorem head_absorb (s : Nat) (bs : List Block) : ∀ b ∈ (absorb s bs).head?, b.used = false := by
  intro b hb
  cases bs with
  | nil =>
      obtain rfl := Option.some.inj hb
      rfl
  | cons c cs =>
      rw [absorb] at hb
      split at hb
      all_goals
        obtain rfl := Option.some.inj hb
        rfl

theorem head_release (a : Block) (pre : List Block) (s : Nat) (post : List Block) :
    ∀ b ∈ (release (a :: pre) s post).head?, b.used = a.used := by
  intro b hb
  cases pre with
  | nil =>
      rw [release] at hb
      split at hb
      next _ =>
        obtain rfl := Option.some.inj hb
        rfl
      next hfree =>
        rw [head_absorb _ _ b hb]
        simp [hfree]
  | cons a' pre =>
      obtain rfl := Option.some.inj hb
      rfl

/-- A block that is given back leaves no two unused blocks side by side. -/
theorem coalesced_release (h : Coalesced (pre ++ ⟨s, true⟩ :: post)) :
    Coalesced (release pre s post) := by
  induction pre with
  | nil => exact coalesced_absorb s (List.isChain_cons.mp h).2
  | cons a pre ih =>
      obtain ⟨hnext, hrest⟩ := List.isChain_cons.mp h
      cases pre with
      | nil =>
          have hpost := coalesced_absorb s (List.isChain_cons.mp hrest).2
          rw [release]
          split
          next hused => exact List.isChain_cons.mpr ⟨fun _ _ => .inl hused, hpost⟩
          next _ => exact coalesced_absorb a.size hpost
      | cons a' pre =>
          refine List.isChain_cons.mpr ⟨?_, ih hrest⟩
          intro b hb
          rw [head_release a' pre s post b hb]
          exact hnext a' rfl

/-- The last part of a used block is given back. -/
theorem Coalesced.shrink (h : Coalesced (pre ++ ⟨s, true⟩ :: post)) (n m : Nat) :
    Coalesced (pre ++ ⟨n, true⟩ :: absorb m post) := by
  obtain ⟨hpre, hrest, -⟩ := List.isChain_append.mp h
  refine List.isChain_append.mpr ⟨hpre, ?_, ?_⟩
  · refine List.isChain_cons.mpr ⟨fun _ _ => .inl rfl, ?_⟩
    exact coalesced_absorb m (List.isChain_cons.mp hrest).2
  · intro x _ y hy
    obtain rfl := Option.some.inj hy
    exact .inr rfl

/-- When the last part of a used block is given back, the lowest unused block is the old one or
that part. -/
theorem firstFree_shrink (h : n ≤ s) (o : Nat) (pre : List Block) (m : Nat) (post : List Block) :
    firstFree o (pre ++ ⟨n, true⟩ :: absorb m post) =
      min (o + span pre + n) (firstFree o (pre ++ ⟨s, true⟩ :: post)) := by
  induction pre generalizing o with
  | nil =>
      have hle := le_firstFree (o + s) post
      rw [List.nil_append, List.nil_append, firstFree_used, firstFree_used, firstFree_absorb,
        span_nil]
      omega
  | cons a pre ih =>
      simp only [List.cons_append]
      rw [firstFree_cons o a, firstFree_cons o a, ih (o + a.size), span_cons]
      split <;> omega

/-- When nothing is used, the range is one unused block. -/
theorem Coalesced.eq_singleton (h : Coalesced bs) (hused : usedAt o bs = []) (hpos : 0 < span bs) :
    bs = [⟨span bs, false⟩] := by
  have hfree : ∀ b ∈ bs, b.used = false := by
    intro b hb
    by_contra hne
    obtain ⟨pre, post, rfl⟩ := List.append_of_mem hb
    rw [usedAt_append, usedAt, if_pos (by simpa using hne)] at hused
    simp at hused
  match bs with
  | [] => simp at hpos
  | [b] =>
      have hb := hfree b List.mem_cons_self
      simp only [span_cons, span_nil, Nat.add_zero, List.cons.injEq, and_true]
      rw [← hb]
  | b :: c :: bs =>
      have hb := hfree b List.mem_cons_self
      have hc := hfree c (List.mem_cons_of_mem b List.mem_cons_self)
      have hnext := (List.isChain_cons.mp h).1 c rfl
      simp [hb, hc] at hnext

end Tiling
