import Meu1oARM.Foundation.Tiling
import Meu1oARM.Lwip.Heap

/-! # The blocks of the heap

The headers in `ram` spell a list of blocks that tile the heap. Each function of the
allocator does to that list what its name says, and keeps the bytes of the blocks in
use.
-/

namespace Meu1oARM

open Machine CString LittleEndian Tiling

namespace StructMem

variable {ram ram' : Mem} {p q v lo hi : Nat} {u : UInt8}

@[simp] theorem next_setNext (ram : Mem) (p v : Nat) : next (setNext ram p v) p = u16 v :=
  get16_put16 ram p v

@[simp] theorem prev_setPrev (ram : Mem) (p v : Nat) : prev (setPrev ram p v) p = u16 v :=
  get16_put16 ram (p + 2) v

@[simp] theorem used_setUsed (ram : Mem) (p : Nat) (u : UInt8) :
    used (setUsed ram p u) p = (u != 0) := by
  simp [used, setUsed]

@[simp] theorem next_setPrev (ram : Mem) (p v : Nat) : next (setPrev ram p v) p = next ram p :=
  get16_put16_of_ne (by omega)

@[simp] theorem next_setUsed (ram : Mem) (p : Nat) (u : UInt8) :
    next (setUsed ram p u) p = next ram p :=
  get16_put8_of_ne (by omega) (by omega)

@[simp] theorem prev_setNext (ram : Mem) (p v : Nat) : prev (setNext ram p v) p = prev ram p :=
  get16_put16_of_ne (by omega)

@[simp] theorem prev_setUsed (ram : Mem) (p : Nat) (u : UInt8) :
    prev (setUsed ram p u) p = prev ram p :=
  get16_put8_of_ne (by omega) (by omega)

@[simp] theorem used_setNext (ram : Mem) (p v : Nat) : used (setNext ram p v) p = used ram p := by
  simp [used, setNext, put16]

@[simp] theorem used_setPrev (ram : Mem) (p v : Nat) : used (setPrev ram p v) p = used ram p := by
  simp [used, setPrev, put16]

/-! What a store into one header leaves as it was. -/

theorem sameOn_setNext (h : p + 8 ≤ lo ∨ hi ≤ p) : SameOn ram (setNext ram p v) lo hi :=
  SameOn.put16 (by omega)

theorem sameOn_setPrev (h : p + 8 ≤ lo ∨ hi ≤ p) : SameOn ram (setPrev ram p v) lo hi :=
  SameOn.put16 (by omega)

theorem sameOn_setUsed (h : p + 8 ≤ lo ∨ hi ≤ p) : SameOn ram (setUsed ram p u) lo hi :=
  SameOn.put8 (by omega)

/-! A header is known by its eight bytes. -/

theorem next_congr (h : SameOn ram ram' p (p + 8)) : next ram' p = next ram p :=
  h.get16 (Nat.le_refl p) (by omega)

theorem prev_congr (h : SameOn ram ram' p (p + 8)) : prev ram' p = prev ram p :=
  h.get16 (by omega) (by omega)

theorem used_congr (h : SameOn ram ram' p (p + 8)) : used ram' p = used ram p := by
  rw [used, h (p + 4) (by omega) (by omega), used]

end StructMem

namespace Heap

open StructMem

/-- Sizes of blocks: a header, the least block of data, and the alignment. -/
def Room (s : Nat) : Prop := sizeofStructMem + minSizeAligned ≤ s ∧ s % memAlignment = 0

theorem Room.add (a b : Nat) (ha : Room a) (hb : Room b) : Room (a + b) := by
  unfold Room memAlignment at *
  omega

theorem Room.header_le {s : Nat} (h : Room s) : 8 ≤ s := Nat.le_trans (by decide) h.1

/-- From the block at `o`, whose field `prev` holds `q`, the headers spell the blocks `bs`. -/
inductive Linked (ram : Mem) : Nat → Nat → List Block → Prop
  | nil {q o : Nat} : Linked ram q o []
  | cons {q o : Nat} {b : Block} {bs : List Block} (hnext : next ram o = o + b.size)
      (hprev : prev ram o = q) (hused : used ram o = b.used)
      (hrest : Linked ram o (o + b.size) bs) : Linked ram q o (b :: bs)

/-- The offset of the last of the blocks, or `q` if there is none. -/
def lastOf : Nat → Nat → List Block → Nat
  | q, _, [] => q
  | _, o, b :: bs => lastOf o (o + b.size) bs

variable {ram ram' : Mem} {q o p e : Nat} {b : Block} {bs pre post : List Block}

theorem lastOf_concat (q o : Nat) (pre : List Block) (b : Block) :
    lastOf q o (pre ++ [b]) = o + span pre := by
  induction pre generalizing q o with
  | nil => simp [lastOf]
  | cons a pre ih => rw [List.cons_append, lastOf, ih, span_cons, Nat.add_assoc]

namespace Linked

theorem append_iff : Linked ram q o (pre ++ bs) ↔
    Linked ram q o pre ∧ Linked ram (lastOf q o pre) (o + span pre) bs := by
  induction pre generalizing q o with
  | nil => simpa [lastOf] using fun _ => Linked.nil
  | cons a pre ih =>
      rw [List.cons_append, span_cons, ← Nat.add_assoc, lastOf]
      constructor
      · rintro (_ | ⟨hnext, hprev, hused, hrest⟩)
        obtain ⟨hpre, hbs⟩ := ih.mp hrest
        exact ⟨.cons hnext hprev hused hpre, hbs⟩
      · rintro ⟨_ | ⟨hnext, hprev, hused, hpre⟩, hbs⟩
        exact .cons hnext hprev hused (ih.mpr ⟨hpre, hbs⟩)

/-- The headers lie in the range that the blocks tile. -/
theorem congr (h : Linked ram q o bs) (hsize : ∀ b ∈ bs, 8 ≤ b.size)
    (hsame : SameOn ram ram' o (o + span bs)) : Linked ram' q o bs := by
  induction h with
  | nil => exact .nil
  | @cons q o b bs hnext hprev hused hrest ih =>
      obtain ⟨hb, hbs⟩ := List.forall_mem_cons.mp hsize
      rw [span_cons] at hsame
      have hheader : SameOn ram ram' o (o + 8) := hsame.mono (Nat.le_refl o) (by omega)
      apply Linked.cons
      · rw [next_congr hheader, hnext]
      · rw [prev_congr hheader, hprev]
      · rw [used_congr hheader, hused]
      · exact ih hbs (hsame.mono (by omega) (by omega))

/-- The field `prev` of the first header is written. -/
theorem rewire (h : Linked ram q o bs) (hsize : ∀ b ∈ bs, 8 ≤ b.size) (hp : p < 65536) :
    Linked (setPrev ram o p) p o bs := by
  cases h with
  | nil => exact .nil
  | @cons _ _ b bs hnext hprev hused hrest =>
      obtain ⟨hb, hbs⟩ := List.forall_mem_cons.mp hsize
      apply Linked.cons
      · rw [next_setPrev, hnext]
      · rw [prev_setPrev, u16_of_lt hp]
      · rw [used_setPrev, hused]
      · exact hrest.congr hbs (sameOn_setPrev (by omega))

end Linked

/-- The headers spell the blocks, which tile the heap, and `lfree` points to the lowest unused
one. -/
structure Chained (h : Heap) (bs : List Block) : Prop where
  linked : Linked h.ram 0 0 bs
  span : span bs = memSizeAligned
  sizes : ∀ b ∈ bs, Room b.size
  lfree : h.lfree = firstFree 0 bs
  ramEnd : used h.ram memSizeAligned = true

/-- The heap between two calls: no two unused blocks lie side by side. -/
structure Tiled (h : Heap) (bs : List Block) : Prop extends Chained h bs where
  coalesced : Coalesced bs
  asserted : h.asserted = true
  returned : h.returned = true

/-- The bytes of every block in use but the header are the same. -/
def Kept (bs : List Block) (ram ram' : Mem) : Prop :=
  ∀ x ∈ usedAt 0 bs, SameOn ram ram' (x.1 + 8) (x.1 + x.2)

theorem Kept.trans {ram'' : Mem} (h : Kept bs ram ram') (h' : Kept bs ram' ram'') :
    Kept bs ram ram'' :=
  fun x hx => (h x hx).trans (h' x hx)

/-- A store into a header at the front of a block or behind the last one keeps the blocks. -/
theorem kept_of_header {x : Nat} (hx : x = Tiling.span pre)
    (h : ∀ lo hi, x + 8 ≤ lo ∨ hi ≤ x → SameOn ram ram' lo hi) : Kept (pre ++ post) ram ram' := by
  rintro ⟨p, s⟩ hmem
  apply h
  rw [usedAt_append] at hmem
  rcases List.mem_append.mp hmem with hmem | hmem
  · have hbound := usedAt_bounds hmem
    exact .inr (by omega)
  · have hbound := usedAt_bounds hmem
    exact .inl (by omega)

/-- A block is marked as used or as unused. -/
theorem linked_setUsed {s : Nat} {v : Bool} (h : Linked ram 0 0 (pre ++ ⟨s, v⟩ :: post))
    (hsizes : ∀ b ∈ pre ++ ⟨s, v⟩ :: post, 8 ≤ b.size) (u : UInt8) :
    Linked (setUsed ram (Tiling.span pre) u) 0 0 (pre ++ ⟨s, u != 0⟩ :: post) := by
  obtain ⟨hpre, hblock⟩ := Linked.append_iff.mp h
  rw [Nat.zero_add] at hblock
  obtain _ | ⟨hnext, hprev, _, hpost⟩ := hblock
  have hs : 8 ≤ s := hsizes ⟨s, v⟩ (by simp)
  refine Linked.append_iff.mpr ⟨?_, ?_⟩
  · exact hpre.congr (fun b hb => hsizes b (by simp [hb])) (sameOn_setUsed (by omega))
  · rw [Nat.zero_add]
    refine .cons ?_ ?_ ?_ ?_
    · rw [next_setUsed, hnext]
    · rw [prev_setUsed, hprev]
    · rw [used_setUsed]
    · exact hpost.congr (fun b hb => hsizes b (by simp [hb])) (sameOn_setUsed (by dsimp only; omega))

theorem memSizeAligned_eq : memSizeAligned = 12288 := rfl

section Insert

variable {u : Bool} {p2 q' : Nat}

theorem sameOn_insert {lo hi : Nat} (h : p + 8 ≤ lo ∨ hi ≤ p) (h2 : p2 + 8 ≤ lo ∨ hi ≤ p2)
    (he : e ≠ memSizeAligned → e + 8 ≤ lo ∨ hi ≤ e) (he' : e < 65536) (hpp : p + 8 ≤ p2) :
    SameOn ram (insert ram p p2 e) lo hi := by
  have hmem : SameOn ram (setNext (setPrev (setNext (setUsed ram p2 0) p2 e) p2 p) p p2) lo hi :=
    (((sameOn_setUsed h2).trans (sameOn_setNext h2)).trans (sameOn_setPrev h2)).trans
      (sameOn_setNext h)
  have hnext : next (setNext (setPrev (setNext (setUsed ram p2 0) p2 e) p2 p) p p2) p2 = e := by
    rw [next_congr (sameOn_setNext (.inl hpp)), next_setPrev, next_setNext, u16_of_lt he']
  simp only [insert, hnext]
  split
  next hne => exact hmem.trans (sameOn_setPrev (he hne))
  next _ => exact hmem

/-- A new unused block is put between a block and the ones behind it. -/
theorem linked_insert (hq : prev ram p = q) (hu : used ram p = u) (hbs : Linked ram q' e bs)
    (hsize : ∀ b ∈ bs, 8 ≤ b.size) (hp : p + 8 ≤ p2) (hp2 : p2 + 8 ≤ e)
    (he : e + Tiling.span bs = memSizeAligned) :
    Linked (insert ram p p2 e) q p (⟨p2 - p, u⟩ :: ⟨e - p2, false⟩ :: bs) := by
  rw [memSizeAligned_eq] at he
  -- the headers at `p` and `p2` once `mem->next` has been written
  have hram (ram₀ : Mem)
      (h0 : ram₀ = setNext (setPrev (setNext (setUsed ram p2 0) p2 e) p2 p) p p2) :
      next ram₀ p = p2 ∧ prev ram₀ p = q ∧ used ram₀ p = u ∧ next ram₀ p2 = e ∧
        prev ram₀ p2 = p ∧ used ram₀ p2 = false := by
    have hfirst : SameOn ram (setPrev (setNext (setUsed ram p2 0) p2 e) p2 p) p (p + 8) :=
      ((sameOn_setUsed (by omega)).trans (sameOn_setNext (by omega))).trans
        (sameOn_setPrev (by omega))
    have hsecond : SameOn (setPrev (setNext (setUsed ram p2 0) p2 e) p2 p) ram₀ p2 (p2 + 8) :=
      h0 ▸ sameOn_setNext (.inl hp)
    rw [next_congr hsecond, prev_congr hsecond, used_congr hsecond, h0]
    simp only [next_setNext, prev_setNext, used_setNext, next_setPrev, prev_setPrev, used_setPrev,
      used_setUsed, prev_congr hfirst, used_congr hfirst, hq, hu]
    rw [u16_of_lt (by omega), u16_of_lt (by omega), u16_of_lt (by omega)]
    simp
  have hbehind : Linked (setNext (setPrev (setNext (setUsed ram p2 0) p2 e) p2 p) p p2) q' e bs := by
    apply hbs.congr hsize
    exact (((sameOn_setUsed (by omega)).trans (sameOn_setNext (by omega))).trans
      (sameOn_setPrev (by omega))).trans (sameOn_setNext (by omega))
  obtain ⟨hnext, hprev, hused, hnext2, hprev2, hused2⟩ := hram _ rfl
  simp only [insert, hnext2]
  have hfront (ram' : Mem)
      (h : SameOn (setNext (setPrev (setNext (setUsed ram p2 0) p2 e) p2 p) p p2) ram' p e)
      (hrest : Linked ram' p2 e bs) :
      Linked ram' q p (⟨p2 - p, u⟩ :: ⟨e - p2, false⟩ :: bs) := by
    have hat : p + (p2 - p) = p2 := by omega
    have hat2 : p2 + (e - p2) = e := by omega
    have h1 : SameOn _ ram' p (p + 8) := h.mono (by omega) (by omega)
    have h2 : SameOn _ ram' p2 (p2 + 8) := h.mono (by omega) (by omega)
    refine .cons ?_ ?_ ?_ (.cons ?_ ?_ ?_ ?_)
    · rw [next_congr h1, hnext, hat]
    · rw [prev_congr h1, hprev]
    · rw [used_congr h1, hused]
    · rw [hat, next_congr h2, hnext2, hat2]
    · rw [hat, prev_congr h2, hprev2]
    · rw [hat, used_congr h2, hused2]
    · rw [hat, hat2]
      exact hrest
  split
  next _ => exact hfront _ (sameOn_setPrev (.inr (Nat.le_refl e))) (hbehind.rewire hsize (by omega))
  next hend =>
    apply hfront _ (SameOn.refl _ _ _)
    cases bs with
    | nil => exact .nil
    | cons b bs =>
        have hb := hsize b List.mem_cons_self
        simp only [ne_eq, not_not, memSizeAligned_eq] at hend
        rw [span_cons] at he
        omega

/-- The same within the heap: the blocks in front and `ram_end` stay as they are. -/
theorem linked_insert_behind (hpre : Linked ram 0 0 pre) (hsizes : ∀ b ∈ pre ++ post, 8 ≤ b.size)
    (hprev : prev ram (Tiling.span pre) = lastOf 0 0 pre) (hused : used ram (Tiling.span pre) = u)
    (hpost : Linked ram q' e post) (hp : Tiling.span pre + 8 ≤ p2) (hp2 : p2 + 8 ≤ e)
    (he : e + Tiling.span post = memSizeAligned) :
    Linked (insert ram (Tiling.span pre) p2 e) 0 0
        (pre ++ ⟨p2 - Tiling.span pre, u⟩ :: ⟨e - p2, false⟩ :: post) ∧
      used (insert ram (Tiling.span pre) p2 e) memSizeAligned = used ram memSizeAligned := by
  have hpre8 : ∀ b ∈ pre, 8 ≤ b.size := fun b hb => hsizes b (List.mem_append_left _ hb)
  have hpost8 : ∀ b ∈ post, 8 ≤ b.size := fun b hb => hsizes b (List.mem_append_right _ hb)
  have hlt : e < 65536 := by
    rw [memSizeAligned_eq] at he
    omega
  constructor
  · refine Linked.append_iff.mpr ⟨?_, ?_⟩
    · apply hpre.congr hpre8
      exact sameOn_insert (by omega) (by omega) (fun _ => by omega) hlt hp
    · rw [Nat.zero_add]
      exact linked_insert hprev hused hpost hpost8 hp hp2 he
  · apply used_congr
    refine sameOn_insert (by omega) (by omega) (fun hne => ?_) hlt hp
    cases post with
    | nil => exact absurd (by simpa using he) hne
    | cons b bs =>
        have hb := hpost8 b List.mem_cons_self
        rw [span_cons] at he
        omega

end Insert

section Plug

variable {h : Heap} {mem nmem : Nat}

theorem sameOn_plug {lo hi : Nat} (hmem : mem + 8 ≤ lo ∨ hi ≤ mem)
    (hnext : next h.ram nmem + 8 ≤ lo ∨ hi ≤ next h.ram nmem) (hn : mem + 8 ≤ nmem) :
    SameOn h.ram (h.plug mem nmem).ram lo hi := by
  have hsame : next (setNext h.ram mem (next h.ram nmem)) nmem = next h.ram nmem :=
    next_congr (sameOn_setNext (.inl hn))
  have hlfree : (if h.lfree = nmem then { h with lfree := mem } else h).ram = h.ram := by
    split <;> rfl
  simp only [plug, hlfree, hsame]
  exact (sameOn_setNext hmem).trans (sameOn_setPrev hnext)

/-- Of the header of `ram_end` only the field `prev` is ever written. -/
theorem used_plug {p : Nat} (hmem : mem ≤ p) (hnext : next h.ram nmem ≤ p)
    (hn : mem + 8 ≤ nmem) : used (h.plug mem nmem).ram p = used h.ram p := by
  have hsame : next (setNext h.ram mem (next h.ram nmem)) nmem = next h.ram nmem :=
    next_congr (sameOn_setNext (.inl hn))
  have hlfree : (if h.lfree = nmem then { h with lfree := mem } else h).ram = h.ram := by
    split <;> rfl
  simp only [plug, hlfree, hsame]
  simp only [used, setPrev, setNext]
  rw [put16_of_ne (by omega) (by omega), put16_of_ne (by omega) (by omega)]

/-- A block becomes a part of the unused block in front of it. -/
theorem linked_plug {s t : Nat} (hlinked : Linked h.ram q mem (⟨s, false⟩ :: ⟨t, false⟩ :: bs))
    (hs : 8 ≤ s) (ht : 8 ≤ t) (hsize : ∀ b ∈ bs, 8 ≤ b.size)
    (hend : mem + s + t + Tiling.span bs = memSizeAligned) :
    Linked (h.plug mem (mem + s)).ram q mem (⟨s + t, false⟩ :: bs) := by
  rw [memSizeAligned_eq] at hend
  obtain _ | ⟨hnext, hprev, hused, _ | ⟨hnext2, hprev2, hused2, hbs⟩⟩ := hlinked
  simp only at hnext hnext2 hbs hused
  have hsame : next (setNext h.ram mem (next h.ram (mem + s))) (mem + s) = mem + s + t := by
    rw [next_congr (sameOn_setNext (by omega)), hnext2]
  have hlfree : (if h.lfree = mem + s then { h with lfree := mem } else h).ram = h.ram := by
    split <;> rfl
  simp only [plug, hlfree, hsame]
  have hfirst : SameOn (setNext h.ram mem (next h.ram (mem + s)))
      (setPrev (setNext h.ram mem (next h.ram (mem + s))) (mem + s + t) mem) mem (mem + 8) :=
    sameOn_setPrev (by omega)
  apply Linked.cons
  · rw [next_congr hfirst, next_setNext, hnext2, u16_of_lt (by omega), Nat.add_assoc]
  · rw [prev_congr hfirst, prev_setNext, hprev]
  · rw [used_congr hfirst, used_setNext, hused]
  · rw [← Nat.add_assoc]
    exact (hbs.congr hsize (sameOn_setNext (by omega))).rewire hsize (by omega)

end Plug

end Heap

end Meu1oARM
