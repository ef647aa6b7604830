import Meu1oARM.Lwip.HeapBlocks

/-! # What the functions of mem.c do

Each function of the allocator, run on a heap that its blocks tile, leaves a heap that
its blocks tile, with every assertion held and every loop ended.
-/

namespace Meu1oARM

open Machine CString LittleEndian Tiling

namespace Heap

open StructMem

variable {h : Heap} {ram ram' : Mem} {bs pre post : List Block} {s p : Nat}

@[simp] theorem check_true (h : Heap) : h.check true = h := by simp [check]

theorem check_of {c : Prop} [Decidable c] (h : Heap) (hc : c) : h.check c = h := by simp [hc]

theorem Room.header_sizes (hsize : ∀ b ∈ bs, Room b.size) : ∀ b ∈ bs, 8 ≤ b.size :=
  fun b hb => (hsize b hb).header_le

theorem span_mod (bs : List Block) (hsize : ∀ b ∈ bs, Room b.size) :
    Tiling.span bs % memAlignment = 0 := by
  induction bs with
  | nil => rfl
  | cons b bs ih =>
      obtain ⟨hb, hbs⟩ := List.forall_mem_cons.mp hsize
      have hmod := ih hbs
      have hmod' := hb.2
      rw [span_cons]
      unfold memAlignment at *
      omega

theorem memInit_tiled (ram : Mem) : Tiled (memInit ram) [⟨memSizeAligned, false⟩] := by
  have hend : SameOn (setUsed (setPrev (setNext ram 0 memSizeAligned) 0 0) 0 0)
      (memInit ram).ram 0 8 :=
    ((sameOn_setUsed (by decide)).trans (sameOn_setNext (by decide))).trans
      (sameOn_setPrev (by decide))
  refine ⟨⟨.cons ?_ ?_ ?_ .nil, rfl, ?_, rfl, ?_⟩, List.isChain_singleton _, rfl, rfl⟩
  · rw [next_congr hend, next_setUsed, next_setPrev, next_setNext]
    rfl
  · rw [prev_congr hend, prev_setUsed, prev_setPrev]
    rfl
  · rw [used_congr hend, used_setUsed]
    rfl
  · intro b hb
    obtain rfl := List.mem_singleton.mp hb
    exact ⟨by decide, by decide⟩
  · simp [memInit]

/-! ## `mem_free` -/

namespace Chained

variable {b : Block}

theorem at_block (hc : Chained h (pre ++ bs)) :
    Linked h.ram (lastOf 0 0 pre) (Tiling.span pre) bs := by
  simpa using (Linked.append_iff.mp hc.linked).2

theorem room (hc : Chained h (pre ++ b :: post)) : Room b.size := hc.sizes b (by simp)

theorem span_eq (hc : Chained h (pre ++ b :: post)) :
    Tiling.span pre + b.size + Tiling.span post = memSizeAligned := by
  have hspan := hc.span
  simp only [span_append, span_cons] at hspan
  omega

/-- Two unused blocks are made one. -/
theorem plug {t : Nat} (hc : Chained h (pre ++ ⟨s, false⟩ :: ⟨t, false⟩ :: post)) :
    Chained (h.plug (Tiling.span pre) (Tiling.span pre + s)) (pre ++ ⟨s + t, false⟩ :: post) ∧
      Kept (pre ++ ⟨s, false⟩ :: ⟨t, false⟩ :: post) h.ram
        (h.plug (Tiling.span pre) (Tiling.span pre + s)).ram := by
  have hblock := hc.at_block
  have hroom := hc.span_eq
  have hheader := Room.header_sizes hc.sizes
  have hs : 8 ≤ s := hheader ⟨s, false⟩ (by simp)
  have ht : 8 ≤ t := hheader ⟨t, false⟩ (by simp)
  simp only [span_cons] at hroom
  have hnext : next h.ram (Tiling.span pre + s) = Tiling.span pre + s + t := by
    obtain _ | ⟨_, _, _, _ | ⟨hnext, _, _, _⟩⟩ := hblock
    exact hnext
  have hsame {lo hi : Nat} (hmem : Tiling.span pre + 8 ≤ lo ∨ hi ≤ Tiling.span pre)
      (hat : Tiling.span pre + s + t + 8 ≤ lo ∨ hi ≤ Tiling.span pre + s + t) :
      SameOn h.ram (h.plug (Tiling.span pre) (Tiling.span pre + s)).ram lo hi :=
    sameOn_plug hmem (hnext ▸ hat) (by omega)
  refine ⟨⟨?_, ?_, ?_, ?_, ?_⟩, ?_⟩
  · refine Linked.append_iff.mpr ⟨?_, ?_⟩
    · apply (Linked.append_iff.mp hc.linked).1.congr fun b hb => hheader b (by simp [hb])
      exact hsame (by omega) (by omega)
    · rw [Nat.zero_add]
      exact linked_plug hblock hs ht (fun b hb => hheader b (by simp [hb])) (by omega)
  · simp only [span_append, span_cons]
    omega
  · intro b hb
    rcases List.mem_append.mp hb with hb | hb
    · exact hc.sizes b (by simp [hb])
    rcases List.mem_cons.mp hb with rfl | hb
    · exact Room.add s t (hc.sizes ⟨s, false⟩ (by simp)) (hc.sizes ⟨t, false⟩ (by simp))
    · exact hc.sizes b (by simp [hb])
  · have hle := firstFree_le_of_free (b := ⟨s, false⟩) rfl 0 pre (⟨t, false⟩ :: post)
    have hne : h.lfree ≠ Tiling.span pre + s := by
      rw [hc.lfree]
      omega
    rw [Heap.plug, if_neg hne]
    exact hc.lfree.trans (firstFree_of_free ..)
  · rw [used_plug (by omega) (by omega) (by omega)]
    exact hc.ramEnd
  · rintro ⟨p, u⟩ hmem
    rw [usedAt_append, usedAt_free, usedAt_free] at hmem
    rcases List.mem_append.mp hmem with hmem | hmem
    · have hbound := usedAt_bounds hmem
      exact hsame (by omega) (by omega)
    · have hbound := usedAt_bounds hmem
      exact hsame (by omega) (by omega)

end Chained

/-- What `plug_holes` may do to the heap besides merging blocks. -/
structure Plugged (h h' : Heap) (bs bs' : List Block) : Prop where
  chained : Chained h' bs'
  asserted : h'.asserted = h.asserted
  returned : h'.returned = h.returned
  kept : Kept bs h.ram h'.ram

theorem Plugged.refl (hc : Chained h bs) : Plugged h h bs bs :=
  ⟨hc, rfl, rfl, fun _ _ => SameOn.refl _ _ _⟩

theorem Plugged.trans {h' h'' : Heap} {bs' bs'' : List Block} (hp : Plugged h h' bs bs')
    (hp' : Plugged h' h'' bs' bs'') (hused : usedAt 0 bs' = usedAt 0 bs) :
    Plugged h h'' bs bs'' where
  chained := hp'.chained
  asserted := hp'.asserted.trans hp.asserted
  returned := hp'.returned.trans hp.returned
  kept x hx := (hp.kept x hx).trans (hp'.kept x (hused ▸ hx))

theorem plugged_plug {t : Nat} (hc : Chained h (pre ++ ⟨s, false⟩ :: ⟨t, false⟩ :: post)) :
    Plugged h (h.plug (Tiling.span pre) (Tiling.span pre + s))
      (pre ++ ⟨s, false⟩ :: ⟨t, false⟩ :: post) (pre ++ ⟨s + t, false⟩ :: post) := by
  refine ⟨hc.plug.1, ?_, ?_, hc.plug.2⟩
  all_goals
    unfold plug
    split <;> rfl

/-- The first half of `plug_holes`: the unused block behind `mem` is merged with it. -/
theorem plugged_forward (hc : Chained h (pre ++ ⟨s, false⟩ :: post)) :
    Plugged h
      (if Tiling.span pre ≠ next h.ram (Tiling.span pre) ∧
          used h.ram (next h.ram (Tiling.span pre)) = false ∧
          next h.ram (Tiling.span pre) ≠ memSizeAligned
        then h.plug (Tiling.span pre) (next h.ram (Tiling.span pre)) else h)
      (pre ++ ⟨s, false⟩ :: post) (pre ++ absorb s post) := by
  have hs := hc.room.header_le
  have hend := hc.span_eq
  obtain _ | ⟨hnext, _, _, hpost⟩ := hc.at_block
  simp only at hnext hpost hs hend
  rw [hnext]
  cases post with
  | nil =>
      rw [if_neg (by simp only [span_nil] at hend; omega)]
      exact Plugged.refl hc
  | cons c cs =>
      have hcs : 8 ≤ c.size := (hc.sizes c (by simp)).header_le
      obtain _ | ⟨_, _, hused, _⟩ := hpost
      rw [span_cons] at hend
      rw [absorb]
      split
      next hplug =>
        obtain ⟨t, u⟩ := c
        obtain rfl : u = false := hused.symm.trans hplug.2.1
        exact plugged_plug hc
      next hno =>
        have hc' : c.used = true := by
          by_contra hfree
          exact hno ⟨by omega, hused.trans (by simpa using hfree), by omega⟩
        rw [if_pos hc']
        exact Plugged.refl hc

/-- The second half of `plug_holes`: the unused block in front of `mem` takes it in. -/
theorem plugged_backward {rest : List Block} {m : Nat} (hrest : absorb s post = ⟨m, false⟩ :: rest)
    (hc : Chained h (pre ++ ⟨m, false⟩ :: rest)) :
    Plugged h
      (if prev h.ram (Tiling.span pre) ≠ Tiling.span pre ∧
          used h.ram (prev h.ram (Tiling.span pre)) = false
        then h.plug (prev h.ram (Tiling.span pre)) (Tiling.span pre) else h)
      (pre ++ ⟨m, false⟩ :: rest) (release pre s post) := by
  obtain _ | ⟨_, hprev, _, _⟩ := hc.at_block
  rw [hprev]
  rcases List.eq_nil_or_concat pre with rfl | ⟨pre, a, rfl⟩
  · rw [if_neg (by simp [lastOf]), release, hrest]
    exact Plugged.refl hc
  · rw [List.concat_eq_append] at *
    rw [lastOf_concat, Nat.zero_add, release_concat, hrest]
    have ha : 8 ≤ a.size := (hc.sizes a (by simp)).header_le
    have hassoc : pre ++ [a] ++ ⟨m, false⟩ :: rest = pre ++ a :: ⟨m, false⟩ :: rest := by simp
    have hspan : Tiling.span (pre ++ [a]) = Tiling.span pre + a.size := by simp
    rw [hassoc] at hc ⊢
    rw [hspan]
    obtain _ | ⟨_, _, hused, _⟩ := hc.at_block
    obtain ⟨t, u⟩ := a
    simp only at hused ha
    cases u with
    | true =>
        rw [if_neg (by simp [hused])]
        exact Plugged.refl hc
    | false =>
        rw [if_pos ⟨by dsimp only; omega, hused⟩]
        exact plugged_plug hc

/-- `plug_holes` merges an unused block with the unused blocks beside it. -/
theorem plugHoles_spec (hc : Chained h (pre ++ ⟨s, false⟩ :: post)) :
    Plugged h (h.plugHoles (Tiling.span pre)) (pre ++ ⟨s, false⟩ :: post) (release pre s post) := by
  have hs := hc.room.header_le
  have hend := hc.span_eq
  obtain _ | ⟨hnext, _, hused, _⟩ := hc.at_block
  simp only at hnext hused hs hend
  have hlt : Tiling.span pre < memSizeAligned := by omega
  have hle : next h.ram (Tiling.span pre) ≤ memSizeAligned := by omega
  unfold plugHoles
  simp only [check_of h hlt, check_of h hused, check_of h hle]
  obtain ⟨m, rest, hrest⟩ := exists_absorb s post
  have hforward := plugged_forward hc
  rw [hrest] at hforward
  apply hforward.trans (plugged_backward hrest hforward.chained)
  rw [← hrest, usedAt_append, usedAt_absorb, usedAt_append, usedAt_free]

/-- `mem_free` gives a block back. -/
theorem memFree_spec (ht : Tiled h (pre ++ ⟨s, true⟩ :: post)) :
    Tiled (h.memFree (some (Tiling.span pre + sizeofStructMem))) (release pre s post) ∧
      Kept (pre ++ ⟨s, false⟩ :: post) h.ram
        (h.memFree (some (Tiling.span pre + sizeofStructMem))).ram := by
  have hblock := ht.at_block
  have hroom := ht.span_eq
  have hs := ht.room.header_le
  simp only at hroom hs
  obtain _ | ⟨hnext, hprev, hused, hpost⟩ := hblock
  simp only at hnext hused hpost
  have hmod : (Tiling.span pre + sizeofStructMem) % memAlignment = 0 := by
    have hpre := span_mod pre fun b hb => ht.sizes b (by simp [hb])
    have hheader : sizeofStructMem % memAlignment = 0 := by decide
    unfold memAlignment at *
    omega
  have hlt : Tiling.span pre + sizeofStructMem < memSizeAligned := by
    have hleast := ht.room.1
    have hmin : 0 < minSizeAligned := by decide
    simp only at hleast
    omega
  have hmem : Tiling.span pre + sizeofStructMem - sizeofStructMem = Tiling.span pre := by omega
  have hsame {lo hi : Nat} (hout : Tiling.span pre + 8 ≤ lo ∨ hi ≤ Tiling.span pre) :
      SameOn h.ram (setUsed h.ram (Tiling.span pre) 0) lo hi := sameOn_setUsed hout
  have hgiven (low : Nat) (hlow : low = firstFree 0 (pre ++ ⟨s, false⟩ :: post)) :
      Chained { h with ram := setUsed h.ram (Tiling.span pre) 0, lfree := low }
        (pre ++ ⟨s, false⟩ :: post) := by
    refine ⟨linked_setUsed ht.linked (Room.header_sizes ht.sizes) 0, ?_, ?_, hlow, ?_⟩
    · rw [← ht.span]
      simp
    · intro b hb
      rcases List.mem_append.mp hb with hb | hb
      · exact ht.sizes b (by simp [hb])
      rcases List.mem_cons.mp hb with rfl | hb
      · exact ht.sizes ⟨s, true⟩ (by simp)
      · exact ht.sizes b (by simp [hb])
    · rw [← ht.ramEnd]
      exact used_congr (hsame (by omega))
  have hlow := firstFree_give_back 0 pre s post
  rw [Nat.zero_add, ← ht.lfree] at hlow
  have hrun : h.memFree (some (Tiling.span pre + sizeofStructMem)) =
      plugHoles { h with
        ram := setUsed h.ram (Tiling.span pre) 0
        lfree := firstFree 0 (pre ++ ⟨s, false⟩ :: post) } (Tiling.span pre) := by
    simp only [memFree, check_of h hmod, check_of h hlt, if_neg (Nat.not_le_of_lt hlt), hmem, hused,
      check_true, hlow]
    split
    next hless => rw [min_eq_left (Nat.le_of_lt hless)]
    next hge => rw [min_eq_right (Nat.le_of_not_lt hge)]
  have hplugged := plugHoles_spec (hgiven _ rfl)
  rw [hrun]
  refine ⟨⟨hplugged.chained, coalesced_release ht.coalesced, ?_, ?_⟩, ?_⟩
  · exact hplugged.asserted.trans ht.asserted
  · exact hplugged.returned.trans ht.returned
  · intro x hx
    have hheader : Kept (pre ++ ⟨s, false⟩ :: post) h.ram (setUsed h.ram (Tiling.span pre) 0) :=
      kept_of_header rfl fun lo hi hout => hsame hout
    exact (hheader x hx).trans (hplugged.kept x hx)

/-! ## `mem_malloc` -/

theorem roundSize_mod (n : Nat) : roundSize n % memAlignment = 0 := by
  have hleast : minSizeAligned % memAlignment = 0 := by decide
  unfold roundSize memAlignSize u16 memAlignment at *
  simp only
  split <;> omega

theorem minSizeAligned_le_roundSize (n : Nat) : minSizeAligned ≤ roundSize n := by
  unfold roundSize
  simp only
  split <;> omega

/-- Less is reserved than asked for if and only if the size cannot be aligned in 16 bits. -/
theorem le_roundSize_iff {n : Nat} (h : n < 65536) : n ≤ roundSize n ↔ n ≤ 65532 := by
  have hleast : minSizeAligned = 12 := rfl
  unfold roundSize memAlignSize u16 memAlignment
  simp only
  split <;> omega

section Search

variable {q o fuel : Nat}

theorem scan_eq (hlinked : Linked ram q o bs) (hsize : ∀ b ∈ bs, 8 ≤ b.size) (n : Nat)
    (hend : o + Tiling.span bs = memSizeAligned) (hfuel : bs.length < fuel) :
    scan ram n fuel o = some (firstFit (n + 8) o bs) := by
  induction bs generalizing q o fuel with
  | nil =>
      obtain ⟨fuel, rfl⟩ := Nat.exists_eq_succ_of_ne_zero (by omega : fuel ≠ 0)
      rw [span_nil] at hend
      rw [scan, if_neg (by omega)]
      rfl
  | cons b bs ih =>
      obtain ⟨fuel, rfl⟩ := Nat.exists_eq_succ_of_ne_zero (by omega : fuel ≠ 0)
      obtain ⟨hb, hbs⟩ := List.forall_mem_cons.mp hsize
      obtain _ | ⟨hnext, _, hused, hrest⟩ := hlinked
      rw [span_cons] at hend
      rw [scan]
      split
      next _ =>
        have hroom : sub32 (next ram o) (o + sizeofStructMem) = b.size - 8 := by
          rw [hnext, show sizeofStructMem = 8 from rfl, sub32_of_le (by omega)
            (by rw [memSizeAligned_eq] at hend; omega)]
          omega
        have hiff : used ram o = false ∧ n ≤ sub32 (next ram o) (o + sizeofStructMem) ↔
            b.used = false ∧ n + 8 ≤ b.size := by
          rw [hroom, hused]
          exact and_congr_right fun _ => by omega
        rw [firstFit]
        by_cases hfit : b.used = false ∧ n + 8 ≤ b.size
        · rw [if_pos (hiff.mpr hfit), if_pos hfit]
        · rw [if_neg (mt hiff.mp hfit), if_neg hfit, hnext]
          exact ih hrest hbs (by omega) (by simpa using hfuel)
      next hlast =>
        -- what is left of the heap is shorter than the block sought
        rw [firstFit_of_span_lt (by rw [span_cons]; omega)]

theorem nextFree_eq (hlinked : Linked ram q o bs) (hsize : ∀ b ∈ bs, 8 ≤ b.size)
    (hend : o + Tiling.span bs = memSizeAligned) (hfuel : bs.length < fuel) :
    nextFree ram fuel o = some (firstFree o bs) := by
  induction bs generalizing q o fuel with
  | nil =>
      obtain ⟨fuel, rfl⟩ := Nat.exists_eq_succ_of_ne_zero (by omega : fuel ≠ 0)
      rw [span_nil] at hend
      rw [nextFree, if_neg (fun hgo => hgo.2 hend)]
      rfl
  | cons b bs ih =>
      obtain ⟨fuel, rfl⟩ := Nat.exists_eq_succ_of_ne_zero (by omega : fuel ≠ 0)
      obtain ⟨hb, hbs⟩ := List.forall_mem_cons.mp hsize
      obtain _ | ⟨hnext, _, hused, hrest⟩ := hlinked
      rw [span_cons] at hend
      rw [nextFree, firstFree_cons, hused, hnext]
      cases b.used with
      | true =>
          rw [if_pos ⟨rfl, by omega⟩, if_pos rfl]
          exact ih hrest hbs (by omega) (by simpa using hfuel)
      | false => rw [if_neg (by simp), if_neg (by simp)]

end Search

/-- The least block that is split off. -/
abbrev leastBlock : Nat := sizeofStructMem + minSizeAligned

theorem kept_insert {p2 e : Nat} (hp2 : Tiling.span pre + 8 ≤ p2) (hle : p2 + 8 ≤ e)
    (hs : Tiling.span pre + s = e) (he : e < 65536) :
    Kept (pre ++ ⟨s, false⟩ :: post) ram (insert ram (Tiling.span pre) p2 e) := by
  rintro ⟨x, t⟩ hmem
  rw [usedAt_append, usedAt_free, Nat.zero_add] at hmem
  rcases List.mem_append.mp hmem with hmem | hmem
  · have hbound := usedAt_bounds hmem
    exact sameOn_insert (by omega) (by omega) (fun _ => by omega) he hp2
  · have hbound := usedAt_bounds hmem
    exact sameOn_insert (by omega) (by omega) (fun _ => by omega) he hp2

/-- The block that `mem_malloc` has found is taken. -/
theorem take_spec {n : Nat} (hc : Chained h (pre ++ ⟨s, false⟩ :: post)) (hfit : n + 8 ≤ s)
    (hleast : minSizeAligned ≤ n) :
    Linked (h.take (Tiling.span pre) n).ram 0 0 (taken leastBlock (n + 8) pre s post) ∧
      used (h.take (Tiling.span pre) n).ram memSizeAligned = true ∧
      Kept (pre ++ ⟨s, false⟩ :: post) h.ram (h.take (Tiling.span pre) n).ram := by
  have hblock := hc.at_block
  have hend := hc.span_eq
  obtain _ | ⟨hnext, hprev, hused, hpost⟩ := hblock
  simp only at hnext hused hpost hend
  have hheader : sizeofStructMem = 8 := rfl
  have hleast' : minSizeAligned = 12 := rfl
  have hsplit' : leastBlock = 20 := rfl
  have hroom : sub32 (next h.ram (Tiling.span pre)) (Tiling.span pre + sizeofStructMem) = s - 8 := by
    rw [memSizeAligned_eq] at hend
    rw [hnext, sub32_of_le (by omega) (by omega)]
    omega
  have hsizes := Room.header_sizes hc.sizes
  have hpre := (Linked.append_iff.mp hc.linked).1
  have hmark : Kept (pre ++ ⟨s, false⟩ :: post) h.ram (setUsed h.ram (Tiling.span pre) 1) :=
    kept_of_header rfl fun lo hi hout => sameOn_setUsed hout
  unfold take taken
  rw [hroom]
  split
  next hsplit =>
    have hat : u16 (Tiling.span pre + sizeofStructMem + n) = Tiling.span pre + (n + 8) := by
      rw [memSizeAligned_eq] at hend
      rw [u16_of_lt (by omega)]
      omega
    have hrest : ∀ b ∈ pre ++ post, 8 ≤ b.size := by
      intro b hb
      apply hsizes
      rcases List.mem_append.mp hb with hb | hb <;> simp [hb]
    have hfront : Tiling.span pre + 8 ≤ Tiling.span pre + (n + 8) := by omega
    obtain ⟨hlinked, hramEnd⟩ :=
      linked_insert_behind hpre hrest hprev hused hpost hfront (by omega) (by omega)
    rw [Nat.add_sub_cancel_left, Nat.add_sub_add_left] at hlinked
    simp only [hat, hnext, if_pos (by omega : n + 8 + leastBlock ≤ s)]
    refine ⟨linked_setUsed hlinked ?_ 1, ?_, ?_⟩
    · intro b hb
      rcases List.mem_append.mp hb with hb | hb
      · exact hrest b (by simp [hb])
      rcases List.mem_cons.mp hb with rfl | hb
      · exact Nat.le_add_left 8 n
      rcases List.mem_cons.mp hb with rfl | hb
      · dsimp only
        omega
      · exact hrest b (by simp [hb])
    · rw [used_congr (sameOn_setUsed (by omega)), hramEnd, hc.ramEnd]
    · have hinsert : Kept (pre ++ ⟨s, false⟩ :: post) h.ram
          (insert h.ram (Tiling.span pre) (Tiling.span pre + (n + 8)) (Tiling.span pre + s)) := by
        rw [memSizeAligned_eq] at hend
        exact kept_insert (by omega) (by omega) rfl (by omega)
      apply hinsert.trans
      exact kept_of_header rfl fun lo hi hout => sameOn_setUsed hout
  next hwhole =>
    simp only [if_neg (by omega : ¬ n + 8 + leastBlock ≤ s)]
    refine ⟨linked_setUsed hc.linked hsizes 1, ?_, hmark⟩
    rw [used_congr (sameOn_setUsed (by omega)), hc.ramEnd]

theorem take_lfree (h : Heap) (mem n : Nat) : (h.take mem n).lfree = h.lfree := by
  unfold take
  split <;> rfl

theorem take_checks (h : Heap) (mem n : Nat) :
    (h.take mem n).asserted = h.asserted ∧ (h.take mem n).returned = h.returned := by
  unfold take
  split <;> exact ⟨rfl, rfl⟩

/-- After a block has been taken, `lfree` is moved to the next unused one. -/
theorem adjustLfree_spec {h' : Heap} {t : Nat} {rest : List Block}
    (hlfree : h'.lfree = firstFree 0 (pre ++ ⟨s, false⟩ :: post))
    (hlinked : Linked h'.ram 0 0 (pre ++ ⟨t, true⟩ :: rest))
    (hspan : Tiling.span (pre ++ ⟨t, true⟩ :: rest) = memSizeAligned)
    (hsizes : ∀ b ∈ pre ++ ⟨t, true⟩ :: rest, 8 ≤ b.size) :
    h'.adjustLfree (Tiling.span pre) =
      { h' with lfree := firstFree 0 (pre ++ ⟨t, true⟩ :: rest) } := by
  have hpos : ∀ b ∈ pre, 0 < b.size := fun b hb =>
    Nat.lt_of_lt_of_le (by decide) (hsizes b (by simp [hb]))
  rw [firstFree_append hpos, firstFree_free] at hlfree
  rw [firstFree_append hpos]
  rw [Nat.zero_add] at hlfree ⊢
  unfold adjustLfree
  by_cases hlow : firstFree 0 pre = Tiling.span pre
  · rw [if_pos hlow] at hlfree ⊢
    rw [if_pos hlfree.symm]
    have hblock := (Linked.append_iff.mp hlinked).2
    rw [Nat.zero_add] at hblock
    have hrest : ∀ b ∈ (⟨t, true⟩ : Block) :: rest, 8 ≤ b.size :=
      fun b hb => hsizes b (List.mem_append_right _ hb)
    rw [span_append] at hspan
    have hlength := length_le_span fun b hb => Nat.lt_of_lt_of_le (by decide) (hrest b hb)
    rw [hlfree, nextFree_eq hblock hrest hspan (by omega)]
    dsimp only
    apply check_of
    -- the search ends at `ram_end` or at an unused block
    obtain ⟨front, back, heq, _, hfirst, hhead⟩ :=
      exists_split_firstFree (Tiling.span pre) (⟨t, true⟩ :: rest)
    rw [hfirst]
    rw [heq, span_append] at hspan
    rw [heq] at hblock
    cases back with
    | nil =>
        left
        rw [span_nil] at hspan
        omega
    | cons b back =>
        right
        obtain _ | ⟨_, _, hused, _⟩ := (Linked.append_iff.mp hblock).2
        rw [hused]
        exact hhead b rfl
  · rw [if_neg hlow] at hlfree ⊢
    have hle := firstFree_le 0 pre
    rw [if_neg (by omega), ← hlfree]

/-- From `lfree` on, `mem_malloc` finds what a search of the whole heap would find. -/
theorem scan_lfree (ht : Chained h bs) (n : Nat) :
    scan h.ram n (memSizeAligned + 1) h.lfree = some (firstFit (n + 8) 0 bs) := by
  obtain ⟨front, back, rfl, hused, hfirst, _⟩ := exists_split_firstFree 0 bs
  have hspan := ht.span
  have hback : ∀ b ∈ back, 8 ≤ b.size :=
    fun b hb => Room.header_sizes ht.sizes b (List.mem_append_right _ hb)
  have hlength := length_le_span fun b hb => Nat.lt_of_lt_of_le (by decide) (hback b hb)
  rw [span_append] at hspan
  rw [firstFit_append_of_used hused, ht.lfree, hfirst, Nat.zero_add]
  exact scan_eq ht.at_block hback n hspan (by omega)

/-- `mem_malloc` fails when no unused block is long enough. -/
theorem memMalloc_none (ht : Tiled h bs) {n : Nat}
    (hnone : firstFit (roundSize n + 8) 0 bs = none) : h.memMalloc n = (none, h) := by
  unfold memMalloc
  split
  next _ => rfl
  next _ =>
    dsimp only
    split
    next _ => rfl
    next _ => rw [scan_lfree ht.toChained, hnone]

/-- `mem_malloc` takes the first unused block that is long enough. -/
theorem memMalloc_some (ht : Tiled h bs) {n : Nat} (hn : 0 < n)
    (hfit : firstFit (roundSize n + 8) 0 bs = some p) :
    ∃ pre s post, bs = pre ++ ⟨s, false⟩ :: post ∧ p = Tiling.span pre ∧ roundSize n + 8 ≤ s ∧
      (h.memMalloc n).1 = some (p + sizeofStructMem) ∧
      Tiled (h.memMalloc n).2 (taken leastBlock (roundSize n + 8) pre s post) ∧
      Kept bs h.ram (h.memMalloc n).2.ram := by
  obtain ⟨pre, s, post, rfl, rfl, hs⟩ := exists_split_of_firstFit hfit
  rw [Nat.zero_add] at hfit ⊢
  refine ⟨pre, s, post, rfl, rfl, hs, ?_⟩
  have hend := ht.span_eq
  simp only at hend
  have hheader : sizeofStructMem = 8 := rfl
  have hleast := minSizeAligned_le_roundSize n
  obtain ⟨hlinked, hramEnd, hkept⟩ := take_spec ht.toChained hs hleast
  have hsizes : ∀ b ∈ taken leastBlock (roundSize n + 8) pre s post, Room b.size := by
    have hmod := roundSize_mod n
    have hroom := (ht.room).2
    unfold memAlignment at hmod
    simp only [memAlignment] at hroom
    refine sizes_taken ?_ (fun hrest => ?_) ht.sizes
    · refine ⟨by omega, ?_⟩
      unfold memAlignment
      omega
    · refine ⟨Nat.le_sub_of_add_le (by rw [Nat.add_comm]; exact hrest), ?_⟩
      unfold memAlignment
      omega
  have hspan : Tiling.span (taken leastBlock (roundSize n + 8) pre s post) = memSizeAligned :=
    (span_taken hs).trans ht.span
  have hlfree : (h.take (Tiling.span pre) (roundSize n)).adjustLfree (Tiling.span pre) =
      { h.take (Tiling.span pre) (roundSize n) with
        lfree := firstFree 0 (taken leastBlock (roundSize n + 8) pre s post) } := by
    obtain ⟨t, rest, heq⟩ := exists_taken leastBlock (roundSize n + 8) pre s post
    rw [heq] at hlinked hsizes hspan ⊢
    exact adjustLfree_spec ((take_lfree ..).trans ht.lfree) hlinked hspan (Room.header_sizes hsizes)
  have hmod := span_mod pre fun b hb => ht.sizes b (by simp [hb])
  have hmod' : (Tiling.span pre + sizeofStructMem) % memAlignment = 0 := by
    unfold memAlignment at *
    omega
  have hrun : h.memMalloc n =
      (some (Tiling.span pre + sizeofStructMem),
        { h.take (Tiling.span pre) (roundSize n) with
          lfree := firstFree 0 (taken leastBlock (roundSize n + 8) pre s post) }) := by
    rw [memMalloc, if_neg (Nat.ne_of_gt hn)]
    dsimp only
    rw [if_neg (by omega), scan_lfree ht.toChained, hfit]
    dsimp only
    rw [hlfree, check_of _ (by omega : Tiling.span pre + sizeofStructMem + roundSize n ≤ memSizeAligned),
      check_of _ hmod', check_of _ hmod]
  rw [hrun]
  obtain ⟨hasserted, hreturned⟩ := take_checks h (Tiling.span pre) (roundSize n)
  exact ⟨rfl, ⟨⟨hlinked, hspan, hsizes, rfl, hramEnd⟩, coalesced_taken ht.coalesced,
    hasserted.trans ht.asserted, hreturned.trans ht.returned⟩, hkept⟩

/-! ## `mem_trim` -/

section Trim

variable {n : Nat}

theorem kept_shrink {m p2 e : Nat} (hp2 : Tiling.span pre + n = p2) (hn : 8 ≤ n)
    (hend : Tiling.span pre + n + m = e) (hm : 8 ≤ m) (he : e < 65536) :
    Kept (pre ++ ⟨n, true⟩ :: ⟨m, false⟩ :: post) ram (insert ram (Tiling.span pre) p2 e) := by
  rintro ⟨x, t⟩ hmem
  rw [usedAt_append, usedAt_used, usedAt_free, Nat.zero_add] at hmem
  rcases List.mem_append.mp hmem with hmem | hmem
  · have hbound := usedAt_bounds hmem
    exact sameOn_insert (by omega) (by omega) (fun _ => by omega) he (by omega)
  rcases List.mem_cons.mp hmem with heq | hmem
  · obtain ⟨rfl, rfl⟩ := Prod.mk.inj heq
    exact sameOn_insert (by omega) (by omega) (fun _ => by omega) he (by omega)
  · have hbound := usedAt_bounds hmem
    exact sameOn_insert (by omega) (by omega) (fun _ => by omega) he (by omega)

/-- The last part of a used block is made an unused block, up to the blocks from `e` on. -/
theorem tiled_shrink {rest : List Block} {q' e m : Nat} {low : Nat}
    (ht : Tiled h (pre ++ ⟨s, true⟩ :: post)) (hn : Room n) (hs : n ≤ s)
    (habsorb : absorb (s - n) post = ⟨m, false⟩ :: rest) (hm : Room m)
    (he : Tiling.span pre + n + m = e) (hrest : Linked h.ram q' e rest)
    (hlow : low = min (Tiling.span pre + n) h.lfree) :
    Tiled { h with ram := insert h.ram (Tiling.span pre) (Tiling.span pre + n) e, lfree := low }
        (pre ++ ⟨n, true⟩ :: absorb (s - n) post) ∧
      Kept (pre ++ ⟨n, true⟩ :: absorb (s - n) post) h.ram
        (insert h.ram (Tiling.span pre) (Tiling.span pre + n) e) := by
  have hspan : Tiling.span (absorb (s - n) post) = s - n + Tiling.span post := span_absorb ..
  have hend := ht.span_eq
  have hn8 := hn.header_le
  have hm8 := hm.header_le
  obtain _ | ⟨_, hprev, hused, _⟩ := ht.at_block
  have hsizes : ∀ b ∈ pre ++ ⟨n, true⟩ :: absorb (s - n) post, Room b.size := by
    have hpost : ∀ b ∈ rest, Room b.size := by
      cases post with
      | nil =>
          obtain ⟨_, rfl⟩ := List.cons.inj habsorb
          exact nofun
      | cons c cs =>
          rw [absorb] at habsorb
          split at habsorb
          all_goals
            obtain ⟨_, rfl⟩ := List.cons.inj habsorb
            intro b hb
            exact ht.sizes b (by simp_all)
    rw [habsorb]
    simp only [List.forall_mem_append, List.forall_mem_cons]
    exact ⟨fun b hb => ht.sizes b (by simp [hb]), hn, hm, hpost⟩
  rw [habsorb, span_cons] at hspan
  simp only at hspan hend
  have hlt : e < 65536 := by
    rw [memSizeAligned_eq] at hend
    omega
  have hrest8 : ∀ b ∈ pre ++ rest, 8 ≤ b.size := by
    intro b hb
    apply Room.header_sizes hsizes
    rw [habsorb]
    rcases List.mem_append.mp hb with hb | hb <;> simp [hb]
  have hfront : Tiling.span pre + 8 ≤ Tiling.span pre + n := by omega
  obtain ⟨hlinked, hramEnd⟩ := linked_insert_behind (Linked.append_iff.mp ht.linked).1 hrest8 hprev
    hused hrest hfront (by omega) (by omega)
  rw [Nat.add_sub_cancel_left, show e - (Tiling.span pre + n) = m by omega] at hlinked
  refine ⟨⟨⟨?_, ?_, hsizes, ?_, hramEnd.trans ht.ramEnd⟩, ?_, ht.asserted, ht.returned⟩, ?_⟩
  · rw [habsorb]
    exact hlinked
  · rw [habsorb]
    simp only [span_append, span_cons]
    omega
  · rw [firstFree_shrink hs, ← ht.lfree, Nat.zero_add]
    exact hlow
  · exact ht.coalesced.shrink n (s - n)
  · rw [habsorb]
    exact kept_shrink rfl hn8 he hm8 hlt

theorem ite_lfree (c : Prop) [Decidable c] (h : Heap) (low : Nat) :
    (if c then { h with lfree := low } else h) =
      { h with lfree := if c then low else h.lfree } := by
  split <;> rfl

/-- The lowest unused block is not within a used one. -/
theorem lfree_outside (hc : Chained h (pre ++ ⟨s, true⟩ :: post)) :
    h.lfree ≤ Tiling.span pre ∨ Tiling.span pre + s ≤ h.lfree := by
  have hpos : ∀ b ∈ pre, 0 < b.size := fun b hb =>
    Nat.lt_of_lt_of_le (by decide) (hc.sizes b (by simp [hb])).header_le
  rw [hc.lfree, firstFree_append hpos, firstFree_used, Nat.zero_add]
  have hle := firstFree_le 0 pre
  have hge := le_firstFree (Tiling.span pre + s) post
  split <;> omega

/-- `mem_trim` gives the end of a block back or leaves the heap as it was. -/
theorem memTrim_spec (ht : Tiled h (pre ++ ⟨s, true⟩ :: post)) (hs : roundSize n + 8 ≤ s) :
    (h.memTrim (Tiling.span pre + sizeofStructMem) n).1 = some (Tiling.span pre + sizeofStructMem) ∧
      ((h.memTrim (Tiling.span pre + sizeofStructMem) n).2 = h ∨
        Tiled (h.memTrim (Tiling.span pre + sizeofStructMem) n).2
            (pre ++ ⟨roundSize n + 8, true⟩ :: absorb (s - (roundSize n + 8)) post) ∧
          Kept (pre ++ ⟨roundSize n + 8, true⟩ :: absorb (s - (roundSize n + 8)) post) h.ram
            (h.memTrim (Tiling.span pre + sizeofStructMem) n).2.ram) := by
  have hend := ht.span_eq
  simp only at hend
  have hlt := hend
  rw [memSizeAligned_eq] at hlt
  have hheader : sizeofStructMem = 8 := rfl
  have hleast : minSizeAligned = 12 := rfl
  have hmin := minSizeAligned_le_roundSize n
  have hroom : Room (roundSize n + 8) := by
    have hmod := roundSize_mod n
    unfold memAlignment at hmod
    refine ⟨by omega, ?_⟩
    unfold memAlignment
    omega
  have hmod : (s - (roundSize n + 8)) % memAlignment = 0 := by
    have hs4 : s % memAlignment = 0 := ht.room.2
    have hn4 := hroom.2
    unfold memAlignment at *
    omega
  obtain _ | ⟨hnext, _, _, hpost⟩ := ht.at_block
  simp only at hnext hpost
  have hsize : toU16 (next h.ram (Tiling.span pre) - Tiling.span pre - sizeofStructMem) = s - 8 := by
    rw [hnext, toU16]
    omega
  have hptr : Tiling.span pre + sizeofStructMem - sizeofStructMem = Tiling.span pre := by omega
  have hat : u16 (Tiling.span pre + sizeofStructMem + roundSize n) =
      Tiling.span pre + (roundSize n + 8) := by
    rw [u16_of_lt (by omega)]
    omega
  unfold memTrim
  dsimp only
  rw [if_neg (by omega), check_of _ (by omega : Tiling.span pre + sizeofStructMem < memSizeAligned),
    if_neg (by omega), hptr, hsize, check_of _ (by omega : roundSize n ≤ s - 8), if_neg (by omega)]
  split
  next _ => exact ⟨rfl, .inl rfl⟩
  next hne =>
    rw [hnext, hat]
    split
    next hfree =>
      refine ⟨rfl, .inr ?_⟩
      cases post with
      | nil =>
          rw [span_nil, Nat.add_zero] at hend
          rw [hend, ht.ramEnd] at hfree
          cases hfree
      | cons c cs =>
          obtain _ | ⟨hnext2, _, hused2, hrest⟩ := hpost
          obtain ⟨t, u⟩ := c
          obtain rfl : u = false := hused2.symm.trans hfree
          simp only at hnext2 hrest
          have htroom : Room t := ht.sizes ⟨t, false⟩ (by simp)
          have hout := lfree_outside ht.toChained
          have hlast : h.lfree ≤ Tiling.span pre + s := by
            have hle := firstFree_le_of_free (b := ⟨t, false⟩) rfl 0 (pre ++ [⟨s, true⟩]) cs
            rw [List.append_assoc, List.singleton_append, ← ht.lfree] at hle
            simpa using hle
          rw [ite_lfree]
          dsimp only
          rw [hnext2]
          apply tiled_shrink ht hroom (by omega) (m := s - (roundSize n + 8) + t) rfl
          · exact ⟨Nat.le_trans htroom.1 (Nat.le_add_left _ _), by
              have ht4 := htroom.2
              unfold memAlignment at *
              omega⟩
          · omega
          · exact hrest
          · split <;> omega
    next hused =>
      split
      next hsplit =>
        refine ⟨rfl, .inr ?_⟩
        have hback : absorb (s - (roundSize n + 8)) post =
            ⟨s - (roundSize n + 8), false⟩ :: post := by
          cases post with
          | nil => rfl
          | cons c cs =>
              obtain _ | ⟨_, _, hused2, _⟩ := hpost
              rw [absorb, if_pos (hused2.symm.trans (by simpa using hused))]
        have hout := lfree_outside ht.toChained
        rw [ite_lfree]
        dsimp only
        apply tiled_shrink ht hroom (by omega) hback ⟨by omega, hmod⟩ (by omega) hpost
        split <;> omega
      next _ => exact ⟨rfl, .inl rfl⟩

end Trim

end Heap

end Meu1oARM
