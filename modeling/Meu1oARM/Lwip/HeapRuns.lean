import Meu1oARM.Foundation.Ledger
import Meu1oARM.Foundation.Run
import Meu1oARM.Lwip.HeapOps

/-! # Runs of the allocator

The program asks for blocks, gives them back, shortens them and stores bytes into them,
in any order. It owns what it has been given and has not given back, and keeps to the
rules of the allocator: it gives back and shortens only what it owns, and it stores only
there.
-/

namespace Meu1oARM

open Machine CString LittleEndian Tiling Run

/-- The heap, and the pointers that the program owns, each with the number of bytes it may use. -/
structure HeapWorld where
  heap : Heap
  owned : List (Nat × Nat)

inductive HeapEvent where
  | malloc (size : Nat)
  | free (rmem : Nat)
  | trim (rmem newsize : Nat)
  | store (addr : Nat) (value : UInt8)
  deriving DecidableEq, Repr

namespace HeapEvent

/-- The byte that the event stores at an address. -/
def stored : HeapEvent → Nat → Option UInt8
  | store addr value, a => if a = addr then some value else none
  | _, _ => none

/-- The event leaves the program the first `m` bytes behind the pointer `r`. -/
def Leaves (r m : Nat) : HeapEvent → Prop
  | free rmem => rmem ≠ r
  | trim rmem newsize => rmem = r → m ≤ Heap.roundSize newsize
  | _ => True

end HeapEvent

namespace HeapWorld

open Heap

/-- After `mem_init`, nothing is owned. -/
def start (ram : Mem) : HeapWorld := ⟨memInit ram, []⟩

def step (w : HeapWorld) : HeapEvent → HeapWorld
  | .malloc size =>
    match w.heap.memMalloc size with
    | (some rmem, heap) => ⟨heap, (rmem, roundSize size) :: w.owned⟩
    | (none, heap) => ⟨heap, w.owned⟩
  | .free rmem => ⟨w.heap.memFree (some rmem), w.owned.filter fun x => x.1 ≠ rmem⟩
  | .trim rmem newsize =>
    match w.heap.memTrim rmem newsize with
    | (some _, heap) =>
      ⟨heap, w.owned.map fun x => if x.1 = rmem then (rmem, roundSize newsize) else x⟩
    | (none, heap) => ⟨heap, w.owned⟩
  | .store addr value => { w with heap := { w.heap with ram := put8 w.heap.ram addr value } }

/-- The program gives back and shortens what it owns, and stores only there. -/
def Permitted (w : HeapWorld) : HeapEvent → Prop
  | .malloc size => size < 65536
  | .free rmem => rmem ∈ w.owned.map Prod.fst
  | .trim rmem newsize => ∃ x ∈ w.owned, x.1 = rmem ∧ roundSize newsize ≤ x.2
  | .store addr _ => ∃ x ∈ w.owned, x.1 ≤ addr ∧ addr < x.1 + x.2

instance (w : HeapWorld) (e : HeapEvent) : Decidable (w.Permitted e) := by
  cases e <;> unfold Permitted <;> infer_instance

end HeapWorld

namespace Heap

open StructMem

/-- Where the data of the used blocks are, and how many bytes. -/
def data (used : List (Nat × Nat)) : List (Nat × Nat) :=
  used.map fun x => (x.1 + sizeofStructMem, x.2 - sizeofStructMem)

variable {h : Heap} {bs pre post : List Block} {s : Nat}

theorem data_append (xs ys : List (Nat × Nat)) : data (xs ++ ys) = data xs ++ data ys :=
  List.map_append

theorem data_cons (p s : Nat) (xs : List (Nat × Nat)) :
    data ((p, s) :: xs) = (p + sizeofStructMem, s - sizeofStructMem) :: data xs := rfl

theorem mem_data {xs : List (Nat × Nat)} {r m : Nat} (h : (r, m) ∈ data xs) :
    ∃ p s, (p, s) ∈ xs ∧ r = p + sizeofStructMem ∧ m = s - sizeofStructMem := by
  obtain ⟨⟨p, s⟩, hmem, heq⟩ := List.mem_map.mp h
  obtain ⟨rfl, rfl⟩ := Prod.mk.inj heq
  exact ⟨p, s, hmem, rfl, rfl⟩

theorem data_used (pre : List Block) (s : Nat) (post : List Block) :
    data (usedAt 0 (pre ++ ⟨s, true⟩ :: post)) =
      data (usedAt 0 pre) ++ (Tiling.span pre + sizeofStructMem, s - sizeofStructMem) ::
        data (usedAt (Tiling.span pre + s) post) := by
  rw [usedAt_append, usedAt_used, Nat.zero_add, data_append, data_cons]

theorem data_free (pre : List Block) (s : Nat) (post : List Block) :
    data (usedAt 0 (pre ++ ⟨s, false⟩ :: post)) =
      data (usedAt 0 pre) ++ data (usedAt (Tiling.span pre + s) post) := by
  rw [usedAt_append, usedAt_free, Nat.zero_add, data_append]

/-- Pointers tell blocks apart. -/
theorem data_ne (hsizes : ∀ b ∈ pre, Room b.size) (hs : 8 ≤ s) (post : List Block) :
    ∀ x ∈ data (usedAt 0 pre) ++ data (usedAt (Tiling.span pre + s) post),
      x.1 ≠ Tiling.span pre + sizeofStructMem := by
  rintro ⟨r, m⟩ hmem
  rw [← data_append] at hmem
  obtain ⟨p, t, hx, rfl, rfl⟩ := mem_data hmem
  have hpos : ∀ b ∈ pre, 0 < b.size := fun b hb =>
    Nat.lt_of_lt_of_le (by decide) (hsizes b hb).header_le
  have hne := usedAt_ne hpos (by omega : 0 < s) 0 post (p, t) (by simpa using hx)
  dsimp only at hne ⊢
  omega

/-- A store into the data of a used block. -/
theorem Tiled.store (ht : Tiled h (pre ++ ⟨s, true⟩ :: post)) {a : Nat} (v : UInt8)
    (hlo : Tiling.span pre + 8 ≤ a) (hhi : a < Tiling.span pre + s) :
    Tiled { h with ram := put8 h.ram a v } (pre ++ ⟨s, true⟩ :: post) := by
  have hend := ht.span_eq
  have hsizes := Room.header_sizes ht.sizes
  simp only at hend
  obtain ⟨hpre, hblock⟩ := Linked.append_iff.mp ht.linked
  rw [Nat.zero_add] at hblock
  obtain _ | ⟨hnext, hprev, hused, hpost⟩ := hblock
  have hheader : SameOn h.ram (put8 h.ram a v) (Tiling.span pre) (Tiling.span pre + 8) :=
    SameOn.put8 (.inr hlo)
  refine ⟨⟨Linked.append_iff.mpr ⟨?_, ?_⟩, ht.span, ht.sizes, ht.lfree, ?_⟩, ht.coalesced,
    ht.asserted, ht.returned⟩
  · exact hpre.congr (fun b hb => hsizes b (by simp [hb])) (SameOn.put8 (by omega))
  · rw [Nat.zero_add]
    refine .cons ?_ ?_ ?_ ?_
    · rw [next_congr hheader, hnext]
    · rw [prev_congr hheader, hprev]
    · rw [used_congr hheader, hused]
    · exact hpost.congr (fun b hb => hsizes b (by simp [hb])) (SameOn.put8 (.inl (by dsimp only; omega)))
  · rw [← ht.ramEnd]
    exact used_congr (SameOn.put8 (.inl (by omega)))

end Heap

namespace HeapWorld

open Heap

/-- What holds between two calls: the blocks tile the heap, and every used one has its owner. -/
structure Sound (w : HeapWorld) (bs : List Block) : Prop where
  tiled : Tiled w.heap bs
  ledger : Ledger w.owned (data (usedAt 0 bs))

/-- What a step leaves a program that owns `m` bytes behind `r`. -/
def Preserves (w w' : HeapWorld) (e : HeapEvent) : Prop :=
  ∀ r room m, (r, room) ∈ w.owned → m ≤ room → e.Leaves r m →
    (∃ room', (r, room') ∈ w'.owned ∧ m ≤ room') ∧
      ∀ i, i < m → w'.heap.ram (r + i) = (e.stored (r + i)).getD (w.heap.ram (r + i))

variable {w : HeapWorld} {bs : List Block} {r m room : Nat}

theorem start_sound (ram : Mem) : Sound (start ram) [⟨memSizeAligned, false⟩] where
  tiled := memInit_tiled ram
  ledger := ⟨nofun, nofun, List.nodup_nil⟩

/-- An owned pointer points behind the header of a used block. -/
theorem Sound.exists_block (hw : Sound w bs) (hmem : (r, room) ∈ w.owned) :
    ∃ pre s post, bs = pre ++ ⟨s, true⟩ :: post ∧ r = Tiling.span pre + sizeofStructMem ∧
      room + sizeofStructMem ≤ s := by
  obtain ⟨t, ht, hroom⟩ := hw.ledger.backed r room hmem
  obtain ⟨p, s, hx, rfl, rfl⟩ := mem_data ht
  obtain ⟨pre, post, rfl, rfl⟩ := exists_split_of_mem_usedAt hx
  have hs : 8 ≤ s := (hw.tiled.room).header_le
  have hheader : sizeofStructMem = 8 := rfl
  exact ⟨pre, s, post, rfl, by rw [Nat.zero_add], by omega⟩

/-- What is kept of the used blocks is kept of what is owned. -/
theorem kept_of_ledger {owned : List (Nat × Nat)} {ram ram' : Mem}
    (hledger : Ledger owned (data (usedAt 0 bs))) (hkept : Kept bs ram ram')
    (hmem : (r, room) ∈ owned) {i : Nat} (hi : i < room) : ram' (r + i) = ram (r + i) := by
  obtain ⟨t, ht, hroom⟩ := hledger.backed r room hmem
  obtain ⟨p, s, hx, rfl, rfl⟩ := mem_data ht
  have hheader : sizeofStructMem = 8 := rfl
  exact hkept (p, s) hx _ (by dsimp only; omega) (by dsimp only; omega)

theorem malloc_sound (hw : Sound w bs) (n : Nat) :
    (∃ bs', Sound (w.step (.malloc n)) bs') ∧ Preserves w (w.step (.malloc n)) (.malloc n) := by
  have hsame (w' : HeapWorld) (hheap : w'.heap = w.heap) (howned : w'.owned = w.owned) :
      (∃ bs', Sound w' bs') ∧ Preserves w w' (.malloc n) := by
    refine ⟨⟨bs, hheap ▸ hw.tiled, howned ▸ hw.ledger⟩, ?_⟩
    intro r room m hmem hm _
    exact ⟨⟨room, howned ▸ hmem, hm⟩, fun i _ => hheap ▸ rfl⟩
  rcases Nat.eq_zero_or_pos n with rfl | hn
  · exact hsame _ rfl rfl
  cases hfit : firstFit (roundSize n + 8) 0 bs with
  | none =>
      apply hsame
      · simp only [step, memMalloc_none hw.tiled hfit]
      · simp only [step, memMalloc_none hw.tiled hfit]
  | some p =>
      obtain ⟨pre, s, post, rfl, rfl, hs, hres, htiled, hkept⟩ := memMalloc_some hw.tiled hn hfit
      have hstep : w.step (.malloc n) =
          ⟨(w.heap.memMalloc n).2, (Tiling.span pre + sizeofStructMem, roundSize n) :: w.owned⟩ := by
        simp only [step]
        rw [← Prod.eta (w.heap.memMalloc n), hres]
      rw [hstep]
      refine ⟨⟨_, htiled, ?_⟩, ?_⟩
      · have hledger := hw.ledger
        have hsize := le_takenSize hs leastBlock
        have hheader : sizeofStructMem = 8 := rfl
        rw [data_free] at hledger
        rw [usedAt_taken hs, data_append, data_cons, Nat.zero_add]
        apply hledger.claim
        · exact data_ne (fun b hb => hw.tiled.sizes b (by simp [hb])) (by omega) post
        · omega
      · intro r room m hmem hm _
        refine ⟨⟨room, List.mem_cons_of_mem _ hmem, hm⟩, fun i hi => ?_⟩
        exact kept_of_ledger hw.ledger hkept hmem (by omega)

theorem free_sound (hw : Sound w bs) (hr : r ∈ w.owned.map Prod.fst) :
    (∃ bs', Sound (w.step (.free r)) bs') ∧ Preserves w (w.step (.free r)) (.free r) := by
  obtain ⟨⟨q, room⟩, hmem, rfl⟩ := List.mem_map.mp hr
  obtain ⟨pre, s, post, rfl, rfl, hs⟩ := hw.exists_block hmem
  have hheader : sizeofStructMem = 8 := rfl
  obtain ⟨htiled, hkept⟩ := memFree_spec hw.tiled
  have hledger := hw.ledger
  rw [data_used] at hledger
  have hpre : ∀ b ∈ pre, Room b.size := fun b hb => hw.tiled.sizes b (by simp [hb])
  have hdrop := hledger.drop (data_ne hpre (by omega : 8 ≤ s) post)
  rw [← data_free] at hdrop
  refine ⟨⟨_, htiled, ?_⟩, ?_⟩
  · rw [usedAt_release]
    exact hdrop
  · intro q room' m hmem' hm hne
    have hne' : q ≠ Tiling.span pre + sizeofStructMem := Ne.symm hne
    have hkeep : (q, room') ∈ w.owned.filter fun x => x.1 ≠ Tiling.span pre + sizeofStructMem :=
      List.mem_filter.mpr ⟨hmem', by simpa using hne'⟩
    exact ⟨⟨room', hkeep, hm⟩, fun i hi => kept_of_ledger hdrop hkept hkeep (by omega)⟩

theorem trim_sound (hw : Sound w bs) {n : Nat}
    (hr : ∃ x ∈ w.owned, x.1 = r ∧ roundSize n ≤ x.2) :
    (∃ bs', Sound (w.step (.trim r n)) bs') ∧ Preserves w (w.step (.trim r n)) (.trim r n) := by
  obtain ⟨⟨r, room⟩, hmem, rfl, hroom⟩ := hr
  obtain ⟨pre, s, post, rfl, rfl, hs⟩ := hw.exists_block hmem
  have hheader : sizeofStructMem = 8 := rfl
  obtain ⟨hres, hcases⟩ := memTrim_spec hw.tiled (n := n) (by omega)
  have hstep : w.step (.trim (Tiling.span pre + sizeofStructMem) n) =
      ⟨(w.heap.memTrim (Tiling.span pre + sizeofStructMem) n).2,
        w.owned.map fun x => if x.1 = Tiling.span pre + sizeofStructMem then
          (Tiling.span pre + sizeofStructMem, roundSize n) else x⟩ := by
    simp only [step]
    rw [← Prod.eta (w.heap.memTrim (Tiling.span pre + sizeofStructMem) n), hres]
  have hledger := hw.ledger
  rw [data_used] at hledger
  have hpre : ∀ b ∈ pre, Room b.size := fun b hb => hw.tiled.sizes b (by simp [hb])
  have hfresh := data_ne hpre (by omega : 8 ≤ s) post
  -- the share of `q` in the ledger after the step
  have hshare (q m room' : Nat) (hmem' : (q, room') ∈ w.owned) (hm : m ≤ room')
      (hleaves : (HeapEvent.trim (Tiling.span pre + sizeofStructMem) n).Leaves q m) :
      ∃ room'', (q, room'') ∈ (w.owned.map fun x => if x.1 = Tiling.span pre + sizeofStructMem then
          (Tiling.span pre + sizeofStructMem, roundSize n) else x) ∧ m ≤ room'' := by
    by_cases hq : q = Tiling.span pre + sizeofStructMem
    · exact ⟨roundSize n, List.mem_map.mpr ⟨_, hmem', by rw [if_pos hq, hq]⟩, hleaves hq.symm⟩
    · exact ⟨room', List.mem_map.mpr ⟨_, hmem', if_neg hq⟩, hm⟩
  rw [hstep]
  rcases hcases with hsame | ⟨htiled, hkept⟩
  · rw [hsame]
    refine ⟨⟨_, hw.tiled, ?_⟩, ?_⟩
    · rw [data_used]
      exact hledger.resize (by omega) hfresh
    · intro q room' m hmem' hm hleaves
      exact ⟨hshare q m room' hmem' hm hleaves, fun i _ => rfl⟩
  · have hresize := hledger.resize (Nat.le_refl (roundSize n)) hfresh
    have hdata : data (usedAt 0 (pre ++ ⟨roundSize n + 8, true⟩ ::
          absorb (s - (roundSize n + 8)) post)) =
        data (usedAt 0 pre) ++ (Tiling.span pre + sizeofStructMem, roundSize n) ::
          data (usedAt (Tiling.span pre + s) post) := by
      rw [data_used, usedAt_absorb, hheader, Nat.add_sub_cancel, Nat.add_assoc,
        Nat.add_sub_cancel' (by omega : roundSize n + 8 ≤ s)]
    rw [← hdata] at hresize
    refine ⟨⟨_, htiled, hresize⟩, ?_⟩
    intro q room' m hmem' hm hleaves
    obtain ⟨room'', hmem'', hm'⟩ := hshare q m room' hmem' hm hleaves
    exact ⟨⟨room'', hmem'', hm'⟩, fun i hi => kept_of_ledger hresize hkept hmem'' (by omega)⟩

theorem store_sound (hw : Sound w bs) {a : Nat} (v : UInt8)
    (ha : ∃ x ∈ w.owned, x.1 ≤ a ∧ a < x.1 + x.2) :
    (∃ bs', Sound (w.step (.store a v)) bs') ∧ Preserves w (w.step (.store a v)) (.store a v) := by
  obtain ⟨⟨r, room⟩, hmem, hlo, hhi⟩ := ha
  obtain ⟨pre, s, post, rfl, rfl, hs⟩ := hw.exists_block hmem
  have hheader : sizeofStructMem = 8 := rfl
  dsimp only at hlo hhi
  refine ⟨⟨_, hw.tiled.store v (by omega) (by omega), hw.ledger⟩, ?_⟩
  intro q room' m hmem' hm _
  refine ⟨⟨room', hmem', hm⟩, fun i _ => ?_⟩
  simp only [step, put8, HeapEvent.stored]
  split <;> rfl

/-- Each permitted step keeps the blocks, the ledger and what others own. -/
theorem step_sound (hw : Sound w bs) {e : HeapEvent} (he : w.Permitted e) :
    (∃ bs', Sound (w.step e) bs') ∧ Preserves w (w.step e) e := by
  cases e with
  | malloc n => exact malloc_sound hw n
  | free r => exact free_sound hw he
  | trim r n => exact trim_sound hw he
  | store a v => exact store_sound hw v he

/-- The worlds that the program can reach. -/
def Reachable (w : HeapWorld) : Prop :=
  ∃ ram es, Steps step Permitted (start ram) es ∧ run step (start ram) es = w

theorem Reachable.step {e : HeapEvent} (h : Reachable w) (he : w.Permitted e) :
    Reachable (w.step e) := by
  obtain ⟨ram, es, hsteps, rfl⟩ := h
  exact ⟨ram, es ++ [e], steps_append.mpr ⟨hsteps, he, trivial⟩, run_concat ..⟩

theorem Reachable.sound (h : Reachable w) : ∃ bs, Sound w bs := by
  obtain ⟨ram, es, hsteps, rfl⟩ := h
  refine Run.invariant (I := fun w => ∃ bs, Sound w bs) ?_ ⟨_, start_sound ram⟩ hsteps
  rintro w e ⟨bs, hw⟩ he
  exact (step_sound hw he).1

/-- In every state that the program can reach, the headers divide the heap in blocks without a
gap, no two unused blocks lie side by side, `lfree` is the lowest unused one, no assertion of
mem.c has failed and every loop has come to an end. -/
theorem reachable_tiled (h : Reachable w) : ∃ bs, Tiled w.heap bs :=
  h.sound.imp fun _ hw => hw.tiled

/-- A run with a block given back, a store into another one and that one shortened. -/
def sampleRun : List HeapEvent :=
  [.malloc 100, .malloc 7, .free 8, .store 120 5, .trim 116 3]

theorem sampleRun_reachable : Reachable (run step (start fun _ => 0) sampleRun) :=
  ⟨fun _ => 0, sampleRun, ⟨by decide, by decide, by decide, by decide, by decide, trivial⟩, rfl⟩

theorem reachable_tiled_sampleRun :
    ∃ bs, Tiled (run step (start fun _ => 0) sampleRun).heap bs :=
  reachable_tiled sampleRun_reachable

/-- What the program owns is aligned, lies between the first header and `ram_end`, and no two
pieces of it overlap or leave no room for the header between them. -/
theorem reachable_disjoint (h : Reachable w) :
    (∀ x ∈ w.owned, x.1 % memAlignment = 0 ∧ sizeofStructMem ≤ x.1 ∧
        x.1 + x.2 ≤ memSizeAligned) ∧
      w.owned.Pairwise fun x y =>
        x.1 + x.2 + sizeofStructMem ≤ y.1 ∨ y.1 + y.2 + sizeofStructMem ≤ x.1 := by
  obtain ⟨bs, hw⟩ := h.sound
  have hheader : sizeofStructMem = 8 := rfl
  constructor
  · rintro ⟨r, room⟩ hmem
    obtain ⟨pre, s, post, rfl, rfl, hs⟩ := hw.exists_block hmem
    have hend := hw.tiled.span_eq
    have hmod := span_mod pre fun b hb => hw.tiled.sizes b (by simp [hb])
    simp only at hend ⊢
    refine ⟨?_, by omega, by omega⟩
    unfold memAlignment at *
    omega
  · have hblocks : ∀ x ∈ w.owned, ∃ s, (x.1 - 8, s) ∈ usedAt 0 bs ∧ 8 ≤ x.1 ∧ x.2 + 8 ≤ s := by
      rintro ⟨r, room⟩ hmem
      obtain ⟨pre, s, post, rfl, rfl, hs⟩ := hw.exists_block hmem
      refine ⟨s, ?_, by dsimp only; omega, by dsimp only; omega⟩
      simpa [hheader] using mem_usedAt_split 0 pre s post
    have hne := List.pairwise_map.mp hw.ledger.nodup
    refine hne.imp_of_mem ?_
    intro x y hx hy hxy
    obtain ⟨s, hs, hx8, hroom⟩ := hblocks x hx
    obtain ⟨t, ht, hy8, hroom'⟩ := hblocks y hy
    have happart := usedAt_disjoint hs ht fun heq => hxy (by have := (Prod.mk.inj heq).1; omega)
    dsimp only at happart
    omega

theorem reachable_disjoint_sampleRun :
    (∀ x ∈ (run step (start fun _ => 0) sampleRun).owned, x.1 % memAlignment = 0 ∧
        sizeofStructMem ≤ x.1 ∧ x.1 + x.2 ≤ memSizeAligned) ∧
      (run step (start fun _ => 0) sampleRun).owned.Pairwise fun x y =>
        x.1 + x.2 + sizeofStructMem ≤ y.1 ∨ y.1 + y.2 + sizeofStructMem ≤ x.1 :=
  reachable_disjoint sampleRun_reachable

/-- The byte at an address after the stores of a run. -/
def lastStored (b : UInt8) (es : List HeapEvent) (a : Nat) : UInt8 :=
  es.foldl (fun b e => (e.stored a).getD b) b

/-- As long as the program keeps the first `m` bytes behind a pointer, they change by its own
stores alone, whatever it asks for and gives back in between. -/
theorem owned_bytes_kept (h : Reachable w) {es : List HeapEvent} (hsteps : Steps step Permitted w es)
    (hmem : (r, room) ∈ w.owned) (hm : m ≤ room) (hleaves : ∀ e ∈ es, e.Leaves r m) :
    (∃ room', (r, room') ∈ (run step w es).owned ∧ m ≤ room') ∧
      ∀ i, i < m → (run step w es).heap.ram (r + i) =
        lastStored (w.heap.ram (r + i)) es (r + i) := by
  obtain ⟨bs, hw⟩ := h.sound
  clear h
  induction es generalizing w bs room with
  | nil => exact ⟨⟨room, hmem, hm⟩, fun _ _ => rfl⟩
  | cons e es ih =>
      obtain ⟨he, hes⟩ := List.forall_mem_cons.mp hleaves
      obtain ⟨⟨bs', hw'⟩, hkeep⟩ := step_sound hw hsteps.1
      obtain ⟨⟨room', hmem', hm'⟩, hbytes⟩ := hkeep r room m hmem hm he
      obtain ⟨hown, hrest⟩ := ih hsteps.2 hmem' hm' hes bs' hw'
      refine ⟨hown, fun i hi => ?_⟩
      rw [run_cons, hrest i hi, hbytes i hi]
      rfl

theorem owned_bytes_kept_sampleRun :
    (∃ room', (116, room') ∈ (run step (run step (start fun _ => 0) sampleRun)
        [.store 117 9, .malloc 30]).owned ∧ 12 ≤ room') ∧
      ∀ i, i < 12 → (run step (run step (start fun _ => 0) sampleRun)
          [.store 117 9, .malloc 30]).heap.ram (116 + i) =
        lastStored ((run step (start fun _ => 0) sampleRun).heap.ram (116 + i))
          [.store 117 9, .malloc 30] (116 + i) :=
  owned_bytes_kept sampleRun_reachable ⟨by decide, by decide, trivial⟩
    (by decide : (116, 12) ∈ (run step (start fun _ => 0) sampleRun).owned) (by decide)
    (by simp [HeapEvent.Leaves])

/-- `mem_malloc` fails if and only if there is no room for the block and its header between the
used blocks. What it returns is the program's, with all the bytes asked for if the size can be
aligned in 16 bits. -/
theorem malloc_fails_iff (h : Reachable w) {n : Nat} (hn : 0 < n) (hn' : n < 65536) :
    ∃ bs, Tiled w.heap bs ∧
      ((w.heap.memMalloc n).1 = none ↔
        ∀ p, p + (sizeofStructMem + roundSize n) ≤ memSizeAligned →
          ∃ x ∈ usedAt 0 bs, x.1 < p + (sizeofStructMem + roundSize n) ∧ p < x.1 + x.2) ∧
      ∀ p, (w.heap.memMalloc n).1 = some p →
        (p, roundSize n) ∈ (w.step (.malloc n)).owned ∧ (n ≤ roundSize n ↔ n ≤ 65532) := by
  obtain ⟨bs, hw⟩ := h.sound
  refine ⟨bs, hw.tiled, ?_, ?_⟩
  · have hroom := firstFit_eq_none_iff_no_room hw.tiled.coalesced
      (Nat.add_pos_left (by decide) (roundSize n) : 0 < sizeofStructMem + roundSize n) 0
    have hheader : sizeofStructMem = 8 := rfl
    simp only [Nat.zero_le, true_imp_iff, Nat.zero_add, hw.tiled.span] at hroom
    rw [← hroom, hheader, Nat.add_comm]
    constructor
    · intro hnone
      cases hfit : firstFit (roundSize n + 8) 0 bs with
      | none => rfl
      | some p =>
          obtain ⟨_, _, _, _, _, _, hres, _⟩ := memMalloc_some hw.tiled hn hfit
          rw [hres] at hnone
          cases hnone
    · intro hfit
      rw [memMalloc_none hw.tiled hfit]
  · intro p hres
    refine ⟨?_, le_roundSize_iff hn'⟩
    rw [step, ← Prod.eta (w.heap.memMalloc n), hres]
    exact List.mem_cons_self

theorem malloc_fails_iff_sampleRun :
    ∃ bs, Tiled (run step (start fun _ => 0) sampleRun).heap bs ∧
      (((run step (start fun _ => 0) sampleRun).heap.memMalloc 5000).1 = none ↔
        ∀ p, p + (sizeofStructMem + roundSize 5000) ≤ memSizeAligned →
          ∃ x ∈ usedAt 0 bs, x.1 < p + (sizeofStructMem + roundSize 5000) ∧ p < x.1 + x.2) ∧
      ∀ p, ((run step (start fun _ => 0) sampleRun).heap.memMalloc 5000).1 = some p →
        (p, roundSize 5000) ∈
            ((run step (start fun _ => 0) sampleRun).step (.malloc 5000)).owned ∧
          (5000 ≤ roundSize 5000 ↔ 5000 ≤ 65532) :=
  malloc_fails_iff sampleRun_reachable (by decide) (by decide)

/-- When the program has given back all it owned, in whatever order, the heap is one unused block
again, and a request for all of it succeeds. -/
theorem all_given_back (h : Reachable w) (hnone : w.owned = []) :
    Tiled w.heap [⟨memSizeAligned, false⟩] ∧ ∀ n, 0 < n → sizeofStructMem + roundSize n ≤ memSizeAligned →
      (w.heap.memMalloc n).1 = some sizeofStructMem := by
  obtain ⟨bs, hw⟩ := h.sound
  have hempty : usedAt 0 bs = [] := by
    rw [List.eq_nil_iff_forall_not_mem]
    rintro ⟨p, s⟩ hmem
    obtain ⟨m, hm⟩ := hw.ledger.claimed _ _ (List.mem_map.mpr ⟨(p, s), hmem, rfl⟩)
    rw [hnone] at hm
    cases hm
  have hone := hw.tiled.coalesced.eq_singleton hempty (by rw [hw.tiled.span]; decide)
  rw [hw.tiled.span] at hone
  subst hone
  refine ⟨hw.tiled, fun n hn hfit => ?_⟩
  have hfirst : firstFit (roundSize n + 8) 0 [⟨memSizeAligned, false⟩] = some 0 := by
    rw [firstFit, if_pos ⟨rfl, by rw [Nat.add_comm]; exact hfit⟩]
  obtain ⟨_, _, _, _, _, _, hres, _⟩ := memMalloc_some hw.tiled hn hfirst
  rw [hres, Nat.zero_add]

theorem all_given_back_sampleRun :
    Tiled ((run step (start fun _ => 0) sampleRun).step (.free 116)).heap
        [⟨memSizeAligned, false⟩] ∧
      ∀ n, 0 < n → sizeofStructMem + roundSize n ≤ memSizeAligned →
        (((run step (start fun _ => 0) sampleRun).step (.free 116)).heap.memMalloc n).1 =
          some sizeofStructMem :=
  all_given_back (sampleRun_reachable.step (by decide)) (by decide)

end HeapWorld

end Meu1oARM
