import Meu1oARM.Foundation.LittleEndian

/-! # The heap of mem.c

The heap is an array of bytes `ram`. Every block starts with a `struct mem` that
holds the offsets of the next and the previous block and whether the block is used;
behind the last block stands the `struct mem` `ram_end`. A pointer into the heap is
its offset from `ram`.
-/

namespace Meu1oARM

open Machine CString LittleEndian

/-- `MEM_ALIGNMENT` of lwipopts.h. -/
def memAlignment : Nat := 4

/-- `LWIP_MEM_ALIGN_SIZE` -/
def memAlignSize (size : Nat) : Nat := (size + (memAlignment - 1)) / memAlignment * memAlignment

/-- `MEM_SIZE_ALIGNED`, where `MEM_SIZE` of lwipopts.h is 12 KiB; also the offset of `ram_end`. -/
def memSizeAligned : Nat := memAlignSize (12 * 1024)

/-- `MIN_SIZE_ALIGNED` -/
def minSizeAligned : Nat := memAlignSize 12

/-- `SIZEOF_STRUCT_MEM`: two 16-bit fields and a byte, aligned. -/
def sizeofStructMem : Nat := memAlignSize 6

namespace StructMem

/-- `mem->next` -/
def next (ram : Mem) (mem : Nat) : Nat := get16 ram mem

/-- `mem->prev` -/
def prev (ram : Mem) (mem : Nat) : Nat := get16 ram (mem + 2)

/-- `mem->used` -/
def used (ram : Mem) (mem : Nat) : Bool := ram (mem + 4) != 0

def setNext (ram : Mem) (mem v : Nat) : Mem := put16 ram mem v

def setPrev (ram : Mem) (mem v : Nat) : Mem := put16 ram (mem + 2) v

def setUsed (ram : Mem) (mem : Nat) (v : UInt8) : Mem := put8 ram (mem + 4) v

end StructMem

/-- The variables of mem.c. `asserted` says that every `LWIP_ASSERT` so far has held, and
`returned` that every loop so far has come to an end. -/
structure Heap where
  ram : Mem
  lfree : Nat
  asserted : Bool
  returned : Bool

namespace Heap

open StructMem

/-- `LWIP_ASSERT` -/
def check (h : Heap) (cond : Bool) : Heap := { h with asserted := h.asserted && cond }

/-- `mem_init` of a heap that holds any bytes. -/
def memInit (ram : Mem) : Heap :=
  let ram := setNext ram 0 memSizeAligned
  let ram := setPrev ram 0 0
  let ram := setUsed ram 0 0
  let ram := setUsed ram memSizeAligned 1
  let ram := setNext ram memSizeAligned memSizeAligned
  let ram := setPrev ram memSizeAligned memSizeAligned
  { ram, lfree := 0, asserted := true, returned := true }

/-- Both halves of `plug_holes`: the block `nmem` behind `mem` becomes a part of `mem`. -/
def plug (h : Heap) (mem nmem : Nat) : Heap :=
  let h := if h.lfree = nmem then { h with lfree := mem } else h
  let ram := setNext h.ram mem (next h.ram nmem)
  { h with ram := setPrev ram (next ram nmem) mem }

/-- `plug_holes` -/
def plugHoles (h : Heap) (mem : Nat) : Heap :=
  let h := h.check (mem < memSizeAligned)
  let h := h.check (used h.ram mem = false)
  let h := h.check (next h.ram mem ≤ memSizeAligned)
  let nmem := next h.ram mem
  let h := if mem ≠ nmem ∧ used h.ram nmem = false ∧ nmem ≠ memSizeAligned then h.plug mem nmem else h
  let pmem := prev h.ram mem
  if pmem ≠ mem ∧ used h.ram pmem = false then h.plug pmem mem else h

/-- `mem_free` -/
def memFree (h : Heap) (rmem : Option Nat) : Heap :=
  match rmem with
  | none => h
  | some rmem =>
    let h := h.check (rmem % memAlignment = 0)
    let h := h.check (rmem < memSizeAligned)
    if memSizeAligned ≤ rmem then h
    else
      let mem := rmem - sizeofStructMem
      let h := h.check (used h.ram mem)
      let h := { h with ram := setUsed h.ram mem 0 }
      let h := if mem < h.lfree then { h with lfree := mem } else h
      h.plugHoles mem

/-- A `struct mem` of an unused block is set up behind `mem`. -/
def insert (ram : Mem) (mem mem2 next2 : Nat) : Mem :=
  let ram := setUsed ram mem2 0
  let ram := setNext ram mem2 next2
  let ram := setPrev ram mem2 mem
  let ram := setNext ram mem mem2
  if next ram mem2 ≠ memSizeAligned then setPrev ram (next ram mem2) mem2 else ram

/-- The size as `mem_malloc` and `mem_trim` adjust it: aligned, converted to `mem_size_t`, and not
less than the least block. -/
def roundSize (size : Nat) : Nat :=
  let size := u16 (memAlignSize size)
  if size < minSizeAligned then minSizeAligned else size

/-- `mem_trim` -/
def memTrim (h : Heap) (rmem newsize : Nat) : Option Nat × Heap :=
  let newsize := roundSize newsize
  if memSizeAligned < newsize then (none, h)
  else
    let h := h.check (rmem < memSizeAligned)
    if memSizeAligned ≤ rmem then (some rmem, h)
    else
      let ptr := rmem - sizeofStructMem
      let size := toU16 (next h.ram ptr - ptr - sizeofStructMem)
      let h := h.check (newsize ≤ size)
      if size < newsize then (none, h)
      else if newsize = size then (some rmem, h)
      else
        let mem2 := next h.ram ptr
        let ptr2 := u16 (ptr + sizeofStructMem + newsize)
        if used h.ram mem2 = false then
          let h := if h.lfree = mem2 then { h with lfree := ptr2 } else h
          (some rmem, { h with ram := insert h.ram ptr ptr2 (next h.ram mem2) })
        else if newsize + sizeofStructMem + minSizeAligned ≤ size then
          let h := if ptr2 < h.lfree then { h with lfree := ptr2 } else h
          (some rmem, { h with ram := insert h.ram ptr ptr2 mem2 })
        else (some rmem, h)

/-- The search of `mem_malloc` for a block, from `ptr` on. A heap whose blocks lead round in a
circle keeps it going, which the fuel tells apart. -/
def scan (ram : Mem) (size : Nat) : Nat → Nat → Option (Option Nat)
  | 0, _ => none
  | fuel + 1, ptr =>
    if ptr < memSizeAligned - size then
      if used ram ptr = false ∧ size ≤ sub32 (next ram ptr) (ptr + sizeofStructMem) then
        some (some ptr)
      else scan ram size fuel (next ram ptr)
    else some none

/-- The search for the next unused block, from `cur` on. -/
def nextFree (ram : Mem) : Nat → Nat → Option Nat
  | 0, _ => none
  | fuel + 1, cur =>
    if used ram cur ∧ cur ≠ memSizeAligned then nextFree ram fuel (next ram cur) else some cur

/-- What `mem_malloc` does with the block it has found. -/
def take (h : Heap) (mem size : Nat) : Heap :=
  if size + sizeofStructMem + minSizeAligned ≤ sub32 (next h.ram mem) (mem + sizeofStructMem) then
    let ptr2 := u16 (mem + sizeofStructMem + size)
    { h with ram := setUsed (insert h.ram mem ptr2 (next h.ram mem)) mem 1 }
  else { h with ram := setUsed h.ram mem 1 }

/-- `lfree` after the block `mem` has been taken. -/
def adjustLfree (h : Heap) (mem : Nat) : Heap :=
  if mem = h.lfree then
    match nextFree h.ram (memSizeAligned + 1) h.lfree with
    | none => { h with returned := false }
    | some cur => { h with lfree := cur }.check (cur = memSizeAligned ∨ used h.ram cur = false)
  else h

/-- `mem_malloc` -/
def memMalloc (h : Heap) (size : Nat) : Option Nat × Heap :=
  if size = 0 then (none, h)
  else
    let size := roundSize size
    if memSizeAligned < size then (none, h)
    else
      match scan h.ram size (memSizeAligned + 1) h.lfree with
      | none => (none, { h with returned := false })
      | some none => (none, h)
      | some (some mem) =>
        let h := (h.take mem size).adjustLfree mem
        let h := h.check (mem + sizeofStructMem + size ≤ memSizeAligned)
        let h := h.check ((mem + sizeofStructMem) % memAlignment = 0)
        let h := h.check (mem % memAlignment = 0)
        (some (mem + sizeofStructMem), h)

end Heap

end Meu1oARM
