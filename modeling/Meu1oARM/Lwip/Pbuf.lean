import Meu1oARM.Foundation.Machine
import Meu1oARM.Foundation.CString

/-! # Packet buffers

A `pbuf` chain is the list of its buffers. The reference count of every buffer
that TCP hands over is one, so a chain is owned by whoever holds its head.
-/

namespace Meu1oARM

open Machine CString

structure Pbuf where
  id : Nat
  payload : List UInt8
  deriving DecidableEq, Repr

/-- `PBUF_POOL_SIZE` of lwipopts.h: received data is held in buffers of the pool. -/
def pbufPoolSize : Nat := 10

/-- The bytes held by a chain. -/
def pbufBytes (p : List Pbuf) : List UInt8 := p.flatMap Pbuf.payload

/-- `p->tot_len`, a 16-bit field that `pbuf_cat` adds to. -/
def totLen (p : List Pbuf) : Nat := u16 (pbufBytes p).length

/-- `pbuf_clen` counts in a `u8_t`. -/
def pbufClen (p : List Pbuf) : Nat := u8 p.length

def pbufCat (h t : List Pbuf) : List Pbuf := h ++ t

/-- `pbuf_copy_partial` from offset 0 into a buffer that keeps its old bytes behind the copy. -/
def pbufCopyPartial (p : List Pbuf) (buf : Mem) (len : Nat) : Mem :=
  ofList ((pbufBytes p).take len) (shift buf ((pbufBytes p).take len).length)

/-- The chain of the payloads `xs`, its buffers called `n`, `n + 1` and so on. -/
def pbufChain (n : Nat) : List (List UInt8) → List Pbuf
  | [] => []
  | x :: xs => { id := n, payload := x } :: pbufChain (n + 1) xs

@[simp] theorem pbufBytes_append (p q : List Pbuf) :
    pbufBytes (p ++ q) = pbufBytes p ++ pbufBytes q := by
  simp [pbufBytes]

@[simp] theorem pbufChain_eq_nil (n : Nat) (xs : List (List UInt8)) :
    pbufChain n xs = [] ↔ xs = [] := by
  cases xs <;> simp [pbufChain]

@[simp] theorem pbufBytes_pbufChain (n : Nat) (xs : List (List UInt8)) :
    pbufBytes (pbufChain n xs) = xs.flatten := by
  induction xs generalizing n with
  | nil => rfl
  | cons x xs ih => simpa [pbufChain, pbufBytes] using ih (n + 1)

theorem pbufChain_ids (n : Nat) (xs : List (List UInt8)) :
    (pbufChain n xs).map Pbuf.id = List.range' n xs.length := by
  induction xs generalizing n with
  | nil => rfl
  | cons x xs ih => simp [pbufChain, ih, List.range'_succ]

theorem pbufChain_append (n : Nat) (xs ys : List (List UInt8)) :
    pbufChain n (xs ++ ys) = pbufChain n xs ++ pbufChain (n + xs.length) ys := by
  induction xs generalizing n with
  | nil => rfl
  | cons x xs ih => simp [pbufChain, ih, Nat.add_assoc, Nat.add_comm 1]

@[simp] theorem pbufChain_payloads (n : Nat) (xs : List (List UInt8)) :
    (pbufChain n xs).map Pbuf.payload = xs := by
  induction xs generalizing n with
  | nil => rfl
  | cons x xs ih => simp [pbufChain, ih]

@[simp] theorem length_pbufChain (n : Nat) (xs : List (List UInt8)) :
    (pbufChain n xs).length = xs.length := by
  simpa using congrArg List.length (pbufChain_ids n xs)

end Meu1oARM
