import Tun2Simple.Core.Sys

/-!
# The pbufs of lwIP (`c/core/pbuf.c`)

A packet is given to lwIP as a chain of pbufs. `pbuf_alloc_reference` makes a chain of one that
points to the caller's memory; `pbuf_alloc` with `PBUF_POOL` makes one of as many blocks of the pool
as the length needs, and `pbuf_take` copies data into it. An access out of range, also through a
null pointer, is `none`. Memory is there for every allocation.
-/

namespace Core

/-- `TCP_MSS`, 40 bytes for the headers of IP and TCP, and `PBUF_LINK_HLEN`. -/
def pbufPoolBufsize : Nat := 1460 + 40 + 14

inductive PbufType
  | ref
  | pool
  deriving DecidableEq, Repr

structure Pbuf where
  type : PbufType
  /-- The length of this pbuf and all after it. -/
  totLen : Nat
  len : Nat
  /-- The memory that it points to, from there on. -/
  payload : Bytes
  deriving DecidableEq, Repr

/-- A block of the pool, with whatever it holds. -/
abbrev Block := { b : Bytes // b.length = pbufPoolBufsize }

def pbufAllocReference (payload : Bytes) (length : UInt16) : List Pbuf :=
  [⟨.ref, length.toNat, length.toNat, payload⟩]

/-- The loop of `pbuf_alloc` for `PBUF_POOL` and `PBUF_RAW`, which takes the blocks from `memp i`
on. -/
def pbufAllocLoop (memp : Nat → Block) (i remLen : Nat) : List Pbuf :=
  let qlen := min remLen pbufPoolBufsize
  let q : Pbuf := ⟨.pool, remLen, qlen, (memp i).1⟩
  if 0 < remLen - qlen then q :: pbufAllocLoop memp (i + 1) (remLen - qlen) else [q]
termination_by remLen
decreasing_by
  have : pbufPoolBufsize = 1514 := rfl
  omega

def pbufAlloc (memp : Nat → Block) (length : UInt16) : List Pbuf := pbufAllocLoop memp 0 length.toNat

def memcpy (dst src : Bytes) (n : Nat) : Option Bytes :=
  if n ≤ dst.length ∧ n ≤ src.length then some (src.take n ++ dst.drop n) else none

/-- The loop of `pbuf_take`: `total` bytes of `data` into the chain. -/
def pbufTakeLoop : (buf : List Pbuf) → (data : Bytes) → (total : Nat) → Option (List Pbuf)
  | buf, _, 0 => some buf
  | [], _, _ + 1 => none
  | p :: ps, data, total + 1 => do
    let n := min (total + 1) p.len
    let payload ← memcpy p.payload data n
    return { p with payload } :: (← pbufTakeLoop ps (data.drop n) (total + 1 - n))

/-- The length of a chain. -/
def chainLen (buf : List Pbuf) : Nat := (buf.head?.map Pbuf.totLen).getD 0

/-- `pbuf_take`; a chain that is too short, and a null pointer, is left as it is. -/
def pbufTake (buf : List Pbuf) (data : Bytes) (len : UInt16) : Option (List Pbuf) :=
  if buf = [] ∨ chainLen buf < len.toNat then some buf else pbufTakeLoop buf data len.toNat

/-- The bytes of a chain. -/
def contents (buf : List Pbuf) : Bytes := buf.flatMap fun p => p.payload.take p.len

end Core
