import Tun2Simple.Core.Pbuf

/-!
# Packets on their way out (`output_export.go`, `buffer_pool.go`)

lwIP hands a packet to `output` as a chain of pbufs. A packet in one pbuf is passed on where it is; any
other is copied by `pbuf_copy_partial` into a buffer from a pool, which may hold the bytes of an earlier
packet. An access out of range is `none`.
-/

namespace Core

/-- `utils.BufSize`. -/
def bufSize : Nat := 4096

/-- A buffer that may be in the pool. -/
abbrev PoolBuf := { b : Bytes // bufSize ≤ b.length }

/-- `NewBytes`, with what is left in the pool; `get` is the buffer that `sync.Pool` takes, if it takes
one. -/
def newBytes (pool : List PoolBuf) (get : Option Nat) (size : Nat) : Bytes × List PoolBuf :=
  if size ≤ bufSize then
    match get with
    | none => (List.replicate bufSize 0, pool)
    | some i =>
      match pool[i]? with
      | none => (List.replicate bufSize 0, pool)
      | some b => (b.1, pool.eraseIdx i)
  else (List.replicate size 0, pool)

/-- `FreeBytes`. -/
def freeBytes (pool : List PoolBuf) (b : Bytes) : List PoolBuf :=
  if h : bufSize ≤ b.length then ⟨b, h⟩ :: pool else pool

/-- `MEMCPY(&dst[left], &src[offset], n)`. -/
def memcpyAt (dst : Bytes) (left : Nat) (src : Bytes) (offset n : Nat) : Option Bytes :=
  if left + n ≤ dst.length ∧ offset + n ≤ src.length then
    some (dst.take left ++ (src.drop offset).take n ++ dst.drop (left + n))
  else none

/-- The loop of `pbuf_copy_partial`, with the number of bytes that were copied. -/
def pbufCopyLoop : List Pbuf → (dst : Bytes) → (left len offset copied : Nat) → Option (Bytes × Nat)
  | [], dst, _, _, _, copied => some (dst, copied)
  | p :: ps, dst, left, len, offset, copied =>
    if len = 0 then some (dst, copied)
    else if offset ≠ 0 ∧ p.len ≤ offset then
      pbufCopyLoop ps dst left len ((offset - p.len) % 65536) copied
    else
      let n := min (p.len - offset) len
      match memcpyAt dst left p.payload offset n with
      | none => none
      | some dst => pbufCopyLoop ps dst ((left + n) % 65536) (len - n) 0 ((copied + n) % 65536)

/-- `pbuf_copy_partial`. -/
def pbufCopyPartial (buf : List Pbuf) (dst : Bytes) (len offset : Nat) : Option (Bytes × Nat) :=
  pbufCopyLoop buf dst 0 len offset 0

/-- `output`: what `OutputFn` gets, and the pool. -/
def output (pool : List PoolBuf) (get : Option Nat) : List Pbuf → Option (Bytes × List PoolBuf)
  | [] => none
  | p :: ps =>
    if p.totLen = p.len then
      if p.totLen ≤ p.payload.length then some (p.payload.take p.totLen, pool) else none
    else
      let (buf, pool) := newBytes pool get p.totLen
      match pbufCopyPartial (p :: ps) buf p.totLen 0 with
      | none => none
      | some (buf, _) =>
        if p.totLen ≤ buf.length then some (buf.take p.totLen, freeBytes pool buf) else none

/-- One call of `output` after the other: the packets that `OutputFn` gets. -/
def outputs (pool : List PoolBuf) : List (Option Nat × List Pbuf) → Option (List Bytes)
  | [] => some []
  | (get, p) :: calls =>
    match output pool get p with
    | none => none
    | some (packet, pool) => (outputs pool calls).map (packet :: ·)

end Core
