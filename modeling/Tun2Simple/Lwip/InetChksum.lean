import Mathlib.Algebra.Order.Ring.Nat
import Tun2Simple.Core.Sys

/-!
# The Internet checksum (`c/core/inet_chksum.c`)

The host is little-endian: the word at an address has its first byte as the least significant one. The
checksum of a pbuf depends on its data and on whether these are at an odd address. `LWIP_CHKSUM` is
`lwip_standard_chksum` in its version 2.
-/

namespace Lwip

open Core

/-- `FOLD_U32T`. -/
def foldU32t (u : Nat) : Nat := u / 65536 + u % 65536

/-- `SWAP_BYTES_IN_WORD`. -/
def swapBytesInWord (w : Nat) : Nat := w % 256 * 256 + w / 256 % 256

/-- The loop of `lwip_standard_chksum`, and the byte that is left over. -/
def chksumLoop (sum : Nat) : Bytes → Nat × Bytes
  | [] => (sum, [])
  | [a] => (sum, [a])
  | a :: b :: data => chksumLoop ((sum + (a.toNat + 256 * b.toNat)) % 2 ^ 32) data

/-- What is added at the end: the byte that is left over, below the first byte of an odd address. -/
def endBytes (t : Nat) : Bytes → Nat
  | [] => t
  | b :: _ => t + b.toNat

/-- `lwip_standard_chksum` of data at an odd address, or at an even one. -/
def lwipStandardChksum (odd : Bool) (data : Bytes) : Nat :=
  let (t, rest) := match odd, data with
    | true, b :: data => (256 * b.toNat, data)
    | _, data => (0, data)
  let (sum, rest) := chksumLoop 0 rest
  let sum := foldU32t (foldU32t ((sum + endBytes t rest) % 2 ^ 32))
  if odd then swapBytesInWord sum else sum

/-- `~` of a word. -/
def complement (w : Nat) : Nat := 65535 - w % 65536

/-- `inet_chksum`. -/
def inetChksum (odd : Bool) (data : Bytes) : Nat := complement (lwipStandardChksum odd data)

/-- What is read of a pbuf: its data, and whether these are at an odd address. -/
structure ChksumPbuf where
  odd : Bool
  data : Bytes
  len_lt : data.length < 65536

/-- The loop over a chain of pbufs, with the bytes exchanged back at its end. -/
def chksumChain : (acc : Nat) → (swapped : Bool) → List ChksumPbuf → Nat
  | acc, swapped, [] => if swapped then swapBytesInWord acc else acc
  | acc, swapped, q :: ps =>
    let acc := foldU32t ((acc + lwipStandardChksum q.odd q.data) % 2 ^ 32)
    if q.data.length % 2 ≠ 0 then chksumChain (swapBytesInWord acc) (!swapped) ps
    else chksumChain acc swapped ps

/-- `inet_chksum_pbuf`. -/
def inetChksumPbuf (p : List ChksumPbuf) : Nat := complement (chksumChain 0 false p)

/-- `lwip_htons`. -/
def lwipHtons (n : Nat) : Nat := swapBytesInWord n

/-- `inet_cksum_pseudo_base`. -/
def inetCksumPseudoBase (p : List ChksumPbuf) (proto : UInt8) (protoLen : UInt16) (acc : Nat) : Nat :=
  let acc := chksumChain acc false p
  let acc := (acc + lwipHtons proto.toNat) % 2 ^ 32
  let acc := (acc + lwipHtons protoLen.toNat) % 2 ^ 32
  complement (foldU32t (foldU32t acc))

/-- Both halves of an address are added. -/
def addAddr (acc : Nat) (addr : BitVec 32) : Nat :=
  ((acc + addr.toNat % 65536) % 2 ^ 32 + addr.toNat / 65536) % 2 ^ 32

/-- `inet_chksum_pseudo`. -/
def inetChksumPseudo (p : List ChksumPbuf) (proto : UInt8) (protoLen : UInt16) (src dest : BitVec 32) : Nat :=
  let acc := addAddr (addAddr 0 src) dest
  inetCksumPseudoBase p proto protoLen (foldU32t (foldU32t acc))

end Lwip
