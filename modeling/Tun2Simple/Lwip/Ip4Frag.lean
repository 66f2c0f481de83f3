import Mathlib.Algebra.Order.Ring.Nat
import Tun2Simple.Core.Sys

/-!
# IP fragments (`c/core/ipv4/ip4_frag.c`)

`ip4Reass` takes a fragment from `ip4_input` and returns the datagram that it completes, `ipReassTmr`
is the timer that drops what stays incomplete, and `ip4Frag` cuts a datagram that is sent. In the
queue a fragment's header is overwritten by its first and last position; here the fragment stays as it
is and the positions are computed from it. The checksum of the header is left out.

`none` is an `LWIP_ASSERT` that fails, which aborts the program.
-/

namespace Lwip

open Core

/-- `IP_HLEN`. -/
def ipHlen : Nat := 20

/-- `IP_REASS_MAX_PBUFS`. -/
def ipReassMaxPbufs : Nat := 10

/-- `IP_REASS_MAXAGE`. -/
def ipReassMaxage : Nat := 15

structure IpHdr where
  /-- `IPH_HL`. -/
  hl : Nat := 5
  tos : UInt8 := 0
  len : Nat
  id : Nat
  df : Bool := false
  mf : Bool := false
  /-- The offset, in units of 8 bytes. -/
  off : Nat := 0
  ttl : UInt8 := 64
  proto : UInt8 := 17
  src : BitVec 32
  dest : BitVec 32
  deriving DecidableEq, Repr

/-- `IPH_HL_BYTES`. -/
def IpHdr.hlBytes (h : IpHdr) : Nat := 4 * h.hl

/-- `IP_ADDRESSES_AND_ID_MATCH`. -/
def IpHdr.matches_ (a b : IpHdr) : Bool := a.src == b.src && a.dest == b.dest && a.id == b.id

/-- A fragment as `ip4_input` passes it on: `data` is what follows the header, cut to the length that
the header gives, in `clen` pbufs. -/
structure Frag where
  hdr : IpHdr
  data : Bytes
  clen : Nat := 1
  len_eq : hdr.len = hdr.hlBytes + data.length
  len_lt : hdr.len < 65536
  off_lt : hdr.off < 8192
  clen_pos : 0 < clen
  isFrag : hdr.off ≠ 0 ∨ hdr.mf = true
  deriving DecidableEq

namespace Frag

variable (p : Frag)

/-- `start` of the helper, `IPH_OFFSET_BYTES`. -/
def start : Nat := 8 * p.hdr.off

/-- `end` of the helper. -/
def stop : Nat := (p.start + p.data.length) % 65536

end Frag

/-- `struct ip_reassdata`. -/
structure ReassData where
  iphdr : IpHdr
  p : List Frag := []
  datagramLen : Nat := 0
  /-- `IP_REASS_FLAG_LASTFRAG`. -/
  lastFrag : Bool := false
  timer : Nat := ipReassMaxage
  deriving DecidableEq

/-- A datagram that is returned. -/
structure Datagram where
  hdr : IpHdr
  data : Bytes
  deriving DecidableEq, Repr

/-! ## The queue of one datagram -/

/-- Where the new fragment is put: the queue with it, and what follows it there. `valid` is whether
there is no hole before it. -/
structure Placed where
  queue : List Frag
  after : List Frag
  valid : Bool
  deriving DecidableEq

/-- The loop that looks for the place, from `prev` on. The fragment is dropped where it overlaps. -/
def chainLoop (new : Frag) : Option Frag → Bool → List Frag → Option (Option Placed)
  | prev, valid, [] =>
    match prev with
    | some r =>
      if r.stop ≤ new.start then some (some ⟨[new], [], valid && r.stop == new.start⟩) else none
    | none => some (some ⟨[new], [], valid⟩)
  | prev, valid, q :: rest =>
    if new.start < q.start then
      match prev with
      | some r =>
        if new.start < r.stop ∨ q.start < new.stop then some none
        else some (some ⟨new :: q :: rest, q :: rest, valid && r.stop == new.start⟩)
      | none =>
        if q.start < new.stop then some none else some (some ⟨new :: q :: rest, q :: rest, valid⟩)
    else if new.start = q.start then some none
    else if new.start < q.stop then some none
    else
      (chainLoop new (some q) (valid && prev.all fun r => r.stop == q.start) rest).map
        (Option.map fun pl => { pl with queue := q :: pl.queue })

/-- There is no hole behind `prev`. -/
def noHoles : Frag → List Frag → Bool
  | _, [] => true
  | prev, q :: rest => prev.stop == q.start && noHoles q rest

/-- `IP_REASS_VALIDATE_*`. -/
inductive Validity
  | pbufDropped
  | pbufQueued
  | telegramFinished
  deriving DecidableEq, Repr

/-- `ip_reass_chain_frag_into_datagram_and_validate`. -/
def ReassData.chainFrag (ipr : ReassData) (new : Frag) (isLast : Bool) :
    Option (ReassData × Validity) :=
  if new.stop < new.start then some (ipr, .pbufDropped)
  else
    match chainLoop new none true ipr.p with
    | none => none
    | some none => some (ipr, .pbufDropped)
    | some (some pl) =>
      if isLast || ipr.lastFrag then
        if pl.valid && (pl.queue.head?.any fun q => q.start == 0) && noHoles new pl.after then
          -- the last fragment is not the first one
          if pl.queue.length = 1 then none else some ({ ipr with p := pl.queue }, .telegramFinished)
        else some ({ ipr with p := pl.queue }, .pbufQueued)
      else some ({ ipr with p := pl.queue }, .pbufQueued)

/-- The pbufs of all fragments. -/
def ReassData.clen (r : ReassData) : Nat := (r.p.map Frag.clen).sum

/-- A fragment without MF sets the length. -/
def ReassData.lastSeen (ipr : ReassData) (isLast : Bool) (datagramLen : Nat) : ReassData :=
  if isLast then { ipr with datagramLen, lastFrag := true } else ipr

/-- The datagram that all fragments make up. -/
def ReassData.datagram (ipr : ReassData) : Datagram :=
  ⟨{ ipr.iphdr with len := (ipr.datagramLen + ipHlen) % 65536, off := 0, mf := false, df := false },
    ipr.p.flatMap Frag.data⟩

/-! ## All datagrams -/

structure Reass where
  reassdatagrams : List ReassData := []
  /-- `ip_reass_pbufcount`. -/
  pbufcount : Nat := 0
  /-- The headers that were sent back with an ICMP time exceeded. -/
  icmp : List IpHdr := []
  deriving DecidableEq

namespace Reass

variable (s : Reass)

/-- `ip_reass_free_complete_datagram`: `rest` is the list without `ipr`. -/
def freeCompleteDatagram (ipr : ReassData) (rest : List ReassData) : Option Reass :=
  match ipr.p with
  | [] => none
  | p :: _ =>
    if s.pbufcount < ipr.clen ∨ 0xffff < ipr.clen then none
    else some {
      reassdatagrams := rest
      pbufcount := s.pbufcount - ipr.clen
      icmp := if p.start = 0 then s.icmp ++ [ipr.iphdr] else s.icmp }

def tmrStep (s : Reass) (r : ReassData) : Option Reass :=
  if 0 < r.timer then
    some { s with reassdatagrams := s.reassdatagrams ++ [{ r with timer := r.timer - 1 }] }
  else s.freeCompleteDatagram r s.reassdatagrams

/-- `ip_reass_tmr`. -/
def ipReassTmr : Option Reass := s.reassdatagrams.foldlM tmrStep { s with reassdatagrams := [] }

/-- The place of the oldest datagram that the fragment with the header `h` does not belong to; `best`
is the oldest one so far, with its timer. -/
def oldest (h : IpHdr) : Nat → Option (Nat × Nat) → List ReassData → Option Nat
  | _, best, [] => best.map Prod.fst
  | i, best, r :: rs =>
    oldest h (i + 1)
      (if r.iphdr.matches_ h then best
      else
        match best with
        | none => some (i, r.timer)
        | some (_, t) => if r.timer ≤ t then some (i, r.timer) else best) rs

/-- `ip_reass_remove_oldest_datagram`; each turn of its loop but the last frees a datagram. -/
def removeOldestDatagram (h : IpHdr) (pbufsNeeded : Nat) : Nat → Reass → Nat → Option (Reass × Nat)
  | 0, s, freed => some (s, freed)
  | turns + 1, s, freed =>
    match oldest h 0 none s.reassdatagrams with
    | none => some (s, freed)
    | some i =>
      match s.reassdatagrams[i]? with
      | none => none
      | some r =>
        match s.freeCompleteDatagram r (s.reassdatagrams.eraseIdx i) with
        | none => none
        | some s' =>
          if freed + r.clen < pbufsNeeded ∧ 1 < s.reassdatagrams.countP (fun r => !r.iphdr.matches_ h) then
            removeOldestDatagram h pbufsNeeded turns s' (freed + r.clen)
          else some (s', freed + r.clen)

/-- The check of `IP_REASS_MAX_PBUFS`, and whether the fragment may be enqueued. -/
def makeRoom (p : Frag) : Option (Reass × Bool) :=
  if ipReassMaxPbufs < s.pbufcount + p.clen then
    (removeOldestDatagram p.hdr p.clen s.reassdatagrams.length s 0).map fun (s, freed) =>
      (s, freed ≠ 0 && decide (s.pbufcount + p.clen ≤ ipReassMaxPbufs))
  else some (s, true)

/-- Whether `memp_malloc` succeeds, at the first and at the second try. -/
structure Malloc where
  first : Bool := true
  second : Bool := true
  deriving DecidableEq, Repr

/-- `ip_reass_enqueue_new_datagram`, and whether there was memory: the new datagram is the first one. -/
def enqueueNewDatagram (mem : Malloc) (p : Frag) : Option (Reass × Bool) :=
  if mem.first then some ({ s with reassdatagrams := { iphdr := p.hdr } :: s.reassdatagrams }, true)
  else
    (removeOldestDatagram p.hdr p.clen s.reassdatagrams.length s 0).map fun (s, freed) =>
      if p.clen ≤ freed ∧ mem.second = true then
        ({ s with reassdatagrams := { iphdr := p.hdr } :: s.reassdatagrams }, true)
      else (s, false)

/-- The header of the first fragment is kept. -/
def keepHdr (ipr : ReassData) (p : Frag) : ReassData :=
  if p.hdr.off = 0 ∧ ipr.iphdr.off ≠ 0 then { ipr with iphdr := p.hdr } else ipr

/-- `nullreturn_ipr`: the fragment is dropped, and the datagram `ipr` at `i` with it if it is new. -/
def nullreturnIpr (i : Nat) (ipr : ReassData) : Option (Reass × Option Datagram) :=
  if ipr.p = [] then
    if i = 0 then some ({ s with reassdatagrams := s.reassdatagrams.eraseIdx i }, none) else none
  else some ({ s with reassdatagrams := s.reassdatagrams.set i ipr }, none)

/-- The fragment is enqueued in the datagram `ipr`, which is the one at `i`. -/
def intoDatagram (i : Nat) (ipr : ReassData) (p : Frag) : Option (Reass × Option Datagram) :=
  let isLast := !p.hdr.mf
  let datagramLen := (p.start + p.data.length) % 65536
  if isLast = true ∧ (datagramLen < p.start ∨ 0xffff - ipHlen < datagramLen) then s.nullreturnIpr i ipr
  else
    match ipr.chainFrag p isLast with
    | none => none
    | some (ipr, .pbufDropped) => s.nullreturnIpr i ipr
    | some (ipr, .pbufQueued) =>
      some ({ s with
        reassdatagrams := s.reassdatagrams.set i (ipr.lastSeen isLast datagramLen)
        pbufcount := (s.pbufcount + p.clen) % 65536 }, none)
    | some (ipr, .telegramFinished) =>
      let ipr := ipr.lastSeen isLast datagramLen
      let pbufcount := (s.pbufcount + p.clen) % 65536
      if pbufcount < ipr.clen then none
      else some ({ s with
        reassdatagrams := s.reassdatagrams.eraseIdx i
        pbufcount := pbufcount - ipr.clen }, some ipr.datagram)

/-- The datagram in the queue that the fragment belongs to, with its place. -/
def find (h : IpHdr) : List ReassData → Option (Nat × ReassData)
  | [] => none
  | r :: rs => if r.iphdr.matches_ h then some (0, r) else (find h rs).map fun (i, r) => (i + 1, r)

def ip4Reass (mem : Malloc) (p : Frag) : Option (Reass × Option Datagram) :=
  -- options in the header are not supported
  if p.hdr.hlBytes ≠ ipHlen then some (s, none)
  else
    match s.makeRoom p with
    | none => none
    | some (s, false) => some (s, none)
    | some (s, true) =>
      match find p.hdr s.reassdatagrams with
      | some (i, ipr) => s.intoDatagram i (keepHdr ipr p) p
      | none =>
        match s.enqueueNewDatagram mem p with
        | none => none
        | some (s, false) => some (s, none)
        | some (s, true) => s.intoDatagram 0 { iphdr := p.hdr } p

/-- What happens to the queue. -/
inductive Act
  | frag (mem : Malloc) (p : Frag)
  | tmr
  deriving DecidableEq

def step (s : Reass) : Act → Option Reass
  | .frag mem p => (s.ip4Reass mem p).map Prod.fst
  | .tmr => s.ipReassTmr

end Reass

/-! ## Fragmentation -/

/-- How `ip4_frag` returns. -/
inductive FragErr
  | ok
  | val
  | mem
  deriving DecidableEq, Repr

/-- The loop of `ip4_frag` over what is left of the data, from the offset `ofo` on: `nfb` is the number
of blocks of 8 bytes in a fragment, and `mem` says which of the next fragments can be allocated. It
does not end where no block fits (`none`). -/
def fragLoop (mtu nfb : Nat) (hdr : IpHdr) : Nat → List Bool → Nat → Bytes →
    Option (List Datagram × FragErr)
  | _, _, _, [] => some ([], .ok)
  | 0, _, _, _ :: _ => none
  | turns + 1, mem, ofo, b :: data =>
    if mem.headD true = false then some ([], .mem)
    else
      let left := (b :: data).length
      let fragsize := min left (nfb * 8 % 65536)
      let last := decide (left ≤ mtu - ipHlen)
      -- the last fragment has MF set if the datagram had it
      let frag : Datagram := ⟨{ hdr with
        off := ofo % 8192
        mf := !last || hdr.mf
        df := false
        len := (fragsize + ipHlen) % 65536 }, (b :: data).take fragsize⟩
      (fragLoop mtu nfb hdr turns mem.tail ((ofo + nfb) % 65536) ((b :: data).drop fragsize)).map
        fun (fs, e) => (frag :: fs, e)

/-- `ip4_frag` of the datagram with this header and data: the fragments that are sent. -/
def ip4Frag (mtu : Nat) (mem : List Bool) (d : Datagram) : Option (List Datagram × FragErr) :=
  if d.hdr.hlBytes ≠ ipHlen then some ([], .val)
  else fragLoop mtu ((mtu - ipHlen) / 8 % 65536) d.hdr d.data.length mem d.hdr.off d.data

end Lwip
