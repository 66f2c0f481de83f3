import Tun2Simple.Lib.OnesSum
import Tun2Simple.Lwip.InetChksum

/-!
# The checksum is that of the bytes

The checksum of a chain of pbufs is that of its bytes, whatever the lengths of the pbufs and the
addresses of their data (`inetChksumPseudo_eq`), and a packet in which it is stored passes the check of
the receiver, which adds the words in network order (`inetChksumPseudo_verifies`).
-/

namespace Lwip

open Core OnesSum

theorem foldU32t_eq (u : Nat) : foldU32t u = fold u := rfl

theorem chksumLoop_spec {data : Bytes} {s : Nat} (h : s + sum data < 2 ^ 32) :
    (chksumLoop s data).1 + sum (chksumLoop s data).2 = s + sum data ∧ (chksumLoop s data).2.length ≤ 1 := by
  induction data using sum.induct generalizing s with
  | case1 => exact ⟨rfl, Nat.zero_le _⟩
  | case2 a => exact ⟨rfl, Nat.le_refl _⟩
  | case3 a b data ih =>
    rw [sum] at h
    rw [chksumLoop, Nat.mod_eq_of_lt (by omega), sum]
    obtain ⟨heq, hlen⟩ := @ih (s + (a.toNat + 256 * b.toNat)) (by omega)
    exact ⟨by omega, hlen⟩

theorem endBytes_eq {t : Nat} {rest : Bytes} (h : rest.length ≤ 1) : endBytes t rest = t + sum rest := by
  match rest with
  | [] => rfl
  | [b] => rfl
  | _ :: _ :: _ => exact absurd h (by simp)

/-- The sum of the words, as long as it has 32 bits. -/
theorem chksum_words {t : Nat} {data : Bytes} (h : t + sum data < 2 ^ 32) :
    Rep (fold (fold (((chksumLoop 0 data).1 + endBytes t (chksumLoop 0 data).2) % 2 ^ 32))) (t + sum data) := by
  obtain ⟨heq, hlen⟩ := @chksumLoop_spec data 0 (by omega)
  rw [endBytes_eq hlen]
  have hsum : (chksumLoop 0 data).1 + (t + sum (chksumLoop 0 data).2) = t + sum data := by omega
  rw [hsum, Nat.mod_eq_of_lt h]
  exact Rep.fold_fold h

/-- `lwip_standard_chksum` for up to 0x20000 bytes. -/
theorem lwipStandardChksum_spec (odd : Bool) {data : Bytes} (h : data.length ≤ 0x20000) :
    Rep (lwipStandardChksum odd data) (sum data) := by
  have hle := sum_le data
  cases odd with
  | false =>
    have hw := @chksum_words 0 data (by omega)
    rw [Nat.zero_add] at hw
    exact hw
  | true =>
    cases data with
    | nil => exact ⟨by decide, rfl, by decide⟩
    | cons b data =>
      have hb := b.toNat_lt
      have hle' := sum_le data
      rw [List.length_cons] at h
      have hw := (@chksum_words (256 * b.toNat) data (by omega)).swap
      apply hw.congr
      · have := sum_cons_mod b data
        omega
      · have := sum_cons_eq_zero b data
        omega

/-- The bytes of a chain. -/
def flat (p : List ChksumPbuf) : Bytes := p.flatMap ChksumPbuf.data

/-- The sum goes on with the bytes exchanged behind an odd number of bytes. -/
theorem chksumChain_spec {p : List ChksumPbuf} {acc v : Nat} {swapped : Bool}
    (h : Rep acc ((if swapped then 256 else 1) * v)) :
    Rep (chksumChain acc swapped p) (v + (if swapped then 256 else 1) * sum (flat p)) := by
  induction p generalizing acc v swapped with
  | nil =>
    have hnil : sum (flat []) = 0 := rfl
    rw [hnil, chksumChain]
    cases swapped with
    | false => exact h.congr (by simp) (by simp)
    | true => exact h.swap.congr (by simp; omega) (by simp)
  | cons q p ih =>
    have hq := lwipStandardChksum_spec q.odd (Nat.le_of_lt (Nat.lt_of_lt_of_le q.len_lt (by decide)))
    have hlt : acc + lwipStandardChksum q.odd q.data < 2 ^ 32 := by
      have := h.lt
      have := hq.lt
      omega
    have hadd := h.add hq
    have hmod := sum_append_mod q.data (flat p)
    have hzero := sum_append_eq_zero q.data (flat p)
    have hflat : flat (q :: p) = q.data ++ flat p := rfl
    rw [hflat, chksumChain, Nat.mod_eq_of_lt hlt, foldU32t_eq]
    rcases Nat.mod_two_eq_zero_or_one q.data.length with he | ho
    · rw [if_neg (by omega)]
      rw [if_pos he] at hmod
      cases swapped with
      | false =>
        have hnext := @ih _ (v + sum q.data) false (hadd.congr (by simp) (by simp))
        exact hnext.congr (by simp; omega) (by simp; omega)
      | true =>
        have hnext := @ih _ (v + 256 * sum q.data) true (hadd.congr (by simp; omega) (by simp))
        exact hnext.congr (by simp; omega) (by simp; omega)
    · rw [if_pos (by omega)]
      rw [if_neg (by omega)] at hmod
      cases swapped with
      | false =>
        have hnext := @ih _ (v + sum q.data) true (hadd.swap.congr (by simp) (by simp))
        exact hnext.congr (by simp; omega) (by simp; omega)
      | true =>
        have hnext := @ih _ (v + 256 * sum q.data) false (hadd.swap.congr (by simp; omega) (by simp))
        exact hnext.congr (by simp; omega) (by simp; omega)

/-! ## The pseudo header -/

/-- The bytes of an address, as they are in memory. -/
def addrBytes (a : BitVec 32) : Bytes :=
  [UInt8.ofNat a.toNat, UInt8.ofNat (a.toNat / 256), UInt8.ofNat (a.toNat / 65536),
    UInt8.ofNat (a.toNat / 16777216)]

/-- The pseudo header of TCP and UDP, in network order. -/
def pseudoHeader (proto : UInt8) (protoLen : UInt16) (src dest : BitVec 32) : Bytes :=
  addrBytes src ++ addrBytes dest ++
    [0, proto, UInt8.ofNat (protoLen.toNat / 256), UInt8.ofNat protoLen.toNat]

theorem pseudoHeader_length (proto : UInt8) (protoLen : UInt16) (src dest : BitVec 32) :
    (pseudoHeader proto protoLen src dest).length = 12 := rfl

theorem sum_pseudoHeader (proto : UInt8) (protoLen : UInt16) (src dest : BitVec 32) :
    sum (pseudoHeader proto protoLen src dest) =
      (src.toNat % 65536 + src.toNat / 65536) + (dest.toNat % 65536 + dest.toNat / 65536) +
        swapBytesInWord proto.toNat + swapBytesInWord protoLen.toNat := by
  have hs := src.isLt
  have hd := dest.isLt
  have hp := proto.toNat_lt
  have hl := protoLen.toNat_lt
  simp only [pseudoHeader, addrBytes, List.cons_append, List.nil_append, sum, UInt8.toNat_ofNat', swapBytesInWord,
    UInt8.toNat_zero]
  omega

theorem inetCksumPseudoBase_rep {p : List ChksumPbuf} {proto : UInt8} {protoLen : UInt16} {acc v : Nat}
    (h : Rep acc v) :
    ∃ w, Rep w (v + sum (flat p) + swapBytesInWord proto.toNat + swapBytesInWord protoLen.toNat) ∧
      inetCksumPseudoBase p proto protoLen acc = 65535 - w := by
  have hchain := @chksumChain_spec p acc v false (h.congr (by simp) (by simp))
  have hlt := hchain.lt
  have hp := proto.toNat_lt
  have hl := protoLen.toNat_lt
  have hsp : swapBytesInWord proto.toNat < 65536 := by unfold swapBytesInWord; omega
  have hsl : swapBytesInWord protoLen.toNat < 65536 := by unfold swapBytesInWord; omega
  have hsum : chksumChain acc false p + swapBytesInWord proto.toNat + swapBytesInWord protoLen.toNat < 2 ^ 32 := by
    omega
  have hfold := Rep.fold_fold hsum
  refine ⟨_, hfold.congr ?_ ?_, ?_⟩
  · have := hchain.mod
    simp only [Bool.false_eq_true, if_false, Nat.one_mul] at this
    omega
  · have := hchain.zero
    simp only [Bool.false_eq_true, if_false, Nat.one_mul] at this
    omega
  · have hw := hfold.lt
    rw [inetCksumPseudoBase, complement, lwipHtons, lwipHtons,
      Nat.mod_eq_of_lt (a := chksumChain acc false p + _) (by omega), Nat.mod_eq_of_lt hsum,
      foldU32t_eq, foldU32t_eq, Nat.mod_eq_of_lt hw]

theorem inetChksumPseudo_rep (p : List ChksumPbuf) (proto : UInt8) (protoLen : UInt16) (src dest : BitVec 32) :
    ∃ w, Rep w (sum (pseudoHeader proto protoLen src dest ++ flat p)) ∧
      inetChksumPseudo p proto protoLen src dest = 65535 - w := by
  have hs := src.isLt
  have hd := dest.isLt
  have haddr : addAddr (addAddr 0 src) dest =
      (src.toNat % 65536 + src.toNat / 65536) + (dest.toNat % 65536 + dest.toNat / 65536) := by
    unfold addAddr
    omega
  have hacc : Rep (fold (fold (addAddr (addAddr 0 src) dest)))
      ((src.toNat % 65536 + src.toNat / 65536) + (dest.toNat % 65536 + dest.toNat / 65536)) := by
    rw [haddr]
    exact Rep.fold_fold (by omega)
  obtain ⟨w, hw, heq⟩ := @inetCksumPseudoBase_rep p proto protoLen _ _ hacc
  refine ⟨w, hw.congr ?_ ?_, heq⟩
  · have hmod := sum_append_mod (pseudoHeader proto protoLen src dest) (flat p)
    have hlen : (pseudoHeader proto protoLen src dest).length % 2 = 0 := by rw [pseudoHeader_length]
    rw [if_pos hlen, sum_pseudoHeader] at hmod
    omega
  · have hzero := sum_append_eq_zero (pseudoHeader proto protoLen src dest) (flat p)
    rw [sum_pseudoHeader] at hzero
    omega

theorem inetChksum_eq {odd : Bool} {data : Bytes} {w : Nat} (hlen : data.length ≤ 0x20000)
    (h : Rep w (sum data)) : inetChksum odd data = 65535 - w := by
  have hs := lwipStandardChksum_spec odd hlen
  rw [inetChksum, complement, Nat.mod_eq_of_lt hs.lt, hs.unique h]

/-- The checksum of a chain of pbufs with the pseudo header is that of its bytes in one piece, however
they are divided among the pbufs and wherever these are in memory. -/
theorem inetChksumPseudo_eq (p : List ChksumPbuf) (proto : UInt8) (protoLen : UInt16) (src dest : BitVec 32)
    (odd : Bool) (hlen : (flat p).length < 65536) :
    inetChksumPseudo p proto protoLen src dest =
      inetChksum odd (pseudoHeader proto protoLen src dest ++ flat p) := by
  obtain ⟨w, hw, heq⟩ := inetChksumPseudo_rep p proto protoLen src dest
  rw [heq, inetChksum_eq (by rw [List.length_append, pseudoHeader_length]; omega) hw]

/-- The same without a pseudo header. -/
theorem inetChksumPbuf_eq (p : List ChksumPbuf) (odd : Bool) (hlen : (flat p).length < 65536) :
    inetChksumPbuf p = inetChksum odd (flat p) := by
  have hchain := @chksumChain_spec p 0 0 false ⟨by decide, rfl, by decide⟩
  have hw : Rep (chksumChain 0 false p) (sum (flat p)) := hchain.congr (by simp) (by simp)
  rw [inetChksum_eq (by omega) hw, inetChksumPbuf, complement, Nat.mod_eq_of_lt hw.lt]

/-- A datagram from 10.0.0.1 to 10.0.0.2 in two pbufs of odd lengths: its header of UDP, without a
checksum, and 4 bytes of data. -/
def oddPbufs : List ChksumPbuf :=
  [⟨false, [0, 53, 4, 0, 0, 12, 0, 0, 1], by decide⟩, ⟨true, [2, 3, 4], by decide⟩]

theorem inetChksumPseudo_eq_oddPbufs : inetChksumPseudo oddPbufs 17 12 0x0100000a 0x0200000a =
    inetChksum true (pseudoHeader 17 12 0x0100000a 0x0200000a ++
      [0, 53, 4, 0, 0, 12, 0, 0, 1, 2, 3, 4]) :=
  inetChksumPseudo_eq oddPbufs 17 12 0x0100000a 0x0200000a true (by decide)

/-- The word in memory. -/
def wordBytes (w : Nat) : Bytes := [UInt8.ofNat w, UInt8.ofNat (w / 256)]

/-- A packet in which the checksum is stored, at an even place that was 0 before, passes the check of the
receiver: with the pseudo header its words in network order add up to a multiple of 65535 that is not
0. -/
theorem inetChksumPseudo_verifies (p : List ChksumPbuf) (proto : UInt8) (protoLen : UInt16)
    (src dest : BitVec 32) {pre post : Bytes} (hp : flat p = pre ++ [0, 0] ++ post)
    (heven : pre.length % 2 = 0) :
    netSum (pseudoHeader proto protoLen src dest ++
        (pre ++ wordBytes (inetChksumPseudo p proto protoLen src dest) ++ post)) % 65535 = 0 ∧
      netSum (pseudoHeader proto protoLen src dest ++
        (pre ++ wordBytes (inetChksumPseudo p proto protoLen src dest) ++ post)) ≠ 0 := by
  obtain ⟨w, hw, heq⟩ := inetChksumPseudo_rep p proto protoLen src dest
  rw [heq]
  have hadd := hw.compl_add
  have hwlt := hw.lt
  have hlen : (pseudoHeader proto protoLen src dest).length % 2 = 0 := by rw [pseudoHeader_length]
  have hword : sum (wordBytes (65535 - w)) = 65535 - w := by
    simp only [wordBytes, sum, UInt8.toNat_ofNat']
    omega
  have hsplit : ∀ x : Bytes, x.length = 2 →
      sum (pseudoHeader proto protoLen src dest ++ (pre ++ x ++ post)) % 65535 =
        (sum (pseudoHeader proto protoLen src dest) + sum pre + sum x + sum post) % 65535 ∧
      (sum (pseudoHeader proto protoLen src dest ++ (pre ++ x ++ post)) = 0 ↔
        sum (pseudoHeader proto protoLen src dest) = 0 ∧ sum pre = 0 ∧ sum x = 0 ∧ sum post = 0) := by
    intro x hx
    have h1 := sum_append_mod (pseudoHeader proto protoLen src dest) (pre ++ x ++ post)
    have h2 := sum_append_mod (pre ++ x) post
    have h3 := sum_append_mod pre x
    rw [if_pos hlen] at h1
    rw [if_pos (by rw [List.length_append, hx]; omega)] at h2
    rw [if_pos heven] at h3
    refine ⟨by omega, ?_⟩
    rw [sum_append_eq_zero, sum_append_eq_zero, sum_append_eq_zero, and_assoc]
  obtain ⟨hm0, hz0⟩ := hsplit [0, 0] rfl
  obtain ⟨hm1, hz1⟩ := hsplit (wordBytes (65535 - w)) rfl
  have hzero : sum [(0 : UInt8), 0] = 0 := rfl
  rw [hp] at hadd
  rw [netSum_mod, ne_eq, netSum_eq_zero]
  constructor
  · omega
  · omega

theorem inetChksumPseudo_verifies_oddPbufs :
    netSum (pseudoHeader 17 12 0x0100000a 0x0200000a ++ ([0, 53, 4, 0, 0, 12] ++
      wordBytes (inetChksumPseudo oddPbufs 17 12 0x0100000a 0x0200000a) ++ [1, 2, 3, 4])) % 65535 = 0 :=
  (inetChksumPseudo_verifies oddPbufs 17 12 0x0100000a 0x0200000a rfl rfl).1

end Lwip
