import Tun2Simple.Lib.Ip

/-!
# CIDR texts as Go's `net` package reads them

`parseCIDR` reads the text of an IPv4 or IPv6 address with a prefix length into the address, always
in 16 bytes, and the network: the masked address with its mask. `contains` is the membership test of
the package. `string_mask_iff` says what a program learns that compares the text of a masked IPv4
address with the text of the address of a CIDR.
-/

namespace Net

structure IPNet where
  ip : IP
  mask : IPMask
deriving Repr, DecidableEq

/-- The network number and the mask `Contains` compares with, empty where they do not fit. -/
def networkNumberAndMask (n : IPNet) : IP × IPMask :=
  let ip := (to4 n.ip).getD n.ip
  if ip.length ≠ 4 ∧ ip.length ≠ 16 then ([], [])
  else if n.mask.length = 4 then if ip.length ≠ 4 then ([], []) else (ip, n.mask)
  else if n.mask.length = 16 then (ip, if ip.length = 4 then n.mask.drop 12 else n.mask)
  else ([], [])

/-- Whether the network includes the address. -/
def IPNet.contains (n : IPNet) (ip : IP) : Bool :=
  let (nn, m) := networkNumberAndMask n
  let ip := (to4 ip).getD ip
  ip.length = nn.length ∧ andBytes nn m = andBytes ip m

/-! ## Numbers -/

/-- Bigger than any number the package reads. -/
def big : Nat := 0xFFFFFF

/-- The number at the head of a text and how many characters it takes, after `i` characters that
stand for `n`. -/
def toi (base : Nat) (digit : UInt8 → Option Nat) (n i : Nat) : Bytes → Option (Nat × Nat)
  | [] => if i = 0 then none else some (n, i)
  | c :: s =>
    match digit c with
    | some d => if n * base + d ≥ big then none else toi base digit (n * base + d) (i + 1) s
    | none => if i = 0 then none else some (n, i)

def digit (c : UInt8) : Option Nat := if 48 ≤ c ∧ c ≤ 57 then some (c.toNat - 48) else none

def xdigit (c : UInt8) : Option Nat :=
  if 48 ≤ c ∧ c ≤ 57 then some (c.toNat - 48)
  else if 97 ≤ c ∧ c ≤ 102 then some (c.toNat - 97 + 10)
  else if 65 ≤ c ∧ c ≤ 70 then some (c.toNat - 65 + 10)
  else none

def dtoi (s : Bytes) : Option (Nat × Nat) := toi 10 digit 0 0 s

def xtoi (s : Bytes) : Option (Nat × Nat) := toi 16 xdigit 0 0 s

/-! ## Addresses -/

/-- One number of a dotted address, without leading zeros, and the text after it. -/
def octet (s : Bytes) : Option (UInt8 × Bytes) :=
  match dtoi s with
  | none => none
  | some (n, c) =>
    if n > 0xFF then none
    else if c > 1 ∧ s.head? = some 48 then none
    else some (UInt8.ofNat n, s.drop c)

def dotOctet (s : Bytes) : Option (UInt8 × Bytes) := if s.head? = some 46 then octet (s.drop 1) else none

/-- An IPv4 address, in 16 bytes. -/
def parseIPv4 (s : Bytes) : Option IP := do
  let (a, s) ← octet s
  let (b, s) ← dotOctet s
  let (c, s) ← dotOctet s
  let (d, s) ← dotOctet s
  if s.length ≠ 0 then none else some (v4InV6Prefix ++ [a, b, c, d])

/-- The loop over the fields of an IPv6 address: the bytes read so far and the position of the
ellipsis. -/
def parseIPv6Loop : (fuel : Nat) → (ip : IP) → (ellipsis : Option Nat) → Bytes →
    Option (IP × Option Nat)
  | 0, ip, ellipsis, s => if s.length ≠ 0 then none else some (ip, ellipsis)
  | fuel + 1, ip, ellipsis, s =>
    match xtoi s with
    | none => none
    | some (n, c) =>
      if n > 0xFFFF then none
      else if (s.drop c).head? = some 46 then
        -- a trailing IPv4 address
        if ellipsis = none ∧ ip.length ≠ 12 then none
        else if ip.length + 4 > 16 then none
        else (parseIPv4 s).map fun ip4 => (ip ++ ip4.drop 12, ellipsis)
      else
        let ip := ip ++ [UInt8.ofNat (n / 256), UInt8.ofNat n]
        let s := s.drop c
        if s.length = 0 then some (ip, ellipsis)
        else if s.head? ≠ some 58 ∨ s.length = 1 then none
        else
          let s := s.drop 1
          if s.head? = some 58 then
            if ellipsis ≠ none then none
            else if (s.drop 1).length = 0 then some (ip, some ip.length)
            else parseIPv6Loop fuel ip (some ip.length) (s.drop 1)
          else parseIPv6Loop fuel ip ellipsis s

/-- The zeros an ellipsis stands for. -/
def expand (ip : IP) (ellipsis : Option Nat) : Option IP :=
  match ellipsis with
  | none => if ip.length < 16 then none else some ip
  | some e =>
    if ip.length < 16 then some (ip.take e ++ (List.replicate (16 - ip.length) 0 ++ ip.drop e))
    else none

def parseIPv6 (s : Bytes) : Option IP :=
  if s.take 2 = [58, 58] then
    if s.length = 2 then some (List.replicate 16 0)
    else (parseIPv6Loop 8 [] (some 0) (s.drop 2)).bind fun (ip, e) => expand ip e
  else (parseIPv6Loop 8 [] none s).bind fun (ip, e) => expand ip e

/-- An address of `l` bytes with its network, if the text of the prefix length is right. -/
def withMask (l : Nat) (ip : IP) (mask : Bytes) : Option (IP × IPNet) :=
  match dtoi mask with
  | none => none
  | some (n, i) =>
    if i ≠ mask.length ∨ n > 8 * l then none
    else some (ip, ⟨Net.mask ip (cidrMask l n), cidrMask l n⟩)

def parseCIDR (s : Bytes) : Option (IP × IPNet) :=
  if 47 ∉ s then none
  else
    let addr := s.takeWhile (· ≠ 47)
    let mask := s.drop (addr.length + 1)
    match parseIPv4 addr with
    | some ip => withMask 4 ip mask
    | none => (parseIPv6 addr).bind fun ip => withMask 16 ip mask

example : parseCIDR (ascii "10.1.2.3/8") =
    some (v4InV6Prefix ++ [10, 1, 2, 3], ⟨[10, 0, 0, 0], [255, 0, 0, 0]⟩) := by decide

example : parseCIDR (ascii "2001:db8::/32") =
    some ([32, 1, 13, 184, 0, 0, 0, 0, 0, 0, 0, 0, 0, 0, 0, 0],
      ⟨[32, 1, 13, 184, 0, 0, 0, 0, 0, 0, 0, 0, 0, 0, 0, 0],
        [255, 255, 255, 255, 0, 0, 0, 0, 0, 0, 0, 0, 0, 0, 0, 0]⟩) := by decide

example : parseCIDR (ascii "10.01.2.3/8") = none ∧ parseCIDR (ascii "10.1.2.3/33") = none := by decide

/-! ## What a parsed text has -/

/-- The results of `ParseCIDR`. -/
inductive Parsed : IP → IPNet → Prop
  | v4 {b : IP} {n : Nat} (hb : b.length = 4) (hn : n ≤ 32) :
    Parsed (v4InV6Prefix ++ b) ⟨mask (v4InV6Prefix ++ b) (cidrMask 4 n), cidrMask 4 n⟩
  | v6 {ip : IP} {n : Nat} (hip : ip.length = 16) (hn : n ≤ 128) :
    Parsed ip ⟨mask ip (cidrMask 16 n), cidrMask 16 n⟩

theorem parseIPv4_spec {s : Bytes} {ip : IP} (h : parseIPv4 s = some ip) :
    ∃ b : IP, b.length = 4 ∧ ip = v4InV6Prefix ++ b := by
  simp only [parseIPv4, Option.bind_eq_bind, Option.bind_eq_some_iff] at h
  obtain ⟨⟨a, s⟩, -, ⟨b, s⟩, -, ⟨c, s⟩, -, ⟨d, s⟩, -, h⟩ := h
  simp only at h
  split at h
  · cases h
  · exact ⟨[a, b, c, d], rfl, (Option.some.inj h).symm⟩

/-- Every round of the loop adds a field. -/
theorem parseIPv6Loop_length {fuel : Nat} {ip ip' : IP} {e e' : Option Nat} {s : Bytes}
    (hl : ip.length + 2 * fuel = 16) (h : parseIPv6Loop fuel ip e s = some (ip', e')) :
    ip'.length ≤ 16 := by
  induction fuel generalizing ip e s with
  | zero =>
    simp only [parseIPv6Loop] at h
    split at h
    · cases h
    · cases h; omega
  | succ fuel ih =>
    have hl' : ∀ x y : UInt8, (ip ++ [x, y]).length + 2 * fuel = 16 := by
      intro x y
      simp only [List.length_append, List.length_cons, List.length_nil]
      omega
    have hle : ∀ x y : UInt8, (ip ++ [x, y]).length ≤ 16 := fun x y => by have := hl' x y; omega
    simp only [parseIPv6Loop] at h
    split at h
    · cases h
    · split at h
      · cases h
      · split at h
        · split at h
          · cases h
          · split at h
            · cases h
            · rename_i hfit
              obtain ⟨ip4, h4, he⟩ := Option.map_eq_some_iff.1 h
              obtain ⟨b, hb, rfl⟩ := parseIPv4_spec h4
              have hd : (List.drop 12 (v4InV6Prefix ++ b)).length = 4 := by simp [v4InV6Prefix, hb]
              cases he
              rw [List.length_append, hd]
              omega
        · split at h
          · cases h; exact hle _ _
          · split at h
            · cases h
            · split at h
              · split at h
                · cases h
                · split at h
                  · cases h; exact hle _ _
                  · exact ih (hl' _ _) h
              · exact ih (hl' _ _) h

theorem expand_length {ip ip' : IP} {e : Option Nat} (hl : ip.length ≤ 16)
    (h : expand ip e = some ip') : ip'.length = 16 := by
  unfold expand at h
  split at h
  · split at h
    · cases h
    · cases h; omega
  · split at h
    · rename_i e hlt
      cases h
      have : (ip.take e).length + (ip.drop e).length = ip.length := by
        rw [← List.length_append, List.take_append_drop]
      simp only [List.length_append, List.length_replicate]
      omega
    · cases h

theorem parseIPv6_length {s : Bytes} {ip : IP} (h : parseIPv6 s = some ip) : ip.length = 16 := by
  unfold parseIPv6 at h
  split at h
  · split at h
    · cases h; rfl
    · obtain ⟨⟨ip', e⟩, hloop, h⟩ := Option.bind_eq_some_iff.1 h
      exact expand_length (parseIPv6Loop_length rfl hloop) h
  · obtain ⟨⟨ip', e⟩, hloop, h⟩ := Option.bind_eq_some_iff.1 h
    exact expand_length (parseIPv6Loop_length rfl hloop) h

theorem withMask_spec {l : Nat} {ip ip' : IP} {m : Bytes} {net : IPNet}
    (h : withMask l ip m = some (ip', net)) :
    ip' = ip ∧ ∃ n ≤ 8 * l, net = ⟨mask ip (cidrMask l n), cidrMask l n⟩ := by
  unfold withMask at h
  split at h
  · cases h
  · split at h
    · cases h
    · cases h
      exact ⟨rfl, _, by omega, rfl⟩

theorem parseCIDR_spec {s : Bytes} {ip : IP} {net : IPNet} (h : parseCIDR s = some (ip, net)) :
    Parsed ip net := by
  unfold parseCIDR at h
  split at h
  · cases h
  · simp only at h
    split at h
    · rename_i h4
      obtain ⟨b, hb, rfl⟩ := parseIPv4_spec h4
      obtain ⟨rfl, n, hn, rfl⟩ := withMask_spec h
      exact .v4 hb hn
    · obtain ⟨ip', h6, h⟩ := Option.bind_eq_some_iff.1 h
      obtain ⟨rfl, n, hn, rfl⟩ := withMask_spec h
      exact .v6 (parseIPv6_length h6) hn

theorem Parsed.length {ip : IP} {net : IPNet} (h : Parsed ip net) : ip.length = 16 := by
  cases h with
  | v4 hb hn => simp [v4InV6Prefix, hb]
  | v6 hip hn => exact hip

/-! ## Masks -/

theorem length_andBytes {a m : Bytes} (h : a.length = m.length) :
    (andBytes a m).length = m.length := by
  simp [andBytes, h]

theorem andBytes_andBytes (a m : Bytes) : andBytes (andBytes a m) m = andBytes a m := by
  induction a generalizing m with
  | nil => rfl
  | cons x a ih =>
    cases m with
    | nil => rfl
    | cons y m =>
      have := ih m
      simp only [andBytes, List.zipWith_cons_cons, UInt8.and_assoc, UInt8.and_self] at this ⊢
      rw [this]

/-- A prefix under ones stays. -/
theorem andBytes_ones {p : Bytes} (a m : Bytes) :
    andBytes (p ++ a) (List.replicate p.length 0xff ++ m) = p ++ andBytes a m := by
  induction p with
  | nil => rfl
  | cons x p ih =>
    have hx : x &&& 0xff = x := UInt8.and_neg_one
    simp only [andBytes, List.cons_append, List.length_cons, List.replicate_succ,
      List.zipWith_cons_cons] at ih ⊢
    rw [ih, hx]

theorem length_cidrMask (l n : Nat) : (cidrMask l n).length = l := by
  induction l generalizing n with
  | zero => rfl
  | succ l ih => unfold cidrMask; split <;> simp [ih]

theorem cidrMask_add (k l n : Nat) :
    cidrMask (k + l) (8 * k + n) = List.replicate k 0xff ++ cidrMask l n := by
  induction k with
  | zero => simp
  | succ k ih =>
    have e : k + 1 + l = k + l + 1 := by omega
    have e' : 8 * (k + 1) + n - 8 = 8 * k + n := by omega
    rw [e, cidrMask, if_pos (by omega), e', ih]
    rfl

/-- The masks of IPv6 that keep the bytes of `v4InV6Prefix`. -/
theorem cidrMask_of_le {n : Nat} (h : 96 ≤ n) :
    cidrMask 16 n = List.replicate 12 0xff ++ cidrMask 4 (n - 96) := by
  have := cidrMask_add 12 4 (n - 96)
  rwa [show 8 * 12 + (n - 96) = n by omega] at this

/-- A shorter one clears a bit of them. -/
theorem cidrMask_of_lt {n : Nat} (h : n < 96) : (cidrMask 16 n)[11]? ≠ some 0xff := by
  have : ∀ n : Fin 96, (cidrMask 16 n)[11]? ≠ some 0xff := by decide +kernel
  exact this ⟨n, h⟩

theorem mask_of_to4 {x a : IP} {m : IPMask} (h : to4 x = some a) (hm : m.length = 4) :
    mask x m = andBytes a m := by
  obtain ⟨ha, rfl | rfl⟩ := to4_eq_some h
  · simp [mask, ha, hm]
  · have hp : v4InV6Prefix.length = 12 := rfl
    simp [mask, ha, hm, hp]

theorem mask_of_length {x : IP} {m : IPMask} (hx : x.length = 16) (hm : m.length = 16) :
    mask x m = andBytes x m := by
  simp [mask, hx, hm]

theorem mask_mapped {a : IP} {m : IPMask} (ha : a.length = 4) (hm : m.length = 4) :
    mask (v4InV6Prefix ++ a) (List.replicate 12 0xff ++ m) = v4InV6Prefix ++ andBytes a m := by
  have hp : v4InV6Prefix.length = 12 := rfl
  rw [mask_of_length (by simp [ha, hp]) (by simp [hm])]
  exact andBytes_ones a m

theorem mask_ones {a : IP} {m : IPMask} (ha : a.length = 4) (hm : m.length = 4) :
    mask a (List.replicate 12 0xff ++ m) = andBytes a m := by
  simp [mask, ha, hm]

/-- No IPv4 address is left under a mask that clears a bit of `v4InV6Prefix`. -/
theorem to4_andBytes {x : IP} {m : IPMask} (hx : x.length = 16) (hm : m.length = 16)
    (h : m[11]? ≠ some 0xff) : to4 (andBytes x m) = none := by
  cases h4 : to4 (andBytes x m) with
  | none => rfl
  | some a =>
    have hl := length_andBytes (hx.trans hm.symm)
    obtain ⟨ha, he | he⟩ := to4_eq_some h4
    · rw [he] at hl
      omega
    · refine absurd ?_ h
      have h11 : (andBytes x m)[11]? = some 0xff := by rw [he]; rfl
      obtain ⟨u, v, hu, hv, huv⟩ := List.getElem?_zipWith_eq_some.1 h11
      rw [hv, (UInt8.and_eq_neg_one_iff.1 huv).2]
      rfl

/-! ## The text of a masked address -/

/-- An IPv6 network that has the 16-byte form of an IPv4 address under its mask. `Contains` keeps
the two families apart, `Mask` does not. -/
def IPNet.coversMapped (n : IPNet) (x : IP) : Bool :=
  x.length = 16 ∧ to4 n.ip = none ∧ Net.mask x n.mask = n.ip

section
variable {x a b ip : IP} {m : IPMask}

/-- Comparing with the address is comparing with the network, for an address without host bits. -/
theorem andBytes_eq_iff : andBytes a m = b ↔ andBytes b m = b ∧ andBytes b m = andBytes a m := by
  constructor
  · rintro rfl
    exact ⟨andBytes_andBytes a m, andBytes_andBytes a m⟩
  · rintro ⟨h, h'⟩
    rw [← h', h]

theorem contains_of_to4 {net : IPNet} (hx : to4 x = some a) (hb : to4 net.ip = some b)
    (hm : net.mask = m ∧ m.length = 4 ∨ net.mask = List.replicate 12 0xff ++ m ∧ m.length = 4) :
    net.contains x = true ↔ andBytes b m = andBytes a m := by
  obtain ⟨ha, -⟩ := to4_eq_some hx
  obtain ⟨hb4, -⟩ := to4_eq_some hb
  have hnm : networkNumberAndMask net = (b, m) := by
    rcases hm with ⟨hm, h4⟩ | ⟨hm, h4⟩
    · simp [networkNumberAndMask, hb, hb4, hm, h4]
    · simp [networkNumberAndMask, hb, hb4, hm, h4]
  simp [IPNet.contains, hnm, hx, ha, hb4]

theorem contains_of_none {net : IPNet} (hx : to4 x = some a) (hn : to4 net.ip = none)
    (hl : net.ip.length = 16) : net.contains x = false := by
  obtain ⟨ha, -⟩ := to4_eq_some hx
  have hnm : (networkNumberAndMask net).1.length ≠ 4 := by
    simp only [networkNumberAndMask, hn, Option.getD_none, hl]
    repeat' split
    all_goals simp [hl]
  simp only [IPNet.contains, hx, Option.getD_some, ha]
  simp [Ne.symm hnm]

theorem string_mask_v4 (hx : to4 x = some a) (hb : b.length = 4) (hm : m.length = 4) :
    string (mask x m) = string (v4InV6Prefix ++ b) ↔ andBytes a m = b := by
  obtain ⟨ha, -⟩ := to4_eq_some hx
  have hl := length_andBytes (ha.trans hm.symm)
  have hp : v4InV6Prefix.length = 12 := rfl
  rw [mask_of_to4 hx hm, string_eq_iff (.inr (.inl (hl.trans hm))) (.inr (.inr (by simp [hb, hp]))),
    canon_of_length (hl.trans hm), canon_mapped hb]

theorem string_mask_v6_ones (hx : to4 x = some a) (hip : ip.length = 16) (hm : m.length = 4) :
    string (mask x (List.replicate 12 0xff ++ m)) = string ip ↔
      ip = v4InV6Prefix ++ andBytes a m := by
  obtain ⟨ha, hxa⟩ := to4_eq_some hx
  have hl := (length_andBytes (ha.trans hm.symm)).trans hm
  have hp : v4InV6Prefix.length = 12 := rfl
  have hc : Sized (mask x (List.replicate 12 0xff ++ m)) ∧
      canon (mask x (List.replicate 12 0xff ++ m)) = andBytes a m := by
    rcases hxa with rfl | rfl
    · rw [mask_ones ha hm]
      exact ⟨.inr (.inl hl), canon_of_length hl⟩
    · rw [mask_mapped ha hm]
      exact ⟨.inr (.inr (by simp [hl, hp])), canon_mapped hl⟩
  rw [string_eq_iff hc.1 (.inr (.inr hip)), hc.2]
  constructor
  · intro h
    refine canon_inj hip (by simp [hl, hp]) ?_
    rw [← h, canon_mapped hl]
  · rintro rfl
    exact (canon_mapped hl).symm

theorem string_mask_narrow (hx : to4 x = some a) (hip : ip.length = 16) (hm : m.length = 16)
    (h11 : m[11]? ≠ some 0xff) :
    string (mask x m) = string ip ↔ x.length = 16 ∧ andBytes x m = ip := by
  obtain ⟨ha, hxa⟩ := to4_eq_some hx
  have hp : v4InV6Prefix.length = 12 := rfl
  rcases hxa with rfl | rfl
  · -- four bytes have no masked form here
    have hnil : mask x m = [] := by
      have hff : ¬ (m.take 12).all (· == 0xff) = true := by
        intro hall
        refine h11 ?_
        have h12 : 11 < (m.take 12).length := by simp [hm]
        have := List.all_eq_true.1 hall _ (List.getElem_mem h12)
        rw [List.getElem_take, beq_iff_eq] at this
        rw [List.getElem?_eq_getElem (by omega), this]
      simp [mask, ha, hm, hff]
    rw [hnil, string_eq_iff (.inl rfl) (.inr (.inr hip)), canon_nil, ha]
    refine ⟨fun h => ?_, fun h => by omega⟩
    rcases canon_cases ip with hc | ⟨-, hc⟩
    · rw [← h] at hc
      cases hc
    · rw [hc] at h
      rw [← h] at hip
      cases hip
  · have hx16 : (v4InV6Prefix ++ a).length = 16 := by simp [ha, hp]
    have hl := (length_andBytes (hx16.trans hm.symm)).trans hm
    rw [mask_of_length hx16 hm, string_eq_iff (.inr (.inr hl)) (.inr (.inr hip)),
      canon_of_none (to4_andBytes hx16 hm h11)]
    refine ⟨fun h => ⟨hx16, ?_⟩, fun ⟨_, h⟩ => ?_⟩
    · rcases canon_cases ip with hc | ⟨-, hc⟩
      · rw [← h] at hc
        omega
      · rw [h, hc]
    · rw [← h, canon_of_none (to4_andBytes hx16 hm h11)]

theorem to16_of_length {p q : IP} (hp : p.length = 16) : to16 p = some q ↔ p = q := by
  simp [to16, hp]

/-! The three kinds of networks. -/

theorem v4_iff {n : Nat} (hx : to4 x = some a) (hb : b.length = 4) :
    string (mask x (cidrMask 4 n)) = string (v4InV6Prefix ++ b) ↔
      to16 (andBytes b (cidrMask 4 n)) = some (v4InV6Prefix ++ b) ∧
        IPNet.contains ⟨andBytes b (cidrMask 4 n), cidrMask 4 n⟩ x = true := by
  have hm := length_cidrMask 4 n
  have hl := (length_andBytes (hb.trans hm.symm)).trans hm
  have hp : v4InV6Prefix.length = 12 := rfl
  rw [string_mask_v4 hx hb hm, contains_of_to4 hx (to4_of_length hl) (.inl ⟨rfl, hm⟩),
    to16_eq_iff (.inl hl) (by simp [hb, hp]), canon_of_length hl, canon_mapped hb,
    andBytes_andBytes, andBytes_eq_iff]

theorem v6_mapped_iff (hx : to4 x = some a) (hb : b.length = 4) (hm : m.length = 4) :
    string (mask x (List.replicate 12 0xff ++ m)) = string (v4InV6Prefix ++ b) ↔
      v4InV6Prefix ++ andBytes b m = v4InV6Prefix ++ b ∧
        IPNet.contains ⟨v4InV6Prefix ++ andBytes b m, List.replicate 12 0xff ++ m⟩ x = true := by
  have hl := (length_andBytes (hb.trans hm.symm)).trans hm
  have hp : v4InV6Prefix.length = 12 := rfl
  rw [string_mask_v6_ones hx (by simp [hb, hp]) hm,
    contains_of_to4 hx (to4_mapped hl) (.inr ⟨rfl, hm⟩), List.append_cancel_left_eq,
    List.append_cancel_left_eq, andBytes_andBytes, ← andBytes_eq_iff, eq_comm]

/-- No IPv4 address is in an IPv6 network of at least 96 bits other than the mapped ones. -/
theorem v6_ones_none (hx : to4 x = some a) (hip : ip.length = 16) (hm : m.length = 4)
    (hn : to4 ip = none) :
    string (mask x (List.replicate 12 0xff ++ m)) ≠ string ip ∧
      IPNet.contains ⟨ip, List.replicate 12 0xff ++ m⟩ x = false ∧
      IPNet.coversMapped ⟨ip, List.replicate 12 0xff ++ m⟩ x = false := by
  obtain ⟨ha, hxa⟩ := to4_eq_some hx
  have hl := (length_andBytes (ha.trans hm.symm)).trans hm
  have hne : ip ≠ v4InV6Prefix ++ andBytes a m := (to4_eq_none hn).2 _ hl
  refine ⟨fun h => hne ((string_mask_v6_ones hx hip hm).1 h), contains_of_none hx hn hip, ?_⟩
  rcases hxa with rfl | rfl
  · simp [IPNet.coversMapped, ha]
  · simp only [IPNet.coversMapped, mask_mapped ha hm]
    simp [Ne.symm hne]

theorem v6_narrow_iff (hx : to4 x = some a) (hip : ip.length = 16) (hm : m.length = 16)
    (h11 : m[11]? ≠ some 0xff) :
    string (mask x m) = string ip ↔
      andBytes ip m = ip ∧ IPNet.coversMapped ⟨andBytes ip m, m⟩ x = true := by
  rw [string_mask_narrow hx hip hm h11]
  simp only [IPNet.coversMapped, to4_andBytes hip hm h11, decide_eq_true_eq, true_and]
  constructor
  · rintro ⟨hx16, h⟩
    obtain ⟨h1, h2⟩ := andBytes_eq_iff.1 h
    exact ⟨h1, hx16, by rw [mask_of_length hx16 hm, h2]⟩
  · rintro ⟨h1, hx16, h2⟩
    rw [mask_of_length hx16 hm] at h2
    exact ⟨hx16, h2.trans h1⟩

/-- The text of an IPv4 address under the mask of a CIDR is the text of the CIDR's address iff that
has no host bits and the network has the address. -/
theorem string_mask_iff {net : IPNet} (h : Parsed ip net) (hx : to4 x = some a) :
    string (mask x net.mask) = string ip ↔
      to16 net.ip = some ip ∧ (net.contains x = true ∨ net.coversMapped x = true) := by
  cases h with
  | @v4 b n hb hn =>
    have hm := length_cidrMask 4 n
    have hl := (length_andBytes (hb.trans hm.symm)).trans hm
    have hcov : IPNet.coversMapped ⟨andBytes b (cidrMask 4 n), cidrMask 4 n⟩ x = false := by
      simp [IPNet.coversMapped, to4_of_length hl]
    rw [mask_of_to4 (to4_mapped hb) hm, hcov, v4_iff hx hb]
    simp
  | @v6 _ n hip hn =>
    have hm := length_cidrMask 16 n
    have hl := (length_andBytes (hip.trans hm.symm)).trans hm
    rw [mask_of_length hip hm, to16_of_length hl]
    by_cases h96 : 96 ≤ n
    · rw [cidrMask_of_le h96] at hl ⊢
      have hm4 := length_cidrMask 4 (n - 96)
      cases h4 : to4 ip with
      | none =>
        obtain ⟨h1, h2, h3⟩ := v6_ones_none hx hip hm4 h4
        refine ⟨fun h => absurd h h1, fun ⟨he, h⟩ => ?_⟩
        rw [he, h2, h3] at h
        simp at h
      | some b =>
        obtain ⟨hb, rfl | rfl⟩ := to4_eq_some h4
        · omega
        · have hl4 := (length_andBytes (hb.trans hm4.symm)).trans hm4
          have hcov : IPNet.coversMapped ⟨v4InV6Prefix ++ andBytes b (cidrMask 4 (n - 96)),
              List.replicate 12 0xff ++ cidrMask 4 (n - 96)⟩ x = false := by
            simp [IPNet.coversMapped, to4_mapped hl4]
          have hones := andBytes_ones (p := v4InV6Prefix) b (cidrMask 4 (n - 96))
          rw [show v4InV6Prefix.length = 12 from rfl] at hones
          rw [hones, hcov, v6_mapped_iff hx hb hm4]
          simp
    · have h11 := cidrMask_of_lt (n := n) (by omega)
      rw [v6_narrow_iff hx hip hm h11, contains_of_none hx (to4_andBytes hip hm h11) hl]
      simp

end

end Net
