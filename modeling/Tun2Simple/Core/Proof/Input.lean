import Tun2Simple.Core.Input

/-!
# What lwIP is given of a packet

`pbufOf_spec`: the pbufs of a packet hold its first bytes, as many as the low 16 bits of its length
say. `input_eq` says where `input` gets to, by the packet's version and length; `input_faithful_iff`
puts both together: the packet arrives as it is, or not at all, unless its length is one that the
checks before the header fields let through, or does not fit into 16 bits.
-/

namespace Core

/-! ## Pbufs -/

/-- The invariant of a chain, here from the pool: `tot_len` is the length of a pbuf and the
`tot_len` of the rest, and each pbuf has room for what it says it holds. -/
def ChainOk : List Pbuf → Prop
  | [] => True
  | p :: ps => p.totLen = p.len + chainLen ps ∧ p.len ≤ p.payload.length ∧ p.type = .pool ∧ ChainOk ps

theorem pbufAllocLoop_spec (memp : Nat → Block) (i remLen : Nat) :
    ChainOk (pbufAllocLoop memp i remLen) ∧ pbufAllocLoop memp i remLen ≠ [] ∧
      chainLen (pbufAllocLoop memp i remLen) = remLen := by
  induction remLen using Nat.strongRecOn generalizing i with
  | ind remLen ih =>
  have hsize : pbufPoolBufsize = 1514 := rfl
  have hblock := (memp i).2
  have hroom : min remLen pbufPoolBufsize ≤ (memp i).1.length := by omega
  rw [pbufAllocLoop]
  split
  · rename_i hlt
    obtain ⟨hok, -, htot⟩ := ih (remLen - min remLen pbufPoolBufsize) (by omega) (i + 1)
    refine ⟨⟨?_, hroom, rfl, hok⟩, by simp, rfl⟩
    rw [htot]
    show remLen = min remLen pbufPoolBufsize + (remLen - min remLen pbufPoolBufsize)
    omega
  · refine ⟨⟨?_, hroom, rfl, trivial⟩, by simp, rfl⟩
    show remLen = min remLen pbufPoolBufsize + 0
    omega

theorem memcpy_eq {dst src : Bytes} {n : Nat} (hd : n ≤ dst.length) (hs : n ≤ src.length) :
    memcpy dst src n = some (src.take n ++ dst.drop n) := if_pos ⟨hd, hs⟩

theorem contents_cons (p : Pbuf) (ps : List Pbuf) :
    contents (p :: ps) = p.payload.take p.len ++ contents ps := rfl

/-- The data ends up in the chain: each pbuf takes the next bytes. -/
theorem pbufTakeLoop_spec {buf : List Pbuf} (data : Bytes) (hc : ChainOk buf)
    (hd : chainLen buf ≤ data.length) :
    ∃ buf', pbufTakeLoop buf data (chainLen buf) = some buf' ∧
      contents buf' = data.take (chainLen buf) ∧ chainLen buf' = chainLen buf ∧
      ∀ p ∈ buf', p.type = .pool := by
  induction buf generalizing data with
  | nil => exact ⟨[], rfl, rfl, rfl, by simp⟩
  | cons p ps ih =>
    obtain ⟨htot, hroom, htype, hps⟩ := hc
    have hp : chainLen (p :: ps) = p.len + chainLen ps := htot
    obtain ⟨ps', hloop, hcont, -, hpool⟩ := ih (data.drop p.len) hps
      (by rw [List.length_drop]; omega)
    have types : ∀ q : Pbuf, q.type = .pool → ∀ x ∈ q :: ps', x.type = .pool := by
      intro q hq x hx
      rcases List.mem_cons.1 hx with rfl | hx
      · exact hq
      · exact hpool x hx
    cases htotal : chainLen (p :: ps) with
    | zero =>
      -- nothing is left to copy, and the pbufs from here on are empty
      have h0 : chainLen ps = 0 := by omega
      have hlen : p.len = 0 := by omega
      rw [h0, pbufTakeLoop] at hloop
      cases hloop
      refine ⟨p :: ps, by rw [pbufTakeLoop], ?_, htotal, types p htype⟩
      rw [contents_cons, hcont, hlen, h0]
      rfl
    | succ total =>
      have hmin : min (total + 1) p.len = p.len := by omega
      have hrest : total + 1 - p.len = chainLen ps := by omega
      refine ⟨{ p with payload := data.take p.len ++ p.payload.drop p.len } :: ps', ?_, ?_, ?_, ?_⟩
      · rw [pbufTakeLoop, hmin, memcpy_eq hroom (by omega), hrest, hloop]
        rfl
      · have htake : (data.take p.len ++ p.payload.drop p.len).take p.len = data.take p.len := by
          apply List.take_left'
          rw [List.length_take]
          omega
        rw [contents_cons, htake, hcont, ← htotal, hp, List.take_add]
      · exact htotal
      · exact types _ htype

/-- The pbufs of a packet: its bytes up to the low 16 bits of its length. -/
theorem pbufOf_spec (memp : Nat → Block) (pkt : Bytes) (inPlace : Bool) :
    ∃ buf, pbufOf memp pkt inPlace = some buf ∧ chainLen buf = pkt.length % 65536 ∧
      contents buf = pkt.take (pkt.length % 65536) ∧ ∀ p ∈ buf, p.type = .ref → inPlace = true := by
  have hlen : (UInt16.ofNat pkt.length).toNat = pkt.length % 65536 := UInt16.toNat_ofNat'
  cases inPlace with
  | true =>
    refine ⟨_, rfl, hlen, ?_, fun _ _ _ => rfl⟩
    show pkt.take (UInt16.ofNat pkt.length).toNat ++ [] = _
    rw [List.append_nil, hlen]
  | false =>
    obtain ⟨hok, hne, htot⟩ := pbufAllocLoop_spec memp 0 (pkt.length % 65536)
    obtain ⟨buf, hloop, hcont, htot', hpool⟩ := pbufTakeLoop_spec pkt hok (by
      rw [htot]
      exact Nat.mod_le ..)
    refine ⟨buf, ?_, by rw [htot', htot], by rw [hcont, htot], fun p hp h => ?_⟩
    · rw [pbufOf, if_neg (by simp), pbufTake, pbufAlloc, hlen, if_neg, ← hloop, htot]
      rw [htot]
      exact not_or.2 ⟨hne, Nat.lt_irrefl _⟩
    · rw [hpool p hp] at h
      cases h

/-! ## The header -/

/-- The IP version. -/
def version (pkt : Bytes) : Nat := (pkt.headD 0).toNat / 16

/-- An IPv4 packet with UDP as its protocol, `MF` clear and the fragment offset 0. -/
structure WholeUdp (pkt : Bytes) : Prop where
  ipv4 : version pkt = 4
  udp : pkt[9]? = some protoUdp
  whole : ∃ hi lo, pkt[6]? = some hi ∧ pkt[7]? = some lo ∧ hi.toNat / 32 % 2 = 0 ∧
    hi.toNat % 32 * 256 + lo.toNat = 0

theorem ipver_toNat (b : UInt8) : ((b &&& 0xf0) >>> 4).toNat = b.toNat / 16 := by
  have h := b.toNat_lt
  rw [UInt8.toNat_shiftRight, UInt8.toNat_and]
  show (b.toNat &&& 0xf0) >>> 4 = _
  rw [Nat.shiftRight_and_distrib, Nat.shiftRight_eq_div_pow]
  show b.toNat / 2 ^ 4 &&& 2 ^ 4 - 1 = _
  rw [Nat.and_two_pow_sub_one_eq_mod]
  omega

/-- The version that `peekIPVer` finds. -/
theorem peekIPVer_eq {pkt : Bytes} (h : pkt ≠ []) :
    ∃ ipv, peekIPVer pkt = .ok ipv ∧ ipv.toNat = version pkt := by
  cases pkt with
  | nil => exact absurd rfl h
  | cons b rest =>
    refine ⟨(b &&& 0xf0) >>> 4, ?_, ipver_toNat b⟩
    rw [peekIPVer, if_neg (by simp)]
    rfl

theorem index_eq {p : Bytes} {i : Nat} (h : i < p.length) :
    ∃ b, index p i = .ok b ∧ p[i]? = some b := by
  refine ⟨p[i], ?_, List.getElem?_eq_getElem h⟩
  rw [index, List.getElem?_eq_getElem h]

theorem index_of_le {p : Bytes} {i : Nat} (h : p.length ≤ i) : index p i = .error .panic := by
  rw [index, List.getElem?_eq_none h]

theorem mf_clear {hi : UInt8} (h : ¬ 0 < hi &&& 0x20) : hi.toNat / 32 % 2 = 0 := by
  rw [UInt8.lt_iff_toNat_lt, UInt8.toNat_and] at h
  have h : ¬ 0 < hi.toNat &&& 2 ^ 5 := h
  cases hb : hi.toNat.testBit 5 with
  | true =>
    have h0 : (hi.toNat &&& 2 ^ 5).testBit 5 = false := by
      rw [Nat.eq_zero_of_not_pos h, Nat.zero_testBit]
    rw [Nat.testBit_and, hb, Nat.testBit_two_pow_self] at h0
    cases h0
  | false =>
    rw [Nat.testBit_eq_decide_div_mod_eq, decide_eq_false_iff_not] at hb
    omega

theorem offset_zero {hi lo : UInt8} (h : (hi.toUInt16 <<< 8 ||| lo.toUInt16) &&& 0x1fff = 0) :
    hi.toNat % 32 * 256 + lo.toNat = 0 := by
  have hh := hi.toNat_lt
  have hl := lo.toNat_lt
  have h := congrArg UInt16.toNat h
  rw [UInt16.toNat_and, UInt16.toNat_or, UInt16.toNat_shiftLeft, UInt8.toNat_toUInt16,
    UInt8.toNat_toUInt16] at h
  have h : (hi.toNat <<< 8 % 2 ^ 16 ||| lo.toNat) &&& 2 ^ 13 - 1 = 0 := h
  have hshift : hi.toNat <<< 8 % 2 ^ 16 = hi.toNat <<< 8 := by
    rw [Nat.shiftLeft_eq]
    omega
  rw [Nat.and_two_pow_sub_one_eq_mod, hshift, ← Nat.shiftLeft_add_eq_or_of_lt hl,
    Nat.shiftLeft_eq] at h
  omega

/-- Only a whole UDP packet is not copied; a packet with a protocol field is not read out
of range. -/
theorem noCopy_eq {pkt : Bytes} {ipv : UInt8} (hv : ipv.toNat = version pkt) {nextProto : UInt8}
    (hp : ipv = ipv4 → 9 < pkt.length ∧ pkt[9]? = some nextProto) (h46 : ipv = ipv4 ∨ ipv = ipv6) :
    ∃ inPlace, noCopy ipv nextProto pkt = .ok inPlace ∧ (inPlace = true → WholeUdp pkt) := by
  by_cases hu : nextProto = protoUdp
  case neg => exact ⟨false, if_neg hu, fun h => by cases h⟩
  rw [noCopy, if_pos hu]
  rcases h46 with rfl | rfl
  · obtain ⟨h9, hproto⟩ := hp rfl
    obtain ⟨hi, hhi, h6⟩ := index_eq (p := pkt) (i := 6) (by omega)
    obtain ⟨lo, hlo, h7⟩ := index_eq (p := pkt) (i := 7) (by omega)
    rw [moreFrags, fragOffset, if_pos rfl, if_pos rfl, hhi, hlo]
    by_cases hmf : 0 < hi &&& 0x20
    · refine ⟨false, ?_, fun h => by cases h⟩
      simp [hmf, bind, Except.bind, pure, Except.pure]
    · refine ⟨decide ((hi.toUInt16 <<< 8 ||| lo.toUInt16) &&& 0x1fff = 0), ?_, fun h => ?_⟩
      · simp [hmf, bind, Except.bind, pure, Except.pure]
      · exact ⟨hv.symm, hu ▸ hproto, hi, lo, h6, h7, mf_clear hmf, offset_zero (of_decide_eq_true h)⟩
  · exact ⟨false, rfl, fun h => by cases h⟩

/-! ## The way to lwIP -/

/-- What `input` does with the pbufs of a packet. -/
def give (netifInput : List Pbuf → Int8) (pkt : Bytes) (buf : List Pbuf) : InputResult :=
  if netifInput buf ≠ errOk then ⟨0, some "packet not handled", some buf⟩
  else ⟨pkt.length, none, some buf⟩

theorem give_given (netifInput : List Pbuf → Int8) (pkt : Bytes) (buf : List Pbuf) :
    (give netifInput pkt buf).given = some buf := by
  unfold give
  split <;> rfl

/-- `inputInPlace` is the way of `input` up to its call of lwIP. -/
theorem input_eq_inPlace (netifInput : List Pbuf → Int8) (memp : Nat → Block) (pkt : Bytes) :
    input netifInput memp pkt = orReturn (inputInPlace pkt) fun r =>
      r.elim (some ⟨0, none, none⟩) fun inPlace => (pbufOf memp pkt inPlace).map (give netifInput pkt) := by
  have hgive : ∀ inPlace, (do
      let buf ← pbufOf memp pkt inPlace
      if netifInput buf ≠ errOk then return ⟨0, some "packet not handled", some buf⟩
      return ⟨pkt.length, none, some buf⟩) = (pbufOf memp pkt inPlace).map (give netifInput pkt) := by
    intro inPlace
    cases pbufOf memp pkt inPlace with
    | none => rfl
    | some buf =>
      show (if _ then _ else _) = some (give netifInput pkt buf)
      unfold give
      split <;> rfl
  rw [input, inputInPlace]
  by_cases hne : pkt = []
  · rw [if_pos (List.length_eq_zero_iff.2 hne), if_pos hne]
    rfl
  rw [if_neg (fun h0 => hne (List.length_eq_zero_iff.1 h0)), if_neg hne]
  cases peekIPVer pkt with
  | error e => cases e <;> rfl
  | ok ipv =>
    simp only [orReturn, bind, Except.bind]
    cases peekNextProto ipv pkt with
    | error e => cases e <;> rfl
    | ok nextProto =>
      simp only [noCopy]
      by_cases hu : nextProto = protoUdp
      case neg =>
        rw [if_neg hu, if_neg hu]
        exact hgive false
      rw [if_pos hu, if_pos hu]
      cases moreFrags ipv pkt with
      | error e => cases e <;> rfl
      | ok more =>
        cases more with
        | true => exact hgive false
        | false =>
          cases fragOffset ipv pkt with
          | error e => cases e <;> rfl
          | ok off => exact hgive _

/-- The packet has the field that says its protocol. -/
def HasProto (pkt : Bytes) : Prop :=
  (version pkt = 4 ∧ 9 < pkt.length) ∨ (version pkt = 6 ∧ 6 < pkt.length)

/-- The packet ends right before this field. -/
def EndsAtProto (pkt : Bytes) : Prop :=
  (version pkt = 4 ∧ pkt.length = 9) ∨ (version pkt = 6 ∧ pkt.length = 6)

section
variable (netifInput : List Pbuf → Int8) (memp : Nat → Block) {pkt : Bytes}

theorem version_ipv4 {ipv : UInt8} (hv : ipv.toNat = version pkt) : ipv = ipv4 ↔ version pkt = 4 := by
  rw [← hv, ← UInt8.toNat_inj]
  rfl

theorem version_ipv6 {ipv : UInt8} (hv : ipv.toNat = version pkt) : ipv = ipv6 ↔ version pkt = 6 := by
  rw [← hv, ← UInt8.toNat_inj]
  rfl

theorem input_hasProto (h : HasProto pkt) :
    ∃ buf, input netifInput memp pkt = some (give netifInput pkt buf) ∧
      chainLen buf = pkt.length % 65536 ∧ contents buf = pkt.take (pkt.length % 65536) ∧
      ((∃ p ∈ buf, p.type = .ref) → WholeUdp pkt) := by
  have hlen : pkt.length ≠ 0 := by
    rcases h with ⟨-, h⟩ | ⟨-, h⟩ <;> omega
  obtain ⟨ipv, hpeek, hv⟩ := peekIPVer_eq (fun h0 => hlen (List.length_eq_zero_iff.2 h0))
  -- both checks before the field pass
  obtain ⟨nextProto, hproto, h46, hfield⟩ : ∃ nextProto, peekNextProto ipv pkt = .ok nextProto ∧
      (ipv = ipv4 ∨ ipv = ipv6) ∧ (ipv = ipv4 → 9 < pkt.length ∧ pkt[9]? = some nextProto) := by
    rcases h with ⟨h4, hl⟩ | ⟨h6, hl⟩
    · obtain rfl := (version_ipv4 hv).2 h4
      obtain ⟨b, hb, hb'⟩ := index_eq hl
      refine ⟨b, ?_, .inl rfl, fun _ => ⟨hl, hb'⟩⟩
      rw [peekNextProto, if_pos rfl, if_neg (by omega), hb]
    · obtain rfl := (version_ipv6 hv).2 h6
      obtain ⟨b, hb, -⟩ := index_eq hl
      refine ⟨b, ?_, .inr rfl, fun h => by cases h⟩
      rw [peekNextProto, if_neg (by decide), if_pos rfl, if_neg (by omega), hb]
  obtain ⟨inPlace, hcopy, hwhole⟩ := noCopy_eq hv hfield h46
  obtain ⟨buf, hbuf, htot, hcont, href⟩ := pbufOf_spec memp pkt inPlace
  refine ⟨buf, ?_, htot, hcont, fun ⟨p, hp, ht⟩ => hwhole (href p hp ht)⟩
  rw [input, if_neg hlen, hpeek]
  simp only [orReturn, hproto, hcopy, hbuf, Option.bind_eq_bind, Option.bind_some]
  unfold give
  split <;> rfl

theorem input_endsAtProto (h : EndsAtProto pkt) : input netifInput memp pkt = none := by
  have hlen : pkt.length ≠ 0 := by
    rcases h with ⟨-, h⟩ | ⟨-, h⟩ <;> omega
  obtain ⟨ipv, hpeek, hv⟩ := peekIPVer_eq (fun h0 => hlen (List.length_eq_zero_iff.2 h0))
  have hproto : peekNextProto ipv pkt = .error .panic := by
    rcases h with ⟨h4, hl⟩ | ⟨h6, hl⟩
    · obtain rfl := (version_ipv4 hv).2 h4
      rw [peekNextProto, if_pos rfl, if_neg (by omega), index_of_le (by omega)]
    · obtain rfl := (version_ipv6 hv).2 h6
      rw [peekNextProto, if_neg (by decide), if_pos rfl, if_neg (by omega), index_of_le (by omega)]
  rw [input, if_neg hlen, hpeek]
  simp only [orReturn, hproto]

theorem input_rejects (hne : pkt ≠ []) (h : ¬ HasProto pkt) (h' : ¬ EndsAtProto pkt) :
    ∃ text, input netifInput memp pkt = some ⟨0, some text, none⟩ := by
  obtain ⟨ipv, hpeek, hv⟩ := peekIPVer_eq hne
  obtain ⟨text, hproto⟩ : ∃ text, peekNextProto ipv pkt = .error (.error text) := by
    unfold HasProto at h
    unfold EndsAtProto at h'
    unfold peekNextProto
    by_cases h4 : ipv = ipv4
    · have hver := (version_ipv4 hv).1 h4
      rw [if_pos h4, if_pos (by omega)]
      exact ⟨_, rfl⟩
    rw [if_neg h4]
    by_cases h6 : ipv = ipv6
    · have hver := (version_ipv6 hv).1 h6
      rw [if_pos h6, if_pos (by omega)]
      exact ⟨_, rfl⟩
    rw [if_neg h6]
    exact ⟨_, rfl⟩
  refine ⟨text, ?_⟩
  rw [input, if_neg (by simpa using hne), hpeek]
  simp only [orReturn, hproto]

end

/-- What `Write` does with a packet is faithful: lwIP is not called, on an empty packet or with an
error, or is given the packet's length and bytes; and no copy is made only of a whole UDP packet. -/
structure Faithful (pkt : Bytes) (res : InputResult) : Prop where
  notGiven : res.given = none → pkt = [] ∨ res.err ≠ none
  length : ∀ buf, res.given = some buf → chainLen buf = pkt.length
  contents : ∀ buf, res.given = some buf → contents buf = pkt
  noCopy : ∀ buf, res.given = some buf → (∃ p ∈ buf, p.type = .ref) → WholeUdp pkt

/-- **Packet input.** On an open stack `Write` accesses nothing out of range and is faithful exactly
if the packet does not end right before its protocol field and, where it has one, has a length of 16
bits. -/
theorem input_faithful_iff (netifInput : List Pbuf → Int8) (memp : Nat → Block) (pkt : Bytes) :
    (∃ res, lwipStackWrite false netifInput memp pkt = some res ∧ Faithful pkt res) ↔
      ¬ EndsAtProto pkt ∧ (HasProto pkt → pkt.length < 65536) := by
  have hw : lwipStackWrite false netifInput memp pkt = input netifInput memp pkt := rfl
  rw [hw]
  by_cases hne : pkt = []
  · subst hne
    refine ⟨fun _ => ⟨?_, fun _ => by simp⟩, fun _ => ⟨⟨0, none, none⟩, rfl, ?_⟩⟩
    · rintro (⟨-, h⟩ | ⟨-, h⟩) <;> cases h
    · exact ⟨fun _ => .inl rfl, by simp, by simp, by simp⟩
  by_cases hend : EndsAtProto pkt
  · rw [input_endsAtProto netifInput memp hend]
    refine ⟨fun ⟨res, hres, _⟩ => ?_, fun h => absurd hend h.1⟩
    cases hres
  by_cases hproto : HasProto pkt
  · obtain ⟨buf, hin, htot, hcont, href⟩ :=
      input_hasProto netifInput memp hproto
    have hgiven := give_given netifInput pkt buf
    rw [hin]
    constructor
    · rintro ⟨res, hres, hf⟩
      cases hres
      refine ⟨hend, fun _ => ?_⟩
      have := hf.length buf hgiven
      omega
    · rintro ⟨-, hlt⟩
      have hmod : pkt.length % 65536 = pkt.length := Nat.mod_eq_of_lt (hlt hproto)
      rw [hmod] at htot hcont
      rw [List.take_length] at hcont
      refine ⟨_, rfl, fun h => ?_, fun b h => ?_, fun b h => ?_, fun b h => ?_⟩
      · rw [hgiven] at h
        cases h
      all_goals
        rw [hgiven] at h
        cases h
      · exact htot
      · exact hcont
      · exact href
  · obtain ⟨text, hin⟩ := input_rejects netifInput memp hne hproto hend
    rw [hin]
    refine ⟨fun _ => ⟨hend, fun h => absurd h hproto⟩, fun _ => ⟨_, rfl, ?_⟩⟩
    exact ⟨fun _ => .inr (by simp), by simp, by simp, by simp⟩

/-- The first nine bytes of an IPv4 header: `peekNextProto` lets them through and reads
the tenth. -/
def ninePacket : Bytes := [0x45, 0, 0, 28, 0, 1, 0, 0, 64]

theorem nine_bytes_panic :
    ninePacket.length = 9 ∧ ∀ netifInput memp, lwipStackWrite false netifInput memp ninePacket = none := by
  refine ⟨rfl, fun netifInput memp => ?_⟩
  show input netifInput memp ninePacket = none
  exact input_endsAtProto netifInput memp (.inl (by decide))

end Core
