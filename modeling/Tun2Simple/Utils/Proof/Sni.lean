import Mathlib.Data.List.Nodup
import Tun2Simple.Utils.ClientHello
import Tun2Simple.Utils.Proof.ParseHost

/-!
# The server name of a complete hello

`getSNI` reads only the low byte of each length of 16 bits (`length16_eq`), so it keeps in step with
a hello as long as the lengths it goes by are below 256 (`Fits`). For every such hello it finds the
host_name, or nothing where there is no server_name extension (`getSNI_complete`).
-/

namespace Utils

open Net Go

section
variable {d : Slice UInt8}

/-- The byte behind a known beginning. -/
theorem byte_append {p q : Bytes} {x : UInt8} (h : d.mem = p ++ x :: q) :
    byte d p.length = x.toNat := by
  simp [byte, h]

theorem toNat_ofNat {n : Nat} (h : n < 256) : (UInt8.ofNat n).toNat = n := by
  rw [UInt8.toNat_ofNat', Nat.mod_eq_of_lt h]

@[simp] theorem length_be16 (n : Nat) : (be16 n).length = 2 := rfl

@[simp] theorem length_be24 (n : Nat) : (be24 n).length = 3 := rfl

@[simp] theorem length_vec16 (xs : Bytes) : (vec16 xs).length = 2 + xs.length := by simp [vec16]

/-! ## The way to the extensions -/

/-- The bytes before the session id. -/
def ClientHello.head (h : ClientHello) : Bytes :=
  [0x16, h.recordVersion.1, h.recordVersion.2] ++ be16 h.handshake.length ++
    1 :: be24 h.body.length ++ [h.version.1, h.version.2] ++ h.random

theorem ClientHello.length_head (h : ClientHello) : h.head.length = 43 := by
  simp [head, h.random_length]

theorem ClientHello.record_eq (h : ClientHello) :
    h.record = h.head ++ UInt8.ofNat h.sessionId.length :: (h.sessionId ++ (vec16 h.cipherBytes ++
      UInt8.ofNat h.compression.length :: (h.compression ++ vec16 (extBytes h.extensions)))) := by
  simp [record, head, handshake, body, vec16]

/-- Where the extensions start. -/
def ClientHello.extStart (h : ClientHello) : Nat :=
  44 + h.sessionId.length + 2 + h.cipherBytes.length + 1 + h.compression.length

/-- With a short cipher list the walk comes to the extensions. -/
theorem ClientHello.walk (h : ClientHello) {tail : Bytes} (hd : d = Slice.ofList h.record tail)
    (hc : h.cipherBytes.length < 256) :
    HasExtensions d ∧ extensionsAt d = h.extStart ∧
      d.len = h.extStart + 2 + (extBytes h.extensions).length ∧
      d.mem = d.mem.take h.extStart ++ (vec16 (extBytes h.extensions) ++ tail) := by
  have hsid := h.sessionId_length
  have hcomp := h.compression_length
  have hmem : d.mem = h.record ++ tail := by rw [hd]; rfl
  have hrec := h.record_eq
  have hlen : d.len = h.extStart + 2 + (extBytes h.extensions).length := by
    rw [hd, Slice.ofList, hrec]
    simp only [List.length_append, List.length_cons, length_vec16, h.length_head, extStart]
    omega
  have e1 : cipherAt d = 44 + h.sessionId.length := by
    have hb := byte_append (d := d) (p := h.head) (x := UInt8.ofNat h.sessionId.length)
      (by rw [hmem, hrec, List.append_assoc, List.cons_append])
    rw [h.length_head, toNat_ofNat (by omega)] at hb
    rw [cipherAt, hb]
  have e2 : compressionAt d = 44 + h.sessionId.length + 2 + h.cipherBytes.length := by
    have hb := byte_append (d := d) (x := UInt8.ofNat h.cipherBytes.length)
      (p := h.head ++ UInt8.ofNat h.sessionId.length :: (h.sessionId ++
        [UInt8.ofNat (h.cipherBytes.length / 256)])) (by
          rw [hmem, hrec]
          simp only [vec16, be16, List.append_assoc, List.cons_append, List.nil_append]
          rfl)
    have hl : (h.head ++ UInt8.ofNat h.sessionId.length :: (h.sessionId ++
        [UInt8.ofNat (h.cipherBytes.length / 256)])).length = 44 + h.sessionId.length + 1 := by
      simp only [List.length_append, List.length_cons, List.length_nil, h.length_head]
      omega
    rw [hl, toNat_ofNat hc] at hb
    rw [compressionAt, e1, hb]
  have e3 : extensionsAt d = h.extStart := by
    have hb := byte_append (d := d) (x := UInt8.ofNat h.compression.length)
      (p := h.head ++ UInt8.ofNat h.sessionId.length :: (h.sessionId ++ vec16 h.cipherBytes)) (by
          rw [hmem, hrec]
          simp only [List.append_assoc, List.cons_append]
          rfl)
    have hl : (h.head ++ UInt8.ofNat h.sessionId.length :: (h.sessionId ++
        vec16 h.cipherBytes)).length = 44 + h.sessionId.length + 2 + h.cipherBytes.length := by
      simp only [List.length_append, List.length_cons, length_vec16, h.length_head]
      omega
    rw [hl, toNat_ofNat (by omega)] at hb
    rw [extensionsAt, e2, hb, extStart]
  refine ⟨⟨?_, ?_, ?_, ?_⟩, e3, hlen, ?_⟩
  · simp only [extStart] at hlen
    omega
  · simp only [extStart] at hlen
    omega
  · simp only [extStart] at hlen
    omega
  · omega
  · have hsplit : h.record ++ tail = (h.head ++ UInt8.ofNat h.sessionId.length :: (h.sessionId ++
        (vec16 h.cipherBytes ++ UInt8.ofNat h.compression.length :: h.compression))) ++
          (vec16 (extBytes h.extensions) ++ tail) := by
      rw [hrec]
      simp only [List.append_assoc, List.cons_append]
    have hl : (h.head ++ UInt8.ofNat h.sessionId.length :: (h.sessionId ++
        (vec16 h.cipherBytes ++ UInt8.ofNat h.compression.length :: h.compression))).length =
          h.extStart := by
      simp only [List.length_append, List.length_cons, length_vec16, h.length_head, extStart]
      omega
    rw [hmem, hsplit, ← hl, List.take_left]

/-! ## The walk over the extensions -/

theorem be16_ne_zero {x : UInt16} (h : x ≠ 0) :
    ¬ ((UInt8.ofNat (x.toNat / 256)).toNat = 0 ∧ (UInt8.ofNat x.toNat).toNat = 0) := by
  rintro ⟨h1, h2⟩
  rw [UInt8.toNat_ofNat'] at h1 h2
  have := x.toNat_lt
  have h0 : x.toNat = 0 := by omega
  exact h (UInt16.toNat_inj.1 h0)

theorem extBytes_cons (e : Extension) (es : List Extension) :
    extBytes (e :: es) = e.bytes ++ extBytes es := rfl

theorem extBytes_append (es es' : List Extension) :
    extBytes (es ++ es') = extBytes es ++ extBytes es' := List.flatMap_append

theorem Extension.bytes_eq (e : Extension) :
    e.bytes = UInt8.ofNat (e.type.toNat / 256) :: UInt8.ofNat e.type.toNat ::
      UInt8.ofNat (e.data.length / 256) :: UInt8.ofNat e.data.length :: e.data := rfl

theorem Extension.length_bytes (e : Extension) : e.bytes.length = 4 + e.data.length := by
  rw [bytes_eq]
  simp only [List.length_cons]
  omega

/-- The header of the extension behind a known beginning. -/
theorem byte_ext {pre post : Bytes} {e : Extension} (h : d.mem = pre ++ (e.bytes ++ post)) :
    (IsServerName d pre.length ↔ e.type = 0) ∧
      byte d (pre.length + 3) = e.data.length % 256 := by
  rw [e.bytes_eq] at h
  simp only [List.cons_append] at h
  have b0 := byte_append h
  have b1 := byte_append (d := d) (p := pre ++ [UInt8.ofNat (e.type.toNat / 256)])
    (by rw [h, List.append_assoc]; rfl)
  have b3 := byte_append (d := d) (p := pre ++ [UInt8.ofNat (e.type.toNat / 256),
    UInt8.ofNat e.type.toNat, UInt8.ofNat (e.data.length / 256)])
    (by rw [h, List.append_assoc]; rfl)
  simp only [List.length_append, List.length_cons, List.length_nil] at b1 b3
  constructor
  · unfold IsServerName
    rw [b0, b1]
    constructor
    · intro hz
      by_contra hne
      exact be16_ne_zero hne hz
    · intro hz
      rw [hz]
      decide
  · rw [b3, UInt8.toNat_ofNat']

/-- One extension that the walk passes. -/
theorem getSNBlockLoop_skip {u : Slice UInt8} {pre post : Bytes} {e : Extension}
    (hm : u.mem = pre ++ (e.bytes ++ post)) (ht : e.type ≠ 0) (hin : pre.length + 4 ≤ u.len)
    (hlen : e.data.length < 256) :
    getSNBlockLoop u pre.length = getSNBlockLoop u (pre ++ e.bytes).length := by
  obtain ⟨hname, hlow⟩ := byte_ext hm
  have hnot : ¬ (byte u pre.length = 0 ∧ byte u (pre.length + 1) = 0) := fun hz => ht (hname.1 hz)
  have hpre : (pre ++ e.bytes).length = pre.length + 4 + e.data.length := by
    rw [List.length_append, e.length_bytes, Nat.add_assoc]
  rw [getSNBlockLoop_step (by omega), if_neg hnot, hlow, Nat.mod_eq_of_lt hlen, hpre]

end

/-- The host_name is the first entry, its length is below 256 and at least the five bytes before it
are left of the extension when its length is read by its low byte. -/
def HostFirst (names : List ServerName) : Prop :=
  ∀ n ∈ names, n.nameType = 0 → names.head? = some n ∧ n.name.length < 256 ∧
    5 ≤ (Extension.serverName names).data.length % 256

instance (names : List ServerName) : Decidable (HostFirst names) :=
  inferInstanceAs (Decidable (∀ n ∈ names, _ → _))

/-- The walk over extensions that start at `pos` of a block that ends at `stop` comes to the
server_name, or to the end where there is none. -/
def InStep (stop : Nat) : (pos : Nat) → List Extension → Prop
  | _, [] => True
  | pos, .serverName names :: _ => pos + 4 ≤ stop ∧ HostFirst names
  | pos, .other _ data :: es =>
    if pos + 4 ≤ stop then data.length < 256 ∧ InStep stop (pos + 4 + data.length) es
    else ∀ e ∈ es, e.type ≠ 0

instance decInStep (stop : Nat) : (pos : Nat) → (es : List Extension) → Decidable (InStep stop pos es)
  | _, [] => .isTrue trivial
  | _, .serverName _ :: _ => inferInstanceAs (Decidable (_ ∧ HostFirst _))
  | pos, .other _ data :: es =>
    have := decInStep stop (pos + 4 + data.length) es
    inferInstanceAs (Decidable (if pos + 4 ≤ stop then data.length < 256 ∧ _ else _))

/-- The lengths that `getSNI` goes by are right when only their low bytes are read. -/
structure Fits (h : ClientHello) : Prop where
  cipher : h.cipherBytes.length < 256
  extensions : InStep ((extBytes h.extensions).length % 256) 0 h.extensions

section
variable {u : Slice UInt8}

theorem InStep.other {stop pos : Nat} {e : Extension} {es : List Extension} (ht : e.type ≠ 0)
    (h : InStep stop pos (e :: es)) :
    (pos + 4 ≤ stop ∧ e.data.length < 256 ∧ InStep stop (pos + e.bytes.length) es) ∨
      (stop < pos + 4 ∧ ∀ x ∈ es, x.type ≠ 0) := by
  cases e with
  | serverName names => exact absurd rfl ht
  | other t data =>
    unfold InStep at h
    split at h
    · rename_i hin
      refine .inl ⟨hin, h.1, ?_⟩
      rw [Extension.length_bytes, ← Nat.add_assoc]
      exact h.2
    · exact .inr ⟨by omega, h⟩

/-- Without a server_name the walk comes to its end. -/
theorem getSNBlockLoop_none {pre post : Bytes} {es : List Extension}
    (hm : u.mem = pre ++ (extBytes es ++ post)) (ht : ∀ e ∈ es, e.type ≠ 0)
    (hin : InStep u.len pre.length es) (hlen : u.len ≤ pre.length + (extBytes es).length) :
    getSNBlockLoop u pre.length = some (.error .noSNBlock) := by
  induction es generalizing pre with
  | nil =>
    apply getSNBlockLoop_end
    simp only [extBytes, List.flatMap_nil, List.length_nil] at hlen
    omega
  | cons e es ih =>
    have hm' : u.mem = pre ++ (e.bytes ++ (extBytes es ++ post)) := by
      rw [hm, extBytes_cons, List.append_assoc]
    rcases hin.other (ht e (List.mem_cons_self ..)) with ⟨h4, hsmall, hrest⟩ | ⟨h4, -⟩
    · rw [getSNBlockLoop_skip hm' (ht e (List.mem_cons_self ..)) h4 hsmall]
      rw [extBytes_cons, List.length_append] at hlen
      apply ih
      · rw [hm', List.append_assoc]
      · exact fun x hx => ht x (List.mem_cons_of_mem _ hx)
      · rw [List.length_append]
        exact hrest
      · rw [List.length_append]
        omega
    · exact getSNBlockLoop_end (by omega)

/-- The walk comes to the server_name. -/
theorem getSNBlockLoop_serverName {p post : Bytes} {es es' : List Extension}
    {names : List ServerName}
    (hm : u.mem = p ++ (extBytes (es ++ .serverName names :: es') ++ post))
    (ht : ∀ e ∈ es, e.type ≠ 0) (hin : InStep u.len p.length (es ++ .serverName names :: es')) :
    HostFirst names ∧ p.length + (extBytes es).length + 4 ≤ u.len ∧
      getSNBlockLoop u p.length = getSNBlockLoop u (p ++ extBytes es).length := by
  induction es generalizing p with
  | nil =>
    obtain ⟨h4, hfirst⟩ := hin
    exact ⟨hfirst, h4, by simp [extBytes]⟩
  | cons e es ih =>
    have hte := ht e (List.mem_cons_self ..)
    have hm' : u.mem = p ++ (e.bytes ++ (extBytes (es ++ .serverName names :: es') ++ post)) := by
      rw [hm, List.cons_append, extBytes_cons, List.append_assoc]
    rcases InStep.other hte hin with ⟨h4, hsmall, hrest⟩ | ⟨-, hno⟩
    · obtain ⟨hfirst, hpos, heq⟩ := ih (p := p ++ e.bytes) (by rw [hm', List.append_assoc])
        (fun x hx => ht x (List.mem_cons_of_mem _ hx)) (by rw [List.length_append]; exact hrest)
      refine ⟨hfirst, ?_, ?_⟩
      · rw [extBytes_cons, List.length_append]
        rw [List.length_append] at hpos
        omega
      · rw [getSNBlockLoop_skip hm' hte h4 hsmall, heq, extBytes_cons, List.append_assoc]
    · exact absurd rfl (hno _ (List.mem_append_right _ (List.mem_cons_self ..)))

/-- The name of a list that starts with a host_name. -/
theorem getSNIBlock_host {names : List ServerName} {host post : Bytes}
    (hm : u.mem = (Extension.serverName names).data ++ post) (hh : names.head? = some ⟨0, host⟩)
    (hlt : host.length < 256) (hlen : 5 ≤ u.len) :
    ∃ sni, getSNIBlock u = some (.ok sni) ∧ sni.toList = host := by
  obtain ⟨rest, rfl⟩ : ∃ rest, names = ⟨0, host⟩ :: rest := by
    cases names with
    | nil => cases hh
    | cons n rest => exact ⟨rest, by cases hh; rfl⟩
  obtain ⟨a, b, c, hm'⟩ : ∃ a b c : UInt8, u.mem = [a, b, 0, c] ++ (UInt8.ofNat host.length ::
      (host ++ (rest.flatMap ServerName.bytes ++ post))) := by
    rw [hm]
    simp only [Extension.data, vec16, be16, List.flatMap_cons, ServerName.bytes, List.cons_append,
      List.nil_append, List.append_assoc]
    exact ⟨_, _, _, rfl⟩
  have b2 : byte u 2 = 0 := by
    have := byte_append (d := u) (p := [a, b]) (x := 0) (by rw [hm']; rfl)
    exact this
  have b4 : byte u 4 = host.length := by
    have := byte_append hm'
    rwa [toNat_ofNat hlt] at this
  have hcap : 5 + host.length ≤ u.cap := by
    simp only [Slice.cap, hm', List.length_append, List.length_cons, List.length_nil]
    omega
  obtain ⟨sni, hs, hsm, hsl⟩ := u.slice_eq_some (i := 5) (by omega) hcap
  refine ⟨sni, ?_, ?_⟩
  · rw [getSNIBlock, if_neg (by omega), getSNIBlockLoop_step (by omega), if_pos (by omega),
      if_pos b2, if_pos (by omega), b4, hs]
    rfl
  · rw [Slice.toList, hsm, hsl, hm', Nat.add_sub_cancel_left]
    exact List.take_left

/-- In a list of extensions behind which anything may come, the host_name of the server_name. -/
theorem getSNBlockLoop_host {tail : Bytes} {es es' : List Extension} {names : List ServerName}
    {host : Bytes} (hm : u.mem = [] ++ (extBytes (es ++ .serverName names :: es') ++ tail))
    (ht : ∀ e ∈ es, e.type ≠ 0) (hin : InStep u.len 0 (es ++ .serverName names :: es'))
    (hhost : ⟨0, host⟩ ∈ names) :
    ∃ sn sni, getSNBlockLoop u 0 = some (.ok sn) ∧ getSNIBlock sn = some (.ok sni) ∧
      sni.toList = host := by
  obtain ⟨hfirst, hpos, hloop⟩ := getSNBlockLoop_serverName hm ht hin
  obtain ⟨hhead, hsmall, h5⟩ := hfirst _ hhost rfl
  have hat : u.mem = extBytes es ++ ((Extension.serverName names).bytes ++
      (extBytes es' ++ tail)) := by
    rw [hm, extBytes_append, extBytes_cons]
    simp only [List.nil_append, List.append_assoc]
  obtain ⟨hname, hl⟩ := byte_ext hat
  simp only [List.length_nil, List.nil_append, Nat.zero_add] at hpos hloop
  have hz : byte u (extBytes es).length = 0 ∧ byte u ((extBytes es).length + 1) = 0 :=
    hname.2 rfl
  -- the block: it may be cut short by its low byte, but its array goes on
  obtain ⟨sn, hsn, hsm, hsl⟩ := u.slice_eq_some (i := (extBytes es).length + 4)
    (j := (extBytes es).length + 4 + (Extension.serverName names).data.length % 256) (by omega) (by
      have hmod := Nat.mod_le (Extension.serverName names).data.length 256
      simp only [Slice.cap, hat, List.length_append, Extension.length_bytes]
      omega)
  have hsm' : sn.mem = (Extension.serverName names).data ++ (extBytes es' ++ tail) := by
    rw [hsm, hat, List.drop_append, List.drop_eq_nil_of_le (by omega), Nat.add_sub_cancel_left,
      Extension.bytes_eq]
    rfl
  obtain ⟨sni, hblock, hsni⟩ := getSNIBlock_host hsm' hhead hsmall (by omega)
  refine ⟨sn, sni, ?_, hblock, hsni⟩
  rw [hloop, getSNBlockLoop_step (by omega), if_pos hz, hl, hsn, Option.map_some]

end

/-- `getSNI` comes to the extensions of a hello with a short cipher list, and looks at as many of their
bytes as the low byte of their length says. -/
theorem ClientHello.getSNI_record (h : ClientHello) (tail : Bytes) (hc : h.cipherBytes.length < 256) :
    ∃ u : Slice UInt8, u.mem = [] ++ (extBytes h.extensions ++ tail) ∧
      u.len = (extBytes h.extensions).length % 256 ∧
      getSNI (Slice.ofList h.record tail) = orEmpty (getSNBlockLoop u 0) fun sn =>
        orEmpty (getSNIBlock sn) fun sni => some sni.toList := by
  generalize hd : Slice.ofList h.record tail = d
  obtain ⟨hext, hat, hdl, hdm⟩ := h.walk hd.symm hc
  have htake : (d.mem.take h.extStart).length = h.extStart := by
    rw [List.length_take, Nat.min_eq_left]
    have := d.le
    omega
  have h16 : byte d 0 = 0x16 := by
    rw [← hd]
    rfl
  have hlow : byte d (extensionsAt d + 1) = (extBytes h.extensions).length % 256 := by
    have hb := byte_append (d := d) (x := UInt8.ofNat (extBytes h.extensions).length)
      (p := d.mem.take h.extStart ++ [UInt8.ofNat ((extBytes h.extensions).length / 256)]) (by
        rw [List.append_assoc]
        exact hdm)
    rwa [List.length_append, htake, ← hat, UInt8.toNat_ofNat'] at hb
  have hend : extensionsEnd d = extensionsAt d + 2 + (extBytes h.extensions).length % 256 := by
    rw [extensionsEnd, hlow]
  have hmod := Nat.mod_le (extBytes h.extensions).length 256
  obtain ⟨t, ht, -⟩ := d.slice_eq_some (Nat.le_of_lt hext.extensions) d.len_le_cap
  rw [getSNI_eq (by omega), if_pos h16, getExtensionBlock_ok.2 ⟨hext, ht⟩, orEmpty_ok]
  rcases sniOf_eq ht with ⟨hbad, -⟩ | ⟨-, u, hum, huc, hul, hs⟩
  · omega
  refine ⟨u, ?_, by omega, hs⟩
  rw [hum, hat, hdm, List.drop_append, List.drop_eq_nil_of_le (by omega), htake,
    Nat.add_sub_cancel_left]
  rfl

/-- **The server name of a complete hello.** In a record that holds a hello whose lengths fit, with
anything behind it, `getSNI` finds the host_name, and nothing if there is no server_name. -/
theorem getSNI_complete (h : ClientHello) (tail : Bytes) (hf : Fits h) :
    (∀ names host, .serverName names ∈ h.extensions → ⟨0, host⟩ ∈ names →
        getSNI (Slice.ofList h.record tail) = some host) ∧
      ((∀ names, .serverName names ∉ h.extensions) →
        getSNI (Slice.ofList h.record tail) = some []) := by
  obtain ⟨u, hmem, hul, hs⟩ := h.getSNI_record tail hf.cipher
  have hin := hf.extensions
  rw [← hul] at hin
  rw [hs]
  constructor
  · intro names host hmem' hhost
    obtain ⟨es, es', he⟩ := List.append_of_mem hmem'
    have hnot : ∀ e ∈ es, e.type ≠ 0 := by
      intro e hes htype
      have hn := h.extensions_nodup
      rw [he, List.map_append, List.map_cons] at hn
      exact (List.disjoint_of_nodup_append hn) (List.mem_map_of_mem hes)
        (htype ▸ List.mem_cons_self ..)
    rw [he] at hmem hin
    obtain ⟨sn, sni, hloop, hblock, hsni⟩ := getSNBlockLoop_host hmem hnot hin hhost
    rw [hloop, orEmpty_ok, hblock, orEmpty_ok, hsni]
  · intro hno
    have hnot : ∀ e ∈ h.extensions, e.type ≠ 0 := by
      intro e he
      have hwf := h.extensions_ok e he
      cases e with
      | serverName names => exact absurd he (hno names)
      | other t data => exact hwf
    have hmod := Nat.mod_le (extBytes h.extensions).length 256
    have hloop := getSNBlockLoop_none hmem hnot hin (by simp only [List.length_nil]; omega)
    rw [List.length_nil] at hloop
    rw [hloop, orEmpty_error]

/-- A hello with one cipher suite and no session id. -/
def smallHello (extensions : List Extension) (h1 : (extBytes extensions).length < 65536)
    (h2 : (extensions.map Extension.type).Nodup) (h3 : ∀ e ∈ extensions, e.WellFormed) :
    ClientHello where
  recordVersion := (3, 1)
  version := (3, 3)
  random := List.replicate 32 7
  sessionId := []
  cipherSuites := [(0x13, 1)]
  compression := [0]
  extensions
  random_length := rfl
  sessionId_length := by decide
  cipherSuites_length := by decide
  compression_length := by decide
  extensions_length := h1
  extensions_nodup := h2
  extensions_ok := h3

/-- A server name behind another extension. -/
def namedHello : ClientHello :=
  smallHello [.other 43 [2, 3, 4], .serverName [⟨0, ascii "www.example.com"⟩]]
    (by decide) (by decide) (by decide)

theorem getSNI_complete_named :
    Fits namedHello ∧ getSNI (Slice.ofList namedHello.record []) = some (ascii "www.example.com") := by
  have hf : Fits namedHello := ⟨by decide, by decide⟩
  exact ⟨hf, (getSNI_complete namedHello [] hf).1 [⟨0, ascii "www.example.com"⟩] _ (by decide)
    (by decide)⟩

/-- The same name behind an extension of 256 bytes, as padding or a key share may be. -/
def paddedHello : ClientHello :=
  smallHello [.other 21 (List.replicate 256 0), .serverName [⟨0, ascii "www.example.com"⟩]]
    (by decide +kernel) (by decide) (by decide)

/-- The walk goes on in the middle of the padding, takes it for an empty server_name and
gives up. -/
theorem padded_hello_missed :
    paddedHello.OneRecord ∧
      .serverName [⟨0, ascii "www.example.com"⟩] ∈ paddedHello.extensions ∧
      getSNI (Slice.ofList paddedHello.record []) = some [] := by
  refine ⟨by decide +kernel, by decide, by decide +kernel⟩

end Utils
