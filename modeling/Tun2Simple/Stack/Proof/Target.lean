import Tun2Simple.Stack.Target
import Tun2Simple.Stack.Proof.Cache

/-!
# When the targets are well formed

`Handle` glues the cached domain to the port with a colon, so the address splits into the two
exactly if the domain has no colon and no brackets (`split_target`). `targets_split_iff`: the
targets are well formed in every state of a run exactly if no packet brings a host with one of these
into the cache, as an HTTP `Host` with a port does.
-/

namespace Stack

open Net Go Trans

/-- A digit as a byte. -/
theorem digit_byte {c : Char} (h : c.isDigit = true) :
    48 ≤ UInt8.ofNat c.toNat ∧ UInt8.ofNat c.toNat ≤ 57 := by
  rw [Char.isDigit_iff_toNat] at h
  obtain ⟨h1, h2⟩ := h
  have h1' : 48 ≤ c.toNat := h1
  have h2' : c.toNat ≤ 57 := h2
  rw [UInt8.le_iff_toNat_le, UInt8.le_iff_toNat_le, UInt8.toNat_ofNat', Nat.mod_eq_of_lt (by omega)]
  exact ⟨h1', h2'⟩

/-- The bytes of a number: digits and a sign. -/
theorem mem_itoa {n : Int} {b : UInt8} (h : b ∈ itoa n) : b = 45 ∨ (48 ≤ b ∧ b ≤ 57) := by
  rw [itoa, ascii, List.mem_map] at h
  obtain ⟨c, hc, rfl⟩ := h
  have digits : ∀ m : Nat, c ∈ m.repr.toList → 48 ≤ UInt8.ofNat c.toNat ∧ UInt8.ofNat c.toNat ≤ 57 := by
    intro m hm
    rw [Nat.toList_repr] at hm
    exact digit_byte (Nat.isDigit_of_mem_toDigits (by decide) (by decide) hm)
  cases n with
  | ofNat m => exact .inr (digits m hc)
  | negSucc m =>
    have hc' : c ∈ ("-" ++ (m + 1).repr).toList := hc
    rw [String.toList_append, List.mem_append] at hc'
    rcases hc' with hc' | hc'
    · left
      obtain rfl : c = '-' := by simpa using hc'
      rfl
    · exact .inr (digits _ hc')

theorem plain_itoa (n : Int) : Plain (itoa n) := by
  have : ∀ b : UInt8, ¬ (b = 45 ∨ (48 ≤ b ∧ b ≤ 57)) → b ∉ itoa n := fun b hb h => hb (mem_itoa h)
  exact ⟨this 58 (by decide), this 91 (by decide), this 93 (by decide)⟩

section
variable {matchString : Bytes → Bytes → Option Bool} {readRequest : Bytes → Option Bytes}

/-- The address of `Handle` for a cached domain. -/
theorem split_target {domain : Bytes} (port : Int) :
    splitHostPort (domain ++ [58] ++ itoa port) = .ok (domain, itoa port) ↔ Plain domain := by
  have hcons : domain ++ [58] ++ itoa port = domain ++ 58 :: itoa port := by simp
  rw [hcons]
  constructor
  · intro h
    obtain ⟨h91, h93, -, ⟨h58, -⟩ | hs⟩ := splitHostPort_spec h
    · exact ⟨h58, h91, h93⟩
    · have := congrArg List.length hs
      simp only [List.length_append, List.length_cons] at this
      omega
  · exact fun h => splitHostPort_plain h (plain_itoa port)

theorem handle_cached {rule : Rule} {ips : IpRules} {dialled : Bool} {target : TCPAddr} {domain : Bytes}
    (h : rule.ipToDomain.lookup (string target.ip) = some domain) (hne : domain ≠ []) :
    ((⟨rule, ips⟩ : Rules).handle dialled target).head? =
      some (.setupSimpleConn (domain ++ [58] ++ itoa target.port)) := by
  have hm : (⟨rule, ips⟩ : Rules).matched target = some (domain ++ [58] ++ itoa target.port) := by
    unfold Rules.matched
    simp only [needProxy_of_lookup h]
    rw [if_pos (List.length_pos_iff.2 hne)]
  rw [Rules.handle, hm]
  rfl

/-- Every cached domain can be joined with a port. -/
def PlainCache (rule : Rule) : Prop :=
  ∀ ip domain, rule.ipToDomain.lookup ip = some domain → domain ≠ [] ∧ Plain domain

theorem PlainCache.split {rule : Rule} (h : PlainCache rule) : TargetsSplit rule := by
  intro ips dialled target domain hl
  obtain ⟨hne, hp⟩ := h _ _ hl
  exact ⟨_, handle_cached hl hne, (split_target target.port).2 hp⟩

/-- The host that `WriteToStack` finds in a packet and its destination: the payload of the third or
the fourth packet of the port, if it is longer than ten bytes. -/
def Found (readRequest : Bytes → Option Bytes) (s1 : StackV1) (packet : Packet) (behind : Bytes)
    (host : Bytes) (dstIP : IP) : Prop :=
  ∃ ip4 tcp, packet.ip4 = some ip4 ∧ packet.tcp = some tcp ∧
    (s1.counter tcp.srcPort.toNat + 1 = 3 ∨ s1.counter tcp.srcPort.toNat + 1 = 4) ∧
    tcp.payload.length > 10 ∧ hostOf readRequest behind tcp.payload = some host ∧ dstIP = ip4.dstIP

/-- A host that the packet brings into the cache (it is not empty, a rule matches it and there is no
entry for the destination) has no colon and no brackets. -/
def PlainHost (matchString : Bytes → Bytes → Option Bool) (readRequest : Bytes → Option Bytes)
    (s1 : StackV1) : TargetOp → Prop
  | .setup _ => True
  | .writeToStack packet behind => ∀ host dstIP, Found readRequest s1 packet behind host dstIP →
      host ≠ [] → s1.rule.isMatched matchString (host ++ [46]) = true →
      s1.rule.ipToDomain.lookup (string dstIP) = none → Plain host

/-- What a packet does to the cache. -/
theorem deliver_rule {s1 s1' : StackV1} {packet : Packet} {behind : Bytes}
    (h : deliver matchString (hostOf readRequest behind) s1 packet = some s1') :
    (s1'.rule = s1.rule ∧ ∀ host dstIP, ¬ Found readRequest s1 packet behind host dstIP) ∨
      ∃ host dstIP, Found readRequest s1 packet behind host dstIP ∧
        s1'.rule = foundHost matchString s1.rule host dstIP ∧
        ∀ host' dstIP', Found readRequest s1 packet behind host' dstIP' → host' = host ∧ dstIP' = dstIP := by
  unfold deliver writeToStack at h
  split at h
  · rename_i h4
    cases h
    exact .inl ⟨rfl, fun _ _ ⟨ip4, _, hf, _⟩ => by rw [h4] at hf; cases hf⟩
  · rename_i ht
    cases h
    exact .inl ⟨rfl, fun _ _ ⟨_, tcp, _, hf, _⟩ => by rw [ht] at hf; cases hf⟩
  · rename_i ip4 tcp h4 ht
    simp only [Function.update_self] at h
    split at h
    · rename_i hc
      cases hp : hostOf readRequest behind tcp.payload with
      | none => simp [hp] at h
      | some host =>
        simp only [hp, Option.some.injEq] at h
        subst h
        refine .inr ⟨host, ip4.dstIP, ⟨ip4, tcp, h4, ht, hc.1, hc.2, hp, rfl⟩, rfl, ?_⟩
        rintro host' dstIP' ⟨ip4', tcp', h4', ht', -, -, hp', rfl⟩
        cases h4.symm.trans h4'
        cases ht.symm.trans ht'
        exact ⟨Option.some.inj (hp'.symm.trans hp), rfl⟩
    · rename_i hc
      simp only [Option.some.injEq] at h
      subst h
      refine .inl ⟨rfl, ?_⟩
      rintro host dstIP ⟨ip4', tcp', h4', ht', hcnt, hlen, -, -⟩
      cases h4.symm.trans h4'
      cases ht.symm.trans ht'
      exact hc ⟨hcnt, hlen⟩

theorem plain_snoc {host : Bytes} : Plain (host ++ [46]) ↔ Plain host := by simp [Plain]

/-- A step that brings no such host into the cache keeps it plain. -/
theorem plainCache_step {s1 s1' : StackV1} {op : TargetOp} (h : PlainCache s1.rule)
    (hc : PlainHost matchString readRequest s1 op)
    (hs : targetStep matchString readRequest s1 op = some s1') : PlainCache s1'.rule := by
  cases op with
  | setup s =>
    cases hs
    exact h
  | writeToStack packet behind =>
    rcases deliver_rule hs with ⟨hr, -⟩ | ⟨host, dstIP, hf, hr, -⟩
    · rw [hr]
      exact h
    · rw [hr]
      intro ip domain hl
      unfold foundHost at hl
      split at hl
      · rename_i hpos
        rcases lookup_directIPAndHost hl with hl | ⟨hnone, rfl, rfl, hm⟩
        · exact h ip domain hl
        · refine ⟨by simp, plain_snoc.2 (hc host dstIP hf ?_ hm hnone)⟩
          exact List.length_pos_iff.1 hpos
      · exact h ip domain hl

/-- One that does not spoils the target of its destination. -/
theorem not_split_of_found {s1 s1' : StackV1} {op : TargetOp}
    (hc : ¬ PlainHost matchString readRequest s1 op)
    (hs : targetStep matchString readRequest s1 op = some s1') : ¬ TargetsSplit s1'.rule := by
  cases op with
  | setup s => exact absurd trivial hc
  | writeToStack packet behind =>
    simp only [PlainHost, not_forall] at hc
    obtain ⟨host, dstIP, hf, hne, hm, hnone, hbad⟩ := hc
    rcases deliver_rule hs with ⟨-, hno⟩ | ⟨host', dstIP', -, hr, hu⟩
    · exact absurd hf (hno host dstIP)
    obtain ⟨rfl, rfl⟩ := hu host dstIP hf
    have hl : s1'.rule.ipToDomain.lookup (string dstIP) = some (host ++ [46]) := by
      rw [hr, foundHost, if_pos (List.length_pos_iff.2 hne), Rule.directIPAndHost]
      simp only [hnone, hm, if_true]
      exact AList.lookup_insert _
    intro hsplit
    obtain ⟨addr, hhead, hok⟩ := hsplit newIpRules true ⟨dstIP, 443, []⟩ _ hl
    rw [handle_cached hl (by simp)] at hhead
    cases hhead
    exact hbad (plain_snoc.1 ((split_target 443).1 hok))

end

/-- **Well-formed targets.** From the start of the process, in every state of a sequence of `Setup`s
and packets the address that `Handle` gives to the proxy for a cached target splits into the cached
domain and the target's port, exactly if no packet brings a host with a colon or a bracket into the
cache. -/
theorem targets_split_iff (matchString : Bytes → Bytes → Option Bool) (readRequest : Bytes → Option Bytes)
    {tr : List (StackV1 × TargetOp)} {s1 : StackV1}
    (hr : Run (targetStep matchString readRequest) (newStackV1 newRule) tr s1) :
    (∀ t ∈ visited tr s1, TargetsSplit t.rule) ↔ Meets (PlainHost matchString readRequest) tr := by
  refine hr.visited_iff (I := fun t => PlainCache t.rule) ?_ ?_ ?_ ?_
  · intro ip domain hl
    cases hl
  · exact fun _ _ _ _ _ h hc hs => plainCache_step h hc hs
  · exact fun _ _ _ h => h.split
  · exact fun _ _ _ _ _ hc hs => not_split_of_found hc hs

/-- `net/http.ReadRequest` for a request with a `Host` field: the text of the field. -/
def readHost (request : Bytes) : Option Bytes :=
  (request.tails.find? fun t => (ascii "\r\nHost: ").isPrefixOf t).map fun t =>
    (t.drop 8).takeWhile (· ≠ 13)

/-- A packet of a browser to 93.184.216.34. -/
def httpPacket (payload : Bytes) : Packet :=
  ⟨some ⟨[10, 0, 0, 2], [93, 184, 216, 34]⟩, some ⟨40000, 8080, false, true, payload⟩⟩

def httpRequest (host : Bytes) : Bytes :=
  ascii "GET / HTTP/1.1" ++ ascii "\r\nHost: " ++ host ++ ascii "\r\n\r\n"

/-- A rule, and a browser's first three packets. -/
def httpOps (host : Bytes) : List TargetOp :=
  [.setup (ascii "example"), .writeToStack (httpPacket []) [], .writeToStack (httpPacket []) [],
    .writeToStack (httpPacket (httpRequest host)) []]

def httpTarget : TCPAddr := ⟨[93, 184, 216, 34], 8080, []⟩

/-- A request for a host without a port. -/
theorem targets_split_iff_http :
    ∃ tr s1, Run (targetStep matchLiteral readHost) (newStackV1 newRule) tr s1 ∧
      s1.rule.needProxy (string httpTarget.ip) = ascii "example.com." ∧
      ((∀ t ∈ visited tr s1, TargetsSplit t.rule) ↔ Meets (PlainHost matchLiteral readHost) tr) := by
  obtain ⟨s1, hr, hd⟩ := exists_run (targetStep matchLiteral readHost) (newStackV1 newRule)
    (httpOps (ascii "example.com"))
    (fun s1 => s1.rule.needProxy (string httpTarget.ip) = ascii "example.com.") (by decide +kernel)
  exact ⟨_, s1, hr, by simpa using hd, targets_split_iff _ _ hr⟩

/-- A request for a host with a port: the proxy is asked for `example.com:8080.:8080`, which
`net.SplitHostPort` rejects. -/
theorem host_with_port_spoils :
    ∃ tr s1, Run (targetStep matchLiteral readHost) (newStackV1 newRule) tr s1 ∧
      s1.rule.ipToDomain.lookup (string httpTarget.ip) = some (ascii "example.com:8080.") ∧
      ((⟨s1.rule, newIpRules⟩ : Rules).handle true httpTarget).head? =
        some (.setupSimpleConn (ascii "example.com:8080.:8080")) ∧
      splitHostPort (ascii "example.com:8080.:8080") = .error .tooManyColons ∧
      ¬ TargetsSplit s1.rule := by
  obtain ⟨s1, hr, hd⟩ := exists_run (targetStep matchLiteral readHost) (newStackV1 newRule)
    (httpOps (ascii "example.com:8080"))
    (fun s1 => s1.rule.ipToDomain.lookup (string httpTarget.ip) = some (ascii "example.com:8080."))
    (by decide +kernel)
  have hl : s1.rule.ipToDomain.lookup (string httpTarget.ip) = some (ascii "example.com:8080.") := by
    simpa using hd
  have hhead : ∀ ips : IpRules, ((⟨s1.rule, ips⟩ : Rules).handle true httpTarget).head? =
      some (.setupSimpleConn (ascii "example.com:8080.:8080")) := by
    intro ips
    rw [handle_cached hl (by decide)]
    decide +kernel
  have herr : splitHostPort (ascii "example.com:8080.:8080") = .error .tooManyColons := by
    decide +kernel
  refine ⟨_, s1, hr, hl, hhead _, herr, fun h => ?_⟩
  obtain ⟨addr, ha, hok⟩ := h newIpRules true httpTarget _ hl
  rw [hhead] at ha
  cases ha
  rw [herr] at hok
  cases hok

end Stack
