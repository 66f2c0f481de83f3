import Mathlib.Algebra.Group.Nat.Defs
import Tun2Simple.Stack.Sniff

/-!
# When a host is sniffed

The counter of a port is the number of all packets ever sent from it (`counter_eq`), whatever their
connection.
-/

namespace Stack

open Net Trans

section
variable {matchString : Bytes → Bytes → Option Bool} {parseHost : Bytes → Option Bytes}

theorem flow_eq_some {p : Packet} {f : Flow} (h : p.flow = some f) :
    ∃ ip4 tcp, p = ⟨some ip4, some tcp⟩ ∧ tcp.srcPort = f.srcPort := by
  obtain ⟨_ | ip4, _ | tcp⟩ := p <;> simp only [Packet.flow, Option.some.injEq, reduceCtorEq] at h
  subst h
  exact ⟨ip4, tcp, rfl, rfl⟩

/-- A packet of a connection is parsed by its place among those of its port. -/
theorem mem_parsed_iff {s1 : StackV1} {p : Packet} {f : Flow} (hf : p.flow = some f) :
    p.payload ∈ (writeToStack matchString parseHost s1 p).parsed ↔
      (s1.counter f.srcPort.toNat + 1 = 3 ∨ s1.counter f.srcPort.toNat + 1 = 4) ∧
        p.payload.length > 10 := by
  obtain ⟨ip4, tcp, rfl, hport⟩ := flow_eq_some hf
  have hpay : Packet.payload ⟨some ip4, some tcp⟩ = tcp.payload := rfl
  rw [← hport, hpay]
  simp only [writeToStack, Function.update_self]
  split
  · rename_i hc
    cases parseHost tcp.payload <;> simpa using hc
  · rename_i hc
    simpa using hc

theorem deliver_flow {s1 s1' : StackV1} {p : Packet} {f : Flow} (hf : p.flow = some f)
    (h : deliver matchString parseHost s1 p = some s1') :
    s1'.counter =
      Function.update s1.counter f.srcPort.toNat (s1.counter f.srcPort.toNat + 1) := by
  obtain ⟨ip4, tcp, rfl, hport⟩ := flow_eq_some hf
  rw [← hport]
  simp only [deliver, writeToStack] at h
  split at h
  · cases hp : parseHost tcp.payload with
    | none => simp [hp] at h
    | some host =>
      simp only [hp, Option.some.injEq] at h
      rw [← h]
  · rw [← Option.some.inj h]

theorem deliver_no_flow {s1 s1' : StackV1} {p : Packet} (hf : p.flow = none)
    (h : deliver matchString parseHost s1 p = some s1') : s1' = s1 := by
  obtain ⟨_ | ip4, _ | tcp⟩ := p
  · exact (Option.some.inj h).symm
  · exact (Option.some.inj h).symm
  · exact (Option.some.inj h).symm
  · cases hf

/-- A packet counts for its own port only. -/
theorem deliver_counter {s1 s1' : StackV1} {p : Packet}
    (h : deliver matchString parseHost s1 p = some s1') (port : UInt16) :
    s1'.counter port.toNat = s1.counter port.toNat + BitVec.ofNat 64 (portCount port [p]) := by
  cases hf : p.flow with
  | none =>
    rw [deliver_no_flow hf h]
    simp [portCount, hf]
  | some f =>
    rw [deliver_flow hf h]
    by_cases hport : f.srcPort = port
    · simp [portCount, hf, hport]
    · have hne : port.toNat ≠ f.srcPort.toNat := fun e => hport (UInt16.toNat_inj.1 e.symm)
      rw [Function.update_of_ne hne]
      simp [portCount, hf, hport]

theorem counter_eq {rule : Rule} {tr : List (StackV1 × Packet)} {s1 : StackV1}
    (h : Run (deliver matchString parseHost) (newStackV1 rule) tr s1) (port : UInt16) :
    s1.counter port.toNat = BitVec.ofNat 64 (portCount port (tr.map Prod.snd)) := by
  induction h with
  | nil => rfl
  | snoc _ hd ih =>
    rw [deliver_counter hd, ih, List.map_append, portCount, portCount, portCount,
      List.countP_append, BitVec.ofNat_add]
    rfl

end

theorem ofNat_add_one_eq {c k : Nat} (hk : k < 2 ^ 64) :
    BitVec.ofNat 64 c + 1 = BitVec.ofNat 64 k ↔ (c + 1) % 2 ^ 64 = k := by
  rw [show (1 : BitVec 64) = BitVec.ofNat 64 1 from rfl, ← BitVec.ofNat_add, ← BitVec.toNat_inj,
    BitVec.toNat_ofNat, BitVec.toNat_ofNat, Nat.mod_eq_of_lt hk]

theorem portCount_append (port : UInt16) (ps qs : List Packet) :
    portCount port (ps ++ qs) = portCount port ps + portCount port qs := List.countP_append

theorem portCount_eq (f : Flow) (ps : List Packet) :
    portCount f.srcPort ps = flowCount f ps + othersCount f ps := by
  induction ps with
  | nil => rfl
  | cons p ps ih =>
    simp only [portCount, flowCount, othersCount, List.countP_cons] at ih ⊢
    rw [ih]
    by_cases hf : p.flow = some f
    · simp [hf]; omega
    · simp [hf]; omega

/-- A segment's place among all the packets of its port. -/
theorem portCount_place {f : Flow} {earlier during : List Packet} {syn p : Packet}
    (h : FirstData f syn during p) :
    portCount f.srcPort (earlier ++ syn :: during) + 1 =
      place f syn during p + interference f earlier during := by
  have hsyn : portCount f.srcPort [syn] = 1 := by simp [portCount, h.syn_flow]
  have hplace : place f syn during p = flowCount f during + 2 := by
    simp [place, flowCount, h.syn_flow, h.flow]
  have hport := portCount_eq f during
  rw [← List.singleton_append, portCount_append, portCount_append, hsyn, hplace, interference]
  omega

/-- **Sniffing goes by the port.** After any packets, take the first data segment of a connection,
of more than 10 bytes and the third or fourth packet on it. It is given to `ParseHost` iff no other
packet came from its port, or one and the segment is the third (modulo the width of the counter). -/
theorem sniffed_iff (matchString : Bytes → Bytes → Option Bool) (parseHost : Bytes → Option Bytes)
    (rule : Rule) {tr : List (StackV1 × Packet)} {s1 : StackV1} {f : Flow}
    (earlier during : List Packet) {syn p : Packet}
    (hr : Run (deliver matchString parseHost) (newStackV1 rule) tr s1)
    (htr : tr.map Prod.snd = earlier ++ syn :: during) (hp : FirstData f syn during p)
    (hn : place f syn during p = 3 ∨ place f syn during p = 4) :
    p.payload ∈ (writeToStack matchString parseHost s1 p).parsed ↔
      interference f earlier during % 2 ^ 64 = 0 ∨
      interference f earlier during % 2 ^ 64 = 1 ∧ place f syn during p = 3 ∨
      interference f earlier during % 2 ^ 64 = 2 ^ 64 - 1 ∧ place f syn during p = 4 := by
  rw [mem_parsed_iff hp.flow, counter_eq hr, htr,
    show (3 : BitVec 64) = BitVec.ofNat 64 3 from rfl,
    show (4 : BitVec 64) = BitVec.ofNat 64 4 from rfl,
    ofNat_add_one_eq (by decide), ofNat_add_one_eq (by decide), portCount_place hp]
  simp only [hp.data, and_true]
  omega

/-- A packet of the app from port 40000 to port 22 of `dst`. -/
def appPacket (dst : UInt8) (syn : Bool) (payload : Bytes) : Packet :=
  ⟨some ⟨[10, 0, 0, 2], [1, 1, 1, dst]⟩, some ⟨40000, 22, syn, !syn, payload⟩⟩

def appFlow (dst : UInt8) : Flow := ⟨[10, 0, 0, 2], 40000, [1, 1, 1, dst], 22⟩

theorem appPacket_firstData (dst : UInt8) :
    FirstData (appFlow dst) (appPacket dst true []) [appPacket dst false []]
      (appPacket dst false (ascii "ssh-2.0-client")) where
  syn_flow := rfl
  syn_isSyn := rfl
  syn_payload := rfl
  no_data := by simp [appPacket, Packet.payload]
  flow := rfl
  not_syn := rfl
  data := by
    change 10 < (ascii "ssh-2.0-client").length
    decide

/-- The first connection of a port. -/
theorem sniffed_iff_first :
    ∃ tr s1, Run (deliver (fun _ _ => some false) fun _ => some []) (newStackV1 newRule) tr s1 ∧
      ascii "ssh-2.0-client" ∈ (writeToStack (fun _ _ => some false) (fun _ => some []) s1
        (appPacket 1 false (ascii "ssh-2.0-client"))).parsed := by
  obtain ⟨s1, hr, -⟩ := exists_run (deliver (fun _ _ => some false) fun _ => some [])
    (newStackV1 newRule) [appPacket 1 true [], appPacket 1 false []]
    (fun _ => true) rfl
  have hp := sniffed_iff _ _ newRule [] _ hr rfl (appPacket_firstData 1) (.inl rfl)
  exact ⟨_, s1, hr, hp.2 (.inl rfl)⟩

/-- A connection to another address from a port that has sent three packets. -/
theorem second_connection_missed :
    ∃ tr s1, Run (deliver (fun _ _ => some false) fun _ => some []) (newStackV1 newRule) tr s1 ∧
      tr.map Prod.snd = [appPacket 1 true [], appPacket 1 false [], appPacket 1 false []] ++
        appPacket 2 true [] :: [appPacket 2 false []] ∧
      FirstData (appFlow 2) (appPacket 2 true []) [appPacket 2 false []]
        (appPacket 2 false (ascii "ssh-2.0-client")) ∧
      place (appFlow 2) (appPacket 2 true []) [appPacket 2 false []]
        (appPacket 2 false (ascii "ssh-2.0-client")) = 3 ∧
      (writeToStack (fun _ _ => some false) (fun _ => some []) s1
        (appPacket 2 false (ascii "ssh-2.0-client"))).parsed = [] := by
  obtain ⟨s1, hr, hp⟩ := exists_run (deliver (fun _ _ => some false) fun _ => some [])
    (newStackV1 newRule)
    [appPacket 1 true [], appPacket 1 false [], appPacket 1 false [], appPacket 2 true [],
      appPacket 2 false []]
    (fun s1 => (writeToStack (fun _ _ => some false) (fun _ => some []) s1
      (appPacket 2 false (ascii "ssh-2.0-client"))).parsed = []) (by decide)
  exact ⟨_, s1, hr, rfl, appPacket_firstData 2, rfl, by simpa using hp⟩

end Stack
