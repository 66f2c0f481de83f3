import Tun2Simple.Lib.Ip

/-!
# Hosts with a port as Go's `net` package splits them

`splitHostPort` takes apart `host:port` and `[host]:port`. A host that it returns has no brackets,
and one with a colon stands in brackets; `splitHostPort_plain` and `splitHostPort_brackets` say that
these are the only conditions.
-/

namespace Net

/-- The errors of `SplitHostPort`. -/
inductive SplitError
  | missingPort
  | tooManyColons
  | missingBracket
  | unexpectedOpen
  | unexpectedClose
  deriving DecidableEq, Repr

def SplitError.why : SplitError → String
  | missingPort => "missing port in address"
  | tooManyColons => "too many colons in address"
  | missingBracket => "missing ']' in address"
  | unexpectedOpen => "unexpected '[' in address"
  | unexpectedClose => "unexpected ']' in address"

/-- The place of the last `c`. -/
def lastIndexByte (s : Bytes) (c : UInt8) : Option Nat :=
  (s.reverse.findIdx? (· = c)).map fun j => s.length - 1 - j

def indexByte (s : Bytes) (c : UInt8) : Option Nat := s.findIdx? (· = c)

/-- The end of `SplitHostPort`: no brackets from the places `j` and `k` on; the last colon is at
`i`. -/
def splitRest (hostport host : Bytes) (i j k : Nat) : Except SplitError (Bytes × Bytes) :=
  if 91 ∈ hostport.drop j then .error .unexpectedOpen
  else if 93 ∈ hostport.drop k then .error .unexpectedClose
  else .ok (host, hostport.drop (i + 1))

def splitHostPort (hostport : Bytes) : Except SplitError (Bytes × Bytes) :=
  match lastIndexByte hostport 58 with
  | none => .error .missingPort
  | some i =>
    if hostport.head? = some 91 then
      match indexByte hostport 93 with
      | none => .error .missingBracket
      | some e =>
        if e + 1 = hostport.length then .error .missingPort
        else if e + 1 = i then splitRest hostport ((hostport.take e).drop 1) i 1 (e + 1)
        else if hostport[e + 1]? = some 58 then .error .tooManyColons
        else .error .missingPort
    else if 58 ∈ hostport.take i then .error .tooManyColons
    else splitRest hostport (hostport.take i) i 0 0

example : splitHostPort (ascii "[::1]:80") = .ok (ascii "::1", ascii "80") := by decide

example : splitHostPort (ascii "a:b:80") = .error .tooManyColons := by decide

/-- No colon and no bracket. -/
def Plain (s : Bytes) : Prop := 58 ∉ s ∧ 91 ∉ s ∧ 93 ∉ s

instance (s : Bytes) : Decidable (Plain s) := inferInstanceAs (Decidable (_ ∧ _ ∧ _))

theorem indexByte_append {c : UInt8} {p q : Bytes} (h : c ∉ p) :
    indexByte (p ++ c :: q) c = some p.length := by
  induction p with
  | nil => simp [indexByte, List.findIdx?_cons]
  | cons x p ih =>
    have hx : x ≠ c := fun he => h (he ▸ List.mem_cons_self ..)
    have hp : c ∉ p := fun hm => h (List.mem_cons_of_mem _ hm)
    have := ih hp
    simp only [indexByte] at this
    simp [indexByte, List.findIdx?_cons, hx, this]

theorem indexByte_spec {c : UInt8} {s : Bytes} {i : Nat} (h : indexByte s c = some i) :
    ∃ xs ys, s = xs ++ c :: ys ∧ c ∉ xs ∧ xs.length = i := by
  induction s generalizing i with
  | nil => cases h
  | cons x s ih =>
    by_cases hx : x = c
    · subst hx
      simp only [indexByte, List.findIdx?_cons, decide_true, if_true, Option.some.injEq] at h
      exact ⟨[], s, rfl, by simp, h⟩
    · simp only [indexByte, List.findIdx?_cons, hx, decide_false, Bool.false_eq_true, if_false,
        Option.map_eq_some_iff] at h
      obtain ⟨j, hj, rfl⟩ := h
      obtain ⟨xs, ys, rfl, hc, rfl⟩ := ih hj
      exact ⟨x :: xs, ys, rfl, by simp [Ne.symm hx, hc], rfl⟩

theorem lastIndexByte_append {c : UInt8} {p q : Bytes} (h : c ∉ q) :
    lastIndexByte (p ++ c :: q) c = some p.length := by
  have hr : (p ++ c :: q).reverse = q.reverse ++ c :: p.reverse := by simp
  have := indexByte_append (p := q.reverse) (q := p.reverse) (c := c) (by simpa using h)
  rw [indexByte] at this
  rw [lastIndexByte, hr, this]
  simp only [Option.map_some, List.length_reverse, List.length_append, List.length_cons]
  congr 1
  omega

theorem lastIndexByte_spec {c : UInt8} {s : Bytes} {i : Nat} (h : lastIndexByte s c = some i) :
    ∃ xs ys, s = xs ++ c :: ys ∧ c ∉ ys ∧ xs.length = i := by
  rw [lastIndexByte, Option.map_eq_some_iff] at h
  obtain ⟨j, hj, rfl⟩ := h
  obtain ⟨ys, xs, hs, hc, rfl⟩ := indexByte_spec hj
  refine ⟨xs.reverse, ys.reverse, ?_, by simpa using hc, ?_⟩
  · rw [← List.reverse_reverse s, hs]
    simp
  · have := congrArg List.length hs
    simp only [List.length_reverse, List.length_append, List.length_cons] at this ⊢
    omega

theorem splitRest_eq {hostport host : Bytes} {i j k : Nat} {r : Bytes × Bytes}
    (h : splitRest hostport host i j k = .ok r) :
    91 ∉ hostport.drop j ∧ 93 ∉ hostport.drop k ∧ r = (host, hostport.drop (i + 1)) := by
  unfold splitRest at h
  split at h
  · cases h
  · split at h
    · cases h
    · exact ⟨‹_›, ‹_›, (Except.ok.inj h).symm⟩

theorem drop_append_cons (xs ys : Bytes) (c : UInt8) : (xs ++ c :: ys).drop (xs.length + 1) = ys := by
  rw [List.drop_append, List.drop_eq_nil_of_le (Nat.le_succ _), Nat.add_sub_cancel_left]
  rfl

/-- What `SplitHostPort` accepts, and what it takes out of it. -/
theorem splitHostPort_spec {s host port : Bytes} (h : splitHostPort s = .ok (host, port)) :
    91 ∉ host ∧ 93 ∉ host ∧ Plain port ∧
      (58 ∉ host ∧ s = host ++ 58 :: port ∨ s = 91 :: (host ++ 93 :: 58 :: port)) := by
  unfold splitHostPort at h
  split at h
  case h_1 => cases h
  rename_i i hi
  obtain ⟨xs, ys, rfl, hys, rfl⟩ := lastIndexByte_spec hi
  split at h
  · rename_i hhead
    split at h
    · cases h
    · rename_i e he
      obtain ⟨as, bs, hs, has, rfl⟩ := indexByte_spec he
      split at h
      · cases h
      · split at h
        · -- the bracket closes just before the last colon
          rename_i hlen
          obtain ⟨h91, h93, hr⟩ := splitRest_eq h
          rw [drop_append_cons, hs, List.take_left, Prod.mk.injEq] at hr
          obtain ⟨rfl, rfl⟩ := hr
          have hxs : xs = as ++ [93] := by
            have htake := congrArg (List.take xs.length) hs
            rw [List.take_left, ← hlen, List.take_append, List.take_of_length_le (Nat.le_succ _),
              Nat.add_sub_cancel_left] at htake
            simpa using htake
          subst hxs
          obtain ⟨as', rfl⟩ : ∃ as', as = 91 :: as' := by
            cases as with
            | nil => simp at hhead
            | cons a as' => exact ⟨as', by simp at hhead; rw [hhead]⟩
          simp only [List.cons_append, List.drop_succ_cons, List.drop_zero, List.mem_cons,
            List.append_assoc, List.mem_append, List.nil_append, not_or] at h91 has ⊢
          have hclose : 91 :: as' ++ [93] ++ 58 :: port = (91 :: as') ++ 93 :: (58 :: port) := by simp
          rw [hclose, drop_append_cons] at h93
          exact ⟨h91.1, has.2, ⟨hys, h91.2.2.2, fun hp => h93 (List.mem_cons_of_mem _ hp)⟩, .inr trivial⟩
        · split at h <;> cases h
  · rw [List.take_left] at h
    split at h
    · cases h
    · rename_i h58
      obtain ⟨h91, h93, hr⟩ := splitRest_eq h
      rw [drop_append_cons, Prod.mk.injEq] at hr
      obtain ⟨rfl, rfl⟩ := hr
      simp only [List.drop_zero, List.mem_append, List.mem_cons, not_or] at h91 h93
      exact ⟨h91.1, h93.1, ⟨hys, h91.2.2, h93.2.2⟩, .inl ⟨h58, rfl⟩⟩

/-- A plain host is given back. -/
theorem splitHostPort_plain {host port : Bytes} (hh : Plain host) (hp : Plain port) :
    splitHostPort (host ++ 58 :: port) = .ok (host, port) := by
  have hhead : (host ++ 58 :: port).head? ≠ some 91 := by
    cases host with
    | nil => simp
    | cons x xs =>
      intro he
      exact hh.2.1 (Option.some.inj he ▸ List.mem_cons_self ..)
  have h91 : 91 ∉ (host ++ 58 :: port).drop 0 := by simp [hh.2.1, hp.2.1]
  have h93 : 93 ∉ (host ++ 58 :: port).drop 0 := by simp [hh.2.2, hp.2.2]
  rw [splitHostPort, lastIndexByte_append hp.1]
  simp only
  rw [if_neg hhead, List.take_left, if_neg hh.1, splitRest, if_neg h91, if_neg h93, drop_append_cons]

/-- So is one in brackets. -/
theorem splitHostPort_brackets {host port : Bytes} (h91 : 91 ∉ host) (h93 : 93 ∉ host)
    (hp : Plain port) : splitHostPort (91 :: (host ++ 93 :: 58 :: port)) = .ok (host, port) := by
  have hlast : lastIndexByte (91 :: (host ++ 93 :: 58 :: port)) 58 = some (host.length + 2) := by
    have := lastIndexByte_append (p := 91 :: (host ++ [93])) hp.1
    simpa using this
  have hindex : indexByte (91 :: (host ++ 93 :: 58 :: port)) 93 = some (host.length + 1) := by
    have := indexByte_append (c := 93) (p := 91 :: host) (q := 58 :: port) (by simp [h93])
    simpa using this
  have hlen : (91 :: (host ++ 93 :: 58 :: port)).length = host.length + 3 + port.length := by
    simp only [List.length_cons, List.length_append]
    omega
  have htake : (91 :: (host ++ 93 :: 58 :: port)).take (host.length + 1) = 91 :: host := by simp
  have hdrop : (91 :: (host ++ 93 :: 58 :: port)).drop (host.length + 2 + 1) = port := by
    simp
  have hdrop' : (91 :: (host ++ 93 :: 58 :: port)).drop (host.length + 1 + 1) = 58 :: port := by
    simp
  rw [splitHostPort, hlast]
  simp only [List.head?_cons, if_true, hindex]
  rw [if_neg (by omega), htake, splitRest, if_neg, if_neg, hdrop]
  · rfl
  · rw [hdrop']
    simp [hp.2.2]
  · simp [h91, hp.2.1]

end Net
