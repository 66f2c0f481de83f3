import Tun2Simple.Stack.Proof.Handle

/-!
# The cache and the rules

`DirectIPAndHost` and `ParseDns` put only domains into the cache that the rules match
(`lookup_directIPAndHost`, `lookup_parseDns`), but `Setup` replaces the rules and leaves the cache.
So every domain that `NeedProxy` returns is matched by the current rules exactly as long as each
`Setup` loads rules that match what is cached (`cache_matched_iff`).
-/

namespace Stack

open Net

section
variable {matchString : Bytes → Bytes → Option Bool} {r : Rule} {ip d : Bytes}

/-- What is in the cache after `DirectIPAndHost`. -/
theorem lookup_directIPAndHost {host ip' : Bytes}
    (h : (r.directIPAndHost matchString host ip').ipToDomain.lookup ip = some d) :
    r.ipToDomain.lookup ip = some d ∨
      (r.ipToDomain.lookup ip = none ∧ ip = ip' ∧ d = host ∧ r.isMatched matchString host = true) := by
  unfold Rule.directIPAndHost at h
  split at h
  · exact .inl h
  · rename_i hnone
    split at h
    · rename_i hm
      by_cases hip : ip = ip'
      · subst hip
        rw [AList.lookup_insert, Option.some.injEq] at h
        exact .inr ⟨hnone, rfl, h.symm, hm⟩
      · rw [AList.lookup_insert_ne hip] at h
        exact .inl h
    · exact .inl h

/-- What is in a cache after a fold each of whose steps leaves it or puts `d` under a key. -/
theorem lookup_foldl {f : StrMap Bytes → Body → StrMap Bytes} {answers : List Body}
    {cache : StrMap Bytes} {e : Bytes} (hf : ∀ cache x, f cache x = cache ∨ ∃ k, f cache x = cache.insert k d)
    (h : (answers.foldl f cache).lookup ip = some e) : cache.lookup ip = some e ∨ e = d := by
  induction answers generalizing cache with
  | nil => exact .inl h
  | cons answer answers ih =>
    rcases ih h with h | h
    · rcases hf cache answer with hx | ⟨k, hx⟩
      · rw [hx] at h
        exact .inl h
      · rw [hx] at h
        by_cases hip : ip = k
        · rw [hip, AList.lookup_insert, Option.some.injEq] at h
          exact .inr h.symm
        · rw [AList.lookup_insert_ne hip] at h
          exact .inl h
    · exact .inr h

/-- What is in the cache after `ParseDns`. -/
theorem lookup_parseDns {msg : Message}
    (h : (r.parseDns matchString msg).ipToDomain.lookup ip = some d) :
    r.ipToDomain.lookup ip = some d ∨ (d ≠ [] ∧ r.isMatched matchString d = true) := by
  unfold Rule.parseDns at h
  simp only at h
  split at h
  · exact .inl h
  · rename_i hne
    cases hf : msg.questions.find? fun domain => r.isMatched matchString domain with
    | none => simp [hf] at hne
    | some domain =>
      have hm : r.isMatched matchString domain = true := List.find?_some (p := fun x => _) hf
      rw [hf, Option.getD_some] at hne h
      have hne' : domain ≠ [] := fun he => hne (by rw [he]; rfl)
      have key := lookup_foldl (d := domain) (fun cache answer => by
        cases answer with
        | other => exact .inl rfl
        | aResource a b c e => exact .inr ⟨_, rfl⟩) h
      rcases key with h | rfl
      · exact .inl h
      · exact .inr ⟨hne', hm⟩

end

theorem rulesAfter_snoc (matchString : Bytes → Bytes → Option Bool) (ops : List Op) (op : Op) :
    rulesAfter matchString (ops ++ [op]) = (rulesAfter matchString ops).step matchString op := by
  rw [rulesAfter, List.foldl_append]
  rfl

section
variable (matchString : Bytes → Bytes → Option Bool)

/-- The rules match every domain that `NeedProxy` returns. -/
def CacheMatched (r : Rule) : Prop :=
  ∀ ip, r.needProxy ip ≠ [] → r.isMatched matchString (r.needProxy ip) = true

/-- Every domain in the cache is matched by one of the rule lines of the text. -/
def MatchesCached (cache : StrMap Bytes) (s : Bytes) : Prop :=
  ∀ ip, ∀ d ∈ cache.lookup ip, d ≠ [] → ∃ re ∈ parseRule s, matchString re d = some true

variable {matchString}

theorem needProxy_eq {r : Rule} {ip : Bytes} (h : r.needProxy ip ≠ []) :
    r.ipToDomain.lookup ip = some (r.needProxy ip) := by
  unfold Rule.needProxy at h ⊢
  cases hl : r.ipToDomain.lookup ip with
  | none => rw [hl] at h; exact absurd rfl h
  | some d => rfl

theorem needProxy_of_lookup {r : Rule} {ip d : Bytes} (h : r.ipToDomain.lookup ip = some d) :
    r.needProxy ip = d := by
  rw [Rule.needProxy, h]
  rfl

/-- What `Setup` needs for the new rules to hold of the cache, which it keeps. -/
theorem cacheMatched_setup {r : Rule} {s : Bytes} :
    CacheMatched matchString (r.setup s) ↔ MatchesCached matchString r.ipToDomain s := by
  have hm : ∀ d, (r.setup s).isMatched matchString d = true ↔
      ∃ re ∈ parseRule s, matchString re d = some true := fun d => by
    simp only [Rule.isMatched, Rule.setup, List.any_eq_true, decide_eq_true_eq]
  constructor
  · intro h ip d hl hne
    have hd : (r.setup s).needProxy ip = d := needProxy_of_lookup hl
    rw [← hm, ← hd]
    exact h ip (hd ▸ hne)
  · intro h ip hne
    exact (hm _).2 (h ip _ (needProxy_eq hne) hne)

/-- A call that keeps the rules keeps their hold on the cache, if what it puts there is matched. -/
theorem CacheMatched.keep {r r' : Rule} (h : CacheMatched matchString r)
    (hm : r'.matcher = r.matcher)
    (hl : ∀ ip d, r'.ipToDomain.lookup ip = some d →
      r.ipToDomain.lookup ip = some d ∨ r.isMatched matchString d = true) :
    CacheMatched matchString r' := by
  intro ip hne
  have hsame : ∀ d, r'.isMatched matchString d = r.isMatched matchString d := by
    intro d
    rw [Rule.isMatched, hm, Rule.isMatched]
  rw [hsame]
  rcases hl ip _ (needProxy_eq hne) with hold | hnew
  · have heq := needProxy_of_lookup hold
    have := h ip (heq ▸ hne)
    rwa [heq] at this
  · exact hnew

theorem matcher_directIPAndHost (r : Rule) (host ip : Bytes) :
    (r.directIPAndHost matchString host ip).matcher = r.matcher := by
  unfold Rule.directIPAndHost
  split
  · rfl
  · split <;> rfl

theorem matcher_parseDns (r : Rule) (msg : Message) :
    (r.parseDns matchString msg).matcher = r.matcher := by
  unfold Rule.parseDns
  simp only
  split <;> rfl

/-- A `Setup` is the only call that can lose it. -/
theorem cacheMatched_step {rs : Rules} {op : Op} (h : CacheMatched matchString rs.rule)
    (hs : ∀ s, op = .setup s → MatchesCached matchString rs.rule.ipToDomain s) :
    CacheMatched matchString (rs.step matchString op).rule := by
  cases op with
  | setGlobal g => exact h
  | loadInners t => exact h
  | loadMustHits t => exact h
  | setup s => exact cacheMatched_setup.2 (hs s rfl)
  | directIPAndHost host ip =>
    refine h.keep (matcher_directIPAndHost ..) fun ip d hl => ?_
    rcases lookup_directIPAndHost hl with hl | ⟨-, -, rfl, hm⟩
    · exact .inl hl
    · exact .inr hm
  | parseDns msg =>
    refine h.keep (matcher_parseDns ..) fun ip d hl => ?_
    rcases lookup_parseDns hl with hl | ⟨-, hm⟩
    · exact .inl hl
    · exact .inr hm

end

/-- **The cache and the current rules.** In every state of a sequence of calls the rules of the
latest `Setup` match what `NeedProxy` returns, exactly if each `Setup` loads rules of which one matches
each domain that is in the cache then. -/
theorem cache_matched_iff (matchString : Bytes → Bytes → Option Bool) (ops : List Op) :
    (∀ pre, pre <+: ops → CacheMatched matchString (rulesAfter matchString pre).rule) ↔
      ∀ pre s, pre ++ [.setup s] <+: ops →
        MatchesCached matchString (rulesAfter matchString pre).rule.ipToDomain s := by
  constructor
  · intro h pre s hp
    have := h _ hp
    rw [rulesAfter_snoc] at this
    exact cacheMatched_setup.1 this
  · intro h pre hp
    induction pre using List.reverseRecOn with
    | nil => exact fun ip hne => absurd rfl hne
    | append_singleton pre op ih =>
      rw [rulesAfter_snoc]
      refine cacheMatched_step (ih ((List.prefix_append pre [op]).trans hp)) fun s hs => ?_
      subst hs
      exact h pre s hp

/-- `regexp.MatchString` for an expression without special characters. -/
def matchLiteral (re s : Bytes) : Option Bool := some (s.tails.any fun t => re.isPrefixOf t)

/-- A domain cached under the first rules is still returned under the second ones. -/
theorem stale_after_setup :
    (rulesAfter matchLiteral [.setup (ascii "example"),
        .directIPAndHost (ascii "www.example.com.") (ascii "93.184.216.34"),
        .setup (ascii "different")]).rule.needProxy (ascii "93.184.216.34") =
      ascii "www.example.com." ∧
    ¬ CacheMatched matchLiteral (rulesAfter matchLiteral [.setup (ascii "example"),
        .directIPAndHost (ascii "www.example.com.") (ascii "93.184.216.34"),
        .setup (ascii "different")]).rule := by
  refine ⟨by decide +kernel, fun h => ?_⟩
  have hm := h (ascii "93.184.216.34") (by decide +kernel)
  revert hm
  decide +kernel

end Stack
