import Tun2Simple.Stack.Handle
import Tun2Simple.Stack.Proof.Bypass

/-!
# Global mode

The rules after a sequence of calls hold what was last given (`rulesAfter_ips`), so `Handle` with
global mode on can be read off the calls (`handle_global`): it dials the target if both lists are
empty, because `IsInnerIP` tests for the empty list before it tests `global`.
-/

namespace Stack

open Net

theorem latest_append {α : Type} (f : Op → Option α) (ops : List Op) (op : Op) :
    latest f (ops ++ [op]) = (f op).or (latest f ops) := by
  unfold latest
  rw [List.filterMap_append]
  cases h : f op with
  | none => simp [h]
  | some a => simp [h]

/-- The lists and the flag are those of the last calls. -/
structure FromCalls (ips : IpRules) (ops : List Op) : Prop where
  global : ips.global = (latest Op.global? ops).getD false
  inners : ips.innerIpMasks = ((latest Op.inners? ops).map loadMasks).getD ∅
  mustHits : ips.mustHitMasks = ((latest Op.mustHits? ops).map loadMasks).getD ∅

theorem FromCalls.step {matchString : Bytes → Bytes → Option Bool} {rs : Rules} {ops : List Op}
    (h : FromCalls rs.ips ops) (op : Op) :
    FromCalls (rs.step matchString op).ips (ops ++ [op]) := by
  obtain ⟨hg, hi, hm⟩ := h
  cases op <;> constructor <;> rw [latest_append]
  all_goals first | exact hg | exact hi | exact hm | rfl

theorem rulesAfter_ips (matchString : Bytes → Bytes → Option Bool) (ops : List Op) :
    FromCalls (rulesAfter matchString ops).ips ops := by
  induction ops using List.reverseRecOn with
  | nil => exact ⟨rfl, rfl, rfl⟩
  | append_singleton ops op ih =>
    rw [rulesAfter, List.foldl_append]
    exact ih.step op

theorem loaded_iff {text : Option Bytes} :
    ((text.map loadMasks).getD ∅).entries.length ≠ 0 ↔ Loaded text := by
  cases text with
  | none => simp [Loaded]
  | some t => simp [Loaded, ← loadMasks_empty_iff]

theorem proxied_handle_iff {rs : Rules} {dialled : Bool} {target : TCPAddr} :
    Proxied (rs.handle dialled target) ↔ (rs.matched target).isSome := by
  unfold Rules.handle Proxied
  cases rs.matched target with
  | none => cases dialled <;> simp
  | some addr => cases dialled <;> simp

theorem matched_isSome_iff {rs : Rules} {target : TCPAddr} :
    (rs.matched target).isSome = true ↔
      rs.rule.needProxy (string target.ip) ≠ [] ∨ rs.ips.isMustHits target.ip = true ∨
        rs.ips.isInnerIP target.ip = false := by
  unfold Rules.matched
  simp only [gt_iff_lt, List.length_pos_iff]
  split
  · simp_all
  · split
    · simp_all
    · split <;> simp_all

/-- With global mode on the lists count only by being empty or not. -/
theorem isMustHits_global {ips : IpRules} {x : IP} (h : ips.global = true) :
    ips.isMustHits x = true ↔ ips.mustHitMasks.entries.length ≠ 0 := by
  simp only [IpRules.isMustHits, h, if_true]
  split <;> simp_all

theorem isInnerIP_global {ips : IpRules} {x : IP} (h : ips.global = true) :
    ips.isInnerIP x = false ↔ ips.innerIpMasks.entries.length ≠ 0 := by
  simp only [IpRules.isInnerIP, h, if_true]
  split <;> simp_all

/-- **Global mode.** After any calls of which the last `SetGlobal` turned global mode on, a
connection goes through the proxy iff its target is in the cache or one of the two texts last loaded
has a valid line. -/
theorem handle_global (matchString : Bytes → Bytes → Option Bool) (ops : List Op) (dialled : Bool)
    (target : TCPAddr) (hg : latest Op.global? ops = some true) :
    Proxied ((rulesAfter matchString ops).handle dialled target) ↔
      (rulesAfter matchString ops).rule.needProxy (string target.ip) ≠ [] ∨
        Loaded (latest Op.mustHits? ops) ∨ Loaded (latest Op.inners? ops) := by
  obtain ⟨hglobal, hinners, hmust⟩ := rulesAfter_ips matchString ops
  rw [hg] at hglobal
  rw [proxied_handle_iff, matched_isSome_iff, isMustHits_global hglobal, isInnerIP_global hglobal,
    hinners, hmust, loaded_iff, loaded_iff]

theorem handle_global_mustHits :
    Proxied ((rulesAfter (fun _ _ => some false)
      [.loadInners [], .loadMustHits (ascii "149.154.160.0/20"), .setGlobal true]).handle true
        ⟨v4InV6Prefix ++ [8, 8, 8, 8], 443, []⟩) :=
  (handle_global _ _ true ⟨v4InV6Prefix ++ [8, 8, 8, 8], 443, []⟩ rfl).2
    (.inr (.inl ⟨ascii "149.154.160.0/20", rfl, by decide⟩))

/-- Global mode with two empty texts: the target is dialled. -/
theorem global_leaks :
    latest Op.global? [.loadInners [], .loadMustHits [], .setGlobal true] = some true ∧
      (rulesAfter (fun _ _ => some false)
        [.loadInners [], .loadMustHits [], .setGlobal true]).handle true
          ⟨v4InV6Prefix ++ [8, 8, 8, 8], 443, []⟩ = [.safeConn (ascii "8.8.8.8:443"), .relays] ∧
      ¬ Proxied ((rulesAfter (fun _ _ => some false)
        [.loadInners [], .loadMustHits [], .setGlobal true]).handle true
          ⟨v4InV6Prefix ++ [8, 8, 8, 8], 443, []⟩) := by
  have h : (rulesAfter (fun _ _ => some false)
      [.loadInners [], .loadMustHits [], .setGlobal true]).handle true
        ⟨v4InV6Prefix ++ [8, 8, 8, 8], 443, []⟩ = [.safeConn (ascii "8.8.8.8:443"), .relays] := by
    decide
  refine ⟨rfl, h, fun hp => ?_⟩
  rw [h] at hp
  exact hp.2 _ (List.mem_cons_self ..)

end Stack
