import Tun2Simple.Core.Output
import Tun2Simple.Core.Proof.Input

/-!
# What is sent is the packet

`pbuf_copy_partial` copies a part of a chain wherever the pbufs of the chain begin and end
(`pbufCopyPartial_spec`). So every packet that is sent is the one that lwIP handed over, with nothing of
what a pooled buffer held before (`outputs_eq`).
-/

namespace Core

/-- The lengths of a chain are right, and fit in 16 bits. -/
def WellFormed : List Pbuf → Prop
  | [] => True
  | p :: ps => p.len ≤ p.payload.length ∧ p.totLen = p.len + chainLen ps ∧ p.totLen < 65536 ∧ WellFormed ps

instance : (p : List Pbuf) → Decidable (WellFormed p)
  | [] => inferInstanceAs (Decidable True)
  | p :: ps =>
    have : Decidable (WellFormed ps) := instDecidableWellFormed ps
    inferInstanceAs (Decidable (p.len ≤ p.payload.length ∧ p.totLen = p.len + chainLen ps ∧
      p.totLen < 65536 ∧ WellFormed ps))

theorem WellFormed.length_contents {p : List Pbuf} (h : WellFormed p) : (contents p).length = chainLen p := by
  induction p with
  | nil => rfl
  | cons q ps ih =>
    obtain ⟨hlen, htot, -, hps⟩ := h
    rw [contents_cons, List.length_append, List.length_take, ih hps]
    show _ = q.totLen
    omega

/-- What is copied, into a buffer that is long enough. -/
theorem pbufCopyLoop_spec {ps : List Pbuf} (hps : ∀ p ∈ ps, p.len ≤ p.payload.length ∧ p.len < 65536)
    {dst : Bytes} {left len offset copied : Nat} (hdst : left + len ≤ dst.length) (hleft : left + len < 65536)
    (hcopied : copied + len < 65536) (hoffset : offset < 65536) :
    pbufCopyLoop ps dst left len offset copied =
      some (dst.take left ++ ((contents ps).drop offset).take len ++
          dst.drop (left + (((contents ps).drop offset).take len).length),
        copied + (((contents ps).drop offset).take len).length) := by
  induction ps generalizing dst left len offset copied with
  | nil => simp [pbufCopyLoop, contents]
  | cons p ps ih =>
    obtain ⟨hp, hp16⟩ := hps p (List.mem_cons_self ..)
    have hps' : ∀ q ∈ ps, q.len ≤ q.payload.length ∧ q.len < 65536 :=
      fun q hq => hps q (List.mem_cons_of_mem _ hq)
    have hhead : (p.payload.take p.len).length = p.len := List.length_take_of_le hp
    rw [pbufCopyLoop, contents_cons]
    by_cases hlen : len = 0
    · rw [if_pos hlen, hlen]
      simp
    · rw [if_neg hlen]
      by_cases hskip : offset ≠ 0 ∧ p.len ≤ offset
      · -- the whole pbuf is before the offset
        rw [if_pos hskip, Nat.mod_eq_of_lt (by omega), ih hps' hdst hleft hcopied (by omega)]
        have hdrop : (p.payload.take p.len ++ contents ps).drop offset = (contents ps).drop (offset - p.len) := by
          rw [List.drop_append, hhead, List.drop_eq_nil_of_le (by omega), List.nil_append]
        rw [hdrop]
      · rw [if_neg hskip]
        have hle : offset ≤ p.len := by omega
        -- `n` bytes from this pbuf, the rest from those behind it
        obtain ⟨n, hn⟩ : ∃ n, n = min (p.len - offset) len := ⟨_, rfl⟩
        have hsrc : (p.payload.drop offset).take n = ((p.payload.take p.len).drop offset).take len := by
          rw [List.drop_take, List.take_take, hn, Nat.min_comm]
        have hsplit : ((p.payload.take p.len ++ contents ps).drop offset).take len =
            (p.payload.drop offset).take n ++ (contents ps).take (len - n) := by
          rw [List.drop_append_of_le_length (by omega), List.take_append, hsrc, List.length_drop, hhead]
          congr 2
          omega
        have hsize : ((p.payload.drop offset).take n).length = n := by
          rw [List.length_take, List.length_drop]
          omega
        have hbounds : left + n ≤ dst.length ∧ offset + n ≤ p.payload.length := by omega
        dsimp only
        rw [← hn, memcpyAt, if_pos hbounds]
        dsimp only
        rw [Nat.mod_eq_of_lt (show left + n < 65536 by omega),
          Nat.mod_eq_of_lt (show copied + n < 65536 by omega)]
        have htake : (dst.take left).length = left := List.length_take_of_le (by omega)
        have hfront : (dst.take left ++ (p.payload.drop offset).take n).length = left + n := by
          rw [List.length_append, htake, hsize]
        rw [ih hps' (by rw [List.length_append, hfront, List.length_drop]; omega) (by omega) (by omega)
          (by decide), hsplit, List.drop_zero, List.take_left' hfront, List.length_append, hsize]
        obtain ⟨r, hr⟩ : ∃ r, r = (contents ps).take (len - n) := ⟨_, rfl⟩
        rw [← hr]
        have hback : (dst.take left ++ (p.payload.drop offset).take n ++ dst.drop (left + n)).drop
            (left + n + r.length) = dst.drop (left + (n + r.length)) := by
          rw [← hfront, List.drop_append, List.drop_eq_nil_of_le (Nat.le_add_right _ _), List.nil_append,
            Nat.add_sub_cancel_left, List.drop_drop, hfront, Nat.add_assoc]
        rw [hback, List.append_assoc (dst.take left), Nat.add_assoc]

theorem WellFormed.bounds {p : List Pbuf} (h : WellFormed p) :
    ∀ q ∈ p, q.len ≤ q.payload.length ∧ q.len < 65536 := by
  induction p with
  | nil => exact fun _ hq => by cases hq
  | cons q ps ih =>
    obtain ⟨hlen, htot, h16, hps⟩ := h
    intro x hx
    rcases List.mem_cons.1 hx with rfl | hx
    · exact ⟨hlen, by omega⟩
    · exact ih hps x hx

/-- `pbuf_copy_partial` copies the bytes of the chain from `offset` on, up to `len`, to the start of the
buffer, and leaves what is behind them. -/
theorem pbufCopyPartial_spec {p : List Pbuf} (h : WellFormed p) {dst : Bytes} {len offset : Nat}
    (hdst : len ≤ dst.length) (hlen : len < 65536) (hoffset : offset < 65536) :
    pbufCopyPartial p dst len offset =
      some (((contents p).drop offset).take len ++
          dst.drop (((contents p).drop offset).take len).length,
        (((contents p).drop offset).take len).length) := by
  rw [pbufCopyPartial, pbufCopyLoop_spec h.bounds (by omega) (by omega) (by omega) hoffset]
  simp

theorem length_newBytes (pool : List PoolBuf) (get : Option Nat) (size : Nat) :
    size ≤ (newBytes pool get size).1.length := by
  have hnew : ∀ n, size ≤ n → size ≤ (List.replicate n (0 : UInt8)).length := fun n hn => by
    rwa [List.length_replicate]
  unfold newBytes
  split
  · rename_i hsize
    split
    · exact hnew _ hsize
    · split
      · exact hnew _ hsize
      · rename_i b _
        exact Nat.le_trans hsize b.2
  · exact hnew _ (Nat.le_refl _)

theorem output_spec {p : List Pbuf} (h : WellFormed p) (hne : p ≠ []) (pool : List PoolBuf)
    (get : Option Nat) : ∃ pool', output pool get p = some (contents p, pool') := by
  cases p with
  | nil => exact absurd rfl hne
  | cons q ps =>
    have hlength := h.length_contents
    obtain ⟨hlen, htot, h16, hps⟩ := id h
    have hrest := hps.length_contents
    rw [output]
    by_cases hone : q.totLen = q.len
    · have hnil : contents ps = [] := List.eq_nil_of_length_eq_zero (by omega)
      rw [if_pos hone, if_pos (by omega), hone, contents_cons, hnil, List.append_nil]
      exact ⟨pool, rfl⟩
    · rw [if_neg hone]
      have hbuf := length_newBytes pool get q.totLen
      have hchain : (contents (q :: ps)).length = q.totLen := hlength
      dsimp only
      rw [pbufCopyPartial_spec h hbuf h16 (by decide), List.drop_zero, List.take_of_length_le (by omega)]
      dsimp only
      rw [if_pos (by rw [List.length_append]; omega), List.take_left' hchain]
      exact ⟨_, rfl⟩

/-- However often `output` is called, whichever buffers it gets from the pool and whatever they hold:
nothing out of range is accessed, and each packet that `OutputFn` gets is the one of its chain. -/
theorem outputs_eq {calls : List (Option Nat × List Pbuf)} (h : ∀ c ∈ calls, WellFormed c.2 ∧ c.2 ≠ [])
    (pool : List PoolBuf) : outputs pool calls = some (calls.map fun c => contents c.2) := by
  induction calls generalizing pool with
  | nil => rfl
  | cons c calls ih =>
    obtain ⟨get, p⟩ := c
    obtain ⟨hwf, hne⟩ := h (get, p) (List.mem_cons_self ..)
    obtain ⟨pool', ho⟩ := output_spec hwf hne pool get
    rw [outputs, ho]
    dsimp only
    rw [ih fun c hc => h c (List.mem_cons_of_mem _ hc)]
    rfl

/-- Two packets, the second one in a buffer that held the first one. -/
def twoPackets : List (Option Nat × List Pbuf) :=
  [(none, [⟨.pool, 5, 3, [1, 2, 3, 9]⟩, ⟨.pool, 2, 2, [4, 5]⟩]),
   (some 0, [⟨.pool, 2, 1, [6, 9]⟩, ⟨.pool, 1, 1, [7]⟩])]

theorem outputs_eq_twoPackets : outputs [] twoPackets = some [[1, 2, 3, 4, 5], [6, 7]] :=
  outputs_eq (by decide) []

end Core
