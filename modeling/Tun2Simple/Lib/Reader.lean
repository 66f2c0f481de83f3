import Tun2Simple.Lib.Bytes
import Tun2Simple.Lib.Slice

/-!
# Readers as Go's `io` package has them

A stream comes in chunks of any size: a `Read` gives at most what is left of the next chunk, and at
the end an error. `io.ReadFull` reads until its buffer is full; `readFull_spec` says that how the
stream is cut does not matter to it.
-/

namespace Go

inductive IoError
  | eof
  | unexpectedEOF
  | shortBuffer
  | other (why : String)
  deriving DecidableEq, Repr

def IoError.error : IoError → String
  | eof => "EOF"
  | unexpectedEOF => "unexpected EOF"
  | shortBuffer => "short buffer"
  | other why => why

/-- What the reads give, one after the other, and the error after that. -/
structure Reader where
  chunks : List Bytes
  err : IoError

namespace Reader

/-- The bytes that are still to come. -/
def left (r : Reader) : Bytes := r.chunks.flatten

/-- The loop of `ReadFull`: the bytes it gets for a buffer of `n`, and the chunks after it. -/
def readLoop : (chunks : List Bytes) → (n : Nat) → Bytes × List Bytes
  | chunks, 0 => ([], chunks)
  | [], _ + 1 => ([], [])
  | c :: chunks, n + 1 =>
    if c.length ≤ n + 1 then
      let (got, rest) := readLoop chunks (n + 1 - c.length)
      (c ++ got, rest)
    else (c.take (n + 1), c.drop (n + 1) :: chunks)

/-- `ReadFull` into a buffer of `n` bytes: the bytes read, the error and the reader after it. -/
def readFull (r : Reader) (n : Nat) : Bytes × Option IoError × Reader :=
  let (got, rest) := readLoop r.chunks n
  let err := if n ≤ got.length then none
    else if 0 < got.length ∧ r.err = .eof then some .unexpectedEOF else some r.err
  (got, err, { r with chunks := rest })

theorem readLoop_spec (chunks : List Bytes) (n : Nat) :
    (readLoop chunks n).1 = chunks.flatten.take n ∧
      (readLoop chunks n).2.flatten = chunks.flatten.drop n := by
  induction chunks generalizing n with
  | nil => cases n <;> simp [readLoop]
  | cons c chunks ih =>
    cases n with
    | zero => simp [readLoop]
    | succ n =>
      unfold readLoop
      split
      · rename_i hle
        obtain ⟨h1, h2⟩ := ih (n + 1 - c.length)
        simp only [h1, h2, List.flatten_cons, List.take_append, List.drop_append,
          List.take_of_length_le hle, List.drop_eq_nil_of_le hle, List.nil_append, and_self]
      · rename_i hlt
        have hz : n + 1 - c.length = 0 := by omega
        simp only [List.flatten_cons, List.take_append, List.drop_append, hz, List.take_zero,
          List.drop_zero, List.append_nil, and_self]

/-- `ReadFull` takes the next `n` bytes if there are so many, and else all of them with an error. -/
theorem readFull_spec (r : Reader) (n : Nat) :
    ∃ err r', r.readFull n = (r.left.take n, err, r') ∧ r'.left = r.left.drop n ∧
      (err = none ↔ n ≤ r.left.length) ∧ r'.err = r.err := by
  obtain ⟨h1, h2⟩ := readLoop_spec r.chunks n
  refine ⟨_, _, Prod.ext h1 rfl, h2, ?_, rfl⟩
  simp only [h1, List.length_take]
  constructor
  · intro h
    split at h
    · rename_i hn
      exact Nat.le_trans hn (Nat.min_le_right ..)
    · split at h <;> cases h
  · exact fun h => if_pos (Nat.le_min.2 ⟨Nat.le_refl n, h⟩)

end Reader

namespace Slice

variable {α : Type} (s : Slice α)

/-- The slice after `xs` was written into its array from the place `i` on. -/
def put (i : Nat) (xs : List α) : Slice α where
  mem := s.mem.take i ++ (xs ++ s.mem.drop (i + xs.length))
  len := s.len
  le := by
    have := s.le
    simp only [List.length_append, List.length_take, List.length_drop]
    omega

/-- Writing behind a prefix that the array holds. -/
theorem put_prefix {s : Slice α} {p : List α} (h : p <+: s.mem) (xs : List α) :
    p ++ xs <+: (s.put p.length xs).mem := by
  refine ⟨s.mem.drop (p.length + xs.length), ?_⟩
  show _ = s.mem.take p.length ++ _
  rw [← List.prefix_iff_eq_take.1 h, List.append_assoc]

theorem put_cap {i : Nat} {xs : List α} (h : i + xs.length ≤ s.cap) : (s.put i xs).cap = s.cap := by
  unfold cap at h ⊢
  simp only [put, List.length_append, List.length_take, List.length_drop]
  omega

theorem get_of_prefix {s : Slice α} {p : List α} (h : p <+: s.mem) {i : Nat} (hi : i < p.length)
    (hl : i < s.len) : s.get i = p[i]? := by
  obtain ⟨rest, hr⟩ := h
  rw [get, if_pos hl, ← hr, List.getElem?_append_left hi]

theorem slice_of_prefix {s : Slice α} {p : List α} (h : p <+: s.mem) :
    ∃ t, s.slice 0 p.length = some t ∧ t.toList = p := by
  obtain ⟨t, ht, hm, hl⟩ := s.slice_eq_some (Nat.zero_le p.length) h.length_le
  refine ⟨t, ht, ?_⟩
  rw [toList, hm, hl, List.drop_zero, Nat.sub_zero, ← List.prefix_iff_eq_take.1 h]

end Slice

/-- `io.ReadFull(r, b[lo:hi])`: the error, the buffer and the reader after it. -/
def readInto (r : Reader) (b : Slice UInt8) (lo hi : Nat) :
    Option (Option IoError × Slice UInt8 × Reader) := do
  let t ← b.slice lo hi
  let (got, err, r) := r.readFull t.len
  return (err, b.put lo got, r)

/-- A read into a part of the buffer's array: it fails exactly if the stream ends before. -/
theorem readInto_spec {r : Reader} {b : Slice UInt8} {lo hi : Nat} (h : lo ≤ hi) (hc : hi ≤ b.cap) :
    ∃ err b' r', readInto r b lo hi = some (err, b', r') ∧ (err = none ↔ hi - lo ≤ r.left.length) ∧
      b'.len = b.len ∧ b'.cap = b.cap := by
  obtain ⟨u, hu, -, hul⟩ := b.slice_eq_some h hc
  obtain ⟨err, r', hread, -, herr, -⟩ := r.readFull_spec u.len
  rw [hul] at hread herr
  refine ⟨err, b.put lo (r.left.take (hi - lo)), r', ?_, herr, rfl, b.put_cap ?_⟩
  · rw [readInto, hu]
    simp only [Option.bind_eq_bind, Option.bind_some, hul, hread]
    rfl
  · rw [List.length_take]
    omega

/-- A read that is filled: the next bytes stand behind the prefix that the buffer holds. -/
theorem readInto_full {r : Reader} {b : Slice UInt8} {p x t : Bytes} (hp : p <+: b.mem)
    (hr : r.left = x ++ t) (hc : p.length + x.length ≤ b.cap) :
    ∃ b' r', readInto r b p.length (p.length + x.length) = some (none, b', r') ∧
      p ++ x <+: b'.mem ∧ b'.len = b.len ∧ b'.cap = b.cap ∧ r'.left = t := by
  obtain ⟨u, hu, -, hul⟩ := b.slice_eq_some (Nat.le_add_right p.length x.length) hc
  obtain ⟨err, r', hread, hleft, herr, -⟩ := r.readFull_spec u.len
  rw [Nat.add_sub_cancel_left] at hul
  rw [hr, hul] at hread hleft herr
  rw [List.take_left] at hread
  rw [List.drop_left] at hleft
  obtain rfl : err = none := herr.2 (by simp)
  refine ⟨b.put p.length x, r', ?_, Slice.put_prefix hp x, rfl, b.put_cap hc, hleft⟩
  rw [readInto, hu]
  simp only [Option.bind_eq_bind, Option.bind_some, hul, hread]
  rfl

/-- A read of one byte, which then stands behind the prefix. -/
theorem readInto_byte {r : Reader} {b : Slice UInt8} {p t : Bytes} {c : UInt8}
    (hp : p <+: b.mem) (hr : r.left = c :: t) (hl : p.length < b.len) :
    ∃ b' r', readInto r b p.length (p.length + 1) = some (none, b', r') ∧
      p ++ [c] <+: b'.mem ∧ b'.len = b.len ∧ b'.cap = b.cap ∧ r'.left = t ∧
      b'.get p.length = some c := by
  have hcap := b.len_le_cap
  obtain ⟨b', r', hread, hpc, hlen, hcap', hleft⟩ :=
    readInto_full (x := [c]) hp hr (show p.length + 1 ≤ b.cap by omega)
  refine ⟨b', r', hread, hpc, hlen, hcap', hleft, ?_⟩
  rw [Slice.get_of_prefix hpc (by simp) (by omega), List.getElem?_append_right (Nat.le_refl _),
    Nat.sub_self]
  rfl

end Go
