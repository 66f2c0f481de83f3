import Tun2Simple.Core.Write

/-!
# What `Write` queues

`writeRound_spec` says what one round does: `tcp_write` gets data that fits into `snd_buf`, and what
it accepts is the head of the data left. The loop hands the rest to the next round, so the chunks
add up to the head of the data (`writeLoop_spec`, `write_exact`). `writeRound_section` ties a round
to the section of `Core.Sys.goStep` under `lwipMutex`.
-/

namespace Core

/-- A call as `tcp_write` wants it: there is data, it fits into `snd_buf`, and its length is passed
on as it is. -/
structure TcpWrite.Ok (w : TcpWrite) : Prop where
  data : w.data ≠ []
  fits : w.data.length ≤ w.sndBuf.toNat
  len : w.len.toNat = w.data.length

/-- The bytes that the calls queue. -/
def acceptedBytes (ws : List TcpWrite) : Bytes := ws.flatMap TcpWrite.accepted

/-- The end of rounds that began with `data` left and `total` bytes queued, and that
queue `sent`. -/
def Sent (data : Bytes) (total : Nat) (sent : Bytes) : RoundEnd → Prop
  | .returns n err => ∃ rest, data = sent ++ rest ∧ n = total + sent.length ∧ (err = none ↔ rest = [])
  | .panics => True
  | .waits rest n => data = sent ++ rest ∧ n = total + sent.length ∧ rest ≠ []

section
variable {data : Bytes} {total : Nat}

/-- How much of the data a round tries to write. -/
theorem toWrite_le (data : Bytes) (sndBuf : UInt16) :
    (if data.length > sndBuf.toNat then sndBuf.toNat else data.length) ≤ data.length ∧
      (if data.length > sndBuf.toNat then sndBuf.toNat else data.length) ≤ sndBuf.toNat := by
  split <;> omega

theorem tcpWrite_ok {chunk : Bytes} {sndBuf : UInt16} (err : Int8) (h : chunk ≠ [])
    (hl : chunk.length ≤ sndBuf.toNat) :
    TcpWrite.Ok ⟨chunk, UInt16.ofNat chunk.length, sndBuf, err⟩ where
  data := h
  fits := hl
  len := by
    have := sndBuf.toNat_lt
    rw [UInt16.toNat_ofNat', Nat.mod_eq_of_lt (by omega)]

theorem TcpWrite.Ok.accepted {w : TcpWrite} (h : w.Ok) :
    w.accepted = if w.err = errOk then w.data else [] := by
  rw [TcpWrite.accepted, h.len, List.take_length]

/-- One round. -/
theorem writeRound_spec (total : Nat) (hne : data ≠ []) (r : WriteRound) :
    (∀ w ∈ (writeRound data total r).1, w.Ok) ∧
      Sent data total (acceptedBytes (writeRound data total r).1) (writeRound data total r).2 := by
  unfold writeRound
  split
  · simp [Sent]
  · simp [Sent, acceptedBytes, hne]
  · simp [Sent, acceptedBytes, hne]
  · obtain ⟨hdata, hbuf⟩ := toWrite_le data r.sndBuf
    simp only
    generalize (if data.length > r.sndBuf.toNat then r.sndBuf.toNat else data.length) = toWrite
      at hdata hbuf ⊢
    split
    · rename_i hpos
      have hlen : (data.take toWrite).length = toWrite := by
        rw [List.length_take]
        omega
      have htake : data.take toWrite ≠ [] := List.length_pos_iff.1 (by omega)
      have hok := tcpWrite_ok r.err htake (Nat.le_trans (Nat.le_of_eq hlen) hbuf)
      have hacc := hok.accepted
      rw [writeInternal, if_neg htake]
      by_cases h0 : r.err = errOk
      · -- the chunk is queued
        simp only [h0, if_true] at hok hacc ⊢
        refine ⟨by simpa using hok, ?_⟩
        rw [acceptedBytes, List.flatMap_singleton, hacc, hlen]
        split
        · rename_i hdrop
          exact ⟨[], by simpa [hdrop] using (List.take_append_drop toWrite data).symm, by rw [hlen],
            by simp⟩
        · rename_i hdrop
          exact ⟨(List.take_append_drop toWrite data).symm, by rw [hlen], hdrop⟩
      · simp only [h0, if_false] at hok hacc ⊢
        by_cases h1 : r.err = errMem
        · -- nothing is queued, and the round is made again
          simp only [h1, if_true] at hok hacc ⊢
          refine ⟨by simpa using hok, ?_⟩
          rw [acceptedBytes, List.flatMap_singleton, hacc]
          simp [Sent, hne]
        · simp only [h1, if_false]
          refine ⟨by simpa using hok, ?_⟩
          rw [acceptedBytes, List.flatMap_singleton, hacc]
          simp [Sent, hne]
    · simp [Sent, acceptedBytes, hne]

/-- The rounds after a wait go on where it left off. -/
theorem Sent.trans {sent sent' rest : Bytes} {n : Nat} {e : RoundEnd}
    (h : Sent data total sent (.waits rest n)) (h' : Sent rest n sent' e) :
    Sent data total (sent ++ sent') e := by
  obtain ⟨rfl, rfl, -⟩ := h
  cases e with
  | panics => exact trivial
  | returns n err =>
    obtain ⟨last, rfl, rfl, herr⟩ := h'
    exact ⟨last, by rw [List.append_assoc], by rw [List.length_append, Nat.add_assoc], herr⟩
  | waits last n =>
    obtain ⟨rfl, rfl, hne⟩ := h'
    exact ⟨by rw [List.append_assoc], by rw [List.length_append, Nat.add_assoc], hne⟩

/-- The rounds of a loop. -/
theorem writeLoop_spec (data : Bytes) (total : Nat) (rounds : List WriteRound) :
    (∀ w ∈ (writeLoop data total rounds).1, w.Ok) ∧
      Sent data total (acceptedBytes (writeLoop data total rounds).1)
        (writeLoop data total rounds).2 := by
  induction rounds generalizing data total with
  | nil =>
    rw [writeLoop]
    split <;> simp [Sent, acceptedBytes, *]
  | cons r rounds ih =>
    rw [writeLoop]
    split
    · simp [Sent, acceptedBytes, *]
    · rename_i hne
      have hround := writeRound_spec total hne r
      generalize writeRound data total r = w at hround ⊢
      obtain ⟨ws, e⟩ := w
      obtain ⟨hok, hsent⟩ := hround
      cases e with
      | returns n err => exact ⟨hok, hsent⟩
      | panics => exact ⟨hok, hsent⟩
      | waits rest n =>
        obtain ⟨hok', hsent'⟩ := ih rest n
        refine ⟨fun w hw => ?_, ?_⟩
        · rcases List.mem_append.1 hw with hw | hw
          · exact hok w hw
          · exact hok' w hw
        · show Sent data total (acceptedBytes (ws ++ (writeLoop rest n rounds).1)) _
          rw [acceptedBytes, List.flatMap_append]
          exact hsent.trans hsent'

/-- A round does what `Core.Sys.goStep` does in its section under `lwipMutex`. -/
theorem writeRound_section {r : WriteRound} (hne : data ≠ []) (hc : r.state.writeCheck = .pass) :
    (writeRound data total r).2 =
      let (written, failed) := writeSection data r.sndBuf (.ofErr r.err)
      if failed then .returns (total + written) (some (.tcpWrite r.err))
      else if data.drop written = [] then .returns (total + written) none
      else .waits (data.drop written) (total + written) := by
  obtain ⟨hdata, -⟩ := toWrite_le data r.sndBuf
  unfold writeRound writeSection
  rw [hc]
  simp only [gt_iff_lt] at hdata ⊢
  generalize (if r.sndBuf.toNat < data.length then r.sndBuf.toNat else data.length) = toWrite
    at hdata ⊢
  split
  · rename_i hpos
    have hlen : (data.take toWrite).length = toWrite := by
      rw [List.length_take]
      omega
    have htake : data.take toWrite ≠ [] := List.length_pos_iff.1 (by omega)
    rw [writeInternal, if_neg htake, hlen]
    by_cases h0 : r.err = errOk
    · simp [WriteRet.ofErr, h0]
    · by_cases h1 : r.err = errMem
      · simp [WriteRet.ofErr, h1, show errMem ≠ errOk by decide, hne]
      · simp [WriteRet.ofErr, h0, h1]
  · simp [hne]

end

/-- **What `Write` queues.** Whatever state, `snd_buf` and results of `tcp_write` the rounds meet:
if `Write` returns `n`, the chunks that `tcp_write` accepted are the first `n` bytes of the data,
and there is no error exactly if these are all. Every chunk has data, fits into `snd_buf`, and its
length is passed to lwIP as it is. -/
theorem write_exact (data : Bytes) (rounds : List WriteRound) :
    (∀ n err, (write data rounds).2 = .returns n err →
      n ≤ data.length ∧ acceptedBytes (write data rounds).1 = data.take n ∧
        (err = none ↔ n = data.length)) ∧
    ∀ w ∈ (write data rounds).1,
      w.data ≠ [] ∧ w.data.length ≤ w.sndBuf.toNat ∧ w.len.toNat = w.data.length := by
  obtain ⟨hok, hsent⟩ := writeLoop_spec data 0 rounds
  refine ⟨fun n err hr => ?_, fun w hw => ⟨(hok w hw).data, (hok w hw).fits, (hok w hw).len⟩⟩
  change (writeLoop data 0 rounds).2 = _ at hr
  rw [hr] at hsent
  obtain ⟨rest, hdata, hn, herr⟩ := hsent
  change data = acceptedBytes (write data rounds).1 ++ rest at hdata
  change n = 0 + (acceptedBytes (write data rounds).1).length at hn
  have hlen := congrArg List.length hdata
  rw [List.length_append] at hlen
  refine ⟨by omega, ?_, ?_⟩
  · have htake := congrArg (List.take n) hdata
    rw [htake, hn, Nat.zero_add, List.take_left]
  · rw [herr, ← List.length_eq_zero_iff]
    omega

/-- Five bytes in two chunks, with a round in which lwIP has no memory. -/
theorem write_exact_chunks :
    (write [1, 2, 3, 4, 5] [⟨.connected, 3, 0⟩, ⟨.connected, 7, -1⟩, ⟨.connected, 2, 0⟩]).2 =
        .returns 5 none ∧
      acceptedBytes (write [1, 2, 3, 4, 5]
        [⟨.connected, 3, 0⟩, ⟨.connected, 7, -1⟩, ⟨.connected, 2, 0⟩]).1 = [1, 2, 3, 4, 5] := by
  have h : (write [1, 2, 3, 4, 5]
      [⟨.connected, 3, 0⟩, ⟨.connected, 7, -1⟩, ⟨.connected, 2, 0⟩]).2 = .returns 5 none := by decide
  exact ⟨h, ((write_exact _ _).1 5 none h).2.1⟩

end Core
