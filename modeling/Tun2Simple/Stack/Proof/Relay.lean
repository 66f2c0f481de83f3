import Tun2Simple.Lib.Run
import Tun2Simple.Stack.Relay

/-!
# What the relays deliver

A relay closes both connections when its own direction ends, so the other direction keeps its bytes
only if it has none left by then. `Harmless` says so of the two closes that do the damage, and
`relay_delivers` is about the runs that meet it: they are finite, and one that cannot go on has
written both streams in full. `half_close_truncates` is a run that does not: the app closes its half
first and loses what the target sends.
-/

namespace Relay

open Core (Once TcpConnState)
open Trans

/-- `conn.CloseWrite` of the app's relay comes when the target's stream was read and written, and
`tarConn.Close` of the target's relay when the app's was. -/
def Harmless (s : Pair) : Act → Prop
  | .relay .up _ _ => s.up = .closeWrite → s.tar = [] ∧ s.down.chunk = []
  | .relay .down _ _ => s.down = .closeTar → s.app = [] ∧ s.piped = [] ∧ s.up.chunk = []
  | _ => True

instance (s : Pair) : (a : Act) → Decidable (Harmless s a)
  | .relay .up _ _ => inferInstanceAs (Decidable (s.up = .closeWrite → _ ∧ _))
  | .relay .down _ _ => inferInstanceAs (Decidable (s.down = .closeTar → _ ∧ _ ∧ _))
  | .readDone | .receive _ | .writeDone | .fin | .connected | .checkClosing => .isTrue trivial

/-! ## The invariant -/

/-- A relay is inside `closeOnce`. -/
def Pc.closing : Pc → Bool
  | .closeRead | .closeWrite | .shutdown => true
  | _ => false

/-- The app's stream is read. -/
def Pair.AppRead (s : Pair) : Prop := s.app = [] ∧ s.piped = []

/-- The target's stream is read and written. -/
def Pair.TarWritten (s : Pair) : Prop := s.tar = [] ∧ s.down.chunk = []

/-- No byte is lost, and what is closed is closed behind the bytes. -/
structure Inv (A B : Bytes) (s : Pair) : Prop where
  flowUp : s.toTar ++ (s.up.chunk ++ (s.piped ++ s.app)) = A
  flowDown : s.toApp ++ (s.down.chunk ++ s.tar) = B
  upCopied : s.up.copied = true → s.AppRead
  downCopied : s.down.copied = true → s.tar = []
  tarClosed : s.tarClosed = true → s.AppRead ∧ s.up.chunk = [] ∧ s.tar = []
  reader : s.sndPipeReaderClosed = true → s.AppRead
  writer : s.sndPipeWriterClosed = true → s.AppRead
  readEnd : s.state.readCheck ≠ .pass → s.AppRead ∧ s.sndPipeWriterClosed = true
  finSeen : s.finSeen = true → s.sndPipeWriterClosed = true
  writeEnd : s.state.writeCheck ≠ .pass → s.TarWritten
  txShut : s.txShut = true → s.TarWritten
  shutdown : s.up = .shutdown ∨ s.down = .shutdown → s.TarWritten
  onceDone : s.closeOnce = .done → s.TarWritten
  upClosed : s.up = .closeTar → s.TarWritten
  downClosed : s.down.copied = true → s.down ≠ .closeTar → s.tarClosed = true
  running : s.closeOnce = .running → s.up.closing = true ∨ s.down.closing = true
  rxShut : s.rxShut = false
  state : s.state ≠ .newConn ∧ s.state ≠ .aborting ∧ s.state ≠ .errored

/-- A pair of relays that starts to copy the streams `A` and `B`. -/
def start (A B : Bytes) : Pair := { app := A, tar := B }

theorem inv_start (A B : Bytes) : Inv A B (start A B) := by
  constructor <;> simp [start, Pc.chunk, Pc.copied, Pc.closing, TcpConnState.readCheck,
    TcpConnState.writeCheck, TcpConnState.num]

section
variable {A B : Bytes} {s s' : Pair}

theorem Inv.appRead (h : Inv A B s) (hp : s.pipeDone = true) : s.AppRead := by
  rcases Bool.or_eq_true_iff.1 hp with hp | hp
  · exact h.reader hp
  · exact h.writer hp

/-- The target's relay has copied its stream. -/
theorem Inv.tarWritten (h : Inv A B s) (hd : s.down.copied = true) : s.TarWritten := by
  refine ⟨h.downCopied hd, ?_⟩
  cases hpc : s.down <;> simp [hpc, Pc.copied] at hd <;> rfl

/-! ### `conn.Close` -/

/-- `CloseWrite` sets the state. -/
theorem Inv.setState (h : Inv A B s) (hw : s.TarWritten) {st : TcpConnState}
    (hst : s.state.closeWrite = some st) : Inv A B { s with state := st } := by
  rcases TcpConnState.closeWrite_eq_some hst with ⟨hold, rfl⟩ | ⟨hold, rfl⟩
  · have hr := h.readEnd (by rw [hold]; decide)
    exact { h with readEnd := fun _ => hr, writeEnd := fun _ => hw, state := by simp }
  · exact { h with
      readEnd := fun hr => absurd rfl hr, writeEnd := fun _ => hw, state := by simp }

/-- `closeOnce` is done. -/
theorem Inv.setDone (h : Inv A B s) (hw : s.TarWritten) (b : Bool) :
    Inv A B { s with txShut := b, closeOnce := .done } :=
  { h with txShut := fun _ => hw, onceDone := fun _ => hw, running := by simp }

theorem closeStep_copied {pc : Pc} {mem : Bool} {x : Pair × Option Pc}
    (h : s.closeStep pc mem = some x) : pc.copied = true := by
  cases pc <;> simp [Pair.closeStep] at h <;> rfl

/-! ### The app's relay -/

/-- The app's relay goes on without having read or written. -/
theorem Inv.setUp (h : Inv A B s) {pc : Pc} (hc : pc.chunk = s.up.chunk)
    (hcop : pc.copied = true → s.AppRead) (hsh : pc = .shutdown → s.TarWritten)
    (hct : pc = .closeTar → s.TarWritten)
    (hrun : s.closeOnce = .running → s.up.closing = true → pc.closing = true) :
    Inv A B { s with up := pc } :=
  { h with
    flowUp := hc.symm ▸ h.flowUp
    upCopied := hcop
    tarClosed := fun ht => hc.symm ▸ h.tarClosed ht
    shutdown := fun hs => hs.elim hsh fun hs => h.shutdown (.inr hs)
    upClosed := hct
    running := fun hr => (h.running hr).imp_left (hrun hr) }

/-- The pipe's `Read` takes some of the bytes. -/
theorem Inv.upRead (h : Inv A B s) (hpc : s.up = .readWait) (hp : s.piped ≠ []) (n : Nat) :
    Inv A B { s with piped := s.piped.drop n, up := .write (s.piped.take n) } := by
  have no : ∀ {P : Prop}, s.AppRead → P := fun ha => absurd ha.2 hp
  have hflow := h.flowUp
  rw [hpc] at hflow
  refine { h with
    flowUp := ?_
    upCopied := fun hc => by cases hc
    tarClosed := fun ht => no (h.tarClosed ht).1
    reader := fun hr => no (h.reader hr)
    writer := fun hw => no (h.writer hw)
    readEnd := fun hr => no (h.readEnd hr).1
    shutdown := fun hs => hs.elim (fun hs => by cases hs) fun hs => h.shutdown (.inr hs)
    upClosed := fun hu => by cases hu
    running := fun hr => (h.running hr).imp_left fun hc => by rw [hpc] at hc; cases hc }
  simpa [Pc.chunk, ← List.append_assoc] using hflow

/-- A write to the target. -/
theorem Inv.upWrite (h : Inv A B s) {c : Bytes} (hpc : s.up = .write c) (ht : s.tarClosed = false)
    (n : Nat) : Inv A B { s with
      toTar := s.toTar ++ c.take n
      up := if c.drop n = [] then .read else .write (c.drop n) } := by
  have hflow := h.flowUp
  rw [hpc] at hflow
  have hchunk : (if c.drop n = [] then Pc.read else .write (c.drop n)).chunk = c.drop n := by
    split
    · rename_i hc; exact hc.symm
    · rfl
  refine { h with
    flowUp := ?_
    upCopied := fun hc => by split at hc <;> cases hc
    tarClosed := fun ht' => absurd (ht.symm.trans ht') (by simp)
    shutdown := fun hs => hs.elim (fun hs => by split at hs <;> cases hs) fun hs => h.shutdown (.inr hs)
    upClosed := fun hu => by split at hu <;> cases hu
    running := fun hr => (h.running hr).imp_left fun hc => by rw [hpc] at hc; cases hc }
  rw [hchunk, ← hflow]
  simp only [Pc.chunk, List.append_assoc, ← List.append_assoc (c.take n), List.take_append_drop]

/-- `tarConn.Close`, the app's relay being done. -/
theorem Inv.upCloseTar (h : Inv A B s) (hpc : s.up = .closeTar) :
    Inv A B { s with tarClosed := true, up := .done } := by
  have ha := h.upCopied (by rw [hpc]; rfl)
  have h' : Inv A B { s with up := .done } :=
    h.setUp (by rw [hpc]; rfl) (fun _ => ha) (by simp) (by simp) (by simp [hpc, Pc.closing])
  exact { h' with
    tarClosed := fun _ => ⟨ha, rfl, (h.upClosed hpc).1⟩
    downClosed := fun _ _ => rfl }

/-- `conn.Close` of the app's relay. -/
theorem Inv.upClose (h : Inv A B s) {mem : Bool} (hw : s.up = .closeWrite → s.TarWritten)
    {x : Pair × Option Pc} (hs : s.closeStep s.up mem = some x) :
    Inv A B { x.1 with up := x.2.getD .closeTar } := by
  have hpc := closeStep_copied hs
  have ha := h.upCopied hpc
  have hchunk : [] = s.up.chunk := by cases hu : s.up <;> simp [hu, Pc.copied] at hpc <;> rfl
  cases hu : s.up <;> simp only [hu, Pair.closeStep, reduceCtorEq] at hs
  case close =>
    split at hs <;> cases hs
    · rename_i ho
      have h' : Inv A B { s with up := .closeRead } :=
        h.setUp hchunk (fun _ => ha) (by simp) (by simp) (by simp [ho])
      exact { h' with onceDone := by simp, running := fun _ => .inl rfl }
    · rename_i ho
      exact h.setUp hchunk (fun _ => ha) (by simp) (fun _ => h.onceDone ho) (by simp [ho])
  case closeRead =>
    cases hs
    have h' : Inv A B { s with up := .closeWrite } :=
      h.setUp hchunk (fun _ => ha) (by simp) (by simp) (fun _ _ => rfl)
    exact { h' with reader := fun _ => ha }
  case closeWrite =>
    have hw := hw hu
    split at hs <;> cases hs
    · exact (h.setDone hw s.txShut).setUp hchunk (fun _ => ha) (by simp) (fun _ => hw) (by simp)
    · rename_i st hst
      exact (h.setState hw hst).setUp hchunk (fun _ => ha) (fun _ => hw) (by simp) (fun _ _ => rfl)
  case shutdown =>
    cases hs
    have hw := h.shutdown (.inl hu)
    exact (h.setDone hw _).setUp hchunk (fun _ => ha) (by simp) (fun _ => hw) (by simp)

theorem Inv.up_step (h : Inv A B s) {n : Nat} {mem : Bool} (hs : s.upStep n mem = some s')
    (hc : Harmless s (.relay .up n mem)) : Inv A B s' := by
  unfold Pair.upStep at hs
  split at hs
  case h_1 hpc =>
    cases hs
    split
    · exact h.setUp (by rw [hpc]; rfl) (by simp [Pc.copied]) (by simp) (by simp)
        (by simp [hpc, Pc.closing])
    · rename_i hr
      exact h.setUp (by rw [hpc]; rfl) (fun _ => (h.readEnd hr).1) (by simp) (by simp)
        (by simp [hpc, Pc.closing])
  case h_2 hpc =>
    cases hs
    split
    · rename_i hp
      exact h.setUp (by rw [hpc]; rfl) (fun _ => h.appRead hp) (by simp) (by simp)
        (by simp [hpc, Pc.closing])
    · exact h.setUp (by rw [hpc]; rfl) (by simp [Pc.copied]) (by simp) (by simp)
        (by simp [hpc, Pc.closing])
  case h_3 hpc =>
    split at hs <;> cases hs
    rename_i hn
    exact h.upRead hpc hn.2 n
  case h_4 c hpc =>
    split at hs
    · rename_i ht
      cases hs
      obtain ⟨ha, hchunk, -⟩ := h.tarClosed ht
      exact h.setUp hchunk.symm (fun _ => ha) (by simp) (by simp) (by simp [hpc, Pc.closing])
    · rename_i ht
      split at hs <;> cases hs
      exact h.upWrite hpc (by simpa using ht) n
  case h_5 hpc => cases hs; exact h.upCloseTar hpc
  case h_6 =>
    obtain ⟨x, hx, rfl⟩ := Option.map_eq_some_iff.1 hs
    exact h.upClose hc hx

/-! ### The target's relay -/

/-- The target's relay goes on without having read or written. -/
theorem Inv.setDown (h : Inv A B s) {pc : Pc} (hc : pc.chunk = s.down.chunk)
    (hcop : pc.copied = true → s.tar = []) (hsh : pc = .shutdown → s.TarWritten)
    (htc : pc.copied = true → pc ≠ .closeTar → s.tarClosed = true)
    (hrun : s.closeOnce = .running → s.down.closing = true → pc.closing = true) :
    Inv A B { s with down := pc } := by
  have htw : s.TarWritten → ({ s with down := pc } : Pair).TarWritten := fun hw => ⟨hw.1, hc.trans hw.2⟩
  exact { h with
    flowDown := hc.symm ▸ h.flowDown
    downCopied := hcop
    writeEnd := fun hw => htw (h.writeEnd hw)
    txShut := fun ht => htw (h.txShut ht)
    shutdown := fun hs => htw (hs.elim (fun hs => h.shutdown (.inl hs)) hsh)
    onceDone := fun ho => htw (h.onceDone ho)
    upClosed := fun hu => htw (h.upClosed hu)
    downClosed := htc
    running := fun hr => (h.running hr).imp_right (hrun hr) }

/-- A read from the target. -/
theorem Inv.downRead (h : Inv A B s) (hpc : s.down = .read) (ht : s.tar ≠ []) (n : Nat) :
    Inv A B { s with tar := s.tar.drop n, down := .write (s.tar.take n) } := by
  have no : ∀ {P : Prop}, s.TarWritten → P := fun hw => absurd hw.1 ht
  have hflow := h.flowDown
  rw [hpc] at hflow
  refine { h with
    flowDown := ?_
    downCopied := fun hc => by cases hc
    tarClosed := fun hc => absurd (h.tarClosed hc).2.2 ht
    writeEnd := fun hw => no (h.writeEnd hw)
    txShut := fun ht => no (h.txShut ht)
    shutdown := fun hs => hs.elim (fun hs => no (h.shutdown (.inl hs))) fun hs => by cases hs
    onceDone := fun ho => no (h.onceDone ho)
    upClosed := fun hu => no (h.upClosed hu)
    downClosed := fun hc => by cases hc
    running := fun hr => (h.running hr).imp_right fun hc => by rw [hpc] at hc; cases hc }
  simpa [Pc.chunk] using hflow

/-- A write to the app. -/
theorem Inv.downWrite (h : Inv A B s) {c : Bytes} (hpc : s.down = .writeLwip c) (n : Nat) :
    Inv A B { s with
      toApp := s.toApp ++ c.take n
      down := if c.drop n = [] then .read else .write (c.drop n) } := by
  have hflow := h.flowDown
  rw [hpc] at hflow
  have hchunk : (if c.drop n = [] then Pc.read else .write (c.drop n)).chunk = c.drop n := by
    split
    · rename_i hc; exact hc.symm
    · rfl
  have hcop : (if c.drop n = [] then Pc.read else .write (c.drop n)).copied = false := by
    split <;> rfl
  have htw : ∀ {P : Pair}, P.tar = s.tar → P.down.chunk = c.drop n → s.TarWritten → P.TarWritten := by
    rintro P h1 h2 ⟨h3, h4⟩
    rw [hpc] at h4
    have hc : c = [] := h4
    exact ⟨h1.trans h3, h2.trans (by simp [hc])⟩
  refine { h with
    flowDown := ?_
    downCopied := fun hc => absurd (hcop.symm.trans hc) (by simp)
    writeEnd := fun hw => htw rfl hchunk (h.writeEnd hw)
    txShut := fun ht => htw rfl hchunk (h.txShut ht)
    shutdown := fun hs => hs.elim (fun hs => htw rfl hchunk (h.shutdown (.inl hs)))
      fun hs => by split at hs <;> cases hs
    onceDone := fun ho => htw rfl hchunk (h.onceDone ho)
    upClosed := fun hu => htw rfl hchunk (h.upClosed hu)
    downClosed := fun hc => absurd (hcop.symm.trans hc) (by simp)
    running := fun hr => (h.running hr).imp_right fun hc => by rw [hpc] at hc; cases hc }
  rw [hchunk, ← hflow]
  simp only [Pc.chunk, List.append_assoc, ← List.append_assoc (c.take n), List.take_append_drop]

/-- `tarConn.Close`, the target's relay having copied its stream. -/
theorem Inv.downCloseTar (h : Inv A B s) (hpc : s.down = .closeTar)
    (hc : s.app = [] ∧ s.piped = [] ∧ s.up.chunk = []) :
    Inv A B { s with tarClosed := true, down := .close } := by
  have ht := h.downCopied (by rw [hpc]; rfl)
  have h' : Inv A B { s with tarClosed := true } :=
    { h with tarClosed := fun _ => ⟨⟨hc.1, hc.2.1⟩, hc.2.2, ht⟩, downClosed := fun _ _ => rfl }
  exact h'.setDown (by rw [hpc]; rfl) (fun _ => ht) (by simp) (fun _ _ => rfl)
    (by simp [hpc, Pc.closing])

/-- `conn.Close` of the target's relay. -/
theorem Inv.downClose (h : Inv A B s) {mem : Bool} {x : Pair × Option Pc}
    (hs : s.closeStep s.down mem = some x) : Inv A B { x.1 with down := x.2.getD .done } := by
  have hpc := closeStep_copied hs
  have hw := h.tarWritten hpc
  have hchunk : [] = s.down.chunk := hw.2.symm
  have htc : s.down ≠ .closeTar → s.tarClosed = true := h.downClosed hpc
  cases hd : s.down <;> simp only [hd, Pair.closeStep, reduceCtorEq] at hs
  case close =>
    have ht := htc (by rw [hd]; simp)
    split at hs <;> cases hs
    · rename_i ho
      have h' : Inv A B { s with down := .closeRead } :=
        h.setDown hchunk (fun _ => hw.1) (by simp) (fun _ _ => ht) (by simp [ho])
      exact { h' with onceDone := by simp, running := fun _ => .inr rfl }
    · rename_i ho
      exact h.setDown hchunk (fun _ => hw.1) (by simp) (fun _ _ => ht) (by simp [ho])
  case closeRead =>
    have ht := htc (by rw [hd]; simp)
    cases hs
    have h' : Inv A B { s with down := .closeWrite } :=
      h.setDown hchunk (fun _ => hw.1) (by simp) (fun _ _ => ht) (fun _ _ => rfl)
    exact { h' with reader := fun _ => (h.tarClosed ht).1 }
  case closeWrite =>
    have ht := htc (by rw [hd]; simp)
    split at hs <;> cases hs
    · exact (h.setDone hw s.txShut).setDown hchunk (fun _ => hw.1) (by simp) (fun _ _ => ht) (by simp)
    · rename_i st hst
      exact (h.setState hw hst).setDown hchunk (fun _ => hw.1) (fun _ => hw) (fun _ _ => ht)
        (fun _ _ => rfl)
  case shutdown =>
    have ht := htc (by rw [hd]; simp)
    cases hs
    exact (h.setDone hw _).setDown hchunk (fun _ => hw.1) (by simp) (fun _ _ => ht) (by simp)

theorem Inv.down_step (h : Inv A B s) {n : Nat} {mem : Bool} (hs : s.downStep n mem = some s')
    (hc : Harmless s (.relay .down n mem)) : Inv A B s' := by
  unfold Pair.downStep at hs
  split at hs
  case h_1 hpc =>
    split at hs
    · rename_i ht
      cases hs
      have htar : s.tar = [] := ht.elim (fun ht => (h.tarClosed ht).2.2) id
      exact h.setDown (by rw [hpc]; rfl) (fun _ => htar) (by simp) (by simp)
        (by simp [hpc, Pc.closing])
    · rename_i ht
      split at hs <;> cases hs
      exact h.downRead hpc (fun htar => ht (.inr htar)) n
  case h_2 c hpc =>
    split at hs <;> cases hs
    · exact h.setDown (by rw [hpc]; rfl) (by simp [Pc.copied]) (by simp) (by simp [Pc.copied])
        (by simp [hpc, Pc.closing])
    · rename_i hp _
      have hw := h.writeEnd hp
      exact h.setDown hw.2.symm (fun _ => hw.1) (by simp) (by simp) (by simp [hpc, Pc.closing])
  case h_3 c hpc =>
    split at hs
    · rename_i ht
      cases hs
      have hw := h.txShut ht
      exact h.setDown hw.2.symm (fun _ => hw.1) (by simp) (by simp) (by simp [hpc, Pc.closing])
    · split at hs <;> cases hs
      exact h.downWrite hpc n
  case h_4 hpc => cases hs; exact h.downCloseTar hpc (hc hpc)
  case h_5 =>
    obtain ⟨x, hx, rfl⟩ := Option.map_eq_some_iff.1 hs
    exact h.downClose hx

/-! ### lwIP -/

/-- lwIP passes data on: it drops none. -/
theorem Inv.receive (h : Inv A B s) {k : Nat} (hs : s.receive k = some s') : Inv A B s' := by
  unfold Pair.receive at hs
  split at hs
  case isFalse => cases hs
  case isTrue hk =>
    obtain ⟨-, happ, hpiped, -⟩ := hk
    have no : ∀ {P : Prop}, s.AppRead → P := fun ha => absurd ha.1 happ
    have hpass : s.state.readCheck = .pass :=
      Classical.byContradiction fun hr => no (h.readEnd hr).1
    split at hs
    · rename_i hr
      exact absurd (h.rxShut.symm.trans hr) (by simp)
    · split at hs
      · split at hs <;> cases hs
        · rename_i hp
          exact no (h.appRead hp)
        · refine { h with
            flowUp := ?_
            upCopied := fun hc => no (h.upCopied hc)
            tarClosed := fun ht => no (h.tarClosed ht).1
            reader := fun hr => no (h.reader hr)
            writer := fun hw => no (h.writer hw)
            readEnd := fun hr => absurd hpass hr }
          have := h.flowUp
          rw [hpiped] at this
          simpa using this
      · rename_i hr
        cases hst : s.state <;>
          simp [hst, TcpConnState.receiveCheck, TcpConnState.readCheck, TcpConnState.num] at hr hpass
      · cases hs

/-- The app's FIN. -/
theorem Inv.fin (h : Inv A B s) (hs : s.fin = some s') : Inv A B s' := by
  unfold Pair.fin at hs
  split at hs
  case isFalse => cases hs
  case isTrue hk =>
    obtain ⟨happ, hpiped, -, -⟩ := hk
    have ha : s.AppRead := ⟨happ, hpiped⟩
    split at hs <;> cases hs
    · rename_i hst
      refine { h with finSeen := fun _ => (h.readEnd fun hr => ?_).2 }
      cases hx : s.state <;> simp [hx, TcpConnState.setLocalClosed, TcpConnState.readCheck,
        TcpConnState.num] at hst hr
    · rename_i st hst
      refine { h with
        writer := fun _ => ha
        readEnd := fun _ => ⟨ha, rfl⟩
        finSeen := fun _ => rfl
        writeEnd := fun hw => ?_
        state := ?_ }
      · rcases TcpConnState.setLocalClosed_eq_some hst with ⟨hold, -⟩ | ⟨-, rfl⟩
        · exact h.writeEnd (by rw [hold]; decide)
        · exact absurd rfl hw
      · rcases TcpConnState.setLocalClosed_eq_some hst with ⟨-, rfl⟩ | ⟨-, rfl⟩ <;> simp

theorem Inv.step (h : Inv A B s) {a : Act} (hs : Relay.step s a = some s') (hc : Harmless s a) :
    Inv A B s' := by
  cases a with
  | relay r n mem =>
    cases r with
    | up => exact h.up_step hs hc
    | down => exact h.down_step hs hc
  | readDone =>
    simp only [Relay.step] at hs
    split at hs <;> cases hs
    rename_i hk
    exact h.setUp (by rw [hk.1]; rfl) (fun _ => h.appRead hk.2) (by simp) (by simp)
      (by simp [hk.1, Pc.closing])
  | receive k => exact h.receive hs
  | writeDone =>
    simp only [Relay.step] at hs
    split at hs <;> cases hs
    rename_i hk
    exact absurd (h.appRead hk.2).2 hk.1
  | fin => exact h.fin hs
  | connected =>
    simp only [Relay.step] at hs
    split at hs <;> cases hs
    exact { h with
      readEnd := fun hr => absurd rfl hr, writeEnd := fun hw => absurd rfl hw, state := by simp }
  | checkClosing =>
    simp only [Relay.step] at hs
    split at hs <;> cases hs
    rename_i hst
    have ha := h.readEnd (by rw [hst]; decide)
    have hw := h.writeEnd (by rw [hst]; decide)
    exact { h with
      reader := fun _ => ha.1
      writer := fun _ => ha.1
      readEnd := fun _ => ⟨ha.1, rfl⟩
      finSeen := fun _ => rfl
      writeEnd := fun _ => hw
      txShut := fun _ => hw
      state := by simp [Pair.release] }

theorem inv_run {tr : List (Pair × Act)} (hr : Run Relay.step (start A B) tr s)
    (hc : Meets Harmless tr) : Inv A B s :=
  hr.inv hc (inv_start A B) fun _ _ _ hi hc hs => hi.step hs hc

/-! ## Every run is finite -/

/-- What a relay has left to do, the bytes not yet read apart. -/
def Pc.left (r : Side) : Pc → Nat
  | .write c => 10 + 2 * c.length
  | .writeLwip c => 9 + 2 * c.length
  | .read => 8
  | .readPipe => 7
  | .readWait => 6
  | .close => 5
  | .closeRead => 4
  | .closeWrite => 3
  | .shutdown => 2
  | .closeTar => match r with
    | .up => 1
    | .down => 6
  | .done => 0

/-- The connect goroutine and `checkClosing`. -/
def stateLeft : TcpConnState → Nat
  | .newConn | .connecting => 2
  | .closed | .errored => 0
  | _ => 1

def Pair.left (s : Pair) : Nat :=
  8 * s.app.length + 7 * s.piped.length + 5 * s.tar.length + s.up.left .up + s.down.left .down +
    stateLeft s.state + (!s.finSeen).toNat

/-- A write of some of `c` and what follows it. -/
theorem left_drop (r : Side) (c : Bytes) {n : Nat} (hn : 0 < n) :
    (if c.drop n = [] then Pc.read else .write (c.drop n)).left r < (Pc.writeLwip c).left r := by
  split
  · simp only [Pc.left]; omega
  · rename_i hc
    have : n < c.length := by simpa using hc
    simp only [Pc.left, List.length_drop]
    omega

theorem left_take {l : Bytes} {n : Nat} (hn : 0 < n) (hl : l ≠ []) (r : Side) :
    5 * (l.drop n).length + (Pc.write (l.take n)).left r < 5 * l.length + 8 := by
  have : 0 < l.length := List.length_pos_iff.2 hl
  simp only [Pc.left, List.length_drop, List.length_take]
  omega

theorem closeWrite_left {st st' : TcpConnState} (h : st.closeWrite = some st') :
    stateLeft st' ≤ stateLeft st := by
  rcases TcpConnState.closeWrite_eq_some h with ⟨rfl, rfl⟩ | ⟨rfl | rfl | rfl, rfl⟩ <;> decide

theorem setLocalClosed_left {st st' : TcpConnState} (h : st.setLocalClosed = some st') :
    stateLeft st' ≤ stateLeft st := by
  rcases TcpConnState.setLocalClosed_eq_some h with ⟨rfl, rfl⟩ | ⟨rfl | rfl | rfl, rfl⟩ <;> decide

theorem closeStep_left {pc : Pc} {mem : Bool} {x : Pair × Option Pc}
    (h : s.closeStep pc mem = some x) (r : Side) (last : Pc) (hl : last.left r ≤ 1) :
    (x.2.getD last).left r < pc.left r ∧ stateLeft x.1.state ≤ stateLeft s.state ∧
      x.1.app = s.app ∧ x.1.piped = s.piped ∧ x.1.tar = s.tar ∧ x.1.finSeen = s.finSeen ∧
      x.1.up = s.up ∧ x.1.down = s.down := by
  cases pc <;> simp only [Pair.closeStep, reduceCtorEq] at h
  case close =>
    split at h <;> cases h
    · exact ⟨by simp [Pc.left], Nat.le_refl _, rfl, rfl, rfl, rfl, rfl, rfl⟩
    · exact ⟨Nat.lt_of_le_of_lt hl (by simp [Pc.left]), Nat.le_refl _, rfl, rfl, rfl, rfl, rfl, rfl⟩
  case closeRead =>
    cases h
    exact ⟨by simp [Pc.left], Nat.le_refl _, rfl, rfl, rfl, rfl, rfl, rfl⟩
  case closeWrite =>
    split at h <;> cases h
    · exact ⟨Nat.lt_of_le_of_lt hl (by simp [Pc.left]), Nat.le_refl _, rfl, rfl, rfl, rfl, rfl, rfl⟩
    · exact ⟨by simp [Pc.left], closeWrite_left ‹_›, rfl, rfl, rfl, rfl, rfl, rfl⟩
  case shutdown =>
    cases h
    exact ⟨Nat.lt_of_le_of_lt hl (by simp [Pc.left]), Nat.le_refl _, rfl, rfl, rfl, rfl, rfl, rfl⟩

theorem upStep_left {n : Nat} {mem : Bool} (hs : s.upStep n mem = some s') : s'.left < s.left := by
  unfold Pair.upStep at hs
  split at hs
  case h_1 hpc =>
    cases hs
    simp only [Pair.left, hpc]
    split <;> simp only [Pc.left] <;> omega
  case h_2 hpc =>
    cases hs
    simp only [Pair.left, hpc]
    split <;> simp only [Pc.left] <;> omega
  case h_3 hpc =>
    split at hs <;> cases hs
    rename_i hn
    have := left_take hn.1 hn.2 .up
    have : 0 < s.piped.length := List.length_pos_iff.2 hn.2
    simp only [Pair.left, hpc, Pc.left, List.length_drop, List.length_take] at *
    omega
  case h_4 c hpc =>
    split at hs
    · cases hs
      simp only [Pair.left, hpc, Pc.left]
      omega
    · split at hs <;> cases hs
      rename_i hn
      have := left_drop .up c hn
      simp only [Pair.left, hpc] at *
      simp only [Pc.left] at *
      omega
  case h_5 hpc =>
    cases hs
    simp only [Pair.left, hpc, Pc.left]
    omega
  case h_6 =>
    obtain ⟨x, hx, rfl⟩ := Option.map_eq_some_iff.1 hs
    obtain ⟨h1, h2, h3, h4, h5, h6, -, h8⟩ := closeStep_left hx .up .closeTar (by decide)
    simp only [Pair.left, h3, h4, h5, h6, h8] at *
    omega

theorem downStep_left {n : Nat} {mem : Bool} (hs : s.downStep n mem = some s') :
    s'.left < s.left := by
  unfold Pair.downStep at hs
  split at hs
  case h_1 hpc =>
    split at hs
    · cases hs
      simp only [Pair.left, hpc, Pc.left]
      omega
    · rename_i ht
      split at hs <;> cases hs
      rename_i hn
      have := left_take hn (fun htar => ht (.inr htar)) .down
      simp only [Pair.left, hpc] at *
      simp only [Pc.left] at *
      omega
  case h_2 c hpc =>
    split at hs <;> cases hs <;> simp only [Pair.left, hpc, Pc.left] <;> omega
  case h_3 c hpc =>
    split at hs
    · cases hs
      simp only [Pair.left, hpc, Pc.left]
      omega
    · split at hs <;> cases hs
      rename_i hn
      have := left_drop .down c hn
      simp only [Pair.left, hpc] at *
      omega
  case h_4 hpc =>
    cases hs
    simp only [Pair.left, hpc, Pc.left]
    omega
  case h_5 =>
    obtain ⟨x, hx, rfl⟩ := Option.map_eq_some_iff.1 hs
    obtain ⟨h1, h2, h3, h4, h5, h6, h7, -⟩ := closeStep_left hx .down .done (by decide)
    simp only [Pair.left, h3, h4, h5, h6, h7] at *
    omega

theorem receive_left {k : Nat} (hs : s.receive k = some s') : s'.left < s.left := by
  unfold Pair.receive at hs
  split at hs
  case isFalse => cases hs
  case isTrue hk =>
    obtain ⟨hk, happ, hpiped, -⟩ := hk
    have hpos : 0 < s.app.length := List.length_pos_iff.2 happ
    have hdrop : (s.drop k).left < s.left := by
      simp only [Pair.left, Pair.drop, hpiped, List.length_drop]
      omega
    split at hs
    · cases hs
      simp only [Pair.left, Pair.release, List.length_nil, stateLeft]
      omega
    · split at hs
      · split at hs <;> cases hs
        · exact hdrop
        · simp only [Pair.left, hpiped, List.length_drop, List.length_take, List.length_nil]
          omega
      · cases hs; exact hdrop
      · cases hs

theorem step_left {a : Act} (hs : Relay.step s a = some s') : s'.left < s.left := by
  cases a with
  | relay r n mem =>
    cases r with
    | up => exact upStep_left hs
    | down => exact downStep_left hs
  | readDone =>
    simp only [Relay.step] at hs
    split at hs <;> cases hs
    rename_i hk
    simp only [Pair.left, hk.1, Pc.left]
    omega
  | receive k => exact receive_left hs
  | writeDone =>
    simp only [Relay.step] at hs
    split at hs <;> cases hs
    rename_i hk
    have : 0 < s.piped.length := List.length_pos_iff.2 hk.1
    simp only [Pair.left, Pair.drop, List.drop_zero, List.length_nil]
    omega
  | fin =>
    simp only [Relay.step, Pair.fin] at hs
    split at hs
    case isFalse => cases hs
    case isTrue hk =>
      split at hs <;> cases hs
      · simp [Pair.left, hk.2.2.1]
      · rename_i hst
        have := setLocalClosed_left hst
        simp only [Pair.left, hk.2.2.1, Bool.not_true, Bool.not_false, Bool.toNat_true,
          Bool.toNat_false]
        omega
  | connected =>
    simp only [Relay.step] at hs
    split at hs <;> cases hs
    rename_i hst
    simp only [Pair.left, hst, stateLeft]
    omega
  | checkClosing =>
    simp only [Relay.step] at hs
    split at hs <;> cases hs
    rename_i hst
    simp only [Pair.left, Pair.release, hst, stateLeft]
    omega

theorem length_run {tr : List (Pair × Act)} {s₀ : Pair} (hr : Run Relay.step s₀ tr s) :
    tr.length + s.left ≤ s₀.left := by
  induction hr with
  | nil => simp
  | snoc _ hs ih =>
    have := step_left hs
    simp only [List.length_append, List.length_singleton]
    omega

/-! ## A run that cannot go on -/

/-- Nobody has a step. -/
def Stuck (s : Pair) : Prop := ∀ a, Relay.step s a = none

theorem closeStep_none {pc : Pc} {mem : Bool} (h : s.closeStep pc mem = none)
    (hc : pc = .close ∨ pc.closing = true) : pc = .close ∧ s.closeOnce = .running := by
  cases pc <;> simp only [Pair.closeStep, Pc.closing] at h hc
  case close =>
    split at h <;> simp at h
    exact ⟨rfl, ‹_›⟩
  case closeWrite => split at h <;> simp at h
  all_goals simp at h hc

theorem closeStep_closing {pc : Pc} {mem : Bool} {x : Pair × Option Pc}
    (h : s.closeStep pc mem = some x) : ∀ pc' ∈ x.2, pc'.closing = true := by
  cases pc <;> simp only [Pair.closeStep, reduceCtorEq] at h
  case close => split at h <;> cases h <;> simp [Pc.closing]
  case closeRead => cases h; simp [Pc.closing]
  case closeWrite => split at h <;> cases h <;> simp [Pc.closing]
  case shutdown => cases h; simp

/-- Only the target's relay writes to the connection, only the app's reads from it. -/
structure Shape (s : Pair) : Prop where
  up : ∀ c, s.up ≠ .writeLwip c
  down : s.down ≠ .readPipe ∧ s.down ≠ .readWait

theorem Shape.step (h : Shape s) {a : Act} (hs : Relay.step s a = some s') : Shape s' := by
  cases a with
  | relay r n mem =>
    cases r with
    | up =>
      simp only [Relay.step, Pair.upStep] at hs
      split at hs
      case h_1 => cases hs; exact ⟨fun c => by split <;> simp, h.down⟩
      case h_2 => cases hs; exact ⟨fun c => by split <;> simp, h.down⟩
      case h_3 => split at hs <;> cases hs; exact ⟨by simp, h.down⟩
      case h_4 =>
        split at hs
        · cases hs; exact ⟨by simp, h.down⟩
        · split at hs <;> cases hs; exact ⟨fun c => by simp only; split <;> simp, h.down⟩
      case h_5 => cases hs; exact ⟨by simp, h.down⟩
      case h_6 =>
        obtain ⟨x, hx, rfl⟩ := Option.map_eq_some_iff.1 hs
        have hcl := closeStep_closing hx
        have hd := (closeStep_left hx .up .done (by decide)).2.2.2.2.2.2.2
        refine ⟨fun c => ?_, hd ▸ h.down⟩
        cases hpc : x.2 with
        | none => simp
        | some pc' =>
          have := hcl pc' (by rw [hpc]; rfl)
          rintro rfl
          cases this
    | down =>
      simp only [Relay.step, Pair.downStep] at hs
      split at hs
      case h_1 =>
        split at hs
        · cases hs; exact ⟨h.up, by simp⟩
        · split at hs <;> cases hs; exact ⟨h.up, by simp⟩
      case h_2 => split at hs <;> cases hs <;> exact ⟨h.up, by simp⟩
      case h_3 =>
        split at hs
        · cases hs; exact ⟨h.up, by simp⟩
        · split at hs <;> cases hs; exact ⟨h.up, by simp only; split <;> simp⟩
      case h_4 => cases hs; exact ⟨h.up, by simp⟩
      case h_5 =>
        obtain ⟨x, hx, rfl⟩ := Option.map_eq_some_iff.1 hs
        have hcl := closeStep_closing hx
        have hu := (closeStep_left hx .down .done (by decide)).2.2.2.2.2.2.1
        refine ⟨hu ▸ h.up, ?_⟩
        cases hpc : x.2 with
        | none => simp
        | some pc' =>
          have := hcl pc' (by rw [hpc]; rfl)
          constructor <;> rintro rfl <;> cases this
  | readDone => simp only [Relay.step] at hs; split at hs <;> cases hs; exact ⟨by simp, h.down⟩
  | receive k =>
    simp only [Relay.step, Pair.receive] at hs
    split at hs
    · split at hs
      · cases hs; exact ⟨h.up, h.down⟩
      · split at hs
        · split at hs <;> cases hs <;> exact ⟨h.up, h.down⟩
        · cases hs; exact ⟨h.up, h.down⟩
        · cases hs
    · cases hs
  | writeDone => simp only [Relay.step] at hs; split at hs <;> cases hs; exact ⟨h.up, h.down⟩
  | fin =>
    simp only [Relay.step, Pair.fin] at hs
    split at hs
    · split at hs <;> cases hs <;> exact ⟨h.up, h.down⟩
    · cases hs
  | connected => simp only [Relay.step] at hs; split at hs <;> cases hs; exact ⟨h.up, h.down⟩
  | checkClosing => simp only [Relay.step] at hs; split at hs <;> cases hs; exact ⟨h.up, h.down⟩

theorem shape_run {tr : List (Pair × Act)} (hr : Run Relay.step (start A B) tr s) : Shape s :=
  hr.inv' ⟨by simp [start], by simp [start]⟩ fun _ _ _ h hs => h.step hs

/-- The app's relay is done, waits for data or waits for `closeOnce`. -/
theorem up_of_stuck (h : Shape s) (hs : Stuck s) :
    s.up = .done ∨ s.up = .readWait ∨ (s.up = .close ∧ s.closeOnce = .running) := by
  have hup : s.upStep 1 false = none := hs (.relay .up 1 false)
  unfold Pair.upStep at hup
  split at hup
  case h_1 => cases hup
  case h_2 => cases hup
  case h_3 hpc => exact .inr (.inl hpc)
  case h_4 => split at hup <;> simp at hup
  case h_5 => cases hup
  case h_6 h1 h2 h3 h4 h5 =>
    rw [Option.map_eq_none_iff] at hup
    cases hpc : s.up with
    | done => exact .inl rfl
    | read => exact absurd hpc h1
    | readPipe => exact absurd hpc h2
    | readWait => exact absurd hpc h3
    | write c => exact absurd hpc (h4 c)
    | closeTar => exact absurd hpc h5
    | writeLwip c => exact absurd hpc (h.up c)
    | _ => exact .inr (.inr (hpc ▸ closeStep_none hup (by rw [hpc]; simp [Pc.closing])))

/-- The target's relay is done or waits for `closeOnce`. -/
theorem down_of_stuck (hi : Inv A B s) (h : Shape s) (hs : Stuck s) :
    s.down = .done ∨ (s.down = .close ∧ s.closeOnce = .running) := by
  have hdown : s.downStep 1 false = none := hs (.relay .down 1 false)
  unfold Pair.downStep at hdown
  split at hdown
  case h_1 => split at hdown <;> simp at hdown
  case h_2 =>
    split at hdown <;> simp at hdown
    rename_i hp
    cases hst : s.state <;> simp [hst, TcpConnState.writeCheck] at hp
    exact absurd hst hi.state.1
  case h_3 => split at hdown <;> simp at hdown
  case h_4 => cases hdown
  case h_5 h1 h2 h3 h4 =>
    rw [Option.map_eq_none_iff] at hdown
    cases hpc : s.down with
    | done => exact .inl rfl
    | read => exact absurd hpc h1
    | write c => exact absurd hpc (h2 c)
    | writeLwip c => exact absurd hpc (h3 c)
    | closeTar => exact absurd hpc h4
    | readPipe => exact absurd hpc h.down.1
    | readWait => exact absurd hpc h.down.2
    | _ => exact .inr (hpc ▸ closeStep_none hdown (by rw [hpc]; simp [Pc.closing]))

/-- lwIP has data or the FIN for a reader that waits. -/
theorem not_waiting (hi : Inv A B s) (hs : Stuck s) : s.up ≠ .readWait := by
  intro hpc
  have hpiped : s.piped = [] := by simpa [Relay.step, Pair.upStep, hpc] using hs (.relay .up 1 false)
  have hdone : s.pipeDone = false := by simpa [Relay.step, hpc] using hs .readDone
  have hwriter : s.sndPipeWriterClosed = false := (Bool.or_eq_false_iff.1 hdone).2
  have hst : s.state = .connected ∨ s.state = .writeClosed := by
    have hconn : s.state ≠ .connecting := by simpa [Relay.step] using hs .connected
    have hpass : s.state.readCheck = .pass := Classical.byContradiction fun hr =>
      absurd ((hi.readEnd hr).2.symm.trans hwriter) (by simp)
    cases hx : s.state <;> simp [hx, TcpConnState.readCheck, TcpConnState.num] at hpass hconn ⊢
    exact hi.state.1 hx
  have hlive : s.state.terminal = false := by rcases hst with h | h <;> rw [h] <;> rfl
  by_cases happ : s.app = []
  · have hfin : s.finSeen = false := by
      rw [← Bool.not_eq_true]
      intro hf
      exact absurd ((hi.finSeen hf).symm.trans hwriter) (by simp)
    have := hs .fin
    rcases hst with h | h <;>
      simp [Relay.step, Pair.fin, happ, hpiped, hfin, h, TcpConnState.setLocalClosed,
        TcpConnState.num, TcpConnState.terminal] at this
  · have := hs (.receive 1)
    rcases hst with h | h <;>
      simp [Relay.step, Pair.receive, happ, hpiped, hi.rxShut, hdone, h, TcpConnState.receiveCheck,
        TcpConnState.terminal] at this

theorem done_of_stuck (hi : Inv A B s) (h : Shape s) (hs : Stuck s) :
    s.up = .done ∧ s.down = .done := by
  have hup := (up_of_stuck h hs).imp_right (Or.resolve_left · (not_waiting hi hs))
  have hdown := down_of_stuck hi h hs
  -- a relay inside `closeOnce` has a step
  have hrun : s.closeOnce ≠ .running := fun ho => by
    rcases hi.running ho with hc | hc
    · rcases hup with hu | ⟨hu, -⟩ <;> rw [hu] at hc <;> cases hc
    · rcases hdown with hd | ⟨hd, -⟩ <;> rw [hd] at hc <;> cases hc
  exact ⟨hup.resolve_right fun hu => hrun hu.2, hdown.resolve_right fun hd => hrun hd.2⟩

/-- The relays of every run in which no close comes before the other stream's bytes: the run is
finite, no byte is lost, doubled or out of order, and when nobody has a step any more both streams
are written in full. -/
theorem relay_delivers {tr : List (Pair × Act)} (hr : Run Relay.step (start A B) tr s)
    (hc : Meets Harmless tr) :
    tr.length ≤ 8 * A.length + 5 * B.length + 19 ∧ s.toTar <+: A ∧ s.toApp <+: B ∧
      (Stuck s → s.toTar = A ∧ s.toApp = B) := by
  have hi := inv_run hr hc
  refine ⟨?_, ⟨_, hi.flowUp⟩, ⟨_, hi.flowDown⟩, fun hs => ?_⟩
  · have := length_run hr
    simp only [start, Pair.left, Pc.left, stateLeft, List.length_nil, Bool.not_false,
      Bool.toNat_true] at this
    omega
  · obtain ⟨hu, hd⟩ := done_of_stuck hi (shape_run hr) hs
    have hflow := hi.flowUp
    have hflow' := hi.flowDown
    have ha := hi.upCopied (by rw [hu]; rfl)
    rw [hu, ha.1, ha.2] at hflow
    rw [hd, hi.downCopied (by rw [hd]; rfl)] at hflow'
    exact ⟨by simpa [Pc.chunk] using hflow, by simpa [Pc.chunk] using hflow'⟩

end

/-- Both relays are done and lwIP has freed the pcb. -/
def Pair.ended (s : Pair) : Bool :=
  s.up = .done ∧ s.down = .done ∧ s.app = [] ∧ s.piped = [] ∧ s.finSeen = true ∧ s.state = .closed

theorem Pair.ended.stuck {s : Pair} (h : s.ended = true) : Stuck s := by
  obtain ⟨hu, hd, happ, hpiped, hfin, hst⟩ := of_decide_eq_true h
  intro a
  cases a with
  | relay r n mem => cases r <;> simp [step, upStep, downStep, hu, hd, closeStep]
  | receive k => simp [step, receive, happ]
  | fin => simp [step, fin, hfin]
  | _ => simp [step, hu, hpiped, hst]

/-- Sections of a relay that move no bytes. -/
def sections (r : Side) (k : Nat) : List Act := List.replicate k (.relay r 0 false)

/-- The app's FIN, and what both relays do when they have copied their streams. -/
def finActs : List Act := Act.fin :: sections .up 6 ++ sections .down 3 ++ [Act.checkClosing]

/-- The target's byte is read and written before the app's FIN. -/
theorem relay_delivers_both :
    ∃ tr s, Run step (start [65] [66]) tr s ∧ Meets Harmless tr ∧ Stuck s ∧ s.toTar = [65] ∧
      s.toApp = [66] := by
  let acts : List Act :=
    [.connected, .relay .up 0 false, .relay .up 0 false, .receive 1, .relay .up 1 false,
      .relay .up 1 false, .relay .down 1 false, .relay .down 0 false, .relay .down 1 false] ++ finActs
  obtain ⟨s, hr, hs⟩ := exists_run step (start [65] [66]) acts
    Pair.ended (by decide)
  have hc : Meets Harmless (execTrace step (start [65] [66]) acts) := by decide
  have hst := Pair.ended.stuck hs
  exact ⟨_, s, hr, hc, hst, (relay_delivers hr hc).2.2.2 hst⟩

/-- The app sends its FIN first; its relay closes both connections and the target's byte is lost. -/
theorem half_close_truncates :
    ¬ ∀ A B tr s, Run step (start A B) tr s → Stuck s → s.toTar = A ∧ s.toApp = B := by
  intro h
  obtain ⟨s, hr, hs⟩ := exists_run step (start [] [66]) (.connected :: finActs)
    (fun s => s.ended && s.toApp == []) (by decide)
  rw [Bool.and_eq_true, beq_iff_eq] at hs
  have := (h [] [66] _ s hr (Pair.ended.stuck hs.1)).2
  rw [hs.2] at this
  cases this

end Relay
