import Mathlib.Algebra.Order.Ring.Nat
import Mathlib.Data.BitVec

/-!
# Timers (`c/core/timeouts.c`)

The list of timeouts and the loop that the Go side runs every 250 ms. The clock counts milliseconds
and does not go back; `sys_now` is its lower 32 bits, so times are compared by their difference. A
timeout that cannot be allocated fails an assertion, which aborts the program, and is left out.

The timers are those of the options that are on: TCP's, which runs while there are pcbs, and the
cyclic ones for the fragments of IPv4 and IPv6 and for neighbours. Nothing calls `sys_untimeout`.
-/

namespace Lwip

/-- `TIME_LESS_THAN`. -/
def timeLessThan (t compareTo : BitVec 32) : Bool := 0x7fffffff < (t - compareTo).toNat

/-- `lwip_cyclic_timers`, but for the one at index 0, which is TCP's. -/
inductive Cyclic
  | ipReassTmr
  | nd6Tmr
  | ip6ReassTmr
  deriving DecidableEq, Repr

def Cyclic.intervalMs : Cyclic → Nat
  | .ipReassTmr => 1000
  | .nd6Tmr => 1000
  | .ip6ReassTmr => 1000

def cyclicTimers : List Cyclic := [.ipReassTmr, .nd6Tmr, .ip6ReassTmr]

/-- `TCP_TMR_INTERVAL`. -/
def tcpTmrInterval : Nat := 250

/-- A `sys_timeout_handler` with its argument. -/
inductive Handler
  | tcpipTcpTimer
  | cyclicTimer (cyclic : Cyclic)
  deriving DecidableEq, Repr

/-- `struct sys_timeo`. -/
structure SysTimeo where
  time : BitVec 32
  h : Handler
  deriving DecidableEq, Repr

structure Timeouts where
  /-- The clock, in milliseconds. -/
  clock : Nat
  nextTimeout : List SysTimeo := []
  currentTimeoutDueTime : BitVec 32 := 0
  tcpTimerActive : Bool := false
  /-- `tcp_active_pcbs || tcp_tw_pcbs`. -/
  pcbs : Bool := false
  deriving DecidableEq, Repr

/-- The loop of `sys_timeout_abs`: behind the timeouts that are not later. -/
def insertTimeout (timeout : SysTimeo) : List SysTimeo → List SysTimeo
  | [] => [timeout]
  | t :: ts =>
    if timeLessThan timeout.time t.time then timeout :: t :: ts else t :: insertTimeout timeout ts

namespace Timeouts

variable (s : Timeouts)

def sysNow : BitVec 32 := BitVec.ofNat 32 s.clock

def sysTimeoutAbs (absTime : BitVec 32) (h : Handler) : Timeouts :=
  { s with nextTimeout := insertTimeout ⟨absTime, h⟩ s.nextTimeout }

def sysTimeout (msecs : Nat) (h : Handler) : Timeouts :=
  s.sysTimeoutAbs (s.sysNow + BitVec.ofNat 32 msecs) h

/-- `tcp_timer_needed`. -/
def tcpTimerNeeded : Timeouts :=
  if s.tcpTimerActive = false ∧ s.pcbs = true then
    { s with tcpTimerActive := true }.sysTimeout tcpTmrInterval .tcpipTcpTimer
  else s

/-- How the function of a timer went: how long it took, and whether there are pcbs then. -/
structure Ran where
  ms : Nat := 0
  pcbs : Bool := false
  deriving DecidableEq, Repr

/-- `tcpip_tcp_timer`, after `tcp_tmr`. -/
def tcpipTcpTimer (pcbs : Bool) : Timeouts :=
  if pcbs then { s with pcbs }.sysTimeout tcpTmrInterval .tcpipTcpTimer
  else { s with pcbs, tcpTimerActive := false }

/-- `lwip_cyclic_timer`, after the function of the timer. -/
def lwipCyclicTimer (cyclic : Cyclic) : Timeouts :=
  let now := s.sysNow
  let nextTimeoutTime := s.currentTimeoutDueTime + BitVec.ofNat 32 cyclic.intervalMs
  if timeLessThan nextTimeoutTime now then
    -- the timer would expire again at once: it is restarted without a correction
    s.sysTimeoutAbs (now + BitVec.ofNat 32 cyclic.intervalMs) (.cyclicTimer cyclic)
  else s.sysTimeoutAbs nextTimeoutTime (.cyclicTimer cyclic)

def call (h : Handler) (r : Ran) : Timeouts :=
  let s := { s with clock := s.clock + r.ms }
  match h with
  | .tcpipTcpTimer => s.tcpipTcpTimer r.pcbs
  | .cyclicTimer cyclic => s.lwipCyclicTimer cyclic

/-- The loop of `sys_check_timeouts`, with the timeouts that have expired. -/
def checkLoop (now : BitVec 32) : Nat → List Ran → Timeouts → Option (Timeouts × List SysTimeo)
  | 0, _, _ => none
  | turns + 1, rs, s =>
    match s.nextTimeout with
    | [] => some (s, [])
    | t :: ts =>
      if timeLessThan now t.time then some (s, [])
      else
        let s := { s with nextTimeout := ts, currentTimeoutDueTime := t.time }
        (checkLoop now turns rs.tail (s.call t.h (rs.headD {}))).map fun (s, fired) => (s, t :: fired)

/-- `sys_check_timeouts`; `rs` says how the functions that it calls went. -/
def sysCheckTimeouts (turns : Nat) (rs : List Ran) : Option (Timeouts × List SysTimeo) :=
  checkLoop s.sysNow turns rs s

def sysRestartTimeouts : Timeouts :=
  match s.nextTimeout with
  | [] => s
  | t :: _ =>
    { s with nextTimeout := s.nextTimeout.map fun x => { x with time := x.time - t.time + s.sysNow } }

/-- `sys_timeouts_init`. -/
def sysTimeoutsInit : Timeouts :=
  cyclicTimers.foldl (fun s cyclic => s.sysTimeout cyclic.intervalMs (.cyclicTimer cyclic)) s

/-- What happens to the timers. -/
inductive Act
  /-- Time passes. -/
  | pass (ms : Nat)
  /-- `TCP_REG` of an active pcb. -/
  | register
  /-- The last pcb is removed. -/
  | unregister
  | check (rs : List Ran)
  /-- The program sleeps, and the timeouts are restarted then. -/
  | sleep (ms : Nat)
  deriving DecidableEq, Repr

/-- Two turns for each timer and a last one are enough (`check_timely`). -/
def turns : Nat := 2 * s.nextTimeout.length + 1

def step (s : Timeouts) : Act → Option Timeouts
  | .pass ms => some { s with clock := s.clock + ms }
  | .register => some { s with pcbs := true }.tcpTimerNeeded
  | .unregister => some { s with pcbs := false }
  | .check rs => (s.sysCheckTimeouts s.turns rs).map Prod.fst
  | .sleep ms => some { s with clock := s.clock + ms }.sysRestartTimeouts

end Timeouts

end Lwip
