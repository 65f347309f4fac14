import Fasten.Lib.Dict
import Fasten.Lib.Trace

set_option autoImplicit false

/-! # A drainer of the Go engine

`cFastenDrainer` (`go/drainer.go`) keeps each row of `Emit` in its `pending` map until the row is
handled, and hands it to a drainer of fasten-core, whose thread calls back to insert it. A step is what
one thread does between two points where others can come in between; a step under `pendingMu` reads and
writes what that mutex guards. A row is the number of the `Emit` call that made it, for the id that
`Emit` mints.

Of fasten-core's drainer the model has what the callbacks see: a queue and one thread that takes rows
off it in order and calls `insert` until the row is settled. Its thread does not panic. The clock and
the answers of the store come with the step. -/

namespace Fasten.GoDrainer

/-! ## Data -/

/-- What a call of the store ends with. -/
inductive StoreResult where
  | stored
  /-- an error that `rejectsRow` tells as the store's refusal of the row itself -/
  | rejected
  | failed
  deriving DecidableEq

/-- What the insert callback returns: 0, 1 or `FASTEN_INSERT_REJECTED`. -/
inductive Answer where
  | stored
  | failed
  | rejected
  deriving DecidableEq

def Answer.ofFailure (rejected : Bool) : Answer := if rejected then .rejected else .failed

/-- The sys events that name a row. -/
inductive SysEvent where
  /-- `audit_drain_row_not_pending` -/
  | rowNotPending
  /-- `audit_drain_dead_letter` -/
  | deadLetter
  /-- `audit_drain_lost_at_stop` -/
  | lostAtStop
  /-- `audit_drain_abandoned` -/
  | abandoned
  /-- `audit_drain_stored_inline` -/
  | storedInline
  /-- `audit_sync_fallback_failed` -/
  | syncFallbackFailed
  deriving DecidableEq

inductive Event where
  /-- The row is put into the pending map. -/
  | registered (row : Nat)
  /-- fasten-core takes the row. -/
  | accepted (row : Nat)
  /-- fasten-core refuses the row, and its `Emit` stores it. -/
  | takenBack (row : Nat)
  | stored (row : Nat)
  /-- `d.lost.Add(1)` for the row. -/
  | counted (row : Nat)
  | sys (e : SysEvent) (row : Nat)
  deriving DecidableEq

/-- fasten-core's drain thread, with the row in its hands and the number of calls of `insert` that have
    ended for it. -/
inductive Drain where
  | idle
  | calling (row attempt : Nat)
  /-- in `storeRow`, with the `attempts` of the pending row -/
  | storing (row attempt attempts : Nat)
  | settling (row attempt : Nat)
  /-- at the lock after the row's last attempt has failed -/
  | failing (row attempt : Nat) (rejected : Bool)
  /-- at `d.lost.Add(1)` -/
  | counting (row attempt : Nat) (rejected : Bool)
  /-- The callback has returned. -/
  | answered (row attempt : Nat) (answer : Answer)
  | exited
  deriving DecidableEq

/-- The row in the drain thread's hands. -/
def Drain.hand : Drain → List Nat
  | .calling row _ | .storing row _ _ | .settling row _ | .failing row _ _ | .counting row _ _
  | .answered row _ _ => [row]
  | .idle | .exited => []

/-- The goroutine in `retire`. -/
inductive Retire where
  /-- The drainer has not been taken out. -/
  | notYet
  | flushing
  /-- from `fasten_drainer_close` until the lock of `use` is taken -/
  | closing
  /-- in `storeRow` for a row it found pending; `rest` is still to come -/
  | storing (row : Nat) (rest : List Nat)
  /-- at the lock after it -/
  | handling (row : Nat) (stored : Bool) (rest : List Nat)
  /-- `loseAtStop`, at its counter and at its event -/
  | losing (row : Nat) (rest : List Nat)
  | telling (row : Nat) (rest : List Nat)
  | done
  deriving DecidableEq

/-- The `Close` in `reportUnstored`. -/
inductive Report where
  | unasked
  /-- between its two locks -/
  | begun
  /-- `loseAtStop` for the rows it found pending, at its counter and at its event -/
  | losing (rows : List Nat)
  | telling (row : Nat) (rows : List Nat)
  | finished
  deriving DecidableEq

structure Drainer where
  gen : Nat
  maxAttempts : Nat
  /-- the rows held, with their `attempts`, oldest first -/
  pending : List (Nat × Nat)
  lost : Nat
  report : Report
  /-- `ctx` has been cancelled. -/
  cancelled : Bool
  deadline : Bool
  closed : Bool
  /-- the rows whose `Emit` is in `fasten_drainer_enqueue` and holds `use` for reading -/
  entering : List Nat
  /-- the calls in `fasten_drainer_flush` that hold `use` for reading -/
  flushes : List Nat
  /-- every row registered so far: ids are minted anew -/
  seen : List Nat
  queue : List Nat
  /-- fasten-core's `stop` -/
  stopped : Bool
  drain : Drain
  retire : Retire
  deriving DecidableEq

/-- `newCFastenDrainer`. -/
def Drainer.new (gen maxAttempts : Nat) : Drainer :=
  ⟨gen, maxAttempts, [], 0, .unasked, false, false, false, [], [], [], [], false, .idle, .notYet⟩

/-- What a thread does to a drainer in one step. -/
inductive Op where
  /-- `enqueue`, at its lock of `pending` -/
  | register (row : Nat)
  /-- the end of `fasten_drainer_enqueue` -/
  | accept (row : Nat)
  | refuse (row : Nat)
  /-- `flush`, as it takes `use` and as it lets it go -/
  | enterFlush (call : Nat)
  | leaveFlush (call : Nat)
  | drain (result : StoreResult)
  | takeOut (deadline : Bool)
  | retire (result : StoreResult)
  /-- The deadline of `retire` passes. -/
  | cancel
  | report
  deriving DecidableEq

/-! ## Steps -/

namespace Drainer

variable (d : Drainer)

def isPending (row : Nat) : Bool := (Dict.get? d.pending row).isSome

def reported : Bool := d.report != .unasked

/-- `delete(d.pending, row)`. -/
def settle (row : Nat) : Drainer := { d with pending := Dict.drop d.pending [row] }

/-- `goSysLogCallback`: a row that is still pending will be handled by `retire`. -/
def sysLog (e : SysEvent) (row : Nat) : List Event := if d.isPending row then [] else [.sys e row]

/-- `insert` after a failed `storeRow`. -/
def afterFailure (row attempt attempts : Nat) (rejected : Bool) : Drain :=
  if rejected ∨ d.maxAttempts ≤ attempts then .failing row attempt rejected
  else .answered row attempt .failed

/-- What fasten-core does with the callback's answer. -/
def judge (row attempt : Nat) (answer : Answer) : Drainer × List Event :=
  if answer = .stored then ({ d with drain := .idle }, [])
  else if d.stopped then ({ d with drain := .idle }, d.sysLog .lostAtStop row)
  else if answer = .rejected ∨ d.maxAttempts ≤ attempt + 1 then
    ({ d with drain := .idle }, d.sysLog .deadLetter row)
  else ({ d with drain := .calling row (attempt + 1) }, [])

def stepDrain (result : StoreResult) : Option (Drainer × List Event) :=
  match d.drain with
  | .idle =>
    match d.queue with
    | row :: rest => some ({ d with queue := rest, drain := .calling row 0 }, [])
    | [] => if d.stopped then some ({ d with drain := .exited }, []) else none
  | .calling row attempt =>
    match Dict.get? d.pending row with
    | none => some ({ d with drain := .answered row attempt .stored }, [.sys .rowNotPending row])
    | some attempts =>
      -- past the deadline `storeRow` does not try
      some ({ d with
        pending := Dict.adjust d.pending row (· + 1)
        drain :=
          if d.cancelled then d.afterFailure row attempt (attempts + 1) false
          else .storing row attempt (attempts + 1) }, [])
  | .storing row attempt attempts =>
    match result with
    | .stored => some ({ d with drain := .settling row attempt }, [.stored row])
    | .rejected => some ({ d with drain := d.afterFailure row attempt attempts true }, [])
    | .failed => some ({ d with drain := d.afterFailure row attempt attempts false }, [])
  | .settling row attempt => some ({ d.settle row with drain := .answered row attempt .stored }, [])
  | .failing row attempt rejected =>
    if d.reported then
      some ({ d with drain := .answered row attempt (.ofFailure rejected) }, [])
    else some ({ d.settle row with drain := .counting row attempt rejected }, [])
  | .counting row attempt rejected =>
    some ({ d with
      lost := d.lost + 1
      drain := .answered row attempt (.ofFailure rejected) }, [.counted row])
  | .answered row attempt answer => some (d.judge row attempt answer)
  | .exited => none

/-- `retire` turns to the next of the rows it found pending. -/
def retireNext : List Nat → Retire
  | [] => .done
  | row :: rest => if d.cancelled then .handling row false rest else .storing row rest

def stepRetire (result : StoreResult) : Option (Drainer × List Event) :=
  match d.retire with
  | .notYet | .done => none
  | .flushing => some ({ d with stopped := true, retire := .closing }, [])
  | .closing =>
    if d.drain = .exited ∧ d.entering = [] ∧ d.flushes = [] then
      some ({ d with closed := true, retire := d.retireNext (Dict.keys d.pending) }, [])
    else none
  | .storing row rest =>
    if result = .stored then some ({ d with retire := .handling row true rest }, [.stored row])
    else some ({ d with retire := .handling row false rest }, [])
  | .handling row stored rest =>
    let next := if d.reported ∨ stored then d.retireNext rest else .losing row rest
    some ({ d.settle row with retire := next }, [])
  | .losing row rest =>
    some ({ d with lost := d.lost + 1, retire := .telling row rest }, [.counted row])
  | .telling row rest => some ({ d with retire := d.retireNext rest }, [.sys .lostAtStop row])

def stepReport : Option (Drainer × List Event) :=
  match d.report with
  | .unasked => if d.retire = .notYet then none else some ({ d with report := .begun }, [])
  | .begun => some ({ d with report := .losing (Dict.keys d.pending) }, [])
  | .losing [] => some ({ d with report := .finished }, [])
  | .losing (row :: rows) =>
    some ({ d with lost := d.lost + 1, report := .telling row rows }, [.counted row])
  | .telling row rows => some ({ d with report := .losing rows }, [.sys .lostAtStop row])
  | .finished => none

/-- `fasten_drainer_flush` returns 1: fasten-core has settled the rows it held at the call, and has
    ended if it was stopped. -/
def flushed (rows : List Nat) : Bool :=
  (rows.all fun row => row ∉ d.queue ++ d.drain.hand) && (!d.stopped || d.drain == .exited)

def step (op : Op) : Option (Drainer × List Event) :=
  match op with
  | .register row =>
    if d.closed ∨ row ∈ d.seen then none
    else
      some ({ d with
        pending := Dict.set d.pending row 0
        entering := d.entering ++ [row]
        seen := d.seen ++ [row] }, [.registered row])
  | .accept row =>
    if row ∈ d.entering ∧ d.stopped = false then
      some ({ d with
        entering := d.entering.erase row
        queue := d.queue ++ [row] }, [.accepted row])
    else none
  | .refuse row =>
    if row ∈ d.entering then
      some ({ d.settle row with entering := d.entering.erase row }, [.takenBack row])
    else none
  | .enterFlush call =>
    if d.closed then none else some ({ d with flushes := d.flushes ++ [call] }, [])
  | .leaveFlush call => some ({ d with flushes := d.flushes.erase call }, [])
  | .drain result => d.stepDrain result
  | .takeOut deadline =>
    if d.retire = .notYet then some ({ d with deadline := deadline, retire := .flushing }, [])
    else none
  | .retire result => d.stepRetire result
  | .cancel =>
    if d.deadline ∧ d.retire ≠ .done then some ({ d with cancelled := true }, []) else none
  | .report => d.stepReport

end Drainer

end Fasten.GoDrainer
