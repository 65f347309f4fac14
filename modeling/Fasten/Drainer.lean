import Fasten.Backoff
import Fasten.Lib.Trace

set_option autoImplicit false

/-! # The drainer of fasten-core

The bounded queue and its drain thread (`fasten-core/src/drainer.rs`), as one step function: a step is
what a thread does between two points where others can come in between. Threads that call `enqueue`,
`stop` or `flush` are the entries of `calls`, each with the place it has reached; there may be any
number of them. What a mutex guards is read and written in one step, an atomic is one step by itself,
and all threads see one order of the steps.

What a step reads from outside (the clock, the answer of the store, the waiter a condition variable
wakes) comes with the step. The events of a run are the calls, the inserts, the sys events and, for
the accounts, each row's way into the queue and out of the drainer. -/

namespace Fasten.Core

/-! ## Data -/

/-- What the drainer reads of a row. -/
structure Row where
  id : String
  monotonicSeq : Nat
  deriving DecidableEq

/-- A row in the drainer, with the number of the `enqueue` call that brought it. -/
structure Entry where
  call : Nat
  row : Row
  deriving DecidableEq

/-- The errors of an insert that the drainer tells apart; `other` has the name of its variant. -/
inductive Error where
  | callbackFailed (rc : Int)
  | seqClash (what : String)
  | store (errorType : String)
  | other (variant : String)
  deriving DecidableEq

/-- `rejected`: the store refused the row itself. -/
def rejected (e : Error) (row : Row) : Bool :=
  match e with
  | .callbackFailed rc => decide (rc < 0)
  | .seqClash _ => row.monotonicSeq != 0
  | _ => false

def errorType : Error → String
  | .callbackFailed _ => "CallbackFailed"
  | .seqClash _ => "SeqClash"
  | .store t => t
  | .other variant => variant

/-- What a call of `Store::insert` ends with; `message` is the error's text. -/
inductive InsertResult where
  | ok
  | err (e : Error) (message : String)
  | panicked
  deriving DecidableEq

/-- The sys events of the drainer. -/
inductive SysEvent where
  /-- `audit_drain_abandoned` with the reason `drainer_stopped` -/
  | abandoned (rowId : String)
  /-- `audit_drain_abandoned` with the reason `drain_thread_panicked` -/
  | threadPanicked (depth : Nat)
  /-- `audit_queue_near_full` -/
  | nearFull (depth capacity : Nat)
  /-- `audit_queue_high_water` -/
  | highWater (depth capacity : Nat)
  /-- `audit_drain_recovered`; the time is in nanoseconds -/
  | recovered (after : Nat)
  /-- `audit_drain_failed` -/
  | failed (error : String)
  /-- `audit_drain_degraded` -/
  | degraded (retryCount inBackoff : Nat) (lastError : String)
  /-- `audit_drain_dead_letter` -/
  | deadLetter (rowId : String) (attemptCount : Nat) (lastError : String)
  /-- `audit_drain_lost_at_stop` -/
  | lostAtStop (errorType rowId : String)
  /-- `audit_drain_stop_slow` -/
  | stopSlow (waited : Nat)
  /-- `audit_drain_install_incomplete` -/
  | installIncomplete (flushed : Bool) (unstored : Nat)
  deriving DecidableEq

/-- How a row leaves the drainer. -/
inductive Outcome where
  | stored
  | deadLettered
  | lostAtStop
  deriving DecidableEq

inductive Event where
  /-- A thread enters `enqueue`, `stop` or `flush`. -/
  | called (call : Nat)
  | pushed (call : Nat)
  /-- An insert of the row begins; `attempt` others have ended. -/
  | insertBegan (call attempt : Nat)
  | insertEnded (call : Nat) (result : InsertResult)
  /-- The row is counted. -/
  | settled (call : Nat) (outcome : Outcome)
  /-- A sys event goes to the sink. -/
  | sys (e : SysEvent)
  deriving DecidableEq

/-- `InternalStats`. -/
structure Stats where
  highWater : Nat
  drainedTotal : Nat
  retryCount : Nat
  inBackoffUntil : Option Nat
  lastError : Option String
  failureBurstAt : Option Nat
  warnHwFired : Bool
  errHwFired : Bool
  degradedFired : Bool
  deadLetteredTotal : Nat
  lostAtStopTotal : Nat
  dlq : List Row
  deriving DecidableEq

def Stats.default : Stats := ⟨0, 0, 0, none, none, none, false, false, false, 0, 0, []⟩

/-- The rows that have left the drainer. -/
def Stats.done (st : Stats) : Nat := st.drainedTotal + st.deadLetteredTotal + st.lostAtStopTotal

/-- A row has been taken into the dead-letter ring of the last ten. -/
def Stats.bury (st : Stats) (row : Row) : Stats :=
  { st with
    deadLetteredTotal := st.deadLetteredTotal + 1
    dlq := (if 10 ≤ st.dlq.length then st.dlq.tail else st.dlq) ++ [row]
    retryCount := 0
    inBackoffUntil := none
    failureBurstAt := none }

/-- The high-water mark and the threshold events of `enqueue`. The thresholds of 80% and 50% are
    compared without the rounding that `f64` has for capacities of 2^50 and more. -/
def Stats.recordDepth (st : Stats) (depth capacity : Nat) : Stats × Option SysEvent :=
  let st := { st with highWater := max st.highWater depth }
  if 4 * capacity ≤ 5 * depth ∧ st.errHwFired = false then
    ({ st with errHwFired := true }, some (.nearFull depth capacity))
  else if capacity ≤ 2 * depth ∧ st.warnHwFired = false then
    ({ st with warnHwFired := true }, some (.highWater depth capacity))
  else if 2 * depth < capacity then
    ({ st with warnHwFired := false, errHwFired := false }, none)
  else (st, none)

/-! ## Where a thread is -/

/-- The drain thread: `drain_loop` and what it calls. -/
inductive Thread where
  /-- at the queue lock -/
  | popping
  /-- in `queue_cv.wait_timeout` -/
  | waiting
  | popped (e : Entry)
  | attempting (e : Entry) (attempt : Nat) (inShutdown : Bool)
  /-- in `Store::insert` -/
  | inserting (e : Entry) (attempt : Nat) (inShutdown : Bool)
  | judging (e : Entry) (attempt : Nat) (inShutdown : Bool) (result : InsertResult)
  /-- `on_success`, at its first lock, its event and its second lock -/
  | succeeding (e : Entry)
  | recovering (e : Entry) (after : Nat)
  | counting (e : Entry)
  /-- `on_failure`, at its first lock, its events, and the delay -/
  | failing (e : Entry) (attempt : Nat) (msg : String)
  | failed (e : Entry) (attempt : Nat) (msg : String) (first degraded : Bool)
  | degraded (e : Entry) (attempt : Nat) (msg : String) (inBackoff : Nat)
  | backingOff (e : Entry) (attempt : Nat)
  | sleeping (e : Entry) (attempt deadline : Nat)
  /-- `on_dead_letter`, at its event and its lock -/
  | burying (e : Entry) (attempts : Nat) (msg : String)
  | buried (e : Entry)
  /-- `on_lost_at_stop`, at its event and its lock -/
  | losing (e : Entry) (errorType : String)
  | lost (e : Entry)
  /-- in `Exit::drop`, on return or with the row a panic has dropped -/
  | exiting (dropped : Option Entry)
  | exited (dropped : Option Entry)
  deriving DecidableEq

inductive Enqueue where
  /-- before the first look at `stop` -/
  | entered
  /-- at the lock of `Sem::acquire` -/
  | acquiring
  /-- in its `cv.wait` -/
  | parked
  /-- with a slot, before the second look at `stop` -/
  | acquired
  | measuring
  | recording (depth : Nat)
  | announcing (e : SysEvent)
  /-- at the queue lock, under which it looks at `stop` again -/
  | pushing
  | releasing
  | abandoning
  | returned (queued : Bool)
  deriving DecidableEq

inductive Stop where
  | entered
  | releasing
  | notifying
  /-- at the lock of the thread's handle -/
  | taking
  | joining
  | joined (e : Option SysEvent)
  | returned
  deriving DecidableEq

inductive Flush where
  | entered
  | waiting (target : Nat)
  | returned (drained : Bool)
  deriving DecidableEq

inductive Call where
  | enqueue (row : Row) (place : Enqueue)
  | stop (place : Stop)
  | flush (place : Flush)
  deriving DecidableEq

/-- The drain thread's `JoinHandle`; its lock is held during the join. -/
inductive JoinHandle where
  | present
  | joining
  | gone
  deriving DecidableEq

structure Drainer where
  cfg : DrainerConfig
  queue : List Entry
  /-- the free slots of `Sem` -/
  available : Nat
  stop : Bool
  exited : Bool
  panicked : Bool
  stats : Stats
  thread : Thread
  handle : JoinHandle
  calls : List Call
  deriving DecidableEq

/-- `Drainer::new`. -/
def Drainer.new (cfg : DrainerConfig) : Drainer :=
  ⟨cfg, [], cfg.capacity, false, false, false, .default, .popping, .present, []⟩

/-- What a step reads from outside. -/
structure Env where
  now : Clock
  /-- the subsecond part of the wall clock -/
  seed : Nat
  result : InsertResult
  /-- the waiter `notify_one` wakes -/
  woken : Option Nat
  timedOut : Bool
  deriving DecidableEq

inductive Label where
  | call (c : Call)
  /-- A wait on the slots ends without a notification. -/
  | wake (i : Nat)
  | move (i : Nat) (env : Env)
  | thread (env : Env)
  deriving DecidableEq

/-- A call that has just begun. -/
def Call.entered : Call → Bool
  | .enqueue _ .entered | .stop .entered | .flush .entered => true
  | _ => false

/-! ## Slots -/

namespace Drainer

variable (d : Drainer)

def setCall (i : Nat) (c : Call) : Drainer := { d with calls := d.calls.set i c }

/-- `Sem::used`. -/
def used : Nat := d.cfg.capacity - d.available

end Drainer

def Call.isParked : Call → Bool
  | .enqueue _ .parked => true
  | _ => false

/-- A waiter that is woken tries again. -/
def Call.unpark : Call → Call
  | .enqueue row .parked => .enqueue row .acquiring
  | c => c

namespace Drainer

variable (d : Drainer)

/-- `notify_one` on the slots: it wakes one of the waiters, if there are any. -/
def notifyOne (woken : Option Nat) : Option Drainer :=
  match woken with
  | none => if d.calls.any Call.isParked then none else some d
  | some i =>
    match d.calls[i]? with
    | some (.enqueue row .parked) => some (d.setCall i (.enqueue row .acquiring))
    | _ => none

/-- `Sem::release`. -/
def release (woken : Option Nat) : Option Drainer :=
  { d with
    available := if d.available < d.cfg.capacity then d.available + 1 else d.available }.notifyOne
      woken

/-- `Sem::release_all`. -/
def releaseAll : Drainer :=
  { d with available := d.cfg.capacity, calls := d.calls.map Call.unpark }

/-! ## `enqueue` -/

def stepEnqueue (i : Nat) (row : Row) (env : Env) : Enqueue → Option (Drainer × List Event)
  | .entered =>
    some (d.setCall i (.enqueue row (if d.stop then .abandoning else .acquiring)), [])
  | .acquiring =>
    if d.available = 0 then some (d.setCall i (.enqueue row .parked), [])
    else some ({ d with available := d.available - 1 }.setCall i (.enqueue row .acquired), [])
  | .parked => none
  | .acquired =>
    some (d.setCall i (.enqueue row (if d.stop then .releasing else .measuring)), [])
  | .measuring => some (d.setCall i (.enqueue row (.recording d.used)), [])
  | .recording depth =>
    let r := d.stats.recordDepth depth d.cfg.capacity
    let next := match r.2 with | some e => Enqueue.announcing e | none => .pushing
    some ({ d with stats := r.1 }.setCall i (.enqueue row next), [])
  | .announcing e => some (d.setCall i (.enqueue row .pushing), [.sys e])
  | .pushing =>
    if d.stop then some (d.setCall i (.enqueue row .releasing), [])
    else some ({ d with queue := d.queue ++ [Entry.mk i row] }.setCall i
      (.enqueue row (.returned true)), [.pushed i])
  | .releasing =>
    ((d.setCall i (.enqueue row .abandoning)).release env.woken).map (·, [])
  | .abandoning =>
    some (d.setCall i (.enqueue row (.returned false)), [.sys (.abandoned row.id)])
  | .returned _ => none

/-! ## `stop` -/

def stepStop (i : Nat) (env : Env) : Stop → Option (Drainer × List Event)
  | .entered => some ({ d with stop := true }.setCall i (.stop .releasing), [])
  | .releasing => some (d.releaseAll.setCall i (.stop .notifying), [])
  | .notifying => some (d.setCall i (.stop .taking), [])
  | .taking =>
    match d.handle with
    | .present => some ({ d with handle := .joining }.setCall i (.stop .joining), [])
    | .joining => none
    | .gone => some (d.setCall i (.stop .returned), [])
  | .joining =>
    match d.thread with
    | .exited dropped =>
      let e := if dropped.isSome then some (.threadPanicked d.queue.length)
        else if env.timedOut then some (.stopSlow env.now.nanos) else none
      some (d.setCall i (.stop (.joined e)), [])
    | _ => none
  | .joined e =>
    some ({ d with handle := .gone }.setCall i (.stop .returned), e.toList.map .sys)
  | .returned => none

/-! ## `flush` -/

def stepFlush (i : Nat) (env : Env) : Flush → Option (Drainer × List Event)
  | .entered => some (d.setCall i (.flush (.waiting (d.stats.done + d.used))), [])
  | .waiting target =>
    if target ≤ d.stats.done ∧ d.stop = false then
      some (d.setCall i (.flush (.returned true)), [])
    else if d.exited then
      some (d.setCall i (.flush (.returned (d.stop && !d.panicked))), [])
    else if env.timedOut then some (d.setCall i (.flush (.returned false)), [])
    else some (d, [])
  | .returned _ => none

/-! ## The drain thread -/

/-- Where the thread goes with the result of an insert. -/
def judge (e : Entry) (attempt : Nat) (inShutdown : Bool) : InsertResult → Thread
  | .panicked =>
    if inShutdown || d.stop then .losing e "panic"
    else .burying e (attempt + 1) "store.insert panicked"
  | .ok => .succeeding e
  | .err err msg =>
    if inShutdown || d.stop then .losing e (errorType err)
    else if d.cfg.maxAttempts ≤ attempt + 1 ∨ rejected err e.row then .burying e (attempt + 1) msg
    else .failing e (attempt + 1) msg

/-- The first lock of `on_success`. -/
def succeed (e : Entry) (env : Env) : Drainer :=
  let recovering := if 0 < d.stats.retryCount then d.stats.failureBurstAt else none
  { d with
    stats :=
      { d.stats with
        retryCount := 0
        inBackoffUntil := none
        failureBurstAt := none
        lastError := none
        degradedFired := false }
    thread :=
      match recovering with
      | some since => .recovering e (env.now.nanos - since)
      | none => .counting e }

/-- The first lock of `on_failure`. -/
def fail (e : Entry) (attempt : Nat) (msg : String) (env : Env) : Drainer :=
  let first := decide (d.stats.retryCount = 0)
  let stats :=
    { d.stats with
      failureBurstAt := if first then some env.now.nanos else d.stats.failureBurstAt
      retryCount := attempt
      lastError := some msg }
  match backoffDeadline d.cfg attempt env.now env.seed with
  | none => { d with stats := stats, thread := .exiting (some e) }
  | some deadline =>
    { d with
      stats := { stats with inBackoffUntil := some deadline }
      thread := .failed e attempt msg first (decide (5 ≤ attempt) && !d.stats.degradedFired) }

def stepThread (env : Env) : Option (Drainer × List Event) :=
  match d.thread with
  | .popping =>
    match d.queue with
    | e :: rest => some ({ d with queue := rest, thread := .popped e }, [])
    | [] => some ({ d with thread := if d.stop then .exiting none else .waiting }, [])
  | .waiting =>
    some ({ d with
      thread := if d.stop && d.queue.isEmpty then .exiting none else .popping }, [])
  | .popped e => some ({ d with thread := .attempting e 0 d.stop }, [])
  | .attempting e attempt inShutdown =>
    some ({ d with thread := .inserting e attempt inShutdown }, [.insertBegan e.call attempt])
  | .inserting e attempt inShutdown =>
    some ({ d with thread := .judging e attempt inShutdown env.result },
      [.insertEnded e.call env.result])
  | .judging e attempt inShutdown result =>
    some ({ d with thread := d.judge e attempt inShutdown result }, [])
  | .succeeding e => some (d.succeed e env, [])
  | .recovering e after => some ({ d with thread := .counting e }, [.sys (.recovered after)])
  | .counting e =>
    ({ d with
      stats := { d.stats with drainedTotal := d.stats.drainedTotal + 1 }
      thread := .popping }.release env.woken).map (·, [.settled e.call .stored])
  | .failing e attempt msg => some (d.fail e attempt msg env, [])
  | .failed e attempt msg first degraded =>
    if first then
      some ({ d with thread := .failed e attempt msg false degraded }, [.sys (.failed msg)])
    else if degraded then
      some ({ d with
        stats := { d.stats with degradedFired := true }
        thread := .degraded e attempt msg
          (d.stats.inBackoffUntil.getD 0 - env.now.nanos) }, [])
    else some ({ d with thread := .backingOff e attempt }, [])
  | .degraded e attempt msg inBackoff =>
    some ({ d with thread := .backingOff e attempt }, [.sys (.degraded attempt inBackoff msg)])
  | .backingOff e attempt =>
    some ({ d with
      thread :=
        match backoffDeadline d.cfg attempt env.now env.seed with
        | none => .exiting (some e)
        | some deadline => .sleeping e attempt deadline }, [])
  | .sleeping e attempt deadline =>
    if deadline ≤ env.now.nanos ∨ d.stop then
      some ({ d with thread := .attempting e attempt false }, [])
    else some (d, [])
  | .burying e attempts msg =>
    some ({ d with thread := .buried e }, [.sys (.deadLetter e.row.id attempts msg)])
  | .buried e =>
    ({ d with stats := d.stats.bury e.row, thread := .popping }.release env.woken).map
      (·, [.settled e.call .deadLettered])
  | .losing e errorType =>
    some ({ d with thread := .lost e }, [.sys (.lostAtStop errorType e.row.id)])
  | .lost e =>
    ({ d with
      stats := { d.stats with lostAtStopTotal := d.stats.lostAtStopTotal + 1 }
      thread := .popping }.release env.woken).map (·, [.settled e.call .lostAtStop])
  | .exiting dropped =>
    some ({ d with thread := .exited dropped, panicked := dropped.isSome, exited := true }, [])
  | .exited _ => none

/-! ## The system -/

def step (l : Label) : Option (Drainer × List Event) :=
  match l with
  | .call c =>
    if c.entered then some ({ d with calls := d.calls ++ [c] }, [.called d.calls.length])
    else none
  | .wake i => (d.notifyOne (some i)).map (·, [])
  | .move i env =>
    match d.calls[i]? with
    | some (.enqueue row place) => d.stepEnqueue i row env place
    | some (.stop place) => d.stepStop i env place
    | some (.flush place) => d.stepFlush i env place
    | none => none
  | .thread env => d.stepThread env

end Drainer

/-- A drainer with everything that has happened to it. -/
abbrev World := Trace.World Drainer Event

end Fasten.Core
