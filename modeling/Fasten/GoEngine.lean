import Fasten.GoDrainer
import Fasten.Lib.Parts

set_option autoImplicit false

/-! # The queue of the Go engine

`Init`, `Emit`, `Flush` and `Close` of `go/engine.go` as far as they move rows: the store generation, the
slot of the drainer, the channel of the drainer that was last taken out, and the drainers. There may be
any number of calls, each an entry of `calls` with the place it has reached; what `drainerMu` guards is
read and written in one step, and an atomic is one step by itself. `retire` and fasten-core's drain
thread go on by themselves.

`Emit` is called in queue mode, on an engine with an audit store, and without the durability that only
redaction records ask for. An `Init` that fails before it has set the store changes nothing here. The
`Flush` inside `Close` only waits, since its verdict is dropped. -/

namespace Fasten.GoEngine

open GoDrainer (Drainer Op StoreResult SysEvent)

/-! ## Data -/

inductive Event where
  /-- A call begins. -/
  | called (call : Nat)
  | drainer (k : Nat) (e : GoDrainer.Event)
  /-- `Emit` has stored its row itself. -/
  | stored (row : Nat)
  | sys (e : SysEvent) (row : Nat)
  deriving DecidableEq

/-- What `Init` is given. -/
structure Config where
  store : Nat
  /-- `Init` returns an error once the store is set. -/
  fails : Bool
  /-- the `maxAttempts` of the new drainer, if there is to be one and it could be started -/
  drainer : Option Nat
  deriving DecidableEq

inductive Emit where
  | entered
  /-- with the store generation -/
  | loaded (gen : Nat)
  /-- The slot was empty. -/
  | noDrainer
  /-- in `enqueue`, before it registers the row -/
  | enqueuing (k : Nat)
  /-- in `fasten_drainer_enqueue` -/
  | entering (k : Nat)
  /-- storing the row itself, because it was `refused` or without a drainer after `Close` -/
  | storing (refused : Bool)
  | returned
  deriving DecidableEq

inductive Init where
  | entered
  /-- with `prevStore` -/
  | read (prev : Option Nat)
  | set (prev : Option Nat)
  /-- `storeGen` is up to date. -/
  | switched
  /-- with the `gen` and the `maxAttempts` of the new drainer, which no other call knows yet -/
  | built (next : Option (Nat × Nat))
  | swapped (old : Option Nat)
  /-- in `retireOld` -/
  | retiring (old : Nat)
  | returned
  deriving DecidableEq

inductive Flush where
  | entered
  /-- on the channel of a drainer that was taken out -/
  | waiting (k : Nat)
  | choosing
  /-- in the drainer's `flush`, before it takes `use` -/
  | arriving (k : Nat)
  /-- in `fasten_drainer_flush`, with the rows fasten-core held at the call -/
  | flushing (k : Nat) (rows : List Nat)
  | returned (drained : Bool)
  deriving DecidableEq

inductive Close where
  | entered
  /-- for the `Close` that is running -/
  | waiting (call : Nat)
  | begun
  /-- with the installed drainer -/
  | chosen (d : Option Nat)
  /-- and its counter of losses -/
  | counted (d : Option Nat) (lost : Nat)
  | flushing (d : Option Nat) (lost : Nat)
  /-- `old` is being retired. -/
  | retiring (d : Option Nat) (lost old : Nat)
  /-- in `reportUnstored` -/
  | reporting (d : Option Nat) (lost old : Nat)
  | judging (d : Option Nat) (lost : Nat)
  | judged (ok : Bool)
  | returned (ok : Bool)
  deriving DecidableEq

inductive Call where
  | emit (place : Emit)
  | init (cfg : Config) (place : Init)
  | flush (place : Flush)
  | close (place : Close)
  deriving DecidableEq

/-- A call that has just begun. -/
def Call.entered : Call → Bool
  | .emit .entered | .init _ .entered | .flush .entered | .close .entered => true
  | _ => false

structure Engine where
  auditStore : Option Nat
  storeGen : Nat
  closed : Bool
  drainer : Option Nat
  /-- the drainer whose channel is in `retired` -/
  retired : Option Nat
  closing : Option Nat
  /-- every drainer there has been -/
  drainers : List Drainer
  calls : List Call
  deriving DecidableEq

def Engine.new : Engine := ⟨none, 0, false, none, none, none, [], []⟩

/-- What a step reads from outside. -/
structure Env where
  /-- `json.Marshal` of the row has succeeded. -/
  marshalled : Bool
  /-- fasten-core takes the row. -/
  accepted : Bool
  timedOut : Bool
  result : StoreResult
  deriving DecidableEq

inductive Label where
  | call (c : Call)
  | move (i : Nat) (env : Env)
  | drain (k : Nat) (result : StoreResult)
  | retire (k : Nat) (result : StoreResult)
  | cancel (k : Nat)
  deriving DecidableEq

/-! ## Steps -/

namespace Engine

variable (s : Engine)

def setCall (i : Nat) (c : Call) : Engine := { s with calls := s.calls.set i c }

/-- The channel of drainer `k` is closed. -/
def isRetired (k : Nat) : Bool := s.drainers[k]?.any (·.retire == .done)

/-- A step of drainer `k`. -/
def onDrainer (k : Nat) (op : Op) : Option (Engine × List Event) :=
  (Parts.move Drainer.step s.drainers k op).map fun r =>
    ({ s with drainers := r.1 }, r.2.map fun e => .drainer e.1 e.2)

def stepEmit (i : Nat) (env : Env) : Emit → Option (Engine × List Event)
  | .entered =>
    if s.auditStore = none then none
    else some (s.setCall i (.emit (.loaded s.storeGen)), [])
  | .loaded gen =>
    match s.drainer with
    | none => some (s.setCall i (.emit .noDrainer), [])
    | some k =>
      s.drainers[k]?.map fun d =>
        -- with another generation the row is neither enqueued nor stored
        (s.setCall i (.emit (if d.gen = gen then .enqueuing k else .returned)), [])
  | .noDrainer =>
    if s.closed then some (s.setCall i (.emit (.storing false)), [])
    else some (s.setCall i (.emit (.storing true)), [.sys .abandoned i])
  | .enqueuing k =>
    s.drainers[k]?.bind fun d =>
      if d.closed then
        -- `use` is free again once the drainer is retired
        if d.retire = .done then some (s.setCall i (.emit (.storing true)), [.sys .abandoned i])
        else none
      else if env.marshalled then
        (s.onDrainer k (.register i)).map fun r => (r.1.setCall i (.emit (.entering k)), r.2)
      else some (s.setCall i (.emit (.storing true)), [.sys .abandoned i])
  | .entering k =>
    if env.accepted then
      (s.onDrainer k (.accept i)).map fun r => (r.1.setCall i (.emit .returned), r.2)
    else
      (s.onDrainer k (.refuse i)).map fun r =>
        (r.1.setCall i (.emit (.storing true)), r.2 ++ [.sys .abandoned i])
  | .storing refused =>
    if env.result = .stored then
      some (s.setCall i (.emit .returned),
        .stored i :: if refused then [.sys .storedInline i] else [])
    else some (s.setCall i (.emit .returned), [.sys .syncFallbackFailed i])
  | .returned => none

/-- The slot with a new drainer, or none. -/
def install (next : Option (Nat × Nat)) : Engine :=
  { s with
    drainer := next.map fun _ => s.drainers.length
    drainers := s.drainers ++ (next.map fun d => Drainer.new d.1 d.2).toList }

/-- `swapDrainer`, and the drainer it took out. -/
def swapDrainer (next : Option (Nat × Nat)) (deadline : Bool) :
    Option (Engine × Option Nat × List Event) :=
  match s.drainer with
  | none => some (s.install next, none, [])
  | some k =>
    (s.onDrainer k (.takeOut deadline)).map fun r =>
      ({ r.1.install next with retired := some k }, some k, r.2)

def stepInit (i : Nat) (cfg : Config) : Init → Option (Engine × List Event)
  | .entered => some (s.setCall i (.init cfg (.read s.auditStore)), [])
  | .read prev => some ({ s with auditStore := some cfg.store }.setCall i (.init cfg (.set prev)), [])
  | .set prev =>
    some ({ s with
      storeGen := if prev = some cfg.store then s.storeGen else s.storeGen + 1 }.setCall i
        (.init cfg .switched), [])
  | .switched =>
    if cfg.fails then some (s.setCall i (.init cfg .returned), [])
    else some (s.setCall i (.init cfg (.built (cfg.drainer.map (Prod.mk s.storeGen)))), [])
  | .built next =>
    (s.swapDrainer next false).map fun r => (r.1.setCall i (.init cfg (.swapped r.2.1)), r.2.2)
  | .swapped old =>
    some ({ s with closed := false }.setCall i
      (.init cfg (match old with | none => .returned | some k => .retiring k)), [])
  | .retiring k => if s.isRetired k then some (s.setCall i (.init cfg .returned), []) else none
  | .returned => none

def stepFlush (i : Nat) (env : Env) : Flush → Option (Engine × List Event)
  | .entered =>
    some (s.setCall i (.flush (match s.retired with | none => .choosing | some k => .waiting k)), [])
  | .waiting k =>
    if s.isRetired k then some (s.setCall i (.flush .choosing), [])
    else if env.timedOut then some (s.setCall i (.flush (.returned false)), [])
    else none
  | .choosing =>
    some (s.setCall i
      (.flush (match s.drainer with | none => .returned true | some k => .arriving k)), [])
  | .arriving k =>
    s.drainers[k]?.bind fun d =>
      if d.closed then
        if d.retire = .done then some (s.setCall i (.flush (.returned true)), []) else none
      else
        (s.onDrainer k (.enterFlush i)).map fun r =>
          (r.1.setCall i (.flush (.flushing k (d.queue ++ d.drain.hand))), r.2)
  | .flushing k rows =>
    s.drainers[k]?.bind fun d =>
      if d.flushed rows || env.timedOut then
        (s.onDrainer k (.leaveFlush i)).map fun r =>
          (r.1.setCall i (.flush (.returned (d.flushed rows))), r.2)
      else none
  | .returned _ => none

/-- The counter of losses of a drainer, 0 without one. -/
def lostOf (d : Option Nat) : Nat := (d.bind fun k => s.drainers[k]?.map (·.lost)).getD 0

def stepClose (i : Nat) (env : Env) : Close → Option (Engine × List Event)
  | .entered =>
    match s.closing with
    | some call => some (s.setCall i (.close (.waiting call)), [])
    | none => some ({ s with closing := some i }.setCall i (.close .begun), [])
  | .waiting call =>
    match s.calls[call]? with
    | some (.close (.returned ok)) => some (s.setCall i (.close (.returned ok)), [])
    | _ => if env.timedOut then some (s.setCall i (.close (.returned false)), []) else none
  | .begun => some (s.setCall i (.close (.chosen s.drainer)), [])
  | .chosen d => some (s.setCall i (.close (.counted d (s.lostOf d))), [])
  | .counted d lost => some ({ s with closed := true }.setCall i (.close (.flushing d lost)), [])
  | .flushing d lost =>
    (s.swapDrainer none true).map fun r =>
      (r.1.setCall i (.close
        (match r.2.1 with | none => .judging d lost | some old => .retiring d lost old)), r.2.2)
  | .retiring d lost old =>
    if env.timedOut then
      (s.onDrainer old .report).map fun r => (r.1.setCall i (.close (.reporting d lost old)), r.2)
    else if s.isRetired old then some (s.setCall i (.close (.judging d lost)), [])
    else none
  | .reporting d lost old =>
    if s.drainers[old]?.any (·.report == .finished) then
      some ({ s with retired := if s.retired = some old then none else s.retired }.setCall i
        (.close (.judging d lost)), [])
    else s.onDrainer old .report
  | .judging d lost =>
    some (s.setCall i (.close (.judged (d.isNone || s.lostOf d == lost))), [])
  | .judged ok => some ({ s with closing := none }.setCall i (.close (.returned ok)), [])
  | .returned _ => none

def step (l : Label) : Option (Engine × List Event) :=
  match l with
  | .call c =>
    if c.entered then some ({ s with calls := s.calls ++ [c] }, [.called s.calls.length])
    else none
  | .move i env =>
    match s.calls[i]? with
    | some (.emit place) => s.stepEmit i env place
    | some (.init cfg place) => s.stepInit i cfg place
    | some (.flush place) => s.stepFlush i env place
    | some (.close place) => s.stepClose i env place
    | none => none
  | .drain k result => s.onDrainer k (.drain result)
  | .retire k result => s.onDrainer k (.retire result)
  | .cancel k => s.onDrainer k .cancel

end Engine

/-- An engine with everything that has happened to it. -/
abbrev World := Trace.World Engine Event

end Fasten.GoEngine
