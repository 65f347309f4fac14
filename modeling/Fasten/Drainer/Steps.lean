import Fasten.Drainer
import Fasten.Lib.Pipeline

set_option autoImplicit false

/-! # What a step of the drainer can do

The steps of `Drainer.step`, by what they do to the rows, the slots and the counters. Everything that
is proved of the drainer's runs uses these cases and not the step function. -/

namespace Fasten.Core

/-! ## Rows and threads -/

/-- The row the thread has taken, or has dropped in a panic. -/
def Thread.entry : Thread → Option Entry
  | .popping | .waiting => none
  | .popped e | .attempting e _ _ | .inserting e _ _ | .judging e _ _ _ | .succeeding e
  | .recovering e _ | .counting e | .failing e _ _ | .failed e _ _ _ _ | .degraded e _ _ _
  | .backingOff e _ | .sleeping e _ _ | .burying e _ _ | .buried e | .losing e _ | .lost e => some e
  | .exiting dropped | .exited dropped => dropped

def Thread.worker : Thread → Worker
  | .exiting none | .exited none => .finished
  | .exiting (some _) | .exited (some _) => .died
  | _ => .running

/-- The calls whose rows were pushed, in order. -/
def pushedCalls (history : List Event) : List Nat :=
  history.filterMap fun | .pushed i => some i | _ => none

/-- The rows that left the drainer, in order. -/
def settledCalls (history : List Event) : List (Nat × Outcome) :=
  history.filterMap fun | .settled i o => some (i, o) | _ => none

/-- The sys events, in order. -/
def sysEvents (history : List Event) : List SysEvent :=
  history.filterMap fun | .sys e => some e | _ => none

@[simp] theorem pushedCalls_append (h h' : List Event) :
    pushedCalls (h ++ h') = pushedCalls h ++ pushedCalls h' :=
  List.filterMap_append

@[simp] theorem settledCalls_append (h h' : List Event) :
    settledCalls (h ++ h') = settledCalls h ++ settledCalls h' :=
  List.filterMap_append

/-! ## Inserts and reports -/

/-- The first insert of each row, in the order in which they began. -/
def firstInserts (history : List Event) : List Nat :=
  history.filterMap fun | .insertBegan i 0 => some i | _ => none

@[simp] theorem firstInserts_append (h h' : List Event) :
    firstInserts (h ++ h') = firstInserts h ++ firstInserts h' :=
  List.filterMap_append

/-- The thread's row, once its first insert has begun. -/
def Thread.begun : Thread → Option Entry
  | .popped _ | .attempting _ 0 _ => none
  | thread => thread.entry

/-- What has been said of a row that left in this way: its insert was answered with success, or an
    event names it. -/
def Reported (history : List Event) (e : Entry) : Outcome → Prop
  | .stored => .insertEnded e.call .ok ∈ history
  | .deadLettered => ∃ attempts msg, .sys (.deadLetter e.row.id attempts msg) ∈ history
  | .lostAtStop => ∃ errorType, .sys (.lostAtStop errorType e.row.id) ∈ history

theorem Reported.append {history : List Event} {e : Entry} {o : Outcome}
    (h : Reported history e o) (es : List Event) : Reported (history ++ es) e o := by
  cases o with
  | stored => exact List.mem_append_left _ h
  | deadLettered =>
    obtain ⟨attempts, msg, hmem⟩ := h
    exact ⟨attempts, msg, List.mem_append_left _ hmem⟩
  | lostAtStop =>
    obtain ⟨errorType, hmem⟩ := h
    exact ⟨errorType, List.mem_append_left _ hmem⟩

/-- What is known of the thread's row where the thread is. -/
def Told (cfg : DrainerConfig) (history : List Event) : Thread → Prop
  | .attempting _ attempt _ => attempt = 0 ∨ attempt < cfg.maxAttempts
  | .judging e _ _ result => .insertEnded e.call result ∈ history
  | .succeeding e | .recovering e _ | .counting e => Reported history e .stored
  | .failing _ attempt _ | .failed _ attempt _ _ _ | .degraded _ attempt _ _
  | .backingOff _ attempt | .sleeping _ attempt _ => 1 ≤ attempt ∧ attempt < cfg.maxAttempts
  | .buried e => Reported history e .deadLettered
  | .lost e => Reported history e .lostAtStop
  | _ => True

/-! ## Waking -/

/-- The same calls, up to waiters that have been woken. -/
def SameCalls (calls calls' : List Call) : Prop := calls'.map Call.unpark = calls.map Call.unpark

/-- What does not tell a waiter from a call that tries again. -/
theorem Call.of_unpark {α : Sort*} (f : Call → α)
    (h : ∀ row, f (.enqueue row .acquiring) = f (.enqueue row .parked)) (c : Call) :
    f c.unpark = f c := by
  cases c with
  | enqueue row place =>
    cases place with
    | parked => exact h row
    | _ => rfl
  | stop | flush => rfl

theorem Call.unpark_unpark (c : Call) : c.unpark.unpark = c.unpark :=
  Call.of_unpark _ (fun _ => rfl) c

variable {d d' : Drainer} {i : Nat} {env : Env} {es : List Event}

/-- A call that no waiting changes is the same. -/
theorem SameCalls.getElem?_eq {calls calls' : List Call} (h : SameCalls calls calls') {c : Call}
    (hi : calls[i]? = some c) (hc : ∀ x : Call, x.unpark = c.unpark → x = c) :
    calls'[i]? = some c := by
  have hmap := congrArg (fun l : List Call => l[i]?) h
  simp only [List.getElem?_map, hi, Option.map_some, Option.map_eq_some_iff] at hmap
  obtain ⟨x, hx, hunpark⟩ := hmap
  rw [hx, hc x hunpark]

theorem Call.eq_stop_of_unpark {place : Stop} (x : Call)
    (h : x.unpark = (Call.stop place).unpark) : x = .stop place := by
  cases x with
  | enqueue row place => cases place <;> cases h
  | stop | flush => exact h

theorem Call.eq_flush_of_unpark {place : Flush} (x : Call)
    (h : x.unpark = (Call.flush place).unpark) : x = .flush place := by
  cases x with
  | enqueue row place => cases place <;> cases h
  | stop | flush => exact h

/-- `notify_one` changes nothing but a waiter. -/
theorem Drainer.notifyOne_eq_some {woken : Option Nat} (h : d.notifyOne woken = some d') :
    ∃ calls, SameCalls d.calls calls ∧ d' = { d with calls := calls } := by
  unfold Drainer.notifyOne at h
  cases woken with
  | none =>
    dsimp only at h
    split_ifs at h
    cases h
    exact ⟨d.calls, rfl, rfl⟩
  | some i =>
    dsimp only at h
    split at h
    · rename_i row hi
      cases h
      refine ⟨_, ?_, rfl⟩
      -- the waiter and the call it becomes look the same
      refine List.ext_getElem? fun j => ?_
      rw [List.getElem?_map, List.getElem?_map, List.getElem?_set]
      split_ifs with hij hlt
      · rw [← hij, hi]
        rfl
      · rw [← hij, List.getElem?_eq_none (Nat.le_of_not_lt hlt)]
      · rfl
    · cases h

/-- `release` frees a slot, unless all are free, and wakes a waiter. -/
theorem Drainer.release_eq_some {woken : Option Nat} (h : d.release woken = some d') :
    ∃ calls, SameCalls d.calls calls ∧ d' = { d with
      available := if d.available < d.cfg.capacity then d.available + 1 else d.available
      calls := calls } :=
  Drainer.notifyOne_eq_some h

/-! ## What the steps do -/

/-- The counter of an outcome. -/
def Stats.total (st : Stats) : Outcome → Nat
  | .stored => st.drainedTotal
  | .deadLettered => st.deadLetteredTotal
  | .lostAtStop => st.lostAtStopTotal

/-- Events that say nothing of where a row is. -/
def Quiet (es : List Event) : Prop := pushedCalls es = [] ∧ settledCalls es = []

/-- Nothing but a sys event. -/
inductive OnlySys : List Event → Prop where
  | none : OnlySys []
  | one (e : SysEvent) : OnlySys [.sys e]

theorem OnlySys.ofOption (e : Option SysEvent) : OnlySys (e.toList.map .sys) := by
  cases e with
  | none => exact .none
  | some e => exact .one e

theorem OnlySys.quiet (h : OnlySys es) : Quiet es := by
  cases h <;> exact ⟨rfl, rfl⟩

theorem OnlySys.insertBegan_notMem (h : OnlySys es) (i n : Nat) : .insertBegan i n ∉ es := by
  cases h <;> simp

theorem OnlySys.firstInserts (h : OnlySys es) : firstInserts es = [] := by
  cases h <;> rfl

/-- Whether the call has a slot and has not given it to its row. -/
def Enqueue.holds : Enqueue → Bool
  | .acquired | .measuring | .recording _ | .announcing _ | .pushing | .releasing => true
  | _ => false

/-- The call is about to look for a slot. -/
def Call.isAcquiring : Call → Bool
  | .enqueue _ .acquiring => true
  | _ => false

/-- The call has brought its row into the queue. -/
def Call.accepted : Call → Bool
  | .enqueue _ (.returned true) => true
  | _ => false

/-- What the drain thread knows of the failures. -/
def Stats.burst (st : Stats) : Nat × Option Nat × Bool :=
  (st.retryCount, st.failureBurstAt, st.degradedFired)

/-- A caller goes on, and neither waits nor gets a slot or gives it away. -/
structure EnqueueGoes (d : Drainer) (row : Row) (place place' : Enqueue) (stats : Stats)
    (e : Option SysEvent) : Prop where
  holds : place'.holds = place.holds
  trying : (Call.enqueue row place).isAcquiring = false
  parked : (Call.enqueue row place').isParked = (Call.enqueue row place).isParked
  accepted : (Call.enqueue row place').accepted = (Call.enqueue row place).accepted
  releasing : place' = .releasing → d.stop = true
  counters : stats.total = d.stats.total ∧ stats.burst = d.stats.burst
    ∧ d.stats.highWater ≤ stats.highWater
  announces : ∀ e', place' = .announcing e' →
    ∃ depth, (d.stats.recordDepth depth d.cfg.capacity).2 = some e'
  tells : ∀ e' ∈ e, place = .announcing e' ∨ e' = .abandoned row.id

/-- What a step of `enqueue` can do. -/
inductive EnqueueStep (d : Drainer) (i : Nat) (row : Row) :
    Enqueue → Drainer → List Event → Prop where
  | goes {place place' : Enqueue} {stats : Stats} (e : Option SysEvent)
      (h : EnqueueGoes d row place place' stats e) :
      EnqueueStep d i row place
        { d with stats := stats, calls := d.calls.set i (.enqueue row place') } (e.toList.map .sys)
  | wait (hnone : d.available = 0) :
      EnqueueStep d i row .acquiring { d with calls := d.calls.set i (.enqueue row .parked) } []
  | acquire (havailable : d.available ≠ 0) :
      EnqueueStep d i row .acquiring
        { d with
          available := d.available - 1
          calls := d.calls.set i (.enqueue row .acquired) } []
  | push (hstop : d.stop = false) :
      EnqueueStep d i row .pushing
        { d with
          queue := d.queue ++ [⟨i, row⟩]
          calls := d.calls.set i (.enqueue row (.returned true)) } [.pushed i]
  | release {calls : List Call} {woken : Option Nat}
      (hcalls : SameCalls (d.calls.set i (.enqueue row .abandoning)) calls)
      (hrelease : (d.setCall i (.enqueue row .abandoning)).release woken = some { d with
        available := if d.available < d.cfg.capacity then d.available + 1 else d.available
        calls := calls }) :
      EnqueueStep d i row .releasing
        { d with
          available := if d.available < d.cfg.capacity then d.available + 1 else d.available
          calls := calls } []

theorem Stats.recordDepth_frame (st : Stats) (depth capacity : Nat) :
    (st.recordDepth depth capacity).1.total = st.total
      ∧ (st.recordDepth depth capacity).1.burst = st.burst
      ∧ st.highWater ≤ (st.recordDepth depth capacity).1.highWater := by
  unfold Stats.recordDepth
  dsimp only
  split_ifs <;> exact ⟨by funext o; cases o <;> rfl, rfl, le_max_left _ _⟩

theorem stepEnqueue_cases {row : Row} {place : Enqueue}
    (h : d.stepEnqueue i row env place = some (d', es)) : EnqueueStep d i row place d' es := by
  cases place with
  | entered | acquired =>
    cases h
    refine .goes none ⟨?_, rfl, ?_, ?_, ?_, ⟨rfl, rfl, le_rfl⟩, ?_, nofun⟩ <;>
      cases d.stop <;> simp [Enqueue.holds, Call.isParked, Call.accepted]
  | acquiring =>
    simp only [Drainer.stepEnqueue] at h
    split_ifs at h with havailable <;> cases h
    · exact .wait havailable
    · exact .acquire havailable
  | measuring =>
    cases h
    exact .goes none ⟨rfl, rfl, rfl, rfl, nofun, ⟨rfl, rfl, le_rfl⟩, nofun, nofun⟩
  | recording depth =>
    cases h
    refine .goes none ⟨?_, rfl, ?_, ?_, ?_, d.stats.recordDepth_frame depth d.cfg.capacity, ?_, nofun⟩
    all_goals cases hevent : (d.stats.recordDepth depth d.cfg.capacity).2
    all_goals simp [Enqueue.holds, Call.isParked, Call.accepted]
    exact ⟨depth, hevent⟩
  | announcing e =>
    cases h
    refine .goes (some e) ⟨rfl, rfl, rfl, rfl, nofun, ⟨rfl, rfl, le_rfl⟩, nofun, ?_⟩
    simp
  | pushing =>
    simp only [Drainer.stepEnqueue] at h
    split_ifs at h with hstop <;> cases h
    · exact .goes none ⟨rfl, rfl, rfl, rfl, fun _ => hstop, ⟨rfl, rfl, le_rfl⟩, nofun, nofun⟩
    · exact .push (by simpa using hstop)
  | releasing =>
    obtain ⟨d₁, hrelease, heq⟩ := Option.map_eq_some_iff.1 h
    cases heq
    obtain ⟨calls, hcalls, rfl⟩ := Drainer.release_eq_some hrelease
    exact .release hcalls hrelease
  | abandoning =>
    cases h
    refine .goes (some _) ⟨rfl, rfl, rfl, rfl, nofun, ⟨rfl, rfl, le_rfl⟩, nofun, ?_⟩
    simp
  | parked | returned queued => cases h

/-- The thread goes on with the row it has, or with none. -/
inductive Goes (d : Drainer) : Thread → Thread → Stats → List Event → Prop where
  | wait : Goes d .popping .waiting d.stats []
  | wake : Goes d .waiting .popping d.stats []
  | start (e : Entry) : Goes d (.popped e) (.attempting e 0 d.stop) d.stats []
  | begin (e : Entry) (n : Nat) (inShutdown : Bool) :
      Goes d (.attempting e n inShutdown) (.inserting e n inShutdown) d.stats
        [.insertBegan e.call n]
  | end (e : Entry) (n : Nat) (inShutdown : Bool) (result : InsertResult) :
      Goes d (.inserting e n inShutdown) (.judging e n inShutdown result) d.stats
        [.insertEnded e.call result]
  | judge (e : Entry) (n : Nat) (inShutdown : Bool) (result : InsertResult) :
      Goes d (.judging e n inShutdown result) (d.judge e n inShutdown result) d.stats []
  | succeed (e : Entry) (env : Env) :
      Goes d (.succeeding e) (d.succeed e env).thread (d.succeed e env).stats []
  | recover (e : Entry) (after : Nat) :
      Goes d (.recovering e after) (.counting e) d.stats [.sys (.recovered after)]
  | fail {e : Entry} {n : Nat} {msg : String} {env : Env}
      (h : backoffDeadline d.cfg n env.now env.seed ≠ none) :
      Goes d (.failing e n msg) (d.fail e n msg env).thread (d.fail e n msg env).stats []
  | tellFailed (e : Entry) (n : Nat) (msg : String) (degraded : Bool) :
      Goes d (.failed e n msg true degraded) (.failed e n msg false degraded) d.stats
        [.sys (.failed msg)]
  | degrade (e : Entry) (n : Nat) (msg : String) (inBackoff : Nat) :
      Goes d (.failed e n msg false true) (.degraded e n msg inBackoff)
        { d.stats with degradedFired := true } []
  | backOff (e : Entry) (n : Nat) (msg : String) :
      Goes d (.failed e n msg false false) (.backingOff e n) d.stats []
  | tellDegraded (e : Entry) (n : Nat) (msg : String) (inBackoff : Nat) :
      Goes d (.degraded e n msg inBackoff) (.backingOff e n) d.stats
        [.sys (.degraded n inBackoff msg)]
  | sleep (e : Entry) (n deadline : Nat) :
      Goes d (.backingOff e n) (.sleeping e n deadline) d.stats []
  | retry (e : Entry) (n deadline : Nat) :
      Goes d (.sleeping e n deadline) (.attempting e n false) d.stats []
  | sleepOn (e : Entry) (n deadline : Nat) :
      Goes d (.sleeping e n deadline) (.sleeping e n deadline) d.stats []
  | bury (e : Entry) (n : Nat) (msg : String) :
      Goes d (.burying e n msg) (.buried e) d.stats [.sys (.deadLetter e.row.id n msg)]
  | lose (e : Entry) (errorType : String) :
      Goes d (.losing e errorType) (.lost e) d.stats [.sys (.lostAtStop errorType e.row.id)]

/-- What is seen of the thread's row and of its counters when the thread goes on. -/
structure GoesOn (cfg : DrainerConfig) (t t' : Thread) (es : List Event) : Prop where
  entry : t'.entry = t.entry
  running : t.worker = .running
  running' : t'.worker = .running
  quiet : Quiet es
  told : ∀ history, Told cfg history t → Told cfg (history ++ es) t'
  begun : ∀ history, Told cfg history t →
    (t'.begun.map Entry.call).toList = (t.begun.map Entry.call).toList ++ firstInserts es
  inserts : ∀ i n, .insertBegan i n ∈ es → ∃ e, t'.begun = some e ∧ e.call = i

theorem goesOn_judge (d : Drainer) (e : Entry) (attempt : Nat) (inShutdown : Bool)
    (result : InsertResult) : GoesOn d.cfg (.judging e attempt inShutdown result)
      (d.judge e attempt inShutdown result) [] := by
  cases result with
  | ok =>
    exact ⟨rfl, rfl, rfl, ⟨rfl, rfl⟩, fun _ h => List.mem_append_left _ h, fun _ _ => rfl, by simp⟩
  | err err msg =>
    dsimp only [Drainer.judge]
    split_ifs with hstop hbury
    · exact ⟨rfl, rfl, rfl, ⟨rfl, rfl⟩, fun _ _ => trivial, fun _ _ => rfl, by simp⟩
    · exact ⟨rfl, rfl, rfl, ⟨rfl, rfl⟩, fun _ _ => trivial, fun _ _ => rfl, by simp⟩
    · -- a row that is tried again has attempts left
      refine ⟨rfl, rfl, rfl, ⟨rfl, rfl⟩, fun _ _ => ⟨by omega, ?_⟩, fun _ _ => rfl, by simp⟩
      exact Nat.lt_of_not_le fun hmax => hbury (Or.inl hmax)
  | panicked =>
    dsimp only [Drainer.judge]
    split_ifs <;>
      exact ⟨rfl, rfl, rfl, ⟨rfl, rfl⟩, fun _ _ => trivial, fun _ _ => rfl, by simp⟩

section Goes

variable {d : Drainer} {t t' : Thread} {stats : Stats} {es : List Event}

theorem Goes.goesOn (h : Goes d t t' stats es) : GoesOn d.cfg t t' es := by
  cases h with
  | wait | wake | start e =>
    exact ⟨rfl, rfl, rfl, ⟨rfl, rfl⟩, fun _ _ => by first | trivial | exact Or.inl rfl,
      fun _ _ => rfl, by simp⟩
  | begin e n inShutdown =>
    refine ⟨rfl, rfl, rfl, ⟨rfl, rfl⟩, fun _ _ => trivial, fun _ _ => ?_,
      by simp [Thread.begun, Thread.entry]⟩
    cases n <;> rfl
  | «end» e n inShutdown result =>
    exact ⟨rfl, rfl, rfl, ⟨rfl, rfl⟩, fun _ _ => List.mem_append_right _ List.mem_cons_self,
      fun _ _ => rfl, by simp⟩
  | judge e n inShutdown result => exact goesOn_judge d e n inShutdown result
  | succeed e env =>
    dsimp only [Drainer.succeed]
    split <;> exact ⟨rfl, rfl, rfl, ⟨rfl, rfl⟩,
      fun _ h => Reported.append (e := e) (o := .stored) h [], fun _ _ => rfl, by simp⟩
  | recover e after =>
    exact ⟨rfl, rfl, rfl, ⟨rfl, rfl⟩, fun _ h => Reported.append (e := e) (o := .stored) h _,
      fun _ _ => rfl, by simp⟩
  | fail hdeadline =>
    obtain ⟨deadline, hsome⟩ := Option.ne_none_iff_exists'.1 hdeadline
    simp only [Drainer.fail, hsome]
    exact ⟨rfl, rfl, rfl, ⟨rfl, rfl⟩, fun _ h => h, fun _ _ => rfl, by simp⟩
  | tellFailed | degrade | backOff | tellDegraded | sleep | sleepOn =>
    exact ⟨rfl, rfl, rfl, ⟨rfl, rfl⟩, fun _ h => h, fun _ _ => rfl, by simp⟩
  | retry e n deadline =>
    refine ⟨rfl, rfl, rfl, ⟨rfl, rfl⟩, fun _ h => Or.inr h.2, fun _ h => ?_, by simp⟩
    -- its first insert has begun: this is not attempt 0
    cases n with
    | zero => exact absurd h.1 (by decide)
    | succ n => rfl
  | bury e n msg =>
    refine ⟨rfl, rfl, rfl, ⟨rfl, rfl⟩, fun _ _ => ⟨n, msg, ?_⟩, fun _ _ => rfl, by simp⟩
    exact List.mem_append_right _ List.mem_cons_self
  | lose e errorType =>
    refine ⟨rfl, rfl, rfl, ⟨rfl, rfl⟩, fun _ _ => ⟨errorType, ?_⟩, fun _ _ => rfl, by simp⟩
    exact List.mem_append_right _ List.mem_cons_self

theorem Drainer.total_fail (d : Drainer) (e : Entry) (n : Nat) (msg : String) (env : Env) :
    (d.fail e n msg env).stats.total = d.stats.total
      ∧ (d.fail e n msg env).stats.highWater = d.stats.highWater := by
  unfold Drainer.fail
  cases backoffDeadline d.cfg n env.now env.seed <;> exact ⟨by funext o; cases o <;> rfl, rfl⟩

theorem Goes.stats_frame (h : Goes d t t' stats es) :
    stats.total = d.stats.total ∧ stats.highWater = d.stats.highWater := by
  cases h with
  | succeed | degrade => exact ⟨by funext o; cases o <;> rfl, rfl⟩
  | fail hdeadline => exact d.total_fail _ _ _ _
  | _ => exact ⟨rfl, rfl⟩

end Goes

/-- How the thread's row is about to leave. -/
def Thread.settles : Thread → Option (Entry × Outcome)
  | .counting e => some (e, .stored)
  | .buried e => some (e, .deadLettered)
  | .lost e => some (e, .lostAtStop)
  | _ => none

theorem Thread.entry_of_settles {t : Thread} {e : Entry} {o : Outcome} (h : t.settles = some (e, o)) :
    t.entry = some e ∧ t.begun = some e ∧ t.worker = .running := by
  cases t <;> cases h <;> exact ⟨rfl, rfl, rfl⟩

theorem Told.reported {cfg : DrainerConfig} {history : List Event} {t : Thread} {e : Entry}
    {o : Outcome} (h : Told cfg history t) (hsettles : t.settles = some (e, o)) :
    Reported history e o := by
  cases t <;> cases hsettles <;> exact h

/-- The row is counted. -/
def Stats.settle (st : Stats) (row : Row) : Outcome → Stats
  | .stored => { st with drainedTotal := st.drainedTotal + 1 }
  | .deadLettered => st.bury row
  | .lostAtStop => { st with lostAtStopTotal := st.lostAtStopTotal + 1 }

theorem Stats.total_settle (st : Stats) (row : Row) (o : Outcome) :
    (st.settle row o).total = fun o' => st.total o' + if o' = o then 1 else 0 := by
  funext o'
  cases o <;> cases o' <;> rfl

/-- A delay the thread computes here overflows. -/
def Thread.DiesBy (cfg : DrainerConfig) : Thread → Prop
  | .failing _ attempt _ | .backingOff _ attempt =>
    ∃ now seed, backoffDeadline cfg attempt now seed = none
  | _ => False

/-- What a step of the drain thread can do. -/
inductive ThreadStep (d : Drainer) : Drainer → List Event → Prop where
  | work {thread : Thread} {stats : Stats} {es : List Event}
      (hgoes : Goes d d.thread thread stats es) :
      ThreadStep d { d with thread := thread, stats := stats } es
  | take {e : Entry} {rest : List Entry} (hthread : d.thread = .popping)
      (hqueue : d.queue = e :: rest) :
      ThreadStep d { d with queue := rest, thread := .popped e } []
  | settle {e : Entry} {o : Outcome} {calls : List Call} {woken : Option Nat}
      (hsettles : d.thread.settles = some (e, o)) (hcalls : SameCalls d.calls calls)
      (hrelease : { d with thread := .popping, stats := d.stats.settle e.row o }.release woken
        = some { d with
          thread := .popping
          stats := d.stats.settle e.row o
          available := if d.available < d.cfg.capacity then d.available + 1 else d.available
          calls := calls }) :
      ThreadStep d
        { d with
          thread := .popping
          stats := d.stats.settle e.row o
          available := if d.available < d.cfg.capacity then d.available + 1 else d.available
          calls := calls } [.settled e.call o]
  | finish (hentry : d.thread.entry = none) (hworker : d.thread.worker = .running)
      (hstop : d.stop = true) (hqueue : d.queue = []) :
      ThreadStep d { d with thread := .exiting none } []
  | die {e : Entry} {stats : Stats} (hentry : d.thread.entry = some e)
      (hbegun : d.thread.begun = some e) (hdies : d.thread.DiesBy d.cfg)
      (hstats : stats.total = d.stats.total ∧ stats.highWater = d.stats.highWater) :
      ThreadStep d { d with thread := .exiting (some e), stats := stats } []
  | exit {dropped : Option Entry} (hthread : d.thread = .exiting dropped) :
      ThreadStep d
        { d with thread := .exited dropped, panicked := dropped.isSome, exited := true } []

/-- A row is counted and its slot freed. -/
theorem threadStep_settle {e : Entry} {o : Outcome} {woken : Option Nat}
    (hsettles : d.thread.settles = some (e, o))
    (h : ({ d with thread := .popping, stats := d.stats.settle e.row o }.release woken).map
      (·, [Event.settled e.call o]) = some (d', es)) : ThreadStep d d' es := by
  obtain ⟨d₁, hrelease, heq⟩ := Option.map_eq_some_iff.1 h
  cases heq
  obtain ⟨calls, hcalls, rfl⟩ := Drainer.release_eq_some hrelease
  exact .settle hsettles hcalls hrelease

theorem stepThread_cases (h : d.stepThread env = some (d', es)) : ThreadStep d d' es := by
  have hwork : ∀ {t t' : Thread} {stats : Stats} {es : List Event}, d.thread = t →
      Goes d t t' stats es → ThreadStep d { d with thread := t', stats := stats } es :=
    fun ht hgoes => .work (ht ▸ hgoes)
  unfold Drainer.stepThread at h
  generalize ht : d.thread = t at h
  cases t with
  | popping =>
    dsimp only at h
    split at h <;> cases h
    · exact .take ht ‹_›
    · by_cases hstop : d.stop = true
      · rw [if_pos hstop]
        exact .finish (by rw [ht]; rfl) (by rw [ht]; rfl) hstop ‹_›
      · rw [if_neg hstop]
        exact hwork ht .wait
  | waiting =>
    cases h
    by_cases hdone : d.stop = true ∧ d.queue = []
    · rw [if_pos (by simp [hdone])]
      exact .finish (by rw [ht]; rfl) (by rw [ht]; rfl) hdone.1 hdone.2
    · rw [if_neg (by simpa using hdone)]
      exact hwork ht .wake
  | popped e => cases h; exact hwork ht (.start e)
  | attempting e n inShutdown => cases h; exact hwork ht (.begin e n inShutdown)
  | inserting e n inShutdown => cases h; exact hwork ht (.end e n inShutdown env.result)
  | judging e n inShutdown result => cases h; exact hwork ht (.judge e n inShutdown result)
  | succeeding e => cases h; exact hwork ht (.succeed e env)
  | recovering e after => cases h; exact hwork ht (.recover e after)
  | counting e => exact threadStep_settle (o := .stored) (by rw [ht]; rfl) h
  | failing e n msg =>
    cases h
    cases hdeadline : backoffDeadline d.cfg n env.now env.seed with
    | none =>
      simp only [Drainer.fail, hdeadline]
      exact .die (by rw [ht]; rfl) (by rw [ht]; rfl) (by rw [ht]; exact ⟨_, _, hdeadline⟩)
        ⟨by funext o; cases o <;> rfl, rfl⟩
    | some deadline =>
      have hgoes : Goes d (.failing e n msg) (d.fail e n msg env).thread
        (d.fail e n msg env).stats [] := .fail (by simp [hdeadline])
      simp only [Drainer.fail, hdeadline] at hgoes ⊢
      exact hwork ht hgoes
  | failed e n msg first degraded =>
    cases first with
    | true => cases h; exact hwork ht (.tellFailed e n msg degraded)
    | false =>
      cases degraded with
      | true => cases h; exact hwork ht (.degrade e n msg _)
      | false => cases h; exact hwork ht (.backOff e n msg)
  | degraded e n msg inBackoff => cases h; exact hwork ht (.tellDegraded e n msg inBackoff)
  | backingOff e n =>
    cases h
    cases hdeadline : backoffDeadline d.cfg n env.now env.seed with
    | none =>
      exact .die (by rw [ht]; rfl) (by rw [ht]; rfl) (by rw [ht]; exact ⟨_, _, hdeadline⟩)
        ⟨rfl, rfl⟩
    | some deadline => exact hwork ht (.sleep e n deadline)
  | sleeping e n deadline =>
    dsimp only at h
    split_ifs at h <;> cases h
    · exact hwork ht (.retry e n deadline)
    · have hstay : Goes d d.thread d.thread d.stats [] := ht ▸ .sleepOn e n deadline
      exact .work hstay
  | burying e n msg => cases h; exact hwork ht (.bury e n msg)
  | buried e => exact threadStep_settle (o := .deadLettered) (by rw [ht]; rfl) h
  | losing e errorType => cases h; exact hwork ht (.lose e errorType)
  | lost e => exact threadStep_settle (o := .lostAtStop) (by rw [ht]; rfl) h
  | exiting dropped => cases h; exact .exit ht
  | exited dropped => cases h

/-! ## Calls -/

/-- Call `i` is there and the test holds of it. -/
def callIs (p : Call → Bool) (calls : List Call) (i : Nat) : Bool := (calls[i]?).any p

section CallIs

variable {p : Call → Bool} {calls calls' : List Call} {i : Nat} {c c' : Call}

theorem callIs_of_sameCalls (hp : ∀ c, p c.unpark = p c) (h : SameCalls calls calls') :
    callIs p calls' = callIs p calls := by
  have hmap : ∀ calls : List Call, callIs p calls = callIs p (calls.map Call.unpark) := by
    intro calls
    funext i
    simp only [callIs, List.getElem?_map]
    cases calls[i]? with
    | none => rfl
    | some c => exact (hp c).symm
  rw [hmap calls', h, ← hmap]

/-- A call that moves on keeps what the test says of it. -/
theorem callIs_set (hi : calls[i]? = some c) (hc : p c' = p c) :
    callIs p (calls.set i c') = callIs p calls := by
  funext j
  simp only [callIs, List.getElem?_set]
  split_ifs with hij hlt
  · rw [← hij, hi]
    exact hc
  · rw [← hij, List.getElem?_eq_none (Nat.le_of_not_lt hlt)]
  · rfl

theorem callIs_of_set {j : Nat} (h : callIs p (calls.set i c) j = true) :
    p c = true ∨ callIs p calls j = true := by
  simp only [callIs, List.getElem?_set] at h
  split_ifs at h
  · exact Or.inl h
  · cases h
  · exact Or.inr h

theorem callIs_append (hc : p c = false) : callIs p (calls ++ [c]) = callIs p calls := by
  funext j
  simp only [callIs, List.getElem?_append]
  split_ifs with hlt
  · rfl
  · rw [List.getElem?_eq_none (Nat.le_of_not_lt hlt)]
    cases hj : [c][j - calls.length]? with
    | none => rfl
    | some x =>
      rw [List.mem_singleton.1 (List.mem_of_getElem? hj)]
      exact hc

end CallIs

/-- The call brings this row. -/
def Call.brings (row : Row) : Call → Bool
  | .enqueue r _ => decide (r = row)
  | _ => false

theorem Call.accepted_unpark (c : Call) : c.unpark.accepted = c.accepted :=
  Call.of_unpark _ (fun _ => rfl) c

theorem Call.brings_unpark (row : Row) (c : Call) : c.unpark.brings row = c.brings row :=
  Call.of_unpark (Call.brings row) (fun _ => rfl) c

/-- What a step of `stop` can do. -/
inductive StopStep (d : Drainer) (i : Nat) : Stop → Drainer → List Event → Prop where
  | close : StopStep d i .entered ({ d with stop := true }.setCall i (.stop .releasing)) []
  | release : StopStep d i .releasing (d.releaseAll.setCall i (.stop .notifying)) []
  | notify : StopStep d i .notifying (d.setCall i (.stop .taking)) []
  | take (hhandle : d.handle = .present) :
      StopStep d i .taking ({ d with handle := .joining }.setCall i (.stop .joining)) []
  | gone (hhandle : d.handle = .gone) : StopStep d i .taking (d.setCall i (.stop .returned)) []
  | join {dropped : Option Entry} {timedOut : Bool} {elapsed : Nat}
      (hthread : d.thread = .exited dropped) :
      StopStep d i .joining (d.setCall i (.stop (.joined
        (if dropped.isSome then some (.threadPanicked d.queue.length)
          else if timedOut then some (.stopSlow elapsed) else none)))) []
  | tell {e : Option SysEvent} :
      StopStep d i (.joined e) ({ d with handle := .gone }.setCall i (.stop .returned))
        (e.toList.map .sys)

theorem stepStop_cases {place : Stop} (h : d.stepStop i env place = some (d', es)) :
    StopStep d i place d' es := by
  cases place with
  | entered => cases h; exact .close
  | releasing => cases h; exact .release
  | notifying => cases h; exact .notify
  | taking =>
    simp only [Drainer.stepStop] at h
    split at h <;> cases h
    · exact .take ‹_›
    · exact .gone ‹_›
  | joining =>
    simp only [Drainer.stepStop] at h
    split at h <;> cases h
    exact .join ‹_›
  | joined e => cases h; exact .tell
  | returned => cases h

theorem sameCalls_unpark (calls : List Call) : SameCalls calls (calls.map Call.unpark) := by
  simp [SameCalls, Call.unpark_unpark]

/-- What a step of `stop` does to the calls. -/
theorem StopStep.calls {place : Stop} (h : StopStep d i place d' es) :
    OnlySys es ∧ ∃ (calls : List Call) (place' : Stop), SameCalls d.calls calls
      ∧ d'.calls = calls.set i (.stop place') := by
  cases h with
  | release => exact ⟨.none, _, _, sameCalls_unpark d.calls, rfl⟩
  | @tell e => exact ⟨.ofOption e, d.calls, _, rfl, rfl⟩
  | _ => exact ⟨.none, d.calls, _, rfl, rfl⟩

/-- A step of `stop` shows only in the queue being closed. -/
theorem StopStep.frame {place : Stop} (h : StopStep d i place d' es) :
    d'.queue = d.queue ∧ d'.thread = d.thread ∧ d'.stats = d.stats ∧ d'.cfg = d.cfg
      ∧ d'.exited = d.exited ∧ d'.panicked = d.panicked
      ∧ (d'.stop = d.stop ∨ place = .entered ∧ d'.stop = true) := by
  cases h with
  | close => exact ⟨rfl, rfl, rfl, rfl, rfl, rfl, Or.inr ⟨rfl, rfl⟩⟩
  | _ => exact ⟨rfl, rfl, rfl, rfl, rfl, rfl, Or.inl rfl⟩

theorem stepFlush_calls {place : Flush} (hi : d.calls[i]? = some (.flush place))
    (h : d.stepFlush i env place = some (d', es)) :
    es = [] ∧ ∃ place', d' = d.setCall i (.flush place') := by
  cases place with
  | entered =>
    cases h
    exact ⟨rfl, _, rfl⟩
  | waiting target =>
    simp only [Drainer.stepFlush] at h
    split_ifs at h <;> cases h
    · exact ⟨rfl, _, rfl⟩
    · exact ⟨rfl, _, rfl⟩
    · exact ⟨rfl, _, rfl⟩
    · refine ⟨rfl, .waiting target, ?_⟩
      obtain ⟨hlt, hcall⟩ := List.getElem?_eq_some_iff.1 hi
      rw [Drainer.setCall, ← hcall, List.set_getElem_self]
  | returned drained => cases h

/-- `stop` leaves a test alone that says the same of all its places. -/
theorem StopStep.callIs {p : Call → Bool} (hp : ∀ c, p c.unpark = p c)
    (hstop : ∀ place place', p (.stop place') = p (.stop place)) {place : Stop}
    (hi : d.calls[i]? = some (.stop place)) (h : StopStep d i place d' es) :
    Core.callIs p d'.calls = Core.callIs p d.calls := by
  obtain ⟨-, calls, place', hcalls, heq⟩ := h.calls
  rw [heq, callIs_set (hcalls.getElem?_eq hi Call.eq_stop_of_unpark) (hstop place place'),
    callIs_of_sameCalls hp hcalls]

/-- What a step can be. -/
inductive DrainerStep (d : Drainer) : Drainer → List Event → Prop where
  | call {c : Call} (hentered : c.entered = true) :
      DrainerStep d { d with calls := d.calls ++ [c] } [.called d.calls.length]
  | wake {calls : List Call} {i : Nat} (hcalls : SameCalls d.calls calls)
      (hnotify : d.notifyOne (some i) = some { d with calls := calls }) :
      DrainerStep d { d with calls := calls } []
  | enqueue {d' : Drainer} {es : List Event} {i : Nat} {row : Row} {place : Enqueue}
      (hi : d.calls[i]? = some (.enqueue row place)) (h : EnqueueStep d i row place d' es) :
      DrainerStep d d' es
  | stop {d' : Drainer} {es : List Event} {i : Nat} {place : Stop}
      (hi : d.calls[i]? = some (.stop place)) (h : StopStep d i place d' es) : DrainerStep d d' es
  | flush {i : Nat} {place place' : Flush} {env : Env} (hi : d.calls[i]? = some (.flush place))
      (h : d.stepFlush i env place = some (d.setCall i (.flush place'), [])) :
      DrainerStep d (d.setCall i (.flush place')) []
  | thread {d' : Drainer} {es : List Event} {env : Env} (hthread : d.stepThread env = some (d', es))
      (h : ThreadStep d d' es) : DrainerStep d d' es

/-- Whatever is not a step of the thread leaves it and the counters alone. -/
theorem DrainerStep.thread_or_frame (h : DrainerStep d d' es) :
    ThreadStep d d' es ∨ d'.thread = d.thread ∧ d'.stats.total = d.stats.total
      ∧ settledCalls es = [] ∧ firstInserts es = [] ∧ (∀ i n, .insertBegan i n ∉ es)
      ∧ d'.exited = d.exited ∧ d'.panicked = d.panicked := by
  cases h with
  | call | wake | flush => exact Or.inr ⟨rfl, rfl, rfl, rfl, by simp, rfl, rfl⟩
  | enqueue hi h =>
    cases h with
    | goes e h =>
      have hes := OnlySys.ofOption e
      exact Or.inr ⟨rfl, h.counters.1, hes.quiet.2, hes.firstInserts, hes.insertBegan_notMem, rfl,
        rfl⟩
    | _ => exact Or.inr ⟨rfl, rfl, rfl, rfl, by simp, rfl, rfl⟩
  | stop hi h =>
    have hes := h.calls.1
    obtain ⟨-, hthread, hstats, -, hexited, hpanicked, -⟩ := h.frame
    exact Or.inr ⟨hthread, by rw [hstats], hes.quiet.2, hes.firstInserts, hes.insertBegan_notMem,
      hexited, hpanicked⟩
  | thread hthread h => exact Or.inl h

theorem step_cases {l : Label} (h : d.step l = some (d', es)) : DrainerStep d d' es := by
  cases l with
  | call c =>
    simp only [Drainer.step] at h
    split_ifs at h with hentered
    cases h
    exact .call hentered
  | wake i =>
    obtain ⟨d₁, hnotify, heq⟩ := Option.map_eq_some_iff.1 h
    cases heq
    obtain ⟨calls, hcalls, rfl⟩ := Drainer.notifyOne_eq_some hnotify
    exact .wake hcalls hnotify
  | move i env =>
    simp only [Drainer.step] at h
    split at h
    · exact .enqueue ‹_› (stepEnqueue_cases h)
    · exact .stop ‹_› (stepStop_cases h)
    · rename_i place hi
      obtain ⟨rfl, place', rfl⟩ := stepFlush_calls hi h
      exact .flush hi h
    · cases h
  | thread env => exact .thread h (stepThread_cases h)

/-- The thread touches only waiters. -/
theorem ThreadStep.sameCalls (h : ThreadStep d d' es) : SameCalls d.calls d'.calls := by
  cases h with
  | settle hsettles hcalls => exact hcalls
  | _ => rfl

/-- Only the thread settles, and only `enqueue` pushes. -/
theorem ThreadStep.pushes_nothing (h : ThreadStep d d' es) : pushedCalls es = [] := by
  cases h with
  | work hgoes => exact hgoes.goesOn.quiet.1
  | _ => rfl

/-- A call is accepted when its row is pushed, and stays so. -/
theorem DrainerStep.accepted (h : DrainerStep d d' es) (j : Nat) :
    callIs Call.accepted d'.calls j = true
      ↔ callIs Call.accepted d.calls j = true ∨ j ∈ pushedCalls es := by
  -- where nothing is pushed, nothing changes
  have hsame : ∀ {calls : List Call}, pushedCalls es = [] →
      callIs Call.accepted calls = callIs Call.accepted d.calls →
      (callIs Call.accepted calls j = true
        ↔ callIs Call.accepted d.calls j = true ∨ j ∈ pushedCalls es) := by
    intro calls hpushed hcalls
    rw [hpushed, hcalls]
    simp
  cases h with
  | call hentered =>
    refine hsame rfl (callIs_append ?_)
    rename_i c
    cases c with
    | enqueue row place => cases place <;> first | rfl | cases hentered
    | stop | flush => rfl
  | wake hcalls => exact hsame rfl (callIs_of_sameCalls Call.accepted_unpark hcalls)
  | enqueue hi h =>
    cases h with
    | goes e h => exact hsame (OnlySys.ofOption e).quiet.1 (callIs_set hi h.accepted)
    | wait | acquire => exact hsame rfl (callIs_set hi rfl)
    | push hstop =>
      rename_i i row
      have hpushed : pushedCalls [Event.pushed i] = [i] := rfl
      simp only [callIs, List.getElem?_set, hpushed, List.mem_singleton]
      by_cases hij : i = j
      · simp [← hij, (List.getElem?_eq_some_iff.1 hi).1, Call.accepted]
      · simp [hij, Ne.symm hij]
    | release hcalls =>
      exact hsame rfl ((callIs_of_sameCalls Call.accepted_unpark hcalls).trans
        (callIs_set hi rfl))
  | stop hi h =>
    exact hsame h.calls.1.quiet.1 (h.callIs Call.accepted_unpark (fun _ _ => rfl) hi)
  | flush hi h => exact hsame rfl (callIs_set hi rfl)
  | thread hthread h =>
    exact hsame h.pushes_nothing (callIs_of_sameCalls Call.accepted_unpark h.sameCalls)

/-- A call keeps its row. -/
theorem DrainerStep.brings (h : DrainerStep d d' es) {row : Row} {j : Nat}
    (hj : callIs (Call.brings row) d.calls j = true) :
    callIs (Call.brings row) d'.calls j = true := by
  have hsame : ∀ {calls : List Call}, callIs (Call.brings row) calls
      = callIs (Call.brings row) d.calls → callIs (Call.brings row) calls j = true := by
    intro calls hcalls
    rw [hcalls]
    exact hj
  cases h with
  | call hentered =>
    simp only [callIs] at hj ⊢
    obtain ⟨c, hc, hbrings⟩ := (Option.any_eq_true _ _).1 hj
    rw [List.getElem?_append_left (List.getElem?_eq_some_iff.1 hc).1, hc]
    exact hbrings
  | wake hcalls => exact hsame (callIs_of_sameCalls (Call.brings_unpark row) hcalls)
  | enqueue hi h =>
    cases h with
    | goes | wait | acquire | push => exact hsame (callIs_set hi rfl)
    | release hcalls =>
      exact hsame ((callIs_of_sameCalls (Call.brings_unpark row) hcalls).trans
        (callIs_set hi rfl))
  | stop hi h => exact hsame (h.callIs (Call.brings_unpark row) (fun _ _ => rfl) hi)
  | flush hi h => exact hsame (callIs_set hi rfl)
  | thread hthread h => exact hsame (callIs_of_sameCalls (Call.brings_unpark row) h.sameCalls)

end Fasten.Core
