import Fasten.Drainer.Refines

set_option autoImplicit false

/-! # No row is lost silently

Where each row of the drainer is at any time, what the counters and the sys events say of it, and what
is left when `stop` returns. -/

namespace Fasten.Core

/-! ## Counters -/

/-- The counters are the numbers of the rows that left in each way. -/
def Counted (w : World) : Prop :=
  ∀ o, w.state.stats.total o = (settledCalls w.history).countP (fun s => decide (s.2 = o))

variable {w : World} {d d' : Drainer} {es : List Event}

theorem Counted.step (hw : Counted w) (h : DrainerStep w.state d' es) :
    Counted ⟨d', w.history ++ es⟩ := by
  rcases h.thread_or_frame with h | ⟨-, hstats, hsettled, -⟩
  · have hquiet : settledCalls es = [] → d'.stats.total = w.state.stats.total →
        Counted ⟨d', w.history ++ es⟩ := by
      intro hes hstats o
      rw [settledCalls_append, hes, List.append_nil, hstats]
      exact hw o
    cases h with
    | work hgoes => exact hquiet hgoes.goesOn.quiet.2 hgoes.stats_frame.1
    | take hthread hqueue => exact hquiet rfl rfl
    | settle hsettles hcalls hrelease =>
      intro o'
      rw [settledCalls_append, List.countP_append, Stats.total_settle, ← hw o']
      simp [settledCalls, List.countP_cons, eq_comm]
    | finish hentry hworker hstop hqueue => exact hquiet rfl rfl
    | die hentry hbegun hdies hstats => exact hquiet rfl hstats.1
    | exit hthread => exact hquiet rfl rfl
  · intro o
    rw [settledCalls_append, hsettled, List.append_nil, hstats]
    exact hw o

/-! ## Inserts and reports -/

theorem Told.append {cfg : DrainerConfig} {history : List Event} {t : Thread}
    (h : Told cfg history t) (es : List Event) : Told cfg (history ++ es) t := by
  cases t with
  | judging e attempt inShutdown result => exact List.mem_append_left _ h
  | succeeding e | recovering e after | counting e =>
    exact Reported.append (e := e) (o := .stored) h es
  | buried e => exact Reported.append (e := e) (o := .deadLettered) h es
  | lost e => exact Reported.append (e := e) (o := .lostAtStop) h es
  | _ => exact h

/-- What the history says of the rows that left, and of the thread's. -/
structure Accounted (w : World) : Prop where
  told : Told w.state.cfg w.history w.state.thread
  firsts : firstInserts w.history = (settledCalls w.history).map Prod.fst
    ++ (w.state.thread.begun.map Entry.call).toList
  inserts : ∀ i n, .insertBegan i n ∈ w.history → i ∈ firstInserts w.history
  reported : ∀ i o, (i, o) ∈ settledCalls w.history →
    ∃ row, callIs (Call.brings row) w.state.calls i = true ∧ Reported w.history ⟨i, row⟩ o

theorem DrainerStep.cfg (h : DrainerStep d d' es) : d'.cfg = d.cfg := by
  cases h with
  | call | wake | flush => rfl
  | enqueue hi h | stop hi h | thread hthread h => cases h <;> rfl

/-- What was said stays said. -/
theorem Accounted.reported_step (hw : Accounted w) (h : DrainerStep w.state d' es) (i : Nat)
    (o : Outcome) (hio : (i, o) ∈ settledCalls w.history) :
    ∃ row, callIs (Call.brings row) d'.calls i = true ∧ Reported (w.history ++ es) ⟨i, row⟩ o := by
  obtain ⟨row, hbrings, hsaid⟩ := hw.reported i o hio
  exact ⟨row, h.brings hbrings, hsaid.append es⟩

theorem Thread.begun_eq_none {t : Thread} (h : t.entry = none) : t.begun = none := by
  cases t with
  | attempting | popped => cases h
  | _ => exact h

/-- A step that settles no row. -/
theorem Accounted.of_no_settle (hw : Accounted w) (h : DrainerStep w.state d' es)
    (hsettled : settledCalls es = []) (htold : Told w.state.cfg (w.history ++ es) d'.thread)
    (hbegun : (d'.thread.begun.map Entry.call).toList
      = (w.state.thread.begun.map Entry.call).toList ++ firstInserts es)
    (hinserts : ∀ i n, .insertBegan i n ∈ es → ∃ e, d'.thread.begun = some e ∧ e.call = i) :
    Accounted ⟨d', w.history ++ es⟩ := by
  have hfirsts : firstInserts (w.history ++ es) = (settledCalls (w.history ++ es)).map Prod.fst
      ++ (d'.thread.begun.map Entry.call).toList := by
    rw [firstInserts_append, hw.firsts, settledCalls_append, hsettled, List.append_nil, hbegun,
      List.append_assoc]
  refine ⟨h.cfg ▸ htold, hfirsts, fun i n hmem => ?_, fun i o hio => ?_⟩
  · rcases List.mem_append.1 hmem with hmem | hmem
    · rw [firstInserts_append]
      exact List.mem_append_left _ (hw.inserts i n hmem)
    · obtain ⟨e, hbegun, rfl⟩ := hinserts i n hmem
      rw [hfirsts, hbegun]
      exact List.mem_append_right _ List.mem_cons_self
  · rw [settledCalls_append, hsettled, List.append_nil] at hio
    exact hw.reported_step h i o hio

theorem Accounted.step (hw : Accounted w) (hm : Matches w) (h : DrainerStep w.state d' es) :
    Accounted ⟨d', w.history ++ es⟩ := by
  rcases h.thread_or_frame with hthread | ⟨hthread, -, hsettled, hfirst, hinsert, -⟩
  · cases hthread with
    | work hmove =>
      have hgoes := hmove.goesOn
      exact hw.of_no_settle h hgoes.quiet.2 (hgoes.told _ hw.told) (hgoes.begun _ hw.told)
        hgoes.inserts
    | take hthread hqueue =>
      exact hw.of_no_settle h rfl trivial (by rw [hthread]; rfl) (by simp)
    | settle hsettles hcalls hrelease =>
      rename_i e o calls woken
      obtain ⟨hentry, hbegun, -⟩ := Thread.entry_of_settles hsettles
      refine ⟨trivial, ?_, fun i n hmem => ?_, fun i o' hio => ?_⟩
      · rw [firstInserts_append, hw.firsts, hbegun, settledCalls_append, List.map_append]
        rfl
      · rw [firstInserts_append]
        exact List.mem_append_left _ (hw.inserts i n (by simpa using hmem))
      · rw [settledCalls_append] at hio
        rcases List.mem_append.1 hio with hio | hio
        · exact hw.reported_step h i o' hio
        · -- the row that leaves: its thread has said so
          obtain ⟨rfl, rfl⟩ := Prod.mk.inj (List.mem_singleton.1 hio)
          refine ⟨e.row, h.brings (hm.rows e (Or.inr hentry)), ?_⟩
          exact (hw.told.reported hsettles).append _
    | finish hentry hworker hstop hqueue =>
      exact hw.of_no_settle h rfl trivial (by rw [Thread.begun_eq_none hentry]; rfl) (by simp)
    | die hentry hbegun hdies hstats =>
      exact hw.of_no_settle h rfl trivial (by rw [hbegun]; rfl) (by simp)
    | exit hthread =>
      refine hw.of_no_settle h rfl trivial ?_ (by simp)
      rw [hthread]
      exact (List.append_nil _).symm
  · refine hw.of_no_settle h hsettled (hthread ▸ hw.told.append es) ?_
      (fun i n hmem => absurd hmem (hinsert i n))
    rw [hthread, hfirst, List.append_nil]

/-! ## The end of the thread -/

/-- The thread has not died. -/
theorem Accounted.worker_step (hw : Accounted w) (hfits : w.state.cfg.BackoffFits)
    (halive : w.state.thread.worker ≠ .died) (h : DrainerStep w.state d' es) :
    d'.thread.worker ≠ .died := by
  rcases h.thread_or_frame with hthread | ⟨hthread, -⟩
  · cases hthread with
    | work hgoes =>
      rw [hgoes.goesOn.running']
      exact Worker.noConfusion
    | die hentry hbegun hdies hstats =>
      -- a delay that is computed is one between two attempts
      exfalso
      have htold := hw.told
      cases hthread : w.state.thread with
      | failing e attempt msg | backingOff e attempt =>
        rw [hthread] at hdies htold
        obtain ⟨now, seed, hnone⟩ := hdies
        have hsome := hfits attempt htold.1 htold.2 now seed
        rw [hnone] at hsome
        cases hsome
      | _ =>
        rw [hthread] at hdies
        exact hdies
    | exit hthread =>
      rename_i dropped
      rw [hthread] at halive
      cases dropped with
      | none => exact Worker.noConfusion
      | some e => exact absurd rfl halive
    | _ => exact Worker.noConfusion
  · rw [hthread]
    exact halive

/-! ## Joining the thread -/

/-- A `stop` that has joined the thread. -/
def Call.hasJoined : Call → Bool
  | .stop (.joined _) => true
  | _ => false

/-- A `stop` that has returned. -/
def Call.hasStopped : Call → Bool
  | .stop .returned => true
  | _ => false

/-- What `exited`, the handle and the calls of `stop` say of the thread. -/
structure Joined (d : Drainer) : Prop where
  exited : d.exited = true → ∃ dropped, d.thread = .exited dropped
  thread : ∀ dropped, d.thread = .exited dropped → d.exited = true ∧ d.panicked = dropped.isSome
  handle : d.handle = .gone → d.exited = true
  joined : ∀ i, callIs Call.hasJoined d.calls i = true → d.exited = true
  stopped : ∀ i, callIs Call.hasStopped d.calls i = true → d.handle = .gone

theorem ThreadStep.not_exited (h : ThreadStep d d' es) (dropped : Option Entry) :
    d.thread ≠ .exited dropped := by
  intro hthread
  have hnot : (Thread.exited dropped).worker ≠ .running := by
    cases dropped <;> exact Worker.noConfusion
  cases h with
  | work hgoes => exact hnot (hthread ▸ hgoes.goesOn.running)
  | take hpopping hqueue => cases hpopping.symm.trans hthread
  | settle hsettles hcalls => exact hnot (hthread ▸ (Thread.entry_of_settles hsettles).2.2)
  | finish hentry hworker hstop hqueue => exact hnot (hthread ▸ hworker)
  | die hentry hbegun hdies hstats =>
    rw [hthread] at hdies
    exact hdies
  | exit hexiting => cases hexiting.symm.trans hthread

/-- A test that only calls of `stop` pass, and no call that has just begun. -/
structure StopTest (p : Call → Bool) : Prop where
  unpark : ∀ c, p c.unpark = p c
  enqueue : ∀ row place, p (.enqueue row place) = false
  flush : ∀ place, p (.flush place) = false
  entered : p (.stop .entered) = false

/-- The steps of other threads do not touch the calls of `stop`, nor the handle. -/
theorem DrainerStep.stop_or_callIs (h : DrainerStep d d' es) :
    (∃ i place, d.calls[i]? = some (.stop place) ∧ StopStep d i place d' es)
      ∨ d'.handle = d.handle
        ∧ ∀ p : Call → Bool, StopTest p → callIs p d'.calls = callIs p d.calls := by
  cases h with
  | call hc =>
    rename_i c
    refine Or.inr ⟨rfl, fun p hp => callIs_append ?_⟩
    cases c with
    | enqueue row place => exact hp.enqueue row place
    | stop place =>
      cases place with
      | entered => exact hp.entered
      | _ => cases hc
    | flush place => exact hp.flush place
  | wake hcalls => exact Or.inr ⟨rfl, fun p hp => callIs_of_sameCalls hp.unpark hcalls⟩
  | enqueue hi h =>
    rename_i i row place
    have hset : ∀ (p : Call → Bool), StopTest p → ∀ place',
        callIs p (d.calls.set i (.enqueue row place')) = callIs p d.calls :=
      fun p hp place' => callIs_set hi (by rw [hp.enqueue, hp.enqueue])
    cases h with
    | goes | wait | acquire | push => exact Or.inr ⟨rfl, fun p hp => hset p hp _⟩
    | release hcalls =>
      exact Or.inr ⟨rfl, fun p hp => (callIs_of_sameCalls hp.unpark hcalls).trans (hset p hp _)⟩
  | stop hi h => exact Or.inl ⟨_, _, hi, h⟩
  | flush hi h =>
    exact Or.inr ⟨rfl, fun p hp => callIs_set hi (by rw [hp.flush, hp.flush])⟩
  | thread hthread h =>
    refine Or.inr ⟨?_, fun p hp => callIs_of_sameCalls hp.unpark h.sameCalls⟩
    cases h <;> rfl

theorem stopTest_hasJoined : StopTest Call.hasJoined :=
  ⟨Call.of_unpark _ (fun _ => rfl), fun _ _ => rfl, fun _ => rfl, rfl⟩

theorem stopTest_hasStopped : StopTest Call.hasStopped :=
  ⟨Call.of_unpark _ (fun _ => rfl), fun _ _ => rfl, fun _ => rfl, rfl⟩

/-- The thread and its flags after a step. -/
theorem Joined.exited_step (hd : Joined d) (h : DrainerStep d d' es) :
    (d.exited = true → d'.exited = true)
      ∧ (d'.exited = true → ∃ dropped, d'.thread = .exited dropped)
      ∧ ∀ dropped, d'.thread = .exited dropped →
        d'.exited = true ∧ d'.panicked = dropped.isSome := by
  rcases h.thread_or_frame with h | ⟨hthread, -, -, -, -, hexited, hpanicked⟩
  · have hrunning : d.exited ≠ true := by
      intro hexited
      obtain ⟨dropped, hthread⟩ := hd.exited hexited
      exact h.not_exited dropped hthread
    refine ⟨fun hexited => absurd hexited hrunning, ?_⟩
    cases h with
    | work hgoes =>
      refine ⟨fun hexited => absurd hexited hrunning, fun dropped hthread => ?_⟩
      have hworker := hgoes.goesOn.running'
      dsimp only at hthread
      rw [hthread] at hworker
      cases dropped <;> cases hworker
    | exit hthread =>
      refine ⟨fun _ => ⟨_, rfl⟩, fun dropped hexited => ?_⟩
      cases hexited
      exact ⟨rfl, rfl⟩
    | _ => exact ⟨fun hexited => absurd hexited hrunning, nofun⟩
  · rw [hthread, hexited, hpanicked]
    exact ⟨fun h => h, hd.exited, hd.thread⟩

/-- What a step of `stop` does to its own call and to the handle. -/
theorem Joined.stop_step {i : Nat} {place : Stop} (hd : Joined d)
    (hi : d.calls[i]? = some (.stop place)) (h : StopStep d i place d' es) :
    (d'.handle = .gone → d.exited = true)
      ∧ (∀ j, callIs Call.hasJoined d'.calls j = true → d.exited = true)
      ∧ ∀ j, callIs Call.hasStopped d'.calls j = true → d'.handle = .gone := by
  have hjoined : ∀ {calls : List Call} {c : Call}, callIs Call.hasJoined calls
      = callIs Call.hasJoined d.calls → (c.hasJoined = true → d.exited = true) →
      ∀ j, callIs Call.hasJoined (calls.set i c) j = true → d.exited = true := by
    intro calls c hcalls hc j hj
    rcases callIs_of_set hj with hj | hj
    · exact hc hj
    · rw [hcalls] at hj
      exact hd.joined j hj
  have hstopped : ∀ {calls : List Call} {c : Call}, callIs Call.hasStopped calls
      = callIs Call.hasStopped d.calls → (c.hasStopped = true → d'.handle = .gone) →
      (d.handle = .gone → d'.handle = .gone) →
      ∀ j, callIs Call.hasStopped (calls.set i c) j = true → d'.handle = .gone := by
    intro calls c hcalls hc hgone j hj
    rcases callIs_of_set hj with hj | hj
    · exact hc hj
    · rw [hcalls] at hj
      exact hgone (hd.stopped j hj)
  cases h with
  | close | notify =>
    exact ⟨hd.handle, hjoined rfl (by simp [Call.hasJoined]),
      hstopped rfl (by simp [Call.hasStopped]) id⟩
  | release =>
    have hunparked := sameCalls_unpark d.calls
    exact ⟨hd.handle,
      hjoined (callIs_of_sameCalls stopTest_hasJoined.unpark hunparked) (by simp [Call.hasJoined]),
      hstopped (callIs_of_sameCalls stopTest_hasStopped.unpark hunparked)
        (by simp [Call.hasStopped]) id⟩
  | take hpresent =>
    refine ⟨nofun, hjoined rfl (by simp [Call.hasJoined]),
      hstopped rfl (by simp [Call.hasStopped]) (fun hgone => ?_)⟩
    rw [hpresent] at hgone
    cases hgone
  | gone hgone =>
    exact ⟨hd.handle, hjoined rfl (by simp [Call.hasJoined]), hstopped rfl (fun _ => hgone) id⟩
  | join hthread =>
    exact ⟨hd.handle, hjoined rfl (fun _ => (hd.thread _ hthread).1),
      hstopped rfl (by simp [Call.hasStopped]) id⟩
  | tell =>
    have hexited : d.exited = true := hd.joined i (by simp [callIs, hi, Call.hasJoined])
    exact ⟨fun _ => hexited, fun _ _ => hexited, fun _ _ => rfl⟩

theorem Joined.step (hd : Joined d) (h : DrainerStep d d' es) : Joined d' := by
  obtain ⟨hmono, hexited, hthread⟩ := hd.exited_step h
  rcases h.stop_or_callIs with ⟨i, place, hi, hstep⟩ | ⟨hhandle, hcalls⟩
  · obtain ⟨hhandle, hjoined, hstopped⟩ := hd.stop_step hi hstep
    exact ⟨hexited, hthread, fun hgone => hmono (hhandle hgone),
      fun j hj => hmono (hjoined j hj), hstopped⟩
  · refine ⟨hexited, hthread, fun hgone => hmono (hd.handle (hhandle ▸ hgone)), fun i hi => ?_,
      fun i hi => ?_⟩
    · rw [hcalls _ stopTest_hasJoined] at hi
      exact hmono (hd.joined i hi)
    · rw [hcalls _ stopTest_hasStopped] at hi
      rw [hhandle]
      exact hd.stopped i hi

/-! ## Runs -/

section Runs

variable {cfg : DrainerConfig} {w : World}

theorem Reachable.counted (h : Reachable cfg w) : Counted w :=
  Trace.Reaches.invariant h (fun o => by cases o <;> rfl) fun _ _ _ _ hw hs => hw.step (step_cases hs)

theorem Reachable.joined (h : Reachable cfg w) : Joined w.state := by
  refine Trace.Reaches.invariant (I := fun w => Joined w.state) h ?_
    fun _ _ _ _ hw hs => hw.step (step_cases hs)
  exact ⟨nofun, nofun, nofun,
    nofun, nofun⟩

theorem Reachable.accounted (h : Reachable cfg w) : Accounted w := by
  refine h.invariant_along
    ⟨trivial, rfl, nofun, nofun⟩
    fun w l d' es hw haccounted hs => ?_
  exact haccounted.step (Reachable.matches hw) (step_cases hs)

theorem Reachable.cfg_eq (h : Reachable cfg w) : w.state.cfg = cfg :=
  Trace.Reaches.invariant (I := fun w => w.state.cfg = cfg) h rfl
    fun _ _ _ _ hw hs => (step_cases hs).cfg.trans hw

theorem Thread.begun_eq (t : Thread) : t.begun = none ∨ t.begun = t.entry := by
  cases t with
  | attempting e attempt inShutdown =>
    cases attempt with
    | zero => exact Or.inl rfl
    | succ n => exact Or.inr rfl
  | popped e => exact Or.inl rfl
  | _ => exact Or.inr rfl

/-- Rows get their first insert in the order in which they were pushed. -/
theorem Reachable.firstInserts_isPrefix (h : Reachable cfg w) :
    firstInserts w.history <+: pushedCalls w.history := by
  have horder : pushedCalls w.history = (settledCalls w.history).map Prod.fst
      ++ (w.state.thread.entry.map Entry.call).toList ++ w.state.queue.map Entry.call :=
    h.pipeline_ok.order
  rw [h.accounted.firsts, horder]
  rcases w.state.thread.begun_eq with hbegun | hbegun
  · rw [hbegun, List.append_assoc]
    exact List.prefix_append_right_inj _ |>.2 (List.nil_prefix)
  · rw [hbegun]
    exact List.prefix_append _ _

/-- A thread whose delays fit does not die. -/
theorem Reachable.alive (h : Reachable cfg w) (hfits : cfg.BackoffFits) :
    w.state.thread.worker ≠ .died := by
  refine h.invariant_along (I := fun w => w.state.thread.worker ≠ .died) Worker.noConfusion
    fun w l d' es hw halive hs => ?_
  exact (Reachable.accounted hw).worker_step (Reachable.cfg_eq hw ▸ hfits) halive (step_cases hs)

end Runs

/-! ## Where a row is -/

/-- Where the row of a call can be. -/
inductive RowClass where
  | queued
  | inFlight
  | stored
  | deadLettered
  | lostAtStop
  deriving DecidableEq

/-- The row the thread is working on. -/
def Thread.inFlight (t : Thread) : Option Entry := if t.worker = .running then t.entry else none

def InClass (w : World) (i : Nat) : RowClass → Prop
  | .queued => ∃ e ∈ w.state.queue, e.call = i
  | .inFlight => ∃ e, w.state.thread.inFlight = some e ∧ e.call = i
  | .stored => (i, .stored) ∈ settledCalls w.history
  | .deadLettered => (i, .deadLettered) ∈ settledCalls w.history
  | .lostAtStop => (i, .lostAtStop) ∈ settledCalls w.history

/-- The place of the pipeline a class is. -/
def RowClass.place : RowClass → Pipeline.Place Outcome
  | .queued => .queued
  | .inFlight => .held
  | .stored => .settled .stored
  | .deadLettered => .settled .deadLettered
  | .lostAtStop => .settled .lostAtStop

theorem RowClass.place_injective : Function.Injective RowClass.place := by
  intro a b h
  cases a <;> cases b <;> first | rfl | cases h

theorem RowClass.exists_place (place : Pipeline.Place Outcome) : ∃ c : RowClass, c.place = place := by
  cases place with
  | queued => exact ⟨.queued, rfl⟩
  | held => exact ⟨.inFlight, rfl⟩
  | settled o =>
    cases o with
    | stored => exact ⟨.stored, rfl⟩
    | deadLettered => exact ⟨.deadLettered, rfl⟩
    | lostAtStop => exact ⟨.lostAtStop, rfl⟩

/-- While the thread lives, what it holds is in flight. -/
theorem inFlight_eq_entry {t : Thread} (halive : t.worker ≠ .died) : t.inFlight = t.entry := by
  unfold Thread.inFlight
  split_ifs with hrunning
  · rfl
  · cases t with
    | exiting dropped =>
      cases dropped with
      | none => rfl
      | some e => exact absurd rfl halive
    | exited dropped =>
      cases dropped with
      | none => rfl
      | some e => exact absurd rfl halive
    | _ => exact absurd rfl hrunning

theorem inClass_iff (halive : w.state.thread.worker ≠ .died) {i : Nat} {c : RowClass} :
    InClass w i c ↔ (pipeline w.state w.history).At i c.place := by
  cases c with
  | queued => simp [InClass, RowClass.place, Pipeline.At, pipeline]
  | inFlight => simp [InClass, RowClass.place, Pipeline.At, pipeline, inFlight_eq_entry halive]
  | stored | deadLettered | lostAtStop => rfl

/-- **No row is lost silently.** A row whose `enqueue` returned true is in exactly one class at any
    time, and one whose `enqueue` returned false is never inserted. First inserts come in the order
    of pushing, no row is counted twice, the counters are the sizes of their classes, the store has
    taken what is stored and an event names what is not, and `stop` leaves nothing behind. -/
theorem rows_accounted_for {cfg : DrainerConfig} (hfits : cfg.BackoffFits) {w : World}
    (h : Reachable cfg w) :
    (∀ i row, w.state.calls[i]? = some (.enqueue row (.returned true)) → ∃! c, InClass w i c)
    ∧ (∀ i row, w.state.calls[i]? = some (.enqueue row (.returned false)) →
      ∀ attempt, .insertBegan i attempt ∉ w.history)
    ∧ firstInserts w.history <+: pushedCalls w.history
    ∧ ((settledCalls w.history).map Prod.fst).Nodup
    ∧ (∀ o, w.state.stats.total o = ((settledCalls w.history).filter (·.2 = o)).length)
    ∧ (∀ i row place o, w.state.calls[i]? = some (.enqueue row place) →
      (i, o) ∈ settledCalls w.history → Reported w.history ⟨i, row⟩ o)
    ∧ ∀ i : Nat, w.state.calls[i]? = some (Call.stop .returned) →
      w.state.queue = [] ∧ w.state.thread.inFlight = none := by
  have hmatches := h.matches
  have hok := h.pipeline_ok
  have haccounted := h.accounted
  have halive := h.alive hfits
  have horder := h.firstInserts_isPrefix
  have hnodup : ((settledCalls w.history).map Prod.fst).Nodup := by
    have hpushed := hok.nodup
    rw [hok.order, List.append_assoc] at hpushed
    exact hpushed.of_append_left
  refine ⟨fun i row hi => ?_, fun i row hi attempt hmem => ?_, horder, hnodup, fun o => ?_,
    fun i row place o hi hio => ?_, fun i hi => ?_⟩
  · have hpushed : i ∈ pushedCalls w.history :=
      (hmatches.accepted i).1 (by simp [callIs, hi, Call.accepted])
    obtain ⟨place, hplace, hunique⟩ := hok.existsUnique_at hpushed
    obtain ⟨c, rfl⟩ := RowClass.exists_place place
    refine ⟨c, (inClass_iff halive).2 hplace, fun c' hc' => ?_⟩
    exact RowClass.place_injective (hunique _ ((inClass_iff halive).1 hc'))
  · -- a row that is inserted was pushed, so its call is accepted
    have hpushed := horder.subset (haccounted.inserts i attempt hmem)
    have haccepted := (hmatches.accepted i).2 hpushed
    simp [callIs, hi, Call.accepted] at haccepted
  · rw [h.counted o, List.countP_eq_length_filter]
  · obtain ⟨row', hbrings, hreported⟩ := haccounted.reported i o hio
    simp only [callIs, hi, Option.any_some, Call.brings, decide_eq_true_eq] at hbrings
    rw [hbrings]
    exact hreported
  · have hgone := h.joined.stopped i (by simp [callIs, hi, Call.hasStopped])
    obtain ⟨dropped, hthread⟩ := h.joined.exited (h.joined.handle hgone)
    have hfinished : w.state.thread.worker = .finished := by
      rw [hthread] at halive ⊢
      cases dropped with
      | none => rfl
      | some e => exact absurd rfl halive
    obtain ⟨-, hheld, hqueue⟩ := hok.finished hfinished
    refine ⟨by simpa [pipeline] using hqueue, ?_⟩
    rw [inFlight_eq_entry halive]
    simpa [pipeline] using hheld

/-- Step `k` of a run reads the clock `k` milliseconds after its start. -/
def Env.at (k : Nat) (result : InsertResult) : Env :=
  ⟨⟨k % 1000 * 10 ^ 6, by omega⟩, 0, result, none, false⟩

/-- One `enqueue` that returns, then `drained` steps of the thread, a `stop` that waits for the
    thread, `exiting` more of its steps, and the rest of `stop`. -/
def oneRowRun (row : Row) (result : InsertResult) (drained exiting : Nat) : List Label :=
  .call (.enqueue row .entered) :: List.replicate 6 (.move 0 (.at 0 result))
    ++ (List.range drained).map (fun k => .thread (.at k result))
    ++ .call (.stop .entered) :: List.replicate 4 (.move 1 (.at 0 result))
    ++ List.replicate exiting (.thread (.at 0 result))
    ++ List.replicate 2 (.move 1 (.at 0 result))

theorem rows_accounted_for_default : ∃ w : World, Reachable .default w
    ∧ w.state.calls = [.enqueue ⟨"evt-1", 0⟩ (.returned true), .stop .returned]
    ∧ settledCalls w.history = [(0, .stored)] ∧ (∃! c, InClass w 0 c)
    ∧ w.state.queue = [] ∧ w.state.thread.inFlight = none := by
  obtain ⟨w, hreach, hw⟩ := Trace.exists_reaches_of_run Drainer.step
    (.start (Drainer.new .default)) (oneRowRun ⟨"evt-1", 0⟩ .ok 7 2)
    (fun w => decide (w.state.calls = [.enqueue ⟨"evt-1", 0⟩ (.returned true), .stop .returned]
      ∧ settledCalls w.history = [(0, .stored)])) (by decide +kernel)
  obtain ⟨hcalls, hsettled⟩ := of_decide_eq_true hw
  obtain ⟨hclass, -, -, -, -, -, hstop⟩ := rows_accounted_for DrainerConfig.backoffFits_default hreach
  exact ⟨w, hreach, hcalls, hsettled, hclass 0 _ (by rw [hcalls]; rfl),
    hstop 1 (by rw [hcalls]; rfl)⟩

/-- A row that is in no class: the delay after its eleventh failure is 2^64 - 1 ms times 2^10, which
    a `Duration` does not hold. The panic takes the thread and its row; `stop` joins the thread and
    returns, and no event has named the row. -/
theorem row_dropped_by_overflow : ∃ w : World,
    Reachable (installConfig 0 18446744073709551615 1 false 0) w
    ∧ w.state.calls = [.enqueue ⟨"evt-1", 0⟩ (.returned true), .stop .returned]
    ∧ sysEvents w.history
      = [.failed "store down", .degraded 5 0 "store down", .threadPanicked 0]
    ∧ ∀ c, ¬InClass w 0 c := by
  obtain ⟨w, hreach, hw⟩ := Trace.exists_reaches_of_run Drainer.step
    (.start (Drainer.new (installConfig 0 18446744073709551615 1 false 0)))
    (oneRowRun ⟨"evt-1", 0⟩ (.err (.store "StoreError") "store down") 79 0)
    (fun w => decide (w.state.calls = [.enqueue ⟨"evt-1", 0⟩ (.returned true), .stop .returned]
      ∧ sysEvents w.history = [.failed "store down", .degraded 5 0 "store down", .threadPanicked 0]
      ∧ w.state.queue = [] ∧ w.state.thread.inFlight = none ∧ settledCalls w.history = []))
    (by decide +kernel)
  obtain ⟨hcalls, hsys, hqueue, hflight, hsettled⟩ := of_decide_eq_true hw
  refine ⟨w, hreach, hcalls, hsys, fun c => ?_⟩
  cases c <;> simp [InClass, hqueue, hflight, hsettled]

end Fasten.Core
