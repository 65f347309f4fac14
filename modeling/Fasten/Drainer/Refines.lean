import Fasten.Drainer.Steps

set_option autoImplicit false

/-! # The drainer is a pipeline

The queue and the drain thread, seen without slots, retries and delays: every step of the drainer is a
step of a queue with one worker, or none that shows. -/

namespace Fasten.Core

/-- The drainer as a pipeline of calls. -/
def pipeline (d : Drainer) (history : List Event) : Pipeline Nat Outcome where
  pushed := pushedCalls history
  settled := settledCalls history
  held := d.thread.entry.map Entry.call
  queue := d.queue.map Entry.call
  isOpen := !d.stop
  worker := d.thread.worker

/-! ## The simulation -/

/-- What the calls and the history agree on. -/
structure Matches (w : World) : Prop where
  accepted : ∀ i, callIs Call.accepted w.state.calls i = true ↔ i ∈ pushedCalls w.history
  rows : ∀ e, e ∈ w.state.queue ∨ w.state.thread.entry = some e →
    callIs (Call.brings e.row) w.state.calls e.call = true

variable {d' : Drainer} {es : List Event}

/-- The thread brings no row in. -/
theorem ThreadStep.entry_old {d : Drainer} (h : ThreadStep d d' es) {e : Entry}
    (he : e ∈ d'.queue ∨ d'.thread.entry = some e) : e ∈ d.queue ∨ d.thread.entry = some e := by
  cases h with
  | work hgoes => exact hgoes.goesOn.entry ▸ he
  | take hthread hqueue =>
    rw [hqueue]
    rcases he with he | he
    · exact Or.inl (List.mem_cons_of_mem _ he)
    · cases he
      exact Or.inl List.mem_cons_self
  | settle | finish =>
    rcases he with he | he
    · exact Or.inl he
    · cases he
  | die hentry hbegun hdies hstats => exact hentry ▸ he
  | exit hthread => exact hthread ▸ he

theorem Matches.step {w : World} (hw : Matches w) (h : DrainerStep w.state d' es) :
    Matches ⟨d', w.history ++ es⟩ := by
  refine ⟨fun i => ?_, fun e he => ?_⟩
  · rw [h.accepted i, hw.accepted i, pushedCalls_append, List.mem_append]
  · -- a row is the one just pushed, or was there before
    by_cases hold : e ∈ w.state.queue ∨ w.state.thread.entry = some e
    · exact h.brings (hw.rows e hold)
    cases h with
    | call | wake | flush => exact absurd he hold
    | enqueue hi h =>
      cases h with
      | goes | wait | acquire | release => exact absurd he hold
      | push hstop =>
        rename_i i row
        have hmem : e = ⟨i, row⟩ := by
          rcases he with he | he
          · exact (List.mem_append.1 he).elim (fun h => absurd (Or.inl h) hold)
              List.mem_singleton.1
          · exact absurd (Or.inr he) hold
        subst hmem
        simp [callIs, (List.getElem?_eq_some_iff.1 hi).1, Call.brings]
    | stop hi h =>
      obtain ⟨hqueue, hthread, -⟩ := h.frame
      rw [hqueue, hthread] at he
      exact absurd he hold
    | thread hthread h => exact absurd (h.entry_old he) hold

/-- A step of the thread, as its pipeline shows it. -/
theorem ThreadStep.pipeline_steps {d : Drainer} {history : List Event} (h : ThreadStep d d' es) :
    Pipeline.Steps (pipeline d history) (pipeline d' (history ++ es)) := by
  cases h with
  | work hmove =>
    have hgoes := hmove.goesOn
    simp only [pipeline, pushedCalls_append, settledCalls_append, hgoes.quiet.1, hgoes.quiet.2,
      hgoes.entry, hgoes.running, hgoes.running', List.append_nil]
    exact .refl
  | take hthread hqueue =>
    rename_i e rest
    have hview : pipeline { d with queue := rest, thread := .popped e } (history ++ [])
        = { pipeline d history with held := some e.call, queue := rest.map Entry.call } := by
      simp [pipeline, hthread, Thread.worker, Thread.entry]
    rw [hview]
    exact .single (.take (by rw [pipeline, hthread]; rfl) (by rw [pipeline, hthread]; rfl)
      (by rw [pipeline, hqueue]; rfl))
  | settle hsettles hcalls hrelease =>
    rename_i e o calls woken
    obtain ⟨hentry, -, hworker⟩ := Thread.entry_of_settles hsettles
    have hview : pipeline { d with
        thread := .popping
        stats := d.stats.settle e.row o
        available := if d.available < d.cfg.capacity then d.available + 1 else d.available
        calls := calls } (history ++ [.settled e.call o])
        = { pipeline d history with
          settled := (pipeline d history).settled ++ [(e.call, o)], held := none } := by
      simp only [pipeline, pushedCalls_append, settledCalls_append, hworker]
      simp [pushedCalls, settledCalls, Thread.entry, Thread.worker]
    rw [hview]
    exact .single (.settle o hworker (by rw [pipeline, hentry]; rfl))
  | finish hentry hworker hstop hqueue =>
    have hview : pipeline { d with thread := .exiting none } (history ++ [])
        = { pipeline d history with worker := .finished } := by
      simp only [pipeline, hentry, List.append_nil]
      rfl
    rw [hview]
    exact .single (.finish (by rw [pipeline, hstop]; rfl) (by rw [pipeline, hentry]; rfl)
      (by rw [pipeline, hqueue]; rfl))
  | die hentry hbegun hdies hstats =>
    rename_i e stats
    have hview : pipeline { d with thread := .exiting (some e), stats := stats } (history ++ [])
        = { pipeline d history with worker := .died } := by
      simp only [pipeline, hentry, List.append_nil]
      rfl
    rw [hview]
    exact .single (.die (by simp [pipeline, hentry]))
  | exit hthread =>
    rename_i dropped
    have hview : pipeline { d with
        thread := .exited dropped, panicked := dropped.isSome, exited := true } (history ++ [])
        = pipeline d history := by
      cases dropped <;> simp [pipeline, hthread, Thread.entry, Thread.worker]
    rw [hview]

/-- A step that changes neither the rows nor the thread is none of the pipeline. -/
theorem pipeline_eq_of_quiet {d : Drainer} (hes : Quiet es) (hqueue : d'.queue = d.queue)
    (hthread : d'.thread = d.thread) (hstop : d'.stop = d.stop) (history : List Event) :
    pipeline d' (history ++ es) = pipeline d history := by
  simp [pipeline, hes.1, hes.2, hqueue, hthread, hstop]

/-- **The drainer refines the pipeline**, step by step. -/
theorem DrainerStep.pipeline_steps {w : World} (hw : Matches w) (h : DrainerStep w.state d' es) :
    Pipeline.Steps (pipeline w.state w.history) (pipeline d' (w.history ++ es)) := by
  -- a step that the pipeline does not show
  have hquiet : Quiet es → d'.queue = w.state.queue → d'.thread = w.state.thread →
      d'.stop = w.state.stop →
      Pipeline.Steps (pipeline w.state w.history) (pipeline d' (w.history ++ es)) := by
    intro hes hqueue hthread hstop
    rw [pipeline_eq_of_quiet hes hqueue hthread hstop]
  cases h with
  | call | wake => exact hquiet ⟨rfl, rfl⟩ rfl rfl rfl
  | enqueue hi h =>
    cases h with
    | goes e h => exact hquiet (OnlySys.ofOption e).quiet rfl rfl rfl
    | wait | acquire | release => exact hquiet ⟨rfl, rfl⟩ rfl rfl rfl
    | push hstop =>
      rename_i i row
      have hnew : i ∉ pushedCalls w.history := by
        rw [← hw.accepted i]
        simp [callIs, hi, Call.accepted]
      refine .single ?_
      have hstep := Pipeline.Step.push (p := pipeline w.state w.history) i
        (by rw [pipeline, hstop]; rfl) hnew
      simpa [pipeline, pushedCalls, settledCalls] using hstep
  | stop hi h =>
    obtain ⟨hqueue, hthread, -, -, -, -, hstop⟩ := h.frame
    have hes := h.calls.1.quiet
    rcases hstop with hstop | ⟨-, hstop⟩
    · exact hquiet hes hqueue hthread hstop
    · refine .single ?_
      have hstep := Pipeline.Step.close (p := pipeline w.state w.history)
      simpa [pipeline, hes.1, hes.2, hqueue, hthread, hstop] using hstep
  | flush hi h => exact hquiet ⟨rfl, rfl⟩ rfl rfl rfl
  | thread hthread h => exact h.pipeline_steps

/-! ## Runs -/

/-- The worlds of a drainer with this configuration. -/
abbrev Reachable (cfg : DrainerConfig) : World → Prop :=
  Trace.Reaches Drainer.step (.start (Drainer.new cfg))

theorem matches_new (cfg : DrainerConfig) : Matches (.start (Drainer.new cfg)) := by
  refine ⟨fun i => ?_, fun e he => ?_⟩
  · simp [Trace.World.start, Drainer.new, callIs, pushedCalls]
  · rcases he with he | he
    · exact absurd he List.not_mem_nil
    · cases he

theorem Reachable.matches {cfg : DrainerConfig} {w : World} (h : Reachable cfg w) : Matches w :=
  Trace.Reaches.invariant h (matches_new cfg) fun _ _ _ _ hw hs => hw.step (step_cases hs)

/-- **The drainer refines the pipeline**: what holds of every pipeline holds of it at any time. -/
theorem Reachable.pipeline_ok {cfg : DrainerConfig} {w : World} (h : Reachable cfg w) :
    (pipeline w.state w.history).Ok := by
  refine h.invariant_along (I := fun w => (pipeline w.state w.history).Ok) Pipeline.ok_empty
    fun w l d' es hw hok hs => ?_
  exact ((step_cases hs).pipeline_steps (Reachable.matches hw)).ok hok

end Fasten.Core
