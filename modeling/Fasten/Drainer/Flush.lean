import Fasten.Drainer.Accounts
import Fasten.Drainer.Slots

set_option autoImplicit false

/-! # `flush` is sound

`flush` waits for as many rows as were done or had a slot when it was called. Until `stop` is called
these are at least the rows that were accepted before; after that it waits for the thread instead. -/

namespace Fasten.Core

/-! ## Rows that are done -/

theorem countP_outcomes (settled : List (Nat × Outcome)) :
    settled.countP (fun s => decide (s.2 = .stored))
      + settled.countP (fun s => decide (s.2 = .deadLettered))
      + settled.countP (fun s => decide (s.2 = .lostAtStop)) = settled.length := by
  induction settled with
  | nil => rfl
  | cons s rest ih =>
    obtain ⟨i, o⟩ := s
    simp only [List.countP_cons, List.length_cons]
    cases o <;> simp <;> omega

variable {cfg : DrainerConfig} {w : World} {before : List Nat}

/-- What `flush` counts as done are the rows that left. -/
theorem Counted.done_eq (hw : Counted w) :
    w.state.stats.done = (settledCalls w.history).length := by
  rw [← countP_outcomes, ← hw .stored, ← hw .deadLettered, ← hw .lostAtStop]
  rfl

/-- Until `stop` is called, the rows that are done and the slots in use are at least the rows that
    were pushed. -/
theorem Reachable.pushed_le (h : Reachable cfg w) (hstop : w.state.stop = false) :
    (pushedCalls w.history).length ≤ w.state.stats.done + w.state.used := by
  have horder : pushedCalls w.history = (settledCalls w.history).map Prod.fst
      ++ (w.state.thread.entry.map Entry.call).toList ++ w.state.queue.map Entry.call :=
    h.pipeline_ok.order
  have hlength := congrArg List.length horder
  have hentry : (w.state.thread.entry.map Entry.call).toList.length
      = w.state.thread.entry.toList.length := by
    cases w.state.thread.entry <;> rfl
  have hbalance := h.slots.balance hstop
  rw [List.length_append, List.length_append, List.length_map, List.length_map, hentry] at hlength
  rw [h.counted.done_eq, Drainer.used]
  omega

/-- A thread that has exited without a panic has settled every row. -/
theorem Reachable.settled_of_exited (h : Reachable cfg w) (hexited : w.state.exited = true)
    (hpanicked : w.state.panicked = false) {i : Nat} (hi : i ∈ pushedCalls w.history) :
    ∃ o, (i, o) ∈ settledCalls w.history := by
  obtain ⟨dropped, hthread⟩ := h.joined.exited hexited
  have hdropped := (h.joined.thread dropped hthread).2
  rw [hpanicked] at hdropped
  have hfinished : w.state.thread.worker = .finished := by
    rw [hthread]
    cases dropped with
    | none => rfl
    | some e => cases hdropped
  exact h.pipeline_ok.settled_of_finished hfinished hi

/-! ## One call of `flush` -/

/-- Where a call of `flush` is, for the rows that were accepted before it. -/
def FlushPlace (before : List Nat) (w : World) : Flush → Prop
  | .entered => True
  | .waiting target => w.state.stop = true ∨ before.length ≤ target
  | .returned true => ∀ i ∈ before, ∃ o, (i, o) ∈ settledCalls w.history
  | .returned false => True

/-- Call `j` is a `flush` that came after these rows. -/
def Flushes (before : List Nat) (j : Nat) (w : World) : Prop :=
  before <+: pushedCalls w.history
    ∧ ∃ place, w.state.calls[j]? = some (.flush place) ∧ FlushPlace before w place

/-- What is known of a place stays true when others move. -/
theorem FlushPlace.mono {w' : World} {place : Flush} (h : FlushPlace before w place)
    (hstop : w.state.stop = true → w'.state.stop = true)
    (hsettled : settledCalls w.history ⊆ settledCalls w'.history) : FlushPlace before w' place := by
  cases place with
  | entered => trivial
  | waiting target => exact h.imp_left hstop
  | returned drained =>
    cases drained with
    | false => trivial
    | true =>
      intro i hi
      obtain ⟨o, ho⟩ := h i hi
      exact ⟨o, hsettled ho⟩

/-- What a step of `flush` gets to. -/
theorem FlushPlace.step (hw : Reachable cfg w) (hbefore : before <+: pushedCalls w.history)
    {place : Flush} (h : FlushPlace before w place) {j : Nat}
    (hj : w.state.calls[j]? = some (.flush place)) {env : Env} {d' : Drainer} {es : List Event}
    (hstep : w.state.stepFlush j env place = some (d', es)) :
    ∃ place', d'.calls[j]? = some (.flush place') ∧ FlushPlace before w place' := by
  have hlt := (List.getElem?_eq_some_iff.1 hj).1
  have hset : ∀ c, (w.state.setCall j c).calls[j]? = some c := fun c => by
    simp [Drainer.setCall, hlt]
  cases place with
  | entered =>
    cases hstep
    refine ⟨_, hset _, ?_⟩
    cases hstop : w.state.stop with
    | true => exact Or.inl hstop
    | false => exact Or.inr (hbefore.length_le.trans (hw.pushed_le hstop))
  | waiting target =>
    simp only [Drainer.stepFlush] at hstep
    split_ifs at hstep with hdone hexited htimeout
    · cases hstep
      refine ⟨_, hset _, fun i hi => ?_⟩
      -- `stop` is not set, so the target counts the rows
      have htarget : before.length ≤ target := by
        refine h.resolve_left fun hstop => ?_
        rw [hdone.2] at hstop
        cases hstop
      have hlen : before.length ≤ (settledCalls w.history).length := by
        rw [← hw.counted.done_eq]
        exact htarget.trans hdone.1
      exact hw.pipeline_ok.settled_of_isPrefix hbefore hlen hi
    · cases hstep
      refine ⟨_, hset _, ?_⟩
      cases hdrained : (w.state.stop && !w.state.panicked) with
      | false => trivial
      | true =>
        intro i hi
        have hpanicked : w.state.panicked = false := by simp_all
        exact hw.settled_of_exited hexited hpanicked (hbefore.subset hi)
    · cases hstep
      exact ⟨_, hset _, trivial⟩
    · cases hstep
      exact ⟨_, hj, h⟩
  | returned drained => cases hstep

/-- Other steps leave a `flush` where it is. -/
theorem DrainerStep.flush_or_frame {d d' : Drainer} {es : List Event} (h : DrainerStep d d' es)
    {j : Nat} {place : Flush} (hj : d.calls[j]? = some (.flush place)) :
    (∃ env, d.stepFlush j env place = some (d', es)) ∨ d'.calls[j]? = some (.flush place) := by
  have hset : ∀ {calls : List Call} {k : Nat} {c : Call}, k ≠ j →
      calls[j]? = some (.flush place) → (calls.set k c)[j]? = some (.flush place) := by
    intro calls k c hkj hcalls
    rw [List.getElem?_set_ne hkj]
    exact hcalls
  have hsame : ∀ {calls calls' : List Call}, SameCalls calls calls' →
      calls[j]? = some (.flush place) → calls'[j]? = some (.flush place) :=
    fun hcalls hj => hcalls.getElem?_eq hj Call.eq_flush_of_unpark
  cases h with
  | call hentered =>
    exact Or.inr ((List.getElem?_append_left (List.getElem?_eq_some_iff.1 hj).1).trans hj)
  | wake hcalls => exact Or.inr (hsame hcalls hj)
  | enqueue hk h =>
    rename_i k row place
    have hkj : k ≠ j := by
      rintro rfl
      cases hk.symm.trans hj
    cases h with
    | goes | wait | acquire | push => exact Or.inr (hset hkj hj)
    | release hcalls => exact Or.inr (hsame hcalls (hset hkj hj))
  | stop hk h =>
    rename_i k place
    have hkj : k ≠ j := by
      rintro rfl
      cases hk.symm.trans hj
    obtain ⟨-, calls, place', hcalls, heq⟩ := h.calls
    rw [heq]
    exact Or.inr (hset hkj (hsame hcalls hj))
  | @flush k _ _ env hk h =>
    by_cases hkj : k = j
    · subst hkj
      cases hk.symm.trans hj
      exact Or.inl ⟨env, h⟩
    · exact Or.inr (hset hkj hj)
  | thread hthread h => exact Or.inr (hsame h.sameCalls hj)

theorem Flushes.step (hw : Reachable cfg w) {j : Nat} (h : Flushes before j w) {d' : Drainer}
    {es : List Event} (hstep : DrainerStep w.state d' es) :
    Flushes before j ⟨d', w.history ++ es⟩ := by
  obtain ⟨hbefore, place, hj, hplace⟩ := h
  have hsettled : settledCalls w.history ⊆ settledCalls (w.history ++ es) := by
    rw [settledCalls_append]
    exact List.subset_append_left _ _
  have hpushed : before <+: pushedCalls (w.history ++ es) := by
    rw [pushedCalls_append]
    exact hbefore.trans (List.prefix_append _ _)
  refine ⟨hpushed, ?_⟩
  rcases hstep.flush_or_frame hj with ⟨env, hflush⟩ | hframe
  · obtain ⟨place', hj', hplace'⟩ := hplace.step hw hbefore hj hflush
    exact ⟨place', hj', hplace'.mono hstep.stop_mono hsettled⟩
  · exact ⟨place, hframe, hplace.mono hstep.stop_mono hsettled⟩

/-! ## Runs -/

/-- What holds of a call of `flush` holds of it after any further steps. -/
theorem Flushes.reaches {w' : World} (hw : Reachable cfg w) {j : Nat} (h : Flushes before j w)
    (hreach : Trace.Reaches Drainer.step w w') : Flushes before j w' := by
  exact hreach.invariant_along h fun v l d' es hv hflushes hs =>
    hflushes.step (hw.trans hv) (step_cases hs)

/-- A call brings the same row after any further steps. -/
theorem brings_reaches {w' : World} (hreach : Trace.Reaches Drainer.step w w') {i : Nat} {row : Row}
    (hi : callIs (Call.brings row) w.state.calls i = true) :
    callIs (Call.brings row) w'.state.calls i = true :=
  Trace.Reaches.invariant (I := fun w => callIs (Call.brings row) w.state.calls i = true) hreach hi
    fun _ _ _ _ hv hs => (step_cases hs).brings hv

/-- A row that has left was reported as its outcome says. -/
theorem Reachable.reported (h : Reachable cfg w) {i : Nat} {row : Row} {o : Outcome}
    (hi : callIs (Call.brings row) w.state.calls i = true) (ho : (i, o) ∈ settledCalls w.history) :
    Reported w.history ⟨i, row⟩ o := by
  obtain ⟨row', hbrings, hreported⟩ := h.accounted.reported i o ho
  obtain ⟨c, hc, hrow⟩ := (Option.any_eq_true _ _).1 hi
  rw [callIs, hc] at hbrings
  cases c with
  | enqueue r place =>
    simp only [Option.any_some, Call.brings, decide_eq_true_eq] at hbrings hrow
    rw [← hrow, hbrings]
    exact hreported
  | stop | flush => cases hrow

/-- **`flush` is sound.** When a `flush` returns true, every row whose `enqueue` had returned true
    before that `flush` was called has been stored, dead-lettered or reported lost. -/
theorem flush_sound {cfg : DrainerConfig} {w₁ w₂ w₃ : World} (h : Reachable cfg w₁)
    (hcall : w₁.next Drainer.step (.call (.flush .entered)) = some w₂)
    (hreach : Trace.Reaches Drainer.step w₂ w₃)
    (hreturned : w₃.state.calls[w₁.state.calls.length]? = some (.flush (.returned true)))
    {i : Nat} {row : Row} (hi : w₁.state.calls[i]? = some (.enqueue row (.returned true))) :
    ∃ o, (i, o) ∈ settledCalls w₃.history ∧ Reported w₃.history ⟨i, row⟩ o := by
  have hall : Trace.Reaches Drainer.step w₁ w₃ := .head ⟨_, hcall⟩ hreach
  have hcalled : Flushes (pushedCalls w₁.history) w₁.state.calls.length w₂ := by
    cases hcall
    refine ⟨?_, .entered, ?_, trivial⟩
    · rw [pushedCalls_append]
      exact List.prefix_append _ _
    · simp
  have hpushed : i ∈ pushedCalls w₁.history :=
    (h.matches.accepted i).1 (by simp [callIs, hi, Call.accepted])
  obtain ⟨-, place, hplace, hsettled⟩ := hcalled.reaches (h.tail ⟨_, hcall⟩) hreach
  rw [hreturned] at hplace
  cases hplace
  obtain ⟨o, ho⟩ := hsettled i hpushed
  have hend : Reachable cfg w₃ := h.trans hall
  refine ⟨o, ho, hend.reported (brings_reaches hall ?_) ho⟩
  simp [callIs, hi, Call.brings]

theorem flush_sound_oneRow : ∃ w : World, Reachable .default w
    ∧ w.state.calls = [.enqueue ⟨"evt-1", 0⟩ (.returned true), .flush (.returned true)]
    ∧ ∃ o, (0, o) ∈ settledCalls w.history ∧ Reported w.history ⟨0, ⟨"evt-1", 0⟩⟩ o := by
  obtain ⟨w₁, hreach₁, h₁⟩ := Trace.exists_reaches_of_run Drainer.step
    (.start (Drainer.new .default))
    (.call (.enqueue ⟨"evt-1", 0⟩ .entered) :: List.replicate 6 (.move 0 (.at 0 .ok)))
    (fun w => decide (w.state.calls = [.enqueue ⟨"evt-1", 0⟩ (.returned true)]
      ∧ (Trace.run Drainer.step w (.call (.flush .entered) :: .move 1 (.at 0 .ok)
        :: List.replicate 7 (.thread (.at 0 .ok)) ++ [.move 1 (.at 0 .ok)])).any (fun w =>
          decide (w.state.calls
            = [.enqueue ⟨"evt-1", 0⟩ (.returned true), .flush (.returned true)])) = true))
    (by decide +kernel)
  obtain ⟨hcalls₁, hrun⟩ := of_decide_eq_true h₁
  obtain ⟨w₃, hrun₃, hcalls₃⟩ := (Option.any_eq_true _ _).1 hrun
  obtain ⟨w₂, hcall, hrun₂⟩ := Option.bind_eq_some_iff.1 hrun₃
  have hreach₃ := Trace.reaches_of_run hrun₂
  have hcalls := of_decide_eq_true hcalls₃
  refine ⟨w₃, (hreach₁.tail ⟨_, hcall⟩).trans hreach₃, hcalls, ?_⟩
  exact flush_sound hreach₁ hcall hreach₃ (by rw [hcalls₁, hcalls]; rfl) (by rw [hcalls₁]; rfl)

end Fasten.Core
