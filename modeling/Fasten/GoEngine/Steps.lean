import Fasten.GoDrainer.Fates
import Fasten.GoEngine

set_option autoImplicit false

/-! # What a step of the Go engine does to its drainers

A step of the engine is quiet, or one drainer takes a step, or the slot is swapped. So each drainer goes
through a run of its own. -/

namespace Fasten.GoEngine

open GoDrainer (Drainer Op StoreResult SysEvent)

/-- The drainers of an engine, and the drainer an event is of. -/
def drainersView : Parts.View Engine Event Drainer GoDrainer.Event where
  parts := Engine.drainers
  tag
    | .drainer k e => some (k, e)
    | _ => none

theorem mem_history {k : Nat} {h : List Event} {e : GoDrainer.Event} :
    e ∈ drainersView.history k h ↔ .drainer k e ∈ h := by
  rw [Parts.View.mem_history]
  refine ⟨fun ⟨x, hx, htag⟩ => ?_, fun he => ⟨_, he, rfl⟩⟩
  cases x with
  | drainer i e' =>
    cases htag
    exact hx
  | called | stored | sys => cases htag

/-- A drainer that has just been made. -/
def Fresh (d : Drainer) : Prop := ∃ gen maxAttempts, d = Drainer.new gen maxAttempts

namespace Engine

variable {s s' : Engine} {l : Label} {es : List Event}

/-- The drainer a step works on, and what it does there. -/
def op? (s : Engine) : Label → Option (Nat × Op)
  | .call _ => none
  | .drain k result => some (k, .drain result)
  | .retire k result => some (k, .retire result)
  | .cancel k => some (k, .cancel)
  | .move i env =>
    match s.calls[i]? with
    | some (.emit (.enqueuing k)) =>
      s.drainers[k]?.bind fun d =>
        if d.closed ∨ env.marshalled = false then none else some (k, .register i)
    | some (.emit (.entering k)) => some (k, if env.accepted then .accept i else .refuse i)
    | some (.init _ (.built _)) => s.drainer.map (·, .takeOut false)
    | some (.flush (.arriving k)) => some (k, .enterFlush i)
    | some (.flush (.flushing k _)) => some (k, .leaveFlush i)
    | some (.close (.flushing _ _)) => s.drainer.map (·, .takeOut true)
    | some (.close (.retiring _ _ old)) => if env.timedOut then some (old, .report) else none
    | some (.close (.reporting _ _ old)) => some (old, .report)
    | _ => none

/-- What a step can do to the slot and the drainers. -/
inductive Effect (s : Engine) (l : Label) (s' : Engine) (es : List Event) : Prop where
  | quiet (hdrainers : s'.drainers = s.drainers) (hslot : s'.drainer = s.drainer)
      (hes : es.filterMap drainersView.tag = [])
  | op {k : Nat} {op : Op} {d d' : Drainer} {es' : List GoDrainer.Event}
      (hop : s.op? l = some (k, op)) (hstays : ∀ deadline, op ≠ .takeOut deadline)
      (hd : s.drainers[k]? = some d) (hstep : d.step op = some (d', es'))
      (hdrainers : s'.drainers = s.drainers.set k d') (hslot : s'.drainer = s.drainer)
      (hes : es.filterMap drainersView.tag = es'.map (Prod.mk k))
  | install {next : Option (Nat × Nat)} (hempty : s.drainer = none)
      (hdrainers : s'.drainers = (s.install next).drainers)
      (hslot : s'.drainer = (s.install next).drainer) (hes : es.filterMap drainersView.tag = [])
  | swap {next : Option (Nat × Nat)} {k : Nat} {deadline : Bool} {d d' : Drainer}
      {es' : List GoDrainer.Event} (hop : s.op? l = some (k, .takeOut deadline))
      (hfull : s.drainer = some k) (hd : s.drainers[k]? = some d)
      (hstep : d.step (.takeOut deadline) = some (d', es'))
      (hdrainers : s'.drainers
        = ({ s with drainers := s.drainers.set k d' }.install next).drainers)
      (hslot : s'.drainer = ({ s with drainers := s.drainers.set k d' }.install next).drainer)
      (hes : es.filterMap drainersView.tag = es'.map (Prod.mk k))

variable {r : Engine × List Event} {i : Nat}

theorem onDrainer_eq_some {k : Nat} {op : Op} :
    s.onDrainer k op = some r ↔ ∃ d d' es', s.drainers[k]? = some d ∧ d.step op = some (d', es')
      ∧ r = ({ s with drainers := s.drainers.set k d' }, es'.map (.drainer k)) := by
  simp only [onDrainer, Option.map_eq_some_iff, Prod.exists, Parts.move_eq_some]
  constructor
  · rintro ⟨ds, es, ⟨d, d', es', hd, hstep, rfl, rfl⟩, rfl⟩
    exact ⟨d, d', es', hd, hstep, by simp [Function.comp_def]⟩
  · rintro ⟨d, d', es', hd, hstep, rfl⟩
    exact ⟨_, _, ⟨d, d', es', hd, hstep, rfl, rfl⟩, by simp [Function.comp_def]⟩

theorem filterMap_tag_map (k : Nat) (es : List GoDrainer.Event) :
    (es.map (Event.drainer k)).filterMap drainersView.tag = es.map (Prod.mk k) := by
  simp [List.filterMap_map, drainersView]

/-- A step that is one of a drainer, with the calls and the engine's own events to be seen to. -/
theorem Effect.of_onDrainer_append {k : Nat} {op : Op} {calls : List Call} {more : List Event}
    (hop : s.op? l = some (k, op)) (hstays : ∀ deadline, op ≠ .takeOut deadline)
    (hr : s.onDrainer k op = some r) (hmore : more.filterMap drainersView.tag = []) :
    Effect s l { r.1 with calls := calls } (r.2 ++ more) := by
  obtain ⟨d, d', es', hd, hstep, rfl⟩ := onDrainer_eq_some.1 hr
  refine .op hop hstays hd hstep rfl rfl ?_
  rw [List.filterMap_append, filterMap_tag_map, hmore, List.append_nil]

theorem Effect.of_onDrainer {k : Nat} {op : Op} {calls : List Call} (hop : s.op? l = some (k, op))
    (hstays : ∀ deadline, op ≠ .takeOut deadline) (hr : s.onDrainer k op = some r) :
    Effect s l { r.1 with calls := calls } r.2 := by
  have happend : Effect s l { r.1 with calls := calls } (r.2 ++ []) :=
    of_onDrainer_append hop hstays hr List.filterMap_nil
  rwa [List.append_nil] at happend

theorem Effect.of_swapDrainer {next : Option (Nat × Nat)} {deadline : Bool}
    {r : Engine × Option Nat × List Event} {calls : List Call}
    (hop : s.op? l = s.drainer.map (·, .takeOut deadline))
    (hr : s.swapDrainer next deadline = some r) : Effect s l { r.1 with calls := calls } r.2.2 := by
  unfold swapDrainer at hr
  split at hr
  · rename_i hempty
    cases hr
    exact @Effect.install s l _ _ next hempty rfl rfl rfl
  · rename_i k hfull
    obtain ⟨q, hq, rfl⟩ := Option.map_eq_some_iff.1 hr
    obtain ⟨d, d', es', hd, hstep, rfl⟩ := onDrainer_eq_some.1 hq
    exact .swap (by rw [hop, hfull]; rfl) hfull hd hstep rfl rfl (filterMap_tag_map k es')

theorem onDrainer_calls {k : Nat} {op : Op} (hr : s.onDrainer k op = some r) :
    r.1.calls = s.calls := by
  obtain ⟨d, d', es', hd, hstep, rfl⟩ := onDrainer_eq_some.1 hr
  rfl

theorem swapDrainer_calls {next : Option (Nat × Nat)} {deadline : Bool}
    {r : Engine × Option Nat × List Event} (hr : s.swapDrainer next deadline = some r) :
    r.1.calls = s.calls := by
  unfold swapDrainer at hr
  split at hr
  · cases hr
    rfl
  · obtain ⟨q, hq, rfl⟩ := Option.map_eq_some_iff.1 hr
    exact onDrainer_calls hq

theorem of_stepEmit {env : Env} {place : Emit} (hcall : s.calls[i]? = some (.emit place))
    (h : s.stepEmit i env place = some (s', es)) :
    Effect s (.move i env) s' es ∧ ∃ place, s'.calls = s.calls.set i (.emit place) := by
  cases place with
  | entered =>
    simp only [stepEmit] at h
    split_ifs at h
    cases h
    exact ⟨.quiet rfl rfl rfl, _, rfl⟩
  | loaded gen =>
    simp only [stepEmit] at h
    split at h
    · cases h
      exact ⟨.quiet rfl rfl rfl, _, rfl⟩
    · obtain ⟨d, -, hr⟩ := Option.map_eq_some_iff.1 h
      cases hr
      exact ⟨.quiet rfl rfl rfl, _, rfl⟩
  | noDrainer =>
    simp only [stepEmit] at h
    split_ifs at h <;> cases h <;> exact ⟨.quiet rfl rfl rfl, _, rfl⟩
  | enqueuing k =>
    obtain ⟨d, hd, h⟩ := Option.bind_eq_some_iff.1 h
    split_ifs at h with hclosed hdone hmarshalled
    · cases h
      exact ⟨.quiet rfl rfl rfl, _, rfl⟩
    · obtain ⟨r, hr, heq⟩ := Option.map_eq_some_iff.1 h
      cases heq
      have hop : s.op? (.move i env) = some (k, .register i) := by
        simp [op?, hcall, hd, hclosed, hmarshalled]
      exact ⟨Effect.of_onDrainer hop (by simp) hr, _, by rw [← onDrainer_calls hr]; rfl⟩
    · cases h
      exact ⟨.quiet rfl rfl rfl, _, rfl⟩
  | entering k =>
    simp only [stepEmit] at h
    split_ifs at h with haccepted
    · obtain ⟨r, hr, heq⟩ := Option.map_eq_some_iff.1 h
      cases heq
      have hop : s.op? (.move i env) = some (k, .accept i) := by simp [op?, hcall, haccepted]
      exact ⟨Effect.of_onDrainer hop (by simp) hr, _, by rw [← onDrainer_calls hr]; rfl⟩
    · obtain ⟨r, hr, heq⟩ := Option.map_eq_some_iff.1 h
      cases heq
      have hop : s.op? (.move i env) = some (k, .refuse i) := by simp [op?, hcall, haccepted]
      exact ⟨Effect.of_onDrainer_append hop (by simp) hr rfl, _, by rw [← onDrainer_calls hr]; rfl⟩
  | storing refused =>
    simp only [stepEmit] at h
    split_ifs at h <;> cases h <;> exact ⟨.quiet rfl rfl rfl, _, rfl⟩
  | returned => cases h

theorem of_stepInit (env : Env) {cfg : Config} {place : Init}
    (hcall : s.calls[i]? = some (.init cfg place)) (h : s.stepInit i cfg place = some (s', es)) :
    Effect s (.move i env) s' es ∧ ∃ place, s'.calls = s.calls.set i (.init cfg place) := by
  cases place with
  | entered | read | set | swapped =>
    cases h
    exact ⟨.quiet rfl rfl rfl, _, rfl⟩
  | switched =>
    simp only [stepInit] at h
    split_ifs at h <;> cases h <;> exact ⟨.quiet rfl rfl rfl, _, rfl⟩
  | built next =>
    obtain ⟨r, hr, heq⟩ := Option.map_eq_some_iff.1 h
    cases heq
    exact ⟨Effect.of_swapDrainer (by simp [op?, hcall]) hr, _, by rw [← swapDrainer_calls hr]; rfl⟩
  | retiring k =>
    simp only [stepInit] at h
    split_ifs at h
    cases h
    exact ⟨.quiet rfl rfl rfl, _, rfl⟩
  | returned => cases h

theorem of_stepFlush {env : Env} {place : Flush} (hcall : s.calls[i]? = some (.flush place))
    (h : s.stepFlush i env place = some (s', es)) :
    Effect s (.move i env) s' es ∧ ∃ place, s'.calls = s.calls.set i (.flush place) := by
  cases place with
  | entered | choosing =>
    cases h
    exact ⟨.quiet rfl rfl rfl, _, rfl⟩
  | waiting k =>
    simp only [stepFlush] at h
    split_ifs at h <;> cases h <;> exact ⟨.quiet rfl rfl rfl, _, rfl⟩
  | arriving k =>
    obtain ⟨d, hd, h⟩ := Option.bind_eq_some_iff.1 h
    split_ifs at h with hclosed hdone
    · cases h
      exact ⟨.quiet rfl rfl rfl, _, rfl⟩
    · obtain ⟨r, hr, heq⟩ := Option.map_eq_some_iff.1 h
      cases heq
      exact ⟨Effect.of_onDrainer (by simp [op?, hcall]) (by simp) hr, _,
        by rw [← onDrainer_calls hr]; rfl⟩
  | flushing k rows =>
    obtain ⟨d, hd, h⟩ := Option.bind_eq_some_iff.1 h
    split_ifs at h with hready
    obtain ⟨r, hr, heq⟩ := Option.map_eq_some_iff.1 h
    cases heq
    exact ⟨Effect.of_onDrainer (by simp [op?, hcall]) (by simp) hr, _,
        by rw [← onDrainer_calls hr]; rfl⟩
  | returned drained => cases h

theorem of_stepClose {env : Env} {place : Close} (hcall : s.calls[i]? = some (.close place))
    (h : s.stepClose i env place = some (s', es)) :
    Effect s (.move i env) s' es ∧ ∃ place, s'.calls = s.calls.set i (.close place) := by
  cases place with
  | entered =>
    simp only [stepClose] at h
    split at h <;> cases h <;> exact ⟨.quiet rfl rfl rfl, _, rfl⟩
  | waiting call =>
    simp only [stepClose] at h
    split at h
    · cases h
      exact ⟨.quiet rfl rfl rfl, _, rfl⟩
    · split_ifs at h
      cases h
      exact ⟨.quiet rfl rfl rfl, _, rfl⟩
  | begun | chosen | counted | judging | judged =>
    cases h
    exact ⟨.quiet rfl rfl rfl, _, rfl⟩
  | flushing d lost =>
    obtain ⟨r, hr, heq⟩ := Option.map_eq_some_iff.1 h
    cases heq
    exact ⟨Effect.of_swapDrainer (by simp [op?, hcall]) hr, _, by rw [← swapDrainer_calls hr]; rfl⟩
  | retiring d lost old =>
    simp only [stepClose] at h
    split_ifs at h with htimedOut hretired
    · obtain ⟨r, hr, heq⟩ := Option.map_eq_some_iff.1 h
      cases heq
      exact ⟨Effect.of_onDrainer (by simp [op?, hcall, htimedOut]) (by simp) hr, _,
        by rw [← onDrainer_calls hr]; rfl⟩
    · cases h
      exact ⟨.quiet rfl rfl rfl, _, rfl⟩
  | reporting d lost old =>
    simp only [stepClose] at h
    split at h
    · cases h
      exact ⟨.quiet rfl rfl rfl, _, rfl⟩
    · refine ⟨Effect.of_onDrainer (r := (s', es)) (by simp [op?, hcall]) (by simp) h,
        .reporting d lost old, ?_⟩
      obtain ⟨hi, hc⟩ := List.getElem?_eq_some_iff.1 hcall
      rw [← hc, List.set_getElem_self]
      exact onDrainer_calls h
  | returned ok => cases h

theorem of_move {env : Env} (h : s.step (.move i env) = some (s', es)) :
    Effect s (.move i env) s' es ∧ ∃ c, s'.calls = s.calls.set i c := by
  simp only [step] at h
  split at h
  · exact (of_stepEmit ‹_› h).imp_right (fun ⟨place, hcalls⟩ => ⟨_, hcalls⟩)
  · exact (of_stepInit env ‹_› h).imp_right (fun ⟨place, hcalls⟩ => ⟨_, hcalls⟩)
  · exact (of_stepFlush ‹_› h).imp_right (fun ⟨place, hcalls⟩ => ⟨_, hcalls⟩)
  · exact (of_stepClose ‹_› h).imp_right (fun ⟨place, hcalls⟩ => ⟨_, hcalls⟩)
  · cases h

/-- **A step is quiet, or one of a drainer, or a swap.** -/
theorem effect_of_step (h : s.step l = some (s', es)) : Effect s l s' es := by
  cases l with
  | call c =>
    simp only [step] at h
    split_ifs at h
    cases h
    exact .quiet rfl rfl rfl
  | move i env => exact (of_move h).1
  | drain | retire | cancel => exact Effect.of_onDrainer (r := (s', es)) rfl (by simp) h

/-- Where a call is after a step: where it was, at its beginning, or the step was its own. -/
theorem calls_cases (h : s.step l = some (s', es)) {c : Call} (hc : s'.calls[i]? = some c) :
    s.calls[i]? = some c ∨ c.entered = true ∨ ∃ env, l = .move i env := by
  cases l with
  | call c' =>
    simp only [step] at h
    split_ifs at h with hentered
    cases h
    rw [List.getElem?_append] at hc
    split_ifs at hc
    · exact .inl hc
    · rw [List.getElem?_singleton] at hc
      split_ifs at hc
      cases hc
      exact .inr (.inl hentered)
  | move j env =>
    obtain ⟨c', hcalls⟩ := (of_move h).2
    by_cases hij : j = i
    · exact .inr (.inr ⟨env, by rw [hij]⟩)
    · rw [hcalls, List.getElem?_set_ne hij] at hc
      exact .inl hc
  | drain k result | retire k result | cancel k =>
    rw [onDrainer_calls h] at hc
    exact .inl hc

/-- Where a call is after its own step. -/
theorem getElem?_setCall {c c' : Call} (hc : s.calls[i]? = some c) :
    (s.setCall i c').calls[i]? = some c' :=
  List.getElem?_set_self (List.getElem?_eq_some_iff.1 hc).1

/-! ## The runs of the drainers -/

/-- The drainers take steps that are allowed, if the step's own is. -/
theorem Effect.evolves {allowed : Drainer → Op → Bool} (h : Effect s l s' es)
    (hallowed : ∀ k op d, s.op? l = some (k, op) → s.drainers[k]? = some d → allowed d op = true) :
    Parts.Evolves (Trace.restrict Drainer.step allowed) Fresh s.drainers s'.drainers
      (es.filterMap drainersView.tag) := by
  have hinstall : ∀ {ds : List Drainer} {es : List (Nat × GoDrainer.Event)}
      (next : Option (Nat × Nat)),
      Parts.Evolves (Trace.restrict Drainer.step allowed) Fresh s.drainers ds es →
      Parts.Evolves (Trace.restrict Drainer.step allowed) Fresh s.drainers
        (ds ++ (next.map fun d => Drainer.new d.1 d.2).toList) es := by
    intro ds es next hevolves
    cases next with
    | none => simpa using hevolves
    | some d => exact hevolves.add ⟨d.1, d.2, rfl⟩
  cases h with
  | quiet hdrainers hslot hes =>
    rw [hdrainers, hes]
    exact .refl
  | op hop hstays hd hstep hdrainers hslot hes =>
    rw [hdrainers, hes]
    have hstep' := Trace.restrict_eq_some.2 ⟨hallowed _ _ _ hop hd, hstep⟩
    exact .of_move (Parts.move_eq_some.2 ⟨_, _, _, hd, hstep', rfl, rfl⟩)
  | @install next hempty hdrainers hslot hes =>
    rw [hdrainers, hes]
    exact hinstall next .refl
  | @swap next k deadline d d' es' hop hfull hd hstep hdrainers hslot hes =>
    rw [hdrainers, hes]
    have hstep' := Trace.restrict_eq_some.2 ⟨hallowed _ _ _ hop hd, hstep⟩
    exact hinstall next (.of_move (Parts.move_eq_some.2 ⟨_, _, _, hd, hstep', rfl, rfl⟩))

/-- Every step on a drainer is one that is allowed. -/
def onDrainers (allowed : Drainer → Op → Bool) (s : Engine) (l : Label) : Bool :=
  match s.op? l with
  | none => true
  | some (k, op) => s.drainers[k]?.all (allowed · op)

theorem projects (allowed : Drainer → Op → Bool) (more : Engine → Label → Bool)
    (hmore : ∀ s l, more s l = true → s.onDrainers allowed l = true) :
    drainersView.Projects (Trace.restrict step more) (Trace.restrict Drainer.step allowed) Fresh := by
  intro s l s' es hstep
  obtain ⟨hallowed, hstep⟩ := Trace.restrict_eq_some.1 hstep
  refine (effect_of_step hstep).evolves (fun k op d hop hd => ?_)
  have hon := hmore s l hallowed
  rw [onDrainers, hop] at hon
  simpa [hd] using hon

end Engine

end Fasten.GoEngine
