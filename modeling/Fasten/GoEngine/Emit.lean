import Fasten.GoEngine.Steps

set_option autoImplicit false

/-! # No row of `Emit` is dropped silently

A row leaves `Emit` accepted by a drainer, stored, or named by an event, except where the drainer in the
slot has another store generation than the one `Emit` has read: there it leaves with nothing. -/

namespace Fasten.GoEngine

open GoDrainer (Drainer Op StoreResult SysEvent)

/-- The event says that the row is stored, or reports it. -/
def Event.settles (row : Nat) : Event → Bool
  | .stored r | .sys .syncFallbackFailed r | .drainer _ (.stored r)
  | .drainer _ (.sys .deadLetter r) | .drainer _ (.sys .lostAtStop r) => r == row
  | _ => false

/-- The row is held by a drainer that will still handle it, or stored, or reported. -/
def Keeps (w : World) (row : Nat) : Prop :=
  (∃ d ∈ w.state.drainers, d.Holds row) ∨ ∃ e ∈ w.history, e.settles row = true

instance (w : World) (row : Nat) : Decidable (Keeps w row) := inferInstanceAs (Decidable (_ ∨ _))

/-- The drainer in the slot has the store generation that `Emit` has read. -/
def sameGen (s : Engine) : Label → Bool
  | .move i _ =>
    match s.calls[i]? with
    | some (.emit (.loaded gen)) => (s.drainer.bind (s.drainers[·]?)).all (·.gen == gen)
    | _ => true
  | _ => true

/-- The steps that keep every row. -/
def keeping (s : Engine) (l : Label) : Bool := sameGen s l && s.onDrainers Drainer.careful l

/-- What a returned `Emit` has left behind. -/
def Left (h : List Event) (row : Nat) : Prop :=
  (∃ k, .drainer k (.accepted row) ∈ h) ∨ .stored row ∈ h ∨ .sys .syncFallbackFailed row ∈ h

theorem Left.append {h : List Event} {row : Nat} (hleft : Left h row) (es : List Event) :
    Left (h ++ es) row :=
  hleft.imp (fun ⟨k, hk⟩ => ⟨k, List.mem_append_left es hk⟩)
    (Or.imp (List.mem_append_left es) (List.mem_append_left es))

theorem Left.prepend {es : List Event} {row : Nat} (hleft : Left es row) (h : List Event) :
    Left (h ++ es) row :=
  hleft.imp (fun ⟨k, hk⟩ => ⟨k, List.mem_append_right h hk⟩)
    (Or.imp (List.mem_append_right h) (List.mem_append_right h))

theorem left_of_stepEmit {s s' : Engine} {i : Nat} {env : Env} {place : Emit} {es : List Event}
    (hcall : s.calls[i]? = some (.emit place)) (hstep : s.stepEmit i env place = some (s', es))
    (hgen : sameGen s (.move i env) = true) (hreturned : s'.calls[i]? = some (.emit .returned)) :
    Left es i := by
  cases place with
  | entered =>
    simp only [Engine.stepEmit] at hstep
    split_ifs at hstep
    cases hstep
    cases (Engine.getElem?_setCall hcall).symm.trans hreturned
  | loaded gen =>
    simp only [Engine.stepEmit] at hstep
    split at hstep
    · cases hstep
      cases (Engine.getElem?_setCall hcall).symm.trans hreturned
    · rename_i k hslot
      obtain ⟨d, hd, hr⟩ := Option.map_eq_some_iff.1 hstep
      have hsame : d.gen = gen := by simpa [sameGen, hcall, hslot, hd] using hgen
      rw [if_pos hsame] at hr
      cases hr
      cases (Engine.getElem?_setCall hcall).symm.trans hreturned
  | noDrainer =>
    simp only [Engine.stepEmit] at hstep
    split_ifs at hstep <;> cases hstep <;>
      cases (Engine.getElem?_setCall hcall).symm.trans hreturned
  | enqueuing k =>
    obtain ⟨d, hd, hstep⟩ := Option.bind_eq_some_iff.1 hstep
    split_ifs at hstep
    · cases hstep
      cases (Engine.getElem?_setCall hcall).symm.trans hreturned
    · obtain ⟨r, hr, heq⟩ := Option.map_eq_some_iff.1 hstep
      cases heq
      rw [← Engine.onDrainer_calls hr] at hcall
      cases (Engine.getElem?_setCall hcall).symm.trans hreturned
    · cases hstep
      cases (Engine.getElem?_setCall hcall).symm.trans hreturned
  | entering k =>
    simp only [Engine.stepEmit] at hstep
    split_ifs at hstep
    · obtain ⟨r, hr, heq⟩ := Option.map_eq_some_iff.1 hstep
      cases heq
      obtain ⟨d, d', es', hd, hd', rfl⟩ := Engine.onDrainer_eq_some.1 hr
      cases Drainer.step_cases hd'
      exact .inl ⟨k, List.mem_cons_self⟩
    · obtain ⟨r, hr, heq⟩ := Option.map_eq_some_iff.1 hstep
      cases heq
      rw [← Engine.onDrainer_calls hr] at hcall
      cases (Engine.getElem?_setCall hcall).symm.trans hreturned
  | storing refused =>
    simp only [Engine.stepEmit] at hstep
    split_ifs at hstep <;> cases hstep
    · exact .inr (.inl List.mem_cons_self)
    · exact .inr (.inl List.mem_cons_self)
    · exact .inr (.inr List.mem_cons_self)
  | returned => cases hstep

theorem left_of_reaches {w : World}
    (h : Trace.Reaches (Trace.restrict Engine.step keeping) (.start .new) w) :
    ∀ i, w.state.calls[i]? = some (.emit .returned) → Left w.history i := by
  refine h.invariant (I := fun w => ∀ i, w.state.calls[i]? = some (.emit .returned) →
    Left w.history i) nofun ?_
  intro w l s' es hleft hstep i hi
  obtain ⟨hkeeping, hstep⟩ := Trace.restrict_eq_some.1 hstep
  have hgen := (Bool.and_eq_true_iff.1 hkeeping).1
  -- the call had returned before, or the step was its own
  rcases Engine.calls_cases hstep hi with hold | hentered | ⟨env, rfl⟩
  · exact (hleft i hold).append es
  · cases hentered
  · cases hcall : w.state.calls[i]? with
    | none => simp [Engine.step, hcall] at hstep
    | some c =>
      have hlen := (List.getElem?_eq_some_iff.1 hcall).1
      cases c with
      | emit place =>
        have hstep' : w.state.stepEmit i env place = some (s', es) := by
          simpa [Engine.step, hcall] using hstep
        exact (left_of_stepEmit hcall hstep' hgen hi).prepend w.history
      | init cfg place =>
        obtain ⟨-, place', hcalls⟩ := Engine.of_stepInit env hcall
          (by simpa [Engine.step, hcall] using hstep)
        simp [hcalls, hlen] at hi
      | flush place =>
        obtain ⟨-, place', hcalls⟩ := Engine.of_stepFlush hcall
          (show w.state.stepFlush i env place = _ by simpa [Engine.step, hcall] using hstep)
        simp [hcalls, hlen] at hi
      | close place =>
        obtain ⟨-, place', hcalls⟩ := Engine.of_stepClose hcall
          (show w.state.stepClose i env place = _ by simpa [Engine.step, hcall] using hstep)
        simp [hcalls, hlen] at hi

/-- **Emit drops no row silently**, as long as the drainer in the slot has the store generation that
    `Emit` has read and `Close` is let be while it gives up. -/
theorem emit_keeps (w : World)
    (h : Trace.Reaches (Trace.restrict Engine.step keeping) (.start .new) w) (i : Nat)
    (hi : w.state.calls[i]? = some (.emit .returned)) : Keeps w i := by
  have hprojects := Engine.projects Drainer.careful keeping
    (fun s l hk => (Bool.and_eq_true_iff.1 hk).2)
  rcases left_of_reaches h i hi with ⟨k, hk⟩ | hstored | hfailed
  · have haccepted : .accepted i ∈ drainersView.history k w.history := mem_history.2 hk
    obtain ⟨d, hd⟩ := hprojects.exists_part rfl h haccepted
    obtain ⟨d₀, ⟨gen, maxAttempts, rfl⟩, hreaches⟩ := hprojects.reaches_start rfl h hd
    rcases (GoDrainer.accounted_of_reaches hreaches).held i haccepted with hholds | hsettled
    · exact .inl ⟨d, List.mem_of_getElem? hd, hholds⟩
    · refine .inr ?_
      rcases hsettled with he | he | he
      · exact ⟨_, mem_history.1 he, by simp [Event.settles]⟩
      · exact ⟨_, mem_history.1 he, by simp [Event.settles]⟩
      · exact ⟨_, mem_history.1 he, by simp [Event.settles]⟩
  · exact .inr ⟨_, hstored, by simp [Event.settles]⟩
  · exact .inr ⟨_, hfailed, by simp [Event.settles]⟩

/-- `Init` on a store, with a drainer that gives up on a row after three attempts. -/
def Config.queue (store : Nat) : Config := ⟨store, false, some 3⟩

/-- A step that meets with success. -/
def Env.good : Env := ⟨true, true, false, .stored⟩

/-- A call and its steps, up to its return where nothing is in its way. -/
def Label.whole (i : Nat) (c : Call) (steps : Nat) (env : Env) : List Label :=
  .call c :: List.replicate steps (.move i env)

theorem emit_keeps_queued : ∃ w, Trace.Reaches (Trace.restrict Engine.step keeping) (.start .new) w
    ∧ w.state.calls[1]? = some (.emit .returned) ∧ Keeps w 1 := by
  obtain ⟨w, hw, hp⟩ := Trace.exists_reaches_of_run (Trace.restrict Engine.step keeping)
    (.start .new) (Label.whole 0 (.init (.queue 0) .entered) 6 .good
      ++ Label.whole 1 (.emit .entered) 4 .good)
    (fun w => w.state.calls[1]? = some (.emit .returned)) (by decide +kernel)
  have hreturned := of_decide_eq_true hp
  exact ⟨w, hw, hreturned, emit_keeps w hw 1 hreturned⟩

/-- An `Init` on another store that fails once the store is set leaves the drainer behind with the old
    generation: every later row is dropped. -/
theorem emit_drops_afterFailedInit : ∃ w, Trace.Reaches Engine.step (.start .new) w
    ∧ w.state.calls[2]? = some (.emit .returned) ∧ ¬Keeps w 2 := by
  obtain ⟨w, hw, hp⟩ := Trace.exists_reaches_of_run Engine.step
    (.start .new) (Label.whole 0 (.init (.queue 0) .entered) 6 .good
      ++ Label.whole 1 (.init ⟨1, true, none⟩ .entered) 4 .good
      ++ Label.whole 2 (.emit .entered) 2 .good)
    (fun w => w.state.calls[2]? = some (.emit .returned) ∧ ¬Keeps w 2) (by decide +kernel)
  exact ⟨w, hw, of_decide_eq_true hp⟩

end Fasten.GoEngine
