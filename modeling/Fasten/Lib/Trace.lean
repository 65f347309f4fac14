import Mathlib.Data.List.Infix
import Mathlib.Logic.Relation

set_option autoImplicit false

/-! # Systems that keep a history

A system is a partial step function: a label that is not enabled in a state gives `none`, any other
the next state and the events of the step. A world is a state with every event up to it. -/

namespace Trace

variable {σ ℓ ε : Type}

structure World (σ ε : Type) where
  state : σ
  history : List ε

namespace World

def start (s : σ) : World σ ε := ⟨s, []⟩

def next (step : σ → ℓ → Option (σ × List ε)) (w : World σ ε) (l : ℓ) : Option (World σ ε) :=
  (step w.state l).map fun r => ⟨r.1, w.history ++ r.2⟩

theorem next_eq_some {step : σ → ℓ → Option (σ × List ε)} {w w' : World σ ε} {l : ℓ} :
    w.next step l = some w' ↔ ∃ es, step w.state l = some (w'.state, es)
      ∧ w'.history = w.history ++ es := by
  simp only [next, Option.map_eq_some_iff, Prod.exists]
  refine ⟨?_, fun ⟨es, hstep, hhistory⟩ => ⟨w'.state, es, hstep, hhistory ▸ rfl⟩⟩
  rintro ⟨s, es, hstep, rfl⟩
  exact ⟨es, hstep, rfl⟩

end World

/-- One step, with some label. -/
def Moves (step : σ → ℓ → Option (σ × List ε)) (w w' : World σ ε) : Prop :=
  ∃ l, w.next step l = some w'

/-- Any number of steps. -/
abbrev Reaches (step : σ → ℓ → Option (σ × List ε)) : World σ ε → World σ ε → Prop :=
  Relation.ReflTransGen (Moves step)

/-- The steps a condition allows. -/
def restrict (step : σ → ℓ → Option (σ × List ε)) (allowed : σ → ℓ → Bool) (s : σ) (l : ℓ) :
    Option (σ × List ε) :=
  if allowed s l then step s l else none

variable {step : σ → ℓ → Option (σ × List ε)}

theorem restrict_eq_some {allowed : σ → ℓ → Bool} {s : σ} {l : ℓ} {r : σ × List ε} :
    restrict step allowed s l = some r ↔ allowed s l = true ∧ step s l = some r := by
  rw [restrict]
  split_ifs with h <;> simp [h]

/-- **The invariant rule.** What holds at the start and is kept by every step that can be reached
    holds of every world that is reached. -/
theorem Reaches.invariant_along {I : World σ ε → Prop} {w w' : World σ ε} (h : Reaches step w w')
    (hw : I w) (hstep : ∀ (v : World σ ε) (l : ℓ) (s : σ) (es : List ε), Reaches step w v → I v →
      step v.state l = some (s, es) → I ⟨s, v.history ++ es⟩) : I w' := by
  induction h with
  | refl => exact hw
  | tail hreach hmoves ih =>
    obtain ⟨l, hnext⟩ := hmoves
    obtain ⟨es, hs, hhistory⟩ := World.next_eq_some.1 hnext
    have hinv := hstep _ l _ es hreach ih hs
    rw [← hhistory] at hinv
    exact hinv

theorem Reaches.invariant {I : World σ ε → Prop} {w w' : World σ ε} (h : Reaches step w w')
    (hw : I w) (hstep : ∀ (w : World σ ε) (l : ℓ) (s : σ) (es : List ε), I w →
      step w.state l = some (s, es) → I ⟨s, w.history ++ es⟩) : I w' :=
  h.invariant_along hw fun v l s es _ => hstep v l s es

/-- Each event has what it needs in the events before it. -/
def Explained (needs : List ε → ε → Prop) (history : List ε) : Prop :=
  ∀ before e after, history = before ++ e :: after → needs before e

theorem explained_nil (needs : List ε → ε → Prop) : Explained needs [] := by
  intro before e after h
  cases before <;> cases h

/-- The events before stay explained when one is added. -/
theorem Explained.snoc {needs : List ε → ε → Prop} {history : List ε} {e : ε}
    (h : Explained needs history) (he : needs history e) : Explained needs (history ++ [e]) := by
  intro before e' after heq
  rcases List.eq_nil_or_concat after with rfl | ⟨after', last, rfl⟩
  · obtain ⟨rfl, hlast⟩ := List.append_inj' heq rfl
    cases hlast
    exact he
  · rw [List.concat_eq_append, ← List.cons_append, ← List.append_assoc] at heq
    exact h before e' after' (List.append_inj' heq rfl).1

theorem Explained.append {needs : List ε → ε → Prop} {history es : List ε}
    (h : Explained needs history)
    (hes : ∀ before e after, es = before ++ e :: after → needs (history ++ before) e) :
    Explained needs (history ++ es) := by
  induction es using List.reverseRecOn with
  | nil =>
    rw [List.append_nil]
    exact h
  | append_singleton es e ih =>
    rw [← List.append_assoc]
    refine (ih fun before e' after heq => ?_).snoc (hes es e [] rfl)
    exact hes before e' (after ++ [e]) (by rw [heq]; simp)

/-- The world after a list of labels, if each is enabled in turn. -/
def run (step : σ → ℓ → Option (σ × List ε)) (w : World σ ε) : List ℓ → Option (World σ ε)
  | [] => some w
  | l :: ls => (w.next step l).bind (run step · ls)

theorem reaches_of_run {w w' : World σ ε} {ls : List ℓ} (h : run step w ls = some w') :
    Reaches step w w' := by
  induction ls generalizing w with
  | nil =>
    cases h
    exact .refl
  | cons l ls ih =>
    obtain ⟨v, hnext, hrun⟩ := Option.bind_eq_some_iff.1 h
    exact .head ⟨l, hnext⟩ (ih hrun)

/-- A run that can be evaluated shows that a world is reached. -/
theorem exists_reaches_of_run (step : σ → ℓ → Option (σ × List ε)) (w : World σ ε) (ls : List ℓ)
    (p : World σ ε → Bool) (h : (run step w ls).any p = true) :
    ∃ w', Reaches step w w' ∧ p w' = true := by
  obtain ⟨w', hrun, hp⟩ := (Option.any_eq_true _ _).1 h
  exact ⟨w', reaches_of_run hrun, hp⟩

end Trace
