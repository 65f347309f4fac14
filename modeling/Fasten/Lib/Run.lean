import Mathlib.Data.List.Basic

set_option autoImplicit false

/-! # Runs of a step function

A run is a list of operations applied one after the other. A condition on operations holds along a
run when it holds of each one in the state it is applied to. -/

namespace Run

variable {σ ο : Type}

/-- The condition holds of every operation, in the state it is applied to. -/
def AllAlong (step : σ → ο → σ) (P : σ → ο → Prop) : σ → List ο → Prop
  | _, [] => True
  | s, op :: ops => P s op ∧ AllAlong step P (step s op) ops

variable {step : σ → ο → σ} {P : σ → ο → Prop}

theorem AllAlong.imp {Q : σ → ο → Prop} (himp : ∀ s op, P s op → Q s op) {s : σ} {ops : List ο}
    (h : AllAlong step P s ops) : AllAlong step Q s ops := by
  induction ops generalizing s with
  | nil => trivial
  | cons op ops ih => exact ⟨himp s op h.1, ih h.2⟩

theorem allAlong_of_forall (h : ∀ s op, P s op) (s : σ) (ops : List ο) : AllAlong step P s ops := by
  induction ops generalizing s with
  | nil => trivial
  | cons op ops ih => exact ⟨h s op, ih _⟩

/-- **The invariant rule.** What every step that meets the condition preserves holds at the end of
    every run whose steps all meet it. -/
theorem invariant_of_step {Inv : σ → Prop} (hstep : ∀ s op, Inv s → P s op → Inv (step s op))
    (ops : List ο) (s : σ) (hs : Inv s) (hops : AllAlong step P s ops) :
    Inv (ops.foldl step s) := by
  induction ops generalizing s with
  | nil => exact hs
  | cons op ops ih => exact ih (step s op) (hstep s op hs hops.1) hops.2

/-- **The exact rule.** Where a step keeps the invariant just when it meets the condition, the
    invariant holds after every part of a run just when all its steps meet it. -/
theorem forall_take_iff_allAlong {Inv : σ → Prop} (ops : List ο)
    (hstep : ∀ s, ∀ op ∈ ops, Inv s → (Inv (step s op) ↔ P s op)) (s : σ) (hs : Inv s) :
    (∀ n, Inv ((ops.take n).foldl step s)) ↔ AllAlong step P s ops := by
  induction ops generalizing s with
  | nil => simpa [AllAlong] using hs
  | cons op ops ih =>
    have hfirst := hstep s op List.mem_cons_self hs
    have hrest := ih (fun s op hop => hstep s op (List.mem_cons_of_mem _ hop)) (step s op)
    constructor
    · intro h
      have hnext : Inv (step s op) := h 1
      exact ⟨hfirst.1 hnext, (hrest hnext).1 (fun n => h (n + 1))⟩
    · rintro ⟨hop, hops⟩ n
      cases n with
      | zero => exact hs
      | succ n => exact (hrest (hfirst.2 hop)).2 hops n

end Run
