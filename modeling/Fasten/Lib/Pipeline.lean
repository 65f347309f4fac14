import Mathlib.Data.List.Nodup
import Mathlib.Data.List.Infix
import Mathlib.Logic.Relation

set_option autoImplicit false

/-! # A queue with one worker

Items are pushed onto a queue while it is open. One worker takes them off in order, and settles each
one, with some outcome, before it takes the next. The worker finishes once the queue is closed and
empty; it may also die with an item in its hands. -/

/-- What has become of the worker. -/
inductive Worker where
  | running
  | finished
  | died
  deriving DecidableEq

structure Pipeline (α ο : Type) where
  /-- every item ever pushed, in order -/
  pushed : List α
  /-- the items the worker is done with, in order -/
  settled : List (α × ο)
  /-- the item in the worker's hands -/
  held : Option α
  queue : List α
  isOpen : Bool
  worker : Worker

namespace Pipeline

variable {α ο : Type}

def empty : Pipeline α ο := ⟨[], [], none, [], true, .running⟩

inductive Step : Pipeline α ο → Pipeline α ο → Prop where
  | push {p : Pipeline α ο} (a : α) (hopen : p.isOpen = true) (hnew : a ∉ p.pushed) :
      Step p { p with pushed := p.pushed ++ [a], queue := p.queue ++ [a] }
  | take {p : Pipeline α ο} {a : α} {rest : List α} (hworker : p.worker = .running)
      (hheld : p.held = none) (hqueue : p.queue = a :: rest) :
      Step p { p with held := some a, queue := rest }
  | settle {p : Pipeline α ο} {a : α} (o : ο) (hworker : p.worker = .running)
      (hheld : p.held = some a) :
      Step p { p with settled := p.settled ++ [(a, o)], held := none }
  | close {p : Pipeline α ο} : Step p { p with isOpen := false }
  | finish {p : Pipeline α ο} (hopen : p.isOpen = false) (hheld : p.held = none)
      (hqueue : p.queue = []) : Step p { p with worker := .finished }
  | die {p : Pipeline α ο} (hheld : p.held.isSome) : Step p { p with worker := .died }

/-- Any number of steps, none for a step of an implementation that the pipeline does not show. -/
abbrev Steps : Pipeline α ο → Pipeline α ο → Prop := Relation.ReflTransGen Step

/-- What holds after any steps. -/
structure Ok (p : Pipeline α ο) : Prop where
  /-- The worker keeps the order of the queue. -/
  order : p.pushed = p.settled.map Prod.fst ++ p.held.toList ++ p.queue
  nodup : p.pushed.Nodup
  finished : p.worker = .finished → p.isOpen = false ∧ p.held = none ∧ p.queue = []

theorem ok_empty : (empty : Pipeline α ο).Ok :=
  ⟨rfl, List.nodup_nil, nofun⟩

theorem Step.ok {p p' : Pipeline α ο} (h : Step p p') (hp : p.Ok) : p'.Ok := by
  cases h with
  | push a hopen hnew =>
    refine ⟨by simp [hp.order], List.nodup_append.2 ⟨hp.nodup, List.nodup_singleton a, ?_⟩, ?_⟩
    · intro x hx y hy hxy
      rw [List.mem_singleton.1 hy] at hxy
      exact hnew (hxy ▸ hx)
    · intro hworker
      have hclosed := (hp.finished hworker).1
      rw [hopen] at hclosed
      cases hclosed
  | take hworker hheld hqueue =>
    refine ⟨by simp [hp.order, hheld, hqueue], hp.nodup, fun hfinished => ?_⟩
    cases hworker.symm.trans hfinished
  | settle o hworker hheld =>
    refine ⟨by simp [hp.order, hheld], hp.nodup, fun hfinished => ?_⟩
    cases hworker.symm.trans hfinished
  | close => exact ⟨hp.order, hp.nodup, fun hfinished => ⟨rfl, (hp.finished hfinished).2⟩⟩
  | finish hopen hheld hqueue => exact ⟨hp.order, hp.nodup, fun _ => ⟨hopen, hheld, hqueue⟩⟩
  | die hheld => exact ⟨hp.order, hp.nodup, nofun⟩

theorem Steps.ok {p p' : Pipeline α ο} (h : Steps p p') (hp : p.Ok) : p'.Ok := by
  induction h with
  | refl => exact hp
  | tail _ hstep ih => exact hstep.ok ih

/-! ## Where an item is -/

/-- Where an item that was pushed can be. -/
inductive Place (ο : Type) where
  | queued
  | held
  | settled (o : ο)

def At (p : Pipeline α ο) (a : α) : Place ο → Prop
  | .queued => a ∈ p.queue
  | .held => p.held = some a
  | .settled o => (a, o) ∈ p.settled

theorem Ok.mem_pushed_iff {p : Pipeline α ο} (hp : p.Ok) {a : α} :
    a ∈ p.pushed ↔ ∃ place, p.At a place := by
  have hfst : a ∈ p.settled.map Prod.fst ↔ ∃ o, (a, o) ∈ p.settled := by simp
  rw [hp.order, List.mem_append, List.mem_append, hfst, Option.mem_toList]
  refine ⟨fun h => ?_, fun ⟨place, hat⟩ => ?_⟩
  · rcases h with (⟨o, ho⟩ | hheld) | hqueue
    · exact ⟨.settled o, ho⟩
    · exact ⟨.held, hheld⟩
    · exact ⟨.queued, hqueue⟩
  · cases place with
    | queued => exact Or.inr hat
    | held => exact Or.inl (Or.inr hat)
    | settled o => exact Or.inl (Or.inl ⟨o, hat⟩)

/-- **Each item that was pushed is in exactly one place.** -/
theorem Ok.existsUnique_at {p : Pipeline α ο} (hp : p.Ok) {a : α} (ha : a ∈ p.pushed) :
    ∃! place, p.At a place := by
  obtain ⟨place, hplace⟩ := hp.mem_pushed_iff.1 ha
  refine ⟨place, hplace, fun other hother => ?_⟩
  have hnodup := hp.order ▸ hp.nodup
  obtain ⟨hfront, -, hback⟩ := List.nodup_append.1 hnodup
  obtain ⟨hsettled, -, hmiddle⟩ := List.nodup_append.1 hfront
  have hfst : ∀ {o : ο}, (a, o) ∈ p.settled → a ∈ p.settled.map Prod.fst :=
    fun h => List.mem_map.2 ⟨_, h, rfl⟩
  have hheld : p.held = some a → a ∈ p.held.toList := fun h => by simp [h]
  -- two places of one item are two occurrences of it in the order of pushing
  cases place with
  | queued =>
    cases other with
    | queued => rfl
    | held => exact absurd rfl (hback a (List.mem_append_right _ (hheld hother)) a hplace)
    | settled o => exact absurd rfl (hback a (List.mem_append_left _ (hfst hother)) a hplace)
  | held =>
    cases other with
    | queued => exact absurd rfl (hback a (List.mem_append_right _ (hheld hplace)) a hother)
    | held => rfl
    | settled o => exact absurd rfl (hmiddle a (hfst hother) a (hheld hplace))
  | settled o =>
    cases other with
    | queued => exact absurd rfl (hback a (List.mem_append_left _ (hfst hplace)) a hother)
    | held => exact absurd rfl (hmiddle a (hfst hplace) a (hheld hother))
    | settled o' =>
      have hpair := List.inj_on_of_nodup_map hsettled hother hplace rfl
      rw [(Prod.mk.inj hpair).2]

/-! ## What is settled -/

/-- Once as many items are settled as had been pushed at some time, those are. -/
theorem Ok.settled_of_isPrefix {p : Pipeline α ο} (hp : p.Ok) {before : List α}
    (hbefore : before <+: p.pushed) (hlen : before.length ≤ p.settled.length) {a : α}
    (ha : a ∈ before) : ∃ o, (a, o) ∈ p.settled := by
  have hsettled : p.settled.map Prod.fst <+: p.pushed :=
    ⟨p.held.toList ++ p.queue, by rw [hp.order, List.append_assoc]⟩
  have hpre := List.prefix_of_prefix_length_le hbefore hsettled (by simpa using hlen)
  simpa using hpre.subset ha

/-- A worker that finished has settled everything. -/
theorem Ok.settled_of_finished {p : Pipeline α ο} (hp : p.Ok) (hfinished : p.worker = .finished)
    {a : α} (ha : a ∈ p.pushed) : ∃ o, (a, o) ∈ p.settled := by
  obtain ⟨-, hheld, hqueue⟩ := hp.finished hfinished
  simpa [hp.order, hheld, hqueue] using ha

end Pipeline
