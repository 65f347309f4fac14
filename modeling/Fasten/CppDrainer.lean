import Fasten.Lib.Trace

set_option autoImplicit false

/-! # The C++ drainer

`CFastenDrainer` (`cpp/include/fasten.hpp`) around a drainer of fasten-core. A call that uses the core
counts itself in `busy_` and then reads `stopped_`; the `shutdown` that sets `stopped_` closes the
core, waits for `busy_` to reach 0 and frees the handle. A step is one operation on an atomic, on the
mutex or on a condition variable, or a call of the core. The core queues rows until it is closed, and
`fasten_drainer_close` returns once the core's thread, which runs the sink, has ended. -/

namespace Fasten.Cpp

inductive Kind where
  | put | stats | flush
  deriving DecidableEq

/-- Where a call is. The result is `none` if its `Use` is not `ok`. -/
inductive Place where
  | entered | counted | ready | inCore
  /-- in `~Use`, at the lock, at `--busy_`, at `notify_all` and at the unlock -/
  | leaving (result : Option Bool)
  | dropping (result : Option Bool)
  | notifying (result : Option Bool)
  | unlocking (result : Option Bool)
  /-- in the second part of `flush` -/
  | relocking | testing | waiting | expired
  | finishing (result : Bool)
  | returned (result : Bool)

/-- Where the `shutdown` that set `stopped_` is. -/
inductive Shutdown where
  | notCalled | closing | joining | locking | testing | parking
  | waiting (notified : Bool)
  | unlocking | deleting | freeing | relocking | setting | returned
  deriving DecidableEq

namespace Shutdown

/-- `notify_all` on `idle_`. -/
def notify : Shutdown → Shutdown
  | .waiting _ => .waiting true
  | s => s

/-- How far it has come. -/
def rank : Shutdown → Nat
  | .notCalled => 0
  | .closing => 1
  | .joining => 2
  | .locking | .testing | .parking | .waiting _ => 3
  | .unlocking | .deleting => 4
  | .freeing => 5
  | .relocking | .setting => 6
  | .returned => 7

/-- The flags that only this call writes, the second one in the core. -/
def stopped (s : Shutdown) : Bool := 1 ≤ s.rank

def stopping (s : Shutdown) : Bool := 2 ≤ s.rank

def closed (s : Shutdown) : Bool := 7 ≤ s.rank

def locks : Shutdown → Bool
  | .testing | .parking | .unlocking | .setting => true
  | _ => false

end Shutdown

structure Drainer where
  busy : Nat
  /-- the call that holds `mu_`; `some none` is the `shutdown` -/
  mu : Option (Option Nat)
  calls : List (Kind × Place)
  shutdown : Shutdown

/-- A new drainer, with every call that is ever made on it but `shutdown`. -/
def Drainer.new (calls : List Kind) : Drainer := ⟨0, none, calls.map (·, .entered), .notCalled⟩

inductive Event where
  | usesStore
  | queued (call : Nat)
  /-- A `put` returns true. -/
  | put (call : Nat)
  /-- `fasten_drainer_close` returns. -/
  | coreClosed
  | freesSink | freesStore
  /-- A `flush` finds `closed_` set. -/
  | foundClosed
  deriving DecidableEq

inductive Label where
  /-- A call goes on: the core answers yes or no, a wait ends by its timeout or not. -/
  | move (call : Nat) (answer : Bool)
  /-- A `shutdown` goes on, the first one; the others return at once. -/
  | shutdown (spurious : Bool)

namespace Drainer

variable (d : Drainer)

def goTo (i : Nat) (kind : Kind) (place : Place) : Drainer :=
  { d with calls := d.calls.set i (kind, place) }

def lock (who : Option Nat) : Option Drainer :=
  if d.mu = none then some { d with mu := some who } else none

theorem lock_eq_some {who : Option Nat} {d d' : Drainer} (h : d.lock who = some d') :
    d.mu = none ∧ d' = { d with mu := some who } := by
  rw [lock] at h
  split_ifs at h with hfree
  exact ⟨hfree, (Option.some.inj h).symm⟩

def moveCall (i : Nat) (kind : Kind) (answer : Bool) : Place → Option (Drainer × List Event)
  | .entered => some ({ d with busy := d.busy + 1 }.goTo i kind .counted, [])
  | .counted => some (d.goTo i kind (if d.shutdown.stopped then .leaving none else .ready), [])
  | .ready => some (d.goTo i kind .inCore, [.usesStore])
  | .inCore =>
    if kind = .put ∧ answer then
      if d.shutdown.stopping then none
      else some (d.goTo i kind (.leaving (some true)), [.queued i])
    else some (d.goTo i kind (.leaving (some answer)), [])
  | .leaving result => (d.lock i).map fun d => (d.goTo i kind (.dropping result), [])
  | .dropping result =>
    some ({ d with busy := d.busy - 1 }.goTo i kind
      (if d.busy = 1 then .notifying result else .unlocking result), [])
  | .notifying result =>
    some ({ d with shutdown := d.shutdown.notify }.goTo i kind (.unlocking result), [])
  | .unlocking result =>
    if kind = .flush ∧ result = none then some ({ d with mu := none }.goTo i kind .relocking, [])
    else some ({ d with mu := none }.goTo i kind (.returned (result.getD false)),
      if kind = .put ∧ result = some true then [.put i] else [])
  | .relocking => (d.lock i).map fun d => (d.goTo i kind .testing, [])
  | .testing =>
    if d.shutdown.closed then some (d.goTo i kind (.finishing true), [.foundClosed])
    else some ({ d with mu := none }.goTo i kind .waiting, [])
  | .waiting => some (d.goTo i kind (if answer then .expired else .relocking), [])
  | .expired => (d.lock i).map fun d => (d.goTo i kind (.finishing d.shutdown.closed),
      if d.shutdown.closed then [.foundClosed] else [])
  | .finishing result => some ({ d with mu := none }.goTo i kind (.returned result), [])
  | .returned _ => none

def moveShutdown (spurious : Bool) : Option (Drainer × List Event) :=
  match d.shutdown with
  | .notCalled => some ({ d with shutdown := .closing }, [])
  | .closing => some ({ d with shutdown := .joining }, [.usesStore])
  | .joining => some ({ d with shutdown := .locking }, [.coreClosed])
  | .locking => (d.lock none).map fun d => ({ d with shutdown := .testing }, [])
  | .testing => some ({ d with shutdown := if d.busy = 0 then .unlocking else .parking }, [])
  | .parking => some ({ d with mu := none, shutdown := .waiting false }, [])
  | .waiting notified =>
    if notified || spurious then some ({ d with shutdown := .locking }, []) else none
  | .unlocking => some ({ d with mu := none, shutdown := .deleting }, [])
  | .deleting => some ({ d with shutdown := .freeing }, [.freesSink])
  | .freeing => some ({ d with shutdown := .relocking }, [.freesStore])
  | .relocking => (d.lock none).map fun d => ({ d with shutdown := .setting }, [])
  | .setting => some ({ d with mu := none, shutdown := .returned }, [])
  | .returned => none

def step : Label → Option (Drainer × List Event)
  | .move i answer => d.calls[i]?.bind fun c => d.moveCall i c.1 answer c.2
  | .shutdown spurious => d.moveShutdown spurious

end Drainer

/-! ## The protocol -/

abbrev World := Trace.World Drainer Event

/-- What has to come before an event, and what must not. -/
def Needs (before : List Event) : Event → Prop
  | .usesStore | .freesStore => .freesStore ∉ before
  | .freesSink => .coreClosed ∈ before ∧ .freesSink ∉ before
  | .queued _ => .coreClosed ∉ before
  | .put call => .queued call ∈ before
  | .foundClosed => .freesStore ∈ before
  | .coreClosed => True

/-- How far the `shutdown` is after an event of its own. -/
def Event.rank : Event → Option Nat
  | .coreClosed => some 3
  | .freesSink => some 5
  | .freesStore => some 6
  | _ => none

namespace Place

/-- The call is counted in `busy_`. -/
@[simp] def counts : Place → Bool
  | .counted | .ready | .inCore | .leaving _ | .dropping _ => true
  | _ => false

@[simp] def locks : Place → Bool
  | .dropping _ | .notifying _ | .unlocking _ | .testing | .finishing _ => true
  | _ => false

/-- The call uses `store_`, or will. -/
@[simp] def uses : Place → Bool
  | .ready | .inCore => true
  | _ => false

@[simp] def succeeds : Place → Bool
  | .leaving result | .dropping result | .notifying result | .unlocking result =>
    result == some true
  | _ => false

@[simp] def isNotifying : Place → Bool
  | .notifying _ => true
  | _ => false

end Place

abbrev Drainer.At (d : Drainer) (i : Nat) (kind : Kind) (p : Place) : Prop :=
  d.calls[i]? = some (kind, p)

def Drainer.holds (d : Drainer) (i : Nat) : Bool := d.calls[i]?.any (·.2.locks)

structure Ok (d : Drainer) (history : List Event) : Prop where
  callLocks : ∀ i, d.mu = some (some i) ↔ d.holds i = true
  shutdownLocks : d.mu = some none ↔ d.shutdown.locks = true
  busy : d.busy = d.calls.countP (·.2.counts)
  unused : 4 ≤ d.shutdown.rank → ∀ i k p, d.At i k p → p.uses = false
  /-- No wake-up is lost. -/
  waits : d.shutdown = .parking ∨ d.shutdown = .waiting false →
    d.busy ≠ 0 ∨ ∃ i k p, d.At i k p ∧ p.isNotifying = true
  ranks : ∀ e n, e.rank = some n → (e ∈ history ↔ n ≤ d.shutdown.rank)
  queued : ∀ i p, d.At i .put p → p.succeeds = true → .queued i ∈ history
  explained : Trace.Explained Needs history

/-- What a step of a call can do. -/
structure CallStep (d : Drainer) (i : Nat) (kind : Kind) (p p' : Place) (d' : Drainer)
    (es : List Event) : Prop where
  calls : d'.calls = d.calls.set i (kind, p')
  shutdown : d'.shutdown = if p.isNotifying then d.shutdown.notify else d.shutdown
  mu : d'.mu = if p'.locks then some (some i) else if p.locks then none else d.mu
  locks : p'.locks = true → p.locks = true ∨ d.mu = none
  busy : d'.busy + p.counts.toNat = d.busy + p'.counts.toNat
  notifies : d'.busy = 0 → d.busy ≠ 0 → p'.isNotifying = true
  notifying : p.isNotifying = true → p.locks = true
  uses : p'.uses = true → p.uses = true ∨ d.shutdown.rank = 0
  succeeds : kind = .put → p'.succeeds = true → p.succeeds = true ∨ .queued i ∈ es
  events : es = [] ∨ es = [.usesStore] ∧ p.uses = true ∨ es = [.queued i] ∧ d.shutdown.rank < 2
    ∨ es = [.put i] ∧ kind = .put ∧ p.succeeds = true ∨ es = [.foundClosed] ∧ 7 ≤ d.shutdown.rank

section

variable {d d' : Drainer} {history es : List Event} {i : Nat} {kind : Kind} {p p' : Place}

theorem moveCall_cases {answer : Bool} (hmu : p.locks = true → d.mu = some (some i))
    (hbusy : p.counts = true → d.busy ≠ 0) (h : d.moveCall i kind answer p = some (d', es)) :
    ∃ p', CallStep d i kind p p' d' es := by
  cases p with
  | entered | ready | finishing =>
    cases h
    refine ⟨_, rfl, ?_, ?_, ?_, ?_, ?_, ?_, ?_, ?_, ?_⟩ <;> simp [Drainer.goTo]
  | counted =>
    cases h
    cases hstopped : d.shutdown.stopped with
    | true => exact ⟨.leaving none, by constructor <;> simp [Drainer.goTo]⟩
    | false =>
      have hrank : d.shutdown.rank = 0 := by simpa [Shutdown.stopped] using hstopped
      exact ⟨.ready, by constructor <;> simp [Drainer.goTo, hrank]⟩
  | inCore =>
    rw [Drainer.moveCall] at h
    split_ifs at h with hput hstopping
    · cases h
      have hrank : d.shutdown.rank < 2 := by simpa [Shutdown.stopping] using hstopping
      exact ⟨.leaving (some true), by constructor <;> simp [Drainer.goTo, hrank]⟩
    · cases h
      have hanswer : kind = .put → answer = false := by simpa using hput
      refine ⟨.leaving (some answer), ?_⟩
      constructor <;> simp [Drainer.goTo]
      exact hanswer
  | leaving | relocking =>
    obtain ⟨d₁, hlock, heq⟩ := Option.map_eq_some_iff.1 h
    obtain ⟨hfree, rfl⟩ := Drainer.lock_eq_some hlock
    cases heq
    refine ⟨_, rfl, ?_, ?_, ?_, ?_, ?_, ?_, ?_, ?_, ?_⟩ <;> simp [Drainer.goTo, hfree]
  | dropping result =>
    cases h
    have hlocked := hmu rfl
    have hne := hbusy rfl
    by_cases hone : d.busy = 1
    · exact ⟨.notifying result, by constructor <;> simp [Drainer.goTo, hone, hlocked]⟩
    · exact ⟨.unlocking result, by constructor <;> simp [Drainer.goTo, hone, hlocked] <;> omega⟩
  | notifying result =>
    cases h
    exact ⟨.unlocking result, by constructor <;> simp [Drainer.goTo, hmu rfl]⟩
  | unlocking result =>
    rw [Drainer.moveCall] at h
    split_ifs at h with hflush hput
    · cases h
      exact ⟨.relocking, by constructor <;> simp [Drainer.goTo]⟩
    · cases h
      exact ⟨.returned (result.getD false), by constructor <;> simp [Drainer.goTo, hput]⟩
    · cases h
      exact ⟨.returned (result.getD false), by constructor <;> simp [Drainer.goTo]⟩
  | testing =>
    rw [Drainer.moveCall] at h
    split_ifs at h with hclosed
    · cases h
      have hrank : 7 ≤ d.shutdown.rank := by simpa [Shutdown.closed] using hclosed
      exact ⟨.finishing true, by constructor <;> simp [Drainer.goTo, hmu rfl, hrank]⟩
    · cases h
      exact ⟨.waiting, by constructor <;> simp [Drainer.goTo]⟩
  | waiting =>
    cases h
    cases answer with
    | true => exact ⟨.expired, by constructor <;> simp [Drainer.goTo]⟩
    | false => exact ⟨.relocking, by constructor <;> simp [Drainer.goTo]⟩
  | expired =>
    obtain ⟨d₁, hlock, heq⟩ := Option.map_eq_some_iff.1 h
    obtain ⟨hfree, rfl⟩ := Drainer.lock_eq_some hlock
    cases heq
    cases hclosed : d.shutdown.closed with
    | true =>
      have hrank : 7 ≤ d.shutdown.rank := by simpa [Shutdown.closed] using hclosed
      exact ⟨.finishing true, by constructor <;> simp [Drainer.goTo, hfree, hrank]⟩
    | false => exact ⟨.finishing false, by constructor <;> simp [Drainer.goTo, hfree]⟩
  | returned result => cases h

theorem Ok.busy_ne_zero (hok : Ok d history) (hi : d.At i kind p) (hp : p.counts = true) :
    d.busy ≠ 0 := by
  rw [hok.busy]
  exact (List.countP_pos_iff.2 ⟨_, List.mem_of_getElem? hi, hp⟩).ne'

theorem Ok.call (hok : Ok d history) (hi : d.At i kind p) (h : CallStep d i kind p p' d' es) :
    Ok d' (history ++ es) := by
  obtain ⟨hcalls, hshutdown, hmu, hlocks, hbusy, hnotifies, hnotifying, huses, hqueued, hevents⟩ := h
  have hlt := (List.getElem?_eq_some_iff.1 hi).1
  have hself : d'.At i kind p' := by
    rw [Drainer.At, hcalls, List.getElem?_set_self hlt]
  have hheld : d.holds i = p.locks := by
    simp [Drainer.holds, hi]
  have hholds : ∀ j, d'.holds j = if j = i then p'.locks else d.holds j := by
    grind [Drainer.holds]
  have hcount : d'.busy = d'.calls.countP (·.2.counts) := by
    have hpos := hok.busy_ne_zero hi
    rw [hok.busy] at hbusy hpos
    rw [hcalls, List.countP_set hlt, (List.getElem?_eq_some_iff.1 hi).2]
    grind
  have hrest : d'.shutdown.rank = d.shutdown.rank
      ∧ d'.shutdown.locks = d.shutdown.locks ∧ (d'.shutdown = .parking ∨ d'.shutdown = .waiting false
        → d'.shutdown = d.shutdown ∧ (p.isNotifying = true → d.shutdown.locks = true)) := by
    rw [hshutdown]
    cases p.isNotifying <;> cases d.shutdown <;> simp [Shutdown.notify, Shutdown.rank, Shutdown.locks]
  have hmine := hok.callLocks i
  have hlock := hok.shutdownLocks
  refine ⟨fun j => ?_, ?_, hcount, ?_, ?_, ?_, ?_, ?_⟩
  · have hother := hok.callLocks j
    grind
  · grind
  · grind [Ok.unused]
  · intro hwaiting
    obtain ⟨hsame, hheld⟩ := hrest.2.2 hwaiting
    rcases hok.waits (hsame ▸ hwaiting) with hne | ⟨j, k, q, hj, hq⟩
    · grind
    · -- the call that is to notify holds the mutex
      have hji : j ≠ i := by grind
      exact .inr ⟨j, k, q, by grind, hq⟩
  · intro e n he
    rw [hrest.1, ← hok.ranks e n he, List.mem_append, or_iff_left]
    rcases hevents with rfl | ⟨rfl, -⟩ | ⟨rfl, -⟩ | ⟨rfl, -⟩ | ⟨rfl, -⟩ <;>
      cases e <;> simp [Event.rank] at he ⊢
  · grind [Ok.queued]
  · have hfreed := hok.ranks .freesStore 6 rfl
    have hclosed := hok.ranks .coreClosed 3 rfl
    rcases hevents with rfl | ⟨rfl, hp⟩ | ⟨rfl, hp⟩ | ⟨rfl, rfl, hp⟩ | ⟨rfl, hp⟩
    · simpa using hok.explained
    · refine hok.explained.snoc fun hmem => ?_
      grind [Ok.unused]
    · refine hok.explained.snoc fun hmem => ?_
      have hle := hclosed.1 hmem
      omega
    · exact hok.explained.snoc (hok.queued i p hi hp)
    · exact hok.explained.snoc (hfreed.2 (by omega))

section Advance

variable (hok : Ok d history) {mu : Option (Option Nat)} {s : Shutdown}
  (hmu : mu = if s.locks then some none else if d.shutdown.locks then none else d.mu)
  (hlocks : s.locks = true → d.shutdown.locks = true ∨ d.mu = none)
  (hidle : 4 ≤ s.rank → 4 ≤ d.shutdown.rank ∨ d.busy = 0)
  (hwaits : s = .parking ∨ s = .waiting false → d.busy ≠ 0 ∨ d.shutdown = .parking)

include hok hmu hlocks hidle hwaits

theorem Ok.advance (hranks : ∀ e n, e.rank = some n → (n ≤ d.shutdown.rank ∨ e ∈ es ↔ n ≤ s.rank))
    (hes : es = [] ∨ ∃ e, es = [e] ∧ Needs history e) :
    Ok { d with mu := mu, shutdown := s } (history ++ es) := by
  have hlock := hok.shutdownLocks
  refine ⟨fun i => ?_, ?_, hok.busy, ?_, ?_, ?_, ?_, ?_⟩
  · have hcall : _ ↔ Drainer.holds { d with mu := mu, shutdown := s } i = true := hok.callLocks i
    grind
  · grind
  · intro hrank i k p hi
    rcases hidle hrank with hpast | hbusy
    · exact hok.unused hpast i k p hi
    · rw [hok.busy, List.countP_eq_zero] at hbusy
      have hcounts := hbusy _ (List.mem_of_getElem? hi)
      cases p <;> simp_all [Place.counts, Place.uses]
  · intro hs
    exact (hwaits hs).elim .inl fun hparking => hok.waits (.inl hparking)
  · intro e n he
    rw [List.mem_append, hok.ranks e n he, hranks e n he]
  · grind [Ok.queued]
  · rcases hes with rfl | ⟨e, rfl, he⟩
    · simpa using hok.explained
    · exact hok.explained.snoc he

/-- A step of the `shutdown` without an event. -/
theorem Ok.advance_silent (hranks : ∀ n ∈ [3, 5, 6], n ≤ d.shutdown.rank ↔ n ≤ s.rank) :
    Ok { d with mu := mu, shutdown := s } (history ++ []) :=
  hok.advance hmu hlocks hidle hwaits (fun e n he => by cases e <;> cases he <;> simp_all) (.inl rfl)

end Advance

theorem Ok.moveShutdown {spurious : Bool} (hok : Ok d history)
    (h : d.moveShutdown spurious = some (d', es)) : Ok d' (history ++ es) := by
  have hclosed := hok.ranks .coreClosed 3 rfl
  have hsink := hok.ranks .freesSink 5 rfl
  have hstore := hok.ranks .freesStore 6 rfl
  have hlocked := hok.shutdownLocks
  rw [Drainer.moveShutdown] at h
  cases hs : d.shutdown with
  | notCalled | parking | unlocking | setting =>
    rw [hs] at h
    cases h
    exact hok.advance_silent (by simp [hs, Shutdown.locks]) (by simp [Shutdown.locks])
      (by simp [hs, Shutdown.rank]) (by simp [hs]) (by simp [hs, Shutdown.rank])
  | closing | joining | deleting | freeing =>
    rw [hs] at h
    cases h
    refine hok.advance (by simp [hs, Shutdown.locks]) (by simp [Shutdown.locks])
      (by simp [hs, Shutdown.rank]) (by simp) (fun e n he => ?_) (.inr ⟨_, rfl, ?_⟩)
    · cases e <;> cases he <;> simp [hs, Shutdown.rank]
    · simp [Needs, hclosed, hsink, hstore, hs, Shutdown.rank]
  | locking | relocking =>
    rw [hs] at h
    obtain ⟨d₁, hlock, heq⟩ := Option.map_eq_some_iff.1 h
    obtain ⟨hfree, rfl⟩ := Drainer.lock_eq_some hlock
    cases heq
    exact hok.advance_silent (by simp [Shutdown.locks]) (by simp [hfree])
      (by simp [hs, Shutdown.rank]) (by simp) (by simp [hs, Shutdown.rank])
  | testing =>
    rw [hs] at h
    cases h
    have hmu : d.mu = some none := hlocked.2 (by rw [hs]; rfl)
    by_cases hbusy : d.busy = 0
    · rw [if_pos hbusy]
      exact hok.advance_silent (by simp [Shutdown.locks, hmu]) (by simp [hs, Shutdown.locks])
        (by simp [hbusy]) (by simp) (by simp [hs, Shutdown.rank])
    · rw [if_neg hbusy]
      exact hok.advance_silent (by simp [Shutdown.locks, hmu]) (by simp [hs, Shutdown.locks])
        (by simp [Shutdown.rank]) (by simp [hbusy]) (by simp [hs, Shutdown.rank])
  | waiting notified =>
    rw [hs] at h
    simp only at h
    split_ifs at h
    cases h
    exact hok.advance_silent (by simp [hs, Shutdown.locks]) (by simp [Shutdown.locks])
      (by simp [Shutdown.rank]) (by simp) (by simp [hs, Shutdown.rank])
  | returned =>
    rw [hs] at h
    cases h

theorem Ok.step {l : Label} (hok : Ok d history) (h : d.step l = some (d', es)) :
    Ok d' (history ++ es) := by
  cases l with
  | move i answer =>
    obtain ⟨⟨kind, p⟩, hi, hmove⟩ := Option.bind_eq_some_iff.1 h
    obtain ⟨p', hstep⟩ := moveCall_cases
      (fun hp => (hok.callLocks i).2 (by simpa [Drainer.holds, hi])) (hok.busy_ne_zero hi) hmove
    exact hok.call hi hstep
  | shutdown spurious => exact hok.moveShutdown h

end

theorem ok_new (calls : List Kind) : Ok (.new calls) [] := by
  have hentered : ∀ i k p, (Drainer.new calls).At i k p → p = .entered := by
    intro i k p hi
    simp only [Drainer.At, Drainer.new, List.getElem?_map, Option.map_eq_some_iff] at hi
    obtain ⟨_, -, heq⟩ := hi
    cases heq
    rfl
  exact
    { callLocks := fun i => by simp [Drainer.new, Drainer.holds, Option.any_map]
      shutdownLocks := by simp [Drainer.new, Shutdown.locks]
      busy := by simp [Drainer.new, List.countP_map, Function.comp_def]
      unused := by simp [Drainer.new, Shutdown.rank]
      waits := by simp [Drainer.new]
      ranks := fun e n he => by cases e <;> cases he <;> simp [Drainer.new, Shutdown.rank]
      queued := fun i p hi => by simp [hentered i _ p hi]
      explained := Trace.explained_nil _ }

section

variable {calls : List Kind} {w : World}

theorem ok_of_reaches (h : Trace.Reaches Drainer.step (.start (.new calls)) w) :
    Ok w.state w.history :=
  h.invariant (I := fun w => Ok w.state w.history) (ok_new calls) fun _ _ _ _ hok hs => hok.step hs

/-- **`shutdown` frees what nobody uses any more.** In every run `store_` is neither used nor freed
    after it was freed, the sink is deleted once the core is closed, a `put` that returns true had its
    row queued before that, and a `flush` finds the drainer closed only after the free. Once `store_`
    was freed, no call is in the core or on its way there. -/
theorem shutdown_safe (h : Trace.Reaches Drainer.step (.start (.new calls)) w) :
    Trace.Explained Needs w.history
      ∧ (.freesStore ∈ w.history → ∀ i kind p, w.state.At i kind p → p.uses = false) := by
  have hok := ok_of_reaches h
  refine ⟨hok.explained, fun hfreed => hok.unused ?_⟩
  exact le_trans (by decide) ((hok.ranks .freesStore 6 rfl).1 hfreed)

/-- **`shutdown` does not hang.** In every run, until it has returned, it has a step or a call has:
    no wake-up of its wait for `busy_` is lost. -/
theorem shutdown_not_stuck (h : Trace.Reaches Drainer.step (.start (.new calls)) w)
    (hw : w.state.shutdown ≠ .returned) : (w.state.moveShutdown false).isSome
      ∨ ∃ i answer, (w.state.step (.move i answer)).isSome := by
  have hok := ok_of_reaches h
  generalize w.state = d at hok hw ⊢
  have hmove : ∀ {i kind p}, d.At i kind p → (p.locks = true ∨ p.counts = true ∧ d.mu = none) →
      ∃ i answer, (d.step (.move i answer)).isSome := by
    intro i kind p hi hp
    refine ⟨i, false, ?_⟩
    cases p <;> simp_all [Drainer.step, Drainer.moveCall, Drainer.lock, Place.locks, Place.counts]
    all_goals split_ifs <;> rfl
  cases hmu : d.mu with
  | none =>
    by_cases hs : d.shutdown = .waiting false
    · rcases hok.waits (.inr hs) with hbusy | ⟨i, kind, p, hi, hp⟩
      · rw [hok.busy, ← Nat.pos_iff_ne_zero, List.countP_pos_iff] at hbusy
        obtain ⟨c, hc, hp⟩ := hbusy
        obtain ⟨i, hi⟩ := List.getElem?_of_mem hc
        exact .inr (hmove hi (.inr ⟨hp, hmu⟩))
      · exact .inr (hmove hi (by cases p <;> simp_all [Place.isNotifying, Place.locks]))
    · left
      cases hd : d.shutdown <;> simp_all [Drainer.moveShutdown, Drainer.lock]
  | some who =>
    cases who with
    | none =>
      have hlocks := hok.shutdownLocks.1 hmu
      left
      cases hd : d.shutdown <;> simp_all [Drainer.moveShutdown, Shutdown.locks]
    | some i =>
      obtain ⟨c, hi, hp⟩ := (Option.any_eq_true ..).1 ((hok.callLocks i).1 hmu)
      exact .inr (hmove hi (.inl hp))

end

/-- `shutdown` waits for a `put`. -/
theorem exists_waiting : ∃ w, Trace.Reaches Drainer.step (.start (.new [.put])) w
    ∧ w.state.shutdown = .waiting false := by
  obtain ⟨w, hreach, hw⟩ := Trace.exists_reaches_of_run Drainer.step (.start (.new [.put]))
    (.move 0 true :: List.replicate 6 (.shutdown false))
    (fun w => decide (w.state.shutdown = .waiting false)) (by decide)
  exact ⟨w, hreach, of_decide_eq_true hw⟩

/-- A `put` is in the core while the `shutdown` begins, which waits for it and frees `store_`; a
    `stats` and a `flush` come too late. -/
def freeingRun : List Label :=
  List.replicate 3 (.move 0 true) ++ [.shutdown false, .move 0 true, .move 1 true]
    ++ List.replicate 5 (.shutdown false) ++ List.replicate 3 (.move 0 true)
    ++ List.replicate 5 (.move 1 true) ++ List.replicate 6 (.shutdown false)
    ++ List.replicate 2 (.move 2 true)

theorem shutdown_safe_freed : ∃ w : World,
    .freesStore ∈ w.history ∧ .put 0 ∈ w.history ∧ Trace.Explained Needs w.history
      ∧ ∀ i kind p, w.state.At i kind p → p.uses = false := by
  obtain ⟨w, hreach, hw⟩ := Trace.exists_reaches_of_run Drainer.step
    (.start (.new [.put, .stats, .flush])) freeingRun
    (fun w => decide (.freesStore ∈ w.history ∧ .put 0 ∈ w.history)) (by decide)
  obtain ⟨hfreed, hput⟩ := of_decide_eq_true hw
  exact ⟨w, hfreed, hput, (shutdown_safe hreach).1, (shutdown_safe hreach).2 hfreed⟩

theorem shutdown_not_stuck_waiting : ∃ w : World,
    w.state.shutdown = .waiting false ∧ ((w.state.moveShutdown false).isSome
      ∨ ∃ i answer, (w.state.step (.move i answer)).isSome) := by
  obtain ⟨w, hreach, hw⟩ := exists_waiting
  exact ⟨w, hw, shutdown_not_stuck hreach (by simp [hw])⟩

end Fasten.Cpp
