import Fasten.Lib.Trace

set_option autoImplicit false

/-! # Systems made of parts

A system whose state holds a list of parts, each of which is a system of its own. A step of the whole
is made of steps of parts and of new parts, and its events say which part they are of. What each part
goes through is then a run of the part alone. -/

namespace Parts

open Trace

variable {τ ℓ ε σ κ η : Type}

/-- Part `k` takes a step. -/
def move (step : τ → ℓ → Option (τ × List ε)) (parts : List τ) (k : Nat) (l : ℓ) :
    Option (List τ × List (Nat × ε)) :=
  parts[k]?.bind fun p => (step p l).map fun r => (parts.set k r.1, r.2.map (Prod.mk k))

/-- The events of part `k`. -/
def eventsOf (k : Nat) (es : List (Nat × ε)) : List ε :=
  es.filterMap fun e => if e.1 = k then some e.2 else none

@[simp] theorem eventsOf_nil (k : Nat) : eventsOf k ([] : List (Nat × ε)) = [] := rfl

@[simp] theorem eventsOf_append (k : Nat) (es es' : List (Nat × ε)) :
    eventsOf k (es ++ es') = eventsOf k es ++ eventsOf k es' :=
  List.filterMap_append

variable {k : Nat}

@[simp] theorem mem_eventsOf {es : List (Nat × ε)} {e : ε} : e ∈ eventsOf k es ↔ (k, e) ∈ es := by
  simp only [eventsOf, List.mem_filterMap, Option.ite_none_right_eq_some, Option.some.injEq]
  refine ⟨fun ⟨⟨i, x⟩, hmem, hk, hx⟩ => ?_, fun h => ⟨(k, e), h, rfl, rfl⟩⟩
  cases hk
  cases hx
  exact hmem

theorem eventsOf_map_self (k : Nat) (es : List ε) : eventsOf k (es.map (Prod.mk k)) = es := by
  simp [eventsOf, List.filterMap_map]

theorem eventsOf_map_ne {i : Nat} (h : i ≠ k) (es : List ε) :
    eventsOf k (es.map (Prod.mk i)) = [] := by
  simp [eventsOf, List.filterMap_map, h]

/-- The parts go through some steps, with these events; some may be new. -/
inductive Evolves (step : τ → ℓ → Option (τ × List ε)) (fresh : τ → Prop) (ps : List τ) :
    List τ → List (Nat × ε) → Prop where
  | refl : Evolves step fresh ps ps []
  | move {ps' ps'' : List τ} {es es' : List (Nat × ε)} {k : Nat} {l : ℓ}
      (h : Evolves step fresh ps ps' es) (hmove : move step ps' k l = some (ps'', es')) :
      Evolves step fresh ps ps'' (es ++ es')
  | add {ps' : List τ} {es : List (Nat × ε)} {p : τ} (h : Evolves step fresh ps ps' es)
      (hfresh : fresh p) : Evolves step fresh ps (ps' ++ [p]) es

section

variable {step : τ → ℓ → Option (τ × List ε)} {fresh : τ → Prop} {ps ps' : List τ}
  {es : List (Nat × ε)}

theorem move_eq_some {l : ℓ} : move step ps k l = some (ps', es) ↔
    ∃ p p' es', ps[k]? = some p ∧ step p l = some (p', es') ∧ ps' = ps.set k p'
      ∧ es = es'.map (Prod.mk k) := by
  simp only [move, Option.bind_eq_some_iff, Option.map_eq_some_iff, Prod.exists, Prod.mk.injEq]
  refine ⟨fun ⟨p, hp, p', es', hstep, hps, hes⟩ => ⟨p, p', es', hp, hstep, hps.symm, hes.symm⟩,
    fun ⟨p, p', es', hp, hstep, hps, hes⟩ => ⟨p, hp, p', es', hstep, hps.symm, hes.symm⟩⟩

/-- One step of one part. -/
theorem Evolves.of_move {l : ℓ} (h : Parts.move step ps k l = some (ps', es)) :
    Evolves step fresh ps ps' es := by
  simpa using (Evolves.refl : Evolves step fresh ps ps []).move h

/-- A part that is there goes through a run of its own. -/
theorem Evolves.reaches (h : Evolves step fresh ps ps' es) {p : τ} (hp : ps[k]? = some p)
    (before : List ε) : ∃ p', ps'[k]? = some p' ∧
      Reaches step ⟨p, before⟩ ⟨p', before ++ eventsOf k es⟩ := by
  induction h with
  | refl => exact ⟨p, hp, by simpa using Relation.ReflTransGen.refl⟩
  | @move ps' ps'' es es' i l _ hmove ih =>
    obtain ⟨p', hp', hreaches⟩ := ih
    obtain ⟨q, q', es'', hq, hstep, rfl, rfl⟩ := move_eq_some.1 hmove
    by_cases hik : i = k
    · subst hik
      cases hq.symm.trans hp'
      refine ⟨q', by simp [(List.getElem?_eq_some_iff.1 hq).1], hreaches.tail ⟨l, ?_⟩⟩
      refine World.next_eq_some.2 ⟨es'', hstep, ?_⟩
      simp [eventsOf_map_self]
    · refine ⟨p', by rwa [List.getElem?_set_ne hik], ?_⟩
      simpa [eventsOf_map_ne hik] using hreaches
  | add h hfresh ih =>
    obtain ⟨p', hp', hreaches⟩ := ih
    exact ⟨p', by rw [List.getElem?_append_left (List.getElem?_eq_some_iff.1 hp').1, hp'],
      hreaches⟩

theorem Evolves.length_le (h : Evolves step fresh ps ps' es) : ps.length ≤ ps'.length := by
  induction h with
  | refl => exact le_rfl
  | move _ hmove ih =>
    obtain ⟨q, q', es'', -, -, rfl, -⟩ := move_eq_some.1 hmove
    simpa using ih
  | add _ _ ih => exact ih.trans (by simp)

/-- Only parts that are there have events. -/
theorem Evolves.eventsOf_eq_nil (h : Evolves step fresh ps ps' es) (hk : ps'.length ≤ k) :
    eventsOf k es = [] := by
  induction h with
  | refl => rfl
  | move _ hmove ih =>
    obtain ⟨q, q', es'', hq, -, rfl, rfl⟩ := move_eq_some.1 hmove
    rw [List.length_set] at hk
    have hne := ((List.getElem?_eq_some_iff.1 hq).1.trans_le hk).ne
    rw [eventsOf_append, ih hk, eventsOf_map_ne hne, List.append_nil]
  | add _ _ ih =>
    rw [List.length_append] at hk
    exact ih (Nat.le_of_add_right_le hk)

/-- A part that was not there was fresh, and has gone through a run of its own since. -/
theorem Evolves.reaches_new (h : Evolves step fresh ps ps' es) {p' : τ} (hp' : ps'[k]? = some p')
    (hk : ps.length ≤ k) : ∃ p, fresh p ∧ Reaches step (World.start p) ⟨p', eventsOf k es⟩ := by
  induction h generalizing p' with
  | refl => exact absurd (List.getElem?_eq_some_iff.1 hp').1 (Nat.not_lt.2 hk)
  | @move ps' ps'' es es' i l _ hmove ih =>
    obtain ⟨q, q', es'', hq, hstep, rfl, rfl⟩ := move_eq_some.1 hmove
    by_cases hik : i = k
    · subst hik
      obtain ⟨p, hfresh, hreaches⟩ := ih hq
      have hq' : q' = p' := by
        simpa [(List.getElem?_eq_some_iff.1 hq).1] using hp'
      refine ⟨p, hfresh, hreaches.tail ⟨l, World.next_eq_some.2 ⟨es'', hq' ▸ hstep, ?_⟩⟩⟩
      simp [eventsOf_map_self]
    · rw [List.getElem?_set_ne hik] at hp'
      simpa [eventsOf_map_ne hik] using ih hp'
  | @add ps' es p h hfresh ih =>
    by_cases hlt : k < ps'.length
    · exact ih (by rwa [List.getElem?_append_left hlt] at hp')
    · -- the part is the one that was just added: it has no events yet
      have hlen : k = ps'.length := by
        have := (List.getElem?_eq_some_iff.1 hp').1
        simp only [List.length_append, List.length_singleton] at this
        omega
      subst hlen
      have hpp : p = p' := by simpa using hp'
      refine ⟨p, hfresh, ?_⟩
      rw [h.eventsOf_eq_nil le_rfl, ← hpp]
      exact Relation.ReflTransGen.refl

end

/-! ## The whole -/

/-- The parts of a state, and the part an event is of. -/
structure View (σ η τ ε : Type) where
  parts : σ → List τ
  tag : η → Option (Nat × ε)

namespace View

variable (v : View σ η τ ε)

/-- The history of part `k`. -/
def history (k : Nat) (h : List η) : List ε := eventsOf k (h.filterMap v.tag)

@[simp] theorem history_append (k : Nat) (h h' : List η) :
    v.history k (h ++ h') = v.history k h ++ v.history k h' := by
  simp [history]

theorem mem_history {h : List η} {e : ε} : e ∈ v.history k h ↔ ∃ x ∈ h, v.tag x = some (k, e) := by
  simp [history, List.mem_filterMap]

/-- A step of the whole is made of steps of parts. -/
def Projects (whole : σ → κ → Option (σ × List η)) (step : τ → ℓ → Option (τ × List ε))
    (fresh : τ → Prop) : Prop :=
  ∀ (s : σ) (l : κ) (s' : σ) (es : List η), whole s l = some (s', es) →
    Evolves step fresh (v.parts s) (v.parts s') (es.filterMap v.tag)

variable {v} {whole : σ → κ → Option (σ × List η)} {step : τ → ℓ → Option (τ × List ε)}
  {fresh : τ → Prop}

/-- Only parts that are there have a history, and each has had a run of its own from the start. -/
theorem Projects.invariant (hv : v.Projects whole step fresh) {s : σ} (hs : v.parts s = [])
    {w : World σ η} (h : Reaches whole (World.start s) w) (k : Nat) :
    ((v.parts w.state)[k]? = none → v.history k w.history = [])
      ∧ ∀ p, (v.parts w.state)[k]? = some p →
        ∃ p₀, fresh p₀ ∧ Reaches step (World.start p₀) ⟨p, v.history k w.history⟩ := by
  refine h.invariant (I := fun w => ((v.parts w.state)[k]? = none → v.history k w.history = [])
    ∧ ∀ p, (v.parts w.state)[k]? = some p →
      ∃ p₀, fresh p₀ ∧ Reaches step (World.start p₀) ⟨p, v.history k w.history⟩) ?_ ?_
  · refine ⟨fun _ => rfl, fun p hp => ?_⟩
    simp [World.start, hs] at hp
  · intro w l s' es ⟨hnil, hparts⟩ hstep
    have hevolves := hv _ l s' es hstep
    have hmore : eventsOf k (es.filterMap v.tag) = v.history k es := rfl
    refine ⟨fun hk => ?_, fun p hp => ?_⟩
    · rw [List.getElem?_eq_none_iff] at hk
      rw [history_append, hnil (List.getElem?_eq_none (hevolves.length_le.trans hk)), ← hmore,
        hevolves.eventsOf_eq_nil hk]
      rfl
    · rw [history_append]
      cases hold : (v.parts w.state)[k]? with
      | some q =>
        obtain ⟨p₀, hfresh, hreaches⟩ := hparts q hold
        obtain ⟨p', hp', hmore⟩ := hevolves.reaches hold (v.history k w.history)
        cases hp.symm.trans hp'
        exact ⟨p₀, hfresh, hreaches.trans hmore⟩
      | none =>
        rw [hnil hold, List.nil_append]
        exact hevolves.reaches_new hp (List.getElem?_eq_none_iff.1 hold)

/-- **Each part of a whole that started with none has had a run of its own, from the start.** -/
theorem Projects.reaches_start (hv : v.Projects whole step fresh) {s : σ} (hs : v.parts s = [])
    {w : World σ η} (h : Reaches whole (World.start s) w) {p : τ}
    (hp : (v.parts w.state)[k]? = some p) :
    ∃ p₀, fresh p₀ ∧ Reaches step (World.start p₀) ⟨p, v.history k w.history⟩ :=
  (hv.invariant hs h k).2 p hp

/-- A part that has a history is there. -/
theorem Projects.exists_part (hv : v.Projects whole step fresh) {s : σ} (hs : v.parts s = [])
    {w : World σ η} (h : Reaches whole (World.start s) w) {e : ε} (he : e ∈ v.history k w.history) :
    ∃ p, (v.parts w.state)[k]? = some p := by
  cases hp : (v.parts w.state)[k]? with
  | some p => exact ⟨p, rfl⟩
  | none =>
    rw [(hv.invariant hs h k).1 hp] at he
    cases he

end View

end Parts
