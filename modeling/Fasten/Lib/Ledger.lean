import Mathlib.Data.List.Chain
import Mathlib.Data.List.Nodup
import Fasten.Lib.Run

set_option autoImplicit false

/-! # Destroying data with a record of it

Items lose their data one at a time: first a record of the item is stored, then its data is
destroyed. The first call that fails ends the run. A call may fail before it has done anything, or
after all of it, when only the reply is lost.

`Accounted` is what such runs are for: no data is gone without a record, a run that fails leaves at
most one record too many, and one that returns has destroyed all it was to destroy. -/

namespace Ledger

variable {σ κ ρ ι α : Type}

/-! ## Runs -/

/-- How a call to the store went. -/
inductive Outcome where
  | done
  | failed
  /-- done, but reported as failed -/
  | lost
  deriving DecidableEq

/-- The store after each call that changed it, and whether the run returned without an error. -/
structure Report (σ : Type) where
  moments : List σ
  ok : Bool

/-- The store at the end of a run that began with `s`. -/
def Report.last (r : Report σ) (s : σ) : σ := r.moments.getLastD s

/-- Record and destroy each item. `calls` says how the two calls for an item go; `record` gives
    `none` for a record that the store refuses. -/
def destroyAll (record : σ → κ → Option σ) (destroy : σ → κ → σ) (calls : κ → Outcome × Outcome) :
    σ → List κ → Report σ
  | _, [] => ⟨[], true⟩
  | s, c :: rest =>
    match (calls c).1, record s c with
    | .failed, _ => ⟨[], false⟩
    | _, none => ⟨[], false⟩
    | .lost, some s₁ => ⟨[s₁], false⟩
    | .done, some s₁ =>
      match (calls c).2 with
      | .failed => ⟨[s₁], false⟩
      | .lost => ⟨[s₁, destroy s₁ c], false⟩
      | .done =>
        let r := destroyAll record destroy calls (destroy s₁ c) rest
        ⟨s₁ :: destroy s₁ c :: r.moments, r.ok⟩

/-- List the items and destroy them. The listing may fail as well. -/
def listAndDestroy (record : σ → κ → Option σ) (destroy : σ → κ → σ) (calls : κ → Outcome × Outcome)
    (lists : Bool) (s : σ) (cs : List κ) : Report σ :=
  if lists then destroyAll record destroy calls s cs else ⟨[], false⟩

/-- The stores that a sequence of runs goes through. -/
def history (run : σ → α → Report σ) : σ → List α → List σ
  | _, [] => []
  | s, a :: as => (run s a).moments ++ history run ((run s a).last s) as

/-- What the calls of a run can do: they stop at the listing or at an item, or go through. -/
inductive Destroys (record : σ → κ → Option σ) (destroy : σ → κ → σ) :
    σ → List κ → Report σ → Prop where
  | done (s : σ) : Destroys record destroy s [] ⟨[], true⟩
  | stopped (s : σ) (cs : List κ) : Destroys record destroy s cs ⟨[], false⟩
  | undestroyed {s s₁ : σ} {c : κ} (rest : List κ) (h : record s c = some s₁) :
      Destroys record destroy s (c :: rest) ⟨[s₁], false⟩
  | unreported {s s₁ : σ} {c : κ} (rest : List κ) (h : record s c = some s₁) :
      Destroys record destroy s (c :: rest) ⟨[s₁, destroy s₁ c], false⟩
  | turn {s s₁ : σ} {c : κ} {rest : List κ} {r : Report σ} (h : record s c = some s₁)
      (hr : Destroys record destroy (destroy s₁ c) rest r) :
      Destroys record destroy s (c :: rest) ⟨s₁ :: destroy s₁ c :: r.moments, r.ok⟩

theorem destroys_listAndDestroy (record : σ → κ → Option σ) (destroy : σ → κ → σ)
    (calls : κ → Outcome × Outcome) (lists : Bool) (s : σ) (cs : List κ) :
    Destroys record destroy s cs (listAndDestroy record destroy calls lists s cs) := by
  unfold listAndDestroy
  split_ifs
  · induction cs generalizing s with
    | nil => exact .done s
    | cons c rest ih =>
      rw [destroyAll]
      split
      · exact .stopped s _
      · exact .stopped s _
      · exact .undestroyed rest ‹_›
      · split
        · exact .undestroyed rest ‹_›
        · exact .unreported rest ‹_›
        · exact .turn ‹_› (ih _)
  · exact .stopped s cs

variable {s : σ} {cs : List κ}

/-- **The invariant rule of a run.** `I n` says that `n` more records can be stored. -/
theorem Destroys.invariant {record : σ → κ → Option σ} {destroy : σ → κ → σ} {r : Report σ}
    (h : Destroys record destroy s cs r) {I : Nat → σ → Prop} {P : κ → Prop}
    (hless : ∀ n s, I (n + 1) s → I n s)
    (hrecord : ∀ n s c s', P c → I (n + 1) s → record s c = some s' → I n s')
    (hdestroy : ∀ n s c, I n s → I n (destroy s c)) (hcs : ∀ c ∈ cs, P c) (hs : I cs.length s) :
    ∀ m ∈ s :: r.moments, I 0 m := by
  have hzero : ∀ n s, I n s → I 0 s := by
    intro n s h
    induction n with
    | zero => exact h
    | succ n ih => exact ih (hless n s h)
  have hnil : ∀ m ∈ ([] : List σ), I 0 m := nofun
  induction h with
  | done | stopped => exact List.forall_mem_cons.2 ⟨hzero _ _ hs, hnil⟩
  | undestroyed rest h =>
    have h₁ := hrecord _ _ _ _ (hcs _ List.mem_cons_self) hs h
    exact List.forall_mem_cons.2 ⟨hzero _ _ hs, List.forall_mem_cons.2 ⟨hzero _ _ h₁, hnil⟩⟩
  | unreported rest h =>
    have h₁ := hrecord _ _ _ _ (hcs _ List.mem_cons_self) hs h
    exact List.forall_mem_cons.2 ⟨hzero _ _ hs, List.forall_mem_cons.2 ⟨hzero _ _ h₁,
      List.forall_mem_cons.2 ⟨hzero _ _ (hdestroy _ _ _ h₁), hnil⟩⟩⟩
  | turn h _ ih =>
    have h₁ := hrecord _ _ _ _ (hcs _ List.mem_cons_self) hs h
    exact List.forall_mem_cons.2 ⟨hzero _ _ hs, List.forall_mem_cons.2 ⟨hzero _ _ h₁,
      ih (fun c hc => hcs c (List.mem_cons_of_mem _ hc)) (hdestroy _ _ _ h₁)⟩⟩

/-! ## What a store shows -/

/-- The rows of a store, with unique ids. A row may record that another lost its data. -/
structure View (σ ρ ι : Type) where
  rows : σ → List ρ
  id : ρ → ι
  target : ρ → Option ι
  intact : ρ → Prop
  cleared : ρ → Prop
  nodup : ∀ s, ((rows s).map id).Nodup
  not_intact : ∀ r, cleared r → ¬intact r

namespace View

variable (V : View σ ρ ι)

/-- Every row that had its data before and does not have it now has a record. -/
def Recorded (s s' : σ) : Prop :=
  ∀ r ∈ V.rows s, V.intact r → ∀ r' ∈ V.rows s', V.id r' = V.id r → ¬V.intact r' →
    ∃ e ∈ V.rows s', V.target e = some (V.id r)

/-- A record stored since the store had the ids `base`, of a row that still has its data. -/
def Dangling (base : List ι) (s : σ) (e : ρ) : Prop :=
  V.id e ∉ base ∧ ∃ r ∈ V.rows s, V.target e = some (V.id r) ∧ V.intact r

def AtMostOneDangling (base : List ι) (s : σ) : Prop :=
  ∀ e ∈ V.rows s, ∀ e' ∈ V.rows s, V.Dangling base s e → V.Dangling base s e' → e = e'

/-- What runs are for, as far as the rows go. -/
structure Accounted (run : σ → α → Report σ) (listed : σ → α → List ι) (verifies : σ → Prop)
    (s : σ) (as : List α) : Prop where
  recorded : (s :: history run s as).Pairwise V.Recorded
  failed : Run.AllAlong (fun s a => (run s a).last s) (fun s a => (run s a).ok = false →
    V.AtMostOneDangling ((V.rows s).map V.id) ((run s a).last s)) s as
  finished : Run.AllAlong (fun s a => (run s a).last s) (fun s a => (run s a).ok = true →
    (∀ i ∈ listed s a, ∀ r ∈ V.rows ((run s a).last s), V.id r = i → V.cleared r)
      ∧ verifies ((run s a).last s)) s as

/-- What `record` and `destroy` do to the rows, as long as there is room for the record: `Room n` says
    that there is for `n` of them. A row that is not `eligible` may keep its data. -/
structure Lawful (item : κ → ι) (eligible : ρ → Prop) (Room : Nat → σ → Prop)
    (record : σ → κ → Option σ) (destroy : σ → κ → σ) : Prop where
  record_room : ∀ n s c s', Room (n + 1) s → record s c = some s' → Room n s'
  destroy_room : ∀ n s c, Room n s → Room n (destroy s c)
  record_rows : ∀ n s c s', Room (n + 1) s → record s c = some s' →
    ∃ e, V.rows s' = V.rows s ++ [e] ∧ V.target e = some (item c)
  destroy_rows : ∀ s c, ∃ f : ρ → ρ, V.rows (destroy s c) = (V.rows s).map f
    ∧ (∀ r, V.id (f r) = V.id r ∧ V.target (f r) = V.target r)
    ∧ (∀ r, V.id r ≠ item c → f r = r)
    ∧ (∀ r, eligible r → eligible (f r))
    ∧ (∀ r, V.cleared r ∨ V.id r = item c ∧ eligible r → V.cleared (f r))

/-! ## Two stores -/

/-- From one store to a later one. -/
structure Next (s s' : σ) : Prop where
  kept : ∀ r ∈ V.rows s, ∃ r' ∈ V.rows s', V.id r' = V.id r ∧ V.target r' = V.target r
  recorded : V.Recorded s s'

variable {V}

theorem eq_of_id_eq {r r' : ρ} (hr : r ∈ V.rows s) (hr' : r' ∈ V.rows s) (h : V.id r = V.id r') :
    r = r' :=
  List.inj_on_of_nodup_map (V.nodup s) hr hr' h

theorem Next.trans {s₁ s₂ s₃ : σ} (h : V.Next s₁ s₂) (h' : V.Next s₂ s₃) : V.Next s₁ s₃ := by
  refine ⟨fun r hr => ?_, fun r hr hintact r₃ hr₃ hid hgone => ?_⟩
  · obtain ⟨r₂, hr₂, hid, htarget⟩ := h.kept r hr
    obtain ⟨r₃, hr₃, hid', htarget'⟩ := h'.kept r₂ hr₂
    exact ⟨r₃, hr₃, hid'.trans hid, htarget'.trans htarget⟩
  · -- the data went before the store in the middle or after it
    obtain ⟨r₂, hr₂, hid₂, -⟩ := h.kept r hr
    by_cases hintact₂ : V.intact r₂
    · obtain ⟨e, he, htarget⟩ := h'.recorded r₂ hr₂ hintact₂ r₃ hr₃ (hid.trans hid₂.symm) hgone
      exact ⟨e, he, by rw [htarget, hid₂]⟩
    · obtain ⟨e, he, htarget⟩ := h.recorded r hr hintact r₂ hr₂ hid₂ hintact₂
      obtain ⟨e', he', -, htarget'⟩ := h'.kept e he
      exact ⟨e', he', htarget'.trans htarget⟩

instance : IsTrans σ V.Next := ⟨fun _ _ _ => Next.trans⟩

/-- New rows leave the old ones as they are. -/
theorem next_of_append {s' : σ} {e : ρ} (h : V.rows s' = V.rows s ++ [e]) : V.Next s s' := by
  have hmem : ∀ r ∈ V.rows s, r ∈ V.rows s' := fun r hr => h ▸ List.mem_append_left _ hr
  refine ⟨fun r hr => ⟨r, hmem r hr, rfl, rfl⟩, fun r hr hintact r' hr' hid hgone => ?_⟩
  rw [eq_of_id_eq hr' (hmem r hr) hid] at hgone
  exact absurd hintact hgone

/-! ## One turn -/

section Turn

variable {item : κ → ι} {eligible : ρ → Prop} {Room : Nat → σ → Prop} {record : σ → κ → Option σ}
  {destroy : σ → κ → σ} {s s' : σ} {c : κ} {n : Nat}

/-- The items have their rows. -/
def Ready (V : View σ ρ ι) (item : κ → ι) (eligible : ρ → Prop) (s : σ) (cs : List κ) : Prop :=
  ∀ c ∈ cs, ∃ r ∈ V.rows s, V.id r = item c ∧ eligible r

/-- The row of an item has lost its data. -/
def Gone (V : View σ ρ ι) (s : σ) (i : ι) : Prop := ∃ r ∈ V.rows s, V.id r = i ∧ V.cleared r

/-- The records stored since the store had the ids `base` are of rows without data. -/
def Settled (V : View σ ρ ι) (base : List ι) (s : σ) : Prop :=
  ∀ e ∈ V.rows s, V.id e ∉ base → ∀ i, V.target e = some i → V.Gone s i

theorem Gone.cleared {i : ι} (h : V.Gone s i) {r : ρ} (hr : r ∈ V.rows s) (hid : V.id r = i) :
    V.cleared r := by
  obtain ⟨r', hr', hid', hcleared⟩ := h
  rw [eq_of_id_eq hr hr' (hid.trans hid'.symm)]
  exact hcleared

variable (hlaw : V.Lawful item eligible Room record destroy)

include hlaw

theorem Lawful.next_record (hroom : Room (n + 1) s) (h : record s c = some s') : V.Next s s' := by
  obtain ⟨e, hrows, -⟩ := hlaw.record_rows n s c s' hroom h
  exact next_of_append hrows

/-- Data is destroyed once there is a record. -/
theorem Lawful.next_destroy (h : ∃ e ∈ V.rows s, V.target e = some (item c)) :
    V.Next s (destroy s c) := by
  obtain ⟨f, hrows, hkeep, hother, -, -⟩ := hlaw.destroy_rows s c
  have hmem : ∀ r ∈ V.rows s, f r ∈ V.rows (destroy s c) := fun r hr =>
    hrows ▸ List.mem_map_of_mem hr
  refine ⟨fun r hr => ⟨f r, hmem r hr, hkeep r⟩, fun r hr hintact r' hr' hid hgone => ?_⟩
  have hr'' : r' = f r := eq_of_id_eq hr' (hmem r hr) (hid.trans (hkeep r).1.symm)
  by_cases hitem : V.id r = item c
  · obtain ⟨e, he, htarget⟩ := h
    exact ⟨f e, hmem e he, by rw [(hkeep e).2, htarget, hitem]⟩
  · rw [hr'', hother r hitem] at hgone
    exact absurd hintact hgone

theorem Lawful.next_turn (hroom : Room (n + 1) s) (h : record s c = some s') :
    V.Next s' (destroy s' c) := by
  obtain ⟨e, hrows, htarget⟩ := hlaw.record_rows n s c s' hroom h
  exact hlaw.next_destroy ⟨e, hrows ▸ List.mem_append_right _ (List.mem_singleton_self e), htarget⟩

theorem Lawful.gone_record {i : ι} (hroom : Room (n + 1) s) (hgone : V.Gone s i)
    (h : record s c = some s') : V.Gone s' i := by
  obtain ⟨e, hrows, -⟩ := hlaw.record_rows n s c s' hroom h
  obtain ⟨r, hr, hid, hcleared⟩ := hgone
  exact ⟨r, hrows ▸ List.mem_append_left _ hr, hid, hcleared⟩

theorem Lawful.gone_destroy {i : ι} (hgone : V.Gone s i) : V.Gone (destroy s c) i := by
  obtain ⟨f, hrows, hkeep, -, -, hclear⟩ := hlaw.destroy_rows s c
  obtain ⟨r, hr, hid, hcleared⟩ := hgone
  exact ⟨f r, hrows ▸ List.mem_map_of_mem hr, (hkeep r).1.trans hid, hclear r (Or.inl hcleared)⟩

theorem Lawful.ready_record (hroom : Room (n + 1) s) (hready : V.Ready item eligible s cs)
    (h : record s c = some s') : V.Ready item eligible s' cs := by
  obtain ⟨e, hrows, -⟩ := hlaw.record_rows n s c s' hroom h
  intro c' hc'
  obtain ⟨r, hr, hrest⟩ := hready c' hc'
  exact ⟨r, hrows ▸ List.mem_append_left _ hr, hrest⟩

theorem Lawful.ready_destroy (hready : V.Ready item eligible s cs) :
    V.Ready item eligible (destroy s c) cs := by
  obtain ⟨f, hrows, hkeep, -, heligible, -⟩ := hlaw.destroy_rows s c
  intro c' hc'
  obtain ⟨r, hr, hid, hr'⟩ := hready c' hc'
  exact ⟨f r, hrows ▸ List.mem_map_of_mem hr, (hkeep r).1.trans hid, heligible r hr'⟩

/-- The item's own row. -/
theorem Lawful.gone_turn {rest : List κ} (hroom : Room (n + 1) s)
    (hready : V.Ready item eligible s (c :: rest)) (h : record s c = some s') :
    V.Gone (destroy s' c) (item c) := by
  obtain ⟨f, hrows, hkeep, -, -, hclear⟩ := hlaw.destroy_rows s' c
  obtain ⟨r, hr, hid, heligible⟩ := hlaw.ready_record hroom hready h c List.mem_cons_self
  exact ⟨f r, hrows ▸ List.mem_map_of_mem hr, (hkeep r).1.trans hid,
    hclear r (Or.inr ⟨hid, heligible⟩)⟩

variable {base : List ι}

theorem Lawful.settled_turn {rest : List κ} (hroom : Room (n + 1) s)
    (hsettled : V.Settled base s) (hready : V.Ready item eligible s (c :: rest))
    (h : record s c = some s') : V.Settled base (destroy s' c) := by
  obtain ⟨e₁, hrows₁, htarget₁⟩ := hlaw.record_rows n s c s' hroom h
  obtain ⟨f, hrows, hkeep, -, -, -⟩ := hlaw.destroy_rows s' c
  intro e he hnew i htarget
  rw [hrows] at he
  obtain ⟨e', he', rfl⟩ := List.mem_map.1 he
  rw [(hkeep e').1] at hnew
  rw [(hkeep e').2] at htarget
  rw [hrows₁] at he'
  rcases List.mem_append.1 he' with he' | he'
  · exact hlaw.gone_destroy (hlaw.gone_record hroom (hsettled e' he' hnew i htarget) h)
  · rw [List.mem_singleton.1 he', htarget₁] at htarget
    rw [← Option.some.inj htarget]
    exact hlaw.gone_turn hroom hready h

/-- Only the record stored last may be one of a row that has its data. -/
theorem Lawful.atMostOne_record (hroom : Room (n + 1) s) (hsettled : V.Settled base s)
    (h : record s c = some s') : V.AtMostOneDangling base s' := by
  obtain ⟨e₁, hrows, -⟩ := hlaw.record_rows n s c s' hroom h
  have honly : ∀ e ∈ V.rows s', V.Dangling base s' e → e = e₁ := by
    intro e he ⟨hnew, r, hr, htarget, hintact⟩
    rw [hrows] at he
    rcases List.mem_append.1 he with he | he
    · have hgone := hlaw.gone_record hroom (hsettled e he hnew _ htarget) h
      exact absurd hintact (V.not_intact r (hgone.cleared hr rfl))
    · exact List.mem_singleton.1 he
  intro e he e' he' hd hd'
  rw [honly e he hd, honly e' he' hd']

omit hlaw in
theorem Settled.atMostOne (h : V.Settled base s) : V.AtMostOneDangling base s := by
  intro e he _ _ ⟨hnew, r, hr, htarget, hintact⟩
  exact absurd hintact (V.not_intact r ((h e he hnew _ htarget).cleared hr rfl))

end Turn

/-! ## A whole run -/

section Run

variable {item : κ → ι} {eligible : ρ → Prop} {Room : Nat → σ → Prop} {record : σ → κ → Option σ}
  {destroy : σ → κ → σ} {r : Report σ} (hlaw : V.Lawful item eligible Room record destroy)

theorem last_complete (s s₁ s₂ : σ) (ms : List σ) (ok : Bool) :
    (⟨s₁ :: s₂ :: ms, ok⟩ : Report σ).last s = ms.getLastD s₂ := by
  rw [Report.last, List.getLastD_cons, List.getLastD_cons]

include hlaw

theorem Lawful.room_turn {n : Nat} {s' : σ} {c : κ} (hroom : Room (n + 1) s)
    (h : record s c = some s') : Room n (destroy s' c) :=
  hlaw.destroy_room n s' c (hlaw.record_room n s c s' hroom h)

variable (h : Destroys record destroy s cs r)

include h

/-- Every store of a run follows from the one before. -/
theorem Lawful.isChain (hroom : Room cs.length s) : List.IsChain V.Next (s :: r.moments) := by
  induction h with
  | done | stopped => exact List.isChain_singleton _
  | undestroyed rest h => exact .cons_cons (hlaw.next_record hroom h) (List.isChain_singleton _)
  | unreported rest h =>
    exact .cons_cons (hlaw.next_record hroom h)
      (.cons_cons (hlaw.next_turn hroom h) (List.isChain_singleton _))
  | turn h _ ih =>
    exact .cons_cons (hlaw.next_record hroom h)
      (.cons_cons (hlaw.next_turn hroom h) (ih (hlaw.room_turn hroom h)))

/-- **A run leaves at most one record too many**, and none of an earlier turn. -/
theorem Lawful.atMostOne {base : List ι} (hroom : Room cs.length s) (hsettled : V.Settled base s)
    (hready : V.Ready item eligible s cs) : V.AtMostOneDangling base (r.last s) := by
  induction h with
  | done | stopped => exact hsettled.atMostOne
  | undestroyed rest h => exact hlaw.atMostOne_record hroom hsettled h
  | unreported rest h => exact (hlaw.settled_turn hroom hsettled hready h).atMostOne
  | turn h _ ih =>
    rw [last_complete]
    refine ih (hlaw.room_turn hroom h) (hlaw.settled_turn hroom hsettled hready h)
      (hlaw.ready_destroy ?_)
    exact hlaw.ready_record hroom (fun c hc => hready c (List.mem_cons_of_mem _ hc)) h

theorem Lawful.gone {i : ι} (hroom : Room cs.length s) (hgone : V.Gone s i) :
    V.Gone (r.last s) i := by
  induction h with
  | done | stopped => exact hgone
  | undestroyed rest h => exact hlaw.gone_record hroom hgone h
  | unreported rest h => exact hlaw.gone_destroy (hlaw.gone_record hroom hgone h)
  | turn h _ ih =>
    rw [last_complete]
    exact ih (hlaw.room_turn hroom h) (hlaw.gone_destroy (hlaw.gone_record hroom hgone h))

/-- **A run that returns has destroyed the data of every item.** -/
theorem Lawful.gone_of_ok (hroom : Room cs.length s) (hready : V.Ready item eligible s cs)
    (hok : r.ok = true) : ∀ c ∈ cs, V.Gone (r.last s) (item c) := by
  induction h with
  | done => exact nofun
  | stopped | undestroyed | unreported => cases hok
  | turn h hr ih =>
    rw [last_complete]
    refine List.forall_mem_cons.2 ⟨?_, ?_⟩
    · exact hlaw.gone hr (hlaw.room_turn hroom h) (hlaw.gone_turn hroom hready h)
    · refine ih (hlaw.room_turn hroom h) (hlaw.ready_destroy ?_) hok
      exact hlaw.ready_record hroom (fun c hc => hready c (List.mem_cons_of_mem _ hc)) h

end Run

/-! ## Sequences of runs -/

theorem isChain_append_history {R : σ → σ → Prop} {ms hs : List σ} (hms : List.IsChain R (s :: ms))
    (hhs : List.IsChain R (ms.getLastD s :: hs)) : List.IsChain R (s :: (ms ++ hs)) := by
  induction ms generalizing s with
  | nil => exact hhs
  | cons m ms ih =>
    rw [List.isChain_cons_cons] at hms
    rw [List.getLastD_cons] at hhs
    exact .cons_cons hms.1 (ih hms.2 hhs)

/-- What is proved of a single run. -/
structure RunOk (V : View σ ρ ι) (run : σ → α → Report σ) (listed : σ → α → List ι)
    (verifies : σ → Prop) (s : σ) (a : α) : Prop where
  next : List.IsChain V.Next (s :: (run s a).moments)
  failed : V.AtMostOneDangling ((V.rows s).map V.id) ((run s a).last s)
  gone : (run s a).ok = true → ∀ i ∈ listed s a, V.Gone ((run s a).last s) i
  verifies : verifies ((run s a).last s)

/-- At the start of a run no record is new. -/
theorem settled_self (s : σ) : V.Settled ((V.rows s).map V.id) s := fun _ he hnew =>
  absurd (List.mem_map_of_mem he) hnew

variable {run : σ → α → Report σ} {listed : σ → α → List ι} {verifies : σ → Prop}

/-- **One run**, from what its calls do to the rows and to what the rows are to keep. -/
theorem Lawful.runOk {item : κ → ι} {eligible : ρ → Prop} {Room : Nat → σ → Prop}
    {record : σ → κ → Option σ} {destroy : σ → κ → σ}
    (hlaw : V.Lawful item eligible Room record destroy) {calls : κ → Outcome × Outcome}
    {lists : Bool} {a : α} {I : Nat → σ → Prop} {P : κ → Prop}
    (hrun : run s a = listAndDestroy record destroy calls lists s cs)
    (hlisted : listed s a = cs.map item) (hready : V.Ready item eligible s cs)
    (hroom : Room cs.length s) (hless : ∀ n s, I (n + 1) s → I n s)
    (hrecord : ∀ n s c s', P c → I (n + 1) s → record s c = some s' → I n s')
    (hdestroy : ∀ n s c, I n s → I n (destroy s c)) (hcs : ∀ c ∈ cs, P c) (hs : I cs.length s)
    (hverifies : ∀ s, I 0 s → verifies s) : V.RunOk run listed verifies s a := by
  have h := destroys_listAndDestroy record destroy calls lists s cs
  rw [← hrun] at h
  refine ⟨hlaw.isChain h hroom, hlaw.atMostOne h hroom (settled_self s) hready,
    fun hok i hi => ?_, hverifies _ ?_⟩
  · rw [hlisted] at hi
    obtain ⟨c, hc, rfl⟩ := List.mem_map.1 hi
    exact hlaw.gone_of_ok h hroom hready hok c hc
  · exact h.invariant hless hrecord hdestroy hcs hs _ List.getLastD_mem_cons

/-- **Runs are accounted for** if each one is, from every store that meets the condition. -/
theorem accounted_of_runOk (allowed : σ → α → Prop)
    (hrun : ∀ s a, verifies s → allowed s a → V.RunOk run listed verifies s a) {as : List α}
    (hs : verifies s) (has : Run.AllAlong (fun s a => (run s a).last s) allowed s as) :
    V.Accounted run listed verifies s as := by
  suffices h : List.IsChain V.Next (s :: history run s as)
      ∧ Run.AllAlong (fun s a => (run s a).last s) (fun s a => (run s a).ok = false →
        V.AtMostOneDangling ((V.rows s).map V.id) ((run s a).last s)) s as
      ∧ Run.AllAlong (fun s a => (run s a).last s) (fun s a => (run s a).ok = true →
        (∀ i ∈ listed s a, ∀ r ∈ V.rows ((run s a).last s), V.id r = i → V.cleared r)
          ∧ verifies ((run s a).last s)) s as by
    obtain ⟨hnext, hfailed, hfinished⟩ := h
    exact ⟨(List.isChain_iff_pairwise.1 hnext).imp Next.recorded, hfailed, hfinished⟩
  induction as generalizing s with
  | nil => exact ⟨List.isChain_singleton s, trivial, trivial⟩
  | cons a as ih =>
    have hone := hrun s a hs has.1
    obtain ⟨hnext, hfailed, hfinished⟩ := ih hone.verifies has.2
    refine ⟨isChain_append_history hone.next hnext, ⟨fun _ => hone.failed, hfailed⟩,
      ⟨fun hok => ⟨fun i hi r hr hid => ?_, hone.verifies⟩, hfinished⟩⟩
    exact (hone.gone hok i hi).cleared hr hid

theorem Accounted.mono {verifies' : σ → Prop} {as : List α}
    (h : V.Accounted run listed verifies s as) (himp : ∀ s, verifies s → verifies' s) :
    V.Accounted run listed verifies' s as :=
  ⟨h.recorded, h.failed, h.finished.imp fun _ _ hok h => ⟨(hok h).1, himp _ (hok h).2⟩⟩

end View

end Ledger
