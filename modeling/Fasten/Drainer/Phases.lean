import Fasten.Lib.Trace

set_option autoImplicit false

/-! # The states of the drainer

The state machine of the drainer's specification, as what it says of the order of events. Its input is
what becomes of the inserts: a failure that is to be retried, a success, a dead letter. Its output are
the three sys events that tell of it. `Phase.next` says which of them may come next, and after the
first failure of a burst `audit_drain_failed` is the only one. -/

namespace Fasten.Core

/-- What the specification speaks of. -/
inductive Mark where
  /-- An insert of the row has failed and is to be retried; `failures` of them have by now. -/
  | retry (call failures : Nat)
  | success
  | deadLetter
  /-- the sys events -/
  | failed
  | degraded (failures : Nat)
  | recovered
  deriving DecidableEq

/-- The sys event that may come next. -/
inductive Owed where
  | nothing
  /-- `audit_drain_failed`, and nothing before it -/
  | failed (call failures : Nat)
  | degraded (call failures : Nat)
  | recovered
  deriving DecidableEq

structure Phase where
  /-- A retry is pending since the last success or dead letter. -/
  retrying : Bool
  /-- `audit_drain_degraded` was sent since the last success. -/
  degraded : Bool
  owed : Owed
  deriving DecidableEq

variable {marks : List Mark} {m : Mark}

namespace Phase

def healthy : Phase := ⟨false, false, .nothing⟩

variable (p : Phase)

/-- The next phase, if the mark may come. -/
def next (m : Mark) : Option Phase :=
  match p.owed, m with
  | .failed i n, .failed => some { p with owed := .degraded i n }
  | .failed _ _, _ => none
  | _, .failed => none
  | .degraded _ n, .degraded n' =>
    if n' = n ∧ 5 ≤ n ∧ p.degraded = false then
      some { p with degraded := true, owed := .nothing }
    else none
  | _, .degraded _ => none
  | .recovered, .recovered => some { p with owed := .nothing }
  | _, .recovered => none
  | _, .retry i n =>
    some { p with retrying := true, owed := if p.retrying then .degraded i n else .failed i n }
  | _, .success => some ⟨false, false, if p.retrying then .recovered else .nothing⟩
  | _, .deadLetter => some { p with retrying := false, owed := .nothing }

def step (m : Mark) : Option (Phase × List Mark) := (p.next m).map (·, [m])

/-- The machine has read these marks and is in this phase. -/
def After (marks : List Mark) : Prop := Trace.Reaches step (.start healthy) ⟨p, marks⟩

variable {p}

/-- What a mark may come with, and what it does. -/
inductive Next (p : Phase) : Mark → Phase → Prop where
  | failed {i n : Nat} (howed : p.owed = .failed i n) :
      Next p .failed { p with owed := .degraded i n }
  | degraded {i n : Nat} (howed : p.owed = .degraded i n) (hfive : 5 ≤ n)
      (hdegraded : p.degraded = false) :
      Next p (.degraded n) { p with degraded := true, owed := .nothing }
  | recovered (howed : p.owed = .recovered) : Next p .recovered { p with owed := .nothing }
  | retry {i n : Nat} (howed : ∀ j k, p.owed ≠ .failed j k) :
      Next p (.retry i n)
        { p with retrying := true, owed := if p.retrying then .degraded i n else .failed i n }
  | success (howed : ∀ j k, p.owed ≠ .failed j k) :
      Next p .success ⟨false, false, if p.retrying then .recovered else .nothing⟩
  | deadLetter (howed : ∀ j k, p.owed ≠ .failed j k) :
      Next p .deadLetter { p with retrying := false, owed := .nothing }

theorem next_cases {p' : Phase} (h : p.next m = some p') : Next p m p' := by
  unfold next at h
  split at h
  · cases h
    exact .failed ‹_›
  · cases h
  · cases h
  · rename_i i n n' howed
    split_ifs at h with hcond
    obtain ⟨rfl, hfive, hdegraded⟩ := hcond
    cases h
    exact .degraded howed hfive hdegraded
  · cases h
  · cases h
    exact .recovered ‹_›
  · cases h
  · cases h
    exact .retry ‹∀ _ _, p.owed = _ → False›
  · cases h
    exact .success ‹∀ _ _, p.owed = _ → False›
  · cases h
    exact .deadLetter ‹∀ _ _, p.owed = _ → False›

theorem Next.next_eq {p' : Phase} (h : Next p m p') : p.next m = some p' := by
  cases h with
  | failed howed => simp [next, howed]
  | degraded howed hfive hdegraded => simp [next, howed, hfive, hdegraded]
  | recovered howed => simp [next, howed]
  | retry howed | success howed | deadLetter howed =>
    unfold next
    cases hp : p.owed with
    | failed j k => exact absurd hp (howed j k)
    | _ => rfl

theorem after_nil : healthy.After [] := .refl

theorem After.next {p' : Phase} (h : p.After marks) (hnext : p.Next m p') :
    p'.After (marks ++ [m]) :=
  h.tail ⟨m, Trace.World.next_eq_some.2 ⟨[m], by rw [step, hnext.next_eq]; rfl, rfl⟩⟩

end Phase

/-! ## What the phase says of the marks -/

/-- Whether a retry is pending since the last success or dead letter. -/
def pendingRetry (marks : List Mark) : Bool :=
  marks.foldl (fun pending m =>
    match m with
    | .retry _ _ => true
    | .success | .deadLetter => false
    | _ => pending) false

@[simp] theorem pendingRetry_snoc (marks : List Mark) (m : Mark) :
    pendingRetry (marks ++ [m]) = match m with
      | .retry _ _ => true
      | .success | .deadLetter => false
      | _ => pendingRetry marks := by
  rw [pendingRetry, List.foldl_append]
  cases m <;> rfl

/-- `audit_drain_failed` was sent, and no success or dead letter came after it. -/
def ToldOf (marks : List Mark) : Prop :=
  ∃ before after, marks = before ++ .failed :: after ∧ .success ∉ after ∧ .deadLetter ∉ after

theorem ToldOf.snoc (h : ToldOf marks) (hsuccess : m ≠ .success) (hdead : m ≠ .deadLetter) :
    ToldOf (marks ++ [m]) := by
  obtain ⟨before, after, rfl, hs, hd⟩ := h
  refine ⟨before, after ++ [m], by simp, ?_, ?_⟩
  · simp [hs, hsuccess.symm]
  · simp [hd, hdead.symm]

theorem toldOf_failed (marks : List Mark) : ToldOf (marks ++ [.failed]) :=
  ⟨marks, [], rfl, List.not_mem_nil, List.not_mem_nil⟩

/-- Since each `audit_drain_degraded` an insert has succeeded. -/
def DegradedOver (marks : List Mark) : Prop :=
  ∀ before n after, marks = before ++ .degraded n :: after → .success ∈ after

theorem DegradedOver.snoc (h : DegradedOver marks ∧ (∀ n, m ≠ .degraded n) ∨ m = .success) :
    DegradedOver (marks ++ [m]) := by
  intro before n after heq
  rcases List.eq_nil_or_concat after with rfl | ⟨after', last, rfl⟩
  · obtain ⟨rfl, hlast⟩ := List.append_inj' heq rfl
    cases hlast
    rcases h with ⟨-, hm⟩ | hm
    · exact absurd rfl (hm n)
    · cases hm
  · rw [List.concat_eq_append, ← List.cons_append, ← List.append_assoc] at heq
    obtain ⟨hmarks, hlast⟩ := List.append_inj' heq rfl
    cases hlast
    rw [List.concat_eq_append, List.mem_append, List.mem_singleton]
    rcases h with ⟨hover, -⟩ | rfl
    · exact Or.inl (hover before n after' hmarks)
    · exact Or.inr rfl

/-- The last mark is the first failure of a burst. -/
def FirstFailure (marks : List Mark) (i n : Nat) : Prop :=
  ∃ before, marks = before ++ [.retry i n] ∧ pendingRetry before = false

/-- The last failure that is to be retried; `audit_drain_failed` may have come after it. -/
def LastFailure (marks : List Mark) (i n : Nat) : Prop :=
  ∃ before, marks = before ++ [.retry i n] ∨ marks = before ++ [.retry i n] ++ [.failed]

/-- What the specification says of the next mark. -/
structure Needs (before : List Mark) (m : Mark) : Prop where
  /-- `audit_drain_failed` comes exactly after the first failure of a burst. -/
  failed_iff : m = .failed ↔ ∃ i n, FirstFailure before i n
  degraded : ∀ n, m = .degraded n → 5 ≤ n ∧ (∃ i, LastFailure before i n) ∧ DegradedOver before
  recovered : m = .recovered → ∃ earlier, before = earlier ++ [.success] ∧ ToldOf earlier

/-- What the phase says of the marks that led to it. -/
structure Reads (marks : List Mark) (p : Phase) : Prop where
  retrying : p.retrying = pendingRetry marks
  failed : ∀ i n, p.owed = .failed i n ↔ FirstFailure marks i n
  degraded : ∀ i n, p.owed = .degraded i n → LastFailure marks i n
  recovered : p.owed = .recovered → ∃ earlier, marks = earlier ++ [.success] ∧ ToldOf earlier
  ended : p.degraded = false → DegradedOver marks
  told : p.retrying = true → (∀ i n, p.owed ≠ .failed i n) → ToldOf marks

theorem not_firstFailure_snoc (hm : ∀ i n, m ≠ .retry i n) (i n : Nat) :
    ¬FirstFailure (marks ++ [m]) i n := by
  rintro ⟨before, heq, -⟩
  obtain ⟨-, hlast⟩ := List.append_inj' heq rfl
  exact hm i n (List.singleton_inj.1 hlast)

theorem firstFailure_snoc_iff {i n j k : Nat} :
    FirstFailure (marks ++ [.retry i n]) j k
      ↔ i = j ∧ n = k ∧ pendingRetry marks = false := by
  constructor
  · rintro ⟨before, heq, hpending⟩
    obtain ⟨rfl, hlast⟩ := List.append_inj' heq rfl
    cases hlast
    exact ⟨rfl, rfl, hpending⟩
  · rintro ⟨rfl, rfl, hpending⟩
    exact ⟨marks, rfl, hpending⟩

theorem reads_nil : Reads [] Phase.healthy := by
  refine ⟨rfl, fun i n => ⟨nofun, ?_⟩, nofun,
    nofun, fun _ before n after h => ?_, nofun⟩
  · rintro ⟨before, h, -⟩
    cases before <;> cases h
  · cases before <;> cases h

namespace Reads

variable {marks : List Mark} {p p' : Phase}

/-- The machine lets a mark come only if the specification does. -/
theorem needs (h : Reads marks p) (hnext : p.Next m p') : Needs marks m := by
  -- after anything but the first failure of a burst
  have hlater : (∀ i n, p.owed ≠ .failed i n) → m ≠ .failed →
      (m = .failed ↔ ∃ i n, FirstFailure marks i n) := by
    intro howed hm
    refine ⟨fun h => absurd h hm, ?_⟩
    rintro ⟨i, n, hfirst⟩
    exact absurd ((h.failed i n).2 hfirst) (howed i n)
  cases hnext with
  | failed howed =>
    exact ⟨⟨fun _ => ⟨_, _, (h.failed _ _).1 howed⟩, fun _ => rfl⟩, nofun,
      nofun⟩
  | degraded howed hfive hdegraded =>
    refine ⟨hlater (by simp [howed]) (by simp), ?_, nofun⟩
    rintro n ⟨⟩
    exact ⟨hfive, ⟨_, h.degraded _ _ howed⟩, h.ended hdegraded⟩
  | recovered howed =>
    exact ⟨hlater (by simp [howed]) (by simp), nofun,
      fun _ => h.recovered howed⟩
  | retry howed | success howed | deadLetter howed =>
    exact ⟨hlater howed (by simp), nofun, nofun⟩

theorem next (h : Reads marks p) (hnext : p.Next m p') : Reads (marks ++ [m]) p' := by
  have hfirst : (∀ i n, m ≠ .retry i n) → (∀ i n, p'.owed ≠ .failed i n) →
      ∀ i n, p'.owed = .failed i n ↔ FirstFailure (marks ++ [m]) i n :=
    fun hm howed i n => ⟨fun h => absurd h (howed i n),
      fun h => absurd h (not_firstFailure_snoc hm i n)⟩
  have hover : (∀ n, m ≠ .degraded n) → p.degraded = false → DegradedOver (marks ++ [m]) :=
    fun hm hdegraded => DegradedOver.snoc (Or.inl ⟨h.ended hdegraded, hm⟩)
  cases hnext with
  | failed howed =>
    rename_i i n
    refine ⟨by rw [pendingRetry_snoc]; exact h.retrying, hfirst (by simp) (by simp), ?_, by simp,
      hover (by simp), fun _ _ => toldOf_failed marks⟩
    rintro i n ⟨⟩
    obtain ⟨before, rfl, -⟩ := (h.failed _ _).1 howed
    exact ⟨before, Or.inr rfl⟩
  | degraded howed hfive hdegraded =>
    refine ⟨by rw [pendingRetry_snoc]; exact h.retrying, hfirst (by simp) (by simp), by simp,
      by simp, by simp, fun hretrying _ => ?_⟩
    exact (h.told hretrying (by simp [howed])).snoc (by simp) (by simp)
  | recovered howed =>
    refine ⟨by rw [pendingRetry_snoc]; exact h.retrying, hfirst (by simp) (by simp), by simp,
      by simp, hover (by simp), fun hretrying _ => ?_⟩
    exact (h.told hretrying (by simp [howed])).snoc (by simp) (by simp)
  | retry howed =>
    rename_i i n
    refine ⟨by rw [pendingRetry_snoc], fun j k => ?_, fun j k hdegraded => ?_, fun hrecovered => ?_,
      hover (by simp), fun _ hnot => ?_⟩
    · rw [firstFailure_snoc_iff, ← h.retrying]
      cases p.retrying <;> simp
    · dsimp only at hdegraded
      split_ifs at hdegraded
      cases hdegraded
      exact ⟨marks, Or.inl rfl⟩
    · dsimp only at hrecovered
      split_ifs at hrecovered
    · -- a later failure of a burst that has been told of
      dsimp only at hnot
      split_ifs at hnot with hretrying
      · exact (h.told hretrying howed).snoc (by simp) (by simp)
      · exact absurd rfl (hnot i n)
  | success howed =>
    refine ⟨by rw [pendingRetry_snoc], hfirst (by simp) ?_, ?_, fun hrecovered => ?_,
      fun _ => DegradedOver.snoc (Or.inr rfl), nofun⟩
    · intro i n
      dsimp only
      split_ifs <;> simp
    · intro i n
      dsimp only
      split_ifs <;> simp
    · dsimp only at hrecovered
      split_ifs at hrecovered with hretrying
      exact ⟨marks, rfl, h.told hretrying howed⟩
  | deadLetter howed =>
    exact ⟨by rw [pendingRetry_snoc], hfirst (by simp) (by simp), by simp, by simp,
      hover (by simp), nofun⟩

end Reads

/-- **What the machine accepts is as specified**: the phase says what it should of the marks, and each
    mark has what it needs. -/
theorem Phase.After.reads {p : Phase} (h : p.After marks) :
    Reads marks p ∧ Trace.Explained Needs marks := by
  refine Trace.Reaches.invariant (I := fun w : Trace.World Phase Mark =>
    Reads w.history w.state ∧ Trace.Explained Needs w.history) h
    ⟨reads_nil, Trace.explained_nil Needs⟩ fun w m p' ms hw hs => ?_
  obtain ⟨p₁, hnext, heq⟩ := Option.map_eq_some_iff.1 hs
  cases heq
  have hcases := Phase.next_cases hnext
  exact ⟨hw.1.next hcases, hw.2.snoc (hw.1.needs hcases)⟩

end Fasten.Core
