import Fasten.Codes.Serial

set_option autoImplicit false

/-! # Deadlocks of `load` and `reload`

Rust and Python take their locks in one order. In Go `Load` has `yamlMu` when it locks `regMu`, and
`Reload` has `regMu` when it locks `yamlMu`. -/

namespace Fasten.Codes

open Locks

/-! ## The order of the locks -/

def loadRank : Mutex → Nat
  | .yaml => 0
  | .reg => 1
  | .paths => 2

def reloadRank : Mutex → Nat
  | .reg => 0
  | .yaml => 1
  | .paths => 2

theorem loadRank_lt : ∀ m, loadRank m < 3 := by decide

theorem reloadRank_lt : ∀ m, reloadRank m < 3 := by decide

instance (rank : Mutex → Nat) : (todo : Program) → Decidable (RankedHead rank todo)
  | [] => .isTrue trivial
  | .lock m :: rest => inferInstanceAs (Decidable (∀ m',
      holds m' (.lock m :: rest) = true ∨ Locks.reads m' (.lock m :: rest) = true →
        rank m' < rank m))
  | .rlock m :: rest => inferInstanceAs (Decidable (∀ m',
      holds m' (.rlock m :: rest) = true ∨ Locks.reads m' (.rlock m :: rest) = true →
        rank m' < rank m))
  | .await m :: rest => inferInstanceAs (Decidable (∀ m',
      holds m' (.await m :: rest) = true ∧ m' ≠ m ∨ Locks.reads m' (.await m :: rest) = true →
        rank m' < rank m))
  | .unlock _ :: _ => .isTrue trivial
  | .runlock _ :: _ => .isTrue trivial
  | .act _ :: _ => .isTrue trivial

section Ranked

variable {sdk : Sdk} {kind : Kind} {todo : Program}

theorem rankedHead_cleanup (rank : Mutex → Nat) (h : todo <:+ cleanup sdk) :
    RankedHead rank todo := by
  rw [← List.mem_tails] at h
  cases sdk <;> simp [cleanup] at h <;> rcases h with rfl | rfl | rfl <;> trivial

/-- The yaml lock comes before the registry's, but for `Reload` in Go. -/
theorem rankedHead_loadRank (h : todo <:+ program sdk kind) (hkind : sdk = .go → kind ≠ .reload) :
    RankedHead loadRank todo := by
  rw [← List.mem_tails] at h
  revert todo
  cases sdk <;> cases kind <;> first | exact absurd rfl (hkind rfl) | decide

/-- In Go's `Reload` the registry's lock comes first. -/
theorem rankedHead_reloadRank (h : todo <:+ program .go kind) (hkind : kind ≠ .load) :
    RankedHead reloadRank todo := by
  rw [← List.mem_tails] at h
  revert todo
  cases kind <;> first | exact absurd rfl hkind | decide

end Ranked

section Calls

variable {sdk : Sdk} {files : Files sdk} {w : World}

theorem SystemOk.rankedHead (h : SystemOk sdk files w) (rank : Mutex → Nat)
    (hranked : ∀ t ∈ w.state.tasks, t.todo <:+ program sdk t.request.kind → RankedHead rank t.todo)
    (i : Nat) (todo : Program) (hi : w.state.todos[i]? = some todo) : RankedHead rank todo := by
  obtain ⟨t, ht, rfl⟩ := Option.map_eq_some_iff.1 ((List.getElem?_map ..).symm.trans hi)
  rcases (h.tasks i t ht).place with ⟨-, hplace⟩ | ⟨-, hplace⟩
  · exact hranked t (List.mem_of_getElem? ht) hplace
  · exact rankedHead_cleanup rank hplace

/-- A call whose next step does not have to wait for a lock moves. -/
theorem System.isSome_move {s : System} {i : Nat} {ins : Instr Mutex Act} {rest : Program}
    (hi : s.todos[i]? = some (ins :: rest)) (hexec : (s.locks.exec i ins).isSome = true) :
    (s.step sdk files (.move i)).isSome = true := by
  obtain ⟨t, ht, htodo⟩ := Option.map_eq_some_iff.1 ((List.getElem?_map ..).symm.trans hi)
  rw [System.step, ht, Option.bind_some, System.move, htodo]
  cases ins with
  | act a => rfl
  | lock | await => rwa [Option.isSome_map]
  | unlock m => rfl
  | rlock m => rwa [Option.isSome_map]
  | runlock m => rfl

theorem SystemOk.of_reaches {c : Catalog}
    (h : Trace.Reaches (System.step sdk files) (.start (.new c)) w) : SystemOk sdk files w :=
  h.invariant (systemOk_new c) fun _ _ _ _ hok hstep => hok.step (system_step_cases hstep)

end Calls

/-- **Rust and Python do not deadlock**: every call takes its locks in the same order, so while a call
    is not at its end, some call moves. -/
theorem ordered_not_deadlocked {sdk : Sdk} (hsdk : sdk ≠ .go) (files : Files sdk) (c : Catalog)
    {w : World} (h : Trace.Reaches (System.step sdk files) (.start (.new c)) w)
    (hopen : ∃ t ∈ w.state.tasks, t.todo ≠ []) :
    ∃ i, (w.state.step sdk files (.move i)).isSome = true := by
  have hok := SystemOk.of_reaches h
  have hranked := hok.rankedHead loadRank fun t _ hplace =>
    rankedHead_loadRank hplace fun hgo => absurd hgo hsdk
  obtain ⟨t, ht, htodo⟩ := hopen
  obtain ⟨i, hi⟩ := List.mem_iff_getElem?.1 ht
  obtain ⟨ins, rest, hcons⟩ := List.exists_cons_of_ne_nil htodo
  have htodos : w.state.todos[i]? = some (ins :: rest) := by
    rw [System.todos, List.getElem?_map, hi, Option.map_some, hcons]
  obtain ⟨j, ins', rest', hj, hexec⟩ :=
    hok.owned.exists_exec loadRank_lt hranked htodos
  exact ⟨j, System.isSome_move hj hexec⟩

theorem ordered_not_deadlocked_loads : ∃ w,
    Trace.Reaches (System.step .rust (twoFiles .rust)) (.start (.new .empty)) w
      ∧ BlockedOn w.state.locks w.state.todos 1 .reg ∧ BlockedOn w.state.locks w.state.todos 2 .yaml
      ∧ ∃ i, (w.state.step .rust (twoFiles .rust) (.move i)).isSome = true := by
  -- one `load` waits for the other, which waits for a lookup
  obtain ⟨w, hreach, hw⟩ := Trace.exists_reaches_of_run (System.step .rust (twoFiles .rust))
    (.start (.new .empty))
    [.call (.lookup "FLEET_UP"), .call (.load "a.yaml"), .call (.load "b.yaml"), .move 0, .move 1,
      .move 1, .move 1, .move 2]
    (fun w => decide (w.state.todos[1]? = some ((program .rust .load).drop 3)
      ∧ w.state.todos[2]? = some ((program .rust .load).drop 1)
      ∧ w.state.locks.readers .reg = [0] ∧ w.state.locks.writer .yaml = some 1
      ∧ ∃ t ∈ w.state.tasks, t.todo ≠ []))
    (by decide +kernel)
  obtain ⟨hfirst, hsecond, hreaders, hwriter, hopen⟩ := of_decide_eq_true hw
  refine ⟨w, hreach, ⟨_, _, hfirst, ?_, rfl⟩, ⟨_, _, hsecond, ?_, rfl⟩,
    ordered_not_deadlocked (by decide) (twoFiles .rust) .empty hreach hopen⟩
  · simp [State.exec, hreaders]
  · simp [State.exec, hwriter]

/-! ## Go -/

/-- Whether a call of this kind is under way. -/
def System.active (s : System) (kind : Kind) : Bool :=
  s.tasks.any fun t => decide (t.request.kind = kind ∧ t.todo ≠ [])

/-- A `load` is called while no `reload` is under way, and the other way round. -/
def apart (s : System) : Label → Bool
  | .call (.load _) => !s.active .reload
  | .call .reload => !s.active .load
  | _ => true

theorem System.active_eq_false {s : System} {kind : Kind} :
    s.active kind = false ↔ ∀ t ∈ s.tasks, t.request.kind = kind → t.todo = [] := by
  simp [System.active]

/-- A call that moves on was under way before. -/
theorem System.active_set {s : System} {kind : Kind} {i : Nat} {t t' : Task}
    (hi : s.tasks[i]? = some t) (htodo : t.todo ≠ []) (h : s.active kind = false) {s' : System}
    (hs' : s'.tasks = s.tasks.set i t') (hrequest : t'.request = t.request) :
    s'.active kind = false := by
  rw [System.active_eq_false] at h ⊢
  intro t₁ ht₁ hkind
  rw [hs'] at ht₁
  rcases List.mem_or_eq_of_mem_set ht₁ with ht₁ | rfl
  · exact h t₁ ht₁ hkind
  · rw [hrequest] at hkind
    exact absurd (h t (List.mem_of_getElem? hi) hkind) htodo

theorem System.active_call {s : System} {kind : Kind} {sdk : Sdk} {r : Request}
    (hr : r.kind ≠ kind) (h : s.active kind = false) :
    System.active { s with tasks := s.tasks ++ [.start sdk r] } kind = false := by
  rw [System.active_eq_false] at h ⊢
  intro t ht hkind
  rcases List.mem_append.1 ht with ht | ht
  · exact h t ht hkind
  · cases List.mem_singleton.1 ht
    exact absurd hkind hr

/-- Calls that are kept apart: at no time are a `load` and a `reload` under way. -/
theorem apart_step {sdk : Sdk} {files : Files sdk} {w : World} {l : Label} {s' : System}
    {es : List Took} (hok : SystemOk sdk files w)
    (h : w.state.active .load = false ∨ w.state.active .reload = false)
    (hl : apart w.state l = true) (hstep : SystemStep sdk files w.state l s' es) :
    s'.active .load = false ∨ s'.active .reload = false := by
  cases hstep with
  | call r =>
    cases r with
    | load path =>
      have hidle : w.state.active .reload = false := by simpa [apart] using hl
      exact Or.inr (System.active_call (by simp [Request.kind]) hidle)
    | reload =>
      have hidle : w.state.active .load = false := by simpa [apart] using hl
      exact Or.inl (System.active_call (by simp [Request.kind]) hidle)
    | lookup code =>
      exact h.imp (System.active_call (by simp [Request.kind]))
        (System.active_call (by simp [Request.kind]))
  | locks hi htodo hins hexec =>
    exact h.imp (fun h => System.active_set hi (by simp [htodo]) h rfl rfl)
      fun h => System.active_set hi (by simp [htodo]) h rfl rfl
  | act hi htodo hact =>
    have hrequest := ((hok.tasks _ _ hi).act_step htodo hact).request
    exact h.imp (fun h => System.active_set hi (by simp [htodo]) h rfl hrequest)
      fun h => System.active_set hi (by simp [htodo]) h rfl hrequest

/-- **Go's `Load` and `Reload` do not deadlock** as long as no `Load` is called during a `Reload` and
    no `Reload` during a `Load`. -/
theorem go_not_deadlocked (files : Files .go) (c : Catalog) {w : World}
    (h : Trace.Reaches (Trace.restrict (System.step .go files) apart) (.start (.new c)) w) :
    ¬Deadlocked w.state.locks w.state.todos := by
  have hinv : SystemOk .go files w
      ∧ (w.state.active .load = false ∨ w.state.active .reload = false) := by
    refine h.invariant (I := fun w => SystemOk .go files w
      ∧ (w.state.active .load = false ∨ w.state.active .reload = false))
      ⟨systemOk_new c, Or.inl rfl⟩ ?_
    intro w l s' es ⟨hok, hidle⟩ hstep
    rw [Trace.restrict] at hstep
    split_ifs at hstep with hl
    have hcases := system_step_cases hstep
    exact ⟨hok.step hcases, apart_step hok hidle hl hcases⟩
  obtain ⟨hok, hidle⟩ := hinv
  rcases hidle with hidle | hidle
  · refine hok.owned.not_deadlocked reloadRank_lt
      (hok.rankedHead reloadRank fun t ht hplace => ?_)
    by_cases hkind : t.request.kind = .load
    · rw [System.active_eq_false.1 hidle t ht hkind]
      trivial
    · exact rankedHead_reloadRank hplace hkind
  · refine hok.owned.not_deadlocked loadRank_lt
      (hok.rankedHead loadRank fun t ht hplace => ?_)
    by_cases hkind : t.request.kind = .reload
    · rw [System.active_eq_false.1 hidle t ht hkind]
      trivial
    · exact rankedHead_loadRank hplace fun _ => hkind

theorem go_not_deadlocked_lookup : ∃ w, Trace.Reaches
      (Trace.restrict (System.step .go (twoFiles .go)) apart) (.start (.new .empty)) w
    ∧ BlockedOn w.state.locks w.state.todos 1 .reg ∧ ¬Deadlocked w.state.locks w.state.todos := by
  -- a `Load` waits for `regMu`, which a lookup has
  obtain ⟨w, hreach, hw⟩ := Trace.exists_reaches_of_run
    (Trace.restrict (System.step .go (twoFiles .go)) apart) (.start (.new .empty))
    [.call (.lookup "FLEET_UP"), .call (.load "a.yaml"), .move 0, .move 1, .move 1, .move 1]
    (fun w => decide (w.state.todos[1]? = some ([.await .reg, .act .commit, .act .push,
        .unlock .reg, .unlock .yaml] : Program) ∧ w.state.locks.readers .reg = [0]))
    (by decide +kernel)
  obtain ⟨htodo, hreaders⟩ := of_decide_eq_true hw
  refine ⟨w, hreach, ⟨_, _, htodo, ?_, rfl⟩, go_not_deadlocked (twoFiles .go) .empty hreach⟩
  simp [State.exec, hreaders]

/-- **`Load` and `Reload` deadlock**: the `Reload` has `regMu` and waits for `yamlMu`, the `Load` has
    `yamlMu` and waits for `regMu`. -/
theorem go_deadlocked : ∃ w, Trace.Reaches (System.step .go (twoFiles .go)) (.start (.new .empty)) w
    ∧ w.state.tasks.map Task.request = [.load "a.yaml", .reload, .load "b.yaml"]
    ∧ Deadlocked w.state.locks w.state.todos := by
  obtain ⟨w, hreach, hw⟩ := Trace.exists_reaches_of_run (System.step .go (twoFiles .go))
    (.start (.new .empty))
    ([.call (.load "a.yaml")] ++ List.replicate 8 (.move 0)
      ++ [.call .reload] ++ List.replicate 7 (.move 1)
      ++ [.call (.load "b.yaml")] ++ List.replicate 2 (.move 2))
    (fun w => decide (w.state.tasks.map Task.request = [.load "a.yaml", .reload, .load "b.yaml"]
      ∧ w.state.todos = [[],
        [.lock .yaml, .act .swap, .unlock .yaml, .unlock .reg],
        [.lock .reg, .await .reg, .act .commit, .act .push, .unlock .reg, .unlock .yaml]]
      ∧ w.state.locks.writer .reg = some 1 ∧ w.state.locks.writer .yaml = some 2))
    (by decide +kernel)
  obtain ⟨hrequests, htodos, hreg, hyaml⟩ := of_decide_eq_true hw
  have hreload : BlockedOn w.state.locks w.state.todos 1 .yaml := by
    refine ⟨_, _, by rw [htodos]; rfl, ?_, rfl⟩
    simp [State.exec, hyaml]
  have hload : BlockedOn w.state.locks w.state.todos 2 .reg := by
    refine ⟨_, _, by rw [htodos]; rfl, ?_, rfl⟩
    simp [State.exec, hreg]
  refine ⟨w, hreach, hrequests, ⟨1, _, _, by rw [htodos]; rfl⟩, fun i ins rest hi => ?_⟩
  have hlt := (List.getElem?_eq_some_iff.1 hi).1
  rw [htodos] at hlt
  obtain rfl | rfl | rfl : i = 0 ∨ i = 1 ∨ i = 2 := by
    simp only [List.length_cons, List.length_nil] at hlt
    omega
  · rw [htodos] at hi
    cases hi
  · exact ⟨.yaml, 2, .reg, hreload, by decide, Or.inl hyaml, hload⟩
  · exact ⟨.reg, 1, .yaml, hload, by decide, Or.inl hreg, hreload⟩

end Fasten.Codes
