import Fasten.Codes.Concurrent
import Fasten.Codes.Unchanged

set_option autoImplicit false

/-! # `load` and `reload` in some serial order

If no path is added between a `reload`'s look at the path list and its swap, concurrent calls do what
the same calls do one after the other, in the order in which they take effect. -/

namespace Fasten.Codes

open Locks

/-! ## Steps -/

inductive SystemStep (sdk : Sdk) (files : Files sdk) (s : System) :
    Label → System → List Took → Prop where
  | call (r : Request) :
      SystemStep sdk files s (.call r) { s with tasks := s.tasks ++ [.start sdk r] } []
  | locks {i : Nat} {t : Task} {ins : Instr Mutex Act} {rest : Program} {locks : Locks.State Mutex}
      (hi : s.tasks[i]? = some t) (htodo : t.todo = ins :: rest) (hins : ∀ a, ins ≠ .act a)
      (hexec : s.locks.exec i ins = some locks) :
      SystemStep sdk files s (.move i)
        { s with locks := locks, tasks := s.tasks.set i { t with todo := rest } } []
  | act {i : Nat} {t t' : Task} {a : Act} {rest : Program} {c' : Catalog} {took : Bool}
      (hi : s.tasks[i]? = some t) (htodo : t.todo = .act a :: rest)
      (hact : act sdk files s.catalog t rest a = (c', t', took)) :
      SystemStep sdk files s (.move i) { s with catalog := c', tasks := s.tasks.set i t' }
        (if took then [⟨i, t.request⟩] else [])

theorem System.getElem?_todos {s : System} {i : Nat} {t : Task} (hi : s.tasks[i]? = some t) :
    s.todos[i]? = some t.todo := by
  rw [System.todos, List.getElem?_map, hi, Option.map_some]

variable {es : List Took} {r : Request}

theorem system_step_cases {sdk : Sdk} {files : Files sdk} {s s' : System} {l : Label}
    (h : s.step sdk files l = some (s', es)) : SystemStep sdk files s l s' es := by
  cases l with
  | call r =>
    cases h
    exact .call r
  | move i =>
    obtain ⟨t, hi, hmove⟩ := Option.bind_eq_some_iff.1 h
    unfold System.move at hmove
    split at hmove
    · cases hmove
    · rename_i a rest htodo
      cases hmove
      exact .act hi htodo rfl
    · rename_i ins rest hins htodo
      obtain ⟨locks, hexec, heq⟩ := Option.map_eq_some_iff.1 hmove
      cases heq
      exact .locks hi htodo hins hexec

/-! ## One call -/

theorem cleanup_act {sdk : Sdk} {todo : Program} (h : todo <:+ cleanup sdk) (a : Act) :
    .act a ∉ todo := by
  intro hmem
  have hact := h.subset hmem
  cases sdk <;> simp [cleanup] at hact

theorem mem_act_cons_iff {ins : Instr Mutex Act} (hins : ∀ a, ins ≠ .act a) {rest : Program} {a : Act} :
    .act a ∈ ins :: rest ↔ .act a ∈ rest := by
  rw [List.mem_cons, or_iff_right (hins a).symm]

theorem wellLocked_cleanup {sdk : Sdk} {todo : Program} (h : todo <:+ cleanup sdk) :
    wellLocked todo = true := by
  rw [← List.mem_tails] at h
  revert todo
  cases sdk <;> decide

/-- What holds of a call at any time. -/
structure TaskOk (sdk : Sdk) (files : Files sdk) (c : Catalog) (t : Task) : Prop where
  place : t.error = none ∧ t.todo <:+ program sdk t.request.kind
    ∨ t.error ≠ none ∧ t.todo <:+ cleanup sdk
  built : .act .build ∉ t.todo → .act .push ∈ t.todo ∨ .act .swap ∈ t.todo →
    build sdk files t.reads = .ok t.fresh
  /-- A `reload` that goes on has paths to read. -/
  nonempty : .act .swap ∈ t.todo → .act .check ∉ t.todo → .act .isEmpty ∉ t.todo →
    if .act .snapshot ∈ t.todo then c.paths ≠ [] else t.paths ≠ []

/-- Whether the call has taken effect. -/
def Task.taken (t : Task) : Bool :=
  match t.request with
  | .load _ => decide (.act .push ∉ t.todo) && t.error.isNone
  | .reload =>
    (decide (.act .snapshot ∉ t.todo) && decide (t.paths = []))
      || (decide (.act .swap ∉ t.todo) && t.error.isNone)
  | .lookup _ => decide (.act .lookup ∉ t.todo)

theorem Request.eq_load (h : r.kind = .load) : ∃ path, r = .load path := by
  cases r with
  | load path => exact ⟨path, rfl⟩
  | reload | lookup => cases h

theorem Request.eq_reload (h : r.kind = .reload) : r = .reload := by
  cases r with
  | load path => cases h
  | reload => rfl
  | lookup code => cases h

theorem Request.eq_lookup (h : r.kind = .lookup) : ∃ code, r = .lookup code := by
  cases r with
  | load | reload => cases h
  | lookup code => exact ⟨code, rfl⟩

section Act

variable {sdk : Sdk} {files : Files sdk} {c c' : Catalog} {t t' : Task} {a : Act} {rest : Program}
  {took : Bool}

theorem TaskOk.program_of_act (h : TaskOk sdk files c t) (htodo : t.todo = .act a :: rest) :
    t.error = none ∧ (.act a :: rest) <:+ program sdk t.request.kind
      ∧ rest <:+ program sdk t.request.kind := by
  rcases h.place with ⟨herror, hplace⟩ | ⟨-, hplace⟩
  · rw [htodo] at hplace
    exact ⟨herror, hplace, (List.suffix_cons _ _).trans hplace⟩
  · exact absurd (htodo ▸ List.mem_cons_self) (cleanup_act hplace a)

/-- What a step other than locking leaves. -/
structure Acted (sdk : Sdk) (files : Files sdk) (t : Task) (rest : Program) (c' : Catalog) (t' : Task)
    (took : Bool) : Prop where
  ok : TaskOk sdk files c' t'
  held : SameHeld rest t'.todo
  request : t'.request = t.request
  taken : t'.taken = (t.taken || took)
  once : took = true → t.taken = false

theorem TaskOk.build_step (h : TaskOk sdk files c t) (htodo : t.todo = .act .build :: rest)
    (hact : act sdk files c t rest .build = (c', t', took)) :
    Acted sdk files t rest c' t' took := by
  obtain ⟨herror, hplace, hrest⟩ := h.program_of_act htodo
  obtain ⟨hheld, hkind⟩ := place_build hplace
  simp only [act] at hact
  cases hbuild : build sdk files t.reads with
  | ok fresh =>
    rw [hbuild] at hact
    cases hact
    refine ⟨⟨Or.inl ⟨herror, hrest⟩, fun _ _ => hbuild, ?_⟩, fun m => ⟨rfl, rfl⟩, rfl, ?_, nofun⟩
    · have hnonempty := h.nonempty
      simpa [htodo] using hnonempty
    · simp [Task.taken, htodo]
  | error e =>
    rw [hbuild] at hact
    cases hact
    refine ⟨⟨Or.inr ⟨by simp, List.nil_suffix⟩, by simp, by simp⟩, hheld, rfl, ?_, nofun⟩
    -- the call fails, so it has not taken effect
    rcases hkind with ⟨hload, hpush, -⟩ | ⟨hreload, hswap, hsnapshot, hcheck, hempty⟩
    · obtain ⟨path, hpath⟩ := Request.eq_load hload
      simp [Task.taken, hpath, htodo, hpush]
    · have hreload' := Request.eq_reload hreload
      have hpaths : t.paths ≠ [] := by
        have hne := h.nonempty
        simpa [htodo, hswap, hsnapshot, hcheck, hempty] using hne
      simp [Task.taken, hreload', htodo, hswap, hpaths]

theorem TaskOk.commit_step (h : TaskOk sdk files c t) (htodo : t.todo = .act .commit :: rest)
    (hact : act sdk files c t rest .commit = (c', t', took)) :
    Acted sdk files t rest c' t' took := by
  obtain ⟨herror, hplace, hrest⟩ := h.program_of_act htodo
  obtain ⟨hload, hheld, -, hpush, -, hbuild⟩ := place_commit hplace
  obtain ⟨path, hpath⟩ := Request.eq_load hload
  simp only [act] at hact
  cases hclash : clash sdk c t.path t.fresh with
  | some e =>
    rw [hclash] at hact
    cases hact
    have hnone := cleanup_act (List.suffix_refl (cleanup sdk))
    refine ⟨⟨Or.inr ⟨by simp, List.suffix_refl _⟩, ?_, ?_⟩, hheld, rfl, ?_, nofun⟩
    · simp [hnone]
    · simp [hnone]
    · simp [Task.taken, hpath, htodo, hpush]
  | none =>
    rw [hclash] at hact
    cases hact
    refine ⟨⟨Or.inl ⟨herror, hrest⟩, fun _ _ => ?_, fun hswap => ?_⟩, fun m => ⟨rfl, rfl⟩, rfl, ?_,
      nofun⟩
    · exact h.built (by simp [htodo, hbuild]) (Or.inl (by simp [htodo, hpush]))
    · cases hload.symm.trans (kind_of_swap hrest hswap)
    · simp [Task.taken, hpath, htodo]

theorem TaskOk.push_step (h : TaskOk sdk files c t) (htodo : t.todo = .act .push :: rest)
    (hact : act sdk files c t rest .push = (c', t', took)) : Acted sdk files t rest c' t' took := by
  obtain ⟨herror, hplace, hrest⟩ := h.program_of_act htodo
  obtain ⟨hload, hpush, -, hbuild⟩ := place_push hplace
  obtain ⟨path, hpath⟩ := Request.eq_load hload
  cases hact
  refine ⟨⟨Or.inl ⟨herror, hrest⟩, fun _ _ => ?_, fun hswap => ?_⟩, fun m => ⟨rfl, rfl⟩, rfl, ?_,
    fun _ => ?_⟩
  · exact h.built (by simp [htodo, hbuild]) (Or.inl (by simp [htodo]))
  · cases hload.symm.trans (kind_of_swap hrest hswap)
  · simp [Task.taken, hpath, hpush, herror]
  · simp [Task.taken, hpath, htodo]

theorem TaskOk.isEmpty_step (h : TaskOk sdk files c t) (htodo : t.todo = .act .isEmpty :: rest)
    (hact : act sdk files c t rest .isEmpty = (c', t', took)) :
    Acted sdk files t rest c' t' took := by
  obtain ⟨herror, hplace, hrest⟩ := h.program_of_act htodo
  obtain ⟨hkind, hheld, hsnapshot, hswap, hbuild⟩ := place_isEmpty hplace
  have hreload := Request.eq_reload hkind
  simp only [act] at hact
  split_ifs at hact with hpaths
  · cases hact
    refine ⟨⟨Or.inl ⟨herror, List.nil_suffix⟩, by simp, by simp⟩, hheld, rfl, ?_, fun _ => ?_⟩
    · simp [Task.taken, hreload, herror]
    · simp [Task.taken, hreload, htodo, hswap, hsnapshot]
  · cases hact
    refine ⟨⟨Or.inl ⟨herror, hrest⟩, fun hnone => absurd hbuild hnone, ?_⟩, fun m => ⟨rfl, rfl⟩, rfl,
      ?_, nofun⟩
    · intro _ _ _
      rw [if_pos hsnapshot]
      exact hpaths
    · simp [Task.taken, hreload, htodo]

theorem TaskOk.snapshot_step (h : TaskOk sdk files c t) (htodo : t.todo = .act .snapshot :: rest)
    (hact : act sdk files c t rest .snapshot = (c', t', took)) :
    Acted sdk files t rest c' t' took := by
  obtain ⟨herror, hplace, hrest⟩ := h.program_of_act htodo
  obtain ⟨hkind, hsnapshot, hswap, hbuild, -⟩ := place_snapshot hplace
  have hreload := Request.eq_reload hkind
  cases hact
  refine ⟨⟨Or.inl ⟨herror, hrest⟩, fun hnone => absurd hbuild hnone, ?_⟩, fun m => ⟨rfl, rfl⟩, rfl, ?_,
    fun _ => ?_⟩
  · -- Python has looked before, and the list only grows
    intro _ hcheck hempty
    have hne := h.nonempty (by simp [htodo, hswap]) (by simpa [htodo] using hcheck)
      (by simpa [htodo] using hempty)
    rw [if_pos (by simp [htodo])] at hne
    rw [if_neg hsnapshot]
    exact hne
  · simp [Task.taken, hreload, htodo, hswap, hsnapshot]
  · simp [Task.taken, hreload, htodo, hswap]

theorem TaskOk.check_step (h : TaskOk sdk files c t) (htodo : t.todo = .act .check :: rest)
    (hact : act sdk files c t rest .check = (c', t', took)) : Acted sdk files t rest c' t' took := by
  obtain ⟨herror, hplace, hrest⟩ := h.program_of_act htodo
  obtain ⟨hkind, hheld, hsnapshot, hswap, hbuild⟩ := place_check hplace
  have hreload := Request.eq_reload hkind
  simp only [act] at hact
  split_ifs at hact with hpaths
  · cases hact
    refine ⟨⟨Or.inl ⟨herror, List.nil_suffix⟩, by simp, by simp⟩, hheld, rfl, ?_, nofun⟩
    simp [Task.taken, hreload, htodo, hpaths, hsnapshot]
  · cases hact
    refine ⟨⟨Or.inl ⟨herror, hrest⟩, fun hnone => absurd hbuild hnone, ?_⟩, fun m => ⟨rfl, rfl⟩, rfl,
      ?_, nofun⟩
    · intro _ _ _
      rw [if_neg hsnapshot]
      exact hpaths
    · simp [Task.taken, hreload, htodo]

theorem TaskOk.paths_of_swap (h : TaskOk sdk files c t) (htodo : t.todo = .act .swap :: rest) :
    t.request = .reload ∧ t.paths ≠ [] ∧ build sdk files t.paths = .ok t.fresh := by
  obtain ⟨-, hplace, -⟩ := h.program_of_act htodo
  obtain ⟨hkind, -, -, hsnapshot, hcheck, hempty, hbuild⟩ := place_swap hplace
  have hreload := Request.eq_reload hkind
  have hne := h.nonempty (by simp [htodo]) (by simp [htodo, hcheck]) (by simp [htodo, hempty])
  rw [if_neg (by simp [htodo, hsnapshot])] at hne
  have hbuilt := h.built (by simp [htodo, hbuild]) (Or.inr (by simp [htodo]))
  rw [Task.reads, hreload] at hbuilt
  exact ⟨hreload, hne, hbuilt⟩

theorem TaskOk.swap_step (h : TaskOk sdk files c t) (htodo : t.todo = .act .swap :: rest)
    (hact : act sdk files c t rest .swap = (c', t', took)) : Acted sdk files t rest c' t' took := by
  obtain ⟨herror, hplace, hrest⟩ := h.program_of_act htodo
  obtain ⟨-, -, hswap, -, -, -, -⟩ := place_swap hplace
  obtain ⟨hreload, hpaths, -⟩ := h.paths_of_swap htodo
  cases hact
  refine ⟨⟨Or.inl ⟨herror, hrest⟩, fun _ hacts => ?_, fun hmem => absurd hmem hswap⟩,
    fun m => ⟨rfl, rfl⟩, rfl, ?_, fun _ => ?_⟩
  · refine h.built ?_ (Or.inr (by simp [htodo]))
    have hbuild := (place_swap hplace).2.2.2.2.2.2
    simp [htodo, hbuild]
  · simp [Task.taken, hreload, hswap, herror]
  · simp [Task.taken, hreload, htodo, hpaths]

theorem TaskOk.lookup_step (h : TaskOk sdk files c t) (htodo : t.todo = .act .lookup :: rest)
    (hact : act sdk files c t rest .lookup = (c', t', took)) :
    Acted sdk files t rest c' t' took := by
  obtain ⟨herror, hplace, hrest⟩ := h.program_of_act htodo
  obtain ⟨hkind, hlookup⟩ := place_lookup hplace
  obtain ⟨code, hcode⟩ := Request.eq_lookup hkind
  cases hact
  refine ⟨⟨Or.inl ⟨herror, hrest⟩, ?_, ?_⟩, fun m => ⟨rfl, rfl⟩, rfl, ?_, fun _ => ?_⟩
  · exact fun hnone hacts => h.built (by simpa [htodo] using hnone) (by simpa [htodo] using hacts)
  · have hnonempty := h.nonempty
    simpa [htodo] using hnonempty
  · simp [Task.taken, hcode, hlookup]
  · simp [Task.taken, hcode, htodo]

/-- **A step of a call** keeps what holds of it. -/
theorem TaskOk.act_step (h : TaskOk sdk files c t) (htodo : t.todo = .act a :: rest)
    (hact : act sdk files c t rest a = (c', t', took)) : Acted sdk files t rest c' t' took := by
  cases a with
  | build => exact h.build_step htodo hact
  | commit => exact h.commit_step htodo hact
  | push => exact h.push_step htodo hact
  | isEmpty => exact h.isEmpty_step htodo hact
  | snapshot => exact h.snapshot_step htodo hact
  | check => exact h.check_step htodo hact
  | swap => exact h.swap_step htodo hact
  | lookup => exact h.lookup_step htodo hact

/-- The steps that leave the catalog alone. -/
theorem act_quiet (ha : a ≠ .commit ∧ a ≠ .push ∧ a ≠ .swap)
    (hact : act sdk files c t rest a = (c', t', took)) :
    c' = c ∧ (t'.todo = rest ∨ t'.todo = [])
      ∧ (took = true → a = .lookup ∨ (a = .isEmpty ∨ a = .snapshot) ∧ c.paths = []) := by
  cases a with
  | commit | push | swap => simp at ha
  | build =>
    simp only [act] at hact
    split at hact <;> cases hact <;> simp
  | isEmpty | check =>
    simp only [act] at hact
    split_ifs at hact with hpaths <;> cases hact <;> simp [hpaths]
  | snapshot | lookup =>
    cases hact
    simp

/-- The path list only grows. -/
theorem act_paths (hact : act sdk files c t rest a = (c', t', took)) (hne : c.paths ≠ []) :
    c'.paths ≠ [] := by
  by_cases ha : a ≠ .commit ∧ a ≠ .push ∧ a ≠ .swap
  · exact (act_quiet ha hact).1 ▸ hne
  · cases a with
    | push =>
      cases hact
      simp only [Catalog.push]
      split_ifs
      · exact hne
      · simp
    | swap =>
      cases hact
      exact hne
    | commit =>
      simp only [act] at hact
      split at hact <;> cases hact <;> exact hne
    | _ => exact absurd ⟨by simp, by simp, by simp⟩ ha

theorem TaskOk.mono (h : TaskOk sdk files c t) (hpaths : c.paths ≠ [] → c'.paths ≠ []) :
    TaskOk sdk files c' t := by
  refine ⟨h.place, h.built, fun hswap hcheck hempty => ?_⟩
  have hne := h.nonempty hswap hcheck hempty
  split_ifs at hne ⊢ with hsnapshot
  · exact hpaths hne
  · exact hne

/-- Locking and unlocking change nothing else. -/
theorem TaskOk.locks_step (h : TaskOk sdk files c t) {ins : Instr Mutex Act}
    (htodo : t.todo = ins :: rest) (hins : ∀ a, ins ≠ .act a) :
    TaskOk sdk files c { t with todo := rest }
      ∧ Task.taken { t with todo := rest } = t.taken := by
  have hmem : ∀ a, .act a ∈ t.todo ↔ .act a ∈ rest := fun a => htodo ▸ mem_act_cons_iff hins
  have hsuffix : rest <:+ t.todo := htodo ▸ List.suffix_cons _ _
  refine ⟨⟨?_, fun hnone hacts => ?_, fun hswap hcheck hempty => ?_⟩, ?_⟩
  · exact h.place.imp (fun hp => ⟨hp.1, hsuffix.trans hp.2⟩) fun hp => ⟨hp.1, hsuffix.trans hp.2⟩
  · exact h.built (by rwa [hmem]) (by rwa [hmem, hmem])
  · have hne := h.nonempty (by rwa [hmem]) (by rwa [hmem]) (by rwa [hmem])
    simpa only [hmem] using hne
  · simp only [Task.taken, hmem]

theorem taskOk_start (files : Files sdk) (c : Catalog) (r : Request) :
    TaskOk sdk files c (.start sdk r) ∧ (Task.start sdk r).taken = false := by
  refine ⟨⟨Or.inl ⟨rfl, List.suffix_refl _⟩, ?_, ?_⟩, ?_⟩
  · cases sdk <;> cases r <;> simp [Task.start, program, Request.kind]
  · cases sdk <;> cases r <;> simp [Task.start, program, Request.kind]
  · cases sdk <;> cases r <;> simp [Task.start, Task.taken, program, Request.kind]

end Act

/-! ## All calls -/

/-- What holds of the system at any time. -/
structure SystemOk (sdk : Sdk) (files : Files sdk) (w : World) : Prop where
  owned : Owned w.state.locks w.state.todos
  tasks : ∀ (i : Nat) (t : Task), w.state.tasks[i]? = some t → TaskOk sdk files w.state.catalog t
  took : ∀ i r, Took.mk i r ∈ w.history
    ↔ ∃ t, w.state.tasks[i]? = some t ∧ t.request = r ∧ t.taken = true
  nodup : w.history.Nodup

section SystemOk

variable {sdk : Sdk} {files : Files sdk} {w : World}

theorem getElem?_set_cases {β : Type} {l : List β} {i j : Nat} {x y z : β} (hi : l[i]? = some x)
    (h : (l.set i y)[j]? = some z) : i = j ∧ z = y ∨ i ≠ j ∧ l[j]? = some z := by
  by_cases hij : i = j
  · subst hij
    rw [List.getElem?_set_self (List.getElem?_eq_some_iff.1 hi).1] at h
    exact Or.inl ⟨rfl, (Option.some.inj h).symm⟩
  · rw [List.getElem?_set_ne hij] at h
    exact Or.inr ⟨hij, h⟩

theorem getElem?_concat_cases {β : Type} {l : List β} {x z : β} {j : Nat}
    (h : (l ++ [x])[j]? = some z) : l[j]? = some z ∨ z = x := by
  rw [List.getElem?_append] at h
  split_ifs at h
  · exact Or.inl h
  · exact Or.inr (List.mem_singleton.1 (List.mem_of_getElem? h))

theorem SystemOk.wellLocked (h : SystemOk sdk files w) {i : Nat} {t : Task}
    (hi : w.state.tasks[i]? = some t) : wellLocked t.todo = true := by
  rcases (h.tasks i t hi).place with ⟨-, hplace⟩ | ⟨-, hplace⟩
  · exact wellLocked_program hplace
  · exact wellLocked_cleanup hplace

/-- One call moves on; the others stay. -/
theorem SystemOk.set (h : SystemOk sdk files w) (took : Bool) {i : Nat} {t t' : Task} {c' : Catalog}
    {locks : Locks.State Mutex} (hi : w.state.tasks[i]? = some t)
    (howned : Owned locks (w.state.todos.set i t'.todo)) (hok : TaskOk sdk files c' t')
    (hpaths : w.state.catalog.paths ≠ [] → c'.paths ≠ []) (hrequest : t'.request = t.request)
    (htaken : t'.taken = (t.taken || took)) (honce : took = true → t.taken = false) :
    SystemOk sdk files ⟨⟨c', locks, w.state.tasks.set i t'⟩,
      w.history ++ if took then [⟨i, t.request⟩] else []⟩ := by
  have hself : (w.state.tasks.set i t')[i]? = some t' :=
    List.getElem?_set_self (List.getElem?_eq_some_iff.1 hi).1
  have hnew : took = true → ∀ r, Took.mk i r ∉ w.history := by
    intro htook r hmem
    obtain ⟨t₁, ht₁, -, htaken₁⟩ := (h.took i r).1 hmem
    cases hi.symm.trans ht₁
    rw [honce htook] at htaken₁
    cases htaken₁
  refine ⟨?_, fun j t₁ hj => ?_, fun j r => ?_, ?_⟩
  · rw [System.todos, List.map_set]
    exact howned
  · rcases getElem?_set_cases hi hj with ⟨-, rfl⟩ | ⟨-, hj⟩
    · exact hok
    · exact (h.tasks j t₁ hj).mono hpaths
  · rw [List.mem_append, h.took j r]
    by_cases hij : i = j
    · subst hij
      rw [hi, hself]
      simp only [Option.some.injEq, exists_eq_left', hrequest, htaken]
      cases took with
      | false => simp
      | true =>
        rw [if_pos rfl, honce rfl]
        simp only [List.mem_singleton, Took.mk.injEq, true_and, Bool.false_or, and_true]
        exact ⟨fun hr => (hr.resolve_left (by simp)).symm, fun hr => Or.inr hr.symm⟩
    · rw [List.getElem?_set_ne hij]
      cases took <;> simp [Ne.symm hij]
  · cases took with
    | false => simpa using h.nodup
    | true =>
      rw [if_pos rfl]
      exact h.nodup.append (List.nodup_singleton _) (by simpa using hnew rfl t.request)

theorem SystemOk.step (h : SystemOk sdk files w) {l : Label} {s' : System}
    (hstep : SystemStep sdk files w.state l s' es) : SystemOk sdk files ⟨s', w.history ++ es⟩ := by
  cases hstep with
  | call r =>
    have hstart := fun c => taskOk_start files c r
    refine ⟨?_, fun j t hj => ?_, fun j r' => ?_, by simpa using h.nodup⟩
    · rw [System.todos, List.map_append]
      exact h.owned.begin program_held
    · rcases getElem?_concat_cases hj with hj | rfl
      · exact h.tasks j t hj
      · exact (hstart _).1
    · rw [List.append_nil, h.took j r']
      refine exists_congr fun t => ⟨fun ⟨hj, hrest⟩ => ⟨?_, hrest⟩, fun ⟨hj, hrest⟩ => ⟨?_, hrest⟩⟩
      · rw [List.getElem?_append_left (List.getElem?_eq_some_iff.1 hj).1]
        exact hj
      · rcases getElem?_concat_cases hj with hj | rfl
        · exact hj
        · rw [(hstart w.state.catalog).2] at hrest
          cases hrest.2
  | locks hi htodo hins hexec =>
    rename_i i t ins rest locks
    obtain ⟨hok, htaken⟩ := (h.tasks i t hi).locks_step htodo hins
    have howned := h.owned.exec (htodo ▸ System.getElem?_todos hi) (htodo ▸ h.wellLocked hi) hexec
    exact h.set false hi howned hok (fun hne => hne) rfl (by simpa using htaken) (by simp)
  | act hi htodo hact =>
    rename_i i t t' a rest c' took
    have hacted := (h.tasks i t hi).act_step htodo hact
    have htodos := htodo ▸ System.getElem?_todos hi
    exact h.set took hi (h.owned.jump htodos hacted.held) hacted.ok (act_paths hact) hacted.request
      hacted.taken hacted.once

theorem systemOk_new (c : Catalog) : SystemOk sdk files (.start (.new c)) :=
  ⟨owned_free, fun i t hi => by simp [Trace.World.start, System.new] at hi,
    fun i r => by simp [Trace.World.start, System.new], List.nodup_nil⟩

end SystemOk

/-! ## The serial order -/

/-- One call after the other. -/
def serialStep (sdk : Sdk) (files : Files sdk) (c : Catalog) : Request → Except CatalogError Catalog
  | .load path => load sdk files c path
  | .reload => reload sdk files c
  | .lookup _ => .ok c

/-- The call has put its codes into the registry and not yet its path into the list. -/
def Task.between (t : Task) : Prop := .act .push ∈ t.todo ∧ .act .commit ∉ t.todo

/-- The system as the calls that have taken effect leave it, in their order. -/
structure SerialOk (sdk : Sdk) (files : Files sdk) (c₀ c : Catalog) (w : World) : Prop where
  run : (w.history.map Took.request).foldlM (serialStep sdk files) c₀ = .ok c
  paths : w.state.catalog.paths = c.paths
  between : ∀ (i : Nat) (t : Task), w.state.tasks[i]? = some t → t.between →
    w.state.catalog = c.commit t.fresh ∧ clash sdk c t.path t.fresh = none
  settled : (∀ (i : Nat) (t : Task), w.state.tasks[i]? = some t → ¬t.between) → w.state.catalog = c

/-- No path was added since the `reload` that swaps next has read the list. -/
def upToDate (s : System) : Label → Bool
  | .call _ => true
  | .move i => (s.tasks[i]?).all fun t =>
    match t.todo with
    | .act .swap :: _ => decide (t.paths = s.catalog.paths)
    | _ => true

section Serial

variable {sdk : Sdk} {files : Files sdk} {w : World} {c₀ c c' : Catalog} {i : Nat} {t t' : Task}
  {rest : Program} {took : Bool}

/-- A call between its commit and its push has the yaml lock. -/
theorem SystemOk.holds_of_between (h : SystemOk sdk files w)
    (hi : w.state.tasks[i]? = some t) (hbetween : t.between) :
    t.error = none ∧ t.request.kind = .load ∧ (w.state.todos[i]?).any (holds .yaml) = true
      ∧ build sdk files t.reads = .ok t.fresh := by
  obtain ⟨hpush, hcommit⟩ := hbetween
  rcases (h.tasks i t hi).place with ⟨herror, hplace⟩ | ⟨-, hplace⟩
  · obtain ⟨hholds, hkind, hbuild⟩ := place_between hplace hpush hcommit
    refine ⟨herror, hkind, ?_, (h.tasks i t hi).built hbuild (Or.inl hpush)⟩
    rw [System.getElem?_todos hi]
    exact hholds
  · exact absurd hpush (cleanup_act hplace _)

/-- While a call has the yaml lock, no other is between its commit and its push. -/
theorem SystemOk.not_between (h : SystemOk sdk files w) {a : Act} (hi : w.state.tasks[i]? = some t)
    (htodo : t.todo = .act a :: rest) (hholds : holds .yaml rest = true) {j : Nat}
    (hj : w.state.tasks[j]? = some t') (hij : i ≠ j) : ¬t'.between := by
  intro hbetween
  refine hij (h.owned.unique ?_ (h.holds_of_between hj hbetween).2.2.1)
  rw [System.getElem?_todos hi, htodo]
  exact hholds

/-- It sees the catalog as the calls that have taken effect leave it. -/
theorem SerialOk.catalog_eq (hw : SerialOk sdk files c₀ c w) (hok : SystemOk sdk files w) {a : Act}
    (hi : w.state.tasks[i]? = some t) (htodo : t.todo = .act a :: rest)
    (hholds : holds .yaml rest = true) (hself : ¬t.between) : w.state.catalog = c := by
  refine hw.settled fun j t₁ hj hb => ?_
  by_cases hij : i = j
  · subst hij
    cases hi.symm.trans hj
    exact hself hb
  · exact hok.not_between hi htodo hholds hj hij hb

theorem foldlM_concat_iff {order : List Request} :
    (order ++ [r]).foldlM (serialStep sdk files) c₀ = .ok c'
      ↔ ∃ c, order.foldlM (serialStep sdk files) c₀ = .ok c ∧ serialStep sdk files c r = .ok c' := by
  rw [List.foldlM_append]
  cases order.foldlM (serialStep sdk files) c₀ with
  | error e => simp [bind, Except.bind]
  | ok c =>
    cases hr : serialStep sdk files c r <;> simp [bind, Except.bind, hr, pure, Except.pure]

theorem SerialOk.run_concat (hw : SerialOk sdk files c₀ c w)
    (hstep : serialStep sdk files c r = .ok c') :
    ((w.history ++ [Took.mk i r]).map Took.request).foldlM (serialStep sdk files) c₀ = .ok c' := by
  rw [List.map_append]
  exact foldlM_concat_iff.2 ⟨c, hw.run, hstep⟩

/-- The world after a step of a call other than locking. -/
abbrev acted (w : World) (i : Nat) (t t' : Task) (c' : Catalog) (took : Bool) : World :=
  ⟨⟨c', w.state.locks, w.state.tasks.set i t'⟩,
    w.history ++ if took then [⟨i, t.request⟩] else []⟩

/-- A step that leaves the catalog alone, of a call that is not in the middle of its changes. -/
theorem SerialOk.of_catalog_eq (hw : SerialOk sdk files c₀ c w) {locks : Locks.State Mutex}
    (hi : w.state.tasks[i]? = some t) (hbetween : t'.between ↔ t.between)
    (hsame : t'.between → t'.fresh = t.fresh ∧ t'.path = t.path)
    (hrun : ((w.history ++ es).map Took.request).foldlM (serialStep sdk files) c₀ = .ok c) :
    SerialOk sdk files c₀ c
      ⟨⟨w.state.catalog, locks, w.state.tasks.set i t'⟩, w.history ++ es⟩ := by
  refine ⟨hrun, hw.paths, fun j t₁ hj hb => ?_, fun hnone => hw.settled fun j t₁ hj hb => ?_⟩
  · rcases getElem?_set_cases hi hj with ⟨-, rfl⟩ | ⟨-, hj⟩
    · obtain ⟨hfresh, hpath⟩ := hsame hb
      rw [hfresh, hpath]
      exact hw.between i t hi (hbetween.1 hb)
    · exact hw.between j t₁ hj hb
  · by_cases hij : i = j
    · subst hij
      cases hi.symm.trans hj
      refine hnone i t' ?_ (hbetween.2 hb)
      exact List.getElem?_set_self (List.getElem?_eq_some_iff.1 hi).1
    · refine hnone j t₁ ?_ hb
      dsimp only
      rw [List.getElem?_set_ne hij]
      exact hj

section Steps

variable (hw : SerialOk sdk files c₀ c w) (hok : SystemOk sdk files w)
  (hi : w.state.tasks[i]? = some t)

include hw hok hi

/-- A `load` puts its codes into the registry. -/
theorem SerialOk.commit_step (htodo : t.todo = .act .commit :: rest)
    (hact : act sdk files w.state.catalog t rest .commit = (c', t', took)) :
    SerialOk sdk files c₀ c (acted w i t t' c' took) := by
  obtain ⟨-, hplace, -⟩ := (hok.tasks i t hi).program_of_act htodo
  obtain ⟨-, -, hholds, hpush, hcommit, -⟩ := place_commit hplace
  have hself : ¬t.between := fun hb => hb.2 (htodo ▸ List.mem_cons_self)
  have hcatalog := hw.catalog_eq hok hi htodo hholds hself
  simp only [act] at hact
  cases hclash : clash sdk w.state.catalog t.path t.fresh with
  | some e =>
    rw [hclash] at hact
    cases hact
    refine hw.of_catalog_eq hi ⟨fun hb => ?_, fun hb => absurd hb hself⟩ (fun _ => ⟨rfl, rfl⟩)
      (by simpa using hw.run)
    exact absurd hb.1 (cleanup_act (List.suffix_refl _) _)
  | none =>
    rw [hclash] at hact
    cases hact
    have hset : (w.state.tasks.set i { t with todo := rest })[i]? = some { t with todo := rest } :=
      List.getElem?_set_self (List.getElem?_eq_some_iff.1 hi).1
    refine ⟨by simpa using hw.run, hw.paths, fun j t₁ hj hb => ?_, fun hnone => ?_⟩
    · rcases getElem?_set_cases hi hj with ⟨-, rfl⟩ | ⟨hij, hj⟩
      · rw [← hcatalog]
        exact ⟨rfl, hclash⟩
      · exact absurd hb (hok.not_between hi htodo hholds hj hij)
    · exact absurd ⟨hpush, hcommit⟩ (hnone i _ hset)

/-- A `load` remembers its path, and has taken effect. -/
theorem SerialOk.push_step (htodo : t.todo = .act .push :: rest)
    (hact : act sdk files w.state.catalog t rest .push = (c', t', took)) :
    SerialOk sdk files c₀ c' (acted w i t t' c' took) := by
  obtain ⟨-, hplace, -⟩ := (hok.tasks i t hi).program_of_act htodo
  obtain ⟨-, hpush, hcommit, -⟩ := place_push hplace
  have hbetween : t.between := ⟨htodo ▸ List.mem_cons_self, by simp [htodo, hcommit]⟩
  obtain ⟨hcatalog, hclash⟩ := hw.between i t hi hbetween
  obtain ⟨-, hload, hholds, hbuild⟩ := hok.holds_of_between hi hbetween
  obtain ⟨path, hpath⟩ := Request.eq_load hload
  cases hact
  have hserial : serialStep sdk files c t.request = .ok (w.state.catalog.push t.path) := by
    rw [Task.reads, hpath] at hbuild
    rw [hpath, hcatalog]
    rw [Task.path, hpath] at hclash ⊢
    exact load_ok_iff.2 ⟨t.fresh, hbuild, hclash, rfl⟩
  refine ⟨hw.run_concat hserial, rfl, fun j t₁ hj hb => ?_, fun _ => rfl⟩
  rcases getElem?_set_cases hi hj with ⟨-, rfl⟩ | ⟨hij, hj⟩
  · exact absurd hb.1 hpush
  · exact absurd (hok.owned.unique hholds (hok.holds_of_between hj hb).2.2.1) hij

/-- A `reload` that is up to date swaps the yaml codes, and has taken effect. -/
theorem SerialOk.swap_step (htodo : t.todo = .act .swap :: rest)
    (hpaths : t.paths = w.state.catalog.paths)
    (hact : act sdk files w.state.catalog t rest .swap = (c', t', took)) :
    SerialOk sdk files c₀ c' (acted w i t t' c' took) := by
  obtain ⟨-, hplace, hrest⟩ := (hok.tasks i t hi).program_of_act htodo
  obtain ⟨hkind, hholds, -⟩ := place_swap hplace
  obtain ⟨hreload, hne, hbuild⟩ := (hok.tasks i t hi).paths_of_swap htodo
  -- a `reload` is never in the middle of a `load`'s changes
  have hnever : ∀ {todo : Program}, todo <:+ program sdk t.request.kind → .act .push ∈ todo →
      .act .commit ∉ todo → False := by
    intro todo htodo hpush hcommit
    cases hkind.symm.trans (place_between htodo hpush hcommit).2.1
  have hcatalog := hw.catalog_eq hok hi htodo hholds fun hb =>
    hnever hplace (htodo ▸ hb.1) (htodo ▸ hb.2)
  cases hact
  have hserial : serialStep sdk files c t.request = .ok (w.state.catalog.swap t.fresh) := by
    rw [hreload, hcatalog]
    rw [hpaths, hcatalog] at hne hbuild
    exact reload_ok_iff.2 (Or.inr ⟨hne, t.fresh, hbuild, rfl⟩)
  refine ⟨hw.run_concat hserial, rfl, fun j t₁ hj hb => ?_, fun _ => rfl⟩
  rcases getElem?_set_cases hi hj with ⟨-, rfl⟩ | ⟨hij, hj⟩
  · exact absurd hb fun hb => hnever hrest hb.1 hb.2
  · exact absurd hb (hok.not_between hi htodo hholds hj hij)

/-- The other steps leave the catalog alone, and are not in the middle of a `load`'s changes. -/
theorem SerialOk.quiet_step {a : Act} (htodo : t.todo = .act a :: rest)
    (ha : a ≠ .commit ∧ a ≠ .push ∧ a ≠ .swap)
    (hact : act sdk files w.state.catalog t rest a = (c', t', took)) :
    SerialOk sdk files c₀ c (acted w i t t' c' took) := by
  obtain ⟨-, hplace, -⟩ := (hok.tasks i t hi).program_of_act htodo
  have hcommit : .act .push ∈ rest → .act .commit ∈ rest := place_quiet hplace ha
  obtain ⟨rfl, htodo', htook⟩ := act_quiet ha hact
  have hnot : ¬t.between := by
    intro ⟨hpush, hcommit'⟩
    rw [htodo] at hpush hcommit'
    have hpush' : .act .push ∈ rest := by simpa [ha.2.1.symm] using hpush
    exact hcommit' (List.mem_cons_of_mem _ (hcommit hpush'))
  have hnot' : ¬t'.between := by
    intro ⟨hpush, hcommit'⟩
    rcases htodo' with htodo' | htodo' <;> rw [htodo'] at hpush hcommit'
    · exact hcommit' (hcommit hpush)
    · cases hpush
  -- a call that takes effect here is a `lookup`, or a `reload` that finds no paths
  have hserial : took = true → serialStep sdk files c t.request = .ok c := by
    intro h
    rcases htook h with rfl | ⟨ha, hpaths⟩
    · obtain ⟨code, hcode⟩ := Request.eq_lookup (place_lookup hplace).1
      rw [hcode]
      rfl
    · have hkind : t.request.kind = .reload := by
        rcases ha with rfl | rfl
        · exact (place_isEmpty hplace).1
        · exact (place_snapshot hplace).1
      rw [Request.eq_reload hkind]
      exact reload_ok_iff.2 (Or.inl ⟨hw.paths ▸ hpaths, rfl⟩)
  refine hw.of_catalog_eq hi ⟨fun hb => absurd hb hnot', fun hb => absurd hb hnot⟩
    (fun hb => absurd hb hnot') ?_
  cases took with
  | false => simpa using hw.run
  | true => exact hw.run_concat (hserial rfl)

end Steps

theorem SerialOk.step (hw : SerialOk sdk files c₀ c w) (hok : SystemOk sdk files w) {l : Label}
    {s' : System} (hl : upToDate w.state l = true) (hstep : SystemStep sdk files w.state l s' es) :
    ∃ c', SerialOk sdk files c₀ c' ⟨s', w.history ++ es⟩ := by
  cases hstep with
  | call r =>
    have hnew : ¬(Task.start sdk r).between := by
      intro ⟨hpush, hcommit⟩
      cases sdk <;> cases r <;> simp [Task.start, program, Request.kind] at hpush hcommit
    refine ⟨c, by simpa using hw.run, hw.paths, fun j t hj hb => ?_,
      fun hnone => hw.settled fun j t hj => ?_⟩
    · rcases getElem?_concat_cases hj with hj | rfl
      · exact hw.between j t hj hb
      · exact absurd hb hnew
    · refine hnone j t ?_
      dsimp only
      rw [List.getElem?_append_left (List.getElem?_eq_some_iff.1 hj).1]
      exact hj
  | locks hi htodo hins hexec =>
    rename_i i t ins rest locks
    have hmem : ∀ a, .act a ∈ t.todo ↔ .act a ∈ rest := fun a => htodo ▸ mem_act_cons_iff hins
    refine ⟨c, hw.of_catalog_eq hi ?_ (fun _ => ⟨rfl, rfl⟩) (by simpa using hw.run)⟩
    simp only [Task.between, hmem]
  | act hi htodo hact =>
    rename_i i t t' a rest c' took
    by_cases ha : a ≠ .commit ∧ a ≠ .push ∧ a ≠ .swap
    · exact ⟨c, hw.quiet_step hok hi htodo ha hact⟩
    · cases a with
      | commit => exact ⟨c, hw.commit_step hok hi htodo hact⟩
      | push => exact ⟨c', hw.push_step hok hi htodo hact⟩
      | swap =>
        have hpaths : t.paths = w.state.catalog.paths := by
          simpa [upToDate, hi, htodo] using hl
        exact ⟨c', hw.swap_step hok hi htodo hpaths hact⟩
      | _ => exact absurd ⟨by simp, by simp, by simp⟩ ha

/-! ## What the serial order gives -/

/-- The codes of a file that was loaded are in the catalog, and stay there. -/
theorem mem_keys_of_foldlM {order : List Request}
    (h : order.foldlM (serialStep sdk files) c₀ = .ok c) {path : Path} (hpath : .load path ∈ order) :
    path ∈ c.paths ∧ ∀ code ∈ codesIn sdk files path, code ∈ Dict.keys c.registry := by
  induction order using List.reverseRecOn generalizing c with
  | nil => cases hpath
  | append_singleton order r ih =>
    obtain ⟨c₁, hfirst, hstep⟩ := foldlM_concat_iff.1 h
    rcases List.mem_append.1 hpath with hold | hlast
    · obtain ⟨hmem, hcodes⟩ := ih hfirst hold
      cases r with
      | load q =>
        obtain ⟨fresh, -, -, rfl⟩ := load_ok_iff.1 hstep
        exact ⟨Catalog.mem_push.2 (Or.inr hmem),
          fun code hcode => Dict.mem_keys_update.2 (Or.inl (hcodes code hcode))⟩
      | reload =>
        rcases reload_ok_iff.1 hstep with ⟨-, rfl⟩ | ⟨-, fresh, hbuild, rfl⟩
        · exact ⟨hmem, hcodes⟩
        · refine ⟨hmem, fun code hcode => Dict.mem_keys_update.2 (Or.inr ?_)⟩
          rw [keys_metasOf, mem_keys_build hbuild]
          exact ⟨path, hmem, hcode⟩
      | lookup code =>
        cases hstep
        exact ⟨hmem, hcodes⟩
    · cases List.mem_singleton.1 hlast
      obtain ⟨fresh, hbuild, -, rfl⟩ := load_ok_iff.1 hstep
      refine ⟨Catalog.mem_push.2 (Or.inl rfl),
        fun code hcode => Dict.mem_keys_update.2 (Or.inr ?_)⟩
      rw [keys_metasOf, build_single_keys hbuild]
      exact hcode

/-- When all calls have returned, each has taken effect once. -/
theorem SystemOk.perm_of_returned (h : SystemOk sdk files w)
    (hdone : ∀ t ∈ w.state.tasks, t.todo = [] ∧ t.error = none) :
    (w.history.map Took.request).Perm (w.state.tasks.map Task.request) := by
  have htaken : ∀ t ∈ w.state.tasks, t.taken = true := by
    intro t ht
    obtain ⟨htodo, herror⟩ := hdone t ht
    simp only [Task.taken, htodo, herror]
    cases t.request <;> simp
  have hperm : w.history.Perm (w.state.tasks.zipIdx.map fun p => ⟨p.2, p.1.request⟩) := by
    refine (List.perm_ext_iff_of_nodup h.nodup (.of_map Took.call ?_)).2 fun e => ?_
    · rw [List.map_map]
      show (w.state.tasks.zipIdx.map Prod.snd).Nodup
      rw [List.zipIdx_map_snd]
      exact List.nodup_range'
    · rw [h.took e.call e.request, List.mem_map]
      constructor
      · rintro ⟨t, ht, hr, -⟩
        exact ⟨(t, e.call), List.mem_zipIdx_iff_getElem?.2 ht, by rw [hr]⟩
      · rintro ⟨⟨t, i⟩, hmem, rfl⟩
        have ht := List.mem_zipIdx_iff_getElem?.1 hmem
        exact ⟨t, ht, rfl, htaken t (List.mem_of_getElem? ht)⟩
  calc w.history.map Took.request
      |>.Perm ((w.state.tasks.zipIdx.map fun p => Took.mk p.2 p.1.request).map Took.request) :=
        hperm.map _
    _ = (w.state.tasks.zipIdx.map Prod.fst).map Task.request := by rw [List.map_map, List.map_map]; rfl
    _ = w.state.tasks.map Task.request := by rw [List.zipIdx_map_fst]

/-- **`load` and `reload` lose nothing** when no path is added between a `reload`'s look at the path
    list and its swap. Once all calls have returned without an error, the catalog is as some serial
    order of the same calls leaves it, and has every code of every file that was loaded. -/
theorem calls_serializable (sdk : Sdk) (files : Files sdk) (c₀ : Catalog) {w : World}
    (h : Trace.Reaches (Trace.restrict (System.step sdk files) upToDate) (.start (.new c₀)) w)
    (hdone : ∀ t ∈ w.state.tasks, t.todo = [] ∧ t.error = none) :
    (∃ order : List Request, order.Perm (w.state.tasks.map Task.request)
      ∧ order.foldlM (serialStep sdk files) c₀ = .ok w.state.catalog)
    ∧ ∀ t ∈ w.state.tasks, ∀ path, t.request = .load path → ∀ code ∈ codesIn sdk files path,
      code ∈ Dict.keys w.state.catalog.registry := by
  have hinv : SystemOk sdk files w ∧ ∃ c, SerialOk sdk files c₀ c w := by
    refine Trace.Reaches.invariant (I := fun w => SystemOk sdk files w
      ∧ ∃ c, SerialOk sdk files c₀ c w) h ⟨systemOk_new c₀, c₀, rfl, rfl, ?_, fun _ => rfl⟩ ?_
    · intro i t hi
      simp [Trace.World.start, System.new] at hi
    · intro w l s' es ⟨hok, c, hc⟩ hstep
      rw [Trace.restrict] at hstep
      split_ifs at hstep with hl
      have hcases := system_step_cases hstep
      exact ⟨hok.step hcases, hc.step hok hl hcases⟩
  obtain ⟨hok, c, hc⟩ := hinv
  have hcatalog : w.state.catalog = c := by
    refine hc.settled fun i t hi hb => ?_
    have htodo := (hdone t (List.mem_of_getElem? hi)).1
    rw [Task.between, htodo] at hb
    cases hb.1
  have hperm := hok.perm_of_returned hdone
  rw [hcatalog]
  refine ⟨⟨_, hperm, hc.run⟩, fun t ht path hpath code hcode => ?_⟩
  refine (mem_keys_of_foldlM hc.run ?_).2 code hcode
  rw [← hpath]
  exact hperm.mem_iff.2 (List.mem_map.2 ⟨t, ht, rfl⟩)

end Serial

theorem calls_serializable_loadReload : ∃ w, Trace.Reaches (Trace.restrict
      (System.step .rust (twoFiles .rust)) upToDate) (.start (.new .empty)) w
    ∧ (∃ order : List Request, order.Perm [.load "a.yaml", .load "b.yaml", .reload]
      ∧ order.foldlM (serialStep .rust (twoFiles .rust)) .empty = .ok w.state.catalog)
    ∧ "FLEET_UP" ∈ Dict.keys w.state.catalog.registry
    ∧ "FLEET_LOST" ∈ Dict.keys w.state.catalog.registry := by
  -- the second `load` reads its file first and takes its locks last, and the `reload` reads the path
  -- list while the first `load` has the yaml lock
  obtain ⟨w, hreach, hw⟩ := Trace.exists_reaches_of_run
    (Trace.restrict (System.step .rust (twoFiles .rust)) upToDate) (.start (.new .empty))
    ([.call (.load "a.yaml"), .call (.load "b.yaml"), .call .reload, .move 1]
      ++ List.replicate 9 (.move 0) ++ List.replicate 5 (.move 2) ++ [.move 0]
      ++ List.replicate 6 (.move 2) ++ List.replicate 9 (.move 1))
    (fun w => decide ((∀ t ∈ w.state.tasks, t.todo = [] ∧ t.error = none)
      ∧ w.state.tasks.map Task.request = [.load "a.yaml", .load "b.yaml", .reload]))
    (by decide +kernel)
  obtain ⟨hdone, hrequests⟩ := of_decide_eq_true hw
  obtain ⟨hserial, hcodes⟩ := calls_serializable .rust (twoFiles .rust) .empty hreach hdone
  have hloaded : ∀ path ∈ ["a.yaml", "b.yaml"], ∀ code ∈ codesIn .rust (twoFiles .rust) path,
      code ∈ Dict.keys w.state.catalog.registry := by
    intro path hpath code hcode
    have hmem : .load path ∈ w.state.tasks.map Task.request := by
      rw [hrequests]
      simp only [List.mem_cons, List.not_mem_nil, or_false] at hpath
      rcases hpath with rfl | rfl <;> simp
    obtain ⟨t, ht, hload⟩ := List.mem_map.1 hmem
    exact hcodes t ht path hload code hcode
  rw [hrequests] at hserial
  exact ⟨w, hreach, hserial, hloaded "a.yaml" (by simp) _ (by decide +kernel),
    hloaded "b.yaml" (by simp) _ (by decide +kernel)⟩

/-- A `reload` reads the path list and the one file on it, then a `load` of another file comes and
    goes, then the `reload` swaps. -/
def overtaken (sdk : Sdk) : List Label :=
  let loadSteps := (program sdk .load).length
  let readSteps := (program sdk .reload).idxOf (.act .build) + 1
  [.call (.load "a.yaml")] ++ List.replicate loadSteps (.move 0)
    ++ [.call .reload] ++ List.replicate readSteps (.move 1)
    ++ [.call (.load "b.yaml")] ++ List.replicate loadSteps (.move 2)
    ++ List.replicate ((program sdk .reload).length - readSteps) (.move 1)

/-- **A `reload` drops the codes of a `load` that it overlaps**: it swaps in the codes of the path
    list it had read, and the file that was loaded since is on the list without its codes. -/
theorem overlapping_load_lost_in (sdk : Sdk) : ∃ w, Trace.Reaches (System.step sdk (twoFiles sdk))
      (.start (.new .empty)) w
    ∧ (∀ t ∈ w.state.tasks, t.todo = [] ∧ t.error = none)
    ∧ .load "b.yaml" ∈ w.state.tasks.map Task.request
    ∧ "FLEET_LOST" ∈ codesIn sdk (twoFiles sdk) "b.yaml"
    ∧ "b.yaml" ∈ w.state.catalog.paths
    ∧ "FLEET_LOST" ∉ Dict.keys w.state.catalog.registry := by
  obtain ⟨w, hreach, hw⟩ := Trace.exists_reaches_of_run (System.step sdk (twoFiles sdk))
    (.start (.new .empty)) (overtaken sdk)
    (fun w => decide ((∀ t ∈ w.state.tasks, t.todo = [] ∧ t.error = none)
      ∧ .load "b.yaml" ∈ w.state.tasks.map Task.request
      ∧ "FLEET_LOST" ∈ codesIn sdk (twoFiles sdk) "b.yaml"
      ∧ "b.yaml" ∈ w.state.catalog.paths
      ∧ "FLEET_LOST" ∉ Dict.keys w.state.catalog.registry))
    (by cases sdk <;> decide +kernel)
  exact ⟨w, hreach, of_decide_eq_true hw⟩

theorem overlapping_load_lost : ∃ w, Trace.Reaches (System.step .go (twoFiles .go))
      (.start (.new .empty)) w
    ∧ (∀ t ∈ w.state.tasks, t.todo = [] ∧ t.error = none)
    ∧ .load "b.yaml" ∈ w.state.tasks.map Task.request
    ∧ "FLEET_LOST" ∈ codesIn .go (twoFiles .go) "b.yaml"
    ∧ "b.yaml" ∈ w.state.catalog.paths
    ∧ "FLEET_LOST" ∉ Dict.keys w.state.catalog.registry :=
  overlapping_load_lost_in .go

end Fasten.Codes
