import Mathlib.Data.Fintype.Basic
import Fasten.Codes.Build
import Fasten.Lib.Locks
import Fasten.Lib.Trace

set_option autoImplicit false

/-! # Concurrent calls of `load` and `reload`

The calls as the lock, unlock and other steps they take, on yaml files that do not change. `lookup` is
`meta_of`, which reads the registry under its lock in Rust and Go, and under none in Python. What
happens under a lock between two points that others can see is one step. -/

namespace Fasten.Codes

open Locks

/-- `YAML_CODES`, `yamlMu` and `_lock`; the registry's lock, `regMu`; and `LOADED_PATHS`. -/
inductive Mutex where
  | yaml
  | reg
  | paths
  deriving DecidableEq

inductive Act where
  /-- read the file of a `load`, or the files of the path list a `reload` has read -/
  | build
  | commit
  | push
  /-- return if there are no paths (Python, which looks at the list itself) -/
  | isEmpty
  | snapshot
  /-- return if the list that was read is empty -/
  | check
  | swap
  | lookup
  deriving DecidableEq

inductive Kind where
  | load
  | reload
  | lookup
  deriving DecidableEq

inductive Request where
  | load (path : Path)
  | reload
  | lookup (code : String)
  deriving DecidableEq

def Request.kind : Request → Kind
  | .load _ => .load
  | .reload => .reload
  | .lookup _ => .lookup

abbrev Program := List (Instr Mutex Act)

/-- The steps of each call. -/
def program : Sdk → Kind → Program
  | .rust, .load =>
    [.act .build, .lock .yaml, .lock .reg, .await .reg, .act .commit, .unlock .reg,
      .lock .paths, .act .push, .unlock .paths, .unlock .yaml]
  | .rust, .reload =>
    [.lock .paths, .act .snapshot, .unlock .paths, .act .check, .act .build,
      .lock .yaml, .lock .reg, .await .reg, .act .swap, .unlock .reg, .unlock .yaml]
  | .rust, .lookup => [.rlock .reg, .act .lookup, .runlock .reg]
  | .go, .load =>
    [.act .build, .lock .yaml, .lock .reg, .await .reg, .act .commit, .act .push,
      .unlock .reg, .unlock .yaml]
  | .go, .reload =>
    [.lock .yaml, .act .snapshot, .unlock .yaml, .act .check, .act .build,
      .lock .reg, .await .reg, .lock .yaml, .act .swap, .unlock .yaml, .unlock .reg]
  | .go, .lookup => [.rlock .reg, .act .lookup, .runlock .reg]
  | .python, .load => [.act .build, .lock .yaml, .act .commit, .act .push, .unlock .yaml]
  | .python, .reload =>
    [.act .isEmpty, .act .snapshot, .act .build, .lock .yaml, .act .swap, .unlock .yaml]
  | .python, .lookup => [.act .lookup]

/-- What is left of a `load` that is refused under its locks. -/
def cleanup : Sdk → Program
  | .rust | .go => [.unlock .reg, .unlock .yaml]
  | .python => [.unlock .yaml]

/-- A call and what it has in hand. -/
structure Task where
  request : Request
  todo : Program
  fresh : List (String × Declared)
  paths : List Path
  error : Option CatalogError
  deriving DecidableEq

def Task.start (sdk : Sdk) (r : Request) : Task := ⟨r, program sdk r.kind, [], [], none⟩

structure System where
  catalog : Catalog
  locks : Locks.State Mutex
  tasks : List Task

def System.new (c : Catalog) : System := ⟨c, .free, []⟩

inductive Label where
  | call (r : Request)
  | move (i : Nat)
  deriving DecidableEq

/-- A call has taken effect. -/
structure Took where
  call : Nat
  request : Request
  deriving DecidableEq

/-- The files a call reads. -/
def Task.reads (t : Task) : List Path :=
  match t.request with
  | .load path => [path]
  | .reload => t.paths
  | .lookup _ => []

/-- The path of a `load`. -/
def Task.path (t : Task) : Path :=
  match t.request with
  | .load path => path
  | _ => ""

/-- What a step other than locking does to the catalog and to its call, and whether the call has then
    taken effect. -/
def act (sdk : Sdk) (files : Files sdk) (c : Catalog) (t : Task) (rest : Program) :
    Act → Catalog × Task × Bool
  | .build =>
    match build sdk files t.reads with
    | .ok fresh => (c, { t with todo := rest, fresh := fresh }, false)
    | .error e => (c, { t with todo := [], error := some e }, false)
  | .commit =>
    match clash sdk c t.path t.fresh with
    | some e => (c, { t with todo := cleanup sdk, error := some e }, false)
    | none => (c.commit t.fresh, { t with todo := rest }, false)
  | .push => (c.push t.path, { t with todo := rest }, true)
  | .isEmpty =>
    if c.paths = [] then (c, { t with todo := [] }, true) else (c, { t with todo := rest }, false)
  | .snapshot => (c, { t with todo := rest, paths := c.paths }, decide (c.paths = []))
  | .check =>
    if t.paths = [] then (c, { t with todo := [] }, false) else (c, { t with todo := rest }, false)
  | .swap => (c.swap t.fresh, { t with todo := rest }, true)
  | .lookup => (c, { t with todo := rest }, true)

namespace System

variable (sdk : Sdk) (files : Files sdk)

/-- Call `i` does its next step. -/
def move (s : System) (i : Nat) (t : Task) : Option (System × List Took) :=
  match t.todo with
  | [] => none
  | .act a :: rest =>
    let r := act sdk files s.catalog t rest a
    some ({ s with catalog := r.1, tasks := s.tasks.set i r.2.1 },
      if r.2.2 then [⟨i, t.request⟩] else [])
  | ins :: rest =>
    (s.locks.exec i ins).map fun locks =>
      ({ s with locks := locks, tasks := s.tasks.set i { t with todo := rest } }, [])

def step (s : System) : Label → Option (System × List Took)
  | .call r => some ({ s with tasks := s.tasks ++ [.start sdk r] }, [])
  | .move i => (s.tasks[i]?).bind (s.move sdk files i)

/-- The programs that are left. -/
def todos (s : System) : List Program := s.tasks.map Task.todo

end System

abbrev World := Trace.World System Took

/-! ## The places of a call -/

instance : Fintype Mutex where
  elems := {.yaml, .reg, .paths}
  complete m := by cases m <;> simp

/-- Two lists of steps that hold the same locks. -/
def SameHeld (todo todo' : Program) : Prop :=
  ∀ m, holds m todo' = holds m todo ∧ reads m todo' = reads m todo

instance (todo todo' : Program) : Decidable (SameHeld todo todo') :=
  inferInstanceAs (Decidable (∀ m, holds m todo' = holds m todo ∧ reads m todo' = reads m todo))

section Places

variable {sdk : Sdk} {kind : Kind} {rest todo : Program}

theorem wellLocked_program (h : todo <:+ program sdk kind) : wellLocked todo = true := by
  rw [← List.mem_tails] at h
  revert todo
  cases sdk <;> cases kind <;> decide

theorem program_held (m : Mutex) :
    holds m (program sdk kind) = false ∧ Locks.reads m (program sdk kind) = false := by
  revert m
  cases sdk <;> cases kind <;> decide

/-- Reading the files is done without locks. -/
theorem place_build (h : (.act .build :: rest) <:+ program sdk kind) : SameHeld rest []
    ∧ (kind = .load ∧ .act .push ∈ rest ∧ .act .commit ∈ rest
      ∨ kind = .reload ∧ .act .swap ∈ rest ∧ .act .snapshot ∉ rest ∧ .act .check ∉ rest
        ∧ .act .isEmpty ∉ rest) := by
  rw [← List.mem_tails] at h
  cases sdk <;> cases kind <;> simp [program] at h <;> subst h <;> decide

theorem place_commit (h : (.act .commit :: rest) <:+ program sdk kind) : kind = .load
    ∧ SameHeld rest (cleanup sdk) ∧ holds .yaml rest = true ∧ .act .push ∈ rest
    ∧ .act .commit ∉ rest ∧ .act .build ∉ rest := by
  rw [← List.mem_tails] at h
  cases sdk <;> cases kind <;> simp [program] at h <;> subst h <;> decide

theorem place_push (h : (.act .push :: rest) <:+ program sdk kind) : kind = .load
    ∧ .act .push ∉ rest ∧ .act .commit ∉ rest ∧ .act .build ∉ rest := by
  rw [← List.mem_tails] at h
  cases sdk <;> cases kind <;> simp [program] at h <;> subst h <;> decide

theorem place_isEmpty (h : (.act .isEmpty :: rest) <:+ program sdk kind) : kind = .reload
    ∧ SameHeld rest [] ∧ .act .snapshot ∈ rest ∧ .act .swap ∈ rest ∧ .act .build ∈ rest := by
  rw [← List.mem_tails] at h
  cases sdk <;> cases kind <;> simp [program] at h
  subst h
  decide

theorem place_snapshot (h : (.act .snapshot :: rest) <:+ program sdk kind) : kind = .reload
    ∧ .act .snapshot ∉ rest ∧ .act .swap ∈ rest ∧ .act .build ∈ rest
    ∧ (.act .check ∈ rest ∨ .act .isEmpty ∉ rest ∧ .act .check ∉ rest) := by
  rw [← List.mem_tails] at h
  cases sdk <;> cases kind <;> simp [program] at h <;> subst h <;> decide

theorem place_check (h : (.act .check :: rest) <:+ program sdk kind) : kind = .reload
    ∧ SameHeld rest [] ∧ .act .snapshot ∉ rest ∧ .act .swap ∈ rest ∧ .act .build ∈ rest := by
  rw [← List.mem_tails] at h
  cases sdk <;> cases kind <;> simp [program] at h <;> subst h <;> decide

theorem place_swap (h : (.act .swap :: rest) <:+ program sdk kind) : kind = .reload
    ∧ holds .yaml rest = true ∧ .act .swap ∉ rest ∧ .act .snapshot ∉ rest ∧ .act .check ∉ rest
    ∧ .act .isEmpty ∉ rest ∧ .act .build ∉ rest := by
  rw [← List.mem_tails] at h
  cases sdk <;> cases kind <;> simp [program] at h <;> subst h <;> decide

theorem place_lookup (h : (.act .lookup :: rest) <:+ program sdk kind) : kind = .lookup
    ∧ .act .lookup ∉ rest := by
  rw [← List.mem_tails] at h
  cases sdk <;> cases kind <;> simp [program] at h <;> subst h <;> decide

/-- Only a `reload` swaps. -/
theorem kind_of_swap (h : todo <:+ program sdk kind) (hswap : .act .swap ∈ todo) : kind = .reload := by
  rw [← List.mem_tails] at h
  revert todo
  cases sdk <;> cases kind <;> decide

/-- Between its commit and its push a `load` has the yaml lock. -/
theorem place_between (h : todo <:+ program sdk kind) (hpush : .act .push ∈ todo)
    (hcommit : .act .commit ∉ todo) :
    holds .yaml todo = true ∧ kind = .load ∧ .act .build ∉ todo := by
  rw [← List.mem_tails] at h
  revert todo
  cases sdk <;> cases kind <;> decide

/-- A call that is at one of its other steps has not committed without its push. -/
theorem place_quiet {a : Act} (h : (.act a :: rest) <:+ program sdk kind)
    (ha : a ≠ .commit ∧ a ≠ .push ∧ a ≠ .swap) (hpush : .act .push ∈ rest) :
    .act .commit ∈ rest := by
  rw [← List.mem_tails] at h
  cases a <;> simp at ha <;> cases sdk <;> cases kind <;> simp [program] at h <;> subst h <;>
    revert hpush <;> decide

end Places

end Fasten.Codes
