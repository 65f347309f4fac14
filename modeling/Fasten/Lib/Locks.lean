import Mathlib.Data.List.Basic
import Mathlib.Order.Basic

set_option autoImplicit false

/-! # Threads that take locks

A thread runs through a list of instructions: it locks and unlocks mutexes and read-write locks, and
does other things in between. A writer of a read-write lock first announces itself, which keeps new
readers out, and then waits until the last reader has left. What a thread holds can be read off the
instructions it has left. -/

namespace Locks

variable {μ α : Type}

inductive Instr (μ α : Type) where
  /-- Take a mutex, or announce a writer. -/
  | lock (m : μ)
  /-- As a writer, wait for the readers. -/
  | await (m : μ)
  | unlock (m : μ)
  | rlock (m : μ)
  | runlock (m : μ)
  | act (a : α)
  deriving DecidableEq

/-- Who holds what. -/
structure State (μ : Type) where
  writer : μ → Option Nat
  readers : μ → List Nat

def State.free : State μ := ⟨fun _ => none, fun _ => []⟩

variable [DecidableEq μ]

/-- Thread `i` executes an instruction, unless it has to wait. -/
def State.exec (s : State μ) (i : Nat) : Instr μ α → Option (State μ)
  | .lock m =>
    if s.writer m = none then some { s with writer := Function.update s.writer m (some i) } else none
  | .await m => if s.readers m = [] then some s else none
  | .unlock m => some { s with writer := Function.update s.writer m none }
  | .rlock m =>
    if s.writer m = none then
      some { s with readers := Function.update s.readers m (i :: s.readers m) }
    else none
  | .runlock m =>
    some { s with readers := Function.update s.readers m ((s.readers m).filter (· ≠ i)) }
  | .act _ => some s

/-- The lock an instruction may wait for. -/
def Instr.wants : Instr μ α → Option μ
  | .lock m | .await m | .rlock m => some m
  | _ => none

/-- Whether a thread with these instructions left is the writer of `m`. -/
def holds (m : μ) : List (Instr μ α) → Bool
  | [] => false
  | .lock m' :: rest => if m' = m then false else holds m rest
  | .unlock m' :: rest => if m' = m then true else holds m rest
  | _ :: rest => holds m rest

/-- Whether it is a reader of `m`. -/
def reads (m : μ) : List (Instr μ α) → Bool
  | [] => false
  | .rlock m' :: rest => if m' = m then false else reads m rest
  | .runlock m' :: rest => if m' = m then true else reads m rest
  | _ :: rest => reads m rest

/-- Locking and unlocking take turns. -/
def wellLocked : List (Instr μ α) → Bool
  | [] => true
  | .lock m :: rest => holds m rest && wellLocked rest
  | .unlock m :: rest => !holds m rest && wellLocked rest
  | .rlock m :: rest => reads m rest && wellLocked rest
  | .runlock m :: rest => !reads m rest && wellLocked rest
  | _ :: rest => wellLocked rest

/-! ## Who holds a lock -/

/-- The locks are held by the threads whose instructions say so. -/
structure Owned (s : State μ) (todos : List (List (Instr μ α))) : Prop where
  writer : ∀ m i, s.writer m = some i ↔ (todos[i]?).any (holds m) = true
  reader : ∀ m i, i ∈ s.readers m ↔ (todos[i]?).any (reads m) = true

section Lists

variable {β : Type} {p : β → Bool} {l : List β} {i j : Nat} {x y : β}

theorem any_set_self (hi : l[i]? = some x) : ((l.set i y)[i]?).any p = p y := by
  rw [List.getElem?_set_self (List.getElem?_eq_some_iff.1 hi).1]
  rfl

theorem any_set_ne (hij : i ≠ j) : ((l.set i y)[j]?).any p = (l[j]?).any p := by
  rw [List.getElem?_set_ne hij]

/-- A thread that moves on and still holds what it held. -/
theorem any_set_same (hi : l[i]? = some x) (hp : p y = p x) :
    ((l.set i y)[j]?).any p = (l[j]?).any p := by
  by_cases hij : i = j
  · subst hij
    rw [any_set_self hi, hi, hp]
    rfl
  · exact any_set_ne hij

end Lists

variable {s s' : State μ} {todos : List (List (Instr μ α))} {i : Nat}

/-- No two threads write at one time. -/
theorem Owned.unique (h : Owned s todos) {m : μ} {j : Nat} (hi : (todos[i]?).any (holds m) = true)
    (hj : (todos[j]?).any (holds m) = true) : i = j := by
  have hboth := ((h.writer m i).2 hi).symm.trans ((h.writer m j).2 hj)
  exact Option.some.inj hboth

/-- A thread gets or gives away one lock. -/
theorem owns_set {owns owns' : μ → Nat → Prop} {p : μ → List (Instr μ α) → Bool} {m : μ}
    {todo rest : List (Instr μ α)} (h : ∀ m j, owns m j ↔ (todos[j]?).any (p m) = true)
    (hi : todos[i]? = some todo)
    (hother : ∀ m', m' ≠ m → p m' rest = p m' todo ∧ owns' m' = owns m')
    (hself : ∀ j, j ≠ i → (owns' m j ↔ owns m j)) (hmine : owns' m i ↔ p m rest = true) (m' : μ)
    (j : Nat) : owns' m' j ↔ ((todos.set i rest)[j]?).any (p m') = true := by
  by_cases hm : m' = m
  · subst hm
    by_cases hij : i = j
    · subst hij
      rw [any_set_self hi, hmine]
    · rw [any_set_ne hij, hself j (Ne.symm hij), h]
  · obtain ⟨hp, howns⟩ := hother m' hm
    rw [any_set_same hi hp, howns, h]

/-- **A thread that executes an instruction** leaves every lock with its holders. -/
theorem Owned.exec (h : Owned s todos) {ins : Instr μ α} {rest : List (Instr μ α)}
    (hi : todos[i]? = some (ins :: rest)) (hwell : wellLocked (ins :: rest) = true)
    (hexec : s.exec i ins = some s') : Owned s' (todos.set i rest) := by
  have hwriter : (∀ m, holds m rest = holds m (ins :: rest)) → ∀ m j,
      s.writer m = some j ↔ ((todos.set i rest)[j]?).any (holds m) = true :=
    fun hsame m j => by rw [h.writer m j, any_set_same hi (hsame m)]
  have hreader : (∀ m, reads m rest = reads m (ins :: rest)) → ∀ m j,
      j ∈ s.readers m ↔ ((todos.set i rest)[j]?).any (reads m) = true :=
    fun hsame m j => by rw [h.reader m j, any_set_same hi (hsame m)]
  cases ins with
  | lock m =>
    simp only [State.exec] at hexec
    split_ifs at hexec with hfree
    cases hexec
    simp only [wellLocked, Bool.and_eq_true] at hwell
    refine ⟨owns_set (m := m) h.writer hi (fun m' hm => ?_) (fun j hj => ?_) ?_,
      hreader fun _ => rfl⟩
    · simp [holds, Ne.symm hm, Function.update_of_ne hm]
    · simp [hfree, Ne.symm hj]
    · simp [hwell.1]
  | unlock m =>
    cases hexec
    simp only [wellLocked, Bool.and_eq_true, Bool.not_eq_true'] at hwell
    have hheld : s.writer m = some i := by
      rw [h.writer m i, hi]
      simp [holds]
    refine ⟨owns_set (m := m) h.writer hi (fun m' hm => ?_) (fun j hj => ?_) ?_,
      hreader fun _ => rfl⟩
    · simp [holds, Ne.symm hm, Function.update_of_ne hm]
    · simp [hheld, Ne.symm hj]
    · simp [hwell.1]
  | rlock m =>
    simp only [State.exec] at hexec
    split_ifs at hexec with hfree
    cases hexec
    simp only [wellLocked, Bool.and_eq_true] at hwell
    refine ⟨hwriter fun _ => rfl,
      owns_set (m := m) h.reader hi (fun m' hm => ?_) (fun j hj => ?_) ?_⟩
    · simp [reads, Ne.symm hm, Function.update_of_ne hm]
    · simp [hj]
    · simp [hwell.1]
  | runlock m =>
    cases hexec
    simp only [wellLocked, Bool.and_eq_true, Bool.not_eq_true'] at hwell
    refine ⟨hwriter fun _ => rfl,
      owns_set (m := m) h.reader hi (fun m' hm => ?_) (fun j hj => ?_) ?_⟩
    · simp [reads, Ne.symm hm, Function.update_of_ne hm]
    · simp [hj]
    · simp [hwell.1]
  | await m =>
    simp only [State.exec] at hexec
    split_ifs at hexec
    cases hexec
    exact ⟨hwriter fun _ => rfl, hreader fun _ => rfl⟩
  | act a =>
    cases hexec
    exact ⟨hwriter fun _ => rfl, hreader fun _ => rfl⟩

/-- A thread may go on elsewhere, with the same locks. -/
theorem Owned.jump (h : Owned s todos) {todo todo' : List (Instr μ α)}
    (hi : todos[i]? = some todo)
    (hsame : ∀ m, holds m todo' = holds m todo ∧ reads m todo' = reads m todo) :
    Owned s (todos.set i todo') :=
  ⟨fun m j => (h.writer m j).trans (by rw [any_set_same hi (hsame m).1]),
    fun m j => (h.reader m j).trans (by rw [any_set_same hi (hsame m).2])⟩

/-- A thread that begins holds nothing. -/
theorem Owned.begin (h : Owned s todos) {todo : List (Instr μ α)}
    (hnone : ∀ m, holds m todo = false ∧ reads m todo = false) : Owned s (todos ++ [todo]) := by
  have happend : ∀ {p : List (Instr μ α) → Bool} {j : Nat}, p todo = false →
      ((todos ++ [todo])[j]?).any p = (todos[j]?).any p := by
    intro p j hp
    by_cases hj : j < todos.length
    · rw [List.getElem?_append_left hj]
    · rw [List.getElem?_append_right (Nat.le_of_not_lt hj),
        List.getElem?_eq_none (Nat.le_of_not_lt hj)]
      cases hlast : [todo][j - todos.length]? with
      | none => rfl
      | some x =>
        rw [List.mem_singleton.1 (List.mem_of_getElem? hlast)]
        exact hp
  exact ⟨fun m j => by rw [h.writer m j, happend (hnone m).1],
    fun m j => by rw [h.reader m j, happend (hnone m).2]⟩

theorem owned_free : Owned (State.free : State μ) ([] : List (List (Instr μ α))) :=
  ⟨fun m i => by simp [State.free], fun m i => by simp [State.free]⟩

/-! ## Deadlock -/

/-- Thread `i` cannot execute its next instruction, which wants `m`. -/
def BlockedOn (s : State μ) (todos : List (List (Instr μ α))) (i : Nat) (m : μ) : Prop :=
  ∃ ins rest, todos[i]? = some (ins :: rest) ∧ s.exec i ins = none ∧ ins.wants = some m

/-- Some thread has not come to its end, and each one that has not is blocked on a lock that another
    blocked thread holds. -/
def Deadlocked (s : State μ) (todos : List (List (Instr μ α))) : Prop :=
  (∃ (i : Nat) (ins : Instr μ α) (rest : List (Instr μ α)), todos[i]? = some (ins :: rest))
    ∧ ∀ (i : Nat) (ins : Instr μ α) (rest : List (Instr μ α)), todos[i]? = some (ins :: rest) →
      ∃ m j m', BlockedOn s todos i m ∧ j ≠ i
        ∧ (s.writer m = some j ∨ j ∈ s.readers m) ∧ BlockedOn s todos j m'

/-- A thread that wants a lock has none of the same or a higher rank. -/
def RankedHead (rank : μ → Nat) (todo : List (Instr μ α)) : Prop :=
  match todo with
  | .lock m :: _ | .rlock m :: _ =>
    ∀ m', holds m' todo = true ∨ reads m' todo = true → rank m' < rank m
  | .await m :: _ =>
    ∀ m', holds m' todo = true ∧ m' ≠ m ∨ reads m' todo = true → rank m' < rank m
  | _ => True

section Ranked

variable {rank : μ → Nat} {m m' : μ}

/-- A reader that is blocked wants a lock of higher rank. -/
theorem Owned.rank_lt_of_reader (h : Owned s todos)
    (hranked : ∀ (i : Nat) (todo : List (Instr μ α)), todos[i]? = some todo → RankedHead rank todo)
    (hreader : i ∈ s.readers m) (hblocked : BlockedOn s todos i m') : rank m < rank m' := by
  obtain ⟨ins, rest, hi, -, hwants⟩ := hblocked
  have hhead := hranked i _ hi
  have hreads := (h.reader m i).1 hreader
  rw [hi, Option.any_some] at hreads
  cases ins with
  | lock | await | rlock =>
    cases hwants
    exact hhead m (Or.inr hreads)
  | unlock | runlock | act => cases hwants

/-- So does a writer, unless it waits for the readers of its own lock. -/
theorem Owned.rank_lt_of_writer (h : Owned s todos)
    (hranked : ∀ (i : Nat) (todo : List (Instr μ α)), todos[i]? = some todo → RankedHead rank todo)
    (hwriter : s.writer m = some i) (hblocked : BlockedOn s todos i m') :
    rank m < rank m' ∨ ∃ rest, todos[i]? = some (.await m :: rest) := by
  obtain ⟨ins, rest, hi, -, hwants⟩ := hblocked
  have hhead := hranked i _ hi
  have hholds := (h.writer m i).1 hwriter
  rw [hi, Option.any_some] at hholds
  cases ins with
  | lock k =>
    cases hwants
    exact Or.inl (hhead m (Or.inl hholds))
  | await k =>
    cases hwants
    by_cases hm : m = m'
    · subst hm
      exact Or.inr ⟨rest, hi⟩
    · exact Or.inl (hhead m (Or.inl ⟨hholds, hm⟩))
  | rlock k =>
    cases hwants
    exact Or.inl (hhead m (Or.inl hholds))
  | unlock | runlock | act => cases hwants

theorem BlockedOn.unique (h : BlockedOn s todos i m) (h' : BlockedOn s todos i m') : m = m' := by
  obtain ⟨ins, rest, hi, -, hwants⟩ := h
  obtain ⟨ins', rest', hi', -, hwants'⟩ := h'
  cases hi.symm.trans hi'
  exact Option.some.inj (hwants.symm.trans hwants')

/-- **Locks taken in the order of a rank** do not deadlock. -/
theorem Owned.not_deadlocked (h : Owned s todos) {bound : Nat} (hbound : ∀ m, rank m < bound)
    (hranked : ∀ (i : Nat) (todo : List (Instr μ α)), todos[i]? = some todo → RankedHead rank todo) :
    ¬Deadlocked s todos := by
  intro ⟨⟨i, ins, rest, hi⟩, hall⟩
  -- behind every blocked thread there is one that is blocked at a higher rank
  have hup : ∀ i m, BlockedOn s todos i m → ∃ j m', BlockedOn s todos j m' ∧ rank m < rank m' := by
    intro i m hblocked
    have ⟨ins, rest, hi, _, _⟩ := hblocked
    obtain ⟨k, j, m', hk, -, hholder, hj⟩ := hall i ins rest hi
    cases hblocked.unique hk
    rcases hholder with hwriter | hreader
    · rcases h.rank_lt_of_writer hranked hwriter hj with hlt | ⟨rest', hawait⟩
      · exact ⟨j, m', hj, hlt⟩
      · -- the writer waits for a reader, which is blocked as well
        obtain ⟨k', j', m'', hk', hne, hholder', hj'⟩ := hall j _ _ hawait
        have hown : k' = m := by
          obtain ⟨ins', rest'', hi', -, hwants⟩ := hk'
          cases hawait.symm.trans hi'
          exact (Option.some.inj hwants).symm
        subst hown
        rcases hholder' with hwriter' | hreader'
        · exact absurd (Option.some.inj (hwriter'.symm.trans hwriter)) hne
        · exact ⟨j', m'', hj', h.rank_lt_of_reader hranked hreader' hj'⟩
    · exact ⟨j, m', hj, h.rank_lt_of_reader hranked hreader hj⟩
  have hclimb : ∀ n, ∃ j m, BlockedOn s todos j m ∧ n ≤ rank m := by
    intro n
    induction n with
    | zero =>
      obtain ⟨m, -, -, hm, -⟩ := hall i ins rest hi
      exact ⟨i, m, hm, Nat.zero_le _⟩
    | succ n ih =>
      obtain ⟨j, m, hj, hle⟩ := ih
      obtain ⟨j', m', hj', hlt⟩ := hup j m hj
      exact ⟨j', m', hj', by omega⟩
  obtain ⟨-, m, -, hle⟩ := hclimb bound
  exact absurd (hbound m) (Nat.not_lt.2 hle)

/-- A thread that has to wait waits for another one. -/
theorem Owned.blockedOn (h : Owned s todos)
    (hranked : ∀ (i : Nat) (todo : List (Instr μ α)), todos[i]? = some todo → RankedHead rank todo)
    {ins : Instr μ α} {rest : List (Instr μ α)} (hi : todos[i]? = some (ins :: rest))
    (hexec : s.exec i ins = none) :
    ∃ m j, BlockedOn s todos i m ∧ j ≠ i ∧ (s.writer m = some j ∨ j ∈ s.readers m) := by
  have hother : ∀ {m j}, ins.wants = some m → (∀ m, ins ≠ .await m) → s.writer m = some j →
      ∃ m j, BlockedOn s todos i m ∧ j ≠ i ∧ (s.writer m = some j ∨ j ∈ s.readers m) := by
    intro m j hwants hins hwriter
    have hblocked : BlockedOn s todos i m := ⟨ins, rest, hi, hexec, hwants⟩
    refine ⟨m, j, hblocked, ?_, Or.inl hwriter⟩
    rintro rfl
    rcases h.rank_lt_of_writer hranked hwriter hblocked with hlt | ⟨rest', hawait⟩
    · exact Nat.lt_irrefl _ hlt
    · cases hi.symm.trans hawait
      exact hins m rfl
  cases ins with
  | lock m =>
    simp only [State.exec, ite_eq_right_iff, reduceCtorEq, imp_false] at hexec
    obtain ⟨j, hj⟩ := Option.ne_none_iff_exists'.1 hexec
    exact hother rfl (by simp) hj
  | await m =>
    have hreaders : s.readers m ≠ [] := by
      simpa only [State.exec, ite_eq_right_iff, reduceCtorEq, imp_false] using hexec
    obtain ⟨j, hj⟩ := List.exists_mem_of_ne_nil _ hreaders
    have hblocked : BlockedOn s todos i m := ⟨_, rest, hi, hexec, rfl⟩
    refine ⟨m, j, hblocked, ?_, Or.inr hj⟩
    rintro rfl
    exact Nat.lt_irrefl _ (h.rank_lt_of_reader hranked hj hblocked)
  | rlock m =>
    simp only [State.exec, ite_eq_right_iff, reduceCtorEq, imp_false] at hexec
    obtain ⟨j, hj⟩ := Option.ne_none_iff_exists'.1 hexec
    exact hother rfl (by simp) hj
  | unlock | runlock | act => cases hexec

omit [DecidableEq μ] in
/-- A thread that holds something has not come to its end. -/
theorem exists_cons_of_any {p : List (Instr μ α) → Bool} (hnil : p [] = false)
    (h : (todos[i]?).any p = true) : ∃ ins rest, todos[i]? = some (ins :: rest) := by
  obtain ⟨todo, hi, htodo⟩ := (Option.any_eq_true ..).1 h
  cases todo with
  | nil => exact absurd (htodo.symm.trans hnil) (by decide)
  | cons ins rest => exact ⟨ins, rest, hi⟩

/-- **Of threads that lock in the order of a rank** one can go on, until all have come to their
    ends. -/
theorem Owned.exists_exec (h : Owned s todos) {bound : Nat} (hbound : ∀ m, rank m < bound)
    (hranked : ∀ (i : Nat) (todo : List (Instr μ α)), todos[i]? = some todo → RankedHead rank todo)
    {ins : Instr μ α} {rest : List (Instr μ α)} (hi : todos[i]? = some (ins :: rest)) :
    ∃ (j : Nat) (ins' : Instr μ α) (rest' : List (Instr μ α)),
      todos[j]? = some (ins' :: rest') ∧ (s.exec j ins').isSome = true := by
  by_contra hnone
  have hstuck : ∀ (j : Nat) (ins' : Instr μ α) (rest' : List (Instr μ α)),
      todos[j]? = some (ins' :: rest') → s.exec j ins' = none := by
    intro j ins' rest' hj
    by_contra hexec
    exact hnone ⟨j, ins', rest', hj, Option.isSome_iff_ne_none.2 hexec⟩
  refine h.not_deadlocked hbound hranked ⟨⟨i, ins, rest, hi⟩, fun j ins' rest' hj => ?_⟩
  obtain ⟨m, k, hblocked, hne, hholder⟩ := h.blockedOn hranked hj (hstuck j ins' rest' hj)
  -- the holder is not at its end, so it is one of the threads that are stuck
  obtain ⟨ins'', rest'', hk⟩ : ∃ ins rest, todos[k]? = some (ins :: rest) := by
    rcases hholder with hwriter | hreader
    · exact exists_cons_of_any rfl ((h.writer m k).1 hwriter)
    · exact exists_cons_of_any rfl ((h.reader m k).1 hreader)
  obtain ⟨m', -, hblocked', -⟩ := h.blockedOn hranked hk (hstuck k ins'' rest'' hk)
  exact ⟨m, k, m', hblocked, hne, hholder, hblocked'⟩

end Ranked

end Locks
