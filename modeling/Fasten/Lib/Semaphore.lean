import Mathlib.Tactic

set_option autoImplicit false

/-! # A counting semaphore with waiters

A bounded number of slots and the parties that want one, by number: those that are about to look for a
slot, those that wait, and those that hold one. A party that finds no slot waits until it is woken and
then looks again. A release frees a slot, unless all are free, and wakes one party; all slots can also
be freed at once. A holder may give its slot away, to something that is not a party. -/

structure Semaphore where
  available : Nat
  trying : Nat
  waiting : Nat
  holding : Nat

namespace Semaphore

/-- One waiting party, if there is one, looks for a slot again. -/
def WakesOne (s s' : Semaphore) : Prop :=
  s'.waiting + s'.trying = s.waiting + s.trying
    ∧ (s'.waiting + 1 = s.waiting ∨ s.waiting = 0 ∧ s'.waiting = 0)

/-- The number of free slots after a release. -/
def freed (capacity available : Nat) : Nat :=
  if available < capacity then available + 1 else available

/-- What can happen to the slots and the parties. -/
inductive Step (capacity : Nat) (s s' : Semaphore) : Prop where
  /-- Parties come, or stop looking before they have looked. -/
  | come (havailable : s'.available = s.available) (htrying : s.trying ≤ s'.trying)
      (hwaiting : s'.waiting = s.waiting) (hholding : s'.holding = s.holding)
  | wait (hnone : s.available = 0) (havailable : s'.available = 0)
      (htrying : s'.trying + 1 = s.trying) (hwaiting : s'.waiting = s.waiting + 1)
      (hholding : s'.holding = s.holding)
  /-- A waiting party looks again, woken or not. -/
  | wake (havailable : s'.available = s.available) (htrying : s'.trying = s.trying + 1)
      (hwaiting : s'.waiting + 1 = s.waiting) (hholding : s'.holding = s.holding)
  | acquire (havailable : s'.available + 1 = s.available) (htrying : s'.trying + 1 = s.trying)
      (hwaiting : s'.waiting = s.waiting) (hholding : s'.holding = s.holding + 1)
  /-- A holder, or something that was given a slot, frees it. -/
  | release (havailable : s'.available = freed capacity s.available) (hwakes : WakesOne s s')
      (hholding : s.holding ≤ s'.holding + 1)
  | releaseAll (havailable : s'.available = capacity) (hwaiting : s'.waiting = 0)
      (hholding : s'.holding = s.holding)

/-- A holder gives its slot away. -/
def Gives (s s' : Semaphore) : Prop :=
  s'.available = s.available ∧ s'.trying = s.trying ∧ s'.waiting = s.waiting
    ∧ s'.holding + 1 = s.holding

/-- No slot too many, and no lost wake-up: while a party waits, each free slot has a party that is about
    to look for it. -/
structure Ok (capacity : Nat) (s : Semaphore) : Prop where
  available_le : s.available ≤ capacity
  woken : 0 < s.waiting → s.available ≤ s.trying

variable {capacity : Nat} {s s' : Semaphore}

theorem freed_le (h : s.available ≤ capacity) : freed capacity s.available ≤ capacity := by
  unfold freed
  split_ifs <;> omega

theorem freed_le_succ (capacity : Nat) (s : Semaphore) :
    freed capacity s.available ≤ s.available + 1 := by
  unfold freed
  split_ifs <;> omega

/-- After a release all slots are free, or one more is. -/
theorem freed_eq (h : s.available ≤ capacity) :
    freed capacity s.available = capacity ∨ freed capacity s.available = s.available + 1 := by
  unfold freed
  split_ifs <;> omega

theorem Ok.step (hs : s.Ok capacity) (h : Step capacity s s') : s'.Ok capacity := by
  obtain ⟨hle, hwoken⟩ := hs
  cases h with
  | come | wait | wake | acquire => exact ⟨by omega, fun _ => by omega⟩
  | release havailable hwakes hholding =>
    -- the party that is woken goes with the slot that is freed
    have hfreed := freed_le_succ capacity s
    obtain ⟨hsum, hone | hnone⟩ := hwakes
    · exact ⟨havailable ▸ freed_le hle, fun _ => by omega⟩
    · exact ⟨havailable ▸ freed_le hle, fun _ => by omega⟩
  | releaseAll havailable hwaiting hholding => exact ⟨by omega, fun _ => by omega⟩

theorem Ok.gives (hs : s.Ok capacity) (h : Gives s s') : s'.Ok capacity := by
  obtain ⟨hle, hwoken⟩ := hs
  obtain ⟨havailable, htrying, hwaiting, -⟩ := h
  exact ⟨by omega, fun _ => by omega⟩

/-- Once all slots have been freed, each one is free or has a holder, as long as no slot is given
    away; slots that were given away before only make more of them free. -/
theorem Step.all_freed (h : Step capacity s s') (hle : s.available ≤ capacity)
    (hall : capacity ≤ s.available + s.holding) : capacity ≤ s'.available + s'.holding := by
  cases h with
  | come | wait | wake | acquire => omega
  | release havailable hwakes hholding =>
    rcases freed_eq hle with hfreed | hfreed <;> omega
  | releaseAll havailable hwaiting hholding => omega

/-- **Nobody waits for nothing**: once all slots have been freed, a party that waits has another one
    that holds a slot, or is about to get a free one. -/
theorem Ok.exists_of_waiting (hs : s.Ok capacity) (hpos : 0 < capacity)
    (hall : capacity ≤ s.available + s.holding) (hwaiting : 0 < s.waiting) :
    0 < s.holding ∨ 0 < s.available ∧ 0 < s.trying := by
  have hwoken := hs.woken hwaiting
  omega

end Semaphore
