import Fasten.Drainer.Refines

set_option autoImplicit false

/-! # Who holds the slots

Until `stop` is called every slot of `Sem` is free, or belongs to a queued row, to the thread's row or to
a call that has not pushed its row yet. `stop` then frees all slots at once, and from there on their
number says nothing of the rows. -/

namespace Fasten.Core

/-- The call has a slot that it has not given to its row. -/
def Call.holdsSlot : Call → Bool
  | .enqueue _ place => place.holds
  | _ => false

/-- A place that a call reaches only once `stop` is set. -/
def Call.afterStop : Call → Bool
  | .enqueue _ .releasing => true
  | .stop .entered => false
  | .stop _ => true
  | _ => false

theorem Call.holdsSlot_unpark (c : Call) : c.unpark.holdsSlot = c.holdsSlot :=
  Call.of_unpark _ (fun _ => rfl) c

theorem Call.afterStop_unpark (c : Call) : c.unpark.afterStop = c.afterStop :=
  Call.of_unpark _ (fun _ => rfl) c

/-! ## Counting calls -/

section CountP

variable {p : Call → Bool} {calls calls' : List Call} {i : Nat} {c : Call}

theorem countP_of_sameCalls (hp : ∀ c, p c.unpark = p c) (h : SameCalls calls calls') :
    calls'.countP p = calls.countP p := by
  have hmap : ∀ calls : List Call, (calls.map Call.unpark).countP p = calls.countP p := by
    intro calls
    rw [List.countP_map]
    exact List.countP_congr fun c _ => by rw [Function.comp_apply, hp c]
  rw [← hmap calls', h, hmap]

/-- A call that moves on counts for its new place and no more for its old one. -/
theorem countP_set (hi : calls[i]? = some c) (c' : Call) :
    (calls.set i c').countP p + (p c).toNat = calls.countP p + (p c').toNat := by
  induction calls generalizing i with
  | nil => cases hi
  | cons x rest ih =>
    cases i with
    | zero =>
      cases hi
      simp only [List.set_cons_zero, List.countP_cons]
      cases p c <;> cases p c' <;> simp
    | succ i =>
      have hrest := ih (i := i) hi
      simp only [List.set_cons_succ, List.countP_cons]
      omega

end CountP

/-! ## The balance -/

structure Slots (d : Drainer) : Prop where
  afterStop : ∀ i, callIs Call.afterStop d.calls i = true → d.stop = true
  balance : d.stop = false → d.available + d.queue.length + d.thread.entry.toList.length
    + d.calls.countP Call.holdsSlot = d.cfg.capacity

variable {d d' : Drainer} {es : List Event}

theorem DrainerStep.stop_mono (h : DrainerStep d d' es) (hstop : d.stop = true) :
    d'.stop = true := by
  cases h with
  | call | wake | flush => exact hstop
  | enqueue hi h => cases h <;> exact hstop
  | stop hi h =>
    cases h with
    | close => rfl
    | _ => exact hstop
  | thread hthread h => cases h <;> exact hstop

/-- A call that enters is at no place after `stop`, and has no slot. -/
theorem Call.entered_frame {c : Call} (h : c.entered = true) :
    c.afterStop = false ∧ c.holdsSlot = false := by
  cases c with
  | enqueue row place | stop place => cases place <;> first | exact ⟨rfl, rfl⟩ | cases h
  | flush place => exact ⟨rfl, rfl⟩

/-- After its first step `stop` is set. -/
theorem Slots.stop_of_stepStop {k : Nat} {place : Stop} (hd : Slots d)
    (hk : d.calls[k]? = some (.stop place)) (h : StopStep d k place d' es) : d'.stop = true := by
  cases place with
  | entered =>
    cases h
    rfl
  | _ => exact (DrainerStep.stop hk h).stop_mono (hd.afterStop k (by rw [callIs, hk]; rfl))

/-- A call gets to a place after `stop` only when `stop` is set. -/
theorem Slots.afterStop_step (hd : Slots d) (h : DrainerStep d d' es) {i : Nat}
    (hi : callIs Call.afterStop d'.calls i = true) : d'.stop = true := by
  have hsame : callIs Call.afterStop d'.calls = callIs Call.afterStop d.calls → d'.stop = true := by
    intro hcalls
    rw [hcalls] at hi
    exact h.stop_mono (hd.afterStop i hi)
  -- it has just got there, or was there before
  have hset : ∀ {k : Nat} {c : Call}, (c.afterStop = true → d'.stop = true) →
      callIs Call.afterStop (d.calls.set k c) i = true → d'.stop = true := by
    intro k c hc hi
    rcases callIs_of_set hi with hc' | hold
    · exact hc hc'
    · exact h.stop_mono (hd.afterStop i hold)
  cases h with
  | call hentered => exact hsame (callIs_append (Call.entered_frame hentered).1)
  | wake hcalls => exact hsame (callIs_of_sameCalls Call.afterStop_unpark hcalls)
  | enqueue hk h =>
    cases h with
    | @goes _ place' _ _ h =>
      refine hset (fun hafter => h.releasing ?_) hi
      cases place' <;> first | rfl | cases hafter
    | wait | acquire | push => exact hset (fun hafter => by cases hafter) hi
    | release hcalls =>
      rw [callIs_of_sameCalls Call.afterStop_unpark hcalls] at hi
      exact hset (fun hafter => by cases hafter) hi
  | stop hk h => exact hd.stop_of_stepStop hk h
  | flush hk h => exact hsame (callIs_set hk rfl)
  | thread hthread h => exact hsame (callIs_of_sameCalls Call.afterStop_unpark h.sameCalls)

theorem ThreadStep.balance_step (h : ThreadStep d d' es)
    (hd : d.available + d.queue.length + d.thread.entry.toList.length
      + d.calls.countP Call.holdsSlot = d.cfg.capacity) :
    d'.available + d'.queue.length + d'.thread.entry.toList.length
      + d'.calls.countP Call.holdsSlot = d'.cfg.capacity := by
  cases h with
  | work hgoes =>
    dsimp only
    rw [hgoes.goesOn.entry]
    exact hd
  | take hthread hqueue =>
    rw [hthread, hqueue] at hd
    simp only [Thread.entry, Option.toList, List.length_cons, List.length_nil] at hd ⊢
    omega
  | settle hsettles hcalls hrelease =>
    -- the row had a slot, so not all were free
    rw [(Thread.entry_of_settles hsettles).1] at hd
    simp only [countP_of_sameCalls Call.holdsSlot_unpark hcalls]
    simp only [Thread.entry, Option.toList, List.length_cons, List.length_nil] at hd ⊢
    rw [if_pos (by omega)]
    omega
  | finish hentry hworker hstop hqueue | die hentry hbegun hdies hstats =>
    rw [hentry] at hd
    exact hd
  | exit hthread =>
    rw [hthread] at hd
    exact hd

theorem Slots.step (hd : Slots d) (h : DrainerStep d d' es) : Slots d' := by
  refine ⟨fun i hi => hd.afterStop_step h hi, fun hrunning => ?_⟩
  have hstop : d.stop = false := by
    by_contra hstop
    rw [h.stop_mono (by simpa using hstop)] at hrunning
    cases hrunning
  have hbalance := hd.balance hstop
  cases h with
  | call hentered =>
    simp only [List.countP_append, List.countP_singleton, (Call.entered_frame hentered).2]
    exact hbalance
  | wake hcalls =>
    simp only [countP_of_sameCalls Call.holdsSlot_unpark hcalls]
    exact hbalance
  | @enqueue _ _ _ row _ hk h =>
    have hcount := countP_set (p := Call.holdsSlot) hk
    cases h with
    | @goes _ place' _ _ h =>
      have hplaces := hcount (.enqueue row place')
      simp only [Call.holdsSlot, h.holds] at hplaces ⊢
      omega
    | wait =>
      have hplaces := hcount (.enqueue row .parked)
      simp only [Call.holdsSlot, Enqueue.holds] at hplaces ⊢
      omega
    | acquire havailable =>
      have hplaces := hcount (.enqueue row .acquired)
      simp only [Call.holdsSlot, Enqueue.holds, Bool.toNat_true, Bool.toNat_false] at hplaces ⊢
      omega
    | push hstop =>
      have hplaces := hcount (.enqueue row (.returned true))
      simp only [Call.holdsSlot, Enqueue.holds, Bool.toNat_true, Bool.toNat_false] at hplaces ⊢
      simp only [List.length_append, List.length_cons, List.length_nil]
      omega
    | release hcalls =>
      rw [hd.afterStop _ (by rw [callIs, hk]; rfl)] at hstop
      cases hstop
  | stop hk h =>
    rw [hd.stop_of_stepStop hk h] at hrunning
    cases hrunning
  | @flush _ _ place' _ hk h =>
    have hplaces := countP_set (p := Call.holdsSlot) hk (.flush place')
    simp only [Call.holdsSlot, Bool.toNat_false] at hplaces
    simp only [Drainer.setCall]
    omega
  | thread hthread h => exact h.balance_step hbalance

theorem Reachable.slots {cfg : DrainerConfig} {w : World} (h : Reachable cfg w) : Slots w.state := by
  refine Trace.Reaches.invariant (I := fun w => Slots w.state) h ⟨nofun, fun _ => ?_⟩
    fun _ _ _ _ hw hs => hw.step (step_cases hs)
  simp [Trace.World.start, Drainer.new, Thread.entry]

end Fasten.Core
