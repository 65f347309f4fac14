import Fasten.Drainer.Accounts
import Fasten.Drainer.Slots
import Fasten.Lib.Semaphore

set_option autoImplicit false

/-! # Who waits for a slot

`Sem` of `fasten-core/src/drainer.rs` as a counting semaphore, whose parties are the `enqueue` callers.
A row that is pushed takes its caller's slot along. `stop` frees all slots while callers still hold
some, so a later release may find all of them free; it wakes a waiter all the same. -/

namespace Fasten.Core

/-- The slots and the callers, by number. -/
def Drainer.semaphore (d : Drainer) : Semaphore where
  available := d.available
  trying := d.calls.countP Call.isAcquiring
  waiting := d.calls.countP Call.isParked
  holding := d.calls.countP Call.holdsSlot

/-! ## Steps of the drainer as steps of the semaphore -/

variable {d d' : Drainer} {es : List Event}

section Steps

variable {i : Nat} {c : Call}

/-- A call goes from one place to another, and what this does to the numbers of callers. -/
theorem semaphore_setCall (hi : d.calls[i]? = some c) (c' : Call) :
    (d.setCall i c').semaphore.available = d.available
    ∧ (d.setCall i c').semaphore.trying + c.isAcquiring.toNat
      = d.semaphore.trying + c'.isAcquiring.toNat
    ∧ (d.setCall i c').semaphore.waiting + c.isParked.toNat
      = d.semaphore.waiting + c'.isParked.toNat
    ∧ (d.setCall i c').semaphore.holding + c.holdsSlot.toNat
      = d.semaphore.holding + c'.holdsSlot.toNat :=
  ⟨rfl, countP_set hi c', countP_set hi c', countP_set hi c'⟩

theorem countP_isParked_eq_zero (h : ¬d.calls.any Call.isParked = true) :
    d.calls.countP Call.isParked = 0 := by
  rw [List.countP_eq_zero]
  intro c hc hparked
  exact h (List.any_eq_true.2 ⟨c, hc, hparked⟩)

theorem notifyOne_wakesOne {woken : Option Nat} (h : d.notifyOne woken = some d') :
    d'.available = d.available ∧ d'.semaphore.holding = d.semaphore.holding
      ∧ d.semaphore.WakesOne d'.semaphore := by
  unfold Drainer.notifyOne at h
  cases woken with
  | none =>
    dsimp only at h
    split_ifs at h with hparked
    cases h
    have hzero := countP_isParked_eq_zero hparked
    exact ⟨rfl, rfl, rfl, Or.inr ⟨hzero, hzero⟩⟩
  | some i =>
    dsimp only at h
    split at h
    · rename_i row hi
      cases h
      obtain ⟨-, htrying, hwaiting, hholding⟩ := semaphore_setCall hi (.enqueue row .acquiring)
      simp only [Call.isAcquiring, Call.isParked, Call.holdsSlot, Enqueue.holds, Bool.toNat_true,
        Bool.toNat_false, Nat.add_zero] at htrying hwaiting hholding
      refine ⟨rfl, hholding, ?_, Or.inl ?_⟩ <;> omega
    · cases h

/-- A release, by a caller or by the thread. -/
theorem release_step {woken : Option Nat} {s : Semaphore} {capacity : Nat}
    (h : d.release woken = some d') (hcapacity : d.cfg.capacity = capacity)
    (havailable : s.available = d.available) (htrying : s.trying = d.semaphore.trying)
    (hwaiting : s.waiting = d.semaphore.waiting)
    (hholding : s.holding ≤ d.semaphore.holding + 1) :
    s.Step capacity d'.semaphore := by
  subst hcapacity
  obtain ⟨hfreed, hkept, hwakes⟩ := notifyOne_wakesOne h
  refine .release ?_ ?_ ?_
  · rw [havailable]
    exact hfreed
  · obtain ⟨hsum, hone⟩ := hwakes
    change d'.semaphore.waiting + d'.semaphore.trying = d.semaphore.waiting + d.semaphore.trying at hsum
    change d'.semaphore.waiting + 1 = d.semaphore.waiting
      ∨ d.semaphore.waiting = 0 ∧ d'.semaphore.waiting = 0 at hone
    exact ⟨by omega, by omega⟩
  · change d'.semaphore.holding = d.semaphore.holding at hkept
    omega

/-- A caller goes on, and neither waits nor gets or loses a slot. -/
theorem come_of_setCall (hi : d.calls[i]? = some c) {c' : Call}
    (htrying : c.isAcquiring = true → c'.isAcquiring = true) (hparked : c'.isParked = c.isParked)
    (hholds : c'.holdsSlot = c.holdsSlot) :
    d.semaphore.Step d.cfg.capacity (d.setCall i c').semaphore := by
  obtain ⟨havailable, htry, hwait, hhold⟩ := semaphore_setCall hi c'
  rw [hparked] at hwait
  rw [hholds] at hhold
  refine .come havailable ?_ (by omega) (by omega)
  cases hc : c.isAcquiring with
  | false =>
    rw [hc, Bool.toNat_false] at htry
    omega
  | true =>
    rw [hc, htrying hc] at htry
    omega

theorem EnqueueStep.semaphore {row : Row} {place : Enqueue}
    (hi : d.calls[i]? = some (.enqueue row place)) (h : EnqueueStep d i row place d' es) :
    d.semaphore.Step d.cfg.capacity d'.semaphore
      ∨ d.stop = false ∧ d.semaphore.Gives d'.semaphore := by
  have hset := semaphore_setCall hi
  cases h with
  | goes e h =>
    refine Or.inl (come_of_setCall hi (fun htrying => ?_) h.parked h.holds)
    cases h.trying.symm.trans htrying
  | wait hnone =>
    obtain ⟨-, htrying, hwaiting, hholding⟩ := hset (.enqueue row .parked)
    exact Or.inl (.wait hnone hnone htrying hwaiting hholding)
  | acquire havailable =>
    obtain ⟨-, htrying, hwaiting, hholding⟩ := hset (.enqueue row .acquired)
    refine Or.inl (.acquire ?_ htrying hwaiting hholding)
    change d.available - 1 + 1 = d.available
    omega
  | push hstop =>
    obtain ⟨-, htrying, hwaiting, hholding⟩ := hset (.enqueue row (.returned true))
    exact Or.inr ⟨hstop, rfl, htrying, hwaiting, hholding⟩
  | release hcalls hrelease =>
    obtain ⟨-, htrying, hwaiting, hholding⟩ := hset (.enqueue row .abandoning)
    exact Or.inl (release_step hrelease rfl rfl htrying.symm hwaiting.symm hholding.ge)

/-- The thread leaves the slots alone, or releases one. -/
theorem stepThread_semaphore (h : ThreadStep d d' es) :
    d.semaphore.Step d.cfg.capacity d'.semaphore := by
  cases h with
  | settle hsettles hcalls hrelease =>
    exact release_step hrelease rfl rfl rfl rfl (Nat.le_add_right _ _)
  | _ => exact .come rfl le_rfl rfl rfl

theorem Call.isParked_unpark (c : Call) : c.unpark.isParked = false := by
  cases c with
  | enqueue row place => cases place <;> rfl
  | stop | flush => rfl

/-- `release_all` leaves nobody waiting. -/
theorem releaseAll_step (hi : d.calls[i]? = some (.stop .releasing)) :
    d.semaphore.Step d.cfg.capacity (d.releaseAll.setCall i (.stop .notifying)).semaphore := by
  have hcall : (d.calls.map Call.unpark)[i]? = some (.stop .releasing) := by
    rw [List.getElem?_map, hi]
    rfl
  have hwaiting := countP_set (p := Call.isParked) hcall (.stop .notifying)
  have hholding := countP_set (p := Call.holdsSlot) hcall (.stop .notifying)
  rw [countP_of_sameCalls Call.holdsSlot_unpark (sameCalls_unpark d.calls)] at hholding
  have hnone : (d.calls.map Call.unpark).countP Call.isParked = 0 := by
    rw [List.countP_eq_zero]
    intro c hc
    obtain ⟨c', -, rfl⟩ := List.mem_map.1 hc
    rw [Call.isParked_unpark]
    exact Bool.false_ne_true
  rw [hnone] at hwaiting
  exact .releaseAll rfl hwaiting hholding

theorem StopStep.semaphore {place : Stop} (hi : d.calls[i]? = some (.stop place))
    (h : StopStep d i place d' es) : d.semaphore.Step d.cfg.capacity d'.semaphore := by
  cases h with
  | release => exact releaseAll_step hi
  | _ => exact come_of_setCall hi Bool.noConfusion rfl rfl

/-- **The drainer runs a semaphore**: a step is one of the semaphore, or gives a caller's slot to its
    row, which happens only until `stop`. -/
theorem step_semaphore {l : Label} (h : d.step l = some (d', es)) :
    d.semaphore.Step d.cfg.capacity d'.semaphore
      ∨ d.stop = false ∧ d.semaphore.Gives d'.semaphore := by
  cases step_cases h with
  | @call c hentered =>
    have hparked : c.isParked = false := by
      cases c with
      | enqueue row place => cases place <;> first | rfl | cases hentered
      | stop | flush => rfl
    refine Or.inl (.come rfl ?_ ?_ ?_)
    · simp [Drainer.semaphore]
    · simp [Drainer.semaphore, hparked]
    · simp [Drainer.semaphore, (Call.entered_frame hentered).2]
  | wake hcalls hnotify =>
    obtain ⟨havailable, hholding, hsum, hone | ⟨hnone, hnone'⟩⟩ := notifyOne_wakesOne hnotify
    · exact Or.inl (.wake havailable (by omega) hone hholding)
    · exact Or.inl (.come havailable (by omega) (by omega) hholding)
  | enqueue hi h => exact h.semaphore hi
  | stop hi h => exact Or.inl (h.semaphore hi)
  | flush hi => exact Or.inl (come_of_setCall hi Bool.noConfusion rfl rfl)
  | thread hthread h => exact Or.inl (stepThread_semaphore h)

end Steps

/-! ## What holds of the slots -/

/-- A `stop` that has freed all slots. -/
def Call.hasFreed : Call → Bool
  | .stop .entered | .stop .releasing => false
  | .stop _ => true
  | _ => false

theorem stopTest_hasFreed : StopTest Call.hasFreed :=
  ⟨Call.of_unpark _ (fun _ => rfl), fun _ _ => rfl, fun _ => rfl, rfl⟩

theorem Call.afterStop_of_hasFreed {c : Call} (h : c.hasFreed = true) : c.afterStop = true := by
  cases c with
  | enqueue row place => cases h
  | stop place => cases place <;> first | rfl | cases h
  | flush place => cases h

structure SlotsOk (d : Drainer) : Prop where
  slots : Slots d
  ok : d.semaphore.Ok d.cfg.capacity
  /-- Once all slots have been freed, a slot is free or a caller has it. -/
  freed : ∀ i, callIs Call.hasFreed d.calls i = true →
    d.cfg.capacity ≤ d.semaphore.available + d.semaphore.holding

theorem SlotsOk.stop_of_hasFreed (hd : SlotsOk d) {i : Nat}
    (hi : callIs Call.hasFreed d.calls i = true) : d.stop = true := by
  refine hd.slots.afterStop i ?_
  obtain ⟨c, hc, hfreed⟩ := (Option.any_eq_true _ _).1 hi
  rw [callIs, hc]
  exact Call.afterStop_of_hasFreed hfreed

theorem SlotsOk.freed_step {l : Label} (hd : SlotsOk d) (h : d.step l = some (d', es)) {i : Nat}
    (hi : callIs Call.hasFreed d'.calls i = true) :
    d.cfg.capacity ≤ d'.semaphore.available + d'.semaphore.holding := by
  -- if some `stop` had freed them before, no slot has been given away
  have hold : ∀ {j : Nat}, callIs Call.hasFreed d.calls j = true →
      d.cfg.capacity ≤ d'.semaphore.available + d'.semaphore.holding := by
    intro j hj
    rcases step_semaphore h with hstep | ⟨hstop, -⟩
    · exact hstep.all_freed hd.ok.available_le (hd.freed j hj)
    · rw [hd.stop_of_hasFreed hj] at hstop
      cases hstop
  rcases (step_cases h).stop_or_callIs with ⟨k, place, hk, hstep⟩ | ⟨-, hcalls⟩
  · cases place with
    | entered =>
      cases hstep
      have hcalls : callIs Call.hasFreed (d.calls.set k (.stop .releasing))
          = callIs Call.hasFreed d.calls := callIs_set hk rfl
      exact hold (hcalls ▸ hi)
    | releasing =>
      cases hstep
      exact Nat.le_add_right _ _
    | _ => exact hold (j := k) (by rw [callIs, hk]; rfl)
  · rw [hcalls _ stopTest_hasFreed] at hi
    exact hold hi

theorem SlotsOk.step {l : Label} (hd : SlotsOk d) (h : d.step l = some (d', es)) : SlotsOk d' := by
  have hcfg := (step_cases h).cfg
  refine ⟨hd.slots.step (step_cases h), ?_, fun i hi => ?_⟩
  · rw [hcfg]
    rcases step_semaphore h with hstep | ⟨-, hgives⟩
    · exact hd.ok.step hstep
    · exact hd.ok.gives hgives
  · rw [hcfg]
    exact hd.freed_step h hi

theorem slotsOk_new (cfg : DrainerConfig) : SlotsOk (Drainer.new cfg) :=
  ⟨⟨nofun, fun _ => by simp [Drainer.new, Thread.entry]⟩,
    ⟨le_refl _, fun hpos => absurd hpos (lt_irrefl 0)⟩, nofun⟩

theorem Reachable.slotsOk {cfg : DrainerConfig} {w : World} (h : Reachable cfg w) :
    SlotsOk w.state :=
  Trace.Reaches.invariant (I := fun w => SlotsOk w.state) h (slotsOk_new cfg)
    fun _ _ _ _ hw hs => hw.step hs

/-! ## Waking a caller -/

/-- Only steps of call `k`. -/
def Label.isMoveOf (k : Nat) : Label → Bool
  | .move i _ => i == k
  | _ => false

/-- Steps of call `k` alone get call `i` out of its wait. -/
def Wakes (k i : Nat) (w : World) : Prop :=
  ∃ w', Trace.Reaches (Trace.restrict Drainer.step fun _ l => l.isMoveOf k) w w'
    ∧ callIs Call.isAcquiring w'.state.calls i = true

theorem Wakes.of_step {k i : Nat} {w : World} {env : Env}
    (h : w.state.step (.move k env) = some (d', es)) (hwakes : Wakes k i ⟨d', w.history ++ es⟩) :
    Wakes k i w := by
  obtain ⟨w', hreach, hi⟩ := hwakes
  refine ⟨w', .head ⟨.move k env, ?_⟩ hreach, hi⟩
  exact Trace.World.next_eq_some.2 ⟨es, Trace.restrict_eq_some.2 ⟨by simp [Label.isMoveOf], h⟩, rfl⟩

/-- After `stop`, call `k` is at some place while call `i` waits. -/
structure Blocks (d : Drainer) (k : Nat) (c : Call) (i : Nat) : Prop where
  ne : k ≠ i
  stop : d.stop = true
  call : d.calls[k]? = some c
  parked : ∃ row, d.calls[i]? = some (.enqueue row .parked)

section Wakes

variable {w : World} {k i : Nat} {row : Row}

theorem Blocks.setCall {c : Call} (h : Blocks d k c i) (c' : Call) (hstop : d'.stop = d.stop)
    (hcalls : d'.calls = d.calls.set k c') : Blocks d' k c' i := by
  obtain ⟨row, hrow⟩ := h.parked
  have hlt := (List.getElem?_eq_some_iff.1 h.call).1
  refine ⟨h.ne, hstop.trans h.stop, ?_, row, ?_⟩
  · rw [hcalls, List.getElem?_set_self hlt]
  · rw [hcalls, List.getElem?_set_ne h.ne, hrow]

/-- Call `k` goes on to a place from where it wakes call `i`. -/
theorem Blocks.move {place place' : Enqueue} (h : Blocks w.state k (.enqueue row place) i)
    (env : Env) (hstep : w.state.stepEnqueue k row env place = some (d', es))
    (hstop : d'.stop = w.state.stop) (hcalls : d'.calls = w.state.calls.set k (.enqueue row place'))
    (hnext : ∀ {v : World}, Blocks v.state k (.enqueue row place') i → Wakes k i v) :
    Wakes k i w := by
  have hmove : w.state.step (.move k env) = some (d', es) := by
    simp only [Drainer.step, h.call, hstep]
  have hblocks : Blocks d' k (.enqueue row place') i := h.setCall _ hstop hcalls
  exact Wakes.of_step hmove (hnext hblocks)

/-- The release wakes the waiting call, if the scheduler chooses it. -/
theorem Blocks.wakes_of_releasing (h : Blocks w.state k (.enqueue row .releasing) i) :
    Wakes k i w := by
  have hset : Blocks (w.state.setCall k (.enqueue row .abandoning)) k (.enqueue row .abandoning) i :=
    h.setCall _ rfl rfl
  obtain ⟨row', hrow⟩ := hset.parked
  have hlt := (List.getElem?_eq_some_iff.1 hrow).1
  have hstep : w.state.step (.move k ⟨.zero, 0, .ok, some i, false⟩) = some
      ({ w.state.setCall k (.enqueue row .abandoning) with
        available := if w.state.available < w.state.cfg.capacity then w.state.available + 1
          else w.state.available }.setCall i (.enqueue row' .acquiring), []) := by
    simp only [Drainer.step, h.call, Drainer.stepEnqueue, Drainer.release, Drainer.notifyOne, hrow,
      Option.map_some]
    rfl
  refine Wakes.of_step hstep ⟨_, .refl, ?_⟩
  simp only [Drainer.setCall, callIs] at hlt ⊢
  rw [List.getElem?_set_self hlt]
  rfl

/-- **A caller that holds a slot after `stop` wakes another**: it cannot push its row any more. -/
theorem Blocks.wakes_of_holds {place : Enqueue} (h : Blocks w.state k (.enqueue row place) i)
    (hholds : place.holds = true) : Wakes k i w := by
  have env : Env := ⟨.zero, 0, .ok, none, false⟩
  have hpushing : ∀ {v : World}, Blocks v.state k (.enqueue row .pushing) i → Wakes k i v := by
    intro v hv
    exact hv.move env (if_pos hv.stop) rfl rfl Blocks.wakes_of_releasing
  have hannouncing : ∀ (e : SysEvent) {v : World},
      Blocks v.state k (.enqueue row (.announcing e)) i → Wakes k i v := by
    intro e v hv
    exact hv.move env rfl rfl rfl hpushing
  have hrecording : ∀ (depth : Nat) {v : World},
      Blocks v.state k (.enqueue row (.recording depth)) i → Wakes k i v := by
    intro depth v hv
    cases hevent : (v.state.stats.recordDepth depth v.state.cfg.capacity).2 with
    | none => exact hv.move env rfl rfl (by simp only [Drainer.setCall, hevent]) hpushing
    | some e =>
      exact hv.move env rfl rfl (by simp only [Drainer.setCall, hevent]) (hannouncing e)
  cases place with
  | acquired =>
    refine h.move env rfl rfl ?_ Blocks.wakes_of_releasing
    simp only [Drainer.setCall, h.stop, if_true]
  | measuring => exact h.move env rfl rfl rfl (hrecording _)
  | recording depth => exact hrecording depth h
  | announcing e => exact hannouncing e h
  | pushing => exact hpushing h
  | releasing => exact h.wakes_of_releasing
  | entered | acquiring | parked | abandoning | returned queued => cases hholds

theorem Blocks.wakes_of_acquiring (h : Blocks w.state k (.enqueue row .acquiring) i)
    (havailable : w.state.available ≠ 0) : Wakes k i w :=
  h.move ⟨.zero, 0, .ok, none, false⟩ (if_neg havailable) rfl rfl
    fun hv => hv.wakes_of_holds rfl

/-- `stop` wakes everybody. -/
theorem wakes_of_stop {place : Stop} (hk : w.state.calls[k]? = some (.stop place))
    (hfreed : (Call.stop place).hasFreed = false)
    (hi : w.state.calls[i]? = some (.enqueue row .parked)) : Wakes k i w := by
  have env : Env := ⟨.zero, 0, .ok, none, false⟩
  have hreleasing : ∀ {v : World}, v.state.calls[k]? = some (.stop .releasing) →
      v.state.calls[i]? = some (.enqueue row .parked) → Wakes k i v := by
    intro v hk hi
    have hstep : v.state.step (.move k env)
        = some (v.state.releaseAll.setCall k (.stop .notifying), []) := by
      simp only [Drainer.step, hk, Drainer.stepStop]
    have hne : k ≠ i := by
      rintro rfl
      cases hk.symm.trans hi
    refine Wakes.of_step hstep ⟨_, .refl, ?_⟩
    simp only [Drainer.setCall, Drainer.releaseAll, callIs]
    rw [List.getElem?_set_ne hne, List.getElem?_map, hi]
    rfl
  cases place with
  | entered =>
    have hstep : w.state.step (.move k env)
        = some ({ w.state with stop := true }.setCall k (.stop .releasing), []) := by
      simp only [Drainer.step, hk, Drainer.stepStop]
    have hne : k ≠ i := by
      rintro rfl
      cases hk.symm.trans hi
    refine Wakes.of_step hstep (hreleasing ?_ ?_)
    · exact List.getElem?_set_self (List.getElem?_eq_some_iff.1 hk).1
    · exact (List.getElem?_set_ne hne).trans hi
  | releasing => exact hreleasing hk hi
  | _ => cases hfreed

end Wakes

/-- The call is one of `stop`. -/
def Call.isStop : Call → Bool
  | .stop _ => true
  | _ => false

/-- **No caller is stuck after `stop`**: another call wakes it, by its own steps. -/
theorem SlotsOk.exists_wakes {w : World} (hw : SlotsOk w.state) (hpos : 0 < w.state.cfg.capacity)
    {k i : Nat} (hk : callIs Call.isStop w.state.calls k = true)
    (hi : callIs Call.isParked w.state.calls i = true) : ∃ j, j ≠ i ∧ Wakes j i w := by
  obtain ⟨c, hc, hparked⟩ := (Option.any_eq_true _ _).1 hi
  obtain ⟨row, rfl⟩ : ∃ row, c = .enqueue row .parked := by
    cases c with
    | enqueue row place => cases place <;> first | exact ⟨row, rfl⟩ | cases hparked
    | stop | flush => cases hparked
  obtain ⟨c', hc', hstop⟩ := (Option.any_eq_true _ _).1 hk
  obtain ⟨place, rfl⟩ : ∃ place, c' = .stop place := by
    cases c' with
    | enqueue row place => cases hstop
    | stop place => exact ⟨place, rfl⟩
    | flush place => cases hstop
  -- another call that is at such a place
  have hother : ∀ {p : Call → Bool}, 0 < w.state.calls.countP p → p (.enqueue row .parked) = false →
      ∃ j c, j ≠ i ∧ w.state.calls[j]? = some c ∧ p c = true := by
    intro p hcount hp
    obtain ⟨c, hmem, hpc⟩ := List.countP_pos_iff.1 hcount
    obtain ⟨j, hj⟩ := List.mem_iff_getElem?.1 hmem
    refine ⟨j, c, ?_, hj, hpc⟩
    rintro rfl
    cases hj.symm.trans hc
    rw [hp] at hpc
    cases hpc
  cases hfreed : (Call.stop place).hasFreed with
  | false =>
    refine ⟨k, ?_, wakes_of_stop hc' hfreed hc⟩
    rintro rfl
    cases hc'.symm.trans hc
  | true =>
    have hk' : callIs Call.hasFreed w.state.calls k = true := by
      rw [callIs, hc']
      exact hfreed
    have hwaiting : 0 < w.state.semaphore.waiting :=
      List.countP_pos_iff.2 ⟨_, List.mem_of_getElem? hc, rfl⟩
    rcases hw.ok.exists_of_waiting hpos (hw.freed k hk') hwaiting with hholding | ⟨hfree, htrying⟩
    · obtain ⟨j, c, hne, hj, hholds⟩ := hother hholding rfl
      cases c with
      | enqueue row' place' =>
        have hblocks : Blocks w.state j (.enqueue row' place') i :=
          ⟨hne, hw.stop_of_hasFreed hk', hj, row, hc⟩
        exact ⟨j, hne, hblocks.wakes_of_holds hholds⟩
      | stop | flush => cases hholds
    · obtain ⟨j, c, hne, hj, hacquiring⟩ := hother htrying rfl
      obtain ⟨row', rfl⟩ : ∃ row', c = .enqueue row' .acquiring := by
        cases c with
        | enqueue row' place' => cases place' <;> first | exact ⟨row', rfl⟩ | cases hacquiring
        | stop | flush => cases hacquiring
      have hblocks : Blocks w.state j (.enqueue row' .acquiring) i :=
        ⟨hne, hw.stop_of_hasFreed hk', hj, row, hc⟩
      exact ⟨j, hne, hblocks.wakes_of_acquiring hfree.ne'⟩

/-! ## The high-water mark -/

theorem DrainerStep.highWater_le (h : DrainerStep d d' es) :
    d.stats.highWater ≤ d'.stats.highWater := by
  cases h with
  | call | wake | flush => exact le_refl _
  | enqueue hi h =>
    cases h with
    | goes e h => exact h.counters.2.2
    | _ => exact le_refl _
  | stop hi h => rw [h.frame.2.2.1]
  | thread hthread h =>
    cases h with
    | work hgoes => exact hgoes.stats_frame.2.ge
    | settle hsettles hcalls hrelease =>
      rename_i o calls woken
      cases o <;> exact le_refl _
    | die hentry hbegun hdies hstats => exact hstats.2.ge
    | _ => exact le_refl _

theorem highWater_mono {w w' : World} (h : Trace.Reaches Drainer.step w w') :
    w.state.stats.highWater ≤ w'.state.stats.highWater :=
  Trace.Reaches.invariant (I := fun v => w.state.stats.highWater ≤ v.state.stats.highWater) h
    (le_refl _) fun _ _ _ _ hle hs => hle.trans (step_cases hs).highWater_le

/-! ## The slots are accounted for -/

/-- **The slots.** Until `stop`, a slot that is in use belongs to a queued row, to the row in flight or
    to a caller that has not pushed yet, if no panic takes the thread; the number of free slots is
    never more than the capacity, so `used` does not underflow; the high-water mark does not fall;
    and once `stop` is called each caller that waits has another one that can wake it. -/
theorem slots_accounted_for {cfg : DrainerConfig} (hcapacity : 1 ≤ cfg.capacity) {w : World}
    (h : Reachable cfg w) :
    w.state.available ≤ cfg.capacity
    ∧ (w.state.stop = false →
        w.state.queue.length + w.state.thread.inFlight.toList.length
            + w.state.calls.countP Call.holdsSlot ≤ w.state.used
          ∧ w.state.used ≤ cfg.capacity
          ∧ (cfg.BackoffFits → w.state.used = w.state.queue.length
            + w.state.thread.inFlight.toList.length + w.state.calls.countP Call.holdsSlot))
    ∧ (∀ w', Trace.Reaches Drainer.step w w' →
        w.state.stats.highWater ≤ w'.state.stats.highWater)
    ∧ ∀ k i, callIs Call.isStop w.state.calls k = true →
        callIs Call.isParked w.state.calls i = true → ∃ j, j ≠ i ∧ Wakes j i w := by
  have hcfg := h.cfg_eq
  have hle : w.state.available ≤ cfg.capacity := hcfg ▸ h.slotsOk.ok.available_le
  have hused : w.state.used = cfg.capacity - w.state.available := by rw [Drainer.used, hcfg]
  refine ⟨hle, fun hstop => ⟨?_, by omega, fun hfits => ?_⟩, fun w' => highWater_mono,
    fun k i hk hi => h.slotsOk.exists_wakes (hcfg ▸ hcapacity) hk hi⟩
  · have hbalance := h.slots.balance hstop
    have hflight : w.state.thread.inFlight.toList.length
        ≤ w.state.thread.entry.toList.length := by
      unfold Thread.inFlight
      split_ifs
      · exact le_refl _
      · exact Nat.zero_le _
    rw [hcfg] at hbalance
    omega
  · have hbalance := h.slots.balance hstop
    rw [inFlight_eq_entry (h.alive hfits)]
    rw [hcfg] at hbalance
    omega

/-- One slot: a second caller waits behind the first one's row when `stop` is called. -/
theorem slots_accounted_for_oneSlot : ∃ w : World,
    Reachable { DrainerConfig.default with capacity := 1 } w
    ∧ w.state.calls = [.enqueue ⟨"evt-1", 0⟩ (.returned true), .enqueue ⟨"evt-2", 0⟩ .parked,
      .stop .entered]
    ∧ w.state.used = w.state.queue.length + w.state.thread.inFlight.toList.length
      + w.state.calls.countP Call.holdsSlot
    ∧ ∃ j, j ≠ 1 ∧ Wakes j 1 w := by
  obtain ⟨w, hreach, hw⟩ := Trace.exists_reaches_of_run Drainer.step
    (.start (Drainer.new { DrainerConfig.default with capacity := 1 }))
    (.call (.enqueue ⟨"evt-1", 0⟩ .entered) :: List.replicate 7 (.move 0 (.at 0 .ok))
      ++ .call (.enqueue ⟨"evt-2", 0⟩ .entered) :: List.replicate 2 (.move 1 (.at 0 .ok))
      ++ [.call (.stop .entered)])
    (fun w => decide (w.state.calls = [.enqueue ⟨"evt-1", 0⟩ (.returned true),
      .enqueue ⟨"evt-2", 0⟩ .parked, .stop .entered] ∧ w.state.stop = false)) (by decide +kernel)
  obtain ⟨hcalls, hstop⟩ := of_decide_eq_true hw
  obtain ⟨-, hused, -, hwakes⟩ := slots_accounted_for (by decide) hreach
  exact ⟨w, hreach, hcalls, (hused hstop).2.2 DrainerConfig.backoffFits_default,
    hwakes 2 1 (by rw [hcalls]; rfl) (by rw [hcalls]; rfl)⟩

/-- The slot of a row that a panic has dropped is in use for ever, and no row or caller has it. -/
theorem slot_leaked_by_overflow : ∃ w : World,
    Reachable (installConfig 0 18446744073709551615 1 false 0) w ∧ w.state.stop = false
    ∧ w.state.used = 1 ∧ w.state.queue = [] ∧ w.state.thread.inFlight = none
    ∧ w.state.calls = [.enqueue ⟨"evt-1", 0⟩ (.returned true)] := by
  obtain ⟨w, hreach, hw⟩ := Trace.exists_reaches_of_run Drainer.step
    (.start (Drainer.new (installConfig 0 18446744073709551615 1 false 0)))
    (.call (.enqueue ⟨"evt-1", 0⟩ .entered)
      :: List.replicate 6 (.move 0 (.at 0 (.err (.store "StoreError") "store down")))
      ++ (List.range 79).map (fun k => .thread (.at k (.err (.store "StoreError") "store down"))))
    (fun w => decide (w.state.stop = false ∧ w.state.used = 1 ∧ w.state.queue = []
      ∧ w.state.thread.inFlight = none
      ∧ w.state.calls = [.enqueue ⟨"evt-1", 0⟩ (.returned true)])) (by decide +kernel)
  exact ⟨w, hreach, of_decide_eq_true hw⟩

end Fasten.Core
