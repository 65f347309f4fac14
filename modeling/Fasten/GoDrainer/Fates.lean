import Fasten.GoDrainer.Steps

set_option autoImplicit false

/-! # What becomes of a row in a Go drainer

A row that fasten-core has taken is held by the drainer until it is stored or an event names it. This
holds as long as two moments of `reportUnstored` are let be: no row is registered once it has begun, and
`retire` takes no row out of `pending` between its two locks. -/

namespace Fasten.GoDrainer

abbrev World := Trace.World Drainer Event

/-- The row is stored, dead-lettered or reported lost. -/
def Settled (h : List Event) (row : Nat) : Prop :=
  .stored row ∈ h ∨ .sys .deadLetter row ∈ h ∨ .sys .lostAtStop row ∈ h

theorem Settled.append {h : List Event} {row : Nat} (hs : Settled h row) (es : List Event) :
    Settled (h ++ es) row :=
  hs.imp (List.mem_append_left es) (Or.imp (List.mem_append_left es) (List.mem_append_left es))

/-- The row `retire` works on. -/
def Retire.hand : Retire → List Nat
  | .storing row _ | .handling row _ _ | .losing row _ | .telling row _ => [row]
  | _ => []

/-- The rows `reportUnstored` is still to report. -/
def Report.rows : Report → List Nat
  | .losing rows => rows
  | .telling row rows => row :: rows
  | _ => []

namespace Drainer

/-- A thread has the row in its hands, or the row is pending and a thread will come to it. -/
def Holds (d : Drainer) (row : Nat) : Prop :=
  row ∈ d.drain.hand ∨ row ∈ d.retire.hand ∨ row ∈ d.report.rows
    ∨ d.isPending row = true ∧ (row ∈ d.queue ∨ d.retire.running = true)

instance (d : Drainer) (row : Nat) : Decidable (d.Holds row) :=
  inferInstanceAs (Decidable (_ ∨ _))

/-- `retire` takes no row out of `pending` between the locks of `reportUnstored`. -/
def patient (d : Drainer) : Op → Bool
  | .retire _ =>
    match d.retire with
    | .handling _ _ _ => d.report != .begun
    | _ => true
  | _ => true

/-- And no row is registered once `reportUnstored` has begun. -/
def careful (d : Drainer) (op : Op) : Bool :=
  d.patient op &&
    match op with
    | .register _ => !d.reported
    | _ => true

variable {d d' : Drainer} {op : Op} {h es : List Event}

theorem isPending_iff {row : Nat} : d.isPending row = true ↔ row ∈ Dict.keys d.pending := by
  rw [isPending, Option.isSome_iff_ne_none, ne_eq, Dict.get?_eq_none_iff, not_not]

/-! ## Rows that were stored -/

end Drainer

/-- The row the drain thread has stored. -/
def Drain.storedRow : Drain → Option Nat
  | .settling row _ | .answered row _ .stored => some row
  | _ => none

/-- The row `retire` has stored. -/
def Retire.storedRow : Retire → Option Nat
  | .handling row true _ => some row
  | _ => none

namespace Drainer

variable {d d' : Drainer} {op : Op} {h es : List Event}

@[simp] theorem storedRow_afterFailure (row attempt attempts : Nat) (rejected : Bool) :
    (d.afterFailure row attempt attempts rejected).storedRow = none := by
  rw [afterFailure]
  split_ifs <;> rfl

@[simp] theorem storedRow_answered_ofFailure (row attempt : Nat) (rejected : Bool) :
    (Drain.answered row attempt (.ofFailure rejected)).storedRow = none := by
  cases rejected <;> rfl

@[simp] theorem storedRow_retireNext (rows : List Nat) : (d.retireNext rows).storedRow = none := by
  cases rows with
  | nil => rfl
  | cons row rest => rw [retireNext]; split_ifs <;> rfl

/-- Who has stored a row has left the event. -/
def StoredOk (d : Drainer) (h : List Event) : Prop :=
  ∀ row, row ∈ d.drain.storedRow ∨ row ∈ d.retire.storedRow → .stored row ∈ h

theorem StoredOk.append (hs : d.StoredOk h)
    (hdrain : ∀ row ∈ d'.drain.storedRow, row ∈ d.drain.storedRow ∨ .stored row ∈ es)
    (hretire : ∀ row ∈ d'.retire.storedRow, row ∈ d.retire.storedRow ∨ .stored row ∈ es) :
    d'.StoredOk (h ++ es) := by
  rintro row (hrow | hrow)
  · exact (hdrain row hrow).elim (fun hold => List.mem_append_left es (hs row (.inl hold)))
      (List.mem_append_right h)
  · exact (hretire row hrow).elim (fun hold => List.mem_append_left es (hs row (.inr hold)))
      (List.mem_append_right h)

theorem Step.storedOk (hstep : Step d op d' es) (hok : d.Ok) (hs : d.StoredOk h) :
    d'.StoredOk (h ++ es) := by
  cases hstep with
  | register | accept | refuse | enterFlush | leaveFlush | cancel | report | listed | reportCount
  | reportTell | reportEnd => exact hs.append (fun _ => .inl) (fun _ => .inl)
  | missing hdrain hrow =>
    cases hrow.symm.trans (hok.drainAt hdrain)
  | attempt hdrain hrow hnext =>
    refine hs.append (fun row hrow => ?_) (fun _ => .inl)
    rcases hnext with rfl | rfl
    · cases hrow
    · simp at hrow
  | take | exit | drop | again | drained | giveUp =>
    exact hs.append nofun (fun _ => .inl)
  | store =>
    refine hs.append (fun row hrow => .inr ?_) (fun _ => .inl)
    cases hrow
    exact List.mem_cons_self
  | settle hdrain =>
    refine hs.append (fun row hrow => .inl ?_) (fun _ => .inl)
    rw [hdrain]
    exact hrow
  | fail | keep | count => exact hs.append (fun row hrow => by simp at hrow) (fun _ => .inl)
  | takeOut | close | retireFailed | lose | retireCount =>
    exact hs.append (fun _ => .inl) nofun
  | lock | handled | retireTell => exact hs.append (fun _ => .inl) (fun row hrow => by simp at hrow)
  | retireStored =>
    refine hs.append (fun _ => .inl) (fun row hrow => .inr ?_)
    cases hrow
    exact List.mem_cons_self

/-! ## Rows that are held -/

/-- What holds along the careful runs of a drainer. -/
structure Accounted (d : Drainer) (h : List Event) : Prop where
  ok : d.Ok
  stored : d.StoredOk h
  accepted : ∀ row, .accepted row ∈ h → row ∈ d.seen ∧ row ∉ d.entering
  told : d.report ≠ .unasked → d.report ≠ .begun → ∀ row ∈ Dict.keys d.pending,
    row ∈ d.report.rows ∨ .sys .lostAtStop row ∈ h
  held : ∀ row, .accepted row ∈ h → d.Holds row ∨ Settled h row

theorem Step.accepted (hstep : Step d op d' es) (hok : d.Ok)
    (ha : ∀ row, .accepted row ∈ h → row ∈ d.seen ∧ row ∉ d.entering) :
    ∀ row, .accepted row ∈ h ++ es → row ∈ d'.seen ∧ row ∉ d'.entering := by
  cases hstep with
  | @register new hopen hnew =>
    intro row hrow
    obtain ⟨hseen, hout⟩ := ha row (by simpa using hrow)
    refine ⟨List.mem_append_left _ hseen, fun hin => ?_⟩
    rcases List.mem_append.1 hin with hin | hin
    · exact hout hin
    · exact hnew (List.mem_singleton.1 hin ▸ hseen)
  | @accept new hnew hstopped =>
    intro row hrow
    rcases List.mem_append.1 hrow with hold | hrow
    · obtain ⟨hseen, hout⟩ := ha row hold
      exact ⟨hseen, fun hin => hout (List.mem_of_mem_erase hin)⟩
    · have hfront := (List.nodup_append.1 (List.nodup_append.1 hok.nodup).1).1
      cases List.mem_singleton.1 hrow
      refine ⟨hok.seen_of_pending new (by simp [hok.pending_of_entering new hnew]), ?_⟩
      exact hfront.not_mem_erase
  | refuse hrefused =>
    intro row hrow
    obtain ⟨hseen, hout⟩ := ha row (by simpa using hrow)
    exact ⟨hseen, fun hin => hout (List.mem_of_mem_erase hin)⟩
  | giveUp =>
    intro row hrow
    refine ha row ?_
    rw [sysLog] at hrow
    split_ifs at hrow <;> simpa using hrow
  | _ => exact fun row hrow => ha row (by simpa using hrow)

theorem Step.told (hstep : Step d op d' es) (hcareful : d.careful op = true)
    (ht : d.report ≠ .unasked → d.report ≠ .begun → ∀ row ∈ Dict.keys d.pending,
      row ∈ d.report.rows ∨ .sys .lostAtStop row ∈ h) :
    d'.report ≠ .unasked → d'.report ≠ .begun → ∀ row ∈ Dict.keys d'.pending,
      row ∈ d'.report.rows ∨ .sys .lostAtStop row ∈ h ++ es := by
  intro hasked hlisted row hrow
  -- the rows that stay pending are still to be told or have been
  have hkeep : (∀ x ∈ Dict.keys d'.pending, x ∈ Dict.keys d.pending) → d'.report = d.report →
      row ∈ d'.report.rows ∨ .sys .lostAtStop row ∈ h ++ es := by
    intro hkeys hreport
    rw [hreport] at hasked hlisted ⊢
    exact (ht hasked hlisted row (hkeys row hrow)).imp_right (List.mem_append_left es)
  have hdrop : ∀ r, ∀ x ∈ Dict.keys (d.settle r).pending, x ∈ Dict.keys d.pending :=
    fun r x hx => (Dict.keys_drop_sublist d.pending [r]).subset hx
  cases hstep with
  | register hopen hnew =>
    rw [careful, Bool.and_eq_true, Bool.not_eq_true', reported, bne_eq_false_iff_eq] at hcareful
    exact absurd hcareful.2 hasked
  | refuse | settle | drop | handled | lose => exact hkeep (hdrop _) rfl
  | attempt => exact hkeep (fun x hx => by simpa using hx) rfl
  | report => exact absurd rfl hlisted
  | listed => exact .inl hrow
  | reportCount hreport | reportEnd hreport =>
    have htold := ht (by simp [hreport]) (by simp [hreport]) row hrow
    rw [hreport] at htold
    exact htold.imp_right (List.mem_append_left _)
  | @reportTell r rows hreport =>
    have htold := ht (by simp [hreport]) (by simp [hreport]) row hrow
    rw [hreport] at htold
    rcases htold with hin | hold
    · rcases List.mem_cons.1 hin with rfl | hin
      · exact .inr (List.mem_append_right _ List.mem_cons_self)
      · exact .inl hin
    · exact .inr (List.mem_append_left _ hold)
  | _ => exact hkeep (fun _ hx => hx) rfl

/-- A thread that keeps its hands on what it has, and the rows that stay pending. -/
theorem Holds.mono {row : Nat} (hh : d.Holds row)
    (hdrain : row ∈ d.drain.hand → row ∈ d'.drain.hand)
    (hretire : row ∈ d.retire.hand → row ∈ d'.retire.hand)
    (hreport : row ∈ d.report.rows → row ∈ d'.report.rows)
    (hpending : row ∈ Dict.keys d.pending → row ∈ d.queue ∨ d.retire.running = true →
      row ∈ Dict.keys d'.pending ∧ (row ∈ d'.queue ∨ d'.retire.running = true)) :
    d'.Holds row := by
  rcases hh with hh | hh | hh | ⟨hh, hwho⟩
  · exact .inl (hdrain hh)
  · exact .inr (.inl (hretire hh))
  · exact .inr (.inr (.inl (hreport hh)))
  · obtain ⟨hp, hwho⟩ := hpending (isPending_iff.1 hh) hwho
    exact .inr (.inr (.inr ⟨isPending_iff.2 hp, hwho⟩))

theorem Holds.ofDrain {row lost : Nat} {drain : Drain} (hh : d.Holds row)
    (hdrain : row ∈ d.drain.hand → row ∈ drain.hand) :
    Holds { d with lost := lost, drain := drain } row :=
  hh.mono hdrain id id (fun hp hwho => ⟨hp, hwho⟩)

theorem Holds.ofReport {row lost : Nat} {report : Report} (hh : d.Holds row)
    (hreport : row ∈ d.report.rows → row ∈ report.rows) :
    Holds { d with lost := lost, report := report } row :=
  hh.mono id id hreport (fun hp hwho => ⟨hp, hwho⟩)

theorem mem_keys_settle {row x : Nat} :
    x ∈ Dict.keys (d.settle row).pending ↔ x ∈ Dict.keys d.pending ∧ x ≠ row := by
  simp [settle, Dict.keys_drop, and_comm]

/-- As long as the drain thread runs, `retire` runs once it has begun. -/
theorem Ok.running_of_live (hok : d.Ok) (hlive : d.drain ≠ .exited) (hretire : d.retire ≠ .notYet) :
    d.retire.running = true := by
  cases hr : d.retire with
  | notYet => exact absurd hr hretire
  | done => exact absurd (hok.locked (by rw [hr]; rfl)).1 hlive
  | flushing | closing | storing | handling | losing | telling => rfl

theorem running_retireNext {rows : List Nat} (h : rows ≠ []) :
    (d.retireNext rows).running = true := by
  cases rows with
  | nil => exact absurd rfl h
  | cons row rest => rw [retireNext]; split_ifs <;> rfl

theorem Step.holds (hstep : Step d op d' es) (hcareful : d.careful op = true)
    (ha : d.Accounted h) {row : Nat} (hentering : row ∉ d.entering) (hh : d.Holds row) :
    d'.Holds row ∨ Settled (h ++ es) row := by
  have hok := ha.ok
  cases hstep with
  | @register new hopen hnew =>
    refine .inl (hh.mono id id id (fun hp hwho => ⟨?_, hwho⟩))
    exact Dict.mem_keys_set.2 (.inr hp)
  | accept => exact .inl (hh.mono id id id (fun hp hwho => ⟨hp, hwho.imp_left (List.mem_append_left _)⟩))
  | @refuse new hnew =>
    refine .inl (hh.mono id id id (fun hp hwho => ⟨mem_keys_settle.2 ⟨hp, ?_⟩, hwho⟩))
    rintro rfl
    exact hentering hnew
  | enterFlush | leaveFlush | cancel => exact .inl hh
  | @take _ new rest hdrain hqueue =>
    by_cases hrow : row = new
    · exact .inl (.inl (by simp [hrow, Drain.hand]))
    · refine .inl (hh.mono (by simp [hdrain, Drain.hand]) id id (fun hp hwho => ⟨hp, ?_⟩))
      exact hwho.imp_left (fun hq => by simpa [hqueue, hrow] using hq)
  | exit hdrain | store hdrain | keep hdrain | count hdrain | again hdrain =>
    exact .inl (hh.ofDrain (by simp [hdrain, Drain.hand]))
  | fail hdrain => exact .inl (hh.ofDrain (by rw [hdrain, hand_afterFailure]; exact id))
  | missing hdrain hrow =>
    cases hrow.symm.trans (hok.drainAt hdrain)
  | attempt hdrain hrow hnext =>
    refine .inl (hh.mono ?_ id id (fun hp hwho => ⟨by simpa using hp, hwho⟩))
    rw [hdrain]
    rcases hnext with rfl | rfl
    · exact id
    · rw [hand_afterFailure]
      exact id
  | @settle _ new _ hdrain | @drop _ new _ _ hdrain =>
    by_cases hrow : row = new
    · exact .inl (.inl (by simp [hrow, Drain.hand]))
    · exact .inl (hh.mono (by rw [hdrain]; exact id) id id
        (fun hp hwho => ⟨mem_keys_settle.2 ⟨hp, hrow⟩, hwho⟩))
  | @drained _ new attempt hdrain =>
    by_cases hrow : row = new
    · refine .inr (.inl (List.mem_append_left _ (ha.stored row (.inl ?_))))
      rw [hdrain, hrow]
      rfl
    · exact .inl (hh.ofDrain (by simp [hdrain, Drain.hand, hrow]))
  | @giveUp _ new attempt answer e hdrain hanswer hlast he =>
    by_cases hrow : row = new
    · subst hrow
      by_cases hp : d.isPending row = true
      · -- the event is suppressed: `retire` has begun, and will come to the row
        refine .inl (.inr (.inr (.inr ⟨hp, .inr (hok.running_of_live (by simp [hdrain]) ?_)⟩)))
        rcases hlast with hstopped | hlast
        · rintro hretire
          simp [hok.stopped, hretire, Retire.stops] at hstopped
        · rcases (hok.drainAt hdrain).resolve_left hanswer with ⟨-, hreported⟩ | ⟨hnone, -⟩
          · exact hok.reported (hreported hlast)
          · simp [isPending, hnone] at hp
      · refine .inr (.inr ?_)
        rw [sysLog, if_neg hp]
        rcases he with rfl | rfl
        · exact .inr (List.mem_append_right _ List.mem_cons_self)
        · exact .inl (List.mem_append_right _ List.mem_cons_self)
    · exact .inl (hh.ofDrain (by simp [hdrain, Drain.hand, hrow]))
  | takeOut hretire | close hretire =>
    exact .inl (hh.mono id (by simp [hretire, Retire.hand]) id (fun hp hwho => ⟨hp, .inr rfl⟩))
  | lock hretire hdrain hentering =>
    refine .inl (hh.mono id (by simp [hretire, Retire.hand]) id (fun hp hwho => ⟨hp, .inr ?_⟩))
    exact running_retireNext (List.ne_nil_of_mem hp)
  | retireStored hretire | retireFailed hretire | retireCount hretire =>
    exact .inl (hh.mono id (by rw [hretire]; exact id) id (fun hp hwho => ⟨hp, .inr rfl⟩))
  | @handled _ new stored rest hretire hdone =>
    have hkeys := hok.keys_eq hretire rfl
    by_cases hrow : row = new
    · subst hrow
      rcases hdone with hreported | rfl
      · -- `Close` has the row on its list, or has told it already
        have hpatient := (Bool.and_eq_true_iff.1 hcareful).1
        rw [patient, hretire, bne_iff_ne] at hpatient
        rw [reported, bne_iff_ne] at hreported
        rcases ha.told hreported hpatient row (hkeys ▸ List.mem_cons_self) with hlist | htold
        · exact .inl (.inr (.inr (.inl hlist)))
        · exact .inr (.inr (.inr (List.mem_append_left _ htold)))
      · refine .inr (.inl (List.mem_append_left _ (ha.stored row (.inr ?_))))
        rw [hretire]
        rfl
    · refine .inl (hh.mono id (by simp [hretire, Retire.hand, hrow]) id (fun hp hwho => ?_))
      have hp' := mem_keys_settle.2 ⟨hp, hrow⟩
      have hrest : row ∈ rest := hok.keys_settle hretire ▸ hp'
      exact ⟨hp', .inr (running_retireNext (List.ne_nil_of_mem hrest))⟩
  | @lose _ new rest hretire hreported =>
    by_cases hrow : row = new
    · exact .inl (.inr (.inl (by simp [hrow, Retire.hand])))
    · exact .inl (hh.mono id (by simp [hretire, Retire.hand, hrow]) id
        (fun hp hwho => ⟨mem_keys_settle.2 ⟨hp, hrow⟩, .inr rfl⟩))
  | @retireTell _ new rest hretire =>
    by_cases hrow : row = new
    · exact .inr (.inr (.inr (List.mem_append_right _ (by simp [hrow]))))
    · refine .inl (hh.mono id (by simp [hretire, Retire.hand, hrow]) id
        (fun hp hwho => ⟨hp, .inr ?_⟩))
      exact running_retireNext (List.ne_nil_of_mem (hok.keys_eq hretire rfl ▸ hp))
  | report hreport | listed hreport | reportCount hreport | reportEnd hreport =>
    exact .inl (hh.ofReport (by simp [hreport, Report.rows]))
  | @reportTell new rows hreport =>
    by_cases hrow : row = new
    · exact .inr (.inr (.inr (List.mem_append_right _ (by simp [hrow]))))
    · exact .inl (hh.ofReport (by simp [hreport, Report.rows, hrow]))

theorem Step.accounted (hstep : Step d op d' es) (hcareful : d.careful op = true)
    (ha : d.Accounted h) : d'.Accounted (h ++ es) where
  ok := hstep.ok ha.ok
  stored := hstep.storedOk ha.ok ha.stored
  accepted := hstep.accepted ha.ok ha.accepted
  told := hstep.told hcareful ha.told
  held row hrow := by
    rcases List.mem_append.1 hrow with hold | hnew
    · rcases ha.held row hold with hh | hs
      · exact hstep.holds hcareful ha (ha.accepted row hold).2 hh
      · exact .inr (hs.append es)
    · cases hstep with
      | accept hentering hstopped =>
        cases List.mem_singleton.1 hnew
        have hpending := ha.ok.pending_of_entering row hentering
        refine .inl (.inr (.inr (.inr ⟨by simp [isPending, hpending], .inl ?_⟩)))
        exact List.mem_append_right _ List.mem_cons_self
      | giveUp =>
        rw [sysLog] at hnew
        split_ifs at hnew <;> simp at hnew
      | _ => simp at hnew

theorem accounted_new (gen maxAttempts : Nat) : (Drainer.new gen maxAttempts).Accounted [] where
  ok := ok_new gen maxAttempts
  stored := fun row h => by simp [Drainer.new, Drain.storedRow, Retire.storedRow] at h
  accepted := nofun
  told := fun h => absurd rfl h
  held := nofun

end Drainer

/-- **A careful run accounts for every row that fasten-core has taken.** -/
theorem accounted_of_reaches {gen maxAttempts : Nat} {w : World}
    (h : Trace.Reaches (Trace.restrict Drainer.step Drainer.careful)
      (.start (.new gen maxAttempts)) w) : w.state.Accounted w.history := by
  refine h.invariant (I := fun w => w.state.Accounted w.history)
    (Drainer.accounted_new gen maxAttempts) ?_
  intro w op d' es ha hstep
  obtain ⟨hcareful, hstep⟩ := Trace.restrict_eq_some.1 hstep
  exact (Drainer.step_cases hstep).accounted hcareful ha

end Fasten.GoDrainer
