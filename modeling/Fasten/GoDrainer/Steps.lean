import Fasten.GoDrainer

set_option autoImplicit false

/-! # What a step of a Go drainer does

The step function as a relation with one case for each place a thread can be in, and the invariant of a
drainer: every row it is still to insert is pending, and once `use` is held for writing only `retire`
works on what is left. -/

namespace Fasten.GoDrainer

/-! ## The steps -/

namespace Drainer

inductive Step (d : Drainer) : Op → Drainer → List Event → Prop where
  | register {row : Nat} (hopen : d.closed = false) (hnew : row ∉ d.seen) :
      Step d (.register row)
        { d with
          pending := Dict.set d.pending row 0
          entering := d.entering ++ [row]
          seen := d.seen ++ [row] } [.registered row]
  | accept {row : Nat} (hrow : row ∈ d.entering) (hstopped : d.stopped = false) :
      Step d (.accept row)
        { d with
          entering := d.entering.erase row
          queue := d.queue ++ [row] } [.accepted row]
  | refuse {row : Nat} (hrow : row ∈ d.entering) :
      Step d (.refuse row)
        { d.settle row with entering := d.entering.erase row } [.takenBack row]
  | enterFlush {call : Nat} (hopen : d.closed = false) :
      Step d (.enterFlush call) { d with flushes := d.flushes ++ [call] } []
  | leaveFlush {call : Nat} :
      Step d (.leaveFlush call) { d with flushes := d.flushes.erase call } []
  | take {result : StoreResult} {row : Nat} {rest : List Nat} (hdrain : d.drain = .idle)
      (hqueue : d.queue = row :: rest) :
      Step d (.drain result) { d with queue := rest, drain := .calling row 0 } []
  | exit {result : StoreResult} (hdrain : d.drain = .idle) (hqueue : d.queue = [])
      (hstopped : d.stopped = true) : Step d (.drain result) { d with drain := .exited } []
  | missing {result : StoreResult} {row attempt : Nat} (hdrain : d.drain = .calling row attempt)
      (hrow : Dict.get? d.pending row = none) :
      Step d (.drain result) { d with drain := .answered row attempt .stored }
        [.sys .rowNotPending row]
  | attempt {result : StoreResult} {row attempt attempts : Nat} {next : Drain}
      (hdrain : d.drain = .calling row attempt) (hrow : Dict.get? d.pending row = some attempts)
      (hnext : next = .storing row attempt (attempts + 1)
        ∨ next = d.afterFailure row attempt (attempts + 1) false) :
      Step d (.drain result)
        { d with pending := Dict.adjust d.pending row (· + 1), drain := next } []
  | store {row attempt attempts : Nat} (hdrain : d.drain = .storing row attempt attempts) :
      Step d (.drain .stored) { d with drain := .settling row attempt } [.stored row]
  | fail {result : StoreResult} {row attempt attempts : Nat} {rejected : Bool}
      (hdrain : d.drain = .storing row attempt attempts) :
      Step d (.drain result) { d with drain := d.afterFailure row attempt attempts rejected } []
  | settle {result : StoreResult} {row attempt : Nat} (hdrain : d.drain = .settling row attempt) :
      Step d (.drain result) { d.settle row with drain := .answered row attempt .stored } []
  | keep {result : StoreResult} {row attempt : Nat} {rejected : Bool}
      (hdrain : d.drain = .failing row attempt rejected) (hreported : d.reported = true) :
      Step d (.drain result) { d with drain := .answered row attempt (.ofFailure rejected) } []
  | drop {result : StoreResult} {row attempt : Nat} {rejected : Bool}
      (hdrain : d.drain = .failing row attempt rejected) (hreported : d.reported = false) :
      Step d (.drain result) { d.settle row with drain := .counting row attempt rejected } []
  | count {result : StoreResult} {row attempt : Nat} {rejected : Bool}
      (hdrain : d.drain = .counting row attempt rejected) :
      Step d (.drain result)
        { d with lost := d.lost + 1, drain := .answered row attempt (.ofFailure rejected) }
        [.counted row]
  | drained {result : StoreResult} {row attempt : Nat}
      (hdrain : d.drain = .answered row attempt .stored) :
      Step d (.drain result) { d with drain := .idle } []
  | giveUp {result : StoreResult} {row attempt : Nat} {answer : Answer} {e : SysEvent}
      (hdrain : d.drain = .answered row attempt answer) (hanswer : answer ≠ .stored)
      (hlast : d.stopped = true ∨ answer = .rejected ∨ d.maxAttempts ≤ attempt + 1)
      (he : e = .lostAtStop ∨ e = .deadLetter) :
      Step d (.drain result) { d with drain := .idle } (d.sysLog e row)
  | again {result : StoreResult} {row attempt : Nat} {answer : Answer}
      (hdrain : d.drain = .answered row attempt answer) (hanswer : answer ≠ .stored)
      (hmore : ¬(answer = .rejected ∨ d.maxAttempts ≤ attempt + 1)) :
      Step d (.drain result) { d with drain := .calling row (attempt + 1) } []
  | takeOut {deadline : Bool} (hretire : d.retire = .notYet) :
      Step d (.takeOut deadline) { d with deadline := deadline, retire := .flushing } []
  | close {result : StoreResult} (hretire : d.retire = .flushing) :
      Step d (.retire result) { d with stopped := true, retire := .closing } []
  | lock {result : StoreResult} (hretire : d.retire = .closing) (hdrain : d.drain = .exited)
      (hentering : d.entering = []) :
      Step d (.retire result)
        { d with closed := true, retire := d.retireNext (Dict.keys d.pending) } []
  | retireStored {row : Nat} {rest : List Nat} (hretire : d.retire = .storing row rest) :
      Step d (.retire .stored) { d with retire := .handling row true rest } [.stored row]
  | retireFailed {result : StoreResult} {row : Nat} {rest : List Nat}
      (hretire : d.retire = .storing row rest) :
      Step d (.retire result) { d with retire := .handling row false rest } []
  | handled {result : StoreResult} {row : Nat} {stored : Bool} {rest : List Nat}
      (hretire : d.retire = .handling row stored rest)
      (hdone : d.reported = true ∨ stored = true) :
      Step d (.retire result) { d.settle row with retire := d.retireNext rest } []
  | lose {result : StoreResult} {row : Nat} {rest : List Nat}
      (hretire : d.retire = .handling row false rest) (hreported : d.reported = false) :
      Step d (.retire result) { d.settle row with retire := .losing row rest } []
  | retireCount {result : StoreResult} {row : Nat} {rest : List Nat}
      (hretire : d.retire = .losing row rest) :
      Step d (.retire result) { d with lost := d.lost + 1, retire := .telling row rest }
        [.counted row]
  | retireTell {result : StoreResult} {row : Nat} {rest : List Nat}
      (hretire : d.retire = .telling row rest) :
      Step d (.retire result) { d with retire := d.retireNext rest } [.sys .lostAtStop row]
  | cancel : Step d .cancel { d with cancelled := true } []
  | report (hreport : d.report = .unasked) (hretire : d.retire ≠ .notYet) :
      Step d .report { d with report := .begun } []
  | listed (hreport : d.report = .begun) :
      Step d .report { d with report := .losing (Dict.keys d.pending) } []
  | reportCount {row : Nat} {rows : List Nat} (hreport : d.report = .losing (row :: rows)) :
      Step d .report { d with lost := d.lost + 1, report := .telling row rows } [.counted row]
  | reportTell {row : Nat} {rows : List Nat} (hreport : d.report = .telling row rows) :
      Step d .report { d with report := .losing rows } [.sys .lostAtStop row]
  | reportEnd (hreport : d.report = .losing []) : Step d .report { d with report := .finished } []

variable {d d' : Drainer} {es : List Event}

theorem stepDrain_cases {result : StoreResult} (h : d.stepDrain result = some (d', es)) :
    Step d (.drain result) d' es := by
  unfold stepDrain at h
  split at h
  · split at h
    · cases h
      exact .take ‹_› ‹_›
    · split_ifs at h with hstopped
      cases h
      exact .exit ‹_› ‹_› hstopped
  · split at h
    · cases h
      exact .missing ‹_› ‹_›
    · cases h
      refine .attempt ‹_› ‹_› ?_
      split_ifs
      · exact .inr rfl
      · exact .inl rfl
  · cases result <;> cases h
    · exact .store ‹_›
    · exact .fail ‹_›
    · exact .fail ‹_›
  · cases h
    exact .settle ‹_›
  · split_ifs at h with hreported <;> cases h
    · exact .keep ‹_› hreported
    · exact .drop ‹_› (by simpa using hreported)
  · cases h
    exact .count ‹_›
  · rename_i row attempt answer hdrain
    simp only [judge, Option.some.injEq] at h
    split_ifs at h with hanswer hstopped hlast <;> cases h
    · exact .drained (hanswer ▸ hdrain)
    · exact .giveUp hdrain hanswer (.inl hstopped) (.inl rfl)
    · exact .giveUp hdrain hanswer (.inr hlast) (.inr rfl)
    · exact .again hdrain hanswer hlast
  · cases h

theorem stepRetire_cases {result : StoreResult} (h : d.stepRetire result = some (d', es)) :
    Step d (.retire result) d' es := by
  unfold stepRetire at h
  split at h
  · cases h
  · cases h
  · cases h
    exact .close ‹_›
  · split_ifs at h with hready
    cases h
    exact .lock ‹_› hready.1 hready.2.1
  · split_ifs at h with hstored <;> cases h
    · exact hstored ▸ .retireStored ‹_›
    · exact .retireFailed ‹_›
  · rename_i row stored rest hretire
    cases h
    split_ifs with hdone
    · exact .handled hretire (by simpa using hdone)
    · obtain ⟨hreported, hstored⟩ := not_or.1 hdone
      cases stored with
      | true => exact absurd rfl hstored
      | false => exact .lose hretire (by simpa using hreported)
  · cases h
    exact .retireCount ‹_›
  · cases h
    exact .retireTell ‹_›

theorem stepReport_cases (h : d.stepReport = some (d', es)) : Step d .report d' es := by
  unfold stepReport at h
  split at h
  · split_ifs at h with hretire
    cases h
    exact .report ‹_› hretire
  · cases h
    exact .listed ‹_›
  · cases h
    exact .reportEnd ‹_›
  · cases h
    exact .reportCount ‹_›
  · cases h
    exact .reportTell ‹_›
  · cases h

/-- **Everything a step can do.** -/
theorem step_cases {op : Op} (h : d.step op = some (d', es)) : Step d op d' es := by
  cases op with
  | register row =>
    simp only [step] at h
    split_ifs at h with hguard
    cases h
    obtain ⟨hopen, hnew⟩ := not_or.1 hguard
    exact .register (by simpa using hopen) hnew
  | accept row =>
    simp only [step] at h
    split_ifs at h with hguard
    cases h
    exact .accept hguard.1 hguard.2
  | refuse row =>
    simp only [step] at h
    split_ifs at h with hguard
    cases h
    exact .refuse hguard
  | enterFlush call =>
    simp only [step] at h
    split_ifs at h with hclosed
    cases h
    exact .enterFlush (by simpa using hclosed)
  | leaveFlush call =>
    cases h
    exact .leaveFlush
  | drain result => exact stepDrain_cases h
  | takeOut deadline =>
    simp only [step] at h
    split_ifs at h with hretire
    cases h
    exact .takeOut hretire
  | retire result => exact stepRetire_cases h
  | cancel =>
    simp only [step] at h
    split_ifs at h with hguard
    cases h
    exact .cancel
  | report => exact stepReport_cases h

end Drainer

/-! ## Where the threads are -/

namespace Retire

/-- `retire` has closed fasten-core's drainer. -/
def stops : Retire → Bool
  | .notYet | .flushing => false
  | _ => true

/-- `retire` holds `use` for writing, or has held it. -/
def locked : Retire → Bool
  | .notYet | .flushing | .closing => false
  | _ => true

def running : Retire → Bool
  | .notYet | .done => false
  | _ => true

/-- The rows `retire` found pending and has not taken out of `pending`. -/
def todo : Retire → List Nat
  | .storing row rest | .handling row _ rest => row :: rest
  | .losing _ rest | .telling _ rest => rest
  | _ => []

end Retire

namespace Drainer

variable {d d' : Drainer} {es : List Event}

@[simp] theorem get?_settle (row x : Nat) : Dict.get? (d.settle row).pending x
    = if x = row then none else Dict.get? d.pending x := by
  simp [settle, Dict.get?_drop]

@[simp] theorem stops_retireNext (rows : List Nat) : (d.retireNext rows).stops = true := by
  cases rows with
  | nil => rfl
  | cons row rest => rw [retireNext]; split_ifs <;> rfl

@[simp] theorem locked_retireNext (rows : List Nat) : (d.retireNext rows).locked = true := by
  cases rows with
  | nil => rfl
  | cons row rest => rw [retireNext]; split_ifs <;> rfl

@[simp] theorem todo_retireNext (rows : List Nat) : (d.retireNext rows).todo = rows := by
  cases rows with
  | nil => rfl
  | cons row rest => rw [retireNext]; split_ifs <;> rfl

@[simp] theorem hand_afterFailure (row attempt attempts : Nat) (rejected : Bool) :
    (d.afterFailure row attempt attempts rejected).hand = [row] := by
  rw [afterFailure]
  split_ifs <;> rfl

/-! ## The invariant -/

/-- What the drain thread knows about the row in its hands. -/
def DrainOk (d : Drainer) : Prop :=
  match d.drain with
  | .idle | .exited | .settling _ _ => True
  | .calling row attempt => Dict.get? d.pending row = some attempt
  | .storing row attempt attempts =>
    attempts = attempt + 1 ∧ Dict.get? d.pending row = some attempts
  | .failing row attempt rejected =>
    (rejected = true ∨ d.maxAttempts ≤ attempt + 1)
      ∧ Dict.get? d.pending row = some (attempt + 1)
  | .counting row attempt rejected =>
    (rejected = true ∨ d.maxAttempts ≤ attempt + 1) ∧ Dict.get? d.pending row = none
  | .answered row attempt answer =>
    -- a row whose last attempt has failed is out of `pending`, unless `Close` reported it
    answer = .stored ∨ Dict.get? d.pending row = some (attempt + 1)
        ∧ (answer = .rejected ∨ d.maxAttempts ≤ attempt + 1 → d.reported = true)
      ∨ Dict.get? d.pending row = none ∧ (answer = .rejected ∨ d.maxAttempts ≤ attempt + 1)

structure Ok (d : Drainer) : Prop where
  seen_of_pending : ∀ row, Dict.get? d.pending row ≠ none → row ∈ d.seen
  seen_of_hand : ∀ row ∈ d.drain.hand, row ∈ d.seen
  pending_of_entering : ∀ row ∈ d.entering, Dict.get? d.pending row = some 0
  pending_of_queue : ∀ row ∈ d.queue, Dict.get? d.pending row = some 0
  nodup_pending : (Dict.keys d.pending).Nodup
  nodup : (d.entering ++ d.queue ++ d.drain.hand).Nodup
  drain : d.DrainOk
  exited : d.drain = .exited → d.queue = [] ∧ d.stopped = true
  stopped : d.stopped = d.retire.stops
  closed : d.closed = d.retire.locked
  locked : d.retire.locked = true → d.drain = .exited ∧ d.entering = []
    ∧ Dict.keys d.pending = d.retire.todo
  reported : d.reported = true → d.retire ≠ .notYet

theorem ok_new (gen maxAttempts : Nat) : (Drainer.new gen maxAttempts).Ok where
  seen_of_pending := fun _ h => absurd rfl h
  seen_of_hand := nofun
  pending_of_entering := nofun
  pending_of_queue := nofun
  nodup_pending := List.nodup_nil
  nodup := List.nodup_nil
  drain := trivial
  exited := nofun
  stopped := rfl
  closed := rfl
  locked := nofun
  reported := nofun

variable {row lost : Nat} {pending : List (Nat × Nat)} {drain : Drain}

theorem ne_none_of_sublist {pending' : List (Nat × Nat)}
    (hkeys : (Dict.keys pending').Sublist (Dict.keys pending)) {x : Nat}
    (hx : Dict.get? pending' x ≠ none) : Dict.get? pending x ≠ none := by
  rw [ne_eq, Dict.get?_eq_none_iff, not_not] at hx ⊢
  exact hkeys.subset hx

/-- The drain thread works on the row in its hands. -/
theorem Ok.moveDrain (hok : d.Ok) (hrow : d.drain.hand = [row])
    (hhand : drain.hand = [row] ∨ drain = .idle)
    (hother : ∀ x, x ≠ row → Dict.get? pending x = Dict.get? d.pending x)
    (hkeys : (Dict.keys pending).Sublist (Dict.keys d.pending))
    (hdrain : DrainOk { d with lost := lost, pending := pending, drain := drain }) :
    Ok { d with lost := lost, pending := pending, drain := drain } := by
  have hlive : d.drain ≠ .exited := fun h => by simp [h, Drain.hand] at hrow
  have hlive' : drain ≠ .exited := by
    rintro rfl
    simp [Drain.hand] at hhand
  have hhand' : drain.hand.Sublist d.drain.hand := by
    rcases hhand with h | rfl
    · rw [h, hrow]
    · exact List.nil_sublist _
  have hapart : ∀ x ∈ d.entering ++ d.queue, x ≠ row := by
    intro x hx
    exact (List.nodup_append.1 hok.nodup).2.2 x hx row (hrow ▸ List.mem_singleton_self row)
  exact
    { hok with
      seen_of_pending := fun x hx => hok.seen_of_pending x (ne_none_of_sublist hkeys hx)
      seen_of_hand := fun x hx => hok.seen_of_hand x (hhand'.subset hx)
      pending_of_entering := fun x hx =>
        (hother x (hapart x (List.mem_append_left _ hx))).trans (hok.pending_of_entering x hx)
      pending_of_queue := fun x hx =>
        (hother x (hapart x (List.mem_append_right _ hx))).trans (hok.pending_of_queue x hx)
      nodup_pending := hok.nodup_pending.sublist hkeys
      nodup := hok.nodup.sublist (hhand'.append_left _)
      drain := hdrain
      exited := fun h => absurd h hlive'
      locked := fun h => absurd (hok.locked h).1 hlive }

theorem Ok.stepDrain (hok : d.Ok) (hrow : d.drain.hand = [row])
    (hhand : drain.hand = [row] ∨ drain = .idle)
    (hdrain : DrainOk { d with lost := lost, drain := drain }) :
    Ok { d with lost := lost, drain := drain } :=
  hok.moveDrain hrow hhand (fun _ _ => rfl) (List.Sublist.refl _) hdrain

theorem Ok.settleDrain (hok : d.Ok) (hrow : d.drain.hand = [row]) (hhand : drain.hand = [row])
    (hdrain : DrainOk { d.settle row with drain := drain }) :
    Ok { d.settle row with drain := drain } :=
  hok.moveDrain hrow (.inl hhand) (fun x hx => (get?_settle row x).trans (if_neg hx))
    (Dict.keys_drop_sublist d.pending [row]) hdrain

/-- What the drain thread knows where it is. -/
theorem Ok.drainAt (hok : d.Ok) (h : d.drain = drain) : DrainOk { d with drain := drain } := by
  subst h
  exact hok.drain

/-- Once the lock of `use` is taken, only `retire` is left. -/
theorem Ok.moveRetire (hok : d.Ok) {retire : Retire} (hlocked : d.retire.locked = true)
    (hlocked' : retire.locked = true) (hkeys : (Dict.keys pending).Sublist (Dict.keys d.pending))
    (htodo : Dict.keys pending = retire.todo) :
    Ok { d with lost := lost, pending := pending, retire := retire } := by
  obtain ⟨hexited, hentering, -⟩ := hok.locked hlocked
  obtain ⟨hqueue, hstopped⟩ := hok.exited hexited
  exact
    { hok with
      seen_of_pending := fun x hx => hok.seen_of_pending x (ne_none_of_sublist hkeys hx)
      pending_of_entering := fun x hx => by simp [hentering] at hx
      pending_of_queue := fun x hx => by simp [hqueue] at hx
      nodup_pending := hok.nodup_pending.sublist hkeys
      drain := by simp [DrainOk, hexited]
      stopped := by
        show d.stopped = _
        rw [hstopped]
        cases retire <;> first | rfl | cases hlocked'
      closed := by
        show d.closed = _
        rw [hok.closed, hlocked, hlocked']
      locked := fun _ => ⟨hexited, hentering, htodo⟩
      reported := fun _ h => by
        have hnotYet : retire = .notYet := h
        rw [hnotYet] at hlocked'
        cases hlocked' }

theorem Ok.keys_eq (hok : d.Ok) {retire : Retire} (hretire : d.retire = retire)
    (hlocked : retire.locked = true) : Dict.keys d.pending = retire.todo := by
  subst hretire
  exact (hok.locked hlocked).2.2

/-- What is pending after `retire` has taken a row out. -/
theorem Ok.keys_settle (hok : d.Ok) {stored : Bool} {rest : List Nat}
    (hretire : d.retire = .handling row stored rest) : Dict.keys (d.settle row).pending = rest := by
  have hkeys := hok.keys_eq hretire rfl
  have hnodup := hok.nodup_pending
  rw [hkeys, Retire.todo, List.nodup_cons] at hnodup
  rw [settle, Dict.keys_drop, hkeys, Retire.todo, List.filter_cons_of_neg (by simp),
    List.filter_eq_self]
  intro x hx
  simpa using fun h : x = row => hnodup.1 (h ▸ hx)

theorem DrainOk.report (h : d.DrainOk) {report : Report} (hreport : report ≠ .unasked) :
    DrainOk { d with lost := lost, report := report } := by
  have hreported : reported { d with lost := lost, report := report } = true := by
    simp [reported, hreport]
  unfold DrainOk at h ⊢
  cases hdrain : d.drain with
  | answered row attempt answer =>
    simp only [hdrain] at h ⊢
    exact h.imp_right (Or.imp_left (fun h => ⟨h.1, fun _ => hreported⟩))
  | idle | exited | settling row attempt => trivial
  | calling row attempt | storing row attempt attempts | failing row attempt rejected
  | counting row attempt rejected => simpa only [hdrain] using h

/-- `Close` goes on in `reportUnstored`. -/
theorem Ok.moveReport (hok : d.Ok) {report : Report} (hreport : report ≠ .unasked)
    (hretire : d.retire ≠ .notYet) : Ok { d with lost := lost, report := report } :=
  { hok with
    drain := hok.drain.report hreport
    reported := fun _ => hretire }

/-- It is about the row in the drain thread's hands only. -/
theorem DrainOk.congr (h : d.DrainOk) (hdrain : d'.drain = d.drain)
    (hmax : d'.maxAttempts = d.maxAttempts) (hreported : d'.reported = d.reported)
    (hget : ∀ row ∈ d.drain.hand, Dict.get? d'.pending row = Dict.get? d.pending row) :
    d'.DrainOk := by
  unfold DrainOk at h ⊢
  rw [hdrain, hmax, hreported]
  cases hd : d.drain with
  | idle | exited | settling row attempt => trivial
  | calling row attempt | storing row attempt attempts | failing row attempt rejected
  | counting row attempt rejected | answered row attempt answer =>
    rw [hd] at h hget
    simpa only [hget row List.mem_cons_self] using h

theorem drainOk_afterFailure {attempt : Nat} (rejected : Bool)
    (hrow : Dict.get? pending row = some (attempt + 1)) :
    DrainOk { d with
      pending := pending
      drain := d.afterFailure row attempt (attempt + 1) rejected } := by
  rw [DrainOk, afterFailure]
  by_cases hlast : rejected = true ∨ d.maxAttempts ≤ attempt + 1
  · simp [hlast, hrow]
  · simp only [hlast, if_false]
    exact .inr (.inl ⟨hrow, fun h => absurd (h.imp_left (by simp)) hlast⟩)

theorem Ok.register (hok : d.Ok) (hopen : d.closed = false) (hnew : row ∉ d.seen) :
    Ok { d with
      pending := Dict.set d.pending row 0
      entering := d.entering ++ [row]
      seen := d.seen ++ [row] } := by
  have hunseen : Dict.get? d.pending row = none :=
    not_ne_iff.1 (fun hne => hnew (hok.seen_of_pending row hne))
  have hget : ∀ x, Dict.get? (Dict.set d.pending row 0) x
      = if row = x then some 0 else Dict.get? d.pending x := Dict.get?_set d.pending row 0
  have hkeep : ∀ {x}, x ∈ d.seen → Dict.get? (Dict.set d.pending row 0) x = Dict.get? d.pending x :=
    fun {x} hx => (hget x).trans (if_neg (fun hrow : row = x => hnew (hrow ▸ hx)))
  have hseen : ∀ {x a}, Dict.get? d.pending x = some a → x ∈ d.seen :=
    fun {x a} hx => hok.seen_of_pending x (by simp [hx])
  have hlocked : d.retire.locked = false := hok.closed ▸ hopen
  refine { hok with
    seen_of_pending := fun x hx => ?_
    seen_of_hand := fun x hx => List.mem_append_left _ (hok.seen_of_hand x hx)
    pending_of_entering := fun x hx => ?_
    pending_of_queue := fun x hx => ?_
    nodup_pending := Dict.nodup_keys_set hok.nodup_pending row 0
    nodup := ?_
    drain := ?_
    locked := fun h => by cases hlocked.symm.trans h }
  · rw [hget] at hx
    split_ifs at hx with hrow
    · exact List.mem_append_right _ (List.mem_singleton.2 hrow.symm)
    · exact List.mem_append_left _ (hok.seen_of_pending x hx)
  · rw [hget]
    rcases List.mem_append.1 hx with hold | hrow
    · split_ifs
      · rfl
      · exact hok.pending_of_entering x hold
    · rw [if_pos (List.mem_singleton.1 hrow).symm]
  · have hx' := hok.pending_of_queue x hx
    rw [hkeep (hseen hx'), hx']
  · have hall : ∀ x ∈ d.entering ++ d.queue ++ d.drain.hand, x ∈ d.seen := by
      intro x hx
      rcases List.mem_append.1 hx with hx | hx
      · rcases List.mem_append.1 hx with hx | hx
        · exact hseen (hok.pending_of_entering x hx)
        · exact hseen (hok.pending_of_queue x hx)
      · exact hok.seen_of_hand x hx
    have hperm : (d.entering ++ [row] ++ d.queue ++ d.drain.hand).Perm
        (row :: (d.entering ++ d.queue ++ d.drain.hand)) := by
      simp
    exact hperm.nodup_iff.2 (List.nodup_cons.2 ⟨fun hx => hnew (hall row hx), hok.nodup⟩)
  · -- the row in the drain thread's hands has been seen, so it is not the new one
    exact hok.drain.congr rfl rfl rfl (fun x hx => hkeep (hok.seen_of_hand x hx))

theorem Ok.accept (hok : d.Ok) (hrow : row ∈ d.entering) (hstopped : d.stopped = false) :
    Ok { d with
      entering := d.entering.erase row
      queue := d.queue ++ [row] } := by
  refine { hok with
    pending_of_entering := fun x hx => hok.pending_of_entering x (List.mem_of_mem_erase hx)
    pending_of_queue := fun x hx => ?_
    nodup := ?_
    exited := fun h => by cases (hok.exited h).2.symm.trans hstopped
    locked := fun h => by simp [(hok.locked h).2.1] at hrow }
  · rcases List.mem_append.1 hx with hold | hx
    · exact hok.pending_of_queue x hold
    · rw [List.mem_singleton.1 hx]
      exact hok.pending_of_entering row hrow
  · refine List.Perm.nodup (List.Perm.append_right _ ?_) hok.nodup
    calc d.entering ++ d.queue
        |>.Perm (row :: d.entering.erase row ++ d.queue) :=
          (List.perm_cons_erase hrow).append_right _
      _ |>.Perm (d.entering.erase row ++ (d.queue ++ [row])) := by
          simpa using List.perm_append_singleton row (d.entering.erase row ++ d.queue) |>.symm

theorem Ok.refuse (hok : d.Ok) (hrow : row ∈ d.entering) :
    Ok { d.settle row with entering := d.entering.erase row } := by
  obtain ⟨hfront, -, hhand⟩ := List.nodup_append.1 hok.nodup
  obtain ⟨hentering, -, hqueue⟩ := List.nodup_append.1 hfront
  have hget := fun x => get?_settle (d := d) row x
  refine { hok with
    seen_of_pending := fun x hx => hok.seen_of_pending x (fun h => hx ?_)
    pending_of_entering := fun x hx => ?_
    pending_of_queue := fun x hx => ?_
    nodup_pending := hok.nodup_pending.sublist (Dict.keys_drop_sublist d.pending [row])
    nodup := hok.nodup.sublist (((List.erase_sublist).append_right _).append_right _)
    drain := ?_
    locked := fun h => by simp [(hok.locked h).2.1] at hrow }
  · show Dict.get? (d.settle row).pending x = none
    rw [hget, h, ite_self]
  · obtain ⟨hne, hx⟩ := (hentering.mem_erase_iff).1 hx
    exact (hget x).trans ((if_neg hne).trans (hok.pending_of_entering x hx))
  · have hne : x ≠ row := fun h => hqueue row hrow x hx h.symm
    exact (hget x).trans ((if_neg hne).trans (hok.pending_of_queue x hx))
  · -- the row in the drain thread's hands is not one that is entering
    refine hok.drain.congr rfl rfl rfl (fun x hx => (hget x).trans (if_neg ?_))
    exact fun h => hhand row (List.mem_append_left _ hrow) x hx h.symm

/-- **Every step keeps the invariant.** -/
theorem Step.ok {op : Op} (h : Step d op d' es) (hok : d.Ok) : d'.Ok := by
  cases h with
  | register hopen hnew => exact hok.register hopen hnew
  | accept hrow hstopped => exact hok.accept hrow hstopped
  | refuse hrow => exact hok.refuse hrow
  | enterFlush | leaveFlush | cancel => exact { hok with }
  | @take _ row rest hdrain hqueue =>
    have hnodup := hok.nodup
    simp only [hdrain, hqueue, Drain.hand, List.append_nil] at hnodup
    have hpending : ∀ x ∈ row :: rest, Dict.get? d.pending x = some 0 :=
      fun x hx => hok.pending_of_queue x (hqueue ▸ hx)
    have hrow := hpending row List.mem_cons_self
    refine { hok with
      seen_of_hand := fun x hx => ?_
      pending_of_queue := fun x hx => hpending x (List.mem_cons_of_mem _ hx)
      nodup := ?_
      drain := hrow
      exited := fun h => by cases h
      locked := fun h => by cases hdrain.symm.trans (hok.locked h).1 }
    · rw [List.mem_singleton.1 hx]
      exact hok.seen_of_pending row (by simp [hrow])
    · refine List.Perm.nodup ?_ hnodup
      simpa [Drain.hand] using
        List.Perm.append_left d.entering (List.perm_append_singleton row rest).symm
  | exit hdrain hqueue hstopped =>
    have hnodup := hok.nodup
    simp only [hdrain, Drain.hand] at hnodup
    exact
      { hok with
        seen_of_hand := List.forall_mem_nil _
        nodup := hnodup
        drain := trivial
        exited := fun _ => ⟨hqueue, hstopped⟩
        locked := fun h => by cases hdrain.symm.trans (hok.locked h).1 }
  | missing hdrain hrow =>
    -- the row of the drain thread is pending
    cases hrow.symm.trans (hok.drainAt hdrain)
  | @attempt _ row attempt attempts next hdrain hrow hnext =>
    cases hrow.symm.trans (hok.drainAt hdrain)
    have hget := fun x => Dict.get?_adjust d.pending row (· + 1) x
    have hrow' : Dict.get? (Dict.adjust d.pending row (· + 1)) row = some (attempt + 1) := by
      rw [hget, if_pos rfl, hrow]
      rfl
    refine hok.moveDrain (congrArg Drain.hand hdrain) (.inl ?_)
      (fun x hx => by rw [hget, if_neg hx]) (by simp) ?_
    · rcases hnext with rfl | rfl
      · rfl
      · exact hand_afterFailure ..
    · rcases hnext with rfl | rfl
      · exact ⟨rfl, hrow'⟩
      · exact drainOk_afterFailure false hrow'
  | store hdrain => exact hok.stepDrain (congrArg Drain.hand hdrain) (.inl rfl) trivial
  | @fail _ row attempt attempts rejected hdrain =>
    obtain ⟨rfl, hrow⟩ := hok.drainAt hdrain
    exact hok.stepDrain (congrArg Drain.hand hdrain) (.inl (hand_afterFailure ..))
      (drainOk_afterFailure rejected hrow)
  | settle hdrain => exact hok.settleDrain (congrArg Drain.hand hdrain) rfl (.inl rfl)
  | keep hdrain hreported =>
    obtain ⟨-, hrow⟩ := hok.drainAt hdrain
    exact hok.stepDrain (congrArg Drain.hand hdrain) (.inl rfl)
      (.inr (.inl ⟨hrow, fun _ => hreported⟩))
  | @drop _ row attempt rejected hdrain hreported =>
    obtain ⟨hlast, -⟩ := hok.drainAt hdrain
    exact hok.settleDrain (congrArg Drain.hand hdrain) rfl
      ⟨hlast, (get?_settle row row).trans (if_pos rfl)⟩
  | count hdrain =>
    obtain ⟨hlast, hrow⟩ := hok.drainAt hdrain
    refine hok.stepDrain (congrArg Drain.hand hdrain) (.inl rfl)
      (.inr (.inr ⟨hrow, hlast.imp_left ?_⟩))
    rintro rfl
    rfl
  | drained hdrain | giveUp hdrain =>
    exact hok.stepDrain (congrArg Drain.hand hdrain) (.inr rfl) trivial
  | again hdrain hanswer hmore =>
    have hrow := ((hok.drainAt hdrain).resolve_left hanswer).resolve_right (fun h => hmore h.2)
    exact hok.stepDrain (congrArg Drain.hand hdrain) (.inl rfl) hrow.1
  | takeOut hretire =>
    exact
      { hok with
        stopped := by rw [hok.stopped, hretire]; rfl
        closed := by rw [hok.closed, hretire]; rfl
        locked := fun h => by cases h
        reported := fun _ h => by cases h }
  | close hretire =>
    exact
      { hok with
        exited := fun h => ⟨(hok.exited h).1, rfl⟩
        stopped := rfl
        closed := by rw [hok.closed, hretire]; rfl
        locked := fun h => by cases h
        reported := fun _ h => by cases h }
  | lock hretire hdrain hentering =>
    exact
      { hok with
        stopped := by rw [hok.stopped, hretire, stops_retireNext]; rfl
        closed := (locked_retireNext _).symm
        locked := fun _ => ⟨hdrain, hentering, (todo_retireNext _).symm⟩
        reported := fun _ h => by
          have hlocked := locked_retireNext (d := d) (Dict.keys d.pending)
          rw [show d.retireNext (Dict.keys d.pending) = .notYet from h] at hlocked
          cases hlocked }
  | retireStored hretire | retireFailed hretire | retireCount hretire =>
    have htodo := hok.keys_eq hretire rfl
    exact hok.moveRetire (by rw [hretire]; rfl) rfl (List.Sublist.refl _) htodo
  | @handled _ row stored rest hretire hdone =>
    exact hok.moveRetire (by rw [hretire]; rfl) (locked_retireNext rest)
      (Dict.keys_drop_sublist d.pending [row])
      ((hok.keys_settle hretire).trans (todo_retireNext rest).symm)
  | @lose _ row rest hretire hreported =>
    exact hok.moveRetire (by rw [hretire]; rfl) rfl (Dict.keys_drop_sublist d.pending [row])
      (hok.keys_settle hretire)
  | @retireTell _ row rest hretire =>
    exact hok.moveRetire (by rw [hretire]; rfl) (locked_retireNext rest) (List.Sublist.refl _)
      ((hok.keys_eq hretire rfl).trans (todo_retireNext rest).symm)
  | report hreport hretire => exact hok.moveReport (by simp) hretire
  | listed hreport | reportCount hreport | reportTell hreport | reportEnd hreport =>
    exact hok.moveReport (by simp) (hok.reported (by simp [reported, hreport]))

end Drainer

end Fasten.GoDrainer
