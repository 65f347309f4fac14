import Fasten.Drainer.Accounts
import Fasten.Drainer.Phases
import Fasten.Drainer.Slots

set_option autoImplicit false

/-! # The events of the drain thread

A run of the drainer, with a note wherever `drain_rows` decides to retry a row. The notes that the
specification speaks of are its marks, and the drain thread makes them as the state machine of `Phases`
does. -/

namespace Fasten.Core

/-! ## Notes -/

/-- An event of the drainer, or a failure that is to be retried. -/
inductive Note where
  | event (e : Event)
  | retry (call failures : Nat)
  deriving DecidableEq

def Note.event? : Note → Option Event
  | .event e => some e
  | .retry _ _ => none

def SysEvent.mark? : SysEvent → Option Mark
  | .failed _ => some .failed
  | .degraded n _ _ => some (.degraded n)
  | .recovered _ => some .recovered
  | .deadLetter _ _ _ => some .deadLetter
  | _ => none

def Note.mark? : Note → Option Mark
  | .retry i n => some (.retry i n)
  | .event (.insertEnded _ .ok) => some .success
  | .event (.sys e) => e.mark?
  | .event _ => none

def marks (notes : List Note) : List Mark := notes.filterMap Note.mark?

@[simp] theorem marks_append (notes notes' : List Note) :
    marks (notes ++ notes') = marks notes ++ marks notes' :=
  List.filterMap_append

/-- The thread goes to `on_failure` with a row that is to be retried. -/
def retryNote (t t' : Thread) : List Note :=
  match t, t' with
  | .judging _ _ _ _, .failing e attempt _ => [.retry e.call attempt]
  | _, _ => []

theorem retryNote_eq_nil (t : Thread) : retryNote t t = [] := by
  cases t <;> rfl

/-- A step, with its notes. -/
def Drainer.noted (d : Drainer) (l : Label) : Option (Drainer × List Note) :=
  (d.step l).map fun r => (r.1, retryNote d.thread r.1.thread ++ r.2.map .event)

abbrev NotedWorld := Trace.World Drainer Note

/-- The same run without the notes on retries. -/
def NotedWorld.events (w : NotedWorld) : World := ⟨w.state, w.history.filterMap Note.event?⟩

theorem noted_eq_some {d d' : Drainer} {l : Label} {notes : List Note}
    (h : d.noted l = some (d', notes)) : ∃ es, d.step l = some (d', es)
      ∧ notes = retryNote d.thread d'.thread ++ es.map .event := by
  obtain ⟨⟨d₁, es⟩, hstep, heq⟩ := Option.map_eq_some_iff.1 h
  cases heq
  exact ⟨es, hstep, rfl⟩

theorem filterMap_event?_notes (t t' : Thread) (es : List Event) :
    (retryNote t t' ++ es.map Note.event).filterMap Note.event? = es := by
  have hretry : (retryNote t t').filterMap Note.event? = [] := by
    unfold retryNote
    split <;> rfl
  rw [List.filterMap_append, hretry, List.filterMap_map, List.nil_append]
  exact List.filterMap_some

theorem events_reaches {w w' : NotedWorld} (h : Trace.Reaches Drainer.noted w w') :
    Trace.Reaches Drainer.step w.events w'.events := by
  induction h with
  | refl => exact .refl
  | tail _ hmoves ih =>
    obtain ⟨l, hnext⟩ := hmoves
    obtain ⟨notes, hnoted, hhistory⟩ := Trace.World.next_eq_some.1 hnext
    obtain ⟨es, hstep, rfl⟩ := noted_eq_some hnoted
    refine ih.tail ⟨l, Trace.World.next_eq_some.2 ⟨es, hstep, ?_⟩⟩
    simp only [NotedWorld.events, hhistory]
    rw [List.filterMap_append, filterMap_event?_notes]

/-! ## The events of other threads -/

/-- The sys event a call is about to send. -/
def Call.tells : Call → Option SysEvent
  | .enqueue _ (.announcing e) => some e
  | .stop (.joined e) => e
  | _ => none

/-- The call sends nothing the specification of the drain thread speaks of. -/
def Call.isForeign (c : Call) : Bool := (c.tells.bind SysEvent.mark?).isNone

theorem Call.isForeign_unpark (c : Call) : c.unpark.isForeign = c.isForeign :=
  Call.of_unpark _ (fun _ => rfl) c

/-- A step of another thread: it leaves the drain thread alone and speaks of other things. -/
structure Foreign (d d' : Drainer) (es : List Event) : Prop where
  thread : d'.thread = d.thread
  burst : d'.stats.burst = d.stats.burst
  quiet : ∀ e ∈ es, (∃ s, e = .sys s ∧ s.mark? = none) ∨ (∃ i, e = .called i) ∨ ∃ i, e = .pushed i
  calls : ∀ c ∈ d'.calls, c.isForeign = true

theorem Stats.recordDepth_foreign (st : Stats) (depth capacity : Nat) (e : SysEvent)
    (h : (st.recordDepth depth capacity).2 = some e) : e.mark? = none := by
  unfold Stats.recordDepth at h
  dsimp only at h
  split_ifs at h <;> cases h <;> rfl

section Foreign

variable {d d' : Drainer} {i : Nat} {env : Env} {es : List Event}

theorem isForeign_of_sameCalls {calls calls' : List Call} (h : SameCalls calls calls')
    (hforeign : ∀ c ∈ calls, c.isForeign = true) : ∀ c ∈ calls', c.isForeign = true := by
  intro c hc
  obtain ⟨j, hj⟩ := List.mem_iff_getElem?.1 hc
  have hmap := congrArg (fun l : List Call => l[j]?) h
  simp only [List.getElem?_map, hj, Option.map_some] at hmap
  obtain ⟨c', hc', hunpark⟩ := Option.map_eq_some_iff.1 hmap.symm
  rw [← Call.isForeign_unpark, ← hunpark, Call.isForeign_unpark]
  exact hforeign c' (List.mem_of_getElem? hc')

theorem isForeign_set {calls : List Call} {c : Call} (hc : c.isForeign = true)
    (hforeign : ∀ c ∈ calls, c.isForeign = true) : ∀ c' ∈ calls.set i c, c'.isForeign = true := by
  intro c' hc'
  rcases List.mem_or_eq_of_mem_set hc' with hold | rfl
  · exact hforeign c' hold
  · exact hc

/-- A call that goes on and says nothing now. -/
theorem Foreign.setCall {c : Call} (hforeign : ∀ c ∈ d.calls, c.isForeign = true)
    (hc : c.isForeign = true) (hthread : d'.thread = d.thread)
    (hburst : d'.stats.burst = d.stats.burst) (hcalls : d'.calls = d.calls.set i c) :
    Foreign d d' [] :=
  ⟨hthread, hburst, nofun, hcalls ▸ isForeign_set hc hforeign⟩

theorem EnqueueStep.foreign {row : Row} {place : Enqueue}
    (hforeign : ∀ c ∈ d.calls, c.isForeign = true) (hi : d.calls[i]? = some (.enqueue row place))
    (h : EnqueueStep d i row place d' es) : Foreign d d' es := by
  cases h with
  | @goes _ place' _ e h =>
    have hnext : (Call.enqueue row place').isForeign = true := by
      cases place' with
      | announcing e =>
        obtain ⟨depth, hdepth⟩ := h.announces e rfl
        simp [Call.isForeign, Call.tells, Stats.recordDepth_foreign _ _ _ e hdepth]
      | _ => rfl
    refine ⟨rfl, h.counters.2.1, fun e' he' => ?_, isForeign_set hnext hforeign⟩
    obtain ⟨s, hs, rfl⟩ := List.mem_map.1 he'
    refine Or.inl ⟨s, rfl, ?_⟩
    rcases h.tells s (by simpa using hs) with rfl | rfl
    · simpa [Call.isForeign, Call.tells] using hforeign _ (List.mem_of_getElem? hi)
    · rfl
  | wait | acquire => exact Foreign.setCall hforeign rfl rfl rfl rfl
  | push =>
    exact ⟨rfl, rfl, fun e he => Or.inr (Or.inr ⟨i, List.mem_singleton.1 he⟩),
      isForeign_set rfl hforeign⟩
  | release hcalls =>
    exact ⟨rfl, rfl, nofun,
      isForeign_of_sameCalls hcalls (isForeign_set rfl hforeign)⟩

theorem StopStep.foreign {place : Stop} (hforeign : ∀ c ∈ d.calls, c.isForeign = true)
    (hi : d.calls[i]? = some (.stop place)) (h : StopStep d i place d' es) : Foreign d d' es := by
  cases h with
  | close | notify | take | gone => exact Foreign.setCall hforeign rfl rfl rfl rfl
  | release =>
    refine ⟨rfl, rfl, nofun, isForeign_set rfl ?_⟩
    exact isForeign_of_sameCalls (sameCalls_unpark d.calls) hforeign
  | join =>
    refine Foreign.setCall hforeign ?_ rfl rfl rfl
    simp only [Call.isForeign, Call.tells]
    split_ifs <;> rfl
  | @tell e =>
    refine ⟨rfl, rfl, fun e' he' => ?_, isForeign_set rfl hforeign⟩
    have htells := hforeign _ (List.mem_of_getElem? hi)
    cases e with
    | none => cases he'
    | some e =>
      refine Or.inl ⟨e, by simpa using he', ?_⟩
      simpa [Call.isForeign, Call.tells] using htells

/-- Every step is one of the drain thread, or a foreign one. -/
theorem step_foreign {l : Label} (hforeign : ∀ c ∈ d.calls, c.isForeign = true)
    (h : d.step l = some (d', es)) :
    (∃ env, d.stepThread env = some (d', es)) ∨ Foreign d d' es := by
  cases step_cases h with
  | @call c hentered =>
    refine Or.inr ⟨rfl, rfl, fun e he => Or.inr (Or.inl ⟨_, List.mem_singleton.1 he⟩), ?_⟩
    intro c' hc'
    rcases List.mem_append.1 hc' with hold | hnew
    · exact hforeign c' hold
    · rw [List.mem_singleton.1 hnew]
      cases c with
      | enqueue row place | stop place => cases place <;> first | rfl | cases hentered
      | flush place => rfl
  | wake hcalls =>
    exact Or.inr ⟨rfl, rfl, nofun,
      isForeign_of_sameCalls hcalls hforeign⟩
  | enqueue hi h | stop hi h => exact Or.inr (h.foreign hforeign hi)
  | flush => exact Or.inr (Foreign.setCall hforeign rfl rfl rfl rfl)
  | @thread _ _ env hthread => exact Or.inl ⟨env, hthread⟩

theorem isForeign_stepThread (hforeign : ∀ c ∈ d.calls, c.isForeign = true)
    (h : d.stepThread env = some (d', es)) : ∀ c ∈ d'.calls, c.isForeign = true :=
  isForeign_of_sameCalls (stepThread_cases h).sameCalls hforeign

theorem Foreign.marks_eq_nil (h : Foreign d d' es) : marks (es.map Note.event) = [] := by
  refine List.filterMap_eq_nil_iff.2 fun note hnote => ?_
  obtain ⟨e, he, rfl⟩ := List.mem_map.1 hnote
  rcases h.quiet e he with ⟨s, rfl, hs⟩ | ⟨i, rfl⟩ | ⟨i, rfl⟩
  · exact hs
  · rfl
  · rfl

end Foreign

/-! ## The drain thread and the state machine -/

/-- The counters say what the phase says, and nothing is to be told at once. -/
structure Steady (st : Stats) (p : Phase) : Prop where
  retrying : p.retrying = decide (0 < st.retryCount)
  since : 0 < st.retryCount → st.failureBurstAt.isSome = true
  degraded : p.degraded = st.degradedFired
  owed : ∀ i n, p.owed ≠ .failed i n

/-- What the phase is where the thread is. -/
def Fits (st : Stats) (p : Phase) : Thread → Prop
  -- the insert has succeeded, and `on_success` is still to say so in the counters
  | .judging _ _ _ .ok | .succeeding _ =>
    (0 < st.retryCount → st.failureBurstAt.isSome = true)
      ∧ p = ⟨false, false, if 0 < st.retryCount then .recovered else .nothing⟩
  | .recovering _ _ => Steady st p ∧ p.owed = .recovered
  | .failing e attempt _ =>
    p = ⟨true, st.degradedFired,
        if st.retryCount = 0 then .failed e.call attempt else .degraded e.call attempt⟩
      ∧ (0 < st.retryCount → st.failureBurstAt.isSome = true) ∧ 1 ≤ attempt
  | .failed e attempt _ first degraded =>
    p = ⟨true, st.degradedFired, if first then .failed e.call attempt else .degraded e.call attempt⟩
      ∧ 0 < st.retryCount ∧ st.failureBurstAt.isSome = true
      ∧ (degraded = true → 5 ≤ attempt ∧ st.degradedFired = false)
  | .degraded e attempt _ _ =>
    p = ⟨true, false, .degraded e.call attempt⟩ ∧ 0 < st.retryCount
      ∧ st.failureBurstAt.isSome = true ∧ 5 ≤ attempt ∧ st.degradedFired = true
  | .buried _ =>
    p.retrying = false ∧ p.degraded = st.degradedFired ∧ ∀ i n, p.owed ≠ .failed i n
  | .exiting none | .exited none => ∀ i n, p.owed ≠ .failed i n
  -- a panic may have come before the event
  | .exiting (some _) | .exited (some _) => True
  | _ => Steady st p

variable {p : Phase} {t : Thread} {e : Entry} {n : Nat} {inShutdown : Bool} {result : InsertResult}

/-- Of the counters only those of the failures matter. -/
theorem Fits.of_burst {st st' : Stats} (h : Fits st p t) (hcount : st'.retryCount = st.retryCount)
    (hsince : st'.failureBurstAt = st.failureBurstAt)
    (hdegraded : st'.degradedFired = st.degradedFired) : Fits st' p t := by
  have hsteady : Steady st p → Steady st' p := by
    rintro ⟨h₁, h₂, h₃, h₄⟩
    exact ⟨hcount ▸ h₁, hcount ▸ hsince ▸ h₂, hdegraded ▸ h₃, h₄⟩
  cases t with
  | judging e attempt inShutdown result =>
    cases result with
    | ok =>
      simp only [Fits, hcount, hsince] at h ⊢
      exact h
    | err | panicked => exact hsteady h
  | recovering e after => exact ⟨hsteady h.1, h.2⟩
  | succeeding e | failing e attempt msg | failed e attempt msg first degraded
  | degraded e attempt msg inBackoff | buried e =>
    simp only [Fits, hcount, hsince, hdegraded] at h ⊢
    exact h
  | exiting dropped | exited dropped => cases dropped <;> exact h
  | _ => exact hsteady h

/-- The marks of the run are such that the state machine is where the thread is. -/
def Follows (d : Drainer) (ms : List Mark) : Prop := ∃ p : Phase, p.After ms ∧ Fits d.stats p d.thread

section Follows

variable {d d' : Drainer} {env : Env} {es : List Event} {ms : List Mark}

theorem Follows.of_mark {p' : Phase} {m : Mark} {notes : List Note} (h : p.After ms)
    (hnext : p.Next m p') (hnotes : marks notes = [m]) (hfits : Fits d'.stats p' d'.thread) :
    Follows d' (ms ++ marks notes) :=
  ⟨p', hnotes ▸ h.next hnext, hfits⟩

theorem Follows.of_quiet {notes : List Note} (h : p.After ms) (hnotes : marks notes = [])
    (hfits : Fits d'.stats p d'.thread) : Follows d' (ms ++ marks notes) :=
  ⟨p, by rw [hnotes, List.append_nil]; exact h, hfits⟩

/-- The result of an insert is judged; a failure may be the first of a burst. -/
theorem follows_judge (hp : p.After ms) (e : Entry) (attempt : Nat) (inShutdown : Bool)
    (h : Fits d.stats p (.judging e attempt inShutdown result)) :
    Follows { d with thread := d.judge e attempt inShutdown result }
      (ms ++ marks (retryNote (.judging e attempt inShutdown result)
        (d.judge e attempt inShutdown result))) := by
  cases result with
  | ok => exact Follows.of_quiet hp rfl h
  | err err msg =>
    dsimp only [Drainer.judge]
    split_ifs
    · exact Follows.of_quiet hp rfl h
    · exact Follows.of_quiet hp rfl h
    · refine Follows.of_mark hp (.retry h.owed) rfl ⟨?_, h.since, Nat.le_add_left _ _⟩
      have hfirst := h.retrying
      by_cases hzero : d.stats.retryCount = 0
      · simp [hfirst, hzero, h.degraded]
      · simp [hfirst, hzero, Nat.pos_of_ne_zero hzero, h.degraded]
  | panicked =>
    dsimp only [Drainer.judge]
    split_ifs <;> exact Follows.of_quiet hp rfl h

/-- `on_success` sets the counters back, and tells of the recovery if there was a failure. -/
theorem fits_succeed (e : Entry) (h : Fits d.stats p (.succeeding e)) :
    Fits (d.succeed e env).stats p (d.succeed e env).thread := by
  obtain ⟨hsince, rfl⟩ := h
  by_cases hretry : 0 < d.stats.retryCount
  · obtain ⟨since, hsome⟩ := Option.isSome_iff_exists.1 (hsince hretry)
    simp only [Drainer.succeed, hretry, if_true, hsome]
    exact ⟨⟨rfl, fun h => absurd h (lt_irrefl 0), rfl, by simp⟩, rfl⟩
  · simp only [Drainer.succeed, hretry, if_false]
    exact ⟨rfl, fun h => absurd h (lt_irrefl 0), rfl, by simp⟩

/-- `on_failure` goes on to tell of the failure, or dies computing the delay. -/
theorem fits_fail {attempt : Nat} {msg : String} (h : Fits d.stats p (.failing e attempt msg)) :
    Fits (d.fail e attempt msg env).stats p (d.fail e attempt msg env).thread := by
  obtain ⟨rfl, hsince, hattempt⟩ := h
  unfold Drainer.fail
  cases backoffDeadline d.cfg attempt env.now env.seed with
  | none => trivial
  | some deadline =>
    refine ⟨?_, hattempt, ?_, ?_⟩
    · simp
    · by_cases hzero : d.stats.retryCount = 0
      · simp [hzero]
      · simpa [hzero] using hsince (Nat.pos_of_ne_zero hzero)
    · simp

/-- The thread goes on, and the state machine with it. -/
theorem Follows.goes {t' : Thread} {stats : Stats} (hp : p.After ms) (hfits : Fits d.stats p t)
    (h : Goes d t t' stats es) :
    Follows { d with thread := t', stats := stats }
      (ms ++ marks (retryNote t t' ++ es.map .event)) := by
  cases h with
  | wait | wake | start | begin | sleep | retry | sleepOn | lose =>
    exact Follows.of_quiet hp rfl hfits
  | «end» e n inShutdown result =>
    cases result with
    | ok =>
      refine Follows.of_mark hp (.success hfits.owed) rfl ⟨hfits.since, ?_⟩
      simp [hfits.retrying]
    | err | panicked => exact Follows.of_quiet hp rfl hfits
  | judge e n inShutdown result =>
    rw [List.map_nil, List.append_nil]
    exact follows_judge hp e n inShutdown hfits
  | succeed e env => exact Follows.of_quiet hp rfl (fits_succeed e hfits)
  | recover e after =>
    obtain ⟨hsteady, howed⟩ := hfits
    exact Follows.of_mark hp (.recovered howed) rfl
      ⟨hsteady.retrying, hsteady.since, hsteady.degraded, by simp⟩
  | fail hdeadline => exact Follows.of_quiet hp rfl (fits_fail hfits)
  | tellFailed e n msg degraded =>
    obtain ⟨rfl, hcount, hsince, hdegraded⟩ := hfits
    exact Follows.of_mark hp (.failed rfl) rfl ⟨rfl, hcount, hsince, hdegraded⟩
  | degrade e n msg inBackoff =>
    obtain ⟨rfl, hcount, hsince, hdegraded⟩ := hfits
    obtain ⟨hfive, hnot⟩ := hdegraded rfl
    exact Follows.of_quiet hp rfl ⟨by rw [hnot]; rfl, hcount, hsince, hfive, rfl⟩
  | backOff e n msg =>
    obtain ⟨rfl, hcount, hsince, -⟩ := hfits
    exact Follows.of_quiet hp rfl ⟨by simp [hcount], fun _ => hsince, rfl, by simp⟩
  | tellDegraded e n msg inBackoff =>
    obtain ⟨rfl, hcount, hsince, hfive, hfired⟩ := hfits
    exact Follows.of_mark hp (.degraded rfl hfive rfl) rfl
      ⟨by simp [hcount], fun _ => hsince, hfired.symm, by simp⟩
  | bury e n msg =>
    exact Follows.of_mark hp (.deadLetter hfits.owed) rfl ⟨rfl, hfits.degraded, by simp⟩

/-- A row that leaves leaves the counters of the failures as the phase has them. -/
theorem steady_settle {o : Outcome} (hfits : Fits d.stats p t) (h : t.settles = some (e, o)) :
    Steady (d.stats.settle e.row o) p := by
  cases t <;> cases h
  · exact ⟨hfits.retrying, hfits.since, hfits.degraded, hfits.owed⟩
  · exact ⟨hfits.1, fun h => absurd h (lt_irrefl 0), hfits.2.1, hfits.2.2⟩
  · exact ⟨hfits.retrying, hfits.since, hfits.degraded, hfits.owed⟩

theorem Follows.threadStep (h : Follows d ms) (hs : ThreadStep d d' es) :
    Follows d' (ms ++ marks (retryNote d.thread d'.thread ++ es.map .event)) := by
  obtain ⟨p, hp, hfits⟩ := h
  cases hs with
  | work hgoes => exact Follows.goes hp hfits hgoes
  | take hthread hqueue =>
    rw [hthread] at hfits ⊢
    exact Follows.of_quiet hp rfl hfits
  | settle hsettles hcalls hrelease =>
    refine Follows.of_quiet hp ?_ (steady_settle hfits hsettles)
    cases d.thread <;> rfl
  | finish hentry hworker hstop hqueue =>
    refine Follows.of_quiet hp (by cases d.thread <;> rfl) ?_
    cases hthread : d.thread with
    | popping | waiting =>
      rw [hthread] at hfits
      exact hfits.owed
    | exiting dropped | exited dropped =>
      rw [hthread] at hentry hworker
      cases hentry
      cases hworker
    | _ =>
      rw [hthread] at hentry
      cases hentry
  | die hentry hbegun hdies hstats =>
    exact Follows.of_quiet hp (by cases d.thread <;> rfl) trivial
  | exit hthread =>
    rename_i dropped
    rw [hthread] at hfits ⊢
    cases dropped <;> exact Follows.of_quiet hp rfl hfits

theorem Follows.foreign (h : Follows d ms) (hs : Foreign d d' es) :
    Follows d' (ms ++ marks (retryNote d.thread d'.thread ++ es.map .event)) := by
  obtain ⟨p, hp, hfits⟩ := h
  refine Follows.of_quiet hp ?_ ?_
  · rw [hs.thread, retryNote_eq_nil, List.nil_append]
    exact hs.marks_eq_nil
  · rw [hs.thread]
    have hburst := hs.burst
    simp only [Stats.burst, Prod.mk.injEq] at hburst
    exact hfits.of_burst hburst.1 hburst.2.1 hburst.2.2

end Follows

/-! ## Attempts -/

/-- An insert of the row begins. -/
def Event.begins (i : Nat) : Event → Bool
  | .insertBegan j _ => j == i
  | _ => false

/-- An insert of the row fails. -/
def Event.fails (i : Nat) : Event → Bool
  | .insertEnded j (.err _ _) => j == i
  | _ => false

/-- The row the thread may still insert, with the numbers of its inserts and of its failures. -/
def Thread.tried : Thread → Option (Entry × Nat × Nat)
  | .popped e => some (e, 0, 0)
  | .attempting e n _ => some (e, n, n)
  | .inserting e n _ => some (e, n + 1, n)
  | .judging e n _ (.err _ _) => some (e, n + 1, n + 1)
  | .failing e n _ | .failed e n _ _ _ | .degraded e n _ _ | .backingOff e n | .sleeping e n _ =>
    some (e, n, n)
  | _ => none

/-- The numbers of the row in the thread's hands, and that no row is tried too often. -/
structure Tried (cfg : DrainerConfig) (history : List Event) (t : Thread) : Prop where
  counts : ∀ e n k, t.tried = some (e, n, k) →
    history.countP (Event.begins e.call) = n ∧ history.countP (Event.fails e.call) = k
  bound : ∀ i, history.countP (Event.begins i) ≤ max cfg.maxAttempts 1
  ended : ∀ i, history.countP (Event.fails i) ≤ history.countP (Event.begins i)

section Tried

variable {d d' : Drainer} {env : Env} {es : List Event} {w : World}

/-- A row in the queue has not been tried. -/
theorem Reachable.untried {cfg : DrainerConfig} (h : Reachable cfg w) (he : e ∈ w.state.queue) :
    w.history.countP (Event.begins e.call) = 0 := by
  rw [List.countP_eq_zero]
  intro event hevent hbegins
  obtain ⟨n, rfl⟩ : ∃ n, event = .insertBegan e.call n := by
    cases event with
    | insertBegan j n =>
      rw [Event.begins, beq_iff_eq] at hbegins
      exact ⟨n, by rw [hbegins]⟩
    | _ => cases hbegins
  have hfirst := h.accounted.inserts e.call n hevent
  have hok := h.pipeline_ok
  have hnodup := hok.nodup
  rw [hok.order, List.nodup_append] at hnodup
  refine hnodup.2.2 e.call ?_ e.call (List.mem_map.2 ⟨e, he, rfl⟩) rfl
  rw [h.accounted.firsts] at hfirst
  rcases w.state.thread.begun_eq with hbegun | hbegun
  · rw [hbegun] at hfirst
    exact List.mem_append_left _ (by simpa [pipeline] using hfirst)
  · rw [hbegun] at hfirst
    exact hfirst

/-- No insert of any row begins or fails. -/
def Untouched (es : List Event) : Prop :=
  ∀ i, es.countP (Event.begins i) = 0 ∧ es.countP (Event.fails i) = 0

theorem Foreign.untouched (h : Foreign d d' es) : Untouched es := by
  intro i
  have hnot : ∀ e ∈ es, ¬Event.begins i e = true ∧ ¬Event.fails i e = true := by
    intro e he
    rcases h.quiet e he with ⟨s, rfl, -⟩ | ⟨j, rfl⟩ | ⟨j, rfl⟩ <;>
      exact ⟨Bool.false_ne_true, Bool.false_ne_true⟩
  exact ⟨List.countP_eq_zero.2 fun e he => (hnot e he).1,
    List.countP_eq_zero.2 fun e he => (hnot e he).2⟩

section Steps

variable {cfg : DrainerConfig} {history : List Event} {t t' : Thread}

/-- The thread keeps its row and the row's numbers, or has none any more. -/
theorem Tried.quiet (h : Tried cfg history t) (hes : Untouched es)
    (htried : ∀ x, t'.tried = some x → t.tried = some x) : Tried cfg (history ++ es) t' := by
  refine ⟨fun e n k hx => ?_, fun i => ?_, fun i => ?_⟩ <;>
    simp only [List.countP_append, (hes _).1, (hes _).2, Nat.add_zero]
  · exact h.counts e n k (htried _ hx)
  · exact h.bound i
  · exact h.ended i

/-- The thread takes a row that nobody has tried. -/
theorem Tried.take (h : Tried cfg history t) (huntried : history.countP (Event.begins e.call) = 0) :
    Tried cfg history (.popped e) := by
  refine ⟨fun e' n k hx => ?_, h.bound, h.ended⟩
  cases hx
  exact ⟨huntried, Nat.le_zero.1 (huntried ▸ h.ended e.call)⟩

/-- An event of the thread's row: an insert of it begins or fails. -/
theorem Tried.snoc {event : Event} {b f k : Nat} (h : Tried cfg history t)
    (ht : t.tried = some (e, n, k))
    (hb : ∀ i, [event].countP (Event.begins i) = if e.call = i then b else 0)
    (hf : ∀ i, [event].countP (Event.fails i) = if e.call = i then f else 0)
    (ht' : t'.tried = some (e, n + b, k + f)) (hbound : n + b ≤ max cfg.maxAttempts 1)
    (hended : k + f ≤ n + b) : Tried cfg (history ++ [event]) t' := by
  obtain ⟨hbegun, hfailed⟩ := h.counts e n k ht
  refine ⟨fun e' n' k' hx => ?_, fun i => ?_, fun i => ?_⟩ <;>
    simp only [List.countP_append, hb, hf]
  · cases ht'.symm.trans hx
    simp [hbegun, hfailed]
  · have hold := h.bound i
    split_ifs with hi
    · subst hi
      omega
    · exact hold
  · have hold := h.ended i
    split_ifs with hi
    · subst hi
      omega
    · exact hold

theorem Tried.begin (h : Tried cfg history (.attempting e n inShutdown))
    (hn : n = 0 ∨ n < cfg.maxAttempts) :
    Tried cfg (history ++ [.insertBegan e.call n]) (.inserting e n inShutdown) :=
  h.snoc (b := 1) (f := 0) rfl (fun i => by simp [List.countP_cons, Event.begins])
    (fun i => (ite_self 0).symm) rfl (by omega) (by omega)

theorem Tried.end (h : Tried cfg history (.inserting e n inShutdown)) (result : InsertResult) :
    Tried cfg (history ++ [.insertEnded e.call result]) (.judging e n inShutdown result) := by
  cases result with
  | ok | panicked => exact h.quiet (fun i => ⟨rfl, rfl⟩) nofun
  | err err msg =>
    have hbound := h.bound e.call
    rw [(h.counts e (n + 1) n rfl).1] at hbound
    exact h.snoc (b := 0) (f := 1) rfl (fun i => (ite_self 0).symm)
      (fun i => by simp [List.countP_cons, Event.fails]) rfl hbound le_rfl

theorem tried_judge {x : Entry × Nat × Nat} (h : (d.judge e n inShutdown result).tried = some x) :
    (Thread.judging e n inShutdown result).tried = some x := by
  cases result with
  | ok => cases h
  | err err msg =>
    simp only [Drainer.judge] at h
    split_ifs at h
    · cases h
    · cases h
    · exact h
  | panicked =>
    simp only [Drainer.judge] at h
    split_ifs at h <;> cases h

theorem tried_fail {msg : String} {x : Entry × Nat × Nat}
    (h : (d.fail e n msg env).thread.tried = some x) : (Thread.failing e n msg).tried = some x := by
  unfold Drainer.fail at h
  dsimp only at h
  split at h
  · cases h
  · exact h

theorem Tried.goes {stats : Stats} (h : Tried d.cfg history t) (htold : Told d.cfg history t)
    (hgoes : Goes d t t' stats es) : Tried d.cfg (history ++ es) t' := by
  cases hgoes with
  | begin e n inShutdown => exact h.begin htold
  | «end» e n inShutdown result => exact h.end result
  | judge e n inShutdown result => exact h.quiet (fun i => ⟨rfl, rfl⟩) fun x hx => tried_judge hx
  | succeed e env =>
    refine h.quiet (fun i => ⟨rfl, rfl⟩) fun x hx => ?_
    simp only [Drainer.succeed] at hx
    split at hx <;> cases hx
  | fail hdeadline => exact h.quiet (fun i => ⟨rfl, rfl⟩) fun x hx => tried_fail hx
  | wait | wake | recover | bury | lose =>
    exact h.quiet (fun i => ⟨rfl, rfl⟩) nofun
  | start | tellFailed | degrade | backOff | tellDegraded | sleep | retry | sleepOn =>
    exact h.quiet (fun i => ⟨rfl, rfl⟩) fun x hx => hx

end Steps

theorem Tried.threadStep {history : List Event} (h : Tried d.cfg history d.thread)
    (htold : Told d.cfg history d.thread)
    (huntried : ∀ e ∈ d.queue, history.countP (Event.begins e.call) = 0)
    (hs : ThreadStep d d' es) : Tried d.cfg (history ++ es) d'.thread := by
  cases hs with
  | work hgoes => exact h.goes htold hgoes
  | take hthread hqueue =>
    rw [List.append_nil]
    exact h.take (huntried _ (by rw [hqueue]; exact List.mem_cons_self))
  | _ => exact h.quiet (fun i => ⟨rfl, rfl⟩) nofun

end Tried

/-! ## After `stop` -/

/-- The row the thread will still insert, `stop` or not. -/
def Thread.ahead : Thread → Option Entry
  | .popped e | .attempting e _ _ | .failing e _ _ | .failed e _ _ _ _ | .degraded e _ _ _
  | .backingOff e _ | .sleeping e _ _ => some e
  | _ => none

/-- The rows that are still to be inserted. -/
def Drainer.ahead (d : Drainer) : List Nat := (d.thread.ahead.toList ++ d.queue).map Entry.call

section Ahead

variable {d d' : Drainer} {env : Env} {es : List Event} {i : Nat}

/-- Once `stop` is set an insert that fails is the row's last. -/
theorem ahead_judge (hstop : d.stop = true) (e : Entry) (n : Nat) (inShutdown : Bool)
    (result : InsertResult) : (d.judge e n inShutdown result).ahead = none := by
  cases result with
  | ok => rfl
  | err | panicked => simp [Drainer.judge, hstop, Thread.ahead]

/-- Where the thread goes on without an insert, it has the row ahead that it had, or none. -/
theorem Goes.ahead {t' : Thread} {stats : Stats} (h : Goes d t t' stats es)
    (hstop : d.stop = true) : (∃ e n inShutdown, t = .attempting e n inShutdown
        ∧ t' = .inserting e n inShutdown ∧ es = [.insertBegan e.call n])
      ∨ es.countP (Event.begins i) = 0 ∧ (t'.ahead = none ∨ t'.ahead = t.ahead) := by
  cases h with
  | begin e n inShutdown => exact Or.inl ⟨e, n, inShutdown, rfl, rfl, rfl⟩
  | judge e n inShutdown result =>
    exact Or.inr ⟨rfl, Or.inl (ahead_judge hstop e n inShutdown result)⟩
  | succeed e env =>
    refine Or.inr ⟨rfl, Or.inl ?_⟩
    simp only [Drainer.succeed]
    split <;> rfl
  | fail hdeadline =>
    obtain ⟨deadline, hsome⟩ := Option.ne_none_iff_exists'.1 hdeadline
    simp only [Drainer.fail, hsome]
    exact Or.inr ⟨rfl, Or.inr rfl⟩
  | wait | wake | «end» | recover | bury | lose => exact Or.inr ⟨rfl, Or.inl rfl⟩
  | _ => exact Or.inr ⟨rfl, Or.inr rfl⟩

/-- Each insert takes its row off those ahead. -/
theorem ThreadStep.ahead (h : ThreadStep d d' es) (hstop : d.stop = true) :
    es.countP (Event.begins i) + d'.ahead.count i ≤ d.ahead.count i := by
  -- nothing is inserted, and no row comes in
  have hquiet : ∀ {d₁ : Drainer}, es.countP (Event.begins i) = 0 → d₁.queue = d.queue →
      (d₁.thread.ahead = none ∨ d₁.thread.ahead = d.thread.ahead) →
      es.countP (Event.begins i) + d₁.ahead.count i ≤ d.ahead.count i := by
    intro d₁ hes hqueue hthread
    rw [hes, Nat.zero_add, Drainer.ahead, Drainer.ahead, hqueue]
    rcases hthread with hthread | hthread
    · rw [hthread, List.map_append, List.map_append, List.count_append, List.count_append]
      exact Nat.add_le_add_right (Nat.zero_le _) _
    · rw [hthread]
  cases h with
  | work hgoes =>
    rcases hgoes.ahead (i := i) hstop with ⟨e, n, inShutdown, hthread, rfl, rfl⟩ | ⟨hes, hahead⟩
    · simp [Drainer.ahead, hthread, Thread.ahead, List.countP_cons, List.count_cons, Event.begins]
      omega
    · exact hquiet hes rfl hahead
  | take hthread hqueue => simp [Drainer.ahead, hthread, hqueue, Thread.ahead]
  | _ => exact hquiet rfl rfl (Or.inl rfl)

theorem OnlySys.begins_eq_zero (h : OnlySys es) : es.countP (Event.begins i) = 0 := by
  cases h <;> rfl

/-- Once `stop` is set, no row comes in, and only the thread inserts. -/
theorem DrainerStep.ahead_of_stop (h : DrainerStep d d' es) (hstop : d.stop = true) :
    ThreadStep d d' es ∨ d'.ahead = d.ahead ∧ ∀ i, es.countP (Event.begins i) = 0 := by
  cases h with
  | call | wake | flush => exact Or.inr ⟨rfl, fun i => rfl⟩
  | enqueue hi h =>
    cases h with
    | goes e h => exact Or.inr ⟨rfl, fun i => (OnlySys.ofOption e).begins_eq_zero⟩
    | wait | acquire | release => exact Or.inr ⟨rfl, fun i => rfl⟩
    | push hrunning =>
      rw [hstop] at hrunning
      cases hrunning
  | stop hi h =>
    obtain ⟨hqueue, hthread, -⟩ := h.frame
    exact Or.inr ⟨by rw [Drainer.ahead, Drainer.ahead, hqueue, hthread],
      fun i => h.calls.1.begins_eq_zero⟩
  | thread hthread h => exact Or.inl h

end Ahead

/-- After `stop`, the inserts that begin are of rows that were ahead then. -/
theorem begins_after_stop {w w' : World} (hstop : w.state.stop = true)
    (h : Trace.Reaches Drainer.step w w') (i : Nat) :
    w'.history.countP (Event.begins i)
      ≤ w.history.countP (Event.begins i) + w.state.ahead.count i := by
  have hall : w'.state.stop = true ∧ w'.history.countP (Event.begins i) + w'.state.ahead.count i
      ≤ w.history.countP (Event.begins i) + w.state.ahead.count i := by
    refine Trace.Reaches.invariant (I := fun v => v.state.stop = true ∧
      v.history.countP (Event.begins i) + v.state.ahead.count i
        ≤ w.history.countP (Event.begins i) + w.state.ahead.count i) h ⟨hstop, le_refl _⟩
      fun v l d' es hv hs => ?_
    obtain ⟨hvstop, hle⟩ := hv
    have hstep := step_cases hs
    refine ⟨hstep.stop_mono hvstop, ?_⟩
    dsimp only
    rw [List.countP_append]
    rcases hstep.ahead_of_stop hvstop with hthread | ⟨hahead, hbegins⟩
    · have hahead := hthread.ahead (i := i) hvstop
      omega
    · rw [hahead, hbegins]
      exact hle
  omega

/-- A row is ahead at most once. -/
theorem Reachable.ahead_count_le {cfg : DrainerConfig} {w : World} (h : Reachable cfg w) (i : Nat) :
    w.state.ahead.count i ≤ 1 := by
  have hok := h.pipeline_ok
  have hnodup := hok.nodup
  rw [hok.order, List.append_assoc] at hnodup
  refine List.nodup_iff_count_le_one.1 ?_ i
  have hsub : w.state.ahead.Sublist
      ((pipeline w.state w.history).held.toList ++ (pipeline w.state w.history).queue) := by
    rw [Drainer.ahead, List.map_append]
    refine List.Sublist.append ?_ (List.Sublist.refl _)
    change List.Sublist _ (w.state.thread.entry.map Entry.call).toList
    cases w.state.thread <;> simp [Thread.ahead, Thread.entry]
  exact (List.nodup_append.1 hnodup).2.1.sublist hsub

/-! ## Runs -/

/-- A drainer from its start, with notes. -/
abbrev NotedReachable (cfg : DrainerConfig) : NotedWorld → Prop :=
  Trace.Reaches Drainer.noted (.start (Drainer.new cfg))

/-- A note on a retry says how many inserts of the row have failed. -/
def RetryCounted (before : List Note) : Note → Prop
  | .retry i n => 1 ≤ n ∧ (before.filterMap Note.event?).countP (Event.fails i) = n
  | .event _ => True

/-- What holds of a run with notes. -/
structure Observed (cfg : DrainerConfig) (w : NotedWorld) : Prop where
  reachable : Reachable cfg w.events
  foreign : ∀ c ∈ w.state.calls, c.isForeign = true
  follows : Follows w.state (marks w.history)
  tried : Tried cfg w.events.history w.state.thread
  retries : Trace.Explained RetryCounted w.history

section Observed

variable {cfg : DrainerConfig} {w : NotedWorld} {d' : Drainer} {l : Label} {es : List Event}

/-- The row of a note is the one the thread has tried so often. -/
theorem tried_of_retryNote {t' : Thread} {i : Nat} (h : retryNote t t' = [.retry i n])
    (hjudge : ∀ e k inShutdown result, t = .judging e k inShutdown result →
      ∃ d : Drainer, t' = d.judge e k inShutdown result) :
    ∃ e, e.call = i ∧ 1 ≤ n ∧ t.tried = some (e, n, n) := by
  unfold retryNote at h
  split at h
  · rename_i e k inShutdown result e' n' msg
    cases h
    obtain ⟨d, heq⟩ := hjudge e k inShutdown result rfl
    cases result with
    | ok => cases heq
    | err err msg' =>
      simp only [Drainer.judge] at heq
      split_ifs at heq
      cases heq
      exact ⟨e, rfl, Nat.le_add_left _ _, rfl⟩
    | panicked =>
      simp only [Drainer.judge] at heq
      split_ifs at heq
  · cases h

theorem retryNote_cases (t t' : Thread) :
    retryNote t t' = [] ∨ ∃ i n, retryNote t t' = [.retry i n] := by
  unfold retryNote
  split
  · exact Or.inr ⟨_, _, rfl⟩
  · exact Or.inl rfl

theorem Observed.retries_step (hw : Observed cfg w) {t' : Thread}
    (hjudge : ∀ e k inShutdown result, w.state.thread = .judging e k inShutdown result →
      t' = w.state.thread ∨ ∃ d : Drainer, t' = d.judge e k inShutdown result) :
    Trace.Explained RetryCounted
      (w.history ++ (retryNote w.state.thread t' ++ es.map Note.event)) := by
  have hevents : ∀ {history : List Note}, Trace.Explained RetryCounted history →
      Trace.Explained RetryCounted (history ++ es.map Note.event) := by
    intro history hhistory
    refine hhistory.append fun before note after heq => ?_
    cases note with
    | event e => trivial
    | retry i n =>
      have hmem : Note.retry i n ∈ es.map Note.event := by
        rw [heq]
        exact List.mem_append_right _ List.mem_cons_self
      simp at hmem
  rw [← List.append_assoc]
  refine hevents ?_
  rcases retryNote_cases w.state.thread t' with hnil | ⟨i, n, hone⟩
  · rw [hnil, List.append_nil]
    exact hw.retries
  · rw [hone]
    refine hw.retries.snoc ?_
    obtain ⟨e, rfl, hpos, htried⟩ := tried_of_retryNote hone fun e k inShutdown result hjudging => by
      rcases hjudge e k inShutdown result hjudging with hsame | hjudged
      · rw [hsame, retryNote_eq_nil] at hone
        cases hone
      · exact hjudged
    exact ⟨hpos, (hw.tried.counts e _ _ htried).2⟩

theorem stepThread_judging {d d' : Drainer} {env : Env} {k : Nat}
    (h : d.stepThread env = some (d', es)) (hthread : d.thread = .judging e k inShutdown result) :
    d'.thread = d.judge e k inShutdown result := by
  unfold Drainer.stepThread at h
  rw [hthread] at h
  cases h
  rfl

theorem Observed.step (hw : Observed cfg w) (h : w.state.step l = some (d', es)) :
    Observed cfg ⟨d', w.history ++ (retryNote w.state.thread d'.thread ++ es.map .event)⟩ := by
  have hcfg := hw.reachable.cfg_eq
  have hevents : NotedWorld.events
      ⟨d', w.history ++ (retryNote w.state.thread d'.thread ++ es.map .event)⟩
      = ⟨d', w.events.history ++ es⟩ := by
    simp only [NotedWorld.events]
    rw [List.filterMap_append, filterMap_event?_notes]
  have hreach : Reachable cfg ⟨d', w.events.history ++ es⟩ :=
    hw.reachable.tail ⟨l, Trace.World.next_eq_some.2 ⟨es, h, rfl⟩⟩
  have htried := hw.tried
  rcases step_foreign hw.foreign h with ⟨env, hthread⟩ | hforeign
  · refine ⟨hevents ▸ hreach, isForeign_stepThread hw.foreign hthread, ?_, ?_, ?_⟩
    · dsimp only
      rw [marks_append]
      exact hw.follows.threadStep (stepThread_cases hthread)
    · rw [hevents]
      rw [← hcfg] at htried ⊢
      exact htried.threadStep hw.reachable.accounted.told
        (fun e he => hw.reachable.untried he) (stepThread_cases hthread)
    · exact hw.retries_step fun e k inShutdown result hjudging =>
        Or.inr ⟨w.state, stepThread_judging hthread hjudging⟩
  · refine ⟨hevents ▸ hreach, hforeign.calls, ?_, ?_, ?_⟩
    · dsimp only
      rw [marks_append]
      exact hw.follows.foreign hforeign
    · rw [hevents]
      dsimp only
      rw [hforeign.thread]
      exact htried.quiet hforeign.untouched fun x hx => hx
    · exact hw.retries_step fun e k inShutdown result _ => Or.inl hforeign.thread

theorem observed_new (cfg : DrainerConfig) : Observed cfg (.start (Drainer.new cfg)) := by
  refine ⟨.refl, nofun, ⟨.healthy, Phase.after_nil, ?_⟩, ?_,
    Trace.explained_nil _⟩
  · exact ⟨rfl, fun h => absurd h (lt_irrefl 0), rfl, by simp [Phase.healthy]⟩
  · exact ⟨nofun, fun i => Nat.zero_le _, fun i => le_refl _⟩

theorem NotedReachable.observed (h : NotedReachable cfg w) : Observed cfg w := by
  refine Trace.Reaches.invariant (I := Observed cfg) h (observed_new cfg) fun w l d' notes hw hs => ?_
  obtain ⟨es, hstep, rfl⟩ := noted_eq_some hs
  exact hw.step hstep

end Observed

/-- The thread is about to send `audit_drain_failed` for the row. -/
def Thread.Announces (t : Thread) (i n : Nat) : Prop :=
  ∃ e msg, e.call = i ∧ (t = .failing e n msg ∨ ∃ degraded, t = .failed e n msg true degraded)

theorem Fits.announces {st : Stats} {i : Nat} (h : Fits st p t) (howed : p.owed = .failed i n) :
    t.Announces i n ∨ t.worker = .died := by
  cases t with
  | judging e attempt inShutdown result =>
    cases result with
    | ok =>
      obtain ⟨-, rfl⟩ := h
      dsimp only at howed
      split_ifs at howed
    | err | panicked => exact absurd howed (h.owed i n)
  | succeeding e =>
    obtain ⟨-, rfl⟩ := h
    dsimp only at howed
    split_ifs at howed
  | recovering e after => exact absurd howed (h.1.owed i n)
  | failing e attempt msg =>
    obtain ⟨rfl, -⟩ := h
    dsimp only at howed
    split_ifs at howed
    cases howed
    exact Or.inl ⟨e, msg, rfl, Or.inl rfl⟩
  | failed e attempt msg first degraded =>
    obtain ⟨rfl, -⟩ := h
    dsimp only at howed
    split_ifs at howed with hfirst
    cases howed
    exact Or.inl ⟨e, msg, rfl, Or.inr ⟨degraded, by rw [hfirst]⟩⟩
  | degraded e attempt msg inBackoff =>
    obtain ⟨rfl, -⟩ := h
    cases howed
  | buried e => exact absurd howed (h.2.2 i n)
  | exiting dropped | exited dropped =>
    cases dropped with
    | none => exact absurd howed (h i n)
    | some e => exact Or.inr rfl
  | _ => exact absurd howed (h.owed i n)

/-- **The drain events follow the state machine.** Each mark of a run has what the specification asks
    of it. After the first failure of a burst `audit_drain_failed` is the next mark: the thread goes on
    to send it, unless it dies computing the delay, which it does not if the delays fit. A retry is
    counted by the failures of its row; no row is inserted more than `max_attempts` times, or once
    if that is 0; and from the moment `stop` is set at most one more insert of each row begins. -/
theorem drainEvents_follow {cfg : DrainerConfig} {w : NotedWorld} (h : NotedReachable cfg w) :
    Trace.Explained Needs (marks w.history)
    ∧ (∀ i n, FirstFailure (marks w.history) i n →
        w.state.thread.Announces i n ∨ w.state.thread.worker = .died)
    ∧ (cfg.BackoffFits → w.state.thread.worker ≠ .died)
    ∧ Trace.Explained RetryCounted w.history
    ∧ (∀ i, w.events.history.countP (Event.begins i) ≤ max cfg.maxAttempts 1)
    ∧ ∀ w' : NotedWorld, Trace.Reaches Drainer.noted w w' → w.state.stop = true → ∀ i,
        w'.events.history.countP (Event.begins i) ≤ w.events.history.countP (Event.begins i) + 1 := by
  have hw := h.observed
  obtain ⟨p, hafter, hfits⟩ := hw.follows
  obtain ⟨hreads, hexplained⟩ := hafter.reads
  refine ⟨hexplained, fun i n hfirst => hfits.announces ((hreads.failed i n).2 hfirst),
    fun hbackoff => hw.reachable.alive hbackoff, hw.retries, hw.tried.bound,
    fun w' hreach hstop i => ?_⟩
  have hle := begins_after_stop (w := w.events) hstop (events_reaches hreach) i
  have hahead : w.events.state.ahead.count i ≤ 1 := hw.reachable.ahead_count_le i
  omega

/-- One row, whose first insert fails and whose second succeeds. -/
def flakyRun : List Label :=
  let down := InsertResult.err (.store "StoreError") "store down"
  .call (.enqueue ⟨"evt-1", 0⟩ .entered) :: List.replicate 6 (.move 0 (.at 0 .ok))
    ++ (List.range 11).map (fun k => .thread (.at (100 * k) down))
    ++ (List.range 6).map (fun k => .thread (.at k .ok))

theorem drainEvents_follow_flaky : ∃ w : NotedWorld, NotedReachable .default w
    ∧ marks w.history = [.retry 0 1, .failed, .success, .recovered]
    ∧ Trace.Explained Needs (marks w.history) := by
  obtain ⟨w, hreach, hw⟩ := Trace.exists_reaches_of_run Drainer.noted
    (.start (Drainer.new .default)) flakyRun
    (fun w => decide (marks w.history = [.retry 0 1, .failed, .success, .recovered]))
    (by decide +kernel)
  exact ⟨w, hreach, of_decide_eq_true hw, (drainEvents_follow hreach).1⟩

/-- With `max_attempts` 0 a row is inserted once. -/
theorem drainEvents_noAttempts : ∃ w : NotedWorld,
    NotedReachable { DrainerConfig.default with maxAttempts := 0 } w
    ∧ 0 < w.events.history.countP (Event.begins 0) := by
  obtain ⟨w, hreach, hw⟩ := Trace.exists_reaches_of_run Drainer.noted
    (.start (Drainer.new { DrainerConfig.default with maxAttempts := 0 }))
    (.call (.enqueue ⟨"evt-1", 0⟩ .entered) :: List.replicate 6 (.move 0 (.at 0 .ok))
      ++ List.replicate 3 (.thread (.at 0 .ok)))
    (fun w : NotedWorld => decide (0 < w.events.history.countP (Event.begins 0))) (by decide +kernel)
  exact ⟨w, hreach, of_decide_eq_true hw⟩

end Fasten.Core
