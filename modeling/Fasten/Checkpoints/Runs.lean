import Fasten.Checkpoints
import Fasten.Store.Runs

set_option autoImplicit false

/-! # Checkpoints and retention

A store that is purged now and then, and whose checkpoints are taken meanwhile: each call of
`take_checkpoints` reads the clock and later the tips, and other operations may come in between.
Since the clock is read first, a checkpoint dated after a purge has seen the rows it left, and the
whole store verifies against the checkpoints since the latest purge (spec §9). -/

namespace Fasten

/-! ## The system -/

/-- A store, the calls of `take_checkpoints` that have read the clock only, and the checkpoints
    taken. `purging` is set from a purge's deletion until the time it finished is read. -/
structure Anchoring where
  store : Store
  pending : List Datetime
  taken : List Checkpoint
  purging : Bool
  purgedAt : Option Datetime
  clock : Option Datetime

def Anchoring.start (store : Store) : Anchoring := ⟨store, [], [], false, none, none⟩

inductive AnchorOp where
  | allocate (token : Token) (row : AuditRow)
  | markShipped (ids : List String) (now : Datetime)
  | redactRows (ids : List String)
  | purge (before : Datetime) (respectUnshipped : Bool)
  | purgeFinished (now : Datetime)
  | readClock (now : Datetime)
  /-- The `i`-th call that is under way. -/
  | readTips (i : Nat)

def Anchoring.step (H : Sha256) (s : Anchoring) : AnchorOp → Anchoring
  | .allocate token row =>
    match s.store.allocateAndInsertOriginated H token row with
    | none => s
    | some (_, store) => { s with store := store }
  | .markShipped ids now => { s with store := s.store.markShipped ids now }
  | .redactRows ids => { s with store := s.store.redactRows ids }
  | .purge before respectUnshipped =>
    { s with store := s.store.purge before respectUnshipped, purging := true }
  | .purgeFinished now => { s with purging := false, purgedAt := some now, clock := some now }
  | .readClock now => { s with pending := s.pending ++ [now], clock := some now }
  | .readTips i =>
    match s.pending[i]? with
    | none => s
    | some now =>
      { s with
        pending := s.pending.eraseIdx i
        taken := s.taken ++ takeCheckpoints now s.store.rows }

/-- Each reading of the clock is later than the one before. -/
def AnchorOp.Ticks (s : Anchoring) : AnchorOp → Prop
  | .purgeFinished now => ∀ last ∈ s.clock, last < now
  | .readClock now => ∀ last ∈ s.clock, last < now
  | _ => True

/-- A row that the operation inserts has the `wire_version` that `_row` reads. -/
def AnchorOp.KeepsWireVersion (s : Anchoring) : AnchorOp → Prop
  | .allocate _ row =>
    row.wireVersion = "1" ∨ row.originId ≠ row.id ∨ row.id ∈ s.store.rows.map (·.id)
  | _ => True

/-- The checkpoints since the latest purge finished. -/
def Anchoring.checkpoints (s : Anchoring) : Option (List Checkpoint) :=
  match s.purgedAt with
  | none => some s.taken
  | some purgedAt => checkpointsSince s.taken purgedAt

/-! ## What each operation does to a checkpoint's row -/

theorem Backed.map {H : Sha256} {rows : List AuditRow} {f : AuditRow → AuditRow} {cp : Checkpoint}
    (h : Backed rows cp) (hf : KeepsChain H rows f) : Backed (rows.map f) cp := by
  obtain ⟨r, hr, hnode, hseq, hs, hhash⟩ := h
  exact ⟨f r, List.mem_map_of_mem hr, (hf.node r).trans hnode, (hf.seq r).trans hseq,
    (hf.isSealed r).trans hs, (hf.hash r).trans hhash⟩

theorem Backed.mono {rows rows' : List AuditRow} {cp : Checkpoint} (h : Backed rows cp)
    (hsub : ∀ r ∈ rows, r ∈ rows') : Backed rows' cp := by
  obtain ⟨r, hr, hrest⟩ := h
  exact ⟨r, hsub r hr, hrest⟩

/-- A checkpoint is backed by the rows it was just taken from. -/
theorem backed_of_mem_takeCheckpoints {now : Datetime} {rows : List AuditRow} {cp : Checkpoint}
    (h : cp ∈ takeCheckpoints now rows) : Backed rows cp ∧ cp.anchoredAt = canonicalTs now := by
  obtain ⟨tip, htip, hs, rfl⟩ := exists_tip_of_mem_takeCheckpoints h
  exact ⟨⟨tip, htip, rfl, rfl, hs, rfl⟩, rfl⟩

/-! ## The invariant of a run -/

/-- The instant is not after the latest reading of the clock. -/
def NotAfter (t : Datetime) (clock : Option Datetime) : Prop := ∃ last ∈ clock, t = last ∨ t < last

theorem Datetime.lt_trans {a b c : Datetime} (hab : a < b) (hbc : b < c) : a < c :=
  List.lt_trans (show a.fields < b.fields from hab) hbc

/-- The instant is before the next reading. -/
theorem NotAfter.lt {t now : Datetime} {clock : Option Datetime} (h : NotAfter t clock)
    (hnow : ∀ last ∈ clock, last < now) : t < now := by
  obtain ⟨last, hlast, rfl | hlt⟩ := h
  · exact hnow t hlast
  · exact Datetime.lt_trans hlt (hnow last hlast)

theorem NotAfter.tick {t now : Datetime} {clock : Option Datetime} (h : NotAfter t clock)
    (hnow : ∀ last ∈ clock, last < now) : NotAfter t (some now) :=
  ⟨now, rfl, Or.inr (h.lt hnow)⟩

/-- The chains verify whatever rows are marked as shipped, and every checkpoint is backed or older
    than the latest purge. -/
structure AnchoringOk (H : Sha256) (s : Anchoring) : Prop where
  storeOk : StoreOk H s.store.rows
  shippable : ∀ r ∈ s.store.rows, ShippableRow H r
  pending : ∀ t ∈ s.pending, NotAfter t s.clock
  taken : ∀ cp ∈ s.taken, ∃ t, cp.anchoredAt = canonicalTs t ∧ NotAfter t s.clock ∧
    (s.purging = false → (∃ purgedAt ∈ s.purgedAt, t < purgedAt) ∨ Backed s.store.rows cp)

section

variable {H : Sha256} {s : Anchoring} (hok : AnchoringOk H s)

include hok

/-- A change of the store that keeps the checkpoints' rows. -/
theorem AnchoringOk.setStore {store : Store} (hstore : StoreOk H store.rows)
    (hship : ∀ r ∈ store.rows, ShippableRow H r)
    (hbacked : ∀ cp, Backed s.store.rows cp → Backed store.rows cp) :
    AnchoringOk H { s with store := store } where
  storeOk := hstore
  shippable := hship
  pending := hok.pending
  taken cp hcp := by
    obtain ⟨t, hat, hafter, hcase⟩ := hok.taken cp hcp
    exact ⟨t, hat, hafter, fun hidle => (hcase hidle).imp_right (hbacked cp)⟩

theorem AnchoringOk.map {store : Store} {f : AuditRow → AuditRow}
    (hrows : store.rows = s.store.rows.map f) (hf : KeepsChain H s.store.rows f)
    (hship : ∀ r, ShippableRow H r → ShippableRow H (f r)) :
    AnchoringOk H { s with store := store } := by
  refine hok.setStore ?_ (fun x hx => ?_) (fun cp hcp => ?_)
  · rw [hrows]
    exact hok.storeOk.map hf
  · rw [hrows] at hx
    obtain ⟨r, hr, rfl⟩ := List.mem_map.1 hx
    exact hship r (hok.shippable r hr)
  · rw [hrows]
    exact hcp.map hf

theorem AnchoringOk.insert {token : Token} {row : AuditRow}
    (hwire : row.wireVersion = "1" ∨ row.id ∈ s.store.rows.map (·.id)) :
    AnchoringOk H
      { s with store := (s.store.insertRowCore (s.store.allocated H token row)).1 } := by
  refine hok.setStore (hok.storeOk.allocate hwire) (fun r hr => ?_) (fun cp hcp => ?_)
  · simp only [Store.insertRowCore_rows] at hr
    split_ifs at hr with hid
    · exact hok.shippable r hr
    · rcases List.mem_append.1 hr with hr | hr
      · exact hok.shippable r hr
      · have hstored : (s.store.allocated H token row).stored = s.store.allocated H token row :=
          stored_sealRow (hwire.resolve_right hid)
        rw [List.mem_singleton.1 hr, hstored]
        exact shippable_allocated _ _ _
  · refine hcp.mono (fun r hr => ?_)
    rw [Store.insertRowCore_rows]
    split_ifs
    · exact hr
    · exact List.mem_append_left _ hr

/-- **One step.** -/
theorem AnchoringOk.step {op : AnchorOp} (hop : op.Ticks s ∧ op.KeepsWireVersion s) :
    AnchoringOk H (s.step H op) := by
  cases op with
  | allocate token row =>
    simp only [Anchoring.step, Store.allocateAndInsertOriginated]
    by_cases horigin : row.originId ≠ row.id
    · rw [if_pos horigin]
      exact hok
    · rw [if_neg horigin]
      exact hok.insert (hop.2.imp_right (fun h => h.resolve_left horigin))
  | markShipped ids now =>
    refine hok.map (f := shippedRow ids now) rfl
      (keepsChain_shippedRow (fun r hr _ => hok.shippable r hr) now) (fun r hr hs shippedAt => ?_)
    unfold shippedRow at hs ⊢
    split_ifs at hs ⊢ <;> exact hr hs shippedAt
  | redactRows ids =>
    exact hok.map (Store.redactRows_rows _ _) (keepsChain_redactedRow _ ids)
      (fun r hr => hr.redactedRow)
  | purge before respectUnshipped =>
    refine ⟨hok.storeOk.purge before respectUnshipped, fun r hr => ?_, hok.pending,
      fun cp hcp => ?_⟩
    · exact hok.shippable r (Store.mem_purge.1 hr).1
    · obtain ⟨t, hat, hafter, -⟩ := hok.taken cp hcp
      exact ⟨t, hat, hafter, fun h => absurd h (by simp [Anchoring.step])⟩
  | purgeFinished now =>
    refine ⟨hok.storeOk, hok.shippable, fun t ht => (hok.pending t ht).tick hop.1,
      fun cp hcp => ?_⟩
    -- whatever was taken so far is older than this reading
    obtain ⟨t, hat, hafter, -⟩ := hok.taken cp hcp
    exact ⟨t, hat, hafter.tick hop.1, fun _ => Or.inl ⟨now, rfl, hafter.lt hop.1⟩⟩
  | readClock now =>
    refine ⟨hok.storeOk, hok.shippable, fun t ht => ?_, fun cp hcp => ?_⟩
    · rcases List.mem_append.1 ht with ht | ht
      · exact (hok.pending t ht).tick hop.1
      · exact ⟨now, rfl, Or.inl (List.mem_singleton.1 ht)⟩
    · obtain ⟨t, hat, hafter, hcase⟩ := hok.taken cp hcp
      exact ⟨t, hat, hafter.tick hop.1, hcase⟩
  | readTips i =>
    simp only [Anchoring.step]
    cases hi : s.pending[i]? with
    | none => exact hok
    | some now =>
      refine ⟨hok.storeOk, hok.shippable,
        fun t ht => hok.pending t (List.mem_of_mem_eraseIdx ht), fun cp hcp => ?_⟩
      rcases List.mem_append.1 hcp with hcp | hcp
      · exact hok.taken cp hcp
      · obtain ⟨hbacked, hat⟩ := backed_of_mem_takeCheckpoints hcp
        exact ⟨now, hat, hok.pending now (List.mem_of_getElem? hi), fun _ => Or.inr hbacked⟩

/-- The checkpoints since the latest purge all have their rows. -/
theorem AnchoringOk.exists_checkpoints (hidle : s.purging = false) :
    ∃ cps, s.checkpoints = some cps ∧ ∀ cp ∈ cps, Backed s.store.rows cp := by
  have hcase : ∀ cp ∈ s.taken, (∀ purgedAt ∈ s.purgedAt, canonicalTs purgedAt ≤ cp.anchoredAt) →
      Backed s.store.rows cp := by
    intro cp hcp hsince
    obtain ⟨t, hat, -, hcase⟩ := hok.taken cp hcp
    rcases hcase hidle with ⟨purgedAt, hpurged, hlt⟩ | hbacked
    · have hle := hsince purgedAt hpurged
      rw [hat] at hle
      exact absurd (canonicalTs_lt hlt) (not_lt.2 hle)
    · exact hbacked
  unfold Anchoring.checkpoints
  cases hpurged : s.purgedAt with
  | none =>
    refine ⟨s.taken, rfl, fun cp hcp => hcase cp hcp (fun purgedAt h => ?_)⟩
    rw [hpurged] at h
    exact absurd h (by simp)
  | some purgedAt =>
    have hparse : ∀ cp ∈ s.taken, (parseCanonical cp.anchoredAt).isSome = true := by
      intro cp hcp
      obtain ⟨t, hat, -⟩ := hok.taken cp hcp
      rw [hat, parseCanonical_canonicalTs, Option.isSome_some]
    refine ⟨_, if_pos hparse, fun cp hcp => ?_⟩
    simp only [List.mem_filter, decide_eq_true_eq] at hcp
    refine hcase cp hcp.1 (fun at' h => ?_)
    rw [hpurged, Option.mem_some_iff] at h
    exact h ▸ hcp.2

end

/-! ## The result -/

/-- **No false alarm from checkpoints.** In every run that reads a clock that goes forward and
    stores no other `wire_version` than the one the table reads back, the whole store verifies
    against the checkpoints since the latest purge finished, at every point outside a purge. -/
theorem no_false_alarm {H : Sha256} {store : Store}
    (hnonneg : ∀ r ∈ store.rows, 0 ≤ r.monotonicSeq)
    (hsealed : ∀ r ∈ store.rows, r.isSealed = true → 1 ≤ r.monotonicSeq)
    (hunique : ∀ r ∈ store.rows, ∀ r' ∈ store.rows, r.sourceNodeId = r'.sourceNodeId →
      1 ≤ r.monotonicSeq → r.monotonicSeq = r'.monotonicSeq → r = r')
    (hverify : ∀ node, (verifyChain (rowBreak H) (store.nodeRows node) [] false).ok = true)
    (hship : ∀ r ∈ store.rows, ShippableRow H r) (ops : List AnchorOp)
    (hops : Run.AllAlong (Anchoring.step H) (fun s op => op.Ticks s ∧ op.KeepsWireVersion s)
      (Anchoring.start store) ops)
    (hidle : (ops.foldl (Anchoring.step H) (Anchoring.start store)).purging = false) :
    ∃ cps, (ops.foldl (Anchoring.step H) (Anchoring.start store)).checkpoints = some cps ∧
      (verifyChain (rowBreak H) (ops.foldl (Anchoring.step H) (Anchoring.start store)).store.rows
        cps false).ok = true := by
  have hstart : AnchoringOk H (Anchoring.start store) := by
    refine ⟨⟨hnonneg, hsealed, hunique, fun node => ?_⟩, hship, fun t ht => absurd ht
      List.not_mem_nil, fun cp hcp => absurd hcp List.not_mem_nil⟩
    exact Store.verifyChain_nodeRows_iff.1 (hverify node)
  have hend := Run.invariant_of_step (fun s op (hs : AnchoringOk H s) hop => hs.step hop) ops _
    hstart hops
  obtain ⟨cps, hcps, hbacked⟩ := hend.exists_checkpoints hidle
  refine ⟨cps, hcps, verifyChain_ok_of_backed (Store.distinct _) ?_ hbacked⟩
  exact (rowsOk_iff_of_distinct (Store.distinct _)).2 hend.storeOk.chains

instance neZero_microsPerSecond : NeZero 1000000 := ⟨by decide⟩

/-- An instant of the first second. -/
def tick (n : Fin 1000000) : Datetime :=
  ⟨1970, 1, 1, 0, 0, 0, n, Datetime.epoch.yearRange, Datetime.epoch.monthRange,
    Datetime.epoch.dayRange, Datetime.epoch.hourRange, Datetime.epoch.minuteRange,
    Datetime.epoch.secondRange, n.2⟩

theorem tick_lt {m n : Fin 1000000} (h : m < n) : tick m < tick n := by
  show (tick m).fields < (tick n).fields
  simp [Datetime.fields, tick, List.cons_lt_cons_iff, h]

/-- A purge comes between the two reads of a call, and a row after it. -/
def purgedMeanwhile : List AnchorOp :=
  [.readClock (tick 1), .purge Datetime.epoch true, .readTips 0, .purgeFinished (tick 2),
    .readClock (tick 3), .readTips 0, .allocate Token.sample (AuditRow.sample "evt-1" 0)]

theorem no_false_alarm_purgedMeanwhile :
    ∃ cps, (purgedMeanwhile.foldl (Anchoring.step plainDigest)
        (Anchoring.start Store.empty)).checkpoints = some cps ∧
      (verifyChain (rowBreak plainDigest) (purgedMeanwhile.foldl (Anchoring.step plainDigest)
        (Anchoring.start Store.empty)).store.rows cps false).ok = true := by
  have hempty : ∀ {P : AuditRow → Prop}, ∀ r ∈ Store.empty.rows, P r := fun r hr =>
    absurd hr List.not_mem_nil
  refine no_false_alarm hempty hempty hempty (fun _ => rfl) hempty purgedMeanwhile ?_ rfl
  have hlater : ∀ {m n : Fin 1000000}, m < n → ∀ last ∈ some (tick m), last < tick n := by
    intro m n hlt last hlast
    rw [← Option.mem_some_iff.1 hlast]
    exact tick_lt hlt
  exact ⟨⟨fun _ h => absurd h (by simp [Anchoring.start]), trivial⟩, ⟨trivial, trivial⟩,
    ⟨trivial, trivial⟩, ⟨hlater (by decide), trivial⟩, ⟨hlater (by decide), trivial⟩,
    ⟨trivial, trivial⟩, ⟨trivial, Or.inl rfl⟩, trivial⟩

/-! ## Another wire version -/

theorem step_allocate (H : Sha256) (s : Anchoring) (token : Token) {row : AuditRow}
    (horigin : row.originId = row.id) :
    s.step H (.allocate token row)
      = { s with store := (s.store.insertRowCore (s.store.allocated H token row)).1 } := by
  simp [Anchoring.step, Store.allocateAndInsertOriginated, horigin]

theorem not_verifyChain_step_allocate {H : Sha256} (hH : Function.Injective H.hexdigest)
    {s : Anchoring} (hempty : s.store.rows = []) (token : Token) {row : AuditRow}
    (horigin : row.originId = row.id) (hwire : row.wireVersion ≠ "1") (cps : List Checkpoint) :
    ¬(verifyChain (rowBreak H) (s.step H (.allocate token row)).store.rows cps false).ok = true := by
  rw [step_allocate H s token horigin, Store.insertRowCore_rows, hempty]
  simp only [List.map_nil, List.not_mem_nil, if_false, List.nil_append]
  intro hok
  have hkept := (keptCopy_eq_some_iff (distinct_singleton
    (s.store.allocated H token row).stored)).2 ⟨List.mem_singleton.2 rfl, rfl⟩
  have hcheck := ((rowsOk_of_verifyChain hok).copies (List.mem_singleton.2 rfl)
    (s.store.allocated_isSealed token row) hkept).2
  exact rowBreak_stored_ne_none hH (s.store.rowBreak_allocated token row) hwire hcheck

/-- After a purge, a row of wire version `"2"` breaks a store that was empty. -/
theorem false_alarm_wireVersion :
    ¬∀ (H : Sha256) (ops : List AnchorOp),
      Run.AllAlong (Anchoring.step H) (fun s op => op.Ticks s) (Anchoring.start Store.empty) ops →
      (ops.foldl (Anchoring.step H) (Anchoring.start Store.empty)).purging = false →
      ∃ cps, (ops.foldl (Anchoring.step H) (Anchoring.start Store.empty)).checkpoints = some cps ∧
        (verifyChain (rowBreak H) (ops.foldl (Anchoring.step H)
          (Anchoring.start Store.empty)).store.rows cps false).ok = true := by
  intro h
  have horigin : ({ AuditRow.sample "evt-1" 0 with wireVersion := "2" } : AuditRow).originId
      = ({ AuditRow.sample "evt-1" 0 with wireVersion := "2" } : AuditRow).id := rfl
  have hwire : ({ AuditRow.sample "evt-1" 0 with wireVersion := "2" } : AuditRow).wireVersion
      ≠ "1" := by decide
  generalize ({ AuditRow.sample "evt-1" 0 with wireVersion := "2" } : AuditRow) = row at *
  have hrun := h plainDigest [.purge Datetime.epoch true, .purgeFinished (tick 1),
    .allocate ⟨"5a17", by decide⟩ row]
    ⟨trivial, fun _ h => absurd h (by simp [Anchoring.start, Anchoring.step]), trivial, trivial⟩
  rw [List.foldl_cons, List.foldl_cons, List.foldl_cons, List.foldl_nil] at hrun
  obtain ⟨cps, -, hok⟩ := hrun (by rw [step_allocate _ _ _ horigin]; rfl)
  exact not_verifyChain_step_allocate plainDigest_injective rfl _ horigin hwire cps hok

end Fasten
