import Fasten.Checkpoints.Runs
import Fasten.GoStore
import Fasten.GoVerify.Agree

set_option autoImplicit false

/-! # Go checkpoints and retention

A Go store that is purged now and then, and whose checkpoints are taken meanwhile. A call of
`TakeCheckpoints` reads the tips first and the clock later, the other way round than Python's
`take_checkpoints`. A purge that deletes a tip and finishes between the two reads leaves a
checkpoint that is dated after it and has no row. Unless that happens, the checkpoints since the
latest purge never fail a verify that passes without them. -/

namespace Fasten.Go

/-! ## The system -/

/-- A store, the tips read by the calls of `TakeCheckpoints` that have not read the clock, and the
    checkpoints taken. `purging` is set from a purge's deletion until the time it finished is
    read. -/
structure Anchoring where
  store : Store
  pending : List (List AuditRow)
  taken : List Checkpoint
  purging : Bool
  purgedAt : Option Time
  clock : Option Time

def Anchoring.start (store : Store) : Anchoring := ⟨store, [], [], false, none, none⟩

inductive AnchorOp where
  | allocate (token : Token) (row : AuditRow)
  | purge (before : Time) (respectUnshipped : Bool)
  | purgeFinished (now : Time)
  | readTips
  /-- The `i`-th call that is under way. -/
  | readClock (i : Nat) (now : Time)

def Anchoring.step (sealer : Sealer) (s : Anchoring) : AnchorOp → Anchoring
  | .allocate token row =>
    match s.store.allocateAndInsertOriginated sealer token row with
    | none => s
    | some (_, store) => { s with store := store }
  | .purge before respectUnshipped =>
    { s with store := s.store.purge before respectUnshipped, purging := true }
  | .purgeFinished now => { s with purging := false, purgedAt := some now, clock := some now }
  | .readTips => { s with pending := s.pending ++ [chainTips s.store.rows] }
  | .readClock i now =>
    match s.pending[i]? with
    | none => { s with clock := some now }
    | some tips =>
      { s with
        pending := s.pending.eraseIdx i
        taken := s.taken ++ takeCheckpoints now tips
        clock := some now }

/-- Each reading of the clock is later than the one before. -/
def AnchorOp.Ticks (s : Anchoring) : AnchorOp → Prop
  | .purgeFinished now => ∀ last ∈ s.clock, last < now
  | .readClock _ now => ∀ last ∈ s.clock, last < now
  | _ => True

/-- A call that reads the clock still finds its tips, unless a purge that deleted them is under
    way. -/
def AnchorOp.FindsTips (s : Anchoring) : AnchorOp → Prop
  | .readClock i _ =>
    ∀ tips ∈ s.pending[i]?, ∀ tip ∈ tips, s.purging = true ∨ tip ∈ s.store.rows
  | _ => True

/-- The operation stores no NUL in a node. -/
def AnchorOp.NoNulNode : AnchorOp → Prop
  | .allocate _ row => NoNul row.sourceNodeId
  | _ => True

/-- The checkpoints since the latest purge finished. -/
def Anchoring.checkpoints (s : Anchoring) : Option (List Checkpoint) :=
  match s.purgedAt with
  | none => some s.taken
  | some purgedAt => checkpointsSince s.taken purgedAt

/-! ## Verifying against checkpoints that have their rows -/

variable {rows : List AuditRow} {checkpoints : List Checkpoint}

theorem verifyChainWithCheckpoints_ok_iff {check : AuditRow → Option Reason} :
    (verifyChainWithCheckpoints check rows checkpoints false).ok = true
      ↔ chainBreak check rows checkpoints false = none := by
  unfold verifyChainWithCheckpoints
  by_cases hempty : rows = [] ∧ (false = true ∨ checkpoints = [])
  · rw [if_pos hempty]
    obtain ⟨rfl, h | rfl⟩ := hempty
    · exact absurd h (by decide)
    · simp [chainBreak, dedupe, sliceStable, walkChains, walk, firstSealed, checkpointBreak,
        Scan.lower]
  · rw [if_neg hempty]
    cases hbreak : chainBreak check rows checkpoints false with
    | none | some => simp

/-- Go and Python accept the same rows. -/
theorem ok_iff_verifyChain {check : AuditRow → Option Reason}
    (hnul : ∀ r ∈ rows, NoNul r.sourceNodeId) (hrange : ∀ r ∈ rows, InInt64 r.monotonicSeq)
    (hseqs : ∀ cp ∈ checkpoints, InInt64 cp.monotonicSeq) :
    (verifyChainWithCheckpoints check rows checkpoints false).ok = true
      ↔ (verifyChain check rows checkpoints false).ok = true := by
  rw [verifyChainWithCheckpoints_ok_iff, verifyChain_ok_iff, Scan.eq_none_iff_noneBelow,
    Scan.eq_none_iff_noneBelow]
  exact forall_congr' (fun c => noneBelow_chainBreak_iff hnul hrange (fun _ _ => Iff.rfl) hseqs)

/-- Checkpoints that have their rows do not change the verdict. -/
theorem ok_eq_of_backed (check : AuditRow → Option Reason) (hdistinct : Distinct rows)
    (hnul : ∀ r ∈ rows, NoNul r.sourceNodeId) (hrange : ∀ r ∈ rows, InInt64 r.monotonicSeq)
    (hbacked : ∀ cp ∈ checkpoints, Backed rows cp) :
    (verifyChainWithCheckpoints check rows checkpoints false).ok
      = (verifyChainWithCheckpoints check rows [] false).ok := by
  have hseqs : ∀ cp ∈ checkpoints, InInt64 cp.monotonicSeq := by
    intro cp hcp
    obtain ⟨r, hr, -, hseq, -⟩ := hbacked cp hcp
    exact hseq ▸ hrange r hr
  rw [Bool.eq_iff_iff, ok_iff_verifyChain hnul hrange hseqs,
    ok_iff_verifyChain hnul hrange (by simp), verifyChain_rows_ok_iff]
  exact ⟨rowsOk_of_verifyChain, fun hok => verifyChain_ok_of_backed hdistinct hok hbacked⟩

theorem Store.distinct (store : Store) : Distinct store.rows :=
  fun _ hr _ hr' _ hid => store.eq_of_id_eq hr hr' hid

/-! ## The invariant of a run -/

/-- The time is before whatever the clock reads next. -/
def Past (t : Time) (clock : Option Time) : Prop :=
  ∀ now, (∀ last ∈ clock, last < now) → t < now

theorem Past.tick {t now : Time} {clock : Option Time} (h : Past t clock)
    (hnow : ∀ last ∈ clock, last < now) : Past t (some now) :=
  fun _ hnext => Time.lt_trans (h now hnow) (hnext now rfl)

theorem past_self (now : Time) : Past now (some now) := fun _ hnext => hnext now rfl

/-- Every checkpoint has its row, or is older than the latest purge. -/
structure AnchoringOk (s : Anchoring) : Prop where
  noNul : ∀ r ∈ s.store.rows, NoNul r.sourceNodeId
  inRange : ∀ r ∈ s.store.rows, InInt64 r.monotonicSeq
  pending : ∀ tips ∈ s.pending, ∀ tip ∈ tips, tip.isSealed = true
  taken : ∀ cp ∈ s.taken, ∃ t, cp.anchoredAt = canonicalTS t ∧ Past t s.clock ∧
    (s.purging = false → (∃ purgedAt ∈ s.purgedAt, t < purgedAt) ∨ Backed s.store.rows cp)

section

variable {s : Anchoring} (hok : AnchoringOk s)

include hok

/-- A row more. -/
theorem AnchoringOk.insert {row : AuditRow} (hnul : NoNul row.sourceNodeId)
    (hrange : InInt64 row.monotonicSeq) :
    AnchoringOk { s with store := (s.store.insertRowExec row).1 } := by
  have hmem : ∀ x ∈ (s.store.insertRowExec row).1.rows, x ∈ s.store.rows ∨ x = columns row := by
    intro x hx
    exact ((Table.mem_insertOrIgnore _ _).1 hx).imp_right (fun h => h.2)
  refine ⟨fun x hx => ?_, fun x hx => ?_, hok.pending, fun cp hcp => ?_⟩
  · rcases hmem x hx with hx | rfl
    · exact hok.noNul x hx
    · exact hnul
  · rcases hmem x hx with hx | rfl
    · exact hok.inRange x hx
    · exact hrange
  · obtain ⟨t, hat, hpast, hcase⟩ := hok.taken cp hcp
    refine ⟨t, hat, hpast, fun hidle => (hcase hidle).imp_right ?_⟩
    rintro ⟨r, hr, hrest⟩
    exact ⟨r, (Table.mem_insertOrIgnore _ _).2 (Or.inl hr), hrest⟩

/-- A purge deletes rows. Until it has finished, nothing is said of the checkpoints. -/
theorem AnchoringOk.purge (before : Time) (respectUnshipped : Bool) :
    AnchoringOk { s with store := s.store.purge before respectUnshipped, purging := true } := by
  refine ⟨fun r hr => hok.noNul r ((Table.mem_delete _).1 hr).1,
    fun r hr => hok.inRange r ((Table.mem_delete _).1 hr).1, hok.pending, fun cp hcp => ?_⟩
  obtain ⟨t, hat, hpast, -⟩ := hok.taken cp hcp
  exact ⟨t, hat, hpast, fun hidle => absurd hidle (by simp)⟩

/-- When a purge has finished, whatever was taken so far is older. -/
theorem AnchoringOk.purgeFinished {now : Time} (hnow : ∀ last ∈ s.clock, last < now) :
    AnchoringOk { s with purging := false, purgedAt := some now, clock := some now } := by
  refine ⟨hok.noNul, hok.inRange, hok.pending, fun cp hcp => ?_⟩
  obtain ⟨t, hat, hpast, -⟩ := hok.taken cp hcp
  exact ⟨t, hat, hpast.tick hnow, fun _ => Or.inl ⟨now, rfl, hpast now hnow⟩⟩

theorem AnchoringOk.readTips :
    AnchoringOk { s with pending := s.pending ++ [chainTips s.store.rows] } := by
  refine ⟨hok.noNul, hok.inRange, fun tips htips tip htip => ?_, hok.taken⟩
  rcases List.mem_append.1 htips with htips | htips
  · exact hok.pending tips htips tip htip
  · rw [List.mem_singleton.1 htips] at htip
    exact (mem_chainTips.1 htip).2.1

theorem AnchoringOk.readClock {i : Nat} {tips : List AuditRow} (htips : s.pending[i]? = some tips)
    {now : Time} (hnow : ∀ last ∈ s.clock, last < now)
    (hfinds : ∀ tip ∈ tips, s.purging = true ∨ tip ∈ s.store.rows) :
    AnchoringOk
      { s with
        pending := s.pending.eraseIdx i
        taken := s.taken ++ takeCheckpoints now tips
        clock := some now } := by
  refine ⟨hok.noNul, hok.inRange, fun tips h => hok.pending tips (List.mem_of_mem_eraseIdx h),
    fun cp hcp => ?_⟩
  rcases List.mem_append.1 hcp with hcp | hcp
  · obtain ⟨t, hat, hpast, hcase⟩ := hok.taken cp hcp
    exact ⟨t, hat, hpast.tick hnow, hcase⟩
  · obtain ⟨tip, htip, rfl⟩ := mem_checkpointTips hcp
    refine ⟨now, rfl, past_self now, fun hidle => Or.inr ⟨tip, ?_, rfl, rfl, ?_, rfl⟩⟩
    · exact (hfinds tip htip).resolve_left (fun h => Bool.noConfusion (h.symm.trans hidle))
    · exact hok.pending tips (List.mem_of_getElem? htips) tip htip

/-- **One step.** -/
theorem AnchoringOk.step (sealer : Sealer) {op : AnchorOp} (hticks : op.Ticks s)
    (hfinds : op.FindsTips s) (hnul : op.NoNulNode) : AnchoringOk (s.step sealer op) := by
  cases op with
  | allocate token row =>
    simp only [Anchoring.step, Store.allocateAndInsertOriginated]
    split_ifs with horigin
    · exact hok
    · refine hok.insert ?_ ?_
      · rw [Store.allocated, sealer.sourceNodeId]
        exact hnul
      · rw [Store.allocated, sealer.monotonicSeq]
        exact inInt64_wrap _
  | purge before respectUnshipped => exact hok.purge before respectUnshipped
  | purgeFinished now => exact hok.purgeFinished hticks
  | readTips => exact hok.readTips
  | readClock i now =>
    simp only [Anchoring.step]
    cases htips : s.pending[i]? with
    | none =>
      refine ⟨hok.noNul, hok.inRange, hok.pending, fun cp hcp => ?_⟩
      obtain ⟨t, hat, hpast, hcase⟩ := hok.taken cp hcp
      exact ⟨t, hat, hpast.tick hticks, hcase⟩
    | some tips => exact hok.readClock htips hticks (hfinds tips htips)

/-- The checkpoints since the latest purge all have their rows. -/
theorem AnchoringOk.exists_checkpoints (hidle : s.purging = false) :
    ∃ cps, s.checkpoints = some cps ∧ ∀ cp ∈ cps, Backed s.store.rows cp := by
  unfold Anchoring.checkpoints
  cases hpurged : s.purgedAt with
  | none =>
    refine ⟨s.taken, rfl, fun cp hcp => ?_⟩
    obtain ⟨t, -, -, hcase⟩ := hok.taken cp hcp
    refine (hcase hidle).resolve_left ?_
    simp [hpurged]
  | some purgedAt =>
    obtain ⟨kept, hkept, hmem⟩ := exists_checkpointsSince purgedAt (fun cp hcp =>
      (hok.taken cp hcp).imp (fun t h => h.1))
    refine ⟨kept, hkept, fun cp hcp => ?_⟩
    obtain ⟨hcp, hsince⟩ := hmem cp hcp
    obtain ⟨t, hat, -, hcase⟩ := hok.taken cp hcp
    refine (hcase hidle).resolve_left ?_
    rintro ⟨t', ht', hlt⟩
    rw [hpurged, Option.mem_some_iff] at ht'
    exact hsince t hat (ht' ▸ hlt)

end

/-! ## The result -/

/-- **No false alarm from Go checkpoints.** In every run that reads a clock that goes forward, and
    in which no call dates tips that a finished purge has deleted, the checkpoints since the latest
    purge leave the verdict on the whole store as it is without them, at every point outside a
    purge. -/
theorem ok_checkpoints_since_purge (sealer : Sealer) (check : AuditRow → Option Reason)
    {store : Store} (hnul : ∀ r ∈ store.rows, NoNul r.sourceNodeId)
    (hrange : ∀ r ∈ store.rows, InInt64 r.monotonicSeq) (ops : List AnchorOp)
    (hops : Run.AllAlong (Anchoring.step sealer)
      (fun s op => op.Ticks s ∧ op.FindsTips s ∧ op.NoNulNode) (Anchoring.start store) ops)
    (hidle : (ops.foldl (Anchoring.step sealer) (Anchoring.start store)).purging = false) :
    ∃ cps, (ops.foldl (Anchoring.step sealer) (Anchoring.start store)).checkpoints = some cps ∧
      (verifyChainWithCheckpoints check
          (ops.foldl (Anchoring.step sealer) (Anchoring.start store)).store.rows cps false).ok
        = (verifyChainWithCheckpoints check
          (ops.foldl (Anchoring.step sealer) (Anchoring.start store)).store.rows [] false).ok := by
  have hstart : AnchoringOk (Anchoring.start store) :=
    ⟨hnul, hrange, fun _ h => absurd h List.not_mem_nil, fun _ h => absurd h List.not_mem_nil⟩
  have hend := Run.invariant_of_step
    (fun s op (hs : AnchoringOk s) hop => hs.step sealer hop.1 hop.2.1 hop.2.2) ops _ hstart hops
  obtain ⟨cps, hcps, hbacked⟩ := hend.exists_checkpoints hidle
  exact ⟨cps, hcps, ok_eq_of_backed check (Store.distinct _) hend.noNul hend.inRange hbacked⟩

/-- A time of the first second. -/
def instant (n : Fin 1000000) : Time := ⟨tick n, 0, zero_nanosRange⟩

theorem instant_lt {m n : Fin 1000000} (h : m < n) :
    ∀ last ∈ some (instant m), last < instant n := by
  intro last hlast
  rw [← Option.mem_some_iff.1 hlast]
  exact Or.inl (tick_lt h)

/-- A purge deletes between the two reads of a call, and finishes after them. -/
def purgedMeanwhile : List AnchorOp :=
  [.readTips, .purge (instant 1) false, .readClock 0 (instant 2), .purgeFinished (instant 3),
    .readTips, .readClock 0 (instant 4)]

theorem ok_checkpoints_since_purge_meanwhile :
    ∃ cps, (purgedMeanwhile.foldl (Anchoring.step ⟨sealRow plainDigest, fun _ _ _ => rfl,
        fun _ _ _ => rfl⟩) (Anchoring.start (Store.singleton edgePair.1))).checkpoints
          = some cps ∧
      (verifyChainWithCheckpoints (rowBreak plainDigest)
          (purgedMeanwhile.foldl (Anchoring.step ⟨sealRow plainDigest, fun _ _ _ => rfl,
            fun _ _ _ => rfl⟩) (Anchoring.start (Store.singleton edgePair.1))).store.rows cps
              false).ok
        = (verifyChainWithCheckpoints (rowBreak plainDigest)
          (purgedMeanwhile.foldl (Anchoring.step ⟨sealRow plainDigest, fun _ _ _ => rfl,
            fun _ _ _ => rfl⟩) (Anchoring.start (Store.singleton edgePair.1))).store.rows []
              false).ok := by
  have hnode : edgePair.1.sourceNodeId = "edge" := rfl
  have hseq : edgePair.1.monotonicSeq = 1 := rfl
  generalize edgePair.1 = row at *
  refine ok_checkpoints_since_purge _ _ (fun r hr => ?_) (fun r hr => ?_) _ ?_ rfl
  · rw [List.mem_singleton.1 hr, hnode]
    simp [NoNul]
  · rw [List.mem_singleton.1 hr, hseq]
    exact ⟨by decide, by decide⟩
  · refine ⟨⟨trivial, trivial, trivial⟩, ⟨trivial, trivial, trivial⟩,
      ⟨fun _ h => absurd h (by simp [Anchoring.start, Anchoring.step]),
        fun _ _ _ _ => Or.inl rfl, trivial⟩,
      ⟨instant_lt (by decide), trivial, trivial⟩, ⟨trivial, trivial, trivial⟩,
      ⟨instant_lt (by decide), fun tips htips tip htip => Or.inr ?_, trivial⟩, trivial⟩
    -- nothing came between the second call's reads
    rw [← Option.mem_some_iff.1 htips] at htip
    exact (mem_chainTips.1 htip).1

/-! ## A purge between the two reads -/

theorem purge_singleton {row : AuditRow} {before : Time}
    (hold : canonicalTs row.timestamp < canonicalTS before) (hseq : row.monotonicSeq < maxSeq) :
    (Store.purge (Store.singleton row) before false).rows = [] := by
  have hkeeps : keeps before false row = false := by
    rw [keeps, decide_eq_false (not_le.2 hold)]
    rfl
  have hpurges : Store.purges (Store.singleton row) before false row = true := by
    rw [Store.purges, decide_eq_true hold]
    simp [Store.keepFrom, Store.nodeRows, Store.singleton, hkeeps, hseq]
  refine List.filter_eq_nil_iff.2 (fun r hr => ?_)
  rw [List.mem_singleton.1 hr, hpurges]
  decide

theorem not_ok_of_noRows (check : AuditRow → Option Reason) (cp : Checkpoint) :
    (verifyChainWithCheckpoints check [] [cp] false).ok = false := by
  simp [verifyChainWithCheckpoints, chainBreak, dedupe, sliceStable, walkChains, walk, firstSealed,
    checkpointBreak, sortCheckpoints, checkpointFound, newestCheckpoints, indexRows, Scan.lower,
    Dict.get?_set]

/-- The store's one row is purged after its tip was read, and the clock is read after that. -/
theorem false_alarm_purgedBetweenReads :
    ¬∀ (sealer : Sealer) (check : AuditRow → Option Reason) (store : Store) (ops : List AnchorOp),
      Run.AllAlong (Anchoring.step sealer) (fun s op => op.Ticks s ∧ op.NoNulNode)
        (Anchoring.start store) ops →
      (ops.foldl (Anchoring.step sealer) (Anchoring.start store)).purging = false →
      (verifyChainWithCheckpoints check
        (ops.foldl (Anchoring.step sealer) (Anchoring.start store)).store.rows [] false).ok = true →
      ∃ cps, (ops.foldl (Anchoring.step sealer) (Anchoring.start store)).checkpoints = some cps ∧
        (verifyChainWithCheckpoints check
          (ops.foldl (Anchoring.step sealer) (Anchoring.start store)).store.rows cps false).ok
            = true := by
  intro h
  have hrun := h ⟨sealRow plainDigest, fun _ _ _ => rfl, fun _ _ _ => rfl⟩ (rowBreak plainDigest)
    (Store.singleton edgePair.1)
    [.readTips, .purge (instant 1) false, .purgeFinished (instant 2), .readClock 0 (instant 3)]
    ⟨⟨trivial, trivial⟩, ⟨trivial, trivial⟩,
      ⟨fun _ h => absurd h (by simp [Anchoring.start, Anchoring.step]), trivial⟩,
      ⟨instant_lt (by decide), trivial⟩, trivial⟩
  have hsealed : edgePair.1.isSealed = true := sealRow_isSealed _ _ _
  have hpurged : (Store.purge (Store.singleton edgePair.1) (instant 1) false).rows = [] :=
    purge_singleton (canonicalTs_lt (tick_lt (m := 0) (n := 1) (by decide))) (by decide)
  generalize edgePair.1 = row at *
  have htips : chainTips (Store.singleton row).rows = [row] := by
    simp [Store.singleton, chainTips, highestSealed, tipOf, higherSealed, hsealed]
  simp only [List.foldl_cons, List.foldl_nil, Anchoring.step, Anchoring.start, List.nil_append,
    htips, List.getElem?_cons_zero, hpurged, Anchoring.checkpoints] at hrun
  have hkept : checkpointsSince (takeCheckpoints (instant 3) [row]) (instant 2)
      = some [Checkpoint.ofTip (instant 3).micros row] := by
    have hat : parseCanonicalTS (canonicalTs (instant 3).micros) = some (instant 3) :=
      parseCanonicalTS_canonicalTS (instant 3)
    have hlater : ¬instant 3 < instant 2 := by decide
    simp [takeCheckpoints, checkpointTips, takeTip, checkpointsSince, Checkpoint.ofTip, hat, hlater]
  obtain ⟨cps, hcps, hok⟩ := hrun trivial (by simp [verifyChainWithCheckpoints])
  rw [hkept, Option.some.injEq] at hcps
  rw [← hcps, not_ok_of_noRows] at hok
  exact absurd hok (by decide)

end Fasten.Go
