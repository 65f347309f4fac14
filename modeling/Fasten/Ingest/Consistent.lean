import Fasten.Ingest.Spec
import Fasten.Store.Columns
import Fasten.Tamper

set_option autoImplicit false

/-! # Ingest and the consistency of a store

What an ingest of any batch leaves of a consistent store (spec §4): the rows stored before are
untouched, sealed rows below the rejected seq are added, and the store is consistent again unless
the columns cannot give an added row back or an unsealed row was stored right above it. -/

namespace Fasten

variable {H : Sha256} {check : AuditRow → Option Reason} {store : Store} {rows : List AuditRow}

/-! ## Consistent stores -/

/-- Ids are unique in every store; the rest is about sealed rows and their neighbours. -/
structure Consistent (H : Sha256) (store : Store) : Prop where
  places : ∀ r ∈ store.rows, ∀ r' ∈ store.rows, r.isSealed = true →
    r.sourceNodeId = r'.sourceNodeId → r.monotonicSeq = r'.monotonicSeq → r = r'
  checked : ∀ r ∈ store.rows, r.isSealed = true → rowBreak H r = none
  linked : ∀ b ∈ store.rows, ∀ r ∈ store.rows, r.isSealed = true →
    b.sourceNodeId = r.sourceNodeId → r.monotonicSeq = b.monotonicSeq + 1 →
    r.prevHash = if b.isSealed then b.hash else "genesis"
  unsealedAbove : ∀ r ∈ store.rows, ∀ u ∈ store.rows, r.isSealed = true → u.isSealed = false →
    r.sourceNodeId = u.sourceNodeId → u.monotonicSeq ≠ r.monotonicSeq + 1

/-- The columns give the row back, and no unsealed row is stored right above it. -/
def Insertable (store : Store) (p : AuditRow) : Prop :=
  Storable p ∧ ∀ a ∈ store.rows, a.sourceNodeId = p.sourceNodeId →
    a.monotonicSeq = p.monotonicSeq + 1 → a.isSealed = true

/-! ## The rows to insert -/

section

variable {p p' : AuditRow} (hp : p ∈ store.toInsert check rows)

include hp

theorem checked_of_mem_toInsert : check p = none := by
  obtain ⟨hkept, hclear, -⟩ := mem_toInsert.1 hp
  exact (hclear.verifies.nodes p.sourceNodeId).checked p ⟨hkept.1, by omega⟩ hkept.2

theorem neighbourConflict_of_mem_toInsert : store.neighbourConflict p = none := by
  obtain ⟨hkept, hclear, hnew⟩ := mem_toInsert.1 hp
  exact (hclear.agrees p hkept (by omega)).fits hnew

/-- The place of a row to insert is free. -/
theorem place_free_of_mem_toInsert {x : AuditRow} (hx : x ∈ store.rows)
    (hnode : x.sourceNodeId = p.sourceNodeId) : x.monotonicSeq ≠ p.monotonicSeq :=
  Store.atSeq_eq_none_iff.1
    (Store.neighbourConflict_eq_none_iff.1 (neighbourConflict_of_mem_toInsert hp)).1 x hx hnode

theorem isSealed_of_mem_toInsert : p.isSealed = true := (mem_toInsert.1 hp).1.2

variable (hp' : p' ∈ store.toInsert check rows) (hnode : p.sourceNodeId = p'.sourceNodeId)

include hp' hnode

theorem eq_of_mem_toInsert (hseq : p.monotonicSeq = p'.monotonicSeq) : p = p' := by
  obtain ⟨hkept, hclear, -⟩ := mem_toInsert.1 hp
  obtain ⟨hkept', -, -⟩ := mem_toInsert.1 hp'
  have hid := (hclear.verifies.nodes p.sourceNodeId).unique p ⟨hkept.1, by omega⟩ p'
    ⟨by rw [hnode]; exact hkept'.1, by omega⟩ hkept.2 hkept'.2 hseq
  have hsame := hkept.1
  rw [hnode, hid, hkept'.1, Option.some.injEq] at hsame
  exact hsame.symm

theorem prevHash_of_mem_toInsert (hseq : p'.monotonicSeq = p.monotonicSeq + 1) :
    p'.prevHash = p.hash := by
  obtain ⟨hkept, -, -⟩ := mem_toInsert.1 hp
  obtain ⟨hkept', hclear', -⟩ := mem_toInsert.1 hp'
  refine (hclear'.verifies.nodes p'.sourceNodeId).linked p ⟨by rw [← hnode]; exact hkept.1, by omega⟩
    p' ⟨hkept'.1, by omega⟩ hkept.2 hkept'.2 (by omega) (fun w _ => ?_)
  omega

end

/-! ## What an ingest leaves -/

section

variable (hstore : Consistent H store)

include hstore

/-- A row stored right below a row to insert is what that one links to. -/
theorem Consistent.prevHash_eq {p b : AuditRow} (hp : p ∈ store.toInsert check rows)
    (hb : b ∈ store.rows) (hnode : b.sourceNodeId = p.sourceNodeId)
    (hseq : p.monotonicSeq = b.monotonicSeq + 1) :
    p.prevHash = if b.isSealed then b.hash else "genesis" := by
  obtain ⟨-, hbefore, -⟩ :=
    Store.neighbourConflict_eq_none_iff.1 (neighbourConflict_of_mem_toInsert hp)
  cases hfound : store.atSeq p.sourceNodeId (p.monotonicSeq - 1) with
  | none => exact absurd (by omega) (Store.atSeq_eq_none_iff.1 hfound b hb hnode)
  | some b' =>
    obtain ⟨hb', hnode', hseq'⟩ := Store.mem_of_atSeq hfound
    have hprev := hbefore b' hfound
    -- two rows at one place are both unsealed
    have hsame : b.isSealed = true ∨ b'.isSealed = true → b = b' := by
      rintro (hs | hs)
      · exact hstore.places b hb b' hb' hs (hnode.trans hnode'.symm) (by omega)
      · exact (hstore.places b' hb' b hb hs (hnode'.trans hnode.symm) (by omega)).symm
    cases hs : b.isSealed with
    | true =>
      rw [← hsame (Or.inl hs), if_neg (AuditRow.isSealed_iff.1 hs)] at hprev
      rw [hprev, if_pos rfl]
    | false =>
      have hs' : b'.isSealed = false := by
        by_contra h
        have hb's : b'.isSealed = true := by simpa using h
        rw [hsame (Or.inr hb's), hb's] at hs
        exact absurd hs (by simp)
      rw [if_pos (AuditRow.isSealed_eq_false_iff.1 hs')] at hprev
      rw [hprev, if_neg (by simp)]

/-- A sealed row stored right above a row to insert links to it. -/
theorem Consistent.prevHash_above {p a : AuditRow} (hp : p ∈ store.toInsert check rows)
    (ha : a ∈ store.rows) (hs : a.isSealed = true) (hnode : p.sourceNodeId = a.sourceNodeId)
    (hseq : a.monotonicSeq = p.monotonicSeq + 1) : a.prevHash = p.hash := by
  obtain ⟨-, -, hafter⟩ :=
    Store.neighbourConflict_eq_none_iff.1 (neighbourConflict_of_mem_toInsert hp)
  cases hfound : store.atSeq p.sourceNodeId (p.monotonicSeq + 1) with
  | none => exact absurd hseq (Store.atSeq_eq_none_iff.1 hfound a ha hnode.symm)
  | some a' =>
    obtain ⟨ha', hnode', hseq'⟩ := Store.mem_of_atSeq hfound
    have hsame := hstore.places a ha a' ha' hs (hnode.symm.trans hnode'.symm) (by omega)
    rw [hsame]
    exact hafter a' hfound

/-- **When an ingest leaves a consistent store.** -/
theorem Consistent.afterIngest_iff (hH : Function.Injective H.hexdigest) {rows : List AuditRow}
    (hinside : ∀ r ∈ rows, Inside r) (localNodeId : Option String) :
    Consistent H (store.afterIngest (rowBreak H) rows localNodeId) ↔
      ∀ p ∈ store.toInsert (rowBreak H) (rowsBeforeLocal localNodeId rows), Insertable store p := by
  generalize hbatch : rowsBeforeLocal localNodeId rows = batch
  have hmem : ∀ {x}, x ∈ (store.afterIngest (rowBreak H) rows localNodeId).rows ↔
      x ∈ store.rows ∨ ∃ p ∈ store.toInsert (rowBreak H) batch, p.stored = x := by
    rw [← hbatch]
    exact mem_afterIngest (fits_local hinside localNodeId)
  constructor
  · intro hafter p hp
    have hpmem := hmem.2 (Or.inr ⟨p, hp, rfl⟩)
    have hs : p.stored.isSealed = true := by
      rw [AuditRow.isSealed_stored]
      exact isSealed_of_mem_toInsert hp
    refine ⟨(rowBreak_stored_iff hH (checked_of_mem_toInsert hp)).1 (hafter.checked _ hpmem hs), ?_⟩
    intro a ha hnode hseq
    by_contra hunsealed
    exact hafter.unsealedAbove _ hpmem a (hmem.2 (Or.inl ha)) hs (by simpa using hunsealed)
      hnode.symm hseq
  · intro hcan
    refine ⟨?_, ?_, ?_, ?_⟩
    · intro r hr r' hr' hs hnode hseq
      rcases hmem.1 hr with hr | ⟨p, hp, rfl⟩
      · rcases hmem.1 hr' with hr' | ⟨p', hp', rfl⟩
        · exact hstore.places r hr r' hr' hs hnode hseq
        · exact absurd hseq (place_free_of_mem_toInsert hp' hr hnode)
      · rcases hmem.1 hr' with hr' | ⟨p', hp', rfl⟩
        · exact absurd hseq.symm (place_free_of_mem_toInsert hp hr' hnode.symm)
        · rw [eq_of_mem_toInsert hp hp' hnode hseq]
    · intro r hr hs
      rcases hmem.1 hr with hr | ⟨p, hp, rfl⟩
      · exact hstore.checked r hr hs
      · exact (rowBreak_stored_iff hH (checked_of_mem_toInsert hp)).2 (hcan p hp).1
    · intro b hb r hr hs hnode hseq
      rcases hmem.1 hr with hr | ⟨p, hp, rfl⟩
      · rcases hmem.1 hb with hb | ⟨q, hq, rfl⟩
        · exact hstore.linked b hb r hr hs hnode hseq
        · rw [AuditRow.isSealed_stored, if_pos (isSealed_of_mem_toInsert hq)]
          show r.prevHash = q.hash
          exact hstore.prevHash_above hq hr hs hnode hseq
      · rcases hmem.1 hb with hb | ⟨q, hq, rfl⟩
        · show p.prevHash = _
          exact hstore.prevHash_eq hp hb hnode hseq
        · rw [AuditRow.isSealed_stored, if_pos (isSealed_of_mem_toInsert hq)]
          show p.prevHash = q.hash
          exact prevHash_of_mem_toInsert hq hp hnode hseq
    · intro r hr u hu hs hus hnode hseq
      rcases hmem.1 hu with hu | ⟨q, hq, rfl⟩
      · rcases hmem.1 hr with hr | ⟨p, hp, rfl⟩
        · exact hstore.unsealedAbove r hr u hu hs hus hnode hseq
        · have := (hcan p hp).2 u hu hnode.symm hseq
          rw [hus] at this
          exact absurd this (by simp)
      · rw [AuditRow.isSealed_stored, isSealed_of_mem_toInsert hq] at hus
        exact absurd hus (by simp)

end

/-- The rows to insert are sealed rows of the batch below the first rejection. -/
theorem mem_batch_of_toInsert (hinside : ∀ r ∈ rows, Inside r) {localNodeId : Option String}
    {p : AuditRow} (hp : p ∈ store.toInsert check (rowsBeforeLocal localNodeId rows)) :
    p ∈ rows ∧ p.isSealed = true ∧
      BelowCut (store.rejectedFromSeq check rows localNodeId) p.monotonicSeq := by
  obtain ⟨hkept, hclear, -⟩ := mem_toInsert.1 hp
  obtain ⟨hmem, hlocal⟩ := mem_of_rowsBeforeLocal hkept.mem
  refine ⟨hmem, hkept.2, ?_⟩
  rw [Store.rejectedFromSeq_eq _ _ _ _ (fits_local hinside localNodeId)]
  intro e he
  rcases Option.or_eq_some_iff.1 he with he | ⟨-, he⟩
  · exact belowCut_of_clearBelow hclear e he
  · exact hlocal e he

/-- **Ingest and consistency.** For every consistent store and every batch of rows inside the range
    of seqs, an ingest returns, keeps the rows stored before as they were and adds sealed rows of the
    batch below the rejected seq only. The store is consistent again exactly when the rows that pass
    the checks can be inserted. -/
theorem ingest_consistent_iff (hH : Function.Injective H.hexdigest) (hstore : Consistent H store)
    (rows : List AuditRow) (hinside : ∀ r ∈ rows, Inside r) (localNodeId : Option String) :
    ∃ store' result, store.ingestReplicated (rowBreak H) rows localNodeId = some (store', result) ∧
      store.rows <+: store'.rows ∧
      (∀ x ∈ store'.rows, x ∉ store.rows → ∃ p ∈ rows, p.isSealed = true ∧ p.stored = x ∧
        BelowCut result.rejectedFromSeq p.monotonicSeq) ∧
      (Consistent H store' ↔
        ∀ p ∈ store.toInsert (rowBreak H) (rowsBeforeLocal localNodeId rows),
          Insertable store p) := by
  obtain ⟨store', result, hingest, hrows, -⟩ :=
    store.exists_ingestReplicated (rowBreak H) rows localNodeId (fits_local hinside localNodeId)
  have hafter : store.afterIngest (rowBreak H) rows localNodeId = store' := by
    rw [Store.afterIngest, hingest]
  have hrejected : store.rejectedFromSeq (rowBreak H) rows localNodeId = result.rejectedFromSeq := by
    rw [Store.rejectedFromSeq, hingest]
  refine ⟨store', result, hingest, hrows ▸ List.prefix_append _ _, fun x hx hnew => ?_, ?_⟩
  · rw [← hafter] at hx
    obtain ⟨p, hp, rfl⟩ := (mem_of_mem_afterIngest hx).resolve_left hnew
    obtain ⟨hmem, hs, hcut⟩ := mem_batch_of_toInsert hinside hp
    exact ⟨p, hmem, hs, rfl, hrejected ▸ hcut⟩
  · rw [← hafter]
    exact hstore.afterIngest_iff hH hinside localNodeId

/-! ## A batch of one row -/

theorem consistent_empty (H : Sha256) : Consistent H Store.empty := by
  constructor <;> intro r hr <;> exact absurd hr List.not_mem_nil

theorem agrees_empty (r : AuditRow) : Agrees Store.empty r where
  held _ hx := absurd hx List.not_mem_nil
  fits _ := rfl

theorem keptSealed_singleton {p : AuditRow} (hs : p.isSealed = true) : KeptSealed [p] p :=
  ⟨(keptCopy_sealed_iff hs).2 (List.find?_cons_of_pos (by simp [hs])), hs⟩

/-- A batch of one valid row that agrees with the store. -/
theorem mem_toInsert_singleton {p : AuditRow} (hs : p.isSealed = true) (hcheck : check p = none)
    (hagrees : Agrees store p) (hnew : ∀ x ∈ store.rows, x.id ≠ p.id) :
    p ∈ store.toInsert check [p] := by
  refine mem_toInsert.2 ⟨keptSealed_singleton hs, ⟨?_, ?_, ?_, fun r hr _ => ?_⟩, hnew⟩
  · exact rowsOk_singleton (fun _ => hcheck) _
  · intro u hu hus
    rw [List.mem_singleton.1 hu, hs] at hus
    exact absurd hus (by simp)
  · intro r r' hr hr' _ _ _
    rw [List.mem_singleton.1 hr.mem, List.mem_singleton.1 hr'.mem]
  · rw [List.mem_singleton.1 hr.mem]
    exact hagrees

/-- What `seal` returns can be stored, but for its wire version. -/
theorem storable_sealRow {token : Token} {prevHash : String} {row : AuditRow}
    (h : row.wireVersion = "1") : Storable (sealRow H token prevHash row) := by
  refine ⟨h, fun _ hempty => ?_⟩
  have hcommitment : (sealRow H token prevHash row).detailCommitment
      = some (detailCommitment H (sealSalt token row) (AuditRow.optDict row.detail) canonicalJson) :=
    rfl
  rw [hcommitment, Option.some.injEq] at hempty
  exact H.nonempty _ hempty

theorem storable_sealedPair (node : String) (hnode : node ≠ "") :
    Storable (sealedPair node hnode).1 ∧ Storable (sealedPair node hnode).2 :=
  ⟨storable_sealRow rfl, storable_sealRow rfl⟩

theorem SealedPair.inside {node : String} {p : AuditRow × AuditRow} (h : SealedPair node p) :
    Inside p.1 ∧ Inside p.2 := by
  simp [Inside, InInt64, h.seqs]

/-- The two rows of node `hub`. -/
def hubPair : AuditRow × AuditRow := sealedPair "hub" hub_ne_empty

theorem edgeStore_rows : (Store.empty.insertRowCore edgePair.1).1.rows = [edgePair.1] := by
  have hstored : edgePair.1.stored = edgePair.1 := stored_sealRow rfl
  rw [Store.insertRowCore_rows, if_neg (by simp [Store.empty]), hstored]
  rfl

/-- The rows of two nodes, the first one of which is stored. -/
theorem ingest_consistent_twoNodes :
    ∃ store' result, (Store.empty.insertRowCore edgePair.1).1.ingestReplicated
        (rowBreak plainDigest) [hubPair.2, edgePair.2, hubPair.1] none = some (store', result) ∧
      Consistent plainDigest store' := by
  have hedge : SealedPair "edge" edgePair := sealedPair_spec "edge" (by decide)
  have hhub : SealedPair "hub" hubPair := sealedPair_spec "hub" (by decide)
  have hcan := (storable_sealedPair "edge" (by decide)).2
  have hcan' := storable_sealedPair "hub" (by decide)
  have hrows := edgeStore_rows
  generalize (Store.empty.insertRowCore edgePair.1).1 = store at *
  change Storable edgePair.2 at hcan
  change Storable hubPair.1 ∧ Storable hubPair.2 at hcan'
  generalize edgePair = p at *
  generalize hubPair = q at *
  have hone : ∀ r ∈ store.rows, r = p.1 := by simp [hrows]
  have hstore : Consistent plainDigest store := by
    refine ⟨fun r hr r' hr' _ _ _ => ?_, fun r hr _ => ?_, fun b hb r hr _ _ hseq => ?_,
      fun _ _ u hu _ hus => ?_⟩
    · rw [hone r hr, hone r' hr']
    · rw [hone r hr]
      exact hedge.checks.1
    · rw [hone b hb, hone r hr] at hseq
      omega
    · rw [hone u hu, hedge.isSealed.1] at hus
      exact absurd hus (by simp)
  obtain ⟨store', result, hingest, -, -, hiff⟩ :=
    ingest_consistent_iff plainDigest_injective hstore [q.2, p.2, q.1]
      (by simp [hedge.inside, hhub.inside]) none
  refine ⟨store', result, hingest, hiff.2 (fun r hr => ⟨?_, fun a ha _ _ => ?_⟩)⟩
  · have hmem : r ∈ [q.2, p.2, q.1] := (mem_toInsert.1 hr).1.mem
    simp only [List.mem_cons, List.not_mem_nil, or_false] at hmem
    rcases hmem with rfl | rfl | rfl
    · exact hcan'.2
    · exact hcan
    · exact hcan'.1
  · rw [hone a ha]
    exact hedge.isSealed.1

/-- The first row of node `edge`, with a wire version. -/
def firstRow (wireVersion : String) : AuditRow :=
  sealRow plainDigest Token.sample "genesis"
    { AuditRow.sample "evt-1" 1 with wireVersion := wireVersion }

theorem inside_firstRow (wireVersion : String) : Inside (firstRow wireVersion) := by
  have hseq : (firstRow wireVersion).monotonicSeq = 1 := rfl
  simp [Inside, InInt64, hseq]

/-- A row of another wire version is accepted, and read back it fails its check. -/
theorem ingest_breaks_consistency :
    ¬∀ (H : Sha256), Function.Injective H.hexdigest → ∀ store, Consistent H store →
      ∀ rows localNodeId, Consistent H (store.afterIngest (rowBreak H) rows localNodeId) := by
  intro h
  have hrow : rowBreak plainDigest (firstRow "2") = none := rowBreak_sealRow _ _ _
  have hsealed : (firstRow "2").isSealed = true := sealRow_isSealed _ _ _
  have hwire : ¬Storable (firstRow "2") := by
    rintro ⟨hwire, -⟩
    exact absurd (show "2" = "1" from hwire) (by decide)
  have hinside := inside_firstRow "2"
  generalize firstRow "2" = row at *
  have hafter := h plainDigest plainDigest_injective Store.empty (consistent_empty _) [row] none
  rw [(consistent_empty plainDigest).afterIngest_iff plainDigest_injective (by simpa using hinside)]
    at hafter
  exact hwire (hafter row (mem_toInsert_singleton hsealed hrow (agrees_empty row)
    (fun x hx => absurd hx List.not_mem_nil))).1

end Fasten
