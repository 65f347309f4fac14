import Fasten.Ingest.Consistent

set_option autoImplicit false

/-! # Unsealed rows in a store that ingests

`verify_chain` fails with "no hash after the node's chain started" when an unsealed row is at or
above the node's first sealed one (spec §2). An ingest checks the two rows next to an incoming one
only, so unsealed rows further up have to be below it already. -/

namespace Fasten

open Scan

variable {check : AuditRow → Option Reason} {store : Store}

/-! ## Where the verifier reports it -/

/-- Every unsealed row is below its node's sealed ones. -/
def UnsealedBelow (rows : List AuditRow) : Prop :=
  ∀ u ∈ rows, ∀ r ∈ rows, u.sourceNodeId = r.sourceNodeId → u.isSealed = false →
    r.isSealed = true → u.monotonicSeq < r.monotonicSeq

/-- A check that gives other reasons. -/
def NeverNoHash (check : AuditRow → Option Reason) : Prop := ∀ r id, check r ≠ some (.noHash id)

theorem neverNoHash_rowBreak (H : Sha256) : NeverNoHash (rowBreak H) := by
  intro r id h
  unfold rowBreak at h
  cases hform : Form.ofId r.formId with
  | none => simp [hform] at h
  | some form =>
    simp only [hform] at h
    cases hdetail : detailBreak H r form with
    | none =>
      simp only [hdetail] at h
      split_ifs at h
      exact absurd h (by simp)
    | some reason =>
      rw [hdetail] at h
      simp only [detailBreak, Option.some.injEq] at hdetail h
      subst h
      split at hdetail
      · split_ifs at hdetail <;> simp at hdetail
      · simp at hdetail

theorem rowFail_noHash (hcheck : NeverNoHash check) {firstSealed : Option Int}
    {before : List AuditRow} {row : AuditRow} {seq : Int} {id : String}
    (h : rowFail check firstSealed before row = some (seq, .noHash id)) :
    row.isSealed = false ∧ ∃ first ∈ firstSealed, first ≤ row.monotonicSeq := by
  simp only [rowFail] at h
  split_ifs at h with hs hfirst hseen
  · exact ⟨hs, hfirst⟩
  · simp at h
  · cases hrow : check row with
    | some reason =>
      simp only [hrow, Option.some.injEq, Prod.mk.injEq] at h
      exact absurd (h.2 ▸ hrow) (hcheck row id)
    | none =>
      simp only [hrow, Option.map_eq_some_iff, Prod.mk.injEq] at h
      obtain ⟨reason, hlink, -, rfl⟩ := h
      unfold linkBreak at hlink
      split at hlink
      · exact absurd hlink (by simp)
      · split_ifs at hlink <;> simp at hlink

theorem firstBreak_noHash (hcheck : NeverNoHash check) {rows : List AuditRow} {seq : Int}
    {id : String} (h : firstBreak check rows = some (seq, .noHash id)) :
    ∃ u ∈ rows, ∃ r ∈ rows, u.isSealed = false ∧ r.isSealed = true ∧
      r.monotonicSeq ≤ u.monotonicSeq := by
  rw [firstBreak_eq_firstFail] at h
  obtain ⟨pre, row, post, hsplit, hfail⟩ := exists_of_firstFail_eq_some h
  obtain ⟨hs, hfirst⟩ := rowFail_noHash hcheck hfail
  obtain ⟨r, hr, hrs, hle⟩ := exists_firstSealed_le.1 hfirst
  exact ⟨row, by rw [hsplit]; simp, r, hr, hs, hrs, hle⟩

theorem dup_ne_noHash (hcheck : NeverNoHash check) (rows : List AuditRow) (seq : Int)
    (id : String) : (dedupe check rows).dup ≠ some (seq, .noHash id) := by
  induction rows using List.reverseRecOn with
  | nil => simp [dedupe]
  | append_singleton rows row ih =>
    rw [dedupe_concat]
    simp only [dedupeStep]
    split
    · exact ih
    · split_ifs
      · exact ih
      · intro h
        rcases eq_some_of_lower h with h | h
        · exact ih h
        · simp only [copyBreak, Option.map_eq_some_iff, Prod.mk.injEq] at h
          obtain ⟨reason, hreason, -, rfl⟩ := h
          split_ifs at hreason
          · simp at hreason
          · exact hcheck row id hreason
      · exact ih

theorem checkpointFound_ne_noHash (byNode : List (String × List (String × AuditRow)))
    (newest : List (String × Int)) (isPartial : Bool) (cp : Checkpoint) (seq : Int) (id : String) :
    checkpointFound byNode newest isPartial cp ≠ some (seq, .noHash id) := by
  intro h
  unfold checkpointFound at h
  split at h
  · split_ifs at h
    simp at h
  · unfold checkpointBreak at h
    simp only at h
    split at h
    · split_ifs at h
      simp at h
    · split_ifs at h <;> simp at h

/-- **`verify_chain` gives this reason** only when an unsealed row is not below the sealed ones. -/
theorem verifyChain_ne_noHash (hcheck : NeverNoHash check) {rows : List AuditRow}
    (hrows : UnsealedBelow rows) (checkpoints : List Checkpoint) (isPartial : Bool) (id : String) :
    (verifyChain check rows checkpoints isPartial).reason ≠ some (.noHash id) := by
  unfold verifyChain
  split_ifs
  · simp
  cases hbreak : chainBreak check rows checkpoints isPartial with
  | none => simp
  | some b =>
    obtain ⟨seq, reason⟩ := b
    simp only [ne_eq, Option.some.injEq]
    rintro rfl
    rcases eq_some_of_foldl_lower _ hbreak with hfirst | hcheckpoint
    · rcases eq_some_of_lower hfirst with hnodes | hdup
      · rcases eq_some_of_foldl_lower _ hnodes with hnone | hnode
        · exact absurd hnone (by simp)
        · obtain ⟨node, -, hnode⟩ := List.mem_map.1 hnode
          obtain ⟨u, hu, r, hr, hus, hrs, hle⟩ := firstBreak_noHash hcheck hnode
          rw [(perm_sortBySeq _).mem_iff] at hu hr
          obtain ⟨humem, hunode, -⟩ := mem_of_keptCopy (mem_values_keptRows.1 hu)
          obtain ⟨hrmem, hrnode, -⟩ := mem_of_keptCopy (mem_values_keptRows.1 hr)
          have := hrows u humem r hrmem (hunode.trans hrnode.symm) hus hrs
          omega
      · exact dup_ne_noHash hcheck rows seq id hdup
    · obtain ⟨cp, -, hcp⟩ := List.mem_map.1 hcheckpoint
      exact checkpointFound_ne_noHash _ _ _ cp seq id hcp

/-! ## Runs of ingests -/

/-- A delivered batch and the `local_node_id` it is ingested with. -/
structure Delivery where
  rows : List AuditRow
  localNodeId : Option String

def ingestStep (check : AuditRow → Option Reason) (store : Store) (d : Delivery) : Store :=
  store.afterIngest check d.rows d.localNodeId

/-- Every stored unsealed row of the node of a sealed batch row that is new is below that row, or in
    its place, or next above it and nothing stored there links to it: in the last two cases the
    stored neighbours keep the row out. -/
def Delivery.AboveUnsealed (store : Store) (d : Delivery) : Prop :=
  ∀ p ∈ d.rows, p.isSealed = true → (∀ x ∈ store.rows, x.id ≠ p.id) → ∀ u ∈ store.rows,
    u.sourceNodeId = p.sourceNodeId → u.isSealed = false → u.monotonicSeq ≤ p.monotonicSeq ∨
      u.monotonicSeq = p.monotonicSeq + 1 ∧ ∀ a ∈ store.rows, a.sourceNodeId = p.sourceNodeId →
        a.monotonicSeq = p.monotonicSeq + 1 → a.prevHash ≠ p.hash

/-- The checks of the neighbours leave only rows above the unsealed ones. -/
theorem Delivery.AboveUnsealed.lt {d : Delivery} (hd : d.AboveUnsealed store) {p u : AuditRow}
    (hp : p ∈ store.toInsert check (rowsBeforeLocal d.localNodeId d.rows)) (hu : u ∈ store.rows)
    (hnode : u.sourceNodeId = p.sourceNodeId) (hus : u.isSealed = false) :
    u.monotonicSeq < p.monotonicSeq := by
  obtain ⟨hkept, -, hnew⟩ := mem_toInsert.1 hp
  have hfree := place_free_of_mem_toInsert hp hu hnode
  rcases hd p (mem_of_rowsBeforeLocal hkept.mem).1 hkept.2 hnew u hu hnode hus with hle | ⟨hseq, hlink⟩
  · omega
  · obtain ⟨-, -, hafter⟩ :=
      Store.neighbourConflict_eq_none_iff.1 (neighbourConflict_of_mem_toInsert hp)
    cases hfound : store.atSeq p.sourceNodeId (p.monotonicSeq + 1) with
    | none => exact absurd hseq (Store.atSeq_eq_none_iff.1 hfound u hu hnode)
    | some a =>
      obtain ⟨ha, hanode, haseq⟩ := Store.mem_of_atSeq hfound
      exact absurd (hafter a hfound) (hlink a ha hanode haseq)

theorem mem_of_unsealed_afterIngest {d : Delivery} {u : AuditRow}
    (hu : u ∈ (ingestStep check store d).rows) (hus : u.isSealed = false) : u ∈ store.rows := by
  rcases mem_of_mem_afterIngest hu with hu | ⟨q, hq, rfl⟩
  · exact hu
  · rw [AuditRow.isSealed_stored, isSealed_of_mem_toInsert hq] at hus
    exact absurd hus (by simp)

/-- **One ingest.** It adds sealed rows only, and those above the unsealed ones. -/
theorem UnsealedBelow.afterIngest (hstore : UnsealedBelow store.rows) {d : Delivery}
    (hd : d.AboveUnsealed store) : UnsealedBelow (ingestStep check store d).rows := by
  intro u hu r hr hnode hus hrs
  have hu := mem_of_unsealed_afterIngest hu hus
  rcases mem_of_mem_afterIngest hr with hr | ⟨p, hp, rfl⟩
  · exact hstore u hu r hr hnode hus hrs
  · have hlt : u.monotonicSeq < p.monotonicSeq := hd.lt hp hu hnode hus
    exact hlt

/-- **Unsealed rows stay below the chain.** In every run of ingests whose new sealed rows are above
    the stored unsealed rows of their node or kept out by one next to them, no node has an unsealed
    row at or above a sealed one, and `verify_chain` over the stored rows does not fail for such a
    row. -/
theorem unsealed_stay_below {H : Sha256} (hstore : UnsealedBelow store.rows)
    (deliveries : List Delivery)
    (hall : Run.AllAlong (ingestStep (rowBreak H)) (fun s d => d.AboveUnsealed s)
      store deliveries) :
    UnsealedBelow (deliveries.foldl (ingestStep (rowBreak H)) store).rows ∧
      ∀ checkpoints isPartial id, (verifyChain (rowBreak H)
        (deliveries.foldl (ingestStep (rowBreak H)) store).rows checkpoints isPartial).reason
          ≠ some (.noHash id) := by
  have hend := Run.invariant_of_step
    (fun (s : Store) d (hs : UnsealedBelow s.rows) hd => hs.afterIngest hd) deliveries store hstore
    hall
  exact ⟨hend, verifyChain_ne_noHash (neverNoHash_rowBreak H) hend⟩

/-- A store with one row of node `edge`, written before the chain existed. -/
def legacyStore (seq : Int) : Store := (Store.empty.insertRowCore (AuditRow.sample "evt-0" seq)).1

theorem legacyStore_rows (seq : Int) :
    (legacyStore seq).rows = [(AuditRow.sample "evt-0" seq).stored] := rfl

theorem unsealedBelow_legacyStore (seq : Int) : UnsealedBelow (legacyStore seq).rows := by
  intro u _ r hr _ _ hrs
  rw [legacyStore_rows, List.mem_singleton] at hr
  have hunsealed : (AuditRow.sample "evt-0" seq).stored.isSealed = false := rfl
  rw [hr, hunsealed] at hrs
  exact absurd hrs (by simp)

/-- The rows of two nodes in two batches, above an unsealed row of one of them. -/
theorem unsealed_stay_below_twoNodes :
    UnsealedBelow (([⟨[hubPair.1, edgePair.1], none⟩, ⟨[edgePair.2, hubPair.2], some "aggregator"⟩] :
      List Delivery).foldl (ingestStep (rowBreak plainDigest)) (legacyStore 0)).rows := by
  have hedge : SealedPair "edge" edgePair := sealedPair_spec "edge" (by decide)
  have hhub : SealedPair "hub" hubPair := sealedPair_spec "hub" (by decide)
  generalize edgePair = p at *
  generalize hubPair = q at *
  have hlegacy : ∀ u ∈ (legacyStore 0).rows, u.monotonicSeq = 0 := by
    intro u hu
    rw [legacyStore_rows, List.mem_singleton] at hu
    rw [hu]
    rfl
  have habove : ∀ {s : Store} {d : Delivery}, (∀ r ∈ d.rows, 1 ≤ r.monotonicSeq) →
      (∀ u ∈ s.rows, u.isSealed = false → u ∈ (legacyStore 0).rows) → d.AboveUnsealed s := by
    intro s d hseqs hs r hr _ _ u hu _ hus
    have := hseqs r hr
    have := hlegacy u (hs u hu hus)
    omega
  refine (unsealed_stay_below (unsealedBelow_legacyStore 0)
    [⟨[q.1, p.1], none⟩, ⟨[p.2, q.2], some "aggregator"⟩] ⟨habove ?_ fun u hu _ => hu,
    habove ?_ fun u hu hus => mem_of_unsealed_afterIngest hu hus, trivial⟩).1
  · simp [hedge.seqs, hhub.seqs]
  · simp [hedge.seqs, hhub.seqs]

/-- A stored unsealed row that is not next to an incoming one is not looked at. -/
theorem agrees_legacyStore {row : AuditRow} {seq : Int} (hid : row.id ≠ "evt-0")
    (hseq : row.monotonicSeq + 1 < seq) : Agrees (legacyStore seq) row := by
  have hrows : ∀ x ∈ (legacyStore seq).rows, x.id = "evt-0" ∧ x.monotonicSeq = seq := by
    intro x hx
    rw [legacyStore_rows, List.mem_singleton] at hx
    rw [hx]
    exact ⟨rfl, rfl⟩
  have hfree : ∀ s < seq, (legacyStore seq).atSeq row.sourceNodeId s = none := by
    intro s hlt
    rw [Store.atSeq_eq_none_iff]
    intro x hx _ hxseq
    have := (hrows x hx).2
    omega
  refine ⟨fun x hx hxid => absurd (hxid.symm.trans (hrows x hx).1) hid, fun _ => ?_⟩
  rw [Store.neighbourConflict_eq_none_iff, hfree _ (by omega), hfree _ (by omega),
    hfree _ (by omega)]
  exact ⟨rfl, by simp, by simp⟩

/-- The first row of a chain is accepted below an unsealed row at seq 5. -/
theorem unsealed_left_above :
    ¬∀ (H : Sha256) (store : Store), UnsealedBelow store.rows → ∀ deliveries : List Delivery,
      UnsealedBelow (deliveries.foldl (ingestStep (rowBreak H)) store).rows := by
  intro h
  have hrow : rowBreak plainDigest (firstRow "1") = none := rowBreak_sealRow _ _ _
  have hsealed : (firstRow "1").isSealed = true := sealRow_isSealed _ _ _
  have hnode : (firstRow "1").sourceNodeId = "edge" := rfl
  have hseq : (firstRow "1").monotonicSeq = 1 := rfl
  have hid : (firstRow "1").id ≠ "evt-0" := by
    rw [show (firstRow "1").id = "evt-1" from rfl]
    decide
  have hinside := inside_firstRow "1"
  generalize firstRow "1" = row at *
  have hfits : (legacyStore 5).fits (rowBreak plainDigest) [row] = true :=
    fits_of_inside (by simpa using hinside)
  have hafter := h plainDigest (legacyStore 5) (unsealedBelow_legacyStore 5) [⟨[row], none⟩]
  rw [List.foldl_cons, List.foldl_nil, ingestStep] at hafter
  have hold : (AuditRow.sample "evt-0" 5).stored ∈ (legacyStore 5).rows := by
    rw [legacyStore_rows]
    exact List.mem_singleton.2 rfl
  have hinsert : row ∈ (legacyStore 5).toInsert (rowBreak plainDigest) [row] := by
    refine mem_toInsert_singleton hsealed hrow (agrees_legacyStore hid (by omega)) ?_
    intro x hx
    rw [legacyStore_rows, List.mem_singleton] at hx
    rw [hx]
    exact hid.symm
  have hmem := fun {x} => @mem_afterIngest _ _ [row] none x hfits
  have hlt := hafter _ (hmem.2 (Or.inl hold)) row.stored (hmem.2 (Or.inr ⟨row, hinsert, rfl⟩))
    hnode.symm rfl hsealed
  have hlow : row.stored.monotonicSeq = 1 := hseq
  have hhigh : (AuditRow.sample "evt-0" 5).stored.monotonicSeq = 5 := rfl
  omega

end Fasten
