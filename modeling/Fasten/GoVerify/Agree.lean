import Fasten.GoVerify.Walk
import Fasten.RowHash.Seal
import Fasten.Verify.Checkpoints

set_option autoImplicit false

/-! # The Go and the Python verifier agree

Both verifiers report nothing below a seq under the same conditions, so they report the same first
break. The check of a single row may differ between the two, as long as its verdicts do not. -/

namespace Fasten.Go

open Scan

/-! ## Checkpoints -/

theorem newestCheckpoints_append (checkpoints : List Checkpoint) (cp : Checkpoint) :
    newestCheckpoints (checkpoints ++ [cp]) =
      if ∃ seq ∈ Dict.get? (newestCheckpoints checkpoints) cp.sourceNodeId, cp.monotonicSeq ≤ seq
      then newestCheckpoints checkpoints
      else Dict.set (newestCheckpoints checkpoints) cp.sourceNodeId cp.monotonicSeq := by
  simp [newestCheckpoints]

theorem get?_newestCheckpoints (checkpoints : List Checkpoint) (node : String) :
    Dict.get? (newestCheckpoints checkpoints) node
      = Dict.get? (Fasten.newestCheckpoints checkpoints) node := by
  induction checkpoints using List.reverseRecOn generalizing node with
  | nil => rfl
  | append_singleton checkpoints cp ih =>
    rw [newestCheckpoints_append, Fasten.newestCheckpoints_append, Dict.get?_set, ← ih]
    cases hget : Dict.get? (newestCheckpoints checkpoints) cp.sourceNodeId with
    | none => simp [Dict.get?_set, ← ih]
    | some seq =>
      by_cases hle : cp.monotonicSeq ≤ seq
      · rw [if_pos ⟨seq, rfl, hle⟩]
        split_ifs with hnode
        · rw [← hnode, hget, Option.getD_some, max_eq_right hle]
        · exact ih node
      · rw [if_neg (by simpa using hle), Dict.get?_set, ih]
        rw [Option.getD_some, max_eq_left (by omega)]

theorem indexOf_addRow_none (row : AuditRow) : IndexOf {r | r = row} (addRow none row) where
  mem_bySeq seq r := by
    refine mem_addBySeq.trans ?_
    rw [Set.mem_ofPred_eq]
    constructor
    · rintro (h | ⟨rfl, hseq⟩)
      · exact absurd h (by simp)
      · exact ⟨rfl, hseq⟩
    · rintro ⟨rfl, hseq⟩
      exact Or.inr ⟨rfl, hseq⟩
  lowest_mem := ⟨row, rfl, by simp [addRow]⟩
  lowest_le r hr := by
    rw [show r = row from hr]
    simp [addRow]
  highest_mem := ⟨row, rfl, by simp [addRow]⟩
  le_highest r hr := by
    rw [show r = row from hr]
    simp [addRow]

theorem indexOf_addRow {rows : Set AuditRow} {n : NodeIndex} (h : IndexOf rows n)
    (row : AuditRow) : IndexOf {r | r ∈ rows ∨ r = row} (addRow (some n) row) where
  mem_bySeq seq r := by
    refine mem_addBySeq.trans ?_
    rw [Option.getD_some, h.mem_bySeq, Set.mem_ofPred_eq]
    constructor
    · rintro (⟨hr, hseq⟩ | ⟨rfl, hseq⟩)
      · exact ⟨Or.inl hr, hseq⟩
      · exact ⟨Or.inr rfl, hseq⟩
    · rintro ⟨hr | rfl, hseq⟩
      · exact Or.inl ⟨hr, hseq⟩
      · exact Or.inr ⟨rfl, hseq⟩
  lowest_mem := by
    obtain ⟨low, hlow, hseq⟩ := h.lowest_mem
    rcases min_choice n.lowest row.monotonicSeq with hmin | hmin
    · exact ⟨low, Or.inl hlow, hseq.trans hmin.symm⟩
    · exact ⟨row, Or.inr rfl, hmin.symm⟩
  lowest_le r hr := by
    show min n.lowest row.monotonicSeq ≤ _
    rcases hr with hr | rfl
    · exact (min_le_left _ _).trans (h.lowest_le r hr)
    · exact min_le_right _ _
  highest_mem := by
    obtain ⟨high, hhigh, hseq⟩ := h.highest_mem
    rcases max_choice n.highest row.monotonicSeq with hmax | hmax
    · exact ⟨high, Or.inl hhigh, hseq.trans hmax.symm⟩
    · exact ⟨row, Or.inr rfl, hmax.symm⟩
  le_highest r hr := by
    show _ ≤ max n.highest row.monotonicSeq
    rcases hr with hr | rfl
    · exact (h.le_highest r hr).trans (le_max_left _ _)
    · exact le_max_right _ _

/-- What a checkpointed node's index is. -/
def Indexed (rows : Set AuditRow) : Option NodeIndex → Prop
  | none => rows = ∅
  | some n => IndexOf rows n

theorem Indexed.addRow {rows : Set AuditRow} {index : Option NodeIndex} (h : Indexed rows index)
    (row : AuditRow) : Indexed {r | r ∈ rows ∨ r = row} (some (addRow index row)) := by
  cases index with
  | none =>
    rw [show rows = ∅ from h]
    simpa [Indexed] using indexOf_addRow_none row
  | some n => exact indexOf_addRow h row

theorem indexRows_append (newest : List (String × Int)) (rows : List AuditRow) (row : AuditRow) :
    indexRows newest (rows ++ [row]) =
      if Dict.get? newest row.sourceNodeId = none then indexRows newest rows
      else Dict.set (indexRows newest rows) row.sourceNodeId
        (addRow (Dict.get? (indexRows newest rows) row.sourceNodeId) row) := by
  simp [indexRows]

theorem indexed_indexRows {newest : List (String × Int)} (rows : List AuditRow) {node : String}
    (hnode : Dict.get? newest node ≠ none) :
    Indexed {r | r ∈ rows ∧ r.sourceNodeId = node} (Dict.get? (indexRows newest rows) node) := by
  induction rows using List.reverseRecOn with
  | nil => simp [indexRows, Indexed]
  | append_singleton rows row ih =>
    have hother : row.sourceNodeId ≠ node →
        {r | r ∈ rows ++ [row] ∧ r.sourceNodeId = node}
          = {r | r ∈ rows ∧ r.sourceNodeId = node} := by
      intro hne
      ext r
      simp only [Set.mem_ofPred_eq, List.mem_append, List.mem_singleton, or_and_right,
        or_iff_left_iff_imp]
      rintro ⟨rfl, hr⟩
      exact absurd hr hne
    rw [indexRows_append]
    split_ifs with hskip
    · rw [hother (fun h => hnode (h ▸ hskip))]
      exact ih
    · rw [Dict.get?_set]
      split_ifs with hown
      · have hset : {r | r ∈ rows ++ [row] ∧ r.sourceNodeId = node}
            = {r | r ∈ {r | r ∈ rows ∧ r.sourceNodeId = node} ∨ r = row} := by
          ext r
          simp only [Set.mem_ofPred_eq, List.mem_append, List.mem_singleton, or_and_right]
          refine or_congr_right (and_iff_left_of_imp (fun hr => ?_))
          rw [hr]
          exact hown
        rw [hset, hown]
        exact ih.addRow row
      · rw [hother hown]
        exact ih

/-- The same rows give the same verdict on a checkpoint, at the same seq. -/
theorem map_fst_checkpointMismatch {rows : Set AuditRow} {n n' : NodeIndex} (h : IndexOf rows n)
    (h' : IndexOf rows n') (hrange : ∀ r ∈ rows, InInt64 r.monotonicSeq) {cp : Checkpoint}
    (hcp : InInt64 cp.monotonicSeq) (isPartial : Bool) :
    (checkpointMismatch n cp isPartial).map Prod.fst
      = (Fasten.checkpointBreak n' cp isPartial).map Prod.fst := by
  have hany : ((Dict.get? n.bySeq cp.monotonicSeq).getD []).any (fun r => r.hash = cp.hash)
      = ((Dict.get? n'.bySeq cp.monotonicSeq).getD []).any (fun r => r.hash = cp.hash) := by
    rw [Bool.eq_iff_iff, List.any_eq_true, List.any_eq_true]
    refine exists_congr (fun r => ?_)
    rw [h.mem_bySeq, h'.mem_bySeq]
  have hnil : (Dict.get? n.bySeq cp.monotonicSeq).getD [] = []
      ↔ (Dict.get? n'.bySeq cp.monotonicSeq).getD [] = [] := by
    rw [List.eq_nil_iff_forall_not_mem, List.eq_nil_iff_forall_not_mem]
    refine forall_congr' (fun r => ?_)
    rw [h.mem_bySeq, h'.mem_bySeq]
  have hwrap : n.highest < cp.monotonicSeq → wrap (n.highest + 1) = n.highest + 1 := by
    intro hlt
    obtain ⟨r, hr, hseq⟩ := h.highest_mem
    have hlow := (hrange r hr).1
    have hhigh := hcp.2
    rw [hseq] at hlow
    simp only [wrap, Int.bmod_def]
    norm_num at *
    omega
  simp only [checkpointMismatch, Fasten.checkpointBreak, hany, ← h.lowest_eq h', ← h.highest_eq h']
  cases hat : (Dict.get? n.bySeq cp.monotonicSeq).getD [] with
  | nil =>
    rw [hnil.1 hat]
    by_cases hhigh : n.highest < cp.monotonicSeq
    · cases isPartial <;> simp [hhigh, hwrap]
    · by_cases hlow : cp.monotonicSeq < n.lowest <;> cases isPartial <;> simp [hhigh, hlow]
  | cons r rest =>
    cases hat' : (Dict.get? n'.bySeq cp.monotonicSeq).getD [] with
    | nil => exact absurd (hnil.2 hat') (by simp [hat])
    | cons r' rest' =>
      obtain ⟨id, hid⟩ : ∃ id, (((r :: rest).map (·.id)).min?) = some id := by
        simp [List.min?_cons]
      obtain ⟨id', hid'⟩ : ∃ id, (((r' :: rest').map (·.id)).min?) = some id := by
        simp [List.min?_cons]
      simp only [hid, hid']
      split_ifs <;> rfl

/-! ## The whole verification -/

section

variable {goCheck check : AuditRow → Option Reason} {rows : List AuditRow}
  (hnul : ∀ r ∈ rows, NoNul r.sourceNodeId) (hrange : ∀ r ∈ rows, InInt64 r.monotonicSeq)

include hnul

theorem setOf_sliceStable (node : String) :
    {r | r ∈ sliceStable (dedupe goCheck rows).sorted ∧ r.sourceNodeId = node}
      = keptSet rows node := by
  ext r
  rw [Set.mem_ofPred_eq, (perm_sliceStable _).mem_iff, (dedupeInv_dedupe hnul).mem, keptSet,
    Set.mem_ofPred_eq]
  constructor
  · rintro ⟨hr, rfl⟩
    exact hr
  · intro hr
    obtain ⟨-, rfl, -⟩ := mem_of_keptCopy hr
    exact ⟨hr, rfl⟩

include hrange

/-- The walk and the copies accept what Python accepts. -/
theorem noneBelow_rows_iff {c : Int} :
    NoneBelow c (walkChains goCheck (dedupe goCheck rows).sorted)
        ∧ NoneBelow c (dedupe goCheck rows).dup
      ↔ RowsOkBelow goCheck c rows := by
  have hinv : DedupeInv goCheck rows (dedupe goCheck rows) := dedupeInv_dedupe hnul
  have hperm := perm_sliceStable (dedupe goCheck rows).sorted
  have hmem : ∀ r ∈ sliceStable (dedupe goCheck rows).sorted, r ∈ rows := fun r hr =>
    (mem_of_keptCopy ((hinv.mem r).1 (hperm.mem_iff.1 hr))).1
  have hdistinct : (sliceStable (dedupe goCheck rows).sorted).Pairwise
      (fun a b => ¬(a.sourceNodeId = b.sourceNodeId ∧ a.id = b.id)) :=
    (hperm.pairwise_iff (fun h hba => h ⟨hba.1.symm, hba.2.symm⟩)).2 hinv.distinct
  rw [walkChains, noneBelow_walk_iff (pairwise_sliceStable _) hdistinct
    (fun r hr => hrange r (hmem r hr)) (fun r hr => hnul r (hmem r hr)), hinv.dup c,
    rowsOkBelow_iff_dropped]
  refine and_congr_left (fun _ => forall_congr' (fun node => ?_))
  have hset : {r | r ∈ sliceStable (dedupe goCheck rows).sorted ∧ r.sourceNodeId = node
      ∧ r.monotonicSeq < c} = {r | keptCopy rows node r.id = some r ∧ r.monotonicSeq < c} := by
    ext r
    simp only [Set.mem_ofPred_eq, ← and_assoc]
    exact and_congr_left (fun _ => Set.ext_iff.1 (setOf_sliceStable hnul node) r)
  rw [hset]

theorem map_fst_checkpointFound {checkpoints : List Checkpoint} {cp : Checkpoint}
    (hcp : cp ∈ checkpoints) (hseq : InInt64 cp.monotonicSeq) (isPartial : Bool) :
    (checkpointFound (indexRows (newestCheckpoints checkpoints)
        (sliceStable (dedupe goCheck rows).sorted)) (newestCheckpoints checkpoints) isPartial
        cp).map Prod.fst
      = (Fasten.checkpointFound (Fasten.dedupe check rows).byNode
          (Fasten.newestCheckpoints checkpoints) isPartial cp).map Prod.fst := by
  obtain ⟨newest, hnewest, -⟩ := le_newestCheckpoints hcp
  have hindexed := indexed_indexRows (sliceStable (dedupe goCheck rows).sorted)
    (show Dict.get? (newestCheckpoints checkpoints) cp.sourceNodeId ≠ none by
      rw [get?_newestCheckpoints, hnewest]
      simp)
  rw [setOf_sliceStable hnul] at hindexed
  unfold checkpointFound
  rcases checkpointFound_cases check rows (Fasten.newestCheckpoints checkpoints) isPartial cp with
    ⟨hempty, hfound⟩ | ⟨n', hn', hfound⟩
  · rw [hfound, get?_newestCheckpoints]
    cases hindex : Dict.get? (indexRows (newestCheckpoints checkpoints)
        (sliceStable (dedupe goCheck rows).sorted)) cp.sourceNodeId with
    | none => rfl
    | some n =>
      rw [hindex] at hindexed
      obtain ⟨r, hr, -⟩ := IndexOf.lowest_mem hindexed
      rw [hempty] at hr
      exact absurd hr (Set.notMem_empty r)
  · rw [hfound]
    cases hindex : Dict.get? (indexRows (newestCheckpoints checkpoints)
        (sliceStable (dedupe goCheck rows).sorted)) cp.sourceNodeId with
    | none =>
      rw [hindex] at hindexed
      obtain ⟨r, hr, -⟩ := hn'.lowest_mem
      rw [show keptSet rows cp.sourceNodeId = ∅ from hindexed] at hr
      exact absurd hr (Set.notMem_empty r)
    | some n =>
      rw [hindex] at hindexed
      exact map_fst_checkpointMismatch hindexed hn'
        (fun r hr => hrange r (mem_of_keptCopy hr).1) hseq isPartial

/-- Both verifiers report nothing below the same seqs. -/
theorem noneBelow_chainBreak_iff (hcheck : ∀ r ∈ rows, goCheck r = none ↔ check r = none)
    {checkpoints : List Checkpoint} (hseqs : ∀ cp ∈ checkpoints, InInt64 cp.monotonicSeq)
    {isPartial : Bool} {c : Int} :
    NoneBelow c (chainBreak goCheck rows checkpoints isPartial)
      ↔ NoneBelow c (Fasten.chainBreak check rows checkpoints isPartial) := by
  have hrows : RowsOkBelow goCheck c rows ↔ RowsOkBelow check c rows :=
    ⟨fun h => h.of_check (fun r hr => (hcheck r hr).1),
      fun h => h.of_check (fun r hr => (hcheck r hr).2)⟩
  have hcps : NoneBelow c (checkpointBreak (sliceStable (dedupe goCheck rows).sorted) checkpoints
      isPartial) ↔ ∀ cp ∈ checkpoints, NoneBelow c (Fasten.checkpointFound
        (Fasten.dedupe check rows).byNode (Fasten.newestCheckpoints checkpoints) isPartial cp) := by
    unfold checkpointBreak
    split_ifs with hnil
    · simp [hnil]
    · simp only [noneBelow_foldl_lower, noneBelow_none, true_and, List.mem_map, sortCheckpoints,
        List.mem_insertionSort, forall_exists_index, and_imp, forall_apply_eq_imp_iff₂]
      exact forall₂_congr (fun cp hcp => noneBelow_congr
        (map_fst_checkpointFound hnul hrange hcp (hseqs cp hcp) isPartial))
  rw [Fasten.noneBelow_chainBreak_iff, ← hrows, ← hcps, ← noneBelow_rows_iff hnul hrange]
  simp only [chainBreak, noneBelow_lower]

/-- **The Go and the Python verifier agree**, on any rows without a NUL in a node, any checkpoints
    and both values of `partial`, when the row checks of the two have the same verdicts. Go reports
    0 for no break. -/
theorem verifyChainWithCheckpoints_agree
    (hcheck : ∀ r ∈ rows, goCheck r = none ↔ check r = none) (checkpoints : List Checkpoint)
    (hseqs : ∀ cp ∈ checkpoints, InInt64 cp.monotonicSeq) (isPartial : Bool) :
    (verifyChainWithCheckpoints goCheck rows checkpoints isPartial).ok
        = (verifyChain check rows checkpoints isPartial).ok ∧
      (verifyChainWithCheckpoints goCheck rows checkpoints isPartial).firstBreakAt
        = (verifyChain check rows checkpoints isPartial).firstBreakAt.getD 0 := by
  have hkeys : (chainBreak goCheck rows checkpoints isPartial).map Prod.fst
      = (Fasten.chainBreak check rows checkpoints isPartial).map Prod.fst :=
    map_fst_eq_of_noneBelow_iff (fun _ => noneBelow_chainBreak_iff hnul hrange hcheck hseqs)
  unfold verifyChainWithCheckpoints verifyChain
  split_ifs with hempty
  · exact ⟨rfl, rfl⟩
  · cases hgo : chainBreak goCheck rows checkpoints isPartial with
    | none =>
      cases hpy : Fasten.chainBreak check rows checkpoints isPartial with
      | none => exact ⟨rfl, rfl⟩
      | some b => simp [hgo, hpy] at hkeys
    | some b =>
      cases hpy : Fasten.chainBreak check rows checkpoints isPartial with
      | none => simp [hgo, hpy] at hkeys
      | some b' =>
        rw [hgo, hpy] at hkeys
        exact ⟨rfl, Option.some.inj hkeys⟩

end

theorem verifyChainWithCheckpoints_agree_cutTail : ∃ p : AuditRow × AuditRow,
    SealedPair "edge" p ∧
      (verifyChainWithCheckpoints (rowBreak plainDigest) [p.1, p.2] [⟨"edge", 7, "00", ""⟩] false).ok
        = (verifyChain (rowBreak plainDigest) [p.1, p.2] [⟨"edge", 7, "00", ""⟩] false).ok ∧
      (verifyChainWithCheckpoints (rowBreak plainDigest) [p.1, p.2] [⟨"edge", 7, "00", ""⟩]
          false).firstBreakAt
        = (verifyChain (rowBreak plainDigest) [p.1, p.2] [⟨"edge", 7, "00", ""⟩]
          false).firstBreakAt.getD 0 := by
  -- the node's rows end before its checkpoint
  have hpair := sealedPair_spec "edge" (by decide)
  refine ⟨_, hpair, verifyChainWithCheckpoints_agree ?_ ?_ (fun _ _ => Iff.rfl) _
    (by simp [InInt64]) false⟩
  · simp [hpair.nodes, NoNul]
  · simp [hpair.seqs, InInt64]

end Fasten.Go
