import Fasten.Verify.Dedupe

set_option autoImplicit false

/-! # Rows against checkpoints

What a checkpoint is compared with are the kept rows of its node. `IndexOf` says what an index of
them holds, in whatever order it was built. -/

namespace Fasten

open Scan

/-! ## The index of a node's rows -/

/-- The index holds these rows. -/
structure IndexOf (rows : Set AuditRow) (index : NodeIndex) : Prop where
  mem_bySeq : ∀ seq r, r ∈ (Dict.get? index.bySeq seq).getD [] ↔ r ∈ rows ∧ r.monotonicSeq = seq
  lowest_mem : ∃ r ∈ rows, r.monotonicSeq = index.lowest
  lowest_le : ∀ r ∈ rows, index.lowest ≤ r.monotonicSeq
  highest_mem : ∃ r ∈ rows, r.monotonicSeq = index.highest
  le_highest : ∀ r ∈ rows, r.monotonicSeq ≤ index.highest

theorem IndexOf.lowest_eq {rows : Set AuditRow} {index index' : NodeIndex}
    (h : IndexOf rows index) (h' : IndexOf rows index') : index.lowest = index'.lowest := by
  obtain ⟨r, hr, hseq⟩ := h.lowest_mem
  obtain ⟨r', hr', hseq'⟩ := h'.lowest_mem
  have := h.lowest_le r' hr'
  have := h'.lowest_le r hr
  omega

theorem IndexOf.highest_eq {rows : Set AuditRow} {index index' : NodeIndex}
    (h : IndexOf rows index) (h' : IndexOf rows index') : index.highest = index'.highest := by
  obtain ⟨r, hr, hseq⟩ := h.highest_mem
  obtain ⟨r', hr', hseq'⟩ := h'.highest_mem
  have := h.le_highest r' hr'
  have := h'.le_highest r hr
  omega

/-- One row more under its seq. -/
def addBySeq (index : List (Int × List AuditRow)) (row : AuditRow) : List (Int × List AuditRow) :=
  Dict.set index row.monotonicSeq ((Dict.get? index row.monotonicSeq).getD [] ++ [row])

theorem mem_addBySeq {index : List (Int × List AuditRow)} {row r : AuditRow} {seq : Int} :
    r ∈ (Dict.get? (addBySeq index row) seq).getD []
      ↔ r ∈ (Dict.get? index seq).getD [] ∨ r = row ∧ row.monotonicSeq = seq := by
  rw [addBySeq, Dict.get?_set]
  split_ifs with hseq
  · rw [hseq]
    simp
  · simp [hseq]

theorem nodeIndex_eq (rows : List AuditRow) :
    nodeIndex rows =
      match (Dict.keys (rows.foldl addBySeq [])).min?, (Dict.keys (rows.foldl addBySeq [])).max? with
      | some lowest, some highest => some ⟨rows.foldl addBySeq [], lowest, highest⟩
      | _, _ => none := rfl

theorem mem_foldl_addBySeq {rows : List AuditRow} {r : AuditRow} {seq : Int} :
    r ∈ (Dict.get? (rows.foldl addBySeq []) seq).getD [] ↔ r ∈ rows ∧ r.monotonicSeq = seq := by
  induction rows using List.reverseRecOn with
  | nil => simp
  | append_singleton rows row ih =>
    rw [List.foldl_append, List.foldl_cons, List.foldl_nil, mem_addBySeq, ih]
    simp only [List.mem_append, List.mem_singleton]
    constructor
    · rintro (⟨hr, hseq⟩ | ⟨rfl, hseq⟩)
      · exact ⟨Or.inl hr, hseq⟩
      · exact ⟨Or.inr rfl, hseq⟩
    · rintro ⟨hr | rfl, hseq⟩
      · exact Or.inl ⟨hr, hseq⟩
      · exact Or.inr ⟨rfl, hseq⟩

theorem mem_keys_foldl_addBySeq {rows : List AuditRow} {seq : Int} :
    seq ∈ Dict.keys (rows.foldl addBySeq []) ↔ ∃ r ∈ rows, r.monotonicSeq = seq := by
  induction rows using List.reverseRecOn with
  | nil => simp [Dict.keys]
  | append_singleton rows row ih =>
    rw [List.foldl_append, List.foldl_cons, List.foldl_nil, addBySeq, Dict.mem_keys_set, ih]
    simp only [List.mem_append, List.mem_singleton]
    constructor
    · rintro (rfl | ⟨r, hr, hseq⟩)
      · exact ⟨row, Or.inr rfl, rfl⟩
      · exact ⟨r, Or.inl hr, hseq⟩
    · rintro ⟨r, hr | rfl, hseq⟩
      · exact Or.inr ⟨r, hr, hseq⟩
      · exact Or.inl hseq.symm

/-- **The index of `_NodeIndex` holds the rows it was built from.** -/
theorem indexOf_nodeIndex {rows : List AuditRow} {index : NodeIndex}
    (h : nodeIndex rows = some index) : IndexOf {r | r ∈ rows} index := by
  rw [nodeIndex_eq] at h
  split at h
  · rename_i lowest highest hmin hmax
    obtain ⟨rfl⟩ := Option.some.inj h
    obtain ⟨hminmem, hminle⟩ := List.min?_eq_some_iff.1 hmin
    obtain ⟨hmaxmem, hmaxle⟩ := List.max?_eq_some_iff.1 hmax
    refine ⟨fun seq r => mem_foldl_addBySeq, mem_keys_foldl_addBySeq.1 hminmem, fun r hr => ?_,
      mem_keys_foldl_addBySeq.1 hmaxmem, fun r hr => ?_⟩
    · exact hminle _ (mem_keys_foldl_addBySeq.2 ⟨r, hr, rfl⟩)
    · exact hmaxle _ (mem_keys_foldl_addBySeq.2 ⟨r, hr, rfl⟩)
  · exact absurd h (by simp)

theorem nodeIndex_eq_none_iff {rows : List AuditRow} : nodeIndex rows = none ↔ rows = [] := by
  constructor
  · intro h
    rw [List.eq_nil_iff_forall_not_mem]
    intro r hr
    have hkey := mem_keys_foldl_addBySeq.2 ⟨r, hr, rfl⟩
    have hne : Dict.keys (rows.foldl addBySeq []) ≠ [] := List.ne_nil_of_mem hkey
    rw [nodeIndex_eq] at h
    cases hmin : (Dict.keys (rows.foldl addBySeq [])).min? with
    | none => exact hne (List.min?_eq_none_iff.1 hmin)
    | some lowest =>
      cases hmax : (Dict.keys (rows.foldl addBySeq [])).max? with
      | none => exact hne (List.max?_eq_none_iff.1 hmax)
      | some highest => simp [hmin, hmax] at h
  · rintro rfl
    rfl

/-! ## The newest checkpoint of a node -/

theorem newestCheckpoints_append (checkpoints : List Checkpoint) (cp : Checkpoint) :
    newestCheckpoints (checkpoints ++ [cp]) =
      Dict.set (newestCheckpoints checkpoints) cp.sourceNodeId (max cp.monotonicSeq
        ((Dict.get? (newestCheckpoints checkpoints) cp.sourceNodeId).getD cp.monotonicSeq)) := by
  simp [newestCheckpoints]

theorem le_newestCheckpoints {checkpoints : List Checkpoint} {cp : Checkpoint}
    (h : cp ∈ checkpoints) :
    ∃ seq, Dict.get? (newestCheckpoints checkpoints) cp.sourceNodeId = some seq
      ∧ cp.monotonicSeq ≤ seq := by
  induction checkpoints using List.reverseRecOn with
  | nil => exact absurd h List.not_mem_nil
  | append_singleton checkpoints last ih =>
    rw [newestCheckpoints_append, Dict.get?_set]
    rcases List.mem_append.1 h with h | h
    · obtain ⟨seq, hget, hle⟩ := ih h
      split_ifs with hnode
      · rw [hnode, hget]
        exact ⟨_, rfl, hle.trans (le_max_right _ _)⟩
      · exact ⟨seq, hget, hle⟩
    · rw [List.mem_singleton.1 h, if_pos rfl]
      exact ⟨_, rfl, le_max_left _ _⟩

theorem exists_newestCheckpoint {checkpoints : List Checkpoint} {node : String} {seq : Int}
    (h : Dict.get? (newestCheckpoints checkpoints) node = some seq) :
    ∃ cp ∈ checkpoints, cp.sourceNodeId = node ∧ cp.monotonicSeq = seq := by
  induction checkpoints using List.reverseRecOn generalizing seq with
  | nil => simp [newestCheckpoints] at h
  | append_singleton checkpoints last ih =>
    have hold : ∀ {s}, Dict.get? (newestCheckpoints checkpoints) node = some s →
        ∃ cp ∈ checkpoints ++ [last], cp.sourceNodeId = node ∧ cp.monotonicSeq = s := by
      intro s hs
      obtain ⟨cp, hcp, hcps⟩ := ih hs
      exact ⟨cp, List.mem_append_left _ hcp, hcps⟩
    rw [newestCheckpoints_append, Dict.get?_set] at h
    split_ifs at h with hnode
    · rw [Option.some.injEq, hnode] at h
      cases hget : Dict.get? (newestCheckpoints checkpoints) node with
      | none => exact ⟨last, by simp, hnode, by simpa [hget] using h⟩
      | some s =>
        rw [hget, Option.getD_some] at h
        rcases max_choice last.monotonicSeq s with hmax | hmax
        · exact ⟨last, by simp, hnode, by rw [← h, hmax]⟩
        · rw [← h, hmax]
          exact hold hget
    · exact hold h

/-! ## What a checkpoint finds -/

/-- The kept rows of a node. -/
def keptSet (rows : List AuditRow) (node : String) : Set AuditRow :=
  {r | keptCopy rows node r.id = some r}

theorem setOf_values_keptRows (check : AuditRow → Option Reason) (rows : List AuditRow)
    (node : String) :
    {r | r ∈ Dict.values ((dedupe check rows).keptRows node)} = keptSet rows node := by
  ext r
  exact mem_values_keptRows

/-- The index a checkpoint is compared with, if its node has rows. -/
theorem checkpointFound_cases (check : AuditRow → Option Reason) (rows : List AuditRow)
    (newest : List (String × Int)) (isPartial : Bool) (cp : Checkpoint) :
    (keptSet rows cp.sourceNodeId = ∅ ∧
      checkpointFound (dedupe check rows).byNode newest isPartial cp
        = if isPartial = false ∧ Dict.get? newest cp.sourceNodeId = some cp.monotonicSeq then
            some (cp.monotonicSeq, .noRows cp.sourceNodeId cp.monotonicSeq)
          else none) ∨
    ∃ index, IndexOf (keptSet rows cp.sourceNodeId) index ∧
      checkpointFound (dedupe check rows).byNode newest isPartial cp
        = checkpointBreak index cp isPartial := by
  have hset := setOf_values_keptRows check rows cp.sourceNodeId
  unfold checkpointFound
  unfold Deduped.keptRows at hset
  cases hindex : nodeIndex
      (Dict.values ((Dict.get? (dedupe check rows).byNode cp.sourceNodeId).getD [])) with
  | none =>
    rw [nodeIndex_eq_none_iff] at hindex
    refine Or.inl ⟨?_, rfl⟩
    rw [← hset, hindex]
    simp
  | some index =>
    refine Or.inr ⟨index, ?_, rfl⟩
    rw [← hset]
    exact indexOf_nodeIndex hindex

end Fasten
