import Fasten.GoVerify.Dedupe

set_option autoImplicit false

/-! # The walk of the Go verifier

`walkChains` walks the rows of all nodes at once. A row is compared only with rows of its own node,
so the walk passes exactly when the walk of every node's rows does, and `NodeOk` says when that
is. -/

namespace Fasten.Go

open Scan

variable {check : AuditRow → Option Reason}

/-! ## The walk as a scan -/

/-- What the walk finds at a row, given the rows before it, the nearest first. -/
def rowFail (check : AuditRow → Option Reason) (first : List (String × Int))
    (before : List AuditRow) (row : AuditRow) : Option Break :=
  let seen := (before.find? (fun r => r.isSealed && (r.sourceNodeId == row.sourceNodeId
    && r.monotonicSeq == row.monotonicSeq))).map (·.id)
  if row.isSealed = false then
    if ∃ seq ∈ Dict.get? first row.sourceNodeId, seq ≤ row.monotonicSeq then
      some (row.monotonicSeq, .noHash row.id)
    else none
  else if seen.getD row.id ≠ row.id then
    some (row.monotonicSeq, .duplicateSeq row.monotonicSeq row.sourceNodeId (seen.getD row.id)
      row.id)
  else
    match check row with
    | some reason => some (row.monotonicSeq, reason)
    | none =>
      (linkBreak (before.find? (fun r => r.sourceNodeId == row.sourceNodeId)) row).map
        (fun reason => (row.monotonicSeq, reason))

/-- The key of a node and a seq. -/
theorem seqKey_inj {node node' : String} {seq seq' : Int} (hnode : NoNul node)
    (hnode' : NoNul node') (h : nodeKey node (String.ofList (intText seq))
      = nodeKey node' (String.ofList (intText seq'))) : node = node' ∧ seq = seq' := by
  obtain ⟨hn, htext⟩ := nodeKey_inj hnode hnode' h
  exact ⟨hn, intText_inj (String.ofList_injective htext)⟩

variable {first : List (String × Int)} {before : List AuditRow} {row : AuditRow}

/-- `last` and `seenSeq` hold what a search of the rows before would find. -/
theorem walk_eq_firstFail (rows : List AuditRow) (hnul : ∀ r ∈ rows, NoNul r.sourceNodeId)
    (last : List (String × AuditRow)) (seenSeq : List (String × String)) (before : List AuditRow)
    (hlast : ∀ node, Dict.get? last node = before.find? (fun r => r.sourceNodeId == node))
    (hseen : ∀ node seq, NoNul node →
      Dict.get? seenSeq (nodeKey node (String.ofList (intText seq)))
        = (before.find? (fun r => r.isSealed && (r.sourceNodeId == node
            && r.monotonicSeq == seq))).map (·.id)) :
    walk check first last seenSeq rows = firstFail (rowFail check first) before rows := by
  induction rows generalizing last seenSeq before with
  | nil => rfl
  | cons row rest ih =>
    have hrow : NoNul row.sourceNodeId := hnul row List.mem_cons_self
    have hrest : ∀ r ∈ rest, NoNul r.sourceNodeId := fun r hr => hnul r (by simp [hr])
    have hlast' : ∀ node, Dict.get? (Dict.set last row.sourceNodeId row) node
        = (row :: before).find? (fun r => r.sourceNodeId == node) := by
      intro node
      rw [Dict.get?_set]
      by_cases hnode : row.sourceNodeId = node
      · rw [if_pos hnode, List.find?_cons_of_pos (by simp [hnode])]
      · rw [if_neg hnode, List.find?_cons_of_neg (by simp [hnode]), hlast]
    simp only [walk, firstFail, rowFail, hlast, hseen _ _ hrow, ← AuditRow.isSealed_eq_false_iff]
    cases hs : row.isSealed with
    | false =>
      simp only [if_true]
      split_ifs with hfirst
      · rfl
      · refine ih hrest _ seenSeq (row :: before) hlast' (fun node seq hnode => ?_)
        rw [hseen node seq hnode, List.find?_cons_of_neg (by simp [hs])]
    | true =>
      simp only [Bool.true_eq_false, if_false]
      split_ifs with hdup
      · rfl
      · cases hcheck : check row with
        | some reason => rfl
        | none =>
          cases hlink : linkBreak
              (before.find? (fun r => r.sourceNodeId == row.sourceNodeId)) row with
          | some reason => rfl
          | none =>
            refine ih hrest _ _ (row :: before) hlast' (fun node seq hnode => ?_)
            rw [Dict.get?_set]
            by_cases hkey : row.sourceNodeId = node ∧ row.monotonicSeq = seq
            · rw [if_pos (by rw [hkey.1, hkey.2]),
                List.find?_cons_of_pos (by simp [hs, hkey])]
              rfl
            · rw [if_neg (fun h => hkey (seqKey_inj hrow hnode h)),
                List.find?_cons_of_neg (by simpa [hs] using hkey), hseen node seq hnode]

theorem rowFail_key {b : Break} (h : rowFail check first before row = some b) :
    b.1 = row.monotonicSeq := by
  simp only [rowFail] at h
  split_ifs at h
  · exact (Option.some.inj h) ▸ rfl
  · exact (Option.some.inj h) ▸ rfl
  · cases hcheck : check row with
    | some reason =>
      simp only [hcheck, Option.some.injEq] at h
      exact h ▸ rfl
    | none =>
      simp only [hcheck, Option.map_eq_some_iff] at h
      obtain ⟨reason, -, rfl⟩ := h
      rfl

/-- A row is compared with rows of its own node. -/
theorem rowFail_filter (first : List (String × Int)) (before : List AuditRow) (row : AuditRow) :
    rowFail check first before row = rowFail check first
      (before.filter (fun q => q.sourceNodeId = row.sourceNodeId)) row := by
  have hseen : (before.filter (fun q => q.sourceNodeId = row.sourceNodeId)).find?
        (fun r => r.isSealed && (r.sourceNodeId == row.sourceNodeId
          && r.monotonicSeq == row.monotonicSeq))
      = before.find? (fun r => r.isSealed && (r.sourceNodeId == row.sourceNodeId
          && r.monotonicSeq == row.monotonicSeq)) := by
    rw [List.find?_filter]
    refine List.find?_congr (fun r _ => Bool.eq_iff_iff.2 ?_)
    simp only [Bool.and_eq_true, decide_eq_true_eq, beq_iff_eq]
    tauto
  have hlast : (before.filter (fun q => q.sourceNodeId = row.sourceNodeId)).find?
        (fun r => r.sourceNodeId == row.sourceNodeId)
      = before.find? (fun r => r.sourceNodeId == row.sourceNodeId) := by
    rw [List.find?_filter]
    refine List.find?_congr (fun r _ => Bool.eq_iff_iff.2 ?_)
    simp only [decide_eq_true_eq, beq_iff_eq]
    tauto
  simp only [rowFail, hseen, hlast]

/-! ## The order of the walk -/

theorem less_eq_false_iff {a b : AuditRow} :
    less b a = false ↔ a.monotonicSeq < b.monotonicSeq
      ∨ a.monotonicSeq = b.monotonicSeq ∧ a.sourceNodeId ≤ b.sourceNodeId := by
  unfold less
  split_ifs with hne
  · rw [decide_eq_false_iff_not]
    omega
  · rw [decide_eq_false_iff_not, not_lt]
    exact ⟨fun h => Or.inr ⟨(not_not.1 hne).symm, h⟩, fun h => h.elim (by omega) And.right⟩

theorem pairwise_sliceStable (rows : List AuditRow) :
    (sliceStable rows).Pairwise (fun a b => a.monotonicSeq ≤ b.monotonicSeq) :=
  pairwise_insertionSort_lex AuditRow.monotonicSeq AuditRow.sourceNodeId
    (fun _ _ => less_eq_false_iff) rows

theorem perm_sliceStable (rows : List AuditRow) : (sliceStable rows).Perm rows :=
  List.perm_insertionSort _ _

theorem firstSealed_append (rows : List AuditRow) (row : AuditRow) :
    firstSealed (rows ++ [row]) =
      if row.isSealed = true ∧ Dict.get? (firstSealed rows) row.sourceNodeId = none then
        Dict.set (firstSealed rows) row.sourceNodeId row.monotonicSeq
      else firstSealed rows := by
  simp [firstSealed, AuditRow.isSealed_iff]

theorem get?_firstSealed (rows : List AuditRow) (node : String) :
    Dict.get? (firstSealed rows) node
      = (rows.find? (fun r => r.isSealed && r.sourceNodeId == node)).map (·.monotonicSeq) := by
  induction rows using List.reverseRecOn with
  | nil => rfl
  | append_singleton rows row ih =>
    rw [firstSealed_append, List.find?_append, Option.map_or, ← ih]
    split_ifs with hset
    · rw [Dict.get?_set]
      by_cases hnode : row.sourceNodeId = node
      · subst hnode
        rw [if_pos rfl, hset.2]
        simp [hset.1]
      · rw [if_neg hnode]
        simp [hnode]
    · by_cases hown : row.isSealed = true ∧ row.sourceNodeId = node
      · obtain ⟨hs, rfl⟩ := hown
        cases hget : Dict.get? (firstSealed rows) row.sourceNodeId with
        | none => exact absurd ⟨hs, hget⟩ hset
        | some seq => rfl
      · rw [List.find?_cons_of_neg (by simpa using hown)]
        simp

/-- A sealed row of the node is at or below the seq. -/
theorem exists_firstSealed_le {rows : List AuditRow}
    (hsorted : rows.Pairwise (fun a b => a.monotonicSeq ≤ b.monotonicSeq)) {node : String}
    {s : Int} :
    (∃ seq ∈ Dict.get? (firstSealed rows) node, seq ≤ s) ↔
      ∃ r ∈ rows, r.sourceNodeId = node ∧ r.isSealed = true ∧ r.monotonicSeq ≤ s := by
  rw [get?_firstSealed]
  constructor
  · rintro ⟨seq, hseq, hle⟩
    obtain ⟨r, hr, rfl⟩ := Option.map_eq_some_iff.1 hseq
    have hp := List.find?_some hr
    simp only [Bool.and_eq_true, beq_iff_eq] at hp
    exact ⟨r, List.mem_of_find?_eq_some hr, hp.2, hp.1, hle⟩
  · rintro ⟨r, hr, rfl, hs, hle⟩
    cases hfind : rows.find? (fun q => q.isSealed && q.sourceNodeId == r.sourceNodeId) with
    | none => simpa [hs] using List.find?_eq_none.1 hfind r hr
    | some q =>
      refine ⟨q.monotonicSeq, rfl, ?_⟩
      -- `q` is the first such row, so `r` is not before it
      obtain ⟨-, pre, post, rfl, hpre⟩ := List.find?_eq_some_iff_append.1 hfind
      rcases List.mem_append.1 hr with hmem | hmem
      · simpa [hs] using hpre r hmem
      · rcases List.mem_cons.1 hmem with rfl | hmem
        · exact hle
        · have := (List.pairwise_cons.1 (List.pairwise_append.1 hsorted).2.1).1 r hmem
          omega

/-! ## One node's rows -/

theorem wrap_eq_iff {prev row : Int} (hprev : InInt64 prev) (hrow : InInt64 row)
    (hle : prev ≤ row) : prev = wrap (row - 1) ↔ prev = row - 1 := by
  simp only [InInt64, wrap, Int.bmod_def] at *
  norm_num at *
  omega

theorem linkBreak_eq {prev : AuditRow} (hprev : InInt64 prev.monotonicSeq)
    (hrow : InInt64 row.monotonicSeq) (hle : prev.monotonicSeq ≤ row.monotonicSeq) :
    linkBreak (some prev) row = Fasten.linkBreak (some prev) row := by
  simp only [linkBreak, Fasten.linkBreak, wrap_eq_iff hprev hrow hle, AuditRow.isSealed_iff,
    AuditRow.isSealed_eq_false_iff]

/-- Among rows of its own node, a sealed row is checked as in Python. -/
theorem rowFail_eq {firstSealed : Option Int} (hsealed : row.isSealed = true)
    (hrow : InInt64 row.monotonicSeq)
    (hbefore : ∀ q ∈ before, q.sourceNodeId = row.sourceNodeId ∧ InInt64 q.monotonicSeq
      ∧ q.monotonicSeq ≤ row.monotonicSeq) :
    rowFail check first before row = Fasten.rowFail check firstSealed before row := by
  have hseen : before.find? (fun r => r.isSealed && (r.sourceNodeId == row.sourceNodeId
        && r.monotonicSeq == row.monotonicSeq))
      = before.find? (fun r => r.isSealed && r.monotonicSeq == row.monotonicSeq) := by
    refine List.find?_congr (fun q hq => ?_)
    simp [(hbefore q hq).1]
  have hlink : linkBreak (before.find? (fun r => r.sourceNodeId == row.sourceNodeId)) row
      = Fasten.linkBreak before.head? row := by
    cases before with
    | nil => rfl
    | cons prev rest =>
      obtain ⟨hnode, hprev, hle⟩ := hbefore prev List.mem_cons_self
      rw [List.find?_cons_of_pos (by simp [hnode]), List.head?_cons]
      exact linkBreak_eq hprev hrow hle
  cases hcheck : check row with
  | none | some reason => simp [rowFail, Fasten.rowFail, hseen, hlink, hsealed, hcheck]

theorem rowFail_unsealed (hrow : row.isSealed = false) :
    rowFail check first before row = none
      ↔ ¬∃ seq ∈ Dict.get? first row.sourceNodeId, seq ≤ row.monotonicSeq := by
  simp only [rowFail, if_pos hrow]
  by_cases hfirst : ∃ seq ∈ Dict.get? first row.sourceNodeId, seq ≤ row.monotonicSeq
  · rw [if_pos hfirst]
    exact iff_of_false (Option.some_ne_none _) (not_not_intro hfirst)
  · rw [if_neg hfirst]
    exact iff_of_true rfl hfirst

section

variable {sorted : List AuditRow}
  (hsorted : sorted.Pairwise (fun a b => a.monotonicSeq ≤ b.monotonicSeq))
  (hdistinct : sorted.Pairwise (fun a b => ¬(a.sourceNodeId = b.sourceNodeId ∧ a.id = b.id)))
  (hrange : ∀ r ∈ sorted, InInt64 r.monotonicSeq)

include hsorted hrange in
/-- On one node's rows below a seq, the scan passes when Python's walk does. -/
theorem firstFail_node_iff {c : Int} {node : String} {rows : List AuditRow}
    (hrows : rows = (sorted.filter (fun r => decide (r.monotonicSeq < c))).filter
      (fun r => decide (r.sourceNodeId = node))) :
    firstFail (rowFail check (firstSealed sorted)) [] rows = none
      ↔ firstBreak check rows = none := by
  have hmem : ∀ r, r ∈ rows ↔ (r ∈ sorted ∧ r.monotonicSeq < c) ∧ r.sourceNodeId = node := by
    intro r
    rw [hrows]
    simp only [List.mem_filter, decide_eq_true_eq]
  have hrowsSorted : rows.Pairwise (fun a b => a.monotonicSeq ≤ b.monotonicSeq) := by
    rw [hrows]
    exact (hsorted.filter _).filter _
  rw [firstBreak_eq_firstFail, firstFail_eq_none_iff, firstFail_eq_none_iff]
  refine forall_congr' (fun pre => forall_congr' (fun row => forall_congr' (fun post =>
    forall_congr' (fun hsplit => ?_))))
  have hrow : row ∈ rows := by rw [hsplit]; simp
  obtain ⟨⟨hrowmem, hlt⟩, hnode⟩ := (hmem row).1 hrow
  rw [List.append_nil]
  cases hsealed : row.isSealed with
  | false =>
    rw [rowFail_unsealed hsealed, Fasten.rowFail_unsealed hsealed, exists_firstSealed_le hsorted,
      Fasten.exists_firstSealed_le]
    refine not_congr (exists_congr (fun r => ?_))
    rw [hmem r, hnode]
    constructor
    · rintro ⟨hr, hrnode, hs, hle⟩
      exact ⟨⟨⟨hr, by omega⟩, hrnode⟩, hs, hle⟩
    · rintro ⟨⟨⟨hr, -⟩, hrnode⟩, hs, hle⟩
      exact ⟨hr, hrnode, hs, hle⟩
  | true =>
    rw [rowFail_eq hsealed (hrange row hrowmem) (fun q hq => ?_)]
    have hq' : q ∈ pre := List.mem_reverse.1 hq
    obtain ⟨⟨hqmem, -⟩, hqnode⟩ := (hmem q).1 (by rw [hsplit]; simp [hq'])
    refine ⟨hqnode.trans hnode.symm, hrange q hqmem, ?_⟩
    rw [hsplit, List.pairwise_append] at hrowsSorted
    exact hrowsSorted.2.2 q hq' row List.mem_cons_self

include hsorted hdistinct hrange in
/-- **One walk over all nodes.** -/
theorem noneBelow_walk_iff (hnul : ∀ r ∈ sorted, NoNul r.sourceNodeId) {c : Int} :
    NoneBelow c (walk check (firstSealed sorted) [] [] sorted) ↔
      ∀ node, NodeOk check {r | r ∈ sorted ∧ r.sourceNodeId = node ∧ r.monotonicSeq < c} := by
  have hkey : ∀ before row b, rowFail check (firstSealed sorted) before row = some b →
      b.1 = row.monotonicSeq := fun _ _ _ => rowFail_key
  rw [walk_eq_firstFail sorted hnul [] [] [] (fun _ => rfl) (fun _ _ _ => rfl),
    noneBelow_firstFail_iff hkey hsorted, firstFail_eq_none_iff_forall_class
      AuditRow.sourceNodeId (rowFail_filter (firstSealed sorted))]
  refine forall_congr' (fun node => ?_)
  rw [List.filter_nil, firstFail_node_iff hsorted hrange rfl, firstBreak_eq_none_iff]
  · simp only [List.mem_filter, decide_eq_true_eq, and_assoc, and_comm]
  · exact (hsorted.filter _).filter _
  · rw [List.Nodup, List.pairwise_map]
    refine ((hdistinct.filter _).filter _).imp_of_mem (fun {a b} ha hb hne hid => hne ⟨?_, hid⟩)
    simp only [List.mem_filter, decide_eq_true_eq] at ha hb
    exact ha.2.trans hb.2.symm

end

end Fasten.Go
