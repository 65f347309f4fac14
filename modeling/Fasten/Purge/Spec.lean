import Fasten.Purge
import Fasten.Store.Chain

set_option autoImplicit false

/-! # What a purge deletes

The statement finds the nodes one after the other, and for each of them the first seq it has to
keep. `Purge.run_eq` says which rows that deletes without mentioning how they are found (spec §2.3),
and `Store.run_purge` that the store's purge is this statement. -/

namespace Fasten

namespace Purge

open Sql

variable {ν τ : Type}

/-! ## The text -/

def isPostgres : Dialect → Bool
  | .postgres => true
  | .sqlite => false

theorem joined_withText (respectUnshipped : Bool) :
    joined (withText () respectUnshipped ([] : List (Row Unit Unit))).pieces
      = joined (purgeSqlBound (.hole .table)
        (purgeSqlKeep (.hole .param) respectUnshipped)).pieces := by
  cases respectUnshipped <;> decide +kernel

/-- `match` without the `shipped` that is added to it. -/
def oldText : Text Name :=
  "d.source_node_id = bound.node AND d.monotonic_seq < bound.keep_from " ++
  "AND d.timestamp < " ++ Text.hole Name.param

theorem joined_matches (respectUnshipped : Bool) :
    joined (matches_ () respectUnshipped : Term Name (Bound Unit × Row Unit Unit) Bool).text.pieces
      = joined (if respectUnshipped then oldText ++ " AND d.shipped_at IS NOT NULL"
        else oldText).pieces := by
  cases respectUnshipped <;> decide +kernel

section

variable [LinearOrder ν] [LinearOrder τ] (cutoff : τ) (respectUnshipped : Bool)
  (rows : List (Row ν τ)) (names : Name → String)

-- the text of a part does not depend on the rows, so it is that over an empty table

theorem fill_withText : (withText cutoff respectUnshipped rows).fill names
    = (purgeSqlBound (.hole .table) (purgeSqlKeep (.hole .param) respectUnshipped)).fill names := by
  have hempty : withText cutoff respectUnshipped rows
      = withText () respectUnshipped ([] : List (Row Unit Unit)) := by
    cases respectUnshipped <;> rfl
  rw [hempty]
  exact Text.fill_congr (joined_withText respectUnshipped) names

theorem fill_matches :
    (matches_ cutoff respectUnshipped : Term Name (Bound ν × Row ν τ) Bool).text.fill names
      = (purgeSqlMatch (.hole .param) respectUnshipped).fill names := by
  have hempty : (matches_ cutoff respectUnshipped : Term Name (Bound ν × Row ν τ) Bool).text
      = (matches_ () respectUnshipped : Term Name (Bound Unit × Row Unit Unit) Bool).text := by
    cases respectUnshipped <;> rfl
  rw [hempty, Text.fill_congr (joined_matches respectUnshipped)]
  cases respectUnshipped with
  | true => rfl
  | false =>
    have hsplit : purgeSqlMatch (.hole Name.param) false = oldText ++ (⟨[.lit ""]⟩ : Text Name) :=
      rfl
    rw [hsplit, Text.fill_append, Text.fill_lit, String.append_empty]
    rfl

/-- The statement is what Python's `purge_sql` writes. -/
theorem fill_text (dialect : Dialect) :
    (purgeSql (.hole .table) (.hole .param) respectUnshipped (isPostgres dialect)).fill names
      = (text cutoff respectUnshipped rows dialect).fill names := by
  cases dialect <;>
    simp only [purgeSql, isPostgres, text, Text.fill_append, fill_withText, fill_matches,
      if_true, if_false, Bool.false_eq_true]

end

/-- Go writes the same text. -/
theorem fill_go_purgeSQL (respectUnshipped postgres : Bool) (names : Name → String) :
    (Go.purgeSQL (.hole .table) (.hole .param) respectUnshipped postgres).fill names
      = (purgeSql (.hole .table) (.hole .param) respectUnshipped postgres).fill names := by
  unfold Go.purgeSQL purgeSql purgeSqlBound purgeSqlKeep purgeSqlMatch
  cases respectUnshipped <;> cases postgres <;>
    simp only [if_true, if_false, Bool.false_eq_true, Text.fill_append, Text.fill_lit,
      String.append_assoc, String.append_empty]

/-- fasten-core writes the same text. -/
theorem fill_core_purgeSql (respectUnshipped postgres : Bool) (names : Name → String) :
    (Core.purgeSql (.hole .table) (.hole .param) respectUnshipped postgres).fill names
      = (purgeSql (.hole .table) (.hole .param) respectUnshipped postgres).fill names := by
  unfold Core.purgeSql purgeSql purgeSqlBound purgeSqlKeep purgeSqlMatch
  cases respectUnshipped <;> cases postgres <;>
    simp only [if_true, if_false, Bool.false_eq_true, Text.fill_append, String.append_assoc]

/-! ## The nodes and their bounds -/

section

variable [LinearOrder ν] [LinearOrder τ] (cutoff : τ) (respectUnshipped : Bool)
  (rows : List (Row ν τ))

omit [LinearOrder τ] in
theorem base_nodes :
    (selectMin sourceNodeId (auditTable rows) .all : Query Name Unit (Option ν)).rows ()
      = [minimum (rows.map (·.sourceNodeId))] := by
  simp [selectMin, Source.selected, auditTable, Filter.all, sourceNodeId, Term.column,
    List.filterMap_map]

omit [LinearOrder τ] in
/-- The next node after one. -/
theorem next_node (a : ν) : (selectMin sourceNodeId (auditTable rows)
      (.where_ (sourceNodeId.gt (.column "node" (fun r => r.2.1))))).scalar.value
        ((some a, ()) : Option ν × Unit)
      = nextAbove (rows.map (·.sourceNodeId)) (some a) := by
  have hasked : ∀ r : Row ν τ, (Term.gt sourceNodeId (.column "node" (fun r => r.2.1))).Holds
      (r, ((some a, ()) : Option ν × Unit)) ↔ a < r.sourceNodeId := by
    intro r
    simp [sourceNodeId]
  rw [scalar_selectMin, Source.selected_where hasked, List.filterMap_map]
  simp only [nextAbove, auditTable, List.filter_map, sourceNodeId, Function.comp_def,
    Term.value_column]
  rw [← List.filterMap_eq_map]
  rfl

omit [LinearOrder τ] in
/-- The recursive part of `nodes` is one step of the walk. -/
theorem step_nodes (last : List (Option ν)) :
    (select (selectMin sourceNodeId (auditTable rows)
        (.where_ (sourceNodeId.gt (.column "node" (fun r => r.2.1))))).scalar.output
      ⟨"nodes", last⟩ (.where_ node.isNotNull) : Query Name Unit (Option ν)).rows ()
      = walkStep (rows.map (·.sourceNodeId)) last := by
  have hasked : ∀ r : Option ν, (Term.isNotNull node).Holds (r, ()) ↔ r.isSome = true := by
    intro r
    simp [node, Option.isSome_iff_exists]
  simp only [select, walkStep]
  rw [Source.selected_where hasked, List.map_map]
  simp only [Bool.decide_eq_true]
  refine List.map_congr_left (fun r hr => ?_)
  obtain ⟨a, rfl⟩ := Option.isSome_iff_exists.1 (List.mem_filter.1 hr).2
  exact next_node rows a

omit [LinearOrder τ] in
theorem nodes_rows (dialect : Dialect) (fuel : Nat) : (nodes rows).rows dialect fuel
    = rounds (walkStep (rows.map (·.sourceNodeId))) fuel [minimum (rows.map (·.sourceNodeId))] := by
  have hstep : (fun last => (select (selectMin sourceNodeId (auditTable rows)
        (.where_ (sourceNodeId.gt (.column "node" (fun r => r.2.1))))).scalar.output
      ⟨"nodes", last⟩ (.where_ node.isNotNull) : Query Name Unit (Option ν)).rows ())
      = walkStep (rows.map (·.sourceNodeId)) := funext (step_nodes rows)
  cases dialect with
  | postgres => simp only [nodes, recursive, hstep, base_nodes]
  | sqlite =>
    simp only [nodes, recursive, hstep, base_nodes]
    exact queued_eq_rounds (length_walkStep _) fuel _ (by simp)

omit [LinearOrder τ] in
/-- **The walk reaches every node**, and ends. -/
theorem exists_nodes : ∃ found : List ν, (∀ n, n ∈ found ↔ ∃ r ∈ rows, r.sourceNodeId = n)
    ∧ found.length ≤ rows.length ∧ ∀ dialect fuel, rows.length + 1 ≤ fuel →
      (nodes rows).rows dialect fuel = some (found.map some ++ [none]) := by
  obtain ⟨found, hfound, hlength, hrun⟩ := exists_rounds_walk (rows.map (·.sourceNodeId))
  rw [List.length_map] at hlength hrun
  refine ⟨found, fun n => ?_, hlength, fun dialect fuel hfuel => ?_⟩
  · rw [hfound, List.mem_map]
  · rw [nodes_rows, hrun fuel hfuel]

/-! ## The bounds -/

/-- The row is older than the cutoff, and shipped if that is asked for. -/
def Old (r : Row ν τ) : Prop :=
  r.timestamp < cutoff ∧ (respectUnshipped = true → r.shippedAt ≠ none)

instance (r : Row ν τ) : Decidable (Old cutoff respectUnshipped r) :=
  inferInstanceAs (Decidable (_ ∧ _))

omit [LinearOrder ν] in
theorem holds_keep {σ : Type} (r : Row ν τ) (outer : σ) :
    (keep cutoff respectUnshipped).Holds (r, outer) ↔ ¬Old cutoff respectUnshipped r := by
  have hkeep : (keep cutoff respectUnshipped).Holds (r, outer) ↔
      cutoff ≤ r.timestamp ∨ (respectUnshipped = true ∧ r.shippedAt = none) := by
    cases respectUnshipped <;> simp [keep, before]
  rw [hkeep, Old, not_and_or, not_lt, Classical.not_imp, not_not]

/-- The lowest seq that a node keeps, or one above them all. -/
def keepFrom (node : ν) : Int :=
  (minimum ((rows.filter (fun r => decide (r.sourceNodeId = node ∧ 0 < r.monotonicSeq ∧
    ¬Old cutoff respectUnshipped r))).map (·.monotonicSeq))).getD maxSeq

theorem value_keepFrom (n : ν) : ((firstKept cutoff respectUnshipped rows).scalar.coalesce
    (.constant (toString maxSeq) maxSeq)).value (some n, ())
      = some (keepFrom cutoff respectUnshipped rows n) := by
  have hasked : ∀ r : Row ν τ, (Term.and (Term.and
      (Term.eq sourceNodeId (.column "node" (fun r => r.2.1)))
      (Term.gt (.column "monotonic_seq" (fun r => some r.1.monotonicSeq)) (.constant "0" 0)))
      (Term.paren (keep cutoff respectUnshipped))).Holds (r, ((some n, ()) : Option ν × Unit)) ↔
        r.sourceNodeId = n ∧ 0 < r.monotonicSeq ∧ ¬Old cutoff respectUnshipped r := by
    intro r
    simp only [Term.holds_and, Term.holds_eq, Term.holds_gt, Term.holds_paren, holds_keep]
    simp [sourceNodeId, and_assoc, eq_comm]
  simp only [Term.coalesce, firstKept, scalar_selectOrdered, Term.value_constant]
  rw [Source.selected_where hasked, List.map_map]
  simp only [keepFrom, auditTable, Function.comp_def]
  cases minimum (List.map (fun r : Row ν τ => r.monotonicSeq) (rows.filter (fun r =>
    decide (r.sourceNodeId = n ∧ 0 < r.monotonicSeq ∧ ¬Old cutoff respectUnshipped r)))) <;> rfl

/-- `bound` has a row for each node, if no more than `LIMIT` allows. -/
theorem bound_rows (found : List ν) (hlimit : found.length ≤ maxSeq.toNat) :
    (bound cutoff respectUnshipped rows (found.map some ++ [none])).rows ()
      = found.map (fun n => (some n, some (keepFrom cutoff respectUnshipped rows n))) := by
  have hasked : ∀ r : Option ν, (Term.isNotNull node).Holds (r, ()) ↔ r.isSome = true := by
    intro r
    simp [node, Option.isSome_iff_exists]
  simp only [bound, Query.limit, select]
  rw [Source.selected_where hasked, List.map_map]
  have hsome : (found.map some ++ [none]).filter (fun r => decide (r.isSome = true))
      = found.map some := by
    simp [List.filter_append, List.filter_map, Function.comp_def]
  rw [hsome, List.map_map, List.take_of_length_le (by rw [List.length_map]; exact hlimit)]
  refine List.map_congr_left (fun n _ => ?_)
  exact Prod.ext rfl (value_keepFrom cutoff respectUnshipped rows n)

/-- What a row has to be below. -/
theorem lt_keepFrom_iff {n : ν} {s : Int} (hs : s < maxSeq) :
    s < keepFrom cutoff respectUnshipped rows n ↔ ∀ q ∈ rows, q.sourceNodeId = n →
      0 < q.monotonicSeq → ¬Old cutoff respectUnshipped q → s < q.monotonicSeq := by
  have hmem : ∀ k, k ∈ (rows.filter (fun r => decide (r.sourceNodeId = n ∧ 0 < r.monotonicSeq ∧
      ¬Old cutoff respectUnshipped r))).map (·.monotonicSeq) ↔ ∃ q ∈ rows, q.sourceNodeId = n ∧
        0 < q.monotonicSeq ∧ ¬Old cutoff respectUnshipped q ∧ q.monotonicSeq = k := by
    intro k
    simp [and_assoc]
  unfold keepFrom
  cases hmin : minimum ((rows.filter (fun r => decide (r.sourceNodeId = n ∧ 0 < r.monotonicSeq ∧
      ¬Old cutoff respectUnshipped r))).map (·.monotonicSeq)) with
  | none =>
    rw [minimum_eq_none_iff] at hmin
    rw [hmin] at hmem
    refine ⟨fun _ q hq hnode hpos hkept => ?_, fun _ => hs⟩
    exact absurd ((hmem q.monotonicSeq).2 ⟨q, hq, hnode, hpos, hkept, rfl⟩) List.not_mem_nil
  | some k =>
    rw [Option.getD_some]
    constructor
    · intro hlt q hq hnode hpos hkept
      exact lt_of_lt_of_le hlt
        (minimum_le hmin ((hmem q.monotonicSeq).2 ⟨q, hq, hnode, hpos, hkept, rfl⟩))
    · intro h
      obtain ⟨q, hq, hnode, hpos, hkept, rfl⟩ := (hmem k).1 (mem_of_minimum hmin)
      exact h q hq hnode hpos hkept

/-! ## The rows that are deleted -/

/-- The row is deleted: it is old, and unless it is not chained every chained row up to it on its
    node is old too (spec §2.3). -/
def Purged (r : Row ν τ) : Prop :=
  Old cutoff respectUnshipped r ∧ (r.monotonicSeq ≤ 0 ∨ ∀ q ∈ rows,
    q.sourceNodeId = r.sourceNodeId → 1 ≤ q.monotonicSeq → q.monotonicSeq ≤ r.monotonicSeq →
      Old cutoff respectUnshipped q)

instance (r : Row ν τ) : Decidable (Purged cutoff respectUnshipped rows r) :=
  inferInstanceAs (Decidable (_ ∧ _))

theorem purged_iff {r : Row ν τ} (hseq : r.monotonicSeq < maxSeq) :
    Purged cutoff respectUnshipped rows r ↔
      r.monotonicSeq < keepFrom cutoff respectUnshipped rows r.sourceNodeId ∧
        Old cutoff respectUnshipped r := by
  rw [lt_keepFrom_iff _ _ _ hseq, Purged, and_comm]
  refine and_congr_left (fun _ => ⟨?_, fun h => ?_⟩)
  · rintro (hlow | hall) q hq hnode hpos hkept
    · omega
    · by_contra hge
      exact hkept (hall q hq hnode (by omega) (by omega))
  · refine or_iff_not_imp_left.2 (fun _ q hq hnode hpos hle => ?_)
    by_contra hkept
    have := h q hq hnode (by omega) hkept
    omega

theorem holds_matches {n : Option ν} {k : Option Int} {r : Row ν τ} :
    (matches_ cutoff respectUnshipped).Holds ((n, k), r) ↔
      n = some r.sourceNodeId ∧ (∃ from_, k = some from_ ∧ r.monotonicSeq < from_) ∧
        Old cutoff respectUnshipped r := by
  cases respectUnshipped <;> simp [matches_, before, Old, and_assoc, Option.ne_none_iff_exists']

/-- The rows that match a bound. -/
theorem forall_bound_not_iff {found : List ν} (hfound : ∀ r ∈ rows, r.sourceNodeId ∈ found)
    (hseq : ∀ r ∈ rows, r.monotonicSeq < maxSeq) {r : Row ν τ} (hr : r ∈ rows) :
    (∀ b ∈ found.map (fun n => (some n, some (keepFrom cutoff respectUnshipped rows n))),
      ¬(matches_ cutoff respectUnshipped).Holds (b, r)) ↔
        ¬Purged cutoff respectUnshipped rows r := by
  rw [purged_iff _ _ _ (hseq r hr)]
  constructor
  · rintro h ⟨hlt, hold⟩
    exact h _ (List.mem_map.2 ⟨r.sourceNodeId, hfound r hr, rfl⟩)
      ((holds_matches cutoff respectUnshipped).2 ⟨rfl, ⟨_, rfl, hlt⟩, hold⟩)
  · intro h b hb hmatch
    obtain ⟨n, -, rfl⟩ := List.mem_map.1 hb
    obtain ⟨hn, ⟨from_, hfrom, hlt⟩, hold⟩ := (holds_matches cutoff respectUnshipped).1 hmatch
    rw [Option.some.inj hn, Option.some.injEq] at hfrom
    exact h ⟨hfrom ▸ hlt, hold⟩

end

/-- **What the statement leaves**, on either database. -/
theorem run_eq [LinearOrder ν] [LinearOrder τ] (table : Table ν τ)
    (hseq : ∀ r ∈ table.rows, r.monotonicSeq < maxSeq) (cutoff : τ) (respectUnshipped : Bool)
    (dialect : Dialect) (fuel : Nat) (hfuel : table.rows.length + 1 ≤ fuel) :
    run cutoff respectUnshipped table.rows dialect fuel
      = some (table.rows.filter (fun r =>
        decide (¬Purged cutoff respectUnshipped table.rows r))) := by
  obtain ⟨found, hfound, hlength, hrun⟩ := exists_nodes table.rows
  have hreached : ∀ r ∈ table.rows, r.sourceNodeId ∈ found :=
    fun r hr => (hfound _).2 ⟨r, hr, rfl⟩
  have husing : deleteUsing (matches_ cutoff respectUnshipped) table.rows
      (found.map (fun n => (some n, some (keepFrom cutoff respectUnshipped table.rows n))))
      = table.rows.filter (fun r => decide (¬Purged cutoff respectUnshipped table.rows r)) := by
    refine List.filter_congr (fun r hr => ?_)
    rw [decide_eq_decide]
    exact forall_bound_not_iff cutoff respectUnshipped table.rows hreached hseq hr
  rw [run, hrun dialect fuel hfuel, Option.map_some,
    bound_rows _ _ _ found (le_trans hlength table.size)]
  cases dialect with
  | postgres => exact congrArg some husing
  | sqlite =>
    refine congrArg some (Eq.trans (deleteIn_eq_deleteUsing table.primaryKey _ _ ?_) husing)
    intro k
    simp only [matchingIds, List.mem_flatMap, List.mem_map, List.mem_filter, decide_eq_true_eq]
    constructor
    · rintro ⟨b, hb, r, ⟨hr, hmatch⟩, rfl⟩
      exact ⟨b, hb, r, hr, hmatch, rfl⟩
    · rintro ⟨b, hb, r, hr, hmatch, rfl⟩
      exact ⟨b, hb, r, ⟨hr, hmatch⟩, rfl⟩

/-- Of each node's chained rows the purge leaves those from one seq on. -/
theorem not_purged_of_le [LinearOrder ν] [LinearOrder τ] {cutoff : τ} {respectUnshipped : Bool}
    {rows : List (Row ν τ)} {r q : Row ν τ} (hr : r ∈ rows)
    (hkept : ¬Purged cutoff respectUnshipped rows r) (hpos : 1 ≤ r.monotonicSeq)
    (hnode : q.sourceNodeId = r.sourceNodeId) (hle : r.monotonicSeq ≤ q.monotonicSeq) :
    ¬Purged cutoff respectUnshipped rows q := by
  rintro ⟨-, hlow | hall⟩
  · omega
  · refine hkept ⟨hall r hr hnode.symm hpos hle, Or.inr (fun p hp hpnode hppos hple => ?_)⟩
    exact hall p hp (hpnode.trans hnode.symm) hppos (by omega)

/-- **What a purge deletes** (spec §2.3). The three SDKs write one statement for each database, and
    on a table with seqs below `_MAX_SEQ` it ends, having found every node, and deletes the purged
    rows and no others; of each node's chained rows a seq suffix is left. -/
theorem purge_deletes [LinearOrder ν] [LinearOrder τ] (table : Table ν τ)
    (hseq : ∀ r ∈ table.rows, r.monotonicSeq < maxSeq) (cutoff : τ) (respectUnshipped : Bool)
    (dialect : Dialect) :
    (∀ names : Name → String,
      (purgeSql (.hole .table) (.hole .param) respectUnshipped (isPostgres dialect)).fill names
          = (text cutoff respectUnshipped table.rows dialect).fill names
        ∧ (Go.purgeSQL (.hole .table) (.hole .param) respectUnshipped
          (isPostgres dialect)).fill names
          = (text cutoff respectUnshipped table.rows dialect).fill names
        ∧ (Core.purgeSql (.hole .table) (.hole .param) respectUnshipped
          (isPostgres dialect)).fill names
          = (text cutoff respectUnshipped table.rows dialect).fill names)
      ∧ (∃ found : List ν, (∀ r ∈ table.rows, r.sourceNodeId ∈ found) ∧
        ∀ fuel, table.rows.length + 1 ≤ fuel →
          (nodes table.rows).rows dialect fuel = some (found.map some ++ [none]))
      ∧ ∃ kept, (∀ fuel, table.rows.length + 1 ≤ fuel →
          run cutoff respectUnshipped table.rows dialect fuel = some kept)
        ∧ kept.Sublist table.rows
        ∧ (∀ r ∈ table.rows, r ∉ kept ↔ Purged cutoff respectUnshipped table.rows r)
        ∧ ∀ r ∈ kept, 1 ≤ r.monotonicSeq → ∀ q ∈ table.rows, q.sourceNodeId = r.sourceNodeId →
          r.monotonicSeq ≤ q.monotonicSeq → q ∈ kept := by
  refine ⟨fun names => ⟨?_, ?_, ?_⟩, ?_, table.rows.filter (fun r =>
    decide (¬Purged cutoff respectUnshipped table.rows r)),
    fun fuel hfuel => run_eq table hseq cutoff respectUnshipped dialect fuel hfuel,
    List.filter_sublist, fun r hr => ?_, fun r hr hpos q hq hnode hle => ?_⟩
  · exact fill_text cutoff respectUnshipped table.rows names dialect
  · rw [fill_go_purgeSQL, fill_text cutoff respectUnshipped table.rows names dialect]
  · rw [fill_core_purgeSql, fill_text cutoff respectUnshipped table.rows names dialect]
  · obtain ⟨found, hfound, -, hrun⟩ := exists_nodes table.rows
    exact ⟨found, fun r hr => (hfound _).2 ⟨r, hr, rfl⟩, hrun dialect⟩
  · simp [List.mem_filter, hr]
  · obtain ⟨hr, hkept⟩ := List.mem_filter.1 hr
    refine List.mem_filter.2 ⟨hq, ?_⟩
    exact decide_eq_true (not_purged_of_le hr (of_decide_eq_true hkept) hpos hnode hle)

/-- Two nodes; the third row is old but stands above a recent one. -/
def twoNodes : Table Nat Nat where
  rows := [⟨"evt-1", 1, 1, 5, some 6⟩, ⟨"evt-2", 1, 2, 20, some 21⟩, ⟨"evt-3", 1, 3, 7, some 8⟩,
    ⟨"evt-4", 2, 0, 5, none⟩]
  primaryKey := by decide
  size := by decide

theorem purge_deletes_twoNodes :
    ∃ kept, run 10 true twoNodes.rows .sqlite 5 = some kept
      ∧ (⟨"evt-1", 1, 1, 5, some 6⟩ : Row Nat Nat) ∉ kept
      ∧ (⟨"evt-3", 1, 3, 7, some 8⟩ : Row Nat Nat) ∈ kept := by
  obtain ⟨-, -, kept, hrun, -, hdeleted, -⟩ :=
    purge_deletes twoNodes (by decide) 10 true .sqlite
  refine ⟨kept, hrun 5 (by decide), (hdeleted _ (by decide)).2 (by decide), ?_⟩
  by_contra hgone
  exact absurd ((hdeleted _ (by decide)).1 hgone) (by decide)

end Purge

/-! ## The store's purge -/

/-- The columns of a stored row that a purge reads. -/
def AuditRow.purgeRow (r : AuditRow) : Purge.Row String String :=
  ⟨r.id, r.sourceNodeId, r.monotonicSeq, canonicalTs r.timestamp, r.shippedAt.map canonicalTs⟩

namespace Store

open Sql

variable (store : Store) (before : Datetime) (respectUnshipped : Bool)

theorem old_purgeRow (r : AuditRow) :
    Purge.Old (canonicalTs before) respectUnshipped r.purgeRow ↔
      purgeKeeps before respectUnshipped r = false := by
  cases respectUnshipped <;> simp [Purge.Old, AuditRow.purgeRow, purgeKeeps, isBefore,
    Option.isSome_iff_ne_none]

/-- The seqs of the rows that keep their node's rows from there on. -/
theorem map_kept_eq (node : String) :
    ((store.nodeRows node).filter (fun r =>
      decide (0 < r.monotonicSeq) && purgeKeeps before respectUnshipped r)).map (·.monotonicSeq)
      = ((store.rows.map (·.purgeRow)).filter (fun r => decide (r.sourceNodeId = node ∧
        0 < r.monotonicSeq ∧ ¬Purge.Old (canonicalTs before) respectUnshipped r))).map
          (·.monotonicSeq) := by
  rw [List.filter_map, List.map_map, Store.nodeRows, List.filter_filter]
  refine congrArg (List.map _) (List.filter_congr (fun r _ => ?_))
  rw [Bool.eq_iff_iff]
  simp only [Function.comp_apply, decide_eq_true_eq, old_purgeRow, Bool.not_eq_false,
    Bool.and_eq_true, beq_iff_eq]
  exact and_comm

theorem keepFrom_eq (node : String) : store.keepFrom before respectUnshipped node
    = Purge.keepFrom (canonicalTs before) respectUnshipped (store.rows.map (·.purgeRow)) node := by
  rw [Store.keepFrom, map_kept_eq, Purge.keepFrom]
  congr 1
  cases hmin : List.min? (((store.rows.map (·.purgeRow)).filter (fun r =>
      decide (r.sourceNodeId = node ∧ 0 < r.monotonicSeq ∧
        ¬Purge.Old (canonicalTs before) respectUnshipped r))).map (·.monotonicSeq)) with
  | none => rw [List.min?_eq_none_iff.1 hmin]; rfl
  | some least =>
    obtain ⟨hmem, hle⟩ := List.min?_eq_some_iff.1 hmin
    exact (minimum_eq_some hmem hle).symm

theorem purged_purgeRow {r : AuditRow} (hseq : r.monotonicSeq < maxSeq) :
    Purge.Purged (canonicalTs before) respectUnshipped (store.rows.map (·.purgeRow)) r.purgeRow ↔
      store.purges before respectUnshipped r = true := by
  have hkeepFrom := store.keepFrom_eq before respectUnshipped r.sourceNodeId
  rw [Purge.purged_iff _ _ _ hseq, old_purgeRow, Store.purges, hkeepFrom, purgeKeeps]
  simp only [Bool.and_eq_true, decide_eq_true_eq, and_assoc]
  refine and_congr_right (fun _ => ?_)
  cases isBefore r before <;> cases respectUnshipped <;> cases r.shippedAt <;> simp

/-- **The store's purge is the statement's**, on a table that a database can hold. -/
theorem run_purge (hseq : ∀ r ∈ store.rows, r.monotonicSeq < maxSeq)
    (hsize : store.rows.length ≤ maxSeq.toNat) (dialect : Dialect) (fuel : Nat)
    (hfuel : store.rows.length + 1 ≤ fuel) :
    Purge.run (canonicalTs before) respectUnshipped (store.rows.map (·.purgeRow)) dialect fuel
      = some ((store.purge before respectUnshipped).rows.map (·.purgeRow)) := by
  have hkey : ((store.rows.map (·.purgeRow)).map (·.id)).Nodup := by
    rw [List.map_map]
    exact store.primaryKey
  have hrun := Purge.run_eq ⟨store.rows.map (·.purgeRow), hkey, by rwa [List.length_map]⟩
    (fun p hp => by
      obtain ⟨r, hr, rfl⟩ := List.mem_map.1 hp
      exact hseq r hr)
    (canonicalTs before) respectUnshipped dialect fuel (by rwa [List.length_map])
  rw [hrun, List.filter_map, Store.purge, Store.delete]
  refine congrArg (fun l => some (List.map _ l)) (List.filter_congr (fun r hr => ?_))
  rw [Bool.eq_iff_iff]
  simp only [Function.comp_apply, decide_eq_true_eq, purged_purgeRow _ _ _ (hseq r hr),
    Bool.not_eq_true, Bool.not_eq_true']

/-- Rows of two nodes: two of `edge`, of which the second was not shipped, and one of `hub`. -/
def twoNodeRows : Store where
  rows := [{ AuditRow.sample "a" 1 with shippedAt := some .epoch }, AuditRow.sample "b" 2,
    { AuditRow.sample "c" 1 with
      sourceNodeId := "hub"
      shippedAt := some .epoch
      hasSourceNodeId := by decide }]
  primaryKey := by decide
  columns r hr := by
    simp only [List.mem_cons, List.not_mem_nil, or_false] at hr
    rcases hr with rfl | rfl | rfl <;> rfl

theorem run_purge_twoNodes :
    Purge.run (canonicalTs Datetime.later) true (twoNodeRows.rows.map (·.purgeRow)) .sqlite 4
        = some ((twoNodeRows.purge Datetime.later true).rows.map (·.purgeRow))
      ∧ (twoNodeRows.purge Datetime.later true).rows.map (·.id) = ["b"] :=
  ⟨twoNodeRows.run_purge _ true (by decide) (by decide) .sqlite 4 (by decide), by decide +kernel⟩

end Store

end Fasten
