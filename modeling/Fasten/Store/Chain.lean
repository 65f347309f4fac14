import Fasten.Lib.HashChain
import Fasten.Lib.Run
import Fasten.RowHash.Seal
import Fasten.Store
import Fasten.Verify.Dedupe

set_option autoImplicit false

/-! # Stored chains stay verifiable

The chain of every node in a store still verifies after each operation: allocation adds a row at
the top, shipping and redaction change fields no hash of those rows covers, and a purge leaves a
seq suffix (spec §2, §7). -/

namespace Fasten

variable {H : Sha256}

/-! ## Chains -/

/-- What a chain reads of an audit row. -/
def auditLink : HashChain.Link AuditRow where
  id := AuditRow.id
  seq := AuditRow.monotonicSeq
  prevHash := AuditRow.prevHash
  hash := AuditRow.hash
  genesis := "genesis"

variable {check : AuditRow → Option Reason} {store : Store} {node : String} {r : AuditRow}
  {rows : List AuditRow} {f : AuditRow → AuditRow} {respectUnshipped : Bool}

theorem nodeOk_iff {rows : Set AuditRow} :
    NodeOk check rows ↔ HashChain.Ok auditLink (fun r => check r = none) rows := by
  refine ⟨fun ⟨h₁, h₂, h₃, h₄, h₅⟩ => ?_, fun ⟨h₁, h₂, h₃, h₄, h₅⟩ => ?_⟩
  · simp only [AuditRow.isSealed_iff, AuditRow.isSealed_eq_false_iff] at h₁ h₂ h₃ h₄ h₅
    exact ⟨h₁, h₂, h₃, h₄, h₅⟩
  · constructor <;> simp only [AuditRow.isSealed_iff, AuditRow.isSealed_eq_false_iff]
    · exact h₁
    · exact h₂
    · exact h₃
    · exact h₄
    · exact h₅

/-- Every node's rows are in order. -/
def ChainsOk (H : Sha256) (rows : List AuditRow) : Prop :=
  ∀ node, NodeOk (rowBreak H) {r | r ∈ rows ∧ r.sourceNodeId = node}

/-! ## The invariant -/

/-- What holds of a store whose chains verify. -/
structure StoreOk (H : Sha256) (rows : List AuditRow) : Prop where
  nonneg : ∀ r ∈ rows, 0 ≤ r.monotonicSeq
  sealedPos : ∀ r ∈ rows, r.isSealed = true → 1 ≤ r.monotonicSeq
  seqUnique : ∀ r ∈ rows, ∀ r' ∈ rows, r.sourceNodeId = r'.sourceNodeId →
    1 ≤ r.monotonicSeq → r.monotonicSeq = r'.monotonicSeq → r = r'
  chains : ∀ node, NodeOk (rowBreak H) {r | r ∈ rows ∧ r.sourceNodeId = node}

theorem Store.eq_of_id_eq (store : Store) {r' : AuditRow} (hr : r ∈ store.rows)
    (hr' : r' ∈ store.rows) (hid : r.id = r'.id) : r = r' :=
  List.inj_on_of_nodup_map store.primaryKey hr hr' hid

theorem Store.distinct (store : Store) : Distinct store.rows :=
  fun _ hr _ hr' _ hid => store.eq_of_id_eq hr hr' hid

theorem Store.mem_nodeRows : r ∈ store.nodeRows node ↔ r ∈ store.rows ∧ r.sourceNodeId = node := by
  simp [Store.nodeRows]

/-- A node's rows verify exactly when they are in order. -/
theorem verifyChain_node_iff (hids : (rows.map (·.id)).Nodup) :
    (verifyChain check (rows.filter (·.sourceNodeId == node)) [] false).ok = true
      ↔ NodeOk check {r | r ∈ rows ∧ r.sourceNodeId = node} := by
  have hmem : ∀ {r}, r ∈ rows.filter (·.sourceNodeId == node) ↔ r ∈ rows ∧ r.sourceNodeId = node := by
    simp
  have hdistinct : Distinct (rows.filter (·.sourceNodeId == node)) := fun r hr r' hr' _ hid =>
    List.inj_on_of_nodup_map hids (hmem.1 hr).1 (hmem.1 hr').1 hid
  rw [verifyChain_rows_ok_iff, rowsOk_iff_of_distinct hdistinct]
  simp only [hmem]
  constructor
  · intro h
    simpa only [and_assoc, and_self] using h node
  · intro h other
    by_cases heq : node = other
    · subst heq
      simpa only [and_assoc, and_self] using h
    · have hempty : {r | (r ∈ rows ∧ r.sourceNodeId = node) ∧ r.sourceNodeId = other} = ∅ := by
        ext r
        simp only [Set.mem_ofPred_eq, Set.mem_empty_iff_false, iff_false]
        rintro ⟨⟨-, hnode⟩, hother⟩
        exact heq (hnode.symm.trans hother)
      rw [hempty]
      constructor <;> simp

theorem Store.verifyChain_nodeRows_iff :
    (verifyChain check (store.nodeRows node) [] false).ok = true
      ↔ NodeOk check {r | r ∈ store.rows ∧ r.sourceNodeId = node} :=
  verifyChain_node_iff store.primaryKey

/-- Rows without a hash are no chain yet. -/
theorem nodeOk_of_unsealed {rows : Set AuditRow} (h : ∀ r ∈ rows, r.hash = "") :
    NodeOk check rows := by
  have hnever : ∀ r ∈ rows, r.isSealed ≠ true := fun r hr hs =>
    AuditRow.isSealed_iff.1 hs (h r hr)
  exact ⟨fun r hr hs => absurd hs (hnever r hr), fun r hr _ _ hs => absurd hs (hnever r hr),
    fun _ _ r hr _ hs => absurd hs (hnever r hr), fun r hr _ _ hs => absurd hs (hnever r hr),
    fun _ _ r hr _ hs => absurd hs (hnever r hr)⟩

/-! ## Rewriting rows -/

/-- A change of rows in place that keeps what the chain reads. -/
structure KeepsChain (H : Sha256) (rows : List AuditRow) (f : AuditRow → AuditRow) : Prop where
  id : ∀ r, (f r).id = r.id
  node : ∀ r, (f r).sourceNodeId = r.sourceNodeId
  seq : ∀ r, (f r).monotonicSeq = r.monotonicSeq
  hash : ∀ r, (f r).hash = r.hash
  prevHash : ∀ r, (f r).prevHash = r.prevHash
  checked : ∀ r ∈ rows, r.isSealed = true → rowBreak H r = none → rowBreak H (f r) = none

theorem KeepsChain.isSealed (hf : KeepsChain H rows f) (r : AuditRow) :
    (f r).isSealed = r.isSealed := by
  simp [AuditRow.isSealed, hf.hash]

theorem ChainsOk.map (h : ChainsOk H rows) (hf : KeepsChain H rows f) :
    ChainsOk H (rows.map f) := by
  intro node
  refine nodeOk_iff.2 ((nodeOk_iff.1 (h node)).transport rfl (fun x hx => ?_) fun r hr => ?_)
  · obtain ⟨hx, hnode⟩ := hx
    obtain ⟨r, hr, rfl⟩ := List.mem_map.1 hx
    refine ⟨r, ⟨hr, by rw [← hf.node, hnode]⟩, ⟨hf.id r, hf.seq r, hf.prevHash r, hf.hash r⟩, ?_⟩
    exact fun hs => hf.checked r hr (AuditRow.isSealed_iff.2 hs)
  · exact ⟨f r, ⟨List.mem_map_of_mem hr.1, (hf.node r).trans hr.2⟩, hf.seq r⟩

theorem StoreOk.map (hok : StoreOk H rows) (hf : KeepsChain H rows f) : StoreOk H (rows.map f) := by
  refine ⟨?_, ?_, ?_, ChainsOk.map hok.chains hf⟩
  · intro x hx
    obtain ⟨r, hr, rfl⟩ := List.mem_map.1 hx
    rw [hf.seq]
    exact hok.nonneg r hr
  · intro x hx hs
    obtain ⟨r, hr, rfl⟩ := List.mem_map.1 hx
    rw [hf.isSealed] at hs
    rw [hf.seq]
    exact hok.sealedPos r hr hs
  · intro x hx x' hx' hnode hpos hseq
    obtain ⟨r, hr, rfl⟩ := List.mem_map.1 hx
    obtain ⟨r', hr', rfl⟩ := List.mem_map.1 hx'
    rw [hf.node, hf.node] at hnode
    rw [hf.seq] at hpos
    rw [hf.seq, hf.seq] at hseq
    rw [hok.seqUnique r hr r' hr' hnode hpos hseq]

/-! ## Purging -/

/-- Below the lowest seq it keeps, the purge leaves unchained rows only. -/
theorem Store.le_of_not_purges {before : Datetime} (hr : r ∈ store.rows) (hpos : 1 ≤ r.monotonicSeq)
    (hkept : store.purges before respectUnshipped r = false) :
    store.keepFrom before respectUnshipped r.sourceNodeId ≤ r.monotonicSeq := by
  by_contra hlt
  have hlow : r.monotonicSeq < store.keepFrom before respectUnshipped r.sourceNodeId := by omega
  -- then the row itself is one the purge keeps, and its seq bounds the lowest one
  have hkeeps : purgeKeeps before respectUnshipped r = true := by
    simp only [Store.purges, hlow, decide_true, Bool.true_and] at hkept
    simp only [purgeKeeps]
    cases hold : isBefore r before <;> cases respectUnshipped <;>
      cases hship : r.shippedAt <;> simp_all
  have hmem : r.monotonicSeq ∈ ((store.nodeRows r.sourceNodeId).filter (fun r =>
      decide (0 < r.monotonicSeq) && purgeKeeps before respectUnshipped r)).map
        (·.monotonicSeq) := by
    refine List.mem_map.2 ⟨r, List.mem_filter.2 ⟨Store.mem_nodeRows.2 ⟨hr, rfl⟩, ?_⟩, rfl⟩
    simp only [hkeeps, Bool.and_true, decide_eq_true_eq]
    omega
  cases hmin : (((store.nodeRows r.sourceNodeId).filter (fun r =>
      decide (0 < r.monotonicSeq) && purgeKeeps before respectUnshipped r)).map
        (·.monotonicSeq)).min? with
  | none =>
    rw [List.min?_eq_none_iff] at hmin
    rw [hmin] at hmem
    exact absurd hmem List.not_mem_nil
  | some least =>
    have hle := (List.min?_eq_some_iff.1 hmin).2 _ hmem
    rw [Store.keepFrom, hmin, Option.getD_some] at hlow
    omega

theorem Store.not_purges_of_le {before : Datetime}
    (h : store.keepFrom before respectUnshipped r.sourceNodeId ≤ r.monotonicSeq) :
    store.purges before respectUnshipped r = false := by
  simp only [Store.purges, Bool.and_eq_false_iff, decide_eq_false_iff_not, not_lt]
  exact Or.inl (Or.inl h)

theorem Store.mem_purge {before : Datetime} :
    r ∈ (store.purge before respectUnshipped).rows
      ↔ r ∈ store.rows ∧ store.purges before respectUnshipped r = false := by
  simp [Store.purge, Store.delete]

/-- **A purge keeps every chain verifiable.** -/
theorem StoreOk.purge (hok : StoreOk H store.rows) (before : Datetime) (respectUnshipped : Bool) :
    StoreOk H (store.purge before respectUnshipped).rows := by
  refine ⟨?_, ?_, ?_, fun node => ?_⟩
  · intro r hr
    exact hok.nonneg r (Store.mem_purge.1 hr).1
  · intro r hr
    exact hok.sealedPos r (Store.mem_purge.1 hr).1
  · intro r hr r' hr'
    exact hok.seqUnique r (Store.mem_purge.1 hr).1 r' (Store.mem_purge.1 hr').1
  · refine (hok.chains node).of_convex ?_ ?_
    · rintro r ⟨hr, hnode⟩
      exact ⟨(Store.mem_purge.1 hr).1, hnode⟩
    · rintro r ⟨hr, hnode⟩ hs r' - w ⟨hw, hwnode⟩ hlt -
      obtain ⟨hrrows, hrkept⟩ := Store.mem_purge.1 hr
      have hle := Store.le_of_not_purges hrrows (hok.sealedPos r hrrows hs) hrkept
      have hwkept : store.purges before respectUnshipped w = false := by
        refine Store.not_purges_of_le ?_
        rw [hwnode, ← hnode]
        omega
      exact ⟨Store.mem_purge.2 ⟨hw, hwkept⟩, hwnode⟩

/-! ## Shipping and redacting -/

/-- The row stays valid whatever `shipped_at` it is given. -/
def ShippableRow (H : Sha256) (r : AuditRow) : Prop :=
  r.isSealed = true → ∀ shippedAt, rowBreak H { r with shippedAt := shippedAt } = none

theorem keepsChain_shippedRow {ids : List String} (hids : ∀ r ∈ rows, r.id ∈ ids → ShippableRow H r)
    (now : Datetime) : KeepsChain H rows (shippedRow ids now) where
  id r := by unfold shippedRow; split_ifs <;> rfl
  node r := by unfold shippedRow; split_ifs <;> rfl
  seq r := by unfold shippedRow; split_ifs <;> rfl
  hash r := by unfold shippedRow; split_ifs <;> rfl
  prevHash r := by unfold shippedRow; split_ifs <;> rfl
  checked r hr hs h := by
    unfold shippedRow
    split_ifs with hid
    · exact hids r hr hid hs (some now)
    · exact h

theorem rowBreak_redactedRow {ids : List String} (hs : r.isSealed = true)
    (h : rowBreak H r = none) : rowBreak H (redactedRow ids r) = none := by
  unfold redactedRow
  split_ifs with hred
  · refine rowBreak_redacted h (formId_of_canonicalFormId ?_)
    exact hred.2.resolve_right (AuditRow.isSealed_iff.1 hs)
  · exact h

theorem keepsChain_redactedRow (rows : List AuditRow) (ids : List String) :
    KeepsChain H rows (redactedRow ids) where
  id r := by unfold redactedRow; split_ifs <;> rfl
  node r := by unfold redactedRow; split_ifs <;> rfl
  seq r := by unfold redactedRow; split_ifs <;> rfl
  hash r := by unfold redactedRow; split_ifs <;> rfl
  prevHash r := by unfold redactedRow; split_ifs <;> rfl
  checked _ _ hs h := rowBreak_redactedRow hs h

theorem Store.redactRows_rows (store : Store) (ids : List String) :
    (store.redactRows ids).rows = store.rows.map (redactedRow ids) := by
  unfold Store.redactRows
  split_ifs with hids
  · subst hids
    refine (List.map_id'' (fun r => ?_) store.rows).symm
    simp [redactedRow]
  · rfl

theorem StoreOk.redactRows (hok : StoreOk H store.rows) (ids : List String) :
    StoreOk H (store.redactRows ids).rows := by
  rw [Store.redactRows_rows]
  exact hok.map (keepsChain_redactedRow _ ids)

/-! ## Allocating -/

theorem Store.lt_nextSeq (hr : r ∈ store.rows) (hnode : r.sourceNodeId = node) :
    r.monotonicSeq < store.nextSeq node := by
  have hmem : r.monotonicSeq ∈ (store.nodeRows node).map (·.monotonicSeq) :=
    List.mem_map_of_mem (Store.mem_nodeRows.2 ⟨hr, hnode⟩)
  unfold Store.nextSeq
  cases hmax : ((store.nodeRows node).map (·.monotonicSeq)).max? with
  | none =>
    rw [List.max?_eq_none_iff] at hmax
    rw [hmax] at hmem
    exact absurd hmem List.not_mem_nil
  | some top =>
    have := (List.max?_eq_some_iff.1 hmax).2 _ hmem
    simp only [Option.getD_some]
    omega

theorem Store.one_le_nextSeq (h : ∀ r ∈ store.rows, 0 ≤ r.monotonicSeq) (node : String) :
    1 ≤ store.nextSeq node := by
  unfold Store.nextSeq
  cases hmax : ((store.nodeRows node).map (·.monotonicSeq)).max? with
  | none => simp
  | some top =>
    obtain ⟨r, hr, rfl⟩ := List.mem_map.1 (List.max?_mem hmax)
    have := h r (Store.mem_nodeRows.1 hr).1
    simp only [Option.getD_some]
    omega

/-- What the search for the tip has found: no sealed row, or one with the highest seq. -/
def IsTip (rows : List AuditRow) : Option AuditRow → Prop
  | none => ∀ r ∈ rows, r.isSealed = false
  | some tip => (tip ∈ rows ∧ tip.isSealed = true) ∧
      ∀ r ∈ rows, r.isSealed = true → r.monotonicSeq ≤ tip.monotonicSeq

theorem tipOf_eq (rows : List AuditRow) : tipOf rows = HashChain.tipOf auditLink rows := by
  have hstep : higherSealed = HashChain.higher auditLink := by
    funext best row
    simp only [higherSealed, HashChain.higher, AuditRow.isSealed_eq_false_iff, auditLink]
    cases best with
    | none | some => congr
  rw [tipOf, hstep, HashChain.tipOf]

theorem isTip_tipOf (rows : List AuditRow) : IsTip rows (tipOf rows) := by
  have htip := HashChain.isTip_tipOf auditLink rows
  rw [← tipOf_eq] at htip
  cases htipOf : tipOf rows with
  | none =>
    rw [htipOf] at htip
    exact fun r hr => AuditRow.isSealed_eq_false_iff.2 (htip r hr)
  | some tip =>
    rw [htipOf] at htip
    exact ⟨⟨htip.1.1, AuditRow.isSealed_iff.2 htip.1.2⟩,
      fun r hr hs => htip.2 r hr (AuditRow.isSealed_iff.1 hs)⟩

/-- A valid row above a chain that links to its last row, or to genesis where nothing is sealed. -/
theorem NodeOk.insert_top {rows : Set AuditRow} (hok : NodeOk check rows) {x : AuditRow}
    (hs : x.isSealed = true) (hcheck : check x = none)
    (habove : ∀ r ∈ rows, r.monotonicSeq < x.monotonicSeq)
    (hlink : ∀ r ∈ rows, r.isSealed = true → (∀ w ∈ rows, w.monotonicSeq ≤ r.monotonicSeq) →
      x.prevHash = r.hash) (hgenesis : (∀ r ∈ rows, r.isSealed = false) → x.prevHash = "genesis") :
    NodeOk check (insert x rows) := by
  simp only [AuditRow.isSealed_iff, AuditRow.isSealed_eq_false_iff] at hs hlink hgenesis
  exact nodeOk_iff.2 ((nodeOk_iff.1 hok).insert_top hs hcheck habove hlink hgenesis)

section

variable (store : Store) (token : Token) (row : AuditRow)

@[simp] theorem Store.allocated_id : (store.allocated H token row).id = row.id := rfl

@[simp] theorem Store.allocated_sourceNodeId :
    (store.allocated H token row).sourceNodeId = row.sourceNodeId := rfl

@[simp] theorem Store.allocated_monotonicSeq :
    (store.allocated H token row).monotonicSeq = store.nextSeq row.sourceNodeId := rfl

theorem Store.allocated_isSealed : (store.allocated H token row).isSealed = true :=
  sealRow_isSealed _ _ _

theorem Store.rowBreak_allocated : rowBreak H (store.allocated H token row) = none :=
  rowBreak_sealRow _ _ _

end

@[simp] theorem AuditRow.isSealed_stored (row : AuditRow) : row.stored.isSealed = row.isSealed := rfl

/-- What allocation stores of a row that the columns can hold. -/
theorem stored_sealRow {token : Token} {prevHash : String} {row : AuditRow}
    (h : row.wireVersion = "1") :
    (sealRow H token prevHash row).stored = sealRow H token prevHash row := by
  have hsalt : orNone (some (sealSalt token row)) = some (sealSalt token row) := by
    simp [orNone, sealSalt_ne_empty]
  have hcommit : ∀ data, orNone (some (H.hexdigest data)) = some (H.hexdigest data) := by
    intro data
    simp [orNone, H.nonempty]
  simp only [AuditRow.stored, sealRow, detailCommitment, hsalt, hcommit, ← h]
  rfl

theorem StoreOk.append (hok : StoreOk H rows) {x : AuditRow} (hpos : 1 ≤ x.monotonicSeq)
    (habove : ∀ r ∈ rows, r.sourceNodeId = x.sourceNodeId → r.monotonicSeq < x.monotonicSeq)
    (hchains : ChainsOk H (rows ++ [x])) : StoreOk H (rows ++ [x]) := by
  have hmem : ∀ {r}, r ∈ rows ++ [x] ↔ r ∈ rows ∨ r = x := by simp
  refine ⟨?_, ?_, ?_, hchains⟩
  · intro r hr
    rcases hmem.1 hr with hr | rfl
    · exact hok.nonneg r hr
    · omega
  · intro r hr hrs
    rcases hmem.1 hr with hr | rfl
    · exact hok.sealedPos r hr hrs
    · exact hpos
  · intro r hr r' hr' hrn hrpos hrseq
    rcases hmem.1 hr with hold | rfl
    · rcases hmem.1 hr' with hold' | rfl
      · exact hok.seqUnique r hold r' hold' hrn hrpos hrseq
      · have := habove r hold hrn
        omega
    · rcases hmem.1 hr' with hold' | rfl
      · have := habove r' hold' hrn.symm
        omega
      · rfl

theorem Store.insertRowCore_rows (store : Store) (row : AuditRow) :
    (store.insertRowCore row).1.rows =
      if row.id ∈ store.rows.map (·.id) then store.rows else store.rows ++ [row.stored] := by
  unfold Store.insertRowCore
  split_ifs <;> rfl

/-- The next row links to the tip. -/
theorem Store.nextPrevHash_eq (store : Store) (node : String) :
    store.nextPrevHash node = HashChain.tipHash auditLink (store.nodeRows node) := by
  rw [Store.nextPrevHash, Store.tip, tipOf_eq, HashChain.tipHash]
  cases HashChain.tipOf auditLink (store.nodeRows node) <;> rfl

/-- What allocation adds to the chains. -/
theorem Store.chains_allocated (h : ChainsOk H store.rows) (token : Token) (row : AuditRow) :
    ChainsOk H (store.rows ++ [store.allocated H token row]) := by
  refine HashChain.forall_nodes_concat h (nodeOk_iff.2 ?_)
  have hset : {r | r ∈ store.rows ∧ r.sourceNodeId = row.sourceNodeId}
      = {r | r ∈ store.nodeRows row.sourceNodeId} := by
    ext r
    exact Store.mem_nodeRows.symm
  have hnode := nodeOk_iff.1 (h row.sourceNodeId)
  rw [hset] at hnode
  rw [Store.allocated_sourceNodeId, hset]
  refine hnode.grow (fun r hr r' hr' hid => ?_)
    (AuditRow.isSealed_iff.1 (store.allocated_isSealed token row))
    (store.rowBreak_allocated token row) (fun r hr => ?_) (store.nextPrevHash_eq _)
  · exact store.eq_of_id_eq (Store.mem_nodeRows.1 hr).1 (Store.mem_nodeRows.1 hr').1 hid
  · exact Store.lt_nextSeq (Store.mem_nodeRows.1 hr).1 (Store.mem_nodeRows.1 hr).2

/-- **Allocation keeps every chain verifiable**, when the columns can hold the row. -/
theorem StoreOk.allocate (hok : StoreOk H store.rows) {token : Token} {row : AuditRow}
    (hwire : row.wireVersion = "1" ∨ row.id ∈ store.rows.map (·.id)) :
    StoreOk H (store.insertRowCore (store.allocated H token row)).1.rows := by
  rw [Store.insertRowCore_rows]
  split_ifs with hid
  · exact hok
  have hstored : (store.allocated H token row).stored = store.allocated H token row :=
    stored_sealRow (hwire.resolve_right hid)
  rw [hstored]
  exact hok.append (Store.one_le_nextSeq hok.nonneg _) (fun r hr hrn => Store.lt_nextSeq hr hrn)
    (Store.chains_allocated hok.chains token row)

end Fasten
