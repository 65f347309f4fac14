import Fasten.Store.Chain
import Fasten.Store.Columns

set_option autoImplicit false

/-! # Runs of the store

Any sequence of store operations, from any store whose chains verify, leaves chains that verify,
as long as every row it stores has the `wire_version` the table can give back. -/

namespace Fasten

/-- The operations that change a store, and the listing that `mark_shipped` gets its ids from. -/
inductive StoreOp where
  | allocate (token : Token) (row : AuditRow)
  | listUnshipped (limit : Int) (scope : Option (String × String))
  | markShipped (ids : List String) (now : Datetime)
  | redactRows (ids : List String)
  | purge (before : Datetime) (respectUnshipped : Bool)

/-- A store and the ids `list_unshipped` has returned. -/
structure Session where
  store : Store
  listed : List String

section

variable (H : Sha256)

def Session.step (s : Session) : StoreOp → Session
  | .allocate token row =>
    match s.store.allocateAndInsertOriginated H token row with
    | none => s
    | some (_, store) => { s with store := store }
  | .listUnshipped limit scope =>
    { s with listed := s.listed ++ (s.store.listUnshipped limit scope).map (·.id) }
  | .markShipped ids now => { s with store := s.store.markShipped ids now }
  | .redactRows ids => { s with store := s.store.redactRows ids }
  | .purge before respectUnshipped => { s with store := s.store.purge before respectUnshipped }

end

/-- Only ids that were listed are marked as shipped. -/
def StoreOp.Allowed (s : Session) : StoreOp → Prop
  | .markShipped ids _ => ∀ i ∈ ids, i ∈ s.listed
  | _ => True

/-- A row that the operation inserts has the `wire_version` that `_row` reads. -/
def StoreOp.KeepsWireVersion (s : Session) : StoreOp → Prop
  | .allocate _ row =>
    row.wireVersion = "1" ∨ row.originId ≠ row.id ∨ row.id ∈ s.store.rows.map (·.id)
  | _ => True

variable {H : Sha256}

/-! ## The invariant of a run -/

/-- The chains verify, and rows that may be marked as shipped stay valid. -/
structure SessionOk (H : Sha256) (s : Session) : Prop where
  storeOk : StoreOk H s.store.rows
  shippable : ∀ r ∈ s.store.rows, r.id ∈ s.listed → ShippableRow H r

theorem shippable_of_unshipped {rows : List AuditRow} (hok : StoreOk H rows) {r : AuditRow}
    (hr : r ∈ rows) (h : r.shippedAt = none) : ShippableRow H r := fun hs =>
  rowBreak_setShippedAt ((hok.chains r.sourceNodeId).checked r ⟨hr, rfl⟩ hs) h

/-- An allocated row stays valid, even one that had a `shipped_at` before. -/
theorem shippable_allocated (store : Store) (token : Token) (row : AuditRow) :
    ShippableRow H (store.allocated H token row) := fun _ shippedAt =>
  rowBreak_sealRow_shippedAt _ _ _ shippedAt

theorem ShippableRow.redactedRow {ids : List String} {r : AuditRow} (h : ShippableRow H r) :
    ShippableRow H (redactedRow ids r) := by
  intro hs shippedAt
  have hsealed : r.isSealed = true := by
    unfold Fasten.redactedRow at hs
    split_ifs at hs <;> exact hs
  have hcheck : rowBreak H (Fasten.redactedRow ids { r with shippedAt := shippedAt }) = none :=
    rowBreak_redactedRow hsealed (h hsealed shippedAt)
  unfold Fasten.redactedRow at hcheck ⊢
  split_ifs at hcheck ⊢ <;> exact hcheck

theorem mem_listUnshipped {store : Store} {limit : Int} {scope : Option (String × String)}
    {r : AuditRow} (h : r ∈ store.listUnshipped limit scope) :
    r ∈ store.rows ∧ r.shippedAt = none := by
  have hsorted : r ∈ (store.rows.filter (unshipped scope)).insertionSort
      (fun a b => a.monotonicSeq ≤ b.monotonicSeq) := by
    unfold Store.listUnshipped at h
    split_ifs at h
    · exact h
    · exact List.mem_of_mem_take h
  rw [List.mem_insertionSort, List.mem_filter] at hsorted
  refine ⟨hsorted.1, ?_⟩
  simp only [unshipped, Bool.and_eq_true, Option.isNone_iff_eq_none] at hsorted
  exact hsorted.2.1

/-- **One step.** -/
theorem SessionOk.step {s : Session} (hok : SessionOk H s) {op : StoreOp}
    (hop : op.Allowed s ∧ op.KeepsWireVersion s) : SessionOk H (s.step H op) := by
  cases op with
  | allocate token row =>
    simp only [Session.step, Store.allocateAndInsertOriginated]
    by_cases horigin : row.originId ≠ row.id
    · rw [if_pos horigin]
      exact hok
    rw [if_neg horigin]
    have hwire : row.wireVersion = "1" ∨ row.id ∈ s.store.rows.map (·.id) :=
      hop.2.imp_right (fun h => h.resolve_left horigin)
    refine ⟨hok.storeOk.allocate hwire, fun r hr hlisted => ?_⟩
    simp only [Store.insertRowCore_rows] at hr
    split_ifs at hr with hid
    · exact hok.shippable r hr hlisted
    · rcases List.mem_append.1 hr with hr | hr
      · exact hok.shippable r hr hlisted
      · -- the id may have been listed for a row that is gone
        have hstored : (s.store.allocated H token row).stored = s.store.allocated H token row :=
          stored_sealRow (hwire.resolve_right hid)
        rw [List.mem_singleton.1 hr, hstored]
        exact shippable_allocated _ _ _
  | listUnshipped limit scope =>
    refine ⟨hok.storeOk, fun r hr hlisted => ?_⟩
    rcases List.mem_append.1 hlisted with hlisted | hnew
    · exact hok.shippable r hr hlisted
    · obtain ⟨r', hr', hid⟩ := List.mem_map.1 hnew
      obtain ⟨hrows, hship⟩ := mem_listUnshipped hr'
      rw [← s.store.eq_of_id_eq hrows hr hid]
      exact shippable_of_unshipped hok.storeOk hrows hship
  | markShipped ids now =>
    have hids : ∀ r ∈ s.store.rows, r.id ∈ ids → ShippableRow H r := fun r hr hid =>
      hok.shippable r hr (hop.1 r.id hid)
    have hkeeps := keepsChain_shippedRow hids now
    refine ⟨hok.storeOk.map hkeeps, fun x hx hlisted => ?_⟩
    obtain ⟨r, hr, rfl⟩ := List.mem_map.1 hx
    rw [hkeeps.id] at hlisted
    intro hs shippedAt
    rw [hkeeps.isSealed] at hs
    have hcheck := hok.shippable r hr hlisted hs shippedAt
    unfold shippedRow
    split_ifs <;> exact hcheck
  | redactRows ids =>
    refine ⟨hok.storeOk.redactRows ids, fun x hx hlisted => ?_⟩
    have hrows : x ∈ (s.store.redactRows ids).rows := hx
    rw [Store.redactRows_rows] at hrows
    obtain ⟨r, hr, rfl⟩ := List.mem_map.1 hrows
    have hkeeps : KeepsChain H s.store.rows (redactedRow ids) := keepsChain_redactedRow _ _
    rw [hkeeps.id] at hlisted
    exact (hok.shippable r hr hlisted).redactedRow
  | purge before respectUnshipped =>
    refine ⟨hok.storeOk.purge before respectUnshipped, fun r hr hlisted => ?_⟩
    exact hok.shippable r (Store.mem_purge.1 hr).1 hlisted

/-! ## The result -/

/-- Rows keep their places, and all a row may lose is its `detail` and salt, if no hash covers
    them. -/
def RedactsOnly (store store' : Store) : Prop :=
  List.Forall₂ (fun r r' : AuditRow => r' = r ∨ (r.canonicalFormId = "2" ∨ r.isSealed = false) ∧
    r' = { r with detail := none, detailSalt := none }) store.rows store'.rows

theorem redactsOnly_redactRows (store : Store) (ids : List String) :
    RedactsOnly store (store.redactRows ids) := by
  rw [RedactsOnly, Store.redactRows_rows, List.forall₂_map_right_iff, List.forall₂_same]
  intro r _
  unfold redactedRow
  split_ifs with hred
  · exact Or.inr ⟨hred.2.imp_right AuditRow.isSealed_eq_false_iff.2, rfl⟩
  · exact Or.inl rfl

/-- **Stored chains stay verifiable.** From any store whose chains verify, in every run that stores
    no other `wire_version` than the one the table reads back, every node's rows verify, and a
    redaction changes nothing a hash covers. -/
theorem stored_chains_verify {store : Store} (hnonneg : ∀ r ∈ store.rows, 0 ≤ r.monotonicSeq)
    (hsealed : ∀ r ∈ store.rows, r.isSealed = true → 1 ≤ r.monotonicSeq)
    (hunique : ∀ r ∈ store.rows, ∀ r' ∈ store.rows, r.sourceNodeId = r'.sourceNodeId →
      1 ≤ r.monotonicSeq → r.monotonicSeq = r'.monotonicSeq → r = r')
    (hverify : ∀ node, (verifyChain (rowBreak H) (store.nodeRows node) [] false).ok = true)
    (ops : List StoreOp)
    (hops : Run.AllAlong (Session.step H) (fun s op => op.Allowed s ∧ op.KeepsWireVersion s)
      ⟨store, []⟩ ops) :
    (∀ node, (verifyChain (rowBreak H)
      ((ops.foldl (Session.step H) ⟨store, []⟩).store.nodeRows node) [] false).ok = true) ∧
    ∀ ids, RedactsOnly (ops.foldl (Session.step H) ⟨store, []⟩).store
      ((ops.foldl (Session.step H) ⟨store, []⟩).store.redactRows ids) := by
  have hstart : SessionOk H ⟨store, []⟩ := by
    refine ⟨⟨hnonneg, hsealed, hunique, fun node => ?_⟩, fun r _ h => absurd h List.not_mem_nil⟩
    exact Store.verifyChain_nodeRows_iff.1 (hverify node)
  have hend := Run.invariant_of_step (fun s op (hs : SessionOk H s) hop => hs.step hop) ops _
    hstart hops
  refine ⟨fun node => ?_, fun ids => redactsOnly_redactRows _ ids⟩
  exact Store.verifyChain_nodeRows_iff.2 (hend.storeOk.chains node)

/-- A row is allocated, listed, marked as shipped, redacted and purged. -/
def lifeOfARow : List StoreOp :=
  [.allocate Token.sample (AuditRow.sample "evt-1" 0), .listUnshipped 100 none,
    .markShipped ["evt-1"] Datetime.epoch, .redactRows ["evt-1"], .purge Datetime.epoch true]

theorem stored_chains_verify_lifeOfARow :
    (verifyChain (rowBreak plainDigest) ((lifeOfARow.foldl (Session.step plainDigest)
      ⟨Store.empty, []⟩).store.nodeRows "edge") [] false).ok = true := by
  have hempty : ∀ {P : AuditRow → Prop}, ∀ r ∈ Store.empty.rows, P r := fun r hr =>
    absurd hr List.not_mem_nil
  refine (stored_chains_verify hempty hempty hempty (fun _ => rfl) lifeOfARow ?_).1 "edge"
  refine ⟨⟨trivial, Or.inl rfl⟩, ⟨trivial, trivial⟩, ⟨?_, trivial⟩, ⟨trivial, trivial⟩,
    ⟨trivial, trivial⟩, trivial⟩
  intro i hi
  rw [List.mem_singleton.1 hi]
  exact List.mem_cons_self

/-! ## Another wire version -/

theorem step_allocate_empty (H : Sha256) (token : Token) {row : AuditRow}
    (horigin : row.originId = row.id) :
    (Session.step H ⟨Store.empty, []⟩ (.allocate token row)).store.rows
      = [(Store.empty.allocated H token row).stored] := by
  simp [Session.step, Store.allocateAndInsertOriginated, horigin, Store.insertRowCore_rows,
    Store.empty]

theorem not_verifyChain_of_wireVersion (hH : Function.Injective H.hexdigest) (token : Token)
    (row : AuditRow) (horigin : row.originId = row.id) (hwire : row.wireVersion ≠ "1") :
    ¬(verifyChain (rowBreak H) ((Session.step H ⟨Store.empty, []⟩
      (.allocate token row)).store.nodeRows row.sourceNodeId) [] false).ok = true := by
  rw [Store.verifyChain_nodeRows_iff, step_allocate_empty H token horigin]
  intro hok
  have hcheck := hok.checked _ ⟨List.mem_singleton.2 rfl, rfl⟩
    (Store.empty.allocated_isSealed token row)
  exact rowBreak_stored_ne_none hH (Store.empty.rowBreak_allocated token row) hwire hcheck

/-- A row of wire version `"2"` breaks the chain of a store that was empty. -/
theorem stored_chains_break_wireVersion :
    ¬∀ (H : Sha256) (store : Store), (∀ r ∈ store.rows, 0 ≤ r.monotonicSeq) →
      (∀ r ∈ store.rows, r.isSealed = true → 1 ≤ r.monotonicSeq) →
      (∀ r ∈ store.rows, ∀ r' ∈ store.rows, r.sourceNodeId = r'.sourceNodeId →
        1 ≤ r.monotonicSeq → r.monotonicSeq = r'.monotonicSeq → r = r') →
      (∀ node, (verifyChain (rowBreak H) (store.nodeRows node) [] false).ok = true) →
      ∀ ops, Run.AllAlong (Session.step H) (fun s op => op.Allowed s) ⟨store, []⟩ ops →
        ∀ node, (verifyChain (rowBreak H)
          ((ops.foldl (Session.step H) ⟨store, []⟩).store.nodeRows node) [] false).ok = true := by
  intro h
  have hempty : ∀ {P : AuditRow → Prop}, ∀ r ∈ Store.empty.rows, P r := fun r hr =>
    absurd hr List.not_mem_nil
  have hbreak := not_verifyChain_of_wireVersion plainDigest_injective ⟨"5a17", by decide⟩
    { AuditRow.sample "evt-1" 0 with wireVersion := "2" } rfl (by decide)
  generalize { AuditRow.sample "evt-1" 0 with wireVersion := "2" } = row at hbreak
  exact hbreak (h plainDigest Store.empty hempty hempty hempty (fun _ => rfl)
    [.allocate _ row] ⟨trivial, trivial⟩ row.sourceNodeId)

end Fasten
