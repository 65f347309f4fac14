import Fasten.Lib.Table
import Fasten.RowHash.Binding
import Fasten.Store.Chain

set_option autoImplicit false

/-! # What a successful allocate says

`allocate_and_insert_originated` of the two Python stores (`python/fasten/store/sqlite.py`,
`python/fasten/store/postgres.py`), as the caller sees it: the row it returns, against the table it
leaves. The two treat an id that is already stored differently: SQLite ignores the insert and
returns the row it sealed, Postgres returns the caller's row with the stored chain columns. -/

namespace Fasten

/-- What the chain knows of a stored row. -/
structure Place where
  id : String
  monotonicSeq : Int
  prevHash : String
  hash : String
  deriving DecidableEq

def AuditRow.place (row : AuditRow) : Place :=
  ⟨row.id, row.monotonicSeq, row.prevHash, row.hash⟩

/-- The table holds the returned row's place, sealed, and the row passes the check. -/
structure Truthful (table : List Place) (returned : Place) (passes : Prop) : Prop where
  held : returned ∈ table
  isSealed : returned.hash ≠ ""
  passes : passes

/-- A returned row that is in the table. -/
theorem truthful_iff_of_mem {R : Type} {rows : List R} {place : R → Place} {r : R} (hr : r ∈ rows)
    {returned : Place} (hplace : returned = place r) {passes : Prop} :
    Truthful (rows.map place) returned passes ↔ returned.hash ≠ "" ∧ passes :=
  ⟨fun h => ⟨h.isSealed, h.passes⟩, fun h => ⟨hplace ▸ List.mem_map_of_mem hr, h.1, h.2⟩⟩

/-- A store that ignores the insert of a stored id holds the returned row exactly when the id is new:
    the returned seq is above those of its node, and no row of another node has the returned place. -/
theorem truthful_iff_of_ignored {R : Type} {rows rows' : List R} {place : R → Place}
    {node : R → String} {id n : String} {returned : Place} {passes : Prop}
    (hfresh : id ∉ rows.map (fun r => (place r).id) → Truthful (rows'.map place) returned passes)
    (hignored : id ∈ rows.map (fun r => (place r).id) → rows' = rows)
    (hseq : ∀ r ∈ rows, node r = n → (place r).monotonicSeq < returned.monotonicSeq)
    (hnode : ∀ r ∈ rows, place r = returned → node r = n) :
    Truthful (rows'.map place) returned passes ↔ id ∉ rows.map (fun r => (place r).id) := by
  refine ⟨fun ht hid => ?_, hfresh⟩
  have hheld := ht.held
  rw [hignored hid] at hheld
  obtain ⟨r, hr, hplace⟩ := List.mem_map.1 hheld
  exact absurd (hseq r hr (hnode r hr hplace)) (hplace ▸ lt_irrefl _)

/-- A store that answers a stored id with the chain columns of its row: that row must have been
    sealed, as the caller's row. -/
theorem truthful_iff_of_answered {R S : Type} {rows : List R} {place : R → Place} {id : R → String}
    (hnodup : (rows.map id).Nodup) {r : R} (hr : r ∈ rows) {returned : Place}
    (hplace : returned = place r) {passes : Prop} {sealedAs : R → S → Prop} {resends : S → Prop}
    (hsealed : (place r).hash ≠ "" → ∃ s, sealedAs r s)
    (hhash : ∀ s, sealedAs r s → (place r).hash ≠ "")
    (hpasses : ∀ s, sealedAs r s → (passes ↔ resends s)) :
    Truthful (rows.map place) returned passes
      ↔ ∀ r' ∈ rows, id r' = id r → ∃ s, sealedAs r' s ∧ resends s := by
  rw [truthful_iff_of_mem hr hplace, hplace]
  constructor
  · rintro ⟨hhash, hpass⟩ r' hr' hid
    obtain rfl := List.inj_on_of_nodup_map hnodup hr' hr hid
    obtain ⟨s, hs⟩ := hsealed hhash
    exact ⟨s, hs, (hpasses s hs).1 hpass⟩
  · intro hall
    obtain ⟨s, hs, hresends⟩ := hall r hr rfl
    exact ⟨hhash s hs, (hpasses s hs).2 hresends⟩

/-! ## SQLite -/

/-- The call, with the `OverflowError` of the driver for a seq that is no 64-bit integer. -/
def Store.allocate (H : Sha256) (store : Store) (token : Token) (row : AuditRow) :
    Option (AuditRow × Store) :=
  if maxSeq < store.nextSeq row.sourceNodeId then none
  else store.allocateAndInsertOriginated H token row

section

variable {H : Sha256} {store store' : Store} {token : Token} {row returned : AuditRow}

theorem place_stored (row : AuditRow) : row.stored.place = row.place := rfl

theorem Store.allocate_of_origin (H : Sha256) (store : Store) (token : Token) {row : AuditRow}
    (horigin : row.originId = row.id) (hroom : store.nextSeq row.sourceNodeId ≤ maxSeq) :
    store.allocate H token row = some (store.allocated H token row,
      (store.insertRowCore (store.allocated H token row)).1) := by
  rw [Store.allocate, if_neg (not_lt.2 hroom), Store.allocateAndInsertOriginated,
    if_neg (not_not.2 horigin)]

/-- What a call that returns has done. -/
theorem Store.allocate_eq_some (h : store.allocate H token row = some (returned, store')) :
    returned = store.allocated H token row ∧ store' = (store.insertRowCore returned).1 := by
  unfold Store.allocate Store.allocateAndInsertOriginated at h
  split_ifs at h
  cases h
  exact ⟨rfl, rfl⟩

theorem Store.allocated_hash_ne_empty : (store.allocated H token row).hash ≠ "" :=
  H.nonempty _

/-- A row the table did not have under its id is stored as it is returned. -/
theorem Store.truthful_of_fresh (h : store.allocate H token row = some (returned, store'))
    (hfresh : row.id ∉ store.rows.map (·.id)) :
    Truthful (store'.rows.map AuditRow.place) returned.place (rowBreak H returned = none) := by
  obtain ⟨rfl, rfl⟩ := Store.allocate_eq_some h
  refine ⟨?_, Store.allocated_hash_ne_empty, store.rowBreak_allocated token row⟩
  rw [Store.insertRowCore_rows, Store.allocated_id, if_neg hfresh, List.map_append]
  exact List.mem_append_right _ (List.mem_singleton.2 (place_stored _).symm)

/-- The row stored under the id, if there is one, is on the row's node or passes the check. -/
def Store.SoundUnder (H : Sha256) (store : Store) (row : AuditRow) : Prop :=
  ∀ r ∈ store.rows, r.id = row.id →
    r.sourceNodeId = row.sourceNodeId ∨ (r.hash ≠ "" → rowBreak H r = none)

/-- **When a SQLite allocate is truthful**: if no row is stored under the id. A stored row on
    another node could only have the returned hash if it failed the check, as the hash of a row
    that passes names its node. -/
theorem Store.truthful_allocate_iff (hH : Function.Injective H.hexdigest)
    (hsound : store.SoundUnder H row) (h : store.allocate H token row = some (returned, store')) :
    Truthful (store'.rows.map AuditRow.place) returned.place (rowBreak H returned = none)
      ↔ row.id ∉ store.rows.map (·.id) := by
  have hfresh := Store.truthful_of_fresh h
  obtain ⟨rfl, rfl⟩ := Store.allocate_eq_some h
  refine truthful_iff_of_ignored hfresh (fun hid => ?_)
    (fun r hr (hnode : r.sourceNodeId = row.sourceNodeId) => Store.lt_nextSeq hr hnode)
    fun r hr hplace => ?_
  · rw [Store.insertRowCore_rows, Store.allocated_id]
    exact if_pos hid
  · refine (hsound r hr (congrArg Place.id hplace)).elim (fun hnode => hnode) fun hpasses => ?_
    have hhash : r.hash = (store.allocated H token row).hash := congrArg Place.hash hplace
    exact (agreeHashed_of_hash_eq hH (hpasses (hhash ▸ Store.allocated_hash_ne_empty))
      (store.rowBreak_allocated token row) hhash).sourceNodeId

/-- The first allocate of an empty store. -/
theorem Store.allocate_empty (H : Sha256) (token : Token) {row : AuditRow}
    (horigin : row.originId = row.id) :
    ∃ store, Store.empty.allocate H token row = some (Store.empty.allocated H token row, store)
      ∧ store.rows = [(Store.empty.allocated H token row).stored] := by
  have hnext : Store.empty.nextSeq row.sourceNodeId = 1 := rfl
  exact ⟨_, Store.allocate_of_origin H Store.empty token horigin (hnext.trans_le (by decide)),
    Store.insertRowCore_rows _ _⟩

/-- Two rows allocated one after the other. -/
theorem Store.allocate_two (H : Sha256) (token token' : Token) {row row' : AuditRow}
    (horigin : row.originId = row.id) (horigin' : row'.originId = row'.id) :
    ∃ first store second store', Store.empty.allocate H token row = some (first, store)
      ∧ store.allocate H token' row' = some (second, store')
      ∧ store.rows = [(Store.empty.allocated H token row).stored] := by
  obtain ⟨store, hfirst, hrows⟩ := Store.allocate_empty H token horigin
  have hnext : store.nextSeq row'.sourceNodeId ≤ 2 := by
    by_cases hnode : row.sourceNodeId = row'.sourceNodeId <;>
      simp [Store.nextSeq, Store.nodeRows, hrows, AuditRow.stored, Store.empty, hnode]
  exact ⟨_, store, _, _, hfirst, Store.allocate_of_origin H store token' horigin'
    (hnext.trans (by decide)), hrows⟩

/-- **A retry**: a row is stored, its reply is lost, and the call that sends it again returns a row
    that is not stored. -/
theorem Store.untruthful_retry (hH : Function.Injective H.hexdigest) (token retryToken : Token)
    {row : AuditRow} (horigin : row.originId = row.id) :
    ∃ first store second store', Store.empty.allocate H token row = some (first, store)
      ∧ store.allocate H retryToken row = some (second, store')
      ∧ ¬Truthful (store'.rows.map AuditRow.place) second.place (rowBreak H second = none) := by
  obtain ⟨first, store, second, store', hfirst, hretry, hrows⟩ :=
    Store.allocate_two H token retryToken horigin horigin
  refine ⟨first, store, second, store', hfirst, hretry, fun ht => ?_⟩
  refine (Store.truthful_allocate_iff hH (fun r hr _ => Or.inl ?_) hretry).1 ht ?_
  · rw [hrows] at hr
    rw [List.mem_singleton.1 hr]
    rfl
  · rw [hrows]
    exact List.mem_singleton_self _

end

/-! ## Postgres -/

/-- The caller's row with the chain columns of the stored one. -/
def AuditRow.answered (row stored : AuditRow) : AuditRow :=
  { row with
    monotonicSeq := stored.monotonicSeq
    prevHash := stored.prevHash
    hash := stored.hash
    canonicalFormId := stored.canonicalFormId }

/-- `allocate_and_insert_originated` of `PostgresStore`. The table has the columns of the SQLite
    one, and `ON CONFLICT (id) DO NOTHING` is its `INSERT OR IGNORE`; a seq that is no `BIGINT` is an
    error. -/
def Store.allocatePg (H : Sha256) (store : Store) (token : Token) (row : AuditRow) :
    Option (AuditRow × Store) :=
  if row.originId ≠ row.id then none
  else
    match store.rows.find? (fun r => decide (r.id = row.id)) with
    | some existing => some (row.answered existing, store)
    | none => store.allocate H token row

section

variable {H : Sha256} {store store' : Store} {token : Token} {row returned : AuditRow}

theorem Store.allocatePg_of_stored (horigin : row.originId = row.id) {r : AuditRow}
    (hr : r ∈ store.rows) (hid : r.id = row.id) :
    store.allocatePg H token row = some (row.answered r, store) := by
  rw [Store.allocatePg, if_neg (not_not.2 horigin),
    (Table.find?_eq_some_iff store.primaryKey).2 ⟨hr, hid⟩]

theorem Store.allocatePg_of_fresh (horigin : row.originId = row.id)
    (hfresh : ∀ r ∈ store.rows, r.id ≠ row.id) :
    store.allocatePg H token row = store.allocate H token row := by
  rw [Store.allocatePg, if_neg (not_not.2 horigin), List.find?_eq_none.2 (by simpa using hfresh)]

theorem Store.originId_of_allocatePg (h : store.allocatePg H token row = some (returned, store')) :
    row.originId = row.id := by
  by_contra horigin
  rw [Store.allocatePg, if_pos horigin] at h
  cases h

/-- The chain columns of the stored row are those of a row that `seal` returned. -/
structure SealedAs (H : Sha256) (stored s : AuditRow) : Prop where
  isSealed : ∃ token prevHash base, s = sealRow H token prevHash base
  place : stored.place = s.place
  form : stored.canonicalFormId = "2"

/-- The row at the place of a sealed one. -/
def AuditRow.placedAs (row s : AuditRow) : AuditRow :=
  { row with monotonicSeq := s.monotonicSeq, prevHash := s.prevHash, canonicalFormId := "2" }

/-- The caller's row is the sealed one again: its salt and commitment open to its `detail`, and its
    other hashed fields are those of the sealed row. -/
structure Resends (H : Sha256) (row s : AuditRow) : Prop where
  opens : OpensCommitment H row
  agrees : AgreeHashed (row.placedAs s) s

theorem Store.resends_allocated (hH : Function.Injective H.hexdigest) (store : Store)
    (token : Token) (row : AuditRow) :
    SealedAs H (store.allocated H token row).stored (store.allocated H token row)
      ∧ Resends H (store.allocated H token row) (store.allocated H token row) :=
  have hpasses := store.rowBreak_allocated token row
  ⟨⟨⟨_, _, _, rfl⟩, rfl, rfl⟩, opensCommitment_sealRow _ _ _,
    agreeHashed_of_hash_eq hH hpasses hpasses rfl⟩

/-- **When the answer passes**: the hash is over the fields that were sealed, so the caller's must
    be those. -/
theorem AuditRow.rowBreak_answered_iff (hH : Function.Injective H.hexdigest) {stored s : AuditRow}
    (hs : SealedAs H stored s) : rowBreak H (row.answered stored) = none ↔ Resends H row s := by
  obtain ⟨⟨token, prevHash, base, hseal⟩, hplace, hform⟩ := hs
  have hformId : (row.answered stored).formId = "2" := formId_of_canonicalFormId hform
  have hhash : stored.hash = s.hash := congrArg Place.hash hplace
  have hanswered : row.answered stored = { row.placedAs s with hash := s.hash } := by
    rw [AuditRow.answered, AuditRow.placedAs, hform, hhash,
      show stored.monotonicSeq = s.monotonicSeq from congrArg Place.monotonicSeq hplace,
      show stored.prevHash = s.prevHash from congrArg Place.prevHash hplace]
  constructor
  · intro h
    obtain ⟨form, hofId, hopens, -⟩ := rowBreak_eq_none_iff.1 h
    have hagree : AgreeHashed (row.answered stored) s :=
      agreeHashed_of_hash_eq hH h (hseal ▸ rowBreak_sealRow _ _ _) hhash
    rw [hanswered] at hagree
    exact ⟨hopens (Form.ofId_eq_two hofId hformId), { hagree with }⟩
  · rintro ⟨hopens, hagree⟩
    have hfields : hashedFields (row.answered stored).rowDict form2Excluded
        = hashedFields s.rowDict form2Excluded := by
      rw [hanswered]
      exact hagree.hashedFields_eq (formId_of_canonicalFormId rfl)
    have hsform : s.formId = s.canonicalFormId := hseal ▸ formId_of_canonicalFormId rfl
    have hsealed : rowHashForm2 H s.toDict canonicalJson = s.hash := hseal ▸ rfl
    refine rowBreak_of_form2 hformId hopens ?_ (row.answered stored).shippedAt
    rw [rowHashForm2, hfields, rowDict_eq_toDict hsform]
    exact hsealed.trans hhash.symm

/-- The row stored under the id, if there is one with a hash, was sealed. -/
def Store.SealedUnder (H : Sha256) (store : Store) (row : AuditRow) : Prop :=
  ∀ r ∈ store.rows, r.id = row.id → r.hash ≠ "" → ∃ s, SealedAs H r s

/-- **When a Postgres allocate is truthful**: a row stored under the id must be sealed, and the
    caller's row be that row again. -/
theorem Store.truthful_allocatePg_iff (hH : Function.Injective H.hexdigest)
    (hsealed : store.SealedUnder H row)
    (h : store.allocatePg H token row = some (returned, store')) :
    Truthful (store'.rows.map AuditRow.place) returned.place (rowBreak H returned = none)
      ↔ ∀ r ∈ store.rows, r.id = row.id → ∃ s, SealedAs H r s ∧ Resends H row s := by
  have horigin := Store.originId_of_allocatePg h
  by_cases hstored : ∃ r ∈ store.rows, r.id = row.id
  · obtain ⟨r, hr, hid⟩ := hstored
    cases (Store.allocatePg_of_stored horigin hr hid).symm.trans h
    have hplace : (row.answered r).place = r.place := by
      simp [AuditRow.place, AuditRow.answered, hid]
    rw [← hid]
    refine truthful_iff_of_answered store.primaryKey hr hplace (hsealed r hr hid) (fun s hs => ?_)
      fun s hs => AuditRow.rowBreak_answered_iff hH hs
    obtain ⟨token, prevHash, base, rfl⟩ := hs.isSealed
    exact congrArg Place.hash hs.place ▸ H.nonempty _
  · push Not at hstored
    rw [Store.allocatePg_of_fresh horigin hstored] at h
    refine iff_of_true (Store.truthful_of_fresh h ?_) (fun r hr hid => absurd hid (hstored r hr))
    intro hmem
    obtain ⟨r, hr, hid⟩ := List.mem_map.1 hmem
    exact hstored r hr hid

/-- A row that is sent again as it was returned. -/
theorem Store.allocatePg_resent (hH : Function.Injective H.hexdigest) (token retryToken : Token)
    {row : AuditRow} (horigin : row.originId = row.id) :
    ∃ first store again, Store.empty.allocatePg H token row = some (first, store)
      ∧ store.allocatePg H retryToken first = some (again, store)
      ∧ ∀ r ∈ store.rows, ∃ s, SealedAs H r s ∧ Resends H first s := by
  obtain ⟨store, hfirst, hrows⟩ := Store.allocate_empty H token horigin
  have hmem : (Store.empty.allocated H token row).stored ∈ store.rows :=
    hrows ▸ List.mem_singleton_self _
  have hfresh : ∀ r ∈ Store.empty.rows, r.id ≠ row.id := fun r hr => absurd hr List.not_mem_nil
  have horigin' : (Store.empty.allocated H token row).originId
      = (Store.empty.allocated H token row).id := horigin
  refine ⟨_, store, _, (Store.allocatePg_of_fresh horigin hfresh).trans hfirst,
    Store.allocatePg_of_stored horigin' hmem rfl, fun r hr => ?_⟩
  rw [hrows] at hr
  rw [List.mem_singleton.1 hr]
  exact ⟨_, Store.empty.resends_allocated hH token row⟩

/-- A row that is sent again has no salt yet, and the stored one's is not copied. -/
theorem AuditRow.rowBreak_answered {stored : AuditRow} (hform : stored.canonicalFormId = "2")
    (hdetail : row.detail.isSome) (hsalt : row.detailSalt.getD "" = "") :
    rowBreak H (row.answered stored) = some (.missingSalt row.id) := by
  obtain ⟨detail, hdetail⟩ := Option.isSome_iff_exists.1 hdetail
  simp [rowBreak, AuditRow.answered, AuditRow.formId, hform, Form.ofId, detailBreak, hdetail, hsalt]

/-- **A retry** that finds its row stored is answered with a row that fails the check. -/
theorem Store.untruthful_retryPg (H : Sha256) (token retryToken : Token) {row : AuditRow}
    (horigin : row.originId = row.id) (hdetail : row.detail.isSome)
    (hsalt : row.detailSalt.getD "" = "") :
    ∃ first store second store', Store.empty.allocatePg H token row = some (first, store)
      ∧ store.allocatePg H retryToken row = some (second, store')
      ∧ rowBreak H second = some (.missingSalt row.id) := by
  obtain ⟨store, hfirst, hrows⟩ := Store.allocate_empty H token horigin
  have hmem : (Store.empty.allocated H token row).stored ∈ store.rows :=
    hrows ▸ List.mem_singleton_self _
  have hfresh : ∀ r ∈ Store.empty.rows, r.id ≠ row.id := fun r hr => absurd hr List.not_mem_nil
  exact ⟨_, store, _, store, (Store.allocatePg_of_fresh horigin hfresh).trans hfirst,
    Store.allocatePg_of_stored horigin hmem rfl, AuditRow.rowBreak_answered rfl hdetail hsalt⟩

end

end Fasten
