import Fasten.Allocate
import Fasten.GoRow.RoundTrip
import Fasten.GoVerify

set_option autoImplicit false

/-! # What a successful Go allocate says

`AllocateAndInsertOriginated` of the Go stores (`go/store.go`, `go/store_postgres.go`) against the
table it leaves, and the four stores side by side. The Go tables have a unique index on node and
seq as well, which SQLite's insert ignores a row for and Postgres's fails on. -/

namespace Fasten.Go

variable {T : Type}

/-! ## Tables -/

def Columns.nodeSeq (c : Columns T) : String × Int := (c.sourceNodeId, c.monotonicSeq)

def Columns.place (c : Columns T) : Place := ⟨c.id, c.monotonicSeq, c.prevHash, c.hash⟩

def Row.place (row : Row) : Place := ⟨row.id, row.monotonicSeq, row.prevHash, row.hash⟩

/-- An audit table of columns. -/
abbrev AuditTable (T : Type) := Table (Columns T) String (String × Int) Columns.id Columns.nodeSeq

namespace AuditTable

def empty (T : Type) : AuditTable T := Table.empty

variable (table : AuditTable T) (node : String)

def nodeRows : List (Columns T) := table.rows.filter (·.sourceNodeId == node)

/-- `COALESCE(MAX(monotonic_seq), 0)`, and one more, in an int64. -/
def nextSeq : Int := wrap ((((table.nodeRows node).map (·.monotonicSeq)).max?).getD 0 + 1)

/-- One step of `ORDER BY monotonic_seq DESC LIMIT 1` over rows with a hash. -/
def higherSealed (best : Option (Columns T)) (c : Columns T) : Option (Columns T) :=
  if c.hash = "" then best
  else
    match best with
    | none => some c
    | some b => if b.monotonicSeq ≤ c.monotonicSeq then some c else some b

def nextPrevHash : String :=
  match (table.nodeRows node).foldl higherSealed none with
  | some tip => tip.hash
  | none => "genesis"

end AuditTable

/-- The times of a row to the microsecond, as it is sealed. -/
def Row.truncateTimes (row : Row) : Row :=
  { row with
    timestamp := row.timestamp.truncate
    shippedAt := row.shippedAt.map Instant.truncate }

/-- The row `AllocateAndInsertOriginated` seals. -/
def AuditTable.allocated (H : Sha256) (table : AuditTable T) (token : Token) (row : Row) : Row :=
  Row.sealRow H token (table.nextPrevHash row.sourceNodeId)
    { row.truncateTimes with monotonicSeq := table.nextSeq row.sourceNodeId }

/-- `none` is the error for a row with another `origin_id`. The sealed row is returned even when the
    insert was ignored. -/
def SQLite.allocateAndInsertOriginated (H : Sha256) (table : AuditTable String) (token : Token)
    (row : Row) : Option (Row × AuditTable String) :=
  if row.originId ≠ row.id then none
  else
    let sealed := table.allocated H token row
    some (sealed, (table.insertOrIgnore (SQLite.insertRowExec sealed)).1)

/-- The caller's row with the chain columns of the stored one. -/
def Row.answered (row : Row) (stored : Columns T) : Row :=
  { row.truncateTimes with
    monotonicSeq := stored.monotonicSeq
    prevHash := stored.prevHash
    hash := stored.hash
    canonicalFormId := stored.canonicalFormId }

/-- A row whose id is stored is answered from the table. `none` is an error: another `origin_id`, a
    text the columns cannot hold, or a node and seq that are taken. -/
def Postgres.allocateAndInsertOriginated (column : Timestamptz) (H : Sha256)
    (table : AuditTable Instant) (token : Token) (row : Row) :
    Option (Row × AuditTable Instant) :=
  if row.originId ≠ row.id then none
  else
    match table.rows.find? (fun c => decide (c.id = row.id)) with
    | some existing => some (row.answered existing, table)
    | none =>
      let sealed := table.allocated H token row
      (Postgres.insertRowExec column sealed).bind fun c =>
        if c.nodeSeq ∈ table.rows.map Columns.nodeSeq then none
        else some (sealed, (table.insertOrIgnore c).1)

/-! ## Rows with one hash -/

theorem Row.sourceNodeId_eq_of_hash_eq {H : Sha256} (hH : Function.Injective H.hexdigest)
    {a b : Row} (ha : a.rowBreak H = none) (hb : b.rowBreak H = none) (h : a.hash = b.hash) :
    a.sourceNodeId = b.sourceNodeId := by
  obtain ⟨_, _, _, _, _, e, _, hhash⟩ := Row.rowBreak_eq_none_iff.1 ha
  obtain ⟨_, _, _, _, _, e', _, hhash'⟩ := Row.rowBreak_eq_none_iff.1 hb
  have hmaps := Row.numerals_eq_of_canon_eq (hH (hhash.trans (h.trans hhash'.symm)))
  simp only [Row.mapWith, Row.rowMap, numerals, JsonText.JsonTree.map,
    JsonText.JsonTree.mapMembers, JsonText.JsonTree.obj.injEq, List.cons.injEq, Prod.mk.injEq,
    JsonText.JsonTree.str.injEq, true_and] at hmaps
  tauto

variable {table : AuditTable T} {c : Columns T}

/-- A row read back has the columns' hash and node. -/
theorem scanRow_hash {time : T → Option Instant} {row : Row} (h : scanRow time c = some row) :
    row.hash = c.hash ∧ row.sourceNodeId = c.sourceNodeId := by
  simp only [scanRow, Option.bind_eq_some_iff, Option.map_eq_some_iff] at h
  obtain ⟨_, _, _, _, _, _, rfl⟩ := h
  exact ⟨rfl, rfl⟩

/-! ## The next seq -/

theorem AuditTable.mem_nodeRows {node : String} :
    c ∈ table.nodeRows node ↔ c ∈ table.rows ∧ c.sourceNodeId = node := by
  simp [AuditTable.nodeRows]

/-- The seqs of the node leave room for another in an int64. -/
def AuditTable.HasRoom (table : AuditTable T) (node : String) : Prop :=
  ∀ c ∈ table.rows, c.sourceNodeId = node → -2 ^ 63 ≤ c.monotonicSeq ∧ c.monotonicSeq < 2 ^ 63 - 1

theorem AuditTable.lt_nextSeq {node : String} (hroom : table.HasRoom node) (hc : c ∈ table.rows)
    (hnode : c.sourceNodeId = node) : c.monotonicSeq < table.nextSeq node := by
  have hmem : c.monotonicSeq ∈ (table.nodeRows node).map (·.monotonicSeq) :=
    List.mem_map_of_mem (AuditTable.mem_nodeRows.2 ⟨hc, hnode⟩)
  unfold AuditTable.nextSeq
  cases hmax : ((table.nodeRows node).map (·.monotonicSeq)).max? with
  | none =>
    rw [List.max?_eq_none_iff] at hmax
    rw [hmax] at hmem
    exact absurd hmem List.not_mem_nil
  | some top =>
    obtain ⟨htop, hle⟩ := List.max?_eq_some_iff.1 hmax
    obtain ⟨d, hd, rfl⟩ := List.mem_map.1 htop
    obtain ⟨hd, hdnode⟩ := AuditTable.mem_nodeRows.1 hd
    have hrange := hroom d hd hdnode
    have hseq := hle _ hmem
    rw [Option.getD_some, wrap_of_inInt64 ⟨by omega, by omega⟩]
    omega

/-! ## SQLite -/

section

variable {H : Sha256} {token : Token} {row returned : Row}

theorem AuditTable.allocated_hash_ne_empty : (table.allocated H token row).hash ≠ "" :=
  H.nonempty _

theorem place_columns (store : Instant → T) (row : Row) : (row.columns store).place = row.place :=
  rfl

theorem clashes_columns_iff {store : Instant → T} {row : Row} :
    table.Clashes (row.columns store) ↔ row.id ∈ table.rows.map Columns.id
      ∨ (row.sourceNodeId, row.monotonicSeq) ∈ table.rows.map Columns.nodeSeq :=
  Iff.rfl

theorem SQLite.allocate_of_origin (H : Sha256) (table : AuditTable String) (token : Token)
    {row : Row} (horigin : row.originId = row.id) :
    SQLite.allocateAndInsertOriginated H table token row = some (table.allocated H token row,
      (table.insertOrIgnore (SQLite.insertRowExec (table.allocated H token row))).1) := by
  rw [SQLite.allocateAndInsertOriginated, if_neg (not_not.2 horigin)]

variable {table' : AuditTable String} {column : Timestamptz}

theorem SQLite.allocate_eq_some {table : AuditTable String}
    (h : SQLite.allocateAndInsertOriginated H table token row = some (returned, table')) :
    returned = table.allocated H token row
      ∧ table' = (table.insertOrIgnore (SQLite.insertRowExec returned)).1 := by
  unfold SQLite.allocateAndInsertOriginated at h
  split_ifs at h
  cases h
  exact ⟨rfl, rfl⟩

/-- A row the insert is not ignored for is stored as it is returned. -/
theorem truthful_of_not_clashes {store : Instant → T}
    (hfree : ¬table.Clashes ((table.allocated H token row).columns store)) :
    Truthful ((table.insertOrIgnore ((table.allocated H token row).columns store)).1.rows.map
        Columns.place)
      (table.allocated H token row).place ((table.allocated H token row).rowBreak H = none) := by
  have hmem := (table.mem_insertOrIgnore ((table.allocated H token row).columns store)).2
    (Or.inr ⟨hfree, rfl⟩)
  exact (truthful_iff_of_mem hmem (place_columns store _).symm).2
    ⟨AuditTable.allocated_hash_ne_empty, Row.rowBreak_sealRow _ _ _⟩

theorem SQLite.truthful_of_fresh {table : AuditTable String}
    (h : SQLite.allocateAndInsertOriginated H table token row = some (returned, table'))
    (hid : row.id ∉ table.rows.map Columns.id)
    (hseq : (row.sourceNodeId, table.nextSeq row.sourceNodeId) ∉ table.rows.map Columns.nodeSeq) :
    Truthful (table'.rows.map Columns.place) returned.place (returned.rowBreak H = none) := by
  obtain ⟨rfl, rfl⟩ := SQLite.allocate_eq_some h
  exact truthful_of_not_clashes fun hclash => (clashes_columns_iff.1 hclash).elim hid hseq

/-- With room for another seq the next one is not taken. -/
theorem AuditTable.nextSeq_free {node : String} (hroom : table.HasRoom node) :
    (node, table.nextSeq node) ∉ table.rows.map Columns.nodeSeq := by
  intro hmem
  obtain ⟨c, hc, hkey⟩ := List.mem_map.1 hmem
  have hseq : c.monotonicSeq = table.nextSeq node := congrArg Prod.snd hkey
  exact absurd (AuditTable.lt_nextSeq hroom hc (congrArg Prod.fst hkey)) (hseq ▸ lt_irrefl _)

/-- The row stored under the id, if there is one, is on the row's node or passes the check. -/
def AuditTable.SoundUnder (H : Sha256) (table : AuditTable String) (row : Row) : Prop :=
  ∀ c ∈ table.rows, c.id = row.id → c.sourceNodeId = row.sourceNodeId
    ∨ (c.hash ≠ "" → ∃ read, SQLite.scanRows c = some read ∧ read.rowBreak H = none)

/-- **When a SQLite allocate is truthful**: if no row is stored under the id. -/
theorem SQLite.truthful_allocate_iff {table : AuditTable String}
    (hH : Function.Injective H.hexdigest) (hroom : table.HasRoom row.sourceNodeId)
    (hsound : table.SoundUnder H row)
    (h : SQLite.allocateAndInsertOriginated H table token row = some (returned, table')) :
    Truthful (table'.rows.map Columns.place) returned.place (returned.rowBreak H = none)
      ↔ row.id ∉ table.rows.map Columns.id := by
  have hfresh := fun hid => SQLite.truthful_of_fresh h hid (AuditTable.nextSeq_free hroom)
  obtain ⟨rfl, rfl⟩ := SQLite.allocate_eq_some h
  refine truthful_iff_of_ignored hfresh (fun hid => ?_)
    (fun c hc (hnode : c.sourceNodeId = row.sourceNodeId) => AuditTable.lt_nextSeq hroom hc hnode)
    fun c hc hplace => ?_
  · rw [table.insertOrIgnore_of_clashes _ (Or.inl hid)]
  · refine (hsound c hc (congrArg Place.id hplace)).elim (fun hnode => hnode) fun hpasses => ?_
    have hhash : c.hash = (table.allocated H token row).hash := congrArg Place.hash hplace
    obtain ⟨read, hread, hbreak⟩ := hpasses (hhash ▸ AuditTable.allocated_hash_ne_empty)
    obtain ⟨hrhash, hrnode⟩ := scanRow_hash hread
    -- two rows that pass with one hash are of one node
    have hpass : (table.allocated H token row).rowBreak H = none := Row.rowBreak_sealRow _ _ _
    have hnode := Row.sourceNodeId_eq_of_hash_eq hH hbreak hpass (hrhash.trans hhash)
    exact hrnode.symm.trans hnode

/-- The first allocate of an empty table. -/
theorem SQLite.allocate_empty (H : Sha256) (token : Token) {row : Row}
    (horigin : row.originId = row.id) :
    ∃ table, SQLite.allocateAndInsertOriginated H (.empty String) token row
        = some ((AuditTable.empty String).allocated H token row, table)
      ∧ table.rows = [SQLite.insertRowExec ((AuditTable.empty String).allocated H token row)]
      ∧ ∀ node, table.HasRoom node := by
  refine ⟨_, SQLite.allocate_of_origin H (.empty String) token horigin,
    Table.insertOrIgnore_rows _ _, fun node c hc _ => ?_⟩
  have hseq : c.monotonicSeq = 1 := by
    rw [Table.insertOrIgnore_rows] at hc
    rw [List.mem_singleton.1 hc]
    exact wrap_of_inInt64 (n := 1) ⟨by decide, by decide⟩
  exact ⟨by omega, by omega⟩

/-- **A retry**: a row is stored, its reply is lost, and the call that sends it again returns a row
    that is not stored. -/
theorem SQLite.untruthful_retry (hH : Function.Injective H.hexdigest) (token retryToken : Token)
    {row : Row} (horigin : row.originId = row.id) :
    ∃ first table second table',
      SQLite.allocateAndInsertOriginated H (.empty String) token row = some (first, table)
      ∧ SQLite.allocateAndInsertOriginated H table retryToken row = some (second, table')
      ∧ ¬Truthful (table'.rows.map Columns.place) second.place (second.rowBreak H = none) := by
  obtain ⟨table, hfirst, hrows, hroom⟩ := SQLite.allocate_empty H token horigin
  have hretry := SQLite.allocate_of_origin H table retryToken horigin
  refine ⟨_, table, _, _, hfirst, hretry, fun ht => ?_⟩
  refine (SQLite.truthful_allocate_iff hH (hroom _) (fun c hc _ => Or.inl ?_) hretry).1 ht ?_
  · rw [hrows] at hc
    rw [List.mem_singleton.1 hc]
    rfl
  · rw [hrows]
    exact List.mem_singleton_self _

/-! ## Postgres -/

theorem Postgres.allocate_of_stored {table : AuditTable Instant} (horigin : row.originId = row.id)
    {c : Columns Instant} (hc : c ∈ table.rows) (hid : c.id = row.id) :
    Postgres.allocateAndInsertOriginated column H table token row
      = some (row.answered c, table) := by
  rw [Postgres.allocateAndInsertOriginated, if_neg (not_not.2 horigin),
    (Table.find?_eq_some_iff table.nodup_id).2 ⟨hc, hid⟩]

/-- What a call has done that did not find the id. -/
theorem Postgres.allocate_eq_some {table table' : AuditTable Instant}
    (hfresh : ∀ c ∈ table.rows, c.id ≠ row.id)
    (h : Postgres.allocateAndInsertOriginated column H table token row = some (returned, table')) :
    returned = table.allocated H token row
      ∧ ¬table.Clashes (returned.columns column.store)
      ∧ table' = (table.insertOrIgnore (returned.columns column.store)).1 := by
  unfold Postgres.allocateAndInsertOriginated at h
  split_ifs at h
  rw [List.find?_eq_none.2 (by simpa using hfresh)] at h
  simp only [Option.bind_eq_some_iff] at h
  obtain ⟨c, hcolumns, h⟩ := h
  split_ifs at h with hseq
  cases h
  obtain rfl : (table.allocated H token row).columns column.store = c := by
    unfold Postgres.insertRowExec at hcolumns
    split_ifs at hcolumns
    exact Option.some.inj hcolumns
  refine ⟨rfl, fun hclash => (clashes_columns_iff.1 hclash).elim (fun hid => ?_) hseq, rfl⟩
  obtain ⟨c, hc, hid⟩ := List.mem_map.1 hid
  exact hfresh c hc hid

/-- The chain columns are those of a row that `Seal` returned. -/
structure SealedAs (H : Sha256) (stored : Columns T) (s : Row) : Prop where
  isSealed : ∃ token prevHash base, s = Row.sealRow H token prevHash base
  place : stored.place = s.place
  form : stored.canonicalFormId = "2"

/-- The caller's row, at the place of a sealed one. -/
def Row.placedAs (row s : Row) : Row :=
  { row.truncateTimes with
    monotonicSeq := s.monotonicSeq
    prevHash := s.prevHash
    canonicalFormId := "2" }

/-- The fields form `"2"` hashes, those of the place apart. -/
structure Row.AgreeHashed (a b : Row) : Prop where
  wire : a.wire = b.wire
  id : a.id = b.id
  originId : a.originId = b.originId
  timestamp : a.timestamp.canonicalTS = b.timestamp.canonicalTS
  code : a.code = b.code
  action : a.action = b.action
  severity : a.severity = b.severity
  serviceId : a.serviceId = b.serviceId
  sourceNodeId : a.sourceNodeId = b.sourceNodeId
  tenantId : a.tenantId = b.tenantId
  actor : a.actor = b.actor
  actorKind : a.actorKind = b.actorKind
  target : a.target = b.target
  category : a.category = b.category
  domain : a.domain = b.domain
  method : a.method = b.method
  requestId : a.requestId = b.requestId
  detailCommitment : a.detailCommitment = b.detailCommitment

/-- The caller's row is the sealed one again. -/
structure Resends (H : Sha256) (row s : Row) : Prop where
  opens : (row.placedAs s).OpensCommitment H
  agrees : (row.placedAs s).AgreeHashed s

/-- The entries `Seal` hashes. -/
def Row.sealedEntries (row : Row) : Row.Entries :=
  (row.commitmentEntry, row.timestamp.canonicalTS, .null)

theorem Row.hash_sealRow {s : Row} (h : ∃ token prevHash base, s = Row.sealRow H token prevHash base) :
    H.hexdigest (Row.canon true (s.mapWith s.sealedEntries)) = s.hash := by
  obtain ⟨token, prevHash, base, rfl⟩ := h
  rfl

/-- Equal hashed maps have equal fields. -/
theorem Row.AgreeHashed.of_numerals {s : Row} {e : Row.Entries}
    (he : e ∈ (row.placedAs s).variants .two)
    (h : numerals ((row.placedAs s).mapWith e) = numerals (s.mapWith s.sealedEntries)) :
    (row.placedAs s).AgreeHashed s := by
  have hentries : e.1 = (row.placedAs s).commitmentEntry
      ∧ e.2.1 = (row.placedAs s).timestamp.canonicalTS := by
    rcases List.mem_append.1 he with he | he
    · rw [List.mem_singleton.1 he]
      exact ⟨rfl, rfl⟩
    · cases hs : (row.placedAs s).shippedAt with
      | none => simp [hs] at he
      | some t =>
        rw [hs] at he
        rw [List.mem_singleton.1 he]
        exact ⟨rfl, rfl⟩
  rw [Row.mapWith, hentries.1, hentries.2] at h
  simp only [Row.mapWith, Row.sealedEntries, Row.rowMap, Row.commitmentEntry, numerals,
    JsonText.JsonTree.map, JsonText.JsonTree.mapMembers, JsonText.JsonTree.obj.injEq,
    List.cons.injEq, Prod.mk.injEq, JsonText.JsonTree.str.injEq, true_and, and_true] at h
  obtain ⟨haction, hactor, hkind, -, hcategory, hcode, hcommit, hdomain, hid, hmethod, -, horigin,
    -, hrequest, hservice, hseverity, -, hnode, htarget, htenant, htime, hwire⟩ := h
  refine ⟨hwire, hid, horigin, htime, hcode, haction, hseverity, hservice, hnode, ?_, hactor, hkind,
    htarget, hcategory, hdomain, hmethod, hrequest, hcommit⟩
  revert htenant
  cases (row.placedAs s).tenantId <;> cases s.tenantId <;> simp [JsonText.JsonTree.map]

theorem Row.AgreeHashed.mapWith_eq {s : Row} (hform : s.formId = "2")
    (h : (row.placedAs s).AgreeHashed s) :
    (row.placedAs s).mapWith (row.placedAs s).sealedEntries = s.mapWith s.sealedEntries := by
  have hplaced : (row.placedAs s).formId = "2" := rfl
  have hseq : (row.placedAs s).monotonicSeq = s.monotonicSeq := rfl
  have hprev : (row.placedAs s).prevHash = s.prevHash := rfl
  simp only [Row.mapWith, Row.sealedEntries, Row.rowMap, Row.commitmentEntry, hplaced, hform, hseq,
    hprev, h.wire, h.id, h.originId, h.timestamp, h.code, h.action, h.severity, h.serviceId,
    h.sourceNodeId, h.tenantId, h.actor, h.actorKind, h.target, h.category, h.domain, h.method,
    h.requestId, h.detailCommitment]

/-- **When the answer passes.** -/
theorem Row.rowBreak_answered_iff (hH : Function.Injective H.hexdigest) {s : Row}
    (hs : SealedAs H c s) : (row.answered c).rowBreak H = none ↔ Resends H row s := by
  have hhash := Row.hash_sealRow hs.isSealed
  have hsform : s.formId = "2" := by
    obtain ⟨token, prevHash, base, rfl⟩ := hs.isSealed
    rfl
  have hanswered : row.answered c = { row.placedAs s with hash := s.hash } := by
    rw [Row.answered, Row.placedAs, hs.form,
      show c.monotonicSeq = s.monotonicSeq from congrArg Place.monotonicSeq hs.place,
      show c.prevHash = s.prevHash from congrArg Place.prevHash hs.place,
      show c.hash = s.hash from congrArg Place.hash hs.place]
  rw [hanswered]
  constructor
  · intro h
    obtain ⟨form, hofId, hopens, escapeDEL, -, e, he, hhash'⟩ := Row.rowBreak_eq_none_iff.1 h
    obtain rfl : form = .two := Form.ofId_eq_two hofId rfl
    exact ⟨hopens rfl, .of_numerals he (Row.numerals_eq_of_canon_eq (hH (hhash'.trans hhash.symm)))⟩
  · rintro ⟨hopens, hagree⟩
    refine Row.rowBreak_eq_none_iff.2 ⟨.two, rfl, fun _ => hopens, true, Or.inl rfl,
      (row.placedAs s).sealedEntries, List.mem_append_left _ (List.mem_singleton_self _), ?_⟩
    show H.hexdigest (Row.canon true ((row.placedAs s).mapWith _)) = s.hash
    rw [hagree.mapWith_eq hsform]
    exact hhash

theorem Row.answered_self {row : Row} (store : Instant → T) (htimes : row.truncateTimes = row)
    (hform : row.formId = row.canonicalFormId) : row.answered (row.columns store) = row := by
  rw [Row.answered, htimes]
  show { row with canonicalFormId := row.formId } = row
  rw [hform]

theorem AuditTable.truncateTimes_allocated (table : AuditTable T) (token : Token) (row : Row) :
    (table.allocated H token row).truncateTimes = table.allocated H token row := by
  have htime : (table.allocated H token row).timestamp.truncate
      = (table.allocated H token row).timestamp := Instant.truncate_truncate row.timestamp
  have hshipped : (table.allocated H token row).shippedAt.map Instant.truncate
      = (table.allocated H token row).shippedAt := by
    show (row.shippedAt.map Instant.truncate).map Instant.truncate = row.shippedAt.map _
    rw [Option.map_map]
    exact congrArg (row.shippedAt.map ·) (funext Instant.truncate_truncate)
  rw [Row.truncateTimes, htime, hshipped]

/-- An allocated row, as it was returned, is the stored one again. -/
theorem AuditTable.resends_allocated {S : Type} (hH : Function.Injective H.hexdigest)
    (table : AuditTable T) (store : Instant → S) (token : Token) (row : Row) :
    SealedAs H ((table.allocated H token row).columns store) (table.allocated H token row)
      ∧ Resends H (table.allocated H token row) (table.allocated H token row) := by
  have hsealed : SealedAs H ((table.allocated H token row).columns store)
      (table.allocated H token row) := ⟨⟨_, _, _, rfl⟩, rfl, rfl⟩
  refine ⟨hsealed, (Row.rowBreak_answered_iff hH hsealed).1 ?_⟩
  rw [Row.answered_self store (table.truncateTimes_allocated token row) rfl]
  exact Row.rowBreak_sealRow _ _ _

/-- The row stored under the id, if there is one with a hash, was sealed. -/
def AuditTable.SealedUnder (H : Sha256) (table : AuditTable T) (row : Row) : Prop :=
  ∀ c ∈ table.rows, c.id = row.id → c.hash ≠ "" → ∃ s, SealedAs H c s

/-- **When a Postgres allocate is truthful**: a row stored under the id must be sealed, and the
    caller's row be that row again. -/
theorem Postgres.truthful_allocate_iff {table table' : AuditTable Instant}
    (hH : Function.Injective H.hexdigest) (hsealed : table.SealedUnder H row)
    (h : Postgres.allocateAndInsertOriginated column H table token row = some (returned, table')) :
    Truthful (table'.rows.map Columns.place) returned.place (returned.rowBreak H = none)
      ↔ ∀ c ∈ table.rows, c.id = row.id → ∃ s, SealedAs H c s ∧ Resends H row s := by
  by_cases hstored : ∃ c ∈ table.rows, c.id = row.id
  · obtain ⟨c, hc, hid⟩ := hstored
    have horigin : row.originId = row.id := by
      by_contra horigin
      rw [Postgres.allocateAndInsertOriginated, if_pos horigin] at h
      cases h
    cases (Postgres.allocate_of_stored horigin hc hid).symm.trans h
    have hplace : (row.answered c).place = c.place := by
      simp only [Row.place, Columns.place, Row.answered, Row.truncateTimes, hid]
    rw [← hid]
    refine truthful_iff_of_answered table.nodup_id hc hplace (hsealed c hc hid) (fun s hs hempty => ?_)
      fun s hs => Row.rowBreak_answered_iff hH hs
    have hhash : s.hash ≠ "" := Row.hash_sealRow hs.isSealed ▸ H.nonempty _
    exact hhash ((congrArg Place.hash hs.place).symm.trans hempty)
  · push Not at hstored
    obtain ⟨rfl, hfree, rfl⟩ := Postgres.allocate_eq_some hstored h
    exact iff_of_true (truthful_of_not_clashes hfree) (fun c hc hid => absurd hid (hstored c hc))

/-- A row that is sent again has no salt yet, and the stored one's is not copied. -/
theorem Row.rowBreak_answered (hform : c.canonicalFormId = "2") (hdetail : row.detail.isSome)
    (hsalt : row.detailSalt = "") : (row.answered c).rowBreak H = some (.missingSalt row.id) := by
  obtain ⟨detail, hdetail⟩ := Option.isSome_iff_exists.1 hdetail
  simp [Row.rowBreak, Row.answered, Row.truncateTimes, Row.formId, hform, Form.ofId,
    Row.detailBreak, hdetail, hsalt]

/-- A table with one sealed row, which is sent again as it was returned. -/
theorem Postgres.allocate_resent (column : Timestamptz) (hH : Function.Injective H.hexdigest)
    (token retryToken : Token) {row : Row} (horigin : row.originId = row.id) :
    ∃ (table : AuditTable Instant) (first : Row),
      table.rows = [first.columns column.store] ∧ first.detail = row.detail
      ∧ Postgres.allocateAndInsertOriginated column H table retryToken first
        = some (first.answered (first.columns column.store), table)
      ∧ ∀ c ∈ table.rows, ∃ s, SealedAs H c s ∧ Resends H first s := by
  have hresends := (AuditTable.empty Instant).resends_allocated hH column.store token row
  have hdetail : ((AuditTable.empty Instant).allocated H token row).detail = row.detail := rfl
  have horigin' : ((AuditTable.empty Instant).allocated H token row).originId
      = ((AuditTable.empty Instant).allocated H token row).id := horigin
  generalize (AuditTable.empty Instant).allocated H token row = first at *
  refine ⟨⟨[first.columns column.store], List.nodup_singleton _, List.nodup_singleton _⟩, first, rfl,
    hdetail, Postgres.allocate_of_stored horigin' (List.mem_singleton_self _) rfl, fun c hc => ?_⟩
  rw [List.mem_singleton.1 hc]
  exact ⟨first, hresends⟩

/-- **A retry** that finds its row stored is answered with a row that fails the check. -/
theorem Postgres.untruthful_retry (column : Timestamptz) (H : Sha256) (token retryToken : Token)
    {row : Row} (horigin : row.originId = row.id) (hdetail : row.detail.isSome)
    (hsalt : row.detailSalt = "") :
    ∃ (table table' : AuditTable Instant) (second : Row),
      table.rows = [((AuditTable.empty Instant).allocated H token row).columns column.store]
      ∧ Postgres.allocateAndInsertOriginated column H table retryToken row = some (second, table')
      ∧ second.rowBreak H = some (.missingSalt row.id) :=
  ⟨⟨[_], List.nodup_singleton _, List.nodup_singleton _⟩, _, _, rfl,
    Postgres.allocate_of_stored horigin (List.mem_singleton_self _) rfl,
    Row.rowBreak_answered rfl hdetail hsalt⟩

end

/-! ## The four stores -/

end Fasten.Go
