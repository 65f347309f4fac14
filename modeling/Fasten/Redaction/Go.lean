import Fasten.GoRow.Allocate
import Fasten.GoRow.Redacted
import Fasten.GoStore.Checkpoints
import Fasten.Redaction

set_option autoImplicit false

/-! # Redacting expired rows from Go

`Engine.RedactExpired` (`go/retention_redaction.go`) over the SQLite and Postgres stores. A record is
allocated in the table, so its seq must be free: the next seq of a node wraps at the end of an int64,
where the insert of the record may be ignored. -/

namespace Fasten.Go

open Ledger (Outcome Report listAndDestroy)
open JsonText

/-! ## The record -/

/-- Set a key of a map. -/
def Object.set (o : Object) (k : String) (v : Value) (hv : v.keyed = true) : Object where
  members := JsonTree.putKey k v o.members
  keyed := by
    have hkeyed := o.keyed
    simp only [JsonTree.keyed, Bool.and_eq_true, decide_eq_true_eq, JsonTree.keyedMembers_iff]
      at hkeyed ⊢
    refine ⟨JsonTree.pairwise_putKey k v hkeyed.1, fun m hm => ?_⟩
    rcases JsonTree.mem_putKey hm with rfl | hm
    · exact hv
    · exact hkeyed.2 m hm

/-- The entries of a map with these keys. -/
def Object.only (o : Object) (keys : List String) : Object where
  members := o.members.filter fun m => decide (m.1 ∈ keys)
  keyed := by
    have hkeyed := o.keyed
    simp only [JsonTree.keyed, Bool.and_eq_true, decide_eq_true_eq, JsonTree.keyedMembers_iff]
      at hkeyed ⊢
    exact ⟨hkeyed.1.sublist (List.filter_sublist.map _),
      fun m hm => hkeyed.2 m (List.mem_filter.1 hm).1⟩

/-- The numbers of the map come back as they are written. -/
def Object.NumbersSurvive (o : Object) : Prop := ∀ t ∈ (numerals o.value).nums, Survives t

/-- An engine after `Init`, as far as `emitRow` reads it. `redactDetail` decodes what fasten-core
    gives back, so its numbers are float64 already. -/
structure Engine where
  serviceId : String
  nodeId : String
  tenantId : String
  redactDetail : Object → Object
  survives : ∀ o, (redactDetail o).NumbersSurvive
  initialised : serviceId ≠ ""

/-- What `emitRow` draws for a row. -/
structure Draw where
  mint : Mint
  now : Instant
  requestId : String
  token : Token
  fourDigitYear : 0 ≤ now.year ∧ now.year < 10000

/-- The `detail` of the record. -/
def recordDetail (reason : String) (c : RedactionCandidate) : Object where
  members := [("reason", .str reason), ("redacted_id", .str c.id),
    ("redacted_seq", .num (.int64 c.monotonicSeq))]
  keyed := by
    simp only [JsonTree.keyed, JsonTree.keyedMembers, List.map_cons, List.map_nil]
    decide

/-- What `emitRow` makes of a `detail`. -/
def Engine.emitDetail (engine : Engine) (info : Codes.Meta) (detail : Object) : Object :=
  if info.piiInDetail then
    ((engine.redactDetail (detail.only info.detailPassthroughKeys)).set "_redacted" (.str "***")
      rfl).set "_pii_in_detail" (.bool true) rfl
  else engine.redactDetail detail

/-- The row `emitRow` builds for a record; `ids` are the ids that are stored. -/
def Engine.redactionRecord (engine : Engine) (info : Codes.Meta) (reason : String) (draw : Draw)
    (ids : List String) (c : RedactionCandidate) : Row where
  wireVersion := "1"
  id := draw.mint.run ids
  originId := draw.mint.run ids
  monotonicSeq := 0
  timestamp := draw.now
  code := redactionCode
  action := info.action
  severity := severityText info.severity
  serviceId := engine.serviceId
  sourceNodeId := engine.nodeId
  tenantId := if engine.tenantId = "" then none else some engine.tenantId
  actor := "system"
  actorKind := "service"
  target := c.id
  category := info.category
  domain := info.domain
  method := "sdk"
  requestId := draw.requestId
  detail := some (engine.emitDetail info (recordDetail reason c))
  piiInDetail := info.piiInDetail
  shippedAt := none
  canonicalFormId := ""
  prevHash := ""
  hash := ""
  detailSalt := ""
  detailCommitment := ""

/-! ## The stores -/

/-- What the two stores have in common: the columns they keep times in, and an allocate that stores
    a row whose id is new, under a seq that is free. -/
structure Backend (T : Type) where
  store : Instant → T
  time : T → Option Instant
  isBefore : T → Instant → Bool
  allocate : Sha256 → AuditTable T → Token → Row → Option (Row × AuditTable T)
  keeps : ∀ t : Instant, 0 ≤ t.year ∧ t.year < 10000 → t.truncate = t → time (store t) = some t
  allocate_rows : ∀ {H table token row returned table'},
    allocate H table token row = some (returned, table') → row.id ∉ table.rows.map Columns.id →
    table.HasRoom row.sourceNodeId →
    table'.rows = table.rows ++ [(table.allocated H token row).columns store]

theorem not_clashes_allocated {T : Type} {H : Sha256} {table : AuditTable T} {token : Token}
    {row : Row} (hid : row.id ∉ table.rows.map Columns.id)
    (hroom : table.HasRoom row.sourceNodeId) (store : Instant → T) :
    ¬table.Clashes ((table.allocated H token row).columns store) := fun hclash =>
  (clashes_columns_iff.1 hclash).elim hid (AuditTable.nextSeq_free hroom)

def SQLite.backend : Backend String where
  store := Instant.canonicalTS
  time := Instant.parseCanonicalTS
  isBefore t before := decide (t < before.canonicalTS)
  allocate := SQLite.allocateAndInsertOriginated
  keeps t hyear hwhole := (Instant.parseCanonicalTS_canonicalTS hyear).trans (congrArg some hwhole)
  allocate_rows h hid hroom := by
    obtain ⟨rfl, rfl⟩ := SQLite.allocate_eq_some h
    rw [Table.insertOrIgnore_rows]
    exact if_neg (not_clashes_allocated hid hroom _)

/-- The fields of a time, to compare it by. -/
def Instant.fields (t : Instant) : List Int :=
  [t.year, t.month, t.day, t.hour, t.minute, t.second, t.nanosecond]

/-- The columns keep a time of four digits to the microsecond. -/
def Postgres.backend (column : Timestamptz)
    (hkeeps : ∀ t : Instant, 0 ≤ t.year ∧ t.year < 10000 → t.truncate = t → column.store t = t) :
    Backend Instant where
  store := column.store
  time := some
  isBefore t before := decide (t.fields < (column.store before).fields)
  allocate := Postgres.allocateAndInsertOriginated column
  keeps t hyear hwhole := congrArg some (hkeeps t hyear hwhole)
  allocate_rows {H table token row returned table'} h hid hroom := by
    obtain ⟨rfl, hclash, rfl⟩ := Postgres.allocate_eq_some
      (fun c hc heq => hid (List.mem_map.2 ⟨c, hc, heq⟩)) h
    rw [Table.insertOrIgnore_rows]
    exact if_neg hclash

variable {T : Type}

/-- No hash covers the row's `detail`. -/
def Columns.redactable (c : Columns T) : Bool := decide (c.canonicalFormId = "2" ∨ c.hash = "")

/-- `'null'`. -/
def nullText : List Char := ['n', 'u', 'l', 'l']

def redactedColumns (ids : List String) (c : Columns T) : Columns T :=
  if c.id ∈ ids ∧ c.redactable = true then { c with detail := nullText, detailSalt := "" } else c

theorem redactedColumns_fields (ids : List String) (c : Columns T) :
    (redactedColumns ids c).id = c.id ∧ (redactedColumns ids c).nodeSeq = c.nodeSeq
      ∧ (redactedColumns ids c).prevHash = c.prevHash ∧ (redactedColumns ids c).hash = c.hash
      ∧ (redactedColumns ids c).code = c.code ∧ (redactedColumns ids c).target = c.target
      ∧ (redactedColumns ids c).redactable = c.redactable := by
  unfold redactedColumns
  split_ifs <;> exact ⟨rfl, rfl, rfl, rfl, rfl, rfl, rfl⟩

namespace AuditTable

def redactRows (table : AuditTable T) (ids : List String) : AuditTable T :=
  table.update (redactedColumns ids) (fun c => (redactedColumns_fields ids c).1)
    (fun c => (redactedColumns_fields ids c).2.1)

def listRedactionCandidates (B : Backend T) (table : AuditTable T) (before : Instant)
    (codes : List String) : List RedactionCandidate :=
  if codes = [] then []
  else
    ((table.rows.filter fun c => B.isBefore c.timestamp before && decide (c.code ∈ codes)
      && c.redactable && decide (c.detail ≠ nullText)).insertionSort
        (fun a b => a.monotonicSeq ≤ b.monotonicSeq)).map fun c => ⟨c.id, c.monotonicSeq⟩

end AuditTable

/-! ## `RedactExpired` -/

/-- A run: `codes` are the `piiCodes`. -/
structure RedactExpired where
  before : Instant
  codes : List String
  reason : String
  registered : Option Codes.Meta
  lists : Bool
  draw : RedactionCandidate → Draw
  calls : RedactionCandidate → Outcome × Outcome

section

variable (H : Sha256) (B : Backend T) (engine : Engine)

/-- `emitRow` with `durable`; an empty reason is `"retention"`. -/
def emitRecord (run : RedactExpired) (table : AuditTable T) (c : RedactionCandidate) :
    Option (AuditTable T) :=
  let reason := if run.reason = "" then "retention" else run.reason
  (B.allocate H table (run.draw c).token (engine.redactionRecord (ensureRedactionCode run.registered)
    reason (run.draw c) (table.rows.map Columns.id) c)).map Prod.snd

/-- Without codes there is nothing to do, and no call. -/
def redactExpired (table : AuditTable T) (run : RedactExpired) :
    Report (AuditTable T) :=
  listAndDestroy (emitRecord H B engine run) (fun t c => t.redactRows [c.id]) run.calls
    (decide (run.codes = []) || run.lists) table
    (table.listRedactionCandidates B run.before run.codes)

/-- The ids a run lists. -/
def listedIds (table : AuditTable T) (run : RedactExpired) : List String :=
  (table.listRedactionCandidates B run.before run.codes).map RedactionCandidate.id

end

/-- The rows of the table. -/
def tableView (T : Type) : Ledger.View (AuditTable T) (Columns T) String where
  rows := Table.rows
  id := Columns.id
  target c := redactedId c.code c.target
  intact c := c.detail ≠ nullText
  cleared c := c.detail = nullText ∧ c.detailSalt = ""
  nodup t := t.nodup_id
  not_intact _ h := not_not.2 h.1

/-- The node has `n` more seqs in an int64. -/
def AuditTable.Room (node : String) (n : Nat) (table : AuditTable T) : Prop :=
  (n : Int) < 2 ^ 63 ∧ ∀ c ∈ table.rows, c.sourceNodeId = node →
    -2 ^ 63 ≤ c.monotonicSeq ∧ c.monotonicSeq + n < 2 ^ 63

instance (node : String) (n : Nat) (table : AuditTable T) : Decidable (table.Room node n) :=
  inferInstanceAs (Decidable (_ ∧ _))

/-! ## What the calls do to the rows -/

variable {node : String}

section Rows

variable {H : Sha256} {B : Backend T} {engine : Engine} {run : RedactExpired}
  {table table' : AuditTable T} {c : RedactionCandidate}

theorem redactedColumns_of_ne {i : String} {c : Columns T} (h : c.id ≠ i) :
    redactedColumns [i] c = c := by
  rw [redactedColumns, if_neg]
  simp [h]

theorem AuditTable.Room.hasRoom {n : Nat} (h : table.Room node (n + 1)) : table.HasRoom node := by
  intro c hc hnode
  have hrange := h.2 c hc hnode
  push_cast at hrange
  exact ⟨hrange.1, by omega⟩

theorem AuditTable.Room.less {n : Nat} (h : table.Room node (n + 1)) : table.Room node n := by
  obtain ⟨hn, hrows⟩ := h
  push_cast at hn
  refine ⟨by omega, fun c hc hnode => ?_⟩
  have hrange := hrows c hc hnode
  push_cast at hrange
  exact ⟨hrange.1, by omega⟩

theorem AuditTable.Room.nextSeq {n : Nat} (h : table.Room node (n + 1)) :
    -2 ^ 63 ≤ table.nextSeq node ∧ table.nextSeq node + n < 2 ^ 63 := by
  obtain ⟨hn, hrows⟩ := h
  push_cast at hn
  unfold AuditTable.nextSeq
  cases hmax : ((table.nodeRows node).map (·.monotonicSeq)).max? with
  | none =>
    rw [Option.getD_none, wrap_of_inInt64 ⟨by omega, by omega⟩]
    omega
  | some top =>
    obtain ⟨d, hd, rfl⟩ := List.mem_map.1 (List.max?_eq_some_iff.1 hmax).1
    obtain ⟨hd, hnode⟩ := AuditTable.mem_nodeRows.1 hd
    have hrange := hrows d hd hnode
    push_cast at hrange
    rw [Option.getD_some, wrap_of_inInt64 ⟨by omega, by omega⟩]
    omega

/-- The record of a run, as it is sealed. -/
def sealedRecord (H : Sha256) (engine : Engine) (run : RedactExpired) (table : AuditTable T)
    (c : RedactionCandidate) : Row :=
  table.allocated H (run.draw c).token (engine.redactionRecord (ensureRedactionCode run.registered)
    (if run.reason = "" then "retention" else run.reason) (run.draw c)
    (table.rows.map Columns.id) c)

/-- The record is stored as it was sealed. -/
theorem emitRecord_rows (hroom : table.HasRoom engine.nodeId)
    (h : emitRecord H B engine run table c = some table') :
    table'.rows = table.rows ++ [(sealedRecord H engine run table c).columns B.store] := by
  obtain ⟨⟨returned, t⟩, hallocate, rfl⟩ := Option.map_eq_some_iff.1 h
  exact B.allocate_rows hallocate ((run.draw c).mint.fresh _) hroom

theorem room_emitRecord {n : Nat} (hroom : table.Room engine.nodeId (n + 1))
    (h : emitRecord H B engine run table c = some table') : table'.Room engine.nodeId n := by
  refine ⟨hroom.less.1, fun d hd hnode => ?_⟩
  rw [emitRecord_rows hroom.hasRoom h] at hd
  rcases List.mem_append.1 hd with hd | hd
  · exact hroom.less.2 d hd hnode
  · rw [List.mem_singleton.1 hd]
    exact hroom.nextSeq

theorem room_redactRows {n : Nat} (h : table.Room node n) (ids : List String) :
    (table.redactRows ids).Room node n := by
  refine ⟨h.1, fun d hd hnode => ?_⟩
  obtain ⟨c, hc, rfl⟩ := List.mem_map.1 hd
  obtain ⟨hkeyNode, hkeySeq⟩ := Prod.mk.inj (redactedColumns_fields ids c).2.1
  rw [hkeySeq]
  exact h.2 c hc (hkeyNode.symm.trans hnode)

/-- What a run does to the rows. -/
theorem tableView_lawful (H : Sha256) (B : Backend T) (engine : Engine) (run : RedactExpired) :
    (tableView T).Lawful RedactionCandidate.id (fun c => c.redactable = true)
      (AuditTable.Room engine.nodeId) (emitRecord H B engine run)
      (fun t c => t.redactRows [c.id]) where
  record_room _ _ _ _ hroom h := room_emitRecord hroom h
  destroy_room _ _ _ hroom := room_redactRows hroom _
  record_rows _ _ _ _ hroom h := ⟨_, emitRecord_rows hroom.hasRoom h, rfl⟩
  destroy_rows t c := by
    refine ⟨redactedColumns [c.id], rfl, fun d => ?_, fun d hd => redactedColumns_of_ne hd,
      fun d hd => ?_, fun d hd => ?_⟩
    · obtain ⟨hid, -, -, -, hcode, htarget, -⟩ := redactedColumns_fields [c.id] d
      refine ⟨hid, ?_⟩
      show redactedId _ _ = redactedId _ _
      rw [hcode, htarget]
    · obtain ⟨-, -, -, -, -, -, hredactable⟩ := redactedColumns_fields [c.id] d
      exact hredactable.trans hd
    · show (redactedColumns [c.id] d).detail = nullText ∧ (redactedColumns [c.id] d).detailSalt = ""
      unfold redactedColumns
      split_ifs with hred
      · exact ⟨rfl, rfl⟩
      · exact hd.resolve_right fun h => hred ⟨List.mem_singleton.2 h.1, h.2⟩

/-- The candidates are stored rows that can be redacted. -/
theorem mem_listRedactionCandidates {before : Instant} {codes : List String}
    (h : c ∈ table.listRedactionCandidates B before codes) :
    ∃ r ∈ table.rows, r.id = c.id ∧ r.redactable = true := by
  unfold AuditTable.listRedactionCandidates at h
  split_ifs at h with hcodes
  · cases h
  · obtain ⟨r, hr, rfl⟩ := List.mem_map.1 h
    rw [List.mem_insertionSort, List.mem_filter] at hr
    simp only [Bool.and_eq_true] at hr
    exact ⟨r, hr.1, rfl, hr.2.1.2⟩

end Rows

/-! ## The chains -/

/-- What a chain reads of a row's columns. -/
def columnsLink (T : Type) : HashChain.Link (Columns T) where
  id := Columns.id
  seq := Columns.monotonicSeq
  prevHash := Columns.prevHash
  hash := Columns.hash
  genesis := "genesis"

/-- The row is read back and passes the check. -/
def Columns.Passes (H : Sha256) (time : T → Option Instant) (c : Columns T) : Prop :=
  ∃ row, scanRow time c = some row ∧ row.rowBreak H = none

/-- Every row can be read, and every node's rows are in order. -/
structure AuditTable.Verifies (H : Sha256) (time : T → Option Instant) (table : AuditTable T) :
    Prop where
  readable : ∀ c ∈ table.rows, ∃ row, scanRow time c = some row
  chains : ∀ node, HashChain.Ok (columnsLink T) (Columns.Passes H time)
    {c | c ∈ table.rows ∧ c.sourceNodeId = node}

section Chains

variable {H : Sha256} {B : Backend T} {engine : Engine} {run : RedactExpired}
  {table table' : AuditTable T} {c : RedactionCandidate}

theorem unmarshal_nullText : unmarshal nullText = some none := unmarshal_marshal_none

variable {time : T → Option Instant}

/-- A redacted row is read back without its `detail` and salt. -/
theorem scanRow_redacted {c : Columns T} {row : Row} (h : scanRow time c = some row) :
    scanRow time { c with detail := nullText, detailSalt := "" }
      = some { row with detail := none, detailSalt := "" } := by
  simp only [scanRow, Option.bind_eq_some_iff, Option.map_eq_some_iff] at h
  obtain ⟨timestamp, htime, detail, -, shippedAt, hshipped, rfl⟩ := h
  simp only [scanRow, htime, unmarshal_nullText, hshipped, Option.bind_some, Option.map_some]
  rfl

theorem formId_scanRow {c : Columns T} {row : Row} (h : scanRow time c = some row)
    (hform : c.canonicalFormId = "2") : row.formId = "2" := by
  simp only [scanRow, Option.bind_eq_some_iff, Option.map_eq_some_iff] at h
  obtain ⟨_, _, _, _, _, _, rfl⟩ := h
  simp [Row.formId, Columns.row, hform]

theorem passes_redacted {ids : List String} {c : Columns T} (hsealed : c.hash ≠ "")
    (h : c.Passes H time) : (redactedColumns ids c).Passes H time := by
  unfold redactedColumns
  split_ifs with hred
  · obtain ⟨row, hread, hpasses⟩ := h
    have hform : c.canonicalFormId = "2" := (of_decide_eq_true hred.2).resolve_right hsealed
    exact ⟨_, scanRow_redacted hread, Row.rowBreak_redacted hpasses (formId_scanRow hread hform)⟩
  · exact h

/-- **Redaction keeps the chains.** -/
theorem AuditTable.Verifies.redactRows (h : table.Verifies H time) (ids : List String) :
    (table.redactRows ids).Verifies H time := by
  refine ⟨fun d hd => ?_, fun node => (h.chains node).transport rfl (fun d hd => ?_) fun c hc => ?_⟩
  · obtain ⟨c, hc, rfl⟩ := List.mem_map.1 hd
    obtain ⟨row, hread⟩ := h.readable c hc
    unfold redactedColumns
    split_ifs
    · exact ⟨_, scanRow_redacted hread⟩
    · exact ⟨row, hread⟩
  · obtain ⟨hd, hnode⟩ := hd
    obtain ⟨c, hc, rfl⟩ := List.mem_map.1 hd
    obtain ⟨hid, hkey, hprev, hhash, -⟩ := redactedColumns_fields ids c
    obtain ⟨hkeyNode, hkeySeq⟩ := Prod.mk.inj hkey
    refine ⟨c, ⟨hc, hkeyNode.symm.trans hnode⟩, ⟨hid, hkeySeq, hprev, hhash⟩, ?_⟩
    exact fun hsealed hpasses => passes_redacted hsealed hpasses
  · obtain ⟨hkeyNode, hkeySeq⟩ := Prod.mk.inj (redactedColumns_fields ids c).2.1
    exact ⟨_, ⟨List.mem_map_of_mem hc.1, hkeyNode.trans hc.2⟩, hkeySeq⟩

theorem Object.survives_iff {o : Object} :
    o.NumbersSurvive ↔ ∀ m ∈ o.members, ∀ t ∈ (numerals m.2).nums, Survives t := by
  rw [Object.NumbersSurvive, numerals_value, JsonTree.nums]
  simp only [JsonTree.mem_numsMembers, JsonTree.mapMembers_eq, List.mem_map]
  constructor
  · exact fun h m hm t ht => h t ⟨_, ⟨m, hm, rfl⟩, ht⟩
  · rintro h t ⟨_, ⟨m, hm, rfl⟩, ht⟩
    exact h m hm t ht

theorem Object.NumbersSurvive.set {o : Object} (h : o.NumbersSurvive) {k : String} {v : Value}
    (hv : v.keyed = true) (hnums : (numerals v).nums = []) :
    (o.set k v hv).NumbersSurvive := by
  rw [Object.survives_iff] at h ⊢
  intro m hm t ht
  rcases JsonTree.mem_putKey hm with rfl | hm
  · rw [hnums] at ht
    cases ht
  · exact h m hm t ht

theorem Engine.survives_emitDetail (engine : Engine) (info : Codes.Meta) (detail : Object) :
    (engine.emitDetail info detail).NumbersSurvive := by
  unfold Engine.emitDetail
  split_ifs
  · exact ((engine.survives _).set rfl rfl).set rfl rfl
  · exact engine.survives _

/-- The record passes when it is read back. -/
theorem passes_sealedRecord (H : Sha256) (B : Backend T) (engine : Engine) (run : RedactExpired)
    (table : AuditTable T) (c : RedactionCandidate) :
    ((sealedRecord H engine run table c).columns B.store).Passes H B.time := by
  have hsurvives : (sealedRecord H engine run table c).NumbersSurvive := by
    intro detail hdetail
    rw [← Option.some.inj hdetail]
    exact engine.survives_emitDetail _ _
  exact exists_scanRow B.store B.time (Row.rowBreak_sealRow _ _ _) hsurvives
    (B.keeps _ (run.draw c).fourDigitYear (Instant.truncate_truncate _)) rfl rfl (Or.inr rfl)

theorem AuditTable.nextPrevHash_eq (table : AuditTable T) (node : String) :
    table.nextPrevHash node = HashChain.tipHash (columnsLink T) (table.nodeRows node) := by
  have hstep : AuditTable.higherSealed = HashChain.higher (columnsLink T) := by
    funext best row
    simp only [AuditTable.higherSealed, HashChain.higher, columnsLink]
    cases best <;> rfl
  rw [AuditTable.nextPrevHash, hstep, HashChain.tipHash, HashChain.tipOf]
  cases List.foldl (HashChain.higher (columnsLink T)) none (table.nodeRows node) <;> rfl

/-- **A record extends the chain of the engine's node.** -/
theorem AuditTable.Verifies.emitRecord (hok : table.Verifies H B.time)
    (hroom : table.HasRoom engine.nodeId) (h : emitRecord H B engine run table c = some table') :
    table'.Verifies H B.time := by
  have hpasses := passes_sealedRecord H B engine run table c
  have hrows := emitRecord_rows hroom h
  refine ⟨fun d hd => ?_, ?_⟩
  · rw [hrows, List.mem_append, List.mem_singleton] at hd
    rcases hd with hd | rfl
    · exact hok.readable d hd
    · obtain ⟨row, hread, -⟩ := hpasses
      exact ⟨row, hread⟩
  · rw [hrows]
    refine HashChain.forall_nodes_concat hok.chains ?_
    have hset : {d | d ∈ table.rows ∧ d.sourceNodeId = engine.nodeId}
        = {d | d ∈ table.nodeRows engine.nodeId} := by
      ext d
      exact AuditTable.mem_nodeRows.symm
    have hchain := hok.chains engine.nodeId
    rw [hset] at hchain
    change HashChain.Ok _ _ (insert _ {d | d ∈ table.rows ∧ d.sourceNodeId = engine.nodeId})
    rw [hset]
    exact hchain.grow (fun d hd d' hd' hid => table.eq_of_id_eq (AuditTable.mem_nodeRows.1 hd).1
        (AuditTable.mem_nodeRows.1 hd').1 hid)
      AuditTable.allocated_hash_ne_empty hpasses
      (fun d hd => AuditTable.lt_nextSeq hroom (AuditTable.mem_nodeRows.1 hd).1
        (AuditTable.mem_nodeRows.1 hd).2)
      (table.nextPrevHash_eq engine.nodeId)

/-- The verifier reads the columns as this row, and passes it where the columns pass. -/
structure ReadAs (H : Sha256) (time : T → Option Instant) (check : AuditRow → Option Reason)
    (c : Columns T) (row : AuditRow) : Prop where
  same : HashChain.Same (columnsLink T) auditLink c row
  node : row.sourceNodeId = c.sourceNodeId
  checked : c.Passes H time → check row = none

/-- **The verifier accepts every node** of such a table. -/
theorem AuditTable.Verifies.verifyChain (h : table.Verifies H time)
    {check : AuditRow → Option Reason} {asRow : Columns T → AuditRow}
    (hread : ∀ c ∈ table.rows, ReadAs H time check c (asRow c)) (hnul : NoNul node)
    (hrange : ∀ c ∈ table.rows, InInt64 c.monotonicSeq) :
    (verifyChainWithCheckpoints check ((table.nodeRows node).map asRow) [] false).ok = true := by
  have hmem : ∀ {r}, r ∈ (table.nodeRows node).map asRow
      ↔ ∃ c, (c ∈ table.rows ∧ c.sourceNodeId = node) ∧ asRow c = r := by
    simp [AuditTable.mem_nodeRows]
  have hrows : ∀ r ∈ (table.nodeRows node).map asRow,
      r.sourceNodeId = node ∧ InInt64 r.monotonicSeq := by
    intro r hr
    obtain ⟨c, ⟨hc, hnode⟩, rfl⟩ := hmem.1 hr
    have hseq : (asRow c).monotonicSeq = c.monotonicSeq := (hread c hc).same.seq
    exact ⟨(hread c hc).node.trans hnode, hseq ▸ hrange c hc⟩
  have hdistinct : Distinct ((table.nodeRows node).map asRow) := by
    intro r hr r' hr' _ hid
    obtain ⟨c, ⟨hc, -⟩, rfl⟩ := hmem.1 hr
    obtain ⟨c', ⟨hc', -⟩, rfl⟩ := hmem.1 hr'
    rw [show (asRow c).id = c.id from (hread c hc).same.id,
      show (asRow c').id = c'.id from (hread c' hc').same.id] at hid
    rw [table.eq_of_id_eq hc hc' hid]
  rw [ok_iff_verifyChain (fun r hr => (hrows r hr).1 ▸ hnul) (fun r hr => (hrows r hr).2) (by simp),
    verifyChain_rows_ok_iff, rowsOk_iff_of_distinct hdistinct]
  intro other
  refine nodeOk_iff.2 ?_
  by_cases hother : node = other
  · subst hother
    refine (h.chains node).transport rfl (fun r hr => ?_) fun c hc => ?_
    · obtain ⟨c, hc, rfl⟩ := hmem.1 hr.1
      exact ⟨c, hc, (hread c hc.1).same, fun _ => (hread c hc.1).checked⟩
    · exact ⟨asRow c, ⟨hmem.2 ⟨c, hc, rfl⟩, (hread c hc.1).node.trans hc.2⟩, (hread c hc.1).same.seq⟩
  · -- no row is of another node
    have hempty : ∀ r ∈ {r | r ∈ (table.nodeRows node).map asRow ∧ r.sourceNodeId = other},
        r.hash = "" := fun r hr => absurd ((hrows r hr.1).1.symm.trans hr.2) hother
    exact nodeOk_iff.1 (nodeOk_of_unsealed hempty)

/-- **Go's runs**, on any table with room for the records of each run. -/
theorem accounted_redactExpired (H : Sha256) (B : Backend T) (engine : Engine)
    (table : AuditTable T) (runs : List RedactExpired)
    (hroom : Run.AllAlong (fun t run => (redactExpired H B engine t run).last t)
      (fun t run => t.Room engine.nodeId (listedIds B t run).length) table runs) :
    (tableView T).Accounted (redactExpired H B engine) (listedIds B)
      (fun t => table.Verifies H B.time → t.Verifies H B.time) table runs := by
  refine Ledger.View.accounted_of_runOk _ (fun t run hs hroom => ?_) id hroom
  rw [listedIds, List.length_map] at hroom
  exact (tableView_lawful H B engine run).runOk
    (I := fun n t => t.Room engine.nodeId n ∧ (table.Verifies H B.time → t.Verifies H B.time))
    (P := fun _ => True) rfl rfl (fun c hc => mem_listRedactionCandidates hc) hroom
    (fun _ _ h => ⟨h.1.less, h.2⟩)
    (fun _ _ _ _ _ h he => ⟨room_emitRecord h.1 he, fun hok => (h.2 hok).emitRecord h.1.hasRoom he⟩)
    (fun _ _ c h => ⟨room_redactRows h.1 _, fun hok => (h.2 hok).redactRows [c.id]⟩)
    (fun _ _ => trivial) ⟨hroom, hs⟩ (fun _ h => h.2)

end Chains

end Fasten.Go
