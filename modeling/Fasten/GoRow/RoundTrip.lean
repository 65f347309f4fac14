import Fasten.GoRow.Spec
import Fasten.RowHash.Seal

set_option autoImplicit false

/-! # A row through a Go store

`insertRowExec` and `scanRows` of the SQLite store (`go/store.go`), and the same of the Postgres
store (`go/store_postgres.go`). A replicated row that passes the check is stored, and what is read
back is the row but for its numbers, which come back as float64, and its times, which come back to
the microsecond or not at all. -/

namespace Fasten.Go

open JsonText

/-! ## Columns -/

/-- The columns of an audit table (`auditCols`), with what the table keeps a time as. -/
structure Columns (T : Type) where
  id : String
  originId : String
  monotonicSeq : Int
  timestamp : T
  code : String
  action : String
  severity : String
  serviceId : String
  sourceNodeId : String
  tenantId : Option String
  actor : String
  actorKind : String
  target : String
  category : String
  domain : String
  method : String
  requestId : String
  detail : List Char
  piiInDetail : Int
  shippedAt : Option T
  wireVersion : String
  hash : String
  prevHash : String
  canonicalFormId : String
  detailSalt : String
  detailCommitment : String

/-- The values `insertRowExec` binds. -/
def Row.columns {T : Type} (time : Instant → T) (row : Row) : Columns T where
  id := row.id
  originId := row.originId
  monotonicSeq := row.monotonicSeq
  timestamp := time row.timestamp
  code := row.code
  action := row.action
  severity := row.severity
  serviceId := row.serviceId
  sourceNodeId := row.sourceNodeId
  tenantId := row.tenantId
  actor := row.actor
  actorKind := row.actorKind
  target := row.target
  category := row.category
  domain := row.domain
  method := row.method
  requestId := row.requestId
  detail := marshal row.detail
  piiInDetail := if row.piiInDetail then 1 else 0
  shippedAt := row.shippedAt.map time
  wireVersion := row.wire
  hash := row.hash
  prevHash := row.prevHash
  canonicalFormId := row.formId
  detailSalt := row.detailSalt
  detailCommitment := row.detailCommitment

/-- The column of a time that may not be set; `none` is a parse error. -/
def scanTime {T : Type} (time : T → Option Instant) : Option T → Option (Option Instant)
  | none => some none
  | some t => (time t).map some

/-- The row of the columns that need no parsing, with those that do. -/
def Columns.row {T : Type} (c : Columns T) (detail : Option Object) (timestamp : Instant)
    (shippedAt : Option Instant) : Row where
  wireVersion := if c.wireVersion = "" then "1" else c.wireVersion
  id := c.id
  originId := c.originId
  monotonicSeq := c.monotonicSeq
  timestamp := timestamp
  code := c.code
  action := c.action
  severity := c.severity
  serviceId := c.serviceId
  sourceNodeId := c.sourceNodeId
  tenantId := c.tenantId
  actor := c.actor
  actorKind := c.actorKind
  target := c.target
  category := c.category
  domain := c.domain
  method := c.method
  requestId := c.requestId
  detail := detail
  piiInDetail := decide (c.piiInDetail ≠ 0)
  shippedAt := shippedAt
  canonicalFormId := if c.canonicalFormId = "" then "1" else c.canonicalFormId
  prevHash := c.prevHash
  hash := c.hash
  detailSalt := c.detailSalt
  detailCommitment := c.detailCommitment

/-- One row of a query; `none` is an error for a column that does not parse. -/
def scanRow {T : Type} (time : T → Option Instant) (c : Columns T) : Option Row :=
  (time c.timestamp).bind fun timestamp =>
    (unmarshal c.detail).bind fun detail =>
      (scanTime time c.shippedAt).map fun shippedAt => c.row detail timestamp shippedAt

namespace SQLite

def insertRowExec (row : Row) : Columns String := row.columns Instant.canonicalTS

/-- `none` is the error for a row without a hash. -/
def insertReplicatedTx (row : Row) : Option (Columns String) :=
  if row.hash = "" then none else some (insertRowExec row)

def scanRows (c : Columns String) : Option Row := scanRow Instant.parseCanonicalTS c

end SQLite

/-- What the driver and a `timestamptz` column make of a time: a whole number of microseconds. -/
structure Timestamptz where
  store : Instant → Instant
  whole : ∀ t, (store t).truncate = store t

/-- The texts of a row that are stored as they are. The encoder escapes those of `detail`. -/
def Row.texts (row : Row) : List String :=
  [row.id, row.originId, row.code, row.action, row.severity, row.serviceId, row.sourceNodeId,
    row.tenantId.getD "", row.actor, row.actorKind, row.target, row.category, row.domain,
    row.method, row.requestId, row.wireVersion, row.hash, row.prevHash, row.canonicalFormId,
    row.detailSalt, row.detailCommitment]

namespace Postgres

/-- `none` is the error for a text with a NUL, which a `text` column cannot hold. -/
def insertRowExec (column : Timestamptz) (row : Row) : Option (Columns Instant) :=
  if row.texts.any (fun s => s.toList.contains '\x00') then none
  else some (row.columns column.store)

def insertReplicatedTx (column : Timestamptz) (row : Row) : Option (Columns Instant) :=
  if row.hash = "" then none else insertRowExec column row

def scanRowsPg (c : Columns Instant) : Option Row := scanRow some c

end Postgres

/-! ## What is read back -/

theorem row_columns {T : Type} (store : Instant → T) (row : Row) (detail : Option Object)
    (timestamp : Instant) (shippedAt : Option Instant) :
    (row.columns store).row detail timestamp shippedAt = row.stored detail timestamp shippedAt := by
  cases hpii : row.piiInDetail <;>
    simp [Columns.row, Row.columns, Row.stored, row.wire_ne_empty, row.formId_ne_empty, hpii]

/-- **The row comes back with its `detail` re-encoded and its times as the columns give them.** -/
theorem scanRow_columns {T : Type} (store : Instant → T) (time : T → Option Instant) (row : Row) :
    scanRow time (row.columns store)
      = (time (store row.timestamp)).bind fun timestamp =>
          (unmarshal (marshal row.detail)).bind fun detail =>
            (scanTime time (row.shippedAt.map store)).map fun shippedAt =>
              row.stored detail timestamp shippedAt := by
  simp only [scanRow, row_columns]
  rfl

/-- Every number of the row's `detail` is written as it was read. -/
def Row.NumbersSurvive (row : Row) : Prop :=
  ∀ detail, row.detail = some detail → ∀ t ∈ (numerals detail.value).nums, Survives t

/-- What the store gives back for a `detail` that is there is there. -/
theorem isSome_of_unmarshal {o : Object} {detail : Option Object}
    (h : unmarshal (marshal (some o)) = some detail) : ∃ o', detail = some o' := by
  rw [unmarshal_marshal_some] at h
  obtain ⟨members, _, hmembers⟩ := Option.map_eq_some_iff.1 h
  exact ⟨_, hmembers.symm⟩

theorem unmarshal_detail_iff (row : Row) :
    (∃ detail, unmarshal (marshal row.detail) = some detail
      ∧ detail.map (fun o => numerals o.value) = row.detail.map (fun o => numerals o.value))
      ↔ row.NumbersSurvive := by
  cases hd : row.detail with
  | none => simp [Row.NumbersSurvive, hd, unmarshal_marshal_none]
  | some o =>
    have hsurvive : row.NumbersSurvive ↔ ∀ t ∈ (numerals o.value).nums, Survives t := by
      simp [Row.NumbersSurvive, hd]
    rw [hsurvive, ← unmarshal_marshal_iff]
    refine ⟨fun ⟨detail, hread, hsame⟩ => ?_, fun ⟨o', hread, hsame⟩ => ?_⟩
    · obtain ⟨o', rfl⟩ := isSome_of_unmarshal hread
      exact ⟨o', hread, Option.some.inj hsame⟩
    · exact ⟨some o', hread, congrArg some hsame⟩

variable {H : Sha256} {row : Row}

/-- A row whose numbers survive passes with times that are the same to the microsecond. -/
theorem rowBreak_scanned (hrow : row.rowBreak H = none) {timestamp : Instant}
    {shippedAt : Option Instant} (hnumbers : row.NumbersSurvive)
    (htime : timestamp.truncate = row.timestamp.truncate)
    (hshipped : Row.rowBreak H { row with shippedAt := none } = none
      ∨ shippedAt.map Instant.truncate = row.shippedAt.map Instant.truncate) :
    ∃ detail, unmarshal (marshal row.detail) = some detail
      ∧ (row.stored detail timestamp shippedAt).rowBreak H = none := by
  obtain ⟨detail, hread, hsame⟩ := (unmarshal_detail_iff row).2 hnumbers
  refine ⟨detail, hread, ?_⟩
  rcases hshipped with hunshipped | hshipped
  · -- the hash is not over `ShippedAt`, whatever came back for it
    refine Row.rowBreak_of_unshipped ?_
    exact @Row.rowBreak_stored H { row with shippedAt := none } detail timestamp none hsame htime
      rfl hunshipped
  · exact Row.rowBreak_stored hsame htime hshipped hrow

/-- **When a stored row still passes**, for the times the columns give back. -/
theorem rowBreak_scanned_iff (hH : Function.Injective H.hexdigest) (hrow : row.rowBreak H = none)
    (timestamp : Instant) (shippedAt : Option Instant) :
    (∃ detail, unmarshal (marshal row.detail) = some detail
      ∧ (row.stored detail timestamp shippedAt).rowBreak H = none)
      ↔ row.NumbersSurvive ∧ timestamp.truncate = row.timestamp.truncate
        ∧ (Row.rowBreak H { row with shippedAt := none } = none
          ∨ shippedAt.map Instant.truncate = row.shippedAt.map Instant.truncate) := by
  refine ⟨fun ⟨detail, hread, hpasses⟩ => ?_,
    fun ⟨hnumbers, htime, hshipped⟩ => rowBreak_scanned hrow hnumbers htime hshipped⟩
  refine ⟨?_, Row.timestamp_eq hH hrow hpasses, Row.unshipped_or_shippedAt_eq hH hrow hpasses⟩
  rw [← unmarshal_detail_iff]
  refine ⟨detail, hread, ?_⟩
  cases hd : row.detail with
  | none =>
    rw [hd, unmarshal_marshal_none, Option.some.injEq] at hread
    rw [← hread]
  | some o =>
    obtain ⟨o', ho'⟩ := isSome_of_unmarshal (hd ▸ hread)
    rw [ho', Option.map_some, Option.map_some, Row.numerals_detail_eq hH hrow hpasses hd ho']

theorem exists_scanRow {T : Type} (store : Instant → T) (time : T → Option Instant)
    (hrow : row.rowBreak H = none) (hnumbers : row.NumbersSurvive) {timestamp : Instant}
    (htime : time (store row.timestamp) = some timestamp)
    (htrunc : timestamp.truncate = row.timestamp.truncate) {shippedAt : Option Instant}
    (hread : scanTime time (row.shippedAt.map store) = some shippedAt)
    (hshipped : Row.rowBreak H { row with shippedAt := none } = none
      ∨ shippedAt.map Instant.truncate = row.shippedAt.map Instant.truncate) :
    ∃ row', scanRow time (row.columns store) = some row' ∧ row'.rowBreak H = none := by
  obtain ⟨detail, hdetail, hpasses⟩ := rowBreak_scanned hrow hnumbers htrunc hshipped
  refine ⟨_, ?_, hpasses⟩
  rw [scanRow_columns, htime, Option.bind_some, hdetail, Option.bind_some, hread, Option.map_some]

/-- **When the row read back passes**, for any columns the times are kept in. -/
theorem exists_scanRow_iff {T : Type} (store : Instant → T) (time : T → Option Instant)
    (hH : Function.Injective H.hexdigest) (hrow : row.rowBreak H = none) :
    (∃ row', scanRow time (row.columns store) = some row' ∧ row'.rowBreak H = none)
      ↔ row.NumbersSurvive
        ∧ (∃ timestamp, time (store row.timestamp) = some timestamp
          ∧ timestamp.truncate = row.timestamp.truncate)
        ∧ ∃ shippedAt, scanTime time (row.shippedAt.map store) = some shippedAt
          ∧ (Row.rowBreak H { row with shippedAt := none } = none
            ∨ shippedAt.map Instant.truncate = row.shippedAt.map Instant.truncate) := by
  refine ⟨fun ⟨row', hscan, hpasses⟩ => ?_,
    fun ⟨hnumbers, ⟨timestamp, htime, htrunc⟩, shippedAt, hshipped, hor⟩ =>
      exists_scanRow store time hrow hnumbers htime htrunc hshipped hor⟩
  rw [scanRow_columns] at hscan
  simp only [Option.bind_eq_some_iff, Option.map_eq_some_iff] at hscan
  obtain ⟨timestamp, htime, detail, hread, shippedAt, hshipped, heq⟩ := hscan
  rw [← heq] at hpasses
  obtain ⟨hnumbers, htrunc, hor⟩ :=
    (rowBreak_scanned_iff hH hrow timestamp shippedAt).1 ⟨detail, hread, hpasses⟩
  exact ⟨hnumbers, ⟨timestamp, htime, htrunc⟩, shippedAt, hshipped, hor⟩

/-! ## The stores -/

theorem Instant.truncate_truncate (t : Instant) : t.truncate.truncate = t.truncate := by
  simp only [Instant.truncate, Instant.mk.injEq, true_and]
  exact congrArg (· * 1000) t.microsecond_truncate

/-- `canonicalTS` writes the row's times with four digits for the year. -/
def Row.FourDigitYears (row : Row) : Prop :=
  ∀ t, t = row.timestamp ∨ row.shippedAt = some t → 0 ≤ t.year ∧ t.year < 10000

/-- A time comes back from its text to the microsecond, or not at all. -/
theorem exists_parseCanonicalTS_iff (t : Instant) :
    (∃ read, Instant.parseCanonicalTS t.canonicalTS = some read ∧ read.truncate = t.truncate)
      ↔ 0 ≤ t.year ∧ t.year < 10000 := by
  by_cases hyear : 0 ≤ t.year ∧ t.year < 10000
  · exact iff_of_true ⟨_, Instant.parseCanonicalTS_canonicalTS hyear, t.truncate_truncate⟩ hyear
  · rw [Instant.parseCanonicalTS_eq_none hyear]
    simp [hyear]

theorem exists_scanTime_iff (shippedAt : Option Instant) (p : Prop) :
    (∃ read, scanTime Instant.parseCanonicalTS (shippedAt.map Instant.canonicalTS) = some read
      ∧ (p ∨ read.map Instant.truncate = shippedAt.map Instant.truncate))
      ↔ ∀ t, shippedAt = some t → 0 ≤ t.year ∧ t.year < 10000 := by
  cases shippedAt with
  | none => simp [scanTime]
  | some t =>
    simp only [Option.some.injEq, forall_eq', Option.map_some, scanTime]
    by_cases hyear : 0 ≤ t.year ∧ t.year < 10000
    · rw [Instant.parseCanonicalTS_canonicalTS hyear]
      simp [hyear, t.truncate_truncate]
    · rw [Instant.parseCanonicalTS_eq_none hyear]
      simp [hyear]

theorem SQLite.rowBreak_scanRows_iff (hH : Function.Injective H.hexdigest)
    (hrow : row.rowBreak H = none) :
    (∃ row', (SQLite.insertReplicatedTx row).bind SQLite.scanRows = some row'
      ∧ row'.rowBreak H = none) ↔ row.NumbersSurvive ∧ row.FourDigitYears := by
  rw [SQLite.insertReplicatedTx, if_neg (Row.hash_ne_empty hrow), Option.bind_some]
  refine (exists_scanRow_iff Instant.canonicalTS Instant.parseCanonicalTS hH hrow).trans ?_
  rw [exists_parseCanonicalTS_iff, exists_scanTime_iff]
  refine and_congr_right (fun _ => ⟨fun h t ht => ?_, fun h => ⟨h _ (Or.inl rfl), fun t ht => ?_⟩⟩)
  · rcases ht with rfl | ht
    · exact h.1
    · exact h.2 t ht
  · exact h t (Or.inr ht)

/-- The texts of the row hold no NUL. -/
def Row.NoNul (row : Row) : Prop := ∀ s ∈ row.texts, '\x00' ∉ s.toList

theorem Postgres.rowBreak_scanRowsPg_iff (column : Timestamptz)
    (hH : Function.Injective H.hexdigest) (hrow : row.rowBreak H = none) :
    (∃ row', (Postgres.insertReplicatedTx column row).bind Postgres.scanRowsPg = some row'
      ∧ row'.rowBreak H = none)
      ↔ row.NumbersSurvive ∧ row.NoNul ∧ column.store row.timestamp = row.timestamp.truncate
        ∧ (Row.rowBreak H { row with shippedAt := none } = none
          ∨ ∀ t, row.shippedAt = some t → column.store t = t.truncate) := by
  have hnul : row.texts.any (fun s => s.toList.contains '\x00') = true ↔ ¬row.NoNul := by
    simp [Row.NoNul]
  rw [Postgres.insertReplicatedTx, if_neg (Row.hash_ne_empty hrow), Postgres.insertRowExec]
  by_cases hno : row.NoNul
  · rw [if_neg (fun h => hnul.1 h hno), Option.bind_some]
    refine (exists_scanRow_iff column.store some hH hrow).trans ?_
    have hship : (∃ read, scanTime some (row.shippedAt.map column.store) = some read
        ∧ (Row.rowBreak H { row with shippedAt := none } = none
          ∨ read.map Instant.truncate = row.shippedAt.map Instant.truncate))
        ↔ (Row.rowBreak H { row with shippedAt := none } = none
          ∨ ∀ t, row.shippedAt = some t → column.store t = t.truncate) := by
      cases row.shippedAt <;> simp [scanTime, column.whole]
    rw [hship]
    simp [hno, column.whole]
  · rw [if_pos (hnul.2 hno)]
    simp [hno]

/-- **When a replicated row that passes the check still passes after a Go store.** In SQLite its
    numbers must survive and its years have four digits. In Postgres its numbers must survive, its
    texts hold no NUL, and the columns round its times down, `ShippedAt` only where the hash is over
    it. -/
theorem rowBreak_storeRoundTrip_iff {H : Sha256} (hH : Function.Injective H.hexdigest)
    (column : Timestamptz) {row : Row} (hrow : row.rowBreak H = none) :
    ((∃ row', (SQLite.insertReplicatedTx row).bind SQLite.scanRows = some row'
        ∧ row'.rowBreak H = none) ↔ row.NumbersSurvive ∧ row.FourDigitYears)
      ∧ ((∃ row', (Postgres.insertReplicatedTx column row).bind Postgres.scanRowsPg = some row'
          ∧ row'.rowBreak H = none)
        ↔ row.NumbersSurvive ∧ row.NoNul ∧ column.store row.timestamp = row.timestamp.truncate
          ∧ (Row.rowBreak H { row with shippedAt := none } = none
            ∨ ∀ t, row.shippedAt = some t → column.store t = t.truncate)) :=
  ⟨SQLite.rowBreak_scanRows_iff hH hrow, Postgres.rowBreak_scanRowsPg_iff column hH hrow⟩

/-- `2026-08-21T10:00:00Z`. -/
def Instant.sample : Instant :=
  ⟨2026, 8, 21, 10, 0, 0, 0, by decide, by decide, by decide, Datetime.epoch.minuteRange,
    Datetime.epoch.secondRange, by decide⟩

/-- A row with this `detail`, before it is sealed. -/
def Row.sample (detail : Option Object) : Row :=
  ⟨"1", "a", "a", 1, Instant.sample, "DEV_CREATE", "create", "INFO", "svc", "n", none, "u", "user",
    "dev", "device", "fleet", "api", "r", detail, false, none, "", "", "", "", ""⟩

/-- `{"n": ...}` with this number. -/
def Object.single (n : Num) : Object :=
  ⟨[("n", .num n)], by simp [JsonTree.keyed, JsonTree.keyedMembers]⟩

/-- `999`. -/
def Number.whole : Number := ⟨⟨['9', '9', '9'], by decide, by simp [JsonText.isNumChar]⟩, by decide⟩

/-- `999.0`, as Python writes a whole number that is a float. -/
def Number.wholeFloat : Number :=
  ⟨⟨['9', '9', '9', '.', '0'], by decide, by simp [JsonText.isNumChar]⟩, by decide⟩

/-- The sample row, sealed. -/
def Row.sealedSample (n : Number) : Row :=
  Row.sealRow plainDigest Token.salt "genesis" (Row.sample (some (Object.single (.number n))))

theorem nums_single (n : Number) : (numerals (Object.single (.number n)).value).nums = [n.toNumeral] :=
  rfl

theorem numbersSurvive_sealedSample_iff (n : Number) :
    (Row.sealedSample n).NumbersSurvive ↔ Survives n.toNumeral := by
  have hdetail : (Row.sealedSample n).detail = some (Object.single (.number n)) := rfl
  simp [Row.NumbersSurvive, hdetail, nums_single]

theorem rowBreak_storeRoundTrip_whole :
    ∃ row', (SQLite.insertReplicatedTx (Row.sealedSample .whole)).bind SQLite.scanRows = some row'
      ∧ row'.rowBreak plainDigest = none := by
  refine (rowBreak_storeRoundTrip_iff plainDigest_injective ⟨Instant.truncate, Instant.truncate_truncate⟩
    (Row.rowBreak_sealRow _ _ _)).1.2 ⟨?_, fun t ht => ?_⟩
  · exact (numbersSurvive_sealedSample_iff _).2 (by decide +kernel)
  · rcases ht with rfl | ht
    · exact ⟨by decide, by decide⟩
    · cases ht

/-- A row with the number `999.0` decodes with its token and passes, and it does not pass after
    either store. -/
theorem rowBreak_storeRoundTrip_fails_wholeFloat :
    decodeUseNumber ['{', '"', 'n', '"', ':', ' ', '9', '9', '9', '.', '0', '}']
        = some (Row.sealedSample .wholeFloat).detail
      ∧ (Row.sealedSample .wholeFloat).rowBreak plainDigest = none
      ∧ (∀ row', (SQLite.insertReplicatedTx (Row.sealedSample .wholeFloat)).bind SQLite.scanRows
          = some row' → row'.rowBreak plainDigest ≠ none)
      ∧ ∀ column row', (Postgres.insertReplicatedTx column (Row.sealedSample .wholeFloat)).bind
          Postgres.scanRowsPg = some row' → row'.rowBreak plainDigest ≠ none := by
  have hpasses : (Row.sealedSample .wholeFloat).rowBreak plainDigest = none :=
    Row.rowBreak_sealRow _ _ _
  have hchanges : ¬(Row.sealedSample .wholeFloat).NumbersSurvive := by
    rw [numbersSurvive_sealedSample_iff]
    decide +kernel
  refine ⟨rfl, hpasses, fun row' hread hpass => ?_, fun column row' hread hpass => ?_⟩
  · exact hchanges ((SQLite.rowBreak_scanRows_iff plainDigest_injective hpasses).1
      ⟨row', hread, hpass⟩).1
  · exact hchanges ((Postgres.rowBreak_scanRowsPg_iff column plainDigest_injective hpasses).1
      ⟨row', hread, hpass⟩).1

end Fasten.Go
