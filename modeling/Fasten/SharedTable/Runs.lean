import Fasten.Lib.Run
import Fasten.RowHash.Seal
import Fasten.SharedTable

set_option autoImplicit false

/-! # The shared table stays readable

Both readers need the canonical form of the two time columns (spec §4.3). Every call of Python's
store writes it, and so does fasten-core's `insert` for a row that has it; fasten-core's
`mark_shipped` writes milliseconds, and a row that it stamps is read by neither SDK. Go reads the
numbers of a `detail` as float64, and Python also writes integers that are none. -/

namespace Fasten.SharedTable

open JsonText

/-! ## Rows that can be read -/

/-- Both time columns are in the canonical form. -/
structure Columns.Canonical (c : Columns) : Prop where
  timestamp : ∃ t, c.timestamp = canonicalTs t
  shippedAt : ∀ text, c.shippedAt = some text → ∃ t, text = canonicalTs t

/-- The fields that Python's `AuditRow` refuses to be without. -/
def Columns.Complete (c : Columns) : Prop :=
  c.code ≠ "" ∧ c.requestId ≠ "" ∧ c.serviceId ≠ "" ∧ c.sourceNodeId ≠ ""

instance (c : Columns) : Decidable c.Complete := inferInstanceAs (Decidable (_ ∧ _))

/-- Every row has canonical times, and is read by Python and by Go. -/
def Readable (rows : List Row) : Prop :=
  ∀ r ∈ rows, r.Canonical ∧ (row r).isSome ∧ (scanRow r).isSome

/-- Both SDKs read the text of a `detail`. -/
def DetailRead (text : List Char) : Prop := (readDetail text).isSome ∧ (Go.unmarshal text).isSome

/-- Go reads every number. -/
def GoReads (t : JsonTree Numeral String) : Prop := ∀ n ∈ t.nums, (Go.float64Of n).isSome

instance (t : JsonTree Numeral String) : Decidable (GoReads t) :=
  inferInstanceAs (Decidable (∀ n ∈ t.nums, (Go.float64Of n).isSome = true))

theorem canonicalTs_ne_empty (t : Datetime) : canonicalTs t ≠ "" := by
  intro h
  have hlength := congrArg (fun s => s.toList.length) h
  simp [canonicalTs, canonicalTsText] at hlength

theorem isSome_row_iff {r : Row} (h : r.Canonical) (hdetail : (readDetail r.detail).isSome) :
    (row r).isSome ↔ r.Complete := by
  obtain ⟨detail, hdetail⟩ := Option.isSome_iff_exists.1 hdetail
  obtain ⟨⟨t, ht⟩, hshipped⟩ := h
  have hread : ∃ shippedAt, readShippedAt r.shippedAt = some shippedAt := by
    cases htext : r.shippedAt with
    | none => exact ⟨none, rfl⟩
    | some text =>
      obtain ⟨u, rfl⟩ := hshipped text htext
      exact ⟨some u, by
        simp [readShippedAt, canonicalTs_ne_empty, parseCanonical_canonicalTs]⟩
  obtain ⟨shippedAt, hread⟩ := hread
  rw [row, ht, parseCanonical_canonicalTs, hread, hdetail]
  simp only [Option.bind_eq_bind, Option.bind_some, Columns.Complete]
  split_ifs with hcomplete
  · exact iff_of_true rfl hcomplete
  · exact iff_of_false Bool.false_ne_true hcomplete

theorem isSome_scanRow_iff {r : Row} (h : r.Canonical) :
    (scanRow r).isSome ↔ (Go.unmarshal r.detail).isSome := by
  obtain ⟨⟨t, ht⟩, hshipped⟩ := h
  obtain ⟨shippedAt, hscan⟩ : ∃ shippedAt, Go.scanTime Go.Instant.parseCanonicalTS r.shippedAt
      = some shippedAt := by
    cases htext : r.shippedAt with
    | none => exact ⟨none, rfl⟩
    | some text =>
      obtain ⟨u, rfl⟩ := hshipped text htext
      refine ⟨some u.goInstant.truncate, ?_⟩
      rw [Go.scanTime, u.parseCanonicalTS_canonicalTs, Option.map_some]
  have htimestamp : Go.Instant.parseCanonicalTS r.goColumns.timestamp
      = some t.goInstant.truncate := by
    rw [show r.goColumns.timestamp = canonicalTs t from ht, t.parseCanonicalTS_canonicalTs]
  have hshippedAt : Go.scanTime Go.Instant.parseCanonicalTS r.goColumns.shippedAt
      = some shippedAt := hscan
  rw [scanRow, Go.SQLite.scanRows, Go.scanRow, htimestamp, hshippedAt]
  simp only [Option.bind_some, Option.map_some]
  cases hdetail : Go.unmarshal r.detail with
  | none =>
    have hnone : Go.unmarshal r.goColumns.detail = none := hdetail
    simp [hnone]
  | some detail =>
    have hsome : Go.unmarshal r.goColumns.detail = some detail := hdetail
    simp [hsome]

theorem isSome_readDetail_of_row {r : Row} (h : (row r).isSome) : (readDetail r.detail).isSome := by
  obtain ⟨_, h⟩ := Option.isSome_iff_exists.1 h
  simp only [row, Option.bind_eq_bind, Option.bind_eq_some_iff] at h
  obtain ⟨_, -, detail, hdetail, -⟩ := h
  exact Option.isSome_iff_exists.2 ⟨detail, hdetail⟩

theorem readable_iff {rows : List Row} :
    Readable rows ↔ ∀ r ∈ rows, r.Canonical ∧ r.Complete ∧ DetailRead r.detail := by
  refine forall₂_congr (fun r _ => and_congr_right (fun h => ?_))
  rw [isSome_scanRow_iff h, DetailRead]
  constructor
  · rintro ⟨hrow, hgo⟩
    have hdetail := isSome_readDetail_of_row hrow
    exact ⟨(isSome_row_iff h hdetail).1 hrow, hdetail, hgo⟩
  · rintro ⟨hcomplete, hdetail, hgo⟩
    exact ⟨(isSome_row_iff h hdetail).2 hcomplete, hgo⟩

/-! ## Texts of a `detail` -/

theorem isSome_ofNumeral {t : Numeral} (h : (Go.float64Of t).isSome) : (Json.ofNumeral t).isSome := by
  obtain ⟨f, hf⟩ := Option.isSome_iff_exists.1 h
  obtain ⟨d, hd, hfloat⟩ := Option.bind_eq_some_iff.1 hf
  rw [Json.ofNumeral, hd, Option.bind_some, hfloat]
  split_ifs <;> rfl

/-- Python reads whatever numbers Go reads. -/
theorem GoReads.isSome_ofTree {t : JsonTree Numeral String} (h : GoReads t) :
    (Json.ofTree t).isSome := by
  induction t using JsonTree.ind with
  | null | bool | str => rfl
  | num n => exact isSome_ofNumeral (h n (List.mem_singleton_self n))
  | arr items ih =>
    rw [Json.ofTree, Option.isSome_map]
    induction items with
    | nil => rfl
    | cons v rest ihrest =>
      rw [List.forall_mem_cons] at ih
      rw [GoReads, JsonTree.nums, JsonTree.numsItems, List.forall_mem_append] at h
      obtain ⟨w, hw⟩ := Option.isSome_iff_exists.1 (ih.1 h.1)
      obtain ⟨ws, hws⟩ := Option.isSome_iff_exists.1 (ihrest ih.2 h.2)
      rw [ofTreeItems, hw, hws]
      rfl
  | obj members ih =>
    rw [Json.ofTree, Option.isSome_map]
    induction members with
    | nil => rfl
    | cons m rest ihrest =>
      rw [List.forall_mem_cons] at ih
      rw [GoReads, JsonTree.nums, JsonTree.numsMembers, List.forall_mem_append] at h
      obtain ⟨w, hw⟩ := Option.isSome_iff_exists.1 (ih.1 h.1)
      obtain ⟨ws, hws⟩ := Option.isSome_iff_exists.1 (ihrest ih.2 h.2)
      rw [ofTreeMembers, hw, hws]
      rfl

/-- The text of an object or null is read by both just when Go reads its numbers. -/
theorem detailRead_iff {esc : Char → List Char} (hesc : ∀ c, Go.EscapeOf c (esc c))
    {space : List Char} (hspace : ∀ c ∈ space, isSpace c = true)
    (detail : Option (List (String × JsonTree Numeral String))) :
    DetailRead (write (textWriter esc space) (detail.elim .null .obj))
      ↔ GoReads (detail.elim .null .obj) := by
  rw [DetailRead, readDetail, jsonLoads, Go.unmarshal, Go.decodeMap,
    takesEscapes_pyReadChar.read_write hesc hspace, takesEscapes_readChar.read_write hesc hspace,
    Option.bind_some]
  cases detail with
  | none => simp [GoReads, Json.ofTree, JsonTree.nums]
  | some members =>
    simp only [Option.elim_some, Option.isSome_map]
    constructor
    · rintro ⟨-, hgo⟩ n hn
      obtain ⟨ws, hws⟩ := Option.isSome_iff_exists.1 hgo
      have htree : (JsonTree.obj members).traverse (fun t => (Go.float64Of t).map Go.Num.float64)
          = some (.obj ws) := by rw [JsonTree.traverse, hws, Option.map_some]
      simpa using JsonTree.isSome_of_traverse htree n hn
    · intro h
      have hpython := h.isSome_ofTree
      rw [Json.ofTree, Option.isSome_map] at hpython
      obtain ⟨ms, hms⟩ := Option.isSome_iff_exists.1 hpython
      obtain ⟨w, hw⟩ := JsonTree.exists_traverse (fun n hn => Option.isSome_iff_exists.1
        (Option.isSome_map.trans (h n hn) :
          ((Go.float64Of n).map Go.Num.float64).isSome = true))
      obtain ⟨ws, hws, -⟩ := Option.map_eq_some_iff.1 hw
      rw [Json.ofTree, hms, hws]
      exact ⟨rfl, rfl⟩

theorem escapeOf_unicodeEscape (c : Char) : Go.EscapeOf c (unicodeEscape c) := by
  unfold unicodeEscape
  cases hs : shortEscape c with
  | some e => exact .short e hs
  | none =>
    obtain ⟨hback, hquote⟩ := Go.shortEscape_eq_none hs
    simp only
    split_ifs with hctrl
    · have hlow : c.toNat < 32 := hctrl
      exact .unit (by omega)
    · exact .raw hback hquote hctrl

/-- What Python writes. -/
theorem detailRead_bound_iff (row : AuditRow) :
    DetailRead (bound row).detail ↔ GoReads (AuditRow.optDict row.detail).tree := by
  have htree : (AuditRow.optDict row.detail).tree
      = (row.detail.map treeMembers).elim .null .obj := by
    cases row.detail <;> rfl
  have htext : (bound row).detail
      = write (textWriter asciiEscape [' ']) (AuditRow.optDict row.detail).tree :=
    dumps_eq_write rfl rfl _
  rw [htext, htree]
  exact detailRead_iff Go.escapeOf_asciiEscape (by simp [isSpace]) _

/-- What fasten-core writes. -/
theorem Core.detailRead_bound_iff (row : CoreRow) (seq : Int) :
    DetailRead (Core.bound row seq).detail ↔ GoReads (Core.detailTree row) :=
  detailRead_iff escapeOf_unicodeEscape (by simp) _

theorem detailRead_null : DetailRead "null".toList :=
  (detailRead_iff Go.escapeOf_asciiEscape (List.forall_mem_nil _) none).2
    (List.forall_mem_nil _)

/-! ## What each call does -/

/-- The canonical text has three digits more. -/
theorem shippedTs_ne_canonicalTs (now t : Datetime) : Core.shippedTs now ≠ canonicalTs t := by
  intro h
  have hlength := congrArg (fun s => s.toList.length) h
  simp [Core.shippedTs, canonicalTs, canonicalTsText] at hlength

namespace Core

/-- The seq that `insert` stores the row at. -/
def seqOf (rows : List Row) (row : CoreRow) : Int :=
  if row.monotonicSeq ≠ 0 then row.monotonicSeq.toInt64.toInt else nextSeq rows row.sourceNodeId

/-- `insert` adds the row: the table has its columns, the id is new, and the seq is an `INTEGER`
    that no row of the node has. -/
def Adds (db : Database) (rows : List Row) (row : CoreRow) : Prop :=
  db.creator.wireColumns = true ∧ hasId rows row.id = false ∧ seqOf rows row ≤ maxSeq ∧
    db.clashes rows (bound row (seqOf rows row)) = false

theorem clashes_congr (db : Database) (rows : List Row) {r q : Row}
    (hnode : r.sourceNodeId = q.sourceNodeId) (hseq : r.monotonicSeq = q.monotonicSeq) :
    db.clashes rows r = db.clashes rows q := by
  rw [Database.clashes, Database.clashes, hnode, hseq]

/-- `insert` either adds the row, with its columns and its `detail`, or leaves the table. -/
theorem insert_eq (db : Database) (rows : List Row) (row : CoreRow) :
    (Adds db rows row ∧ ∃ r : Row, r.toColumns = row.toColumns ∧
      r.detail = (bound row (seqOf rows row)).detail ∧
      (insert db rows row).getD rows = rows ++ [r]) ∨
    (¬Adds db rows row ∧ (insert db rows row).getD rows = rows) := by
  by_cases hseq : row.monotonicSeq ≠ 0
  · have hof : seqOf rows row = row.monotonicSeq.toInt64.toInt := if_pos hseq
    have hbound : seqOf rows row ≤ maxSeq := by
      rw [hof]
      exact row.monotonicSeq.toInt64.toInt_le
    rw [insert, if_pos hseq, ← hof, insertRow]
    split_ifs with hcolumns hid hclash
    · exact .inr ⟨fun h => by simp [h.1] at hcolumns, rfl⟩
    · exact .inr ⟨fun h => by simp [h.2.1] at hid, rfl⟩
    · exact .inr ⟨fun h => by simp [h.2.2.2] at hclash, rfl⟩
    · refine .inl ⟨⟨by simpa using hcolumns, by simpa using hid, hbound, by simpa using hclash⟩,
        _, rfl, rfl, rfl⟩
  · have hof : seqOf rows row = nextSeq rows row.sourceNodeId := if_neg hseq
    have hsame := clashes_congr db rows (r := bound (unsealed row) (seqOf rows row))
      (q := bound row (seqOf rows row)) rfl rfl
    rw [insert, if_neg hseq, ← hof, insertRow, hsame]
    split_ifs with hid hmax hcolumns hid' hclash
    · exact .inr ⟨fun h => by simp [h.2.1] at hid, rfl⟩
    · exact .inr ⟨fun h => absurd h.2.2.1 (not_le.2 hmax), rfl⟩
    · exact .inr ⟨fun h => by simp [h.1] at hcolumns, rfl⟩
    · exact absurd hid' hid
    · exact .inr ⟨fun h => by simp [h.2.2.2] at hclash, rfl⟩
    · refine .inl ⟨⟨by simpa using hcolumns, by simpa using hid, not_lt.1 hmax,
        by simpa using hclash⟩, bound (unsealed row) (seqOf rows row), rfl, rfl, rfl⟩

end Core

/-- `allocate_and_insert_originated` adds the row. -/
def Adds (db : Database) (rows : List Row) (row : AuditRow) : Prop :=
  row.originId = row.id ∧ nextSeq rows row.sourceNodeId ≤ maxSeq
    ∧ writes (AuditRow.optDict row.detail) = true ∧ hasId rows row.id = false
    ∧ db.clashes rows (bound { row with monotonicSeq := nextSeq rows row.sourceNodeId }) = false

/-- The call makes the table unreadable: fasten-core stamps a stored row, or adds one without a
    field that an audit row needs, or one of the two adds a number that is no float64. -/
def Op.Breaks (db : Database) (rows : List Row) : Op → Prop
  | .coreInsert row => Core.Adds db rows row ∧ ¬(row.Complete ∧ GoReads (Core.detailTree row))
  | .allocateAndInsertOriginated row _ =>
    Adds db rows row ∧ ¬GoReads (AuditRow.optDict row.detail).tree
  | .coreMarkShipped ids _ => ids.length + 1 ≤ db.maxVariables ∧ ∃ r ∈ rows, r.id ∈ ids
  | _ => False

/-- The row passed in has canonical times. -/
def Op.Canonical : Op → Prop
  | .coreInsert row => row.Canonical
  | _ => True

section

variable {H : Sha256} {db : Database} {rows : List Row}

theorem readable_append_iff {r : Row} :
    Readable (rows ++ [r]) ↔
      Readable rows ∧ r.Canonical ∧ r.Complete ∧ DetailRead r.detail := by
  simp only [readable_iff, List.forall_mem_append, List.forall_mem_singleton]

theorem Readable.coreInsert {c : CoreRow} (h : Readable rows) (hc : c.Canonical) :
    Readable (step H db rows (.coreInsert c)) ↔ ¬(Op.coreInsert c).Breaks db rows := by
  rcases Core.insert_eq db rows c with ⟨hadds, r, hr, hdetail, hinsert⟩ | ⟨hnot, hinsert⟩
  · rw [step, Op.call, hinsert, readable_append_iff, hr, hdetail, Core.detailRead_bound_iff,
      Op.Breaks]
    simp only [h, hc, hadds, true_and, not_not]
  · rw [step, Op.call, hinsert, Op.Breaks]
    simp [h, hnot]

theorem Readable.coreMarkShipped {ids : List String} {now : Datetime} (h : Readable rows) :
    Readable (step H db rows (.coreMarkShipped ids now)) ↔
      ¬(Op.coreMarkShipped ids now).Breaks db rows := by
  rw [step, Op.call, Core.markShipped, Op.Breaks]
  split_ifs with hids hmany
  · simp [h, hids]
  · simp only [Option.getD_none, h, true_iff, not_and]
    exact fun hfew => absurd hfew (by omega)
  · rw [Option.getD_some, readable_iff]
    constructor
    · rintro hread ⟨-, r, hr, hid⟩
      obtain ⟨t, ht⟩ := (hread _ (List.mem_map_of_mem hr)).1.shippedAt (Core.shippedTs now)
        (by rw [if_pos hid])
      exact shippedTs_ne_canonicalTs now t ht
    · intro hnone r' hr'
      obtain ⟨r, hr, rfl⟩ := List.mem_map.1 hr'
      have hid : r.id ∉ ids := fun hid => hnone ⟨by omega, r, hr, hid⟩
      rw [if_neg hid]
      exact readable_iff.1 h r hr

/-- What Python binds is canonical and complete. -/
theorem canonical_bound (r : AuditRow) : (bound r).Canonical ∧ (bound r).Complete := by
  refine ⟨⟨⟨r.timestamp, rfl⟩, ?_⟩, r.hasCode, r.hasRequestId, r.hasServiceId,
    r.hasSourceNodeId⟩
  intro text htext
  obtain ⟨t, -, rfl⟩ := Option.map_eq_some_iff.1 htext
  exact ⟨t, rfl⟩

/-- The call either adds a row with the row's `detail`, or leaves the table. -/
theorem Readable.allocateAndInsertOriginated {token : Token} {r : AuditRow} (h : Readable rows) :
    Readable (step H db rows (.allocateAndInsertOriginated r token)) ↔
      ¬(Op.allocateAndInsertOriginated r token).Breaks db rows := by
  rw [step, Op.call, SharedTable.allocateAndInsertOriginated, Op.Breaks, Adds]
  split_ifs with horigin hroom hwrites
  · exact iff_of_true h fun hbreaks => horigin hbreaks.1.1
  · exact iff_of_true h fun hbreaks => absurd hbreaks.1.2.1 (not_le.2 hroom)
  · exact iff_of_true h fun hbreaks => absurd (hwrites.symm.trans hbreaks.1.2.2.1) Bool.noConfusion
  · set sealed := sealRow H token (nextPrevHash rows r.sourceNodeId)
      { r with monotonicSeq := nextSeq rows r.sourceNodeId } with hsealed
    have hsame : db.clashes rows (bound sealed)
        = db.clashes rows (bound { r with monotonicSeq := nextSeq rows r.sourceNodeId }) :=
      Core.clashes_congr db rows rfl rfl
    rw [Option.getD_some, SharedTable.insertRowCore]
    split_ifs with hpresent
    · refine iff_of_true h fun hbreaks => ?_
      obtain ⟨⟨-, -, -, hid, hclash⟩, -⟩ := hbreaks
      rw [hsame, hclash, Bool.or_false] at hpresent
      exact absurd (hpresent.symm.trans hid) Bool.noConfusion
    · rw [Bool.not_eq_true, Bool.or_eq_false_iff, hsame] at hpresent
      rw [readable_append_iff, detailRead_bound_iff]
      have hadds : r.originId = r.id ∧ nextSeq rows r.sourceNodeId ≤ maxSeq
          ∧ writes (AuditRow.optDict r.detail) = true ∧ hasId rows r.id = false
          ∧ db.clashes rows (bound { r with monotonicSeq := nextSeq rows r.sourceNodeId }) = false :=
        ⟨not_not.1 horigin, not_lt.1 hroom, by simpa using hwrites, hpresent⟩
      obtain ⟨hcanonical, hcomplete⟩ := canonical_bound sealed
      have hdetail : AuditRow.optDict sealed.detail = AuditRow.optDict r.detail := rfl
      rw [hdetail]
      exact ⟨fun hread hbreaks => hbreaks.2 hread.2.2.2,
        fun hnot => ⟨h, hcanonical, hcomplete, not_not.1 fun hgo => hnot ⟨hadds, hgo⟩⟩⟩

theorem Readable.markShipped (ids : List String) (now : Datetime) (h : Readable rows) :
    Readable (markShipped rows ids now) := by
  unfold SharedTable.markShipped
  induction ids generalizing rows with
  | nil => exact h
  | cons id ids ih =>
    refine ih (readable_iff.2 (fun r' hr' => ?_))
    obtain ⟨r, hr, rfl⟩ := List.mem_map.1 hr'
    obtain ⟨hcanonical, hrest⟩ := readable_iff.1 h r hr
    split_ifs
    · refine ⟨⟨hcanonical.timestamp, fun text htext => ?_⟩, hrest⟩
      exact ⟨now, (Option.some.inj htext).symm⟩
    · exact ⟨hcanonical, hrest⟩

theorem Readable.redactRows {ids : List String} {rows' : List Row} (h : Readable rows)
    (hcall : redactRows db rows ids = some rows') : Readable rows' := by
  rw [SharedTable.redactRows] at hcall
  split_ifs at hcall
  · exact Option.some.inj hcall ▸ h
  · rw [← Option.some.inj hcall, readable_iff]
    intro r' hr'
    obtain ⟨r, hr, rfl⟩ := List.mem_map.1 hr'
    obtain ⟨hcanonical, hcomplete, hdetail⟩ := readable_iff.1 h r hr
    split_ifs
    · exact ⟨⟨hcanonical.timestamp, hcanonical.shippedAt⟩, hcomplete, detailRead_null⟩
    · exact ⟨hcanonical, hcomplete, hdetail⟩

theorem Readable.purge {before : Datetime} {respectUnshipped : Bool} {rows' : List Row}
    (h : Readable rows) (hcall : purge rows before respectUnshipped = some rows') :
    Readable rows' := by
  obtain ⟨left, -, rfl⟩ := Option.map_eq_some_iff.1 hcall
  exact fun r hr => h r (List.mem_filter.1 hr).1

/-- A call that is safe when it succeeds is safe: a failed one leaves the table. -/
theorem Readable.step_of_call {op : Op} (h : Readable rows)
    (hcall : ∀ rows', op.call H db rows = some rows' → Readable rows') :
    Readable (step H db rows op) := by
  rw [step]
  cases hresult : op.call H db rows with
  | none => exact h
  | some rows' => exact hcall rows' hresult

/-- **A call keeps a table readable unless it breaks it.** -/
theorem Readable.step_iff {op : Op} (h : Readable rows) (hop : op.Canonical) :
    Readable (step H db rows op) ↔ ¬op.Breaks db rows := by
  cases op with
  | coreInsert row => exact h.coreInsert hop
  | coreMarkShipped ids now => exact h.coreMarkShipped
  | allocateAndInsertOriginated row token => exact h.allocateAndInsertOriginated
  | markShipped ids now => exact iff_of_true (h.markShipped ids now) id
  | redactRows ids => exact iff_of_true (h.step_of_call (fun _ => h.redactRows)) id
  | purge before respectUnshipped => exact iff_of_true (h.step_of_call (fun _ => h.purge)) id

end

/-! ## Whole runs -/

/-- A row of fasten-core to evaluate the model on. -/
def CoreRow.sample : CoreRow where
  id := "evt-1"
  originId := "evt-1"
  timestamp := canonicalTs Datetime.epoch
  code := "USER_LOGIN"
  action := "login"
  severity := "info"
  serviceId := "auth"
  sourceNodeId := "edge"
  tenantId := none
  actor := "system"
  actorKind := "service"
  target := ""
  category := ""
  domain := ""
  method := "sdk"
  requestId := "req-1"
  shippedAt := none
  wireVersion := "1"
  monotonicSeq := 1
  detail := some [("ok", .bool true)]
  piiInDetail := false
  prevHash := none
  hash := none
  canonicalFormId := none
  detailSalt := none
  detailCommitment := none

theorem CoreRow.canonical_sample : CoreRow.sample.Canonical :=
  ⟨⟨Datetime.epoch, rfl⟩, fun _ h => nomatch h⟩

/-- fasten-core's table, with the limit that SQLite is built with. -/
def Database.core : Database := ⟨.core, 32766⟩

end Fasten.SharedTable
