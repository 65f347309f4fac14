import Fasten.Redaction.Go
import Fasten.Redaction.Rust

set_option autoImplicit false

/-! # No detail is destroyed without a record

The three SDKs side by side. Python needs nothing of the store. In Go the engine's node must have as
many seqs left as a run lists rows; in Rust, whose records are unsealed, its node must have no sealed
rows, or its chain breaks. -/

namespace Fasten

open Ledger (Outcome)

/-! ## Rows in memory -/

/-- An id longer than all the stored ones. -/
def Mint.longer : Mint where
  run ids := String.ofList (List.replicate ((ids.map String.length).sum + 1) 'r')
  fresh ids h := by
    have hmem := List.mem_map_of_mem (f := String.length) h
    have hle := List.single_le_sum (fun _ _ => Nat.zero_le _) _ hmem
    simp at hle

namespace Rust

/-- Rows with distinct ids. -/
abbrev Memory := { rows : List AuditRow // (rows.map (·.id)).Nodup }

theorem id_clearedRow (ids : List String) (r : AuditRow) : (clearedRow ids r).id = r.id := by
  unfold clearedRow
  split_ifs <;> rfl

/-- An `AuditStore` of rows in memory, which numbers them. -/
def memory : AuditStore Memory where
  rows := Subtype.val
  insert s row :=
    if h : row.id ∈ s.1.map (·.id) then none
    else
      some ⟨s.1 ++ [{ row with monotonicSeq := s.1.length + 1 }], by
        rw [List.map_append, List.map_singleton]
        exact List.nodup_append_comm.1 (List.nodup_cons.2 ⟨h, s.2⟩)⟩
  listRedactionCandidates s before codes :=
    (s.1.filter fun r => isBefore r before && decide (r.code ∈ codes) && r.redactable
      && r.detail.isSome).map fun r => ⟨r.id, r.monotonicSeq⟩
  redactRows s ids :=
    let redacted := (s.1.filter fun r => decide (r.id ∈ ids) && r.redactable).map (·.id)
    (redacted, ⟨s.1.map (clearedRow redacted), by
      rw [List.map_map]
      exact (List.map_congr_left fun r _ => id_clearedRow redacted r) ▸ s.2⟩)
  primaryKey s := s.2
  insert_rows s row s' h hid := by
    rw [dif_neg hid] at h
    exact ⟨_, congrArg Subtype.val (Option.some.inj h).symm⟩
  redactRows_rows s ids := rfl

theorem memory_redacts : memory.Redacts where
  candidates s before codes c hc := by
    obtain ⟨r, hr, rfl⟩ := List.mem_map.1 hc
    rw [List.mem_filter] at hr
    simp only [Bool.and_eq_true] at hr
    exact ⟨r, hr.1, rfl, hr.2.1.2⟩
  redacted s ids r hr := by
    constructor
    · intro h
      obtain ⟨r', hr', hid⟩ := List.mem_map.1 h
      rw [List.mem_filter] at hr'
      obtain rfl := List.inj_on_of_nodup_map s.2 hr'.1 hr hid
      simpa using hr'.2
    · rintro ⟨hid, hredactable⟩
      exact List.mem_map.2 ⟨r, List.mem_filter.2 ⟨hr, by simp [hid, hredactable]⟩, rfl⟩

/-- One whose `redact_rows` takes no row, and says so. -/
def idle : AuditStore Memory :=
  { memory with
    redactRows := fun s _ => ([], s)
    redactRows_rows := fun s _ => by
      have hkept : s.1.map (clearedRow []) = s.1.map id :=
        List.map_congr_left fun r _ => if_neg List.not_mem_nil
      exact (hkept.trans (List.map_id _)).symm }

end Rust

/-! ## The three SDKs -/

/-- **No `detail` is destroyed without a record**: at every moment of any sequence of runs, with calls
    that fail or whose reply is lost, a row that lost its `detail` has a record, a failed run leaves at
    most one record of a row that has its `detail`, and a run that returns has cleared every row it
    listed. The chains still verify then, if they did at the start; in Rust, if the engine's node has
    no sealed rows as well, and on stores that keep the trait's contract. -/
theorem redactExpired_accounted (H : Sha256) :
    (∀ (engine : Engine) (store : Store) (runs : List RedactExpired),
      storeView.Accounted (Store.redactExpired H engine) Store.listedIds
        (fun s => (∀ node, (verifyChain (rowBreak H) (store.nodeRows node) [] false).ok = true) →
          ∀ node, (verifyChain (rowBreak H) (s.nodeRows node) [] false).ok = true) store runs)
    ∧ (∀ (T : Type) (B : Go.Backend T) (engine : Go.Engine) (table : Go.AuditTable T)
        (runs : List Go.RedactExpired),
      Run.AllAlong (fun t run => (Go.redactExpired H B engine t run).last t)
        (fun t run => t.Room engine.nodeId (Go.listedIds B t run).length) table runs →
      (Go.tableView T).Accounted (Go.redactExpired H B engine) (Go.listedIds B)
        (fun t => table.Verifies H B.time → t.Verifies H B.time) table runs)
    ∧ ∀ (σ : Type) (S : Rust.AuditStore σ) (engine : Engine) (s : σ)
        (runs : List Rust.RedactExpired), S.Redacts →
      (Rust.view S).Accounted (Rust.redactExpired S engine) (Rust.listedIds S)
        (fun s' => ChainsOk H (S.rows s) ∧ Rust.Unsealed S s engine.nodeId →
          ChainsOk H (S.rows s')) s runs :=
  ⟨fun engine store runs => Store.accounted_redactExpired H engine store runs,
    fun _ B engine table runs hroom => Go.accounted_redactExpired H B engine table runs hroom,
    fun _ _ engine s runs hS => (Rust.accounted_redactExpired H hS engine s runs).mono
      fun _ h hok => (h hok).1⟩

/-! ## Runs to evaluate -/

/-- Two unsealed rows of node `edge`. -/
def Store.twoRows : Store where
  rows := [AuditRow.sample "a" 1, AuditRow.sample "b" 2]
  primaryKey := by decide
  columns r hr := by
    simp only [List.mem_cons, List.not_mem_nil, or_false] at hr
    rcases hr with rfl | rfl <;> rfl

theorem auth_ne_empty : "auth" ≠ "" := by decide

theorem req_ne_empty : "req-2" ≠ "" := by decide

theorem svc_ne_empty : "svc" ≠ "" := by decide

/-- An engine of node `edge` whose redactor keeps a `detail` as it is. -/
def Engine.sample : Engine := ⟨"auth", "edge", none, id, auth_ne_empty, edge_ne_empty⟩

/-- A call of everything, drawn at the start of 1970. -/
def Draw.sample : Draw := ⟨.longer, .epoch, "req-2", Token.salt, req_ne_empty⟩

/-- A run over the rows with the code `USER_LOGIN`. -/
def RedactExpired.sample : RedactExpired where
  before := .later
  codes := ["USER_LOGIN"]
  reason := ""
  registered := none
  lists := true
  draw _ := .sample
  calls _ := (.done, .done)

namespace Rust

/-- The same run in Rust. -/
def RedactExpired.sample : RedactExpired where
  before := .later
  codes := ["USER_LOGIN"]
  reason := ""
  registered := none
  counts := true
  lists := true
  draw _ := .sample
  calls _ := (.done, .done)

/-- Two unsealed rows of node `edge`. -/
def twoRows : Memory := ⟨[AuditRow.sample "a" 1, AuditRow.sample "b" 2], by decide⟩

/-- A chain of one sealed row of node `edge`. -/
def sealedMemory (H : Sha256) : Memory :=
  ⟨[Store.empty.allocated H Token.salt (AuditRow.sample "a" 0)], List.nodup_singleton _⟩

theorem chainsOk_sealedMemory (H : Sha256) : ChainsOk H (memory.rows (sealedMemory H)) := by
  have hempty : ChainsOk H Store.empty.rows := fun _ =>
    nodeOk_of_unsealed fun _ hr => absurd hr.1 List.not_mem_nil
  exact Store.chains_allocated hempty _ _

theorem listedCandidates_sealedMemory :
    listedCandidates memory (sealedMemory plainDigest) RedactExpired.sample = [⟨"a", 1⟩] := by
  decide +kernel

/-- The record is above the sealed row. -/
theorem redactExpired_sealedMemory :
    ∃ e, memory.rows ((redactExpired memory Engine.sample (sealedMemory plainDigest)
        RedactExpired.sample).last (sealedMemory plainDigest))
        = [redactedRow ["a"] (Store.empty.allocated plainDigest ⟨"salt", by decide⟩
          (AuditRow.sample "a" 0)), e]
      ∧ e.sourceNodeId = "edge" ∧ e.hash = "" ∧ e.monotonicSeq = 2 := by
  rw [redactExpired, listedCandidates_sealedMemory]
  exact ⟨_, rfl, rfl, rfl, rfl⟩

end Rust

namespace Go

/-- An engine of node `n` that keeps nothing of a `detail`. -/
def Engine.sample : Engine where
  serviceId := "svc"
  nodeId := "n"
  tenantId := ""
  redactDetail _ := ⟨[], rfl⟩
  survives _ t ht := by cases ht
  initialised := svc_ne_empty

def Draw.sample : Draw :=
  ⟨.longer, .sample, "r", Token.salt, by decide⟩

/-- A run over the rows with the code `DEV_CREATE`, up to 2027. -/
def RedactExpired.sample : RedactExpired where
  before := { Instant.sample with year := 2027, dayRange := by decide }
  codes := ["DEV_CREATE"]
  reason := ""
  registered := none
  lists := true
  draw _ := .sample
  calls _ := (.done, .done)

/-- Two unsealed rows of node `n`, the second with this seq. -/
def twoRows (seq : Int) (h : seq ≠ 1) : AuditTable String where
  rows := [SQLite.insertRowExec { Row.sample (some ⟨[], rfl⟩) with id := "b" },
    SQLite.insertRowExec { Row.sample (some ⟨[], rfl⟩) with monotonicSeq := seq }]
  nodup_id := by
    show ["b", "a"].Nodup
    decide
  nodup_key := by
    simp [Columns.nodeSeq, SQLite.insertRowExec, Row.columns, Row.sample, h.symm]

end Go

/-- Two rows with a `detail` in each SDK, and a run that redacts both. -/
theorem redactExpired_accounted_twoRows :
    (storeView.Accounted (Store.redactExpired plainDigest Engine.sample) Store.listedIds
        (fun s => (∀ node, (verifyChain (rowBreak plainDigest) (Store.twoRows.nodeRows node) []
            false).ok = true) →
          ∀ node, (verifyChain (rowBreak plainDigest) (s.nodeRows node) [] false).ok = true)
        Store.twoRows [RedactExpired.sample]
      ∧ Store.listedIds Store.twoRows RedactExpired.sample = ["a", "b"]
      ∧ (Store.redactExpired plainDigest Engine.sample Store.twoRows RedactExpired.sample).ok = true)
    ∧ ((Go.tableView String).Accounted
        (Go.redactExpired plainDigest Go.SQLite.backend Go.Engine.sample)
        (Go.listedIds Go.SQLite.backend)
        (fun t => (Go.twoRows 2 (by decide)).Verifies plainDigest Go.Instant.parseCanonicalTS →
          t.Verifies plainDigest Go.Instant.parseCanonicalTS)
        (Go.twoRows 2 (by decide)) [Go.RedactExpired.sample]
      ∧ Go.listedIds Go.SQLite.backend (Go.twoRows 2 (by decide)) Go.RedactExpired.sample
        = ["b", "a"])
    ∧ (Rust.view Rust.memory).Accounted (Rust.redactExpired Rust.memory Engine.sample)
        (Rust.listedIds Rust.memory)
        (fun s => ChainsOk plainDigest (Rust.memory.rows Rust.twoRows)
            ∧ Rust.Unsealed Rust.memory Rust.twoRows Engine.sample.nodeId →
          ChainsOk plainDigest (Rust.memory.rows s)) Rust.twoRows [Rust.RedactExpired.sample]
      ∧ Rust.listedIds Rust.memory Rust.twoRows Rust.RedactExpired.sample = ["a", "b"]
      ∧ (Rust.redactExpired Rust.memory Engine.sample Rust.twoRows Rust.RedactExpired.sample).ok
        = true := by
  obtain ⟨hpython, hgo, hrust⟩ := redactExpired_accounted plainDigest
  refine ⟨⟨hpython _ _ _, by decide +kernel, by decide +kernel⟩,
    ⟨hgo String Go.SQLite.backend Go.Engine.sample _ _ ⟨by decide +kernel, trivial⟩,
      by decide +kernel⟩,
    hrust _ Rust.memory _ _ _ Rust.memory_redacts, by decide +kernel, by decide +kernel⟩

/-- At the end of the int64 Go destroys a `detail` without a record: the record of the second row has
    the seq of the first one, and its insert is ignored. In Rust a record breaks the chain of a node
    that has sealed rows, and a store whose `redact_rows` returns no id leaves the listed row as it
    is. -/
theorem redactExpired_unaccounted :
    ((Go.redactExpired plainDigest Go.SQLite.backend Go.Engine.sample
          (Go.twoRows (2 ^ 63 - 1) (by decide)) Go.RedactExpired.sample).ok = true
      ∧ ¬(Go.tableView String).Recorded (Go.twoRows (2 ^ 63 - 1) (by decide))
        ((Go.redactExpired plainDigest Go.SQLite.backend Go.Engine.sample
          (Go.twoRows (2 ^ 63 - 1) (by decide)) Go.RedactExpired.sample).last
            (Go.twoRows (2 ^ 63 - 1) (by decide))))
    ∧ ChainsOk plainDigest (Rust.memory.rows (Rust.sealedMemory plainDigest))
    ∧ (Rust.redactExpired Rust.memory Engine.sample (Rust.sealedMemory plainDigest)
        Rust.RedactExpired.sample).ok = true
    ∧ ¬ChainsOk plainDigest (Rust.memory.rows ((Rust.redactExpired Rust.memory Engine.sample
        (Rust.sealedMemory plainDigest) Rust.RedactExpired.sample).last
          (Rust.sealedMemory plainDigest)))
    ∧ (Rust.redactExpired Rust.idle Engine.sample Rust.twoRows Rust.RedactExpired.sample).ok = true
    ∧ "a" ∈ Rust.listedIds Rust.idle Rust.twoRows Rust.RedactExpired.sample
    ∧ ∃ r ∈ Rust.idle.rows ((Rust.redactExpired Rust.idle Engine.sample Rust.twoRows
        Rust.RedactExpired.sample).last Rust.twoRows), r.id = "a" ∧ r.detail ≠ none := by
  refine ⟨⟨by decide +kernel, fun h => ?_⟩, Rust.chainsOk_sealedMemory _, by decide +kernel,
    fun h => ?_, by decide +kernel, by decide +kernel, by decide +kernel⟩
  · have hgone : ∃ r ∈ (Go.twoRows (2 ^ 63 - 1) (by decide)).rows, r.detail ≠ Go.nullText
        ∧ ∃ r' ∈ ((Go.redactExpired plainDigest Go.SQLite.backend Go.Engine.sample
          (Go.twoRows (2 ^ 63 - 1) (by decide)) Go.RedactExpired.sample).last
            (Go.twoRows (2 ^ 63 - 1) (by decide))).rows, r'.id = r.id ∧ r'.detail = Go.nullText
        ∧ ∀ e ∈ ((Go.redactExpired plainDigest Go.SQLite.backend Go.Engine.sample
          (Go.twoRows (2 ^ 63 - 1) (by decide)) Go.RedactExpired.sample).last
            (Go.twoRows (2 ^ 63 - 1) (by decide))).rows,
          redactedId e.code e.target ≠ some r.id := by
      decide +kernel
    obtain ⟨r, hr, hintact, r', hr', hid, hcleared, hnone⟩ := hgone
    obtain ⟨e, he, htarget⟩ := h r hr hintact r' hr' hid (not_not.2 hcleared)
    exact hnone e he htarget
  · obtain ⟨e, hrows, hnode, hhash, hseq⟩ := Rust.redactExpired_sealedMemory
    rw [hrows] at h
    have hbelow := (h "edge").unsealedBelow e ⟨by simp, hnode⟩ _ ⟨List.mem_cons_self, rfl⟩
      (AuditRow.isSealed_eq_false_iff.2 hhash) (AuditRow.isSealed_iff.2 (plainDigest.nonempty _))
    exact absurd (hseq ▸ hbelow) (by decide)

end Fasten
