import Fasten.Redaction

set_option autoImplicit false

/-! # Redacting expired rows from Rust

`redact_expired` (`rust/src/retention.rs`) over an `AuditStore` of the adopter's. Rust does not seal
rows, so its records are unsealed: they join a chain only where the node has no sealed rows
(spec §8.2). -/

namespace Fasten.Rust

open Ledger (Outcome Report listAndDestroy)

/-- The row without its `detail` and salt, if its id is one of these. -/
def clearedRow (ids : List String) (r : AuditRow) : AuditRow :=
  if r.id ∈ ids then { r with detail := none, detailSalt := none } else r

/-- An `AuditStore` whose `insert` and `redact_rows` do what they report: `insert` stores the row and
    gives it a seq, and `redact_rows` clears the rows whose ids it returns. `rows` are the stored rows
    as a verifier reads them. -/
structure AuditStore (σ : Type) where
  rows : σ → List AuditRow
  insert : σ → AuditRow → Option σ
  listRedactionCandidates : σ → Datetime → List String → List RedactionCandidate
  redactRows : σ → List String → List String × σ
  primaryKey : ∀ s, ((rows s).map (·.id)).Nodup
  insert_rows : ∀ s row s', insert s row = some s' → row.id ∉ (rows s).map (·.id) →
    ∃ seq, rows s' = rows s ++ [{ row with monotonicSeq := seq }]
  redactRows_rows : ∀ s ids,
    rows (redactRows s ids).2 = (rows s).map (clearedRow (redactRows s ids).1)

/-- What the trait asks of the two redaction calls (spec §7.1): they take the rows whose `detail` no
    hash covers, and `redact_rows` takes all of those it is given. -/
structure AuditStore.Redacts {σ : Type} (S : AuditStore σ) : Prop where
  candidates : ∀ s before codes, ∀ c ∈ S.listRedactionCandidates s before codes,
    ∃ r ∈ S.rows s, r.id = c.id ∧ r.redactable = true
  redacted : ∀ s ids, ∀ r ∈ S.rows s,
    r.id ∈ (S.redactRows s ids).1 ↔ r.id ∈ ids ∧ r.redactable = true

/-- A store that keeps the trait's contract redacts as the SQLite store does. -/
theorem AuditStore.Redacts.redact_rows {σ : Type} {S : AuditStore σ} (h : S.Redacts) (s : σ)
    (ids : List String) : S.rows (S.redactRows s ids).2 = (S.rows s).map (redactedRow ids) := by
  rw [S.redactRows_rows]
  refine List.map_congr_left fun r hr => ?_
  rw [clearedRow, redactedRow]
  simp only [h.redacted s ids r hr, AuditRow.redactable, decide_eq_true_eq]

/-- What `build_row` makes of a `detail`. Unlike in Python the two markers are set last. -/
def emitDetail (engine : Engine) (info : Codes.Meta) (detail : List (String × Json)) :
    List (String × Json) :=
  if info.piiInDetail then
    Dict.set (Dict.set (engine.redactor
      (detail.filter fun kv => decide (kv.1 ∈ info.detailPassthroughKeys)))
      "_redacted" (.str "***")) "_pii_in_detail" (.bool true)
  else engine.redactor detail

/-- The row `build_row` makes for a record. -/
def redactionRecord (engine : Engine) (info : Codes.Meta) (reason : String) (draw : Draw)
    (ids : List String) (c : RedactionCandidate) : AuditRow :=
  { engine.redactionRecord info reason draw ids c with
    prevHash := ""
    detail := some (emitDetail engine info (recordDetail reason c)) }

/-- A run: `codes` are the `pii_codes`, and the count of the rows that are skipped is a store call
    too. -/
structure RedactExpired where
  before : Datetime
  codes : List String
  reason : String
  registered : Option Codes.Meta
  counts : Bool
  lists : Bool
  draw : RedactionCandidate → Draw
  calls : RedactionCandidate → Outcome × Outcome

section

variable {σ : Type} (S : AuditStore σ) (engine : Engine)

/-- `insert` of the record; an empty reason is `"retention"`. -/
def insertRecord (run : RedactExpired) (s : σ) (c : RedactionCandidate) : Option σ :=
  let reason := if run.reason = "" then "retention" else run.reason
  S.insert s (redactionRecord engine (ensureRedactionCode run.registered) reason (run.draw c)
    ((S.rows s).map (·.id)) c)

def listedCandidates (s : σ) (run : RedactExpired) : List RedactionCandidate :=
  if run.codes = [] then [] else S.listRedactionCandidates s run.before run.codes

/-- Without codes there is nothing to do, and no call. -/
def redactExpired (s : σ) (run : RedactExpired) : Report σ :=
  listAndDestroy (insertRecord S engine run) (fun s c => (S.redactRows s [c.id]).2) run.calls
    (decide (run.codes = []) || (run.counts && run.lists)) s (listedCandidates S s run)

/-- The ids a run lists. -/
def listedIds (s : σ) (run : RedactExpired) : List String :=
  (listedCandidates S s run).map RedactionCandidate.id

def view : Ledger.View σ AuditRow String where
  rows := S.rows
  id := AuditRow.id
  target r := redactedId r.code r.target
  intact r := r.detail ≠ none
  cleared r := r.detail = none ∧ r.detailSalt = none
  nodup := S.primaryKey
  not_intact _ h := not_intact_of_cleared h

/-- Every row of the node is unsealed. -/
def Unsealed (s : σ) (node : String) : Prop := ∀ r ∈ S.rows s, r.sourceNodeId = node → r.hash = ""

end

variable {σ : Type} {S : AuditStore σ} {engine : Engine} {run : RedactExpired} {s s' : σ}
  {c : RedactionCandidate}

/-- The record is stored, unsealed, with a seq. -/
theorem insertRecord_rows (h : insertRecord S engine run s c = some s') :
    ∃ e, S.rows s' = S.rows s ++ [e] ∧ redactedId e.code e.target = some c.id
      ∧ e.sourceNodeId = engine.nodeId ∧ e.hash = "" := by
  obtain ⟨seq, hrows⟩ := S.insert_rows _ _ _ h ((run.draw c).mint.fresh _)
  exact ⟨_, hrows, rfl, rfl, rfl⟩

theorem view_lawful (hS : S.Redacts) (engine : Engine) (run : RedactExpired) :
    (view S).Lawful RedactionCandidate.id (fun r => r.redactable = true) (fun _ _ => True)
      (insertRecord S engine run) (fun s c => (S.redactRows s [c.id]).2) where
  record_room _ _ _ _ _ _ := trivial
  destroy_room _ _ _ _ := trivial
  record_rows _ s c s' _ h := by
    obtain ⟨e, hrows, htarget, -⟩ := insertRecord_rows h
    exact ⟨e, hrows, htarget⟩
  destroy_rows s c := ⟨redactedRow [c.id], hS.redact_rows s _, redactedRow_laws c.id⟩

theorem mem_listedCandidates (hS : S.Redacts) (h : c ∈ listedCandidates S s run) :
    ∃ r ∈ S.rows s, r.id = c.id ∧ r.redactable = true := by
  unfold listedCandidates at h
  split_ifs at h
  · cases h
  · exact hS.candidates _ _ _ c h

theorem unsealed_insertRecord (h : Unsealed S s engine.nodeId)
    (hinsert : insertRecord S engine run s c = some s') : Unsealed S s' engine.nodeId := by
  obtain ⟨e, hrows, -, -, hhash⟩ := insertRecord_rows hinsert
  intro r hr hnode
  rw [hrows] at hr
  rcases List.mem_append.1 hr with hr | hr
  · exact h r hr hnode
  · rw [List.mem_singleton.1 hr]
    exact hhash

theorem chains_insertRecord {H : Sha256} (hok : ChainsOk H (S.rows s))
    (h : Unsealed S s engine.nodeId) (hinsert : insertRecord S engine run s c = some s') :
    ChainsOk H (S.rows s') := by
  obtain ⟨e, hrows, -, hnode, hhash⟩ := insertRecord_rows hinsert
  rw [hrows]
  refine HashChain.forall_nodes_concat hok (nodeOk_of_unsealed fun r hr => ?_)
  rcases hr with rfl | hr
  · exact hhash
  · exact h r hr.1 (hr.2.trans hnode)

theorem unsealed_redactRows (hS : S.Redacts) (h : Unsealed S s engine.nodeId) (ids : List String) :
    Unsealed S (S.redactRows s ids).2 engine.nodeId := by
  rw [Unsealed, hS.redact_rows]
  intro r hr hnode
  obtain ⟨r', hr', rfl⟩ := List.mem_map.1 hr
  have hkeeps : (redactedRow ids r').hash = r'.hash
      ∧ (redactedRow ids r').sourceNodeId = r'.sourceNodeId := by
    unfold redactedRow
    split_ifs <;> exact ⟨rfl, rfl⟩
  rw [hkeeps.1]
  exact h r' hr' (hkeeps.2.symm.trans hnode)

/-- **Rust's runs**, on any store that keeps the contract. The chains verify if the engine's node has no
    sealed rows. -/
theorem accounted_redactExpired (H : Sha256) (hS : S.Redacts) (engine : Engine) (s : σ)
    (runs : List RedactExpired) :
    (view S).Accounted (redactExpired S engine) (listedIds S)
      (fun s' => ChainsOk H (S.rows s) ∧ Unsealed S s engine.nodeId →
        ChainsOk H (S.rows s') ∧ Unsealed S s' engine.nodeId) s runs := by
  refine Ledger.View.accounted_of_runOk (fun _ _ => True) (fun s₁ run hs _ => ?_) id
    (Run.allAlong_of_forall (fun _ _ => trivial) _ _)
  refine (view_lawful hS engine run).runOk
    (I := fun _ s' => ChainsOk H (S.rows s) ∧ Unsealed S s engine.nodeId →
      ChainsOk H (S.rows s') ∧ Unsealed S s' engine.nodeId) (P := fun _ => True) rfl rfl
    (fun c hc => mem_listedCandidates hS hc) trivial (fun _ _ h => h)
    (fun _ _ c s' _ h hinsert hok => ?_) (fun _ s' c h hok => ?_) (fun _ _ => trivial) hs
    (fun _ h => h)
  · obtain ⟨hchains, hunsealed⟩ := h hok
    exact ⟨chains_insertRecord hchains hunsealed hinsert, unsealed_insertRecord hunsealed hinsert⟩
  · obtain ⟨hchains, hunsealed⟩ := h hok
    refine ⟨?_, unsealed_redactRows hS hunsealed [c.id]⟩
    rw [hS.redact_rows]
    exact hchains.map (keepsChain_redactedRow _ _)

end Fasten.Rust
