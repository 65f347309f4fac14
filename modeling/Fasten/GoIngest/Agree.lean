import Fasten.GoIngest
import Fasten.GoVerify.Agree
import Fasten.Ingest.Links

set_option autoImplicit false

/-! # The Go and the Python ingest agree

On stores with the same rows the two ingests insert the same rows of a batch and report the same
first rejection, unless it is at seq 0: there Go takes it for none. -/

namespace Fasten.Go

open Scan

/-! ## The verified prefix -/

section

variable {goCheck check : AuditRow → Option Reason} {rows : List AuditRow}
  (hnul : ∀ r ∈ rows, NoNul r.sourceNodeId) (hrange : ∀ r ∈ rows, InInt64 r.monotonicSeq)
  (hcheck : ∀ r ∈ rows, goCheck r = none ↔ check r = none)

include hnul hrange hcheck

/-- Both verifiers find the batch's first break at the same seq. -/
theorem map_fst_batchBreak :
    (chainBreak goCheck (sortBySeq rows) [] false).map Prod.fst
      = (batchBreak check rows).map Prod.fst := by
  have hmem : ∀ {r}, r ∈ sortBySeq rows → r ∈ rows := (perm_sortBySeq rows).mem_iff.1
  exact map_fst_eq_of_noneBelow_iff (fun _ => noneBelow_chainBreak_iff
    (fun r hr => hnul r (hmem hr)) (fun r hr => hrange r (hmem hr))
    (fun r hr => hcheck r (hmem hr)) (by simp))

/-- **The same verified prefix**, with 0 for no break. -/
theorem verifiedPrefix_agree :
    (verifiedPrefix goCheck rows).1 = (Fasten.verifiedPrefix check rows).1 ∧
      (verifiedPrefix goCheck rows).2.1 = (Fasten.verifiedPrefix check rows).2.1.getD 0 ∧
      (verifiedPrefix goCheck rows).2.2.isSome = (Fasten.verifiedPrefix check rows).2.1.isSome := by
  have hkeys := map_fst_batchBreak hnul hrange hcheck
  rw [verifiedPrefix_rows, verifiedPrefix_break]
  unfold keptRows
  rw [verifiedPrefix_break]
  simp only [verifiedPrefix, verifyChainWithCheckpoints]
  by_cases hempty : sortBySeq rows = []
  · have hnone : batchBreak check rows = none := by rw [batchBreak, hempty]; rfl
    simp [hempty, hnone, distinctSealed]
  · simp only [hempty, false_and, if_false]
    cases hgo : chainBreak goCheck (sortBySeq rows) [] false with
    | none =>
      rw [hgo, Option.map_none] at hkeys
      rw [← hkeys]
      simp
    | some b =>
      rw [hgo, Option.map_some] at hkeys
      rw [← hkeys]
      simp

end

/-! ## The stored conflict -/

/-- The two tables hold the same rows, as far as the stored-row checks compare them. -/
def SameRows (py : Fasten.Store) (go : Store) : Prop :=
  ∀ l : Link, (∃ x ∈ py.rows, x.link = l) ↔ ∃ x ∈ go.rows, x.link = l

theorem Store.byID_eq_some_iff {go : Store} {id hash : String} :
    go.byID id = some hash ↔ ∃ x ∈ go.rows, x.id = id ∧ x.hash = hash := by
  have hfind : ∀ x, go.rows.find? (·.id == id) = some x ↔ x ∈ go.rows ∧ x.id = id :=
    fun _ => Table.find?_eq_some_iff go.nodup_id
  simp only [Store.byID, Option.map_eq_some_iff, hfind, and_assoc]

section

variable {py : Fasten.Store} {go : Store} (hsame : SameRows py go)

include hsame

theorem SameRows.exists_iff (p : Link → Prop) :
    (∃ x ∈ go.rows, p x.link) ↔ ∃ y ∈ py.rows, p y.link := by
  constructor
  · rintro ⟨x, hx, hp⟩
    obtain ⟨y, hy, hlink⟩ := (hsame x.link).2 ⟨x, hx, rfl⟩
    exact ⟨y, hy, hlink ▸ hp⟩
  · rintro ⟨y, hy, hp⟩
    obtain ⟨x, hx, hlink⟩ := (hsame y.link).1 ⟨y, hy, rfl⟩
    exact ⟨x, hx, hlink ▸ hp⟩

theorem SameRows.mem_ids_iff (id : String) :
    id ∈ go.rows.map (·.id) ↔ id ∈ py.rows.map (·.id) := by
  rw [List.mem_map, List.mem_map]
  exact hsame.exists_iff (fun l => l.id = id)

theorem SameRows.byID_eq (id : String) : go.byID id = py.byId id := by
  refine Option.ext (fun hash => ?_)
  rw [Store.byID_eq_some_iff, Fasten.Store.byId_eq_some_iff]
  exact hsame.exists_iff (fun l => l.id = id ∧ l.hash = hash)

theorem SameRows.sealedBelow_eq (node : String) (seq : Int) :
    go.sealedBelow node seq = py.sealedBelow node seq := by
  rw [Store.sealedBelow, Fasten.Store.sealedBelow, Bool.eq_iff_iff, List.any_eq_true,
    List.any_eq_true]
  exact hsame.exists_iff (fun l =>
    (l.node == node && decide (l.seq < seq) && decide (l.hash ≠ "")) = true)

/-- Both tables have the same row at a place, or none: Go's index makes it the only one. -/
theorem SameRows.map_link_atSeq (node : String) (seq : Int) :
    (go.atSeq node seq).map AuditRow.link = (py.atSeq node seq).map AuditRow.link := by
  cases hgo : go.atSeq node seq with
  | none =>
    have hpy : py.atSeq node seq = none := by
      refine Fasten.Store.atSeq_eq_none_iff.2 (fun y hy hnode hseq => ?_)
      obtain ⟨x, hx, hlink⟩ := (hsame y.link).1 ⟨y, hy, rfl⟩
      have hplace : x.sourceNodeId = node ∧ x.monotonicSeq = seq :=
        ⟨(congrArg Link.node hlink).trans hnode, (congrArg Link.seq hlink).trans hseq⟩
      simpa [hplace] using List.find?_eq_none.1 hgo x hx
    rw [hpy]
  | some x =>
    have hx : x ∈ go.rows := List.mem_of_find?_eq_some hgo
    obtain ⟨hnode, hseq⟩ : x.sourceNodeId = node ∧ x.monotonicSeq = seq := by
      simpa using List.find?_some hgo
    cases hpy : py.atSeq node seq with
    | none =>
      obtain ⟨y, hy, hlink⟩ := (hsame x.link).2 ⟨x, hx, rfl⟩
      exact absurd ((congrArg Link.seq hlink).trans hseq) (Fasten.Store.atSeq_eq_none_iff.1 hpy
        y hy ((congrArg Link.node hlink).trans hnode))
    | some y =>
      obtain ⟨hy, hynode, hyseq⟩ := Fasten.Store.mem_of_atSeq hpy
      obtain ⟨z, hz, hlink⟩ := (hsame y.link).1 ⟨y, hy, rfl⟩
      have hkey : nodeSeq z = nodeSeq x :=
        Prod.ext ((congrArg Link.node hlink).trans (hynode.trans hnode.symm))
          ((congrArg Link.seq hlink).trans (hyseq.trans hseq.symm))
      rw [go.eq_of_key_eq hz hx hkey] at hlink
      exact congrArg some hlink

theorem SameRows.neighbourConflict_eq {row : AuditRow} (hrow : Inside row) :
    go.neighbourConflict row = py.neighbourConflict row := by
  simp only [Store.neighbourConflict, Fasten.Store.neighbourConflict, wrap_of_inInt64 hrow.1,
    wrap_of_inInt64 hrow.2, hsame.map_link_atSeq]

/-- A conflict as Go returns it. -/
def encode : Option (Int × RejectReason) → Int × Option RejectReason
  | none => (0, none)
  | some (seq, why) => (seq, some why)

theorem SameRows.conflictWalk_eq (l : List AuditRow) (hl : ∀ r ∈ l, Inside r)
    (seen : List (String × (String × Int))) :
    conflictWalk go seen l = encode (Fasten.conflictWalk py seen l) := by
  induction l generalizing seen with
  | nil => rfl
  | cons row rest ih =>
    have hrest := ih (fun r hr => hl r (List.mem_cons_of_mem _ hr))
    simp only [conflictWalk, Fasten.conflictWalk, hsame.sealedBelow_eq, hsame.byID_eq,
      hsame.neighbourConflict_eq (hl row List.mem_cons_self)]
    by_cases hrow : row.isSealed = false
    · rw [if_pos hrow, if_pos hrow]
      split_ifs
      · rfl
      · exact hrest seen
    · rw [if_neg hrow, if_neg hrow]
      cases Dict.get? seen row.id with
      | some place => rfl
      | none =>
        cases py.byId row.id with
        | some held =>
          simp only
          split_ifs
          · rfl
          · exact hrest _
        | none =>
          cases py.neighbourConflict row with
          | some why => rfl
          | none => exact hrest _

end

theorem sliceStable_eq_sortBySeqNode (l : List AuditRow) : sliceStable l = sortBySeqNode l := by
  have hless : (fun a b : AuditRow => less b a = false) = (fun a b => a.monotonicSeq < b.monotonicSeq
      ∨ a.monotonicSeq = b.monotonicSeq ∧ a.sourceNodeId ≤ b.sourceNodeId) := by
    funext a b
    rw [eq_iff_iff, less]
    by_cases hseq : b.monotonicSeq = a.monotonicSeq
    · simp only [hseq, ne_eq, not_true_eq_false, if_false, decide_eq_false_iff_not, not_lt,
        lt_irrefl, false_or, true_and]
    · simp only [ne_eq, hseq, not_false_eq_true, if_true, decide_eq_false_iff_not, not_lt,
        Ne.symm hseq, false_and, or_false]
      omega
  unfold sliceStable sortBySeqNode
  congr!

variable {py : Fasten.Store} {rows : List AuditRow}

/-- The conflict Go looks for is Python's scan of the same rows. -/
theorem SameRows.storedConflict_eq {go : Store} (hsame : SameRows py go)
    {verified unsealed : List AuditRow} (hinside : ∀ r ∈ verified ++ unsealed, Inside r) :
    storedConflict go verified unsealed
      = encode (Fasten.storedConflict py verified unsealed) := by
  rw [storedConflict, Fasten.storedConflict, sliceStable_eq_sortBySeqNode]
  exact hsame.conflictWalk_eq _ (fun r hr => hinside r ((perm_sortBySeqNode _).mem_iff.1 hr)) []

/-! ## Inserting -/

/-- Sealed rows with distinct ids and places that agree with the store are all inserted, those
    already stored apart. -/
theorem Store.exists_insertAll (l : List AuditRow) (store : Store)
    (hsealed : ∀ p ∈ l, p.isSealed = true) (hids : (l.map (·.id)).Nodup)
    (hplaces : (l.map nodeSeq).Nodup)
    (hheld : ∀ p ∈ l, ∀ x ∈ store.rows, x.id = p.id → x.hash = p.hash)
    (hfree : ∀ p ∈ l, p.id ∉ store.rows.map (·.id) → nodeSeq p ∉ store.rows.map nodeSeq) :
    ∃ store', store.insertAll l = some store' ∧ store'.rows = store.rows
      ++ (l.filter (fun p => decide (p.id ∉ store.rows.map (·.id)))).map columns := by
  induction l generalizing store with
  | nil => exact ⟨store, rfl, by simp⟩
  | cons row rest ih =>
    obtain ⟨hid, hids⟩ := List.nodup_cons.1 hids
    obtain ⟨hplace, hplaces⟩ := List.nodup_cons.1 hplaces
    have hrow : row.isSealed ≠ false := by simp [hsealed row List.mem_cons_self]
    have htail := fun p hp => hsealed p (List.mem_cons_of_mem row hp)
    have hheld' := fun p hp => hheld p (List.mem_cons_of_mem row hp)
    by_cases hstored : row.id ∈ store.rows.map (·.id)
    · have hskip : store.insertRowExec row = (store, 0) :=
        store.insertOrIgnore_of_clashes _ (Or.inl hstored)
      obtain ⟨x, hx, hxid⟩ := List.mem_map.1 hstored
      have hbyID : store.byID row.id = some row.hash :=
        Store.byID_eq_some_iff.2 ⟨x, hx, hxid, hheld row List.mem_cons_self x hx hxid⟩
      obtain ⟨store', hinsert, hrows⟩ := ih store htail hids hplaces hheld'
        (fun p hp => hfree p (List.mem_cons_of_mem _ hp))
      refine ⟨store', ?_, ?_⟩
      · simp only [Store.insertAll, if_neg hrow, hskip, hbyID, Option.getD_some, ne_eq,
          not_true_eq_false, and_false, if_false]
        exact hinsert
      · rw [hrows, List.filter_cons_of_neg (by simpa using hstored)]
    · have hclash : ¬store.Clashes (columns row) := by
        rintro (h | h)
        · exact hstored h
        · exact hfree row List.mem_cons_self hstored h
      have hnew : (store.insertRowExec row).1.rows = store.rows ++ [columns row] := by
        rw [Store.insertRowExec, Table.insertOrIgnore_rows, if_neg hclash]
      have hcount : (store.insertRowExec row).2 = 1 := by
        rw [Store.insertRowExec, Table.insertOrIgnore_snd, if_neg hclash]
      obtain ⟨store', hinsert, hrows⟩ := ih (store.insertRowExec row).1 htail hids hplaces
        (hnew ▸ held_concat (columns row) hid hheld')
        (fun p hp hpid hpplace => by
          rw [hnew, List.map_append, List.mem_append, not_or] at hpid
          rw [hnew, List.map_append, List.mem_append] at hpplace
          rcases hpplace with h | h
          · exact hfree p (List.mem_cons_of_mem _ hp) hpid.1 h
          · exact hplace (List.mem_map.2 ⟨p, hp, List.mem_singleton.1 h⟩))
      refine ⟨store', ?_, ?_⟩
      · simp only [Store.insertAll, if_neg hrow, hcount, one_ne_zero, false_and, if_false]
        exact hinsert
      · rw [hrows, hnew, List.filter_cons_of_pos (by simpa using hstored), List.map_cons,
          List.append_assoc, List.singleton_append, filter_concat (columns row) hid]

/-- What the checks leave of a batch is inserted into both tables alike. -/
theorem SameRows.exists_insertAll_checkedPrefix {go : Store} (hsame : SameRows py go)
    (check : AuditRow → Option Reason) (rows : List AuditRow) :
    ∃ go', go.insertAll (py.checkedPrefix check rows).1 = some go' ∧
      go'.rows = go.rows ++ (py.toInsert check rows).map columns := by
  have hclear : ∀ {p}, p ∈ (py.checkedPrefix check rows).1 →
      KeptSealed rows p ∧ ClearBelow check py rows (p.monotonicSeq + 1) :=
    fun hp => ⟨(mem_checkedPrefix.1 hp).1, clearBelow_of_belowCut (mem_checkedPrefix.1 hp).2⟩
  have hagrees : ∀ {p}, p ∈ (py.checkedPrefix check rows).1 → Agrees py p :=
    fun hp => (hclear hp).2.agrees _ (hclear hp).1 (by omega)
  obtain ⟨go', hinsert, hrows⟩ := Store.exists_insertAll (py.checkedPrefix check rows).1 go
    (fun p hp => (hclear hp).1.2) nodup_checkedPrefix
    (by
      -- two sealed rows of a node at one seq break the batch's own chain
      refine (List.nodup_map_iff_inj_on (List.Nodup.of_map _ nodup_checkedPrefix)).2
        (fun r hr r' hr' hplace => ?_)
      have hnode : r.sourceNodeId = r'.sourceNodeId := congrArg Prod.fst hplace
      have hseq : r.monotonicSeq = r'.monotonicSeq := congrArg Prod.snd hplace
      obtain ⟨hkept, hbelow⟩ := hclear hr
      have hkept' := (hclear hr').1
      have hid := (hbelow.verifies.nodes r.sourceNodeId).unique r ⟨hkept.1, by omega⟩ r'
        ⟨hnode ▸ hkept'.1, by omega⟩ hkept.2 hkept'.2 hseq
      exact hbelow.ids r r' hkept hkept' (by omega) (by omega) hid)
    (fun p hp x hx hid => by
      obtain ⟨y, hy, hlink⟩ := (hsame x.link).2 ⟨x, hx, rfl⟩
      rw [← show y.hash = x.hash from congrArg Link.hash hlink]
      exact (hagrees hp).held y hy ((congrArg Link.id hlink).trans hid))
    (fun p hp hid hplace => by
      rw [hsame.mem_ids_iff] at hid
      obtain ⟨x, hx, hxplace⟩ := List.mem_map.1 hplace
      obtain ⟨y, hy, hlink⟩ := (hsame x.link).2 ⟨x, hx, rfl⟩
      have hfits := (hagrees hp).fits (fun z hz hzid => hid (List.mem_map.2 ⟨z, hz, hzid⟩))
      refine Fasten.Store.atSeq_eq_none_iff.1 (Fasten.Store.neighbourConflict_eq_none_iff.1 hfits).1
        y hy ?_ ?_
      · exact (congrArg Link.node hlink).trans (congrArg Prod.fst hxplace)
      · exact (congrArg Link.seq hlink).trans (congrArg Prod.snd hxplace))
  refine ⟨go', hinsert, ?_⟩
  rw [hrows, Fasten.Store.toInsert]
  simp only [hsame.mem_ids_iff]

/-! ## The whole ingest -/

/-- Without another writer, trying again does not matter. -/
theorem Store.ingestReplicated_eq (check : AuditRow → Option Reason) (go : Store)
    (rows : List AuditRow) :
    go.ingestReplicated check rows = go.ingestPrefix (verifiedPrefix check rows).1
      (skippedUnsealed rows (verifiedPrefix check rows).2.1) (verifiedPrefix check rows).2.1
      ((verifiedPrefix check rows).2.2.map .broken) := by
  simp only [Store.ingestReplicated]
  split_ifs with hempty
  · rw [hempty.1, hempty.2]
    rfl
  · cases go.ingestPrefix (verifiedPrefix check rows).1
        (skippedUnsealed rows (verifiedPrefix check rows).2.1) (verifiedPrefix check rows).2.1
        ((verifiedPrefix check rows).2.2.map .broken) <;> rfl

theorem mem_skippedUnsealed {rejectedFromSeq : Int} {u : AuditRow} :
    u ∈ skippedUnsealed rows rejectedFromSeq ↔ u ∈ rows ∧ u.isSealed = false ∧
      (rejectedFromSeq = 0 ∨ u.monotonicSeq < rejectedFromSeq) := by
  simp [skippedUnsealed]

theorem skippedUnsealed_getD {cut : Option Int} (h : cut ≠ some 0) :
    skippedUnsealed rows (cut.getD 0) = Fasten.skippedUnsealed rows cut := by
  cases cut with
  | none => simp [skippedUnsealed, Fasten.skippedUnsealed]
  | some c =>
    have hc : c ≠ 0 := fun hc => h (by rw [hc])
    simp [skippedUnsealed, Fasten.skippedUnsealed, hc]

/-- Go scans the same rows as Python, or, when the batch breaks at 0, all unsealed rows. A conflict
    below 0 is found either way. -/
theorem map_fst_storedConflict {check : AuditRow → Option Reason}
    (h : (py.checkedPrefix check rows).2.1 ≠ some 0) :
    (Fasten.storedConflict py (Fasten.verifiedPrefix check rows).1 (skippedUnsealed rows
        ((Fasten.verifiedPrefix check rows).2.1.getD 0))).map Prod.fst
      = (batchConflict check py rows).map Prod.fst := by
  by_cases hbreak : (Fasten.verifiedPrefix check rows).2.1 = some 0
  · rw [Fasten.Store.checkedPrefix_eq, hbreak] at h
    cases hconflict : batchConflict check py rows with
    | none =>
      rw [hconflict] at h
      exact absurd rfl h
    | some b =>
      have hbelow : b.1 < 0 := by
        have hcut := belowCut_batchConflict hconflict
        rw [hbreak] at hcut
        exact hcut 0 rfl
      rw [← hconflict]
      refine (map_fst_eq_of_noneBelow_iff_le (m := 0) (fun c hc => ?_) hconflict hbelow).symm
      rw [noneBelow_batchConflict_iff, noneBelow_storedConflict_iff
        (fun r hr => (mem_verifiedPrefix.1 hr).1.2)
        (fun r hr => (mem_skippedUnsealed.1 hr).2.1) (nodup_verifiedPrefix check rows), hbreak]
      refine and_congr_left (fun _ => forall_congr' (fun u => ?_))
      -- below 0 both scans see the same unsealed rows
      simp only [Fasten.mem_skippedUnsealed, mem_skippedUnsealed, BelowCut, Option.mem_some_iff,
        forall_eq', Option.getD_some, true_or, and_true]
      constructor
      · intro hu hmem hlt
        exact hu ⟨hmem.1, hmem.2, by omega⟩ hlt
      · intro hu hmem hlt
        exact hu ⟨hmem.1, hmem.2.1⟩ hlt
  · rw [skippedUnsealed_getD hbreak]
    rfl

/-- Both ingests return, insert the same rows of the batch, none of them at or after a rejection,
    and report the same rejection. -/
def SameOutcome (check goCheck : AuditRow → Option Reason) (py : Fasten.Store) (go : Store)
    (rows : List AuditRow) : Prop :=
  ∃ py' result go' goResult, ∃ new : List AuditRow,
    py.ingestReplicated check rows none = some (py', result) ∧
    go.ingestReplicated goCheck rows = some (go', goResult) ∧
    py'.rows = py.rows ++ new.map AuditRow.stored ∧
    go'.rows = go.rows ++ new.map columns ∧
    goResult.inserted = result.inserted ∧
    (∀ r ∈ new, r ∈ rows ∧ BelowCut result.rejectedFromSeq r.monotonicSeq) ∧
    (goResult.rejectedFromSeq ≠ 0 ∧ goResult.reason.isSome = true
      ↔ result.rejectedFromSeq.isSome = true) ∧
    ∀ seq ∈ result.rejectedFromSeq, goResult.rejectedFromSeq = seq

/-- Go's 0 cannot stand for a rejection from seq 0. -/
theorem SameOutcome.rejectedFromSeq_ne_zero {check goCheck : AuditRow → Option Reason} {go : Store}
    (h : SameOutcome check goCheck py go rows) : py.rejectedFromSeq check rows none ≠ some 0 := by
  obtain ⟨py', result, go', goResult, new, hpy, -, -, -, -, -, hreported, hsame⟩ := h
  rw [Fasten.Store.rejectedFromSeq, hpy]
  intro hzero
  simp only at hzero
  rw [hzero] at hreported hsame
  exact (hreported.2 rfl).1 (hsame 0 rfl)

section

variable {goCheck check : AuditRow → Option Reason} {py : Fasten.Store} {go : Store}
  {rows : List AuditRow} (hsame : SameRows py go) (hnul : ∀ r ∈ rows, NoNul r.sourceNodeId)
  (hinside : ∀ r ∈ rows, Inside r) (hcheck : ∀ r ∈ rows, goCheck r = none ↔ check r = none)

include hsame hnul hinside hcheck

/-- What Go's ingest does when Python does not reject from 0. -/
theorem exists_ingestReplicated (h : (py.checkedPrefix check rows).2.1 ≠ some 0) :
    ∃ go' goResult, go.ingestReplicated goCheck rows = some (go', goResult) ∧
      go'.rows = go.rows ++ (py.toInsert check rows).map columns ∧
      goResult.inserted = (py.checkedPrefix check rows).1.length ∧
      goResult.rejectedFromSeq = (py.checkedPrefix check rows).2.1.getD 0 ∧
      goResult.reason.isSome = (py.checkedPrefix check rows).2.1.isSome := by
  obtain ⟨hverified, hrejected, hreason⟩ := verifiedPrefix_agree hnul
    (fun r hr => (hinside r hr).inInt64) hcheck
  obtain ⟨go', hinsert, hrows⟩ := hsame.exists_insertAll_checkedPrefix check rows
  have hkeys := map_fst_storedConflict h
  rw [Store.ingestReplicated_eq, hverified, hrejected, Store.ingestPrefix,
    hsame.storedConflict_eq (fun r hr => hinside r (by
      rcases List.mem_append.1 hr with hr | hr
      · exact (mem_verifiedPrefix.1 hr).1.mem
      · exact (mem_skippedUnsealed.1 hr).1))]
  rw [Fasten.Store.checkedPrefix_eq] at h hinsert ⊢
  generalize Fasten.storedConflict py (Fasten.verifiedPrefix check rows).1 (skippedUnsealed rows
    ((Fasten.verifiedPrefix check rows).2.1.getD 0)) = conflict at *
  cases hconflict : batchConflict check py rows with
  | none =>
    rw [hconflict] at hkeys hinsert
    obtain rfl : conflict = none := by simpa using hkeys
    simp only [cutAtConflict] at hinsert
    simp only [encode, ne_eq, not_true_eq_false, if_false, hinsert, Option.map_some, cutAtConflict]
    exact ⟨go', _, rfl, hrows, rfl, rfl, by simpa using hreason⟩
  | some b =>
    obtain ⟨conflictSeq, why⟩ := b
    rw [hconflict] at hkeys hinsert h
    obtain ⟨⟨seq, why'⟩, rfl, rfl⟩ := Option.map_eq_some_iff.1 hkeys
    have hzero : seq ≠ 0 := fun hseq => h (by rw [cutAtConflict, hseq])
    simp only [cutAtConflict] at hinsert
    simp only [encode, ne_eq, hzero, not_false_eq_true, if_true, cutAtConflict]
    exact ⟨go', _, congrArg (Option.map _) hinsert, hrows, rfl, rfl, rfl⟩

end

end Fasten.Go
