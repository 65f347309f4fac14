import Fasten.Ingest
import Fasten.Lib.Table
import Fasten.Store.Chain

set_option autoImplicit false

/-! # What an ingest accepts

`ClearBelow` says, without the sorts and the loops, when an ingest rejects nothing below a seq.
`checkedPrefix_spec` connects it to the checks of `ingest_replicated`, and `ingest_spec` says what
the store holds afterwards. -/

namespace Fasten

open Scan

variable {check : AuditRow → Option Reason} {store : Store} {rows : List AuditRow}

/-- The seq is below the first rejection, if there is one. -/
def BelowCut (cut : Option Int) (seq : Int) : Prop := ∀ c ∈ cut, seq < c

/-- The sealed copy of a batch row that is checked for all its copies. -/
def KeptSealed (rows : List AuditRow) (r : AuditRow) : Prop :=
  keptCopy (sortBySeq rows) r.sourceNodeId r.id = some r ∧ r.isSealed = true

theorem KeptSealed.mem {r : AuditRow} (h : KeptSealed rows r) : r ∈ rows :=
  (perm_sortBySeq rows).mem_iff.1 (mem_of_keptCopy h.1).1

/-! ## The verified prefix -/

variable {l : List AuditRow} {p : AuditRow} {seq : Int} {localNodeId : Option String}

/-- What a copy is recognised by. -/
def copyKey (r : AuditRow) : String × String × String := (r.id, r.sourceNodeId, r.hash)

theorem mem_distinctSealed {seen : List (String × String × String)} :
    p ∈ distinctSealed seen l ↔ copyKey p ∉ seen ∧
      l.find? (fun q => q.isSealed && copyKey q == copyKey p) = some p := by
  induction l generalizing seen with
  | nil => simp [distinctSealed]
  | cons x rest ih =>
    simp only [distinctSealed]
    by_cases hkey : x.isSealed = true ∧ copyKey x = copyKey p
    · -- the first row with the key: it is kept unless the key has been seen
      rw [List.find?_cons_of_pos (by simp [hkey]), Option.some.injEq]
      split_ifs with hx
      · have hseen : copyKey p ∉ seen := hkey.2 ▸ hx.2
        rw [List.mem_cons, ih]
        refine ⟨fun h => ⟨hseen, ?_⟩, fun h => Or.inl h.2.symm⟩
        exact h.elim Eq.symm (fun h => absurd (hkey.2 ▸ List.mem_cons_self) h.1)
      · have hseen : copyKey p ∈ seen := hkey.2 ▸ not_not.1 (fun h => hx ⟨hkey.1, h⟩)
        rw [ih]
        exact ⟨fun h => absurd hseen h.1, fun h => absurd hseen h.1⟩
    · rw [List.find?_cons_of_neg (by simpa using hkey)]
      split_ifs with hx
      · have hne : copyKey x ≠ copyKey p := fun h => hkey ⟨hx.1, h⟩
        have hhead : (x.id, x.sourceNodeId, x.hash) ≠ copyKey p := hne
        rw [List.mem_cons, ih, List.mem_cons, not_or]
        refine ⟨fun h => ?_, fun h => Or.inr ⟨⟨hhead.symm, h.1⟩, h.2⟩⟩
        exact h.elim (fun heq => absurd (heq ▸ rfl) hne) (fun h => ⟨h.1.2, h.2⟩)
      · exact ih

theorem pairwise_distinctSealed (seen : List (String × String × String)) (l : List AuditRow) :
    (distinctSealed seen l).Pairwise (fun a b => copyKey a ≠ copyKey b) := by
  induction l generalizing seen with
  | nil => exact List.Pairwise.nil
  | cons x rest ih =>
    simp only [distinctSealed]
    split_ifs
    · refine List.pairwise_cons.2 ⟨fun q hq heq => ?_, ih _⟩
      exact (mem_distinctSealed.1 hq).1 (heq ▸ List.mem_cons_self)
    · exact ih _

/-- The break of the batch's own chain. -/
def batchBreak (check : AuditRow → Option Reason) (rows : List AuditRow) : Option Break :=
  chainBreak check (sortBySeq rows) [] false

theorem verifyChain_firstBreakAt (l : List AuditRow) :
    (verifyChain check l [] false).firstBreakAt = (chainBreak check l [] false).map Prod.fst := by
  by_cases hempty : l = []
  · rw [hempty]
    rfl
  · rw [verifyChain, if_neg (fun h => hempty h.1)]
    cases chainBreak check l [] false <;> rfl

theorem verifiedPrefix_break :
    (verifiedPrefix check rows).2.1 = (batchBreak check rows).map Prod.fst :=
  verifyChain_firstBreakAt _

theorem noneBelow_batchBreak_iff {c : Int} :
    NoneBelow c (batchBreak check rows) ↔ RowsOkBelow check c (sortBySeq rows) := by
  rw [batchBreak, noneBelow_chainBreak_iff]
  simp

/-- Nothing is rejected below a seq at or below the cut. -/
theorem noneBelow_iff_cut {found : Option Break} {c : Int} :
    NoneBelow c found ↔ ∀ e ∈ found.map Prod.fst, c ≤ e := by
  cases found <;> simp

theorem rowsOkBelow_of_belowCut (h : BelowCut (verifiedPrefix check rows).2.1 seq) :
    RowsOkBelow check (seq + 1) (sortBySeq rows) := by
  rw [← noneBelow_batchBreak_iff, noneBelow_iff_cut, ← verifiedPrefix_break]
  intro e he
  have := h e he
  omega

/-- The rows that `verified_prefix` goes through. -/
def keptRows (check : AuditRow → Option Reason) (rows : List AuditRow) : List AuditRow :=
  match (verifiedPrefix check rows).2.1 with
  | none => sortBySeq rows
  | some breakAt => (sortBySeq rows).filter (fun r => decide (r.monotonicSeq < breakAt))

theorem verifiedPrefix_rows :
    (verifiedPrefix check rows).1 = distinctSealed [] (keptRows check rows) := rfl

/-- They are a first part of the sorted batch, with every row below the cut. -/
theorem keptRows_split (check : AuditRow → Option Reason) (rows : List AuditRow) :
    ∃ rest, sortBySeq rows = keptRows check rows ++ rest ∧
    (∀ r ∈ keptRows check rows, BelowCut (verifiedPrefix check rows).2.1 r.monotonicSeq) ∧
    ∀ r ∈ rest, ¬BelowCut (verifiedPrefix check rows).2.1 r.monotonicSeq := by
  unfold keptRows BelowCut
  cases (verifiedPrefix check rows).2.1 with
  | none => exact ⟨[], by simp, by simp, by simp⟩
  | some breakAt =>
    refine ⟨_, eq_filter_append_filter breakAt (pairwise_sortBySeq rows), ?_, ?_⟩
    · intro r hr
      simpa using (List.mem_filter.1 hr).2
    · intro r hr
      simpa using (List.mem_filter.1 hr).2

/-- **What `verified_prefix` keeps**: the sealed copies it checked, below the break. -/
theorem mem_verifiedPrefix :
    p ∈ (verifiedPrefix check rows).1 ↔
      KeptSealed rows p ∧ BelowCut (verifiedPrefix check rows).2.1 p.monotonicSeq := by
  obtain ⟨rest, hsplit, hlow, hhigh⟩ := keptRows_split check rows
  rw [verifiedPrefix_rows, mem_distinctSealed]
  constructor
  · rintro ⟨-, hfind⟩
    obtain ⟨hself, pre, post, hkept, hpre⟩ := List.find?_eq_some_iff_append.1 hfind
    have hs : p.isSealed = true := by simpa using hself
    have hcut : BelowCut (verifiedPrefix check rows).2.1 p.monotonicSeq :=
      hlow p (by rw [hkept]; simp)
    have hwhole : sortBySeq rows = pre ++ p :: (post ++ rest) := by
      rw [hsplit, hkept]
      simp
    refine ⟨⟨(keptCopy_sealed_iff hs).2 (List.find?_eq_some_iff_append.2
      ⟨by simp [hs], pre, _, hwhole, fun q hq => ?_⟩), hs⟩, hcut⟩
    -- an earlier sealed copy would have the same hash, hence the same key
    by_contra hcopy
    obtain ⟨hqs, hnode, hid⟩ : q.isSealed = true ∧ q.sourceNodeId = p.sourceNodeId ∧ q.id = p.id := by
      simpa using hcopy
    have hpmem : p ∈ sortBySeq rows := by rw [hwhole]; simp
    have hqmem : q ∈ sortBySeq rows := by rw [hwhole]; simp [hq]
    obtain ⟨k, hk, -⟩ := exists_keptCopy hpmem
    have hqk : keptCopy (sortBySeq rows) q.sourceNodeId q.id = some k := by rw [hnode, hid]; exact hk
    have hqcut := hlow q (by rw [hkept]; simp [hq])
    have hph := ((rowsOkBelow_of_belowCut hcut).copies p hpmem hs k hk (by omega)).1
    have hqh := ((rowsOkBelow_of_belowCut hqcut).copies q hqmem hqs k hqk (by omega)).1
    exact absurd (hpre q hq) (by simp [copyKey, hqs, hnode, hid, hqh, hph])
  · rintro ⟨⟨hkept, hs⟩, hcut⟩
    rw [keptCopy_sealed_iff hs, hsplit, List.find?_append, Option.or_eq_some_iff] at hkept
    rcases hkept with hfind | ⟨-, hfind⟩
    · obtain ⟨-, pre, post, hkeep, hpre⟩ := List.find?_eq_some_iff_append.1 hfind
      refine ⟨List.not_mem_nil, List.find?_eq_some_iff_append.2
        ⟨by simp [hs], pre, post, hkeep, fun q hq => ?_⟩⟩
      have hq := hpre q hq
      simp only [Bool.not_eq_true', Bool.and_eq_false_imp, beq_eq_false_iff_ne, beq_iff_eq] at hq ⊢
      exact fun hqs hkey => hq hqs (congrArg (·.2.1) hkey) (congrArg (·.1) hkey)
    · exact absurd hcut (hhigh p (List.mem_of_find?_eq_some hfind))

theorem nodup_verifiedPrefix (check : AuditRow → Option Reason) (rows : List AuditRow) :
    (verifiedPrefix check rows).1.Nodup := by
  rw [verifiedPrefix_rows]
  exact (pairwise_distinctSealed _ _).imp (fun h heq => h (congrArg copyKey heq))

/-! ## The stored conflict -/

/-- The row agrees with the store: it is stored with its hash, or it fits between its stored
    neighbours. -/
structure Agrees (store : Store) (r : AuditRow) : Prop where
  held : ∀ x ∈ store.rows, x.id = r.id → x.hash = r.hash
  fits : (∀ x ∈ store.rows, x.id ≠ r.id) → store.neighbourConflict r = none

theorem Store.byId_eq_none_iff {id : String} :
    store.byId id = none ↔ ∀ x ∈ store.rows, x.id ≠ id := by
  simp [Store.byId]

theorem Store.byId_eq_some_iff {id hash : String} :
    store.byId id = some hash ↔ ∃ x ∈ store.rows, x.id = id ∧ x.hash = hash := by
  have hfind : ∀ x, store.rows.find? (·.id == id) = some x ↔ x ∈ store.rows ∧ x.id = id :=
    fun _ => Table.find?_eq_some_iff store.primaryKey
  simp only [Store.byId, Option.map_eq_some_iff, hfind, and_assoc]

/-- What the scan asks of a sealed row, apart from the rows before it. -/
def storedRowConflict (store : Store) (row : AuditRow) : Option RejectReason :=
  match store.byId row.id with
  | some held => if held ≠ row.hash then some (.differs row.id) else none
  | none => store.neighbourConflict row

theorem storedRowConflict_eq_none_iff {r : AuditRow} :
    storedRowConflict store r = none ↔ Agrees store r := by
  unfold storedRowConflict
  cases hheld : store.byId r.id with
  | none =>
    have hnone := Store.byId_eq_none_iff.1 hheld
    refine ⟨fun h => ⟨fun x hx hid => absurd hid (hnone x hx), fun _ => h⟩, fun h => h.fits hnone⟩
  | some held =>
    obtain ⟨y, hy, hyid, hyhash⟩ := Store.byId_eq_some_iff.1 hheld
    have hsame : held = r.hash ↔ Agrees store r := by
      constructor
      · rintro rfl
        refine ⟨fun x hx hid => ?_, fun hnone => absurd hyid (hnone y hy)⟩
        rw [store.eq_of_id_eq hx hy (hid.trans hyid.symm), hyhash]
      · intro h
        rw [← hyhash, h.held y hy hyid]
    by_cases heq : held = r.hash
    · simp [heq, hsame.1 heq]
    · simp [heq, mt hsame.2 heq]

/-- What the scan checks at one row, given the rows before it. -/
def conflictFail (store : Store) (before : List AuditRow) (row : AuditRow) :
    Option (Int × RejectReason) :=
  if row.isSealed = false then
    if store.sealedBelow row.sourceNodeId row.monotonicSeq then
      some (row.monotonicSeq, .noHash row.id)
    else none
  else
    match before.find? (fun r => r.isSealed && r.id == row.id) with
    | some r => some (row.monotonicSeq, .alsoInBatch row.id r.monotonicSeq r.sourceNodeId)
    | none => (storedRowConflict store row).map (fun why => (row.monotonicSeq, why))

theorem conflictWalk_eq_firstFail (l : List AuditRow) (seen : List (String × (String × Int)))
    (before : List AuditRow)
    (hseen : ∀ id, Dict.get? seen id = (before.find? (fun r => r.isSealed && r.id == id)).map
      (fun r => (r.sourceNodeId, r.monotonicSeq))) :
    conflictWalk store seen l = firstFail (conflictFail store) before l := by
  induction l generalizing seen before with
  | nil => rfl
  | cons row rest ih =>
    simp only [conflictWalk, firstFail, conflictFail]
    by_cases hrow : row.isSealed = false
    · rw [if_pos hrow, if_pos hrow]
      have hsame := ih seen (row :: before) (fun id => by
        rw [hseen, List.find?_cons_of_neg (by simp [hrow])])
      split_ifs
      · rfl
      · exact hsame
    · rw [if_neg hrow, if_neg hrow]
      have hrow' : row.isSealed = true := by simpa using hrow
      have hnext := ih (Dict.set seen row.id (row.sourceNodeId, row.monotonicSeq))
        (row :: before) (fun id => by
          rw [Dict.get?_set]
          by_cases hid : row.id = id
          · rw [if_pos hid, List.find?_cons_of_pos (by simp [hrow', hid])]
            rfl
          · rw [if_neg hid, List.find?_cons_of_neg (by simp [hid]), hseen])
      rw [hseen]
      cases before.find? (fun r => r.isSealed && r.id == row.id) with
      | some r => rfl
      | none =>
        simp only [Option.map_none, storedRowConflict]
        cases store.byId row.id with
        | some held =>
          by_cases heq : held = row.hash
          · simpa [heq] using hnext
          · simp [heq]
        | none =>
          cases store.neighbourConflict row with
          | some why => rfl
          | none => simpa using hnext

theorem conflictFail_key {before : List AuditRow} {row : AuditRow} {b : Int × RejectReason}
    (h : conflictFail store before row = some b) : b.1 = row.monotonicSeq := by
  unfold conflictFail at h
  split_ifs at h
  · exact (Option.some.inj h) ▸ rfl
  · cases hfind : before.find? (fun r => r.isSealed && r.id == row.id) with
    | some r =>
      simp only [hfind, Option.some.injEq] at h
      exact h ▸ rfl
    | none =>
      simp only [hfind, Option.map_eq_some_iff] at h
      obtain ⟨why, -, rfl⟩ := h
      rfl

/-- What is asked of one row, and of two. -/
theorem conflictFail_eq_none_iff (before : List AuditRow) (row : AuditRow) :
    conflictFail store before row = none ↔
      ((row.isSealed = false → store.sealedBelow row.sourceNodeId row.monotonicSeq = false) ∧
        (row.isSealed = true → Agrees store row)) ∧
      ∀ q ∈ before, q.isSealed = true → row.isSealed = true → q.id ≠ row.id := by
  unfold conflictFail
  cases hrow : row.isSealed with
  | false => simp
  | true =>
    cases hfind : before.find? (fun r => r.isSealed && r.id == row.id) with
    | some r =>
      have hr := List.find?_some hfind
      simp only [Bool.and_eq_true, beq_iff_eq] at hr
      refine iff_of_false (by simp) (fun h => ?_)
      exact h.2 r (List.mem_of_find?_eq_some hfind) hr.1 rfl hr.2
    | none =>
      have hnone : ∀ q ∈ before, q.isSealed = true → q.id ≠ row.id := by
        intro q hq hqs hid
        simpa [hqs, hid] using List.find?_eq_none.1 hfind q hq
      simpa [storedRowConflict_eq_none_iff] using fun _ => hnone

theorem Store.atSeq_eq_none_iff {node : String} :
    store.atSeq node seq = none ↔
      ∀ x ∈ store.rows, x.sourceNodeId = node → x.monotonicSeq ≠ seq := by
  simp [Store.atSeq]

theorem Store.mem_of_atSeq {node : String} {x : AuditRow} (h : store.atSeq node seq = some x) :
    x ∈ store.rows ∧ x.sourceNodeId = node ∧ x.monotonicSeq = seq :=
  ⟨List.mem_of_find?_eq_some h, by simpa using List.find?_some h⟩

/-- When a row fits between its stored neighbours. -/
theorem AuditRow.conflict_eq_none_iff {r : AuditRow} {taken before after : Option Link} :
    r.conflict taken before after = none ↔ taken = none ∧
      (∀ b ∈ before, r.prevHash = if b.hash = "" then "genesis" else b.hash) ∧
      ∀ a ∈ after, a.prevHash = r.hash := by
  unfold AuditRow.conflict
  cases taken with
  | some other => simp
  | none =>
    cases before <;> cases after <;> simp [Option.filter] <;> split_ifs <;> simp [*]

theorem Store.neighbourConflict_eq_none_iff {r : AuditRow} :
    store.neighbourConflict r = none ↔
      store.atSeq r.sourceNodeId r.monotonicSeq = none ∧
      (∀ b ∈ store.atSeq r.sourceNodeId (r.monotonicSeq - 1),
        r.prevHash = if b.hash = "" then "genesis" else b.hash) ∧
      ∀ a ∈ store.atSeq r.sourceNodeId (r.monotonicSeq + 1), a.prevHash = r.hash := by
  rw [Store.neighbourConflict, AuditRow.conflict_eq_none_iff]
  simp [AuditRow.link]

theorem Store.sealedBelow_eq_false_iff {node : String} :
    store.sealedBelow node seq = false ↔ ∀ x ∈ store.rows, x.sourceNodeId = node →
      x.isSealed = true → seq ≤ x.monotonicSeq := by
  simp only [Store.sealedBelow, List.any_eq_false, Bool.and_eq_true, beq_iff_eq,
    decide_eq_true_eq, not_and, and_imp]
  refine forall₂_congr (fun x _ => forall_congr' (fun _ => ?_))
  constructor
  · intro h hs
    by_contra hlt
    exact h (by omega) hs
  · intro h hlt hs
    have := h hs
    omega

theorem pairwise_sortBySeqNode (l : List AuditRow) :
    (sortBySeqNode l).Pairwise (fun a b => a.monotonicSeq ≤ b.monotonicSeq) :=
  pairwise_insertionSort_lex AuditRow.monotonicSeq AuditRow.sourceNodeId (fun _ _ => Iff.rfl) l

theorem perm_sortBySeqNode (l : List AuditRow) : (sortBySeqNode l).Perm l :=
  List.perm_insertionSort _ _

section Conflict

variable {verified unsealed : List AuditRow} (hv : ∀ r ∈ verified, r.isSealed = true)
  (hu : ∀ r ∈ unsealed, r.isSealed = false) (hnodup : verified.Nodup) {c : Int}
include hv hu hnodup

/-- The sealed rows below `c` are verified ones, so their ids differ just when those do. -/
theorem pairwise_sealed_ids_iff :
    ((verified ++ unsealed).filter (fun r => decide (r.monotonicSeq < c))).Pairwise
      (fun a b => a.isSealed = true → b.isSealed = true → a.id ≠ b.id) ↔
    ∀ r ∈ verified, ∀ r' ∈ verified, r.monotonicSeq < c → r'.monotonicSeq < c →
      r.id = r'.id → r = r' := by
  have hids := List.nodup_map_iff_inj_on (f := fun r : AuditRow => r.id)
    (hnodup.filter (fun r => decide (r.monotonicSeq < c)))
  rw [List.Nodup, List.pairwise_map] at hids
  rw [List.filter_append, List.pairwise_append]
  constructor
  · rintro ⟨hpair, -⟩ r hr r' hr' hlt hlt' hid
    refine hids.1 (hpair.imp_of_mem (fun {a b} ha hb h => ?_)) r (by simp [hr, hlt]) r'
      (by simp [hr', hlt']) hid
    exact h (hv a (List.mem_of_mem_filter ha)) (hv b (List.mem_of_mem_filter hb))
  · intro h
    refine ⟨(hids.2 ?_).imp (fun hne _ _ => hne), ?_, ?_⟩
    · intro r hr r' hr' hid
      simp only [List.mem_filter, decide_eq_true_eq] at hr hr'
      exact h r hr.1 r' hr'.1 hr.2 hr'.2 hid
    · refine List.Pairwise.filter _ (List.pairwise_of_forall_mem_list (fun a ha b _ hs => ?_))
      exact absurd hs (by simp [hu a ha])
    · intro a _ b hb _ hs
      exact absurd hs (by simp [hu b (List.mem_of_mem_filter hb)])

/-- **When no stored conflict is below a seq.** -/
theorem noneBelow_storedConflict_iff :
    NoneBelow c (storedConflict store verified unsealed) ↔
      (∀ u ∈ unsealed, u.monotonicSeq < c →
        store.sealedBelow u.sourceNodeId u.monotonicSeq = false) ∧
      (∀ r ∈ verified, ∀ r' ∈ verified, r.monotonicSeq < c → r'.monotonicSeq < c →
        r.id = r'.id → r = r') ∧
      ∀ r ∈ verified, r.monotonicSeq < c → Agrees store r := by
  have hkey : ∀ before row b, conflictFail store before row = some b → b.1 = row.monotonicSeq :=
    fun _ _ _ => conflictFail_key
  have hperm := (perm_sortBySeqNode (verified ++ unsealed)).filter
    (fun r => decide (r.monotonicSeq < c))
  have hsymm : ∀ {a b : AuditRow}, (a.isSealed = true → b.isSealed = true → a.id ≠ b.id) →
      (b.isSealed = true → a.isSealed = true → b.id ≠ a.id) :=
    fun h hb ha => (h ha hb).symm
  rw [storedConflict, conflictWalk_eq_firstFail _ [] [] (fun _ => rfl),
    noneBelow_firstFail_iff hkey (pairwise_sortBySeqNode _),
    firstFail_eq_none_iff_pairwise conflictFail_eq_none_iff, hperm.pairwise_iff hsymm,
    pairwise_sealed_ids_iff hv hu hnodup]
  simp only [hperm.mem_iff, List.mem_filter, List.mem_append, decide_eq_true_eq,
    List.not_mem_nil, false_implies, implies_true, and_true]
  constructor
  · rintro ⟨hrows, hids⟩
    exact ⟨fun u hu' hlt => (hrows u ⟨Or.inr hu', hlt⟩).1 (hu u hu'), hids,
      fun r hr hlt => (hrows r ⟨Or.inl hr, hlt⟩).2 (hv r hr)⟩
  · rintro ⟨hbelow, hids, hagrees⟩
    refine ⟨?_, hids⟩
    rintro r ⟨hr | hr, hlt⟩
    · exact ⟨fun hs => absurd (hv r hr) (by simp [hs]), fun _ => hagrees r hr hlt⟩
    · exact ⟨fun _ => hbelow r hr hlt, fun hs => absurd hs (by simp [hu r hr])⟩

end Conflict

/-! ## What is rejected -/

/-- Nothing in the batch is rejected below `d`: the batch verifies there, no unsealed row is above
    a stored sealed one, and the sealed rows have distinct ids and agree with the store. -/
structure ClearBelow (check : AuditRow → Option Reason) (store : Store) (rows : List AuditRow)
    (d : Int) : Prop where
  verifies : RowsOkBelow check d (sortBySeq rows)
  unsealed : ∀ u ∈ rows, u.isSealed = false → u.monotonicSeq < d →
    store.sealedBelow u.sourceNodeId u.monotonicSeq = false
  ids : ∀ r r', KeptSealed rows r → KeptSealed rows r' → r.monotonicSeq < d →
    r'.monotonicSeq < d → r.id = r'.id → r = r'
  agrees : ∀ r, KeptSealed rows r → r.monotonicSeq < d → Agrees store r

/-- The first conflict of a batch's verified prefix. -/
def batchConflict (check : AuditRow → Option Reason) (store : Store) (rows : List AuditRow) :
    Option (Int × RejectReason) :=
  storedConflict store (verifiedPrefix check rows).1
    (skippedUnsealed rows (verifiedPrefix check rows).2.1)

theorem Store.checkedPrefix_eq : store.checkedPrefix check rows =
    cutAtConflict (verifiedPrefix check rows).1 (verifiedPrefix check rows).2.1
      ((verifiedPrefix check rows).2.2.map .broken) (batchConflict check store rows) := rfl

theorem mem_skippedUnsealed {cut : Option Int} {u : AuditRow} :
    u ∈ skippedUnsealed rows cut
      ↔ u ∈ rows ∧ u.isSealed = false ∧ BelowCut cut u.monotonicSeq := by
  cases cut <;> simp [skippedUnsealed, BelowCut]

theorem noneBelow_batchConflict_iff {d : Int} :
    NoneBelow d (batchConflict check store rows) ↔
      (∀ u ∈ skippedUnsealed rows (verifiedPrefix check rows).2.1, u.monotonicSeq < d →
        store.sealedBelow u.sourceNodeId u.monotonicSeq = false) ∧
      (∀ r ∈ (verifiedPrefix check rows).1, ∀ r' ∈ (verifiedPrefix check rows).1,
        r.monotonicSeq < d → r'.monotonicSeq < d → r.id = r'.id → r = r') ∧
      ∀ r ∈ (verifiedPrefix check rows).1, r.monotonicSeq < d → Agrees store r :=
  noneBelow_storedConflict_iff (fun _ hr => (mem_verifiedPrefix.1 hr).1.2)
    (fun _ hr => (mem_skippedUnsealed.1 hr).2.1) (nodup_verifiedPrefix check rows)

/-- A conflict is at a row below the batch's own break. -/
theorem belowCut_batchConflict {b : Int × RejectReason}
    (h : batchConflict check store rows = some b) :
    BelowCut (verifiedPrefix check rows).2.1 b.1 := by
  rw [batchConflict, storedConflict, conflictWalk_eq_firstFail _ [] [] (fun _ => rfl)] at h
  obtain ⟨pre, row, post, hsplit, hfail⟩ := exists_of_firstFail_eq_some h
  rw [conflictFail_key hfail]
  have hrow : row ∈ sortBySeqNode ((verifiedPrefix check rows).1
      ++ skippedUnsealed rows (verifiedPrefix check rows).2.1) := by rw [hsplit]; simp
  rw [(perm_sortBySeqNode _).mem_iff, List.mem_append] at hrow
  rcases hrow with hrow | hrow
  · exact (mem_verifiedPrefix.1 hrow).2
  · exact (mem_skippedUnsealed.1 hrow).2.2

/-- The batch is clear below `d` when neither check finds anything there. -/
theorem clearBelow_iff {d : Int} :
    ClearBelow check store rows d ↔
      NoneBelow d (batchBreak check rows) ∧ NoneBelow d (batchConflict check store rows) := by
  rw [noneBelow_batchConflict_iff]
  -- below a `d` at or below the break, the verified prefix holds every kept sealed row
  have hcut : NoneBelow d (batchBreak check rows) → ∀ seq < d,
      BelowCut (verifiedPrefix check rows).2.1 seq := by
    intro h seq hlt e he
    rw [noneBelow_iff_cut, ← verifiedPrefix_break] at h
    have := h e he
    omega
  constructor
  · rintro ⟨hverifies, hunsealed, hids, hagrees⟩
    refine ⟨noneBelow_batchBreak_iff.2 hverifies, fun u hu hlt => ?_, fun r hr r' hr' => ?_,
      fun r hr => ?_⟩
    · exact hunsealed u (mem_skippedUnsealed.1 hu).1 (mem_skippedUnsealed.1 hu).2.1 hlt
    · exact hids r r' (mem_verifiedPrefix.1 hr).1 (mem_verifiedPrefix.1 hr').1
    · exact hagrees r (mem_verifiedPrefix.1 hr).1
  · rintro ⟨hbreak, hunsealed, hids, hagrees⟩
    refine ⟨noneBelow_batchBreak_iff.1 hbreak, fun u hu hs hlt => ?_, fun r r' hr hr' hlt hlt' => ?_,
      fun r hr hlt => ?_⟩
    · exact hunsealed u (mem_skippedUnsealed.2 ⟨hu, hs, hcut hbreak _ hlt⟩) hlt
    · exact hids r (mem_verifiedPrefix.2 ⟨hr, hcut hbreak _ hlt⟩) r'
        (mem_verifiedPrefix.2 ⟨hr', hcut hbreak _ hlt'⟩) hlt hlt'
    · exact hagrees r (mem_verifiedPrefix.2 ⟨hr, hcut hbreak _ hlt⟩) hlt

theorem ClearBelow.mono {d d' : Int} (h : ClearBelow check store rows d) (hle : d' ≤ d) :
    ClearBelow check store rows d' := by
  rw [clearBelow_iff] at h ⊢
  exact ⟨h.1.mono hle, h.2.mono hle⟩

/-- **What an ingest rejects.** The first rejection is at or above `d` exactly when the batch is
    clear below `d`. -/
theorem le_rejected_iff {d : Int} :
    (∀ e ∈ (store.checkedPrefix check rows).2.1, d ≤ e) ↔ ClearBelow check store rows d := by
  rw [clearBelow_iff, noneBelow_iff_cut, ← verifiedPrefix_break, Store.checkedPrefix_eq]
  cases hconflict : batchConflict check store rows with
  | none => simp [cutAtConflict]
  | some b =>
    simp only [cutAtConflict, Option.mem_some_iff, forall_eq', noneBelow_some]
    refine ⟨fun h => ⟨fun e he => ?_, h⟩, fun h => h.2⟩
    have := belowCut_batchConflict hconflict e he
    omega

theorem clearBelow_of_belowCut (h : BelowCut (store.checkedPrefix check rows).2.1 seq) :
    ClearBelow check store rows (seq + 1) := by
  refine le_rejected_iff.1 (fun e he => ?_)
  have := h e he
  omega

theorem belowCut_of_clearBelow (h : ClearBelow check store rows (seq + 1)) :
    BelowCut (store.checkedPrefix check rows).2.1 seq := by
  intro e he
  have := le_rejected_iff.2 h e he
  omega

/-- **What is left to insert**: the kept sealed rows below the first rejection. -/
theorem mem_checkedPrefix :
    p ∈ (store.checkedPrefix check rows).1 ↔
      KeptSealed rows p ∧ BelowCut (store.checkedPrefix check rows).2.1 p.monotonicSeq := by
  rw [Store.checkedPrefix_eq]
  cases hconflict : batchConflict check store rows with
  | none => exact mem_verifiedPrefix
  | some b =>
    simp only [cutAtConflict, List.mem_filter, decide_eq_true_eq, mem_verifiedPrefix, BelowCut,
      Option.mem_some_iff, forall_eq']
    refine ⟨fun h => ⟨h.1.1, h.2⟩, fun h => ⟨⟨h.1, fun e he => ?_⟩, h.2⟩⟩
    have := belowCut_batchConflict hconflict e he
    omega

theorem nodup_checkedPrefix : ((store.checkedPrefix check rows).1.map (·.id)).Nodup := by
  have hnodup : (store.checkedPrefix check rows).1.Nodup := by
    rw [Store.checkedPrefix_eq]
    cases batchConflict check store rows with
    | none => exact nodup_verifiedPrefix check rows
    | some b => exact (nodup_verifiedPrefix check rows).filter _
  refine (List.nodup_map_iff_inj_on hnodup).2 (fun r hr r' hr' hid => ?_)
  obtain ⟨hkept, hcut⟩ := mem_checkedPrefix.1 hr
  obtain ⟨hkept', hcut'⟩ := mem_checkedPrefix.1 hr'
  have hclear : ClearBelow check store rows (max r.monotonicSeq r'.monotonicSeq + 1) := by
    refine clearBelow_of_belowCut (fun e he => ?_)
    have := hcut e he
    have := hcut' e he
    omega
  exact hclear.ids r r' hkept hkept' (by omega) (by omega) hid

/-! ## What is inserted -/

theorem Store.mem_ids_iff {id : String} :
    id ∈ store.rows.map (·.id) ↔ ∃ x ∈ store.rows, x.id = id := by
  simp

section Insert

variable {rest stored : List AuditRow} (row : AuditRow) (hrow : row.id ∉ rest.map (·.id))

include hrow

/-- The other rows still agree with the stored ones once a row is inserted. -/
theorem held_concat (hheld : ∀ p ∈ rest, ∀ x ∈ stored, x.id = p.id → x.hash = p.hash) :
    ∀ p ∈ rest, ∀ x ∈ stored ++ [row], x.id = p.id → x.hash = p.hash := by
  intro p hp x hx hxid
  rw [List.mem_append, List.mem_singleton] at hx
  rcases hx with hx | rfl
  · exact hheld p hp x hx hxid
  · exact absurd (List.mem_map.2 ⟨p, hp, hxid.symm⟩) hrow

/-- And the same of them are left to insert. -/
theorem filter_concat : rest.filter (fun p => decide (p.id ∉ (stored ++ [row]).map (·.id)))
    = rest.filter (fun p => decide (p.id ∉ stored.map (·.id))) := by
  refine List.filter_congr (fun p hp => ?_)
  have hne : p.id ≠ row.id := fun h => hrow (List.mem_map.2 ⟨p, hp, h⟩)
  simp [hne]

end Insert

/-- Rows with distinct ids that agree with the store are all inserted, those already stored
    apart. -/
theorem exists_insertAll (l : List AuditRow) (store : Store) (hids : (l.map (·.id)).Nodup)
    (hheld : ∀ p ∈ l, ∀ x ∈ store.rows, x.id = p.id → x.hash = p.hash) :
    ∃ store', insertAll store l = some store' ∧ store'.rows = store.rows
      ++ (l.filter (fun p => decide (p.id ∉ store.rows.map (·.id)))).map AuditRow.stored := by
  induction l generalizing store with
  | nil => exact ⟨store, rfl, by simp⟩
  | cons row rest ih =>
    obtain ⟨hrow, hrest⟩ := List.nodup_cons.1 hids
    have hheld' := fun p hp => hheld p (List.mem_cons_of_mem row hp)
    by_cases hid : row.id ∈ store.rows.map (·.id)
    · obtain ⟨store', hinsert, hrows⟩ := ih store hrest hheld'
      refine ⟨store', ?_, ?_⟩
      · obtain ⟨x, hx, hxid⟩ := Store.mem_ids_iff.1 hid
        have hbyId : store.byId row.id = some row.hash :=
          Store.byId_eq_some_iff.2 ⟨x, hx, hxid, hheld row List.mem_cons_self x hx hxid⟩
        simp only [insertAll, Store.insertRowCore, dif_pos hid, hbyId, ne_eq, not_true_eq_false,
          and_false, if_false]
        exact hinsert
      · rw [hrows, List.filter_cons_of_neg (by simpa using hid)]
    · have hnew : (store.insertRowCore row).1.rows = store.rows ++ [row.stored] := by
        rw [Store.insertRowCore_rows, if_neg hid]
      obtain ⟨store', hinsert, hrows⟩ := ih (store.insertRowCore row).1 hrest
        (hnew ▸ held_concat row.stored hrow hheld')
      refine ⟨store', ?_, ?_⟩
      · have hcount : (store.insertRowCore row).2 = 1 := by
          simp only [Store.insertRowCore, dif_neg hid]
        simp only [insertAll, hcount, one_ne_zero, false_and, if_false]
        exact hinsert
      · rw [hrows, hnew, List.filter_cons_of_pos (by simpa using hid), List.map_cons,
          List.append_assoc, List.singleton_append, filter_concat row.stored hrow]

/-- The rows an ingest adds: those its checks leave and the store does not have. -/
def Store.toInsert (check : AuditRow → Option Reason) (store : Store) (rows : List AuditRow) :
    List AuditRow :=
  (store.checkedPrefix check rows).1.filter (fun p => decide (p.id ∉ store.rows.map (·.id)))

theorem mem_toInsert :
    p ∈ store.toInsert check rows ↔ KeptSealed rows p ∧
      ClearBelow check store rows (p.monotonicSeq + 1) ∧ ∀ x ∈ store.rows, x.id ≠ p.id := by
  simp only [Store.toInsert, List.mem_filter, mem_checkedPrefix, decide_eq_true_eq,
    Store.mem_ids_iff, not_exists, not_and, and_assoc]
  refine and_congr_right (fun _ => and_congr_left (fun _ => ?_))
  exact ⟨clearBelow_of_belowCut, belowCut_of_clearBelow⟩

/-! ## The seqs an ingest binds -/

theorem Inside.inInt64 {row : AuditRow} (h : Inside row) : InInt64 row.monotonicSeq := by
  unfold Inside InInt64 at *
  omega

theorem Inside.inInt64_lookups {row : AuditRow} (h : Inside row) :
    ∀ seq ∈ store.lookups row, InInt64 seq := by
  have hrow := h.inInt64
  unfold Store.lookups
  split_ifs
  · simpa using hrow
  · simp
  · split <;> simp [hrow, h.1, h.2]

theorem inInt64_walkLookups (h : ∀ r ∈ l, Inside r) (seen : List (String × (String × Int))) :
    ∀ seq ∈ walkLookups store seen l, InInt64 seq := by
  induction l generalizing seen with
  | nil => simp [walkLookups]
  | cons row rest ih =>
    rw [List.forall_mem_cons] at h
    rw [walkLookups]
    split_ifs with hseen hconflict
    · simp
    · simpa using h.1.inInt64_lookups
    · exact List.forall_mem_append.2 ⟨h.1.inInt64_lookups, ih h.2 _⟩
    · exact List.forall_mem_append.2 ⟨h.1.inInt64_lookups, ih h.2 _⟩

theorem fits_of_inside (h : ∀ r ∈ rows, Inside r) : store.fits check rows = true := by
  simp only [Store.fits, List.all_eq_true, decide_eq_true_eq]
  refine List.forall_mem_append.2 ⟨inInt64_walkLookups (fun r hr => h r ?_) [], fun seq hseq => ?_⟩
  · rw [(perm_sortBySeqNode _).mem_iff, List.mem_append] at hr
    exact hr.elim (fun hr => (mem_verifiedPrefix.1 hr).1.mem) (fun hr => (mem_skippedUnsealed.1 hr).1)
  · obtain ⟨p, hp, rfl⟩ := List.mem_map.1 hseq
    exact (h p (mem_checkedPrefix.1 hp).1.mem).inInt64

/-- **What an ingest does.** It returns when it binds no seq beyond 64 bits, and adds the rows to
    insert after those stored before. -/
theorem Store.exists_ingest (check : AuditRow → Option Reason) (store : Store)
    (rows : List AuditRow) (hfits : store.fits check rows = true) :
    ∃ store' result, store.ingest check rows = some (store', result) ∧
      store'.rows = store.rows ++ (store.toInsert check rows).map AuditRow.stored ∧
      result.rejectedFromSeq = (store.checkedPrefix check rows).2.1 := by
  obtain ⟨store', hinsert, hrows⟩ := exists_insertAll (store.checkedPrefix check rows).1 store
    nodup_checkedPrefix (fun p hp x hx hid => by
      obtain ⟨hkept, hcut⟩ := mem_checkedPrefix.1 hp
      exact ((clearBelow_of_belowCut hcut).agrees p hkept (by omega)).held x hx hid)
  refine ⟨store', ⟨(store.checkedPrefix check rows).1.length, (store.checkedPrefix check rows).2.1,
    (store.checkedPrefix check rows).2.2⟩, ?_, hrows, rfl⟩
  simp only [Store.ingest, if_pos hfits, hinsert, Option.map_some]

/-- The same for a call with a local node: the rows from its first one on are left out. -/
theorem Store.exists_ingestReplicated (check : AuditRow → Option Reason) (store : Store)
    (rows : List AuditRow) (localNodeId : Option String)
    (hfits : store.fits check (rowsBeforeLocal localNodeId rows) = true) :
    ∃ store' result, store.ingestReplicated check rows localNodeId = some (store', result) ∧
      store'.rows = store.rows
        ++ (store.toInsert check (rowsBeforeLocal localNodeId rows)).map AuditRow.stored ∧
      result.rejectedFromSeq = (store.checkedPrefix check (rowsBeforeLocal localNodeId rows)).2.1.or
        ((firstLocal localNodeId rows).map (·.monotonicSeq)) := by
  obtain ⟨store', result, hingest, hrows, hrejected⟩ :=
    store.exists_ingest check (rowsBeforeLocal localNodeId rows) hfits
  unfold Store.ingestReplicated
  cases hfirst : firstLocal localNodeId rows with
  | none =>
    have hall : rowsBeforeLocal localNodeId rows = rows := by rw [rowsBeforeLocal, hfirst]
    rw [hall] at hingest hrows hrejected ⊢
    exact ⟨store', result, hingest, hrows, by rw [hrejected]; simp⟩
  | some first =>
    simp only [hingest, Option.map_some]
    cases hcut : (store.checkedPrefix check (rowsBeforeLocal localNodeId rows)).2.1 with
    | some e =>
      rw [hcut] at hrejected
      exact ⟨store', result, by simp [hrejected], hrows, hrejected⟩
    | none =>
      rw [hcut] at hrejected
      exact ⟨store', { result with
        rejectedFromSeq := some first.monotonicSeq
        reason := some (.localNode first.id first.sourceNodeId) }, by simp [hrejected], hrows,
        rfl⟩

theorem mem_of_rowsBeforeLocal {r : AuditRow} (h : r ∈ rowsBeforeLocal localNodeId rows) :
    r ∈ rows ∧ BelowCut ((firstLocal localNodeId rows).map (·.monotonicSeq)) r.monotonicSeq := by
  unfold rowsBeforeLocal at h
  cases hfirst : firstLocal localNodeId rows with
  | none =>
    rw [hfirst] at h
    exact ⟨h, by simp [BelowCut]⟩
  | some first =>
    rw [hfirst] at h
    simpa [BelowCut] using h

theorem fits_local (h : ∀ r ∈ rows, Inside r) (localNodeId : Option String) :
    store.fits check (rowsBeforeLocal localNodeId rows) = true :=
  fits_of_inside (fun r hr => h r (mem_of_rowsBeforeLocal hr).1)

/-- A call that raises leaves the store as it was. -/
theorem Store.afterIngest_of_overflow
    (hfits : ¬store.fits check (rowsBeforeLocal localNodeId rows) = true) :
    store.afterIngest check rows localNodeId = store := by
  have hnone : store.ingest check (rowsBeforeLocal localNodeId rows) = none := if_neg hfits
  unfold Store.afterIngest Store.ingestReplicated
  cases hfirst : firstLocal localNodeId rows with
  | none =>
    rw [rowsBeforeLocal, hfirst] at hnone
    simp only [hnone]
  | some first => simp only [hnone, Option.map_none]

theorem Store.afterIngest_rows (check : AuditRow → Option Reason) (store : Store)
    (rows : List AuditRow) (localNodeId : Option String)
    (hfits : store.fits check (rowsBeforeLocal localNodeId rows) = true) :
    (store.afterIngest check rows localNodeId).rows = store.rows
      ++ (store.toInsert check (rowsBeforeLocal localNodeId rows)).map AuditRow.stored := by
  obtain ⟨store', result, hingest, hrows, -⟩ :=
    store.exists_ingestReplicated check rows localNodeId hfits
  rw [Store.afterIngest, hingest, hrows]

theorem mem_afterIngest {x : AuditRow}
    (hfits : store.fits check (rowsBeforeLocal localNodeId rows) = true) :
    x ∈ (store.afterIngest check rows localNodeId).rows ↔ x ∈ store.rows ∨
      ∃ p ∈ store.toInsert check (rowsBeforeLocal localNodeId rows), p.stored = x := by
  rw [Store.afterIngest_rows check store rows localNodeId hfits, List.mem_append, List.mem_map]

theorem mem_of_mem_afterIngest {x : AuditRow}
    (hx : x ∈ (store.afterIngest check rows localNodeId).rows) : x ∈ store.rows ∨
      ∃ p ∈ store.toInsert check (rowsBeforeLocal localNodeId rows), p.stored = x := by
  by_cases hfits : store.fits check (rowsBeforeLocal localNodeId rows) = true
  · exact (mem_afterIngest hfits).1 hx
  · rw [Store.afterIngest_of_overflow hfits] at hx
    exact Or.inl hx

theorem Store.rejectedFromSeq_eq (check : AuditRow → Option Reason) (store : Store)
    (rows : List AuditRow) (localNodeId : Option String)
    (hfits : store.fits check (rowsBeforeLocal localNodeId rows) = true) :
    store.rejectedFromSeq check rows localNodeId =
      (store.checkedPrefix check (rowsBeforeLocal localNodeId rows)).2.1.or
        ((firstLocal localNodeId rows).map (·.monotonicSeq)) := by
  obtain ⟨store', result, hingest, -, hrejected⟩ :=
    store.exists_ingestReplicated check rows localNodeId hfits
  rw [Store.rejectedFromSeq, hingest, ← hrejected]

end Fasten
