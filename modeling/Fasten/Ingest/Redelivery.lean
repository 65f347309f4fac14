import Fasten.Ingest.Consistent

set_option autoImplicit false

/-! # Ingesting a batch again

The second ingest of a batch finds the rows of the first one stored (spec §4). It never changes the
store; `redelivery_iff` says when it also rejects the same rows, which fails for unsealed copies
above rows of the batch itself. -/

namespace Fasten

open Scan

variable {check : AuditRow → Option Reason} {store : Store} {rows : List AuditRow}

/-! ## A store that has grown -/

/-- The store after an ingest of the rows. -/
structure Grown (check : AuditRow → Option Reason) (store : Store) (rows : List AuditRow)
    (store' : Store) : Prop where
  rows_eq : store'.rows = store.rows ++ (store.toInsert check rows).map AuditRow.stored

section

variable {store' : Store} (hgrown : Grown check store rows store')

include hgrown

theorem Grown.mem_iff {x : AuditRow} :
    x ∈ store'.rows ↔ x ∈ store.rows ∨ ∃ p ∈ store.toInsert check rows, p.stored = x := by
  rw [hgrown.rows_eq, List.mem_append, List.mem_map]

theorem Grown.atSeq_of_some {node : String} {seq : Int} {x : AuditRow}
    (h : store.atSeq node seq = some x) : store'.atSeq node seq = some x := by
  unfold Store.atSeq at h ⊢
  rw [hgrown.rows_eq, List.find?_append, h, Option.some_or]

/-- A row that fits into the grown store did fit before. -/
theorem Grown.neighbourConflict {r : AuditRow} (h : store'.neighbourConflict r = none) :
    store.neighbourConflict r = none := by
  rw [Store.neighbourConflict_eq_none_iff] at h ⊢
  obtain ⟨hplace, hbefore, hafter⟩ := h
  refine ⟨?_, fun b hb => hbefore b (hgrown.atSeq_of_some hb),
    fun a ha => hafter a (hgrown.atSeq_of_some ha)⟩
  cases hfound : store.atSeq r.sourceNodeId r.monotonicSeq with
  | none => rfl
  | some x =>
    rw [hgrown.atSeq_of_some hfound] at hplace
    exact absurd hplace (by simp)

theorem Grown.sealedBelow {node : String} {seq : Int} (h : store'.sealedBelow node seq = false) :
    store.sealedBelow node seq = false := by
  rw [Store.sealedBelow_eq_false_iff] at h ⊢
  exact fun x hx => h x (hgrown.mem_iff.2 (Or.inl hx))

/-- What the second ingest accepts, the first one accepted. -/
theorem Grown.clearBelow {d : Int} (h : ClearBelow check store' rows d) :
    ClearBelow check store rows d := by
  by_cases hall : ∃ p ∈ store.toInsert check rows, d ≤ p.monotonicSeq
  · -- the first one went further than `d`
    obtain ⟨p, hp, hle⟩ := hall
    exact (mem_toInsert.1 hp).2.1.mono (by omega)
  · refine ⟨h.verifies, fun u hu hs hlt => hgrown.sealedBelow (h.unsealed u hu hs hlt), h.ids,
      fun r hr hlt => ⟨fun x hx => (h.agrees r hr hlt).held x (hgrown.mem_iff.2 (Or.inl hx)),
        fun hnew => ?_⟩⟩
    by_cases hinserted : ∃ p ∈ store.toInsert check rows, p.id = r.id
    · obtain ⟨p, hp, hid⟩ := hinserted
      have hplt : p.monotonicSeq < d := by
        by_contra hle
        exact hall ⟨p, hp, by omega⟩
      rw [← h.ids p r (mem_toInsert.1 hp).1 hr hplt hlt hid]
      exact neighbourConflict_of_mem_toInsert hp
    · refine hgrown.neighbourConflict ((h.agrees r hr hlt).fits (fun x hx hid => ?_))
      rcases hgrown.mem_iff.1 hx with hx | ⟨p, hp, rfl⟩
      · exact hnew x hx hid
      · exact hinserted ⟨p, hp, hid⟩

/-- Of what the first ingest accepted, the second one can only object to unsealed rows. -/
theorem Grown.clearBelow_iff {d : Int} (h : ClearBelow check store rows d) :
    ClearBelow check store' rows d ↔
      ∀ u ∈ rows, u.isSealed = false → u.monotonicSeq < d →
        ∀ p ∈ store.toInsert check rows, p.sourceNodeId = u.sourceNodeId →
          u.monotonicSeq ≤ p.monotonicSeq := by
  constructor
  · intro h' u hu hs hlt p hp hnode
    have hbelow := Store.sealedBelow_eq_false_iff.1 (h'.unsealed u hu hs hlt)
    exact hbelow p.stored (hgrown.mem_iff.2 (Or.inr ⟨p, hp, rfl⟩)) hnode
      (p.isSealed_stored.trans (isSealed_of_mem_toInsert hp))
  · intro hunsealed
    refine ⟨h.verifies, fun u hu hs hlt => ?_, h.ids, fun r hr hlt => ⟨fun x hx hid => ?_, ?_⟩⟩
    · rw [Store.sealedBelow_eq_false_iff]
      intro x hx hnode hxs
      rcases hgrown.mem_iff.1 hx with hx | ⟨p, hp, rfl⟩
      · exact Store.sealedBelow_eq_false_iff.1 (h.unsealed u hu hs hlt) x hx hnode hxs
      · exact hunsealed u hu hs hlt p hp hnode
    · rcases hgrown.mem_iff.1 hx with hx | ⟨p, hp, rfl⟩
      · exact (h.agrees r hr hlt).held x hx hid
      · -- the inserted row with this id is the row itself
        obtain ⟨hkept, hclear, -⟩ := mem_toInsert.1 hp
        have hsame : p = r := by
          by_cases hle : p.monotonicSeq < d
          · exact h.ids p r hkept hr hle hlt hid
          · exact hclear.ids p r hkept hr (by omega) (by omega) hid
        rw [hsame]
        rfl
    · -- an accepted row is stored by now
      intro hnew
      have hinsert : r ∈ store.toInsert check rows := mem_toInsert.2 ⟨hr, h.mono (by omega),
        fun x hx => hnew x (hgrown.mem_iff.2 (Or.inl hx))⟩
      exact absurd rfl (hnew r.stored (hgrown.mem_iff.2 (Or.inr ⟨r, hinsert, rfl⟩)))

/-- **Nothing is left to insert.** -/
theorem Grown.toInsert_eq_nil : store'.toInsert check rows = [] := by
  rw [List.eq_nil_iff_forall_not_mem]
  intro p hp
  obtain ⟨hkept, hclear, hnew⟩ := mem_toInsert.1 hp
  have hinsert : p ∈ store.toInsert check rows := mem_toInsert.2 ⟨hkept, hgrown.clearBelow hclear,
    fun x hx => hnew x (hgrown.mem_iff.2 (Or.inl hx))⟩
  exact hnew p.stored (hgrown.mem_iff.2 (Or.inr ⟨p, hinsert, rfl⟩)) rfl

end

/-! ## When the second ingest rejects the same -/

/-- No unsealed row that passes the checks has a sealed row of its node below it in the batch that
    is new to the store. -/
def NoneNewBelowUnsealed (check : AuditRow → Option Reason) (store : Store)
    (rows : List AuditRow) : Prop :=
  ∀ u ∈ rows, u.isSealed = false → NoneBelow (u.monotonicSeq + 1) (batchBreak check rows) →
    NoneBelow (u.monotonicSeq + 1) (batchConflict check store rows) →
    ∀ r ∈ rows, r.isSealed = true → r.sourceNodeId = u.sourceNodeId →
      r.monotonicSeq < u.monotonicSeq → ∃ x ∈ store.rows, x.id = r.id

/-- The kept copy of a sealed row is not above it. -/
theorem exists_keptSealed {r : AuditRow} (hr : r ∈ rows) (hs : r.isSealed = true) :
    ∃ k, KeptSealed rows k ∧ k.sourceNodeId = r.sourceNodeId ∧ k.id = r.id ∧
      k.monotonicSeq ≤ r.monotonicSeq := by
  have hsorted : r ∈ sortBySeq rows := (perm_sortBySeq rows).mem_iff.2 hr
  obtain ⟨k, hk, hks⟩ := exists_keptCopy hsorted
  obtain ⟨-, hnode, hid⟩ := mem_of_keptCopy hk
  have hkept : keptCopy (sortBySeq rows) k.sourceNodeId k.id = some k := by rw [hnode, hid, hk]
  refine ⟨k, ⟨hkept, hks hs⟩, hnode, hid, ?_⟩
  obtain ⟨-, pre, post, hsplit, hpre⟩ :=
    List.find?_eq_some_iff_append.1 ((keptCopy_sealed_iff (hks hs)).1 hkept)
  have hpairs := pairwise_sortBySeq rows
  rw [hsplit] at hsorted hpairs
  rcases List.mem_append.1 hsorted with hmem | hmem
  · exact absurd (hpre r hmem) (by simp [hs, hnode, hid])
  · rcases List.mem_cons.1 hmem with rfl | hmem
    · exact le_rfl
    · exact (List.pairwise_cons.1 (List.pairwise_append.1 hpairs).2.1).1 r hmem

theorem noneNewBelowUnsealed_iff :
    NoneNewBelowUnsealed check store rows ↔
      ∀ u ∈ rows, u.isSealed = false → ClearBelow check store rows (u.monotonicSeq + 1) →
        ∀ p ∈ store.toInsert check rows, p.sourceNodeId = u.sourceNodeId →
          u.monotonicSeq ≤ p.monotonicSeq := by
  constructor
  · intro h u hu hs hclear p hp hnode
    by_contra hlt
    obtain ⟨hkept, -, hnew⟩ := mem_toInsert.1 hp
    obtain ⟨hbreak, hconflict⟩ := clearBelow_iff.1 hclear
    obtain ⟨x, hx, hid⟩ := h u hu hs hbreak hconflict p hkept.mem hkept.2 hnode (by omega)
    exact hnew x hx hid
  · intro h u hu hs hbreak hconflict r hr hrs hnode hlt
    by_contra hnew
    have hclear := clearBelow_iff.2 ⟨hbreak, hconflict⟩
    obtain ⟨k, hkept, hknode, hkid, hle⟩ := exists_keptSealed hr hrs
    have hinsert : k ∈ store.toInsert check rows := mem_toInsert.2 ⟨hkept, hclear.mono (by omega),
      fun x hx hid => hnew ⟨x, hx, hid.trans hkid⟩⟩
    have := h u hu hs hclear k hinsert (hknode.trans hnode)
    omega

theorem Grown.rejected_eq_iff {store' : Store} (hgrown : Grown check store rows store') :
    (store'.checkedPrefix check rows).2.1 = (store.checkedPrefix check rows).2.1
      ↔ NoneNewBelowUnsealed check store rows := by
  rw [noneNewBelowUnsealed_iff]
  constructor
  · intro heq u hu hs hclear
    have hclear' : ClearBelow check store' rows (u.monotonicSeq + 1) := by
      rw [← le_rejected_iff, heq, le_rejected_iff]
      exact hclear
    exact (hgrown.clearBelow_iff hclear).1 hclear' u hu hs (by omega)
  · intro h
    refine eq_of_forall_le_iff (fun d => ?_)
    rw [le_rejected_iff, le_rejected_iff]
    refine ⟨hgrown.clearBelow, fun hclear => (hgrown.clearBelow_iff hclear).2 ?_⟩
    intro u hu hs hlt
    exact h u hu hs (hclear.mono (by omega))

/-! ## Rows from the local node -/

/-- Rows that are all below a seq are rejected below it or not at all. -/
theorem rejected_lt {c e : Int} (hrows : ∀ r ∈ rows, r.monotonicSeq < c)
    (h : (store.checkedPrefix check rows).2.1 = some e) : e < c := by
  by_contra hle
  have hclear : ClearBelow check store rows c := by
    rw [← le_rejected_iff, h]
    intro e' he'
    rw [← Option.some.inj he']
    omega
  have hkept : ∀ {node r}, keptCopy (sortBySeq rows) node r.id = some r → r.monotonicSeq < c :=
    fun hk => hrows _ ((perm_sortBySeq rows).mem_iff.1 (mem_of_keptCopy hk).1)
  -- then the batch is clear further up as well
  have hclear' : ClearBelow check store rows (e + 1) := by
    refine ⟨⟨fun node => ?_, fun row hrow hs k hk _ => ?_⟩, fun u hu hs _ => ?_,
      fun r r' hr hr' _ _ => ?_, fun r hr _ => ?_⟩
    · refine (hclear.verifies.nodes node).of_convex (fun r hr => ⟨hr.1, hkept hr.1⟩) ?_
      intro r _ _ r' _ w hw _ _
      exact ⟨hw.1, by have := hw.2; omega⟩
    · have := hrows row ((perm_sortBySeq rows).mem_iff.1 hrow)
      exact hclear.verifies.copies row hrow hs k hk (by omega)
    · exact hclear.unsealed u hu hs (hrows u hu)
    · exact hclear.ids r r' hr hr' (hrows r hr.mem) (hrows r' hr'.mem)
    · exact hclear.agrees r hr (hrows r hr.mem)
  have := le_rejected_iff.2 hclear' e h
  omega

/-- A local row above the batch is reported when nothing else is. -/
theorem or_local_inj {first : Option AuditRow} {a b : Option Int}
    (ha : ∀ e ∈ a, ∀ f ∈ first, e < f.monotonicSeq) (hb : ∀ e ∈ b, ∀ f ∈ first, e < f.monotonicSeq) :
    a.or (first.map (·.monotonicSeq)) = b.or (first.map (·.monotonicSeq)) ↔ a = b := by
  cases first with
  | none => simp
  | some f =>
    cases a with
    | none =>
      cases b with
      | none => simp
      | some e =>
        have := hb e rfl f rfl
        simp only [Option.none_or, Option.map_some, Option.some_or, Option.some.injEq]
        exact iff_of_false (by omega) (by simp)
    | some e =>
      cases b with
      | none =>
        have := ha e rfl f rfl
        simp only [Option.none_or, Option.map_some, Option.some_or, Option.some.injEq]
        exact iff_of_false (by omega) (by simp)
      | some e' => simp

theorem rejected_lt_local {localNodeId : Option String} :
    ∀ e ∈ (store.checkedPrefix check (rowsBeforeLocal localNodeId rows)).2.1,
      ∀ f ∈ firstLocal localNodeId rows, e < f.monotonicSeq := by
  intro e he f hf
  refine rejected_lt (fun r hr => ?_) he
  exact (mem_of_rowsBeforeLocal hr).2 _ (by rw [hf]; rfl)

theorem Store.ext_rows {s s' : Store} (h : s.rows = s'.rows) : s = s' := by
  cases s
  cases s'
  simpa using h

/-- **Re-delivery.** Of a batch inside the range of seqs, the second ingest right after the first
    leaves the store as it is. It reports the same `rejected_from_seq` exactly when no unsealed row that
    passes the checks has a sealed row of its node below it in the batch that was new to the store. -/
theorem redelivery_iff (check : AuditRow → Option Reason) (store : Store) (rows : List AuditRow)
    (hinside : ∀ r ∈ rows, Inside r) (localNodeId : Option String) :
    ∃ store' first second, store.ingestReplicated check rows localNodeId = some (store', first) ∧
      store'.ingestReplicated check rows localNodeId = some (store', second) ∧
      (second.rejectedFromSeq = first.rejectedFromSeq ↔
        NoneNewBelowUnsealed check store (rowsBeforeLocal localNodeId rows)) := by
  obtain ⟨store', first, hfirst, hrows, hrejected⟩ :=
    store.exists_ingestReplicated check rows localNodeId (fits_local hinside localNodeId)
  have hgrown : Grown check store (rowsBeforeLocal localNodeId rows) store' := ⟨hrows⟩
  obtain ⟨store'', second, hsecond, hrows', hrejected'⟩ :=
    store'.exists_ingestReplicated check rows localNodeId (fits_local hinside localNodeId)
  have hsame : store'' = store' := by
    refine Store.ext_rows ?_
    rw [hrows', hgrown.toInsert_eq_nil]
    simp
  refine ⟨store', first, second, hfirst, hsame ▸ hsecond, ?_⟩
  rw [hrejected, hrejected', or_local_inj rejected_lt_local rejected_lt_local,
    hgrown.rejected_eq_iff]

/-- The rows of two nodes and an unsealed one below them, delivered twice. -/
theorem redelivery_twoNodes :
    ∃ store' first second, (Store.empty.insertRowCore edgePair.1).1.ingestReplicated
        (rowBreak plainDigest) [sampleAt "hub" (by decide) "hub-0" 0, hubPair.2, edgePair.2, hubPair.1]
        none = some (store', first) ∧
      store'.ingestReplicated (rowBreak plainDigest)
        [sampleAt "hub" (by decide) "hub-0" 0, hubPair.2, edgePair.2, hubPair.1] none
          = some (store', second) ∧
      second.rejectedFromSeq = first.rejectedFromSeq := by
  have hedge : SealedPair "edge" edgePair := sealedPair_spec "edge" (by decide)
  have hhub : SealedPair "hub" hubPair := sealedPair_spec "hub" (by decide)
  have hseq : (sampleAt "hub" (by decide) "hub-0" 0).monotonicSeq = 0 := rfl
  have hinside : Inside (sampleAt "hub" (by decide) "hub-0" 0) := by simp [Inside, InInt64, hseq]
  generalize (Store.empty.insertRowCore edgePair.1).1 = store
  generalize sampleAt "hub" (by decide) "hub-0" 0 = legacy at *
  generalize edgePair = p at *
  generalize hubPair = q at *
  obtain ⟨store', first, second, hfirst, hsecond, hiff⟩ :=
    redelivery_iff (rowBreak plainDigest) store [legacy, q.2, p.2, q.1]
      (by simp [hedge.inside, hhub.inside, hinside]) none
  refine ⟨store', first, second, hfirst, hsecond, hiff.2 fun u hu hus _ _ r hr hrs _ hlt => ?_⟩
  -- the one unsealed row is the lowest
  have hlow : u.monotonicSeq = 0 := by
    simp only [rowsBeforeLocal, firstLocal, List.mem_cons, List.not_mem_nil, or_false] at hu
    rcases hu with rfl | rfl | rfl | rfl
    · exact hseq
    · exact absurd hhub.isSealed.2 (by simp [hus])
    · exact absurd hedge.isSealed.2 (by simp [hus])
    · exact absurd hhub.isSealed.1 (by simp [hus])
  simp only [rowsBeforeLocal, firstLocal, List.mem_cons, List.not_mem_nil, or_false] at hr
  have hseqs := hhub.seqs
  have hseqs' := hedge.seqs
  rcases hr with rfl | rfl | rfl | rfl <;> omega

/-! ## An unsealed copy of a row of the batch -/

section

variable {a u : AuditRow} (ha : a.isSealed = true) (hu : u.isSealed = false)
  (hnode : u.sourceNodeId = a.sourceNodeId) (hid : u.id = a.id)
  (hlt : a.monotonicSeq < u.monotonicSeq)

include hlt in
theorem sortBySeq_pair : sortBySeq [a, u] = [a, u] := by
  simp [sortBySeq, List.insertionSort, hlt.le]

include ha hnode hid in
/-- The sealed row is kept for both. -/
theorem eq_of_keptCopy_pair {r : AuditRow} (h : keptCopy [a, u] r.sourceNodeId r.id = some r) :
    r = a := by
  have hkept : keptCopy [a, u] a.sourceNodeId a.id = some a :=
    (keptCopy_sealed_iff ha).2 (by simp [ha])
  obtain ⟨hmem, -, -⟩ := mem_of_keptCopy h
  rcases List.mem_cons.1 hmem with rfl | hmem
  · rfl
  · rw [List.mem_singleton.1 hmem, hnode, hid] at h
    rw [List.mem_singleton.1 hmem]
    exact (Option.some.inj (hkept.symm.trans h)).symm

include ha hu hnode hid hlt in
/-- In an empty store both rows pass the checks. -/
theorem clearBelow_pair (hcheck : check a = none) (d : Int) :
    ClearBelow check Store.empty [a, u] d := by
  have hkept : ∀ node r, keptCopy [a, u] node r.id = some r → r = a := by
    intro node r h
    have hrnode := (mem_of_keptCopy h).2.1
    exact eq_of_keptCopy_pair ha hnode hid (hrnode.symm ▸ h)
  have hkeptSealed : ∀ {r}, KeptSealed [a, u] r → r = a := by
    intro r h
    refine hkept r.sourceNodeId r ?_
    have hk := h.1
    rwa [sortBySeq_pair hlt] at hk
  refine ⟨?_, fun _ _ _ _ => rfl, fun r r' hr hr' _ _ _ => ?_, fun r _ _ => agrees_empty r⟩
  · rw [sortBySeq_pair hlt]
    refine ⟨fun node => nodeOk_of_forall_eq (fun r hr => hkept node r hr.1) (fun _ => hcheck), ?_⟩
    intro row hrow hs k hk _
    have hrow' : row = a := by
      rcases List.mem_cons.1 hrow with rfl | hmem
      · rfl
      · rw [List.mem_singleton.1 hmem, hu] at hs
        exact absurd hs (by simp)
    have hkid := (mem_of_keptCopy hk).2.2
    rw [hkept _ k (by rw [hkid]; exact hk), hrow']
    exact ⟨rfl, hcheck⟩
  · rw [hkeptSealed hr, hkeptSealed hr']

end

/-- The first row of a chain with an unsealed copy above it is accepted once and rejected when it
    is delivered again. -/
theorem redelivery_rejects_more :
    ¬∀ (H : Sha256) (store : Store), Consistent H store →
      (∀ r ∈ store.rows, ∀ r' ∈ store.rows, r.sourceNodeId = r'.sourceNodeId →
        r.monotonicSeq = r'.monotonicSeq → r = r') →
      ∀ rows localNodeId, (store.afterIngest (rowBreak H) rows localNodeId).rejectedFromSeq
        (rowBreak H) rows localNodeId = store.rejectedFromSeq (rowBreak H) rows localNodeId := by
  intro h
  have hcheck : rowBreak plainDigest (firstRow "1") = none := rowBreak_sealRow _ _ _
  have hsealed : (firstRow "1").isSealed = true := sealRow_isSealed _ _ _
  have hseq : (firstRow "1").monotonicSeq = 1 := rfl
  generalize firstRow "1" = a at *
  have hex : ∃ u : AuditRow, u.isSealed = false ∧ u.sourceNodeId = a.sourceNodeId ∧ u.id = a.id ∧
      u.monotonicSeq = a.monotonicSeq + 1 :=
    ⟨{ a with hash := "", monotonicSeq := a.monotonicSeq + 1 }, rfl, rfl, rfl, rfl⟩
  obtain ⟨u, hu, hnode, hid, hnext⟩ := hex
  have hlt : a.monotonicSeq < u.monotonicSeq := by omega
  have hfits : ∀ store : Store, store.fits (rowBreak plainDigest) [a, u] = true := fun store =>
    fits_of_inside (by simp [Inside, InInt64, hnext, hseq])
  have hsame := h plainDigest Store.empty (consistent_empty _)
    (fun r hr => absurd hr List.not_mem_nil) [a, u] none
  have hgrown : Grown (rowBreak plainDigest) Store.empty [a, u]
      (Store.empty.afterIngest (rowBreak plainDigest) [a, u] none) :=
    ⟨Store.afterIngest_rows _ _ _ none (hfits _)⟩
  rw [Store.rejectedFromSeq_eq _ _ _ none (hfits _), Store.rejectedFromSeq_eq _ _ _ none (hfits _),
    or_local_inj rejected_lt_local rejected_lt_local,
    show rowsBeforeLocal none [a, u] = [a, u] from rfl, hgrown.rejected_eq_iff] at hsame
  obtain ⟨hbreak, hconflict⟩ :=
    clearBelow_iff.1 (clearBelow_pair hsealed hu hnode hid hlt hcheck (u.monotonicSeq + 1))
  obtain ⟨x, hx, -⟩ := hsame u (by simp) hu hbreak hconflict a (by simp) hsealed hnode.symm hlt
  exact absurd hx List.not_mem_nil

end Fasten
