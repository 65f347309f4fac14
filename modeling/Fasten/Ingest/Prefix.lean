import Fasten.Ingest.Consistent

set_option autoImplicit false

/-! # The verified prefix

`verified_prefix` hands the accepted part of a batch to the store. Its rows verify by themselves,
it leaves out no sealed row below the break, and the order of the batch does not matter: the sort
leaves only rows of one seq in the order they came in, and of two copies of one row that both
verify either may be kept, since the hash binds all that the walk looks at. -/

namespace Fasten

open Scan

variable {check : AuditRow → Option Reason} {rows rows' : List AuditRow}

/-! ## The prefix by itself -/

theorem distinct_verifiedPrefix (check : AuditRow → Option Reason) (rows : List AuditRow) :
    Distinct (verifiedPrefix check rows).1 := by
  intro r hr r' hr' hnode hid
  obtain ⟨⟨hkept, -⟩, -⟩ := mem_verifiedPrefix.1 hr
  obtain ⟨⟨hkept', -⟩, -⟩ := mem_verifiedPrefix.1 hr'
  rw [hnode, hid, hkept'] at hkept
  exact (Option.some.inj hkept).symm

/-- The sealed rows of a chain that verifies do so without the unsealed ones below them. -/
theorem NodeOk.sealed {rows : Set AuditRow} (h : NodeOk check rows) :
    NodeOk check {r | r ∈ rows ∧ r.isSealed = true} := by
  refine h.of_convex (fun r hr => hr.1) (fun r hr _ r' _ w hw hlt _ => ⟨hw, ?_⟩)
  by_contra hunsealed
  have := h.unsealedBelow w hw r hr.1 (by simpa using hunsealed) hr.2
  omega

theorem nodeOk_verifiedPrefix (node : String) :
    NodeOk check {r | r ∈ (verifiedPrefix check rows).1 ∧ r.sourceNodeId = node} := by
  refine nodeOk_of_forall_below (fun c => ?_)
  -- below the break of the batch, and below `c`, the kept rows verify
  have hok : NoneBelow (min c (((verifiedPrefix check rows).2.1).getD c))
      (batchBreak check rows) := by
    rw [noneBelow_iff_cut, ← verifiedPrefix_break]
    intro e he
    rw [Option.mem_def.1 he, Option.getD_some]
    exact min_le_right _ _
  have hset : {r | r ∈ {r | r ∈ (verifiedPrefix check rows).1 ∧ r.sourceNodeId = node}
        ∧ r.monotonicSeq < c}
      = {r | r ∈ {r | keptCopy (sortBySeq rows) node r.id = some r ∧
          r.monotonicSeq < min c (((verifiedPrefix check rows).2.1).getD c)}
        ∧ r.isSealed = true} := by
    ext r
    simp only [Set.mem_ofPred_eq, mem_verifiedPrefix, KeptSealed, BelowCut]
    constructor
    · rintro ⟨⟨⟨⟨hkept, hs⟩, hcut⟩, rfl⟩, hlt⟩
      refine ⟨⟨hkept, lt_min hlt ?_⟩, hs⟩
      cases hbreak : (verifiedPrefix check rows).2.1 with
      | none => exact hlt
      | some e => exact hcut e hbreak
    · rintro ⟨⟨hkept, hlt⟩, hs⟩
      obtain ⟨-, hnode, -⟩ := mem_of_keptCopy hkept
      obtain ⟨hltc, hltd⟩ := lt_min_iff.1 hlt
      refine ⟨⟨⟨⟨hnode ▸ hkept, hs⟩, fun e he => ?_⟩, hnode⟩, hltc⟩
      rwa [Option.mem_def.1 he, Option.getD_some] at hltd
  rw [hset]
  exact ((noneBelow_batchBreak_iff.1 hok).nodes node).sealed

/-- The prefix is a chain that verifies. -/
theorem rowsOk_verifiedPrefix : RowsOk check (verifiedPrefix check rows).1 :=
  (rowsOk_iff_of_distinct (distinct_verifiedPrefix check rows)).2 nodeOk_verifiedPrefix

/-- Of sorted rows, the kept copy is the lowest of its kind. -/
theorem keptCopy_le {node id : String} {k r : AuditRow}
    (hsorted : rows.Pairwise (fun a b => a.monotonicSeq ≤ b.monotonicSeq))
    (hk : keptCopy rows node id = some k) (hr : r ∈ copiesOf rows node id)
    (hkind : r.isSealed = k.isSealed) : k.monotonicSeq ≤ r.monotonicSeq := by
  have hcopies : (copiesOf rows node id).Pairwise (fun a b => a.monotonicSeq ≤ b.monotonicSeq) :=
    hsorted.sublist List.filter_sublist
  rw [keptCopy, Option.or_eq_some_iff] at hk
  rcases hk with hfind | ⟨-, hhead⟩
  · obtain ⟨hks, pre, post, hsplit, hpre⟩ := List.find?_eq_some_iff_append.1 hfind
    rw [hsplit] at hcopies hr
    rcases List.mem_append.1 hr with hr | hr
    · have hunsealed : r.isSealed = false := by simpa using hpre r hr
      rw [hkind, hks] at hunsealed
      exact absurd hunsealed (by simp)
    · rcases List.mem_cons.1 hr with rfl | hr
      · exact le_rfl
      · exact (List.pairwise_cons.1 (List.pairwise_append.1 hcopies).2.1).1 r hr
  · obtain ⟨tail, hsplit⟩ := List.head?_eq_some_iff.1 hhead
    rw [hsplit] at hcopies hr
    rcases List.mem_cons.1 hr with rfl | hr
    · exact le_rfl
    · exact (List.pairwise_cons.1 hcopies).1 r hr

/-- Every sealed row below the break is there, in one of its copies. -/
theorem mem_copyKey_verifiedPrefix {key : String × String × String} :
    key ∈ (verifiedPrefix check rows).1.map copyKey ↔
      ∃ r ∈ rows, r.isSealed = true ∧ BelowCut (verifiedPrefix check rows).2.1 r.monotonicSeq ∧
        copyKey r = key := by
  rw [List.mem_map]
  constructor
  · rintro ⟨p, hp, rfl⟩
    obtain ⟨hkept, hcut⟩ := mem_verifiedPrefix.1 hp
    exact ⟨p, hkept.mem, hkept.2, hcut, rfl⟩
  · rintro ⟨r, hr, hs, hcut, rfl⟩
    -- the copy that is kept is not above this one, and has its hash
    have hmem := (perm_sortBySeq rows).mem_iff.2 hr
    obtain ⟨k, hk, hks⟩ := exists_keptCopy hmem
    obtain ⟨-, hnode, hid⟩ := mem_of_keptCopy hk
    have hle : k.monotonicSeq ≤ r.monotonicSeq :=
      keptCopy_le (pairwise_sortBySeq rows) hk (mem_copiesOf.2 ⟨hmem, rfl, rfl⟩)
        (hs.trans (hks hs).symm)
    have hhash := ((rowsOkBelow_of_belowCut hcut).copies r hmem hs k hk (by omega)).1
    refine ⟨k, mem_verifiedPrefix.2 ⟨⟨by rw [hnode, hid]; exact hk, hks hs⟩, ?_⟩, ?_⟩
    · exact fun e he => lt_of_le_of_lt hle (hcut e he)
    · rw [copyKey, copyKey, hnode, hid, hhash]

/-! ## The order of the batch -/

/-- What the receiver records of a row: `(id, source_node_id, monotonic_seq, hash)`. -/
def placeOf (r : AuditRow) : String × String × Int × String :=
  (r.id, r.sourceNodeId, r.monotonicSeq, r.hash)

/-- The same row, as far as the walk looks at it. -/
structure SameLink (a b : AuditRow) : Prop where
  id : a.id = b.id
  sourceNodeId : a.sourceNodeId = b.sourceNodeId
  monotonicSeq : a.monotonicSeq = b.monotonicSeq
  isSealed : a.isSealed = b.isSealed
  hash : a.isSealed = true → a.hash = b.hash
  prevHash : a.isSealed = true → a.prevHash = b.prevHash

/-- A chain verifies in other copies of its rows, if those pass the check. -/
theorem NodeOk.of_sameLink {rows rows' : Set AuditRow} (h : NodeOk check rows)
    (hsame : ∀ r' ∈ rows', ∃ r ∈ rows, SameLink r r')
    (hback : ∀ r ∈ rows, ∃ r' ∈ rows', SameLink r r')
    (hcheck : ∀ r' ∈ rows', r'.isSealed = true → check r' = none) : NodeOk check rows' where
  checked := hcheck
  unique := by
    intro a' ha' b' hb' has hbs hseq
    obtain ⟨a, ha, hasame⟩ := hsame a' ha'
    obtain ⟨b, hb, hbsame⟩ := hsame b' hb'
    rw [← hasame.id, ← hbsame.id]
    refine h.unique a ha b hb (hasame.isSealed.trans has) (hbsame.isSealed.trans hbs) ?_
    rw [hasame.monotonicSeq, hbsame.monotonicSeq, hseq]
  unsealedBelow := by
    intro u' hu' r' hr' hus hrs
    obtain ⟨u, hu, husame⟩ := hsame u' hu'
    obtain ⟨r, hr, hrsame⟩ := hsame r' hr'
    rw [← husame.monotonicSeq, ← hrsame.monotonicSeq]
    exact h.unsealedBelow u hu r hr (husame.isSealed.trans hus) (hrsame.isSealed.trans hrs)
  linked := by
    intro a' ha' b' hb' has hbs hlt hbetween
    obtain ⟨a, ha, hasame⟩ := hsame a' ha'
    obtain ⟨b, hb, hbsame⟩ := hsame b' hb'
    have hasealed := hasame.isSealed.trans has
    have hbsealed := hbsame.isSealed.trans hbs
    rw [← hasame.monotonicSeq, ← hbsame.monotonicSeq] at hlt hbetween
    rw [← hasame.hash hasealed, ← hbsame.prevHash hbsealed]
    refine h.linked a ha b hb hasealed hbsealed hlt (fun w hw hwlt => ?_)
    obtain ⟨w', hw', hwsame⟩ := hback w hw
    exact hbetween w' hw' (hwsame.monotonicSeq ▸ hwlt)
  genesis := by
    intro u' hu' r' hr' hus hrs hseq
    obtain ⟨u, hu, husame⟩ := hsame u' hu'
    obtain ⟨r, hr, hrsame⟩ := hsame r' hr'
    have hrsealed := hrsame.isSealed.trans hrs
    rw [← husame.monotonicSeq, ← hrsame.monotonicSeq] at hseq
    rw [← hrsame.prevHash hrsealed]
    exact h.genesis u hu r hr (husame.isSealed.trans hus) hrsealed hseq

/-- In any order of the batch the kept copies of a row have one seq, and all are sealed or none. -/
theorem exists_keptCopy_perm (hperm : rows.Perm rows') {node id : String} {k : AuditRow}
    (hk : keptCopy (sortBySeq rows) node id = some k) :
    ∃ k', keptCopy (sortBySeq rows') node id = some k' ∧ k.isSealed = k'.isSealed ∧
      k.monotonicSeq = k'.monotonicSeq := by
  have hsorted : (sortBySeq rows).Perm (sortBySeq rows') :=
    (perm_sortBySeq rows).trans (hperm.trans (perm_sortBySeq rows').symm)
  have hmem := mem_of_keptCopy hk
  obtain ⟨hkr, rfl, rfl⟩ := hmem
  obtain ⟨k', hk', hs'⟩ := exists_keptCopy (hsorted.mem_iff.1 hkr)
  obtain ⟨hkr', hnode', hid'⟩ := mem_of_keptCopy hk'
  obtain ⟨k'', hk'', hs''⟩ := exists_keptCopy (hsorted.mem_iff.2 hkr')
  rw [hnode', hid', hk, Option.some.injEq] at hk''
  subst hk''
  have hsealed : k.isSealed = k'.isSealed := Bool.eq_iff_iff.2 ⟨hs', hs''⟩
  refine ⟨k', hk', hsealed, le_antisymm ?_ ?_⟩
  · refine keptCopy_le (pairwise_sortBySeq rows) hk (mem_copiesOf.2 ⟨?_, hnode', hid'⟩) hsealed.symm
    exact hsorted.mem_iff.2 hkr'
  · refine keptCopy_le (pairwise_sortBySeq rows') hk' (mem_copiesOf.2 ⟨?_, rfl, rfl⟩) hsealed
    exact hsorted.mem_iff.1 hkr

section

variable {H : Sha256} (hH : Function.Injective H.hexdigest)

include hH

/-- Where the batch verifies, another order keeps a copy that links in the same way. -/
theorem RowsOkBelow.exists_sameLink {c : Int}
    (hok : RowsOkBelow (rowBreak H) c (sortBySeq rows)) (hperm : rows.Perm rows')
    {node id : String} {k : AuditRow} (hk : keptCopy (sortBySeq rows) node id = some k)
    (hlt : k.monotonicSeq < c) :
    ∃ k', keptCopy (sortBySeq rows') node id = some k' ∧ SameLink k k' ∧
      (k'.isSealed = true → rowBreak H k' = none) := by
  obtain ⟨k', hk', hsealed, hseq⟩ := exists_keptCopy_perm hperm hk
  obtain ⟨hkr, rfl, rfl⟩ := mem_of_keptCopy hk
  obtain ⟨hkr', hnode', hid'⟩ := mem_of_keptCopy hk'
  have hmem' : k' ∈ sortBySeq rows := by
    rw [(perm_sortBySeq rows).mem_iff, hperm.mem_iff, ← (perm_sortBySeq rows').mem_iff]
    exact hkr'
  have hkk' : keptCopy (sortBySeq rows) k'.sourceNodeId k'.id = some k := by
    rw [hnode', hid']
    exact hk
  have hbound : min k'.monotonicSeq k.monotonicSeq < c := lt_of_le_of_lt (min_le_right _ _) hlt
  -- both are sealed copies of one hash that pass the check, so that hash binds them
  have hboth : k.isSealed = true →
      (k'.hash = k.hash ∧ rowBreak H k' = none) ∧ AgreeHashed k k' := by
    intro hs
    have hother := hok.copies k' hmem' (hsealed ▸ hs) k hkk' hbound
    have hself := hok.copies k hkr hs k hk (lt_of_le_of_lt (min_le_right _ _) hlt)
    exact ⟨hother, agreeHashed_of_hash_eq hH hself.2 hother.2 hother.1.symm⟩
  refine ⟨k', hk', ⟨hid'.symm, hnode'.symm, hseq, hsealed, fun hs => (hboth hs).1.1.symm,
    fun hs => (hboth hs).2.prevHash⟩, fun hs => (hboth (hsealed.trans hs)).1.2⟩

theorem RowsOkBelow.perm {c : Int} (hok : RowsOkBelow (rowBreak H) c (sortBySeq rows))
    (hperm : rows.Perm rows') : RowsOkBelow (rowBreak H) c (sortBySeq rows') := by
  refine ⟨fun node => ?_, fun row hrow hs k' hk' hbound => ?_⟩
  · have hback : ∀ r, keptCopy (sortBySeq rows') node r.id = some r → r.monotonicSeq < c →
        ∃ k, keptCopy (sortBySeq rows) node k.id = some k ∧ k.monotonicSeq < c ∧
          SameLink k r ∧ (r.isSealed = true → rowBreak H r = none) := by
      intro r hr hlt
      obtain ⟨k, hk, hsealed, hseq⟩ := exists_keptCopy_perm hperm.symm hr
      have hklt : k.monotonicSeq < c := hseq ▸ hlt
      obtain ⟨r', hr', hsame, hcheck⟩ := hok.exists_sameLink hH hperm hk hklt
      rw [hr, Option.some.injEq] at hr'
      subst hr'
      exact ⟨k, hsame.id ▸ hk, hklt, hsame, hcheck⟩
    refine (hok.nodes node).of_sameLink ?_ ?_ ?_
    · rintro r ⟨hr, hlt⟩
      obtain ⟨k, hk, hklt, hsame, -⟩ := hback r hr hlt
      exact ⟨k, ⟨hk, hklt⟩, hsame⟩
    · rintro k ⟨hk, hlt⟩
      obtain ⟨r, hr, hsame, -⟩ := hok.exists_sameLink hH hperm hk hlt
      exact ⟨r, ⟨hsame.id ▸ hr, hsame.monotonicSeq ▸ hlt⟩, hsame⟩
    · rintro r ⟨hr, hlt⟩ hs
      obtain ⟨-, -, -, -, hcheck⟩ := hback r hr hlt
      exact hcheck hs
  · obtain ⟨k, hk, hsealed, hseq⟩ := exists_keptCopy_perm hperm.symm hk'
    have hmem : row ∈ sortBySeq rows := by
      rw [(perm_sortBySeq rows).mem_iff, hperm.mem_iff, ← (perm_sortBySeq rows').mem_iff]
      exact hrow
    have hcopy := hok.copies row hmem hs k hk (hseq ▸ hbound)
    obtain ⟨k'', hk'', hks⟩ := exists_keptCopy hrow
    rw [hk', Option.some.injEq] at hk''
    subst hk''
    -- the kept copy is the lowest of the sealed ones
    have hle : k.monotonicSeq ≤ row.monotonicSeq :=
      keptCopy_le (pairwise_sortBySeq rows) hk (mem_copiesOf.2 ⟨hmem, rfl, rfl⟩)
        (by rw [hs, ← hsealed, hks hs])
    obtain ⟨r', hr', hsame, -⟩ := hok.exists_sameLink hH hperm hk (by omega)
    rw [hk', Option.some.injEq] at hr'
    subst hr'
    exact ⟨hcopy.1.trans (hsame.hash (by rw [← hsealed, hks hs])), hcopy.2⟩

theorem verifiedPrefix_break_perm (hperm : rows.Perm rows') :
    (verifiedPrefix (rowBreak H) rows).2.1 = (verifiedPrefix (rowBreak H) rows').2.1 := by
  rw [verifiedPrefix_break, verifiedPrefix_break]
  refine map_fst_eq_of_noneBelow_iff (fun c => ?_)
  rw [noneBelow_batchBreak_iff, noneBelow_batchBreak_iff]
  exact ⟨fun h => h.perm hH hperm, fun h => h.perm hH hperm.symm⟩

theorem mem_place_verifiedPrefix_of_perm (hperm : rows.Perm rows')
    {place : String × String × Int × String}
    (h : place ∈ (verifiedPrefix (rowBreak H) rows).1.map placeOf) :
    place ∈ (verifiedPrefix (rowBreak H) rows').1.map placeOf := by
  obtain ⟨p, hp, rfl⟩ := List.mem_map.1 h
  obtain ⟨⟨hkept, hs⟩, hcut⟩ := mem_verifiedPrefix.1 hp
  obtain ⟨p', hp', hsame, -⟩ :=
    (rowsOkBelow_of_belowCut hcut).exists_sameLink hH hperm hkept (by omega)
  refine List.mem_map.2 ⟨p', mem_verifiedPrefix.2 ⟨⟨?_, hsame.isSealed ▸ hs⟩, ?_⟩, ?_⟩
  · rw [← hsame.sourceNodeId, ← hsame.id]
    exact hp'
  · rw [← verifiedPrefix_break_perm hH hperm, ← hsame.monotonicSeq]
    exact hcut
  · rw [placeOf, placeOf, hsame.id, hsame.sourceNodeId, hsame.monotonicSeq, hsame.hash hs]

/-- **What `verified_prefix` returns.** The prefix verifies; it holds each sealed row of the batch
    below the break once, and nothing else; and in every order of the batch the break is at one seq
    and the prefix has the same rows. -/
theorem verifiedPrefix_correct (rows : List AuditRow) :
    (verifyChain (rowBreak H) (verifiedPrefix (rowBreak H) rows).1 [] false).ok = true
      ∧ (∀ p ∈ (verifiedPrefix (rowBreak H) rows).1, p ∈ rows)
      ∧ ((verifiedPrefix (rowBreak H) rows).1.map copyKey).Nodup
      ∧ (∀ key, key ∈ (verifiedPrefix (rowBreak H) rows).1.map copyKey ↔
        ∃ r ∈ rows, r.isSealed = true ∧
          BelowCut (verifiedPrefix (rowBreak H) rows).2.1 r.monotonicSeq ∧ copyKey r = key)
      ∧ ∀ rows', rows.Perm rows' →
        (verifiedPrefix (rowBreak H) rows').2.1 = (verifiedPrefix (rowBreak H) rows).2.1
          ∧ ∀ place, place ∈ (verifiedPrefix (rowBreak H) rows').1.map placeOf ↔
            place ∈ (verifiedPrefix (rowBreak H) rows).1.map placeOf := by
  refine ⟨verifyChain_rows_ok_iff.2 rowsOk_verifiedPrefix, fun p hp => ?_, ?_,
    fun key => mem_copyKey_verifiedPrefix, fun rows' hperm => ⟨?_, fun place => ⟨?_, ?_⟩⟩⟩
  · exact (mem_verifiedPrefix.1 hp).1.mem
  · rw [verifiedPrefix_rows]
    exact List.pairwise_map.2 (pairwise_distinctSealed _ _)
  · exact verifiedPrefix_break_perm hH hperm.symm
  · exact mem_place_verifiedPrefix_of_perm hH hperm.symm
  · exact mem_place_verifiedPrefix_of_perm hH hperm

end

/-- A row delivered twice around an unsealed one, in two orders. -/
theorem verifiedPrefix_correct_delivered :
    (verifyChain (rowBreak plainDigest) (verifiedPrefix (rowBreak plainDigest)
        [firstRow "1", AuditRow.sample "evt-0" 0, firstRow "1"]).1 [] false).ok = true
      ∧ (verifiedPrefix (rowBreak plainDigest)
          [AuditRow.sample "evt-0" 0, firstRow "1", firstRow "1"]).2.1
        = (verifiedPrefix (rowBreak plainDigest)
          [firstRow "1", AuditRow.sample "evt-0" 0, firstRow "1"]).2.1 := by
  obtain ⟨hok, -, -, -, hperm⟩ := verifiedPrefix_correct plainDigest_injective
    [firstRow "1", AuditRow.sample "evt-0" 0, firstRow "1"]
  exact ⟨hok, (hperm _ (List.Perm.swap _ _ _)).1⟩

end Fasten
