import Fasten.Ingest.Consistent
import Fasten.Ingest.Links

set_option autoImplicit false

/-! # Replication converges

The chains of any number of nodes are delivered to an empty aggregator in batches, in any order and
any number of times (spec §4). Every ingest accepts its batch, and the aggregator ends up with the
sealed rows of the chains, as far as its columns can hold them. -/

namespace Fasten

variable {H : Sha256}

/-! ## Chains of the origin nodes -/

/-- The hash the next row links to. -/
def lastHash (rows : List AuditRow) : String :=
  match tipOf rows with
  | some tip => tip.hash
  | none => "genesis"

/-- The rows of a node: those from before the chain existed, then rows sealed one after the other,
    each numbered above the rows before it. -/
inductive Chained (H : Sha256) (node : String) : List AuditRow → Prop
  | unsealed {rows : List AuditRow}
      (h : ∀ r ∈ rows, r.sourceNodeId = node ∧ r.isSealed = false) : Chained H node rows
  | sealNext {rows : List AuditRow} (h : Chained H node rows) (token : Token) (row : AuditRow)
      (hnode : row.sourceNodeId = node) (hseq : ∀ r ∈ rows, r.monotonicSeq < row.monotonicSeq) :
      Chained H node (rows ++ [sealRow H token (lastHash rows) row])

/-- The chains of all nodes. Row ids are unique among them, and the aggregator can look up every
    seq and the two next to it. -/
structure Origins (H : Sha256) where
  chain : String → List AuditRow
  chained : ∀ node, Chained H node (chain node)
  inside : ∀ node, ∀ r ∈ chain node, Inside r
  ids : ∀ node, ∀ r ∈ chain node, ∀ node', ∀ r' ∈ chain node', r.id = r'.id → r = r'

variable {r : AuditRow}

section

variable {node : String} {rows : List AuditRow}

theorem Chained.sourceNodeId_eq (h : Chained H node rows) : ∀ r ∈ rows, r.sourceNodeId = node := by
  induction h with
  | unsealed h => exact fun r hr => (h r hr).1
  | sealNext h token row hnode hseq ih =>
    intro r hr
    rcases List.mem_append.1 hr with hr | hr
    · exact ih r hr
    · rw [List.mem_singleton.1 hr]
      exact hnode

/-- A sealed row has its seq for itself. -/
theorem Chained.places (h : Chained H node rows) : ∀ r ∈ rows, ∀ r' ∈ rows, r.isSealed = true →
    r.monotonicSeq = r'.monotonicSeq → r = r' := by
  induction h with
  | unsealed h =>
    intro r hr _ _ hs
    rw [(h r hr).2] at hs
    exact absurd hs (by simp)
  | sealNext h token row hnode hseq ih =>
    intro r hr r' hr' hs heq
    rcases List.mem_append.1 hr with hr | hr
    · rcases List.mem_append.1 hr' with hr' | hr'
      · exact ih r hr r' hr' hs heq
      · rw [List.mem_singleton.1 hr', sealRow_monotonicSeq] at heq
        have := hseq r hr
        omega
    · rcases List.mem_append.1 hr' with hr' | hr'
      · rw [List.mem_singleton.1 hr, sealRow_monotonicSeq] at heq
        have := hseq r' hr'
        omega
      · rw [List.mem_singleton.1 hr, List.mem_singleton.1 hr']

/-- The last sealed row gives the hash to link to. -/
theorem Chained.lastHash_eq (h : Chained H node rows) (hr : r ∈ rows) (hs : r.isSealed = true)
    (htop : ∀ w ∈ rows, w.monotonicSeq ≤ r.monotonicSeq) : lastHash rows = r.hash := by
  have htip := isTip_tipOf rows
  unfold lastHash
  cases hfound : tipOf rows with
  | none =>
    rw [hfound] at htip
    rw [htip r hr] at hs
    exact absurd hs (by simp)
  | some tip =>
    rw [hfound] at htip
    obtain ⟨⟨hmem, htips⟩, hmax⟩ := htip
    have hle := htop tip hmem
    have hge := hmax r hr hs
    rw [h.places tip hmem r hr htips (by omega)]

theorem lastHash_of_unsealed (h : ∀ r ∈ rows, r.isSealed = false) : lastHash rows = "genesis" := by
  have htip := isTip_tipOf rows
  unfold lastHash
  cases hfound : tipOf rows with
  | none => rfl
  | some tip =>
    rw [hfound] at htip
    exact absurd htip.1.2 (by simp [h tip htip.1.1])

/-- **A sealed chain verifies.** -/
theorem Chained.nodeOk (h : Chained H node rows) : NodeOk (rowBreak H) {r | r ∈ rows} := by
  induction h with
  | unsealed h =>
    exact nodeOk_of_unsealed fun r hr => AuditRow.isSealed_eq_false_iff.1 (h r hr).2
  | @sealNext rows h token row hnode hseq ih =>
    have hset : {r | r ∈ rows ++ [sealRow H token (lastHash rows) row]}
        = insert (sealRow H token (lastHash rows) row) {r | r ∈ rows} := by
      ext r
      simp [or_comm]
    rw [hset]
    exact ih.insert_top (sealRow_isSealed _ _ _) (rowBreak_sealRow _ _ _) hseq
      (fun r hr hs htop => h.lastHash_eq hr hs htop) lastHash_of_unsealed

/-- Every sealed row is one that `seal` returned. -/
theorem Chained.exists_sealRow (h : Chained H node rows) (hr : r ∈ rows) (hs : r.isSealed = true) :
    ∃ token prevHash row, r = sealRow H token prevHash row := by
  induction h with
  | unsealed h =>
    rw [(h r hr).2] at hs
    exact absurd hs (by simp)
  | sealNext h token row hnode hseq ih =>
    rcases List.mem_append.1 hr with hr | hr
    · exact ih hr
    · exact ⟨token, _, row, List.mem_singleton.1 hr⟩

end

/-! ## The rows of all chains -/

namespace Origins

variable (o : Origins H)

/-- Some chain has the row. -/
def Has (r : AuditRow) : Prop := ∃ node, r ∈ o.chain node

def known : Set Link := {l | ∃ r, o.Has r ∧ r.isSealed = true ∧ r.link = l}

variable {o}

theorem Has.mem (h : o.Has r) : r ∈ o.chain r.sourceNodeId := by
  obtain ⟨node, hr⟩ := h
  rw [(o.chained node).sourceNodeId_eq r hr]
  exact hr

theorem Has.mem_of_node (h : o.Has r) {node : String} (hnode : r.sourceNodeId = node) :
    r ∈ o.chain node :=
  hnode ▸ h.mem

theorem Has.eq_of_id {r' : AuditRow} (h : o.Has r) (h' : o.Has r') (hid : r.id = r'.id) : r = r' :=
  o.ids _ r h.mem _ r' h'.mem hid

theorem linked_known : Linked o.known := by
  refine ⟨?_, ?_, ?_, ?_⟩
  · rintro _ ⟨r, hr, -, rfl⟩ _ ⟨r', hr', -, rfl⟩ hid
    rw [hr.eq_of_id hr' hid]
  · rintro _ ⟨r, hr, hs, rfl⟩ _ ⟨r', hr', -, rfl⟩ hnode hseq
    rw [(o.chained _).places r hr.mem r' (hr'.mem_of_node hnode.symm) hs hseq]
  · rintro _ ⟨r, hr, hs, rfl⟩ _ ⟨r', hr', hs', rfl⟩ hnode hseq
    have hseq' : r'.monotonicSeq = r.monotonicSeq + 1 := hseq
    refine (o.chained r.sourceNodeId).nodeOk.linked r hr.mem r' (hr'.mem_of_node hnode.symm) hs hs'
      (by omega) ?_
    intro w _
    omega
  · rintro _ ⟨r, -, hs, rfl⟩
    exact AuditRow.isSealed_iff.1 hs

theorem unsealed_lt_known {u : AuditRow} (hu : o.Has u) (hs : u.isSealed = false) {l : Link}
    (hl : l ∈ o.known) (hnode : l.node = u.sourceNodeId) : u.monotonicSeq < l.seq := by
  obtain ⟨r, hr, hrs, rfl⟩ := hl
  exact (o.chained u.sourceNodeId).nodeOk.unsealedBelow u hu.mem r (hr.mem_of_node hnode) hs hrs

/-! ## Batches -/

variable (o) in
/-- The rows of the batch are one contiguous seq run of each chain, in any order. -/
def IsBatch (rows : List AuditRow) : Prop :=
  ∃ lo hi : String → Int, ∀ r, r ∈ rows ↔
    o.Has r ∧ lo r.sourceNodeId ≤ r.monotonicSeq ∧ r.monotonicSeq ≤ hi r.sourceNodeId

variable {rows : List AuditRow} (hbatch : o.IsBatch rows)

include hbatch

theorem IsBatch.has (hr : r ∈ rows) : o.Has r := by
  obtain ⟨lo, hi, hrows⟩ := hbatch
  exact ((hrows r).1 hr).1

theorem IsBatch.distinct : Distinct rows := fun _ hr _ hr' _ hid =>
  (hbatch.has hr).eq_of_id (hbatch.has hr') hid

/-- **A batch verifies.** -/
theorem IsBatch.rowsOk : RowsOk (rowBreak H) rows := by
  rw [rowsOk_iff_of_distinct hbatch.distinct]
  obtain ⟨lo, hi, hrows⟩ := hbatch
  intro node
  refine (o.chained node).nodeOk.of_convex ?_ ?_
  · rintro r ⟨hr, rfl⟩
    exact ((hrows r).1 hr).1.mem
  · rintro r ⟨hr, hnode⟩ _ r' ⟨hr', hnode'⟩ w hw hlow hhigh
    have hwnode : w.sourceNodeId = node := (o.chained node).sourceNodeId_eq w hw
    refine ⟨(hrows w).2 ⟨⟨node, hw⟩, ?_, ?_⟩, hwnode⟩
    · have := ((hrows r).1 hr).2.1
      rw [hnode] at this
      rw [hwnode]
      omega
    · have := ((hrows r').1 hr').2.2
      rw [hnode'] at this
      rw [hwnode]
      omega

theorem IsBatch.rowsOk_sorted : RowsOk (rowBreak H) (sortBySeq rows) := by
  obtain ⟨lo, hi, hrows⟩ := hbatch
  exact IsBatch.rowsOk ⟨lo, hi, fun r => (perm_sortBySeq rows).mem_iff.trans (hrows r)⟩

theorem IsBatch.keptSealed (hr : r ∈ rows) (hs : r.isSealed = true) : KeptSealed rows r := by
  have hdistinct : Distinct (sortBySeq rows) := fun a ha b hb =>
    hbatch.distinct a ((perm_sortBySeq rows).mem_iff.1 ha) b ((perm_sortBySeq rows).mem_iff.1 hb)
  exact ⟨(keptCopy_eq_some_iff hdistinct).2 ⟨(perm_sortBySeq rows).mem_iff.2 hr, rfl⟩, hs⟩

omit hbatch

/-! ## Deliveries -/

variable (o) in
/-- The aggregator holds rows of the chains only, each one sealed. -/
def Holds (store : Store) : Prop :=
  ∀ x ∈ store.rows, ∃ r, o.Has r ∧ r.isSealed = true ∧ r.stored = x

variable {store : Store} (hholds : o.Holds store)

include hholds

theorem Holds.link_mem : ∀ x ∈ store.rows, x.link ∈ o.known := by
  intro x hx
  obtain ⟨r, hr, hs, rfl⟩ := hholds x hx
  exact ⟨r, hr, hs, rfl⟩

include hbatch in
/-- **A batch is accepted whole**, whatever part of the chains is stored. -/
theorem Holds.clearBelow (d : Int) : ClearBelow (rowBreak H) store rows d := by
  have hlinks : ∀ r ∈ rows, r.isSealed = true → r.link ∈ o.known := fun r hr hs =>
    ⟨r, hbatch.has hr, hs, rfl⟩
  refine ⟨hbatch.rowsOk_sorted d, fun u hu hs _ => ?_, fun r r' hr hr' _ _ => ?_, fun r hr _ => ?_⟩
  · exact sealedBelow_of_links hholds.link_mem
      (fun l hl hnode => (unsealed_lt_known (hbatch.has hu) hs hl hnode).le)
  · exact linked_known.ids_kept hlinks hr hr'
  · exact linked_known.agrees hholds.link_mem (hlinks r hr.mem hr.2)

omit hholds

variable {localNodeId : Option String} (hlocal : ∀ node ∈ localNodeId, o.chain node = [])

include hbatch hlocal in
/-- No row is from the aggregator's own node. -/
theorem IsBatch.firstLocal_eq_none : firstLocal localNodeId rows = none := by
  cases localNodeId with
  | none => rfl
  | some node =>
    have hnil : rows.filter (·.sourceNodeId == node) = [] := by
      rw [List.filter_eq_nil_iff]
      intro r hr hnode
      have hmem := (hbatch.has hr).mem
      rw [beq_iff_eq.1 hnode, hlocal node rfl] at hmem
      exact List.not_mem_nil hmem
    simp only [firstLocal, hnil]
    split_ifs <;> rfl

include hbatch hlocal in
theorem IsBatch.rowsBeforeLocal_eq : rowsBeforeLocal localNodeId rows = rows := by
  rw [rowsBeforeLocal, hbatch.firstLocal_eq_none hlocal]

variable (H localNodeId) in
/-- The aggregator's store after one delivery. -/
def deliver (store : Store) (rows : List AuditRow) : Store :=
  store.afterIngest (rowBreak H) rows localNodeId

/-- What one delivery does. -/
structure Delivered (o : Origins H) (localNodeId : Option String) (store : Store)
    (rows : List AuditRow) (store' : Store) : Prop where
  accepted : store.rejectedFromSeq (rowBreak H) rows localNodeId = none
  holds : o.Holds store'
  keeps : ∀ x ∈ store.rows, x ∈ store'.rows
  stores : ∀ r ∈ rows, r.isSealed = true → r.stored ∈ store'.rows

include hbatch hlocal hholds in
/-- **One delivery.** -/
theorem Holds.deliver : Delivered o localNodeId store rows (deliver H localNodeId store rows) := by
  have hclear := hholds.clearBelow hbatch
  have hfits : store.fits (rowBreak H) rows = true :=
    fits_of_inside (fun r hr => o.inside _ r (hbatch.has hr).mem)
  have hlocal_eq := hbatch.rowsBeforeLocal_eq hlocal
  have hmem : ∀ {x}, x ∈ (Origins.deliver H localNodeId store rows).rows ↔
      x ∈ store.rows ∨ ∃ p ∈ store.toInsert (rowBreak H) rows, p.stored = x := by
    intro x
    rw [Origins.deliver, mem_afterIngest (by rwa [hlocal_eq]), hlocal_eq]
  refine ⟨?_, fun x hx => ?_, fun x hx => hmem.2 (Or.inl hx), fun r hr hs => ?_⟩
  · rw [Store.rejectedFromSeq_eq _ _ _ _ (by rwa [hlocal_eq]), hlocal_eq,
      hbatch.firstLocal_eq_none hlocal]
    cases hcut : (store.checkedPrefix (rowBreak H) rows).2.1 with
    | none => rfl
    | some e =>
      have := le_rejected_iff.2 (hclear (e + 1)) e hcut
      omega
  · rcases hmem.1 hx with hx | ⟨p, hp, rfl⟩
    · exact hholds x hx
    · have hkept := (mem_toInsert.1 hp).1
      exact ⟨p, hbatch.has hkept.mem, hkept.2, rfl⟩
  · rw [hmem]
    by_cases hstored : ∃ x ∈ store.rows, x.id = r.id
    · -- it was delivered before
      obtain ⟨x, hx, hid⟩ := hstored
      obtain ⟨r', hr', -, rfl⟩ := hholds x hx
      rw [hr'.eq_of_id (hbatch.has hr) hid] at hx
      exact Or.inl hx
    · refine Or.inr ⟨r, mem_toInsert.2 ⟨hbatch.keptSealed hr hs, hclear _, fun x hx hid => ?_⟩, rfl⟩
      exact hstored ⟨x, hx, hid⟩

include hlocal in
/-- **Every delivery.** -/
theorem Holds.run (deliveries : List (List AuditRow)) (hall : ∀ b ∈ deliveries, o.IsBatch b)
    (hholds : o.Holds store) :
    Run.AllAlong (Origins.deliver H localNodeId)
      (fun s b => s.rejectedFromSeq (rowBreak H) b localNodeId = none) store deliveries ∧
    o.Holds (deliveries.foldl (Origins.deliver H localNodeId) store) ∧
    (∀ x ∈ store.rows, x ∈ (deliveries.foldl (Origins.deliver H localNodeId) store).rows) ∧
    ∀ b ∈ deliveries, ∀ r ∈ b, r.isSealed = true →
      r.stored ∈ (deliveries.foldl (Origins.deliver H localNodeId) store).rows := by
  induction deliveries generalizing store with
  | nil => exact ⟨trivial, hholds, fun x hx => hx, by simp⟩
  | cons b rest ih =>
    have hstep := hholds.deliver (hall b List.mem_cons_self) hlocal
    obtain ⟨hacc, hend, hkeeps, hstores⟩ :=
      ih (fun b' hb' => hall b' (List.mem_cons_of_mem _ hb')) hstep.holds
    refine ⟨⟨hstep.accepted, hacc⟩, hend, fun x hx => hkeeps x (hstep.keeps x hx), ?_⟩
    intro b' hb' r hr hs
    rcases List.mem_cons.1 hb' with rfl | hb'
    · exact hkeeps _ (hstep.stores r hr hs)
    · exact hstores b' hb' r hr hs

/-- What `seal` returned is read back as it was, when the wire version is. -/
theorem Has.stored_eq (h : o.Has r) (hs : r.isSealed = true) (hwire : r.wireVersion = "1") :
    r.stored = r := by
  obtain ⟨token, prevHash, row, rfl⟩ := (o.chained _).exists_sealRow h.mem hs
  exact stored_sealRow hwire

/-- A store that holds the sealed rows of the chains verifies. -/
theorem verifyChain_of_mem_iff (hrows : ∀ x, x ∈ store.rows ↔ o.Has x ∧ x.isSealed = true) :
    (verifyChain (rowBreak H) store.rows [] false).ok = true := by
  rw [verifyChain_rows_ok_iff, rowsOk_iff_of_distinct store.distinct]
  intro node
  refine (o.chained node).nodeOk.of_convex ?_ ?_
  · rintro r ⟨hr, rfl⟩
    exact ((hrows r).1 hr).1.mem
  · rintro r ⟨hr, hnode⟩ hs r' - w hw hlow -
    refine ⟨(hrows w).2 ⟨⟨node, hw⟩, ?_⟩, (o.chained node).sourceNodeId_eq w hw⟩
    -- a row above a sealed one is sealed
    by_contra hws
    have hrmem : r ∈ o.chain node := hnode ▸ ((hrows r).1 hr).1.mem
    have := (o.chained node).nodeOk.unsealedBelow w hw r hrmem (by simpa using hws) hs
    omega

end Origins

theorem Store.wireVersion_eq (store : Store) {x : AuditRow} (hx : x ∈ store.rows) :
    x.wireVersion = "1" :=
  (congrArg AuditRow.wireVersion (store.columns x hx)).symm

/-! ## The result -/

/-- **Replication converges.** However the chains are cut into batches and whatever the order and
    the repeats in which the batches are delivered to an empty aggregator, no call reports a
    rejection. The aggregator ends up with exactly the sealed rows, and they verify, if and only if
    every sealed row has the `wire_version` that the table reads back. -/
theorem replication_converges_iff (o : Origins H) (localNodeId : Option String)
    (hlocal : ∀ node ∈ localNodeId, o.chain node = []) (deliveries : List (List AuditRow))
    (hbatches : ∀ b ∈ deliveries, o.IsBatch b)
    (hcover : ∀ r, o.Has r → r.isSealed = true → ∃ b ∈ deliveries, r ∈ b) :
    Run.AllAlong (Origins.deliver H localNodeId)
      (fun s b => s.rejectedFromSeq (rowBreak H) b localNodeId = none) Store.empty deliveries ∧
    (((∀ x, x ∈ (deliveries.foldl (Origins.deliver H localNodeId) Store.empty).rows
        ↔ o.Has x ∧ x.isSealed = true) ∧
      (verifyChain (rowBreak H)
        (deliveries.foldl (Origins.deliver H localNodeId) Store.empty).rows [] false).ok = true)
    ↔ ∀ r, o.Has r → r.isSealed = true → r.wireVersion = "1") := by
  have hempty : o.Holds Store.empty := fun x hx => absurd hx List.not_mem_nil
  obtain ⟨haccepted, hholds, -, hstores⟩ := Origins.Holds.run hlocal deliveries hbatches hempty
  refine ⟨haccepted, ?_⟩
  constructor
  · rintro ⟨hrows, -⟩ r hr hs
    exact Store.wireVersion_eq _ ((hrows r).2 ⟨hr, hs⟩)
  · intro hwire
    have hrows : ∀ x, x ∈ (deliveries.foldl (Origins.deliver H localNodeId) Store.empty).rows
        ↔ o.Has x ∧ x.isSealed = true := by
      intro x
      constructor
      · intro hx
        obtain ⟨r, hr, hs, rfl⟩ := hholds x hx
        rw [hr.stored_eq hs (hwire r hr hs)]
        exact ⟨hr, hs⟩
      · rintro ⟨hx, hs⟩
        obtain ⟨b, hb, hxb⟩ := hcover x hx hs
        rw [← hx.stored_eq hs (hwire x hx hs)]
        exact hstores b hb x hxb hs
    exact ⟨hrows, Origins.verifyChain_of_mem_iff hrows⟩

theorem chained_sealedPair (node : String) (hnode : node ≠ "") :
    Chained plainDigest node [(sealedPair node hnode).1, (sealedPair node hnode).2] := by
  have hone : Chained plainDigest node [(sealedPair node hnode).1] :=
    .sealNext (.unsealed (List.forall_mem_nil _)) Token.sample _ rfl (by simp)
  have hlast : lastHash [(sealedPair node hnode).1] = (sealedPair node hnode).1.hash :=
    hone.lastHash_eq (List.mem_singleton.2 rfl) (sealedPair_spec node hnode).isSealed.1 (by simp)
  have hseq : ∀ r ∈ [(sealedPair node hnode).1],
      r.monotonicSeq < (sampleAt node hnode (node ++ "-2") 2).monotonicSeq := by
    intro r hr
    rw [List.mem_singleton.1 hr, (sealedPair_spec node hnode).seqs.1]
    exact Int.lt_succ 1
  have htwo := hone.sealNext Token.sample (sampleAt node hnode (node ++ "-2") 2) rfl hseq
  rwa [hlast] at htwo

/-- The rows of two nodes, one of them of a given wire version. -/
def twoNodeRows (wireVersion : String) : List AuditRow :=
  [firstRow wireVersion, hubPair.1, hubPair.2]

theorem nodup_ids_twoNodeRows (wireVersion : String) :
    ((twoNodeRows wireVersion).map (·.id)).Nodup := by
  have hids : (twoNodeRows wireVersion).map (·.id) = ["evt-1", "hub-1", "hub-2"] := rfl
  rw [hids]
  decide

def twoNodes (wireVersion : String) : Origins plainDigest where
  chain node := if node = "edge" then [firstRow wireVersion]
    else if node = "hub" then [hubPair.1, hubPair.2] else []
  chained node := by
    split_ifs with hedge hhub
    · rw [hedge]
      exact .sealNext (.unsealed (List.forall_mem_nil _)) Token.sample _ rfl (by simp)
    · rw [hhub]
      exact chained_sealedPair "hub" (by decide)
    · exact .unsealed (by simp)
  inside node r hr := by
    have hpair : SealedPair "hub" hubPair := sealedPair_spec "hub" (by decide)
    split_ifs at hr
    · rw [List.mem_singleton.1 hr]
      exact inside_firstRow wireVersion
    · simp only [List.mem_cons, List.not_mem_nil, or_false] at hr
      rcases hr with rfl | rfl
      · exact hpair.inside.1
      · exact hpair.inside.2
    · exact absurd hr List.not_mem_nil
  ids node r hr node' r' hr' hid := by
    have hmem : ∀ {n} {x : AuditRow}, (x ∈ if n = "edge" then [firstRow wireVersion]
        else if n = "hub" then [hubPair.1, hubPair.2] else []) → x ∈ twoNodeRows wireVersion := by
      intro n x hx
      split_ifs at hx
      · simp [twoNodeRows, List.mem_singleton.1 hx]
      · exact List.mem_cons_of_mem _ hx
      · exact absurd hx List.not_mem_nil
    exact List.inj_on_of_nodup_map (nodup_ids_twoNodeRows wireVersion) (hmem hr) (hmem hr') hid

theorem twoNodes_has_iff {wireVersion : String} :
    (twoNodes wireVersion).Has r ↔ r ∈ twoNodeRows wireVersion := by
  simp only [twoNodeRows, List.mem_cons, List.not_mem_nil, or_false]
  constructor
  · rintro ⟨node, hr⟩
    simp only [twoNodes] at hr
    split_ifs at hr
    · exact Or.inl (List.mem_singleton.1 hr)
    · exact Or.inr (by simpa using hr)
    · exact absurd hr List.not_mem_nil
  · rintro (rfl | rfl | rfl)
    · exact ⟨"edge", List.mem_singleton.2 rfl⟩
    · exact ⟨"hub", List.mem_cons_self⟩
    · exact ⟨"hub", List.mem_cons_of_mem _ List.mem_cons_self⟩

/-- All rows, and the highest one alone. -/
theorem twoNodes_isBatch (wireVersion : String) :
    (twoNodes wireVersion).IsBatch (twoNodeRows wireVersion) ∧
      (twoNodes wireVersion).IsBatch [hubPair.2] := by
  have hpair : SealedPair "hub" hubPair := sealedPair_spec "hub" (by decide)
  have hseq : (firstRow wireVersion).monotonicSeq = 1 := rfl
  refine ⟨⟨fun _ => 1, fun _ => 2, fun r => ?_⟩, ⟨fun _ => 2, fun _ => 2, fun r => ?_⟩⟩
  · rw [twoNodes_has_iff]
    refine ⟨fun h => ⟨h, ?_⟩, fun h => h.1⟩
    simp only [twoNodeRows, List.mem_cons, List.not_mem_nil, or_false] at h
    rcases h with rfl | rfl | rfl
    · simp [hseq]
    · simp [hpair.seqs]
    · simp [hpair.seqs]
  · rw [twoNodes_has_iff, List.mem_singleton]
    constructor
    · rintro rfl
      simp [twoNodeRows, hpair.seqs]
    · rintro ⟨h, hlow, -⟩
      simp only [twoNodeRows, List.mem_cons, List.not_mem_nil, or_false] at h
      rcases h with rfl | rfl | rfl
      · exact absurd hlow (by simp [hseq])
      · exact absurd hlow (by simp [hpair.seqs])
      · rfl

/-- A second row comes first, and everything twice. -/
theorem replication_converges_twoNodes :
    (verifyChain (rowBreak plainDigest)
      ([[hubPair.2], twoNodeRows "1", [hubPair.2], twoNodeRows "1"].foldl
        (Origins.deliver plainDigest (some "aggregator")) Store.empty).rows [] false).ok = true := by
  obtain ⟨hall, hhigh⟩ := twoNodes_isBatch "1"
  have hlocal : (twoNodes "1").chain "aggregator" = [] := rfl
  have hwire : ∀ r ∈ twoNodeRows "1", r.wireVersion = "1" := by
    simp only [twoNodeRows, List.forall_mem_cons]
    exact ⟨rfl, rfl, rfl, by simp⟩
  refine ((replication_converges_iff (twoNodes "1") (some "aggregator") ?_ _ ?_ ?_).2.2 ?_).2
  · intro node hnode
    rw [← Option.some.inj hnode]
    exact hlocal
  · simp only [List.forall_mem_cons]
    exact ⟨hhigh, hall, hhigh, hall, by simp⟩
  · intro r hr _
    exact ⟨twoNodeRows "1", by simp, twoNodes_has_iff.1 hr⟩
  · intro r hr _
    exact hwire r (twoNodes_has_iff.1 hr)

/-- A chain with a row of another wire version does not arrive as it is. -/
theorem replication_changes_wireVersion :
    ¬∀ (H : Sha256) (o : Origins H) (deliveries : List (List AuditRow)),
      (∀ b ∈ deliveries, o.IsBatch b) →
      (∀ r, o.Has r → r.isSealed = true → ∃ b ∈ deliveries, r ∈ b) →
      (∀ x, x ∈ (deliveries.foldl (Origins.deliver H none) Store.empty).rows
        ↔ o.Has x ∧ x.isSealed = true) ∧
      (verifyChain (rowBreak H)
        (deliveries.foldl (Origins.deliver H none) Store.empty).rows [] false).ok = true := by
  intro h
  obtain ⟨hrows, -⟩ := h plainDigest (twoNodes "2") [twoNodeRows "2"]
    (by simpa using (twoNodes_isBatch "2").1)
    (fun r hr _ => ⟨twoNodeRows "2", by simp, twoNodes_has_iff.1 hr⟩)
  have hhas : (twoNodes "2").Has (firstRow "2") := twoNodes_has_iff.2 List.mem_cons_self
  have hread := Store.wireVersion_eq _ ((hrows _).2 ⟨hhas, sealRow_isSealed _ _ _⟩)
  exact absurd (show "2" = "1" from hread) (by decide)

end Fasten
