import Mathlib.Data.List.MinMax
import Fasten.Ingest.Links

set_option autoImplicit false

/-! # A node's store and its aggregator

A node allocates rows, ships them and purges old ones; an aggregator ingests the rows as they are
shipped (spec §2, §4). The next seq is read from the rows that are left, so it is new as long as no
purge removes a node's newest row. -/

namespace Fasten

/-- What happens on the node. Rows are marked as shipped once the aggregator has ingested them. -/
inductive NodeOp where
  | allocate (token : Token) (row : AuditRow)
  | markShipped (ids : List String) (now : Datetime)
  | purge (before : Datetime) (respectUnshipped : Bool)

/-- The node's store, the aggregator's, and the rows `allocate_and_insert_originated` returned. -/
structure Shipping where
  store : Store
  aggregator : Store
  returned : List AuditRow

def Shipping.step (H : Sha256) (s : Shipping) : NodeOp → Shipping
  | .allocate token row =>
    match s.store.allocateAndInsertOriginated H token row with
    | none => s
    | some (allocated, store) =>
      { s with store := store, returned := s.returned ++ [allocated] }
  | .markShipped ids now =>
    { s with
      store := s.store.markShipped ids now
      aggregator := s.aggregator.afterIngest (rowBreak H)
        (s.store.rows.filter (fun r => decide (r.id ∈ ids))) none }
  | .purge before respectUnshipped => { s with store := s.store.purge before respectUnshipped }

/-- An allocated row has an id that was never used, and a purge keeps each node's newest chained
    row. -/
def NodeOp.KeepsSeqs (start : Store) (s : Shipping) : NodeOp → Prop
  | .allocate _ row => row.originId = row.id → ∀ r ∈ start.rows ++ s.returned, r.id ≠ row.id
  | .markShipped _ _ => True
  | .purge before respectUnshipped =>
    ∀ r ∈ s.store.rows, 1 ≤ r.monotonicSeq →
      (∀ w ∈ s.store.rows, w.sourceNodeId = r.sourceNodeId → w.monotonicSeq ≤ r.monotonicSeq) →
      s.store.purges before respectUnshipped r = false

variable {H : Sha256} {start : Store}

/-! ## The invariant of a run -/

/-- The links of the rows. -/
def links (rows : List AuditRow) : Set Link := {l | ∃ r ∈ rows, r.link = l}

/-- Those of the sealed rows. -/
def sealedLinks (all : Set Link) : Set Link := {l | l ∈ all ∧ l.hash ≠ ""}

/-- The links of every row there ever was, and those that are stored. -/
structure LinksOk (all stored : Set Link) : Prop where
  linked : Linked (sealedLinks all)
  seqPos : ∀ l ∈ sealedLinks all, 1 ≤ l.seq
  nonneg : ∀ l ∈ stored, 0 ≤ l.seq
  sub : stored ⊆ all
  unsealed : ∀ u ∈ stored, u.hash = "" → ∀ l ∈ sealedLinks all, l.node = u.node → u.seq < l.seq
  newest : ∀ l ∈ sealedLinks all, ∃ r ∈ stored, r.node = l.node ∧ l.seq ≤ r.seq

structure ShippingOk (start : Store) (s : Shipping) : Prop where
  chains : LinksOk (links (start.rows ++ s.returned)) (links s.store.rows)
  ingested : ∀ x ∈ s.aggregator.rows, x.link ∈ sealedLinks (links (start.rows ++ s.returned))
  distinct : s.returned.Pairwise
    (fun a b => a.sourceNodeId = b.sourceNodeId → a.monotonicSeq ≠ b.monotonicSeq)
  returnedSealed : ∀ r ∈ s.returned, r.isSealed = true

theorem links_concat (rows : List AuditRow) (r : AuditRow) :
    links (rows ++ [r]) = insert r.link (links rows) := by
  ext l
  simp [links, or_and_right, exists_or, eq_comm, or_comm]

theorem ShippingOk.link_mem {s : Shipping} (hok : ShippingOk start s) {r : AuditRow}
    (hr : r ∈ s.store.rows) (hs : r.isSealed = true) :
    r.link ∈ sealedLinks (links (start.rows ++ s.returned)) :=
  ⟨hok.chains.sub ⟨r, hr, rfl⟩, AuditRow.isSealed_iff.1 hs⟩

/-- No batch of the node's rows is in conflict with what the aggregator holds. -/
theorem ShippingOk.batchConflict_eq_none {s : Shipping} (hok : ShippingOk start s)
    {batch : List AuditRow} (hbatch : ∀ r ∈ batch, r ∈ s.store.rows) :
    batchConflict (rowBreak H) s.aggregator batch = none := by
  refine hok.chains.linked.batchConflict_eq_none hok.ingested
    (fun r hr hs => hok.link_mem (hbatch r hr) hs) (fun u hu hs l hl hnode => ?_)
  have hhash : u.hash = "" := by simpa [AuditRow.isSealed] using hs
  exact (hok.chains.unsealed u.link ⟨u, hbatch u hu, rfl⟩ hhash l hl hnode).le

theorem linksOk_start (hok : StoreOk H start.rows) :
    LinksOk (links start.rows) (links start.rows) := by
  have hsealed : ∀ {l}, l ∈ sealedLinks (links start.rows) →
      ∃ r ∈ start.rows, r.isSealed = true ∧ r.link = l := by
    rintro l ⟨⟨r, hr, rfl⟩, hs⟩
    exact ⟨r, hr, AuditRow.isSealed_iff.2 hs, rfl⟩
  refine ⟨⟨?_, ?_, ?_, fun l hl => hl.2⟩, ?_, ?_, subset_rfl, ?_, fun l hl => ⟨l, hl.1, rfl, le_rfl⟩⟩
  · intro a ha b hb hid
    obtain ⟨r, hr, -, rfl⟩ := hsealed ha
    obtain ⟨r', hr', -, rfl⟩ := hsealed hb
    rw [start.eq_of_id_eq hr hr' hid]
  · intro a ha b hb hnode hseq
    obtain ⟨r, hr, hs, rfl⟩ := hsealed ha
    obtain ⟨r', hr', -, rfl⟩ := hsealed hb
    rw [hok.seqUnique r hr r' hr' hnode (hok.sealedPos r hr hs) hseq]
  · intro a ha b hb hnode hseq
    obtain ⟨r, hr, hs, rfl⟩ := hsealed ha
    obtain ⟨r', hr', hs', rfl⟩ := hsealed hb
    have hseq' : r'.monotonicSeq = r.monotonicSeq + 1 := hseq
    refine (hok.chains r.sourceNodeId).linked r ⟨hr, rfl⟩ r' ⟨hr', hnode.symm⟩ hs hs' (by omega) ?_
    intro w _
    omega
  · intro a ha
    obtain ⟨r, hr, hs, rfl⟩ := hsealed ha
    exact hok.sealedPos r hr hs
  · rintro _ ⟨r, hr, rfl⟩
    exact hok.nonneg r hr
  · rintro _ ⟨u, hu, rfl⟩ hs l hl hnode
    obtain ⟨r, hr, hrs, rfl⟩ := hsealed hl
    refine (hok.chains r.sourceNodeId).unsealedBelow u ⟨hu, hnode.symm⟩ r ⟨hr, rfl⟩ ?_ hrs
    rw [AuditRow.isSealed, show u.hash = "" from hs]
    rfl

/-! ## Allocating -/

/-- One more link on top of its node's chain. -/
theorem Linked.insert {known : Set Link} (hknown : Linked known) {x : Link} (hhash : x.hash ≠ "")
    (hid : ∀ l ∈ known, l.id ≠ x.id) (habove : ∀ l ∈ known, l.node = x.node → l.seq < x.seq)
    (hlink : ∀ l ∈ known, l.node = x.node → x.seq = l.seq + 1 → x.prevHash = l.hash) :
    Linked (insert x known) := by
  refine ⟨?_, ?_, ?_, ?_⟩
  · rintro a (rfl | ha) b (rfl | hb) heq
    · rfl
    · exact absurd heq.symm (hid b hb)
    · exact absurd heq (hid a ha)
    · exact hknown.ids a ha b hb heq
  · rintro a (rfl | ha) b (rfl | hb) hnode hseq
    · rfl
    · have := habove b hb hnode.symm
      omega
    · have := habove a ha hnode
      omega
    · exact hknown.places a ha b hb hnode hseq
  · rintro a (rfl | ha) b (rfl | hb) hnode hseq
    · omega
    · have := habove b hb hnode.symm
      omega
    · exact hlink a ha hnode hseq
    · exact hknown.links a ha b hb hnode hseq
  · rintro a (rfl | ha)
    · exact hhash
    · exact hknown.hashed a ha

section

variable {all stored : Set Link} (hok : LinksOk all stored) {x : Link}

include hok

/-- A seq above those stored is above every seq given out before. -/
theorem LinksOk.sealed_lt (habove : ∀ l ∈ stored, l.node = x.node → l.seq < x.seq) :
    ∀ l ∈ sealedLinks all, l.node = x.node → l.seq < x.seq := by
  intro l hl hnode
  obtain ⟨r, hr, hrnode, hle⟩ := hok.newest l hl
  have := habove r hr (hrnode.trans hnode)
  omega

theorem LinksOk.add (hhash : x.hash ≠ "") (hpos : 1 ≤ x.seq) (hid : ∀ l ∈ all, l.id ≠ x.id)
    (habove : ∀ l ∈ stored, l.node = x.node → l.seq < x.seq)
    (hlink : ∀ l ∈ sealedLinks all, l.node = x.node → x.seq = l.seq + 1 → x.prevHash = l.hash) :
    LinksOk (insert x all) (insert x stored) := by
  have hsealed : sealedLinks (insert x all) = insert x (sealedLinks all) := by
    ext l
    constructor
    · rintro ⟨rfl | hl, hs⟩
      · exact .inl rfl
      · exact .inr ⟨hl, hs⟩
    · rintro (rfl | hl)
      · exact ⟨.inl rfl, hhash⟩
      · exact ⟨.inr hl.1, hl.2⟩
  constructor
  · rw [hsealed]
    exact hok.linked.insert hhash (fun l hl => hid l hl.1) (hok.sealed_lt habove) hlink
  · rw [hsealed]
    rintro l (rfl | hl)
    · exact hpos
    · exact hok.seqPos l hl
  · rintro l (rfl | hl)
    · omega
    · exact hok.nonneg l hl
  · exact Set.insert_subset_insert hok.sub
  · rw [hsealed]
    rintro u (rfl | hu) hs l (rfl | hl) hnode
    · exact absurd hs hhash
    · exact absurd hs hhash
    · exact habove u hu hnode.symm
    · exact hok.unsealed u hu hs l hl hnode
  · rw [hsealed]
    rintro l (rfl | hl)
    · exact ⟨l, .inl rfl, rfl, le_rfl⟩
    · obtain ⟨r, hr, h⟩ := hok.newest l hl
      exact ⟨r, .inr hr, h⟩

end

/-- The row right below the next seq is the tip, so the next row links to it. -/
theorem ShippingOk.nextPrevHash_eq {s : Shipping} (hok : ShippingOk start s) {node : String} {l : Link}
    (hl : l ∈ sealedLinks (links (start.rows ++ s.returned))) (hnode : l.node = node)
    (hseq : s.store.nextSeq node = l.seq + 1) : s.store.nextPrevHash node = l.hash := by
  obtain ⟨_, ⟨r, hr, rfl⟩, hrnode, hle⟩ := hok.chains.newest l hl
  have hmem : r ∈ s.store.nodeRows node := Store.mem_nodeRows.2 ⟨hr, hrnode.trans hnode⟩
  have hrseq : r.link.seq = l.seq := by
    have : r.link.seq < s.store.nextSeq node := Store.lt_nextSeq hr (hrnode.trans hnode)
    omega
  have hrs : r.isSealed = true := by
    refine AuditRow.isSealed_iff.2 (fun hs => ?_)
    have := hok.chains.unsealed r.link ⟨r, hr, rfl⟩ hs l hl hrnode.symm
    omega
  have htip := isTip_tipOf (s.store.nodeRows node)
  unfold Store.nextPrevHash Store.tip
  cases hfound : tipOf (s.store.nodeRows node) with
  | none =>
    rw [hfound] at htip
    exact absurd hrs (by simp [htip r hmem])
  | some tip =>
    rw [hfound] at htip
    obtain ⟨htrows, htnode⟩ := Store.mem_nodeRows.1 htip.1.1
    have hge : r.link.seq ≤ tip.monotonicSeq := htip.2 r hmem hrs
    have hlt := Store.lt_nextSeq htrows htnode
    have hlink := hok.chains.linked.places _ (hok.link_mem htrows htip.1.2) l hl
      (htnode.trans hnode.symm) (show tip.monotonicSeq = l.seq by omega)
    exact congrArg Link.hash hlink

theorem ShippingOk.allocate {s : Shipping} (hok : ShippingOk start s) (token : Token)
    {row : AuditRow} (hfresh : ∀ r ∈ start.rows ++ s.returned, r.id ≠ row.id) :
    ShippingOk start
      { s with
        store := (s.store.insertRowCore (s.store.allocated H token row)).1
        returned := s.returned ++ [s.store.allocated H token row] } := by
  have hsealed : (s.store.allocated H token row).isSealed = true := s.store.allocated_isSealed _ _
  have hx : (s.store.allocated H token row).link = ⟨row.id, row.sourceNodeId,
      s.store.nextSeq row.sourceNodeId, (s.store.allocated H token row).hash,
      s.store.nextPrevHash row.sourceNodeId⟩ := rfl
  generalize s.store.allocated H token row = x at hsealed hx
  have hnew : ∀ l ∈ links (start.rows ++ s.returned), l.id ≠ x.link.id := by
    rintro _ ⟨r, hr, rfl⟩
    rw [hx]
    exact hfresh r hr
  -- a fresh id is not stored, so the row is inserted
  have hrows : (s.store.insertRowCore x).1.rows = s.store.rows ++ [x.stored] := by
    rw [Store.insertRowCore_rows, if_neg]
    rw [Store.mem_ids_iff]
    rintro ⟨r, hr, hid⟩
    exact hnew r.link (hok.chains.sub ⟨r, hr, rfl⟩) hid
  have habove : ∀ l ∈ links s.store.rows, l.node = x.link.node → l.seq < x.link.seq := by
    rintro _ ⟨r, hr, rfl⟩ hnode
    rw [hx] at hnode ⊢
    exact Store.lt_nextSeq hr hnode
  have hpos : 1 ≤ x.link.seq := by
    rw [hx]
    exact Store.one_le_nextSeq (fun r hr => hok.chains.nonneg _ ⟨r, hr, rfl⟩) _
  have hall : links (start.rows ++ (s.returned ++ [x]))
      = insert x.link (links (start.rows ++ s.returned)) := by
    rw [← List.append_assoc, links_concat]
  constructor
  · rw [hrows, hall, links_concat, AuditRow.link_stored]
    refine hok.chains.add (AuditRow.isSealed_iff.1 hsealed) hpos hnew habove ?_
    intro l hl hnode hseq
    rw [hx] at hnode hseq ⊢
    exact hok.nextPrevHash_eq hl hnode hseq
  · rw [hall]
    exact fun r hr => ⟨.inr (hok.ingested r hr).1, (hok.ingested r hr).2⟩
  · refine List.pairwise_append.2 ⟨hok.distinct, List.pairwise_singleton _ _, ?_⟩
    intro r hr x' hx' hnode
    rw [List.mem_singleton.1 hx'] at hnode ⊢
    exact (hok.chains.sealed_lt habove r.link ⟨⟨r, by simp [hr], rfl⟩,
      AuditRow.isSealed_iff.1 (hok.returnedSealed r hr)⟩ hnode).ne
  · exact List.forall_mem_append.2 ⟨hok.returnedSealed, by simpa using hsealed⟩

/-! ## Shipping and purging -/

theorem links_markShipped (store : Store) (ids : List String) (now : Datetime) :
    links (store.markShipped ids now).rows = links store.rows := by
  have hlink : ∀ r : AuditRow, (shippedRow ids now r).link = r.link := by
    intro r
    unfold shippedRow
    split_ifs <;> rfl
  ext l
  simp [links, Store.markShipped, Store.update, hlink]

theorem ShippingOk.markShipped {s : Shipping} (hok : ShippingOk start s) (ids : List String)
    (now : Datetime) :
    ShippingOk start
      { s with
        store := s.store.markShipped ids now
        aggregator := s.aggregator.afterIngest (rowBreak H)
          (s.store.rows.filter (fun r => decide (r.id ∈ ids))) none } := by
  refine ⟨?_, fun x hx => ?_, hok.distinct, hok.returnedSealed⟩
  · rw [links_markShipped]
    exact hok.chains
  · rcases mem_of_mem_afterIngest hx with hx | ⟨p, hp, rfl⟩
    · exact hok.ingested x hx
    · have hkept := (mem_toInsert.1 hp).1
      have hpmem : p ∈ s.store.rows.filter (fun r => decide (r.id ∈ ids)) := hkept.mem
      rw [AuditRow.link_stored]
      exact hok.link_mem (List.mem_filter.1 hpmem).1 hkept.2

/-- A node's newest row. -/
theorem exists_newest {rows : List AuditRow} {r : AuditRow} (hr : r ∈ rows) :
    ∃ m ∈ rows, m.sourceNodeId = r.sourceNodeId ∧ r.monotonicSeq ≤ m.monotonicSeq ∧
      ∀ w ∈ rows, w.sourceNodeId = r.sourceNodeId → w.monotonicSeq ≤ m.monotonicSeq := by
  have hmem : r ∈ rows.filter (fun w => w.sourceNodeId == r.sourceNodeId) := by simp [hr]
  cases hmax : List.argmax AuditRow.monotonicSeq
      (rows.filter (fun w => w.sourceNodeId == r.sourceNodeId)) with
  | none =>
    rw [List.argmax_eq_none] at hmax
    rw [hmax] at hmem
    exact absurd hmem List.not_mem_nil
  | some m =>
    have hm := List.mem_filter.1 (List.argmax_mem hmax)
    refine ⟨m, hm.1, by simpa using hm.2, List.le_of_mem_argmax hmem hmax, fun w hw hnode => ?_⟩
    exact List.le_of_mem_argmax (by simp [hw, hnode]) hmax

theorem ShippingOk.purge {s : Shipping} (hok : ShippingOk start s) {before : Datetime}
    {respectUnshipped : Bool} (hkeep : (NodeOp.purge before respectUnshipped).KeepsSeqs start s) :
    ShippingOk start { s with store := s.store.purge before respectUnshipped } := by
  have hsub : links (s.store.purge before respectUnshipped).rows ⊆ links s.store.rows := by
    rintro _ ⟨r, hr, rfl⟩
    exact ⟨r, (Store.mem_purge.1 hr).1, rfl⟩
  obtain ⟨hlinked, hseqPos, hnonneg, hstored, hunsealed, hnewest⟩ := hok.chains
  refine ⟨⟨hlinked, hseqPos, fun l hl => hnonneg l (hsub hl), hsub.trans hstored,
    fun u hu => hunsealed u (hsub hu), fun l hl => ?_⟩, hok.ingested, hok.distinct, hok.returnedSealed⟩
  obtain ⟨_, ⟨r, hr, rfl⟩, hnode, hle⟩ := hnewest l hl
  obtain ⟨m, hm, hmnode, hmle, hmax⟩ := exists_newest hr
  have hle' : l.seq ≤ m.monotonicSeq := le_trans hle hmle
  have hpos := hseqPos l hl
  refine ⟨m.link, ⟨m, Store.mem_purge.2 ⟨hm, hkeep m hm (by omega) (fun w hw hwnode => ?_)⟩, rfl⟩,
    hmnode.trans hnode, hle'⟩
  exact hmax w hw (hwnode.trans hmnode)

/-- **One step.** -/
theorem ShippingOk.step {s : Shipping} (hok : ShippingOk start s) {op : NodeOp}
    (hop : op.KeepsSeqs start s) : ShippingOk start (s.step H op) := by
  cases op with
  | allocate token row =>
    simp only [Shipping.step, Store.allocateAndInsertOriginated]
    by_cases horigin : row.originId ≠ row.id
    · rw [if_pos horigin]
      exact hok
    · rw [if_neg horigin]
      exact hok.allocate token (hop (not_not.1 horigin))
  | markShipped ids now => exact hok.markShipped ids now
  | purge before respectUnshipped => exact hok.purge hop

/-! ## The result -/

/-- **A seq is given out once.** From any store whose chains verify, in every run in which
    allocated ids are new and no purge removes a node's newest chained row, no two returned rows of
    a node have one seq, and no rows of the store are in conflict with what the aggregator
    ingested. -/
theorem seqs_given_out_once (hnonneg : ∀ r ∈ start.rows, 0 ≤ r.monotonicSeq)
    (hsealed : ∀ r ∈ start.rows, r.isSealed = true → 1 ≤ r.monotonicSeq)
    (hunique : ∀ r ∈ start.rows, ∀ r' ∈ start.rows, r.sourceNodeId = r'.sourceNodeId →
      1 ≤ r.monotonicSeq → r.monotonicSeq = r'.monotonicSeq → r = r')
    (hverify : ∀ node, (verifyChain (rowBreak H) (start.nodeRows node) [] false).ok = true)
    (ops : List NodeOp)
    (hops : Run.AllAlong (Shipping.step H) (fun s op => op.KeepsSeqs start s)
      ⟨start, Store.empty, []⟩ ops) :
    (ops.foldl (Shipping.step H) ⟨start, Store.empty, []⟩).returned.Pairwise
      (fun a b => a.sourceNodeId = b.sourceNodeId → a.monotonicSeq ≠ b.monotonicSeq) ∧
    ∀ batch, (∀ r ∈ batch, r ∈ (ops.foldl (Shipping.step H) ⟨start, Store.empty, []⟩).store.rows) →
      batchConflict (rowBreak H)
        (ops.foldl (Shipping.step H) ⟨start, Store.empty, []⟩).aggregator batch = none := by
  have hstart : ShippingOk start ⟨start, Store.empty, []⟩ := by
    have hchains := linksOk_start (H := H) ⟨hnonneg, hsealed, hunique,
      fun node => Store.verifyChain_nodeRows_iff.1 (hverify node)⟩
    refine ⟨?_, fun x hx => absurd hx List.not_mem_nil, List.Pairwise.nil,
      fun r hr => absurd hr List.not_mem_nil⟩
    rwa [List.append_nil]
  have hend := Run.invariant_of_step
    (fun s op (hs : ShippingOk start s) hop => hs.step (H := H) hop) ops _ hstart hops
  exact ⟨hend.distinct, fun batch hbatch => hend.batchConflict_eq_none hbatch⟩

/-- `2000-01-01T00:00:00Z`, later than the sample rows. -/
def cutoff : Datetime :=
  ⟨2000, 1, 1, 0, 0, 0, 0, by decide, Datetime.epoch.monthRange, by decide,
    Datetime.epoch.hourRange, Datetime.epoch.minuteRange, Datetime.epoch.secondRange,
    Datetime.epoch.microsecondRange⟩

/-- Two rows are allocated, the first one is shipped and purged, and a third is allocated. -/
def purgedHead : List NodeOp :=
  [.allocate Token.sample (AuditRow.sample "evt-1" 0),
    .allocate Token.sample (AuditRow.sample "evt-2" 0),
    .markShipped ["evt-1"] cutoff, .purge cutoff true,
    .allocate Token.sample (AuditRow.sample "evt-3" 0)]

theorem seqs_given_out_once_purgedHead :
    (purgedHead.foldl (Shipping.step plainDigest) ⟨Store.empty, Store.empty, []⟩).store.rows.map
        (fun r => (r.id, r.monotonicSeq)) = [("evt-2", 2), ("evt-3", 3)] ∧
      (purgedHead.foldl (Shipping.step plainDigest)
        ⟨Store.empty, Store.empty, []⟩).returned.Pairwise
          (fun a b => a.sourceNodeId = b.sourceNodeId → a.monotonicSeq ≠ b.monotonicSeq) := by
  have hempty : ∀ {P : AuditRow → Prop}, ∀ r ∈ Store.empty.rows, P r := fun r hr =>
    absurd hr List.not_mem_nil
  refine ⟨by decide +kernel, (seqs_given_out_once hempty hempty hempty (fun _ => rfl) purgedHead
    ⟨?_, ?_, trivial, ?_, ?_, trivial⟩).1⟩
  · unfold NodeOp.KeepsSeqs
    decide +kernel
  · unfold NodeOp.KeepsSeqs
    decide +kernel
  · unfold NodeOp.KeepsSeqs
    decide +kernel
  · unfold NodeOp.KeepsSeqs
    decide +kernel

/-- A row is allocated, shipped and purged, and the next one gets its seq. -/
def purgedNode : List NodeOp :=
  [.allocate Token.sample (AuditRow.sample "evt-1" 0), .markShipped ["evt-1"] cutoff,
    .purge cutoff true, .allocate Token.sample (AuditRow.sample "evt-2" 0)]

/-- A purge that leaves no row of a node starts its seqs again. -/
theorem seqs_start_again_after_purge :
    ¬∀ (H : Sha256) (start : Store), (∀ r ∈ start.rows, 0 ≤ r.monotonicSeq) →
      (∀ r ∈ start.rows, r.isSealed = true → 1 ≤ r.monotonicSeq) →
      (∀ r ∈ start.rows, ∀ r' ∈ start.rows, r.sourceNodeId = r'.sourceNodeId →
        1 ≤ r.monotonicSeq → r.monotonicSeq = r'.monotonicSeq → r = r') →
      (∀ node, (verifyChain (rowBreak H) (start.nodeRows node) [] false).ok = true) →
      ∀ ops : List NodeOp,
        (ops.foldl (Shipping.step H) ⟨start, Store.empty, []⟩).returned.Pairwise
          (fun a b => a.sourceNodeId = b.sourceNodeId → a.monotonicSeq ≠ b.monotonicSeq) := by
  intro h
  have hempty : ∀ {P : AuditRow → Prop}, ∀ r ∈ Store.empty.rows, P r := fun r hr =>
    absurd hr List.not_mem_nil
  have hreused : ¬(purgedNode.foldl (Shipping.step plainDigest)
      ⟨Store.empty, Store.empty, []⟩).returned.Pairwise
        (fun a b => a.sourceNodeId = b.sourceNodeId → a.monotonicSeq ≠ b.monotonicSeq) := by
    decide +kernel
  exact hreused (h plainDigest Store.empty hempty hempty hempty (fun _ => rfl) purgedNode)

end Fasten
