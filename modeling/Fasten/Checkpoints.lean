import Fasten.Store.Chain
import Fasten.Tamper
import Fasten.Verify.Checkpoints

set_option autoImplicit false

/-! # Checkpoints

`take_checkpoints` and `checkpoints_since` (`python/fasten/checkpoints.py`, spec §9). A checkpoint
is a node's latest sealed row, so it fixes the node's chain down from there: whatever verifies
against it has that row and, below it, the rows the checkpoint was taken from. -/

namespace Fasten

/-! ## Taking them -/

/-- The highest sealed seq of the node. -/
def highestSealed (rows : List AuditRow) (node : String) : Option Int :=
  (tipOf (rows.filter (·.sourceNodeId == node))).map (·.monotonicSeq)

/-- `chain_tips`: each node's sealed rows at its highest sealed seq, by node and id. -/
def chainTips (rows : List AuditRow) : List AuditRow :=
  (rows.filter (fun r => r.isSealed && highestSealed rows r.sourceNodeId == some r.monotonicSeq)
    ).insertionSort (fun a b => a.sourceNodeId < b.sourceNodeId
      ∨ a.sourceNodeId = b.sourceNodeId ∧ a.id ≤ b.id)

/-- The checkpoint of a tip. -/
def Checkpoint.ofTip (now : Datetime) (tip : AuditRow) : Checkpoint :=
  ⟨tip.sourceNodeId, tip.monotonicSeq, tip.hash, canonicalTs now⟩

/-- One turn of the loop. Of two rows at one seq the first is taken. -/
def takeTip (now : Datetime) (out : List Checkpoint) (tip : AuditRow) : List Checkpoint :=
  if out.getLast?.map (·.sourceNodeId) = some tip.sourceNodeId then out
  else out ++ [Checkpoint.ofTip now tip]

/-- The checkpoints of the tips that were read, at the time that was read. -/
def checkpointTips (now : Datetime) (tips : List AuditRow) : List Checkpoint :=
  tips.foldl (takeTip now) []

def takeCheckpoints (now : Datetime) (rows : List AuditRow) : List Checkpoint :=
  checkpointTips now (chainTips rows)

/-- `none` is the `ValueError` for an `anchored_at` that is not in the canonical form. -/
def checkpointsSince (checkpoints : List Checkpoint) (cutoff : Datetime) :
    Option (List Checkpoint) :=
  if ∀ cp ∈ checkpoints, (parseCanonical cp.anchoredAt).isSome = true then
    some (checkpoints.filter (fun cp => decide (canonicalTs cutoff ≤ cp.anchoredAt)))
  else none

/-- The tips are the rows of each node with its highest sealed seq. -/
theorem mem_chainTips {rows : List AuditRow} {tip : AuditRow} :
    tip ∈ chainTips rows ↔ tip ∈ rows ∧ tip.isSealed = true ∧
      ∀ r ∈ rows, r.sourceNodeId = tip.sourceNodeId → r.isSealed = true →
        r.monotonicSeq ≤ tip.monotonicSeq := by
  have htip := isTip_tipOf (rows.filter (·.sourceNodeId == tip.sourceNodeId))
  rw [chainTips, List.mem_insertionSort, List.mem_filter, Bool.and_eq_true, beq_iff_eq,
    highestSealed]
  refine and_congr_right (fun hmem => and_congr_right (fun hs => ?_))
  have hown : tip ∈ rows.filter (·.sourceNodeId == tip.sourceNodeId) := by simp [hmem]
  cases hfound : tipOf (rows.filter (·.sourceNodeId == tip.sourceNodeId)) with
  | none =>
    rw [hfound] at htip
    exact absurd hs (by simp [htip tip hown])
  | some top =>
    rw [hfound] at htip
    obtain ⟨⟨htop, htops⟩, hmax⟩ := htip
    simp only [List.mem_filter, beq_iff_eq] at htop hmax
    rw [Option.map_some, Option.some.injEq]
    constructor
    · intro hseq r hr hnode hrs
      rw [← hseq]
      exact hmax r ⟨hr, hnode⟩ hrs
    · intro h
      have hle := hmax tip ⟨hmem, rfl⟩ hs
      have hge := h top htop.1 htop.2 htops
      omega

theorem mem_checkpointTips {now : Datetime} {tips : List AuditRow} {cp : Checkpoint}
    (h : cp ∈ checkpointTips now tips) : ∃ tip ∈ tips, cp = Checkpoint.ofTip now tip := by
  induction tips using List.reverseRecOn with
  | nil => exact absurd h List.not_mem_nil
  | append_singleton tips last ih =>
    have hold : cp ∈ checkpointTips now tips →
        ∃ tip ∈ tips ++ [last], cp = Checkpoint.ofTip now tip := by
      intro hcp
      obtain ⟨tip, htip, heq⟩ := ih hcp
      exact ⟨tip, List.mem_append_left _ htip, heq⟩
    rw [checkpointTips, List.foldl_append, List.foldl_cons, List.foldl_nil, takeTip] at h
    split_ifs at h with hsame
    · exact hold h
    · rcases List.mem_append.1 h with h | h
      · exact hold h
      · exact ⟨last, by simp, List.mem_singleton.1 h⟩

/-- **What a checkpoint says** of the rows it was taken from. -/
theorem exists_tip_of_mem_takeCheckpoints {now : Datetime} {rows : List AuditRow} {cp : Checkpoint}
    (h : cp ∈ takeCheckpoints now rows) :
    ∃ tip ∈ rows, tip.isSealed = true ∧ cp = Checkpoint.ofTip now tip := by
  obtain ⟨tip, htip, heq⟩ := mem_checkpointTips h
  obtain ⟨hmem, hs, -⟩ := mem_chainTips.1 htip
  exact ⟨tip, hmem, hs, heq⟩

/-! ## Verifying against one -/

/-- The rows have the row the checkpoint was taken of. -/
def Backed (rows : List AuditRow) (cp : Checkpoint) : Prop :=
  ∃ r ∈ rows, r.sourceNodeId = cp.sourceNodeId ∧ r.monotonicSeq = cp.monotonicSeq
    ∧ r.isSealed = true ∧ r.hash = cp.hash

section

variable {check : AuditRow → Option Reason} {rows : List AuditRow} {checkpoints : List Checkpoint}

theorem checkpointBreak_eq_none_iff {index : NodeIndex} {cp : Checkpoint} :
    checkpointBreak index cp false = none ↔
      ∃ r ∈ (Dict.get? index.bySeq cp.monotonicSeq).getD [], r.hash = cp.hash := by
  simp only [checkpointBreak]
  cases (Dict.get? index.bySeq cp.monotonicSeq).getD [] with
  | nil =>
    rw [List.map_nil, List.min?_nil]
    refine iff_of_false ?_ (by simp)
    split_ifs <;> simp_all
  | cons x rest =>
    obtain ⟨id, hid⟩ : ∃ id, (((x :: rest).map (·.id)).min?) = some id := by
      simp [List.min?_cons]
    rw [hid]
    simp only [ite_eq_left_iff, reduceCtorEq, imp_false, List.any_eq_true, decide_eq_true_eq,
      not_not]

/-- In a whole-chain verify a checkpoint is found to agree exactly when a kept row of its node has
    its seq and hash, or its node has no rows and a newer checkpoint. -/
theorem checkpointFound_eq_none_iff {newest : List (String × Int)} {cp : Checkpoint} :
    checkpointFound (dedupe check rows).byNode newest false cp = none ↔
      (∃ r ∈ keptSet rows cp.sourceNodeId, r.monotonicSeq = cp.monotonicSeq ∧ r.hash = cp.hash) ∨
      (keptSet rows cp.sourceNodeId = ∅ ∧
        Dict.get? newest cp.sourceNodeId ≠ some cp.monotonicSeq) := by
  rcases checkpointFound_cases check rows newest false cp with
    ⟨hempty, hfound⟩ | ⟨index, hindex, hfound⟩
  · rw [hfound, hempty]
    simp
  · obtain ⟨low, hlow, -⟩ := hindex.lowest_mem
    have hne : keptSet rows cp.sourceNodeId ≠ ∅ := Set.nonempty_iff_ne_empty.1 ⟨low, hlow⟩
    rw [hfound, or_iff_left (fun h => hne h.1)]
    rw [checkpointBreak_eq_none_iff]
    refine exists_congr (fun r => ?_)
    rw [hindex.mem_bySeq, and_assoc]

/-- A whole-chain verify passes when the rows do and each checkpoint has its row. -/
theorem verifyChain_ok_of_backed (hdistinct : Distinct rows) (hok : RowsOk check rows)
    (hbacked : ∀ cp ∈ checkpoints, Backed rows cp) :
    (verifyChain check rows checkpoints false).ok = true := by
  rw [verifyChain_ok_iff, Scan.eq_none_iff_noneBelow]
  intro c
  refine noneBelow_chainBreak_iff.2 ⟨hok c, fun cp hcp => ?_⟩
  obtain ⟨r, hr, hnode, hseq, -, hhash⟩ := hbacked cp hcp
  rw [checkpointFound_eq_none_iff.2 (Or.inl ⟨r, ?_, hseq, hhash⟩)]
  · exact Scan.noneBelow_none c
  · exact (keptCopy_eq_some_iff hdistinct).2 ⟨hr, hnode⟩

/-- **Each checkpoint of a whole-chain verify that passes has its row**, whatever other checkpoints
    are given. -/
theorem backed_of_verifyChain (h : (verifyChain check rows checkpoints false).ok = true)
    {cp : Checkpoint} (hcp : cp ∈ checkpoints) :
    ∃ r ∈ rows, r.sourceNodeId = cp.sourceNodeId ∧ r.monotonicSeq = cp.monotonicSeq
      ∧ r.hash = cp.hash := by
  rw [verifyChain_ok_iff, Scan.eq_none_iff_noneBelow] at h
  have hfound : ∀ cp ∈ checkpoints, checkpointFound (dedupe check rows).byNode
      (newestCheckpoints checkpoints) false cp = none := fun cp hcp =>
    Scan.eq_none_iff_noneBelow.2 (fun c => (noneBelow_chainBreak_iff.1 (h c)).2 cp hcp)
  rcases checkpointFound_eq_none_iff.1 (hfound cp hcp) with ⟨r, hr, hseq, hhash⟩ | ⟨hempty, -⟩
  · obtain ⟨hmem, hnode, -⟩ := mem_of_keptCopy hr
    exact ⟨r, hmem, hnode, hseq, hhash⟩
  · -- the newest checkpoint of a node without rows is reported
    obtain ⟨seq, hget, -⟩ := le_newestCheckpoints hcp
    obtain ⟨last, hlast, hnode, hseq⟩ := exists_newestCheckpoint hget
    rcases checkpointFound_eq_none_iff.1 (hfound last hlast) with ⟨r, hr, -⟩ | ⟨-, hnewest⟩
    · rw [hnode, hempty] at hr
      exact absurd hr (Set.notMem_empty r)
    · rw [hnode, hseq] at hnewest
      exact absurd hget hnewest

end

/-! ## What a checkpoint fixes -/

/-- The rows of a node up to a seq. -/
def upTo (rows : List AuditRow) (node : String) (seq : Int) : Set AuditRow :=
  {r | r ∈ rows ∧ r.sourceNodeId = node ∧ r.monotonicSeq ≤ seq}

section

variable {H : Sha256} (hH : Function.Injective H.hexdigest) {rows : List AuditRow}
  (hok : RowsOk (rowBreak H) rows) {cp : Checkpoint}

include hH hok

/-- A walk down from a checkpoint starts at its row. -/
theorem hash_head_of_backed (hbacked : Backed rows cp)
    (walk : SealedWalk (upTo rows cp.sourceNodeId cp.monotonicSeq)) {a : AuditRow}
    (ha : a ∈ walk.down.head?) : a.hash = cp.hash := by
  obtain ⟨r, hr, hrnode, hrseq, hrs, hrhash⟩ := hbacked
  obtain ⟨⟨har, hanode, hale⟩, has⟩ := walk.mem a (List.mem_of_mem_head? ha)
  have hseq : a.monotonicSeq = r.monotonicSeq := by
    obtain ⟨x, hx, hxseq⟩ := walk.complete r ⟨hr, hrnode, hrseq.le⟩ hrs
    obtain ⟨rest, hdown⟩ : ∃ rest, walk.down = a :: rest := by
      cases hdown : walk.down with
      | nil =>
        rw [hdown] at ha
        exact absurd ha (by simp)
      | cons y rest =>
        rw [hdown, List.head?_cons, Option.mem_some_iff] at ha
        exact ⟨rest, by rw [ha]⟩
    have hdesc := walk.descending
    rw [hdown] at hx hdesc
    rcases List.mem_cons.1 hx with rfl | hx
    · exact hxseq
    · have := (List.pairwise_cons.1 hdesc).1 x hx
      omega
  -- both are copies of the one kept row at this seq
  obtain ⟨ka, hka, hkas, hkahash, -, hagreea⟩ := exists_kept_agree hH hok har has
  obtain ⟨kr, hkr, hkrs, hkrhash, -, hagreer⟩ := exists_kept_agree hH hok hr hrs
  rw [hanode] at hka
  rw [hrnode] at hkr
  have hid : ka.id = kr.id := by
    refine (hok.nodes cp.sourceNodeId).unique ka hka kr hkr hkas hkrs ?_
    rw [← hagreea.monotonicSeq, ← hagreer.monotonicSeq, hseq]
  rw [hid, hkr, Option.some.injEq] at hka
  rw [hkahash, ← hka, ← hkrhash, hrhash]

theorem isChain_upTo {node : String} {seq : Int} (walk : SealedWalk (upTo rows node seq)) :
    walk.down.IsChain (fun a b => a.prevHash = b.hash) := by
  refine walk.isChain hH hok (fun r hr => ⟨hr.1, hr.2.1⟩) (fun r hr w hw hwnode hlt => ?_)
  exact ⟨hw, hwnode, hlt.le.trans hr.2.2⟩

end

/-- **A checkpoint pins history.** Rows that pass a whole-chain verify against a checkpoint have a
    sealed row of its node with its seq and hash. Walking down from there in step, they agree in
    every hashed field with the verified rows the checkpoint was taken from. -/
theorem checkpoint_pins_history {H : Sha256} (hH : Function.Injective H.hexdigest)
    {rows₀ rows₁ : List AuditRow} {checkpoints₀ checkpoints₁ : List Checkpoint} {isPartial₀ : Bool}
    {now : Datetime} {cp : Checkpoint}
    (hok₀ : (verifyChain (rowBreak H) rows₀ checkpoints₀ isPartial₀).ok = true)
    (htaken : cp ∈ takeCheckpoints now rows₀)
    (hok₁ : (verifyChain (rowBreak H) rows₁ checkpoints₁ false).ok = true)
    (hcp : cp ∈ checkpoints₁) :
    Backed rows₁ cp ∧
      ∀ (walk₁ : SealedWalk (upTo rows₁ cp.sourceNodeId cp.monotonicSeq))
        (walk₀ : SealedWalk (upTo rows₀ cp.sourceNodeId cp.monotonicSeq)),
        ∀ p ∈ walk₁.down.zip walk₀.down, AgreeHashed p.1 p.2 := by
  have hrows₀ := rowsOk_of_verifyChain hok₀
  have hrows₁ := rowsOk_of_verifyChain hok₁
  obtain ⟨tip, htip, hs, rfl⟩ := exists_tip_of_mem_takeCheckpoints htaken
  have hbacked₀ : Backed rows₀ (Checkpoint.ofTip now tip) := ⟨tip, htip, rfl, rfl, hs, rfl⟩
  have hbacked₁ : Backed rows₁ (Checkpoint.ofTip now tip) := by
    obtain ⟨r, hr, hnode, hseq, hhash⟩ := backed_of_verifyChain hok₁ hcp
    refine ⟨r, hr, hnode, hseq, ?_, hhash⟩
    -- an unsealed row has no hash to match the tip's with
    rw [AuditRow.isSealed_iff, hhash]
    exact AuditRow.isSealed_iff.1 hs
  refine ⟨hbacked₁, fun walk₁ walk₀ => ?_⟩
  refine agreeHashed_zip hH _ _ (walk₁.rowBreak hH hrows₁ (fun _ hr => hr.1))
    (walk₀.rowBreak hH hrows₀ (fun _ hr => hr.1)) (isChain_upTo hH hrows₁ walk₁)
    (isChain_upTo hH hrows₀ walk₀) (fun a ha b hb => ?_)
  rw [hash_head_of_backed hH hrows₁ hbacked₁ walk₁ ha,
    hash_head_of_backed hH hrows₀ hbacked₀ walk₀ hb]

theorem takeCheckpoints_pair (now : Datetime) {a b : AuditRow} (hnode : a.sourceNodeId = b.sourceNodeId)
    (hs : a.isSealed = true ∧ b.isSealed = true) (hseq : a.monotonicSeq < b.monotonicSeq) :
    takeCheckpoints now [a, b] = [Checkpoint.ofTip now b] := by
  have hhighest : highestSealed [a, b] b.sourceNodeId = some b.monotonicSeq := by
    simp [highestSealed, tipOf, higherSealed, hnode, hs, hseq.le]
  have htips : chainTips [a, b] = [b] := by
    simp [chainTips, hs, hnode, hhighest, hseq.ne']
  simp [takeCheckpoints, htips, checkpointTips, takeTip]

/-- The chain's first row is shipped after its checkpoint was taken. -/
theorem checkpoint_pins_history_shipped :
    Backed [shippedCopy edgePair.1, edgePair.2] (Checkpoint.ofTip Datetime.epoch edgePair.2) ∧
      ∀ (walk₁ : SealedWalk (upTo [shippedCopy edgePair.1, edgePair.2] edgePair.2.sourceNodeId
          edgePair.2.monotonicSeq))
        (walk₀ : SealedWalk (upTo [edgePair.1, edgePair.2] edgePair.2.sourceNodeId
          edgePair.2.monotonicSeq)),
        ∀ p ∈ walk₁.down.zip walk₀.down, AgreeHashed p.1 p.2 := by
  have hpair := shippedPair_edgePair
  generalize edgePair = p at *
  have hok : (verifyChain (rowBreak plainDigest) [p.1, p.2] [] false).ok = true :=
    verifyChain_rows_ok_iff.2 hpair.rowsOk
  have htaken : Checkpoint.ofTip Datetime.epoch p.2 ∈ takeCheckpoints Datetime.epoch [p.1, p.2] := by
    rw [takeCheckpoints_pair _ (hpair.nodes.1.trans hpair.nodes.2.symm) hpair.isSealed hpair.seq_lt]
    exact List.mem_singleton.2 rfl
  have hok' : (verifyChain (rowBreak plainDigest) [shippedCopy p.1, p.2]
      [Checkpoint.ofTip Datetime.epoch p.2] false).ok = true := by
    refine verifyChain_ok_of_backed (distinct_pair hpair.ids_ne) hpair.rowsOk_shipped
      (fun cp hcp => ?_)
    rw [List.mem_singleton.1 hcp]
    exact ⟨p.2, by simp, rfl, rfl, hpair.isSealed.2, rfl⟩
  exact checkpoint_pins_history plainDigest_injective hok htaken hok' (List.mem_singleton.2 rfl)

end Fasten
