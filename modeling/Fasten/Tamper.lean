import Mathlib.Data.List.Chain
import Fasten.RowHash.Binding
import Fasten.RowHash.Seal
import Fasten.Verify.Dedupe

set_option autoImplicit false

/-! # Tamper evidence

The hash of a node's last sealed row fixes the whole chain below it: two chains that verify and end
in one hash are the same, row by row, down to the end of the shorter one (spec §2). -/

namespace Fasten

/-! ## Walking the sealed rows down -/

/-- The sealed rows of a set from the highest seq down, one row a seq. -/
structure SealedWalk (rows : Set AuditRow) where
  down : List AuditRow
  mem : ∀ r ∈ down, r ∈ rows ∧ r.isSealed = true
  descending : down.Pairwise (fun a b => b.monotonicSeq < a.monotonicSeq)
  complete : ∀ r ∈ rows, r.isSealed = true → ∃ x ∈ down, x.monotonicSeq = r.monotonicSeq

/-- Nothing sealed is between two neighbours of a walk. -/
theorem SealedWalk.not_between {rows : Set AuditRow} (walk : SealedWalk rows)
    {pre post : List AuditRow} {a b r : AuditRow} (hsplit : walk.down = pre ++ a :: b :: post)
    (hr : r ∈ rows) (hs : r.isSealed = true) :
    ¬(b.monotonicSeq < r.monotonicSeq ∧ r.monotonicSeq < a.monotonicSeq) := by
  rintro ⟨hlow, hhigh⟩
  obtain ⟨x, hx, hseq⟩ := walk.complete r hr hs
  have hdesc := walk.descending
  rw [hsplit] at hx hdesc
  obtain ⟨-, htail, hpre⟩ := List.pairwise_append.1 hdesc
  obtain ⟨ha, htail⟩ := List.pairwise_cons.1 htail
  obtain ⟨hb, -⟩ := List.pairwise_cons.1 htail
  simp only [List.mem_append, List.mem_cons] at hx
  rcases hx with hx | rfl | rfl | hx
  · have := hpre x hx a List.mem_cons_self
    omega
  · omega
  · omega
  · have := hb x hx
    omega

/-- Put a row in its place, unless its seq is there. -/
def insertDown (row : AuditRow) : List AuditRow → List AuditRow
  | [] => [row]
  | x :: rest =>
    if x.monotonicSeq < row.monotonicSeq then row :: x :: rest
    else if x.monotonicSeq = row.monotonicSeq then x :: rest
    else x :: insertDown row rest

def sealedDown : List AuditRow → List AuditRow
  | [] => []
  | row :: rest => if row.isSealed then insertDown row (sealedDown rest) else sealedDown rest

theorem mem_insertDown {row x : AuditRow} {l : List AuditRow} (h : x ∈ insertDown row l) :
    x = row ∨ x ∈ l := by
  induction l with
  | nil => exact Or.inl (List.mem_singleton.1 h)
  | cons y rest ih =>
    simp only [insertDown] at h
    split_ifs at h
    · exact List.mem_cons.1 h
    · exact Or.inr h
    · rcases List.mem_cons.1 h with rfl | h
      · exact Or.inr List.mem_cons_self
      · exact (ih h).imp_right (List.mem_cons_of_mem _)

theorem pairwise_insertDown (row : AuditRow) {l : List AuditRow}
    (h : l.Pairwise (fun a b => b.monotonicSeq < a.monotonicSeq)) :
    (insertDown row l).Pairwise (fun a b => b.monotonicSeq < a.monotonicSeq) := by
  induction l with
  | nil => exact List.pairwise_singleton _ _
  | cons y rest ih =>
    obtain ⟨hy, hrest⟩ := List.pairwise_cons.1 h
    simp only [insertDown]
    split_ifs with hlt heq
    · refine List.pairwise_cons.2 ⟨fun x hx => ?_, h⟩
      rcases List.mem_cons.1 hx with rfl | hx
      · exact hlt
      · have := hy x hx
        omega
    · exact h
    · refine List.pairwise_cons.2 ⟨fun x hx => ?_, ih hrest⟩
      rcases mem_insertDown hx with rfl | hx
      · omega
      · exact hy x hx

/-- Every seq of the list, and the row's, is there. -/
theorem exists_mem_insertDown {row : AuditRow} {l : List AuditRow} {s : Int}
    (h : row.monotonicSeq = s ∨ ∃ x ∈ l, x.monotonicSeq = s) :
    ∃ x ∈ insertDown row l, x.monotonicSeq = s := by
  induction l with
  | nil =>
    rcases h with h | ⟨x, hx, -⟩
    · exact ⟨row, List.mem_singleton.2 rfl, h⟩
    · exact absurd hx List.not_mem_nil
  | cons y rest ih =>
    simp only [insertDown]
    split_ifs with hlt heq
    · rcases h with h | ⟨x, hx, hseq⟩
      · exact ⟨row, List.mem_cons_self, h⟩
      · exact ⟨x, List.mem_cons_of_mem _ hx, hseq⟩
    · rcases h with h | ⟨x, hx, hseq⟩
      · exact ⟨y, List.mem_cons_self, by omega⟩
      · exact ⟨x, hx, hseq⟩
    · by_cases hy : y.monotonicSeq = s
      · exact ⟨y, List.mem_cons_self, hy⟩
      · obtain ⟨x, hx, hseq⟩ := ih (h.imp_right (fun ⟨x, hx, hseq⟩ =>
          ⟨x, (List.mem_cons.1 hx).resolve_left (fun heq' => hy (heq' ▸ hseq)), hseq⟩))
        exact ⟨x, List.mem_cons_of_mem _ hx, hseq⟩

/-- The walk of a list of rows. -/
def sealedWalk (rows : List AuditRow) : SealedWalk {r | r ∈ rows} where
  down := sealedDown rows
  mem := by
    induction rows with
    | nil => simp [sealedDown]
    | cons row rest ih =>
      intro r hr
      simp only [sealedDown] at hr
      split_ifs at hr with hs
      · rcases mem_insertDown hr with rfl | hr
        · exact ⟨List.mem_cons_self, hs⟩
        · exact ⟨List.mem_cons_of_mem _ (ih r hr).1, (ih r hr).2⟩
      · exact ⟨List.mem_cons_of_mem _ (ih r hr).1, (ih r hr).2⟩
  descending := by
    induction rows with
    | nil => exact List.Pairwise.nil
    | cons row rest ih =>
      simp only [sealedDown]
      split_ifs
      · exact pairwise_insertDown row ih
      · exact ih
  complete := by
    induction rows with
    | nil => simp
    | cons row rest ih =>
      intro r hr hs
      simp only [sealedDown]
      rcases List.mem_cons.1 hr with rfl | hr
      · rw [if_pos hs]
        exact exists_mem_insertDown (Or.inl rfl)
      · split_ifs
        · exact exists_mem_insertDown (Or.inr (ih r hr hs))
        · exact ih r hr hs

/-! ## Two linked walks -/

/-- **The induction down two chains.** Rows that pass the check, linked by `prev_hash`, agree from
    the top down once their top hashes do. -/
theorem agreeHashed_zip {H : Sha256} (hH : Function.Injective H.hexdigest) (as bs : List AuditRow)
    (ha : ∀ r ∈ as, rowBreak H r = none) (hb : ∀ r ∈ bs, rowBreak H r = none)
    (hla : as.IsChain (fun x y => x.prevHash = y.hash))
    (hlb : bs.IsChain (fun x y => x.prevHash = y.hash))
    (htop : ∀ a ∈ as.head?, ∀ b ∈ bs.head?, a.hash = b.hash) :
    ∀ p ∈ as.zip bs, AgreeHashed p.1 p.2 := by
  induction as generalizing bs with
  | nil => simp
  | cons a as ih =>
    cases bs with
    | nil => simp
    | cons b bs =>
      have hagree : AgreeHashed a b := agreeHashed_of_hash_eq hH (ha a (by simp))
        (hb b (by simp)) (htop a rfl b rfl)
      obtain ⟨hlinka, hla⟩ := List.isChain_cons.1 hla
      obtain ⟨hlinkb, hlb⟩ := List.isChain_cons.1 hlb
      have hnext : ∀ x ∈ as.head?, ∀ y ∈ bs.head?, x.hash = y.hash := by
        intro x hx y hy
        rw [← hlinka x hx, ← hlinkb y hy, hagree.prevHash]
      have hrest := ih bs (fun r hr => ha r (List.mem_cons_of_mem _ hr))
        (fun r hr => hb r (List.mem_cons_of_mem _ hr)) hla hlb hnext
      intro p hp
      rcases List.mem_cons.1 hp with rfl | hp
      · exact hagree
      · exact hrest p hp

/-! ## The walk of a chain that verifies -/

section

variable {H : Sha256} (hH : Function.Injective H.hexdigest) {rows : List AuditRow}
  (hok : RowsOk (rowBreak H) rows)

include hH hok

/-- A sealed row agrees with its kept copy, so whatever holds of kept rows holds of it. -/
theorem exists_kept_agree {r : AuditRow} (hr : r ∈ rows) (hs : r.isSealed = true) :
    ∃ k, keptCopy rows r.sourceNodeId k.id = some k ∧ k.isSealed = true ∧ r.hash = k.hash ∧
      rowBreak H r = none ∧ AgreeHashed r k := by
  obtain ⟨k, hk, hks⟩ := exists_keptCopy hr
  obtain ⟨hkr, hknode, hkid⟩ := mem_of_keptCopy hk
  obtain ⟨hhash, hcheck⟩ := hok.copies hr hs hk
  have hkself : keptCopy rows r.sourceNodeId k.id = some k := by rw [hkid]; exact hk
  have hkcheck := (hok.nodes r.sourceNodeId).checked k hkself (hks hs)
  exact ⟨k, hkself, hks hs, hhash, hcheck, agreeHashed_of_hash_eq hH hcheck hkcheck hhash⟩

/-- **Neighbours of a walk are linked.** -/
theorem SealedWalk.isChain {node : String} {S : Set AuditRow} (walk : SealedWalk S)
    (hS : ∀ r ∈ S, r ∈ rows ∧ r.sourceNodeId = node)
    (hlower : ∀ r ∈ S, ∀ w ∈ rows, w.sourceNodeId = node → w.monotonicSeq < r.monotonicSeq →
      w ∈ S) :
    walk.down.IsChain (fun a b => a.prevHash = b.hash) := by
  rw [List.isChain_iff_forall_rel_of_append_cons_cons]
  intro a b pre post hsplit
  obtain ⟨haS, has⟩ := walk.mem a (by rw [hsplit]; simp)
  obtain ⟨hbS, hbs⟩ := walk.mem b (by rw [hsplit]; simp)
  obtain ⟨har, hanode⟩ := hS a haS
  obtain ⟨hbr, hbnode⟩ := hS b hbS
  have hlt : b.monotonicSeq < a.monotonicSeq := by
    have hdesc := walk.descending
    rw [hsplit] at hdesc
    exact (List.pairwise_cons.1 (List.pairwise_append.1 hdesc).2.1).1 b List.mem_cons_self
  obtain ⟨ka, hka, hkas, -, -, hagreea⟩ := exists_kept_agree hH hok har has
  obtain ⟨kb, hkb, hkbs, hhashb, -, hagreeb⟩ := exists_kept_agree hH hok hbr hbs
  rw [hanode] at hka
  rw [hbnode] at hkb
  have hnode := hok.nodes node
  rw [hagreea.prevHash, hhashb]
  refine hnode.linked kb hkb ka hka hkbs hkas ?_ ?_
  · rw [← hagreea.monotonicSeq, ← hagreeb.monotonicSeq]
    exact hlt
  · rintro w hw ⟨hlow, hhigh⟩
    rw [← hagreeb.monotonicSeq] at hlow
    rw [← hagreea.monotonicSeq] at hhigh
    obtain ⟨hwr, hwnode, -⟩ := mem_of_keptCopy (show keptCopy rows node w.id = some w from hw)
    cases hws : w.isSealed with
    | true =>
      exact walk.not_between hsplit (hlower a haS w hwr hwnode hhigh) hws ⟨hlow, hhigh⟩
    | false =>
      -- unsealed rows are all below the sealed ones
      have := hnode.unsealedBelow w hw kb hkb hws hkbs
      rw [← hagreeb.monotonicSeq] at this
      omega

theorem SealedWalk.rowBreak {S : Set AuditRow} (hS : ∀ r ∈ S, r ∈ rows) (walk : SealedWalk S) :
    ∀ r ∈ walk.down, rowBreak H r = none := by
  intro r hr
  obtain ⟨hrS, hs⟩ := walk.mem r hr
  obtain ⟨k, -, -, -, hcheck, -⟩ := exists_kept_agree hH hok (hS r hrS) hs
  exact hcheck

end

/-! ## The result -/

/-- **Tamper evidence.** If two lists of rows of one node verify and their highest sealed rows have
    one hash, then the rows met walking down both in step agree in every hashed field. -/
theorem verifyChain_tamper_evident {H : Sha256} (hH : Function.Injective H.hexdigest)
    {node : String} {rows₁ rows₂ : List AuditRow} {checkpoints₁ checkpoints₂ : List Checkpoint}
    {isPartial₁ isPartial₂ : Bool} (hnode₁ : ∀ r ∈ rows₁, r.sourceNodeId = node)
    (hnode₂ : ∀ r ∈ rows₂, r.sourceNodeId = node)
    (hok₁ : (verifyChain (rowBreak H) rows₁ checkpoints₁ isPartial₁).ok = true)
    (hok₂ : (verifyChain (rowBreak H) rows₂ checkpoints₂ isPartial₂).ok = true)
    (walk₁ : SealedWalk {r | r ∈ rows₁}) (walk₂ : SealedWalk {r | r ∈ rows₂})
    (htop : ∀ a ∈ walk₁.down.head?, ∀ b ∈ walk₂.down.head?, a.hash = b.hash) :
    ∀ p ∈ walk₁.down.zip walk₂.down, AgreeHashed p.1 p.2 := by
  have hrows₁ := rowsOk_of_verifyChain hok₁
  have hrows₂ := rowsOk_of_verifyChain hok₂
  exact agreeHashed_zip hH _ _ (walk₁.rowBreak hH hrows₁ (fun _ hr => hr))
    (walk₂.rowBreak hH hrows₂ (fun _ hr => hr))
    (walk₁.isChain hH hrows₁ (fun r hr => ⟨hr, hnode₁ r hr⟩) (fun _ _ w hw _ _ => hw))
    (walk₂.isChain hH hrows₂ (fun r hr => ⟨hr, hnode₂ r hr⟩) (fun _ _ w hw _ _ => hw)) htop

theorem sealedWalk_singleton {row : AuditRow} (h : row.isSealed = true) :
    (sealedWalk [row]).down = [row] := by
  simp [sealedWalk, sealedDown, insertDown, h]

theorem sealedWalk_pair {a b : AuditRow} (hs : a.isSealed = true ∧ b.isSealed = true)
    (hseq : a.monotonicSeq < b.monotonicSeq) : (sealedWalk [a, b]).down = [b, a] := by
  have h : ¬b.monotonicSeq < a.monotonicSeq ∧ b.monotonicSeq ≠ a.monotonicSeq :=
    ⟨hseq.asymm, hseq.ne'⟩
  simp [sealedWalk, sealedDown, insertDown, hs, h]

/-- A row marked as shipped. -/
def shippedCopy (row : AuditRow) : AuditRow := { row with shippedAt := some Datetime.epoch }

/-- The two rows of node `edge`. -/
def edgePair : AuditRow × AuditRow := sealedPair "edge" edge_ne_empty

/-- A chain of two rows and the same one with its first row shipped. -/
structure ShippedPair (p : AuditRow × AuditRow) : Prop extends SealedPair "edge" p where
  ids_ne : p.1.id ≠ p.2.id
  seq_lt : p.1.monotonicSeq < p.2.monotonicSeq
  rowsOk : RowsOk (rowBreak plainDigest) [p.1, p.2]
  rowsOk_shipped : RowsOk (rowBreak plainDigest) [shippedCopy p.1, p.2]

theorem shippedPair_edgePair : ShippedPair edgePair := by
  have hpair : SealedPair "edge" edgePair := sealedPair_spec "edge" (by decide)
  generalize edgePair = p at *
  have hid : p.1.id ≠ p.2.id := by
    rw [hpair.ids.1, hpair.ids.2]
    decide
  have hseq : p.1.monotonicSeq < p.2.monotonicSeq := by
    rw [hpair.seqs.1, hpair.seqs.2]
    decide
  exact ⟨hpair, hid, hseq, rowsOk_pair hpair.checks hpair.isSealed hid hseq hpair.link,
    rowsOk_pair ⟨rowBreak_setShippedAt hpair.checks.1 hpair.unshipped.1 _, hpair.checks.2⟩
      hpair.isSealed hid hseq hpair.link⟩

theorem verifyChain_tamper_evident_shipped :
    (verifyChain (rowBreak plainDigest) [edgePair.1, edgePair.2] [] false).ok = true ∧
      ∀ p ∈ (sealedWalk [edgePair.1, edgePair.2]).down.zip
          (sealedWalk [shippedCopy edgePair.1, edgePair.2]).down, AgreeHashed p.1 p.2 := by
  have hpair := shippedPair_edgePair
  generalize edgePair = p at *
  have hok : (verifyChain (rowBreak plainDigest) [p.1, p.2] [] false).ok = true :=
    verifyChain_rows_ok_iff.2 hpair.rowsOk
  have hok_shipped :
      (verifyChain (rowBreak plainDigest) [shippedCopy p.1, p.2] [] false).ok = true :=
    verifyChain_rows_ok_iff.2 hpair.rowsOk_shipped
  refine ⟨hok, @verifyChain_tamper_evident _ plainDigest_injective "edge" _ _ _ _ _ _
    (by simpa using hpair.nodes) (by simpa [shippedCopy] using hpair.nodes) hok hok_shipped _ _
    (fun a ha b hb => ?_)⟩
  rw [sealedWalk_pair hpair.isSealed hpair.seq_lt] at ha
  rw [sealedWalk_pair (a := shippedCopy p.1) hpair.isSealed hpair.seq_lt] at hb
  rw [← Option.some.inj ha, ← Option.some.inj hb]

/-! ## What form `"1"` leaves open -/

/-- A row as form `"1"` sealed it, with a salt, which that form does not hash. -/
def sealForm1 (H : Sha256) (salt : Option String) (row : AuditRow) : AuditRow :=
  { row with
    canonicalFormId := "1"
    hash := rowHashForm1 H { row with canonicalFormId := "1" }.rowDict canonicalJson
    detailSalt := salt }

theorem rowBreak_sealForm1 (H : Sha256) (salt : Option String) (row : AuditRow) :
    rowBreak H (sealForm1 H salt row) = none :=
  rowBreak_eq_none_iff.2 ⟨.one, rfl, fun h => Form.noConfusion h, _, List.mem_cons_self, _,
    Or.inl rfl, rfl⟩

theorem formId_sealForm1 (H : Sha256) (salt : Option String) (row : AuditRow) :
    (sealForm1 H salt row).formId = "1" := rfl

/-- The salt of a form `"1"` row can be changed without changing the chain. -/
theorem form1_detailSalt_not_bound :
    ¬∀ (H : Sha256), Function.Injective H.hexdigest →
      ∀ (node : String) (rows₁ rows₂ : List AuditRow), (∀ r ∈ rows₁, r.sourceNodeId = node) →
      (∀ r ∈ rows₂, r.sourceNodeId = node) →
      (verifyChain (rowBreak H) rows₁ [] false).ok = true →
      (verifyChain (rowBreak H) rows₂ [] false).ok = true →
      ∀ (walk₁ : SealedWalk {r | r ∈ rows₁}) (walk₂ : SealedWalk {r | r ∈ rows₂}),
      (∀ a ∈ walk₁.down.head?, ∀ b ∈ walk₂.down.head?, a.hash = b.hash) →
      ∀ p ∈ walk₁.down.zip walk₂.down, p.1.formId ≠ "2" → p.1.detailSalt = p.2.detailSalt := by
  intro h
  have hok : ∀ salt, (verifyChain (rowBreak plainDigest)
      [sealForm1 plainDigest salt (AuditRow.sample "evt-1" 1)] [] false).ok = true := fun salt =>
    verifyChain_rows_ok_iff.2 (rowsOk_singleton (fun _ => rowBreak_sealForm1 _ _ _))
  have hsealed : ∀ salt, (sealForm1 plainDigest salt (AuditRow.sample "evt-1" 1)).isSealed = true :=
    fun salt => AuditRow.isSealed_iff.2 (plainDigest.nonempty _)
  have hnode : ∀ salt, ∀ r ∈ [sealForm1 plainDigest salt (AuditRow.sample "evt-1" 1)],
      r.sourceNodeId = "edge" := by
    intro salt r hr
    rw [List.mem_singleton.1 hr]
    rfl
  have hbad := h plainDigest plainDigest_injective "edge" _ _ (hnode none) (hnode (some "5a17"))
    (hok none) (hok (some "5a17")) (sealedWalk _) (sealedWalk _)
  simp only [sealedWalk_singleton (hsealed _), List.head?_cons, Option.mem_some_iff,
    forall_eq', List.zip_cons_cons, List.zip_nil_left, List.mem_singleton, forall_eq,
    formId_sealForm1] at hbad
  exact absurd (hbad rfl (by decide)) (by simp [sealForm1])

end Fasten
