import Fasten.Verify.Node

set_option autoImplicit false

/-! # When a list of rows verifies

Of the copies of one row the first sealed one is kept, or the first one if none is sealed; a later
sealed copy must have its hash and pass the check. `noneBelow_chainBreak_iff` says what
`verify_chain` accepts below a seq without mentioning the dicts it builds. -/

namespace Fasten

open Scan

variable {check : AuditRow → Option Reason}

/-! ## The kept copy -/

def copiesOf (rows : List AuditRow) (node id : String) : List AuditRow :=
  rows.filter (fun r => r.sourceNodeId == node && r.id == id)

/-- The copy that `verify_chain` keeps. -/
def keptCopy (rows : List AuditRow) (node id : String) : Option AuditRow :=
  ((copiesOf rows node id).find? (·.isSealed)).or (copiesOf rows node id).head?

variable {rows : List AuditRow} {node : String} {r row : AuditRow} {state : Deduped}
  {checkpoints : List Checkpoint} {isPartial : Bool} {c : Int}

theorem mem_copiesOf {id : String} :
    r ∈ copiesOf rows node id ↔ r ∈ rows ∧ r.sourceNodeId = node ∧ r.id = id := by
  simp [copiesOf]

theorem mem_of_keptCopy {id : String} (h : keptCopy rows node id = some r) :
    r ∈ rows ∧ r.sourceNodeId = node ∧ r.id = id := by
  rw [keptCopy, Option.or_eq_some_iff] at h
  rcases h with h | ⟨-, h⟩
  · exact mem_copiesOf.1 (List.mem_of_find?_eq_some h)
  · exact mem_copiesOf.1 (List.mem_of_mem_head? h)

/-- A row that is there has a kept copy, and a sealed one if it is sealed. -/
theorem exists_keptCopy (h : r ∈ rows) :
    ∃ k, keptCopy rows r.sourceNodeId r.id = some k ∧ (r.isSealed = true → k.isSealed = true) := by
  have hmem : r ∈ copiesOf rows r.sourceNodeId r.id := mem_copiesOf.2 ⟨h, rfl, rfl⟩
  cases hfind : (copiesOf rows r.sourceNodeId r.id).find? (·.isSealed) with
  | some k =>
    refine ⟨k, by rw [keptCopy, hfind, Option.some_or], fun _ => ?_⟩
    simpa using List.find?_some hfind
  | none =>
    have hr : r.isSealed = false := by simpa using List.find?_eq_none.1 hfind r hmem
    cases hhead : (copiesOf rows r.sourceNodeId r.id).head? with
    | none =>
      rw [List.head?_eq_none_iff] at hhead
      rw [hhead] at hmem
      exact absurd hmem List.not_mem_nil
    | some k =>
      exact ⟨k, by rw [keptCopy, hfind, Option.none_or, hhead], fun hs => by simp [hr] at hs⟩

theorem copiesOf_append (rows rows' : List AuditRow) (node id : String) :
    copiesOf (rows ++ rows') node id = copiesOf rows node id ++ copiesOf rows' node id :=
  List.filter_append ..

/-- One more row changes the kept copy of its own id only. -/
theorem keptCopy_append_other {id : String} (h : ¬(row.sourceNodeId = node ∧ row.id = id)) :
    keptCopy (rows ++ [row]) node id = keptCopy rows node id := by
  have hnil : copiesOf [row] node id = [] := by
    simpa [copiesOf] using h
  rw [keptCopy, keptCopy, copiesOf_append, hnil, List.append_nil]

theorem keptCopy_append_self (rows : List AuditRow) (row : AuditRow) :
    keptCopy (rows ++ [row]) row.sourceNodeId row.id =
      match keptCopy rows row.sourceNodeId row.id with
      | none => some row
      | some old => if old.isSealed = false ∧ row.isSealed = true then some row else some old := by
  have hself : copiesOf [row] row.sourceNodeId row.id = [row] := by simp [copiesOf]
  rw [keptCopy, keptCopy, copiesOf_append, hself, List.find?_append, List.head?_append]
  cases hfind : (copiesOf rows row.sourceNodeId row.id).find? (·.isSealed) with
  | some k =>
    have hk : k.isSealed = true := by simpa using List.find?_some hfind
    simp [hk]
  | none =>
    cases hhead : (copiesOf rows row.sourceNodeId row.id).head? with
    | none => cases hrow : row.isSealed <;> simp [hrow]
    | some old =>
      have hold : old.isSealed = false := by
        simpa using List.find?_eq_none.1 hfind old (List.mem_of_mem_head? hhead)
      cases hrow : row.isSealed <;> simp [hrow, hold]

/-- A sealed copy is kept if it is the first. -/
theorem keptCopy_sealed_iff {id : String} {k : AuditRow} (hk : k.isSealed = true) :
    keptCopy rows node id = some k ↔
      rows.find? (fun r => r.isSealed && (r.sourceNodeId == node && r.id == id)) = some k := by
  have hfind : (copiesOf rows node id).find? (·.isSealed)
      = rows.find? (fun r => r.isSealed && (r.sourceNodeId == node && r.id == id)) := by
    rw [copiesOf, List.find?_filter]
    congr 1
    funext r
    rw [Bool.decide_and, Bool.decide_eq_true, Bool.decide_eq_true, Bool.and_comm]
  rw [keptCopy, Option.or_eq_some_iff, ← hfind]
  refine ⟨fun h => h.resolve_right (fun h => ?_), Or.inl⟩
  exact absurd hk (List.find?_eq_none.1 h.1 k (List.mem_of_mem_head? h.2))

/-- Once a sealed copy is kept, it stays. -/
theorem keptCopy_append_of_sealed {id : String} {k : AuditRow} (h : keptCopy rows node id = some k)
    (hk : k.isSealed = true) (rows' : List AuditRow) :
    keptCopy (rows ++ rows') node id = some k := by
  rw [keptCopy_sealed_iff hk] at h ⊢
  rw [List.find?_append, h, Option.some_or]

theorem keptCopy_of_first {pre post : List AuditRow} (hrow : row.isSealed = true)
    (hpre : ∀ old, keptCopy pre row.sourceNodeId row.id = some old → old.isSealed = false) :
    keptCopy (pre ++ row :: post) row.sourceNodeId row.id = some row := by
  rw [keptCopy_sealed_iff hrow, List.find?_append, Option.or_eq_some_iff]
  refine Or.inr ⟨Option.eq_none_iff_forall_not_mem.2 (fun old hold => ?_), by simp [hrow]⟩
  have hs : old.isSealed = true := by simpa using (Bool.and_eq_true _ _ ▸ List.find?_some hold).1
  exact absurd hs (by simp [hpre old ((keptCopy_sealed_iff hs).2 hold)])

/-! ## The dicts of the loop -/

/-- The kept rows of one node. -/
def Deduped.keptRows (state : Deduped) (node : String) : List (String × AuditRow) :=
  (Dict.get? state.byNode node).getD []

/-- Each sealed copy that comes after a kept one agrees with it, below `c`. -/
def CopiesAgree (check : AuditRow → Option Reason) (c : Int) (rows : List AuditRow) : Prop :=
  ∀ pre row post old, rows = pre ++ row :: post →
    keptCopy pre row.sourceNodeId row.id = some old → old.isSealed = true →
    row.isSealed = true → NoneBelow c (copyBreak check old row)

/-- What the loop has built after the rows. -/
structure DedupeInv (check : AuditRow → Option Reason) (rows : List AuditRow)
    (state : Deduped) : Prop where
  nodup : ∀ node, (Dict.keys (state.keptRows node)).Nodup
  get? : ∀ node id, Dict.get? (state.keptRows node) id = keptCopy rows node id
  dup : ∀ c, NoneBelow c state.dup ↔ CopiesAgree check c rows

theorem keptRows_set {kept : List (String × AuditRow)} {dup : Option Break} (n : String) :
    Deduped.keptRows ⟨Dict.set state.byNode node kept, dup⟩ n
      = if node = n then kept else state.keptRows n := by
  simp only [Deduped.keptRows, Dict.get?_set]
  split_ifs <;> rfl

/-- A split of one more row is a split of the rows before it, or the row itself. -/
theorem split_append_singleton_iff {pre post : List AuditRow} {x : AuditRow} :
    rows ++ [x] = pre ++ row :: post ↔
      (∃ post', post = post' ++ [x] ∧ rows = pre ++ row :: post') ∨
        (post = [] ∧ rows = pre ∧ x = row) := by
  constructor
  · intro h
    rcases List.eq_nil_or_concat post with rfl | ⟨post', y, rfl⟩
    · obtain ⟨hrows, hx⟩ := List.append_inj' h rfl
      exact Or.inr ⟨rfl, hrows, (List.cons.inj hx).1⟩
    · have h' : rows ++ [x] = (pre ++ row :: post') ++ [y] := by simpa using h
      obtain ⟨hrows, hx⟩ := List.append_inj' h' rfl
      exact Or.inl ⟨post', by rw [(List.cons.inj hx).1, List.concat_eq_append], hrows⟩
  · rintro (⟨post', rfl, rfl⟩ | ⟨rfl, rfl, rfl⟩) <;> simp

/-- One more row is taken. -/
theorem copiesAgree_concat_iff {x : AuditRow} :
    CopiesAgree check c (rows ++ [x]) ↔ CopiesAgree check c rows ∧
      ∀ old, keptCopy rows x.sourceNodeId x.id = some old → old.isSealed = true →
        x.isSealed = true → NoneBelow c (copyBreak check old x) := by
  constructor
  · intro h
    refine ⟨fun pre row post old hsplit => ?_, fun old => ?_⟩
    · exact h pre row (post ++ [x]) old (by rw [hsplit]; simp)
    · exact h rows x [] old rfl
  · rintro ⟨hrows, hx⟩ pre row post old hsplit
    rcases split_append_singleton_iff.1 hsplit with ⟨post', -, heq⟩ | ⟨-, rfl, rfl⟩
    · exact hrows pre row post' old heq
    · exact hx old

/-- The row becomes the kept copy and is compared with none. -/
theorem dedupeInv_keep (hinv : DedupeInv check rows state)
    (hself : keptCopy (rows ++ [row]) row.sourceNodeId row.id = some row)
    (hfree : ∀ old, keptCopy rows row.sourceNodeId row.id = some old → old.isSealed = true →
      row.isSealed = false) :
    DedupeInv check (rows ++ [row])
      ⟨Dict.set state.byNode row.sourceNodeId
        (Dict.set (state.keptRows row.sourceNodeId) row.id row), state.dup⟩ := by
  refine ⟨fun node => ?_, fun node id => ?_, fun c => ?_⟩
  · rw [keptRows_set]
    split_ifs
    · exact Dict.nodup_keys_set (hinv.nodup _) _ _
    · exact hinv.nodup node
  · rw [keptRows_set]
    by_cases hnode : row.sourceNodeId = node
    · subst hnode
      rw [if_pos rfl, Dict.get?_set]
      by_cases hid : row.id = id
      · subst hid
        rw [if_pos rfl, hself]
      · rw [if_neg hid, hinv.get?, keptCopy_append_other (fun h => hid h.2)]
    · rw [if_neg hnode, hinv.get?, keptCopy_append_other (fun h => hnode h.1)]
  · rw [copiesAgree_concat_iff, ← hinv.dup c]
    refine ⟨fun h => ⟨h, fun old hkept hs hrs => ?_⟩, fun h => h.1⟩
    exact absurd hrs (by simp [hfree old hkept hs])

/-- The row is dropped, and `dup` takes in what it was found to differ by. -/
theorem dedupeInv_drop (hinv : DedupeInv check rows state) {dup : Option Break}
    (hself : keptCopy (rows ++ [row]) row.sourceNodeId row.id
      = keptCopy rows row.sourceNodeId row.id)
    (hdup : ∀ c, NoneBelow c dup ↔ NoneBelow c state.dup ∧
      ∀ old, keptCopy rows row.sourceNodeId row.id = some old → old.isSealed = true →
        row.isSealed = true → NoneBelow c (copyBreak check old row)) :
    DedupeInv check (rows ++ [row]) ⟨state.byNode, dup⟩ := by
  refine ⟨hinv.nodup, fun node id => ?_, fun c => ?_⟩
  · have hget := hinv.get? node id
    by_cases h : row.sourceNodeId = node ∧ row.id = id
    · rw [← h.1, ← h.2] at hget ⊢
      rw [hself]
      exact hget
    · rw [keptCopy_append_other h]
      exact hget
  · rw [copiesAgree_concat_iff, ← hinv.dup c]
    exact hdup c

theorem dedupeInv_step (hinv : DedupeInv check rows state) (row : AuditRow) :
    DedupeInv check (rows ++ [row]) (dedupeStep check state row) := by
  have hold : Dict.get? ((Dict.get? state.byNode row.sourceNodeId).getD []) row.id
      = keptCopy rows row.sourceNodeId row.id := hinv.get? _ _
  have happ := keptCopy_append_self rows row
  simp only [dedupeStep, hold]
  cases hkept : keptCopy rows row.sourceNodeId row.id with
  | none =>
    refine dedupeInv_keep hinv (by rw [happ, hkept]) (fun old h => ?_)
    rw [hkept] at h
    exact absurd h (by simp)
  | some old =>
    rw [hkept] at happ
    simp only at happ ⊢
    have hthis : ∀ old', keptCopy rows row.sourceNodeId row.id = some old' → old' = old := by
      intro old' h
      rw [hkept, Option.some.injEq] at h
      exact h.symm
    split_ifs with hunsealed hsealed
    · refine dedupeInv_keep hinv (by rw [happ, if_pos hunsealed]) (fun old' h hs => ?_)
      rw [hthis old' h, hunsealed.1] at hs
      exact absurd hs (by simp)
    · rw [if_neg hunsealed] at happ
      refine dedupeInv_drop hinv (by rw [happ, hkept]) (fun c => ?_)
      rw [noneBelow_lower]
      refine and_congr_right (fun _ => ⟨fun h old' h' _ _ => ?_, fun h => ?_⟩)
      · rw [hthis old' h']
        exact h
      · exact h old hkept hsealed.1 hsealed.2
    · rw [if_neg hunsealed] at happ
      refine dedupeInv_drop hinv (by rw [happ, hkept]) (fun c => ?_)
      refine ⟨fun h => ⟨h, fun old' h' hs hrs => ?_⟩, fun h => h.1⟩
      rw [hthis old' h'] at hs
      exact absurd ⟨hs, hrs⟩ hsealed

theorem dedupe_concat (check : AuditRow → Option Reason) (rows : List AuditRow) (row : AuditRow) :
    dedupe check (rows ++ [row]) = dedupeStep check (dedupe check rows) row := by
  simp [dedupe]

theorem dedupeInv_dedupe (rows : List AuditRow) :
    DedupeInv check rows (dedupe check rows) := by
  induction rows using List.reverseRecOn with
  | nil =>
    refine ⟨fun _ => List.nodup_nil, fun _ _ => rfl, fun c => ?_⟩
    simp [dedupe, CopiesAgree]
  | append_singleton rows row ih =>
    rw [dedupe_concat]
    exact dedupeInv_step ih row

theorem mem_values_keptRows :
    r ∈ Dict.values ((dedupe check rows).keptRows node) ↔ keptCopy rows node r.id = some r := by
  have hinv : DedupeInv check rows (dedupe check rows) := dedupeInv_dedupe rows
  constructor
  · intro h
    obtain ⟨⟨id, r'⟩, hmem, rfl⟩ := List.mem_map.1 h
    have hget := Dict.get?_of_mem (hinv.nodup node) hmem
    rw [hinv.get?] at hget
    rw [(mem_of_keptCopy hget).2.2]
    exact hget
  · intro h
    rw [← hinv.get?] at h
    exact List.mem_map.2 ⟨_, Dict.mem_of_get? h, rfl⟩

theorem map_id_values_keptRows (rows : List AuditRow) (node : String) :
    (Dict.values ((dedupe check rows).keptRows node)).map (·.id)
      = Dict.keys ((dedupe check rows).keptRows node) := by
  have hinv : DedupeInv check rows (dedupe check rows) := dedupeInv_dedupe rows
  rw [Dict.values, Dict.keys, List.map_map]
  refine List.map_congr_left (fun item hitem => ?_)
  have hget := Dict.get?_of_mem (hinv.nodup node) (show (item.1, item.2) ∈ _ from hitem)
  rw [hinv.get?] at hget
  exact (mem_of_keptCopy hget).2.2

/-! ## What `verify_chain` accepts -/

/-- The rows verify below `c`: on every node the kept rows are in order, and every sealed copy has
    the hash of the kept one and passes the check. -/
structure RowsOkBelow (check : AuditRow → Option Reason) (c : Int) (rows : List AuditRow) :
    Prop where
  nodes : ∀ node, NodeOk check {r | keptCopy rows node r.id = some r ∧ r.monotonicSeq < c}
  copies : ∀ row ∈ rows, row.isSealed = true →
    ∀ k, keptCopy rows row.sourceNodeId row.id = some k →
      min row.monotonicSeq k.monotonicSeq < c → row.hash = k.hash ∧ check row = none

theorem noneBelow_copyBreak_iff {old : AuditRow} :
    NoneBelow c (copyBreak check old row) ↔
      (min row.monotonicSeq old.monotonicSeq < c → row.hash = old.hash ∧ check row = none) := by
  unfold copyBreak
  by_cases hhash : row.hash = old.hash
  · cases hcheck : check row with
    | none | some => simp [hhash]
  · simp [hhash]

theorem noneBelow_nodeBreaks_iff :
    (∀ b ∈ nodeBreaks check (dedupe check rows).byNode, NoneBelow c b)
      ↔ ∀ node, NodeOk check {r | keptCopy rows node r.id = some r ∧ r.monotonicSeq < c} := by
  have hinv : DedupeInv check rows (dedupe check rows) := dedupeInv_dedupe rows
  have hnode : ∀ node, NoneBelow c
      (firstBreak check (sortBySeq (Dict.values ((dedupe check rows).keptRows node))))
      ↔ NodeOk check {r | keptCopy rows node r.id = some r ∧ r.monotonicSeq < c} := by
    intro node
    rw [noneBelow_sorted_iff (by rw [map_id_values_keptRows]; exact hinv.nodup node)]
    simp only [mem_values_keptRows]
  constructor
  · intro h node
    rw [← hnode]
    by_cases hmem : node ∈ Dict.keys (dedupe check rows).byNode
    · refine h _ (List.mem_map.2 ⟨node, ?_, rfl⟩)
      exact (List.mem_insertionSort _).2 hmem
    · -- a node without rows has nothing to break
      have hnil : (dedupe check rows).keptRows node = [] := by
        rw [Deduped.keptRows, Dict.get?_eq_none_iff.2 hmem, Option.getD_none]
      rw [hnil]
      exact noneBelow_none c
  · intro h b hb
    obtain ⟨node, -, rfl⟩ := List.mem_map.1 hb
    exact (hnode node).2 (h node)

/-- Every sealed copy is compared with the kept one: the kept copy by the walk, a later copy by the
    loop that dropped it. -/
theorem rowsOkBelow_iff_dropped :
    RowsOkBelow check c rows ↔
      (∀ node, NodeOk check {r | keptCopy rows node r.id = some r ∧ r.monotonicSeq < c}) ∧
        CopiesAgree check c rows := by
  constructor
  · rintro ⟨hnodes, hcopies⟩
    refine ⟨hnodes, fun pre row post old hsplit hold hs hsealed => ?_⟩
    subst hsplit
    rw [noneBelow_copyBreak_iff]
    exact hcopies row (by simp) hsealed old (keptCopy_append_of_sealed hold hs _)
  · rintro ⟨hnodes, hdup⟩
    refine ⟨hnodes, fun row hrow hsealed k hk hlt => ?_⟩
    obtain ⟨pre, post, rfl⟩ := List.append_of_mem hrow
    by_cases hfirst : ∀ old, keptCopy pre row.sourceNodeId row.id = some old →
        old.isSealed = false
    · -- this copy is the kept one, so the walk has checked it
      have hself : keptCopy (pre ++ row :: post) row.sourceNodeId row.id = some row :=
        keptCopy_of_first hsealed hfirst
      rw [hself, Option.some.injEq] at hk
      subst hk
      exact ⟨rfl, (hnodes row.sourceNodeId).checked row ⟨hself, by omega⟩ hsealed⟩
    · push Not at hfirst
      obtain ⟨old, hold, hs⟩ := hfirst
      have hs' : old.isSealed = true := by simpa using hs
      have hkept := keptCopy_append_of_sealed hold hs' (row :: post)
      rw [hkept, Option.some.injEq] at hk
      subst hk
      exact noneBelow_copyBreak_iff.1 (hdup pre row post old rfl hold hs' hsealed) hlt

theorem rowsOkBelow_iff :
    (∀ b ∈ nodeBreaks check (dedupe check rows).byNode, NoneBelow c b)
        ∧ NoneBelow c (dedupe check rows).dup
      ↔ RowsOkBelow check c rows := by
  rw [noneBelow_nodeBreaks_iff, (dedupeInv_dedupe rows).dup c, rowsOkBelow_iff_dropped]

/-- Only the verdicts of the check matter. -/
theorem RowsOkBelow.of_check {check' : AuditRow → Option Reason} (h : RowsOkBelow check c rows)
    (hcheck : ∀ r ∈ rows, check r = none → check' r = none) : RowsOkBelow check' c rows where
  nodes node :=
    { h.nodes node with
      checked := fun r hr hs =>
        hcheck r (mem_of_keptCopy hr.1).1 ((h.nodes node).checked r hr hs) }
  copies row hrow hs k hk hlt :=
    ⟨(h.copies row hrow hs k hk hlt).1, hcheck row hrow (h.copies row hrow hs k hk hlt).2⟩

/-- **What `verify_chain` accepts below a seq.** -/
theorem noneBelow_chainBreak_iff :
    NoneBelow c (chainBreak check rows checkpoints isPartial) ↔
      RowsOkBelow check c rows ∧
        ∀ cp ∈ checkpoints, NoneBelow c (checkpointFound (dedupe check rows).byNode
          (newestCheckpoints checkpoints) isPartial cp) := by
  simp only [chainBreak, noneBelow_foldl_lower, noneBelow_lower, noneBelow_none, true_and,
    rowsOkBelow_iff, List.mem_map, sortCheckpoints, List.mem_insertionSort,
    forall_exists_index, and_imp, forall_apply_eq_imp_iff₂]

/-- The rows verify. -/
def RowsOk (check : AuditRow → Option Reason) (rows : List AuditRow) : Prop :=
  ∀ c, RowsOkBelow check c rows

theorem RowsOk.nodes (h : RowsOk check rows) (node : String) :
    NodeOk check {r | keptCopy rows node r.id = some r} :=
  nodeOk_of_forall_below (fun c => (h c).nodes node)

theorem RowsOk.copies (h : RowsOk check rows) {k : AuditRow} (hrow : row ∈ rows)
    (hs : row.isSealed = true) (hk : keptCopy rows row.sourceNodeId row.id = some k) :
    row.hash = k.hash ∧ check row = none :=
  (h (min row.monotonicSeq k.monotonicSeq + 1)).copies row hrow hs k hk (by omega)

theorem chainBreak_nil (checkpoints : List Checkpoint) :
    chainBreak check [] checkpoints true = none := by
  rw [eq_none_iff_noneBelow]
  intro c
  rw [noneBelow_chainBreak_iff]
  refine ⟨⟨fun node => ?_, fun row hrow => absurd hrow List.not_mem_nil⟩, fun cp _ => ?_⟩
  · constructor <;> simp [keptCopy, copiesOf]
  · simp [checkpointFound, dedupe, nodeIndex, Dict.values, Dict.keys]

/-- The early return gives what the loops would give. -/
theorem verifyChain_ok_iff :
    (verifyChain check rows checkpoints isPartial).ok = true
      ↔ chainBreak check rows checkpoints isPartial = none := by
  unfold verifyChain
  split_ifs with hempty
  · obtain ⟨rfl, hpartial⟩ := hempty
    refine iff_of_true rfl ?_
    cases isPartial with
    | true => exact chainBreak_nil checkpoints
    | false =>
      rcases hpartial with h | rfl
      · exact absurd h (by simp)
      · exact chainBreak_nil []
  · cases hbreak : chainBreak check rows checkpoints isPartial with
    | none | some => simp

theorem rowsOk_of_verifyChain (h : (verifyChain check rows checkpoints isPartial).ok = true) :
    RowsOk check rows := by
  rw [verifyChain_ok_iff, eq_none_iff_noneBelow] at h
  exact fun c => (noneBelow_chainBreak_iff.1 (h c)).1

/-- **When the rows alone verify.** -/
theorem verifyChain_rows_ok_iff :
    (verifyChain check rows [] isPartial).ok = true ↔ RowsOk check rows := by
  rw [verifyChain_ok_iff, eq_none_iff_noneBelow]
  refine forall_congr' (fun c => ?_)
  rw [noneBelow_chainBreak_iff]
  simp

/-! ## Rows given once -/

/-- No row of a node is given twice. -/
def Distinct (rows : List AuditRow) : Prop :=
  ∀ r ∈ rows, ∀ r' ∈ rows, r.sourceNodeId = r'.sourceNodeId → r.id = r'.id → r = r'

theorem keptCopy_eq_some_iff (hrows : Distinct rows) :
    keptCopy rows node r.id = some r ↔ r ∈ rows ∧ r.sourceNodeId = node := by
  constructor
  · intro h
    obtain ⟨hr, hnode, -⟩ := mem_of_keptCopy h
    exact ⟨hr, hnode⟩
  · rintro ⟨hr, rfl⟩
    obtain ⟨k, hk, -⟩ := exists_keptCopy hr
    obtain ⟨hkr, hknode, hkid⟩ := mem_of_keptCopy hk
    rw [hk, hrows k hkr r hr hknode hkid]

/-- Without copies, the rows verify when every node's rows are in order. -/
theorem rowsOk_iff_of_distinct (hrows : Distinct rows) :
    RowsOk check rows ↔ ∀ node, NodeOk check {r | r ∈ rows ∧ r.sourceNodeId = node} := by
  constructor
  · intro h node
    have hnode := h.nodes node
    simpa only [keptCopy_eq_some_iff hrows] using hnode
  · intro h c
    refine ⟨fun node => ?_, fun row hrow hs k hk _ => ?_⟩
    · have hnode := (h node).below c
      simpa only [keptCopy_eq_some_iff hrows, Set.mem_ofPred_eq] using hnode
    · obtain ⟨hkr, hknode, hkid⟩ := mem_of_keptCopy hk
      rw [hrows k hkr row hrow hknode hkid]
      exact ⟨rfl, (h row.sourceNodeId).checked row ⟨hrow, rfl⟩ hs⟩

theorem distinct_singleton (row : AuditRow) : Distinct [row] := by
  intro r hr r' hr' _ _
  rw [List.mem_singleton.1 hr, List.mem_singleton.1 hr']

theorem rowsOk_singleton (h : row.isSealed = true → check row = none) : RowsOk check [row] := by
  rw [rowsOk_iff_of_distinct (distinct_singleton row)]
  exact fun node => nodeOk_of_forall_eq (fun r hr => List.mem_singleton.1 hr.1) h

theorem distinct_pair {a b : AuditRow} (hid : a.id ≠ b.id) : Distinct [a, b] := by
  simp [Distinct, hid, hid.symm]

/-- Two sealed rows, the second linked to the first. -/
theorem rowsOk_pair {a b : AuditRow} (hchecks : check a = none ∧ check b = none)
    (hsealed : a.isSealed = true ∧ b.isSealed = true) (hid : a.id ≠ b.id)
    (hseq : a.monotonicSeq < b.monotonicSeq) (hlink : b.prevHash = a.hash) :
    RowsOk check [a, b] := by
  rw [rowsOk_iff_of_distinct (distinct_pair hid)]
  intro node
  have hcases : ∀ r ∈ {r | r ∈ [a, b] ∧ r.sourceNodeId = node}, r = a ∨ r = b := by
    rintro r ⟨hr, -⟩
    simpa using hr
  have hs : ∀ u ∈ {r | r ∈ [a, b] ∧ r.sourceNodeId = node}, ¬u.isSealed = false := by
    intro u hu
    rcases hcases u hu with rfl | rfl
    · simp [hsealed.1]
    · simp [hsealed.2]
  have hpairs : ∀ r ∈ {r | r ∈ [a, b] ∧ r.sourceNodeId = node},
      ∀ r' ∈ {r | r ∈ [a, b] ∧ r.sourceNodeId = node},
        (r.monotonicSeq = r'.monotonicSeq → r = r') ∧
        (r.monotonicSeq < r'.monotonicSeq → r = a ∧ r' = b) := by
    intro r hr r' hr'
    rcases hcases r hr with rfl | rfl
    · rcases hcases r' hr' with rfl | rfl
      · exact ⟨fun _ => rfl, fun h => absurd h (lt_irrefl _)⟩
      · exact ⟨fun h => absurd h hseq.ne, fun _ => ⟨rfl, rfl⟩⟩
    · rcases hcases r' hr' with rfl | rfl
      · exact ⟨fun h => absurd h.symm hseq.ne, fun h => absurd h hseq.asymm⟩
      · exact ⟨fun _ => rfl, fun h => absurd h (lt_irrefl _)⟩
  refine ⟨fun r hr _ => ?_, fun r hr r' hr' _ _ heq => ?_, fun u hu _ _ hus => absurd hus (hs u hu),
    fun r hr r' hr' _ _ hlt _ => ?_, fun u hu _ _ hus => absurd hus (hs u hu)⟩
  · rcases hcases r hr with rfl | rfl
    · exact hchecks.1
    · exact hchecks.2
  · rw [(hpairs r hr r' hr').1 heq]
  · obtain ⟨rfl, rfl⟩ := (hpairs r hr r' hr').2 hlt
    exact hlink

end Fasten
