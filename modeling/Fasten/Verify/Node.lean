import Mathlib.Data.Set.Basic
import Fasten.Verify

set_option autoImplicit false

/-! # When one node's chain verifies

`NodeOk` says what `_first_break` accepts without mentioning the order of the rows or the walk:
the sealed rows pass their check and have distinct seqs, the unsealed ones are all below them, and
each sealed row links to its neighbour. `noneBelow_firstBreak_iff` connects it to the walk, for
every bound on the seqs. -/

namespace Fasten

open Scan

variable {check : AuditRow → Option Reason}

/-- A set of rows of one node that verifies. -/
structure NodeOk (check : AuditRow → Option Reason) (rows : Set AuditRow) : Prop where
  checked : ∀ r ∈ rows, r.isSealed = true → check r = none
  unique : ∀ r ∈ rows, ∀ r' ∈ rows, r.isSealed = true → r'.isSealed = true →
    r.monotonicSeq = r'.monotonicSeq → r.id = r'.id
  unsealedBelow : ∀ u ∈ rows, ∀ r ∈ rows, u.isSealed = false → r.isSealed = true →
    u.monotonicSeq < r.monotonicSeq
  linked : ∀ r ∈ rows, ∀ r' ∈ rows, r.isSealed = true → r'.isSealed = true →
    r.monotonicSeq < r'.monotonicSeq →
    (∀ w ∈ rows, ¬(r.monotonicSeq < w.monotonicSeq ∧ w.monotonicSeq < r'.monotonicSeq)) →
    r'.prevHash = r.hash
  genesis : ∀ u ∈ rows, ∀ r ∈ rows, u.isSealed = false → r.isSealed = true →
    u.monotonicSeq = r.monotonicSeq - 1 → r.prevHash = "genesis"

/-- A part of a chain without holes verifies. -/
theorem NodeOk.of_convex {rows kept : Set AuditRow}
    (hok : NodeOk check rows) (hsub : ∀ r ∈ kept, r ∈ rows)
    (hconvex : ∀ r ∈ kept, r.isSealed = true → ∀ r' ∈ kept, ∀ w ∈ rows,
      r.monotonicSeq < w.monotonicSeq → w.monotonicSeq < r'.monotonicSeq → w ∈ kept) :
    NodeOk check kept where
  checked r hr := hok.checked r (hsub r hr)
  unique r hr r' hr' := hok.unique r (hsub r hr) r' (hsub r' hr')
  unsealedBelow u hu r hr := hok.unsealedBelow u (hsub u hu) r (hsub r hr)
  linked := by
    intro r hr r' hr' hrs hrs' hlt hbetween
    refine hok.linked r (hsub r hr) r' (hsub r' hr') hrs hrs' hlt (fun w hw hwlt => ?_)
    exact hbetween w (hconvex r hr hrs r' hr' w hw hwlt.1 hwlt.2) hwlt
  genesis u hu r hr := hok.genesis u (hsub u hu) r (hsub r hr)

/-- The rows below a seq of a chain that verifies do too. -/
theorem NodeOk.below {rows : Set AuditRow} (h : NodeOk check rows) (c : Int) :
    NodeOk check {r | r ∈ rows ∧ r.monotonicSeq < c} := by
  refine h.of_convex (fun r hr => hr.1) (fun r _ _ r' hr' w hw _ hlt => ⟨hw, ?_⟩)
  have := hr'.2
  omega

variable {firstSealed : Option Int} {before pre post : List AuditRow} {row r : AuditRow}

/-- A chain of one row. -/
theorem nodeOk_of_forall_eq {rows : Set AuditRow} (hrows : ∀ r ∈ rows, r = row)
    (hcheck : row.isSealed = true → check row = none) : NodeOk check rows := by
  refine ⟨fun r hr hs => ?_, fun r hr r' hr' _ _ _ => ?_, fun u hu r hr hus hrs => ?_,
    fun r hr r' hr' _ _ hlt => ?_, fun u hu r hr hus hrs => ?_⟩
  · rw [hrows r hr] at hs ⊢
    exact hcheck hs
  · rw [hrows r hr, hrows r' hr']
  · rw [hrows u hu] at hus
    rw [hrows r hr, hus] at hrs
    exact absurd hrs (by simp)
  · rw [hrows r hr, hrows r' hr'] at hlt
    exact absurd hlt (lt_irrefl _)
  · rw [hrows u hu] at hus
    rw [hrows r hr, hus] at hrs
    exact absurd hrs (by simp)

theorem nodeOk_of_forall_below {rows : Set AuditRow}
    (h : ∀ c, NodeOk check {r | r ∈ rows ∧ r.monotonicSeq < c}) : NodeOk check rows := by
  refine ⟨?_, ?_, ?_, ?_, ?_⟩
  · intro r hr
    exact (h (r.monotonicSeq + 1)).checked r ⟨hr, by omega⟩
  · intro r hr r' hr' hrs hrs' hseq
    exact (h (r.monotonicSeq + 1)).unique r ⟨hr, by omega⟩ r' ⟨hr', by omega⟩ hrs hrs' hseq
  · intro u hu r hr
    exact (h (max u.monotonicSeq r.monotonicSeq + 1)).unsealedBelow u ⟨hu, by omega⟩ r
      ⟨hr, by omega⟩
  · intro r hr r' hr' hrs hrs' hlt hbetween
    exact (h (r'.monotonicSeq + 1)).linked r ⟨hr, by omega⟩ r' ⟨hr', by omega⟩ hrs hrs' hlt
      (fun w hw => hbetween w hw.1)
  · intro u hu r hr hus hrs hseq
    exact (h (r.monotonicSeq + 1)).genesis u ⟨hu, by omega⟩ r ⟨hr, by omega⟩ hus hrs hseq

/-! ## The walk as a scan -/

/-- What the walk checks at one row, given the rows before it, the nearest first. -/
def rowFail (check : AuditRow → Option Reason) (firstSealed : Option Int)
    (before : List AuditRow) (row : AuditRow) : Option Break :=
  let seen := (before.find? (fun r => r.isSealed && r.monotonicSeq == row.monotonicSeq)).map (·.id)
  if row.isSealed = false then
    if ∃ first ∈ firstSealed, first ≤ row.monotonicSeq then
      some (row.monotonicSeq, .noHash row.id)
    else none
  else if seen.getD row.id ≠ row.id then
    some (row.monotonicSeq, .duplicateSeq row.monotonicSeq row.sourceNodeId (seen.getD row.id)
      row.id)
  else
    match check row with
    | some reason => some (row.monotonicSeq, reason)
    | none => (linkBreak before.head? row).map (fun reason => (row.monotonicSeq, reason))

theorem walk_eq_firstFail (rows : List AuditRow) (seen : List (Int × String))
    (before : List AuditRow)
    (hseen : ∀ s, Dict.get? seen s
      = (before.find? (fun r => r.isSealed && r.monotonicSeq == s)).map (·.id)) :
    walk check firstSealed seen before.head? rows
      = firstFail (rowFail check firstSealed) before rows := by
  induction rows generalizing seen before with
  | nil => simp [walk, firstFail]
  | cons row rest ih =>
    simp only [walk, firstFail, rowFail, ← hseen]
    by_cases hrow : row.isSealed = false
    · rw [if_pos hrow, if_pos hrow]
      split_ifs with hfirst
      · rfl
      · have hsame : ∀ s, Dict.get? seen s = ((row :: before).find?
            (fun r => r.isSealed && r.monotonicSeq == s)).map (·.id) := by
          intro s
          rw [hseen, List.find?_cons_of_neg (by simp [hrow])]
        simpa using ih seen (row :: before) hsame
    · rw [if_neg hrow, if_neg hrow]
      have hrow' : row.isSealed = true := by simpa using hrow
      split_ifs with hdup
      · rfl
      · cases hcheck : check row with
        | some reason => rfl
        | none =>
          cases hlink : linkBreak before.head? row with
          | some reason => rfl
          | none =>
            have hsame : ∀ s, Dict.get? (Dict.set seen row.monotonicSeq row.id) s
                = ((row :: before).find?
                  (fun r => r.isSealed && r.monotonicSeq == s)).map (·.id) := by
              intro s
              rw [Dict.get?_set]
              by_cases hs : row.monotonicSeq = s
              · rw [if_pos hs, List.find?_cons_of_pos (by simp [hrow', hs])]
                rfl
              · rw [if_neg hs, List.find?_cons_of_neg (by simp [hs]), hseen]
            simpa using ih _ (row :: before) hsame

theorem firstBreak_eq_firstFail (rows : List AuditRow) :
    firstBreak check rows = firstFail (rowFail check (firstSealedSeq rows)) [] rows :=
  walk_eq_firstFail rows [] [] (fun _ => rfl)

theorem rowFail_key {b : Break} (h : rowFail check firstSealed before row = some b) :
    b.1 = row.monotonicSeq := by
  simp only [rowFail] at h
  split_ifs at h
  · exact (Option.some.inj h) ▸ rfl
  · exact (Option.some.inj h) ▸ rfl
  · cases hcheck : check row with
    | some reason =>
      simp only [hcheck, Option.some.injEq] at h
      exact h ▸ rfl
    | none =>
      simp only [hcheck, Option.map_eq_some_iff] at h
      obtain ⟨reason, -, rfl⟩ := h
      rfl

/-! ## What the walk accepts -/

/-- Some sealed row is at or below the seq. -/
theorem exists_firstSealed_le {rows : List AuditRow} {s : Int} :
    (∃ first ∈ firstSealedSeq rows, first ≤ s)
      ↔ ∃ r ∈ rows, r.isSealed = true ∧ r.monotonicSeq ≤ s := by
  constructor
  · rintro ⟨first, hfirst, hle⟩
    have hmem := List.min?_mem hfirst
    obtain ⟨r, hr, rfl⟩ := List.mem_map.1 hmem
    exact ⟨r, (List.mem_filter.1 hr).1, (List.mem_filter.1 hr).2, hle⟩
  · rintro ⟨r, hr, hsealed, hle⟩
    have hmem : r.monotonicSeq ∈ (rows.filter (·.isSealed)).map (·.monotonicSeq) :=
      List.mem_map.2 ⟨r, List.mem_filter.2 ⟨hr, hsealed⟩, rfl⟩
    cases hmin : firstSealedSeq rows with
    | none =>
      rw [firstSealedSeq, List.min?_eq_none_iff] at hmin
      rw [hmin] at hmem
      exact absurd hmem (List.not_mem_nil)
    | some first =>
      refine ⟨first, rfl, ?_⟩
      have := (List.min?_eq_some_iff.1 hmin).2 _ hmem
      omega

theorem rowFail_unsealed (hrow : row.isSealed = false) :
    rowFail check firstSealed before row = none
      ↔ ¬∃ first ∈ firstSealed, first ≤ row.monotonicSeq := by
  simp only [rowFail, if_pos hrow]
  by_cases hfirst : ∃ first ∈ firstSealed, first ≤ row.monotonicSeq
  · rw [if_pos hfirst]
    exact iff_of_false (Option.some_ne_none _) (not_not_intro hfirst)
  · rw [if_neg hfirst]
    exact iff_of_true rfl hfirst

theorem rowFail_sealed (hrow : row.isSealed = true) :
    rowFail check firstSealed before row = none ↔
      (∀ q, before.find? (fun r => r.isSealed && r.monotonicSeq == row.monotonicSeq) = some q →
        q.id = row.id) ∧ check row = none ∧ linkBreak before.head? row = none := by
  simp only [rowFail, hrow, Bool.true_eq_false, if_false]
  cases hseen : before.find? (fun r => r.isSealed && r.monotonicSeq == row.monotonicSeq) with
  | none =>
    cases hcheck : check row <;> simp
  | some q =>
    by_cases hid : q.id = row.id
    · cases hcheck : check row <;> simp [hid]
    · simp [hid]

theorem linkBreak_eq_none_iff {prev : AuditRow} :
    linkBreak (some prev) row = none ↔
      (prev.isSealed = true → row.prevHash = prev.hash) ∧
      (prev.isSealed = false → prev.monotonicSeq = row.monotonicSeq - 1 →
        row.prevHash = "genesis") := by
  simp only [linkBreak]
  cases hprev : prev.isSealed with
  | true => by_cases h : row.prevHash = prev.hash <;> simp [h]
  | false =>
    by_cases hseq : prev.monotonicSeq = row.monotonicSeq - 1 <;>
      by_cases h : row.prevHash = "genesis" <;> simp [hseq, h]

/-- The rows before and after one row of a sorted list with distinct ids. -/
theorem split_facts {rows : List AuditRow}
    (hsorted : rows.Pairwise (fun a b => a.monotonicSeq ≤ b.monotonicSeq))
    (hids : (rows.map (·.id)).Nodup) (hsplit : rows = pre ++ row :: post) :
    (∀ r ∈ pre, r.monotonicSeq ≤ row.monotonicSeq ∧ r.id ≠ row.id) ∧
      (∀ r ∈ post, row.monotonicSeq ≤ r.monotonicSeq) := by
  subst hsplit
  rw [List.pairwise_append] at hsorted
  rw [List.map_append, List.map_cons, List.nodup_append] at hids
  refine ⟨fun r hr => ⟨hsorted.2.2 r hr row List.mem_cons_self, fun hid => ?_⟩, fun r hr => ?_⟩
  · exact hids.2.2 _ (List.mem_map_of_mem hr) _ List.mem_cons_self hid
  · exact (List.pairwise_cons.1 hsorted.2.1).1 r hr

/-- The row before it in the list has the highest seq of the rows before it. -/
theorem le_of_head?_reverse {rows : List AuditRow} {prev : AuditRow}
    (hsorted : rows.Pairwise (fun a b => a.monotonicSeq ≤ b.monotonicSeq))
    (hsplit : rows = pre ++ post) (hprev : pre.reverse.head? = some prev) (hr : r ∈ pre) :
    r.monotonicSeq ≤ prev.monotonicSeq := by
  subst hsplit
  have hpre := (List.pairwise_append.1 hsorted).1
  rw [List.head?_reverse, List.getLast?_eq_some_iff] at hprev
  obtain ⟨init, rfl⟩ := hprev
  rcases List.mem_append.1 hr with hinit | hlast
  · exact (List.pairwise_append.1 hpre).2.2 r hinit prev List.mem_cons_self
  · rw [List.mem_singleton.1 hlast]

variable {rows : List AuditRow}

section

variable (hsorted : rows.Pairwise (fun a b => a.monotonicSeq ≤ b.monotonicSeq))
  (hids : (rows.map (·.id)).Nodup)

include hsorted hids in
/-- A chain that is in order breaks at no row. -/
theorem firstBreak_eq_none_of_nodeOk (hok : NodeOk check {r | r ∈ rows}) :
    firstBreak check rows = none := by
  rw [firstBreak_eq_firstFail, firstFail_eq_none_iff]
  intro pre row post hsplit
  obtain ⟨hpre, hpost⟩ := split_facts hsorted hids hsplit
  have hrow : row ∈ rows := by rw [hsplit]; simp
  have hmem : ∀ r ∈ pre, r ∈ rows := fun r hr => by rw [hsplit]; simp [hr]
  rw [List.append_nil]
  cases hsealed : row.isSealed with
  | false =>
    rw [rowFail_unsealed hsealed, exists_firstSealed_le]
    rintro ⟨r, hr, hrs, hle⟩
    have := hok.unsealedBelow row hrow r hr hsealed hrs
    omega
  | true =>
    rw [rowFail_sealed hsealed]
    refine ⟨fun q hq => ?_, hok.checked row hrow hsealed, ?_⟩
    · have hqmem := List.mem_of_find?_eq_some hq
      have hqp := List.find?_some hq
      simp only [Bool.and_eq_true, beq_iff_eq] at hqp
      exact hok.unique q (hmem q (List.mem_reverse.1 hqmem)) row hrow hqp.1 hsealed hqp.2
    · cases hhead : pre.reverse.head? with
      | none => rfl
      | some prev =>
        have hprev : prev ∈ pre := List.mem_reverse.1 (List.mem_of_mem_head? hhead)
        rw [linkBreak_eq_none_iff]
        refine ⟨fun hps => ?_, fun hpu hseq => hok.genesis prev (hmem prev hprev) row hrow hpu
          hsealed hseq⟩
        have hle := (hpre prev hprev).1
        have hne : prev.monotonicSeq ≠ row.monotonicSeq := fun heq =>
          (hpre prev hprev).2 (hok.unique prev (hmem prev hprev) row hrow hps hsealed heq)
        refine hok.linked prev (hmem prev hprev) row hrow hps hsealed (by omega) ?_
        -- `prev` is the last row before `row`, so nothing is between the two
        rintro w hw ⟨hlow, hhigh⟩
        have hwrows : w ∈ pre ++ row :: post := hsplit ▸ hw
        rcases List.mem_append.1 hwrows with hwpre | hwpost
        · have := le_of_head?_reverse hsorted hsplit hhead hwpre
          omega
        · rcases List.mem_cons.1 hwpost with rfl | hwpost
          · omega
          · have := hpost w hwpost
            omega

end

/-- The walk passes each row, given the rows before it. -/
theorem rowFail_of_firstBreak (h : firstBreak check rows = none)
    (hsplit : rows = pre ++ row :: post) :
    rowFail check (firstSealedSeq rows) pre.reverse row = none := by
  rw [firstBreak_eq_firstFail, firstFail_eq_none_iff] at h
  simpa using h pre row post hsplit

theorem unsealed_lt_of_firstBreak (h : firstBreak check rows = none) {u : AuditRow} (hu : u ∈ rows)
    (hr : r ∈ rows) (hus : u.isSealed = false) (hrs : r.isSealed = true) :
    u.monotonicSeq < r.monotonicSeq := by
  obtain ⟨pre, post, hsplit⟩ := List.append_of_mem hu
  have hfail := rowFail_of_firstBreak h hsplit
  rw [rowFail_unsealed hus, exists_firstSealed_le] at hfail
  by_contra hle
  exact hfail ⟨r, hr, hrs, by omega⟩

section

variable (hsorted : rows.Pairwise (fun a b => a.monotonicSeq ≤ b.monotonicSeq))
  (hids : (rows.map (·.id)).Nodup)

include hsorted hids

/-- An earlier sealed row is at a lower seq, or the walk would have seen its seq. -/
theorem sealed_lt_of_firstBreak (h : firstBreak check rows = none)
    (hsplit : rows = pre ++ row :: post) (hrow : row.isSealed = true) (hr : r ∈ pre)
    (hrs : r.isSealed = true) : r.monotonicSeq < row.monotonicSeq := by
  obtain ⟨hpre, -⟩ := split_facts hsorted hids hsplit
  have hfail := (rowFail_sealed hrow).1 (rowFail_of_firstBreak h hsplit)
  by_contra hle
  have hseq : r.monotonicSeq = row.monotonicSeq := by
    have := (hpre r hr).1
    omega
  cases hfind : pre.reverse.find?
      (fun q => q.isSealed && q.monotonicSeq == row.monotonicSeq) with
  | none =>
    have := List.find?_eq_none.1 hfind r (List.mem_reverse.2 hr)
    simp [hrs, hseq] at this
  | some q =>
    have hq := List.mem_reverse.1 (List.mem_of_find?_eq_some hfind)
    exact (hpre q hq).2 (hfail.1 q hfind)

theorem eq_of_seq_eq_of_firstBreak (h : firstBreak check rows = none) {r' : AuditRow}
    (hr : r ∈ rows) (hr' : r' ∈ rows) (hrs : r.isSealed = true) (hrs' : r'.isSealed = true)
    (hseq : r.monotonicSeq = r'.monotonicSeq) : r = r' := by
  obtain ⟨pre, post, hsplit⟩ := List.append_of_mem hr'
  rw [hsplit, List.mem_append, List.mem_cons] at hr
  rcases hr with hpre | rfl | hpost
  · have := sealed_lt_of_firstBreak hsorted hids h hsplit hrs' hpre hrs
    omega
  · rfl
  · obtain ⟨mid, post', rfl⟩ := List.append_of_mem hpost
    have hsplit' : rows = (pre ++ r' :: mid) ++ r :: post' := by rw [hsplit]; simp
    have := sealed_lt_of_firstBreak hsorted hids h hsplit' hrs (by simp) hrs'
    omega

/-- The row right before a sealed row, when there are rows below that one. -/
theorem exists_prev_of_firstBreak (h : firstBreak check rows = none) (hr : r ∈ rows)
    (hrow : row ∈ rows) (hrs : row.isSealed = true) (hlt : r.monotonicSeq < row.monotonicSeq) :
    ∃ prev ∈ rows, r.monotonicSeq ≤ prev.monotonicSeq ∧ prev.monotonicSeq < row.monotonicSeq ∧
      linkBreak (some prev) row = none := by
  obtain ⟨pre, post, hsplit⟩ := List.append_of_mem hrow
  obtain ⟨hpre, hpost⟩ := split_facts hsorted hids hsplit
  have hrpre : r ∈ pre := by
    rw [hsplit, List.mem_append, List.mem_cons] at hr
    rcases hr with hrpre | rfl | hrpost
    · exact hrpre
    · omega
    · have := hpost r hrpost
      omega
  have hfail := (rowFail_sealed hrs).1 (rowFail_of_firstBreak h hsplit)
  cases hhead : pre.reverse.head? with
  | none =>
    rw [List.head?_eq_none_iff, List.reverse_eq_nil_iff] at hhead
    rw [hhead] at hrpre
    exact absurd hrpre List.not_mem_nil
  | some prev =>
    have hmem : prev ∈ pre := List.mem_reverse.1 (List.mem_of_mem_head? hhead)
    have hrows : prev ∈ rows := by rw [hsplit]; simp [hmem]
    refine ⟨prev, hrows, le_of_head?_reverse hsorted hsplit hhead hrpre, ?_,
      hhead ▸ hfail.2.2⟩
    cases hps : prev.isSealed with
    | true => exact sealed_lt_of_firstBreak hsorted hids h hsplit hrs hmem hps
    | false => exact unsealed_lt_of_firstBreak h hrows hrow hps hrs

/-- A chain that breaks at no row is in order. -/
theorem nodeOk_of_firstBreak_eq_none (h : firstBreak check rows = none) :
    NodeOk check {r | r ∈ rows} := by
  refine ⟨?_, ?_, fun u hu r hr hus hrs => unsealed_lt_of_firstBreak h hu hr hus hrs, ?_, ?_⟩
  · intro r hr hrs
    obtain ⟨pre, post, hsplit⟩ := List.append_of_mem hr
    exact ((rowFail_sealed hrs).1 (rowFail_of_firstBreak h hsplit)).2.1
  · intro r hr r' hr' hrs hrs' hseq
    rw [eq_of_seq_eq_of_firstBreak hsorted hids h hr hr' hrs hrs' hseq]
  · intro r hr r' hr' hrs hrs' hlt hbetween
    obtain ⟨prev, hmem, hle, hltprev, hlink⟩ :=
      exists_prev_of_firstBreak hsorted hids h hr hr' hrs' hlt
    have hseq : r.monotonicSeq = prev.monotonicSeq := by
      have := hbetween prev hmem
      omega
    cases hps : prev.isSealed with
    | true =>
      rw [eq_of_seq_eq_of_firstBreak hsorted hids h hr hmem hrs hps hseq]
      exact (linkBreak_eq_none_iff.1 hlink).1 hps
    | false =>
      have := unsealed_lt_of_firstBreak h hmem hr hps hrs
      omega
  · intro u hu r hr hus hrs hseq
    obtain ⟨prev, hmem, hle, hlt, hlink⟩ :=
      exists_prev_of_firstBreak hsorted hids h hu hr hrs (by omega)
    cases hps : prev.isSealed with
    | true =>
      have := unsealed_lt_of_firstBreak h hu hmem hus hps
      omega
    | false => exact (linkBreak_eq_none_iff.1 hlink).2 hps (by omega)

/-- **What `_first_break` accepts.** -/
theorem firstBreak_eq_none_iff : firstBreak check rows = none ↔ NodeOk check {r | r ∈ rows} :=
  ⟨nodeOk_of_firstBreak_eq_none hsorted hids, firstBreak_eq_none_of_nodeOk hsorted hids⟩

/-- **What `_first_break` accepts below a seq.** It reports no break below `c` exactly when the
    rows below `c` are in order. -/
theorem noneBelow_firstBreak_iff {c : Int} :
    NoneBelow c (firstBreak check rows)
      ↔ NodeOk check {r | r ∈ rows ∧ r.monotonicSeq < c} := by
  have hsorted' := hsorted.filter (fun r => decide (r.monotonicSeq < c))
  have hids' := hids.sublist ((List.filter_sublist
    (p := fun r : AuditRow => decide (r.monotonicSeq < c)) (l := rows)).map (·.id))
  have hset : {r | r ∈ rows ∧ r.monotonicSeq < c}
      = {r | r ∈ rows.filter (fun r => decide (r.monotonicSeq < c))} := by
    ext r
    simp
  have hkey : ∀ before row b, rowFail check (firstSealedSeq rows) before row = some b →
      b.1 = row.monotonicSeq := fun _ _ _ => rowFail_key
  rw [hset, ← firstBreak_eq_none_iff hsorted' hids', firstBreak_eq_firstFail,
    firstBreak_eq_firstFail, noneBelow_firstFail_iff hkey hsorted, firstFail_eq_none_iff,
    firstFail_eq_none_iff]
  -- a row below `c` is at or above the first sealed row of the list or of its part alike
  refine forall_congr' (fun pre => forall_congr' (fun row => forall_congr' (fun post =>
    imp_congr_right (fun hsplit => ?_))))
  have hlt : row.monotonicSeq < c := by
    have hrow : row ∈ rows.filter (fun r => decide (r.monotonicSeq < c)) := by rw [hsplit]; simp
    simpa using (List.mem_filter.1 hrow).2
  cases hs : row.isSealed with
  | true => rw [rowFail_sealed hs, rowFail_sealed hs]
  | false =>
    rw [rowFail_unsealed hs, rowFail_unsealed hs, exists_firstSealed_le, exists_firstSealed_le]
    refine not_congr ⟨?_, ?_⟩
    · rintro ⟨r, hr, hrs, hle⟩
      exact ⟨r, List.mem_filter.2 ⟨hr, by simp only [decide_eq_true_eq]; omega⟩, hrs, hle⟩
    · rintro ⟨r, hr, hrs, hle⟩
      exact ⟨r, (List.mem_filter.1 hr).1, hrs, hle⟩

end

/-! ## Sorted rows -/

theorem pairwise_sortBySeq (rows : List AuditRow) :
    (sortBySeq rows).Pairwise (fun a b => a.monotonicSeq ≤ b.monotonicSeq) := by
  have htotal : Std.Total (fun a b : AuditRow => a.monotonicSeq ≤ b.monotonicSeq) :=
    ⟨fun a b => le_total _ _⟩
  have htrans : IsTrans AuditRow (fun a b => a.monotonicSeq ≤ b.monotonicSeq) :=
    ⟨fun a b c => le_trans⟩
  exact List.pairwise_insertionSort _ _

theorem perm_sortBySeq (rows : List AuditRow) : (sortBySeq rows).Perm rows :=
  List.perm_insertionSort _ _

theorem noneBelow_sorted_iff (hids : (rows.map (·.id)).Nodup) {c : Int} :
    NoneBelow c (firstBreak check (sortBySeq rows))
      ↔ NodeOk check {r | r ∈ rows ∧ r.monotonicSeq < c} := by
  have hperm := perm_sortBySeq rows
  rw [noneBelow_firstBreak_iff (pairwise_sortBySeq rows) ((hperm.map (·.id)).nodup_iff.2 hids)]
  simp only [hperm.mem_iff]

end Fasten
