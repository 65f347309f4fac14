import Fasten.CanonicalJson.Tokens
import Fasten.GoVerify
import Fasten.Verify.Dedupe

set_option autoImplicit false

/-! # The rows the Go verifier keeps

Go keeps one copy of each row in a slice and finds it through a map from node and id to its index.
The copies are the ones Python keeps, as long as no node has a NUL in it: two nodes could otherwise
share a key. -/

namespace Fasten.Go

open Scan TextCodec

variable {check : AuditRow → Option Reason}

/-! ## Map keys -/

/-- A node that ends where its key's NUL is. -/
def NoNul (node : String) : Prop := '\x00' ∉ node.toList

theorem nodeKey_inj {node node' text text' : String} (hnode : NoNul node) (hnode' : NoNul node')
    (h : nodeKey node text = nodeKey node' text') : node = node' ∧ text = text' := by
  have hchars : node.toList ++ '\x00' :: text.toList = node'.toList ++ '\x00' :: text'.toList := by
    have := congrArg String.toList h
    simpa [nodeKey, String.toList_append] using this
  have hstop : ∀ n : String, NoNul n → ∀ c ∈ n.toList, (c != '\x00') = true := by
    intro n hn c hc
    rw [bne_iff_ne]
    rintro rfl
    exact hn hc
  obtain ⟨hleft, hright⟩ := append_inj_of_stopsAt (hstop node hnode) (hstop node' hnode')
    (StopsAt.cons (by decide) _) (StopsAt.cons (by decide) _) hchars
  exact ⟨String.toList_injective hleft, String.toList_injective (List.cons.inj hright).2⟩

/-! ## The loop -/

/-- What the loop has built after the rows. -/
structure DedupeInv (check : AuditRow → Option Reason) (rows : List AuditRow)
    (state : Deduped) : Prop where
  index : ∀ i r, state.sorted[i]? = some r →
    Dict.get? state.kept (nodeKey r.sourceNodeId r.id) = some i
  row : ∀ key i, Dict.get? state.kept key = some i →
    ∃ r, state.sorted[i]? = some r ∧ nodeKey r.sourceNodeId r.id = key
  mem : ∀ r, r ∈ state.sorted ↔ keptCopy rows r.sourceNodeId r.id = some r
  dup : ∀ c, NoneBelow c state.dup ↔ CopiesAgree check c rows

section

variable {rows : List AuditRow} {state : Deduped} (hinv : DedupeInv check rows state)
  {row : AuditRow} (hnul : ∀ r ∈ rows ++ [row], NoNul r.sourceNodeId)

include hinv in
theorem keptCopy_of_kept {i : Nat} {old : AuditRow} (hi : state.sorted[i]? = some old) :
    keptCopy rows old.sourceNodeId old.id = some old :=
  (hinv.mem old).1 (List.mem_of_getElem? hi)

include hinv hnul in
/-- The map and the kept copies know the same row. -/
theorem get?_kept :
    (Dict.get? state.kept (nodeKey row.sourceNodeId row.id) = none ∧
      keptCopy rows row.sourceNodeId row.id = none) ∨
    ∃ i old, Dict.get? state.kept (nodeKey row.sourceNodeId row.id) = some i ∧
      state.sorted[i]? = some old ∧ old.sourceNodeId = row.sourceNodeId ∧ old.id = row.id ∧
      keptCopy rows row.sourceNodeId row.id = some old := by
  cases hget : Dict.get? state.kept (nodeKey row.sourceNodeId row.id) with
  | none =>
    refine Or.inl ⟨rfl, ?_⟩
    cases hkept : keptCopy rows row.sourceNodeId row.id with
    | none => rfl
    | some k =>
      obtain ⟨-, hnode, hid⟩ := mem_of_keptCopy hkept
      rw [← hnode, ← hid] at hkept hget
      obtain ⟨j, hj⟩ := List.mem_iff_getElem?.1 ((hinv.mem k).2 hkept)
      rw [hinv.index j k hj] at hget
      exact absurd hget (by simp)
  | some i =>
    obtain ⟨old, hi, hkey⟩ := hinv.row _ i hget
    have hold := keptCopy_of_kept hinv hi
    obtain ⟨hnode, hid⟩ := nodeKey_inj
      (hnul old (List.mem_append_left _ (mem_of_keptCopy hold).1)) (hnul row (by simp)) hkey
    refine Or.inr ⟨i, old, rfl, hi, hnode, hid, ?_⟩
    rw [← hnode, ← hid]
    exact hold

include hinv in
/-- The first copy is appended. -/
theorem dedupeInv_append
    (hget : Dict.get? state.kept (nodeKey row.sourceNodeId row.id) = none)
    (hkept : keptCopy rows row.sourceNodeId row.id = none) :
    DedupeInv check (rows ++ [row])
      ⟨state.sorted ++ [row],
        Dict.set state.kept (nodeKey row.sourceNodeId row.id) state.sorted.length, state.dup⟩ := by
  have hself : keptCopy (rows ++ [row]) row.sourceNodeId row.id = some row := by
    rw [keptCopy_append_self, hkept]
  refine ⟨fun i r hi => ?_, fun key i hi => ?_, fun r => ?_, fun c => ?_⟩
  · rw [Dict.get?_set]
    rcases lt_or_ge i state.sorted.length with hlt | hge
    · rw [List.getElem?_append_left hlt] at hi
      have hold := hinv.index i r hi
      rw [if_neg (fun hkey => by rw [hkey, hold] at hget; simp at hget)]
      exact hold
    · obtain rfl : i = state.sorted.length := by
        have := (List.getElem?_eq_some_iff.1 hi).1
        rw [List.length_append, List.length_singleton] at this
        omega
      rw [List.getElem?_concat_length, Option.some.injEq] at hi
      rw [hi, if_pos rfl]
  · rw [Dict.get?_set] at hi
    split_ifs at hi with hkey
    · obtain rfl := Option.some.inj hi
      exact ⟨row, List.getElem?_concat_length, hkey⟩
    · obtain ⟨r, hr, hrkey⟩ := hinv.row key i hi
      exact ⟨r, by rw [List.getElem?_append_left (List.getElem?_eq_some_iff.1 hr).1]; exact hr,
        hrkey⟩
  · rw [List.mem_append, List.mem_singleton, hinv.mem r]
    by_cases h : row.sourceNodeId = r.sourceNodeId ∧ row.id = r.id
    · rw [← h.1, ← h.2, hself, hkept]
      simp [eq_comm]
    · rw [keptCopy_append_other h]
      refine or_iff_left (fun hr => h ?_)
      rw [hr]
      exact ⟨rfl, rfl⟩
  · rw [copiesAgree_concat_iff, ← hinv.dup c, hkept]
    simp

include hinv in
/-- A sealed copy takes the place of an unsealed one. -/
theorem dedupeInv_set {i : Nat} {old : AuditRow} (hi : state.sorted[i]? = some old)
    (hnode : old.sourceNodeId = row.sourceNodeId) (hid : old.id = row.id)
    (hunsealed : old.isSealed = false) (hsealed : row.isSealed = true) :
    DedupeInv check (rows ++ [row]) ⟨state.sorted.set i row, state.kept, state.dup⟩ := by
  have hlt : i < state.sorted.length := (List.getElem?_eq_some_iff.1 hi).1
  have hkept : keptCopy rows row.sourceNodeId row.id = some old := by
    rw [← hnode, ← hid]
    exact keptCopy_of_kept hinv hi
  have hself : keptCopy (rows ++ [row]) row.sourceNodeId row.id = some row := by
    rw [keptCopy_append_self, hkept]
    simp [hunsealed, hsealed]
  have hset : ∀ j, (state.sorted.set i row)[j]? = if i = j then some row else state.sorted[j]? := by
    intro j
    rw [List.getElem?_set]
    by_cases hij : i = j
    · rw [if_pos hij, if_pos hij, if_pos (hij ▸ hlt)]
    · rw [if_neg hij, if_neg hij]
  refine ⟨fun j r hj => ?_, fun key j hj => ?_, fun r => ?_, fun c => ?_⟩
  · rw [hset] at hj
    split_ifs at hj with hij
    · obtain rfl := Option.some.inj hj
      rw [← hnode, ← hid, ← hij]
      exact hinv.index i old hi
    · exact hinv.index j r hj
  · obtain ⟨r, hr, hkey⟩ := hinv.row key j hj
    by_cases hij : i = j
    · subst hij
      rw [hi, Option.some.injEq] at hr
      refine ⟨row, by rw [hset, if_pos rfl], ?_⟩
      rw [← hkey, ← hr, hnode, hid]
    · exact ⟨r, by rw [hset, if_neg hij]; exact hr, hkey⟩
  · by_cases h : row.sourceNodeId = r.sourceNodeId ∧ row.id = r.id
    · rw [← h.1, ← h.2, hself, Option.some.injEq]
      refine ⟨fun hr => ?_, fun hr => hr ▸ List.mem_iff_getElem?.2 ⟨i, by rw [hset, if_pos rfl]⟩⟩
      obtain ⟨j, hj⟩ := List.mem_iff_getElem?.1 hr
      rw [hset] at hj
      split_ifs at hj with hij
      · exact Option.some.inj hj
      · -- another index would hold a second row with this key
        have hj' := hinv.index j r hj
        rw [← h.1, ← h.2, ← hnode, ← hid, hinv.index i old hi, Option.some.injEq] at hj'
        exact absurd hj' hij
    · rw [keptCopy_append_other h, ← hinv.mem r, List.mem_iff_getElem?, List.mem_iff_getElem?]
      refine exists_congr (fun j => ?_)
      rw [hset]
      split_ifs with hij
      · rw [← hij, hi]
        refine iff_of_false (fun hr => h ?_) (fun hr => h ?_)
        · rw [← Option.some.inj hr]
          exact ⟨rfl, rfl⟩
        · rw [← Option.some.inj hr]
          exact ⟨hnode.symm, hid.symm⟩
      · rfl
  · rw [copiesAgree_concat_iff, ← hinv.dup c, hkept]
    simp [hunsealed]

include hinv in
/-- Another copy is dropped, and `dup` takes in what it was found to differ by. -/
theorem dedupeInv_drop {old : AuditRow} {dup : Option Break}
    (hkept : keptCopy rows row.sourceNodeId row.id = some old)
    (hkeep : ¬(old.isSealed = false ∧ row.isSealed = true))
    (hdup : ∀ c, NoneBelow c dup ↔ NoneBelow c state.dup ∧
      (old.isSealed = true → row.isSealed = true → NoneBelow c (copyBreak check old row))) :
    DedupeInv check (rows ++ [row]) ⟨state.sorted, state.kept, dup⟩ := by
  refine ⟨hinv.index, hinv.row, fun r => ?_, fun c => ?_⟩
  · rw [hinv.mem r]
    by_cases h : row.sourceNodeId = r.sourceNodeId ∧ row.id = r.id
    · rw [← h.1, ← h.2, keptCopy_append_self, hkept]
      simp [hkeep]
    · rw [keptCopy_append_other h]
  · rw [copiesAgree_concat_iff, ← hinv.dup c, hkept, hdup c]
    simp

/-- The turn for a row that has a kept copy. -/
theorem dedupeStep_of_kept {i : Nat} {old : AuditRow}
    (hget : Dict.get? state.kept (nodeKey row.sourceNodeId row.id) = some i)
    (hi : state.sorted[i]? = some old) :
    dedupeStep check state row =
      if old.isSealed = false ∧ row.isSealed = true then
        { state with sorted := state.sorted.set i row }
      else if old.isSealed = true ∧ row.isSealed = true then
        { state with dup := lower state.dup (copyBreak check old row) }
      else state := by
  simp only [dedupeStep, hget, hi, AuditRow.isSealed_eq_false_iff, AuditRow.isSealed_iff]
  rfl

include hinv hnul in
theorem dedupeInv_step : DedupeInv check (rows ++ [row]) (dedupeStep check state row) := by
  rcases get?_kept hinv hnul with ⟨hget, hkept⟩ | ⟨i, old, hget, hi, hnode, hid, hkept⟩
  · simp only [dedupeStep, hget]
    exact dedupeInv_append hinv hget hkept
  · rw [dedupeStep_of_kept hget hi]
    split_ifs with hunsealed hsealed
    · exact dedupeInv_set hinv hi hnode hid hunsealed.1 hunsealed.2
    · refine dedupeInv_drop hinv hkept hunsealed (fun c => ?_)
      rw [noneBelow_lower]
      exact and_congr_right (fun _ => ⟨fun h _ _ => h, fun h => h hsealed.1 hsealed.2⟩)
    · refine dedupeInv_drop hinv hkept hunsealed (fun c => ?_)
      exact ⟨fun h => ⟨h, fun hs hrs => absurd ⟨hs, hrs⟩ hsealed⟩, fun h => h.1⟩

end

theorem dedupeInv_dedupe {rows : List AuditRow} (hnul : ∀ r ∈ rows, NoNul r.sourceNodeId) :
    DedupeInv check rows (dedupe check rows) := by
  induction rows using List.reverseRecOn with
  | nil => exact ⟨by simp [dedupe], by simp [dedupe], by simp [dedupe, keptCopy, copiesOf],
      by simp [dedupe, CopiesAgree]⟩
  | append_singleton rows row ih =>
    have hstep : dedupe check (rows ++ [row]) = dedupeStep check (dedupe check rows) row := by
      simp [dedupe]
    rw [hstep]
    exact dedupeInv_step (ih (fun r hr => hnul r (List.mem_append_left _ hr))) hnul

/-- No row is kept twice. -/
theorem DedupeInv.distinct {rows : List AuditRow} {state : Deduped}
    (hinv : DedupeInv check rows state) :
    state.sorted.Pairwise (fun a b => ¬(a.sourceNodeId = b.sourceNodeId ∧ a.id = b.id)) := by
  rw [List.pairwise_iff_getElem]
  rintro i j hi hj hlt ⟨hnode, hid⟩
  have hkey := hinv.index i _ (List.getElem?_eq_getElem hi)
  rw [hnode, hid, hinv.index j _ (List.getElem?_eq_getElem hj), Option.some.injEq] at hkey
  omega

end Fasten.Go
