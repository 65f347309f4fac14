import Mathlib.Data.List.Basic

set_option autoImplicit false

/-! # Logs of lines whose appends can be cut

A log holds one line for each record. An append may be cut off anywhere, so the log can end in a
line without its break: a whole text, or the first part of one. A writer that ends or drops such a
line before it appends keeps this shape. -/

namespace LineLog

variable {β R : Type}

/-- Texts and their records as lines, each with its break. -/
def lines (nl : β) (ls : List (List β × R)) : List β := ls.flatMap (fun l => l.1 ++ [nl])

/-- The records whose texts are within the first `k` symbols of their lines. -/
def complete : Nat → List (List β × R) → List R
  | _, [] => []
  | k, l :: rest => if l.1.length ≤ k then l.2 :: complete (k - (l.1.length + 1)) rest else []

theorem lines_cons (nl : β) (l : List β × R) (ls : List (List β × R)) :
    lines nl (l :: ls) = l.1 ++ nl :: lines nl ls := by
  rw [lines, List.flatMap_cons, List.append_assoc]
  rfl

theorem lines_append (nl : β) (ls ms : List (List β × R)) :
    lines nl (ls ++ ms) = lines nl ls ++ lines nl ms :=
  List.flatMap_append

/-- Lines end at a break. -/
theorem lines_eq_nil_or (nl : β) (ls : List (List β × R)) :
    lines nl ls = [] ∨ ∃ a, lines nl ls = a ++ [nl] := by
  rcases List.eq_nil_or_concat ls with rfl | ⟨ms, l, rfl⟩
  · exact Or.inl rfl
  · refine Or.inr ⟨lines nl ms ++ l.1, ?_⟩
    rw [List.concat_eq_append, lines_append, lines_cons, List.append_assoc]
    rfl

variable {ls : List (List β × R)}

/-- Splitting a log gives back its texts, and what follows the last break. -/
theorem splitOn_lines [DecidableEq β] {nl : β} (hls : ∀ l ∈ ls, nl ∉ l.1) {tail : List β}
    (htail : nl ∉ tail) : (lines nl ls ++ tail).splitOn nl = ls.map Prod.fst ++ [tail] := by
  have hplain : ∀ {a : List β}, nl ∉ a → ∀ x ∈ a, (x == nl) = false := by
    intro a ha x hx
    rw [beq_eq_false_iff_ne]
    rintro rfl
    exact ha hx
  induction ls with
  | nil => exact List.splitOnP_eq_singleton (hplain htail)
  | cons l ls ih =>
    rw [List.forall_mem_cons] at hls
    rw [lines_cons, List.append_assoc, List.cons_append, List.splitOn,
      List.splitOnP_append_cons_of_forall_mem (hplain hls.1) nl (beq_self_eq_true nl)]
    exact congrArg (l.1 :: ·) (ih hls.2)

/-! ## The shape of a log -/

section Shape

variable (IsText : List β → R → Prop) (nl : β)

/-- What can follow the last break, and the records it holds. -/
inductive Tail : List β → List R → Prop
  | empty : Tail [] []
  | whole {t : List β} {r : R} (ht : IsText t r) : Tail t [r]
  | cut {t a b : List β} {r : R} (ht : IsText t r) (hab : t = a ++ b) (ha : a ≠ []) (hb : b ≠ []) :
      Tail a []

/-- A log that holds the records `rs`. -/
def Shape (log : List β) (rs : List R) : Prop :=
  ∃ (ls : List (List β × R)) (tail : List β) (rest : List R), (∀ l ∈ ls, IsText l.1 l.2)
    ∧ Tail IsText tail rest ∧ log = lines nl ls ++ tail ∧ rs = ls.map Prod.snd ++ rest

/-- What a writer has to make of a log before it appends: `kept`, with `ending` to be written
    first. -/
def Ended (log : List β) (rs : List R) (kept ending : List β) : Prop :=
  ∃ ls : List (List β × R), (∀ l ∈ ls, IsText l.1 l.2) ∧ kept ++ ending = lines nl ls
    ∧ rs = ls.map Prod.snd ∧ (ending = [] ∨ ending = [nl] ∧ kept = log)

variable {IsText nl}

theorem Tail.notMem (h : ∀ t r, IsText t r → nl ∉ t) {tail : List β} {rest : List R}
    (ht : Tail IsText tail rest) : nl ∉ tail := by
  cases ht with
  | empty => exact List.not_mem_nil
  | whole ht => exact h _ _ ht
  | cut ht hab ha hb =>
    intro hmem
    exact h _ _ ht (hab ▸ List.mem_append_left _ hmem)

theorem Shape.lines_append {log : List β} {rs : List R} (h : Shape IsText nl log rs)
    (hls : ∀ l ∈ ls, IsText l.1 l.2) :
    Shape IsText nl (lines nl ls ++ log) (ls.map Prod.snd ++ rs) := by
  obtain ⟨ms, tail, rest, hms, htail, rfl, rfl⟩ := h
  refine ⟨ls ++ ms, tail, rest, ?_, htail, ?_, ?_⟩
  · intro l hl
    rcases List.mem_append.1 hl with hl | hl
    · exact hls l hl
    · exact hms l hl
  · rw [LineLog.lines_append, List.append_assoc]
  · rw [List.map_append, List.append_assoc]

theorem complete_zero (hne : ∀ t r, IsText t r → t ≠ []) (hls : ∀ l ∈ ls, IsText l.1 l.2) :
    complete 0 ls = [] := by
  cases ls with
  | nil => rfl
  | cons l ls =>
    have hpos := List.length_pos_iff.2 (hne _ _ (hls l List.mem_cons_self))
    rw [complete, if_neg (by omega)]

/-- **An append to an empty log, cut off after `k` symbols.** -/
theorem shape_take (hne : ∀ t r, IsText t r → t ≠ []) (hls : ∀ l ∈ ls, IsText l.1 l.2) (k : Nat) :
    Shape IsText nl ((lines nl ls).take k) (complete k ls) := by
  induction ls generalizing k with
  | nil => exact ⟨[], [], [], hls, .empty, by simp [lines], rfl⟩
  | cons l ls ih =>
    have hrest : ∀ m ∈ ls, IsText m.1 m.2 := fun m hm => hls m (List.mem_cons_of_mem _ hm)
    have hl := hls l List.mem_cons_self
    rw [lines_cons]
    rcases Nat.lt_trichotomy l.1.length k with hlt | rfl | hgt
    · -- the line is whole, with its break
      obtain ⟨j, rfl⟩ : ∃ j, k = l.1.length + 1 + j := ⟨k - (l.1.length + 1), by omega⟩
      have htake : (l.1 ++ nl :: lines nl ls).take (l.1.length + 1 + j)
          = lines nl [l] ++ (lines nl ls).take j := by
        rw [Nat.add_assoc, List.take_length_add_append, Nat.add_comm 1 j, List.take_succ_cons,
          lines_cons, List.append_assoc]
        rfl
      have hcomplete : complete (l.1.length + 1 + j) (l :: ls)
          = [l].map Prod.snd ++ complete j ls := by
        rw [complete, if_pos (by omega), Nat.add_sub_cancel_left]
        rfl
      rw [htake, hcomplete]
      exact (ih hrest j).lines_append (by simpa using hl)
    · -- only the break is missing
      have hcomplete : complete l.1.length (l :: ls) = [l.2] := by
        rw [complete, if_pos (Nat.le_refl _), show l.1.length - (l.1.length + 1) = 0 by omega,
          complete_zero hne hrest]
      rw [List.take_left, hcomplete]
      exact ⟨[], l.1, [l.2], by simp, .whole hl, rfl, rfl⟩
    · have htake : (l.1 ++ nl :: lines nl ls).take k = l.1.take k :=
        List.take_append_of_le_length (by omega)
      rw [htake, complete, if_neg (by omega)]
      rcases Nat.eq_zero_or_pos k with rfl | hpos
      · exact ⟨[], [], [], by simp, .empty, by simp [lines], rfl⟩
      · refine ⟨[], l.1.take k, [], by simp, .cut hl (List.take_append_drop k l.1).symm ?_ ?_,
          rfl, rfl⟩
        · rw [← List.length_pos_iff, List.length_take]
          omega
        · rw [← List.length_pos_iff, List.length_drop]
          omega

/-- **A cut append keeps the shape of a log** that was ended first. -/
theorem Shape.append (hne : ∀ t r, IsText t r → t ≠ []) {log kept ending : List β} {rs : List R}
    (h : Shape IsText nl log rs) (hended : Ended IsText nl log rs kept ending)
    {ms : List (List β × R)} (hms : ∀ l ∈ ms, IsText l.1 l.2) (k : Nat) :
    Shape IsText nl (kept ++ (ending ++ lines nl ms).take k)
      (rs ++ complete (k - ending.length) ms) := by
  obtain ⟨ls, hls, hlines, hrs, hending⟩ := hended
  rcases hending with rfl | ⟨rfl, rfl⟩
  · rw [List.append_nil] at hlines
    rw [hlines, hrs]
    exact (shape_take hne hms k).lines_append hls
  · cases k with
    | zero =>
      -- not even the break was written
      rw [List.take_zero, List.append_nil, Nat.zero_sub, complete_zero hne hms, List.append_nil]
      exact h
    | succ k =>
      rw [List.cons_append, List.take_succ_cons, List.nil_append, List.append_cons, hlines, hrs]
      exact (shape_take hne hms k).lines_append hls

end Shape

end LineLog
