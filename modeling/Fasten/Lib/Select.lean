import Mathlib.Data.List.Dedup
import Mathlib.Data.List.Sort
import Mathlib.Data.Prod.Lex

set_option autoImplicit false

/-! # Selecting rows

What a query does to a list of rows: it filters them, sorts them by a key, groups them, and returns
the first few. A condition that is checked before the sort or the grouping selects the same rows as
one that is checked after it. Before and after a limit it does not, and `filter_take_eq_iff` says
when it does. -/

namespace Select

variable {α κ : Type}

/-! ## Sorting -/

/-- `ORDER BY key DESC`: of rows with one key, the one that is first stays first. -/
def sortDesc [LinearOrder κ] (key : α → κ) (rows : List α) : List α :=
  rows.insertionSort fun a b => key b ≤ key a

variable [LinearOrder κ] {key : α → κ} {p : α → Bool} {rows : List α}

theorem pairwise_sortDesc (key : α → κ) (rows : List α) :
    (sortDesc key rows).Pairwise fun a b => key b ≤ key a := by
  have : Std.Total fun a b : α => key b ≤ key a := ⟨fun a b => le_total (key b) (key a)⟩
  have : IsTrans α fun a b => key b ≤ key a := ⟨fun _ _ _ h h' => h'.trans h⟩
  exact List.pairwise_insertionSort _ rows

theorem mem_sortDesc {a : α} : a ∈ sortDesc key rows ↔ a ∈ rows := List.mem_insertionSort _

theorem filter_orderedInsert_neg {a : α} (ha : p a = false) :
    (rows.orderedInsert (fun a b => key b ≤ key a) a).filter p = rows.filter p := by
  induction rows with
  | nil => simp [ha]
  | cons b rest ih =>
    rw [List.orderedInsert_cons]
    split_ifs
    · simp [ha]
    · simp only [List.filter_cons, ih]

theorem filter_orderedInsert_pos {a : α} (ha : p a = true)
    (hsorted : rows.Pairwise fun a b => key b ≤ key a) :
    (rows.orderedInsert (fun a b => key b ≤ key a) a).filter p
      = (rows.filter p).orderedInsert (fun a b => key b ≤ key a) a := by
  induction rows with
  | nil => simp [ha]
  | cons b rest ih =>
    obtain ⟨hb, hrest⟩ := List.pairwise_cons.1 hsorted
    rw [List.orderedInsert_cons]
    split_ifs with hle
    · -- whatever is left of the rest comes after `a` as well
      have hall : ∀ c ∈ (b :: rest).filter p, key c ≤ key a := by
        intro c hc
        rcases List.mem_cons.1 (List.mem_filter.1 hc).1 with rfl | hc
        · exact hle
        · exact (hb c hc).trans hle
      rw [List.filter_cons_of_pos ha]
      cases hfilter : (b :: rest).filter p with
      | nil => rfl
      | cons c cs =>
        rw [hfilter] at hall
        rw [List.orderedInsert_cons, if_pos (hall c List.mem_cons_self)]
    · cases hpb : p b with
      | false => rw [List.filter_cons_of_neg (by simp [hpb]), ih hrest,
          List.filter_cons_of_neg (by simp [hpb])]
      | true =>
        rw [List.filter_cons_of_pos hpb, ih hrest, List.filter_cons_of_pos hpb,
          List.orderedInsert_cons, if_neg hle]

/-- **A condition may be checked before the sort.** -/
theorem filter_sortDesc (key : α → κ) (p : α → Bool) (rows : List α) :
    (sortDesc key rows).filter p = sortDesc key (rows.filter p) := by
  induction rows with
  | nil => rfl
  | cons a rest ih =>
    cases ha : p a with
    | true =>
      rw [List.filter_cons_of_pos ha]
      exact (filter_orderedInsert_pos ha (pairwise_sortDesc key rest)).trans
        (congrArg (List.orderedInsert _ a) ih)
    | false =>
      rw [List.filter_cons_of_neg (by simp [ha])]
      exact (filter_orderedInsert_neg ha).trans ih

/-! ## Grouping -/

omit [LinearOrder κ] in
theorem filter_dedup [DecidableEq α] (p : α → Bool) (rows : List α) :
    rows.dedup.filter p = (rows.filter p).dedup := by
  induction rows with
  | nil => rfl
  | cons a rest ih =>
    by_cases hmem : a ∈ rest
    · rw [List.dedup_cons_of_mem hmem, ih]
      cases ha : p a with
      | true =>
        rw [List.filter_cons_of_pos ha,
          List.dedup_cons_of_mem (List.mem_filter.2 ⟨hmem, ha⟩)]
      | false => rw [List.filter_cons_of_neg (by simp [ha])]
    · rw [List.dedup_cons_of_notMem hmem]
      cases ha : p a with
      | true =>
        rw [List.filter_cons_of_pos ha, List.filter_cons_of_pos ha, ih,
          List.dedup_cons_of_notMem fun h => hmem (List.mem_filter.1 h).1]
      | false =>
        rw [List.filter_cons_of_neg (by simp [ha]), List.filter_cons_of_neg (by simp [ha]), ih]

/-! ## Limits -/

section Limit

omit [LinearOrder κ]

variable {n : Nat}

theorem filter_take_add_filter_drop (p : α → Bool) (rows : List α) (n : Nat) :
    (rows.take n).filter p ++ (rows.drop n).filter p = rows.filter p := by
  rw [← List.filter_append, List.take_append_drop]

/-- No row beyond the limit meets the condition, or every row within the limit does. -/
def Fits (p : α → Bool) (n : Nat) (rows : List α) : Prop :=
  (∀ a ∈ rows.drop n, p a = false) ∨ ∀ a ∈ rows.take n, p a = true

theorem fits_of_length_eq
    (h : ((rows.take n).filter p).length = ((rows.filter p).take n).length) : Fits p n rows := by
  by_cases hall : ∀ a ∈ rows.take n, p a = true
  · exact Or.inr hall
  · -- the limit leaves room for one more row that meets the condition
    refine Or.inl fun a ha => ?_
    by_contra hpa
    have hshort : ((rows.take n).filter p).length < n := by
      have hlt : ((rows.take n).filter p).length < (rows.take n).length := by
        refine lt_of_le_of_ne (List.length_filter_le _ _) fun heq => hall ?_
        exact List.length_filter_eq_length_iff.1 heq
      exact hlt.trans_le (List.length_take_le _ _)
    have hpos : 0 < ((rows.drop n).filter p).length :=
      List.length_pos_of_mem (List.mem_filter.2 ⟨ha, by simpa using hpa⟩)
    have hlen := congrArg List.length (filter_take_add_filter_drop p rows n)
    rw [List.length_append] at hlen
    rw [List.length_take] at h
    omega

/-- **When a condition may be checked after a limit.** -/
theorem filter_take_eq_iff : (rows.take n).filter p = (rows.filter p).take n ↔ Fits p n rows := by
  refine ⟨fun h => fits_of_length_eq (congrArg List.length h), fun h => ?_⟩
  have hsplit := filter_take_add_filter_drop p rows n
  rcases h with hnone | hall
  · have hnil : (rows.drop n).filter p = [] := List.filter_eq_nil_iff.2 fun a ha => by
      simp [hnone a ha]
    rw [hnil, List.append_nil] at hsplit
    rw [← hsplit]
    refine (List.take_of_length_le ?_).symm
    exact (List.length_filter_le _ _).trans (List.length_take_le _ _)
  · rw [List.filter_eq_self.2 hall] at hsplit ⊢
    rw [← hsplit]
    by_cases hn : n ≤ rows.length
    · have hlen : (rows.take n).length = n := List.length_take_of_le hn
      rw [List.take_append_of_le_length hlen.ge, List.take_take, Nat.min_self]
    · have hdrop : rows.drop n = [] := List.drop_eq_nil_of_le (by omega)
      rw [hdrop, List.filter_nil, List.append_nil, List.take_take, Nat.min_self]

/-- Checked again after the limit, the condition changes nothing. -/
theorem filter_take_filter (p : α → Bool) (rows : List α) (n : Nat) :
    ((rows.filter p).take n).filter p = (rows.filter p).take n :=
  List.filter_eq_self.2 fun _ ha => (List.mem_filter.1 (List.mem_of_mem_take ha)).2

/-- No row that meets the condition is beyond the limit. -/
theorem length_filter_le_iff :
    (rows.filter p).length ≤ ((rows.take n).filter p).length ↔ ∀ a ∈ rows.drop n, p a = false := by
  have hlen := congrArg List.length (filter_take_add_filter_drop p rows n)
  rw [List.length_append] at hlen
  rw [show (rows.filter p).length ≤ ((rows.take n).filter p).length
    ↔ ((rows.drop n).filter p).length = 0 by omega, List.length_eq_zero_iff,
    List.filter_eq_nil_iff]
  simp

end Limit

end Select
