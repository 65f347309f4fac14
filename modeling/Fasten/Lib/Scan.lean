import Mathlib.Data.List.Sort
import Mathlib.Order.Basic

set_option autoImplicit false

/-! # Scans that stop at the first failure

A check runs down a list and sees, for each element, the elements before it. A failure carries the
key it happened at; of several scans the failure with the lowest key is reported. The rules below
say when a scan reports nothing below a bound, which is what two scans are compared by. -/

namespace Scan

variable {α ρ : Type}

/-! ## Failures and their keys -/

/-- Keep the failure with the lower key, the older one on a tie. -/
def lower (first found : Option (Int × ρ)) : Option (Int × ρ) :=
  match found, first with
  | none, _ => first
  | some b, none => some b
  | some b, some a => if b.1 < a.1 then some b else some a

/-- No failure is reported below `c`. -/
def NoneBelow (c : Int) (found : Option (Int × ρ)) : Prop :=
  ∀ b, found = some b → c ≤ b.1

@[simp] theorem noneBelow_none (c : Int) : NoneBelow c (none : Option (Int × ρ)) := by
  intro b hb
  exact absurd hb (by simp)

variable {c : Int} {first found a : Option (Int × ρ)} {l : List α}

@[simp] theorem noneBelow_some {b : Int × ρ} : NoneBelow c (some b) ↔ c ≤ b.1 := by
  constructor
  · intro h
    exact h b rfl
  · intro h b' hb'
    exact Option.some.inj hb' ▸ h

theorem NoneBelow.mono {c' : Int} (h : NoneBelow c found) (hle : c' ≤ c) : NoneBelow c' found :=
  fun b hb => hle.trans (h b hb)

theorem noneBelow_lower :
    NoneBelow c (lower first found) ↔ NoneBelow c first ∧ NoneBelow c found := by
  cases found with
  | none => simp [lower]
  | some b =>
    cases first with
    | none => simp [lower]
    | some a =>
      simp only [lower, noneBelow_some]
      split_ifs with hlt
      · simp only [noneBelow_some]; omega
      · simp only [noneBelow_some]; omega

theorem noneBelow_foldl_lower (l : List (Option (Int × ρ))) (first : Option (Int × ρ)) :
    NoneBelow c (l.foldl lower first) ↔ NoneBelow c first ∧ ∀ b ∈ l, NoneBelow c b := by
  induction l generalizing first with
  | nil => simp
  | cons b rest ih => simp [ih, noneBelow_lower, and_assoc]

/-- What is reported was found. -/
theorem eq_some_of_lower {b : Int × ρ} (h : lower first found = some b) :
    first = some b ∨ found = some b := by
  cases found with
  | none => exact Or.inl h
  | some y =>
    cases first with
    | none => exact Or.inr h
    | some x =>
      simp only [lower] at h
      split_ifs at h
      · exact Or.inr h
      · exact Or.inl h

theorem eq_some_of_foldl_lower (l : List (Option (Int × ρ))) {b : Int × ρ}
    (h : l.foldl lower first = some b) : first = some b ∨ some b ∈ l := by
  induction l generalizing first with
  | nil => exact Or.inl h
  | cons y rest ih =>
    rcases ih h with hfirst | hrest
    · rcases eq_some_of_lower hfirst with hfirst | hy
      · exact Or.inl hfirst
      · exact Or.inr (hy ▸ List.mem_cons_self)
    · exact Or.inr (List.mem_cons_of_mem _ hrest)

theorem eq_none_iff_noneBelow : found = none ↔ ∀ c, NoneBelow c found := by
  constructor
  · rintro rfl c
    exact noneBelow_none c
  · intro h
    cases found with
    | none => rfl
    | some b => exact absurd (noneBelow_some.1 (h (b.1 + 1))) (by omega)

/-- Two reports with nothing below the same bounds have the same key. -/
theorem map_fst_eq_of_noneBelow_iff {σ : Type} {b : Option (Int × σ)}
    (h : ∀ c, NoneBelow c a ↔ NoneBelow c b) : a.map Prod.fst = b.map Prod.fst := by
  cases a with
  | none =>
    cases b with
    | none => rfl
    | some y => exact absurd (noneBelow_some.1 ((h (y.1 + 1)).1 (noneBelow_none _))) (by omega)
  | some x =>
    cases b with
    | none => exact absurd (noneBelow_some.1 ((h (x.1 + 1)).2 (noneBelow_none _))) (by omega)
    | some y =>
      have hxy : x.1 ≤ y.1 := noneBelow_some.1 ((h x.1).1 (noneBelow_some.2 le_rfl))
      have hyx : y.1 ≤ x.1 := noneBelow_some.1 ((h y.1).2 (noneBelow_some.2 le_rfl))
      simp only [Option.map_some, Option.some.injEq]
      omega

/-- The same, when the first is found below `m`: what is found from `m` on does not matter. -/
theorem map_fst_eq_of_noneBelow_iff_le {σ : Type} {b : Option (Int × σ)} {m : Int}
    (h : ∀ c ≤ m, NoneBelow c a ↔ NoneBelow c b) {x : Int × ρ} (ha : a = some x) (hx : x.1 < m) :
    a.map Prod.fst = b.map Prod.fst := by
  subst ha
  cases b with
  | none =>
    have := noneBelow_some.1 ((h m le_rfl).2 (noneBelow_none m))
    omega
  | some y =>
    have hle := noneBelow_some.1 ((h x.1 hx.le).1 (noneBelow_some.2 le_rfl))
    have hge := noneBelow_some.1 ((h (min y.1 m) (min_le_right _ _)).2
      (noneBelow_some.2 (min_le_left _ _)))
    rw [Option.map_some, Option.map_some, Option.some.injEq]
    omega

theorem noneBelow_congr {σ : Type} {b : Option (Int × σ)} (h : a.map Prod.fst = b.map Prod.fst) :
    NoneBelow c a ↔ NoneBelow c b := by
  cases a <;> cases b <;> simp_all

/-- Two keys with the same lower bounds are the same. -/
theorem eq_of_forall_le_iff {a b : Option Int}
    (h : ∀ d : Int, (∀ e ∈ a, d ≤ e) ↔ ∀ e ∈ b, d ≤ e) : a = b := by
  have hkeys : ∀ o : Option Int, (o.map (fun e => (e, ()))).map Prod.fst = o := by
    intro o
    cases o <;> rfl
  have hbelow : ∀ (o : Option Int) (d : Int),
      NoneBelow d (o.map (fun e => (e, ()))) ↔ ∀ e ∈ o, d ≤ e := by
    intro o d
    cases o <;> simp
  rw [← hkeys a, ← hkeys b]
  refine map_fst_eq_of_noneBelow_iff (fun d => ?_)
  rw [hbelow, hbelow]
  exact h d

/-! ## The scan -/

/-- Run `f` down the list. It sees the elements before each one, the nearest first. -/
def firstFail {β : Type} (f : List α → α → Option β) : List α → List α → Option β
  | _, [] => none
  | before, x :: rest =>
    match f before x with
    | some b => some b
    | none => firstFail f (x :: before) rest

section

variable {β : Type} {f g : List α → α → Option β}

theorem firstFail_append (before l l' : List α) :
    firstFail f before (l ++ l')
      = (firstFail f before l).or (firstFail f (l.reverse ++ before) l') := by
  induction l generalizing before with
  | nil => simp [firstFail]
  | cons x rest ih =>
    simp only [List.cons_append, firstFail]
    cases hx : f before x with
    | some b => simp
    | none => simpa using ih (x :: before)

variable {before : List α}

theorem firstFail_eq_none_iff :
    firstFail f before l = none ↔
      ∀ pre x post, l = pre ++ x :: post → f (pre.reverse ++ before) x = none := by
  induction l generalizing before with
  | nil => simp [firstFail]
  | cons y rest ih =>
    simp only [firstFail]
    constructor
    · intro h pre x post hsplit
      cases hy : f before y with
      | some b => simp [hy] at h
      | none =>
        rw [hy] at h
        cases pre with
        | nil =>
          obtain ⟨rfl, -⟩ := List.cons.inj hsplit
          simpa using hy
        | cons z pre =>
          obtain ⟨rfl, hrest⟩ := List.cons.inj hsplit
          simpa using ih.1 h pre x post hrest
    · intro h
      have hy : f before y = none := by simpa using h [] y rest rfl
      rw [hy]
      refine ih.2 (fun pre x post hsplit => ?_)
      simpa using h (y :: pre) x post (by rw [hsplit, List.cons_append])

/-- A scan that asks something of each element, and something of each pair, finds nothing exactly
    when all elements and all pairs pass. -/
theorem firstFail_eq_none_iff_pairwise {P : α → Prop} {R : α → α → Prop}
    (hf : ∀ before x, f before x = none ↔ P x ∧ ∀ q ∈ before, R q x) :
    firstFail f before l = none ↔
      (∀ x ∈ l, P x ∧ ∀ q ∈ before, R q x) ∧ l.Pairwise R := by
  induction l generalizing before with
  | nil => simp [firstFail]
  | cons y rest ih =>
    simp only [firstFail, List.forall_mem_cons, List.pairwise_cons]
    cases hy : f before y with
    | some b =>
      have hnot : ¬(P y ∧ ∀ q ∈ before, R q y) := by simp [← hf, hy]
      exact iff_of_false (Option.some_ne_none b) (fun h => hnot h.1.1)
    | none =>
      have hyes := (hf before y).1 hy
      simp only [ih, List.forall_mem_cons]
      constructor
      · rintro ⟨hrest, hpair⟩
        exact ⟨⟨hyes, fun x hx => ⟨(hrest x hx).1, (hrest x hx).2.2⟩⟩,
          fun x hx => (hrest x hx).2.1, hpair⟩
      · rintro ⟨⟨-, hrest⟩, hhead, hpair⟩
        exact ⟨fun x hx => ⟨(hrest x hx).1, hhead x hx, (hrest x hx).2⟩, hpair⟩

/-- **Scanning by class.** A scan that looks at earlier elements of the same class only finds nothing
    exactly when the scan of every class on its own finds nothing. -/
theorem firstFail_eq_none_iff_forall_class {κ : Type} [DecidableEq κ] (cls : α → κ)
    (hf : ∀ before x, f before x = f (before.filter (fun q => cls q = cls x)) x) :
    firstFail f before l = none ↔
      ∀ k, firstFail f (before.filter (fun q => cls q = k)) (l.filter (fun q => cls q = k))
        = none := by
  induction l generalizing before with
  | nil => simp [firstFail]
  | cons y rest ih =>
    -- the class of `y` meets it next; the other classes skip it
    have hown : firstFail f (before.filter (fun q => cls q = cls y))
        ((y :: rest).filter (fun q => cls q = cls y)) =
        match f before y with
        | some b => some b
        | none => firstFail f ((y :: before).filter (fun q => cls q = cls y))
            (rest.filter (fun q => cls q = cls y)) := by
      rw [List.filter_cons_of_pos (by simp), List.filter_cons_of_pos (by simp), firstFail, ← hf]
    have hother : ∀ k, cls y ≠ k → (y :: rest).filter (fun q => cls q = k)
        = rest.filter (fun q => cls q = k) ∧
        (y :: before).filter (fun q => cls q = k) = before.filter (fun q => cls q = k) :=
      fun k hk => ⟨List.filter_cons_of_neg (by simpa using hk),
        List.filter_cons_of_neg (by simpa using hk)⟩
    rw [firstFail]
    cases hy : f before y with
    | some b =>
      rw [hy] at hown
      refine iff_of_false (Option.some_ne_none b) (fun h => ?_)
      rw [h (cls y)] at hown
      exact absurd hown (by simp)
    | none =>
      rw [hy] at hown
      simp only [ih]
      refine forall_congr' (fun k => ?_)
      by_cases hk : cls y = k
      · subst hk
        rw [hown]
      · rw [(hother k hk).1, (hother k hk).2]

theorem exists_of_firstFail_eq_some {b : β} (h : firstFail f before l = some b) :
    ∃ pre x post, l = pre ++ x :: post ∧ f (pre.reverse ++ before) x = some b := by
  induction l generalizing before with
  | nil => simp [firstFail] at h
  | cons y rest ih =>
    simp only [firstFail] at h
    cases hy : f before y with
    | some b' =>
      rw [hy] at h
      exact ⟨[], y, rest, rfl, by simpa [hy] using h⟩
    | none =>
      rw [hy] at h
      obtain ⟨pre, x, post, rfl, hx⟩ := ih h
      exact ⟨y :: pre, x, post, rfl, by simpa using hx⟩

end

/-! ## Scans over a sorted list -/

/-- A list sorted by a key, and by something else where keys are equal, is sorted by the key. -/
theorem pairwise_insertionSort_lex {κ : Type} [LinearOrder κ] (key : α → Int) (sub : α → κ)
    {r : α → α → Prop} [DecidableRel r]
    (hr : ∀ a b, r a b ↔ key a < key b ∨ key a = key b ∧ sub a ≤ sub b) (l : List α) :
    (l.insertionSort r).Pairwise (fun a b => key a ≤ key b) := by
  have htotal : Std.Total r := by
    refine ⟨fun a b => ?_⟩
    rw [hr, hr]
    rcases lt_trichotomy (key a) (key b) with h | h | h
    · exact Or.inl (Or.inl h)
    · exact (le_total (sub a) (sub b)).imp (fun hle => Or.inr ⟨h, hle⟩)
        (fun hle => Or.inr ⟨h.symm, hle⟩)
    · exact Or.inr (Or.inl h)
  have htrans : IsTrans α r := by
    refine ⟨fun a b c hab hbc => ?_⟩
    rw [hr] at hab hbc ⊢
    rcases hab with hab | ⟨hab, hle⟩
    · exact Or.inl (by omega)
    · rcases hbc with hbc | ⟨hbc, hle'⟩
      · exact Or.inl (by omega)
      · exact Or.inr ⟨by omega, hle.trans hle'⟩
  refine (List.pairwise_insertionSort r l).imp (fun {a b} hab => ?_)
  have := (hr a b).1 hab
  omega

/-- The elements of a sorted list below a bound are a first part of it. -/
theorem eq_filter_append_filter {key : α → Int} (c : Int)
    (h : l.Pairwise (fun a b => key a ≤ key b)) :
    l = l.filter (fun x => decide (key x < c)) ++ l.filter (fun x => !decide (key x < c)) := by
  induction l with
  | nil => rfl
  | cons x rest ih =>
    obtain ⟨hx, hrest⟩ := List.pairwise_cons.1 h
    by_cases hlt : key x < c
    · simp only [List.filter_cons, hlt, decide_true, if_true, Bool.not_true,
        Bool.false_eq_true, if_false, List.cons_append]
      rw [← ih hrest]
    · have hnil : rest.filter (fun y => decide (key y < c)) = [] := by
        refine List.filter_eq_nil_iff.2 (fun y hy => ?_)
        have := hx y hy
        simp only [decide_eq_true_eq]
        omega
      have hall : rest.filter (fun y => !decide (key y < c)) = rest := by
        refine List.filter_eq_self.2 (fun y hy => ?_)
        have := hx y hy
        simp only [Bool.not_eq_true', decide_eq_false_iff_not]
        omega
      simp [hlt, hnil, hall]

/-- **Cutting a sorted scan.** A scan that reports each failure under its element's key reports
    nothing below `c` exactly when the scan of the elements below `c` reports nothing. -/
theorem noneBelow_firstFail_iff {key : α → Int} {f : List α → α → Option (Int × ρ)}
    (hkey : ∀ before x b, f before x = some b → b.1 = key x)
    (hl : l.Pairwise (fun a b => key a ≤ key b)) :
    NoneBelow c (firstFail f [] l)
      ↔ firstFail f [] (l.filter (fun x => decide (key x < c))) = none := by
  have hsplit := eq_filter_append_filter c hl
  constructor
  · intro h
    cases hfail : firstFail f [] (l.filter (fun x => decide (key x < c))) with
    | none => rfl
    | some b =>
      have hwhole : firstFail f [] l = some b := by
        rw [hsplit, firstFail_append, hfail]
        rfl
      obtain ⟨pre, x, post, hmem, hx⟩ := exists_of_firstFail_eq_some hfail
      have hlow : x ∈ l.filter (fun x => decide (key x < c)) := by
        rw [hmem]
        simp
      have hb := h b hwhole
      rw [hkey _ _ _ hx] at hb
      simp only [List.mem_filter, decide_eq_true_eq] at hlow
      omega
  · intro h b hb
    rw [hsplit, firstFail_append, h, Option.none_or] at hb
    obtain ⟨pre, x, post, hmem, hx⟩ := exists_of_firstFail_eq_some hb
    have hhigh : x ∈ l.filter (fun x => !decide (key x < c)) := by
      rw [hmem]
      simp
    rw [hkey _ _ _ hx]
    simp only [List.mem_filter, Bool.not_eq_true', decide_eq_false_iff_not] at hhigh
    omega

end Scan
