import Mathlib.Data.List.MinMax
import Mathlib.Data.List.Sort

set_option autoImplicit false

/-! # SQL statements

The part of SQL that SQLite and Postgres share, as a shallow embedding that keeps the text: every
expression and query is its text together with its meaning, so that a statement built from them
says what a given text does. NULL is `none`, conditions are three-valued, and a row is selected when
its condition is true. A recursive table can run without end, so its rows are computed with a bound
on the rounds, and `none` means that the bound was too small. -/

namespace Sql

/-! ## Texts -/

/-- A piece of a text: written out, or a name that is filled in. -/
inductive Piece (η : Type) where
  | lit (s : String)
  | hole (h : η)
  deriving DecidableEq, Repr

/-- A text with names to fill in. -/
structure Text (η : Type) where
  pieces : List (Piece η)
  deriving DecidableEq, Repr

variable {η : Type}

instance : Append (Text η) := ⟨fun a b => ⟨a.pieces ++ b.pieces⟩⟩

instance : Coe String (Text η) := ⟨fun s => ⟨[.lit s]⟩⟩

def Text.hole (h : η) : Text η := ⟨[.hole h]⟩

def Piece.fill (names : η → String) : Piece η → String
  | .lit s => s
  | .hole h => names h

def fillAll (names : η → String) : List (Piece η) → String
  | [] => ""
  | p :: rest => p.fill names ++ fillAll names rest

def Text.fill (names : η → String) (text : Text η) : String := fillAll names text.pieces

theorem fillAll_append (names : η → String) (ps qs : List (Piece η)) :
    fillAll names (ps ++ qs) = fillAll names ps ++ fillAll names qs := by
  induction ps with
  | nil => rw [List.nil_append, fillAll, String.empty_append]
  | cons p ps ih => rw [List.cons_append, fillAll, ih, fillAll, String.append_assoc]

@[simp] theorem Text.fill_append (names : η → String) (a b : Text η) :
    (a ++ b).fill names = a.fill names ++ b.fill names :=
  fillAll_append names a.pieces b.pieces

@[simp] theorem Text.fill_lit (names : η → String) (s : String) :
    Text.fill names ⟨[.lit s]⟩ = s := by
  simp [Text.fill, fillAll, Piece.fill]

/-- The pieces with neighbouring literals joined. -/
def joined : List (Piece η) → List (Piece η)
  | [] => []
  | .hole h :: rest => .hole h :: joined rest
  | .lit s :: rest =>
    match joined rest with
    | .lit s' :: rest' => .lit (s ++ s') :: rest'
    | rest' => .lit s :: rest'

theorem fillAll_joined (names : η → String) (pieces : List (Piece η)) :
    fillAll names (joined pieces) = fillAll names pieces := by
  induction pieces with
  | nil => rfl
  | cons p rest ih =>
    cases p with
    | hole h => simp only [joined, fillAll, ih]
    | lit s =>
      rw [fillAll, ← ih]
      simp only [joined]
      split
      · rename_i s' rest' heq
        simp only [heq, fillAll, Piece.fill, String.append_assoc]
      · rfl

/-- Texts that are the same once their literals are joined are filled in to one string. -/
theorem Text.fill_congr {a b : Text η} (h : joined a.pieces = joined b.pieces)
    (names : η → String) : a.fill names = b.fill names := by
  rw [Text.fill, Text.fill, ← fillAll_joined, h, fillAll_joined]

variable {ρ σ α β γ : Type}

/-! ## Expressions -/

/-- An expression over the rows in scope. -/
structure Term (η ρ α : Type) where
  text : Text η
  value : ρ → Option α

namespace Term

def column (name : Text η) (get : ρ → Option α) : Term η ρ α := ⟨name, get⟩

/-- A literal, or a parameter with the value bound to it. -/
def constant (text : Text η) (value : α) : Term η ρ α := ⟨text, fun _ => some value⟩

@[simp] theorem value_column (name : Text η) (get : ρ → Option α) (r : ρ) :
    (column name get).value r = get r := rfl

@[simp] theorem value_constant (text : Text η) (value : α) (r : ρ) :
    (constant text value : Term η ρ α).value r = some value := rfl

/-- A comparison is NULL when one side is. -/
def compare (op : Text η) (holds : α → α → Bool) (a b : Term η ρ α) : Term η ρ Bool where
  text := a.text ++ " " ++ op ++ " " ++ b.text
  value r := (a.value r).bind (fun x => (b.value r).map (holds x))

def eq [DecidableEq α] (a b : Term η ρ α) : Term η ρ Bool := compare "=" (fun x y => decide (x = y)) a b

section

variable [LinearOrder α]

def lt (a b : Term η ρ α) : Term η ρ Bool := compare "<" (fun x y => decide (x < y)) a b

def gt (a b : Term η ρ α) : Term η ρ Bool := compare ">" (fun x y => decide (y < x)) a b

def ge (a b : Term η ρ α) : Term η ρ Bool := compare ">=" (fun x y => decide (y ≤ x)) a b

end

def isNull (a : Term η ρ α) : Term η ρ Bool := ⟨a.text ++ " IS NULL", fun r => some (a.value r).isNone⟩

def isNotNull (a : Term η ρ α) : Term η ρ Bool :=
  ⟨a.text ++ " IS NOT NULL", fun r => some (a.value r).isSome⟩

/-- `AND` is false when one side is, whatever the other. -/
def and (p q : Term η ρ Bool) : Term η ρ Bool where
  text := p.text ++ " AND " ++ q.text
  value r :=
    match p.value r, q.value r with
    | some false, _ => some false
    | _, some false => some false
    | some true, some true => some true
    | _, _ => none

/-- `OR` is true when one side is, whatever the other. -/
def or (p q : Term η ρ Bool) : Term η ρ Bool where
  text := p.text ++ " OR " ++ q.text
  value r :=
    match p.value r, q.value r with
    | some true, _ => some true
    | _, some true => some true
    | some false, some false => some false
    | _, _ => none

def paren (a : Term η ρ α) : Term η ρ α := ⟨"(" ++ a.text ++ ")", a.value⟩

def coalesce (a b : Term η ρ α) : Term η ρ α :=
  ⟨"COALESCE(" ++ a.text ++ ", " ++ b.text ++ ")", fun r => (a.value r).or (b.value r)⟩

/-- The row is selected. -/
def Holds (p : Term η ρ Bool) (r : ρ) : Prop := p.value r = some true

instance (p : Term η ρ Bool) (r : ρ) : Decidable (p.Holds r) :=
  inferInstanceAs (Decidable (p.value r = some true))

variable {a : Term η ρ α} {p : Term η ρ Bool} {r : ρ}

theorem holds_compare {op : Text η} {holds : α → α → Bool} {b : Term η ρ α} :
    (compare op holds a b).Holds r ↔
      ∃ x y, a.value r = some x ∧ b.value r = some y ∧ holds x y = true := by
  cases ha : a.value r <;> cases hb : b.value r <;> simp [Holds, compare, ha, hb]

@[simp] theorem holds_eq [DecidableEq α] {b : Term η ρ α} :
    (eq a b).Holds r ↔ ∃ x, a.value r = some x ∧ b.value r = some x := by
  rw [eq, holds_compare]
  simp

@[simp] theorem holds_isNull : (isNull a).Holds r ↔ a.value r = none := by
  simp [Holds, isNull]

@[simp] theorem holds_isNotNull : (isNotNull a).Holds r ↔ ∃ x, a.value r = some x := by
  simp [Holds, isNotNull, Option.isSome_iff_exists]

@[simp] theorem holds_and {q : Term η ρ Bool} : (and p q).Holds r ↔ p.Holds r ∧ q.Holds r := by
  rcases hp : p.value r with _ | (_ | _) <;> rcases hq : q.value r with _ | (_ | _) <;>
    simp [Holds, and, hp, hq]

@[simp] theorem holds_or {q : Term η ρ Bool} : (or p q).Holds r ↔ p.Holds r ∨ q.Holds r := by
  rcases hp : p.value r with _ | (_ | _) <;> rcases hq : q.value r with _ | (_ | _) <;>
    simp [Holds, or, hp, hq]

@[simp] theorem holds_paren : (paren p).Holds r ↔ p.Holds r := Iff.rfl

section

variable [LinearOrder α] {a b : Term η ρ α} {r : ρ}

@[simp] theorem holds_lt : (lt a b).Holds r ↔
    ∃ x y, a.value r = some x ∧ b.value r = some y ∧ x < y := by
  rw [lt, holds_compare]
  simp

@[simp] theorem holds_gt : (gt a b).Holds r ↔
    ∃ x y, a.value r = some x ∧ b.value r = some y ∧ y < x := by
  rw [gt, holds_compare]
  simp

@[simp] theorem holds_ge : (ge a b).Holds r ↔
    ∃ x y, a.value r = some x ∧ b.value r = some y ∧ y ≤ x := by
  rw [ge, holds_compare]
  simp

end

end Term

/-! ## Queries -/

/-- What a `FROM` reads. -/
structure Source (η ρ : Type) where
  text : Text η
  rows : List ρ

/-- A `WHERE`, or none. -/
structure Filter (η ρ : Type) where
  text : Text η
  selects : ρ → Bool

def Filter.all : Filter η ρ := ⟨"", fun _ => true⟩

def Filter.where_ (p : Term η ρ Bool) : Filter η ρ := ⟨" WHERE " ++ p.text, fun r => decide (p.Holds r)⟩

/-- What a `SELECT` puts into its rows. -/
structure Output (η ρ β : Type) where
  text : Text η
  row : ρ → β

def Term.output (a : Term η ρ α) : Output η ρ (Option α) := ⟨a.text, a.value⟩

def Output.as_ (out : Output η ρ β) (name : Text η) : Output η ρ β :=
  ⟨out.text ++ " AS " ++ name, out.row⟩

def Output.and (a : Output η ρ β) (b : Output η ρ γ) : Output η ρ (β × γ) :=
  ⟨a.text ++ ", " ++ b.text, fun r => (a.row r, b.row r)⟩

/-- A query in the scope of an outer row. -/
structure Query (η σ ρ : Type) where
  text : Text η
  rows : σ → List ρ

/-- The rows of a source that a filter selects, in the scope of the outer row. -/
def Source.selected (source : Source η ρ) (filter : Filter η (ρ × σ)) (outer : σ) : List (ρ × σ) :=
  (source.rows.map (fun r => (r, outer))).filter filter.selects

def select (out : Output η (ρ × σ) β) (source : Source η ρ) (filter : Filter η (ρ × σ)) : Query η σ β where
  text := "SELECT " ++ out.text ++ " FROM " ++ source.text ++ filter.text
  rows outer := (source.selected filter outer).map out.row

/-- The lowest of some values. -/
def minimum [LinearOrder α] (values : List α) : Option α := values.argmin id

variable {values : List α}

theorem minimum_eq_none_iff [LinearOrder α] : minimum values = none ↔ values = [] := List.argmin_eq_none

theorem mem_of_minimum [LinearOrder α] {a : α} (h : minimum values = some a) : a ∈ values :=
  List.argmin_mem h

theorem minimum_le [LinearOrder α] {a b : α} (h : minimum values = some a) (hb : b ∈ values) :
    a ≤ b :=
  List.le_of_mem_argmin hb h

theorem minimum_eq_some [LinearOrder α] {a : α} (ha : a ∈ values) (hle : ∀ b ∈ values, a ≤ b) :
    minimum values = some a := by
  cases hmin : minimum values with
  | none =>
    rw [minimum_eq_none_iff.1 hmin] at ha
    exact absurd ha List.not_mem_nil
  | some m => rw [le_antisymm (minimum_le hmin ha) (hle m (mem_of_minimum hmin))]

/-- `SELECT MIN(..)` has one row, and NULL in it if nothing was selected. -/
def selectMin [LinearOrder α] (a : Term η (ρ × σ) α) (source : Source η ρ)
    (filter : Filter η (ρ × σ)) : Query η σ (Option α) where
  text := "SELECT MIN(" ++ a.text ++ ") FROM " ++ source.text ++ filter.text
  rows outer := [minimum ((source.selected filter outer).filterMap a.value)]

/-- `ORDER BY` the selected column, one that is never NULL. -/
def selectOrdered [LinearOrder α] (name : Text η) (get : ρ × σ → α) (source : Source η ρ)
    (filter : Filter η (ρ × σ)) : Query η σ (Option α) where
  text := "SELECT " ++ name ++ " FROM " ++ source.text ++ filter.text ++ " ORDER BY " ++ name
  rows outer := (((source.selected filter outer).map get).insertionSort (· ≤ ·)).map some

def Query.limit (q : Query η σ ρ) (n : Nat) : Query η σ ρ :=
  ⟨q.text ++ " LIMIT " ++ toString n, fun outer => (q.rows outer).take n⟩

/-- A subquery used as a value: that of its row, or NULL without one. -/
def Query.scalar (q : Query η σ (Option α)) : Term η σ α :=
  ⟨"(" ++ q.text ++ ")", fun outer => (q.rows outer).head?.join⟩

/-- The rows that a `WHERE` selects, given what it asks of them. -/
theorem Source.selected_where {source : Source η ρ} {p : Term η (ρ × σ) Bool} {outer : σ}
    {asked : ρ → Prop} [DecidablePred asked] (h : ∀ r, p.Holds (r, outer) ↔ asked r) :
    source.selected (Filter.where_ p) outer
      = (source.rows.filter (fun r => decide (asked r))).map (fun r => (r, outer)) := by
  rw [Source.selected, List.filter_map]
  congr 1
  refine List.filter_congr (fun r _ => ?_)
  simp only [Function.comp_apply, Filter.where_, decide_eq_decide]
  exact h r

/-- The first row of an ordered query is the minimum. -/
theorem head?_insertionSort [LinearOrder α] (l : List α) :
    (l.insertionSort (· ≤ ·)).head? = minimum l := by
  have hsorted := List.pairwise_insertionSort (· ≤ ·) l
  have hmem : ∀ a, a ∈ l.insertionSort (· ≤ ·) ↔ a ∈ l := fun a => List.mem_insertionSort _
  cases hl : l.insertionSort (· ≤ ·) with
  | nil =>
    have hnil : l = [] := List.eq_nil_iff_forall_not_mem.2 (fun a ha => by
      rw [← hmem, hl] at ha
      exact List.not_mem_nil ha)
    rw [hnil]
    rfl
  | cons a rest =>
    rw [hl] at hsorted hmem
    cases hmin : minimum l with
    | none =>
      rw [minimum_eq_none_iff] at hmin
      have ha := (hmem a).1 List.mem_cons_self
      rw [hmin] at ha
      exact absurd ha List.not_mem_nil
    | some m =>
      have hle : m ≤ a := minimum_le hmin ((hmem a).1 List.mem_cons_self)
      have hge : a ≤ m := by
        rcases List.mem_cons.1 ((hmem m).2 (mem_of_minimum hmin)) with rfl | hm
        · exact le_rfl
        · exact (List.pairwise_cons.1 hsorted).1 m hm
      rw [List.head?_cons, le_antisymm hle hge]

/-- `ORDER BY .. LIMIT 1`, as a value, is the minimum. -/
theorem scalar_selectOrdered [LinearOrder α] (name : Text η) (get : ρ × σ → α)
    (source : Source η ρ) (filter : Filter η (ρ × σ)) (outer : σ) :
    ((selectOrdered name get source filter).limit 1).scalar.value outer
      = minimum ((source.selected filter outer).map get) := by
  rw [← head?_insertionSort]
  simp only [Query.scalar, Query.limit, selectOrdered]
  cases ((source.selected filter outer).map get).insertionSort (· ≤ ·) <;> rfl

theorem scalar_selectMin [LinearOrder α] (a : Term η (ρ × σ) α) (source : Source η ρ)
    (filter : Filter η (ρ × σ)) (outer : σ) :
    (selectMin a source filter).scalar.value outer
      = minimum ((source.selected filter outer).filterMap a.value) := rfl

/-! ## Recursive tables -/

inductive Dialect where
  | sqlite
  | postgres
  deriving DecidableEq, Repr

/-- SQLite takes one row at a time from a queue, and queues what it gives. -/
def queued (step : List ρ → List ρ) : Nat → List ρ → Option (List ρ)
  | _, [] => some []
  | 0, _ :: _ => none
  | fuel + 1, r :: queue => (queued step fuel (queue ++ step [r])).map (r :: ·)

/-- Postgres takes all the rows of the last round together. -/
def rounds (step : List ρ → List ρ) : Nat → List ρ → Option (List ρ)
  | _, [] => some []
  | 0, _ :: _ => none
  | fuel + 1, r :: round => (rounds step fuel (step (r :: round))).map ((r :: round) ++ ·)

/-- `WITH RECURSIVE`: a table made of the rows of one query and, again and again, of those that
    another query makes of them. -/
structure Recursive (η ρ : Type) where
  text : Text η
  rows : Dialect → Nat → Option (List ρ)

def recursive (name columns : Text η) (base : Query η Unit ρ) (step : Source η ρ → Query η Unit ρ) :
    Recursive η ρ where
  text := name ++ "(" ++ columns ++ ") AS (" ++ base.text ++ " UNION ALL "
    ++ (step ⟨name, []⟩).text ++ ")"
  rows dialect fuel :=
    match dialect with
    | .sqlite => queued (fun last => (step ⟨name, last⟩).rows ()) fuel (base.rows ())
    | .postgres => rounds (fun last => (step ⟨name, last⟩).rows ()) fuel (base.rows ())

/-- The two agree where every round has one row at most. -/
theorem queued_eq_rounds {step : List ρ → List ρ} (hstep : ∀ r, (step [r]).length ≤ 1)
    (fuel : Nat) : ∀ last : List ρ, last.length ≤ 1 → queued step fuel last = rounds step fuel last
  | [], _ => by cases fuel <;> rfl
  | [r], _ => by
    cases fuel with
    | zero => rfl
    | succ fuel =>
      simp only [queued, rounds, List.nil_append]
      rw [queued_eq_rounds hstep fuel (step [r]) (hstep r)]
      rfl
  | _ :: _ :: _, h => absurd h (by simp)

theorem rounds_singleton (step : List ρ → List ρ) (fuel : Nat) (r : ρ) :
    rounds step (fuel + 1) [r] = (rounds step fuel (step [r])).map (r :: ·) := rfl

/-! ## Walking the values of a column -/

section

variable [LinearOrder α]

/-- The next value above the one before; the first round has the lowest one. -/
def nextAbove (values : List α) : Option α → Option α
  | none => none
  | some a => minimum (values.filter (fun b => decide (a < b)))

/-- The step of a walk: the next value, or NULL after the highest; nothing after NULL. -/
def walkStep (values : List α) : List (Option α) → List (Option α) :=
  fun last => (last.filter (·.isSome)).map (nextAbove values)

theorem length_walkStep (values : List α) (r : Option α) : (walkStep values [r]).length ≤ 1 := by
  cases r <;> simp [walkStep]

/-- The values above the next one. -/
theorem filter_next {a b : α} (h : nextAbove values (some a) = some b) :
    ∀ c, (c ∈ values ∧ a < c) ↔ (c ∈ values ∧ b ≤ c) := by
  have hmem := mem_of_minimum h
  have hb : a < b := by simpa using (List.mem_filter.1 hmem).2
  intro c
  refine and_congr_right (fun hc => ⟨fun hlt => ?_, fun hle => lt_of_lt_of_le hb hle⟩)
  exact minimum_le h (List.mem_filter.2 ⟨hc, by simpa using hlt⟩)

theorem length_filter_next {a b : α} (h : nextAbove values (some a) = some b) :
    (values.filter (fun c => decide (b < c))).length
      < (values.filter (fun c => decide (a < c))).length := by
  have hmem := mem_of_minimum h
  have hb : a < b := by simpa using (List.mem_filter.1 hmem).2
  have hsub : values.filter (fun c => decide (b < c))
      = (values.filter (fun c => decide (a < c))).filter (fun c => decide (b < c)) := by
    rw [List.filter_filter]
    refine List.filter_congr (fun c _ => ?_)
    by_cases hbc : b < c
    · simp [hbc, lt_trans hb hbc]
    · simp [hbc]
  rw [hsub]
  exact List.length_filter_lt_length_iff_exists.2 ⟨b, hmem, by simp⟩

/-- **A walk from one value reaches every value from there on**, and ends after NULL. -/
theorem exists_rounds_walkStep (values : List α) (a : α) :
    ∃ found : List α, (∀ c, c ∈ found ↔ c = a ∨ (c ∈ values ∧ a < c))
      ∧ found.length ≤ (values.filter (fun c => decide (a < c))).length + 1
      ∧ ∀ fuel, (values.filter (fun c => decide (a < c))).length + 2 ≤ fuel →
        rounds (walkStep values) fuel [some a] = some (found.map some ++ [none]) := by
  -- by the number of values still above
  induction hn : (values.filter (fun c => decide (a < c))).length using Nat.strong_induction_on
    generalizing a with
  | _ n ih =>
    cases hnext : nextAbove values (some a) with
    | none =>
      have hnil := minimum_eq_none_iff.1 hnext
      refine ⟨[a], fun c => ?_, by simp, fun fuel hfuel => ?_⟩
      · rw [List.mem_singleton]
        refine ⟨Or.inl, fun h => h.resolve_right (fun hc => ?_)⟩
        have hmem : c ∈ values.filter (fun c => decide (a < c)) :=
          List.mem_filter.2 ⟨hc.1, by simpa using hc.2⟩
        rw [hnil] at hmem
        exact List.not_mem_nil hmem
      · obtain ⟨fuel, rfl⟩ : ∃ k, fuel = k + 2 := ⟨fuel - 2, by omega⟩
        simp [rounds_singleton, walkStep, hnext, rounds]
    | some b =>
      have hlt := length_filter_next hnext
      obtain ⟨found, hfound, hlength, hrun⟩ := ih _ (hn ▸ hlt) b rfl
      refine ⟨a :: found, fun c => ?_, by simp; omega, fun fuel hfuel => ?_⟩
      · rw [List.mem_cons, hfound, filter_next hnext c]
        have hb := (List.mem_filter.1 (mem_of_minimum hnext)).1
        refine or_congr_right ⟨?_, fun h => ?_⟩
        · rintro (rfl | ⟨hc, hbc⟩)
          · exact ⟨hb, le_rfl⟩
          · exact ⟨hc, le_of_lt hbc⟩
        · rcases eq_or_lt_of_le h.2 with heq | hbc
          · exact Or.inl heq.symm
          · exact Or.inr ⟨h.1, hbc⟩
      · obtain ⟨fuel, rfl⟩ : ∃ k, fuel = k + 1 := ⟨fuel - 1, by omega⟩
        have hstep : walkStep values [some a] = [some b] := by simp [walkStep, hnext]
        rw [rounds_singleton, hstep, hrun fuel (by omega)]
        rfl

/-- **A walk by successive minima reaches every value.** -/
theorem exists_rounds_walk (values : List α) :
    ∃ found : List α, (∀ c, c ∈ found ↔ c ∈ values) ∧ found.length ≤ values.length
      ∧ ∀ fuel, values.length + 1 ≤ fuel →
        rounds (walkStep values) fuel [minimum values] = some (found.map some ++ [none]) := by
  cases hmin : minimum values with
  | none =>
    rw [minimum_eq_none_iff.1 hmin]
    refine ⟨[], fun c => Iff.rfl, le_rfl, fun fuel hfuel => ?_⟩
    obtain ⟨fuel, rfl⟩ : ∃ k, fuel = k + 1 := ⟨fuel - 1, by simp at hfuel; omega⟩
    cases fuel <;> simp [walkStep, rounds]
  | some a =>
    have ha := mem_of_minimum hmin
    obtain ⟨found, hfound, hlength, hrun⟩ := exists_rounds_walkStep values a
    have habove : (values.filter (fun c => decide (a < c))).length < values.length :=
      List.length_filter_lt_length_iff_exists.2 ⟨a, ha, by simp⟩
    refine ⟨found, fun c => ?_, by omega, fun fuel hfuel => hrun fuel (by omega)⟩
    rw [hfound]
    constructor
    · rintro (rfl | h)
      · exact ha
      · exact h.1
    · intro hc
      rcases eq_or_lt_of_le (minimum_le hmin hc) with heq | hlt
      · exact Or.inl heq.symm
      · exact Or.inr ⟨hc, hlt⟩

end

/-! ## Deleting -/

/-- `DELETE FROM table WHERE key IN (..)`. -/
def deleteIn [DecidableEq α] (key : ρ → α) (table : List ρ) (keys : List (Option α)) : List ρ :=
  table.filter (fun r => decide (some (key r) ∉ keys))

/-- `DELETE FROM table AS d USING source WHERE ..`. -/
def deleteUsing (cond : Term η (β × ρ) Bool) (table : List ρ) (source : List β) : List ρ :=
  table.filter (fun r => decide (∀ b ∈ source, ¬cond.Holds (b, r)))

/-- Where a key names one row, both delete the rows that match. -/
theorem deleteIn_eq_deleteUsing [DecidableEq α] {key : ρ → α} {table : List ρ}
    (hkey : (table.map key).Nodup) (cond : Term η (β × ρ) Bool) (source : List β)
    {keys : List (Option α)}
    (hkeys : ∀ k, k ∈ keys ↔ ∃ b ∈ source, ∃ r ∈ table, cond.Holds (b, r) ∧ some (key r) = k) :
    deleteIn key table keys = deleteUsing cond table source := by
  refine List.filter_congr (fun r hr => ?_)
  rw [decide_eq_decide, hkeys]
  constructor
  · intro h b hb hcond
    exact h ⟨b, hb, r, hr, hcond, rfl⟩
  · rintro h ⟨b, hb, r', hr', hcond, heq⟩
    rw [List.inj_on_of_nodup_map hkey hr' hr (Option.some.inj heq)] at hcond
    exact h b hb hcond

end Sql
