import Mathlib.Data.List.Basic
import Mathlib.Data.List.Pairwise
import Mathlib.Data.List.TakeDrop
import Mathlib.Tactic

set_option autoImplicit false

/-! # Regular expressions

Leftmost-first matching, as the backtracking engines and those that imitate them do it: an
expression gives the places where a match can end in the order it prefers them, and the match is the
first of these at the first place that has one. `\d`, `\s`, `\b` and letter case are those of a
dialect; the dialects agree on ASCII. -/

namespace Rx

/-- What an engine takes for digits, white space and word characters, and its case folding. -/
structure Dialect where
  digit : Char → Bool
  space : Char → Bool
  word : Char → Bool
  fold : Char → Char
  digit_ascii : ∀ c : Char, c.toNat < 128 → digit c = c.isDigit
  space_ascii : ∀ c : Char, c.toNat < 128 →
    space c = (c == ' ' || (decide (9 ≤ c.toNat) && decide (c.toNat ≤ 13)))
  word_ascii : ∀ c : Char, c.toNat < 128 → word c = (c.isAlphanum || c == '_')
  fold_ascii : ∀ c : Char, c.toNat < 128 → fold c = c.toLower
  word_of_digit : ∀ c, digit c = true → word c = true

/-- A character, or a class of characters. -/
inductive CharSet where
  | char (c : Char)
  | range (low high : Char)
  | digit
  | space
  | union (a b : CharSet)

/-- Letter case counts for single characters only: the caseless expressions here have no ranges. -/
def CharSet.has (d : Dialect) (caseless : Bool) : CharSet → Char → Bool
  | .char c, x => if caseless then d.fold c == d.fold x else c == x
  | .range low high, x => decide (low ≤ x) && decide (x ≤ high)
  | .digit, x => d.digit x
  | .space, x => d.space x
  | .union a b, x => a.has d caseless x || b.has d caseless x

inductive Regex where
  | empty
  | set (s : CharSet)
  /-- `\b` -/
  | boundary
  | seq (r q : Regex)
  | alt (r q : Regex)
  /-- `[..]{min,max}`, greedy -/
  | rep (s : CharSet) (min : Nat) (max : Option Nat)

/-- A place in a text: the character before it, and the text from there on. -/
structure Cursor where
  prev : Option Char
  rest : List Char

/-! ## Matching -/

/-- Whether one of the two neighbours of the place is a word character and the other is not. -/
def atBoundary (word : Char → Bool) (c : Cursor) : Bool :=
  (c.prev.map word).getD false != (c.rest.head?.map word).getD false

/-- The places after as many characters as are in the class, the furthest first. -/
def repEnds (p : Char → Bool) : Nat → Option Nat → Option Char → List Char → List Cursor
  | min, _, prev, [] => if min = 0 then [⟨prev, []⟩] else []
  | min, max, prev, x :: rest =>
    (if p x && max != some 0 then repEnds p (min - 1) (max.map (· - 1)) (some x) rest else [])
      ++ if min = 0 then [⟨prev, x :: rest⟩] else []

section

variable (d : Dialect) (caseless : Bool)

/-- Where a match that starts at the place can end, in the order of preference. -/
def Regex.ends : Regex → Cursor → List Cursor
  | .empty, c => [c]
  | .set s, c =>
    match c.rest with
    | [] => []
    | x :: rest => if s.has d caseless x then [⟨some x, rest⟩] else []
  | .boundary, c => if atBoundary d.word c then [c] else []
  | .seq r q, c => (r.ends c).flatMap q.ends
  | .alt r q, c => r.ends c ++ q.ends c
  | .rep s min max, c => repEnds (s.has d caseless) min max c.prev c.rest

/-- The text of the match that starts at the place. -/
def Regex.matchAt (r : Regex) (c : Cursor) : Option (List Char) :=
  (r.ends d caseless c).head?.map (fun e => c.rest.take (c.rest.length - e.rest.length))

/-- The text of the leftmost match. -/
def Regex.findFrom (r : Regex) : Option Char → List Char → Option (List Char)
  | prev, [] => r.matchAt d caseless ⟨prev, []⟩
  | prev, x :: rest => (r.matchAt d caseless ⟨prev, x :: rest⟩).or (r.findFrom (some x) rest)

/-- `find`. -/
def Regex.find (r : Regex) (text : List Char) : Option (List Char) :=
  r.findFrom d caseless none text

/-- `is_match`. -/
def Regex.isMatch (r : Regex) (text : List Char) : Bool := (r.find d caseless text).isSome

end

/-- A literal text. -/
def literal : List Char → Regex
  | [] => .empty
  | c :: text => .seq (.set (.char c)) (literal text)

/-- `r|q|..`. -/
def oneOf : List Regex → Regex
  | [] => .empty
  | [r] => r
  | r :: q :: rest => .alt r (oneOf (q :: rest))

/-- The dialect of ASCII alone. -/
def Dialect.ascii : Dialect where
  digit := Char.isDigit
  space c := c == ' ' || (decide (9 ≤ c.toNat) && decide (c.toNat ≤ 13))
  word c := c.isAlphanum || c == '_'
  fold := Char.toLower
  digit_ascii _ _ := rfl
  space_ascii _ _ := rfl
  word_ascii _ _ := rfl
  fold_ascii _ _ := rfl
  word_of_digit c h := by simp [Char.isAlphanum, h]

/-! ## The leftmost match -/

section

variable {d : Dialect} {caseless : Bool}

/-- The character before what follows `pre`. -/
def lastOf (prev : Option Char) (pre : List Char) : Option Char := pre.getLast?.or prev

@[simp] theorem lastOf_nil (prev : Option Char) : lastOf prev [] = prev := rfl

@[simp] theorem lastOf_cons (prev : Option Char) (x : Char) (pre : List Char) :
    lastOf prev (x :: pre) = lastOf (some x) pre := by
  rw [lastOf, lastOf, List.getLast?_cons]
  cases pre.getLast? <;> rfl

variable {r : Regex} {prev : Option Char} {w text : List Char} {c e : Cursor}

/-- **The match is at the first place that has one.** -/
theorem findFrom_eq_some_iff {m : List Char} :
    r.findFrom d caseless prev text = some m ↔
      ∃ pre rest, text = pre ++ rest ∧ r.matchAt d caseless ⟨lastOf prev pre, rest⟩ = some m ∧
        ∀ pre' rest', text = pre' ++ rest' → pre'.length < pre.length →
          r.matchAt d caseless ⟨lastOf prev pre', rest'⟩ = none := by
  induction text generalizing prev with
  | nil =>
    rw [Regex.findFrom]
    constructor
    · intro h
      exact ⟨[], [], rfl, h, fun _ _ _ hlt => absurd hlt (Nat.not_lt_zero _)⟩
    · rintro ⟨pre, rest, heq, h, -⟩
      obtain ⟨rfl, rfl⟩ := List.append_eq_nil_iff.1 heq.symm
      exact h
  | cons x text ih =>
    rw [Regex.findFrom, Option.or_eq_some_iff, ih]
    constructor
    · rintro (h | ⟨hnone, pre, rest, rfl, h, hfirst⟩)
      · exact ⟨[], x :: text, rfl, h, fun _ _ _ hlt => absurd hlt (Nat.not_lt_zero _)⟩
      · refine ⟨x :: pre, rest, rfl, by rwa [lastOf_cons], ?_⟩
        intro pre' rest' heq hlt
        cases pre' with
        | nil => rwa [← show x :: (pre ++ rest) = rest' from heq]
        | cons y pre' =>
          obtain ⟨rfl, htail⟩ := List.cons.inj heq
          rw [lastOf_cons]
          exact hfirst pre' rest' htail (Nat.lt_of_succ_lt_succ hlt)
    · rintro ⟨pre, rest, heq, h, hfirst⟩
      cases pre with
      | nil =>
        rw [List.nil_append] at heq
        exact Or.inl (heq ▸ h)
      | cons y pre =>
        obtain ⟨rfl, rfl⟩ := List.cons.inj heq
        refine Or.inr ⟨hfirst [] _ rfl (Nat.succ_pos _), pre, rest, rfl, ?_, ?_⟩
        · rwa [lastOf_cons] at h
        · intro pre' rest' heq hlt
          have hnone := hfirst (x :: pre') rest' (congrArg (x :: ·) heq)
            (Nat.succ_lt_succ hlt)
          rwa [lastOf_cons] at hnone

/-- There is a match if some place has one. -/
theorem isSome_findFrom_iff :
    (r.findFrom d caseless prev text).isSome = true ↔
      ∃ pre rest, text = pre ++ rest ∧ r.ends d caseless ⟨lastOf prev pre, rest⟩ ≠ [] := by
  have hmatch : ∀ c : Cursor, (r.matchAt d caseless c).isSome = true ↔ r.ends d caseless c ≠ [] := by
    intro c
    rw [Regex.matchAt]
    cases r.ends d caseless c <;> simp
  induction text generalizing prev with
  | nil =>
    rw [Regex.findFrom, hmatch]
    constructor
    · exact fun h => ⟨[], [], rfl, h⟩
    · rintro ⟨pre, rest, heq, h⟩
      obtain ⟨rfl, rfl⟩ := List.append_eq_nil_iff.1 heq.symm
      exact h
  | cons x text ih =>
    rw [Regex.findFrom, Option.isSome_or, Bool.or_eq_true, hmatch]
    constructor
    · rintro (h | h)
      · exact ⟨[], x :: text, rfl, h⟩
      · obtain ⟨pre, rest, rfl, h⟩ := ih.1 h
        exact ⟨x :: pre, rest, rfl, by rwa [lastOf_cons]⟩
    · rintro ⟨pre, rest, heq, h⟩
      cases pre with
      | nil =>
        rw [List.nil_append] at heq
        exact Or.inl (heq ▸ h)
      | cons y pre =>
        obtain ⟨rfl, rfl⟩ := List.cons.inj heq
        exact Or.inr (ih.2 ⟨pre, rest, rfl, by rwa [lastOf_cons] at h⟩)

theorem ends_oneOf {l : List Regex} (hl : l ≠ []) (c : Cursor) :
    (oneOf l).ends d caseless c = l.flatMap (fun r => r.ends d caseless c) := by
  induction l with
  | nil => exact absurd rfl hl
  | cons r rest ih =>
    cases rest with
    | nil => simp [oneOf]
    | cons q rest => rw [oneOf, Regex.ends, ih (List.cons_ne_nil q rest)]; rfl

/-- An alternation matches where one of its expressions does. -/
theorem isMatch_oneOf {l : List Regex} (hl : l ≠ []) (text : List Char) :
    (oneOf l).isMatch d caseless text = l.any (fun r => r.isMatch d caseless text) := by
  rw [Bool.eq_iff_iff, List.any_eq_true]
  simp only [Regex.isMatch, Regex.find, isSome_findFrom_iff, ends_oneOf hl, ne_eq,
    List.flatMap_eq_nil_iff, not_forall]
  constructor
  · rintro ⟨pre, rest, heq, r, hr, h⟩
    exact ⟨r, hr, pre, rest, heq, h⟩
  · rintro ⟨r, hr, pre, rest, heq, h⟩
    exact ⟨pre, rest, heq, r, hr, h⟩

/-! ## Greedy repetition -/

/-- The place after `n` characters more. -/
def Cursor.advance (c : Cursor) (n : Nat) : Cursor :=
  ⟨lastOf c.prev (c.rest.take n), c.rest.drop n⟩

theorem Cursor.advance_cons (prev : Option Char) (x : Char) (rest : List Char) (n : Nat) :
    Cursor.advance ⟨prev, x :: rest⟩ (n + 1) = Cursor.advance ⟨some x, rest⟩ n := by
  simp [Cursor.advance]

theorem mem_repEnds_iff {p : Char → Bool} {min : Nat} {max : Option Nat} {rest : List Char} :
    e ∈ repEnds p min max prev rest ↔ ∃ n, min ≤ n ∧ (∀ k ∈ max, n ≤ k) ∧ n ≤ rest.length ∧
      (∀ x ∈ rest.take n, p x = true) ∧ e = Cursor.advance ⟨prev, rest⟩ n := by
  induction rest generalizing min max prev with
  | nil =>
    rw [repEnds]
    constructor
    · intro h
      split_ifs at h with hmin
      · exact ⟨0, hmin.le, by simp, le_rfl, by simp, List.mem_singleton.1 h⟩
      · exact absurd h List.not_mem_nil
    · rintro ⟨n, hmin, -, hlen, -, rfl⟩
      obtain rfl : n = 0 := Nat.le_zero.1 hlen
      rw [if_pos (Nat.le_zero.1 hmin)]
      exact List.mem_singleton.2 rfl
  | cons x rest ih =>
    rw [repEnds, List.mem_append]
    constructor
    · rintro (h | h)
      · split_ifs at h with hx
        · rw [Bool.and_eq_true, bne_iff_ne] at hx
          obtain ⟨n, hmin, hmax, hlen, hall, rfl⟩ := ih.1 h
          refine ⟨n + 1, by omega, ?_, by simpa using hlen, ?_, ?_⟩
          · intro k hk
            have hle := hmax (k - 1) (Option.mem_map.2 ⟨k, hk, rfl⟩)
            have hzero : k ≠ 0 := fun h0 => hx.2 (by rw [← h0]; exact hk)
            omega
          · simpa [hx.1] using hall
          · rw [Cursor.advance_cons]
        · exact absurd h List.not_mem_nil
      · split_ifs at h with hmin
        · exact ⟨0, hmin.le, by simp, Nat.zero_le _, by simp, List.mem_singleton.1 h⟩
        · exact absurd h List.not_mem_nil
    · rintro ⟨n, hmin, hmax, hlen, hall, rfl⟩
      cases n with
      | zero =>
        rw [if_pos (Nat.le_zero.1 hmin)]
        exact Or.inr (List.mem_singleton.2 rfl)
      | succ n =>
        rw [List.take_succ_cons, List.forall_mem_cons] at hall
        have hzero : max ≠ some 0 := by
          rintro rfl
          exact absurd (hmax 0 rfl) (by omega)
        rw [if_pos (by simp [hall.1, hzero])]
        refine Or.inl ((@ih (some x) (min - 1) (max.map (· - 1))).2
          ⟨n, by omega, ?_, by simpa using hlen, hall.2, Cursor.advance_cons prev x rest n⟩)
        intro k hk
        obtain ⟨k', hk', rfl⟩ := Option.mem_map.1 hk
        have := hmax k' hk'
        omega

/-- The furthest place comes first. -/
theorem pairwise_repEnds (p : Char → Bool) (min : Nat) (max : Option Nat) (prev : Option Char)
    (rest : List Char) :
    (repEnds p min max prev rest).Pairwise (fun a b => a.rest.length < b.rest.length) := by
  induction rest generalizing min max prev with
  | nil =>
    rw [repEnds]
    split_ifs
    · exact List.pairwise_singleton _ _
    · exact List.Pairwise.nil
  | cons x rest ih =>
    rw [repEnds, List.pairwise_append]
    refine ⟨?_, ?_, ?_⟩
    · split_ifs
      · exact ih _ _ _
      · exact List.Pairwise.nil
    · split_ifs
      · exact List.pairwise_singleton _ _
      · exact List.Pairwise.nil
    · intro a ha b hb
      split_ifs at ha hb
      · obtain ⟨n, -, -, -, -, rfl⟩ := mem_repEnds_iff.1 ha
        rw [List.mem_singleton.1 hb]
        simp only [Cursor.advance, List.length_drop, List.length_cons]
        omega
      all_goals first | exact absurd ha List.not_mem_nil | exact absurd hb List.not_mem_nil

/-! ## Ends of an expression -/

theorem mem_ends_seq {q : Regex} : e ∈ (Regex.seq r q).ends d caseless c ↔
    ∃ c' ∈ r.ends d caseless c, e ∈ q.ends d caseless c' :=
  List.mem_flatMap

theorem mem_ends_set {s : CharSet} : e ∈ (Regex.set s).ends d caseless c ↔
    ∃ x rest, c.rest = x :: rest ∧ s.has d caseless x = true ∧ e = ⟨some x, rest⟩ := by
  rw [Regex.ends]
  cases c.rest with
  | nil => simp
  | cons x rest =>
    by_cases hx : s.has d caseless x = true
    · simp [hx]
    · simp [hx]

theorem mem_ends_boundary : e ∈ Regex.boundary.ends d caseless c ↔
    atBoundary d.word c = true ∧ e = c := by
  rw [Regex.ends]
  split_ifs with h <;> simp [h]

/-- After a word character there is a boundary unless another one follows. -/
theorem atBoundary_after_word {word : Char → Bool} {x : Char} (hx : word x = true)
    {rest : List Char} : atBoundary word ⟨some x, rest⟩ = true ↔ ∀ y ∈ rest.head?, word y = false := by
  cases rest <;> simp [atBoundary, hx]

/-- Before a word character there is a boundary unless another one precedes. -/
theorem atBoundary_before_word {word : Char → Bool} {x : Char} (hx : word x = true)
    {rest : List Char} : atBoundary word ⟨prev, x :: rest⟩ = true ↔ ∀ y ∈ prev, word y = false := by
  cases prev <;> simp [atBoundary, hx]

variable (d caseless)

/-- The expression prefers to end as far away as it can. -/
def Regex.Greedy (r : Regex) : Prop :=
  ∀ c, (r.ends d caseless c).Pairwise (fun a b => a.rest.length < b.rest.length)

/-- The expression ends in one place at most, `k` characters away. -/
def Regex.Fixed (k : Nat) (r : Regex) : Prop :=
  ∀ c, (r.ends d caseless c).length ≤ 1 ∧ ∀ e ∈ r.ends d caseless c, e.rest.length + k = c.rest.length

theorem fixed_set (s : CharSet) : (Regex.set s).Fixed d caseless 1 := by
  intro c
  constructor
  · rw [Regex.ends]
    cases c.rest with
    | nil => simp
    | cons x rest =>
      simp only
      split_ifs <;> simp
  · intro e he
    obtain ⟨x, rest, hrest, -, rfl⟩ := mem_ends_set.1 he
    rw [hrest, List.length_cons]

theorem fixed_boundary : Regex.boundary.Fixed d caseless 0 := by
  intro c
  constructor
  · rw [Regex.ends]
    split_ifs <;> simp
  · intro e he
    rw [(mem_ends_boundary.1 he).2, Nat.add_zero]

theorem greedy_rep (s : CharSet) (min : Nat) (max : Option Nat) :
    (Regex.rep s min max).Greedy d caseless :=
  fun c => pairwise_repEnds _ min max c.prev c.rest

variable {d caseless}

theorem Regex.Fixed.seq {j k : Nat} {q : Regex} (hr : r.Fixed d caseless j)
    (hq : q.Fixed d caseless k) : (Regex.seq r q).Fixed d caseless (j + k) := by
  intro c
  constructor
  · rw [Regex.ends]
    have hone := (hr c).1
    cases hends : r.ends d caseless c with
    | nil => simp
    | cons c' more =>
      rw [hends, List.length_cons] at hone
      obtain rfl : more = [] := List.length_eq_zero_iff.1 (by omega)
      simpa using (hq c').1
  · intro e he
    obtain ⟨c', hc', he⟩ := mem_ends_seq.1 he
    have h1 := (hr c).2 c' hc'
    have h2 := (hq c').2 e he
    omega

/-- An expression of fixed length may follow. -/
theorem Regex.Greedy.seq_fixed {k : Nat} {q : Regex} (hr : r.Greedy d caseless)
    (hq : q.Fixed d caseless k) : (Regex.seq r q).Greedy d caseless := by
  intro c
  refine List.pairwise_flatMap.2 ⟨?_, ?_⟩
  · intro c' _
    have hone := (hq c').1
    match q.ends d caseless c', hone with
    | [], _ => exact List.Pairwise.nil
    | [e], _ => exact List.pairwise_singleton _ _
  · refine (hr c).imp ?_
    intro a b hab e he e' he'
    have h1 := (hq a).2 e he
    have h2 := (hq b).2 e' he'
    omega

/-- An expression of fixed length may stand before. -/
theorem Regex.Fixed.seq_greedy {k : Nat} {q : Regex} (hr : r.Fixed d caseless k)
    (hq : q.Greedy d caseless) : (Regex.seq r q).Greedy d caseless := by
  intro c
  rw [Regex.ends]
  have hone := (hr c).1
  match r.ends d caseless c, hone with
  | [], _ => exact List.Pairwise.nil
  | [c'], _ => simpa using hq c'

/-- **A greedy expression matches the longest text it can.** -/
theorem Regex.Greedy.matchAt_eq_some_iff (hr : r.Greedy d caseless) {m : List Char} :
    r.matchAt d caseless c = some m ↔
      ∃ e ∈ r.ends d caseless c, m = c.rest.take (c.rest.length - e.rest.length) ∧
        ∀ e' ∈ r.ends d caseless c, e.rest.length ≤ e'.rest.length := by
  have hc := hr c
  rw [Regex.matchAt]
  cases hends : r.ends d caseless c with
  | nil => simp
  | cons first more =>
    rw [hends, List.pairwise_cons] at hc
    have hleast : ∀ e' ∈ first :: more, first.rest.length ≤ e'.rest.length :=
      List.forall_mem_cons.2 ⟨le_rfl, fun e' he' => (hc.1 e' he').le⟩
    rw [List.head?_cons, Option.map_some, Option.some.injEq]
    constructor
    · rintro rfl
      exact ⟨first, List.mem_cons_self, rfl, hleast⟩
    · rintro ⟨e, he, rfl, hmin⟩
      have hle := hmin first List.mem_cons_self
      rw [Nat.le_antisymm hle (hleast e he)]

/-! ## Literal texts -/

variable (d) in
/-- `w` occurs in the text, up to letter case. -/
def Occurs (w text : List Char) : Prop :=
  ∃ pre m post, text = pre ++ (m ++ post) ∧ m.map d.fold = w.map d.fold

theorem mem_ends_literal : e ∈ (literal w).ends d true c ↔
    ∃ m, c.rest = m ++ e.rest ∧ m.map d.fold = w.map d.fold ∧ e.prev = lastOf c.prev m := by
  induction w generalizing c with
  | nil =>
    rw [literal, Regex.ends, List.mem_singleton]
    constructor
    · rintro rfl
      exact ⟨[], rfl, rfl, rfl⟩
    · rintro ⟨m, hrest, hm, hprev⟩
      obtain rfl : m = [] := List.map_eq_nil_iff.1 hm
      obtain ⟨prev, rest⟩ := e
      exact Cursor.mk.injEq .. ▸ ⟨hprev, hrest.symm⟩
  | cons a w ih =>
    rw [literal, mem_ends_seq]
    constructor
    · rintro ⟨c', hc', he⟩
      obtain ⟨x, rest, hrest, hx, rfl⟩ := mem_ends_set.1 hc'
      obtain ⟨m, rfl, hm, hprev⟩ := ih.1 he
      have hfold : d.fold a = d.fold x := beq_iff_eq.1 hx
      exact ⟨x :: m, hrest, by rw [List.map_cons, List.map_cons, hm, hfold],
        by rw [hprev, lastOf_cons]⟩
    · rintro ⟨m, hrest, hm, hprev⟩
      cases m with
      | nil => exact absurd hm (by simp)
      | cons x m =>
        obtain ⟨hx, hm⟩ := List.cons.inj hm
        rw [lastOf_cons] at hprev
        exact ⟨_, mem_ends_set.2 ⟨x, m ++ e.rest, hrest, beq_iff_eq.2 hx.symm, rfl⟩,
          ih.2 ⟨m, rfl, hm, hprev⟩⟩

theorem isMatch_iff : r.isMatch d caseless text = true ↔
    ∃ pre rest e, text = pre ++ rest ∧ e ∈ r.ends d caseless ⟨lastOf none pre, rest⟩ := by
  rw [Regex.isMatch, Regex.find, isSome_findFrom_iff]
  refine exists_congr fun pre => exists_congr fun rest => ?_
  rw [exists_and_left, ne_eq, List.eq_nil_iff_forall_not_mem, not_forall_not]

theorem isMatch_literal : (literal w).isMatch d true text = true ↔ Occurs d w text := by
  rw [isMatch_iff]
  constructor
  · rintro ⟨pre, rest, e, rfl, he⟩
    obtain ⟨m, hrest, hm, -⟩ := mem_ends_literal.1 he
    exact ⟨pre, m, e.rest, congrArg (pre ++ ·) hrest, hm⟩
  · rintro ⟨pre, m, post, rfl, hm⟩
    exact ⟨pre, m ++ post, ⟨lastOf (lastOf none pre) m, post⟩, rfl,
      mem_ends_literal.2 ⟨m, rfl, hm, rfl⟩⟩

theorem ends_literal_append (v w : List Char) (c : Cursor) :
    (literal (v ++ w)).ends d caseless c = (Regex.seq (literal v) (literal w)).ends d caseless c := by
  induction v generalizing c with
  | nil => simp [literal, Regex.ends]
  | cons x v ih =>
    simp only [List.cons_append, literal, Regex.ends, List.flatMap_assoc]
    exact List.flatMap_congr (fun c' _ => ih c')

theorem Occurs.length_le (h : Occurs d w text) : w.length ≤ text.length := by
  obtain ⟨pre, m, post, rfl, hm⟩ := h
  have hlen := congrArg List.length hm
  simp only [List.length_map, List.length_append] at hlen ⊢
  omega

/-- **All dialects have the same ASCII.** -/
theorem occurs_ascii (d d' : Dialect) (hw : ∀ x ∈ w, x.toNat < 128)
    (htext : ∀ x ∈ text, x.toNat < 128) : Occurs d w text ↔ Occurs d' w text := by
  have hfold : ∀ l : List Char, (∀ x ∈ l, x.toNat < 128) → l.map d.fold = l.map d'.fold :=
    fun l hl => List.map_congr_left
      (fun x hx => (d.fold_ascii x (hl x hx)).trans (d'.fold_ascii x (hl x hx)).symm)
  refine exists_congr fun pre => exists_congr fun m => exists_congr fun post =>
    and_congr_right fun heq => ?_
  rw [hfold w hw, hfold m (fun x hx => htext x (by simp [heq, hx]))]

/-! ## Expressions without classes -/

/-- The class has no `\d` and no `\s`. -/
def CharSet.Plain : CharSet → Prop
  | .char _ => True
  | .range _ _ => True
  | .digit => False
  | .space => False
  | .union a b => a.Plain ∧ b.Plain

/-- The expression has none either, and no `\b`. -/
def Regex.Plain : Regex → Prop
  | .empty => True
  | .set s => s.Plain
  | .boundary => False
  | .seq r q => r.Plain ∧ q.Plain
  | .alt r q => r.Plain ∧ q.Plain
  | .rep s _ _ => s.Plain

theorem CharSet.Plain.has_eq (d d' : Dialect) {s : CharSet} (hs : s.Plain) :
    s.has d false = s.has d' false := by
  induction s with
  | char | range => rfl
  | digit | space => exact hs.elim
  | union a b iha ihb =>
    funext x
    rw [has, has, iha hs.1, ihb hs.2]

theorem Regex.Plain.ends_eq (d d' : Dialect) (hr : r.Plain) : r.ends d false = r.ends d' false := by
  funext c
  induction r generalizing c with
  | empty => rfl
  | set s => rw [ends, ends, CharSet.Plain.has_eq d d' hr]
  | boundary => exact hr.elim
  | seq r q ihr ihq => rw [ends, ends, ihr hr.1, funext (ihq hr.2)]
  | alt r q ihr ihq => rw [ends, ends, ihr hr.1, ihq hr.2]
  | rep s min max => rw [ends, ends, CharSet.Plain.has_eq d d' hr]

/-- **With letter case they mean the same in every dialect.** -/
theorem Regex.Plain.isMatch_eq (d d' : Dialect) (hr : r.Plain) (text : List Char) :
    r.isMatch d false text = r.isMatch d' false text := by
  rw [Bool.eq_iff_iff]
  simp only [isMatch, find, isSome_findFrom_iff, hr.ends_eq d d']

end

end Rx
