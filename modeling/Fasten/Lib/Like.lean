import Mathlib.Data.List.Infix

set_option autoImplicit false

/-! # `LIKE`

SQL's `text LIKE pattern ESCAPE e`: `%` stands for any text, `_` for any character, and `e` makes the
next character stand for itself. Characters are compared after folding their case. -/

namespace Like

inductive Token where
  | any
  | one
  | literal (c : Char)

/-- The tokens of a pattern; `none` when it ends in the escape character, and then it matches
    nothing. -/
def tokens (escape : Char) : List Char → Option (List Token)
  | [] => some []
  | [c] =>
    if c = escape then none
    else some [if c = '%' then .any else if c = '_' then .one else .literal c]
  | c :: d :: rest =>
    if c = escape then (tokens escape rest).map (.literal d :: ·)
    else (tokens escape (d :: rest)).map
      ((if c = '%' then .any else if c = '_' then .one else .literal c) :: ·)

def matchesTokens (fold : Char → Char) : List Token → List Char → Bool
  | [], text => text.isEmpty
  | .any :: rest, text => text.tails.any (matchesTokens fold rest)
  | .one :: rest, text =>
    match text with
    | [] => false
    | _ :: text => matchesTokens fold rest text
  | .literal p :: rest, text =>
    match text with
    | [] => false
    | c :: text => fold p == fold c && matchesTokens fold rest text

/-- `text LIKE pattern ESCAPE escape`. -/
def like (fold : Char → Char) (escape : Char) (pattern text : List Char) : Bool :=
  match tokens escape pattern with
  | none => false
  | some ts => matchesTokens fold ts text

/-- A character as a pattern for itself. -/
def escapeChar (escape c : Char) : List Char :=
  if c = escape ∨ c = '%' ∨ c = '_' then [escape, c] else [c]

/-! ## Escaped texts -/

section

variable {escape : Char} (hany : escape ≠ '%')

theorem tokens_cons_of_ne {c : Char} (hc : c ≠ escape) (rest : List Char) :
    tokens escape (c :: rest) = (tokens escape rest).map
      ((if c = '%' then .any else if c = '_' then .one else .literal c) :: ·) := by
  cases rest with
  | nil => simp [tokens, hc]
  | cons d rest => rw [tokens, if_neg hc]

/-- Escaped characters stand for themselves. -/
theorem tokens_escaped (text rest : List Char) :
    tokens escape (text.flatMap (escapeChar escape) ++ rest)
      = (tokens escape rest).map (text.map Token.literal ++ ·) := by
  induction text with
  | nil => simp
  | cons c text ih =>
    rw [List.flatMap_cons, List.append_assoc, escapeChar]
    split_ifs with hspecial
    · rw [List.cons_append, List.cons_append, List.nil_append, tokens, if_pos rfl, ih,
        Option.map_map]
      rfl
    · simp only [not_or] at hspecial
      rw [List.cons_append, List.nil_append, tokens_cons_of_ne hspecial.1, ih, Option.map_map,
        if_neg hspecial.2.1, if_neg hspecial.2.2]
      rfl

include hany in
/-- `%`, an escaped text and `%`. -/
theorem tokens_containing (needle : List Char) :
    tokens escape ('%' :: (needle.flatMap (escapeChar escape) ++ ['%']))
      = some (.any :: (needle.map Token.literal ++ [.any])) := by
  rw [tokens_cons_of_ne hany.symm, tokens_escaped, tokens_cons_of_ne hany.symm]
  rfl

end

/-! ## What literals and `%` match -/

section

variable (fold : Char → Char)

theorem matchesTokens_any_iff {rest : List Token} {text : List Char} :
    matchesTokens fold (.any :: rest) text = true ↔
      ∃ tail, tail <:+ text ∧ matchesTokens fold rest tail = true := by
  simp [matchesTokens]

theorem matchesTokens_any_nil (text : List Char) : matchesTokens fold [.any] text = true :=
  (matchesTokens_any_iff fold).2 ⟨[], List.nil_suffix, rfl⟩

theorem matchesTokens_literals_iff {needle text : List Char} :
    matchesTokens fold (needle.map Token.literal ++ [.any]) text = true ↔
      needle.map fold <+: text.map fold := by
  induction needle generalizing text with
  | nil => simpa using matchesTokens_any_nil fold text
  | cons p needle ih =>
    cases text with
    | nil => simp [matchesTokens]
    | cons c text =>
      simp only [List.map_cons, List.cons_append, matchesTokens, Bool.and_eq_true, beq_iff_eq,
        List.cons_prefix_cons, ih]

/-- **An escaped text between `%`s matches the texts that contain it**, up to case. -/
theorem like_containing_iff {escape : Char} (hany : escape ≠ '%') {needle text : List Char} :
    like fold escape ('%' :: (needle.flatMap (escapeChar escape) ++ ['%'])) text = true ↔
      needle.map fold <:+: text.map fold := by
  rw [like, tokens_containing hany]
  simp only [matchesTokens_any_iff, matchesTokens_literals_iff]
  constructor
  · rintro ⟨tail, htail, hprefix⟩
    exact hprefix.isInfix.trans (htail.map fold).isInfix
  · intro hpart
    obtain ⟨tail, hprefix, htail⟩ := List.infix_iff_prefix_suffix.1 hpart
    obtain ⟨front, hfront⟩ := htail
    obtain ⟨a, b, rfl, -, rfl⟩ := List.map_eq_append_iff.1 hfront.symm
    exact ⟨b, List.suffix_append a b, hprefix⟩

end

end Like
