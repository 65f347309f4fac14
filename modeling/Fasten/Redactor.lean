import Fasten.Lib.JsonTree
import Fasten.Lib.Regex

set_option autoImplicit false

/-! # Redaction of payloads

fasten-core's `Redactor` (`fasten-core/src/redact.rs`): a value under a key that matches a pattern
becomes the replacement, and a string that looks like a known secret a token. The regex engine's
tables of Unicode are the parameter `d`. -/

namespace Fasten.Secrets

open Rx JsonText

/-! ## The patterns -/

/-- `[_-]?` -/
def optSep : Regex := .rep (.union (.char '_') (.char '-')) 0 (some 1)

def words (first second : String) : Regex :=
  .seq (literal first.toList) (.seq optSep (literal second.toList))

/-- `REDACT_PATTERNS`, which Python and JS have too. -/
def redactPatterns : List Regex :=
  [words "api" "key", literal "password".toList, literal "passwd".toList, literal "token".toList,
    literal "secret".toList, literal "authorization".toList, literal "bearer".toList,
    words "m2m" "key", words "cert" "private", words "private" "key",
    literal "access_key".toList, literal "session_id".toList, literal "cookie".toList,
    literal "credential".toList]

/-- `build_key_re`; the expression is matched without regard to case. -/
def buildKeyRe (extra : List Regex) : Regex := oneOf (redactPatterns ++ extra)

/-- `\b\d[\d\s\-]{11,17}\d\b` -/
def ccDigitRe : Regex :=
  .seq .boundary (.seq (.set .digit) (.seq
    (.rep (.union .digit (.union .space (.char '-'))) 11 (some 17)) (.seq (.set .digit) .boundary)))

/-- `[A-Za-z0-9]` -/
def alnum : CharSet := .union (.range 'A' 'Z') (.union (.range 'a' 'z') (.range '0' '9'))

/-- `[A-Za-z0-9_\-]` -/
def base64url : CharSet := .union alnum (.union (.char '_') (.char '-'))

/-- `VALUE_SPECS`: the expressions and their tokens. -/
def valueSpecs : List (Regex × String) :=
  [ -- eyJ[A-Za-z0-9_\-]+\.eyJ[A-Za-z0-9_\-]+\.[A-Za-z0-9_\-]+
    (.seq (literal "eyJ".toList) (.seq (.rep base64url 1 none) (.seq (literal ".eyJ".toList)
      (.seq (.rep base64url 1 none) (.seq (literal ".".toList) (.rep base64url 1 none))))),
      "***JWT***"),
    -- -----BEGIN (?:RSA |EC |DSA |OPENSSH |)PRIVATE KEY-----
    (.seq (literal "-----BEGIN ".toList) (.seq (oneOf [literal "RSA ".toList, literal "EC ".toList,
      literal "DSA ".toList, literal "OPENSSH ".toList, .empty])
      (literal "PRIVATE KEY-----".toList)), "***PRIVATE_KEY***"),
    -- (?:AKIA|ASIA)[A-Z0-9]{16}
    (.seq (oneOf [literal "AKIA".toList, literal "ASIA".toList])
      (.rep (.union (.range 'A' 'Z') (.range '0' '9')) 16 (some 16)), "***AWS_KEY***"),
    -- (?:ghp|gho|ghu|ghs|ghr)_[A-Za-z0-9]{36}
    (.seq (oneOf [literal "ghp".toList, literal "gho".toList, literal "ghu".toList,
      literal "ghs".toList, literal "ghr".toList])
      (.seq (literal "_".toList) (.rep alnum 36 (some 36))), "***GH_TOKEN***"),
    -- sk_live_[A-Za-z0-9]{24,}
    (.seq (literal "sk_live_".toList) (.rep alnum 24 none), "***STRIPE_KEY***"),
    -- sk-(?:proj-)?[A-Za-z0-9_\-]{32,}
    (.seq (literal "sk-".toList) (.seq (oneOf [literal "proj-".toList, .empty])
      (.rep base64url 32 none)), "***OPENAI_KEY***")]

/-! ## Card numbers -/

/-- The value of a digit, doubled at every second place from the right. -/
def luhnDigit (fromRight : Nat) (c : Char) : Nat :=
  let n := c.toNat - '0'.toNat
  if fromRight % 2 = 1 then (if 2 * n > 9 then 2 * n - 9 else 2 * n) else n

/-- `total` of `luhn_valid`, from the digit at place `i` of `len` on. -/
def luhnTotal (len : Nat) : Nat → List Char → Nat
  | _, [] => 0
  | i, c :: rest => luhnDigit (len - 1 - i) c + luhnTotal len (i + 1) rest

/-- `luhn_valid`. -/
def luhnValid (digits : List Char) : Bool := luhnTotal digits.length 0 digits % 10 == 0

/-! ## The redactor -/

/-- A redactor. Of a custom value pattern only `is_match` counts. -/
structure Redactor where
  keyRe : Regex
  replacement : String
  customVp : List ((List Char → Bool) × String)

/-- `DEFAULT_REPLACEMENT`. -/
def defaultReplacement : String := "***"

/-- `Redactor::default`. -/
def Redactor.default : Redactor := ⟨buildKeyRe [], defaultReplacement, []⟩

/-- `Redactor::new`. Extra keys are escaped, so they match as they are. -/
def Redactor.new (extraKeys : List String) (replacement : String)
    (extraValuePatterns : List ((List Char → Bool) × String)) : Redactor where
  keyRe := buildKeyRe (extraKeys.map (fun k => literal k.toList))
  replacement := if replacement = "" then defaultReplacement else replacement
  customVp := extraValuePatterns

section

variable (d : Dialect)

/-- The digits of the first text that looks like a card number are those of one. -/
def isCard (s : String) : Bool :=
  match ccDigitRe.find d false s.toList with
  | none => false
  | some m =>
    let digits := m.filter Char.isDigit
    decide (13 ≤ digits.length) && decide (digits.length ≤ 19) && luhnValid digits

/-- The token of the first built-in shape that the string has. -/
def valueShape (s : String) : Option String :=
  (valueSpecs.find? (fun vp => vp.1.isMatch d false s.toList)).map (·.2)

/-- `check_value`. -/
def Redactor.checkValue (r : Redactor) (s : String) : Option String :=
  if isCard d s then some "***CC***"
  else (valueShape d s).or ((r.customVp.find? (fun vp => vp.1 s.toList)).map (·.2))

variable {N : Type}

mutual

/-- `redact_value`. -/
def Redactor.redactValue (r : Redactor) : JsonTree N String → JsonTree N String
  | .obj members => .obj (r.redactMembers members)
  | .arr items => .arr (r.redactItems items)
  | .str s => .str ((r.checkValue d s).getD s)
  | .null => .null
  | .bool b => .bool b
  | .num n => .num n

def Redactor.redactItems (r : Redactor) : List (JsonTree N String) → List (JsonTree N String)
  | [] => []
  | v :: rest => r.redactValue v :: r.redactItems rest

def Redactor.redactMembers (r : Redactor) :
    List (String × JsonTree N String) → List (String × JsonTree N String)
  | [] => []
  | (k, v) :: rest =>
    (k, if r.keyRe.isMatch d true k.toList then .str r.replacement else r.redactValue v)
      :: r.redactMembers rest

end

theorem redactItems_eq (r : Redactor) (items : List (JsonTree N String)) :
    r.redactItems d items = items.map (r.redactValue d) := by
  induction items with
  | nil => rfl
  | cons v rest ih => rw [Redactor.redactItems, ih, List.map_cons]

theorem redactMembers_eq (r : Redactor) (members : List (String × JsonTree N String)) :
    r.redactMembers d members = members.map (fun m => (m.1,
      if r.keyRe.isMatch d true m.1.toList then .str r.replacement else r.redactValue d m.2)) := by
  induction members with
  | nil => rfl
  | cons m rest ih => rw [Redactor.redactMembers, ih, List.map_cons]

end

/-! ## What is left -/

section

variable {N : Type}

mutual

/-- The strings of a value that are not keys. -/
def values : JsonTree N String → List String
  | .obj members => valuesMembers members
  | .arr items => valuesItems items
  | .str s => [s]
  | .null => []
  | .bool _ => []
  | .num _ => []

def valuesItems : List (JsonTree N String) → List String
  | [] => []
  | v :: rest => values v ++ valuesItems rest

def valuesMembers : List (String × JsonTree N String) → List String
  | [] => []
  | (_, v) :: rest => values v ++ valuesMembers rest

end

variable (d : Dialect)

/-- No value pattern matches the replacement, or a token. -/
structure Redactor.TokensPass (r : Redactor) : Prop where
  replacement : r.checkValue d r.replacement = none
  token : ∀ s t, r.checkValue d s = some t → r.checkValue d t = none

variable {d}

mutual

/-- **Redaction leaves no string that it would redact.** -/
theorem Redactor.TokensPass.checkValue_redactValue {r : Redactor} (hr : r.TokensPass d) :
    ∀ (v : JsonTree N String), ∀ s ∈ values (r.redactValue d v), r.checkValue d s = none
  | .obj members => hr.checkValue_redactMembers members
  | .arr items => hr.checkValue_redactItems items
  | .str s => by
    intro t ht
    rw [Redactor.redactValue, values, List.mem_singleton] at ht
    cases hs : r.checkValue d s with
    | none => rw [ht, hs]; exact hs
    | some token => rw [ht, hs]; exact hr.token s token hs
  | .null => nofun
  | .bool _ => nofun
  | .num _ => nofun

theorem Redactor.TokensPass.checkValue_redactItems {r : Redactor} (hr : r.TokensPass d) :
    ∀ (items : List (JsonTree N String)), ∀ s ∈ valuesItems (r.redactItems d items),
      r.checkValue d s = none
  | [] => nofun
  | v :: rest => by
    rw [Redactor.redactItems, valuesItems, List.forall_mem_append]
    exact ⟨hr.checkValue_redactValue v, hr.checkValue_redactItems rest⟩

theorem Redactor.TokensPass.checkValue_redactMembers {r : Redactor} (hr : r.TokensPass d) :
    ∀ (members : List (String × JsonTree N String)),
      ∀ s ∈ valuesMembers (r.redactMembers d members), r.checkValue d s = none
  | [] => nofun
  | (k, v) :: rest => by
    rw [Redactor.redactMembers, valuesMembers, List.forall_mem_append]
    refine ⟨?_, hr.checkValue_redactMembers rest⟩
    split_ifs
    · intro s hs
      rw [List.mem_singleton.1 hs]
      exact hr.replacement
    · exact hr.checkValue_redactValue v

end

end

/-- **Redacting twice is redacting once** for exactly the redactors that leave their own tokens as
    they are. -/
theorem redact_idempotent_iff (N : Type) (d : Dialect) (r : Redactor) :
    (∀ v : JsonTree N String, r.redactValue d (r.redactValue d v) = r.redactValue d v)
      ↔ ∀ s t, r.checkValue d s = some t → (r.checkValue d t).getD t = t := by
  refine ⟨fun h s t hs => by simpa [Redactor.redactValue, hs] using h (.str s), fun htoken v => ?_⟩
  induction v using JsonTree.ind with
  | null | bool b | num n => rfl
  | str s =>
    simp only [Redactor.redactValue]
    cases hs : r.checkValue d s with
    | none => simp [hs]
    | some t => simp [htoken s t hs]
  | arr items ih =>
    simp only [Redactor.redactValue, redactItems_eq, List.map_map, JsonTree.arr.injEq]
    exact List.map_congr_left ih
  | obj members ih =>
    simp only [Redactor.redactValue, redactMembers_eq, List.map_map, JsonTree.obj.injEq]
    refine List.map_congr_left fun m hm => ?_
    -- a key is redacted by its name, whatever stands there
    by_cases hkey : r.keyRe.isMatch d true m.1.toList = true
    · simp [hkey]
    · simp [hkey, ih m hm]

/-! ## The built-in shapes -/

theorem plain_valueSpecs : ∀ vp ∈ valueSpecs, vp.1.Plain := by
  simp [valueSpecs, Regex.Plain, CharSet.Plain, literal, oneOf, base64url, alnum]

/-- They are the same in every dialect. -/
theorem valueShape_eq (d d' : Dialect) (s : String) : valueShape d s = valueShape d' s := by
  rw [valueShape, valueShape]
  congr 1
  exact List.find?_congr (fun vp hvp => (plain_valueSpecs vp hvp).isMatch_eq d d' s.toList)

/-! ## Secret keys -/

/-- Two words with `_`, `-` or nothing between them. -/
def spellings (first second : String) : List String :=
  ["", "_", "-"].map (fun sep => first ++ (sep ++ second))

/-- The texts that `REDACT_PATTERNS` match. -/
def keyWords : List String :=
  spellings "api" "key" ++ ["password", "passwd", "token", "secret", "authorization", "bearer"]
    ++ spellings "m2m" "key" ++ spellings "cert" "private" ++ spellings "private" "key"
    ++ ["access_key", "session_id", "cookie", "credential"]

section

variable (d : Dialect)

/-- One of these texts, or an extra key, occurs in the key. -/
def SecretKey (extraKeys : List String) (k : String) : Prop :=
  ∃ w ∈ keyWords ++ extraKeys, Occurs d w.toList k.toList

variable {d}

theorem mem_ends_optSep {c e : Cursor} : e ∈ optSep.ends d true c ↔
    ∃ sep ∈ ["", "_", "-"], e ∈ (literal sep.toList).ends d true c := by
  have hone : ∀ x : Char, e ∈ (literal [x]).ends d true c ↔
      ∃ y rest, c.rest = y :: rest ∧ d.fold x = d.fold y ∧ e = ⟨some y, rest⟩ := by
    intro x
    have hset : (literal [x]).ends d true c = (Regex.set (.char x)).ends d true c :=
      List.flatMap_singleton' _
    rw [hset, mem_ends_set]
    simp only [CharSet.has, if_true, beq_iff_eq]
  have hsep : (∃ sep ∈ ["", "_", "-"], e ∈ (literal sep.toList).ends d true c) ↔
      e = c ∨ e ∈ (literal ['_']).ends d true c ∨ e ∈ (literal ['-']).ends d true c := by
    simp [literal, Regex.ends]
  rw [hsep, hone, hone, optSep, Regex.ends, mem_repEnds_iff]
  constructor
  · rintro ⟨n, -, hmax, hlen, hall, rfl⟩
    have hn : n ≤ 1 := hmax 1 rfl
    rcases Nat.le_one_iff_eq_zero_or_eq_one.1 hn with rfl | rfl
    · exact Or.inl rfl
    · obtain ⟨y, rest, hrest⟩ := List.exists_cons_of_length_pos hlen
      have hy : d.fold '_' = d.fold y ∨ d.fold '-' = d.fold y := by
        simpa [hrest, CharSet.has] using hall
      have hplace : Cursor.advance ⟨c.prev, c.rest⟩ 1 = ⟨some y, rest⟩ := by
        simp [hrest, Cursor.advance]
      exact Or.inr (hy.imp (fun h => ⟨y, rest, hrest, h, hplace⟩)
        (fun h => ⟨y, rest, hrest, h, hplace⟩))
  · have htake : ∀ y rest, c.rest = y :: rest → d.fold '_' = d.fold y ∨ d.fold '-' = d.fold y →
        ∃ n, 0 ≤ n ∧ (∀ k ∈ some 1, n ≤ k) ∧ n ≤ c.rest.length ∧
          (∀ x ∈ c.rest.take n, ((CharSet.char '_').union (.char '-')).has d true x = true) ∧
          Cursor.mk (some y) rest = Cursor.advance ⟨c.prev, c.rest⟩ n := by
      intro y rest hrest hy
      refine ⟨1, by simp, by simp, by simp [hrest], ?_, by simp [hrest, Cursor.advance]⟩
      simpa [hrest, CharSet.has] using hy
    rintro (rfl | ⟨y, rest, hrest, hy, rfl⟩ | ⟨y, rest, hrest, hy, rfl⟩)
    · exact ⟨0, by simp, by simp, by simp, by simp, rfl⟩
    · exact htake y rest hrest (Or.inl hy)
    · exact htake y rest hrest (Or.inr hy)

theorem isMatch_words {first second : String} {text : List Char} :
    (words first second).isMatch d true text = true ↔
      ∃ w ∈ spellings first second, Occurs d w.toList text := by
  have hends : ∀ c e, e ∈ (words first second).ends d true c ↔
      ∃ w ∈ spellings first second, e ∈ (literal w.toList).ends d true c := by
    intro c e
    have hword : ∀ sep : String, e ∈ (literal (first ++ (sep ++ second)).toList).ends d true c ↔
        ∃ c' ∈ (literal first.toList).ends d true c, ∃ c'' ∈ (literal sep.toList).ends d true c',
          e ∈ (literal second.toList).ends d true c'' := by
      intro sep
      simp only [String.toList_append, ends_literal_append, mem_ends_seq]
    simp only [words, spellings, List.mem_map, mem_ends_seq, mem_ends_optSep]
    constructor
    · rintro ⟨c', hc', c'', ⟨sep, hsep, hc''⟩, he⟩
      exact ⟨_, ⟨sep, hsep, rfl⟩, (hword sep).2 ⟨c', hc', c'', hc'', he⟩⟩
    · rintro ⟨_, ⟨sep, hsep, rfl⟩, he⟩
      obtain ⟨c', hc', c'', hc'', he⟩ := (hword sep).1 he
      exact ⟨c', hc', c'', ⟨sep, hsep, hc''⟩, he⟩
  simp only [isMatch_iff, hends, ← isMatch_literal]
  constructor
  · rintro ⟨pre, rest, e, heq, w, hw, he⟩
    exact ⟨w, hw, pre, rest, e, heq, he⟩
  · rintro ⟨w, hw, pre, rest, e, heq, he⟩
    exact ⟨pre, rest, e, heq, w, hw, he⟩

theorem any_isMatch_iff {extraKeys : List String} {k : String} :
    (redactPatterns ++ extraKeys.map (fun k => literal k.toList)).any
      (fun r => r.isMatch d true k.toList) = true ↔ SecretKey d extraKeys k := by
  have hbuiltin : redactPatterns.any (fun r => r.isMatch d true k.toList) = true ↔
      ∃ w ∈ keyWords, Occurs d w.toList k.toList := by
    simp only [redactPatterns, keyWords, List.any_cons, List.any_nil, Bool.or_eq_true, isMatch_words,
      isMatch_literal, List.mem_append, or_and_right, exists_or, List.mem_cons, List.not_mem_nil,
      exists_eq_left, or_assoc, or_false, Bool.false_eq_true]
  rw [List.any_append, Bool.or_eq_true, hbuiltin, SecretKey]
  simp only [List.any_map, List.any_eq_true, Function.comp_apply, isMatch_literal, List.mem_append,
    or_and_right, exists_or]

/-- **A key is redacted when a secret text occurs in it.** -/
theorem keyRe_isMatch_iff {extraKeys : List String} {k : String} :
    (buildKeyRe (extraKeys.map (fun k => literal k.toList))).isMatch d true k.toList = true ↔
      SecretKey d extraKeys k := by
  rw [buildKeyRe, isMatch_oneOf (by simp [redactPatterns]), any_isMatch_iff]

end

end Fasten.Secrets
