import Fasten.Lib.JsonSame
import Fasten.Redactor.Cards

set_option autoImplicit false

/-! # Redaction in JS

`js/src/core.js` redacts without fasten-core, with the same patterns under the rules of JS regular
expressions: the dialect `j`. It builds objects by assignment, so a member `__proto__` is lost, and
takes an empty replacement as it is. Strings are texts of Unicode characters: an expression without
the flag `u` matches by code units, and none of the classes here has one half of a pair. -/

namespace Fasten.Secrets

open Rx JsonText JsonTree

/-! ## The JS functions -/

namespace Js

/-- The loop of `_luhn`, over the digits from the last one on. -/
def luhnSum : Nat → List Char → Nat
  | _, [] => 0
  | i, c :: rest => luhnDigit i c + luhnSum (i + 1) rest

/-- `_luhn`. -/
def luhn (digits : List Char) : Bool := luhnSum 0 digits.reverse % 10 == 0

section

variable (j : Dialect)

/-- The first text that `_CC_DIGIT_RE` matches, without its separators, is a card number. -/
def isCard (s : String) : Bool :=
  match ccDigitRe.find j false s.toList with
  | none => false
  | some m =>
    let digits := m.filter (fun c => !(j.space c || c == '-'))
    decide (13 ≤ digits.length) && decide (digits.length ≤ 19) && luhn digits

/-- `_checkValueShape`. `_VALUE_SHAPE_RULES` is `VALUE_SPECS`. -/
def checkValueShape (s : String) : Option String :=
  if isCard j s then some "***CC***" else valueShape j s

/-- `_matchesAny`. -/
def matchesAny (patterns : List Regex) (key : String) : Bool :=
  patterns.any (fun p => p.isMatch j true key.toList)

variable {N : Type} (patterns : List Regex) (replacement : String)

mutual

/-- `_redactObj`. `out["__proto__"] = ..` sets the prototype, which `JSON.stringify` does not
    write. -/
def redactObj : JsonTree N String → JsonTree N String
  | .str s => .str ((checkValueShape j s).getD s)
  | .null => .null
  | .bool b => .bool b
  | .num n => .num n
  | .arr items => .arr (redactItems items)
  | .obj members => .obj (redactMembers members)

def redactItems : List (JsonTree N String) → List (JsonTree N String)
  | [] => []
  | v :: rest => redactObj v :: redactItems rest

def redactMembers : List (String × JsonTree N String) → List (String × JsonTree N String)
  | [] => []
  | (k, v) :: rest =>
    if k = "__proto__" then redactMembers rest
    else (k, if matchesAny j patterns k then .str replacement else redactObj v)
      :: redactMembers rest

end

end

/-- `coreRedact`, after `JSON.parse` and before `JSON.stringify`. -/
def coreRedact (j : Dialect) {N : Type} (v : JsonTree N String) : JsonTree N String :=
  redactObj j redactPatterns defaultReplacement v

/-- `coreRedactFull`; `none` is `null`. Extra keys are escaped. -/
def coreRedactFull (j : Dialect) {N : Type} (extraKeys : List String) (replacement : Option String)
    (v : JsonTree N String) : JsonTree N String :=
  redactObj j (redactPatterns ++ extraKeys.map (fun k => literal k.toList))
    (replacement.getD defaultReplacement) v

end Js

/-! ## Luhn's sum from either side -/

theorem luhnSum_append (i : Nat) (l r : List Char) :
    Js.luhnSum i (l ++ r) = Js.luhnSum i l + Js.luhnSum (i + l.length) r := by
  induction l generalizing i with
  | nil => simp [Js.luhnSum]
  | cons c l ih =>
    have hplace : i + 1 + l.length = i + (c :: l).length := by
      rw [List.length_cons]
      omega
    rw [List.cons_append, Js.luhnSum, Js.luhnSum, ih, hplace, Nat.add_assoc]

theorem luhnTotal_eq (l : List Char) (i : Nat) :
    luhnTotal (i + l.length) i l = Js.luhnSum 0 l.reverse := by
  induction l generalizing i with
  | nil => rfl
  | cons c l ih =>
    have hlen : i + (c :: l).length = i + 1 + l.length := by
      rw [List.length_cons]
      omega
    have hplace : i + 1 + l.length - 1 - i = l.reverse.length := by
      rw [List.length_reverse]
      omega
    rw [luhnTotal, hlen, ih, List.reverse_cons, luhnSum_append, Nat.zero_add, hplace, Js.luhnSum,
      Js.luhnSum, Nat.add_zero, Nat.add_comm]

/-- **Both sums are the same.** -/
theorem luhn_eq (digits : List Char) : Js.luhn digits = luhnValid digits := by
  have htotal := luhnTotal_eq digits 0
  rw [Nat.zero_add] at htotal
  rw [Js.luhn, luhnValid, htotal]

/-! ## Where the two agree -/

section

variable {N : Type} (d j : Dialect) (extraKeys : List String) (replacement : Option String)

/-- fasten-core's redactor for the same arguments. -/
def core : Redactor := Redactor.new extraKeys (replacement.getD "") []

/-- The first text that looks like a card number to JS is one without its separators. -/
def Js.FirstIsCard (s : String) : Prop :=
  ∃ m, FirstCandidate j s.toList m ∧ 13 ≤ (m.filter (fun c => !(j.space c || c == '-'))).length ∧
    (m.filter (fun c => !(j.space c || c == '-'))).length ≤ 19 ∧
    luhnValid (m.filter (fun c => !(j.space c || c == '-'))) = true

/-- What a string becomes, as a card number or otherwise. The other shapes are the same in every
    dialect. -/
def Becomes (card : Prop) (s t : String) : Prop :=
  (card ∧ t = "***CC***") ∨ (¬card ∧ t = (valueShape .ascii s).getD s)

/-- The two treat what is under the key alike. A key that is secret to one of them only does no harm
    when the other makes the replacement of the string that is there. -/
def AgreeUnder (k : String) (v : JsonTree N String) (below : Prop) : Prop :=
  (SecretKey j extraKeys k → SecretKey d extraKeys k → replacement ≠ some "") ∧
  (SecretKey j extraKeys k → ¬SecretKey d extraKeys k →
    ∃ s, v = .str s ∧ Becomes (FirstIsCard d s) s (replacement.getD defaultReplacement)) ∧
  (¬SecretKey j extraKeys k → SecretKey d extraKeys k →
    ∃ s, v = .str s ∧ Becomes (Js.FirstIsCard j s) s (core extraKeys replacement).replacement) ∧
  (¬SecretKey j extraKeys k → ¬SecretKey d extraKeys k → below)

mutual

/-- Every string that both come to is a card number to both or to neither, every key is treated
    alike, and no key is `__proto__`. -/
def Agree : JsonTree N String → Prop
  | .null => True
  | .bool _ => True
  | .num _ => True
  | .str s => Js.FirstIsCard j s ↔ FirstIsCard d s
  | .arr items => AgreeItems items
  | .obj members => AgreeMembers members

def AgreeItems : List (JsonTree N String) → Prop
  | [] => True
  | v :: rest => Agree v ∧ AgreeItems rest

def AgreeMembers : List (String × JsonTree N String) → Prop
  | [] => True
  | (k, v) :: rest =>
    (k ≠ "__proto__" ∧ AgreeUnder d j extraKeys replacement k v (Agree v)) ∧ AgreeMembers rest

end

theorem agreeItems_iff {items : List (JsonTree N String)} :
    AgreeItems d j extraKeys replacement items ↔
      ∀ v ∈ items, Agree d j extraKeys replacement v := by
  induction items with
  | nil => simp [AgreeItems]
  | cons v rest ih => rw [AgreeItems, ih, List.forall_mem_cons]

variable {members : List (String × JsonTree N String)} {v : JsonTree N String} {s : String}

theorem agreeMembers_iff :
    AgreeMembers d j extraKeys replacement members ↔ ∀ m ∈ members, m.1 ≠ "__proto__" ∧
      AgreeUnder d j extraKeys replacement m.1 m.2 (Agree d j extraKeys replacement m.2) := by
  induction members with
  | nil => simp [AgreeMembers]
  | cons m rest ih => rw [AgreeMembers, ih, List.forall_mem_cons]

/-! ## The results -/

variable {d j extraKeys replacement}

theorem js_redactItems_eq (patterns : List Regex) (rep : String) (items : List (JsonTree N String)) :
    Js.redactItems j patterns rep items = items.map (Js.redactObj j patterns rep) := by
  induction items with
  | nil => rfl
  | cons v rest ih => rw [Js.redactItems, ih, List.map_cons]

theorem js_redactMembers_eq (patterns : List Regex) (rep : String)
    (members : List (String × JsonTree N String)) :
    Js.redactMembers j patterns rep members
      = (members.filter (fun m => decide (m.1 ≠ "__proto__"))).map (fun m =>
        (m.1, if Js.matchesAny j patterns m.1 then .str rep else Js.redactObj j patterns rep m.2)) := by
  induction members with
  | nil => rfl
  | cons m rest ih =>
    rw [Js.redactMembers, ih]
    by_cases hproto : m.1 = "__proto__"
    · rw [if_pos hproto, List.filter_cons_of_neg (by simpa using hproto)]
    · rw [if_neg hproto, List.filter_cons_of_pos (by simpa using hproto), List.map_cons]

theorem js_isCard_iff : Js.isCard j s = true ↔ Js.FirstIsCard j s := by
  rw [Js.isCard, Js.FirstIsCard]
  simp only [← find_ccDigitRe]
  cases ccDigitRe.find j false s.toList with
  | none => simp
  | some m => simp [and_assoc, luhn_eq]

theorem js_becomes_iff {t : String} :
    (Js.checkValueShape j s).getD s = t ↔ Becomes (Js.FirstIsCard j s) s t := by
  rw [Js.checkValueShape, Becomes, ← js_isCard_iff, valueShape_eq j .ascii]
  split_ifs with hcard
  · simp [hcard, eq_comm]
  · simp [hcard, eq_comm]

theorem core_becomes_iff {t : String} :
    ((core extraKeys replacement).checkValue d s).getD s = t ↔ Becomes (FirstIsCard d s) s t := by
  have hcustom : (core extraKeys replacement).customVp = [] := rfl
  rw [Redactor.checkValue, Becomes, ← isCard_iff, valueShape_eq d .ascii, hcustom]
  split_ifs with hcard
  · simp [hcard, eq_comm]
  · simp [hcard, eq_comm]

/-- The token of a card number is no other token, and no string with a candidate in it. -/
theorem card_token_ne {m : List Char} (hm : FirstCandidate j s.toList m) :
    "***CC***" ≠ (valueShape .ascii s).getD s := by
  cases hshape : valueShape .ascii s with
  | some t =>
    obtain ⟨vp, hvp, rfl⟩ := Option.map_eq_some_iff.1 hshape
    have hall : ∀ vp ∈ valueSpecs, "***CC***" ≠ vp.2 := by simp [valueSpecs]
    exact hall vp (List.mem_of_find?_eq_some hvp)
  | none =>
    rintro rfl
    obtain ⟨pre, post, htext, hcandidate, -⟩ := hm
    have hlen := congrArg List.length htext
    have hleast := hcandidate.least
    simp at hlen
    omega

/-- **A string becomes the same just when it is a card number to both or to neither.** -/
theorem becomes_same_iff :
    Becomes (FirstIsCard d s) s ((Js.checkValueShape j s).getD s) ↔
      (Js.FirstIsCard j s ↔ FirstIsCard d s) := by
  have hjs := js_becomes_iff.1 (rfl : (Js.checkValueShape j s).getD s = _)
  constructor
  · rintro (⟨hd, ht⟩ | ⟨hd, ht⟩)
    · rcases hjs with ⟨hj, -⟩ | ⟨hj, ht'⟩
      · exact iff_of_true hj hd
      · obtain ⟨m, hm, -⟩ := hd
        exact absurd (ht.symm.trans ht') (card_token_ne hm)
    · rcases hjs with ⟨hj, ht'⟩ | ⟨hj, -⟩
      · obtain ⟨m, hm, -⟩ := hj
        exact absurd (ht'.symm.trans ht) (card_token_ne hm)
      · exact iff_of_false hj hd
  · intro hsame
    rwa [hsame] at hjs

theorem same_str_iff : v.Same (.str s) ↔ v = .str s := by
  cases v with
  | null | bool | num => simp [Same]
  | str t => simp [Same, eq_comm]
  | arr | obj => simp [Same]

theorem redactValue_eq_str_iff {t : String} :
    (core extraKeys replacement).redactValue d v = .str t ↔
      ∃ s, v = .str s ∧ Becomes (FirstIsCard d s) s t := by
  cases v with
  | str s => simp [Redactor.redactValue, core_becomes_iff]
  | null | bool | num | arr | obj => simp [Redactor.redactValue]

theorem redactObj_eq_str_iff {patterns : List Regex} {rep : String} {t : String} :
    Js.redactObj j patterns rep v = .str t ↔
      ∃ s, v = .str s ∧ Becomes (Js.FirstIsCard j s) s t := by
  cases v with
  | str s => simp [Js.redactObj, js_becomes_iff]
  | null | bool | num | arr | obj => simp [Js.redactObj]

theorem replacement_same_iff :
    replacement.getD defaultReplacement = (core extraKeys replacement).replacement ↔
      replacement ≠ some "" := by
  cases replacement with
  | none => simp [core, Redactor.new]
  | some rep =>
    by_cases hrep : rep = ""
    · simp [core, Redactor.new, hrep, defaultReplacement]
    · simp [core, Redactor.new, hrep]

/-- What stands under one key. -/
theorem same_under_iff {k : String} {below : Prop}
    (hbelow : (Js.coreRedactFull j extraKeys replacement v).Same
      ((core extraKeys replacement).redactValue d v) ↔ below) :
    (if Js.matchesAny j (redactPatterns ++ extraKeys.map (fun k => literal k.toList)) k
        then .str (replacement.getD defaultReplacement)
        else Js.coreRedactFull j extraKeys replacement v : JsonTree N String).Same
      (if (core extraKeys replacement).keyRe.isMatch d true k.toList
        then .str (core extraKeys replacement).replacement
        else (core extraKeys replacement).redactValue d v) ↔
      AgreeUnder d j extraKeys replacement k v below := by
  have hjs : Js.matchesAny j (redactPatterns ++ extraKeys.map (fun k => literal k.toList)) k = true ↔
      SecretKey j extraKeys k := any_isMatch_iff
  have hcore : (core extraKeys replacement).keyRe.isMatch d true k.toList = true ↔
      SecretKey d extraKeys k := keyRe_isMatch_iff
  rw [AgreeUnder]
  by_cases hj : SecretKey j extraKeys k
  · rw [if_pos (hjs.2 hj)]
    by_cases hd : SecretKey d extraKeys k
    · rw [if_pos (hcore.2 hd)]
      simp [hj, hd, Same, eq_comm, ← @replacement_same_iff extraKeys]
    · rw [if_neg (mt hcore.1 hd)]
      simp [hj, hd, Same, redactValue_eq_str_iff]
  · rw [if_neg (mt hjs.1 hj)]
    by_cases hd : SecretKey d extraKeys k
    · rw [if_pos (hcore.2 hd)]
      simp [hj, hd, same_str_iff, Js.coreRedactFull, redactObj_eq_str_iff]
    · rw [if_neg (mt hcore.1 hd)]
      simpa [hj, hd] using hbelow

/-- The members of two objects made of one with distinct keys. -/
theorem sameMembers_map_iff {kept : List (String × JsonTree N String)}
    (hkeys : (members.map Prod.fst).Nodup) (hkept : ∀ m ∈ kept, m ∈ members)
    (f g : String × JsonTree N String → JsonTree N String) :
    SameMembers (kept.map (fun m => (m.1, f m))) (members.map (fun m => (m.1, g m))) ↔
      ∀ m ∈ kept, (f m).Same (g m) := by
  rw [sameMembers_iff]
  constructor
  · intro h m hm
    obtain ⟨w, hw, hsame⟩ := h _ (List.mem_map_of_mem hm)
    obtain ⟨m', hm', heq⟩ := List.mem_map.1 hw
    obtain ⟨hk, rfl⟩ := Prod.mk.inj heq
    obtain rfl : m' = m := List.inj_on_of_nodup_map hkeys hm' (hkept m hm) hk
    exact hsame
  · intro h m' hm'
    obtain ⟨m, hm, rfl⟩ := List.mem_map.1 hm'
    exact ⟨g m, List.mem_map.2 ⟨m, hkept m hm, rfl⟩, h m hm⟩

/-- **JS and fasten-core make the same value just when they agree on it.** -/
theorem same_redact_iff (hv : v.DistinctKeys) :
    (Js.coreRedactFull j extraKeys replacement v).Same
      ((core extraKeys replacement).redactValue d v) ↔ Agree d j extraKeys replacement v := by
  induction v using JsonTree.ind with
  | null | bool | num => simp [Js.coreRedactFull, Js.redactObj, Redactor.redactValue, Same, Agree]
  | str s =>
    rw [Js.coreRedactFull, Js.redactObj, Same, redactValue_eq_str_iff, Agree, ← becomes_same_iff]
    simp
  | arr items ih =>
    rw [DistinctKeys, distinctItems_iff] at hv
    rw [Js.coreRedactFull, Js.redactObj, js_redactItems_eq, Redactor.redactValue, redactItems_eq,
      Same, Agree, agreeItems_iff]
    simp only [arr.injEq, exists_eq_left', sameItems_map_iff]
    exact forall₂_congr (fun x hx => ih x hx (hv x hx))
  | obj members ih =>
    rw [DistinctKeys, distinctMembers_iff] at hv
    rw [Js.coreRedactFull, Js.redactObj, js_redactMembers_eq, Redactor.redactValue,
      redactMembers_eq, Same, Agree, agreeMembers_iff]
    simp only [obj.injEq, exists_eq_left', List.length_map]
    rw [sameMembers_map_iff hv.1 (fun m hm => (List.mem_filter.1 hm).1), List.length_filter_eq_length_iff]
    have hunder : ∀ m ∈ members, _ ↔ _ := fun m hm =>
      same_under_iff (k := m.1) (ih m hm (hv.2 m hm))
    constructor
    · rintro ⟨hproto, hsame⟩ m hm
      have hm' := hproto m hm
      exact ⟨by simpa using hm', (hunder m hm).1 (hsame m (List.mem_filter.2 ⟨hm, hm'⟩))⟩
    · intro h
      refine ⟨fun m hm => by simpa using (h m hm).1, fun m hm => ?_⟩
      have hm' := (List.mem_filter.1 hm).1
      exact (hunder m hm').2 (h m hm').2

/-! ## ASCII -/

def AsciiText (s : String) : Prop := ∀ c ∈ s.toList, c.toNat < 128

mutual

/-- Every key and every string is ASCII, and no key is `__proto__`. -/
def PlainTexts : JsonTree N String → Prop
  | .null => True
  | .bool _ => True
  | .num _ => True
  | .str s => AsciiText s
  | .arr items => PlainItems items
  | .obj members => PlainMembers members

def PlainItems : List (JsonTree N String) → Prop
  | [] => True
  | v :: rest => PlainTexts v ∧ PlainItems rest

def PlainMembers : List (String × JsonTree N String) → Prop
  | [] => True
  | (k, v) :: rest => ((k ≠ "__proto__" ∧ AsciiText k) ∧ PlainTexts v) ∧ PlainMembers rest

end

theorem plainItems_iff {items : List (JsonTree N String)} :
    PlainItems items ↔ ∀ v ∈ items, PlainTexts v := by
  induction items with
  | nil => simp [PlainItems]
  | cons v rest ih => rw [PlainItems, ih, List.forall_mem_cons]

theorem plainMembers_iff :
    PlainMembers members ↔
      ∀ m ∈ members, (m.1 ≠ "__proto__" ∧ AsciiText m.1) ∧ PlainTexts m.2 := by
  induction members with
  | nil => simp [PlainMembers]
  | cons m rest ih => rw [PlainMembers, ih, List.forall_mem_cons]

/-- In a candidate of ASCII what is no separator is a digit. -/
theorem filter_separators (hs : AsciiText s) {m : List Char} (hm : FirstCandidate j s.toList m) :
    m.filter (fun c => !(j.space c || c == '-')) = m.filter Char.isDigit := by
  obtain ⟨pre, post, htext, hcandidate, -⟩ := hm
  have hascii : ∀ c ∈ m, c.toNat < 128 := fun c hc => hs c (by simp [htext, hc])
  refine List.filter_congr (fun c hc => ?_)
  have hdigit := j.digit_ascii c (hascii c hc)
  have hspace := j.space_ascii c (hascii c hc)
  cases hd : c.isDigit with
  | true =>
    have hrange : 48 ≤ c.toNat ∧ c.toNat ≤ 57 := by
      simpa [Char.isDigit, UInt32.le_iff_toNat_le] using hd
    have hblank : c ≠ ' ' := by
      rintro rfl
      exact absurd hrange.1 (by decide)
    have hdash : c ≠ '-' := by
      rintro rfl
      exact absurd hrange.1 (by decide)
    have hcontrol : ¬c.toNat ≤ 13 := by omega
    simp [hspace, hblank, hdash, hcontrol]
  | false =>
    rcases hcandidate.inner c hc with h | h | h
    · rw [hdigit, hd] at h
      exact absurd h Bool.false_ne_true
    · simp [h]
    · simp [h]

theorem js_firstIsCard_ascii (hs : AsciiText s) : Js.FirstIsCard j s ↔ FirstIsCard d s := by
  refine exists_congr fun m => ⟨fun h => ?_, fun h => ?_⟩
  · rw [filter_separators hs h.1] at h
    exact ⟨firstCandidate_ascii j d hs h.1, h.2⟩
  · have hm := firstCandidate_ascii d j hs h.1
    rw [filter_separators hs hm]
    exact ⟨hm, h.2⟩

theorem secretKey_ascii (hextra : ∀ k ∈ extraKeys, AsciiText k) {k : String} (hk : AsciiText k) :
    SecretKey j extraKeys k ↔ SecretKey d extraKeys k := by
  have hwords : ∀ w ∈ keyWords, AsciiText w := by simp [keyWords, spellings, AsciiText]
  refine exists_congr fun w => and_congr_right fun hw => occurs_ascii j d ?_ hk
  exact (List.mem_append.1 hw).elim (hwords w) (hextra w)

/-- **They agree on ASCII**, with a replacement that is not empty. -/
theorem agree_of_plainTexts (hextra : ∀ k ∈ extraKeys, AsciiText k) (hrep : replacement ≠ some "")
    (hv : PlainTexts v) : Agree d j extraKeys replacement v := by
  induction v using JsonTree.ind with
  | null | bool | num => trivial
  | str s => exact js_firstIsCard_ascii hv
  | arr items ih =>
    rw [PlainTexts, plainItems_iff] at hv
    rw [Agree, agreeItems_iff]
    exact fun x hx => ih x hx (hv x hx)
  | obj members ih =>
    rw [PlainTexts, plainMembers_iff] at hv
    rw [Agree, agreeMembers_iff]
    intro m hm
    obtain ⟨⟨hproto, hkey⟩, hbelow⟩ := hv m hm
    have hsame : SecretKey j extraKeys m.1 ↔ SecretKey d extraKeys m.1 :=
      secretKey_ascii hextra hkey
    exact ⟨hproto, fun _ _ => hrep, fun hj hd => absurd (hsame.1 hj) hd,
      fun hj hd => absurd (hsame.2 hd) hj, fun _ _ => ih m hm hbelow⟩

end

theorem coreRedact_eq (j : Dialect) {N : Type} (v : JsonTree N String) :
    Js.coreRedact j v = Js.coreRedactFull j [] none v := by
  simp [Js.coreRedact, Js.coreRedactFull]

theorem default_eq : Redactor.default = core [] none := by
  simp [Redactor.default, core, Redactor.new]

/-- **When JS redacts as fasten-core does.** -/
theorem js_redacts_as_core_iff (d j : Dialect) {N : Type} (v : JsonTree N String)
    (hv : v.DistinctKeys) (extraKeys : List String) (replacement : Option String) :
    ((Js.coreRedactFull j extraKeys replacement v).Same
      ((Redactor.new extraKeys (replacement.getD "") []).redactValue d v) ↔
        Agree d j extraKeys replacement v) ∧
    ((Js.coreRedact j v).Same (Redactor.default.redactValue d v) ↔ Agree d j [] none v) ∧
    ((∀ k ∈ extraKeys, AsciiText k) → replacement ≠ some "" → PlainTexts v →
      Agree d j extraKeys replacement v) := by
  refine ⟨same_redact_iff hv, ?_, fun hextra hrep hplain => agree_of_plainTexts hextra hrep hplain⟩
  rw [coreRedact_eq, default_eq]
  exact same_redact_iff hv

/-- A value to redact. -/
def loginDetail : JsonTree Nat String :=
  .obj [("user", .str "ada"), ("Password", .str "hunter2"), ("card", .str "4539 5787 6362 1486")]

theorem js_redacts_login_as_core :
    (Js.coreRedactFull .ascii ["ssn"] (some "[cut]") loginDetail).Same
      ((Redactor.new ["ssn"] "[cut]" []).redactValue .ascii loginDetail) := by
  have h := js_redacts_as_core_iff .ascii .ascii loginDetail
    (by simp [loginDetail, DistinctKeys, DistinctMembers]) ["ssn"] (some "[cut]")
  refine h.1.2 (h.2.2 ?_ ?_ ?_)
  · simp [AsciiText]
  · simp
  · simp [loginDetail, PlainTexts, PlainMembers, AsciiText]

/-- With an empty replacement the results differ, and so they do on a member `__proto__`. -/
theorem js_redacts_otherwise :
    ¬(Js.coreRedactFull .ascii [] (some "") loginDetail).Same
      ((Redactor.new [] "" []).redactValue .ascii loginDetail) ∧
    ¬(Js.coreRedact .ascii (.obj [("__proto__", .num 1)] : JsonTree Nat String)).Same
      (Redactor.default.redactValue .ascii (.obj [("__proto__", .num 1)])) := by
  constructor
  · intro h
    have hkey : SecretKey .ascii [] "Password" :=
      ⟨"password", by simp [keyWords], [], "Password".toList, [], rfl, by decide⟩
    have hagree := (same_redact_iff (d := .ascii) (j := .ascii) (v := loginDetail)
      (by simp [loginDetail, DistinctKeys, DistinctMembers])).1 h
    rw [loginDetail, Agree, agreeMembers_iff] at hagree
    have hunder := (hagree ("Password", .str "hunter2") (by simp)).2
    exact hunder.1 hkey hkey rfl
  · rintro ⟨members, hmembers, hlen, -⟩
    rw [Redactor.redactValue, obj.injEq] at hmembers
    rw [← hmembers, js_redactMembers_eq, redactMembers_eq, List.length_map, List.length_map] at hlen
    exact absurd hlen (by decide)

end Fasten.Secrets
