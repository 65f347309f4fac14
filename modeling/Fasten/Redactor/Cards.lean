import Fasten.Redactor

set_option autoImplicit false

/-! # Card numbers

`check_value` looks at one text only, the leftmost one that its expression matches, at its full
length: 13 to 19 characters, separators included. A card number is caught when that text is one. -/

namespace Fasten.Secrets

open Rx JsonText

section

variable (d : Dialect)

/-- A text at some place that `CC_DIGIT_RE` matches. -/
structure Candidate (prev : Option Char) (m post : List Char) : Prop where
  least : 13 ≤ m.length
  most : m.length ≤ 19
  first : ∃ c ∈ m.head?, d.digit c = true
  last : ∃ c ∈ m.getLast?, d.digit c = true
  inner : ∀ c ∈ m, d.digit c = true ∨ d.space c = true ∨ c = '-'
  before : ∀ c ∈ prev, d.word c = false
  after : ∀ c ∈ post.head?, d.word c = false

/-- The leftmost candidate, and of those that start there the longest. -/
def FirstCandidate (text m : List Char) : Prop :=
  ∃ pre post, text = pre ++ (m ++ post) ∧ Candidate d pre.getLast? m post ∧
    (∀ pre' m' post', text = pre' ++ (m' ++ post') → Candidate d pre'.getLast? m' post' →
      pre.length ≤ pre'.length) ∧
    ∀ m' post', m ++ post = m' ++ post' → Candidate d pre.getLast? m' post' →
      m'.length ≤ m.length

variable {d}

/-! ## What the expression matches -/

theorem has_inner_iff {x : Char} :
    (CharSet.union .digit (.union .space (.char '-'))).has d false x = true ↔
      d.digit x = true ∨ d.space x = true ∨ x = '-' := by
  rw [CharSet.has, CharSet.has, CharSet.has, CharSet.has, CharSet.has, if_neg Bool.false_ne_true,
    Bool.or_eq_true, Bool.or_eq_true, beq_iff_eq, eq_comm (a := x)]

/-- **Where the expression can end**: after a candidate. -/
theorem mem_ends_ccDigitRe {prev : Option Char} {rest : List Char} {e : Cursor} :
    e ∈ ccDigitRe.ends d false ⟨prev, rest⟩ ↔
      ∃ m post, rest = m ++ post ∧ Candidate d prev m post ∧ e = ⟨m.getLast?, post⟩ := by
  simp only [ccDigitRe, mem_ends_seq, mem_ends_boundary, mem_ends_set]
  constructor
  · rintro ⟨_, ⟨hbefore, rfl⟩, _, ⟨x, tail, rfl, hx, rfl⟩, c, hc, _, ⟨y, post, hrest, hy, rfl⟩,
      hafter, rfl⟩
    obtain ⟨n, hmin, hmax, hlen, hall, rfl⟩ := mem_repEnds_iff.1 hc
    have hmost : n ≤ 17 := hmax 17 rfl
    have htail : tail = tail.take n ++ y :: post := by
      rw [← show tail.drop n = y :: post from hrest, List.take_append_drop]
    have htake : (tail.take n).length = n := List.length_take_of_le hlen
    refine ⟨x :: tail.take n ++ [y], post, ?_, ⟨?_, ?_, ⟨x, rfl, hx⟩, ⟨y, ?_, hy⟩, ?_, ?_, ?_⟩, ?_⟩
    · rw [List.append_assoc, List.cons_append]
      exact congrArg (x :: ·) htail
    · rw [List.length_append, List.length_cons, htake, List.length_singleton]
      omega
    · rw [List.length_append, List.length_cons, htake, List.length_singleton]
      omega
    · exact List.getLast?_concat
    · intro c hc
      rw [List.mem_append, List.mem_cons, List.mem_singleton] at hc
      rcases hc with (rfl | hc) | rfl
      · exact Or.inl hx
      · exact has_inner_iff.1 (hall c hc)
      · exact Or.inl hy
    · exact (atBoundary_before_word (d.word_of_digit x hx)).1 hbefore
    · exact (atBoundary_after_word (d.word_of_digit y hy)).1 hafter
    · rw [List.getLast?_concat]
  · rintro ⟨m, post, rfl, hm, rfl⟩
    obtain ⟨x, hx, hxd⟩ := hm.first
    obtain ⟨y, hy, hyd⟩ := hm.last
    obtain ⟨front, rfl⟩ := List.getLast?_eq_some_iff.1 hy
    have hleast := hm.least
    have hmost := hm.most
    cases front with
    | nil => exact absurd hleast (by simp)
    | cons x' inner =>
      obtain rfl : x' = x := Option.some.inj hx
      simp only [List.length_append, List.length_cons, List.length_nil] at hleast hmost
      refine ⟨_, ⟨(atBoundary_before_word (d.word_of_digit x' hxd)).2 hm.before, rfl⟩, _,
        ⟨x', inner ++ y :: post, by simp, hxd, rfl⟩,
        Cursor.advance ⟨some x', inner ++ y :: post⟩ inner.length,
        mem_repEnds_iff.2 ⟨inner.length, by omega, ?_, by simp, ?_, rfl⟩, _,
        ⟨y, post, by simp [Cursor.advance], hyd, rfl⟩,
        (atBoundary_after_word (d.word_of_digit y hyd)).2 hm.after, by rw [List.getLast?_concat]⟩
      · rintro k hk
        rw [← Option.some.inj hk]
        omega
      · intro c hc
        rw [List.take_left' rfl] at hc
        exact has_inner_iff.2 (hm.inner c (by simp [hc]))

variable (d) in
/-- The longest candidate comes first. -/
theorem greedy_ccDigitRe : ccDigitRe.Greedy d false :=
  (fixed_boundary d false).seq_greedy ((fixed_set d false .digit).seq_greedy
    ((greedy_rep d false _ 11 (some 17)).seq_fixed
      ((fixed_set d false .digit).seq (fixed_boundary d false))))

/-- **The expression finds the first candidate.** -/
theorem find_ccDigitRe {text m : List Char} :
    ccDigitRe.find d false text = some m ↔ FirstCandidate d text m := by
  have hnone : ∀ prev rest, ccDigitRe.matchAt d false ⟨prev, rest⟩ = none ↔
      ∀ m post, rest = m ++ post → ¬Candidate d prev m post := by
    intro prev rest
    rw [Regex.matchAt, Option.map_eq_none_iff, List.head?_eq_none_iff,
      List.eq_nil_iff_forall_not_mem]
    simp only [mem_ends_ccDigitRe]
    constructor
    · intro h m post heq hm
      exact h _ ⟨m, post, heq, hm, rfl⟩
    · rintro h e ⟨m, post, heq, hm, -⟩
      exact h m post heq hm
  have hsome : ∀ prev rest, ccDigitRe.matchAt d false ⟨prev, rest⟩ = some m ↔
      ∃ post, rest = m ++ post ∧ Candidate d prev m post ∧ ∀ m' post', rest = m' ++ post' →
        Candidate d prev m' post' → m'.length ≤ m.length := by
    intro prev rest
    rw [(greedy_ccDigitRe d).matchAt_eq_some_iff]
    simp only [mem_ends_ccDigitRe]
    constructor
    · rintro ⟨e, ⟨m', post, rfl, hm, rfl⟩, htext, hleast⟩
      have hm' : m = m' := by simpa using htext
      subst hm'
      refine ⟨post, rfl, hm, ?_⟩
      intro m' post' heq hm'
      have hle := hleast _ ⟨m', post', heq, hm', rfl⟩
      have hlen := congrArg List.length heq
      simp only [List.length_append] at hlen hle
      omega
    · rintro ⟨post, rfl, hm, hlongest⟩
      refine ⟨_, ⟨m, post, rfl, hm, rfl⟩, by simp, ?_⟩
      rintro e' ⟨m', post', heq, hm', rfl⟩
      have hle := hlongest m' post' heq hm'
      have hlen := congrArg List.length heq
      simp only [List.length_append] at hlen ⊢
      omega
  rw [Regex.find, findFrom_eq_some_iff, FirstCandidate]
  have hlast : ∀ pre : List Char, lastOf none pre = pre.getLast? := fun pre => Option.or_none
  simp only [hlast, hsome, hnone]
  constructor
  · rintro ⟨pre, rest, rfl, ⟨post, rfl, hm, hlongest⟩, hfirst⟩
    refine ⟨pre, post, rfl, hm, ?_, hlongest⟩
    intro pre' m' post' heq hm'
    by_contra hlt
    exact hfirst pre' (m' ++ post') heq (by omega) m' post' rfl hm'
  · rintro ⟨pre, post, rfl, hm, hfirst, hlongest⟩
    refine ⟨pre, m ++ post, rfl, ⟨post, rfl, hm, hlongest⟩, ?_⟩
    rintro pre' rest' heq hlt m' post' rfl hm'
    exact absurd (hfirst pre' m' post' heq hm') (by omega)

/-! ## Which strings are caught -/

variable (d) in
/-- The first text that looks like a card number has the digits of one. -/
def FirstIsCard (s : String) : Prop :=
  ∃ m, FirstCandidate d s.toList m ∧ 13 ≤ (m.filter Char.isDigit).length ∧
    (m.filter Char.isDigit).length ≤ 19 ∧ luhnValid (m.filter Char.isDigit) = true

variable (d) in
/-- Some other built-in shape matches. -/
def HasValueShape (s : String) : Prop :=
  ∃ vp ∈ valueSpecs, vp.1.isMatch d false s.toList = true

theorem isCard_iff {s : String} : isCard d s = true ↔ FirstIsCard d s := by
  rw [isCard, FirstIsCard]
  simp only [← find_ccDigitRe]
  cases ccDigitRe.find d false s.toList with
  | none => simp
  | some m => simp [and_assoc]

theorem FirstIsCard.digits {s : String} (h : FirstIsCard d s) :
    13 ≤ (s.toList.filter Char.isDigit).length := by
  obtain ⟨m, ⟨pre, post, htext, -⟩, hleast, -⟩ := h
  simp only [htext, List.filter_append, List.length_append]
  omega

/-! ## Tokens -/

/-- The tokens of the default redactor. -/
def tokens : List String :=
  ["***", "***CC***", "***JWT***", "***PRIVATE_KEY***", "***AWS_KEY***", "***GH_TOKEN***",
    "***STRIPE_KEY***", "***OPENAI_KEY***"]

variable (d) in
theorem tokens_pass : ∀ t ∈ tokens, Redactor.default.checkValue d t = none := by
  intro t ht
  have hdigits : ∀ t ∈ tokens, (t.toList.filter Char.isDigit).length = 0 := by decide
  have hshape : ∀ t ∈ tokens, valueShape .ascii t = none := by decide +kernel
  have hcard : ¬isCard d t = true := by
    intro h
    have := (isCard_iff.1 h).digits
    have := hdigits t ht
    omega
  rw [Redactor.checkValue, if_neg hcard, valueShape_eq d .ascii, hshape t ht]
  rfl

theorem valueShape_mem_tokens {s t : String} (h : valueShape d s = some t) : t ∈ tokens := by
  obtain ⟨vp, hvp, rfl⟩ := Option.map_eq_some_iff.1 h
  have hall : ∀ vp ∈ valueSpecs, vp.2 ∈ tokens := by simp [valueSpecs, tokens]
  exact hall vp (List.mem_of_find?_eq_some hvp)

variable (d) in
theorem default_tokensPass : Redactor.default.TokensPass d where
  replacement := tokens_pass d "***" (by simp [tokens])
  token s t h := by
    rw [Redactor.checkValue] at h
    split_ifs at h
    · rw [← Option.some.inj h]
      exact tokens_pass d _ (by simp [tokens])
    · refine tokens_pass d t (valueShape_mem_tokens (d := d) (s := s) ?_)
      simpa [Redactor.default] using h

theorem isSome_checkValue_default {s : String} :
    (Redactor.default.checkValue d s).isSome = true ↔ FirstIsCard d s ∨ HasValueShape d s := by
  have hshape : (valueShape d s).isSome = true ↔ HasValueShape d s := by
    rw [valueShape, Option.isSome_map, List.find?_isSome]
    rfl
  rw [Redactor.checkValue, ← isCard_iff, ← hshape]
  split_ifs with h
  · simp [h]
  · simp [h, Redactor.default]

end

/-- Digits with at most one space or dash between neighbours, and the text of them. -/
inductive Spaced : List Char → List Char → Prop
  | last {c : Char} (hc : c.isDigit = true) : Spaced [c] [c]
  | next {c : Char} (hc : c.isDigit = true) {sep : List Char} (hsep : sep = [] ∨ sep = [' ']
      ∨ sep = ['-']) {digits text : List Char} (rest : Spaced digits text) :
      Spaced (c :: digits) (c :: (sep ++ text))

/-- The string contains a card number on its own: no word character stands next to it. -/
def HasCard (d : Dialect) (s : String) : Prop :=
  ∃ pre digits text post, s.toList = pre ++ (text ++ post) ∧ Spaced digits text ∧
    13 ≤ digits.length ∧ digits.length ≤ 19 ∧ luhnValid digits = true ∧
    (∀ c ∈ pre.getLast?, d.word c = false) ∧ ∀ c ∈ post.head?, d.word c = false

section

variable {d : Dialect}

theorem digit_of_isDigit {c : Char} (hc : c.isDigit = true) : d.digit c = true := by
  have hrange : 48 ≤ c.toNat ∧ c.toNat ≤ 57 := by
    simpa [Char.isDigit, UInt32.le_iff_toNat_le] using hc
  rw [d.digit_ascii c (by omega), hc]

theorem Spaced.filter {digits text : List Char} (h : Spaced digits text) :
    text.filter Char.isDigit = digits := by
  induction h with
  | last hc => simp [hc]
  | next hc hsep rest ih => rcases hsep with rfl | rfl | rfl <;> simp [hc, ih]

/-- The text of digits with separators between them reads as a candidate does. -/
theorem Spaced.shape {digits text : List Char} (h : Spaced digits text) :
    (∃ c ∈ text.head?, d.digit c = true) ∧ (∃ c ∈ text.getLast?, d.digit c = true) ∧
      ∀ c ∈ text, d.digit c = true ∨ d.space c = true ∨ c = '-' := by
  have hblank : d.space ' ' = true := by simp [d.space_ascii]
  induction h with
  | @last c hc =>
    have hd := digit_of_isDigit (d := d) hc
    exact ⟨⟨c, rfl, hd⟩, ⟨c, rfl, hd⟩, by simp [hd]⟩
  | @next c hc sep hsep digits text _ ih =>
    have hd := digit_of_isDigit (d := d) hc
    obtain ⟨⟨first, hfirst, -⟩, ⟨last, hlast, hlastd⟩, hinner⟩ := ih
    refine ⟨⟨c, rfl, hd⟩, ⟨last, ?_, hlastd⟩, ?_⟩
    · have hall : (c :: (sep ++ text)).getLast? = text.getLast? := by
        rw [← List.cons_append, List.getLast?_append, hlast]
        rfl
      rwa [hall]
    · rw [List.forall_mem_cons, List.forall_mem_append]
      refine ⟨Or.inl hd, ?_, hinner⟩
      rcases hsep with rfl | rfl | rfl <;> simp [hblank]

/-- **A card number of at most 19 characters is caught** when the string has no other digits. -/
theorem firstIsCard_of_lone {s : String} {pre digits text post : List Char}
    (hs : s.toList = pre ++ (text ++ post)) (hspaced : Spaced digits text)
    (hleast : 13 ≤ digits.length) (hmost : text.length ≤ 19) (hluhn : luhnValid digits = true)
    (hbefore : ∀ c ∈ pre.getLast?, d.word c = false) (hafter : ∀ c ∈ post.head?, d.word c = false)
    (hpre : ∀ c ∈ pre, d.digit c = false) (hpost : ∀ c ∈ post, d.digit c = false) :
    FirstIsCard d s := by
  have hfilter := hspaced.filter
  have hlen : digits.length ≤ text.length := by
    rw [← hfilter]
    exact List.length_filter_le _ _
  obtain ⟨hfirst, hlast, hinner⟩ := hspaced.shape (d := d)
  refine ⟨text, ⟨pre, post, hs, ⟨by omega, hmost, hfirst, hlast, hinner, hbefore, hafter⟩, ?_, ?_⟩, ?_⟩
  · intro pre' m' post' heq hm'
    -- a candidate starts with a digit, and there is none before the card
    by_contra hlt
    obtain ⟨c, hc, hd⟩ := hm'.first
    obtain ⟨rest, rfl⟩ : ∃ rest, m' = c :: rest := List.head?_eq_some_iff.1 hc
    have hat : pre[pre'.length]? = some c := by
      rw [← List.getElem?_append_left (by omega), ← hs, heq]
      simp
    exact absurd hd (by simp [hpre c (List.mem_of_getElem? hat)])
  · intro m' post' heq hm'
    -- and it ends with one, and there is none after
    by_contra hlt
    obtain ⟨c, hc, hd⟩ := hm'.last
    rw [List.getLast?_eq_getElem?] at hc
    have hat : post[m'.length - 1 - text.length]? = some c := by
      rw [← List.getElem?_append_right (by omega), heq, List.getElem?_append_left (by omega)]
      exact hc
    exact absurd hd (by simp [hpost c (List.mem_of_getElem? hat)])
  · rw [hfilter]
    exact ⟨hleast, by omega, hluhn⟩

/-! ## ASCII -/

/-- **All dialects have the same ASCII.** -/
theorem Candidate.ascii (d d' : Dialect) {prev : Option Char} {m post : List Char}
    (hprev : ∀ c ∈ prev, c.toNat < 128) (htext : ∀ c ∈ m ++ post, c.toNat < 128)
    (h : Candidate d prev m post) : Candidate d' prev m post := by
  rw [List.forall_mem_append] at htext
  have hdigit : ∀ c ∈ m, d.digit c = true → d'.digit c = true := by
    intro c hc hd
    rwa [d'.digit_ascii c (htext.1 c hc), ← d.digit_ascii c (htext.1 c hc)]
  have hspace : ∀ c ∈ m, d.space c = true → d'.space c = true := by
    intro c hc hd
    rwa [d'.space_ascii c (htext.1 c hc), ← d.space_ascii c (htext.1 c hc)]
  have hword : ∀ c : Char, c.toNat < 128 → d.word c = false → d'.word c = false := by
    intro c hc hd
    rwa [d'.word_ascii c hc, ← d.word_ascii c hc]
  obtain ⟨x, hx, hxd⟩ := h.first
  obtain ⟨y, hy, hyd⟩ := h.last
  exact ⟨h.least, h.most, ⟨x, hx, hdigit x (List.mem_of_mem_head? hx) hxd⟩,
    ⟨y, hy, hdigit y (List.mem_of_mem_getLast? hy) hyd⟩,
    fun c hc => (h.inner c hc).imp (hdigit c hc) (Or.imp_left (hspace c hc)),
    fun c hc => hword c (hprev c hc) (h.before c hc),
    fun c hc => hword c (htext.2 c (List.mem_of_mem_head? hc)) (h.after c hc)⟩

theorem firstCandidate_ascii (d d' : Dialect) {text m : List Char}
    (htext : ∀ c ∈ text, c.toNat < 128) (h : FirstCandidate d text m) : FirstCandidate d' text m := by
  have hcandidate : ∀ (d d' : Dialect) (pre m post : List Char), text = pre ++ (m ++ post) →
      Candidate d pre.getLast? m post → Candidate d' pre.getLast? m post := by
    rintro d d' pre m post rfl
    rw [List.forall_mem_append] at htext
    exact Candidate.ascii d d' (fun c hc => htext.1 c (List.mem_of_mem_getLast? hc)) htext.2
  obtain ⟨pre, post, heq, hm, hfirst, hlongest⟩ := h
  refine ⟨pre, post, heq, hcandidate d d' pre m post heq hm, ?_, ?_⟩
  · exact fun pre' m' post' heq' hm' => hfirst pre' m' post' heq' (hcandidate d' d _ _ _ heq' hm')
  · intro m' post' heq' hm'
    exact hlongest m' post' heq' (hcandidate d' d pre m' post' (by rw [heq, heq']) hm')

end

/-- **Which strings `check_value` catches, and that what it catches is gone from every value.** -/
theorem check_value_catches_iff (d : Dialect) {N : Type} (s : String) :
    ((Redactor.default.checkValue d s).isSome = true ↔ FirstIsCard d s ∨ HasValueShape d s) ∧
    ((Redactor.default.checkValue d s).isSome = true →
      ∀ v : JsonTree N String, s ∉ values (Redactor.default.redactValue d v)) ∧
    ((Redactor.default.checkValue d s).isSome = false →
      Redactor.default.redactValue d (.str s : JsonTree N String) = .str s) := by
  refine ⟨isSome_checkValue_default, ?_, ?_⟩
  · intro hsome v hs
    rw [(default_tokensPass d).checkValue_redactValue v s hs] at hsome
    exact absurd hsome Bool.false_ne_true
  · intro hnone
    rw [Redactor.redactValue, Option.isSome_eq_false_iff.1 hnone |> Option.isNone_iff_eq_none.1]
    rfl

/-- `luhn_valid` of the card number `4539 5787 6362 1486`. -/
example : luhnValid "4539578763621486".toList = true := by decide

/-- The card number after another number is not looked at. -/
theorem card_after_number_passes :
    HasCard .ascii "1234567890123 4539578763621486" ∧
      Redactor.default.checkValue .ascii "1234567890123 4539578763621486" = none := by
  have hspaced : ∀ digits : List Char, digits ≠ [] → (∀ c ∈ digits, c.isDigit = true) →
      Spaced digits digits := by
    intro digits hne hall
    induction digits with
    | nil => exact absurd rfl hne
    | cons c rest ih =>
      rw [List.forall_mem_cons] at hall
      cases rest with
      | nil => exact .last hall.1
      | cons x rest => exact .next hall.1 (Or.inl rfl) (ih (List.cons_ne_nil x rest) hall.2)
  refine ⟨⟨"1234567890123 ".toList, "4539578763621486".toList, "4539578763621486".toList, [],
    by decide, hspaced _ (by simp) (by simp), by decide, by decide, by decide, by simp; decide,
    by simp⟩, ?_⟩
  decide +kernel

end Fasten.Secrets
