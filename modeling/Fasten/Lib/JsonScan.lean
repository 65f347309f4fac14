import Fasten.Lib.JsonText

set_option autoImplicit false

/-! # Object texts are suffix free

No text that an encoder writes for an object ends in the text of another one. A scanner that knows
strings from structure and counts open brackets tells why: a second object text that starts inside a
string of the first leaves the scanner inside a string, and one that starts at an inner bracket leaves
brackets open. -/

namespace JsonText

/-! ## The scanner -/

/-- Outside strings, inside a string, or after a backslash in one, each with the number of open
    brackets; `bad` after a character no encoder writes there. -/
inductive ScanState where
  | outside (depth : Int)
  | inString (depth : Int)
  | escaped (depth : Int)
  | bad

def scan : ScanState → Char → ScanState
  | .outside d, c =>
    if c = '"' then .inString d
    else if c = '{' ∨ c = '[' then .outside (d + 1)
    else if c = '}' ∨ c = ']' then .outside (d - 1)
    else if c = '\\' then .bad
    else .outside d
  | .inString d, c =>
    if c = '"' then .outside d else if c = '\\' then .escaped d else .inString d
  | .escaped d, c => if c = '{' then .bad else .inString d
  | .bad, _ => .bad

def scanText (s : ScanState) (text : List Char) : ScanState := text.foldl scan s

theorem scanText_append (s : ScanState) (a b : List Char) :
    scanText s (a ++ b) = scanText (scanText s a) b := by
  simp [scanText]

theorem scanText_cons (s : ScanState) (c : Char) (a : List Char) :
    scanText s (c :: a) = scanText (scan s c) a := rfl

@[simp] theorem scanText_bad (a : List Char) : scanText .bad a = .bad := by
  induction a with
  | nil => rfl
  | cons c a ih => simpa [scanText_cons, scan] using ih

/-- A character that is structure neither outside nor inside a string. -/
def Inert (c : Char) : Prop :=
  c ≠ '"' ∧ c ≠ '\\' ∧ c ≠ '{' ∧ c ≠ '[' ∧ c ≠ '}' ∧ c ≠ ']'

theorem scan_outside_inert {c : Char} (h : Inert c) (d : Int) :
    scan (.outside d) c = .outside d := by
  obtain ⟨h1, h2, h3, h4, h5, h6⟩ := h
  simp [scan, h1, h2, h3, h4, h5, h6]

theorem scan_inString_inert {c : Char} (h : Inert c) (d : Int) :
    scan (.inString d) c = .inString d := by
  rw [scan, if_neg h.1, if_neg h.2.1]

theorem inert_of_isNumChar {c : Char} (h : isNumChar c = true) : Inert c := by
  refine ⟨?_, ?_, ?_, ?_, ?_, ?_⟩ <;> (rintro rfl; revert h; decide)

/-- At least `k` brackets are open. -/
def AtLeast (k : Int) : ScanState → Prop
  | .outside d => k ≤ d
  | .inString d => k ≤ d
  | .escaped d => k ≤ d
  | .bad => True

/-- `P` holds of every state on the way through a text, the last one excepted. -/
def Along (P : ScanState → Prop) : ScanState → List Char → Prop
  | _, [] => True
  | s, c :: rest => P s ∧ Along P (scan s c) rest

theorem along_append (P : ScanState → Prop) (s : ScanState) (a b : List Char) :
    Along P s (a ++ b) ↔ Along P s a ∧ Along P (scanText s a) b := by
  induction a generalizing s with
  | nil => simp [Along, scanText]
  | cons c a ih => simp [Along, ih, scanText_cons, and_assoc]

theorem Along.before {P : ScanState → Prop} {s : ScanState} {a b : List Char}
    (h : Along P s (a ++ b)) (hb : b ≠ []) : P (scanText s a) := by
  rw [along_append] at h
  cases b with
  | nil => exact absurd rfl hb
  | cons c b => exact h.2.1

/-- The scanner goes through a text from one state to another, with at least `k` brackets open on the
    way. -/
def Passes (k : Int) (s : ScanState) (a : List Char) (s' : ScanState) : Prop :=
  Along (AtLeast k) s a ∧ scanText s a = s'

theorem Passes.append {k : Int} {s s' s'' : ScanState} {a b : List Char} (h : Passes k s a s')
    (h' : Passes k s' b s'') : Passes k s (a ++ b) s'' := by
  obtain ⟨halong, rfl⟩ := h
  refine ⟨(along_append ..).2 ⟨halong, h'.1⟩, ?_⟩
  rw [scanText_append, h'.2]

theorem Passes.cons {k : Int} {s s' : ScanState} {c : Char} {a : List Char} (hs : AtLeast k s)
    (h : Passes k (scan s c) a s') : Passes k s (c :: a) s' :=
  ⟨⟨hs, h.1⟩, h.2⟩

theorem Passes.nil (k : Int) (s : ScanState) : Passes k s [] s := ⟨trivial, rfl⟩

section Inert

variable {a : List Char} (h : ∀ c ∈ a, Inert c) {k d : Int}

include h

theorem passes_outside (hk : k ≤ d) : Passes k (.outside d) a (.outside d) := by
  induction a with
  | nil => exact .nil _ _
  | cons c a ih =>
    rw [List.forall_mem_cons] at h
    refine .cons hk ?_
    rw [scan_outside_inert h.1]
    exact ih h.2

theorem passes_inString (hk : k ≤ d) : Passes k (.inString d) a (.inString d) := by
  induction a with
  | nil => exact .nil _ _
  | cons c a ih =>
    rw [List.forall_mem_cons] at h
    refine .cons hk ?_
    rw [scan_inString_inert h.1]
    exact ih h.2

theorem scanText_outside_inert (d : Int) : scanText (.outside d) a = .outside d :=
  (passes_outside h le_rfl).2

end Inert

/-- Where a text that was begun outside a string can leave the scanner, if it has no quote. -/
def OutsideOrBad (s : ScanState) : Prop := (∃ d, s = .outside d) ∨ s = .bad

/-- Where an object text leaves a scanner that was inside a string. -/
def InStringOrBad (s : ScanState) : Prop := (∃ d, s = .inString d) ∨ s = .bad

theorem inStringOrBad_inert {a : List Char} (h : ∀ c ∈ a, Inert c) {st : ScanState}
    (hst : InStringOrBad st) : InStringOrBad (scanText st a) := by
  rcases hst with ⟨d, rfl⟩ | rfl
  · exact Or.inl ⟨d, (passes_inString h le_rfl).2⟩
  · exact Or.inr (scanText_bad _)

theorem inStringOrBad_scan {c : Char} (hq : c ≠ '"') (hb : c ≠ '\\') {st : ScanState}
    (hst : InStringOrBad st) : InStringOrBad (scan st c) := by
  rcases hst with ⟨d, rfl⟩ | rfl
  · exact Or.inl ⟨d, by simp [scan, hq, hb]⟩
  · exact Or.inr rfl

/-! ## Strings -/

/-- What a string may hold for a character: the character itself, or a backslash and what it
    escapes. -/
inductive Escaped : List Char → Prop where
  | raw {c : Char} (hquote : c ≠ '"') (hback : c ≠ '\\') : Escaped [c]
  | slash {e : Char} {rest : List Char} (he : e ≠ '{') (hrest : ∀ c ∈ rest, Inert c) :
      Escaped ('\\' :: e :: rest)
  | append {a b : List Char} (ha : Escaped a) (hb : Escaped b) : Escaped (a ++ b)

namespace Escaped

variable {a : List Char}

theorem passes (h : Escaped a) {k d : Int} (hk : k ≤ d) :
    Passes k (.inString d) a (.inString d) := by
  induction h with
  | raw hquote hback =>
    refine .cons hk ?_
    rw [scan, if_neg hquote, if_neg hback]
    exact .nil _ _
  | slash he hrest =>
    refine .cons hk (.cons hk ?_)
    rw [show scan (.inString d) '\\' = .escaped d from rfl, scan, if_neg he]
    exact passes_inString hrest hk
  | append _ _ iha ihb => exact iha.append ihb

/-- Read as structure, it holds no quote without a backslash before it. -/
theorem outsideOrBad (h : Escaped a) {s : ScanState} (hs : OutsideOrBad s) :
    OutsideOrBad (scanText s a) := by
  induction h generalizing s with
  | raw hquote hback =>
    rcases hs with ⟨d, rfl⟩ | rfl
    · rw [scanText_cons, scan, if_neg hquote]
      split_ifs
      · exact Or.inl ⟨_, rfl⟩
      · exact Or.inl ⟨_, rfl⟩
      · exact Or.inl ⟨_, rfl⟩
    · exact Or.inr rfl
  | slash he hrest =>
    rcases hs with ⟨d, rfl⟩ | rfl
    · rw [scanText_cons, show scan (.outside d) '\\' = .bad from rfl]
      exact Or.inr (scanText_bad _)
    · exact Or.inr (scanText_bad _)
  | append _ _ iha ihb =>
    rw [scanText_append]
    exact ihb (iha hs)

end Escaped

/-- What the scanner needs of an encoder. -/
structure Scannable {N S : Type} (w : Writer N S) : Prop where
  num : ∀ n, ∀ c ∈ w.numText n, Inert c
  space : ∀ c ∈ w.space, Inert c
  closes : ∀ s (k d : Int), k ≤ d → Passes k (.inString d) (w.strBody s) (.outside d)
  flips : ∀ s d, InStringOrBad (scanText (.outside d) (w.strBody s))

/-- Any escapes will do. -/
theorem scannable_textWriter {esc : Char → List Char} (hesc : ∀ c, Escaped (esc c))
    {space : List Char} (hspace : ∀ c ∈ space, Inert c) : Scannable (textWriter esc space) := by
  refine ⟨fun n c hc => inert_of_isNumChar (n.numeric c hc), hspace, fun s k d hk => ?_,
    fun s d => ?_⟩
  · have hbody : Passes k (.inString d) (s.toList.flatMap esc) (.inString d) := by
      induction s.toList with
      | nil => exact .nil _ _
      | cons c l ih =>
        rw [List.flatMap_cons]
        exact ((hesc c).passes hk).append ih
    exact hbody.append (.cons hk (.nil _ _))
  · change InStringOrBad (scanText _ (s.toList.flatMap esc ++ ['"']))
    have houtside : ∀ (l : List Char) (st : ScanState), OutsideOrBad st →
        OutsideOrBad (scanText st (l.flatMap esc)) := by
      intro l
      induction l with
      | nil => exact fun st hst => hst
      | cons c l ih =>
        intro st hst
        rw [List.flatMap_cons, scanText_append]
        exact ih _ ((hesc c).outsideOrBad hst)
    rw [scanText_append]
    rcases houtside s.toList (.outside d) (Or.inl ⟨d, rfl⟩) with ⟨e, he⟩ | hbad
    · rw [he]
      exact Or.inl ⟨e, rfl⟩
    · rw [hbad]
      exact Or.inr rfl

/-! ## Values -/

section Values

variable {N S : Type} {w : Writer N S} (hw : Scannable w)

theorem inert_literals : (∀ c ∈ ['n', 'u', 'l', 'l'], Inert c)
    ∧ (∀ c ∈ ['t', 'r', 'u', 'e'], Inert c) ∧ ∀ c ∈ ['f', 'a', 'l', 's', 'e'], Inert c := by
  simp [Inert]

theorem inert_comma {space : List Char} (h : ∀ c ∈ space, Inert c) :
    ∀ c ∈ ',' :: space, Inert c :=
  List.forall_mem_cons.2 ⟨by simp [Inert], h⟩

include hw

theorem Scannable.inStringOrBad_str (s : S) {st : ScanState} (hst : InStringOrBad st) :
    InStringOrBad (scanText st ('"' :: w.strBody s)) := by
  rcases hst with ⟨d, rfl⟩ | rfl
  · exact hw.flips s d
  · exact Or.inr (scanText_bad _)

theorem Scannable.passes_str (s : S) {k d : Int} (hk : k ≤ d) :
    Passes k (.outside d) ('"' :: w.strBody s) (.outside d) :=
  .cons hk (hw.closes s k d hk)

mutual

/-- A value closes every bracket and every string it opens, and no other bracket. -/
theorem Scannable.passes_write : ∀ (v : JsonTree N S) {k d : Int}, k ≤ d →
    Passes k (.outside d) (write w v) (.outside d)
  | .null, _, _, hk => passes_outside inert_literals.1 hk
  | .bool true, _, _, hk => passes_outside inert_literals.2.1 hk
  | .bool false, _, _, hk => passes_outside inert_literals.2.2 hk
  | .num n, _, _, hk => passes_outside (hw.num n) hk
  | .str s, _, _, hk => hw.passes_str s hk
  | .arr items, _, d, hk => by
    rw [write]
    exact .cons hk (passes_writeItems items (by simp) (by omega))
  | .obj members, _, d, hk => by
    rw [write]
    exact .cons hk (passes_writeMembers members (by simp) (by omega))

theorem Scannable.passes_writeItems : ∀ (items : List (JsonTree N S)) {sep : List Char} {k d : Int},
    (∀ c ∈ sep, Inert c) → k ≤ d + 1 → Passes k (.outside (d + 1)) (writeItems w sep items) (.outside d)
  | [], _, _, _, _, hk => ⟨⟨hk, trivial⟩, by simp [writeItems, scanText, scan]⟩
  | v :: rest, _, _, _, hsep, hk => by
    rw [writeItems]
    exact (passes_outside hsep hk).append ((passes_write v hk).append
      (passes_writeItems rest (inert_comma hw.space) hk))

theorem Scannable.passes_writeMembers : ∀ (members : List (S × JsonTree N S)) {sep : List Char}
    {k d : Int}, (∀ c ∈ sep, Inert c) → k ≤ d + 1 →
    Passes k (.outside (d + 1)) (writeMembers w sep members) (.outside d)
  | [], _, _, _, _, hk => ⟨⟨hk, trivial⟩, by simp [writeMembers, scanText, scan]⟩
  | (l, v) :: rest, _, _, _, hsep, hk => by
    rw [writeMembers, ← List.cons_append]
    exact (passes_outside hsep hk).append ((hw.passes_str l hk).append
      (.cons hk ((passes_outside hw.space hk).append ((passes_write v hk).append
        (passes_writeMembers rest (inert_comma hw.space) hk)))))

end

/-- Inside an object's text its bracket is open. -/
theorem Scannable.atLeast_one {members : List (S × JsonTree N S)} {pre post : List Char}
    (h : write w (.obj members) = pre ++ post) (hpre : pre ≠ []) (hpost : post ≠ []) :
    AtLeast 1 (scanText (.outside 0) pre) := by
  cases pre with
  | nil => exact absurd rfl hpre
  | cons c pre =>
    simp only [write, List.cons_append, List.cons.injEq] at h
    obtain ⟨rfl, hbody⟩ := h
    have hpasses : Passes 1 (.outside (0 + 1)) (writeMembers w [] members) (.outside 0) :=
      hw.passes_writeMembers members (by simp) le_rfl
    rw [hbody] at hpasses
    exact hpasses.1.before hpost

/-- Read from inside a string, a value's strings are structure and its structure is string, so
    the scanner ends inside a string again unless it meets a backslash outside one. -/
theorem Scannable.inStringOrBad_write (v : JsonTree N S) {st : ScanState} (hst : InStringOrBad st) :
    InStringOrBad (scanText st (write w v)) := by
  have hpiece : ∀ (p : Piece N S) {st : ScanState}, InStringOrBad st →
      InStringOrBad (scanText st (w.text p)) := by
    intro p st hst
    cases p with
    | num n => exact inStringOrBad_inert (hw.num n) hst
    | str s => exact hw.inStringOrBad_str s hst
    | mark m =>
      cases m with
      | null => exact inStringOrBad_inert inert_literals.1 hst
      | true => exact inStringOrBad_inert inert_literals.2.1 hst
      | false => exact inStringOrBad_inert inert_literals.2.2 hst
      | comma => exact inStringOrBad_inert (inert_comma hw.space) hst
      | colon =>
        exact inStringOrBad_inert hw.space (inStringOrBad_scan (by decide) (by decide) hst)
      | _ => exact inStringOrBad_scan (by decide) (by decide) hst
  rw [write_eq_flatMap]
  induction pieces v generalizing st with
  | nil => exact hst
  | cons p ps ih =>
    rw [List.flatMap_cons, scanText_append]
    exact ih (hpiece p hst)

/-- **No object text ends in another one**, whichever encoder wrote the other. -/
theorem Scannable.suffix_free {w' : Writer N S} (hw' : Scannable w')
    {members members' : List (S × JsonTree N S)} {x : List Char}
    (h : write w (.obj members) = x ++ write w' (.obj members')) : x = [] := by
  by_contra hx
  have hfull := (hw.passes_write (.obj members) (le_refl 0)).2
  have hopen := hw.atLeast_one h hx (by simp [write])
  rw [h, scanText_append] at hfull
  cases hs : scanText (.outside 0) x with
  | outside d =>
    rw [hs] at hfull hopen
    rw [(hw'.passes_write _ le_rfl).2] at hfull
    simp only [AtLeast] at hopen
    simp only [ScanState.outside.injEq] at hfull
    omega
  | inString d =>
    rw [hs] at hfull
    rcases hw'.inStringOrBad_write (.obj members') (Or.inl ⟨d, rfl⟩) with ⟨e, he⟩ | hbad
    · rw [he] at hfull
      exact absurd hfull (by simp)
    · rw [hbad] at hfull
      exact absurd hfull (by simp)
  | escaped d =>
    rw [hs] at hfull
    simp only [write, scanText_cons] at hfull
    rw [show scan (.escaped d) '{' = .bad from rfl, scanText_bad] at hfull
    exact absurd hfull (by simp)
  | bad =>
    rw [hs, scanText_bad] at hfull
    exact absurd hfull (by simp)

/-- **Whatever stands before two object texts**, equal sums have the same text before and the same
    object behind. -/
theorem Scannable.append_inj {w' : Writer N S} (hw' : Scannable w') {a a' : List Char}
    {members members' : List (S × JsonTree N S)}
    (h : a ++ write w (.obj members) = a' ++ write w' (.obj members')) :
    a = a' ∧ write w (.obj members) = write w' (.obj members') := by
  rcases List.append_eq_append_iff.1 h with ⟨x, ha, hx⟩ | ⟨x, ha, hx⟩
  · have hnil := hw.suffix_free hw' hx
    rw [hnil, List.append_nil] at ha
    rw [hnil, List.nil_append] at hx
    exact ⟨ha.symm, hx⟩
  · have hnil := hw'.suffix_free hw hx
    rw [hnil, List.append_nil] at ha
    rw [hnil, List.nil_append] at hx
    exact ⟨ha, hx.symm⟩

end Values

end JsonText
