import Fasten.Lib.JsonScan

set_option autoImplicit false

/-! # Object texts that are cut off

A reader that accepts a text has closed every bracket and every string it opened, so the scanner
ends where it began. A cut inside an object's text leaves a bracket open, and nothing that follows
the cut closes it unless it has a bracket: no reader accepts what is left. -/

namespace JsonText

/-! ## What a reader consumes -/

/-- A character of a string: what was read leaves the scanner inside the string. -/
def KeepsString (readChar : List Char → Option (Char × List Char)) : Prop :=
  ∀ s c r, s.head? ≠ some '"' → readChar s = some (c, r) →
    ∃ read, s = read ++ r ∧ ∀ d, scanText (.inString d) read = .inString d

/-- What the scanner needs of a reader. -/
structure Scans {N S : Type} (d : Reader N S) : Prop where
  num : ∀ s n r, d.readNum s = some (n, r) → ∃ read, s = read ++ r ∧ ∀ c ∈ read, Inert c
  str : ∀ s k r, d.readStr s = some (k, r) →
    ∃ read, s = read ++ r ∧ ∀ e, scanText (.inString e) read = .outside e

variable {a : Int} {s r : List Char}

theorem readBody_succ (readChar : List Char → Option (Char × List Char)) (fuel : Nat)
    (h : s.head? ≠ some '"') : readBody readChar (fuel + 1) s
      = (readChar s).bind (fun read =>
        (readBody readChar fuel read.2).map (fun rest => (read.1 :: rest.1, rest.2))) := by
  cases s with
  | nil => cases hread : readChar [] <;> simp [readBody, hread]
  | cons c s =>
    have hc : c ≠ '"' := fun heq => h (by rw [heq]; rfl)
    cases hread : readChar (c :: s) <;> simp [readBody, hc, hread]

theorem scans_readBody {readChar : List Char → Option (Char × List Char)}
    (h : KeepsString readChar) (fuel : Nat) (s l r : List Char)
    (hread : readBody readChar fuel s = some (l, r)) :
    ∃ read, s = read ++ r ∧ ∀ d, scanText (.inString d) read = .outside d := by
  induction fuel generalizing s l with
  | zero => simp [readBody] at hread
  | succ fuel ih =>
    by_cases hquote : s.head? = some '"'
    · obtain ⟨tail, rfl⟩ := List.head?_eq_some_iff.1 hquote
      simp only [readBody, Option.some.injEq, Prod.mk.injEq] at hread
      obtain ⟨-, rfl⟩ := hread
      exact ⟨['"'], rfl, fun d => rfl⟩
    · rw [readBody_succ readChar fuel hquote] at hread
      obtain ⟨⟨c, r'⟩, hchar, hread⟩ := Option.bind_eq_some_iff.1 hread
      obtain ⟨⟨l', r''⟩, hbody, heq⟩ := Option.map_eq_some_iff.1 hread
      obtain ⟨-, rfl⟩ := Prod.mk.inj heq
      obtain ⟨read, rfl, hkeep⟩ := h s c r' hquote hchar
      obtain ⟨read', rfl, hclose⟩ := ih r' l' hbody
      refine ⟨read ++ read', by rw [List.append_assoc], fun d => ?_⟩
      rw [scanText_append, hkeep, hclose]

theorem scans_textReader {readChar : List Char → Option (Char × List Char)}
    (h : KeepsString readChar) : Scans (textReader readChar) where
  num := by
    intro s n r hread
    simp only [textReader, readNumeral] at hread
    split_ifs at hread
    obtain ⟨-, rfl⟩ := Prod.mk.inj (Option.some.inj hread)
    refine ⟨s.takeWhile isNumChar, List.takeWhile_append_dropWhile.symm, fun c hc => ?_⟩
    exact inert_of_isNumChar (List.mem_takeWhile_imp hc)
  str := by
    intro s k r hread
    obtain ⟨⟨l, r'⟩, hbody, heq⟩ := Option.map_eq_some_iff.1 hread
    obtain ⟨-, rfl⟩ := Prod.mk.inj heq
    exact scans_readBody h _ s l r' hbody

theorem inert_of_isSpace {c : Char} (h : isSpace c = true) : Inert c := by
  refine ⟨?_, ?_, ?_, ?_, ?_, ?_⟩ <;> (rintro rfl; revert h; decide)

/-- The space that is skipped. -/
theorem exists_skipSpace (s : List Char) :
    ∃ sp, s = sp ++ skipSpace s ∧ ∀ c ∈ sp, Inert c :=
  ⟨s.takeWhile isSpace, List.takeWhile_append_dropWhile.symm,
    fun _ hc => inert_of_isSpace (List.mem_takeWhile_imp hc)⟩

/-! ## Values -/

/-- The text read takes the scanner from one depth outside strings to another. -/
def Consumes (a b : Int) (s r : List Char) : Prop :=
  ∃ read, s = read ++ r ∧ ∀ e, scanText (.outside (e + a)) read = .outside (e + b)

theorem Consumes.trans {b c : Int} {t : List Char} (h : Consumes a b s r) (h' : Consumes b c r t) :
    Consumes a c s t := by
  obtain ⟨read, rfl, hread⟩ := h
  obtain ⟨read', rfl, hread'⟩ := h'
  refine ⟨read ++ read', by rw [List.append_assoc], fun e => ?_⟩
  rw [scanText_append, hread, hread']

theorem consumes_inert {read : List Char} (h : ∀ c ∈ read, Inert c) : Consumes a a (read ++ r) r :=
  ⟨read, rfl, fun _ => scanText_outside_inert h _⟩

theorem consumes_skipSpace (a : Int) (s : List Char) : Consumes a a s (skipSpace s) := by
  obtain ⟨sp, hs, hsp⟩ := exists_skipSpace s
  exact ⟨sp, hs, fun e => scanText_outside_inert hsp _⟩

/-- A character after some space. -/
theorem consumes_char {b : Int} {c : Char} (hs : skipSpace s = c :: r)
    (hc : ∀ e, scan (.outside (e + a)) c = .outside (e + b)) : Consumes a b s r := by
  refine (consumes_skipSpace a s).trans ?_
  rw [hs]
  exact ⟨[c], rfl, hc⟩

theorem scan_open (a e : Int) {c : Char} (hc : c = '{' ∨ c = '[') :
    scan (.outside (e + a)) c = .outside (e + (a + 1)) := by
  rcases hc with rfl | rfl <;> simp [scan, Int.add_assoc]

theorem scan_close (a e : Int) {c : Char} (hc : c = '}' ∨ c = ']') :
    scan (.outside (e + (a + 1))) c = .outside (e + a) := by
  have harith : e + (a + 1) - 1 = e + a := by omega
  rcases hc with rfl | rfl <;> simp [scan, harith]

theorem Scans.consumes_str {N S : Type} {d : Reader N S} (hd : Scans d) {r' : List Char} {k : S}
    (hs : skipSpace s = '"' :: r) (hread : d.readStr r = some (k, r')) : Consumes a a s r' := by
  obtain ⟨read, rfl, hclose⟩ := hd.str r k r' hread
  refine (consumes_skipSpace a s).trans ?_
  rw [hs]
  exact ⟨'"' :: read, rfl, fun e => hclose _⟩

section

variable {N S : Type} {d : Reader N S} (hd : Scans d)

include hd

theorem Scans.consumes_value {fuel : Nat}
    (ihitems : ∀ (a : Int) s vs r, readItems d fuel s = some (vs, r) → Consumes (a + 1) a s r)
    (ihmembers : ∀ (a : Int) s ms r, readMembers d fuel s = some (ms, r) → Consumes (a + 1) a s r)
    {v : JsonTree N S} (h : readValue d (fuel + 1) s = some (v, r)) : Consumes a a s r := by
  simp only [readValue] at h
  cases hs : skipSpace s with
  | nil => rw [hs] at h; exact absurd h (by simp)
  | cons ch tail =>
    rw [hs] at h
    simp only at h
    refine (consumes_skipSpace a s).trans ?_
    rw [hs]
    by_cases hn : ch = 'n'
    · rw [if_pos hn] at h
      split at h
      · obtain ⟨-, rfl⟩ := Prod.mk.inj (Option.some.inj h)
        rw [hn]
        exact show Consumes a a (['n', 'u', 'l', 'l'] ++ _) _ from consumes_inert inert_literals.1
      · exact absurd h (by simp)
    rw [if_neg hn] at h
    by_cases ht : ch = 't'
    · rw [if_pos ht] at h
      split at h
      · obtain ⟨-, rfl⟩ := Prod.mk.inj (Option.some.inj h)
        rw [ht]
        exact show Consumes a a (['t', 'r', 'u', 'e'] ++ _) _ from consumes_inert inert_literals.2.1
      · exact absurd h (by simp)
    rw [if_neg ht] at h
    by_cases hf : ch = 'f'
    · rw [if_pos hf] at h
      split at h
      · obtain ⟨-, rfl⟩ := Prod.mk.inj (Option.some.inj h)
        rw [hf]
        exact show Consumes a a (['f', 'a', 'l', 's', 'e'] ++ _) _ from consumes_inert inert_literals.2.2
      · exact absurd h (by simp)
    rw [if_neg hf] at h
    by_cases hq : ch = '"'
    · rw [if_pos hq] at h
      obtain ⟨⟨k, r'⟩, hstr, heq⟩ := Option.map_eq_some_iff.1 h
      obtain ⟨-, rfl⟩ := Prod.mk.inj heq
      obtain ⟨read, rfl, hclose⟩ := hd.str tail k r' hstr
      rw [hq]
      exact ⟨'"' :: read, rfl, fun e => hclose _⟩
    rw [if_neg hq] at h
    by_cases hb : ch = '['
    · rw [if_pos hb] at h
      have hopen : Consumes a (a + 1) (ch :: tail) tail :=
        ⟨[ch], rfl, fun e => scan_open a e (Or.inr hb)⟩
      refine hopen.trans ?_
      split at h
      · next hclose =>
          obtain ⟨-, rfl⟩ := Prod.mk.inj (Option.some.inj h)
          exact consumes_char hclose (fun e => scan_close a e (Or.inr rfl))
      · obtain ⟨⟨vs, r'⟩, hitems, heq⟩ := Option.map_eq_some_iff.1 h
        obtain ⟨-, rfl⟩ := Prod.mk.inj heq
        exact (consumes_skipSpace _ tail).trans (ihitems a _ vs r' hitems)
    rw [if_neg hb] at h
    by_cases hc : ch = '{'
    · rw [if_pos hc] at h
      have hopen : Consumes a (a + 1) (ch :: tail) tail :=
        ⟨[ch], rfl, fun e => scan_open a e (Or.inl hc)⟩
      refine hopen.trans ?_
      split at h
      · next hclose =>
          obtain ⟨-, rfl⟩ := Prod.mk.inj (Option.some.inj h)
          exact consumes_char hclose (fun e => scan_close a e (Or.inl rfl))
      · obtain ⟨⟨ms, r'⟩, hmembers, heq⟩ := Option.map_eq_some_iff.1 h
        obtain ⟨-, rfl⟩ := Prod.mk.inj heq
        exact (consumes_skipSpace _ tail).trans (ihmembers a _ ms r' hmembers)
    rw [if_neg hc] at h
    obtain ⟨⟨n, r'⟩, hnum, heq⟩ := Option.map_eq_some_iff.1 h
    obtain ⟨-, rfl⟩ := Prod.mk.inj heq
    obtain ⟨read, hread, hinert⟩ := hd.num _ n r' hnum
    rw [hread]
    exact consumes_inert hinert

omit hd in
theorem consumes_items {fuel : Nat}
    (ihvalue : ∀ (a : Int) s v r, readValue d fuel s = some (v, r) → Consumes a a s r)
    (ihitems : ∀ (a : Int) s vs r, readItems d fuel s = some (vs, r) → Consumes (a + 1) a s r)
    {vs : List (JsonTree N S)} (h : readItems d (fuel + 1) s = some (vs, r)) :
    Consumes (a + 1) a s r := by
  simp only [readItems] at h
  cases hvalue : readValue d fuel s with
  | none => rw [hvalue] at h; exact absurd h (by simp)
  | some read =>
    obtain ⟨v, r'⟩ := read
    rw [hvalue] at h
    simp only at h
    refine (ihvalue (a + 1) s v r' hvalue).trans ?_
    split at h
    · next hclose =>
        obtain ⟨-, rfl⟩ := Prod.mk.inj (Option.some.inj h)
        exact consumes_char hclose (fun e => scan_close a e (Or.inr rfl))
    · next hcomma =>
        obtain ⟨⟨vs', r''⟩, hitems, heq⟩ := Option.map_eq_some_iff.1 h
        obtain ⟨-, rfl⟩ := Prod.mk.inj heq
        exact (consumes_char hcomma (fun e => rfl)).trans (ihitems a _ vs' r'' hitems)
    · exact absurd h (by simp)

theorem Scans.consumes_members {fuel : Nat}
    (ihvalue : ∀ (a : Int) s v r, readValue d fuel s = some (v, r) → Consumes a a s r)
    (ihmembers : ∀ (a : Int) s ms r, readMembers d fuel s = some (ms, r) → Consumes (a + 1) a s r)
    {ms : List (S × JsonTree N S)} (h : readMembers d (fuel + 1) s = some (ms, r)) :
    Consumes (a + 1) a s r := by
  simp only [readMembers] at h
  split at h
  · next tail hquote =>
      cases hstr : d.readStr tail with
      | none => rw [hstr] at h; exact absurd h (by simp)
      | some read =>
        obtain ⟨k, r'⟩ := read
        rw [hstr] at h
        simp only at h
        refine (hd.consumes_str hquote hstr).trans ?_
        split at h
        · next tail' hcolon =>
            refine (consumes_char hcolon (fun e => rfl)).trans ?_
            cases hvalue : readValue d fuel tail' with
            | none => rw [hvalue] at h; exact absurd h (by simp)
            | some read =>
              obtain ⟨v, r''⟩ := read
              rw [hvalue] at h
              simp only at h
              refine (ihvalue (a + 1) _ v r'' hvalue).trans ?_
              split at h
              · next hclose =>
                  obtain ⟨-, rfl⟩ := Prod.mk.inj (Option.some.inj h)
                  exact consumes_char hclose (fun e => scan_close a e (Or.inl rfl))
              · next hcomma =>
                  obtain ⟨⟨ms', r3⟩, hmembers, heq⟩ := Option.map_eq_some_iff.1 h
                  obtain ⟨-, rfl⟩ := Prod.mk.inj heq
                  exact (consumes_char hcomma (fun e => rfl)).trans
                    (ihmembers a _ ms' r3 hmembers)
              · exact absurd h (by simp)
        · exact absurd h (by simp)
  · exact absurd h (by simp)

/-- What reading a value, items or members consumes, by the fuel they share. -/
theorem Scans.consumes (fuel : Nat) :
    (∀ (a : Int) s v r, readValue d fuel s = some (v, r) → Consumes a a s r)
      ∧ (∀ (a : Int) s vs r, readItems d fuel s = some (vs, r) → Consumes (a + 1) a s r)
      ∧ ∀ (a : Int) s ms r, readMembers d fuel s = some (ms, r) → Consumes (a + 1) a s r := by
  induction fuel with
  | zero => simp [readValue, readItems, readMembers]
  | succ fuel ih =>
    obtain ⟨ihvalue, ihitems, ihmembers⟩ := ih
    exact ⟨fun a s v r h => hd.consumes_value ihitems ihmembers h,
      fun a s vs r h => consumes_items ihvalue ihitems h,
      fun a s ms r h => hd.consumes_members ihvalue ihmembers h⟩

/-- **A text that is read closes what it opens.** -/
theorem Scans.scanText_of_read {text : List Char} {v : JsonTree N S}
    (h : read d text = some v) : scanText (.outside 0) text = .outside 0 := by
  unfold read at h
  cases hvalue : readValue d text.length text with
  | none => rw [hvalue] at h; exact absurd h (by simp)
  | some pair =>
    obtain ⟨v', r⟩ := pair
    rw [hvalue] at h
    simp only at h
    split_ifs at h with hr
    obtain ⟨consumed, htext, hscan⟩ := (hd.consumes text.length).1 0 text v' r hvalue
    obtain ⟨sp, hspace, hinert⟩ := exists_skipSpace r
    rw [hr, List.append_nil] at hspace
    have h0 := hscan 0
    rw [htext, scanText_append]
    rw [show (0 : Int) + 0 = 0 from rfl] at h0
    rw [h0, hspace]
    exact scanText_outside_inert hinert 0

/-! ## A cut -/

omit hd in
theorem atLeast_inert {k : Int} {a : List Char} (h : ∀ c ∈ a, Inert c) {st : ScanState}
    (hst : AtLeast k st) (hbad : st ≠ .bad) :
    AtLeast k (scanText st a) ∧ scanText st a ≠ .bad := by
  induction a generalizing st with
  | nil => exact ⟨hst, hbad⟩
  | cons c a ih =>
    have hc := h c List.mem_cons_self
    have hrest : ∀ x ∈ a, Inert x := fun x hx => h x (List.mem_cons_of_mem _ hx)
    rw [scanText_cons]
    cases st with
    | outside e =>
      rw [scan_outside_inert hc]
      exact ih hrest hst hbad
    | inString e =>
      rw [scan, if_neg hc.1, if_neg hc.2.1]
      exact ih hrest hst (by simp)
    | escaped e =>
      rw [scan, if_neg hc.2.2.1]
      exact ih hrest hst (by simp)
    | bad => exact absurd rfl hbad

/-- **No reader accepts an object's text that was cut off**, whatever follows the cut, if it is
    not structure. -/
theorem Scans.read_cut {w : Writer N S} (hw : Scannable w) {members : List (S × JsonTree N S)}
    {pre post junk : List Char} (htext : write w (.obj members) = pre ++ post) (hpre : pre ≠ [])
    (hpost : post ≠ []) (hjunk : ∀ c ∈ junk, Inert c) : read d (pre ++ junk) = none := by
  cases hread : read d (pre ++ junk) with
  | none => rfl
  | some v =>
    exfalso
    have hend := hd.scanText_of_read hread
    rw [scanText_append] at hend
    have hopen := hw.atLeast_one htext hpre hpost
    have hbad : scanText (.outside 0) pre ≠ .bad := by
      intro hbad
      rw [hbad, scanText_bad] at hend
      exact absurd hend (by simp)
    have hlast := (atLeast_inert hjunk hopen hbad).1
    rw [hend] at hlast
    exact absurd hlast (by simp [AtLeast])

end

end JsonText
