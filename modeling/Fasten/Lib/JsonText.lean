import Mathlib.Data.List.TakeWhile
import Fasten.Lib.JsonTree
import Fasten.Lib.TextCodec

set_option autoImplicit false

/-! # JSON texts

The texts an encoder writes for JSON values, and a decoder. What an encoder does with numbers
and strings is a parameter: how it escapes, and which space it leaves after a comma or a colon. The
decoder reads any text that such an encoder writes, with the strings as its string decoder gives
them back. -/

namespace JsonText

/-- How an encoder writes numbers and strings. A string's body is what follows its opening quote,
    with the closing one. -/
structure Writer (N S : Type) where
  numText : N → List Char
  strBody : S → List Char
  space : List Char

/-- How a decoder reads a number, and a string after its opening quote. -/
structure Reader (N S : Type) where
  readNum : List Char → Option (N × List Char)
  readStr : List Char → Option (S × List Char)

variable {N S : Type}

/-! ## Writing -/

mutual

/-- The separator is written before every item but the first. -/
def write (w : Writer N S) : JsonTree N S → List Char
  | .null => ['n', 'u', 'l', 'l']
  | .bool true => ['t', 'r', 'u', 'e']
  | .bool false => ['f', 'a', 'l', 's', 'e']
  | .num n => w.numText n
  | .str s => '"' :: w.strBody s
  | .arr items => '[' :: writeItems w [] items
  | .obj members => '{' :: writeMembers w [] members

def writeItems (w : Writer N S) (sep : List Char) : List (JsonTree N S) → List Char
  | [] => [']']
  | v :: rest => sep ++ (write w v ++ writeItems w (',' :: w.space) rest)

def writeMembers (w : Writer N S) (sep : List Char) : List (S × JsonTree N S) → List Char
  | [] => ['}']
  | (k, v) :: rest =>
    sep ++ '"' :: (w.strBody k ++ ':' :: (w.space
      ++ (write w v ++ writeMembers w (',' :: w.space) rest)))

end

/-! ## The pieces of a text -/

/-- What is written for the structure of a value. -/
inductive Mark where
  | null | true | false | openArr | closeArr | openObj | closeObj | comma | colon

inductive Piece (N S : Type) where
  | mark (m : Mark)
  | num (n : N)
  | str (s : S)

def Mark.text (space : List Char) : Mark → List Char
  | .null => ['n', 'u', 'l', 'l']
  | .true => ['t', 'r', 'u', 'e']
  | .false => ['f', 'a', 'l', 's', 'e']
  | .openArr => ['[']
  | .closeArr => [']']
  | .openObj => ['{']
  | .closeObj => ['}']
  | .comma => ',' :: space
  | .colon => ':' :: space

def Writer.text (w : Writer N S) : Piece N S → List Char
  | .mark m => m.text w.space
  | .num n => w.numText n
  | .str s => '"' :: w.strBody s

mutual

/-- The pieces of a text, in their order. -/
def pieces : JsonTree N S → List (Piece N S)
  | .null => [.mark .null]
  | .bool true => [.mark .true]
  | .bool false => [.mark .false]
  | .num n => [.num n]
  | .str s => [.str s]
  | .arr items => .mark .openArr :: piecesItems [] items
  | .obj members => .mark .openObj :: piecesMembers [] members

def piecesItems (sep : List (Piece N S)) : List (JsonTree N S) → List (Piece N S)
  | [] => [.mark .closeArr]
  | v :: rest => sep ++ (pieces v ++ piecesItems [.mark .comma] rest)

def piecesMembers (sep : List (Piece N S)) : List (S × JsonTree N S) → List (Piece N S)
  | [] => [.mark .closeObj]
  | (k, v) :: rest =>
    sep ++ .str k :: .mark .colon :: (pieces v ++ piecesMembers [.mark .comma] rest)

end

section Pieces

variable (w : Writer N S)

mutual

/-- **A text is its pieces**, one after the other. -/
theorem write_eq_flatMap : ∀ v : JsonTree N S, write w v = (pieces v).flatMap w.text
  | .null => rfl
  | .bool true => rfl
  | .bool false => rfl
  | .num _ => (List.append_nil _).symm
  | .str _ => (List.append_nil _).symm
  | .arr items => congrArg (List.cons '[') (writeItems_eq_flatMap items [])
  | .obj members => congrArg (List.cons '{') (writeMembers_eq_flatMap members [])

theorem writeItems_eq_flatMap : ∀ (items : List (JsonTree N S)) (sep : List (Piece N S)),
    writeItems w (sep.flatMap w.text) items = (piecesItems sep items).flatMap w.text
  | [], sep => rfl
  | v :: rest, sep => by
    have hrest := writeItems_eq_flatMap rest [.mark .comma]
    rw [List.flatMap_singleton] at hrest
    rw [writeItems, piecesItems, List.flatMap_append, List.flatMap_append, ← hrest,
      write_eq_flatMap v]
    rfl

theorem writeMembers_eq_flatMap : ∀ (members : List (S × JsonTree N S)) (sep : List (Piece N S)),
    writeMembers w (sep.flatMap w.text) members = (piecesMembers sep members).flatMap w.text
  | [], sep => rfl
  | (k, v) :: rest, sep => by
    have hrest := writeMembers_eq_flatMap rest [.mark .comma]
    rw [List.flatMap_singleton] at hrest
    rw [writeMembers, piecesMembers, List.flatMap_append, List.flatMap_cons, List.flatMap_cons,
      List.flatMap_append, ← hrest, write_eq_flatMap v]
    rfl

end

end Pieces

/-- The characters of an object's text, other than the punctuation. -/
theorem mem_writeMembers {w : Writer N S} {c : Char}
    (hc : c ≠ '"' ∧ c ≠ ':' ∧ c ≠ ',' ∧ c ≠ '}' ∧ c ∉ w.space) {sep : List Char} (hsep : c ∉ sep)
    {members : List (S × JsonTree N S)} (h : c ∈ writeMembers w sep members) :
    ∃ m ∈ members, c ∈ w.strBody m.1 ∨ c ∈ write w m.2 := by
  induction members generalizing sep with
  | nil =>
    rw [writeMembers, List.mem_singleton] at h
    exact absurd h hc.2.2.2.1
  | cons m rest ih =>
    simp only [writeMembers, List.mem_append, List.mem_cons, hsep, hc.1, hc.2.1, hc.2.2.2.2,
      false_or] at h
    rcases h with h | h | h
    · exact ⟨m, List.mem_cons_self, Or.inl h⟩
    · exact ⟨m, List.mem_cons_self, Or.inr h⟩
    · have hcomma : c ∉ ',' :: w.space := by simp [hc.2.2.1, hc.2.2.2.2]
      obtain ⟨m', hm', hmem⟩ := ih hcomma h
      exact ⟨m', List.mem_cons_of_mem _ hm', hmem⟩

theorem mem_writeMembers_of_mem {w : Writer N S} {c : Char} (sep : List Char)
    {members : List (S × JsonTree N S)} {m : S × JsonTree N S} (hm : m ∈ members)
    (h : c ∈ w.strBody m.1 ∨ c ∈ write w m.2) : c ∈ writeMembers w sep members := by
  induction members generalizing sep with
  | nil => cases hm
  | cons m' rest ih =>
    rcases List.mem_cons.1 hm with rfl | hm
    · rcases h with h | h <;> simp [writeMembers, h]
    · simp [writeMembers, ih _ hm]

/-! ## Reading -/

def isSpace (c : Char) : Bool := c == ' ' || c == '\t' || c == '\n' || c == '\r'

def skipSpace (s : List Char) : List Char := s.dropWhile isSpace

mutual

/-- The value at the front of a text, and what follows it. The fuel bounds the depth and the number
    of items. -/
def readValue (d : Reader N S) : Nat → List Char → Option (JsonTree N S × List Char)
  | 0, _ => none
  | fuel + 1, s =>
    match skipSpace s with
    | [] => none
    | ch :: r =>
      if ch = 'n' then
        match r with
        | 'u' :: 'l' :: 'l' :: r => some (.null, r)
        | _ => none
      else if ch = 't' then
        match r with
        | 'r' :: 'u' :: 'e' :: r => some (.bool true, r)
        | _ => none
      else if ch = 'f' then
        match r with
        | 'a' :: 'l' :: 's' :: 'e' :: r => some (.bool false, r)
        | _ => none
      else if ch = '"' then (d.readStr r).map (fun read => (.str read.1, read.2))
      else if ch = '[' then
        match skipSpace r with
        | ']' :: r => some (.arr [], r)
        | r => (readItems d fuel r).map (fun read => (.arr read.1, read.2))
      else if ch = '{' then
        match skipSpace r with
        | '}' :: r => some (.obj [], r)
        | r => (readMembers d fuel r).map (fun read => (.obj read.1, read.2))
      else (d.readNum (ch :: r)).map (fun read => (.num read.1, read.2))

/-- The items up to the closing bracket; there is at least one. -/
def readItems (d : Reader N S) : Nat → List Char → Option (List (JsonTree N S) × List Char)
  | 0, _ => none
  | fuel + 1, s =>
    match readValue d fuel s with
    | none => none
    | some (v, r) =>
      match skipSpace r with
      | ']' :: r => some ([v], r)
      | ',' :: r => (readItems d fuel r).map (fun read => (v :: read.1, read.2))
      | _ => none

def readMembers (d : Reader N S) : Nat → List Char → Option (List (S × JsonTree N S) × List Char)
  | 0, _ => none
  | fuel + 1, s =>
    match skipSpace s with
    | '"' :: r =>
      match d.readStr r with
      | none => none
      | some (k, r) =>
        match skipSpace r with
        | ':' :: r =>
          match readValue d fuel r with
          | none => none
          | some (v, r) =>
            match skipSpace r with
            | '}' :: r => some ([(k, v)], r)
            | ',' :: r =>
              (readMembers d fuel r).map (fun read => ((k, v) :: read.1, read.2))
            | _ => none
        | _ => none
    | _ => none

end

/-- The value a whole text stands for. -/
def read (d : Reader N S) (s : List Char) : Option (JsonTree N S) :=
  match readValue d s.length s with
  | some (v, r) => if skipSpace r = [] then some v else none
  | none => none

/-! ## Reading what was written -/

/-- A character that can follow a number. -/
def isDelim (c : Char) : Bool := isSpace c || c == ',' || c == ']' || c == '}'

/-- Nothing but a number starts with such a character. -/
def startsNum (c : Char) : Bool :=
  !isDelim c && c != '"' && c != '[' && c != '{' && c != 'n' && c != 't' && c != 'f'

/-- The decoder reads the encoder's numbers back, and its strings as `norm` of what was written. -/
structure Reads (d : Reader N S) (w : Writer N S) (norm : S → S) : Prop where
  num : ∀ n r, TextCodec.StopsAt (fun ch => !isDelim ch) r → d.readNum (w.numText n ++ r) = some (n, r)
  numHead : ∀ n, ∃ ch rest, w.numText n = ch :: rest ∧ startsNum ch = true
  str : ∀ s r, d.readStr (w.strBody s ++ r) = some (norm s, r)
  space : ∀ ch ∈ w.space, isSpace ch = true

theorem skipSpace_cons_of_not {ch : Char} (h : isSpace ch = false) (r : List Char) :
    skipSpace (ch :: r) = ch :: r := by
  simp [skipSpace, h]

theorem skipSpace_append {sp : List Char} (h : ∀ ch ∈ sp, isSpace ch = true) (r : List Char) :
    skipSpace (sp ++ r) = skipSpace r :=
  List.dropWhile_append_of_pos h

theorem readValue_space (d : Reader N S) {sp : List Char} (h : ∀ ch ∈ sp, isSpace ch = true)
    (fuel : Nat) (r : List Char) : readValue d fuel (sp ++ r) = readValue d fuel r := by
  cases fuel with
  | zero => rfl
  | succ fuel => simp only [readValue, skipSpace_append h]

theorem readItems_space (d : Reader N S) {sp : List Char} (h : ∀ ch ∈ sp, isSpace ch = true)
    (fuel : Nat) (r : List Char) : readItems d fuel (sp ++ r) = readItems d fuel r := by
  cases fuel with
  | zero => rfl
  | succ fuel => simp only [readItems, readValue_space d h]

theorem readMembers_space (d : Reader N S) {sp : List Char} (h : ∀ ch ∈ sp, isSpace ch = true)
    (fuel : Nat) (r : List Char) : readMembers d fuel (sp ++ r) = readMembers d fuel r := by
  cases fuel with
  | zero => rfl
  | succ fuel => simp only [readMembers, skipSpace_append h]

section Reads

variable {d : Reader N S} {w : Writer N S} {norm : S → S}

/-- What a value's text starts with never ends the list the value stands in. -/
theorem Reads.write_head (h : Reads d w norm) (v : JsonTree N S) :
    ∃ ch rest, write w v = ch :: rest ∧ isDelim ch = false := by
  cases v with
  | null => exact ⟨'n', _, rfl, by decide⟩
  | bool b =>
    cases b with
    | true => exact ⟨'t', _, rfl, by decide⟩
    | false => exact ⟨'f', _, rfl, by decide⟩
  | num n =>
    obtain ⟨ch, rest, hn, hch⟩ := h.numHead n
    refine ⟨ch, rest, hn, ?_⟩
    simp only [startsNum, Bool.and_eq_true, Bool.not_eq_true'] at hch
    exact hch.1.1.1.1.1.1
  | str s => exact ⟨'"', _, rfl, by decide⟩
  | arr items => exact ⟨'[', _, rfl, by decide⟩
  | obj members => exact ⟨'{', _, rfl, by decide⟩

theorem readValue_num (h : Reads d w norm) (n : N) (fuel : Nat) (r : List Char)
    (hr : TextCodec.StopsAt (fun ch => !isDelim ch) r) :
    readValue d (fuel + 1) (w.numText n ++ r) = some (.num n, r) := by
  obtain ⟨ch, rest, hn, hch⟩ := h.numHead n
  have hread := h.num n r hr
  simp only [startsNum, Bool.and_eq_true, Bool.not_eq_true', bne_iff_ne, isDelim,
    Bool.or_eq_false_iff] at hch
  obtain ⟨⟨⟨⟨⟨⟨⟨⟨⟨hspace, _⟩, _⟩, _⟩, hquote⟩, hbracket⟩, hbrace⟩, hnull⟩, htrue⟩, hfalse⟩ := hch
  rw [hn, List.cons_append] at hread ⊢
  simp only [readValue, skipSpace_cons_of_not hspace, if_neg hquote, if_neg hbracket,
    if_neg hbrace, if_neg hnull, if_neg htrue, if_neg hfalse, hread, Option.map_some]

theorem writeItems_sep (w : Writer N S) (sep : List Char) (v : JsonTree N S) (rest : List (JsonTree N S)) :
    writeItems w sep (v :: rest) = sep ++ writeItems w [] (v :: rest) := by
  simp [writeItems]

theorem writeMembers_sep (w : Writer N S) (sep : List Char) (m : S × JsonTree N S)
    (rest : List (S × JsonTree N S)) :
    writeMembers w sep (m :: rest) = sep ++ writeMembers w [] (m :: rest) := by
  simp [writeMembers]

/-- The text of a list that is not empty does not start with what closes it. -/
theorem Reads.writeItems_head (h : Reads d w norm) (v : JsonTree N S) (rest : List (JsonTree N S)) :
    ∃ ch r, writeItems w [] (v :: rest) = ch :: r ∧ isDelim ch = false := by
  obtain ⟨ch, r, hhead, hch⟩ := h.write_head v
  refine ⟨ch, r ++ writeItems w (',' :: w.space) rest, ?_, hch⟩
  simp [writeItems, hhead]

theorem isSpace_of_isDelim {ch : Char} (h : isDelim ch = false) : isSpace ch = false := by
  simp only [isDelim, Bool.or_eq_false_iff] at h
  exact h.1.1.1

/-! ### One step of the decoder -/

theorem readValue_bracket (d : Reader N S) {ch : Char} (hch : isDelim ch = false) (fuel : Nat)
    (r : List Char) :
    readValue d (fuel + 1) ('[' :: ch :: r)
      = (readItems d fuel (ch :: r)).map (fun read => (.arr read.1, read.2)) := by
  have hne : ch ≠ ']' := by
    rintro rfl
    exact absurd hch (by decide)
  rw [readValue, skipSpace_cons_of_not (by decide)]
  simp only [Char.reduceEq, if_false, if_true, skipSpace_cons_of_not (isSpace_of_isDelim hch)]
  split
  · next heq => exact absurd (List.cons.inj heq).1 hne
  · rfl

theorem readValue_brace (d : Reader N S) (fuel : Nat) (r : List Char) :
    readValue d (fuel + 1) ('{' :: '"' :: r)
      = (readMembers d fuel ('"' :: r)).map (fun read => (.obj read.1, read.2)) := rfl

theorem readItems_last {fuel : Nat} {s r : List Char} {v : JsonTree N S}
    (h : readValue d fuel s = some (v, ']' :: r)) : readItems d (fuel + 1) s = some ([v], r) := by
  rw [readItems, h]
  rfl

theorem readItems_comma {fuel : Nat} {s r : List Char} {v : JsonTree N S}
    (h : readValue d fuel s = some (v, ',' :: r)) :
    readItems d (fuel + 1) s = (readItems d fuel r).map (fun read => (v :: read.1, read.2)) := by
  rw [readItems, h]
  rfl

theorem readMembers_last {fuel : Nat} {s s' r : List Char} {k : S} {v : JsonTree N S}
    (hk : d.readStr s = some (k, ':' :: s')) (hv : readValue d fuel s' = some (v, '}' :: r)) :
    readMembers d (fuel + 1) ('"' :: s) = some ([(k, v)], r) := by
  rw [readMembers, skipSpace_cons_of_not (by decide)]
  simp only [hk, skipSpace_cons_of_not (show isSpace ':' = false by decide), hv]
  rfl

theorem readMembers_comma {fuel : Nat} {s s' r : List Char} {k : S} {v : JsonTree N S}
    (hk : d.readStr s = some (k, ':' :: s')) (hv : readValue d fuel s' = some (v, ',' :: r)) :
    readMembers d (fuel + 1) ('"' :: s)
      = (readMembers d fuel r).map (fun read => ((k, v) :: read.1, read.2)) := by
  rw [readMembers, skipSpace_cons_of_not (by decide)]
  simp only [hk, skipSpace_cons_of_not (show isSpace ':' = false by decide), hv]
  rfl

/-! ### Whole texts -/

mutual

/-- **The decoder reads back what the encoder wrote**, whatever follows it. -/
theorem readValue_write (h : Reads d w norm) (v : JsonTree N S) (fuel : Nat) (r : List Char)
    (hfuel : (write w v).length ≤ fuel) (hr : TextCodec.StopsAt (fun ch => !isDelim ch) r) :
    readValue d fuel (write w v ++ r) = some (v.map id norm, r) := by
  obtain ⟨ch, rest, hhead, _⟩ := h.write_head v
  obtain ⟨fuel, rfl⟩ : ∃ f, fuel = f + 1 := by
    refine ⟨fuel - 1, ?_⟩
    rw [hhead, List.length_cons] at hfuel
    omega
  match v with
  | .null => rfl
  | .bool true => rfl
  | .bool false => rfl
  | .num n => exact readValue_num h n fuel r hr
  | .str s =>
    rw [write, List.cons_append, readValue, skipSpace_cons_of_not (by decide)]
    simp [h.str, JsonTree.map]
  | .arr [] => rfl
  | .arr (v :: rest) =>
    rw [write, List.length_cons] at hfuel
    have hread := readItems_write h (v :: rest) fuel r (by simp) (by omega)
    obtain ⟨ch, tail, hitems, hch⟩ := h.writeItems_head v rest
    rw [write, List.cons_append]
    rw [hitems, List.cons_append] at hread ⊢
    rw [readValue_bracket d hch, hread]
    rfl
  | .obj [] => rfl
  | .obj ((k, v) :: rest) =>
    rw [write, List.length_cons] at hfuel
    have hread := readMembers_write h ((k, v) :: rest) fuel r (by simp) (by omega)
    rw [write, List.cons_append]
    simp only [writeMembers, List.nil_append, List.cons_append] at hread ⊢
    rw [readValue_brace, hread]
    rfl

/-- The fuel that is left after a value is enough for the rest of the list, which is shorter by the
    value and the comma. -/
theorem readItems_write (h : Reads d w norm) (items : List (JsonTree N S)) (fuel : Nat) (r : List Char)
    (hne : items ≠ []) (hfuel : (writeItems w [] items).length ≤ fuel) :
    readItems d fuel (writeItems w [] items ++ r) = some (JsonTree.mapItems id norm items, r) := by
  match items with
  | [] => exact absurd rfl hne
  | v :: rest =>
    obtain ⟨ch, tail, hhead, _⟩ := h.write_head v
    have hlen : 0 < (write w v).length := by simp [hhead]
    simp only [writeItems, List.nil_append, List.append_assoc, List.length_append] at hfuel ⊢
    obtain ⟨fuel, rfl⟩ : ∃ f, fuel = f + 1 := ⟨fuel - 1, by omega⟩
    match rest with
    | [] =>
      simp only [writeItems, List.length_singleton] at hfuel
      exact readItems_last (readValue_write h v fuel (']' :: r) (by omega)
        (TextCodec.StopsAt.cons rfl _))
    | v' :: rest =>
      rw [writeItems_sep] at hfuel ⊢
      simp only [List.cons_append, List.append_assoc, List.length_cons, List.length_append]
        at hfuel ⊢
      rw [readItems_comma (readValue_write h v fuel _ (by omega) (TextCodec.StopsAt.cons rfl _)),
        readItems_space d h.space, readItems_write h (v' :: rest) fuel r (by simp) (by omega)]
      rfl

theorem readMembers_write (h : Reads d w norm) (members : List (S × JsonTree N S)) (fuel : Nat)
    (r : List Char) (hne : members ≠ []) (hfuel : (writeMembers w [] members).length ≤ fuel) :
    readMembers d fuel (writeMembers w [] members ++ r)
      = some (JsonTree.mapMembers id norm members, r) := by
  match members with
  | [] => exact absurd rfl hne
  | (k, v) :: rest =>
    simp only [writeMembers, List.nil_append, List.append_assoc, List.cons_append,
      List.length_append, List.length_cons] at hfuel ⊢
    obtain ⟨fuel, rfl⟩ : ∃ f, fuel = f + 1 := ⟨fuel - 1, by omega⟩
    match rest with
    | [] =>
      simp only [writeMembers, List.length_singleton] at hfuel
      have hvalue := readValue_write h v fuel ('}' :: r) (by omega) (TextCodec.StopsAt.cons rfl _)
      rw [← readValue_space d h.space] at hvalue
      exact readMembers_last (h.str k _) hvalue
    | m :: rest =>
      rw [writeMembers_sep] at hfuel ⊢
      simp only [List.cons_append, List.append_assoc, List.length_cons, List.length_append]
        at hfuel ⊢
      have hvalue := readValue_write h v fuel
        (',' :: (w.space ++ (writeMembers w [] (m :: rest) ++ r))) (by omega)
        (TextCodec.StopsAt.cons rfl _)
      rw [← readValue_space d h.space] at hvalue
      rw [readMembers_comma (h.str k _) hvalue, readMembers_space d h.space,
        readMembers_write h (m :: rest) fuel r (by simp) (by omega)]
      rfl

end

/-- **A written text stands for the value it was written for**, up to what the string decoder makes
    of the strings. -/
theorem read_write (h : Reads d w norm) (v : JsonTree N S) :
    read d (write w v) = some (v.map id norm) := by
  have hread := readValue_write h v (write w v).length [] le_rfl (fun ch hch => by simp at hch)
  rw [List.append_nil] at hread
  rw [read, hread]
  rfl

/-- Two encoders that one decoder reads write one text for equal values only. -/
theorem write_inj {w' : Writer N S} (h : Reads d w id) (h' : Reads d w' id) {v v' : JsonTree N S}
    (heq : write w v = write w' v') : v = v' := by
  have hread := read_write h v
  rw [heq, read_write h' v', JsonTree.map_id_id, JsonTree.map_id_id] at hread
  exact (Option.some.inj hread).symm

end Reads

/-! ## Numerals -/

def isNumChar (c : Char) : Bool :=
  c.isDigit || c == '-' || c == '+' || c == '.' || c == 'e' || c == 'E'

/-- The text of a number, whatever its value. -/
structure Numeral where
  text : List Char
  nonempty : text ≠ []
  numeric : ∀ c ∈ text, isNumChar c = true
  deriving DecidableEq

theorem Numeral.ext_text {a b : Numeral} (h : a.text = b.text) : a = b := by
  cases a
  cases b
  simpa using h

def readNumeral (s : List Char) : Option (Numeral × List Char) :=
  if h : s.takeWhile isNumChar ≠ [] then
    some (⟨s.takeWhile isNumChar, h, fun _ hc => List.mem_takeWhile_imp hc⟩, s.dropWhile isNumChar)
  else none

theorem startsNum_of_isNumChar {c : Char} (h : isNumChar c = true) : startsNum c = true := by
  have hne : ∀ d : Char, isNumChar d = false → c ≠ d := by
    intro d hd heq
    rw [heq, hd] at h
    exact absurd h (by decide)
  simp [startsNum, isDelim, isSpace, hne ' ' (by decide), hne '\t' (by decide),
    hne '\n' (by decide), hne '\r' (by decide), hne ',' (by decide), hne ']' (by decide),
    hne '}' (by decide), hne '"' (by decide), hne '[' (by decide), hne '{' (by decide),
    hne 'n' (by decide), hne 't' (by decide), hne 'f' (by decide)]

theorem readNumeral_append (t : Numeral) {r : List Char}
    (hr : TextCodec.StopsAt (fun ch => !isDelim ch) r) : readNumeral (t.text ++ r) = some (t, r) := by
  have hstop : TextCodec.StopsAt isNumChar r := by
    intro c hc
    by_contra hnum
    have hstart := startsNum_of_isNumChar (Bool.eq_true_of_not_eq_false hnum)
    have hdelim : (!isDelim c) = false := hr c hc
    simp only [startsNum, Bool.and_eq_true] at hstart
    rw [hstart.1.1.1.1.1.1] at hdelim
    exact absurd hdelim (by decide)
  have htake := TextCodec.takeWhile_append_of_stopsAt t.numeric hstop
  have hdrop : (t.text ++ r).dropWhile isNumChar = r := by
    have happ := List.takeWhile_append_dropWhile (p := isNumChar) (l := t.text ++ r)
    rw [htake] at happ
    exact List.append_cancel_left happ
  rw [readNumeral, dif_pos (by rw [htake]; exact t.nonempty), hdrop]
  exact congrArg (fun u => some (u, r)) (Numeral.ext_text htake)

/-! ## Strings by characters -/

/-- The characters up to the closing quote. -/
def readBody (readChar : List Char → Option (Char × List Char)) :
    Nat → List Char → Option (List Char × List Char)
  | 0, _ => none
  | _ + 1, '"' :: r => some ([], r)
  | fuel + 1, s =>
    match readChar s with
    | none => none
    | some (c, r) => (readBody readChar fuel r).map (fun read => (c :: read.1, read.2))

/-- An escape for every character. -/
structure Escape (readChar : List Char → Option (Char × List Char)) where
  esc : Char → List Char
  reads : ∀ c r, readChar (esc c ++ r) = some (c, r)
  head : ∀ c r, (esc c ++ r).head? ≠ some '"'

section Escapes

variable {readChar : List Char → Option (Char × List Char)}

theorem readBody_flatMap (e : Escape readChar) (s : List Char) (r : List Char) {fuel : Nat}
    (hfuel : s.length < fuel) :
    readBody readChar fuel (s.flatMap e.esc ++ '"' :: r) = some (s, r) := by
  induction s generalizing fuel with
  | nil =>
    obtain ⟨fuel, rfl⟩ : ∃ f, fuel = f + 1 := ⟨fuel - 1, by simp at hfuel; omega⟩
    rfl
  | cons c s ih =>
    simp only [List.length_cons] at hfuel
    obtain ⟨fuel, rfl⟩ : ∃ f, fuel = f + 1 := ⟨fuel - 1, by omega⟩
    rw [List.flatMap_cons, List.append_assoc]
    have hread := e.reads c (s.flatMap e.esc ++ '"' :: r)
    have hhead := e.head c (s.flatMap e.esc ++ '"' :: r)
    generalize e.esc c ++ (s.flatMap e.esc ++ '"' :: r) = text at hread hhead
    unfold readBody
    split
    · next heq => exact absurd heq (by omega)
    · next heq => exact absurd rfl hhead
    · next heq _ =>
        obtain rfl := Nat.succ.inj heq
        have hrest := ih (show s.length < fuel by omega)
        rw [hread]
        simp only [hrest, Option.map_some]

/-- Numerals, and strings character by character. -/
def textReader (readChar : List Char → Option (Char × List Char)) : Reader Numeral String where
  readNum := readNumeral
  readStr := fun s =>
    (readBody readChar s.length s).map (fun read => (String.ofList read.1, read.2))

def textWriter (esc : Char → List Char) (space : List Char) : Writer Numeral String where
  numText := Numeral.text
  strBody := fun s => s.toList.flatMap esc ++ ['"']
  space := space

theorem Escape.length_le (e : Escape readChar) (s : List Char) :
    s.length ≤ (s.flatMap e.esc).length := by
  induction s with
  | nil => exact Nat.zero_le _
  | cons c s ih =>
    have hne : e.esc c ≠ [] := by
      intro hnil
      have hhead := e.head c ['"']
      rw [hnil] at hhead
      exact hhead rfl
    have hpos := List.length_pos_iff.2 hne
    simp only [List.flatMap_cons, List.length_append, List.length_cons]
    omega

/-- **Any escapes will do**: the text reads back as the value. -/
theorem reads_textWriter (e : Escape readChar) {space : List Char}
    (hspace : ∀ ch ∈ space, isSpace ch = true) :
    Reads (textReader readChar) (textWriter e.esc space) id where
  num := fun t _ hr => readNumeral_append t hr
  numHead := fun t => by
    obtain ⟨text, hne, hnum⟩ := t
    cases text with
    | nil => exact absurd rfl hne
    | cons ch rest => exact ⟨ch, rest, rfl, startsNum_of_isNumChar (hnum ch List.mem_cons_self)⟩
  str := fun s r => by
    have hlen := e.length_le s.toList
    have hfuel : s.toList.length < (s.toList.flatMap e.esc ++ '"' :: r).length := by
      rw [List.length_append, List.length_cons]
      omega
    have hread := readBody_flatMap e s.toList r hfuel
    simp only [textReader, textWriter, List.append_assoc, List.cons_append, List.nil_append,
      hread, Option.map_some, String.ofList_toList, id]
  space := hspace

end Escapes

/-! ## Rewriting a text afterwards -/

/-- What encoders write outside strings. -/
def isPlain (c : Char) : Bool := ' ' ≤ c && c ≤ '~'

theorem isPlain_of_isNumChar {c : Char} (h : isNumChar c = true) : isPlain c = true := by
  simp only [isNumChar, Bool.or_eq_true, beq_iff_eq] at h
  rcases h with ((((h | rfl) | rfl) | rfl) | rfl) | rfl
  · simp only [Char.isDigit, Bool.and_eq_true, decide_eq_true_eq] at h
    simp only [isPlain, Bool.and_eq_true, decide_eq_true_eq, Char.le_def, UInt32.le_iff_toNat_le]
      at h ⊢
    exact ⟨le_trans (by decide) h.1, le_trans h.2 (by decide)⟩
  all_goals decide

theorem isPlain_mark {space : List Char} (hspace : ∀ c ∈ space, isPlain c = true) (m : Mark) :
    ∀ c ∈ m.text space, isPlain c = true := by
  cases m with
  | comma | colon => exact List.forall_mem_cons.2 ⟨by decide, hspace⟩
  | _ => simp [Mark.text, isPlain]

section Rewrite

variable {f : Char → List Char} (hf : ∀ c, isPlain c = true → f c = [c])

include hf

theorem flatMap_of_plain {s : List Char} (h : ∀ c ∈ s, isPlain c = true) : s.flatMap f = s := by
  induction s with
  | nil => rfl
  | cons c s ih =>
    rw [List.forall_mem_cons] at h
    rw [List.flatMap_cons, hf c h.1, ih h.2]
    rfl

/-- Rewriting the characters of a text is rewriting the escapes, when plain characters stay. -/
theorem flatMap_write (esc : Char → List Char) {space : List Char}
    (hspace : ∀ c ∈ space, isPlain c = true) (v : JsonTree Numeral String) :
    (write (textWriter esc space) v).flatMap f
      = write (textWriter (fun c => (esc c).flatMap f) space) v := by
  rw [write_eq_flatMap, write_eq_flatMap, List.flatMap_assoc]
  refine List.flatMap_congr fun p _ => ?_
  cases p with
  | mark m => exact flatMap_of_plain hf (isPlain_mark hspace m)
  | num t => exact flatMap_of_plain hf fun c hc => isPlain_of_isNumChar (t.numeric c hc)
  | str s => simp [Writer.text, textWriter, List.flatMap_assoc, hf '"' (by decide)]

end Rewrite

end JsonText
