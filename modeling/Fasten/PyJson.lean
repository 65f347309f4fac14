import Fasten.CanonicalJson.RawDel
import Fasten.GoFloat.Tokens
import Fasten.GoJson
import Fasten.Lib.Dict

set_option autoImplicit false

/-! # Python's `json`

`float.__repr__`, and `json.loads`: a number without a point and without an exponent is an `int`,
any other one the nearest float, and the last of two equal keys counts. -/

namespace Fasten

open JsonText Go

/-! ## Floats -/

/-- The exponent, of two digits at least. -/
def exponentDigits (n : Nat) : List Char :=
  if n < 10 then '0' :: Nat.toDigits 10 n else Nat.toDigits 10 n

/-- `float_repr_style`: positional from `1e-4` up to `1e16`, with `.0` after a whole number. -/
def reprDigits (ds : List Char) (point : Int) : List Char :=
  if -4 < point ∧ point ≤ 16 then
    if (ds.length : Int) ≤ point then positional ds point ++ ['.', '0'] else positional ds point
  else
    ds.take 1 ++ (if ds.length ≤ 1 then [] else '.' :: ds.drop 1)
      ++ 'e' :: (if point - 1 < 0 then '-' else '+') :: exponentDigits (point - 1).natAbs

def reprText (f : Float64) : List Char :=
  let ds := Nat.toDigits 10 f.shortest.1
  signText f.neg
    ++ (if f.mant = 0 then ['0', '.', '0']
      else reprDigits ds ((ds.length : Int) + f.shortest.2))

theorem allDigits_exponentDigits (n : Nat) : AllDigits (exponentDigits n) := by
  unfold exponentDigits
  split_ifs
  · exact AllDigits.append (s := ['0']) (allDigits_zeros 1) (allDigits_toDigits n)
  · exact allDigits_toDigits n

theorem exponentDigits_ne_nil (n : Nat) : exponentDigits n ≠ [] := by
  unfold exponentDigits
  split_ifs
  · exact List.cons_ne_nil _ _
  · exact Nat.toDigits_ne_nil

theorem digitsVal_exponentDigits (n : Nat) : digitsVal (exponentDigits n) = n := by
  unfold exponentDigits
  split_ifs
  · exact (digitsVal_zeros_append 1 _).trans (digitsVal_toDigits n)
  · exact digitsVal_toDigits n

theorem isNumChar_of_mem_positional {ds : List Char} (hds : AllDigits ds) {point : Int} {c : Char}
    (h : c ∈ positional ds point) : Fasten.isNumChar c = true := by
  have hdigit : ∀ d ∈ ds, Fasten.isNumChar d = true := fun d hd => isNumChar_of_isDigit (hds d hd)
  unfold positional at h
  split_ifs at h
  · simp only [List.mem_cons, List.mem_append, List.mem_replicate] at h
    rcases h with rfl | rfl | ⟨-, rfl⟩ | h
    · decide
    · decide
    · decide
    · exact hdigit c h
  · simp only [List.mem_append, List.mem_replicate] at h
    rcases h with h | ⟨-, rfl⟩
    · exact hdigit c h
    · decide
  · simp only [List.mem_append, List.mem_cons] at h
    rcases h with h | rfl | h
    · exact hdigit c (List.mem_of_mem_take h)
    · decide
    · exact hdigit c (List.mem_of_mem_drop h)

theorem isNumChar_of_mem_reprDigits {ds : List Char} (hds : AllDigits ds) {point : Int} {c : Char}
    (h : c ∈ reprDigits ds point) : Fasten.isNumChar c = true := by
  have hdigit : ∀ d, d.isDigit = true → Fasten.isNumChar d = true := fun _ => isNumChar_of_isDigit
  unfold reprDigits at h
  by_cases hpos : -4 < point ∧ point ≤ 16
  · rw [if_pos hpos] at h
    split_ifs at h
    · rcases List.mem_append.1 h with h | h
      · exact isNumChar_of_mem_positional hds h
      · simp only [List.mem_cons, List.not_mem_nil, or_false] at h
        rcases h with rfl | rfl <;> decide
    · exact isNumChar_of_mem_positional hds h
  · rw [if_neg hpos] at h
    simp only [List.mem_append, List.mem_cons] at h
    rcases h with (h | h) | rfl | rfl | h
    · exact hdigit c (hds c (List.mem_of_mem_take h))
    · split_ifs at h
      · exact absurd h List.not_mem_nil
      · rcases List.mem_cons.1 h with rfl | h
        · decide
        · exact hdigit c (hds c (List.mem_of_mem_drop h))
    · decide
    · split_ifs <;> decide
    · exact hdigit c (allDigits_exponentDigits _ c h)

/-- A `repr` has a point or an exponent. -/
theorem floating_reprDigits (ds : List Char) (point : Int) :
    '.' ∈ reprDigits ds point ∨ 'e' ∈ reprDigits ds point := by
  unfold reprDigits
  by_cases hpos : -4 < point ∧ point ≤ 16
  · rw [if_pos hpos]
    split_ifs with hwhole
    · exact Or.inl (by simp)
    · refine Or.inl ?_
      rw [positional, if_neg hwhole]
      split_ifs <;> simp
  · rw [if_neg hpos]
    exact Or.inr (by simp)

/-- `float.__repr__`. -/
def floatRepr (f : Float64) : FloatRepr where
  text := reprText f
  numeric := fun c hc => by
    rcases List.mem_append.1 hc with hc | hc
    · unfold signText at hc
      split_ifs at hc
      · rw [List.mem_singleton.1 hc]
        decide
      · exact absurd hc List.not_mem_nil
    · split_ifs at hc
      · simp only [List.mem_cons, List.not_mem_nil, or_false] at hc
        rcases hc with rfl | rfl | rfl <;> decide
      · exact isNumChar_of_mem_reprDigits (allDigits_toDigits _) hc
  notInt := by
    have hbody : ∀ body : List Char, '.' ∈ body ∨ 'e' ∈ body →
        '.' ∈ signText f.neg ++ body ∨ 'e' ∈ signText f.neg ++ body :=
      fun body h => h.imp (List.mem_append_right _) (List.mem_append_right _)
    refine hbody _ ?_
    split_ifs
    · exact Or.inl (by decide)
    · exact floating_reprDigits _ _

/-! ## Strings -/

/-- `py_scanstring`; `none` is a `JSONDecodeError`. A surrogate on its own is a `str` that is not
    Unicode text, and no value here. -/
def pyReadChar : List Char → Option (Char × List Char) := readCharWith none

/-- A string reader that takes the escapes of every encoder. -/
def TakesEscapes (readChar : List Char → Option (Char × List Char)) : Prop :=
  ∀ (c : Char) (text : List Char), EscapeOf c text → ∀ r, readChar (text ++ r) = some (c, r)

theorem takesEscapes_readChar : TakesEscapes readChar := fun _ _ h => h.reads

theorem takesEscapes_pyReadChar : TakesEscapes pyReadChar := fun _ _ h => h.reads

theorem TakesEscapes.read_write {readChar : List Char → Option (Char × List Char)}
    (h : TakesEscapes readChar) {esc : Char → List Char} (hesc : ∀ c, EscapeOf c (esc c))
    {space : List Char} (hspace : ∀ c ∈ space, isSpace c = true) (t : JsonTree Numeral String) :
    read (textReader readChar) (write (textWriter esc space) t) = some t := by
  let escapes : Escape readChar := ⟨esc, fun c r => h c _ (hesc c) r, fun c => (hesc c).head⟩
  rw [JsonText.read_write (reads_textWriter escapes hspace), JsonTree.map_id_id]

/-! ## `json.loads` -/

/-- A number: `float` when it has a point or an exponent, or else `int`. One that is too large for
    a float64 is `inf` in Python, and no value here. -/
def Json.ofNumeral (t : Numeral) : Option Json :=
  (parseNumber t.text).bind (fun d =>
    if '.' ∈ t.text ∨ 'e' ∈ t.text ∨ 'E' ∈ t.text then
      d.toFloat64.map (fun f => .float (floatRepr f))
    else some (.int (if d.neg then -(d.coeff : Int) else d.coeff)))

/-- The token of a number. -/
def Json.token : Json → Option Numeral
  | .int n => some (Json.intNumeral n)
  | .float r => some r.numeral
  | _ => none

/-- The token Python writes for the number it reads. -/
def pyToken (t : Numeral) : Option Numeral := (Json.ofNumeral t).bind Json.token

mutual

def Json.ofTree : JsonTree Numeral String → Option Json
  | .null => some .null
  | .bool b => some (.bool b)
  | .num t => Json.ofNumeral t
  | .str s => some (.str s)
  | .arr items => (ofTreeItems items).map .arr
  | .obj members => (ofTreeMembers members).map (fun ms => .obj (Dict.update [] ms))

def ofTreeItems : List (JsonTree Numeral String) → Option (List Json)
  | [] => some []
  | v :: rest => Option.map₂ List.cons (Json.ofTree v) (ofTreeItems rest)

def ofTreeMembers : List (String × JsonTree Numeral String) → Option (List (String × Json))
  | [] => some []
  | (k, v) :: rest =>
    Option.map₂ (fun v rest => (k, v) :: rest) (Json.ofTree v) (ofTreeMembers rest)

end

/-- `json.loads`. -/
def jsonLoads (text : List Char) : Option Json :=
  (read (textReader pyReadChar) text).bind Json.ofTree

/-- `json.dumps` with its defaults. -/
def spacedAscii : DumpStyle := ⟨asciiEscape, [',', ' '], [':', ' ']⟩

/-! ## Values Python has -/

/-- The texts `float.__repr__` writes for finite floats: zero, or some digits and a point. -/
inductive IsRepr : List Char → Prop
  | zero (neg : Bool) : IsRepr (signText neg ++ ['0', '.', '0'])
  | digits (neg : Bool) {n : Nat} (hn : n ≠ 0) (point : Int) :
      IsRepr (signText neg ++ reprDigits (Nat.toDigits 10 n) point)

theorem isRepr_floatRepr {f : Float64} (h : f.Shortest) : IsRepr (floatRepr f).text := by
  by_cases hf : f.mant = 0
  · have htext : (floatRepr f).text = signText f.neg ++ ['0', '.', '0'] := by
      simp [floatRepr, reprText, hf]
    exact htext ▸ .zero f.neg
  · have htext : (floatRepr f).text = signText f.neg ++ reprDigits (Nat.toDigits 10 f.shortest.1)
        (((Nat.toDigits 10 f.shortest.1).length : Int) + f.shortest.2) := by
      simp [floatRepr, reprText, hf]
    exact htext ▸ .digits f.neg (h.digits_ne_zero hf) _

mutual

/-- Every `dict` has distinct keys, and every float is finite. -/
def Json.IsPython : Json → Prop
  | .float r => IsRepr r.text
  | .arr items => arePython items
  | .obj members => (Dict.keys members).Nodup ∧ membersArePython members
  | _ => True

def arePython : List Json → Prop
  | [] => True
  | v :: rest => v.IsPython ∧ arePython rest

def membersArePython : List (String × Json) → Prop
  | [] => True
  | (_, v) :: rest => v.IsPython ∧ membersArePython rest

end

theorem arePython_iff {items : List Json} : arePython items ↔ ∀ v ∈ items, v.IsPython := by
  induction items with
  | nil => simp [arePython]
  | cons v rest ih => rw [arePython, ih, List.forall_mem_cons]

theorem membersArePython_iff {members : List (String × Json)} :
    membersArePython members ↔ ∀ m ∈ members, m.2.IsPython := by
  induction members with
  | nil => simp [membersArePython]
  | cons m rest ih => rw [membersArePython, ih, List.forall_mem_cons]

/-! ## The tokens Python writes -/

theorem isSome_parseNumber_reprDigits (neg : Bool) {n : Nat} (hn : n ≠ 0) (point : Int) :
    (parseNumber (signText neg ++ reprDigits (Nat.toDigits 10 n) point)).isSome = true := by
  unfold reprDigits
  by_cases hpos : -4 < point ∧ point ≤ 16
  · rw [if_pos hpos]
    split_ifs with hwhole
    · have hparse := parseNumber_positional_whole neg hn hwhole (allDigits_zeros 1)
      exact Option.isSome_of_eq_some hparse
    · rw [parseNumber_positional_fraction neg hn (not_le.1 hwhole)]
      rfl
  · rw [if_neg hpos, parseNumber_exponent neg hn (exponentDigits_ne_nil _)
      (allDigits_exponentDigits _) (digitsVal_exponentDigits _)]
    rfl

theorem IsRepr.isSome_parseNumber {text : List Char} (h : IsRepr text) :
    (parseNumber text).isSome = true := by
  cases h with
  | zero neg => cases neg <;> decide
  | digits neg hn point => exact isSome_parseNumber_reprDigits neg hn point

theorem parseNumber_intText (n : Int) :
    parseNumber (intText n) = some ⟨decide (n < 0), n.natAbs, 0⟩ := by
  have hsign : intText n = signText (decide (n < 0)) ++ (Nat.toDigits 10 n.natAbs
      ++ (fractionText [] ++ [])) := by
    by_cases hn : n < 0 <;> simp [intText, signText, fractionText, hn]
  have hwhole : Whole (Nat.toDigits 10 n.natAbs) := by
    by_cases hn : n.natAbs = 0
    · rw [hn]
      exact whole_zero
    · exact whole_toDigits hn
  rw [hsign, parseNumber_parts _ hwhole (fun _ hc => absurd hc List.not_mem_nil) (by simp)]
  simp [parseExponent]

/-- **Every number Python writes is a JSON number.** -/
theorem Json.IsPython.validTokens {v : Json} (h : v.IsPython) :
    ∀ t ∈ v.tree.nums, (parseNumber t.text).isSome = true := by
  induction v using Json.ind with
  | null | bool | str => exact nofun
  | int n =>
    intro t ht
    rw [List.mem_singleton.1 ht]
    exact Option.isSome_of_eq_some (parseNumber_intText n)
  | float r =>
    intro t ht
    rw [List.mem_singleton.1 ht]
    exact IsRepr.isSome_parseNumber h
  | arr items ih =>
    intro t ht
    rw [Json.tree, JsonTree.nums, treeItems_eq, JsonTree.mem_numsItems] at ht
    obtain ⟨w, hw, ht⟩ := ht
    obtain ⟨v, hv, rfl⟩ := List.mem_map.1 hw
    exact ih v hv (arePython_iff.1 h v hv) t ht
  | obj members ih =>
    intro t ht
    rw [Json.tree, JsonTree.nums, treeMembers_eq, JsonTree.mem_numsMembers] at ht
    obtain ⟨w, hw, ht⟩ := ht
    obtain ⟨m, hm, rfl⟩ := List.mem_map.1 hw
    exact ih m hm (membersArePython_iff.1 h.2 m hm) t ht

/-! ## Dicts as maps -/

theorem sortKeysItems_eq (items : List Json) : sortKeysItems items = items.map Json.sortKeys := by
  induction items with
  | nil => rfl
  | cons v rest ih => rw [sortKeysItems, ih, List.map_cons]

theorem sortKeysMembers_eq (members : List (String × Json)) :
    sortKeysMembers members = members.map (fun m => (m.1, m.2.sortKeys)) := by
  induction members with
  | nil => rfl
  | cons m rest ih => rw [sortKeysMembers, ih, List.map_cons]

/-- **`sort_keys` orders dicts as decoding into maps does.** -/
theorem Json.IsPython.toMaps_tree {v : Json} (h : v.IsPython) :
    v.tree.toMaps = v.sortKeys.tree := by
  induction v using Json.ind with
  | null | bool | int | float | str => rfl
  | arr items ih =>
    rw [Json.tree, JsonTree.toMaps, Json.sortKeys, Json.tree, JsonTree.toMapsItems_eq,
      treeItems_eq, treeItems_eq, sortKeysItems_eq, List.map_map, List.map_map]
    exact congrArg JsonTree.arr
      (List.map_congr_left (fun v hv => ih v hv (arePython_iff.1 h v hv)))
  | obj members ih =>
    have hmembers : members.map (fun m => (m.1, m.2.tree.toMaps))
        = (sortKeysMembers members).map (fun m => (m.1, m.2.tree)) := by
      rw [sortKeysMembers_eq, List.map_map]
      exact List.map_congr_left
        (fun m hm => Prod.ext rfl (ih m hm (membersArePython_iff.1 h.2 m hm)))
    have hkeys : (((sortKeysMembers members).map (fun m => (m.1, m.2.tree))).map
        Prod.fst).Nodup := by
      rw [sortKeysMembers_eq, List.map_map, List.map_map]
      exact h.1
    rw [Json.tree, JsonTree.toMaps, Json.sortKeys, Json.tree, JsonTree.toMapsMembers_eq,
      treeMembers_eq, treeMembers_eq, List.map_map, Function.comp_def, hmembers,
      JsonTree.mapOf_eq_insertionSort hkeys]
    refine congrArg JsonTree.obj (List.map_insertionSort _ _ _ _ ?_).symm
    exact fun _ _ _ _ => Iff.rfl

end Fasten
