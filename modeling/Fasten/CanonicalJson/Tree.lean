import Fasten.CanonicalJson.Tokens
import Fasten.Lib.JsonScan

set_option autoImplicit false

/-! # Python's JSON values as JSON trees

`json.dumps` writes a value as an encoder writes the tree of its tokens. -/

namespace Fasten

open JsonText TextCodec

/-- Induction with the items of an array and the members of an object at once. -/
theorem Json.ind {motive : Json → Prop} (null : motive .null) (bool : ∀ b, motive (.bool b))
    (int : ∀ n, motive (.int n)) (float : ∀ f, motive (.float f)) (str : ∀ s, motive (.str s))
    (arr : ∀ items, (∀ v ∈ items, motive v) → motive (.arr items))
    (obj : ∀ members, (∀ m ∈ members, motive m.2) → motive (.obj members)) (v : Json) : motive v :=
  @Json.rec motive (fun items => ∀ v ∈ items, motive v)
    (fun members => ∀ m ∈ members, motive m.2) (fun m => motive m.2)
    null bool int float str arr obj
    nofun
    (fun _ _ hv hrest => List.forall_mem_cons.2 ⟨hv, hrest⟩)
    nofun
    (fun _ _ hm hrest => List.forall_mem_cons.2 ⟨hm, hrest⟩)
    (fun _ _ hv => hv) v

/-! ## Tokens -/

theorem isNumChar_of_pyNumChar {c : Char} (h : Fasten.isNumChar c = true) :
    JsonText.isNumChar c = true := by
  simp only [Fasten.isNumChar, Bool.or_eq_true] at h
  simp only [JsonText.isNumChar, Bool.or_eq_true, h, true_or]

/-- `int.__repr__` as a token. -/
def Json.intNumeral (n : Int) : Numeral where
  text := intText n
  nonempty := intText_ne_nil n
  numeric := fun _ hc => isNumChar_of_pyNumChar (isNumChar_of_mem_intText hc)

def FloatRepr.numeral (f : FloatRepr) : Numeral where
  text := f.text
  nonempty := f.text_ne_nil
  numeric := fun c hc => isNumChar_of_pyNumChar (f.numeric c hc)

mutual

/-- The value with its numbers as the tokens `json.dumps` writes for them. -/
def Json.tree : Json → JsonTree Numeral String
  | .null => .null
  | .bool b => .bool b
  | .int n => .num (Json.intNumeral n)
  | .float f => .num f.numeral
  | .str s => .str s
  | .arr items => .arr (treeItems items)
  | .obj members => .obj (treeMembers members)

def treeItems : List Json → List (JsonTree Numeral String)
  | [] => []
  | v :: rest => v.tree :: treeItems rest

def treeMembers : List (String × Json) → List (String × JsonTree Numeral String)
  | [] => []
  | (k, v) :: rest => (k, v.tree) :: treeMembers rest

end

theorem treeItems_eq (items : List Json) : treeItems items = items.map Json.tree := by
  induction items with
  | nil => rfl
  | cons v rest ih => rw [treeItems, ih, List.map_cons]

theorem treeMembers_eq (members : List (String × Json)) :
    treeMembers members = members.map (fun m => (m.1, m.2.tree)) := by
  induction members with
  | nil => rfl
  | cons m rest ih => rw [treeMembers, ih, List.map_cons]

/-! ## Writing -/

/-- The encoder of a style that leaves `space` after a comma and after a colon. -/
def DumpStyle.writer (st : DumpStyle) (space : List Char) : JsonText.Writer Numeral String :=
  textWriter st.escape space

section Dumps

variable {st : DumpStyle} {space : List Char}

mutual

/-- **`json.dumps` is an encoder.** -/
theorem dumps_eq_write (hitem : st.itemSep = ',' :: space) (hkey : st.keySep = ':' :: space) :
    ∀ v : Json, dumps st v = write (st.writer space) v.tree
  | .null => rfl
  | .bool true => rfl
  | .bool false => rfl
  | .int n => rfl
  | .float f => rfl
  | .str s => rfl
  | .arr items => by
    rw [dumps, Json.tree, write, dumpsItems_eq_writeItems hitem hkey items]
  | .obj members => by
    rw [dumps, Json.tree, write, dumpsMembers_eq_writeMembers hitem hkey members]

theorem dumpsItems_eq_writeItems (hitem : st.itemSep = ',' :: space)
    (hkey : st.keySep = ':' :: space) : ∀ (items : List Json) (sep : List Char),
    dumpsItems st sep items = writeItems (st.writer space) sep (treeItems items)
  | [], sep => rfl
  | v :: rest, sep => by
    rw [dumpsItems, treeItems, writeItems, dumps_eq_write hitem hkey v,
      dumpsItems_eq_writeItems hitem hkey rest, hitem]
    rfl

theorem dumpsMembers_eq_writeMembers (hitem : st.itemSep = ',' :: space)
    (hkey : st.keySep = ':' :: space) : ∀ (members : List (String × Json)) (sep : List Char),
    dumpsMembers st sep members = writeMembers (st.writer space) sep (treeMembers members)
  | [], sep => rfl
  | (k, v) :: rest, sep => by
    rw [dumpsMembers, treeMembers, writeMembers, dumps_eq_write hitem hkey v,
      dumpsMembers_eq_writeMembers hitem hkey rest, hitem, hkey]
    simp [strText, DumpStyle.writer, textWriter]

end

end Dumps

/-! ## One value has one tree -/

theorem eq_of_map_eq {α β : Type} {f : α → β} {l l' : List α}
    (hf : ∀ a ∈ l, ∀ b, f a = f b → a = b) (h : l.map f = l'.map f) : l = l' := by
  induction l generalizing l' with
  | nil => exact (List.map_eq_nil_iff.1 h.symm).symm
  | cons a l ih =>
    obtain ⟨b, l', rfl, hb, hrest⟩ := List.map_eq_cons_iff.1 h.symm
    rw [List.forall_mem_cons] at hf
    rw [hf.1 b hb.symm, ih hf.2 hrest.symm]

theorem tree_inj {v : Json} : ∀ w : Json, v.tree = w.tree → v = w := by
  have hnum : ∀ {a b : Numeral}, JsonTree.num (S := String) a = .num b → a.text = b.text :=
    fun h => congrArg Numeral.text (JsonTree.num.inj h)
  induction v using Json.ind with
  | null => rintro ⟨⟩ h <;> first | rfl | cases h
  | bool b => rintro ⟨⟩ h <;> first | rw [JsonTree.bool.inj h] | cases h
  | str s => rintro ⟨⟩ h <;> first | rw [JsonTree.str.inj h] | cases h
  | int n =>
    intro w h
    cases w with
    | int m => rw [intText_inj (hnum h)]
    | float f => exact absurd (hnum h) (intText_ne_float n f)
    | _ => cases h
  | float f =>
    intro w h
    cases w with
    | int n => exact absurd (hnum h).symm (intText_ne_float n f)
    | float g => rw [FloatRepr.ext_text (hnum h)]
    | _ => cases h
  | arr items ih =>
    intro w h
    cases w with
    | arr items' =>
      have hitems := JsonTree.arr.inj h
      rw [treeItems_eq, treeItems_eq] at hitems
      rw [eq_of_map_eq ih hitems]
    | _ => cases h
  | obj members ih =>
    intro w h
    cases w with
    | obj members' =>
      have hmembers := JsonTree.obj.inj h
      rw [treeMembers_eq, treeMembers_eq] at hmembers
      have hinj : ∀ m ∈ members, ∀ m' : String × Json,
          (m.1, m.2.tree) = (m'.1, m'.2.tree) → m = m' := fun m hm m' heq =>
        Prod.ext (Prod.mk.inj heq).1 (ih m hm m'.2 (Prod.mk.inj heq).2)
      rw [eq_of_map_eq hinj hmembers]
    | _ => cases h

/-! ## Strings -/

mutual

/-- The strings in a value, keys included. -/
def Json.strings : Json → List String
  | .null => []
  | .bool _ => []
  | .int _ => []
  | .float _ => []
  | .str s => [s]
  | .arr items => stringsItems items
  | .obj members => stringsMembers members

def stringsItems : List Json → List String
  | [] => []
  | v :: rest => v.strings ++ stringsItems rest

def stringsMembers : List (String × Json) → List String
  | [] => []
  | (k, v) :: rest => k :: (v.strings ++ stringsMembers rest)

end

theorem mem_stringsMembers {s : String} {members : List (String × Json)} :
    s ∈ stringsMembers members ↔ ∃ m ∈ members, s = m.1 ∨ s ∈ m.2.strings := by
  induction members with
  | nil => simp [stringsMembers]
  | cons m rest ih =>
    obtain ⟨k, v⟩ := m
    simp only [stringsMembers, List.mem_cons, List.mem_append, ih, exists_eq_or_imp]
    rw [or_assoc]

mutual

theorem str_mem_pieces {s : String} : ∀ v : Json, .str s ∈ pieces v.tree ↔ s ∈ v.strings
  | .null => by simp [Json.tree, pieces, Json.strings]
  | .bool true => by simp [Json.tree, pieces, Json.strings]
  | .bool false => by simp [Json.tree, pieces, Json.strings]
  | .int _ => by simp [Json.tree, pieces, Json.strings]
  | .float _ => by simp [Json.tree, pieces, Json.strings]
  | .str _ => by simp [Json.tree, pieces, Json.strings]
  | .arr items => by simpa [Json.tree, pieces, Json.strings] using str_mem_piecesItems items []
  | .obj members => by
    simpa [Json.tree, pieces, Json.strings] using str_mem_piecesMembers members []

theorem str_mem_piecesItems {s : String} : ∀ (items : List Json) (sep : List Mark),
    .str s ∈ piecesItems (sep.map .mark) (treeItems items) ↔ s ∈ stringsItems items
  | [], sep => by simp [treeItems, piecesItems, stringsItems]
  | v :: rest, sep => by
    have hrest := str_mem_piecesItems (s := s) rest [.comma]
    simp_all [treeItems, piecesItems, stringsItems, str_mem_pieces v]

theorem str_mem_piecesMembers {s : String} : ∀ (members : List (String × Json)) (sep : List Mark),
    .str s ∈ piecesMembers (sep.map .mark) (treeMembers members) ↔ s ∈ stringsMembers members
  | [], sep => by simp [treeMembers, piecesMembers, stringsMembers]
  | (k, v) :: rest, sep => by
    have hrest := str_mem_piecesMembers (s := s) rest [.comma]
    simp_all [treeMembers, piecesMembers, stringsMembers, str_mem_pieces v]

end

end Fasten
