import Fasten.GoFloat.Python
import Fasten.GoJson.Canonical

set_option autoImplicit false

/-! # A Go `detail` in Python

What `json.loads` makes of a map that Go encoded, and when Python's canonical JSON of that is the
text Go hashed (spec §1.3). -/

namespace Fasten.Go

open JsonText

/-! ## Reading maps -/

theorem map_tree_ofNumeral (t : Numeral) :
    (Json.ofNumeral t).map Json.tree = (pyToken t).map JsonTree.num := by
  unfold pyToken Json.ofNumeral
  cases parseNumber t.text with
  | none => rfl
  | some d =>
    rw [Option.bind_some]
    by_cases hfloat : '.' ∈ t.text ∨ 'e' ∈ t.text ∨ 'E' ∈ t.text
    · rw [if_pos hfloat]
      cases d.toFloat64 <;> rfl
    · rw [if_neg hfloat]
      rfl

/-- Maps are read member by member: their keys are distinct. -/
theorem map_tree_ofTree {t : JsonTree Numeral String} (h : t.keyed = true) :
    (Json.ofTree t).map Json.tree = t.traverse pyToken := by
  induction t using JsonTree.ind with
  | null | bool => rfl
  | num n => exact map_tree_ofNumeral n
  | str s => rfl
  | arr items ih =>
    rw [JsonTree.keyed, JsonTree.keyedItems_iff] at h
    have hitems : (ofTreeItems items).map treeItems = JsonTree.traverseItems pyToken items := by
      induction items with
      | nil => rfl
      | cons v rest ihrest =>
        rw [List.forall_mem_cons] at h ih
        rw [ofTreeItems, JsonTree.traverseItems, ← ihrest ih.2 h.2, ← ih.1 h.1]
        cases Json.ofTree v <;> cases ofTreeItems rest <;> rfl
    rw [Json.ofTree, JsonTree.traverse, ← hitems]
    cases ofTreeItems items <;> rfl
  | obj members ih =>
    rw [JsonTree.keyed, Bool.and_eq_true, JsonTree.keyedMembers_iff, decide_eq_true_eq] at h
    obtain ⟨hsorted, hkeyed⟩ := h
    have hmembers : (ofTreeMembers members).map treeMembers
          = JsonTree.traverseMembers pyToken members
        ∧ ∀ ms, ofTreeMembers members = some ms → Dict.keys ms = members.map Prod.fst := by
      clear hsorted
      induction members with
      | nil => exact ⟨rfl, fun ms hms => by cases hms; rfl⟩
      | cons m rest ihrest =>
        obtain ⟨k, v⟩ := m
        rw [List.forall_mem_cons] at hkeyed ih
        obtain ⟨hrest, hkeys⟩ := ihrest ih.2 hkeyed.2
        refine ⟨?_, fun ms hms => ?_⟩
        · rw [ofTreeMembers, JsonTree.traverseMembers, ← hrest, ← ih.1 hkeyed.1]
          cases Json.ofTree v <;> cases ofTreeMembers rest <;> rfl
        · obtain ⟨v', ms', -, hms', rfl⟩ := Option.map₂_eq_some_iff.1 hms
          rw [Dict.keys_cons, hkeys ms' hms', List.map_cons]
    rw [Json.ofTree, JsonTree.traverse, ← hmembers.1, Option.map_map]
    cases hms : ofTreeMembers members with
    | none => rfl
    | some ms =>
      have hnodup : (Dict.keys ms).Nodup := by
        rw [hmembers.2 ms hms]
        exact hsorted.imp ne_of_lt
      simp only [Option.map_some, Function.comp_apply, Dict.update_nil_of_nodup hnodup,
        Json.tree]

/-- Maps are sorted already. -/
theorem sortKeys_of_keyed {v : Json} (h : v.tree.keyed = true) : v.sortKeys = v := by
  induction v using Json.ind with
  | null | bool | int | float | str => rfl
  | arr items ih =>
    rw [Json.tree, JsonTree.keyed, JsonTree.keyedItems_iff, treeItems_eq,
      List.forall_mem_map] at h
    rw [Json.sortKeys, sortKeysItems_eq, List.map_congr_left (fun v hv => ih v hv (h v hv)),
      List.map_id']
  | obj members ih =>
    rw [Json.tree, JsonTree.keyed, Bool.and_eq_true, JsonTree.keyedMembers_iff,
      decide_eq_true_eq, treeMembers_eq, List.map_map, List.forall_mem_map,
      List.pairwise_map] at h
    have hsame : ∀ m ∈ members, (fun m : String × Json => (m.1, m.2.sortKeys)) m = m :=
      fun m hm => Prod.ext rfl (ih m hm (h.2 m hm))
    have hsorted : members.Pairwise (fun a b => a.1 ≤ b.1) := h.1.imp le_of_lt
    rw [Json.sortKeys, sortKeysMembers_eq, List.map_congr_left hsame, List.map_id',
      hsorted.insertionSort_eq]

/-! ## Details -/

/-- The escapes of `json.Marshal`, as Python reads them. -/
def marshalEscapes : Escape pyReadChar where
  esc := goEscape true
  reads := fun c => (escapeOf_goEscape true c).reads
  head := fun c => (escapeOf_goEscape true c).head

theorem reads_marshal_python :
    Reads (textReader pyReadChar) (textWriter (goEscape true) []) id :=
  reads_textWriter marshalEscapes (by simp)

/-- A number that `redactDetail` leaves in a `detail`: a float64 that `json.Unmarshal` made, with
    its shortest digits, or the sizes of a marker. -/
def Num.IsSealed : Num → Prop
  | .float64 f => f.Shortest
  | .int64 _ => True
  | .number _ => False

def Num.SameInPython : Num → Prop
  | .float64 f => f.SameInPython
  | _ => True

theorem ofNumeral_intNumeral (n : Int) : Json.ofNumeral (Json.intNumeral n) = some (.int n) := by
  have hparse : parseNumber (Json.intNumeral n).text = some ⟨decide (n < 0), n.natAbs, 0⟩ :=
    parseNumber_intText n
  have hint : ¬('.' ∈ (Json.intNumeral n).text ∨ 'e' ∈ (Json.intNumeral n).text
      ∨ 'E' ∈ (Json.intNumeral n).text) := by
    have hnot : ∀ c ∈ intText n, c ≠ '.' ∧ c ≠ 'e' := fun _ => not_float_of_mem_intText
    have hE : 'E' ∉ intText n := fun h =>
      absurd (Fasten.isNumChar_of_mem_intText h) (by decide)
    rintro (h | h | h)
    · exact (hnot _ h).1 rfl
    · exact (hnot _ h).2 rfl
    · exact hE h
  have hval : (if decide (n < 0) = true then -(n.natAbs : Int) else n.natAbs) = n := by
    by_cases hn : n < 0
    · rw [if_pos (decide_eq_true hn)]
      omega
    · rw [if_neg (by simpa using hn)]
      omega
  rw [Json.ofNumeral, hparse, Option.bind_some, if_neg hint, hval]

theorem pyToken_intNumeral (n : Int) : pyToken (intNumeral n) = some (intNumeral n) := by
  have hnum : Json.ofNumeral (intNumeral n) = some (.int n) := ofNumeral_intNumeral n
  rw [pyToken, hnum, Option.bind_some]
  rfl

theorem Num.exists_pyToken {n : Num} (h : n.IsSealed) :
    ∃ t, pyToken n.numeral = some t ∧ (t = n.numeral ↔ n.SameInPython) := by
  cases n with
  | number t => exact absurd h id
  | float64 f => exact Go.exists_pyToken h
  | int64 n => exact ⟨_, pyToken_intNumeral n, iff_of_true rfl trivial⟩

/-- **What Python makes of a `detail`**: an object, with the tokens Go hashed exactly when each of its
    numbers is the same in Python. -/
theorem exists_jsonLoads_marshal (o : Object) (h : ∀ n ∈ o.value.nums, n.IsSealed) :
    ∃ d, jsonLoads (marshal (some o)) = some (.obj d)
      ∧ ((Json.obj d).sortKeys.tree = numerals o.value
        ↔ ∀ n ∈ o.value.nums, n.SameInPython) := by
  have hread : read (textReader pyReadChar) (marshal (some o)) = some (numerals o.value) := by
    rw [marshal, read_write reads_marshal_python, JsonTree.map_id_id]
  have hkeyed : (numerals o.value).keyed = true := (JsonTree.keyed_map _ _).trans o.keyed
  have hnums : (numerals o.value).nums = o.value.nums.map Num.numeral :=
    JsonTree.nums_map Num.numeral o.value
  obtain ⟨w, hw⟩ : ∃ w, (numerals o.value).traverse pyToken = some w := by
    have : Nonempty Numeral := ⟨(Num.int64 0).numeral⟩
    refine JsonTree.exists_traverse (fun t ht => ?_)
    rw [hnums] at ht
    obtain ⟨n, hn, rfl⟩ := List.mem_map.1 ht
    obtain ⟨t, ht, -⟩ := Num.exists_pyToken (h n hn)
    exact ⟨t, ht⟩
  obtain ⟨v, hv, rfl⟩ := Option.map_eq_some_iff.1 ((map_tree_ofTree hkeyed).trans hw)
  have hsorted : v.sortKeys = v := sortKeys_of_keyed (JsonTree.keyed_of_traverse hkeyed hw)
  have hload : jsonLoads (marshal (some o)) = some v := by rw [jsonLoads, hread, Option.bind_some, hv]
  obtain ⟨d, rfl⟩ : ∃ d, v = .obj d := by
    rw [numerals_value, Json.ofTree] at hv
    obtain ⟨ms, -, rfl⟩ := Option.map_eq_some_iff.1 hv
    exact ⟨_, rfl⟩
  refine ⟨d, hload, ?_⟩
  have hself : (Json.obj d).tree = numerals o.value
      ↔ (numerals o.value).traverse pyToken = some (numerals o.value) := by
    rw [hw, Option.some.injEq]
  rw [hsorted, hself, JsonTree.traverse_eq_some_self_iff, hnums, List.forall_mem_map]
  refine forall₂_congr (fun n hn => ?_)
  obtain ⟨t, ht, hsame⟩ := Num.exists_pyToken (h n hn)
  rw [ht, Option.some.injEq, hsame]

end Fasten.Go
