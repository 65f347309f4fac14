import Fasten.Redactor.Cards
import Mathlib.Data.String.Basic

set_option autoImplicit false

/-! # Redaction in Python

`Redactor` (`python/fasten/redact.py`) sends a value through fasten-core as JSON, or, when JSON cannot
carry it, walks it itself and sends the parts. The first way always ends in a redacted value or a
marker. The second one hands on the errors of the parts, returns tuples as they are, and checks
strings with the default redactor. -/

namespace Fasten.Secrets

open Rx JsonText JsonTree

/-! ## Values -/

/-- A key of a `dict`. -/
inductive PyKey where
  | str (s : String)
  /-- An `int`, `float`, `bool` or `None`, with the text that `json.dumps` makes of it. -/
  | scalar (text : String)
  /-- Any other hashable value, and an `int` that `json.dumps` refuses. -/
  | other (id : Nat)

def PyKey.isStr : PyKey → Bool
  | .str _ => true
  | _ => false

/-- The key is a string and matches. -/
def PyKey.matches (d : Dialect) (keyRe : Regex) : PyKey → Bool
  | .str s => keyRe.isMatch d true s.toList
  | _ => false

/-- A value to redact. -/
inductive PyValue (N : Type) where
  | none
  | bool (b : Bool)
  | num (n : N)
  | str (s : String)
  | list (items : List (PyValue N))
  | tuple (items : List (PyValue N))
  | dict (members : List (PyKey × PyValue N))
  /-- An object that `json` cannot encode. -/
  | object (id : Nat)

section

variable {N : Type}

/-- Induction with the items and the members at once. -/
theorem PyValue.ind {motive : PyValue N → Prop} (none : motive .none)
    (bool : ∀ b, motive (.bool b)) (num : ∀ n, motive (.num n)) (str : ∀ s, motive (.str s))
    (list : ∀ items, (∀ v ∈ items, motive v) → motive (.list items))
    (tuple : ∀ items, (∀ v ∈ items, motive v) → motive (.tuple items))
    (dict : ∀ members, (∀ m ∈ members, motive m.2) → motive (.dict members))
    (object : ∀ id, motive (.object id)) (v : PyValue N) : motive v :=
  @PyValue.rec N motive (fun items => ∀ v ∈ items, motive v)
    (fun members => ∀ m ∈ members, motive m.2) (fun m => motive m.2)
    none bool num str list tuple dict object
    nofun
    (fun _ _ hv hrest => List.forall_mem_cons.2 ⟨hv, hrest⟩)
    nofun
    (fun _ _ hm hrest => List.forall_mem_cons.2 ⟨hm, hrest⟩)
    (fun _ _ hv => hv) v

/-! ## Through JSON -/

/-- The key as `json.dumps` writes it; `none` is the `TypeError`. -/
def PyKey.jsonText : PyKey → Option String
  | .str s => some s
  | .scalar text => some text
  | .other _ => Option.none

section

variable (writes : N → Bool)

mutual

/-- `json.dumps`, as the value that its text stands for. `none` is the `TypeError`, or the
    `ValueError` for a number that is not written. -/
def PyValue.dumps : PyValue N → Option (JsonTree N String)
  | .none => some .null
  | .bool b => some (.bool b)
  | .num n => if writes n then some (.num n) else Option.none
  | .str s => some (.str s)
  | .list items => (dumpsItems items).map .arr
  | .tuple items => (dumpsItems items).map .arr
  | .dict members => (dumpsMembers members).map .obj
  | .object _ => Option.none

def dumpsItems : List (PyValue N) → Option (List (JsonTree N String))
  | [] => some []
  | v :: rest => Option.map₂ List.cons v.dumps (dumpsItems rest)

def dumpsMembers : List (PyKey × PyValue N) → Option (List (String × JsonTree N String))
  | [] => some []
  | (k, v) :: rest =>
    Option.map₂ List.cons (Option.map₂ Prod.mk k.jsonText v.dumps) (dumpsMembers rest)

end

end

mutual

/-- `json.loads`, from the value that the text stands for. -/
def PyValue.loads : JsonTree N String → PyValue N
  | .null => .none
  | .bool b => .bool b
  | .num n => .num n
  | .str s => .str s
  | .arr items => .list (loadsItems items)
  | .obj members => .dict (loadsMembers members)

def loadsItems : List (JsonTree N String) → List (PyValue N)
  | [] => []
  | v :: rest => PyValue.loads v :: loadsItems rest

def loadsMembers : List (String × JsonTree N String) → List (PyKey × PyValue N)
  | [] => []
  | (k, v) :: rest => (.str k, PyValue.loads v) :: loadsMembers rest

end

mutual

/-- How deep arrays and objects are nested. -/
def depth : JsonTree N String → Nat
  | .arr items => depthItems items + 1
  | .obj members => depthMembers members + 1
  | .null => 0
  | .bool _ => 0
  | .num _ => 0
  | .str _ => 0

def depthItems : List (JsonTree N String) → Nat
  | [] => 0
  | v :: rest => max (depth v) (depthItems rest)

def depthMembers : List (String × JsonTree N String) → Nat
  | [] => 0
  | (_, v) :: rest => max (depth v) (depthMembers rest)

end

/-- fasten-core as the library that is loaded, and Python's own regular expressions. -/
structure Runtime (N : Type) where
  /-- The tables of the core's regular expressions. -/
  core : Dialect
  /-- Those of Python's `re`. -/
  python : Dialect
  /-- Whether `json.dumps` writes the number: an `int` of more than 4300 digits it does not. -/
  writes : N → Bool
  /-- The number the core makes of one in the text; `none` when it refuses it, as it does `NaN`. -/
  number : N → Option N
  /-- How deep it reads. -/
  maxDepth : Nat
  /-- The bytes of the text of a value. -/
  textBytes : JsonTree N String → Nat
  /-- `_max_detail_bytes`. -/
  cap : Nat

/-- The arguments of `Redactor`. Of a value pattern `is_match` counts, and whether the core can
    compile it. The replacement is handed over as a C string, which a NUL would end. -/
structure Config where
  extraKeys : List String
  replacement : String
  extraVp : List ((List Char → Bool) × String)
  compiles : Bool
  noNul : '\x00' ∉ replacement.toList

namespace Config

variable (cfg : Config) (rt : Runtime N)

/-- `self._replacement`. -/
def replacement' : String :=
  if cfg.replacement = "" then defaultReplacement else cfg.replacement

/-- The core's redactor for the configuration. -/
def redactor : Redactor := Redactor.new cfg.extraKeys cfg.replacement' cfg.extraVp

/-- `isinstance(k, str) and self._key_re.search(k)`. -/
def keySearch (k : PyKey) : Bool := k.matches rt.python cfg.redactor.keyRe

/-- The value that the core reads from a text; of two equal keys the last one counts. -/
def coreReads (t : JsonTree N String) : Option (JsonTree N String) :=
  if depth t ≤ rt.maxDepth then (t.traverse rt.number).map JsonTree.toMaps else Option.none

/-- `json.loads(self._fast_redact_json(json.dumps(value)))`; `none` is any exception. -/
def fastRedact (t : JsonTree N String) : Option (PyValue N) :=
  if cfg.compiles then
    (coreReads rt t).map (fun t => PyValue.loads (cfg.redactor.redactValue rt.core t))
  else Option.none

/-- `_check_str_value`: `{"_": s}` through the default redactor. -/
def checkStrValue (s : String) : String :=
  match Redactor.default.redactValue rt.core (.obj [("_", .str s)] : JsonTree N String) with
  | .obj [(_, .str out)] => out
  | _ => s

mutual

/-- `_redact_native`; `none` is an exception. -/
def redactNative : PyValue N → Option (PyValue N)
  | .dict members =>
    if members.all (fun m => m.1.isStr) then
      (PyValue.dumps rt.writes (.dict members)).bind (cfg.fastRedact rt)
    else (nativeMembers members).map .dict
  | .list items => (nativeItems items).map .list
  | .str s => some (.str (checkStrValue rt s))
  | .none => some .none
  | .bool b => some (.bool b)
  | .num n => some (.num n)
  | .tuple items => some (.tuple items)
  | .object id => some (.object id)

def nativeItems : List (PyValue N) → Option (List (PyValue N))
  | [] => some []
  | v :: rest => Option.map₂ List.cons (redactNative v) (nativeItems rest)

def nativeMembers : List (PyKey × PyValue N) → Option (List (PyKey × PyValue N))
  | [] => some []
  | (k, v) :: rest =>
    let value := if cfg.keySearch rt k then some (.str cfg.replacement') else redactNative v
    Option.map₂ List.cons (value.map (Prod.mk k)) (nativeMembers rest)

end

/-- What `redact` ends in. -/
inductive Outcome (N : Type) where
  | raised
  /-- A truncation marker, or `<unredactable>`. -/
  | marker
  | value (v : PyValue N)

def nativeOutcome (v : PyValue N) : Outcome N :=
  match cfg.redactNative rt v with
  | Option.none => .raised
  | some w => .value w

/-- `isinstance(value, dict) and any(not isinstance(k, str) for k in value)`. -/
def hasOtherKey : PyValue N → Bool
  | .dict members => members.any (fun m => !m.1.isStr)
  | _ => false

/-- `redact`. -/
def redact (v : PyValue N) : Outcome N :=
  if hasOtherKey v then cfg.nativeOutcome rt v
  else
    match v.dumps rt.writes with
    | Option.none => cfg.nativeOutcome rt v
    | some t =>
      if rt.cap < rt.textBytes t then .marker
      else
        match cfg.fastRedact rt t with
        | Option.none => .marker
        | some w => .value w

/-! ## What may be left -/

/-- Nothing is left that the core would redact. -/
inductive Clean : PyValue N → Prop where
  | none : Clean .none
  | bool (b : Bool) : Clean (.bool b)
  | num (n : N) : Clean (.num n)
  | object (id : Nat) : Clean (.object id)
  | str {s : String} (h : cfg.redactor.checkValue rt.core s = Option.none) : Clean (.str s)
  | list {items : List (PyValue N)} (h : ∀ v ∈ items, Clean v) : Clean (.list items)
  | tuple {items : List (PyValue N)} (h : ∀ v ∈ items, Clean v) : Clean (.tuple items)
  | dict {members : List (PyKey × PyValue N)}
      (hkeys : ∀ m ∈ members, m.1.matches rt.core cfg.redactor.keyRe = true →
        m.2 = .str cfg.replacement')
      (h : ∀ m ∈ members, Clean m.2) : Clean (.dict members)

/-- `redact` has returned, and it is a marker or nothing is left. -/
def Safe : Outcome N → Prop
  | .raised => False
  | .marker => True
  | .value v => cfg.Clean rt v

/-- JSON can carry the value, and the core reads it. -/
def Carried (v : PyValue N) : Prop :=
  cfg.compiles = true ∧ ∃ t, v.dumps rt.writes = some t ∧ (coreReads rt t).isSome = true

/-- The values `_redact_native` can deal with. -/
inductive NativeOk : PyValue N → Prop where
  | none : NativeOk .none
  | bool (b : Bool) : NativeOk (.bool b)
  | num (n : N) : NativeOk (.num n)
  | object (id : Nat) : NativeOk (.object id)
  /-- only the built-in value patterns are looked for -/
  | str {s : String} (h : Redactor.default.checkValue rt.core s = Option.none →
      cfg.redactor.checkValue rt.core s = Option.none) : NativeOk (.str s)
  | list {items : List (PyValue N)} (h : ∀ v ∈ items, NativeOk v) : NativeOk (.list items)
  /-- a tuple is returned as it is -/
  | tuple {items : List (PyValue N)} (h : cfg.Clean rt (.tuple items)) : NativeOk (.tuple items)
  | carried {members : List (PyKey × PyValue N)} (hkeys : members.all (·.1.isStr) = true)
      (h : cfg.Carried rt (.dict members)) : NativeOk (.dict members)
  /-- a key that only the core would find has its replacement already -/
  | mixed {members : List (PyKey × PyValue N)} (hkeys : members.all (·.1.isStr) = false)
      (hfound : ∀ m ∈ members, cfg.keySearch rt m.1 = false →
        m.1.matches rt.core cfg.redactor.keyRe = true →
        ∃ s, m.2 = .str s ∧ (Redactor.default.checkValue rt.core s).getD s = cfg.replacement')
      (h : ∀ m ∈ members, cfg.keySearch rt m.1 = false → NativeOk m.2) : NativeOk (.dict members)

variable {cfg rt}

theorem redactor_replacement : cfg.redactor.replacement = cfg.replacement' := by
  have hne : cfg.replacement' ≠ "" := by
    rw [replacement']
    split_ifs with hempty
    · decide
    · exact hempty
  exact if_neg hne

/-! ### Through the core -/

theorem loadsItems_eq (items : List (JsonTree N String)) :
    loadsItems items = items.map PyValue.loads := by
  induction items with
  | nil => rfl
  | cons v rest ih => rw [loadsItems, ih, List.map_cons]

theorem loadsMembers_eq (members : List (String × JsonTree N String)) :
    loadsMembers members = members.map (fun m => (.str m.1, PyValue.loads m.2)) := by
  induction members with
  | nil => rfl
  | cons m rest ih => rw [loadsMembers, ih, List.map_cons]

/-- What comes back from the core is clean. -/
theorem clean_loads (htokens : cfg.redactor.TokensPass rt.core) (t : JsonTree N String) :
    cfg.Clean rt (PyValue.loads (cfg.redactor.redactValue rt.core t)) := by
  induction t using JsonTree.ind with
  | null => exact .none
  | bool b => exact .bool b
  | num n => exact .num n
  | str s => exact .str (htokens.checkValue_redactValue (N := N) (.str s) _ List.mem_cons_self)
  | arr items ih =>
    rw [Redactor.redactValue, PyValue.loads, loadsItems_eq, redactItems_eq, List.map_map]
    refine .list (fun v hv => ?_)
    obtain ⟨t, ht, rfl⟩ := List.mem_map.1 hv
    exact ih t ht
  | obj members ih =>
    rw [Redactor.redactValue, PyValue.loads, loadsMembers_eq, redactMembers_eq, List.map_map]
    refine .dict (fun m hm => ?_) (fun m hm => ?_)
    · obtain ⟨m, -, rfl⟩ := List.mem_map.1 hm
      intro hmatch
      dsimp only [Function.comp_apply, PyKey.matches] at hmatch ⊢
      rw [if_pos hmatch, redactor_replacement, PyValue.loads]
    · obtain ⟨m', hm', rfl⟩ := List.mem_map.1 hm
      dsimp only [Function.comp_apply]
      split_ifs
      · exact .str htokens.replacement
      · exact ih m' hm'

theorem fastRedact_cases (htokens : cfg.redactor.TokensPass rt.core) {t : JsonTree N String}
    {w : PyValue N} (h : cfg.fastRedact rt t = some w) : cfg.Clean rt w := by
  rw [fastRedact] at h
  split_ifs at h
  obtain ⟨t', -, rfl⟩ := Option.map_eq_some_iff.1 h
  exact clean_loads htokens t'

/-- `_check_str_value` is `check_value` of the default redactor. -/
theorem checkStrValue_eq (s : String) :
    checkStrValue rt s = (Redactor.default.checkValue rt.core s).getD s := by
  have hkey : Redactor.default.keyRe.isMatch rt.core true "_".toList = false := by
    have hlong : ∀ w ∈ keyWords ++ [], 1 < w.toList.length := by decide
    refine Bool.eq_false_iff.2 fun hmatch => ?_
    obtain ⟨w, hw, hoccurs⟩ := (@keyRe_isMatch_iff _ [] "_").1 hmatch
    exact absurd hoccurs.length_le (Nat.not_le.2 (hlong w hw))
  simp only [checkStrValue, Redactor.redactValue, Redactor.redactMembers, hkey]
  rfl

theorem clean_checkStrValue_iff (htokens : cfg.redactor.TokensPass rt.core) (s : String) :
    cfg.Clean rt (.str (checkStrValue rt s)) ↔
      (Redactor.default.checkValue rt.core s = Option.none →
        cfg.redactor.checkValue rt.core s = Option.none) := by
  rw [checkStrValue_eq]
  cases hs : Redactor.default.checkValue rt.core s with
  | none => exact ⟨fun h _ => by cases h; assumption, fun h => .str (h rfl)⟩
  | some token =>
    -- the built-in patterns come first in every configuration
    have htoken : cfg.redactor.checkValue rt.core s = some token := by
      rw [Redactor.checkValue] at hs ⊢
      split_ifs at hs ⊢
      · exact hs
      · rw [Redactor.default, List.find?_nil, Option.map_none, Option.or_none] at hs
        rw [hs, Option.some_or]
    exact ⟨fun _ h => (by cases h), fun _ => .str (htokens.token s token htoken)⟩

/-! ### The native walk -/

/-- A walk over a list, item by item, that may fail. -/
theorem exists_walk_iff {α β : Type} {f : α → Option β} {g : List α → Option (List β)}
    (hnil : g [] = some []) (hcons : ∀ a l, g (a :: l) = Option.map₂ List.cons (f a) (g l))
    {P : β → Prop} (l : List α) :
    (∃ ws, g l = some ws ∧ ∀ w ∈ ws, P w) ↔ ∀ a ∈ l, ∃ w, f a = some w ∧ P w := by
  induction l with
  | nil => simp [hnil]
  | cons a rest ih =>
    simp only [hcons, Option.map₂_eq_some_iff, List.forall_mem_cons, ← ih]
    constructor
    · rintro ⟨-, ⟨w, ws, hw, hws, rfl⟩, hall⟩
      rw [List.forall_mem_cons] at hall
      exact ⟨⟨w, hw, hall.1⟩, ws, hws, hall.2⟩
    · rintro ⟨⟨w, hw, hclean⟩, ws, hws, hall⟩
      exact ⟨w :: ws, ⟨w, ws, hw, hws, rfl⟩, List.forall_mem_cons.2 ⟨hclean, hall⟩⟩

theorem bind_fastRedact_iff (htokens : cfg.redactor.TokensPass rt.core) (v : PyValue N) :
    (∃ w, (v.dumps rt.writes).bind (cfg.fastRedact rt) = some w ∧ cfg.Clean rt w) ↔ cfg.Carried rt v := by
  constructor
  · rintro ⟨w, hw, -⟩
    obtain ⟨t, ht, hfast⟩ := Option.bind_eq_some_iff.1 hw
    rw [fastRedact] at hfast
    split_ifs at hfast with hcompiles
    obtain ⟨t', hreads, -⟩ := Option.map_eq_some_iff.1 hfast
    exact ⟨hcompiles, t, ht, by rw [hreads]; rfl⟩
  · rintro ⟨hcompiles, t, ht, hreads⟩
    obtain ⟨t', ht'⟩ := Option.isSome_iff_exists.1 hreads
    have hfast : cfg.fastRedact rt t
        = some (PyValue.loads (cfg.redactor.redactValue rt.core t')) := by
      rw [fastRedact, if_pos hcompiles, ht', Option.map_some]
    exact ⟨_, by rw [ht, Option.bind_some, hfast], clean_loads htokens t'⟩

/-- Only a string becomes a string. -/
theorem redactNative_eq_str {v : PyValue N} {r : String}
    (h : cfg.redactNative rt v = some (.str r)) :
    ∃ s, v = .str s ∧ (Redactor.default.checkValue rt.core s).getD s = r := by
  cases v with
  | str s =>
    rw [redactNative, checkStrValue_eq, Option.some.injEq, PyValue.str.injEq] at h
    exact ⟨s, rfl, h⟩
  | dict members =>
    rw [redactNative] at h
    split_ifs at h
    · obtain ⟨t, ht, hfast⟩ := Option.bind_eq_some_iff.1 h
      rw [PyValue.dumps] at ht
      obtain ⟨ms, -, rfl⟩ := Option.map_eq_some_iff.1 ht
      rw [fastRedact] at hfast
      split_ifs at hfast
      obtain ⟨t', hreads, heq⟩ := Option.map_eq_some_iff.1 hfast
      rw [coreReads] at hreads
      split_ifs at hreads
      obtain ⟨t₁, ht₁, rfl⟩ := Option.map_eq_some_iff.1 hreads
      rw [JsonTree.traverse] at ht₁
      obtain ⟨ms', -, rfl⟩ := Option.map_eq_some_iff.1 ht₁
      cases heq
    · obtain ⟨ws, -, hdict⟩ := Option.map_eq_some_iff.1 h
      cases hdict
  | list items =>
    rw [redactNative] at h
    obtain ⟨ws, -, hlist⟩ := Option.map_eq_some_iff.1 h
    cases hlist
  | none | bool b | num n | tuple items | object id =>
    rw [redactNative] at h
    cases h

/-- The value that a member of a `dict` with other keys gets. -/
def nativeValue (cfg : Config) (rt : Runtime N) (m : PyKey × PyValue N) : Option (PyValue N) :=
  if cfg.keySearch rt m.1 then some (.str cfg.replacement') else cfg.redactNative rt m.2

theorem nativeValue_clean_iff (htokens : cfg.redactor.TokensPass rt.core) {m : PyKey × PyValue N}
    (hm : (∃ w, cfg.redactNative rt m.2 = some w ∧ cfg.Clean rt w) ↔ cfg.NativeOk rt m.2) :
    (∃ w, cfg.nativeValue rt m = some w ∧
      (m.1.matches rt.core cfg.redactor.keyRe = true → w = .str cfg.replacement') ∧
      cfg.Clean rt w) ↔
    (cfg.keySearch rt m.1 = false → (m.1.matches rt.core cfg.redactor.keyRe = true →
        ∃ s, m.2 = .str s ∧ (Redactor.default.checkValue rt.core s).getD s = cfg.replacement') ∧
      cfg.NativeOk rt m.2) := by
  rw [nativeValue]
  split_ifs with hsearch
  · have hclean : cfg.Clean rt (.str cfg.replacement' : PyValue N) :=
      .str (redactor_replacement ▸ htokens.replacement)
    exact ⟨fun _ h => absurd (hsearch.symm.trans h) Bool.noConfusion,
      fun _ => ⟨_, rfl, fun _ => rfl, hclean⟩⟩
  · rw [Bool.not_eq_true] at hsearch
    constructor
    · rintro ⟨w, hw, hkey, hclean⟩ -
      exact ⟨fun hmatch => redactNative_eq_str (hkey hmatch ▸ hw), hm.1 ⟨w, hw, hclean⟩⟩
    · intro h
      obtain ⟨hfound, hok⟩ := h hsearch
      obtain ⟨w, hw, hclean⟩ := hm.2 hok
      refine ⟨w, hw, fun hmatch => ?_, hclean⟩
      obtain ⟨s, hs, hrep⟩ := hfound hmatch
      rw [hs, redactNative, checkStrValue_eq, hrep] at hw
      exact (Option.some.inj hw).symm

theorem redactNative_dict_iff (htokens : cfg.redactor.TokensPass rt.core)
    {members : List (PyKey × PyValue N)}
    (ih : ∀ m ∈ members, (∃ w, cfg.redactNative rt m.2 = some w ∧ cfg.Clean rt w) ↔
      cfg.NativeOk rt m.2) :
    (∃ w, cfg.redactNative rt (.dict members) = some w ∧ cfg.Clean rt w) ↔
      cfg.NativeOk rt (.dict members) := by
  rw [redactNative]
  split_ifs with hkeys
  · rw [bind_fastRedact_iff htokens]
    refine ⟨.carried hkeys, fun h => ?_⟩
    cases h with
    | carried _ h => exact h
    | mixed hother => exact absurd (hkeys.symm.trans hother) Bool.noConfusion
  · rw [Bool.not_eq_true] at hkeys
    have hwalk := exists_walk_iff (g := cfg.nativeMembers rt)
      (f := fun m => (cfg.nativeValue rt m).map (Prod.mk m.1))
      (P := fun m => (m.1.matches rt.core cfg.redactor.keyRe = true → m.2 = .str cfg.replacement')
        ∧ cfg.Clean rt m.2) (by rw [nativeMembers]) (fun m rest => by rw [nativeMembers]; rfl) members
    have hvalue : ∀ m ∈ members, (∃ w, (cfg.nativeValue rt m).map (Prod.mk m.1) = some w ∧
        (w.1.matches rt.core cfg.redactor.keyRe = true → w.2 = .str cfg.replacement') ∧
        cfg.Clean rt w.2) ↔ _ := fun m hm => by
      simp only [Option.map_eq_some_iff, exists_exists_and_eq_and]
      exact nativeValue_clean_iff htokens (ih m hm)
    constructor
    · rintro ⟨w, hw, hclean⟩
      obtain ⟨ws, hws, rfl⟩ := Option.map_eq_some_iff.1 hw
      cases hclean with
      | dict hkey hall =>
        have hok := hwalk.1 ⟨ws, hws, fun m hm => ⟨hkey m hm, hall m hm⟩⟩
        exact .mixed hkeys (fun m hm hsearch => ((hvalue m hm).1 (hok m hm) hsearch).1)
          (fun m hm hsearch => ((hvalue m hm).1 (hok m hm) hsearch).2)
    · intro h
      cases h with
      | carried hall => exact absurd (hall.symm.trans hkeys) Bool.noConfusion
      | mixed _ hfound hok =>
        obtain ⟨ws, hws, hclean⟩ := hwalk.2 (fun m hm => (hvalue m hm).2 (fun hsearch =>
          ⟨hfound m hm hsearch, hok m hm hsearch⟩))
        exact ⟨.dict ws, by rw [hws, Option.map_some],
          .dict (fun m hm => (hclean m hm).1) (fun m hm => (hclean m hm).2)⟩

/-- **What the native walk gets right.** -/
theorem redactNative_clean_iff (htokens : cfg.redactor.TokensPass rt.core) (v : PyValue N) :
    (∃ w, cfg.redactNative rt v = some w ∧ cfg.Clean rt w) ↔ cfg.NativeOk rt v := by
  induction v using PyValue.ind with
  | none => exact ⟨fun _ => .none, fun _ => ⟨_, by rw [redactNative], .none⟩⟩
  | bool b => exact ⟨fun _ => .bool b, fun _ => ⟨_, by rw [redactNative], .bool b⟩⟩
  | num n => exact ⟨fun _ => .num n, fun _ => ⟨_, by rw [redactNative], .num n⟩⟩
  | object id => exact ⟨fun _ => .object id, fun _ => ⟨_, by rw [redactNative], .object id⟩⟩
  | str s =>
    simp only [redactNative, Option.some.injEq, exists_eq_left', clean_checkStrValue_iff htokens]
    exact ⟨.str, fun h => by cases h; assumption⟩
  | tuple items _ =>
    simp only [redactNative, Option.some.injEq, exists_eq_left']
    exact ⟨.tuple, fun h => by cases h; assumption⟩
  | list items ih =>
    have hwalk := exists_walk_iff (g := cfg.nativeItems rt) (P := cfg.Clean rt)
      (by rw [nativeItems]) (fun v rest => by rw [nativeItems]) items
    rw [redactNative]
    constructor
    · rintro ⟨w, hw, hclean⟩
      obtain ⟨ws, hws, rfl⟩ := Option.map_eq_some_iff.1 hw
      cases hclean with
      | list hall => exact .list (fun v hv => (ih v hv).1 (hwalk.1 ⟨ws, hws, hall⟩ v hv))
    · rintro ⟨⟩
      rename_i hall
      obtain ⟨ws, hws, hclean⟩ := hwalk.2 (fun v hv => (ih v hv).2 (hall v hv))
      exact ⟨.list ws, by rw [hws, Option.map_some], .list hclean⟩
  | dict members ih => exact redactNative_dict_iff htokens ih

theorem nativeOutcome_safe_iff (htokens : cfg.redactor.TokensPass rt.core) (v : PyValue N) :
    cfg.Safe rt (cfg.nativeOutcome rt v) ↔ cfg.NativeOk rt v := by
  rw [← redactNative_clean_iff htokens, nativeOutcome]
  cases cfg.redactNative rt v with
  | none | some => simp [Safe]

/-- The value goes through JSON as a whole. -/
def WholeJson (rt : Runtime N) (v : PyValue N) : Prop :=
  hasOtherKey v = false ∧ (v.dumps rt.writes).isSome = true

/-- A runtime for texts in ASCII. A number is given by how many digits it has. -/
def asciiRuntime : Runtime Nat :=
  ⟨.ascii, .ascii, fun digits => decide (digits ≤ 4300), some, 128, fun _ => 0, 65536⟩

def defaultConfig : Config := ⟨[], "***", [], true, by decide⟩

end Config

end

end Fasten.Secrets
