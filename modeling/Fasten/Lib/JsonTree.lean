import Mathlib.Data.List.Basic
import Mathlib.Data.List.Pairwise
import Mathlib.Tactic

set_option autoImplicit false

/-! # JSON values

A JSON value over any type of numbers and of strings, with the operations decoders are made of:
changing every number, which may fail, and making maps of objects, where the last of two equal keys
counts. A map is the list of its entries by key. -/

namespace JsonText

/-- A JSON value. The members of an object are in the order of the text. -/
inductive JsonTree (N S : Type) where
  | null
  | bool (b : Bool)
  | num (n : N)
  | str (s : S)
  | arr (items : List (JsonTree N S))
  | obj (members : List (S × JsonTree N S))

namespace JsonTree

variable {N N' N'' S S' : Type}

/-- Induction with the items of an array and the members of an object at once. -/
theorem ind {motive : JsonTree N S → Prop} (null : motive .null) (bool : ∀ b, motive (.bool b))
    (num : ∀ n, motive (.num n)) (str : ∀ s, motive (.str s))
    (arr : ∀ items, (∀ v ∈ items, motive v) → motive (.arr items))
    (obj : ∀ members, (∀ m ∈ members, motive m.2) → motive (.obj members)) (v : JsonTree N S) :
    motive v :=
  @JsonTree.rec N S motive (fun items => ∀ v ∈ items, motive v)
    (fun members => ∀ m ∈ members, motive m.2) (fun m => motive m.2)
    null bool num str arr obj
    nofun
    (fun _ _ hv hrest => List.forall_mem_cons.2 ⟨hv, hrest⟩)
    nofun
    (fun _ _ hm hrest => List.forall_mem_cons.2 ⟨hm, hrest⟩)
    (fun _ _ hv => hv) v

/-! ## Changing numbers and strings -/

mutual

def map (f : N → N') (g : S → S') : JsonTree N S → JsonTree N' S'
  | .null => .null
  | .bool b => .bool b
  | .num n => .num (f n)
  | .str s => .str (g s)
  | .arr items => .arr (mapItems f g items)
  | .obj members => .obj (mapMembers f g members)

def mapItems (f : N → N') (g : S → S') : List (JsonTree N S) → List (JsonTree N' S')
  | [] => []
  | v :: rest => v.map f g :: mapItems f g rest

def mapMembers (f : N → N') (g : S → S') : List (S × JsonTree N S) → List (S' × JsonTree N' S')
  | [] => []
  | (k, v) :: rest => (g k, v.map f g) :: mapMembers f g rest

end

theorem mapItems_eq (f : N → N') (g : S → S') (items : List (JsonTree N S)) :
    mapItems f g items = items.map (map f g) := by
  induction items with
  | nil => rfl
  | cons v rest ih => rw [mapItems, ih, List.map_cons]

theorem mapMembers_eq (f : N → N') (g : S → S') (members : List (S × JsonTree N S)) :
    mapMembers f g members = members.map (fun m => (g m.1, m.2.map f g)) := by
  induction members with
  | nil => rfl
  | cons m rest ih => rw [mapMembers, ih, List.map_cons]

@[simp] theorem map_id_id (v : JsonTree N S) : v.map id id = v := by
  induction v using ind with
  | null | bool | num | str => rfl
  | arr items ih =>
    rw [map, mapItems_eq, List.map_congr_left ih, List.map_id']
  | obj members ih =>
    have hsame : ∀ m ∈ members, (fun m => (id m.1, m.2.map id id)) m = m :=
      fun m hm => Prod.ext rfl (ih m hm)
    rw [map, mapMembers_eq, List.map_congr_left hsame, List.map_id']

theorem map_map {S'' : Type} (f' : N' → N'') (f : N → N') (g' : S' → S'') (g : S → S')
    (v : JsonTree N S) : (v.map f g).map f' g' = v.map (f' ∘ f) (g' ∘ g) := by
  induction v using ind with
  | null | bool | num | str => rfl
  | arr items ih =>
    rw [map, map, map, mapItems_eq, mapItems_eq, mapItems_eq, List.map_map]
    exact congrArg arr (List.map_congr_left ih)
  | obj members ih =>
    rw [map, map, map, mapMembers_eq, mapMembers_eq, mapMembers_eq, List.map_map]
    exact congrArg obj (List.map_congr_left fun m hm => Prod.ext rfl (ih m hm))

mutual

/-- Change every number; `none` when one of them cannot be. -/
def traverse (f : N → Option N') : JsonTree N S → Option (JsonTree N' S)
  | .null => some .null
  | .bool b => some (.bool b)
  | .num n => (f n).map .num
  | .str s => some (.str s)
  | .arr items => (traverseItems f items).map .arr
  | .obj members => (traverseMembers f members).map .obj

def traverseItems (f : N → Option N') : List (JsonTree N S) → Option (List (JsonTree N' S))
  | [] => some []
  | v :: rest => Option.map₂ List.cons (v.traverse f) (traverseItems f rest)

def traverseMembers (f : N → Option N') :
    List (S × JsonTree N S) → Option (List (S × JsonTree N' S))
  | [] => some []
  | (k, v) :: rest =>
    Option.map₂ (fun v rest => (k, v) :: rest) (v.traverse f) (traverseMembers f rest)

end

mutual

/-- The numbers of a value. -/
def nums : JsonTree N S → List N
  | .num n => [n]
  | .arr items => numsItems items
  | .obj members => numsMembers members
  | _ => []

def numsItems : List (JsonTree N S) → List N
  | [] => []
  | v :: rest => v.nums ++ numsItems rest

def numsMembers : List (S × JsonTree N S) → List N
  | [] => []
  | (_, v) :: rest => v.nums ++ numsMembers rest

end

theorem mem_numsItems {n : N} {items : List (JsonTree N S)} :
    n ∈ numsItems items ↔ ∃ v ∈ items, n ∈ v.nums := by
  induction items with
  | nil => simp [numsItems]
  | cons v rest ih => simp [numsItems, ih]

theorem mem_numsMembers {n : N} {members : List (S × JsonTree N S)} :
    n ∈ numsMembers members ↔ ∃ m ∈ members, n ∈ m.2.nums := by
  induction members with
  | nil => simp [numsMembers]
  | cons m rest ih =>
    obtain ⟨k, v⟩ := m
    simp [numsMembers, ih]

theorem nums_map (f : N → N') (v : JsonTree N S) : (v.map f id).nums = v.nums.map f := by
  induction v using ind with
  | null | bool | num | str => rfl
  | arr items ih =>
    rw [map, nums, nums]
    induction items with
    | nil => rfl
    | cons v rest ihrest =>
      rw [List.forall_mem_cons] at ih
      rw [mapItems, numsItems, numsItems, ih.1, ihrest ih.2, List.map_append]
  | obj members ih =>
    rw [map, nums, nums]
    induction members with
    | nil => rfl
    | cons m rest ihrest =>
      rw [List.forall_mem_cons] at ih
      rw [mapMembers, numsMembers, numsMembers, ih.1, ihrest ih.2, List.map_append]

variable {f : N → Option N'} {v : JsonTree N S}

theorem map_congr {f g : N → N'} (h : ∀ n ∈ v.nums, f n = g n) : v.map f id = v.map g id := by
  induction v using ind with
  | null | bool => rfl
  | num n => exact congrArg num (h n (List.mem_singleton_self n))
  | str s => rfl
  | arr items ih =>
    rw [map, map, mapItems_eq, mapItems_eq]
    refine congrArg arr (List.map_congr_left fun v hv => ih v hv fun n hn => h n ?_)
    exact mem_numsItems.2 ⟨v, hv, hn⟩
  | obj members ih =>
    rw [map, map, mapMembers_eq, mapMembers_eq]
    refine congrArg obj (List.map_congr_left fun m hm => Prod.ext rfl (ih m hm fun n hn => h n ?_))
    exact mem_numsMembers.2 ⟨m, hm, hn⟩

theorem map_eq_map_iff {f g : N → N'} : v.map f id = v.map g id ↔ ∀ n ∈ v.nums, f n = g n := by
  refine ⟨fun h => List.map_inj_left.1 ?_, map_congr⟩
  rw [← nums_map, h, nums_map]

/-- **What a change of numbers gives**: each number is the changed one. -/
theorem traverse_eq_some_iff :
    ∀ {w : JsonTree N' S}, v.traverse f = some w ↔ w.map some id = v.map f id := by
  induction v using ind with
  | null => intro w; cases w <;> simp [traverse, map]
  | bool | num | str => intro w; cases w <;> simp [traverse, map, eq_comm]
  | arr items ih =>
    have hitems : ∀ {ws}, traverseItems f items = some ws
        ↔ mapItems some id ws = mapItems f id items := by
      induction items with
      | nil => intro ws; cases ws <;> simp [traverseItems, mapItems]
      | cons v rest ihrest =>
        rw [List.forall_mem_cons] at ih
        intro ws
        cases ws <;> simp [traverseItems, mapItems, Option.map₂_eq_some_iff, ih.1, ihrest ih.2]
    intro w
    cases w <;> simp [traverse, map, hitems]
  | obj members ih =>
    have hmembers : ∀ {ws}, traverseMembers f members = some ws
        ↔ mapMembers some id ws = mapMembers f id members := by
      induction members with
      | nil => intro ws; cases ws <;> simp [traverseMembers, mapMembers]
      | cons m rest ihrest =>
        rw [List.forall_mem_cons] at ih
        intro ws
        rcases ws with - | ⟨⟨k, w⟩, ws⟩ <;>
          simp [traverseMembers, mapMembers, Option.map₂_eq_some_iff, ih.1, ihrest ih.2]
        tauto
    intro w
    cases w <;> simp [traverse, map, hmembers]

/-- A change that leaves every number as it is leaves the value as it is, and no other does. -/
theorem traverse_eq_some_self_iff {f : N → Option N} (v : JsonTree N S) :
    v.traverse f = some v ↔ ∀ n ∈ v.nums, f n = some n := by
  rw [traverse_eq_some_iff, map_eq_map_iff]
  exact forall₂_congr fun _ _ => eq_comm

/-- A change of numbers that did not fail has changed each of them. -/
theorem isSome_of_traverse {w : JsonTree N' S} (h : v.traverse f = some w) :
    ∀ n ∈ v.nums, (f n).isSome = true := by
  intro n hn
  have hnums : w.nums.map some = v.nums.map f := by
    rw [← nums_map, traverse_eq_some_iff.1 h, nums_map]
  obtain ⟨n', -, hn'⟩ := List.mem_map.1 (hnums ▸ List.mem_map_of_mem hn : f n ∈ w.nums.map some)
  rw [← hn']
  rfl

/-- A change of numbers that can all be changed does not fail. -/
theorem exists_traverse [Nonempty N'] (h : ∀ n ∈ v.nums, ∃ n', f n = some n') :
    ∃ w, v.traverse f = some w := by
  refine ⟨v.map (fun n => Classical.epsilon fun n' => f n = some n') id,
    traverse_eq_some_iff.2 ((map_map some _ id id v).trans (map_congr fun n hn => ?_))⟩
  exact (Classical.epsilon_spec (h n hn)).symm

/-- Changing numbers that could be changed is one change. -/
theorem traverse_map [Nonempty N'] (f : N → Option N') (g : N' → N'') (v : JsonTree N S) :
    (v.traverse f).map (fun w => w.map g id) = v.traverse (fun n => (f n).map g) := by
  cases hv : v.traverse f with
  | some w =>
    have hw := congrArg (map (Option.map g) id) (traverse_eq_some_iff.1 hv)
    rw [map_map, map_map] at hw
    exact (traverse_eq_some_iff.2 ((map_map some g id id w).trans hw)).symm
  | none =>
    refine (Option.eq_none_iff_forall_ne_some.2 fun w hw => ?_).symm
    have hall : ∀ n ∈ v.nums, ∃ n', f n = some n' := fun n hn =>
      Option.isSome_iff_exists.1 (by simpa using isSome_of_traverse hw n hn)
    obtain ⟨w', hw'⟩ := exists_traverse hall
    simp [hw'] at hv

/-! ## Objects as maps -/

section Maps

variable [LinearOrder S]

/-- Set a key of a map. -/
def putKey {α : Type} (k : S) (v : α) : List (S × α) → List (S × α)
  | [] => [(k, v)]
  | (k', v') :: rest =>
    if k < k' then (k, v) :: (k', v') :: rest
    else if k = k' then (k, v) :: rest
    else (k', v') :: putKey k v rest

/-- The map of a list of members: the last of two equal keys counts. -/
def mapOf {α : Type} (members : List (S × α)) : List (S × α) :=
  members.foldl (fun m e => putKey e.1 e.2 m) []

mutual

def toMaps : JsonTree N S → JsonTree N S
  | .null => .null
  | .bool b => .bool b
  | .num n => .num n
  | .str s => .str s
  | .arr items => .arr (toMapsItems items)
  | .obj members => .obj (mapOf (toMapsMembers members))

def toMapsItems : List (JsonTree N S) → List (JsonTree N S)
  | [] => []
  | v :: rest => v.toMaps :: toMapsItems rest

def toMapsMembers : List (S × JsonTree N S) → List (S × JsonTree N S)
  | [] => []
  | (k, v) :: rest => (k, v.toMaps) :: toMapsMembers rest

end

mutual

/-- Every object of the value is a map. -/
def keyed : JsonTree N S → Bool
  | .arr items => keyedItems items
  | .obj members => decide ((members.map Prod.fst).Pairwise (· < ·)) && keyedMembers members
  | _ => true

def keyedItems : List (JsonTree N S) → Bool
  | [] => true
  | v :: rest => v.keyed && keyedItems rest

def keyedMembers : List (S × JsonTree N S) → Bool
  | [] => true
  | (_, v) :: rest => v.keyed && keyedMembers rest

end

theorem keyedItems_iff {items : List (JsonTree N S)} :
    keyedItems items = true ↔ ∀ v ∈ items, v.keyed = true := by
  induction items with
  | nil => simp [keyedItems]
  | cons v rest ih => simp [keyedItems, ih]

theorem keyedMembers_iff {members : List (S × JsonTree N S)} :
    keyedMembers members = true ↔ ∀ m ∈ members, m.2.keyed = true := by
  induction members with
  | nil => simp [keyedMembers]
  | cons m rest ih =>
    obtain ⟨k, v⟩ := m
    simp only [keyedMembers, Bool.and_eq_true, ih, List.forall_mem_cons]

theorem toMapsItems_eq (items : List (JsonTree N S)) : toMapsItems items = items.map toMaps := by
  induction items with
  | nil => rfl
  | cons v rest ih => rw [toMapsItems, ih, List.map_cons]

theorem toMapsMembers_eq (members : List (S × JsonTree N S)) :
    toMapsMembers members = members.map (fun m => (m.1, m.2.toMaps)) := by
  induction members with
  | nil => rfl
  | cons m rest ih => rw [toMapsMembers, ih, List.map_cons]

variable {α : Type} {m members : List (S × α)}

theorem mem_putKey {k : S} {v : α} {e : S × α} (h : e ∈ putKey k v m) : e = (k, v) ∨ e ∈ m := by
  induction m with
  | nil => exact Or.inl (List.mem_singleton.1 h)
  | cons e' rest ih =>
    rw [putKey] at h
    split_ifs at h
    · exact List.mem_cons.1 h
    · exact (List.mem_cons.1 h).imp_right (List.mem_cons_of_mem _)
    · rcases List.mem_cons.1 h with h | h
      · exact Or.inr (h ▸ List.mem_cons_self)
      · exact (ih h).imp_right (List.mem_cons_of_mem _)

theorem pairwise_putKey (k : S) (v : α) (h : (m.map Prod.fst).Pairwise (· < ·)) :
    ((putKey k v m).map Prod.fst).Pairwise (· < ·) := by
  induction m with
  | nil => simp [putKey]
  | cons e rest ih =>
    rw [List.map_cons, List.pairwise_cons] at h
    rw [putKey]
    split_ifs with hlt heq
    · refine List.pairwise_cons.2 ⟨?_, List.pairwise_cons.2 h⟩
      refine List.forall_mem_cons.2 ⟨hlt, fun k' hk' => hlt.trans (h.1 k' hk')⟩
    · exact List.pairwise_cons.2 ⟨heq ▸ h.1, h.2⟩
    · refine List.pairwise_cons.2 ⟨fun k' hk' => ?_, ih h.2⟩
      obtain ⟨e', he', rfl⟩ := List.mem_map.1 hk'
      rcases mem_putKey he' with rfl | he'
      · exact lt_of_le_of_ne (not_lt.1 hlt) (Ne.symm heq)
      · exact h.1 _ (List.mem_map_of_mem he')

theorem putKey_of_forall_lt {k : S} (v : α) (h : ∀ e ∈ m, e.1 < k) :
    putKey k v m = m ++ [(k, v)] := by
  induction m with
  | nil => rfl
  | cons e rest ih =>
    have he := h e List.mem_cons_self
    rw [putKey, if_neg he.not_gt, if_neg he.ne', ih (fun e he => h e (List.mem_cons_of_mem _ he))]
    rfl

theorem mapOf_concat (members : List (S × α)) (e : S × α) :
    mapOf (members ++ [e]) = putKey e.1 e.2 (mapOf members) := by
  rw [mapOf, List.foldl_append]
  rfl

theorem pairwise_mapOf (members : List (S × α)) :
    ((mapOf members).map Prod.fst).Pairwise (· < ·) := by
  induction members using List.reverseRecOn with
  | nil => exact List.Pairwise.nil
  | append_singleton members e ih =>
    rw [mapOf_concat]
    exact pairwise_putKey _ _ ih

theorem mem_of_mem_mapOf {e : S × α} (h : e ∈ mapOf members) : e ∈ members := by
  induction members using List.reverseRecOn with
  | nil => exact h
  | append_singleton members e' ih =>
    rw [mapOf_concat] at h
    rcases mem_putKey h with h | h
    · exact List.mem_append_right _ (List.mem_singleton.2 h)
    · exact List.mem_append_left _ (ih h)

theorem mapOf_of_pairwise (h : (members.map Prod.fst).Pairwise (· < ·)) :
    mapOf members = members := by
  induction members using List.reverseRecOn with
  | nil => rfl
  | append_singleton members e ih =>
    rw [List.map_append, List.pairwise_append] at h
    rw [mapOf_concat, ih h.1]
    refine putKey_of_forall_lt _ (fun e' he' => h.2.2 _ (List.mem_map_of_mem he') _ ?_)
    exact List.mem_singleton_self _

/-- **A decoded value is made of maps.** -/
theorem keyed_toMaps (v : JsonTree N S) : v.toMaps.keyed = true := by
  induction v using ind with
  | null | bool | num | str => rfl
  | arr items ih =>
    rw [toMaps, keyed, keyedItems_iff, toMapsItems_eq]
    exact List.forall_mem_map.2 ih
  | obj members ih =>
    rw [toMaps, keyed, Bool.and_eq_true, keyedMembers_iff]
    refine ⟨decide_eq_true (pairwise_mapOf _), fun m hm => ?_⟩
    have hmem := mem_of_mem_mapOf hm
    rw [toMapsMembers_eq] at hmem
    obtain ⟨m', hm', rfl⟩ := List.mem_map.1 hmem
    exact ih m' hm'

/-- Maps decode to themselves. -/
theorem toMaps_of_keyed (h : v.keyed = true) : v.toMaps = v := by
  induction v using ind with
  | null | bool | num | str => rfl
  | arr items ih =>
    rw [keyed, keyedItems_iff] at h
    rw [toMaps, toMapsItems_eq, List.map_congr_left (fun v hv => ih v hv (h v hv)), List.map_id']
  | obj members ih =>
    rw [keyed, Bool.and_eq_true, keyedMembers_iff, decide_eq_true_eq] at h
    have hsame : ∀ m ∈ members, (fun m : S × JsonTree N S => (m.1, m.2.toMaps)) m = m :=
      fun m hm => Prod.ext rfl (ih m hm (h.2 m hm))
    rw [toMaps, toMapsMembers_eq, List.map_congr_left hsame, List.map_id',
      mapOf_of_pairwise h.1]

theorem putKey_map {β : Type} (f : α → β) (k : S) (v : α) (m : List (S × α)) :
    (putKey k v m).map (Prod.map id f) = putKey k (f v) (m.map (Prod.map id f)) := by
  induction m with
  | nil => rfl
  | cons e rest ih =>
    simp only [putKey, List.map_cons, Prod.map_apply', id_eq]
    split_ifs
    · rfl
    · rfl
    · rw [List.map_cons, ih]
      rfl

theorem mapOf_map {β : Type} (f : α → β) (members : List (S × α)) :
    (mapOf members).map (Prod.map id f) = mapOf (members.map (Prod.map id f)) := by
  induction members using List.reverseRecOn with
  | nil => rfl
  | append_singleton members e ih =>
    rw [mapOf_concat, putKey_map, ih, List.map_append, List.map_singleton, mapOf_concat]
    rfl

/-- Changing numbers and making maps may be done in either order. -/
theorem map_toMaps (f : N → N') (v : JsonTree N S) :
    v.toMaps.map f id = (v.map f id).toMaps := by
  induction v using ind with
  | null | bool | num | str => rfl
  | arr items ih =>
    rw [toMaps, map, map, toMaps, mapItems_eq, toMapsItems_eq, toMapsItems_eq, mapItems_eq,
      List.map_map, List.map_map]
    exact congrArg arr (List.map_congr_left ih)
  | obj members ih =>
    rw [toMaps, map, map, toMaps, mapMembers_eq, toMapsMembers_eq, toMapsMembers_eq,
      mapMembers_eq]
    have hmap := mapOf_map (fun v : JsonTree N S => v.map f id)
      (members.map (fun m => (m.1, m.2.toMaps)))
    refine congrArg obj (hmap.trans (congrArg mapOf ?_))
    rw [List.map_map, List.map_map]
    exact List.map_congr_left (fun m hm => Prod.ext rfl (ih m hm))

theorem putKey_perm {k : S} (v : α) (h : k ∉ m.map Prod.fst) :
    (putKey k v m).Perm ((k, v) :: m) := by
  induction m with
  | nil => exact List.Perm.refl _
  | cons e rest ih =>
    rw [List.map_cons, List.mem_cons, not_or] at h
    rw [putKey]
    split_ifs with hlt heq
    · exact List.Perm.refl _
    · exact absurd heq h.1
    · exact ((ih h.2).cons e).trans (List.Perm.swap _ _ _)

theorem mapOf_perm (h : (members.map Prod.fst).Nodup) : (mapOf members).Perm members := by
  induction members using List.reverseRecOn with
  | nil => exact List.Perm.refl _
  | append_singleton members e ih =>
    rw [List.map_append, List.nodup_append] at h
    have hmembers := ih h.1
    have hkey : e.1 ∉ (mapOf members).map Prod.fst := by
      intro hmem
      exact h.2.2 _ ((hmembers.map Prod.fst).mem_iff.1 hmem) _ (List.mem_singleton_self _) rfl
    rw [mapOf_concat]
    exact (putKey_perm e.2 hkey).trans
      ((hmembers.cons e).trans (List.perm_append_singleton e members).symm)

/-- **Making a map of distinct keys is sorting them.** -/
theorem mapOf_eq_insertionSort (h : (members.map Prod.fst).Nodup) :
    mapOf members = members.insertionSort (fun a b => a.1 ≤ b.1) := by
  have hsorted : (mapOf members).Pairwise (fun a b => a.1 < b.1) :=
    List.pairwise_map.1 (pairwise_mapOf members)
  have hperm := (mapOf_perm h).trans (List.perm_insertionSort (fun a b => a.1 ≤ b.1) members).symm
  have hnodup := ((mapOf_perm h).map Prod.fst).nodup_iff.2 h
  -- one key stands for one member
  have hkeys : ∀ a b, a ∈ mapOf members → b ∈ members.insertionSort (fun a b => a.1 ≤ b.1) →
      a.1 ≤ b.1 → b.1 ≤ a.1 → a = b := fun a b ha hb hab hba =>
    List.inj_on_of_nodup_map hnodup ha (hperm.mem_iff.2 hb) (le_antisymm hab hba)
  exact List.Perm.eq_of_pairwise hkeys (hsorted.imp le_of_lt)
    (List.pairwise_insertionSort (fun a b => a.1 ≤ b.1) members) hperm

theorem keyed_map (f : N → N') (v : JsonTree N S) : (v.map f id).keyed = v.keyed := by
  induction v using ind with
  | null | bool | num | str => rfl
  | arr items ih =>
    rw [map, keyed, keyed, Bool.eq_iff_iff, keyedItems_iff, keyedItems_iff, mapItems_eq,
      List.forall_mem_map]
    exact forall₂_congr fun v hv => by rw [ih v hv]
  | obj members ih =>
    rw [map, keyed, keyed, Bool.eq_iff_iff, Bool.and_eq_true, Bool.and_eq_true, keyedMembers_iff,
      keyedMembers_iff, mapMembers_eq, List.forall_mem_map, List.map_map]
    exact and_congr Iff.rfl (forall₂_congr fun m hm => by rw [ih m hm])

/-- Changing the numbers of maps leaves maps. -/
theorem keyed_of_traverse (h : v.keyed = true) {w : JsonTree N' S} (hw : v.traverse f = some w) :
    w.keyed = true := by
  rw [← keyed_map some w, traverse_eq_some_iff.1 hw, keyed_map, h]

end Maps

end JsonTree

end JsonText
