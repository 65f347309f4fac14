import Fasten.Lib.JsonTree

set_option autoImplicit false

/-! # JSON values up to the order of members

Objects are maps: their members have distinct keys, and the order does not count. -/

namespace JsonText.JsonTree

variable {N S : Type}

mutual

/-- No object has two members with one key. -/
def DistinctKeys : JsonTree N S → Prop
  | .null => True
  | .bool _ => True
  | .num _ => True
  | .str _ => True
  | .arr items => DistinctItems items
  | .obj members => (members.map Prod.fst).Nodup ∧ DistinctMembers members

def DistinctItems : List (JsonTree N S) → Prop
  | [] => True
  | v :: rest => v.DistinctKeys ∧ DistinctItems rest

def DistinctMembers : List (S × JsonTree N S) → Prop
  | [] => True
  | (_, v) :: rest => v.DistinctKeys ∧ DistinctMembers rest

end

theorem distinctItems_iff {items : List (JsonTree N S)} :
    DistinctItems items ↔ ∀ v ∈ items, v.DistinctKeys := by
  induction items with
  | nil => simp [DistinctItems]
  | cons v rest ih => rw [DistinctItems, ih, List.forall_mem_cons]

theorem distinctMembers_iff {members : List (S × JsonTree N S)} :
    DistinctMembers members ↔ ∀ m ∈ members, m.2.DistinctKeys := by
  induction members with
  | nil => simp [DistinctMembers]
  | cons m rest ih => rw [DistinctMembers, ih, List.forall_mem_cons]

mutual

/-- The values are equal up to the order of the members of objects that have distinct keys. -/
def Same : JsonTree N S → JsonTree N S → Prop
  | .null, w => w = .null
  | .bool b, w => w = .bool b
  | .num n, w => w = .num n
  | .str s, w => w = .str s
  | .arr items, w => ∃ items', w = .arr items' ∧ SameItems items items'
  | .obj members, w =>
    ∃ members', w = .obj members' ∧ members.length = members'.length ∧
      SameMembers members members'

def SameItems : List (JsonTree N S) → List (JsonTree N S) → Prop
  | [], ws => ws = []
  | v :: rest, ws => ∃ w ws', ws = w :: ws' ∧ v.Same w ∧ SameItems rest ws'

def SameMembers : List (S × JsonTree N S) → List (S × JsonTree N S) → Prop
  | [], _ => True
  | (k, v) :: rest, ws => (∃ w, (k, w) ∈ ws ∧ v.Same w) ∧ SameMembers rest ws

end

theorem sameMembers_iff {members ws : List (S × JsonTree N S)} :
    SameMembers members ws ↔ ∀ m ∈ members, ∃ w, (m.1, w) ∈ ws ∧ m.2.Same w := by
  induction members with
  | nil => simp [SameMembers]
  | cons m rest ih => rw [SameMembers, ih, List.forall_mem_cons]

theorem sameItems_map_iff {α : Type} {f g : α → JsonTree N S} {l : List α} :
    SameItems (l.map f) (l.map g) ↔ ∀ x ∈ l, (f x).Same (g x) := by
  induction l with
  | nil => simp [SameItems]
  | cons x rest ih => simp [SameItems, ih]

end JsonText.JsonTree
