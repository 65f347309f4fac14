import Mathlib.Data.List.Basic
import Mathlib.Data.List.Induction
import Mathlib.Data.List.Nodup

set_option autoImplicit false

/-! # Dictionaries in insertion order

A dictionary is the list of its items, oldest key first. Setting a key it already has keeps the
key's place, as a Python `dict` does. -/

namespace Dict

variable {κ ν : Type} [DecidableEq κ]

def get? : List (κ × ν) → κ → Option ν
  | [], _ => none
  | (k, v) :: rest, key => if k = key then some v else get? rest key

def set : List (κ × ν) → κ → ν → List (κ × ν)
  | [], key, value => [(key, value)]
  | (k, v) :: rest, key, value =>
    if k = key then (k, value) :: rest else (k, v) :: set rest key value

/-- Replace the value of a key the dictionary has. -/
def adjust (d : List (κ × ν)) (key : κ) (f : ν → ν) : List (κ × ν) :=
  d.map (fun item => if item.1 = key then (item.1, f item.2) else item)

/-- Set several keys, one after the other. -/
def update (d items : List (κ × ν)) : List (κ × ν) :=
  items.foldl (fun d item => set d item.1 item.2) d

def drop (d : List (κ × ν)) (keys : List κ) : List (κ × ν) :=
  d.filter (fun item => decide (item.1 ∉ keys))

def keys (d : List (κ × ν)) : List κ := d.map Prod.fst

def values (d : List (κ × ν)) : List ν := d.map Prod.snd

omit [DecidableEq κ] in
@[simp] theorem keys_cons (k : κ) (v : ν) (rest : List (κ × ν)) :
    keys ((k, v) :: rest) = k :: keys rest := rfl

/-! ## Lookup -/

@[simp] theorem get?_nil (key : κ) : get? ([] : List (κ × ν)) key = none := rfl

theorem get?_cons (k : κ) (v : ν) (rest : List (κ × ν)) (key : κ) :
    get? ((k, v) :: rest) key = if k = key then some v else get? rest key := rfl

variable {d items : List (κ × ν)} {key : κ}

theorem mem_of_get? {value : ν} (h : get? d key = some value) : (key, value) ∈ d := by
  induction d with
  | nil => simp at h
  | cons item rest ih =>
    obtain ⟨k, v⟩ := item
    rw [get?_cons] at h
    split_ifs at h with hk
    · cases h
      exact hk ▸ List.mem_cons_self
    · exact List.mem_cons_of_mem _ (ih h)

theorem get?_of_mem (hd : (keys d).Nodup) {value : ν} (h : (key, value) ∈ d) :
    get? d key = some value := by
  induction d with
  | nil => simp at h
  | cons item rest ih =>
    obtain ⟨k, v⟩ := item
    rw [keys_cons, List.nodup_cons] at hd
    rw [get?_cons]
    rcases List.mem_cons.1 h with heq | hmem
    · cases heq
      rw [if_pos rfl]
    · have hne : k ≠ key := by
        intro heq
        exact hd.1 (heq ▸ List.mem_map_of_mem hmem)
      rw [if_neg hne]
      exact ih hd.2 hmem

/-- In a dictionary with distinct keys, the items are exactly what lookup finds. -/
theorem get?_eq_some_iff (hd : (keys d).Nodup) {value : ν} :
    get? d key = some value ↔ (key, value) ∈ d :=
  ⟨mem_of_get?, get?_of_mem hd⟩

theorem get?_eq_none_iff : get? d key = none ↔ key ∉ keys d := by
  induction d with
  | nil => simp [keys]
  | cons item rest ih =>
    obtain ⟨k, v⟩ := item
    rw [get?_cons]
    by_cases hk : k = key
    · simp [hk]
    · have hk' : ¬key = k := fun h => hk h.symm
      simp [hk, hk', ih]

/-- Lookup does not depend on the order of the items. -/
theorem get?_eq_of_perm {d' : List (κ × ν)} (hd : (keys d).Nodup) (h : d.Perm d') (key : κ) :
    get? d key = get? d' key := by
  have hd' : (keys d').Nodup := (h.map Prod.fst).nodup_iff.1 hd
  refine Option.ext (fun value => ?_)
  rw [get?_eq_some_iff hd, get?_eq_some_iff hd', h.mem_iff]

/-! ## Setting a key -/

theorem get?_set (d : List (κ × ν)) (key : κ) (value : ν) (k : κ) :
    get? (set d key value) k = if key = k then some value else get? d k := by
  induction d with
  | nil => simp [set, get?_cons]
  | cons item rest ih =>
    obtain ⟨k', v'⟩ := item
    by_cases hk : k' = key
    · subst hk
      by_cases hkk : k' = k <;> simp [set, get?_cons, hkk]
    · simp only [set, if_neg hk, get?_cons, ih]
      by_cases hkk : k' = k
      · have hne : ¬key = k := fun h => hk (hkk.trans h.symm)
        simp [hkk, hne]
      · simp [hkk]

theorem keys_set (d : List (κ × ν)) (key : κ) (value : ν) :
    keys (set d key value) = if key ∈ keys d then keys d else keys d ++ [key] := by
  induction d with
  | nil => simp [set, keys]
  | cons item rest ih =>
    obtain ⟨k, v⟩ := item
    by_cases hk : k = key
    · simp [set, hk]
    · have hk' : ¬key = k := fun h => hk h.symm
      simp only [set, if_neg hk, keys_cons, ih, List.mem_cons, hk', false_or]
      by_cases hmem : key ∈ keys rest
      · rw [if_pos hmem, if_pos hmem]
      · rw [if_neg hmem, if_neg hmem, List.cons_append]

theorem nodup_keys_set (hd : (keys d).Nodup) (key : κ) (value : ν) :
    (keys (set d key value)).Nodup := by
  rw [keys_set]
  split_ifs with hk
  · exact hd
  · exact List.nodup_append.2 ⟨hd, List.nodup_singleton key, by
      intro a ha b hb hab
      rw [List.mem_singleton] at hb
      exact hk (hb ▸ hab ▸ ha)⟩

theorem mem_keys_set {k : κ} {value : ν} : k ∈ keys (set d key value) ↔ k = key ∨ k ∈ keys d := by
  rw [keys_set]
  split_ifs with hk
  · constructor
    · exact Or.inr
    · rintro (rfl | h)
      · exact hk
      · exact h
  · rw [List.mem_append, List.mem_singleton, or_comm]

/-! ## Adjusting and dropping keys -/

@[simp] theorem keys_adjust (d : List (κ × ν)) (key : κ) (f : ν → ν) :
    keys (adjust d key f) = keys d := by
  simp only [keys, adjust, List.map_map]
  refine List.map_congr_left (fun item _ => ?_)
  simp only [Function.comp_apply]
  split_ifs <;> rfl

theorem get?_adjust (d : List (κ × ν)) (key : κ) (f : ν → ν) (k : κ) :
    get? (adjust d key f) k = if k = key then (get? d k).map f else get? d k := by
  induction d with
  | nil => simp [adjust]
  | cons item rest ih =>
    obtain ⟨k', v'⟩ := item
    simp only [adjust] at ih
    by_cases hk : k = key
    · subst hk
      rw [if_pos rfl] at ih
      by_cases hk' : k' = k <;> simp [adjust, get?_cons, ih, hk']
    · rw [if_neg hk] at ih
      by_cases hk' : k' = key
      · have hne : ¬key = k := fun h => hk h.symm
        simp [adjust, get?_cons, ih, hk', hk, hne]
      · simp [adjust, get?_cons, ih, hk', hk]

/-- Adjusting a key to the value it has changes nothing. -/
theorem adjust_eq_self (hd : (keys d).Nodup) {f : ν → ν} (h : ∀ v, get? d key = some v → f v = v) :
    adjust d key f = d := by
  refine (List.map_congr_left (fun item hitem => ?_)).trans (List.map_id d)
  obtain ⟨k, v⟩ := item
  by_cases hk : k = key
  · subst hk
    simp [h v (get?_of_mem hd hitem)]
  · simp [hk]

theorem keys_drop_sublist (d : List (κ × ν)) (ks : List κ) : (keys (drop d ks)).Sublist (keys d) :=
  List.filter_sublist.map _

theorem keys_drop (d : List (κ × ν)) (ks : List κ) :
    keys (drop d ks) = (keys d).filter (fun k => decide (k ∉ ks)) := by
  simp only [keys, drop, List.filter_map]
  rfl

theorem get?_drop (d : List (κ × ν)) (ks : List κ) (k : κ) :
    get? (drop d ks) k = if k ∈ ks then none else get? d k := by
  induction d with
  | nil => simp [drop]
  | cons item rest ih =>
    obtain ⟨k', v'⟩ := item
    by_cases hmem : k' ∈ ks
    · have hdrop : drop ((k', v') :: rest) ks = drop rest ks :=
        List.filter_cons_of_neg (by simpa using hmem)
      rw [hdrop, ih, get?_cons]
      by_cases hk : k' = k
      · rw [if_pos (hk ▸ hmem), if_pos (hk ▸ hmem)]
      · rw [if_neg hk]
    · have hdrop : drop ((k', v') :: rest) ks = (k', v') :: drop rest ks :=
        List.filter_cons_of_pos (by simpa using hmem)
      rw [hdrop, get?_cons, get?_cons, ih]
      by_cases hk : k' = k
      · rw [if_pos hk, if_pos hk, if_neg (hk ▸ hmem)]
      · rw [if_neg hk, if_neg hk]

/-! ## Updating -/

theorem set_of_notMem (h : key ∉ keys d) (value : ν) : set d key value = d ++ [(key, value)] := by
  induction d with
  | nil => rfl
  | cons item rest ih =>
    obtain ⟨k, v⟩ := item
    rw [keys_cons, List.mem_cons, not_or] at h
    rw [set, if_neg (Ne.symm h.1), ih h.2, List.cons_append]

theorem mem_keys_update {k : κ} : k ∈ keys (update d items) ↔ k ∈ keys d ∨ k ∈ keys items := by
  induction items generalizing d with
  | nil => simp [update, keys]
  | cons item rest ih =>
    have hstep : update d (item :: rest) = update (set d item.1 item.2) rest := rfl
    rw [hstep, ih, mem_keys_set]
    simp only [keys, List.map_cons, List.mem_cons]
    tauto

theorem get?_update_of_notMem {k : κ} (h : k ∉ keys items) :
    get? (update d items) k = get? d k := by
  induction items generalizing d with
  | nil => rfl
  | cons item rest ih =>
    obtain ⟨key, value⟩ := item
    rw [keys_cons, List.mem_cons, not_or] at h
    have hstep : update d ((key, value) :: rest) = update (set d key value) rest := rfl
    rw [hstep, ih h.2, get?_set, if_neg (Ne.symm h.1)]

theorem update_concat (d items : List (κ × ν)) (item : κ × ν) :
    update d (items ++ [item]) = set (update d items) item.1 item.2 := by
  rw [update, update, List.foldl_append]
  rfl

/-- A list of items for distinct keys is the dict it makes. -/
theorem update_nil_of_nodup (h : (keys items).Nodup) : update [] items = items := by
  induction items using List.reverseRecOn with
  | nil => rfl
  | append_singleton items item ih =>
    rw [keys, List.map_append, List.nodup_append] at h
    have hkey : item.1 ∉ keys items :=
      fun hmem => h.2.2 _ hmem _ (List.mem_singleton_self _) rfl
    rw [update_concat, ih h.1, set_of_notMem hkey]

/-- The items of an update win, the last one for each key. -/
theorem get?_update (d items : List (κ × ν)) (k : κ) :
    get? (update d items) k = (get? (update [] items) k).or (get? d k) := by
  induction items using List.reverseRecOn with
  | nil => rfl
  | append_singleton items item ih =>
    rw [update_concat, update_concat, get?_set, get?_set, ih]
    by_cases hk : item.1 = k
    · rw [if_pos hk, if_pos hk, Option.some_or]
    · rw [if_neg hk, if_neg hk]

theorem get?_update_map {ν' : Type} (items : List (κ × ν)) (f : κ → ν → ν') (k : κ) :
    get? (update [] (items.map fun item => (item.1, f item.1 item.2))) k
      = (get? (update [] items) k).map (f k) := by
  induction items using List.reverseRecOn with
  | nil => rfl
  | append_singleton items item ih =>
    rw [List.map_append, List.map_cons, List.map_nil, update_concat, update_concat, get?_set,
      get?_set, ih]
    by_cases hk : item.1 = k
    · rw [if_pos hk, if_pos hk, Option.map_some, hk]
    · rw [if_neg hk, if_neg hk]

/-- The items of an update win, if no two are for one key. -/
theorem get?_update_of_mem (hitems : (keys items).Nodup) {k : κ} (h : k ∈ keys items) :
    get? (update d items) k = get? items k := by
  induction items generalizing d with
  | nil => simp [keys] at h
  | cons item rest ih =>
    obtain ⟨key, value⟩ := item
    rw [keys_cons, List.nodup_cons] at hitems
    have hstep : update d ((key, value) :: rest) = update (set d key value) rest := rfl
    rw [hstep, get?_cons]
    by_cases hk : key = k
    · rw [if_pos hk, get?_update_of_notMem (hk ▸ hitems.1), get?_set, if_pos hk]
    · rw [if_neg hk]
      rw [keys_cons, List.mem_cons] at h
      exact ih hitems.2 (h.resolve_left (Ne.symm hk))

theorem get?_append (d d' : List (κ × ν)) (k : κ) :
    get? (d ++ d') k = (get? d k).or (get? d' k) := by
  induction d with
  | nil => rfl
  | cons item rest ih =>
    obtain ⟨key, value⟩ := item
    rw [List.cons_append, get?_cons, get?_cons]
    by_cases hk : key = k
    · rw [if_pos hk, if_pos hk, Option.some_or]
    · rw [if_neg hk, if_neg hk, ih]

theorem get?_map {ν' : Type} (d : List (κ × ν)) (f : κ → ν → ν') (k : κ) :
    get? (d.map fun item => (item.1, f item.1 item.2)) k = (get? d k).map (f k) := by
  induction d with
  | nil => rfl
  | cons item rest ih =>
    obtain ⟨key, value⟩ := item
    rw [List.map_cons, get?_cons, get?_cons, ih]
    by_cases hk : key = k
    · rw [if_pos hk, if_pos hk, Option.map_some, hk]
    · rw [if_neg hk, if_neg hk]

end Dict
