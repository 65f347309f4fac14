import Mathlib.Data.List.Pairwise
import Fasten.Codes.Kept

set_option autoImplicit false

/-! # `reload` on files that have not changed

`load` reads one file at a time and Rust and Go let two files name one code; `reload` reads all files
together and does not. -/

namespace Fasten.Codes

/-- One `load` after the other. -/
def loads (sdk : Sdk) (files : Files sdk) : Catalog → List Path → Except CatalogError Catalog
  | c, [] => .ok c
  | c, p :: ps =>
    match load sdk files c p with
    | .error e => .error e
    | .ok c' => loads sdk files c' ps

/-- The same codes with the same Meta, from the same files. -/
structure Catalog.Same (c c' : Catalog) : Prop where
  registry : ∀ code, Dict.get? c.registry code = Dict.get? c'.registry code
  yamlCodes : ∀ code, code ∈ c.yamlCodes ↔ code ∈ c'.yamlCodes
  paths : c.paths = c'.paths
  origins : ∀ code, Dict.get? c.origins code = Dict.get? c'.origins code

/-! ## What `load` leaves -/

/-- The catalog after some files were loaded. -/
structure Loaded (sdk : Sdk) (files : Files sdk) (c : Catalog) : Prop where
  nodup : c.paths.Nodup
  reads : ∀ p ∈ c.paths, ∃ own, build sdk files [p] = .ok own
  yaml : ∀ code, code ∈ c.yamlCodes ↔ ∃ p ∈ c.paths, code ∈ codesIn sdk files p
  /-- A code is as one of the files has it. -/
  codes : ∀ code ∈ c.yamlCodes, ∃ p ∈ c.paths, ∃ own d, build sdk files [p] = .ok own
    ∧ Dict.get? own code = some d ∧ Dict.get? c.registry code = some d.info
    ∧ Dict.get? c.origins code = some d.origin
  noOrigin : ∀ code, code ∉ c.yamlCodes → Dict.get? c.origins code = none
  /-- Python: no two files name one code. -/
  single : sdk = .python → ∀ p ∈ c.paths, ∀ q ∈ c.paths, ∀ code ∈ codesIn sdk files p,
    code ∈ codesIn sdk files q → p = q

section Loaded

variable {sdk : Sdk} {files : Files sdk} {c c' : Catalog} {p : Path}

theorem Catalog.nodup_push (h : c.paths.Nodup) : (c.push p).paths.Nodup := by
  simp only [Catalog.push]
  split_ifs with hp
  · exact h
  · exact h.append (List.nodup_singleton p) (by simpa using hp)

theorem get?_metasOf (fresh : List (String × Declared)) (code : String) :
    Dict.get? (metasOf fresh) code = (Dict.get? fresh code).map Declared.info :=
  Dict.get?_map fresh (fun _ d => d.info) code

theorem get?_originsOf (fresh : List (String × Declared)) (code : String) :
    Dict.get? (originsOf fresh) code = (Dict.get? fresh code).map Declared.origin :=
  Dict.get?_map fresh (fun _ d => d.origin) code

theorem keys_originsOf (fresh : List (String × Declared)) :
    Dict.keys (originsOf fresh) = Dict.keys fresh := by
  simp only [Dict.keys, originsOf, List.map_map]
  rfl

/-- Python refuses a code of another file. -/
theorem Python.origin_of_clash {fresh : List (String × Declared)} {q : Path} {code : String}
    (h : Python.clash c p fresh = none) (hcode : code ∈ Dict.keys fresh)
    (hq : Dict.get? c.origins code = some q) : q = p := by
  simp only [Python.clash, List.findSome?_eq_none_iff] at h
  have hnone := h code hcode
  rw [hq] at hnone
  by_contra hne
  simp [hne] at hnone

theorem Loaded.single_step (h : Loaded sdk files c) {own : List (String × Declared)}
    (hown : build sdk files [p] = .ok own) (hclash : clash sdk c p own = none)
    (hsdk : sdk = .python) {q : Path} (hq : q ∈ c.paths) {code : String}
    (hcode : code ∈ codesIn sdk files q) (hcode' : code ∈ codesIn sdk files p) : q = p := by
  obtain ⟨q', hq', own', d, hown', hd, -, horigin⟩ := h.codes code ((h.yaml code).2 ⟨q, hq, hcode⟩)
  have hmem := Dict.mem_of_get? hd
  have hq'' : d.origin = q' := (build_single hown').2.1 _ hmem
  have hcode'' : code ∈ codesIn sdk files q' := by
    rw [← build_single_keys hown']
    exact List.mem_map.2 ⟨_, hmem, rfl⟩
  have hsame : q = q' := h.single hsdk q hq q' hq' code hcode hcode''
  subst hsdk
  rw [hsame, ← hq'']
  exact Python.origin_of_clash hclash (build_single_keys hown ▸ hcode') horigin

theorem Loaded.step (h : Loaded sdk files c) (hload : load sdk files c p = .ok c') :
    Loaded sdk files c' := by
  obtain ⟨own, hown, hclash, rfl⟩ := load_ok_iff.1 hload
  obtain ⟨hnodup, horigin, hkeys⟩ := build_single hown
  have hpath : ∀ q, q ∈ ((c.commit own).push p).paths ↔ q = p ∨ q ∈ c.paths :=
    fun q => Catalog.mem_push
  refine ⟨Catalog.nodup_push h.nodup, fun q hq => ?_, fun code => ?_, fun code hcode => ?_,
    fun code hcode => ?_, fun hsdk q hq q' hq' code hcode hcode' => ?_⟩
  · rcases Catalog.mem_push.1 hq with rfl | hq
    · exact ⟨own, hown⟩
    · exact h.reads q hq
  · have hmem : code ∈ ((c.commit own).push p).yamlCodes
        ↔ code ∈ c.yamlCodes ∨ code ∈ codesIn sdk files p := by
      rw [← hkeys]
      exact List.mem_append
    rw [hmem, h.yaml code]
    simp only [hpath, or_and_right, exists_or, exists_eq_left]
    exact or_comm
  · -- the code is one of this file, or of one before
    by_cases hfile : code ∈ Dict.keys own
    · cases hd : Dict.get? own code with
      | none => exact absurd hfile (Dict.get?_eq_none_iff.1 hd)
      | some d =>
        refine ⟨p, Catalog.mem_push.2 (Or.inl rfl), own, d, hown, hd, ?_, ?_⟩
        · simp only [Catalog.push, Catalog.commit]
          rw [Dict.get?_update_of_mem (by rwa [keys_metasOf]) (by rwa [keys_metasOf]),
            get?_metasOf, hd]
          rfl
        · simp only [Catalog.push, Catalog.commit]
          rw [Dict.get?_update_of_mem (by rwa [keys_originsOf]) (by rwa [keys_originsOf]),
            get?_originsOf, hd]
          rfl
    · have hold : code ∈ c.yamlCodes := (List.mem_append.1 hcode).resolve_right hfile
      obtain ⟨q, hq, own', d, hown', hd, hregistry, horigins⟩ := h.codes code hold
      refine ⟨q, Catalog.mem_push.2 (Or.inr hq), own', d, hown', hd, ?_, ?_⟩
      · simp only [Catalog.push, Catalog.commit]
        rw [Dict.get?_update_of_notMem (by rwa [keys_metasOf])]
        exact hregistry
      · simp only [Catalog.push, Catalog.commit]
        rw [Dict.get?_update_of_notMem (by rwa [keys_originsOf])]
        exact horigins
  · have hnot := not_or.1 (fun hmem => hcode (List.mem_append.2 hmem))
    simp only [Catalog.push, Catalog.commit]
    rw [Dict.get?_update_of_notMem (by rw [keys_originsOf]; exact hnot.2)]
    exact h.noOrigin code hnot.1
  · rcases (hpath q).1 hq with rfl | hold
    · rcases (hpath q').1 hq' with rfl | hold'
      · rfl
      · exact (h.single_step hown hclash hsdk hold' hcode' hcode).symm
    · rcases (hpath q').1 hq' with rfl | hold'
      · exact h.single_step hown hclash hsdk hold hcode hcode'
      · exact h.single hsdk q hold q' hold' code hcode hcode'

/-- **What any sequence of `load`s leaves.** -/
theorem loaded_loads {ps : List Path} (h : Loaded sdk files c) (hloads : loads sdk files c ps = .ok c') :
    Loaded sdk files c' ∧ ∀ q, q ∈ c'.paths ↔ q ∈ c.paths ∨ q ∈ ps := by
  induction ps generalizing c with
  | nil =>
    cases hloads
    exact ⟨h, by simp⟩
  | cons p ps ih =>
    rw [loads] at hloads
    cases hload : load sdk files c p with
    | error e =>
      rw [hload] at hloads
      cases hloads
    | ok c₁ =>
      rw [hload] at hloads
      obtain ⟨hend, hpaths⟩ := ih (h.step hload) hloads
      refine ⟨hend, fun q => ?_⟩
      obtain ⟨own, -, -, rfl⟩ := load_ok_iff.1 hload
      have hq : q ∈ ((c.commit own).push p).paths ↔ q = p ∨ q ∈ c.paths := Catalog.mem_push
      rw [hpaths q, hq, List.mem_cons]
      tauto

/-! ## `reload` after them -/

/-- When the files can be read together, they give what the catalog has. -/
theorem Loaded.same_swap (h : Loaded sdk files c) {fresh : List (String × Declared)}
    (hbuild : build sdk files c.paths = .ok fresh) : c.Same (c.swap fresh) := by
  have hkeys : ∀ code, code ∈ Dict.keys fresh ↔ code ∈ c.yamlCodes := fun code => by
    rw [mem_keys_build hbuild, h.yaml code]
  -- the file a code comes from is the only one that names it
  have hget : ∀ code ∈ c.yamlCodes, ∃ d, Dict.get? fresh code = some d
      ∧ Dict.get? c.registry code = some d.info ∧ Dict.get? c.origins code = some d.origin := by
    intro code hcode
    obtain ⟨p, hp, own, d, hown, hd, hregistry, horigin⟩ := h.codes code hcode
    obtain ⟨own', hown', hsame⟩ := get?_build hbuild hp
    cases hown.symm.trans hown'
    have hmem : code ∈ codesIn sdk files p := by
      rw [← build_single_keys hown]
      exact List.mem_map.2 ⟨_, Dict.mem_of_get? hd, rfl⟩
    exact ⟨d, (hsame code hmem).trans hd, hregistry, horigin⟩
  refine ⟨fun code => ?_, fun code => (hkeys code).symm, rfl, fun code => ?_⟩
  · simp only [Catalog.swap]
    by_cases hcode : code ∈ c.yamlCodes
    · obtain ⟨d, hd, hregistry, -⟩ := hget code hcode
      rw [Dict.get?_update_of_mem (by rw [keys_metasOf]; exact nodup_keys_build hbuild)
        (by rw [keys_metasOf]; exact (hkeys code).2 hcode), get?_metasOf, hd, hregistry]
      rfl
    · rw [Dict.get?_update_of_notMem (by rw [keys_metasOf, hkeys]; exact hcode), Dict.get?_drop,
        if_neg hcode]
  · simp only [Catalog.swap]
    by_cases hcode : code ∈ c.yamlCodes
    · obtain ⟨d, hd, -, horigin⟩ := hget code hcode
      rw [get?_originsOf, hd, horigin]
      rfl
    · rw [h.noOrigin code hcode, get?_originsOf,
        Dict.get?_eq_none_iff.2 (by rw [hkeys]; exact hcode)]
      rfl

theorem Loaded.reload_iff (h : Loaded sdk files c) :
    (∃ c', reload sdk files c = .ok c' ∧ c.Same c')
      ↔ c.paths.Pairwise fun p q => (codesIn sdk files p).Disjoint (codesIn sdk files q) := by
  by_cases hpaths : c.paths = []
  · have hok : reload sdk files c = .ok c := reload_ok_iff.2 (Or.inl ⟨hpaths, rfl⟩)
    rw [hpaths]
    exact ⟨fun _ => List.Pairwise.nil,
      fun _ => ⟨c, hok, ⟨fun _ => rfl, fun _ => Iff.rfl, rfl, fun _ => rfl⟩⟩⟩
  · refine ⟨fun ⟨c', hreload, _⟩ => ?_, fun hdisjoint => ?_⟩
    · rcases reload_ok_iff.1 hreload with ⟨hnil, -⟩ | ⟨-, fresh, hbuild, -⟩
      · exact absurd hnil hpaths
      · exact (build_isOk_iff.1 ⟨fresh, hbuild⟩).2
    · obtain ⟨fresh, hbuild⟩ := build_isOk_iff.2 ⟨h.reads, hdisjoint⟩
      exact ⟨c.swap fresh, reload_ok_iff.2 (Or.inr ⟨hpaths, fresh, hbuild, rfl⟩),
        h.same_swap hbuild⟩

end Loaded

theorem loaded_of_no_yaml {sdk : Sdk} {files : Files sdk} {c : Catalog} (hyaml : c.yamlCodes = [])
    (hpaths : c.paths = []) (horigins : c.origins = []) : Loaded sdk files c := by
  refine ⟨?_, ?_, ?_, ?_, ?_, ?_⟩
  · rw [hpaths]
    exact List.nodup_nil
  · rw [hpaths]
    exact nofun
  · simp [hyaml, hpaths]
  · rw [hyaml]
    exact nofun
  · rw [horigins]
    exact fun _ _ => rfl
  · rw [hpaths]
    exact nofun

/-- **`reload` on unchanged files.** After any `load`s, `reload` succeeds and leaves the catalog as it
    is exactly when no two of the loaded paths name one code. In Python that is always so. -/
theorem reload_unchanged_iff (sdk : Sdk) (files : Files sdk) {c₀ c : Catalog}
    (hyaml : c₀.yamlCodes = []) (hpaths : c₀.paths = []) (horigins : c₀.origins = [])
    {ps : List Path} (hloads : loads sdk files c₀ ps = .ok c) :
    ((∃ c', reload sdk files c = .ok c' ∧ c.Same c') ↔ ∀ p ∈ ps, ∀ q ∈ ps, p ≠ q →
      (codesIn sdk files p).Disjoint (codesIn sdk files q))
    ∧ (sdk = .python → ∃ c', reload sdk files c = .ok c' ∧ c.Same c') := by
  obtain ⟨hloaded, hmem⟩ := loaded_loads (loaded_of_no_yaml hyaml hpaths horigins) hloads
  have hps : ∀ q, q ∈ c.paths ↔ q ∈ ps := fun q => by
    rw [hmem q, hpaths]
    simp
  have hpairwise : c.paths.Pairwise (fun p q => (codesIn sdk files p).Disjoint (codesIn sdk files q))
      ↔ ∀ p ∈ ps, ∀ q ∈ ps, p ≠ q → (codesIn sdk files p).Disjoint (codesIn sdk files q) := by
    refine ⟨fun h p hp q hq hpq => ?_,
      fun h => hloaded.nodup.pairwise_of_forall_ne fun p hp q hq hpq => ?_⟩
    · have hsymm : Std.Symm fun p q => (codesIn sdk files p).Disjoint (codesIn sdk files q) :=
        ⟨fun p q hdisjoint code hcode hcode' => hdisjoint hcode' hcode⟩
      exact h.forall ((hps p).2 hp) ((hps q).2 hq) hpq
    · exact h p ((hps p).1 hp) q ((hps q).1 hq) hpq
  rw [← hpairwise]
  refine ⟨hloaded.reload_iff, fun hsdk => hloaded.reload_iff.2 (hpairwise.2 ?_)⟩
  intro p hp q hq hpq code hcode hcode'
  exact hpq (hloaded.single hsdk p ((hps p).2 hp) q ((hps q).2 hq) code hcode hcode')

/-- Every path has a file of its own. -/
def twoFiles (sdk : Sdk) : Files sdk := fun p =>
  if p = "a.yaml" then .document (oneCode sdk "FLEET_UP")
  else if p = "b.yaml" then .document (oneCode sdk "FLEET_LOST")
  else .unreadable

theorem reload_unchanged_twoFiles : ∃ c c', loads .rust (twoFiles .rust) .empty ["a.yaml", "b.yaml"] = .ok c
    ∧ reload .rust (twoFiles .rust) c = .ok c' ∧ c.Same c' := by
  have hloads : ∃ c, loads .rust (twoFiles .rust) .empty ["a.yaml", "b.yaml"] = .ok c := ⟨_, rfl⟩
  obtain ⟨c, hc⟩ := hloads
  have hdisjoint : ∀ p ∈ ["a.yaml", "b.yaml"], ∀ q ∈ ["a.yaml", "b.yaml"], p ≠ q →
      (codesIn .rust (twoFiles .rust) p).Disjoint (codesIn .rust (twoFiles .rust) q) := by
    intro p hp q hq hpq
    have ha : codesIn .rust (twoFiles .rust) "a.yaml" = ["FLEET_UP"] := rfl
    have hb : codesIn .rust (twoFiles .rust) "b.yaml" = ["FLEET_LOST"] := rfl
    simp only [List.mem_cons, List.not_mem_nil, or_false] at hp hq
    rcases hp with rfl | rfl <;> rcases hq with rfl | rfl <;> simp_all
  obtain ⟨c', hreload, hsame⟩ := (reload_unchanged_iff .rust _ rfl rfl rfl hc).1.2 hdisjoint
  exact ⟨c, c', hc, hreload, hsame⟩

/-- Rust and Go load two files that name one code, one after the other; the `reload` that follows
    refuses them. -/
theorem reload_unchanged_fails :
    (∃ c, loads .rust (fun _ => .document (oneCode .rust "FLEET_UP")) .empty ["a.yaml", "b.yaml"]
        = .ok c
      ∧ reload .rust (fun _ => .document (oneCode .rust "FLEET_UP")) c
        = .error (.declaredTwice "b.yaml" "FLEET_UP" "a.yaml"))
    ∧ ∃ c, loads .go (fun _ => .document (oneCode .go "FLEET_UP")) .empty ["a.yaml", "b.yaml"]
        = .ok c
      ∧ reload .go (fun _ => .document (oneCode .go "FLEET_UP")) c
        = .error (.declaredTwice "b.yaml" "FLEET_UP" "a.yaml") :=
  ⟨⟨_, rfl, rfl⟩, ⟨_, rfl, rfl⟩⟩

end Fasten.Codes
