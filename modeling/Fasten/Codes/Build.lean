import Fasten.Codes

set_option autoImplicit false

/-! # What reading yaml files gives

Each file by itself gives the codes it names, or an error. Several files together give all their
codes, if each can be read and no code is named twice. -/

namespace Fasten.Codes

/-! ## One file -/

variable {out : List (String × Declared)}

section Build

variable {Doc Entry : Type} {fmt : Format Doc Entry}

/-- Of the codes read so far, an entry is only checked not to be among them. -/
def Format.ChecksKeys (fmt : Format Doc Entry) : Prop :=
  ∀ path doc fresh code raw m, fmt.entry path doc fresh code raw = .ok m
    ↔ code ∉ Dict.keys fresh ∧ fmt.entry path doc [] code raw = .ok m

/-- The code an entry gives. -/
def Reads (fmt : Format Doc Entry) (path : Path) (doc : Doc) (item : String × Entry)
    (out : String × Declared) : Prop :=
  out.1 = item.1 ∧ out.2.origin = path ∧ fmt.entry path doc [] item.1 item.2 = .ok out.2.info

variable {path : Path} {items : List (String × Entry)} {own : List (String × Declared)}

theorem keys_eq_of_reads {doc : Doc} (h : List.Forall₂ (Reads fmt path doc) items own) :
    Dict.keys own = Dict.keys items := by
  induction h with
  | nil => rfl
  | cons hfirst _ ih =>
    simp only [Dict.keys, List.map_cons] at ih ⊢
    rw [hfirst.1, ih]

theorem addCodes_ok_iff (hfmt : fmt.ChecksKeys) {doc : Doc} {fresh : List (String × Declared)} :
    addCodes fmt path doc items fresh = .ok out ↔ ∃ own, List.Forall₂ (Reads fmt path doc) items own
      ∧ (Dict.keys own).Nodup ∧ (Dict.keys own).Disjoint (Dict.keys fresh) ∧ out = fresh ++ own := by
  induction items generalizing fresh with
  | nil =>
    simp only [addCodes, List.forall₂_nil_left_iff, exists_eq_left]
    simp [Dict.keys, eq_comm]
  | cons item rest ih =>
    obtain ⟨code, raw⟩ := item
    constructor
    · intro h
      rw [addCodes] at h
      cases hentry : fmt.entry path doc fresh code raw with
      | error e =>
        rw [hentry] at h
        cases h
      | ok m =>
        rw [hentry] at h
        obtain ⟨hnew, hown⟩ := (hfmt path doc fresh code raw m).1 hentry
        obtain ⟨own, hreads, hnodup, hdisjoint, hout⟩ := ih.1 h
        rw [Dict.set_of_notMem hnew] at hdisjoint hout
        have hcode : code ∉ Dict.keys own := fun hmem =>
          hdisjoint hmem (by simp [Dict.keys])
        refine ⟨(code, ⟨m, path⟩) :: own, .cons ⟨rfl, rfl, hown⟩ hreads, ?_, ?_, ?_⟩
        · rw [Dict.keys_cons, List.nodup_cons]
          exact ⟨hcode, hnodup⟩
        · rw [Dict.keys_cons, List.disjoint_cons_left]
          refine ⟨hnew, fun k hk hk' => hdisjoint hk ?_⟩
          simp only [Dict.keys, List.map_append] at hk' ⊢
          exact List.mem_append_left _ hk'
        · rw [hout, List.append_assoc]
          rfl
    · rintro ⟨own, hreads, hnodup, hdisjoint, hout⟩
      cases hreads with
      | cons hfirst hrest =>
        rename_i out' own'
        obtain ⟨code', m, path'⟩ := out'
        obtain ⟨rfl, rfl, hown⟩ := hfirst
        rw [Dict.keys_cons, List.nodup_cons] at hnodup
        rw [Dict.keys_cons, List.disjoint_cons_left] at hdisjoint
        have hentry := (hfmt _ doc fresh _ raw m).2 ⟨hdisjoint.1, hown⟩
        dsimp only at hentry
        rw [addCodes, hentry]
        refine ih.2 ⟨own', hrest, hnodup.2, ?_, ?_⟩
        · rw [Dict.set_of_notMem hdisjoint.1]
          intro k hk hk'
          simp only [Dict.keys, List.map_append, List.mem_append, List.map_cons, List.map_nil,
            List.mem_singleton] at hk'
          rcases hk' with hk' | rfl
          · exact hdisjoint.2 hk hk'
          · exact hnodup.1 hk
        · rw [Dict.set_of_notMem hdisjoint.1, hout, List.append_assoc]
          rfl

variable {files : Path → FileRead Doc}

theorem addFile_eq_ok_iff {fresh : List (String × Declared)} :
    addFile fmt files fresh path = .ok out ↔ ∃ doc, files path = .document doc
      ∧ fmt.head path doc = .ok () ∧ addCodes fmt path doc (fmt.codes doc) fresh = .ok out := by
  unfold addFile
  cases files path with
  | unreadable | unparsable => simp
  | document doc => cases hhead : fmt.head path doc <;> simp [hhead]

theorem addFile_ok_iff (hfmt : fmt.ChecksKeys) {fresh : List (String × Declared)} :
    addFile fmt files fresh path = .ok out ↔ ∃ own, addFile fmt files [] path = .ok own
      ∧ (Dict.keys own).Disjoint (Dict.keys fresh) ∧ out = fresh ++ own := by
  simp only [addFile_eq_ok_iff, addCodes_ok_iff hfmt]
  constructor
  · rintro ⟨doc, hdoc, hhead, own, hreads, hnodup, hdisjoint, rfl⟩
    exact ⟨own, ⟨doc, hdoc, hhead, own, hreads, hnodup, List.disjoint_nil_right _, rfl⟩,
      hdisjoint, rfl⟩
  · rintro ⟨own, ⟨doc, hdoc, hhead, _, hreads, hnodup, -, rfl⟩, hdisjoint, rfl⟩
    exact ⟨doc, hdoc, hhead, own, hreads, hnodup, hdisjoint, rfl⟩

theorem origin_of_reads {doc : Doc} (h : List.Forall₂ (Reads fmt path doc) items own)
    {out : String × Declared} (hout : out ∈ own) : out.2.origin = path := by
  induction h with
  | nil => cases hout
  | cons hfirst _ ih =>
    rcases List.mem_cons.1 hout with rfl | hout
    · exact hfirst.2.1
    · exact ih hout

/-- A file that is read gives the codes it names, each once. -/
theorem addFile_keys (hfmt : fmt.ChecksKeys) (h : addFile fmt files [] path = .ok own) :
    (Dict.keys own).Nodup
      ∧ (∀ out ∈ own, out.2.origin = path)
      ∧ ∃ doc, files path = .document doc ∧ Dict.keys own = Dict.keys (fmt.codes doc) := by
  obtain ⟨doc, hdoc, -, hcodes⟩ := addFile_eq_ok_iff.1 h
  obtain ⟨own', hreads, hnodup, -, rfl⟩ := (addCodes_ok_iff hfmt).1 hcodes
  exact ⟨hnodup, fun out hout => origin_of_reads hreads hout, doc, hdoc, keys_eq_of_reads hreads⟩

theorem buildFrom_append (ps qs : List Path) (fresh : List (String × Declared)) :
    buildFrom fmt files (ps ++ qs) fresh
      = (buildFrom fmt files ps fresh).bind (buildFrom fmt files qs) := by
  induction ps generalizing fresh with
  | nil => rfl
  | cons p ps ih =>
    simp only [List.cons_append, buildFrom]
    cases addFile fmt files fresh p with
    | error e => rfl
    | ok fresh' => exact ih fresh'

theorem buildFrom_single (path : Path) (fresh : List (String × Declared)) :
    buildFrom fmt files [path] fresh = addFile fmt files fresh path := by
  simp only [buildFrom]
  cases addFile fmt files fresh path <;> rfl

theorem buildFrom_concat (hfmt : fmt.ChecksKeys) {ps : List Path} {p : Path} :
    buildFrom fmt files (ps ++ [p]) [] = .ok out ↔ ∃ fresh own, buildFrom fmt files ps [] = .ok fresh
      ∧ buildFrom fmt files [p] [] = .ok own ∧ (Dict.keys own).Disjoint (Dict.keys fresh)
      ∧ out = fresh ++ own := by
  rw [buildFrom_append, buildFrom_single]
  cases hfirst : buildFrom fmt files ps [] with
  | error e => simp [Except.bind]
  | ok fresh =>
    simp only [Except.bind, buildFrom_single]
    rw [addFile_ok_iff hfmt]
    simp

end Build

/-! ## The three formats -/

theorem checksKeys_yamlFormat {Entry : Type} (raw : Entry → YamlCodeEntry)
    (piiInDetail : Entry → Bool) : (yamlFormat raw piiInDetail).ChecksKeys := by
  intro path doc fresh code e m
  have hnil : code ∉ Dict.keys ([] : List (String × Declared)) := List.not_mem_nil
  simp only [yamlFormat, yamlEntry]
  by_cases hkey : isUpperSnake code = false
  · simp [hkey]
  · by_cases hfresh : code ∈ Dict.keys fresh
    · simp [hkey, hfresh]
    · rw [if_neg hkey, if_neg hkey, if_neg hfresh, if_neg hnil, and_iff_right hfresh]

theorem Python.checksKeys : Python.format.ChecksKeys := by
  intro path doc fresh code raw m
  have hnil : code ∉ Dict.keys ([] : List (String × Declared)) := List.not_mem_nil
  simp only [Python.format, Python.entry]
  by_cases hfresh : code ∈ Dict.keys fresh
  · simp [hfresh]
  · rw [if_neg hfresh, if_neg hnil, and_iff_right hfresh]

theorem Sdk.checksKeys (sdk : Sdk) : sdk.format.ChecksKeys := by
  cases sdk with
  | rust | go => exact checksKeys_yamlFormat _ _
  | python => exact Python.checksKeys

/-! ## Files of an SDK -/

section Files

variable {sdk : Sdk} {files : Files sdk} {ps : List Path} {p : Path}
  {fresh own : List (String × Declared)}

theorem build_eq (ps : List Path) : build sdk files ps = buildFrom sdk.format files ps [] := by
  cases sdk <;> rfl

theorem build_nil : build sdk files [] = .ok [] := by
  cases sdk <;> rfl

/-- **One more file**: it has to be readable, and to name no code that was read before. -/
theorem build_concat :
    build sdk files (ps ++ [p]) = .ok out ↔ ∃ fresh own, build sdk files ps = .ok fresh
      ∧ build sdk files [p] = .ok own ∧ (Dict.keys own).Disjoint (Dict.keys fresh)
      ∧ out = fresh ++ own := by
  simp only [build_eq]
  exact buildFrom_concat sdk.checksKeys

theorem build_single (h : build sdk files [p] = .ok own) : (Dict.keys own).Nodup
    ∧ (∀ out ∈ own, out.2.origin = p) ∧ Dict.keys own = codesIn sdk files p := by
  rw [build_eq, buildFrom_single] at h
  obtain ⟨hnodup, horigin, doc, hdoc, hkeys⟩ := addFile_keys sdk.checksKeys h
  refine ⟨hnodup, horigin, ?_⟩
  simp only [codesIn, hdoc, hkeys]

theorem build_single_keys (h : build sdk files [p] = .ok own) :
    Dict.keys own = codesIn sdk files p := (build_single h).2.2

/-- The codes of all files. -/
theorem mem_keys_build (h : build sdk files ps = .ok fresh) {code : String} :
    code ∈ Dict.keys fresh ↔ ∃ p ∈ ps, code ∈ codesIn sdk files p := by
  induction ps using List.reverseRecOn generalizing fresh with
  | nil =>
    rw [build_nil] at h
    cases h
    simp [Dict.keys]
  | append_singleton ps p ih =>
    obtain ⟨first, own, hfirst, hown, -, rfl⟩ := build_concat.1 h
    have hkeys : Dict.keys (first ++ own) = Dict.keys first ++ codesIn sdk files p := by
      rw [← build_single_keys hown]
      exact List.map_append
    rw [hkeys, List.mem_append, ih hfirst]
    simp [or_and_right, exists_or]

theorem nodup_keys_build (h : build sdk files ps = .ok fresh) : (Dict.keys fresh).Nodup := by
  induction ps using List.reverseRecOn generalizing fresh with
  | nil =>
    rw [build_nil] at h
    cases h
    exact List.nodup_nil
  | append_singleton ps p ih =>
    obtain ⟨first, own, hfirst, hown, hdisjoint, rfl⟩ := build_concat.1 h
    have hkeys : Dict.keys (first ++ own) = Dict.keys first ++ Dict.keys own := List.map_append
    rw [hkeys]
    exact (ih hfirst).append (build_single hown).1 fun code hcode hcode' => hdisjoint hcode' hcode

/-- A code is as its file has it. -/
theorem get?_build (h : build sdk files ps = .ok fresh) (hp : p ∈ ps) :
    ∃ own, build sdk files [p] = .ok own
      ∧ ∀ code ∈ codesIn sdk files p, Dict.get? fresh code = Dict.get? own code := by
  induction ps using List.reverseRecOn generalizing fresh with
  | nil => cases hp
  | append_singleton ps q ih =>
    obtain ⟨first, own, hfirst, hown, hdisjoint, rfl⟩ := build_concat.1 h
    have hkeys := build_single_keys hown
    rcases List.mem_append.1 hp with hp | hp
    · obtain ⟨own', hown', hget⟩ := ih hfirst hp
      refine ⟨own', hown', fun code hcode => ?_⟩
      have hmem : code ∈ Dict.keys own' := build_single_keys hown' ▸ hcode
      rw [Dict.get?_append, hget code hcode]
      cases hsome : Dict.get? own' code with
      | none => exact absurd hmem (Dict.get?_eq_none_iff.1 hsome)
      | some v => rw [Option.some_or]
    · cases List.mem_singleton.1 hp
      refine ⟨own, hown, fun code hcode => ?_⟩
      have hnone : Dict.get? first code = none :=
        Dict.get?_eq_none_iff.2 fun hmem => hdisjoint (hkeys ▸ hcode) hmem
      rw [Dict.get?_append, hnone, Option.none_or]

/-- Several files can be read together when each can be read and no two name one code. -/
theorem build_isOk_iff : (∃ fresh, build sdk files ps = .ok fresh)
    ↔ (∀ p ∈ ps, ∃ own, build sdk files [p] = .ok own)
      ∧ ps.Pairwise fun p q => (codesIn sdk files p).Disjoint (codesIn sdk files q) := by
  induction ps using List.reverseRecOn with
  | nil => simp [build_nil]
  | append_singleton ps p ih =>
    refine ⟨fun ⟨fresh, h⟩ => ?_, fun ⟨hreads, hpairwise⟩ => ?_⟩
    · obtain ⟨first, own, hfirst, hown, hdisjoint, -⟩ := build_concat.1 h
      obtain ⟨hreads, hpairwise⟩ := ih.1 ⟨first, hfirst⟩
      refine ⟨fun q hq => ?_, List.pairwise_append.2 ⟨hpairwise, List.pairwise_singleton _ _, ?_⟩⟩
      · rcases List.mem_append.1 hq with hq | hq
        · exact hreads q hq
        · cases List.mem_singleton.1 hq
          exact ⟨own, hown⟩
      · intro q hq p' hp' code hcode hcode'
        cases List.mem_singleton.1 hp'
        rw [build_single_keys hown] at hdisjoint
        exact hdisjoint hcode' ((mem_keys_build hfirst).2 ⟨q, hq, hcode⟩)
    · obtain ⟨hpairwise, -, hnew⟩ := List.pairwise_append.1 hpairwise
      obtain ⟨first, hfirst⟩ :=
        ih.2 ⟨fun q hq => hreads q (List.mem_append_left _ hq), hpairwise⟩
      obtain ⟨own, hown⟩ := hreads p (List.mem_append_right _ (List.mem_singleton_self p))
      refine ⟨first ++ own, build_concat.2 ⟨first, own, hfirst, hown, ?_, rfl⟩⟩
      intro code hcode hcode'
      rw [build_single_keys hown] at hcode
      obtain ⟨q, hq, hcode'⟩ := (mem_keys_build hfirst).1 hcode'
      exact hnew q hq p (List.mem_singleton_self p) hcode' hcode

/-! ## `load` and `reload` -/

theorem load_ok_iff {c c' : Catalog} : load sdk files c p = .ok c'
    ↔ ∃ fresh, build sdk files [p] = .ok fresh ∧ clash sdk c p fresh = none
      ∧ c' = (c.commit fresh).push p := by
  unfold load
  cases build sdk files [p] with
  | error e => simp
  | ok fresh =>
    dsimp only
    cases hclash : clash sdk c p fresh with
    | some e => simp [hclash]
    | none => simp [hclash, eq_comm]

theorem reload_ok_iff {c c' : Catalog} : reload sdk files c = .ok c'
    ↔ c.paths = [] ∧ c' = c
      ∨ c.paths ≠ [] ∧ ∃ fresh, build sdk files c.paths = .ok fresh ∧ c' = c.swap fresh := by
  unfold reload
  by_cases hpaths : c.paths = []
  · simp [hpaths, eq_comm]
  · rw [if_neg hpaths]
    cases build sdk files c.paths with
    | error e => simp [hpaths]
    | ok fresh => simp [hpaths, eq_comm]

theorem Catalog.mem_push {c : Catalog} {q : Path} :
    q ∈ (c.push p).paths ↔ q = p ∨ q ∈ c.paths := by
  simp only [Catalog.push]
  split_ifs with hp
  · refine ⟨Or.inr, fun h => ?_⟩
    rcases h with rfl | h
    · exact hp
    · exact h
  · rw [List.mem_append, List.mem_singleton, or_comm]

theorem keys_metasOf (fresh : List (String × Declared)) :
    Dict.keys (metasOf fresh) = Dict.keys fresh := by
  simp only [Dict.keys, metasOf, List.map_map]
  rfl

end Files

end Fasten.Codes
