import Fasten.Codes.Build
import Fasten.Lib.Run

set_option autoImplicit false

/-! # Codes added with `register`

A code added with `register` is kept by every `load`, which refuses a file that names it, and by every
`reload` whose files do not name it. `reload` itself does not look for it. -/

namespace Fasten.Codes

/-! ## Histories -/

/-- A call, with the yaml files as they are when it is made. -/
inductive Op (sdk : Sdk) where
  | register (domain : String) (codes : List (String × Meta))
  | load (files : Files sdk) (path : Path)
  | reload (files : Files sdk)

/-- The catalog after a call; one that fails leaves the SDK's own part as it was. -/
def step (sdk : Sdk) (c : Catalog) : Op sdk → Catalog
  | .register domain codes => (register sdk c domain codes).1
  | .load files path =>
    match load sdk files c path with
    | .ok c' => c'
    | .error _ => c
  | .reload files =>
    match reload sdk files c with
    | .ok c' => c'
    | .error _ => c

/-- What `register` makes of a Meta. -/
def registeredAs : Sdk → String → Meta → Meta
  | .rust, name, m => filled name m
  | .go, name, m => filled name (Go.marshal name m)
  | .python, name, m => filled name (Python.metaToDict name m)

/-! ## fasten-core -/

variable {c : Catalog} {domain code : String} {codes : List (String × Meta)}

/-- A code that fasten-core has, it keeps. -/
theorem mem_coreRegister {store : List (String × Meta)} {name : String}
    (h : name ∈ Dict.keys store) : name ∈ Dict.keys (coreRegister domain codes store).1 := by
  induction codes generalizing store with
  | nil => exact h
  | cons item rest ih =>
    rw [coreRegister]
    split_ifs
    · exact h
    · exact h
    · exact h
    · exact h
    · exact ih (Dict.mem_keys_set.2 (Or.inr h))

/-- A registration that succeeds brings codes that were not there. -/
theorem coreRegister_ok {store : List (String × Meta)}
    (h : (coreRegister domain codes store).2 = .ok ()) :
    (∀ name ∈ Dict.keys codes, name ∉ Dict.keys store)
      ∧ (coreRegister domain codes store).1
        = store ++ codes.map fun item => (item.1, filled item.1 item.2) := by
  induction codes generalizing store with
  | nil => exact ⟨nofun, (List.append_nil store).symm⟩
  | cons item rest ih =>
    obtain ⟨name, m⟩ := item
    rw [coreRegister] at h ⊢
    split_ifs at h ⊢ with hkey hid hdomain hnew
    obtain ⟨hfresh, hstore⟩ := ih h
    rw [Dict.set_of_notMem hnew] at hfresh hstore
    refine ⟨fun code hcode => ?_, ?_⟩
    · rw [Dict.keys_cons, List.mem_cons] at hcode
      rcases hcode with rfl | hcode
      · exact hnew
      · intro hmem
        refine hfresh code hcode ?_
        simp only [Dict.keys, List.map_append] at hmem ⊢
        exact List.mem_append_left _ hmem
    · rw [Dict.set_of_notMem hnew, hstore, List.append_assoc]
      rfl

theorem get?_copyCode {core registry : List (String × Meta)} {names : List String}
    {name : String} {m : Meta} (hm : Dict.get? core name = some m) :
    Dict.get? (names.foldl (copyCode core) registry) name
      = if name ∈ names then some m else Dict.get? registry name := by
  induction names using List.reverseRecOn with
  | nil => rfl
  | append_singleton names last ih =>
    rw [List.foldl_append, List.foldl_cons, List.foldl_nil, copyCode]
    by_cases hlast : last = name
    · subst hlast
      rw [hm]
      simp [Dict.get?_set]
    · have hne : ¬name = last := fun heq => hlast heq.symm
      cases Dict.get? core last with
      | none =>
        dsimp only
        rw [ih]
        simp [hne]
      | some v =>
        dsimp only
        rw [Dict.get?_set, if_neg hlast, ih]
        simp [hne]

/-! ## `register` -/

/-- What is true of a code that was registered and that no yaml file has taken. -/
structure Registered (sdk : Sdk) (code : String) (m : Meta) (c : Catalog) : Prop where
  found : Dict.get? c.registry code = some m
  notYaml : code ∉ c.yamlCodes
  inCore : sdk = .rust ∨ code ∈ Dict.keys c.core

theorem Rust.register_cases (c : Catalog) (domain : String) (codes : List (String × Meta)) :
    ((∃ e, (Rust.register c domain codes).2 = .error e) ∧ (Rust.register c domain codes).1 = c)
      ∨ (Rust.register c domain codes).2 = .ok ()
        ∧ (∀ code ∈ Dict.keys codes, code ∉ Dict.keys c.registry)
        ∧ (Rust.register c domain codes).1 = Catalog.mk (Dict.update c.registry
          (codes.map fun item => (item.1, filled item.1 item.2))) c.yamlCodes c.paths c.origins
          c.core := by
  unfold Rust.register
  cases (coreRegister domain (Dict.update [] codes) []).2 with
  | error e => exact Or.inl ⟨⟨e, rfl⟩, rfl⟩
  | ok _ =>
    dsimp only
    cases hfind : (Dict.keys codes).find? (fun id => decide (id ∈ Dict.keys c.registry)) with
    | some id => exact Or.inl ⟨⟨_, rfl⟩, rfl⟩
    | none =>
      refine Or.inr ⟨rfl, fun code hcode hmem => ?_, rfl⟩
      exact List.find?_eq_none.1 hfind code hcode (decide_eq_true hmem)

/-- The codes fasten-core is given, in the form it keeps them. -/
def marshalled (marshal : String → Meta → Meta) (codes : List (String × Meta)) :
    List (String × Meta) :=
  (Dict.update [] codes).map fun item => (item.1, filled item.1 (marshal item.1 item.2))

theorem registerInCore_cases (marshal : String → Meta → Meta) (c : Catalog) (domain : String)
    (codes : List (String × Meta)) :
    ((∃ e, (registerInCore marshal c domain codes).2 = .error e)
        ∧ ∃ core, (∀ name ∈ Dict.keys c.core, name ∈ Dict.keys core)
          ∧ (registerInCore marshal c domain codes).1 = { c with core := core })
      ∨ (registerInCore marshal c domain codes).2 = .ok ()
        ∧ (∀ code ∈ Dict.keys codes, code ∉ Dict.keys c.core)
        ∧ (registerInCore marshal c domain codes).1 = { c with
          core := c.core ++ marshalled marshal codes
          registry := (Dict.keys (Dict.update [] codes)).foldl
            (copyCode (c.core ++ marshalled marshal codes)) c.registry } := by
  have hmarshalled : ((Dict.update [] codes).map fun item => (item.1, marshal item.1 item.2)).map
      (fun item => (item.1, filled item.1 item.2)) = marshalled marshal codes := by
    rw [List.map_map]
    rfl
  have hkeys : Dict.keys ((Dict.update [] codes).map fun item => (item.1, marshal item.1 item.2))
      = Dict.keys (Dict.update [] codes) := by
    simp only [Dict.keys, List.map_map]
    rfl
  unfold registerInCore
  dsimp only
  cases hcore : (coreRegister domain ((Dict.update [] codes).map fun item =>
      (item.1, marshal item.1 item.2)) c.core).2 with
  | error e => exact Or.inl ⟨⟨e, rfl⟩, _, fun name hname => mem_coreRegister hname, rfl⟩
  | ok _ =>
    obtain ⟨hnew, hstore⟩ := coreRegister_ok hcore
    rw [hmarshalled] at hstore
    rw [hkeys] at hnew
    dsimp only
    rw [hstore]
    refine Or.inr ⟨rfl, fun code hcode => hnew code ?_, rfl⟩
    exact Dict.mem_keys_update.2 (Or.inr hcode)

/-- The entry of a code that Go or Python has registered. -/
theorem get?_registerInCore (marshal : String → Meta → Meta)
    (hnew : ∀ code ∈ Dict.keys codes, code ∉ Dict.keys c.core) {m : Meta}
    (hm : Dict.get? (Dict.update [] codes) code = some m) :
    Dict.get? (c.core ++ marshalled marshal codes) code = some (filled code (marshal code m)) := by
  have hcode : code ∈ Dict.keys codes := by
    have hmem : code ∈ Dict.keys (Dict.update [] codes) :=
      List.mem_map.2 ⟨_, Dict.mem_of_get? hm, rfl⟩
    simpa [Dict.keys] using Dict.mem_keys_update.1 hmem
  rw [Dict.get?_append, Dict.get?_eq_none_iff.2 (hnew code hcode), Option.none_or, marshalled,
    Dict.get?_map (Dict.update [] codes) (fun name m => filled name (marshal name m)), hm]
  rfl

/-- Go and Python: a code that is registered and that no yaml file has. -/
theorem registered_registerInCore {sdk : Sdk} {marshal : String → Meta → Meta}
    (hok : (registerInCore marshal c domain codes).2 = .ok ()) {m : Meta}
    (hm : Dict.get? (Dict.update [] codes) code = some m) (hyaml : code ∉ c.yamlCodes) :
    Registered sdk code (filled code (marshal code m)) (registerInCore marshal c domain codes).1 := by
  rcases registerInCore_cases marshal c domain codes with ⟨⟨e, herror⟩, -⟩ | ⟨-, hnew, hstate⟩
  · rw [hok] at herror
    cases herror
  · have hget := get?_registerInCore marshal hnew hm
    rw [hstate]
    refine ⟨?_, hyaml, Or.inr ?_⟩
    · have hmem : code ∈ Dict.keys (Dict.update [] codes) :=
        List.mem_map.2 ⟨_, Dict.mem_of_get? hm, rfl⟩
      rw [get?_copyCode hget, if_pos hmem]
    · exact List.mem_map.2 ⟨_, Dict.mem_of_get? hget, rfl⟩

theorem registered_register {sdk : Sdk} (hok : (register sdk c domain codes).2 = .ok ()) {m : Meta}
    (hm : Dict.get? (Dict.update [] codes) code = some m) (hyaml : code ∉ c.yamlCodes) :
    Registered sdk code (registeredAs sdk code m) (register sdk c domain codes).1 := by
  cases sdk with
  | rust =>
    rcases Rust.register_cases c domain codes with ⟨⟨e, herror⟩, -⟩ | ⟨-, -, hstate⟩
    · cases hok.symm.trans herror
    · refine ⟨?_, ?_, Or.inl rfl⟩
      · rw [register, hstate]
        dsimp only
        rw [Dict.get?_update, Dict.get?_update_map codes filled, hm]
        rfl
      · rw [register, hstate]
        exact hyaml
  | go | python => exact registered_registerInCore hok hm hyaml

/-! ## Later calls -/

section Later

variable {sdk : Sdk} {code : String} {m : Meta} {c : Catalog}

theorem Registered.mem_keys (h : Registered sdk code m c) : code ∈ Dict.keys c.registry :=
  List.mem_map.2 ⟨_, Dict.mem_of_get? h.found, rfl⟩

/-- fasten-core refuses a code it has. -/
theorem Registered.registerInCore_step (h : Registered sdk code m c) (hsdk : sdk ≠ .rust)
    (marshal : String → Meta → Meta) (domain : String) (codes : List (String × Meta)) :
    Registered sdk code m (registerInCore marshal c domain codes).1 := by
  have hcore := h.inCore.resolve_left hsdk
  rcases registerInCore_cases marshal c domain codes with ⟨-, core, hgrows, hstate⟩ | ⟨-, hnew, hstate⟩
  · rw [hstate]
    exact ⟨h.found, h.notYaml, Or.inr (hgrows code hcore)⟩
  · have hcodes : code ∉ Dict.keys (Dict.update [] codes) := by
      intro hmem
      have hcode : code ∈ Dict.keys codes := by
        simpa [Dict.keys] using Dict.mem_keys_update.1 hmem
      exact hnew code hcode hcore
    obtain ⟨item, hitem, hname⟩ := List.mem_map.1 hcore
    cases hget : Dict.get? (c.core ++ marshalled marshal codes) code with
    | none =>
      refine absurd ?_ (Dict.get?_eq_none_iff.1 hget)
      exact List.mem_map.2 ⟨item, List.mem_append_left _ hitem, hname⟩
    | some m' =>
      rw [hstate]
      refine ⟨?_, h.notYaml, Or.inr ?_⟩
      · rw [get?_copyCode hget, if_neg hcodes]
        exact h.found
      · exact List.mem_map.2 ⟨item, List.mem_append_left _ hitem, hname⟩

theorem Registered.register_step (h : Registered sdk code m c) (domain : String)
    (codes : List (String × Meta)) : Registered sdk code m (register sdk c domain codes).1 := by
  cases sdk with
  | rust =>
    rcases Rust.register_cases c domain codes with ⟨-, hstate⟩ | ⟨-, hnew, hstate⟩
    · rw [register, hstate]
      exact h
    · have hcode : code ∉ Dict.keys (codes.map fun item => (item.1, filled item.1 item.2)) := by
        intro hmem
        refine hnew code ?_ h.mem_keys
        simpa [Dict.keys] using hmem
      rw [register, hstate]
      refine ⟨?_, h.notYaml, Or.inl rfl⟩
      dsimp only
      rw [Dict.get?_update_of_notMem hcode]
      exact h.found
  | go | python => exact h.registerInCore_step Sdk.noConfusion _ domain codes

/-- `load` refuses a file that names a registered code. -/
theorem notMem_of_clash_eq_none {path : Path} {fresh : List (String × Declared)}
    (h : clash sdk c path fresh = none) (hcode : code ∈ Dict.keys c.registry)
    (hyaml : code ∉ c.yamlCodes) : code ∉ Dict.keys fresh := by
  intro hfresh
  cases sdk with
  | rust | go =>
    simp only [clash, registeredClash, Option.map_eq_none_iff, List.find?_eq_none] at h
    exact h code hfresh (by simp [hcode, hyaml])
  | python =>
    simp only [clash, Python.clash, List.findSome?_eq_none_iff] at h
    have hnone := h code hfresh
    cases horigin : Dict.get? c.origins code with
    | none =>
      rw [horigin] at hnone
      simp [hcode, hyaml] at hnone
    | some existing =>
      rw [horigin] at hnone
      by_cases hpath : existing = path <;> simp [hpath, hcode, hyaml] at hnone

theorem Registered.load_step (h : Registered sdk code m c) {files : Files sdk} {path : Path}
    {c' : Catalog} (hload : load sdk files c path = .ok c') : Registered sdk code m c' := by
  obtain ⟨fresh, -, hclash, rfl⟩ := load_ok_iff.1 hload
  have hfresh := notMem_of_clash_eq_none hclash h.mem_keys h.notYaml
  refine ⟨?_, ?_, h.inCore⟩
  · rw [Catalog.push, Catalog.commit]
    dsimp only
    rw [Dict.get?_update_of_notMem (by rwa [keys_metasOf])]
    exact h.found
  · simp only [Catalog.push, Catalog.commit, List.mem_append, not_or]
    exact ⟨h.notYaml, hfresh⟩

/-- A `reload` whose files do not name the code. -/
theorem Registered.reload_step (h : Registered sdk code m c) {files : Files sdk}
    (hfiles : ∀ path ∈ c.paths, code ∉ codesIn sdk files path) {c' : Catalog}
    (hreload : reload sdk files c = .ok c') : Registered sdk code m c' := by
  rcases reload_ok_iff.1 hreload with ⟨-, rfl⟩ | ⟨-, fresh, hbuild, rfl⟩
  · exact h
  · have hfresh : code ∉ Dict.keys fresh := by
      rw [mem_keys_build hbuild]
      intro ⟨path, hpath, hmem⟩
      exact hfiles path hpath hmem
    refine ⟨?_, hfresh, h.inCore⟩
    rw [Catalog.swap]
    dsimp only
    rw [Dict.get?_update_of_notMem (by rwa [keys_metasOf]), Dict.get?_drop, if_neg h.notYaml]
    exact h.found

end Later

/-! ## Runs -/

/-- No file that a `reload` reads names the code. -/
def Spares (sdk : Sdk) (code : String) (c : Catalog) : Op sdk → Prop
  | .reload files => ∀ path ∈ c.paths, code ∉ codesIn sdk files path
  | _ => True

theorem Registered.step {sdk : Sdk} {m : Meta} (h : Registered sdk code m c) {op : Op sdk}
    (hop : Spares sdk code c op) : Registered sdk code m (step sdk c op) := by
  cases op with
  | register domain codes => exact h.register_step domain codes
  | load files path =>
    rw [Codes.step]
    cases hload : load sdk files c path with
    | error e => exact h
    | ok c' => exact h.load_step hload
  | reload files =>
    rw [Codes.step]
    cases hreload : reload sdk files c with
    | error e => exact h
    | ok c' => exact h.reload_step hop hreload

/-- Yaml codes are in the registry. -/
def YamlKnown (c : Catalog) : Prop := ∀ code ∈ c.yamlCodes, code ∈ Dict.keys c.registry

theorem YamlKnown.step (h : YamlKnown c) (op : Op .rust) : YamlKnown (step .rust c op) := by
  cases op with
  | register domain codes =>
    rcases Rust.register_cases c domain codes with ⟨-, hstate⟩ | ⟨-, -, hstate⟩
    · rw [Codes.step, register, hstate]
      exact h
    · rw [Codes.step, register, hstate]
      exact fun code hcode => Dict.mem_keys_update.2 (Or.inl (h code hcode))
  | load files path =>
    rw [Codes.step]
    cases hload : load .rust files c path with
    | error e => exact h
    | ok c' =>
      obtain ⟨fresh, -, -, rfl⟩ := load_ok_iff.1 hload
      intro code hcode
      refine Dict.mem_keys_update.2 ?_
      rw [keys_metasOf]
      exact (List.mem_append.1 hcode).imp_left (h code)
  | reload files =>
    rw [Codes.step]
    cases hreload : reload .rust files c with
    | error e => exact h
    | ok c' =>
      rcases reload_ok_iff.1 hreload with ⟨-, rfl⟩ | ⟨-, fresh, -, rfl⟩
      · exact h
      · intro code hcode
        refine Dict.mem_keys_update.2 (Or.inr ?_)
        rw [keys_metasOf]
        exact hcode

/-- **Codes added with `register` are kept.** After any calls, a code that `register` adds (in Go and
    Python: one that no yaml file has brought) stays in the catalog with its Meta through all calls
    that follow, if no file that a `reload` among them reads names it. -/
theorem registered_kept (sdk : Sdk) (before : List (Op sdk)) {domain : String}
    {codes : List (String × Meta)} {c c' : Catalog} (hc : c = before.foldl (step sdk) .empty)
    (hregister : register sdk c domain codes = (c', .ok ())) {code : String} {m : Meta}
    (hm : Dict.get? (Dict.update [] codes) code = some m)
    (hyaml : sdk ≠ .rust → code ∉ c.yamlCodes) (ops : List (Op sdk))
    (hops : Run.AllAlong (step sdk) (Spares sdk code) c' ops) :
    Dict.get? (ops.foldl (step sdk) c').registry code = some (registeredAs sdk code m) := by
  have hfree : code ∉ c.yamlCodes := by
    cases sdk with
    | rust =>
      -- Rust refuses a code that is in the registry, so one that came from yaml too
      have hknown : YamlKnown c := by
        rw [hc]
        exact List.foldlRecOn before _ nofun
          fun c hc op _ => YamlKnown.step hc op
      intro hcode
      rcases Rust.register_cases c domain codes with ⟨⟨e, herror⟩, -⟩ | ⟨-, hnew, -⟩
      · have hok := congrArg Prod.snd hregister
        cases hok.symm.trans herror
      · refine hnew code ?_ (hknown code hcode)
        have hmem : code ∈ Dict.keys (Dict.update [] codes) :=
          List.mem_map.2 ⟨_, Dict.mem_of_get? hm, rfl⟩
        simpa [Dict.keys] using Dict.mem_keys_update.1 hmem
    | go | python => exact hyaml Sdk.noConfusion
  have hregistered : Registered sdk code (registeredAs sdk code m) c' := by
    have hstate := registered_register (congrArg Prod.snd hregister) hm hfree
    rwa [hregister] at hstate
  have hstep : ∀ (c : Catalog) (op : Op sdk), Registered sdk code (registeredAs sdk code m) c →
      Spares sdk code c op → Registered sdk code (registeredAs sdk code m) (step sdk c op) :=
    fun c op hc hop => hc.step hop
  exact (Run.invariant_of_step hstep ops c' hregistered hops).found

/-- A document of domain `fleet` that names one code and leaves everything else out. -/
def oneCode : (sdk : Sdk) → String → sdk.Doc
  | .rust, code => YamlFile.mk "fleet" "" [(code, ⟨⟨"", "", "", "", "", "", "", false⟩, false⟩)]
  | .go, code => YamlFile.mk "fleet" "" [(code, ⟨"", "", "", "", "", "", "", false⟩)]
  | .python, code => some (Python.Mapping.mk (some (.text "fleet")) none
      (some [(code, some ⟨none, none, none, none, none, none, none, none, none, none⟩)]))

/-- One yaml file, with one code. -/
def oneFile (sdk : Sdk) (path : Path) (code : String) : Files sdk :=
  fun p => if p = path then .document (oneCode sdk code) else .unreadable

/-- A Meta for a critical code of domain `fleet`. -/
def criticalCode : Meta :=
  ⟨"fleet", "", "", .critical, "", "", "", .medium, false, false, false, []⟩

theorem registered_kept_oneCode : Dict.get?
    ([Op.load (oneFile .go "a.yaml" "FLEET_UP") "a.yaml", .reload (oneFile .go "a.yaml" "FLEET_UP")].foldl
      (step .go) (register .go .empty "fleet" [("FLEET_LOST", criticalCode)]).1).registry "FLEET_LOST"
    = some (registeredAs .go "FLEET_LOST" criticalCode) := by
  have hregister : register .go .empty "fleet" [("FLEET_LOST", criticalCode)]
      = ((register .go .empty "fleet" [("FLEET_LOST", criticalCode)]).1, .ok ()) := rfl
  refine registered_kept .go [] rfl hregister rfl (fun _ => List.not_mem_nil) _ ⟨trivial, ?_, trivial⟩
  show ∀ path ∈ ["a.yaml"], "FLEET_LOST" ∉ codesIn .go (oneFile .go "a.yaml" "FLEET_UP") path
  decide +kernel

/-- A `reload` after an edit that names a registered code replaces its Meta, and the next edit drops
    the code; in Go and Python a code that a file had brought can be registered, and the next
    `reload` of the same file takes it back. -/
theorem registered_replaced_in (sdk : Sdk) :
    Dict.get? ([Op.register "fleet" [("FLEET_LOST", criticalCode)],
      .load (oneFile sdk "a.yaml" "FLEET_UP") "a.yaml",
      .reload (oneFile sdk "a.yaml" "FLEET_LOST")].foldl (step sdk) .empty).registry "FLEET_LOST"
      = some ⟨"fleet", "", "", .info, "", "", "FLEET_LOST", .medium, false, false, false, []⟩
    ∧ Dict.get? ([Op.register "fleet" [("FLEET_LOST", criticalCode)],
      .load (oneFile sdk "a.yaml" "FLEET_UP") "a.yaml",
      .reload (oneFile sdk "a.yaml" "FLEET_LOST"),
      .reload (oneFile sdk "a.yaml" "FLEET_UP")].foldl (step sdk) .empty).registry "FLEET_LOST" = none
    ∧ (sdk ≠ .rust → Dict.get? ([Op.load (oneFile sdk "a.yaml" "FLEET_LOST") "a.yaml",
      .register "fleet" [("FLEET_LOST", criticalCode)],
      .reload (oneFile sdk "a.yaml" "FLEET_LOST")].foldl (step sdk) .empty).registry "FLEET_LOST"
      = some ⟨"fleet", "", "", .info, "", "", "FLEET_LOST", .medium, false, false, false, []⟩) := by
  cases sdk <;> decide +kernel

/-- So it is in Python. -/
theorem registered_replaced :
    Dict.get? ([Op.register "fleet" [("FLEET_LOST", criticalCode)],
      .load (oneFile .python "a.yaml" "FLEET_UP") "a.yaml",
      .reload (oneFile .python "a.yaml" "FLEET_LOST")].foldl (step .python) .empty).registry "FLEET_LOST"
      = some ⟨"fleet", "", "", .info, "", "", "FLEET_LOST", .medium, false, false, false, []⟩
    ∧ Dict.get? ([Op.register "fleet" [("FLEET_LOST", criticalCode)],
      .load (oneFile .python "a.yaml" "FLEET_UP") "a.yaml",
      .reload (oneFile .python "a.yaml" "FLEET_LOST"),
      .reload (oneFile .python "a.yaml" "FLEET_UP")].foldl (step .python) .empty).registry "FLEET_LOST" = none
    ∧ Dict.get? ([Op.load (oneFile .python "a.yaml" "FLEET_LOST") "a.yaml",
      .register "fleet" [("FLEET_LOST", criticalCode)],
      .reload (oneFile .python "a.yaml" "FLEET_LOST")].foldl (step .python) .empty).registry "FLEET_LOST"
      = some ⟨"fleet", "", "", .info, "", "", "FLEET_LOST", .medium, false, false, false, []⟩ :=
  ⟨(registered_replaced_in .python).1, (registered_replaced_in .python).2.1,
    (registered_replaced_in .python).2.2 (by decide)⟩

end Fasten.Codes
