import Fasten.Lib.Dict

set_option autoImplicit false

/-! # The code catalog

`register`, `load` and `reload` of the Rust, Go and Python SDKs (`rust/src/lib.rs`,
`rust/src/codes_yaml.rs`, `go/fasten.go`, `go/codes_yaml.go`, `python/fasten/codes.py`,
`python/fasten/codes_yaml.py`) and `CodeRegistry::register` of `fasten-core/src/catalog.rs`.

A yaml file is what the SDK's yaml library makes of it. The maps of the source are dictionaries here;
where Go and Rust go through a map in an order of their own, only the choice of the reported error
depends on it. -/

namespace Fasten.Codes

/-! ## Codes -/

/-- `Severity`. Go's type is any string, so `Register` may bring `other`. -/
inductive Severity where
  | debug
  | info
  | warn
  | error
  | critical
  | other (name : String)
  deriving DecidableEq

/-- `RetentionClass`, a string in Go as well. -/
inductive RetentionClass where
  | short
  | medium
  | long
  | other (name : String)
  deriving DecidableEq

structure Meta where
  domain : String
  category : String
  action : String
  severity : Severity
  description : String
  emitter : String
  id : String
  retentionClass : RetentionClass
  highVolume : Bool
  piiInDetail : Bool
  declaredUnused : Bool
  detailPassthroughKeys : List String
  deriving DecidableEq

/-- The path of a file, up to what the SDK takes for equal: `PathBuf`s in Rust and `Path`s in Python
    ignore a doubled separator or a `.` between two, Go compares texts. -/
abbrev Path := String

inductive CatalogError where
  | invalidKey (key : String)
  | idMismatch (key id : String)
  | domainMismatch (key declared registered : String)
  | duplicateCode (key : String)
  | unreadable (path : Path)
  | unparsable (path : Path)
  | notMapping (path : Path)
  | noDomain (path : Path)
  | codesNotMapping (path : Path)
  | badKey (path : Path) (code : String)
  | entryNotMapping (path : Path) (code : String)
  | badSeverity (path : Path) (code value : String)
  | badRetention (path : Path) (code value : String)
  | domainDisagrees (path : Path) (code declared fileDomain : String)
  /-- One code twice among the files that are read. -/
  | declaredTwice (path : Path) (code : String) (origin : Path)
  /-- Python: the code came with another file. -/
  | alreadyLoaded (path : Path) (code : String) (origin : Path)
  | alreadyRegistered (path : Path) (code : String)
  deriving DecidableEq

/-- `^[A-Z][A-Z0-9_]*$` -/
def isUpperSnake (s : String) : Bool :=
  match s.toList with
  | [] => false
  | c :: rest => c.isUpper && rest.all fun c => c.isUpper || c.isDigit || c == '_'

/-! ## `CodeRegistry::register` -/

/-- The entry of the registry for a code. -/
def filled (name : String) (m : Meta) : Meta :=
  { m with
    id := if m.id = "" then name else m.id
    retentionClass := if m.piiInDetail then .short else m.retentionClass }

/-- Codes go in one at a time, so a failure leaves those before it. -/
def coreRegister (domain : String) :
    List (String × Meta) → List (String × Meta) → List (String × Meta) × Except CatalogError Unit
  | [], store => (store, .ok ())
  | (name, m) :: rest, store =>
    if isUpperSnake name = false then (store, .error (.invalidKey name))
    else if m.id ≠ "" ∧ m.id ≠ name then (store, .error (.idMismatch name m.id))
    else if m.domain ≠ domain then (store, .error (.domainMismatch name m.domain domain))
    else if name ∈ Dict.keys store then (store, .error (.duplicateCode name))
    else coreRegister domain rest (Dict.set store name (filled name m))

/-! ## Reading yaml files -/

/-- What an SDK gets when it reads a file. -/
inductive FileRead (Doc : Type) where
  | unreadable
  | unparsable
  | document (doc : Doc)

/-- A code of a yaml file, and the file. -/
structure Declared where
  info : Meta
  origin : Path
  deriving DecidableEq

/-- How an SDK reads a document: the checks on its head, its codes, and the checks on one code, which
    look at the codes read so far. -/
structure Format (Doc Entry : Type) where
  head : Path → Doc → Except CatalogError Unit
  codes : Doc → List (String × Entry)
  entry : Path → Doc → List (String × Declared) → String → Entry → Except CatalogError Meta

section Build

variable {Doc Entry : Type} (fmt : Format Doc Entry) (files : Path → FileRead Doc)

def addCodes (path : Path) (doc : Doc) :
    List (String × Entry) → List (String × Declared) → Except CatalogError (List (String × Declared))
  | [], fresh => .ok fresh
  | (code, raw) :: rest, fresh =>
    match fmt.entry path doc fresh code raw with
    | .error e => .error e
    | .ok m => addCodes path doc rest (Dict.set fresh code ⟨m, path⟩)

def addFile (fresh : List (String × Declared)) (path : Path) :
    Except CatalogError (List (String × Declared)) :=
  match files path with
  | .unreadable => .error (.unreadable path)
  | .unparsable => .error (.unparsable path)
  | .document doc =>
    match fmt.head path doc with
    | .error e => .error e
    | .ok _ => addCodes fmt path doc (fmt.codes doc) fresh

/-- The codes of all files, or the first error. -/
def buildFrom : List Path → List (String × Declared) → Except CatalogError (List (String × Declared))
  | [], fresh => .ok fresh
  | path :: rest, fresh =>
    match addFile fmt files fresh path with
    | .error e => .error e
    | .ok fresh => buildFrom rest fresh

end Build

/-- The error for a code that is read twice. -/
def declaredTwice (path : Path) (code : String) (fresh : List (String × Declared)) : CatalogError :=
  .declaredTwice path code (((Dict.get? fresh code).map Declared.origin).getD "")

/-! ### Rust and Go -/

/-- Go's `yamlCodeEntry`, which Rust's `YamlCodeEntry` adds a field to. -/
structure YamlCodeEntry where
  domain : String
  category : String
  action : String
  severity : String
  description : String
  emitter : String
  retentionClass : String
  highVolume : Bool

/-- `YamlFile` and `yamlFile`. -/
structure YamlFile (Entry : Type) where
  domain : String
  emitter : String
  codes : List (String × Entry)

/-- `parse_severity` and `parseSeverityYAML`. -/
def parseSeverity : String → Option Severity
  | "" | "info" => some .info
  | "debug" => some .debug
  | "warn" => some .warn
  | "error" => some .error
  | "critical" => some .critical
  | _ => none

/-- `parse_retention` and `parseRetentionYAML`. -/
def parseRetention : String → Option RetentionClass
  | "" | "medium" => some .medium
  | "short" => some .short
  | "long" => some .long
  | _ => none

/-- The loop body of `build_from_paths` and of `buildFromYAMLPaths`. -/
def yamlEntry (path : Path) (domain emitter : String) (fresh : List (String × Declared))
    (code : String) (raw : YamlCodeEntry) (piiInDetail : Bool) : Except CatalogError Meta :=
  if isUpperSnake code = false then .error (.badKey path code)
  else if code ∈ Dict.keys fresh then .error (declaredTwice path code fresh)
  else
    match parseSeverity raw.severity with
    | none => .error (.badSeverity path code raw.severity)
    | some sev =>
      match parseRetention raw.retentionClass with
      | none => .error (.badRetention path code raw.retentionClass)
      | some rc =>
        if raw.domain ≠ "" ∧ raw.domain ≠ domain then
          .error (.domainDisagrees path code raw.domain domain)
        else .ok
          { domain := domain
            category := raw.category
            action := raw.action
            severity := sev
            description := raw.description
            emitter := if raw.emitter = "" then emitter else raw.emitter
            id := code
            retentionClass := rc
            highVolume := raw.highVolume
            piiInDetail := piiInDetail
            declaredUnused := false
            detailPassthroughKeys := [] }

/-- How Rust and Go read a document, with their types of entries. -/
def yamlFormat {Entry : Type} (raw : Entry → YamlCodeEntry) (piiInDetail : Entry → Bool) :
    Format (YamlFile Entry) Entry where
  head path doc := if doc.domain = "" then .error (.noDomain path) else .ok ()
  codes := YamlFile.codes
  entry path doc fresh code e :=
    yamlEntry path doc.domain doc.emitter fresh code (raw e) (piiInDetail e)

structure Rust.YamlCodeEntry extends Codes.YamlCodeEntry where
  piiInDetail : Bool

def Rust.format : Format (YamlFile Rust.YamlCodeEntry) Rust.YamlCodeEntry :=
  yamlFormat Rust.YamlCodeEntry.toYamlCodeEntry Rust.YamlCodeEntry.piiInDetail

/-- Go has no field for `pii_in_detail`. -/
def Go.format : Format (YamlFile YamlCodeEntry) YamlCodeEntry := yamlFormat id fun _ => false

/-! ### Python -/

namespace Python

/-- A value of the yaml file: a text, or any other with what `str` and `bool` make of it. -/
inductive Value where
  | text (s : String)
  | other (str : String) (truthy : Bool)

def Value.str : Value → String
  | .text s => s
  | .other s _ => s

def Value.bool : Value → Bool
  | .text s => decide (s ≠ "")
  | .other _ truthy => truthy

/-- The entry of a code; what the file leaves out is `none`. -/
structure Entry where
  domain : Option Value
  category : Option Value
  action : Option Value
  severity : Option Value
  description : Option Value
  emitter : Option Value
  retentionClass : Option Value
  highVolume : Option Value
  piiInDetail : Option Value
  declaredUnused : Option Value

/-- A mapping at the top of a file. -/
structure Mapping where
  domain : Option Value
  emitter : Option Value
  /-- `none` for a `codes` that is no mapping; a code whose entry is no mapping has none -/
  codes : Option (List (String × Option Entry))

/-- `none` for a file whose top level is no mapping. -/
abbrev Document := Option Mapping

/-- Python's `$` also matches before a newline at the end. -/
def codeKey (s : String) : Bool :=
  isUpperSnake s || (s.endsWith "\n" && isUpperSnake ((s.dropEnd 1).toString))

/-- `Severity(sev_raw)`, with the default for a missing field. -/
def severity : Option Value → Option Severity
  | none => some .info
  | some (.text "debug") => some .debug
  | some (.text "info") => some .info
  | some (.text "warn") => some .warn
  | some (.text "error") => some .error
  | some (.text "critical") => some .critical
  | some _ => none

def retention : Option Value → Option RetentionClass
  | none => some .medium
  | some (.text "short") => some .short
  | some (.text "medium") => some .medium
  | some (.text "long") => some .long
  | some _ => none

/-- Whether an entry's domain is the file's, if it has one. -/
def agrees (fileDomain : String) : Option Value → Bool
  | none => true
  | some (.text d) => decide (d = fileDomain)
  | some (.other _ _) => false

def strOr (default : String) (v : Option Value) : String := (v.map Value.str).getD default

def boolOr (v : Option Value) : Bool := (v.map Value.bool).getD false

/-- `_parse_meta`. -/
def parseMeta (path : Path) (fileDomain fileEmitter code : String) (raw : Option Entry) :
    Except CatalogError Meta :=
  if codeKey code = false then .error (.badKey path code)
  else
    match raw with
    | none => .error (.entryNotMapping path code)
    | some raw =>
      match severity raw.severity with
      | none => .error (.badSeverity path code (strOr "" raw.severity))
      | some sev =>
        match retention raw.retentionClass with
        | none => .error (.badRetention path code (strOr "" raw.retentionClass))
        | some rc =>
          if agrees fileDomain raw.domain = false then
            .error (.domainDisagrees path code (strOr "" raw.domain) fileDomain)
          else .ok
            { domain := fileDomain
              category := strOr "" raw.category
              action := strOr "" raw.action
              severity := sev
              description := strOr "" raw.description
              emitter := strOr fileEmitter raw.emitter
              id := code
              retentionClass := rc
              highVolume := boolOr raw.highVolume
              piiInDetail := boolOr raw.piiInDetail
              declaredUnused := boolOr raw.declaredUnused
              detailPassthroughKeys := [] }

/-- The text of a file's `domain`. -/
def fileDomain (doc : Document) : String :=
  match doc with
  | some ⟨some (.text d), _, _⟩ => d
  | _ => ""

def fileEmitter (doc : Document) : String := strOr "" (doc.bind Mapping.emitter)

/-- `_build_registry_from_paths` looks for a code it has before it looks at the code itself. -/
def entry (path : Path) (doc : Document) (fresh : List (String × Declared)) (code : String)
    (raw : Option Entry) : Except CatalogError Meta :=
  if code ∈ Dict.keys fresh then .error (declaredTwice path code fresh)
  else parseMeta path (fileDomain doc) (fileEmitter doc) code raw

def head (path : Path) (doc : Document) : Except CatalogError Unit :=
  match doc with
  | none => .error (.notMapping path)
  | some m =>
    if fileDomain doc = "" then .error (.noDomain path)
    else if m.codes.isNone then .error (.codesNotMapping path)
    else .ok ()

def format : Format Document (Option Entry) where
  head := head
  codes doc := (doc.bind Mapping.codes).getD []
  entry := entry

end Python

/-! ## The catalogs -/

inductive Sdk where
  | rust
  | go
  | python
  deriving DecidableEq

/-- What the SDK's yaml library returns for a file. -/
def Sdk.Doc : Sdk → Type
  | .rust => YamlFile Rust.YamlCodeEntry
  | .go => YamlFile YamlCodeEntry
  | .python => Python.Document

def Sdk.Entry : Sdk → Type
  | .rust => Rust.YamlCodeEntry
  | .go => YamlCodeEntry
  | .python => Option Python.Entry

def Sdk.format : (sdk : Sdk) → Format sdk.Doc sdk.Entry
  | .rust => Rust.format
  | .go => Go.format
  | .python => Python.format

/-- The yaml files at some time. -/
abbrev Files (sdk : Sdk) := Path → FileRead sdk.Doc

def Rust.buildFromPaths (files : Files .rust) (paths : List Path) :
    Except CatalogError (List (String × Declared)) :=
  buildFrom Rust.format files paths []

def Go.buildFromYAMLPaths (files : Files .go) (paths : List Path) :
    Except CatalogError (List (String × Declared)) :=
  buildFrom Go.format files paths []

def Python.buildRegistryFromPaths (files : Files .python) (paths : List Path) :
    Except CatalogError (List (String × Declared)) :=
  buildFrom Python.format files paths []

def build : (sdk : Sdk) → Files sdk → List Path → Except CatalogError (List (String × Declared))
  | .rust => Rust.buildFromPaths
  | .go => Go.buildFromYAMLPaths
  | .python => Python.buildRegistryFromPaths

/-- The codes a file names. -/
def codesIn (sdk : Sdk) (files : Files sdk) (path : Path) : List String :=
  match files path with
  | .document doc => Dict.keys (sdk.format.codes doc)
  | _ => []

/-- The global state of an SDK: the registry, the codes that came from yaml and the loaded paths.
    `origins` is Python's alone; `core` is fasten-core's registry, which Go and Python register in. -/
structure Catalog where
  registry : List (String × Meta)
  yamlCodes : List String
  paths : List Path
  origins : List (String × Path)
  core : List (String × Meta)
  deriving DecidableEq

def Catalog.empty : Catalog := ⟨[], [], [], [], []⟩

def metasOf (fresh : List (String × Declared)) : List (String × Meta) :=
  fresh.map fun item => (item.1, item.2.info)

def originsOf (fresh : List (String × Declared)) : List (String × Path) :=
  fresh.map fun item => (item.1, item.2.origin)

/-! ### `register` -/

/-- Rust validates in a registry of its own and then looks for the codes in the SDK's. -/
def Rust.register (c : Catalog) (domain : String) (codes : List (String × Meta)) :
    Catalog × Except CatalogError Unit :=
  match (coreRegister domain (Dict.update [] codes) []).2 with
  | .error e => (c, .error e)
  | .ok _ =>
    match (Dict.keys codes).find? (fun id => decide (id ∈ Dict.keys c.registry)) with
    | some id => (c, .error (.duplicateCode id))
    | none =>
      ({ c with registry := Dict.update c.registry (codes.map fun item =>
        (item.1, filled item.1 item.2)) }, .ok ())

/-- A code that fasten-core has is copied to the SDK's registry. -/
def copyCode (core registry : List (String × Meta)) (name : String) : List (String × Meta) :=
  match Dict.get? core name with
  | some m => Dict.set registry name m
  | none => registry

/-- The registration of Go and Python, with what they make of a Meta for fasten-core. -/
def registerInCore (marshal : String → Meta → Meta) (c : Catalog) (domain : String)
    (codes : List (String × Meta)) : Catalog × Except CatalogError Unit :=
  let codes := Dict.update [] codes
  let r := coreRegister domain (codes.map fun item => (item.1, marshal item.1 item.2)) c.core
  match r.2 with
  | .error e => ({ c with core := r.1 }, .error e)
  | .ok _ =>
    ({ c with core := r.1, registry := (Dict.keys codes).foldl (copyCode r.1) c.registry }, .ok ())

/-- `marshalCodesForRust`: a retention class that is not given is medium. -/
def Go.marshal (_ : String) (m : Meta) : Meta :=
  { m with retentionClass := if m.retentionClass = .other "" then .medium else m.retentionClass }

/-- `_meta_to_dict`. -/
def Python.metaToDict (name : String) (m : Meta) : Meta :=
  { m with id := if m.id = "" then name else m.id }

def Go.register : Catalog → String → List (String × Meta) → Catalog × Except CatalogError Unit :=
  registerInCore Go.marshal

def Python.register : Catalog → String → List (String × Meta) → Catalog × Except CatalogError Unit :=
  registerInCore Python.metaToDict

def register : Sdk → Catalog → String → List (String × Meta) → Catalog × Except CatalogError Unit
  | .rust => Rust.register
  | .go => Go.register
  | .python => Python.register

/-! ### `load` -/

/-- A code added with `register` that the file would replace. -/
def registeredClash (c : Catalog) (path : Path) (fresh : List (String × Declared)) :
    Option CatalogError :=
  ((Dict.keys fresh).find? fun code =>
    decide (code ∈ Dict.keys c.registry) && decide (code ∉ c.yamlCodes)).map (.alreadyRegistered path)

/-- Python also looks for a code that came with another file. -/
def Python.clash (c : Catalog) (path : Path) (fresh : List (String × Declared)) :
    Option CatalogError :=
  (Dict.keys fresh).findSome? fun code =>
    match Dict.get? c.origins code with
    | some existing =>
      if existing ≠ path then some (.alreadyLoaded path code existing)
      else if code ∈ Dict.keys c.registry ∧ code ∉ c.yamlCodes then some (.alreadyRegistered path code)
      else none
    | none =>
      if code ∈ Dict.keys c.registry ∧ code ∉ c.yamlCodes then some (.alreadyRegistered path code)
      else none

def clash : Sdk → Catalog → Path → List (String × Declared) → Option CatalogError
  | .rust => registeredClash
  | .go => registeredClash
  | .python => Python.clash

/-- The codes of a file go into the registry. -/
def Catalog.commit (c : Catalog) (fresh : List (String × Declared)) : Catalog :=
  { c with
    registry := Dict.update c.registry (metasOf fresh)
    yamlCodes := c.yamlCodes ++ Dict.keys fresh
    origins := Dict.update c.origins (originsOf fresh) }

/-- The path is remembered. -/
def Catalog.push (c : Catalog) (path : Path) : Catalog :=
  { c with paths := if path ∈ c.paths then c.paths else c.paths ++ [path] }

def load (sdk : Sdk) (files : Files sdk) (c : Catalog) (path : Path) :
    Except CatalogError Catalog :=
  match build sdk files [path] with
  | .error e => .error e
  | .ok fresh =>
    match clash sdk c path fresh with
    | some e => .error e
    | none => .ok ((c.commit fresh).push path)

/-! ### `reload` -/

/-- The codes that came from yaml are replaced. -/
def Catalog.swap (c : Catalog) (fresh : List (String × Declared)) : Catalog :=
  { c with
    registry := Dict.update (Dict.drop c.registry c.yamlCodes) (metasOf fresh)
    yamlCodes := Dict.keys fresh
    origins := originsOf fresh }

def reload (sdk : Sdk) (files : Files sdk) (c : Catalog) : Except CatalogError Catalog :=
  if c.paths = [] then .ok c
  else
    match build sdk files c.paths with
    | .error e => .error e
    | .ok fresh => .ok (c.swap fresh)

end Fasten.Codes
