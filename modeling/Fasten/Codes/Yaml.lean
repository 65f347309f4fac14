import Mathlib.Data.Option.NAry
import Fasten.Codes.Build

set_option autoImplicit false

/-! # One yaml catalog in three SDKs

A yaml file as its values, what the three libraries make of them for the builders (`yaml.safe_load` for
Python's `_parse_meta`, `yaml.Unmarshal` into Go's `yamlFile`, serde into Rust's `YamlFile`), and when
the codes that come out are the same. The libraries are parameters. -/

namespace Fasten.Codes

/-! ## Files -/

section Files

variable (Yaml : Type)

/-- The entry of a code: a mapping without merge keys (`<<`), which serde does not resolve. What the file
    leaves out is `none`. -/
structure YamlEntry where
  domain : Option Yaml
  category : Option Yaml
  action : Option Yaml
  severity : Option Yaml
  description : Option Yaml
  emitter : Option Yaml
  retentionClass : Option Yaml
  highVolume : Option Yaml
  piiInDetail : Option Yaml
  declaredUnused : Option Yaml

/-- A file whose `codes` are a mapping of mappings, or left out. Python takes no other, and no file with a
    key of `codes` that is no text. -/
structure YamlDoc where
  domain : Option Yaml
  emitter : Option Yaml
  codes : List (String × YamlEntry Yaml)

abbrev YamlFiles := Path → FileRead (YamlDoc Yaml)

/-- What a library makes of a value for a field of a struct; `none` is an error. -/
structure Decoder where
  string : Yaml → Option String
  bool : Yaml → Option Bool

/-- What the yaml libraries make of the values of the files. They are not part of the repository: what is
    used of them are the propositions here. -/
structure Libraries where
  /-- A scalar as it stands in the file. -/
  raw : Yaml → Option String
  isNull : Yaml → Bool
  /-- PyYAML. -/
  python : Yaml → Python.Value
  /-- yaml.v3. -/
  go : Decoder Yaml
  /-- serde_yaml. -/
  rust : Decoder Yaml
  python_text : ∀ v s, python v = .text s → isNull v = false ∧ raw v = some s
  python_null : ∀ v, isNull v = true → (python v).str = "None"
  /-- A null leaves the field as it is. -/
  go_string : ∀ v, go.string v = if isNull v then some "" else raw v
  rust_string : ∀ v, rust.string v = raw v
  /-- What serde takes for a bool is one to all three. -/
  rust_bool : ∀ v b, rust.bool v = some b → (python v).bool = b ∧ go.bool v = some b

end Files

variable {Yaml : Type}

/-- A field that is left out has its default. -/
def Decoder.stringOr (D : Decoder Yaml) (v : Option Yaml) : Option String := v.elim (some "") D.string

def Decoder.boolOr (D : Decoder Yaml) (v : Option Yaml) : Option Bool := v.elim (some false) D.bool

/-- The codes with what a library makes of each entry; `none` when it takes one of them not. -/
def itemsOf {E : Type} (ofEntry : YamlEntry Yaml → Option E) :
    List (String × YamlEntry Yaml) → Option (List (String × E))
  | [] => some []
  | (code, e) :: rest =>
    Option.map₂ (fun e es => (code, e) :: es) (ofEntry e) (itemsOf ofEntry rest)

/-- The files, read by a library. -/
def readWith {Doc : Type} (ofDoc : YamlDoc Yaml → Option Doc) (yaml : YamlFiles Yaml) (path : Path) :
    FileRead Doc :=
  match yaml path with
  | .unreadable => .unreadable
  | .unparsable => .unparsable
  | .document doc => ((ofDoc doc).map FileRead.document).getD .unparsable

/-! ## What each SDK reads -/

namespace Python

def ofEntry (value : Yaml → Value) (e : YamlEntry Yaml) : Entry where
  domain := e.domain.map value
  category := e.category.map value
  action := e.action.map value
  severity := e.severity.map value
  description := e.description.map value
  emitter := e.emitter.map value
  retentionClass := e.retentionClass.map value
  highVolume := e.highVolume.map value
  piiInDetail := e.piiInDetail.map value
  declaredUnused := e.declaredUnused.map value

def ofDoc (value : Yaml → Value) (doc : YamlDoc Yaml) : Document :=
  some
    { domain := doc.domain.map value
      emitter := doc.emitter.map value
      codes := some (doc.codes.map fun item => (item.1, some (ofEntry value item.2))) }

end Python

/-- The fields of an entry, as Go and Rust have them. -/
def decodeEntry (D : Decoder Yaml) (e : YamlEntry Yaml) : Option YamlCodeEntry := do
  let domain ← D.stringOr e.domain
  let category ← D.stringOr e.category
  let action ← D.stringOr e.action
  let severity ← D.stringOr e.severity
  let description ← D.stringOr e.description
  let emitter ← D.stringOr e.emitter
  let retentionClass ← D.stringOr e.retentionClass
  let highVolume ← D.boolOr e.highVolume
  return ⟨domain, category, action, severity, description, emitter, retentionClass, highVolume⟩

def decodeDoc {E : Type} (D : Decoder Yaml) (domain : Option String)
    (ofEntry : YamlEntry Yaml → Option E) (doc : YamlDoc Yaml) : Option (YamlFile E) := do
  let domain ← domain
  let emitter ← D.stringOr doc.emitter
  let codes ← itemsOf ofEntry doc.codes
  return ⟨domain, emitter, codes⟩

def Go.ofDoc (D : Decoder Yaml) (doc : YamlDoc Yaml) : Option (YamlFile YamlCodeEntry) :=
  decodeDoc D (D.stringOr doc.domain) (decodeEntry D) doc

def Rust.ofEntry (D : Decoder Yaml) (e : YamlEntry Yaml) : Option Rust.YamlCodeEntry := do
  let raw ← decodeEntry D e
  let piiInDetail ← D.boolOr e.piiInDetail
  return ⟨raw, piiInDetail⟩

/-- `domain` has no default. -/
def Rust.ofDoc (D : Decoder Yaml) (doc : YamlDoc Yaml) : Option (YamlFile Rust.YamlCodeEntry) :=
  decodeDoc D (doc.domain.bind D.string) (Rust.ofEntry D) doc

/-- What the SDK's library returns for the files. -/
def YamlFiles.read (L : Libraries Yaml) (yaml : YamlFiles Yaml) : (sdk : Sdk) → Files sdk
  | .python => readWith (fun doc => some (Python.ofDoc L.python doc)) yaml
  | .go => readWith (Go.ofDoc L.go) yaml
  | .rust => readWith (Rust.ofDoc L.rust) yaml

/-! ## One entry -/

/-- The fields a code is emitted, checked and retained by. -/
structure SameCode (m m' : Meta) : Prop where
  domain : m.domain = m'.domain
  category : m.category = m'.category
  action : m.action = m'.action
  severity : m.severity = m'.severity
  retentionClass : m.retentionClass = m'.retentionClass
  highVolume : m.highVolume = m'.highVolume
  piiInDetail : m.piiInDetail = m'.piiInDetail
  detailPassthroughKeys : m.detailPassthroughKeys = m'.detailPassthroughKeys

/-- The value stands in the file as Python's `str` writes it, and is not null. -/
def Libraries.Verbatim (L : Libraries Yaml) (v : Yaml) : Prop :=
  L.isNull v = false ∧ L.raw v = some (L.python v).str

/-- An entry that means the same in the three SDKs: it is not marked `pii_in_detail`, and its category
    and action are texts, or are written as Python would write them. -/
structure YamlEntry.SameEverywhere (L : Libraries Yaml) (e : YamlEntry Yaml) : Prop where
  notPii : ∀ v ∈ e.piiInDetail, (L.python v).bool = false
  category : ∀ v ∈ e.category, L.Verbatim v
  action : ∀ v ∈ e.action, L.Verbatim v

/-- What an SDK reads of an entry for its code. -/
structure Fields where
  domain : String
  category : String
  action : String
  severity : Option Severity
  retentionClass : Option RetentionClass
  highVolume : Bool
  piiInDetail : Bool

def yamlFields (domain : String) (raw : YamlCodeEntry) (piiInDetail : Bool) : Fields :=
  ⟨domain, raw.category, raw.action, parseSeverity raw.severity, parseRetention raw.retentionClass,
    raw.highVolume, piiInDetail⟩

def Python.fields (doc : Python.Document) (raw : Python.Entry) : Fields :=
  ⟨fileDomain doc, strOr "" raw.category, strOr "" raw.action, severity raw.severity,
    retention raw.retentionClass, boolOr raw.highVolume, boolOr raw.piiInDetail⟩

/-- The code is built from these. -/
def Meta.BuiltFrom (m : Meta) (f : Fields) : Prop :=
  f = ⟨m.domain, m.category, m.action, some m.severity, some m.retentionClass, m.highVolume,
    m.piiInDetail⟩ ∧ m.detailPassthroughKeys = []

theorem sameCode_iff_fields {m m' : Meta} {f f' : Fields} (h : m.BuiltFrom f) (h' : m'.BuiltFrom f') :
    SameCode m m' ↔ f = f' := by
  obtain ⟨rfl, hkeys⟩ := h
  obtain ⟨rfl, hkeys'⟩ := h'
  simp only [Fields.mk.injEq, Option.some.injEq]
  constructor
  · rintro ⟨hdomain, hcategory, haction, hseverity, hretention, hhigh, hpii, -⟩
    exact ⟨hdomain, hcategory, haction, hseverity, hretention, hhigh, hpii⟩
  · rintro ⟨hdomain, hcategory, haction, hseverity, hretention, hhigh, hpii⟩
    exact ⟨hdomain, hcategory, haction, hseverity, hretention, hhigh, hpii, hkeys.trans hkeys'.symm⟩

variable {path : Path} {code domain : String} {e : YamlEntry Yaml} {raw : YamlCodeEntry} {pii : Bool}
  {m : Meta} {yaml : YamlFiles Yaml}

theorem yamlEntry_ok {emitter : String}
    (h : yamlEntry path domain emitter [] code raw pii = .ok m) :
    m.BuiltFrom (yamlFields domain raw pii) := by
  unfold yamlEntry at h
  split at h
  · cases h
  split at h
  · cases h
  split at h
  · cases h
  rename_i sev hsev
  split at h
  · cases h
  rename_i rc hrc
  split at h
  · cases h
  cases h
  exact ⟨by rw [yamlFields, hsev, hrc], rfl⟩

theorem Python.entry_ok {doc : Python.Document} {e : Python.Entry}
    (h : Python.entry path doc [] code (some e) = .ok m) : m.BuiltFrom (Python.fields doc e) := by
  have hnil : code ∉ Dict.keys ([] : List (String × Declared)) := List.not_mem_nil
  rw [Python.entry, if_neg hnil] at h
  unfold Python.parseMeta at h
  split at h
  · cases h
  dsimp only at h
  split at h
  · cases h
  rename_i sev hsev
  split at h
  · cases h
  rename_i rc hrc
  split at h
  · cases h
  cases h
  exact ⟨by rw [Python.fields, hsev, hrc], rfl⟩

/-! ### Fields -/

namespace Libraries

variable (L : Libraries Yaml) {v : Option Yaml}

/-- A value that Python parses from a text only is what Go and Rust parse from its text. -/
theorem parse_of_python {α : Type} {py : Option Python.Value → Option α} {parse : String → Option α}
    (hnone : py none = parse "") (htext : ∀ s a, py (some (.text s)) = some a → parse s = some a)
    (hother : ∀ s truthy, py (some (.other s truthy)) = none) {a : α}
    (h : py (v.map L.python) = some a) :
    ∃ s, L.rust.stringOr v = some s ∧ L.go.stringOr v = some s ∧ parse s = some a := by
  cases v with
  | none => exact ⟨"", rfl, rfl, hnone ▸ h⟩
  | some v =>
    cases hv : L.python v with
    | other s truthy =>
      rw [Option.map_some, hv, hother] at h
      cases h
    | text s =>
      rw [Option.map_some, hv] at h
      obtain ⟨hnull, hraw⟩ := L.python_text v s hv
      exact ⟨s, (L.rust_string v).trans hraw, by simp [Decoder.stringOr, L.go_string, hnull, hraw],
        htext s a h⟩

theorem parseSeverity_of_python {sev : Severity} (h : Python.severity (v.map L.python) = some sev) :
    ∃ s, L.rust.stringOr v = some s ∧ L.go.stringOr v = some s ∧ parseSeverity s = some sev := by
  refine L.parse_of_python rfl (fun s sev hsev => ?_) (fun _ _ => rfl) h
  simp only [Python.severity] at hsev
  split at hsev <;> simp_all [parseSeverity]

theorem parseRetention_of_python {rc : RetentionClass}
    (h : Python.retention (v.map L.python) = some rc) :
    ∃ s, L.rust.stringOr v = some s ∧ L.go.stringOr v = some s ∧ parseRetention s = some rc := by
  refine L.parse_of_python rfl (fun s rc hrc => ?_) (fun _ _ => rfl) h
  simp only [Python.retention] at hrc
  split at hrc <;> simp_all [parseRetention]

/-- A text is the same in the three SDKs exactly when it stands in the file as Python writes it. -/
theorem verbatim_iff {go rust : String} (hgo : L.go.stringOr v = some go)
    (hrust : L.rust.stringOr v = some rust) :
    (Python.strOr "" (v.map L.python) = go ∧ Python.strOr "" (v.map L.python) = rust)
      ↔ ∀ w ∈ v, L.Verbatim w := by
  cases v with
  | none =>
    cases hgo
    cases hrust
    simp [Python.strOr]
  | some v =>
    replace hrust : L.raw v = some rust := (L.rust_string v).symm.trans hrust
    replace hgo := (L.go_string v).symm.trans hgo
    have hstr : Python.strOr "" ((some v).map L.python) = (L.python v).str := rfl
    simp only [hstr, Option.mem_some_iff, forall_eq', Verbatim, hrust, Option.some.injEq]
    cases hnull : L.isNull v with
    | true =>
      -- Python writes `None` and Go nothing
      rw [hnull, if_pos rfl] at hgo
      cases hgo
      simp [L.python_null v hnull]
    | false =>
      rw [hnull, if_neg Bool.false_ne_true, hrust] at hgo
      cases hgo
      simp [eq_comm]

/-- A flag that Rust takes is the same in Python, and in Go if Go reads it. -/
theorem boolOr_of_rust {b : Bool} (h : L.rust.boolOr v = some b) :
    Python.boolOr (v.map L.python) = b ∧ L.go.boolOr v = some b := by
  cases v with
  | none =>
    cases h
    exact ⟨rfl, rfl⟩
  | some v => exact L.rust_bool v b h

end Libraries

theorem decodeEntry_fields {D : Decoder Yaml} (h : decodeEntry D e = some raw) :
    D.stringOr e.category = some raw.category ∧ D.stringOr e.action = some raw.action
      ∧ D.stringOr e.severity = some raw.severity
      ∧ D.stringOr e.retentionClass = some raw.retentionClass
      ∧ D.boolOr e.highVolume = some raw.highVolume := by
  simp only [decodeEntry, Option.bind_eq_bind, Option.bind_eq_some_iff, Option.pure_def,
    Option.some.injEq] at h
  obtain ⟨_, _, category, hcategory, action, haction, severity, hseverity, _, _, _, _, retention,
    hretention, high, hhigh, rfl⟩ := h
  exact ⟨hcategory, haction, hseverity, hretention, hhigh⟩

theorem Rust.ofEntry_eq_some {D : Decoder Yaml} {raw : Rust.YamlCodeEntry}
    (h : Rust.ofEntry D e = some raw) : decodeEntry D e = some raw.toYamlCodeEntry
      ∧ D.boolOr e.piiInDetail = some raw.piiInDetail := by
  simp only [Rust.ofEntry, Option.bind_eq_bind, Option.bind_eq_some_iff, Option.pure_def,
    Option.some.injEq] at h
  obtain ⟨_, hraw, _, hpii, rfl⟩ := h
  exact ⟨hraw, hpii⟩

theorem decodeDoc_eq_some {E : Type} {D : Decoder Yaml} {domain : Option String}
    {ofEntry : YamlEntry Yaml → Option E} {doc : YamlDoc Yaml} {d : YamlFile E}
    (h : decodeDoc D domain ofEntry doc = some d) :
    domain = some d.domain ∧ itemsOf ofEntry doc.codes = some d.codes := by
  simp only [decodeDoc, Option.bind_eq_bind, Option.bind_eq_some_iff, Option.pure_def,
    Option.some.injEq] at h
  obtain ⟨_, hdomain, _, _, _, hcodes, rfl⟩ := h
  exact ⟨hdomain, hcodes⟩

/-- **What the three SDKs make of one entry**, when all take it, is the same code exactly for an entry
    that means the same everywhere. -/
theorem sameCode_iff {L : Libraries Yaml} {pyDoc : Python.Document} {goDoc : YamlFile YamlCodeEntry}
    {rustDoc : YamlFile Rust.YamlCodeEntry} (hgoDoc : goDoc.domain = Python.fileDomain pyDoc)
    (hrustDoc : rustDoc.domain = Python.fileDomain pyDoc) {goRaw : YamlCodeEntry}
    {rustRaw : Rust.YamlCodeEntry} (hgoRaw : decodeEntry L.go e = some goRaw)
    (hrustRaw : Rust.ofEntry L.rust e = some rustRaw) {py go rust : Meta}
    (hpy : Python.entry path pyDoc [] code (some (Python.ofEntry L.python e)) = .ok py)
    (hgo : Go.format.entry path goDoc [] code goRaw = .ok go)
    (hrust : Rust.format.entry path rustDoc [] code rustRaw = .ok rust) :
    SameCode py go ∧ SameCode py rust ↔ e.SameEverywhere L := by
  replace hpy := Python.entry_ok hpy
  obtain ⟨hgcategory, hgaction, hgseverity, hgretention, hghigh⟩ := decodeEntry_fields hgoRaw
  obtain ⟨hrustRaw, hrpii⟩ := Rust.ofEntry_eq_some hrustRaw
  obtain ⟨hrcategory, hraction, hrseverity, hrretention, hrhigh⟩ := decodeEntry_fields hrustRaw
  -- what Python takes, Go and Rust read alike
  have hpysev : Python.severity (e.severity.map L.python) = some py.severity :=
    congrArg Fields.severity hpy.1
  have hpyret : Python.retention (e.retentionClass.map L.python) = some py.retentionClass :=
    congrArg Fields.retentionClass hpy.1
  obtain ⟨sev, hrsev, hgsev, hsev⟩ := L.parseSeverity_of_python hpysev
  obtain ⟨ret, hrret, hgret, hret⟩ := L.parseRetention_of_python hpyret
  obtain rfl := Option.some.inj (hrsev.symm.trans hrseverity)
  obtain rfl := Option.some.inj (hrret.symm.trans hrretention)
  have hgsev' := Option.some.inj (hgseverity.symm.trans hgsev)
  have hgret' := Option.some.inj (hgretention.symm.trans hgret)
  obtain ⟨hpyhigh, hgohigh⟩ := L.boolOr_of_rust hrhigh
  have hghigh' := Option.some.inj (hghigh.symm.trans hgohigh)
  have hpypii := (L.boolOr_of_rust hrpii).1
  have hmark : Python.boolOr (e.piiInDetail.map L.python) = false
      ↔ ∀ v ∈ e.piiInDetail, (L.python v).bool = false := by
    cases e.piiInDetail <;> simp [Python.boolOr]
  have hcategory := L.verbatim_iff hgcategory hrcategory
  have haction := L.verbatim_iff hgaction hraction
  rw [sameCode_iff_fields hpy (yamlEntry_ok hgo), sameCode_iff_fields hpy (yamlEntry_ok hrust)]
  simp only [Python.fields, Python.ofEntry, yamlFields, id, Fields.mk.injEq, hgoDoc, hrustDoc, hpysev,
    hpyret, hgsev', hgret', hsev, hret, hpyhigh, hghigh', true_and]
  constructor
  · -- Go has no field for the mark
    rintro ⟨⟨hc, ha, hnotPii⟩, hc', ha', -⟩
    exact ⟨hmark.1 hnotPii, hcategory.1 ⟨hc, hc'⟩, haction.1 ⟨ha, ha'⟩⟩
  · rintro ⟨hnotPii, hc, ha⟩
    obtain ⟨hgc, hrc⟩ := hcategory.2 hc
    obtain ⟨hga, hra⟩ := haction.2 ha
    exact ⟨⟨hgc, hga, hmark.2 hnotPii⟩, hrc, hra, hpypii⟩

/-! ## Files of the three SDKs -/

/-- The codes an SDK has built, entry by entry. -/
theorem reads_itemsOf {Doc Entry : Type} {fmt : Format Doc Entry} {d : Doc}
    {ofEntry : YamlEntry Yaml → Option Entry} {items : List (String × YamlEntry Yaml)}
    {es : List (String × Entry)} {own : List (String × Declared)}
    (hes : itemsOf ofEntry items = some es) (hreads : List.Forall₂ (Reads fmt path d) es own) :
    Dict.keys own = Dict.keys items ∧ ∀ item ∈ items, ∃ raw, ∃ out ∈ own, ofEntry item.2 = some raw
      ∧ out.1 = item.1 ∧ fmt.entry path d [] item.1 raw = .ok out.2.info := by
  induction items generalizing es own with
  | nil =>
    cases hes
    cases hreads
    exact ⟨rfl, nofun⟩
  | cons item rest ih =>
    obtain ⟨raw, es', hraw, hes', rfl⟩ := Option.map₂_eq_some_iff.1 hes
    cases hreads with
    | cons hfirst hrest =>
      obtain ⟨hkey, -, hentry⟩ := hfirst
      obtain ⟨hkeys, hall⟩ := ih hes' hrest
      refine ⟨congrArg₂ List.cons hkey hkeys, fun item' hitem => ?_⟩
      rcases List.mem_cons.1 hitem with rfl | hitem
      · exact ⟨raw, _, List.mem_cons_self, hraw, hkey, hentry⟩
      · obtain ⟨raw', out, hout, hread⟩ := hall item' hitem
        exact ⟨raw', out, List.mem_cons_of_mem _ hout, hread⟩

theorem document_of_readWith {Doc : Type} {ofDoc : YamlDoc Yaml → Option Doc} {d : Doc}
    (h : readWith ofDoc yaml path = .document d) :
    ∃ doc, yaml path = .document doc ∧ ofDoc doc = some d := by
  unfold readWith at h
  cases hyaml : yaml path with
  | unreadable | unparsable =>
    rw [hyaml] at h
    cases h
  | document doc =>
    rw [hyaml] at h
    cases hdoc : ofDoc doc with
    | none =>
      simp only [hdoc] at h
      cases h
    | some d' =>
      simp only [hdoc] at h
      cases h
      exact ⟨doc, rfl, hdoc⟩

/-- What an SDK has read of a file: the document, and for each of its codes the entry and the code. -/
structure HasRead {Doc Entry : Type} (fmt : Format Doc Entry) (ofDoc : YamlDoc Yaml → Option Doc)
    (ofEntry : YamlEntry Yaml → Option Entry) (path : Path) (doc : YamlDoc Yaml) (d : Doc)
    (own : List (String × Declared)) : Prop where
  document : ofDoc doc = some d
  head : fmt.head path d = .ok ()
  keys : Dict.keys own = Dict.keys doc.codes
  entry : ∀ item ∈ doc.codes, ∃ raw m, ofEntry item.2 = some raw
    ∧ Dict.get? own item.1 = some m ∧ fmt.entry path d [] item.1 raw = .ok m.info

theorem hasRead_of_build {Doc Entry : Type} {fmt : Format Doc Entry} (hfmt : fmt.ChecksKeys)
    {ofDoc : YamlDoc Yaml → Option Doc} {ofEntry : YamlEntry Yaml → Option Entry}
    (hcodes : ∀ doc d, ofDoc doc = some d → itemsOf ofEntry doc.codes = some (fmt.codes d))
    {own : List (String × Declared)} (h : buildFrom fmt (readWith ofDoc yaml) [path] [] = .ok own) :
    ∃ doc d, yaml path = .document doc ∧ HasRead fmt ofDoc ofEntry path doc d own := by
  rw [buildFrom_single] at h
  obtain ⟨d, hfile, hhead, hadd⟩ := addFile_eq_ok_iff.1 h
  obtain ⟨doc, hyaml, hdoc⟩ := document_of_readWith hfile
  obtain ⟨_, hreads, hnodup, -, rfl⟩ := (addCodes_ok_iff hfmt).1 hadd
  obtain ⟨hkeys, hall⟩ := reads_itemsOf (hcodes doc d hdoc) hreads
  refine ⟨doc, d, hyaml, hdoc, hhead, hkeys, fun item hitem => ?_⟩
  obtain ⟨raw, out, hout, hraw, hkey, hentry⟩ := hall item hitem
  exact ⟨raw, out.2, hraw, hkey ▸ Dict.get?_of_mem hnodup hout, hentry⟩

theorem itemsOf_some {E : Type} (ofEntry : YamlEntry Yaml → E) (items : List (String × YamlEntry Yaml)) :
    itemsOf (fun e => some (ofEntry e)) items = some (items.map fun item => (item.1, ofEntry item.2)) := by
  induction items with
  | nil => rfl
  | cons item rest ih =>
    rw [itemsOf, ih]
    rfl

section Sdks

variable {L : Libraries Yaml} {yaml : YamlFiles Yaml} {path : Path} {own : List (String × Declared)}

theorem Python.hasRead (h : build .python (yaml.read L .python) [path] = .ok own) :
    ∃ doc d, yaml path = .document doc
      ∧ HasRead Python.format (fun doc => some (Python.ofDoc L.python doc))
        (fun e => some (some (Python.ofEntry L.python e))) path doc d own := by
  refine hasRead_of_build Python.checksKeys (fun doc d hd => ?_) h
  cases hd
  exact itemsOf_some _ _

theorem Go.hasRead (h : build .go (yaml.read L .go) [path] = .ok own) :
    ∃ doc d, yaml path = .document doc
      ∧ HasRead Go.format (Go.ofDoc L.go) (decodeEntry L.go) path doc d own :=
  hasRead_of_build (Sdk.checksKeys .go) (fun _ _ hd => (decodeDoc_eq_some hd).2) h

theorem Rust.hasRead (h : build .rust (yaml.read L .rust) [path] = .ok own) :
    ∃ doc d, yaml path = .document doc
      ∧ HasRead Rust.format (Rust.ofDoc L.rust) (Rust.ofEntry L.rust) path doc d own :=
  hasRead_of_build (Sdk.checksKeys .rust) (fun _ _ hd => (decodeDoc_eq_some hd).2) h

/-- The domain of a file that Python takes is a text, and the other libraries read the same. -/
theorem domain_of_head {doc : YamlDoc Yaml} {goDoc : YamlFile YamlCodeEntry}
    {rustDoc : YamlFile Rust.YamlCodeEntry} (h : Python.head path (Python.ofDoc L.python doc) = .ok ())
    (hgo : Go.ofDoc L.go doc = some goDoc)
    (hrust : Rust.ofDoc L.rust doc = some rustDoc) :
    goDoc.domain = Python.fileDomain (Python.ofDoc L.python doc)
      ∧ rustDoc.domain = Python.fileDomain (Python.ofDoc L.python doc) := by
  obtain ⟨hgdomain, -⟩ := decodeDoc_eq_some hgo
  obtain ⟨hrdomain, -⟩ := decodeDoc_eq_some hrust
  obtain ⟨v, hv, hrdomain⟩ := Option.bind_eq_some_iff.1 hrdomain
  rw [hv] at hgdomain
  cases hpy : L.python v with
  | other s truthy => simp [Python.head, Python.ofDoc, Python.fileDomain, hv, hpy] at h
  | text s =>
    obtain ⟨hnull, hraw⟩ := L.python_text v s hpy
    simp_all [Decoder.stringOr, L.go_string, L.rust_string, Python.fileDomain, Python.ofDoc]

end Sdks

/-! ## Catalogs -/

/-- The same codes, with the same fields. -/
def SameCatalog (a b : List (String × Declared)) : Prop :=
  ∀ code, Option.Rel (fun m m' => SameCode m.info m'.info) (Dict.get? a code) (Dict.get? b code)

/-- What an SDK has of the codes of one of the files. -/
theorem exists_code {L : Libraries Yaml} {ps : List Path} {sdk : Sdk} {Doc Entry : Type}
    {fmt : Format Doc Entry} {ofDoc : YamlDoc Yaml → Option Doc}
    {ofEntry : YamlEntry Yaml → Option Entry} {out : List (String × Declared)}
    (h : build sdk (yaml.read L sdk) ps = .ok out) {p : Path} (hp : p ∈ ps)
    (hread : ∀ {own}, build sdk (yaml.read L sdk) [p] = .ok own →
      ∃ doc d, yaml p = .document doc ∧ HasRead fmt ofDoc ofEntry p doc d own) :
    ∃ doc d, yaml p = .document doc ∧ ofDoc doc = some d ∧ fmt.head p d = .ok ()
      ∧ codesIn sdk (yaml.read L sdk) p = Dict.keys doc.codes
      ∧ ∀ item ∈ doc.codes, ∃ raw m, ofEntry item.2 = some raw
        ∧ Dict.get? out item.1 = some m ∧ fmt.entry p d [] item.1 raw = .ok m.info := by
  obtain ⟨own, hown, hget⟩ := get?_build h hp
  obtain ⟨doc, d, hdoc, hread⟩ := hread hown
  have hcodes : codesIn sdk (yaml.read L sdk) p = Dict.keys doc.codes := by
    rw [← build_single_keys hown, hread.keys]
  refine ⟨doc, d, hdoc, hread.document, hread.head, hcodes, fun item hitem => ?_⟩
  obtain ⟨raw, m, hraw, hm, hentry⟩ := hread.entry item hitem
  refine ⟨raw, m, hraw, (hget item.1 ?_).trans hm, hentry⟩
  rw [hcodes]
  exact List.mem_map_of_mem hitem

/-- A code that is built stands in one of the files. -/
theorem exists_item {L : Libraries Yaml} {ps : List Path} {sdk : Sdk} {out : List (String × Declared)}
    (h : build sdk (yaml.read L sdk) ps = .ok out) (hcode : code ∈ Dict.keys out) :
    ∃ p ∈ ps, ∃ doc e, yaml p = .document doc ∧ (code, e) ∈ doc.codes := by
  obtain ⟨p, hp, hcode⟩ := (mem_keys_build h).1 hcode
  obtain ⟨doc, hdoc, hkeys⟩ : ∃ doc, yaml p = .document doc
      ∧ codesIn sdk (yaml.read L sdk) p = Dict.keys doc.codes := by
    cases sdk with
    | python =>
      obtain ⟨doc, -, hdoc, -, -, hkeys, -⟩ := exists_code h hp Python.hasRead
      exact ⟨doc, hdoc, hkeys⟩
    | go =>
      obtain ⟨doc, -, hdoc, -, -, hkeys, -⟩ := exists_code h hp Go.hasRead
      exact ⟨doc, hdoc, hkeys⟩
    | rust =>
      obtain ⟨doc, -, hdoc, -, -, hkeys, -⟩ := exists_code h hp Rust.hasRead
      exact ⟨doc, hdoc, hkeys⟩
  rw [hkeys] at hcode
  obtain ⟨⟨_, e⟩, hitem, rfl⟩ := List.mem_map.1 hcode
  exact ⟨p, hp, doc, e, hdoc, hitem⟩

section Catalogs

variable {L : Libraries Yaml} {yaml : YamlFiles Yaml} {ps : List Path}
  {py go rust : List (String × Declared)}
  (hpy : build .python (yaml.read L .python) ps = .ok py)
  (hgo : build .go (yaml.read L .go) ps = .ok go)
  (hrust : build .rust (yaml.read L .rust) ps = .ok rust)

include hpy hgo hrust

/-- **One code of one file**: all three SDKs have it, and build the same of it exactly when its entry
    means the same everywhere. -/
theorem exists_codes {p : Path} (hp : p ∈ ps) {doc : YamlDoc Yaml} (hdoc : yaml p = .document doc)
    (hitem : (code, e) ∈ doc.codes) :
    ∃ m m' m'', Dict.get? py code = some m ∧ Dict.get? go code = some m'
      ∧ Dict.get? rust code = some m''
      ∧ (SameCode m.info m'.info ∧ SameCode m.info m''.info ↔ e.SameEverywhere L) := by
  obtain ⟨_, dP, hdocP, hdP, hhead, -, hallP⟩ := exists_code hpy hp Python.hasRead
  obtain ⟨_, dG, hdocG, hdG, -, -, hallG⟩ := exists_code hgo hp Go.hasRead
  obtain ⟨_, dR, hdocR, hdR, -, -, hallR⟩ := exists_code hrust hp Rust.hasRead
  cases hdoc.symm.trans hdocP
  cases hdoc.symm.trans hdocG
  cases hdoc.symm.trans hdocR
  obtain ⟨rawP, m, hrawP, hmP, hentryP⟩ := hallP _ hitem
  obtain ⟨rawG, m', hrawG, hmG, hentryG⟩ := hallG _ hitem
  obtain ⟨rawR, m'', hrawR, hmR, hentryR⟩ := hallR _ hitem
  cases hdP
  cases hrawP
  obtain ⟨hdomainG, hdomainR⟩ := domain_of_head hhead hdG hdR
  exact ⟨m, m', m'', hmP, hmG, hmR,
    sameCode_iff hdomainG hdomainR hrawG hrawR hentryP hentryG hentryR⟩

/-- **When one yaml catalog means the same in every SDK**, of the files that all three take. -/
theorem sameCatalog_iff :
    SameCatalog py go ∧ SameCatalog py rust
      ↔ ∀ p ∈ ps, ∀ doc, yaml p = .document doc → ∀ code e,
        (code, e) ∈ doc.codes → e.SameEverywhere L := by
  refine ⟨fun ⟨hsameGo, hsameRust⟩ p hp doc hdoc code e hitem => ?_, fun hall => ?_⟩
  · obtain ⟨m, m', m'', hm, hm', hm'', hiff⟩ := exists_codes hpy hgo hrust hp hdoc hitem
    have hg := hsameGo code
    have hr := hsameRust code
    rw [hm, hm'] at hg
    rw [hm, hm''] at hr
    cases hg with
    | some hg =>
      cases hr with
      | some hr => exact hiff.1 ⟨hg, hr⟩
  · have hcode : ∀ code, Option.Rel (fun m m' => SameCode m.info m'.info) (Dict.get? py code)
        (Dict.get? go code) ∧ Option.Rel (fun m m' => SameCode m.info m'.info) (Dict.get? py code)
        (Dict.get? rust code) := by
      intro code
      by_cases hbuilt : code ∈ Dict.keys py ∨ code ∈ Dict.keys go ∨ code ∈ Dict.keys rust
      · obtain ⟨p, hp, doc, e, hdoc, hitem⟩ : ∃ p ∈ ps, ∃ doc e, yaml p = .document doc
            ∧ (code, e) ∈ doc.codes :=
          hbuilt.elim (exists_item hpy) fun h => h.elim (exists_item hgo) (exists_item hrust)
        obtain ⟨m, m', m'', hm, hm', hm'', hiff⟩ := exists_codes hpy hgo hrust hp hdoc hitem
        obtain ⟨hg, hr⟩ := hiff.2 (hall p hp doc hdoc code e hitem)
        rw [hm, hm', hm'']
        exact ⟨.some hg, .some hr⟩
      · rw [not_or, not_or] at hbuilt
        rw [Dict.get?_eq_none_iff.2 hbuilt.1, Dict.get?_eq_none_iff.2 hbuilt.2.1,
          Dict.get?_eq_none_iff.2 hbuilt.2.2]
        exact ⟨.none, .none⟩
    exact ⟨fun code => (hcode code).1, fun code => (hcode code).2⟩

end Catalogs

/-- Texts, `true`, `false` and `null`. -/
def Libraries.plain : Libraries (String ⊕ Option Bool) where
  raw v := some (v.elim id fun b => b.elim "null" fun b => if b then "true" else "false")
  isNull v := v = .inr none
  python v := v.elim .text fun b =>
    b.elim (.other "None" false) fun b => .other (if b then "True" else "False") b
  go := ⟨fun v => some (v.elim id fun b => b.elim "" fun b => if b then "true" else "false"),
    fun v => v.elim (fun _ => none) fun b => some (b.getD false)⟩
  rust := ⟨fun v => some (v.elim id fun b => b.elim "null" fun b => if b then "true" else "false"),
    fun v => v.elim (fun _ => none) id⟩
  python_text v s h := by
    rcases v with s' | (- | b) <;> cases h
    simp
  python_null v h := by rcases v with s' | (- | b) <;> simp_all [Python.Value.str]
  go_string v := by rcases v with s' | (- | b) <;> simp
  rust_string v := rfl
  rust_bool v b h := by
    rcases v with s' | (- | b') <;> cases h
    simp [Python.Value.bool]

/-- A file with two codes, the first one marked `pii_in_detail` or not. -/
def YamlFiles.sample (pii : Bool) : YamlFiles (String ⊕ Option Bool) := fun _ => .document
  { domain := some (.inl "fleet")
    emitter := none
    codes :=
      [("FLEET_LOGIN", ⟨none, some (.inl "user"), some (.inl "login"), some (.inl "warn"), none, none,
        none, none, some (.inr pii), none⟩),
      ("FLEET_UP", ⟨none, some (.inl "node"), none, none, none, none, some (.inl "long"),
        some (.inr true), none, none⟩)] }

theorem sameCatalog_notPii : ∃ py go rust,
    build .python ((YamlFiles.sample false).read .plain .python) ["a.yaml"] = .ok py
      ∧ build .go ((YamlFiles.sample false).read .plain .go) ["a.yaml"] = .ok go
      ∧ build .rust ((YamlFiles.sample false).read .plain .rust) ["a.yaml"] = .ok rust
      ∧ SameCatalog py go ∧ SameCatalog py rust := by
  obtain ⟨py, hpy⟩ : ∃ py,
      build .python ((YamlFiles.sample false).read .plain .python) ["a.yaml"] = .ok py := ⟨_, rfl⟩
  obtain ⟨go, hgo⟩ : ∃ go,
      build .go ((YamlFiles.sample false).read .plain .go) ["a.yaml"] = .ok go := ⟨_, rfl⟩
  obtain ⟨rust, hrust⟩ : ∃ rust,
      build .rust ((YamlFiles.sample false).read .plain .rust) ["a.yaml"] = .ok rust := ⟨_, rfl⟩
  refine ⟨py, go, rust, hpy, hgo, hrust, (sameCatalog_iff hpy hgo hrust).2 ?_⟩
  intro p _ doc hdoc code e hitem
  cases hdoc
  rcases List.mem_pair.1 hitem with h | h <;> cases h
  all_goals refine ⟨?_, ?_, ?_⟩ <;> rintro v ⟨⟩ <;> first | rfl | exact ⟨rfl, rfl⟩

/-- The mark is lost in Go. -/
theorem sameCatalog_fails_pii : ∃ py go rust,
    build .python ((YamlFiles.sample true).read .plain .python) ["a.yaml"] = .ok py
      ∧ build .go ((YamlFiles.sample true).read .plain .go) ["a.yaml"] = .ok go
      ∧ build .rust ((YamlFiles.sample true).read .plain .rust) ["a.yaml"] = .ok rust
      ∧ (Dict.get? py "FLEET_LOGIN").map (fun m => m.info.piiInDetail) = some true
      ∧ (Dict.get? go "FLEET_LOGIN").map (fun m => m.info.piiInDetail) = some false
      ∧ (Dict.get? rust "FLEET_LOGIN").map (fun m => m.info.piiInDetail) = some true
      ∧ ¬(SameCatalog py go ∧ SameCatalog py rust) := by
  refine ⟨_, _, _, rfl, rfl, rfl, rfl, rfl, rfl, fun ⟨hsame, _⟩ => ?_⟩
  have hcode := hsame "FLEET_LOGIN"
  cases hcode with
  | some h => exact absurd h.piiInDetail (by decide)

end Fasten.Codes
