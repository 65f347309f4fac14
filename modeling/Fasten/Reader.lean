import Fasten.GoText
import Fasten.Lib.Select
import Fasten.Row

set_option autoImplicit false

/-! # The reader

The routes of the reader (`python/fasten/reader/router.py`) that a tenant may be scoped to, over the
rows of the SQLite audit store (`python/fasten/store/sqlite.py`) and of the sys and api streams, which
are read from a stream store (`python/fasten/store/stream.py`) or else from a ring
(`python/fasten/store/ring.py`). -/

namespace Fasten.Reader

inductive StreamName where
  | sys
  | api
  | audit
  deriving DecidableEq

/-- What `completeness` says of a stream. -/
inductive Source where
  | ring
  | store
  | storeDegraded
  deriving DecidableEq

/-- What a route is configured with, and the library calls whose results it passes on. -/
structure Settings where
  searchOn : Bool
  source : StreamName → Source
  /-- `canonical_ts(datetime.fromisoformat(s))`, or the error's text. -/
  parseTs : String → Except String String
  /-- `str.lower`. -/
  lower : String → String
  /-- `str`. -/
  str : Json → String
  /-- `str(sorted(names))`. -/
  sortedText : List String → String
  /-- `float == int`. -/
  floatEq : FloatRepr → Int → Bool
  /-- The text of a `detail` column. -/
  detailText : Option (List (String × Json)) → String

/-- An `HTTPException`. -/
structure HttpError where
  status : Nat
  detail : String
  deriving DecidableEq

/-! ## Streams -/

/-- A row of the sys or api stream. -/
abbrev StreamRow := List (String × Json)

/-- `row.get(field)`, if it is a text. -/
def textOf (row : StreamRow) (field : String) : Option String :=
  match Dict.get? row field with
  | some (.str s) => some s
  | _ => none

structure StreamFilters where
  level : Option String := none
  requestId : Option String := none
  serviceId : Option String := none
  method : Option String := none
  path : Option String := none
  event : Option String := none
  status : Option Int := none
  since : Option String := none
  until_ : Option String := none

/-- A filter that is not given, or empty, selects everything. -/
def wants (filter value : Option String) : Bool :=
  match filter with
  | none => true
  | some f => decide (f = "") || decide (value = some f)

/-- `since` and `until` around a time, as texts. -/
def within (since until_ : Option String) (ts : String) : Bool :=
  (match since with
    | none => true
    | some s => decide (s = "") || decide (s ≤ ts))
  && (match until_ with
    | none => true
    | some s => decide (s = "") || decide (ts ≤ s))

/-- A row of a stream store: the filterable columns, and the payload as text and decoded. -/
structure StoredRow where
  requestId : Option String
  timestamp : Option String
  level : Option String
  serviceId : Option String
  event : Option String
  method : Option String
  path : Option String
  status : Option Int
  text : String
  payload : StreamRow

/-- The rows of a stream, newest first. -/
inductive Stream where
  | ring (rows : List StreamRow)
  | store (rows : List StoredRow)

section

variable (S : Settings)

/-- `r.get("status") == status`. -/
def statusEq (value : Option Json) (status : Int) : Bool :=
  match value with
  | some (.int n) => decide (n = status)
  | some (.bool b) => decide ((if b then 1 else 0) = status)
  | some (.float f) => S.floatEq f status
  | _ => false

/-- `_row_ts`. -/
def rowTs (row : StreamRow) : String :=
  match Dict.get? row "timestamp" with
  | none => ""
  | some .null => ""
  | some v => S.str v

/-- `RingBuffer._matching`. -/
def StreamFilters.matchesRow (f : StreamFilters) (row : StreamRow) : Bool :=
  wants f.level (textOf row "level") && wants f.requestId (textOf row "request_id")
    && wants f.serviceId (textOf row "service_id") && wants f.method (textOf row "method")
    && wants f.path (textOf row "path") && wants f.event (textOf row "event")
    && (match f.status with
      | none => true
      | some status => statusEq S (Dict.get? row "status") status)
    && within f.since f.until_ (rowTs S row)

/-- `StreamStore._build_where`. -/
def StreamFilters.matchesStored (f : StreamFilters) (row : StoredRow) : Bool :=
  wants f.level row.level && wants f.requestId row.requestId && wants f.serviceId row.serviceId
    && wants f.method row.method && wants f.path row.path && wants f.event row.event
    && (match f.status with
      | none => true
      | some status => decide (row.status = some status))
    && within f.since f.until_ (row.timestamp.getD "")

/-- The rows that match, without a limit. -/
def Stream.matching (f : StreamFilters) : Stream → List StreamRow
  | .ring rows => rows.filter (f.matchesRow S)
  | .store rows => (rows.filter f.matchesStored).map StoredRow.payload

def Stream.query (stream : Stream) (f : StreamFilters) (limit : Nat) : List StreamRow :=
  (stream.matching S f).take limit

/-- `lower(text) LIKE '%q%'`, which compares the letters of ASCII in either case. SQLite ends the
    pattern at a NUL in `q`, which here is a character like any other. -/
def likes (q text : String) : Bool :=
  decide ((S.lower q).toLower.toList <:+: text.toLower.toList)

/-- The rows a search finds, without a limit. -/
def Stream.found (q since : String) (until_ : Option String) : Stream → Option (List StreamRow)
  | .ring _ => none
  | .store rows =>
    some ((rows.filter fun row => within (some since) until_ (row.timestamp.getD "")
      && likes S q row.text).map StoredRow.payload)

def Stream.search (stream : Stream) (q since : String) (until_ : Option String) (limit : Nat) :
    Option (List StreamRow) :=
  (stream.found S q since until_).map (List.take limit)

end

/-! ## The audit store -/

structure AuditFilters where
  requestId : Option String := none
  code : Option String := none
  domain : Option String := none
  sourceNodeId : Option String := none
  tenantId : Option String := none
  actor : Option String := none
  target : Option String := none
  since : Option Datetime := none
  until_ : Option Datetime := none

/-- `tenant_id = ?`, for a tenant that is given. -/
def ofTenant (tenant : Option String) (row : AuditRow) : Bool :=
  match tenant with
  | none => true
  | some t => decide (row.tenantId = some t)

/-- `_build_where`. Unlike the others an empty `tenant_id` is a filter. -/
def AuditFilters.matches (f : AuditFilters) (row : AuditRow) : Bool :=
  wants f.requestId (some row.requestId) && wants f.code (some row.code)
    && wants f.domain (some row.domain) && wants f.sourceNodeId (some row.sourceNodeId)
    && ofTenant f.tenantId row && wants f.actor (some row.actor)
    && wants f.target (some row.target)
    && within (f.since.map canonicalTs) (f.until_.map canonicalTs) (canonicalTs row.timestamp)

/-- `ORDER BY timestamp DESC, monotonic_seq DESC`. -/
def newestFirst (rows : List AuditRow) : List AuditRow :=
  Select.sortDesc (fun r => toLex (canonicalTs r.timestamp, r.monotonicSeq)) rows

def query (rows : List AuditRow) (f : AuditFilters) (limit offset afterSeq : Nat) :
    List AuditRow :=
  ((newestFirst (rows.filter fun r => f.matches r
    && (decide (afterSeq = 0) || decide (r.monotonicSeq < afterSeq)))).drop offset).take limit

def count (rows : List AuditRow) (f : AuditFilters) : Nat := (rows.filter f.matches).length

def search (S : Settings) (rows : List AuditRow) (q since : String) (until_ : Option String)
    (limit : Nat) (tenant : Option String) : List AuditRow :=
  (newestFirst (rows.filter fun r => within (some since) until_ (canonicalTs r.timestamp)
    && likes S q (S.detailText r.detail) && ofTenant tenant r)).take limit

/-- A row of `sources`: who wrote how many rows, and when. -/
structure SourceRow where
  sourceNodeId : String
  serviceId : String
  tenantId : Option String
  rows : Nat
  firstSeen : Option String
  lastSeen : Option String
  deriving DecidableEq

/-- `GROUP BY source_node_id, service_id, tenant_id`. -/
def groupKey (r : AuditRow) : String × String × Option String :=
  (r.sourceNodeId, r.serviceId, r.tenantId)

def sourceRow (rows : List AuditRow) (key : String × String × Option String) : SourceRow :=
  let group := rows.filter fun r => decide (groupKey r = key)
  let seen := group.map fun r => canonicalTs r.timestamp
  ⟨key.1, key.2.1, key.2.2, group.length, seen.min?, seen.max?⟩

/-- The groups by key, a missing tenant first. -/
def groupOrder (key : String × String × Option String) :
    (String ×ₗ String ×ₗ WithBot String)ᵒᵈ :=
  OrderDual.toDual (toLex (key.1, toLex (key.2.1, key.2.2)))

/-- The busiest first, and else by key. -/
def sources (rows : List AuditRow) (since until_ : Option Datetime) : List SourceRow :=
  let selected := rows.filter (AuditFilters.matches { since := since, until_ := until_ })
  Select.sortDesc SourceRow.rows
    ((Select.sortDesc groupOrder (selected.map groupKey).dedup).map (sourceRow selected))

/-! ## Routes -/

structure Transport where
  sys : Stream
  api : Stream

/-- What there is to read; either part may not be initialised. -/
structure Contents where
  audit : Option (List AuditRow)
  transport : Option Transport

structure PerStream (α : Type) where
  audit : α
  api : α
  sys : α

/-- A match of `/search`. -/
structure Match where
  stream : StreamName
  requestId : Option Json
  ts : Option Json
  summary : Option Json
  row : StreamRow ⊕ AuditRow

inductive Body where
  | rows (rows : List StreamRow) (error : Option String)
  | audit (rows : List AuditRow) (total : Option Nat) (limit offset : Nat) (nextAfter : Option Int)
      (error : Option String)
  | correlate (requestId : String) (audit : List AuditRow) (api sys : List StreamRow)
      (counts : PerStream Nat) (totals : PerStream (Option Nat)) (truncated : PerStream (Option Bool))
  | search (matches_ : List Match) (counts : List (StreamName × Nat))
      (errors : List (StreamName × String)) (error : Option String)
  | topology (sources : List SourceRow) (nodes services tenants : Nat) (error : Option String)

structure Response where
  body : Body
  completeness : List (StreamName × Source)

structure SysRequest where
  level : Option String
  requestId : Option String
  serviceId : Option String
  event : Option String
  q : Option String
  since : Option String
  until_ : Option String
  limit : Nat

def SysRequest.filters (r : SysRequest) (since until_ : Option String) : StreamFilters :=
  { level := r.level, requestId := r.requestId, serviceId := r.serviceId, event := r.event,
    since := since, until_ := until_ }

structure ApiRequest where
  method : Option String
  path : Option String
  requestId : Option String
  status : Option Int
  since : Option String
  until_ : Option String
  limit : Nat
  q : Option String

def ApiRequest.filters (r : ApiRequest) (since until_ : Option String) : StreamFilters :=
  { method := r.method, path := r.path, requestId := r.requestId, status := r.status,
    since := since, until_ := until_ }

structure AuditRequest where
  filters : AuditFilters
  limit : Nat
  offset : Nat
  after : Option Nat

structure SearchRequest where
  q : String
  since : String
  until_ : Option String
  limit : Nat
  streams : Option String

inductive Request where
  | sys (r : SysRequest)
  | api (r : ApiRequest)
  | audit (r : AuditRequest)
  | correlate (requestId : String) (limit : Nat)
  | search (r : SearchRequest)
  | topology (since until_ : Option Datetime)

def unresolved : HttpError := ⟨401, "unauthenticated: tenant scope unresolved"⟩

/-- What the `tenant_scope` hook gives: no hook is no scope, and a blank scope is refused. -/
def resolveTenant : Option (Option String) → Except HttpError (Option String)
  | none => .ok none
  | some (some t) => if t = "" then .error unresolved else .ok (some t)
  | some none => .error unresolved

/-- `r.get("tenant_id") == scope`. -/
def isTenants (tenant : String) (row : StreamRow) : Bool :=
  decide (textOf row "tenant_id" = some tenant)

def scopeStreamRows (rows : List StreamRow) : Option String → List StreamRow
  | none => rows
  | some tenant => rows.filter (isTenants tenant)

def noTransport : String := "transport not initialised — call fasten.init() first"

def noStore : String := "audit store not initialised — call fasten.init() first"

section

variable (S : Settings)

def parseWindowTs (name : String) : Option String → Except HttpError (Option String)
  | none => .ok none
  | some s =>
    if s = "" then .ok none
    else
      match S.parseTs s with
      | .ok t => .ok (some t)
      | .error e =>
        .error ⟨422, name ++ " must be RFC3339 (e.g. 2026-08-21T10:00:00Z): " ++ e⟩

def searchGuard (since : Option String) : Option String :=
  if S.searchOn = false then
    some ("search disabled — set search.enabled " ++
      "(FASTEN_SEARCH_ENABLED=true) to enable free-text q=")
  else if since.getD "" = "" then some "q= search requires a 'since' bound (no unbounded scans)"
  else none

/-- The filters that `q=` is not combined with. -/
def SysRequest.dropped (r : SysRequest) : List String :=
  ([("level", r.level), ("request_id", r.requestId), ("service_id", r.serviceId),
    ("event", r.event)].filter fun p => p.2.isSome).map Prod.fst

def SysRequest.combined (r : SysRequest) : HttpError :=
  ⟨400, "q= is a free-text search and cannot be combined with structured filters (" ++
    ", ".intercalate r.dropped ++ "). Use one or the other — structured filters run over the " ++
    "store index; q= runs over the raw payload."⟩

def getSys (c : Contents) (tenant : Option String) (r : SysRequest) : Except HttpError Response :=
  let answer (rows : List StreamRow) (error : Option String) : Response :=
    ⟨.rows rows error, [(.sys, S.source .sys)]⟩
  match c.transport with
  | none => .ok (answer [] (some noTransport))
  | some t => do
      let since ← parseWindowTs S "since" r.since
      let until_ ← parseWindowTs S "until" r.until_
      match r.q with
      | none =>
        return answer (scopeStreamRows (t.sys.query S (r.filters since until_) r.limit) tenant) none
      | some q =>
        match searchGuard S since with
        | some error => return answer [] (some error)
        | none =>
          if r.dropped ≠ [] then
            .error r.combined
          else
            match t.sys.search S q (since.getD "") until_ (min r.limit 200) with
            | none =>
              return answer [] (some "search requires sys persistence: configure a syslog store")
            | some rows => return answer (scopeStreamRows rows tenant) none

def freeTextOnApi : HttpError :=
  ⟨400, "free-text q= not accepted on /api — use /search?streams=api (or /logs/sys?q= for syslog only)"⟩

def getApi (c : Contents) (tenant : Option String) (r : ApiRequest) : Except HttpError Response :=
  let answer (rows : List StreamRow) (error : Option String) : Response :=
    ⟨.rows rows error, [(.api, S.source .api)]⟩
  if r.q.isSome then
    .error freeTextOnApi
  else
    match c.transport with
    | none => .ok (answer [] (some noTransport))
    | some t => do
        let since ← parseWindowTs S "since" r.since
        let until_ ← parseWindowTs S "until" r.until_
        return answer (scopeStreamRows (t.api.query S (r.filters since until_) r.limit) tenant) none

/-- A scope takes the place of `?tenant_id=`. -/
def getAudit (c : Contents) (tenant : Option String) (r : AuditRequest) : Response :=
  let filters := { r.filters with tenantId := tenant.or r.filters.tenantId }
  match c.audit with
  | none => ⟨.audit [] (some 0) r.limit r.offset none (some noStore), [(.audit, S.source .audit)]⟩
  | some stored =>
    let rows := query stored filters r.limit r.offset (r.after.getD 0)
    ⟨.audit rows (some (count stored filters)) r.limit r.offset
      (rows.getLast?.map AuditRow.monotonicSeq) none, [(.audit, S.source .audit)]⟩

/-- The rows of a stream for one request, without a limit. -/
def correlated (stream : Stream) (requestId : String) : List StreamRow :=
  stream.matching S { requestId := some requestId }

/-- The rows of a stream that the response holds. -/
def shownRows (stream : Option Stream) (requestId : String) (limit : Nat)
    (tenant : Option String) : List StreamRow :=
  match stream with
  | none => scopeStreamRows [] tenant
  | some stream => scopeStreamRows (stream.query S { requestId := some requestId } limit) tenant

/-- For a scoped caller the total of a stream is the number of rows it is shown. -/
def streamTotal (stream : Option Stream) (requestId : String) (tenant : Option String)
    (shown : List StreamRow) : Nat :=
  match tenant with
  | some _ => shown.length
  | none =>
    match stream with
    | none => 0
    | some stream => (correlated S stream requestId).length

def shownAudit (stored : Option (List AuditRow)) (filters : AuditFilters) (limit : Nat) :
    List AuditRow :=
  match stored with
  | none => []
  | some stored => query stored filters limit 0 0

/-- Not known when the total is not. -/
def isTruncated (shown : Nat) (total : Option Nat) : Option Bool :=
  total.map fun total => decide (shown < total)

def getCorrelate (c : Contents) (tenant : Option String) (requestId : String) (limit : Nat) :
    Response :=
  let filters : AuditFilters := { requestId := some requestId, tenantId := tenant }
  let audit := shownAudit c.audit filters limit
  let apiStream := c.transport.map Transport.api
  let sysStream := c.transport.map Transport.sys
  let api := shownRows S apiStream requestId limit tenant
  let sys := shownRows S sysStream requestId limit tenant
  let counts : PerStream Nat := ⟨audit.length, api.length, sys.length⟩
  let totals : PerStream (Option Nat) :=
    ⟨c.audit.map fun stored => count stored filters,
      some (streamTotal S apiStream requestId tenant api),
      some (streamTotal S sysStream requestId tenant sys)⟩
  let truncated : PerStream (Option Bool) :=
    ⟨isTruncated counts.audit totals.audit, isTruncated counts.api totals.api,
      isTruncated counts.sys totals.sys⟩
  ⟨.correlate requestId audit api sys counts totals truncated,
    [(.audit, S.source .audit), (.api, S.source .api), (.sys, S.source .sys)]⟩

def StreamName.named : String → Option StreamName
  | "sys" => some .sys
  | "api" => some .api
  | "audit" => some .audit
  | _ => none

/-- The names in `streams=`, without blanks; none is `sys`. -/
def requestedStreams (streams : Option String) : List String :=
  let parts := match streams with
    | none => ["sys"]
    | some "" => ["sys"]
    | some s => s.splitOn ","
  (parts.map strip).filter fun part => decide (part ≠ "")

/-- The streams to search, in the order they are searched in. -/
def parsedStreams (names : List String) : List StreamName :=
  let parsed := names.filterMap StreamName.named
  if parsed = [] then [.sys]
  else [StreamName.sys, .api, .audit].filter fun stream => decide (stream ∈ parsed)

def sysMatch (row : StreamRow) : Match :=
  ⟨.sys, Dict.get? row "request_id", Dict.get? row "timestamp", Dict.get? row "event", .inl row⟩

/-- `f"{method} {path}".strip()`; a missing part is empty. -/
def apiMatch (row : StreamRow) : Match :=
  let part (field : String) : String := ((Dict.get? row field).map S.str).getD ""
  let summary := strip (part "method" ++ " " ++ part "path")
  ⟨.api, Dict.get? row "request_id", Dict.get? row "timestamp", some (.str summary), .inl row⟩

def auditMatch (row : AuditRow) : Match :=
  ⟨.audit, some (.str row.requestId), some (.str (canonicalTs row.timestamp)),
    some (.str row.code), .inr row⟩

/-- What one stream of a search adds: its matches, or why it has none. -/
def searchStream (c : Contents) (t : Transport) (tenant : Option String) (q since : String)
    (until_ : Option String) (limit : Nat) : StreamName → Except String (List Match)
  | .sys =>
    match t.sys.search S q since until_ limit with
    | none => .error "requires sys persistence: configure a syslog store"
    | some rows => .ok ((scopeStreamRows rows tenant).map sysMatch)
  | .api =>
    match t.api.search S q since until_ limit with
    | none => .error "requires api persistence: configure an api store"
    | some rows => .ok ((scopeStreamRows rows tenant).map (apiMatch S))
  | .audit =>
    match c.audit with
    | none => .error "requires an audit store with a search method"
    | some stored => .ok ((search S stored q since until_ limit tenant).map auditMatch)

/-- The streams one after the other. -/
def searchBody (results : List (StreamName × Except String (List Match))) : Body :=
  .search (results.flatMap fun r => (r.2.toOption).getD [])
    (results.map fun r => (r.1, ((r.2.toOption).getD []).length))
    (results.filterMap fun r => match r.2 with
      | .error e => some (r.1, e)
      | .ok _ => none) none

def unknownStreams (names unknown : List String) : HttpError :=
  ⟨400, "streams=" ++ S.sortedText names.dedup ++ ": unknown stream(s) " ++
    S.sortedText unknown.dedup ++ ". Valid: ['api', 'audit', 'sys']."⟩

def getSearch (c : Contents) (tenant : Option String) (r : SearchRequest) :
    Except HttpError Response := do
  let names := requestedStreams r.streams
  let unknown := names.filter fun name => (StreamName.named name).isNone
  if unknown ≠ [] then
    throw (unknownStreams S names unknown)
  let parsed := parsedStreams names
  let completeness := parsed.map fun stream => (stream, S.source stream)
  let empty := parsed.map fun stream => (stream, 0)
  let since ← parseWindowTs S "since" (some r.since)
  let until_ ← parseWindowTs S "until" r.until_
  match searchGuard S since with
  | some error => return ⟨.search [] empty [] (some error), completeness⟩
  | none =>
    match c.transport with
    | none => return ⟨.search [] empty [] (some noTransport), completeness⟩
    | some t =>
      return ⟨searchBody (parsed.map fun stream =>
        (stream, searchStream S c t tenant r.q (since.getD "") until_ r.limit stream)),
        completeness⟩

def getTopology (c : Contents) (tenant : Option String) (since until_ : Option Datetime) :
    Response :=
  match c.audit with
  | none => ⟨.topology [] 0 0 0 (some noStore), []⟩
  | some stored =>
    let all := sources stored since until_
    let shown := match tenant with
      | none => all
      | some t => all.filter fun x => decide (x.tenantId = some t)
    ⟨.topology shown (shown.map SourceRow.sourceNodeId).dedup.length
      (shown.map SourceRow.serviceId).dedup.length
      ((shown.map SourceRow.tenantId).filter fun t => decide (t ≠ none ∧ t ≠ some "")).dedup.length
      none, []⟩

/-- A request of a caller for whom the hook gives `scope`. -/
def respond (c : Contents) (scope : Option (Option String)) (request : Request) :
    Except HttpError Response := do
  let tenant ← resolveTenant scope
  match request with
  | .sys r => getSys S c tenant r
  | .api r => getApi S c tenant r
  | .audit r => return getAudit S c tenant r
  | .correlate requestId limit => return getCorrelate S c tenant requestId limit
  | .search r => getSearch S c tenant r
  | .topology since until_ => return getTopology c tenant since until_

end

end Fasten.Reader
