import Fasten.Reader

set_option autoImplicit false

/-! # What a scoped caller sees

A caller scoped to a tenant should get the response it would get if only the tenant's rows were
stored. The audit routes check the tenant in the query, and `/topology` groups by it. The sys and api
streams are cut at the limit first and checked then: newer rows of others take the place of the
tenant's own. -/

namespace Fasten.Reader

open Select (Fits)

variable (S : Settings) (T : String)

/-! ## The tenant's own rows -/

/-- The rows of the tenant. -/
def Stream.restrict : Stream → Stream
  | .ring rows => .ring (rows.filter (isTenants T))
  | .store rows => .store (rows.filter fun r => isTenants T r.payload)

def Contents.restrict (c : Contents) : Contents where
  audit := c.audit.map (List.filter (ofTenant (some T)))
  transport := c.transport.map fun t => ⟨t.sys.restrict T, t.api.restrict T⟩

theorem Stream.matching_restrict (f : StreamFilters) (stream : Stream) :
    (stream.restrict T).matching S f = (stream.matching S f).filter (isTenants T) := by
  cases stream with
  | ring rows =>
    rw [restrict, matching, matching, List.filter_filter, List.filter_filter]
    exact List.filter_congr fun r _ => Bool.and_comm _ _
  | store rows =>
    rw [restrict, matching, matching, List.filter_map, List.filter_filter, List.filter_filter]
    exact congrArg _ (List.filter_congr fun r _ => Bool.and_comm _ _)

theorem Stream.found_restrict (q since : String) (until_ : Option String) (stream : Stream) :
    (stream.restrict T).found S q since until_
      = (stream.found S q since until_).map (List.filter (isTenants T)) := by
  cases stream with
  | ring rows => rfl
  | store rows =>
    rw [restrict, found, found, Option.map_some, List.filter_map, List.filter_filter,
      List.filter_filter]
    refine congrArg (fun l => some (List.map StoredRow.payload l)) (List.filter_congr fun r _ => ?_)
    exact Bool.and_comm _ _

variable {limit : Nat} {f : AuditFilters}

/-- What is left of a stream's rows after the limit and then the scope. -/
theorem scope_take_iff {rows : List StreamRow} :
    scopeStreamRows (rows.take limit) (some T)
        = scopeStreamRows ((rows.filter (isTenants T)).take limit) (some T)
      ↔ Fits (isTenants T) limit rows := by
  rw [scopeStreamRows, scopeStreamRows, Select.filter_take_filter]
  exact Select.filter_take_eq_iff

/-! ## The audit store -/

section Audit

variable {T}

theorem query_restrict (hf : f.tenantId = some T) (rows : List AuditRow)
    (limit offset afterSeq : Nat) :
    query (rows.filter (ofTenant (some T))) f limit offset afterSeq
      = query rows f limit offset afterSeq := by
  have hselect : (rows.filter (ofTenant (some T))).filter (fun r => f.matches r
      && (decide (afterSeq = 0) || decide (r.monotonicSeq < afterSeq)))
      = rows.filter fun r => f.matches r
        && (decide (afterSeq = 0) || decide (r.monotonicSeq < afterSeq)) := by
    rw [List.filter_filter]
    refine List.filter_congr fun r _ => ?_
    simp only [AuditFilters.matches, hf]
    cases ofTenant (some T) r <;> simp
  rw [query, query, hselect]

theorem count_restrict (hf : f.tenantId = some T) (rows : List AuditRow) :
    count (rows.filter (ofTenant (some T))) f = count rows f := by
  rw [count, count, List.filter_filter]
  refine congrArg _ (List.filter_congr fun r _ => ?_)
  simp only [AuditFilters.matches, hf]
  cases ofTenant (some T) r <;> simp

theorem search_restrict (rows : List AuditRow) (q since : String) (until_ : Option String)
    (limit : Nat) :
    search S (rows.filter (ofTenant (some T))) q since until_ limit (some T)
      = search S rows q since until_ limit (some T) := by
  rw [search, search, List.filter_filter]
  refine congrArg (fun l => (newestFirst l).take limit) (List.filter_congr fun r _ => ?_)
  cases ofTenant (some T) r <;> simp

/-- The groups of the tenant are made of its rows. -/
theorem sourceRow_restrict (rows : List AuditRow) {key : String × String × Option String}
    (hkey : key.2.2 = some T) :
    sourceRow (rows.filter (ofTenant (some T))) key = sourceRow rows key := by
  have hgroup : (rows.filter (ofTenant (some T))).filter (fun r => decide (groupKey r = key))
      = rows.filter fun r => decide (groupKey r = key) := by
    rw [List.filter_filter]
    refine List.filter_congr fun r _ => ?_
    by_cases h : groupKey r = key
    · have htenant : r.tenantId = some T := by
        rw [← hkey, ← h]
        rfl
      simp [ofTenant, h, htenant]
    · simp [h]
  rw [sourceRow, sourceRow, hgroup]

/-- **The tenant's groups**, of all rows or of its own. -/
theorem sources_restrict (rows : List AuditRow) (since until_ : Option Datetime) :
    (sources (rows.filter (ofTenant (some T))) since until_).filter
        (fun x => decide (x.tenantId = some T))
      = (sources rows since until_).filter fun x => decide (x.tenantId = some T) := by
  set m := AuditFilters.matches { since := since, until_ := until_ } with hm
  have hselected : (rows.filter (ofTenant (some T))).filter m
      = (rows.filter m).filter (ofTenant (some T)) := by
    rw [List.filter_filter, List.filter_filter]
    exact List.filter_congr fun r _ => Bool.and_comm _ _
  -- the groups that are left are those of the tenant's keys, before the two sorts
  have hgroups : ∀ selected : List AuditRow,
      ((Select.sortDesc SourceRow.rows ((Select.sortDesc groupOrder
        (selected.map groupKey).dedup).map (sourceRow selected))).filter
          fun x => decide (x.tenantId = some T))
        = Select.sortDesc SourceRow.rows ((Select.sortDesc groupOrder
          ((selected.filter (ofTenant (some T))).map groupKey).dedup).map
            (sourceRow (selected.filter (ofTenant (some T))))) := by
    intro selected
    rw [Select.filter_sortDesc, List.filter_map]
    have hkeys : (Select.sortDesc groupOrder (selected.map groupKey).dedup).filter
        ((fun x : SourceRow => decide (x.tenantId = some T)) ∘ sourceRow selected)
        = Select.sortDesc groupOrder ((selected.filter (ofTenant (some T))).map groupKey).dedup := by
      rw [Select.filter_sortDesc, Select.filter_dedup, List.filter_map]
      rfl
    rw [hkeys]
    refine congrArg _ (List.map_congr_left fun key hkey => (sourceRow_restrict selected ?_).symm)
    rw [Select.mem_sortDesc, List.mem_dedup] at hkey
    obtain ⟨r, hr, rfl⟩ := List.mem_map.1 hkey
    exact of_decide_eq_true (List.mem_filter.1 hr).2
  rw [sources, sources, ← hm, hselected, hgroups, hgroups, List.filter_filter]
  simp only [Bool.and_self]

end Audit

/-! ## What is read of a stream -/

/-- The rows of a stream that match a request, its limit, and whether the response says if it is
    truncated. -/
structure StreamRead where
  rows : List StreamRow
  limit : Nat
  reported : Bool

/-- The limit leaves the tenant's rows in: none is beyond it, or all within it are the tenant's. If
    the response says whether it is truncated, none may be beyond it. -/
def StreamRead.Shows (read : StreamRead) : Prop :=
  (∀ r ∈ read.rows.drop read.limit, isTenants T r = false)
    ∨ read.reported = false ∧ ∀ r ∈ read.rows.take read.limit, isTenants T r = true

theorem shows_iff_fits {rows : List StreamRow} :
    StreamRead.Shows T ⟨rows, limit, false⟩ ↔ Fits (isTenants T) limit rows := by
  simp [StreamRead.Shows, Fits]

def searchReads (t : Transport) (q since : String) (until_ : Option String) (limit : Nat)
    (stream : StreamName) : List StreamRead :=
  match stream with
  | .sys => ((t.sys.found S q since until_).map fun rows => ⟨rows, limit, false⟩).toList
  | .api => ((t.api.found S q since until_).map fun rows => ⟨rows, limit, false⟩).toList
  | .audit => []

/-- What a request reads of the streams, if it gets that far. -/
def Request.reads (c : Contents) : Request → List StreamRead
  | .sys r =>
    match c.transport, parseWindowTs S "since" r.since, parseWindowTs S "until" r.until_ with
    | some t, .ok since, .ok until_ =>
      match r.q with
      | none => [⟨t.sys.matching S (r.filters since until_), r.limit, false⟩]
      | some q =>
        if searchGuard S since = none ∧ r.dropped = [] then
          searchReads S t q (since.getD "") until_ (min r.limit 200) .sys
        else []
    | _, _, _ => []
  | .api r =>
    match c.transport, parseWindowTs S "since" r.since, parseWindowTs S "until" r.until_ with
    | some t, .ok since, .ok until_ =>
      if r.q = none then [⟨t.api.matching S (r.filters since until_), r.limit, false⟩] else []
    | _, _, _ => []
  | .audit _ => []
  | .correlate requestId limit =>
    ((c.transport.map Transport.api).toList ++ (c.transport.map Transport.sys).toList).map
      fun stream => ⟨correlated S stream requestId, limit, true⟩
  | .search r =>
    match c.transport, parseWindowTs S "since" (some r.since), parseWindowTs S "until" r.until_ with
    | some t, .ok since, .ok until_ =>
      let names := requestedStreams r.streams
      if names.all (fun name => (StreamName.named name).isSome) = true
          ∧ searchGuard S since = none then
        (parsedStreams names).flatMap (searchReads S t r.q (since.getD "") until_ r.limit)
      else []
    | _, _, _ => []
  | .topology _ _ => []

/-- `truncated` is true of every stream of which the tenant has more rows for the request than the
    response holds. -/
def Truthful (c : Contents) : Body → Prop
  | .correlate requestId audit api sys _ _ truncated =>
    (∀ stored ∈ (c.restrict T).audit,
      audit.length < count stored { requestId := some requestId } → truncated.audit = some true)
    ∧ (∀ stream ∈ (c.restrict T).transport.map Transport.api,
      api.length < (correlated S stream requestId).length → truncated.api = some true)
    ∧ ∀ stream ∈ (c.restrict T).transport.map Transport.sys,
      sys.length < (correlated S stream requestId).length → truncated.sys = some true
  | _ => True

/-- The response is the one of the tenant's own rows, and that of `/correlate`, the only one to do so,
    says where it is truncated. -/
def SeesOwn (c : Contents) (request : Request) : Prop :=
  respond S c (some (some T)) request = respond S (c.restrict T) (some (some T)) request
    ∧ ∀ requestId limit, request = .correlate requestId limit →
      Truthful S T c (getCorrelate S c (some T) requestId limit).body

/-! ## The routes -/

section Routes

variable {T}

theorem getAudit_restrict (c : Contents) (r : AuditRequest) :
    getAudit S (c.restrict T) (some T) r = getAudit S c (some T) r := by
  cases haudit : c.audit with
  | none => simp [getAudit, Contents.restrict, haudit]
  | some stored =>
    simp only [getAudit, Contents.restrict, haudit, Option.map_some, Option.some_or]
    rw [query_restrict rfl, count_restrict rfl]

theorem getTopology_restrict (c : Contents) (since until_ : Option Datetime) :
    getTopology (c.restrict T) (some T) since until_ = getTopology c (some T) since until_ := by
  cases haudit : c.audit with
  | none => simp [getTopology, Contents.restrict, haudit]
  | some stored =>
    simp only [getTopology, Contents.restrict, haudit, Option.map_some]
    rw [sources_restrict]

theorem getSys_restrict_iff (c : Contents) (r : SysRequest) :
    getSys S c (some T) r = getSys S (c.restrict T) (some T) r
      ↔ ∀ read ∈ (Request.sys r).reads S c, read.Shows T := by
  cases htransport : c.transport with
  | none => simp [getSys, Contents.restrict, htransport, Request.reads]
  | some t =>
    simp only [getSys, Contents.restrict, htransport, Option.map_some, Request.reads]
    cases parseWindowTs S "since" r.since with
    | error e => simp [bind, Except.bind]
    | ok since =>
      cases parseWindowTs S "until" r.until_ with
      | error e => simp [bind, Except.bind]
      | ok until_ =>
        cases hq : r.q with
        | none =>
          simp only [bind, Except.bind, pure, Except.pure, Except.ok.injEq,
            Response.mk.injEq, Body.rows.injEq, and_true, List.mem_singleton, forall_eq]
          rw [shows_iff_fits, Stream.query, Stream.query, Stream.matching_restrict]
          exact scope_take_iff T
        | some q =>
          simp only [bind, Except.bind, pure, Except.pure]
          cases searchGuard S since with
          | some error => simp
          | none =>
            by_cases hdropped : r.dropped = []
            · simp only [hdropped, ne_eq, not_true_eq_false, if_false, and_self, if_true,
                searchReads, Stream.search, Stream.found_restrict]
              cases t.sys.found S q (since.getD "") until_ with
              | none => simp
              | some rows =>
                simp only [Option.map_some, Except.ok.injEq, Response.mk.injEq,
                  Body.rows.injEq, and_true, Option.toList_some, List.mem_singleton,
                  forall_eq]
                rw [shows_iff_fits]
                exact scope_take_iff T
            · simp [hdropped]

theorem getApi_restrict_iff (c : Contents) (r : ApiRequest) :
    getApi S c (some T) r = getApi S (c.restrict T) (some T) r
      ↔ ∀ read ∈ (Request.api r).reads S c, read.Shows T := by
  cases htransport : c.transport with
  | none => simp [getApi, Contents.restrict, htransport, Request.reads]
  | some t =>
    simp only [getApi, Contents.restrict, htransport, Option.map_some, Request.reads]
    cases hq : r.q with
    | some q =>
      refine iff_of_true rfl fun read hread => ?_
      revert hread
      cases parseWindowTs S "since" r.since <;> cases parseWindowTs S "until" r.until_ <;>
        simp only [List.not_mem_nil, reduceCtorEq, if_false, false_imp_iff]
    | none =>
      cases parseWindowTs S "since" r.since with
      | error e => simp [bind, Except.bind]
      | ok since =>
        cases parseWindowTs S "until" r.until_ with
        | error e => simp [bind, Except.bind]
        | ok until_ =>
          simp only [Option.isSome_none, Bool.false_eq_true, if_false, bind, Except.bind,
            pure, Except.pure, Except.ok.injEq, Response.mk.injEq, Body.rows.injEq,
            and_true, if_true, List.mem_singleton, forall_eq]
          rw [shows_iff_fits, Stream.query, Stream.query, Stream.matching_restrict]
          exact scope_take_iff T

/-! ### `/search` -/

/-- The number of a stream's matches says already whether the limit leaves the tenant's rows in. -/
theorem searchStream_restrict {c : Contents} {t : Transport} {q since : String}
    {until_ : Option String} {stream : StreamName} :
    ((∀ read ∈ searchReads S t q since until_ limit stream, read.Shows T) →
      searchStream S c t (some T) q since until_ limit stream
        = searchStream S (c.restrict T) ⟨t.sys.restrict T, t.api.restrict T⟩ (some T) q since until_
          limit stream)
      ∧ (((searchStream S c t (some T) q since until_ limit stream).toOption.getD []).length
          = ((searchStream S (c.restrict T) ⟨t.sys.restrict T, t.api.restrict T⟩ (some T) q since
            until_ limit stream).toOption.getD []).length →
        ∀ read ∈ searchReads S t q since until_ limit stream, read.Shows T) := by
  have hrows : ∀ (rows : List StreamRow) (f : StreamRow → Match),
      (StreamRead.Shows T ⟨rows, limit, false⟩ →
        (scopeStreamRows (rows.take limit) (some T)).map f
          = (scopeStreamRows ((rows.filter (isTenants T)).take limit) (some T)).map f)
      ∧ (((scopeStreamRows (rows.take limit) (some T)).map f).length
          = ((scopeStreamRows ((rows.filter (isTenants T)).take limit) (some T)).map f).length →
        StreamRead.Shows T ⟨rows, limit, false⟩) := by
    intro rows f
    rw [shows_iff_fits]
    refine ⟨fun h => congrArg _ ((scope_take_iff T).2 h), fun h => ?_⟩
    rw [List.length_map, List.length_map, scopeStreamRows, scopeStreamRows,
      Select.filter_take_filter] at h
    exact Select.fits_of_length_eq h
  cases stream with
  | sys =>
    simp only [searchStream, searchReads, Stream.search, Stream.found_restrict]
    cases t.sys.found S q since until_ with
    | none => simp
    | some rows => simpa [Except.toOption] using hrows rows sysMatch
  | api =>
    simp only [searchStream, searchReads, Stream.search, Stream.found_restrict]
    cases t.api.found S q since until_ with
    | none => simp
    | some rows => simpa [Except.toOption] using hrows rows (apiMatch S)
  | audit =>
    simp only [searchStream, searchReads, Contents.restrict]
    cases c.audit with
    | none => simp
    | some stored => simp [search_restrict]

/-- Two results of a search over the same streams. -/
theorem searchBody_restrict_iff {parsed : List StreamName} {c : Contents} {t : Transport}
    {q since : String} {until_ : Option String} :
    searchBody (parsed.map fun stream =>
        (stream, searchStream S c t (some T) q since until_ limit stream))
      = searchBody (parsed.map fun stream => (stream, searchStream S (c.restrict T)
          ⟨t.sys.restrict T, t.api.restrict T⟩ (some T) q since until_ limit stream))
      ↔ ∀ read ∈ parsed.flatMap (searchReads S t q since until_ limit), read.Shows T := by
  refine ⟨fun h read hread => ?_, fun h => ?_⟩
  · obtain ⟨stream, hstream, hread⟩ := List.mem_flatMap.1 hread
    obtain ⟨-, hcounts, -⟩ := Body.search.inj h
    rw [List.map_map, List.map_map, List.map_inj_left] at hcounts
    exact (searchStream_restrict S).2 (Prod.mk.inj (hcounts stream hstream)).2 read hread
  · refine congrArg searchBody (List.map_congr_left fun stream hstream => ?_)
    rw [(searchStream_restrict S).1 fun read hread => h read (List.mem_flatMap.2 ⟨_, hstream, hread⟩)]

theorem getSearch_restrict_iff (c : Contents) (r : SearchRequest) :
    getSearch S c (some T) r = getSearch S (c.restrict T) (some T) r
      ↔ ∀ read ∈ (Request.search r).reads S c, read.Shows T := by
  have hall : ((requestedStreams r.streams).filter fun name => (StreamName.named name).isNone) = []
      ↔ (requestedStreams r.streams).all (fun name => (StreamName.named name).isSome) = true := by
    simp [List.filter_eq_nil_iff, Option.isSome_iff_ne_none]
  simp only [getSearch, Request.reads, ← hall]
  by_cases hnamed : ((requestedStreams r.streams).filter fun name =>
      (StreamName.named name).isNone) = []
  · simp only [hnamed, ne_eq, not_true_eq_false, if_false, true_and, bind, Except.bind, pure,
      Except.pure]
    cases parseWindowTs S "since" (some r.since) with
    | error e => cases c.transport <;> simp
    | ok since =>
      cases parseWindowTs S "until" r.until_ with
      | error e => cases c.transport <;> simp
      | ok until_ =>
        cases hguard : searchGuard S since with
        | some error => cases c.transport <;> simp [hguard]
        | none =>
          cases htransport : c.transport with
          | none => simp [Contents.restrict, htransport]
          | some t =>
            simp only [hguard, Contents.restrict, htransport, Option.map_some, Except.ok.injEq,
              Response.mk.injEq, and_true, if_true]
            exact searchBody_restrict_iff S
  · simp only [hnamed, ne_eq, not_false_eq_true, if_true, false_and, if_false]
    refine iff_of_true rfl fun read hread => ?_
    revert hread
    cases c.transport <;> cases parseWindowTs S "since" (some r.since) <;>
      cases parseWindowTs S "until" r.until_ <;> simp

/-! ### `/correlate` -/

/-- Counting with the tenant is counting the tenant's rows. -/
theorem count_scoped (rows : List AuditRow) (requestId : String) :
    count rows { requestId := some requestId, tenantId := some T }
      = count (rows.filter (ofTenant (some T))) { requestId := some requestId } := by
  rw [count, count, List.filter_filter]
  refine congrArg _ (List.filter_congr fun r _ => ?_)
  simp only [AuditFilters.matches, ofTenant]
  cases decide (r.tenantId = some T) <;> simp

theorem shownAudit_restrict (c : Contents) (hf : f.tenantId = some T) (limit : Nat) :
    shownAudit (c.restrict T).audit f limit = shownAudit c.audit f limit := by
  cases haudit : c.audit with
  | none => simp [Contents.restrict, haudit]
  | some stored =>
    simp only [Contents.restrict, haudit, Option.map_some, shownAudit]
    exact query_restrict hf stored _ _ _

theorem total_restrict (c : Contents) (hf : f.tenantId = some T) :
    (c.restrict T).audit.map (fun stored => count stored f)
      = c.audit.map fun stored => count stored f := by
  cases haudit : c.audit with
  | none => simp [Contents.restrict, haudit]
  | some stored =>
    simp only [Contents.restrict, haudit, Option.map_some]
    rw [count_restrict hf]

/-- `truncated` is right of the audit rows. -/
theorem truthful_audit (c : Contents) (requestId : String) (shown : Nat) :
    ∀ stored ∈ (c.restrict T).audit, shown < count stored { requestId := some requestId } →
      isTruncated shown (c.audit.map fun stored =>
        count stored { requestId := some requestId, tenantId := some T }) = some true := by
  intro stored hstored h
  cases haudit : c.audit with
  | none => simp [Contents.restrict, haudit] at hstored
  | some all =>
    simp only [Contents.restrict, haudit, Option.map_some, Option.mem_some_iff] at hstored
    rw [← hstored, ← count_scoped] at h
    simp [isTruncated, h]

/-- The tenant has no rows beyond the limit. -/
def NoneBeyond (stream : Option Stream) (requestId : String) (limit : Nat) : Prop :=
  ∀ s ∈ stream, ∀ r ∈ (correlated S s requestId).drop limit, isTenants T r = false

theorem shownRows_restrict {stream : Option Stream} {requestId : String}
    (h : NoneBeyond S (T := T) stream requestId limit) :
    shownRows S (stream.map (Stream.restrict T)) requestId limit (some T)
      = shownRows S stream requestId limit (some T) := by
  cases stream with
  | none => rfl
  | some stream =>
    simp only [Option.map_some, shownRows, Stream.query]
    rw [Stream.matching_restrict]
    exact ((scope_take_iff T).2 (Or.inl (h stream rfl))).symm

/-- The total that a scoped caller is given never says that rows are missing, so none may be. -/
theorem truthful_stream_iff {stream : Option Stream} {requestId : String} :
    (∀ s ∈ stream.map (Stream.restrict T),
        (shownRows S stream requestId limit (some T)).length < (correlated S s requestId).length →
        isTruncated (shownRows S stream requestId limit (some T)).length
          (some (streamTotal S stream requestId (some T)
            (shownRows S stream requestId limit (some T)))) = some true)
      ↔ NoneBeyond S (T := T) stream requestId limit := by
  cases stream with
  | none => simp [NoneBeyond]
  | some stream =>
    simp only [Option.map_some, Option.mem_some_iff, forall_eq', streamTotal, isTruncated,
      lt_irrefl, decide_false, Option.some.injEq, Bool.false_eq_true, imp_false, NoneBeyond]
    rw [not_lt, correlated, Stream.matching_restrict]
    exact Select.length_filter_le_iff

theorem getCorrelate_restrict_iff (c : Contents) (requestId : String) (limit : Nat) :
    (getCorrelate S c (some T) requestId limit
          = getCorrelate S (c.restrict T) (some T) requestId limit
        ∧ Truthful S T c (getCorrelate S c (some T) requestId limit).body)
      ↔ ∀ read ∈ (Request.correlate requestId limit).reads S c, read.Shows T := by
  have hreads : (∀ read ∈ (Request.correlate requestId limit).reads S c, read.Shows T)
      ↔ NoneBeyond S (T := T) (c.transport.map Transport.api) requestId limit
        ∧ NoneBeyond S (T := T) (c.transport.map Transport.sys) requestId limit := by
    simp only [Request.reads, List.forall_mem_map, List.forall_mem_append, Option.mem_toList,
      Option.mem_def, StreamRead.Shows, Bool.true_eq_false, false_and, or_false, NoneBeyond]
  have hapi : (c.restrict T).transport.map Transport.api
      = (c.transport.map Transport.api).map (Stream.restrict T) := by
    simp [Contents.restrict, Function.comp_def]
  have hsys : (c.restrict T).transport.map Transport.sys
      = (c.transport.map Transport.sys).map (Stream.restrict T) := by
    simp [Contents.restrict, Function.comp_def]
  rw [hreads]
  refine ⟨fun ⟨_, htruthful⟩ => ?_, fun ⟨hnoApi, hnoSys⟩ => ⟨?_, ?_⟩⟩
  · obtain ⟨-, htapi, htsys⟩ := htruthful
    rw [hapi] at htapi
    rw [hsys] at htsys
    exact ⟨(truthful_stream_iff S).1 htapi, (truthful_stream_iff S).1 htsys⟩
  · simp only [getCorrelate]
    rw [hapi, hsys, shownRows_restrict S hnoApi, shownRows_restrict S hnoSys,
      shownAudit_restrict c rfl, total_restrict c rfl]
    rfl
  · refine ⟨truthful_audit c requestId _, ?_, ?_⟩
    · rw [hapi]
      exact (truthful_stream_iff S).2 hnoApi
    · rw [hsys]
      exact (truthful_stream_iff S).2 hnoSys

end Routes

/-! ## The whole reader -/

/-- **When a scoped caller sees its own rows and nothing else**: the limit of each read of a stream
    leaves the tenant's rows in. The audit routes need nothing. -/
theorem seesOwn_iff (c : Contents) (hT : T ≠ "") (request : Request) :
    SeesOwn S T c request ↔ ∀ read ∈ request.reads S c, read.Shows T := by
  have hrespond : ∀ c, respond S c (some (some T)) request
      = match request with
        | .sys r => getSys S c (some T) r
        | .api r => getApi S c (some T) r
        | .audit r => .ok (getAudit S c (some T) r)
        | .correlate requestId limit => .ok (getCorrelate S c (some T) requestId limit)
        | .search r => getSearch S c (some T) r
        | .topology since until_ => .ok (getTopology c (some T) since until_) := by
    intro c
    simp only [respond, resolveTenant, if_neg hT]
    cases request <;> rfl
  rw [SeesOwn, hrespond, hrespond]
  cases request with
  | sys r => simpa using getSys_restrict_iff S c r
  | api r => simpa using getApi_restrict_iff S c r
  | audit r => simp [getAudit_restrict, Request.reads]
  | correlate requestId limit =>
    simp only [Except.ok.injEq, Request.correlate.injEq]
    rw [← getCorrelate_restrict_iff]
    refine and_congr_right fun _ => ⟨fun h => h requestId limit ⟨rfl, rfl⟩, fun h => ?_⟩
    rintro _ _ ⟨rfl, rfl⟩
    exact h
  | search r => simpa using getSearch_restrict_iff S c r
  | topology since until_ => simp [getTopology_restrict, Request.reads]

/-! ## Two rows of a ring -/

/-- Texts as they are, and the streams in rings. -/
def Settings.sample : Settings where
  searchOn := true
  source _ := .ring
  parseTs := .ok
  lower := id
  str _ := ""
  sortedText _ := ""
  floatEq _ _ := false
  detailText _ := ""

/-- An event of a tenant, for request `r`. -/
def eventRow (tenant event : String) : StreamRow :=
  [("tenant_id", .str tenant), ("request_id", .str "r"), ("event", .str event)]

/-- Tenant `other` logs after tenant `own`. -/
def crowded : Contents where
  audit := none
  transport := some ⟨.ring [eventRow "other" "second", eventRow "own" "first"], .ring []⟩

def sysRequest (limit : Nat) : Request := .sys ⟨none, none, none, none, none, none, none, limit⟩

theorem seesOwn_two : SeesOwn .sample "own" crowded (sysRequest 2) :=
  (seesOwn_iff .sample "own" crowded (by decide) (sysRequest 2)).2 (by
    intro read hread
    rw [List.mem_singleton.1 hread]
    exact Or.inl nofun)

/-- With a limit of one the row of the other tenant takes the place of the tenant's own: it is shown
    none of its rows, and `/correlate` says that none is missing. -/
theorem not_seesOwn_one :
    respond .sample crowded (some (some "own")) (sysRequest 1)
        = .ok ⟨.rows [] none, [(.sys, .ring)]⟩
      ∧ respond .sample (crowded.restrict "own") (some (some "own")) (sysRequest 1)
        = .ok ⟨.rows [eventRow "own" "first"] none, [(.sys, .ring)]⟩
      ∧ ¬SeesOwn .sample "own" crowded (sysRequest 1)
      ∧ ¬Truthful .sample "own" crowded (getCorrelate .sample crowded (some "own") "r" 1).body := by
  have hshown : respond .sample crowded (some (some "own")) (sysRequest 1)
      = .ok ⟨.rows [] none, [(.sys, .ring)]⟩ := rfl
  have hown : respond .sample (crowded.restrict "own") (some (some "own")) (sysRequest 1)
      = .ok ⟨.rows [eventRow "own" "first"] none, [(.sys, .ring)]⟩ := rfl
  refine ⟨hshown, hown, fun h => ?_, fun h => ?_⟩
  · have hsame := h.1
    rw [hshown, hown] at hsame
    cases hsame
  · exact absurd (h.2.2 (.ring [eventRow "own" "first"]) rfl (by decide)) (by decide)

end Fasten.Reader
