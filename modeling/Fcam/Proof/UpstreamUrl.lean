import Fcam.Proof.AllowedPaths

/-!
# Inbound and upstream URLs

A handler writes the URL it sends from the decoded path of the request and from the query as it came
in. Where the decoded segments mean themselves in the text of a URL, both URLs agree below the
version of the API.
-/

namespace Fcam

/-! ### The URL of a request -/

/-- A decoded segment that is read as it stands in the text of a URL. -/
structure IsTransparent (part : List Char) : Prop where
  plain : IsPlain part
  slash : '/' ∉ part
  escape : hasEscape part = false

/-- The query of a request target, in which neither `#` nor a tab or a line end may stand. -/
def IsRawQuery (query : List Char) : Prop := ∀ c ∈ query, c ≠ '#' ∧ c ≠ '\t' ∧ c ≠ '\r' ∧ c ≠ '\n'

instance (text : List Char) : Decidable (IsPlain text) :=
  decidable_of_iff (text.all isPlain = true) List.all_eq_true

instance (part : List Char) : Decidable (IsTransparent part) :=
  decidable_of_iff (IsPlain part ∧ '/' ∉ part ∧ hasEscape part = false)
    ⟨fun h => ⟨h.1, h.2.1, h.2.2⟩, fun h => ⟨h.plain, h.slash, h.escape⟩⟩

instance (query : List Char) : Decidable (IsRawQuery query) :=
  decidable_of_iff (query.all fun c => decide (c ≠ '#' ∧ c ≠ '\t' ∧ c ≠ '\r' ∧ c ≠ '\n')) (by
    rw [IsRawQuery, List.all_eq_true]
    exact forall₂_congr fun _ _ => decide_eq_true_iff)

theorem isPlain_of_segments {path : List Char} (h : ∀ part ∈ segments path, IsPlain part) :
    IsPlain path := by
  intro c hc
  by_cases hslash : c = '/'
  · subst hslash
    decide
  · obtain ⟨part, hpart, hmem⟩ := exists_segment_of_mem hc hslash
    exact h part hpart c hmem

theorem urlPath_plain {req : InboundRequest} (h : IsPlain req.path) : req.urlPath = req.path := by
  obtain ⟨more, hurl, hmore⟩ := urlPath_eq req
  have hnil : readPath more = [] := by
    obtain rfl | ⟨query, rfl⟩ := hmore
    · rfl
    · exact readPath_query query
  rw [hurl, readPath_append h, hnil, List.append_nil]

theorem urlQuery_plain {req : InboundRequest} (h : IsPlain req.path)
    (hquery : IsRawQuery req.queryString) :
    req.urlQuery = req.queryString := by
  have hpath : (req.path.filter fun c => c ≠ '\t' ∧ c ≠ '\r' ∧ c ≠ '\n') = req.path :=
    filter_plain h
  have hends : ∀ c ∈ req.path, endsPath c = false := fun c hc => h.endsPath hc
  rw [InboundRequest.urlQuery, InboundRequest.urlText]
  split
  · next hempty => rw [hpath, queryOf_path hends, hempty]
  · have hkept :
        (req.queryString.filter fun c => c ≠ '\t' ∧ c ≠ '\r' ∧ c ≠ '\n') = req.queryString :=
      List.filter_eq_self.mpr fun c hc => by simpa using (hquery c hc).2
    have hmark :
        (('?' :: req.queryString).filter fun c => c ≠ '\t' ∧ c ≠ '\r' ∧ c ≠ '\n') =
          '?' :: req.queryString := by
      rw [List.filter_cons_of_pos (by decide), hkept]
    rw [List.filter_append, hpath, hmark]
    exact queryOf_append hends fun hmem => (hquery '#' hmem).1 rfl

theorem hash_not_mem_urlQuery (req : InboundRequest) : '#' ∉ req.urlQuery := by
  rw [InboundRequest.urlQuery, queryOf]
  split
  · exact fun hmem => by simpa using List.mem_takeWhile_imp hmem
  · exact List.not_mem_nil

theorem queryOf_withQuery (req : InboundRequest) {path : List Char}
    (h : ∀ c ∈ path, endsPath c = false) :
    queryOf (req.withQuery path) = req.urlQuery := by
  rw [InboundRequest.withQuery]
  split
  · next hempty => rw [queryOf_path h, hempty]
  · exact queryOf_append h (hash_not_mem_urlQuery req)

/-! ### Targets with a transparent parameter -/

theorem filled_plain {param : List Char} (h : ∀ c ∈ param, endsPath c = false)
    (parts : List PathPart) :
    filled param parts = parts.map (PathPart.text param) := by
  have hany : param.any endsPath = false := List.any_eq_false.mpr fun c hc => by simp [h c hc]
  induction parts with
  | nil => rfl
  | cons part parts ih =>
    cases part with
    | lit text => rw [filled, ih, List.map_cons, PathPart.text]
    | param => rw [filled, hany, if_neg Bool.false_ne_true, ih, List.map_cons, PathPart.text]

theorem map_text_of_not_mem {parts : List PathPart} (h : .param ∉ parts) (one other : List Char) :
    parts.map (PathPart.text one) = parts.map (PathPart.text other) := by
  refine List.map_congr_left fun part hpart => ?_
  cases part with
  | lit text => rfl
  | param => exact absurd hpart h

theorem eq_map_text_of_matchParts {parts : List PathPart} {path params : List (List Char)}
    (h : matchParts parts path = some params) (hone : parts.count .param ≤ 1) :
    path = parts.map (PathPart.text (Route.param params)) := by
  fun_induction matchParts parts path generalizing params with
  | case1 => rfl
  | case2 text parts rest ih =>
    rw [List.count_cons_of_ne (by simp)] at hone
    rw [List.map_cons, ← ih h hone, PathPart.text]
  | case3 text parts segment rest hne => cases h
  | case4 parts rest => cases h
  | case5 parts segment rest hne ih =>
    obtain ⟨others, hothers, rfl⟩ := Option.map_eq_some_iff.mp h
    rw [List.count_cons_self] at hone
    have hnone : PathPart.param ∉ parts := List.count_eq_zero.mp (by omega)
    rw [List.map_cons, PathPart.text, map_text_of_not_mem hnone _ (Route.param others),
      ← ih hothers (by omega)]
    rfl
  | case6 => cases h

def Target.keepsQuery : Target → Bool
  | inbound | withoutExa => true
  | built _ _ keepsQuery => keepsQuery

theorem endsPath_builtPath {param : List Char} (hparam : ∀ c ∈ param, endsPath c = false)
    {version : ApiVersion} {parts : List PathPart} (hclean : parts.all PathPart.isClean = true) :
    ∀ c ∈ builtPath version parts param, endsPath c = false := by
  intro c hc
  rw [builtPath, List.cons_append] at hc
  rcases List.mem_cons.mp hc with rfl | hc
  · rfl
  rcases List.mem_append.mp hc with hc | hc
  · exact IsPlain.endsPath (fun c hc => (version.segment_clean c hc).1) hc
  · obtain ⟨part, hpart, hc⟩ := List.mem_flatMap.mp hc
    rcases List.mem_cons.mp hc with rfl | hc
    · rfl
    · cases part with
      | lit text =>
        have hchars := List.all_eq_true.mp (List.all_eq_true.mp hclean _ hpart)
        exact IsPlain.endsPath (fun c hc => (Bool.and_eq_true _ _ ▸ hchars c hc).1) hc
      | param => exact hparam c hc

theorem queryOf_text {req : InboundRequest} {param : List Char}
    (hparam : ∀ c ∈ param, endsPath c = false) {target : Target} (hclean : target.isClean = true) :
    queryOf (target.text req param) = if target.keepsQuery then req.urlQuery else [] := by
  have hurl : ∀ c ∈ req.urlPath, endsPath c = false := fun c hc => endsPath_of_mem_pathOf hc
  cases target with
  | inbound => exact queryOf_withQuery req hurl
  | withoutExa =>
    refine queryOf_withQuery req fun c hc => ?_
    rcases mem_withoutExaPrefix hc with rfl | hc
    · rfl
    · exact hurl c hc
  | built version parts keepsQuery =>
    have hends : ∀ c ∈ builtPath version parts param, endsPath c = false :=
      endsPath_builtPath hparam hclean
    cases keepsQuery with
    | true => exact queryOf_withQuery req hends
    | false => exact queryOf_path hends

/-! ### What is sent -/

/-- The decoded segments after the version. -/
def belowVersion (path : List Char) : List (List Char) := ((segments path).drop 2).map unquote

/-- What stands before the last of the segments of a status, and the last. -/
def statusPrefix (parts : List (List Char)) : List (List Char) :=
  parts.dropLast.filter (· ≠ "status".toList)

def withoutStatus (parts : List (List Char)) : List (List Char) :=
  statusPrefix parts ++ parts.getLast?.toList

def withStatus (parts : List (List Char)) : List (List Char) :=
  statusPrefix parts ++ "status".toList :: parts.getLast?.toList

/-- The routes of a status: each is sent without `status`, and may be sent again with it. -/
def statusRoutes : List Route :=
  [V2.crawlStatus, V2.crawlStatusAlias, V2.batchScrapeStatus, V2.batchScrapeStatusAlias]

/-- Any path matches, or one with a parameter. -/
def Pattern.isOpen : Pattern → Bool
  | rest => true
  | parts template => template.contains .param

/-- A route that sends under the path it matches, once. -/
def Route.keepsPath (route : Route) : Bool :=
  match route.primary, route.pattern with
  | .inbound, _ => route.fallback == none
  | .built _ written _, .parts parts =>
    route.fallback == none && written == parts && parts.count .param ≤ 1
  | _, _ => false

theorem mem_api_of_isOpen {config : AppConfig} {route : Route} (hmem : route ∈ routesOf config)
    (hopen : route.pattern.isOpen = true) : route ∈ Api.routes ++ V1.routes ++ V2.routes := by
  refine mem_api_of_router hmem fun hrouter => ?_
  have hexa : ∀ route ∈ Api.routes ++ V1.routes ++ V2.routes ++ Exa.routes, route.router = .exa →
      route.pattern.isOpen = false := by decide
  have hall : route ∈ Api.routes ++ V1.routes ++ V2.routes ++ Exa.routes := by
    rw [routesOf, List.mem_append] at hmem
    rw [List.mem_append]
    refine hmem.imp_right fun hmem => ?_
    split at hmem
    · exact hmem
    · cases hmem
  rw [hexa route hall hrouter] at hopen
  cases hopen

theorem openRoutes_cases :
    ∀ route ∈ Api.routes ++ V1.routes ++ V2.routes, route.pattern.isOpen = true →
    route.keepsPath = true ∨ route ∈ statusRoutes := by
  decide

theorem openRoutes_keepQuery :
    ∀ route ∈ Api.routes ++ V1.routes ++ V2.routes, route.pattern.isOpen = true →
    ∀ target ∈ route.targets, target.keepsQuery = (route.router != .api) := by
  decide

/-- What a handler sends under: the segments it matched, without `status` where it asks for a
status. -/
def Route.primaryParts (route : Route) (parts : List (List Char)) : List (List Char) :=
  if route ∈ statusRoutes then withoutStatus parts else parts

/-- The queries a route passes on: `/api` has none. -/
def Route.sentQuery (route : Route) (query : List Char) : List Char :=
  if route.router = .api then [] else query

theorem statusRoutes_templates : ∀ route ∈ statusRoutes, ∃ template primary fallback,
    route.pattern = .parts template ∧ template.count .param ≤ 1 ∧
      route.primary = .built .v2 primary true ∧
      route.fallback = some (.built .v2 fallback true) ∧ ∀ id : List Char,
        withoutStatus (template.map (PathPart.text id)) = primary.map (PathPart.text id) ∧
          withStatus (template.map (PathPart.text id)) = fallback.map (PathPart.text id) := by
  intro route hroute
  simp only [statusRoutes, List.mem_cons, List.not_mem_nil, or_false] at hroute
  obtain rfl | rfl | rfl | rfl :=
    hroute <;> exact ⟨_, _, _, rfl, by decide, rfl, rfl, fun id => ⟨rfl, rfl⟩⟩

theorem mem_withoutStatus {parts : List (List Char)} {part : List Char}
    (h : part ∈ withoutStatus parts) :
    part ∈ parts := by
  rw [withoutStatus, statusPrefix, List.mem_append] at h
  rcases h with hmem | hmem
  · exact List.mem_of_mem_dropLast (List.mem_of_mem_filter hmem)
  · exact List.mem_of_getLast? (Option.mem_toList.mp hmem)

theorem mem_withStatus {parts : List (List Char)} {part : List Char} (h : part ∈ withStatus parts) :
    part = "status".toList ∨ part ∈ parts := by
  rw [withStatus, List.mem_append, List.mem_cons] at h
  rcases h with hmem | rfl | hmem
  · exact .inr (mem_withoutStatus (List.mem_append_left _ hmem))
  · exact .inl rfl
  · exact .inr (mem_withoutStatus (List.mem_append_right _ hmem))

theorem matched_parts {route : Route} {path : List Char} {params : List (List Char)}
    {template : List PathPart} (h : route.params path = some params)
    (hpattern : route.pattern = .parts template) (hone : template.count .param ≤ 1) :
    (segments path).drop 2 = template.map (PathPart.text (Route.param params)) := by
  rw [Route.params] at h
  split at h
  · next root first rest hpath =>
    rw [hpath]
    split at h
    · rw [hpattern] at h
      exact eq_map_text_of_matchParts h hone
    · cases h
  · cases h

section

variable {raw : List Char} {req : InboundRequest} {route : Route} {params : List (List Char)}

theorem transparent_path (hraw : req.path = unquote raw)
    (htransparent : ∀ part ∈ segments raw, IsTransparent (unquote part)) :
    (∀ part ∈ segments req.path, IsTransparent part) ∧
      belowVersion raw = (segments req.path).drop 2 := by
  have hdecoded : segments req.path = (segments raw).map unquote := by
    rw [hraw]
    exact segments_unquote fun part hpart => (htransparent part hpart).slash
  refine ⟨fun part hpart => ?_, by rw [belowVersion, hdecoded, List.map_drop]⟩
  rw [hdecoded] at hpart
  obtain ⟨encoded, hencoded, rfl⟩ := List.mem_map.mp hpart
  exact htransparent encoded hencoded

theorem belowVersion_of_segments {text : List Char} {parts : List (List Char)}
    (hparts : (segments (pathOf text)).tail.tail = parts)
    (hescape : ∀ part ∈ parts, hasEscape part = false) :
    belowVersion (pathOf text) = parts := by
  have hdrop : (segments (pathOf text)).drop 2 = parts := by
    rw [← hparts, ← List.drop_one, ← List.drop_one, List.drop_drop]
  rw [belowVersion, hdrop]
  calc parts.map unquote = parts.map id :=
        List.map_congr_left fun part hpart => unquote_eq_self_iff.mpr (hescape part hpart)
    _ = parts := List.map_id parts

theorem param_transparent (hroute : route.params req.path = some params)
    (htransparent : ∀ part ∈ segments req.path, IsTransparent part) :
    (∀ c ∈ Route.param params, endsPath c = false) ∧ '/' ∉ Route.param params := by
  refine ⟨fun c hc => ?_, slash_not_mem_param hroute⟩
  cases params with
  | nil => exact absurd hc List.not_mem_nil
  | cons param rest =>
    exact (htransparent param
      (mem_segments_of_params hroute param List.mem_cons_self)).plain.endsPath hc

/-- What a route that keeps the path it matches sends. -/
theorem keepsPath_segments (hraw : req.path = unquote raw)
    (htransparent : ∀ part ∈ segments raw, IsTransparent (unquote part))
    (hparams : route.params req.path = some params) (hclean : route.primary.isClean = true)
    (hkeeps : route.keepsPath = true) :
    belowVersion (pathOf (route.primaryText req params)) = belowVersion raw := by
  obtain ⟨hparts, hbelow⟩ := transparent_path hraw htransparent
  obtain ⟨_, hslash⟩ := param_transparent hparams hparts
  have htail : (segments (pathOf (route.primaryText req params))).tail =
      route.primary.segments req (Route.param params) := segments_pathOf_text hslash hclean
  have hends := (param_transparent hparams hparts).1
  rw [hbelow]
  refine belowVersion_of_segments ?_ fun part hpart =>
    (hparts part (List.mem_of_mem_drop hpart)).escape
  rw [htail]
  unfold Route.keepsPath at hkeeps
  split at hkeeps
  · next hprimary =>
    have hplain : IsPlain req.path :=
      isPlain_of_segments fun part hpart => (hparts part hpart).plain
    rw [hprimary, Target.segments, urlPath_plain hplain, ← List.drop_one, ← List.drop_one,
      List.drop_drop]
  · next version written keepsQuery template hprimary hpattern =>
    simp only [Bool.and_eq_true, beq_iff_eq, decide_eq_true_eq] at hkeeps
    obtain ⟨⟨_, rfl⟩, hone⟩ := hkeeps
    rw [hprimary, Target.segments, List.tail_cons, filled_plain hends,
      matched_parts hparams hpattern hone]
  · cases hkeeps

/-- What the routes of a status send, first and when they send again. -/
theorem statusRoutes_segments (hraw : req.path = unquote raw)
    (htransparent : ∀ part ∈ segments raw, IsTransparent (unquote part))
    (hparams : route.params req.path = some params)
    (hclean : ∀ target ∈ route.targets, target.isClean = true) (hstatus : route ∈ statusRoutes) :
    belowVersion (pathOf (route.primaryText req params)) = withoutStatus (belowVersion raw) ∧
      ∀ text, route.fallbackText req params = some text →
        belowVersion (pathOf text) = withStatus (belowVersion raw) := by
  obtain ⟨hparts, hbelow⟩ := transparent_path hraw htransparent
  obtain ⟨hends, hslash⟩ := param_transparent hparams hparts
  obtain ⟨template, primary, fallback, hpattern, hone, hprimary, hfallback, hforms⟩ :=
    statusRoutes_templates route hstatus
  obtain ⟨hwithout, hwith⟩ := hforms (Route.param params)
  have hescape : ∀ part ∈ (segments req.path).drop 2, hasEscape part = false :=
    fun part hpart => (hparts part (List.mem_of_mem_drop hpart)).escape
  rw [hbelow]
  constructor
  · refine belowVersion_of_segments ?_ fun part hpart => hescape part (mem_withoutStatus hpart)
    have hfirst := hclean _ List.mem_cons_self
    rw [Route.primaryText, segments_pathOf_text hslash hfirst, hprimary, Target.segments,
      List.tail_cons, filled_plain hends, matched_parts hparams hpattern hone, hwithout]
  · intro text htext
    have hagain : (Target.built .v2 fallback true).isClean = true :=
      hclean _ (List.mem_cons_of_mem _ (by rw [hfallback]; exact List.mem_singleton_self _))
    rw [Route.fallbackText, hfallback, Option.map_some] at htext
    obtain rfl := Option.some.inj htext
    refine belowVersion_of_segments ?_ fun part hpart => ?_
    · rw [segments_pathOf_text hslash hagain, Target.segments, List.tail_cons, filled_plain hends,
        matched_parts hparams hpattern hone, hwith]
    · rcases mem_withStatus hpart with rfl | hmem
      · decide
      · exact hescape part hmem

theorem keepsPath_fallback (h : route.keepsPath = true) : route.fallback = none := by
  unfold Route.keepsPath at h
  split at h
  · exact beq_iff_eq.mp h
  · simp only [Bool.and_eq_true, beq_iff_eq] at h
    exact h.1.1
  · cases h

end

/-- Where the decoded segments of a request are transparent, what is sent has the segments of the
request below the version, `status` apart where a status is asked for, and its query. -/
theorem upstream_url_agrees {config : AppConfig} {req : InboundRequest} {raw : List Char}
    {route : Route} {params : List (List Char)} (hraw : req.path = unquote raw)
    (htransparent : ∀ part ∈ segments raw, IsTransparent (unquote part))
    (hquery : IsRawQuery req.queryString) (hroute : routeOf config req = some (route, params))
    (hopen : route.pattern.isOpen = true) (fwd : Forwarder) (primary fallback : Nat → Turn)
    (now : Instant) (w : World) :
    ((route.forwards req params fwd primary fallback now w).events =
        (route.firstForward req params fwd primary now w).events ∨
      ∃ text, route.fallbackText req params = some text ∧
        (route.forwards req params fwd primary fallback now w).events =
          (route.firstForward req params fwd primary now w).events ++
            (route.secondForward req params fwd primary fallback now w text).events) ∧
      (∀ e ∈ exchangesOf (route.firstForward req params fwd primary now w).events,
        belowVersion (pathOf e.request.path.toList) = route.primaryParts (belowVersion raw) ∧
          queryOf e.request.path.toList = route.sentQuery req.queryString) ∧
      ∀ text, route.fallbackText req params = some text → route ∈ statusRoutes ∧
        ∀ e ∈ exchangesOf (route.secondForward req params fwd primary fallback now w text).events,
          belowVersion (pathOf e.request.path.toList) = withStatus (belowVersion raw) ∧
            queryOf e.request.path.toList = req.queryString := by
  obtain ⟨hmem, hparams⟩ := mem_routes_of_routeOf hroute
  have hmem := mem_api_of_isOpen hmem hopen
  have hclean : ∀ target ∈ route.targets, target.isClean = true :=
    fun target htarget => (targets_keepFirst route hmem target htarget).1
  obtain ⟨hparts, _⟩ := transparent_path hraw htransparent
  obtain ⟨hends, _⟩ := param_transparent hparams hparts
  have hplain : IsPlain req.path := isPlain_of_segments fun part hpart => (hparts part hpart).plain
  have hsent : ∀ target ∈ route.targets,
      queryOf (target.text req (Route.param params)) = route.sentQuery req.queryString := by
    intro target htarget
    rw [queryOf_text hends (hclean target htarget),
      openRoutes_keepQuery route hmem hopen target htarget, urlQuery_plain hplain hquery,
      Route.sentQuery]
    by_cases hapi : route.router = .api <;> simp [hapi]
  refine ⟨?_, fun e he => ?_, fun text htext => ?_⟩
  · obtain hone | ⟨text, htext, hboth⟩ := forwards_cases fwd primary fallback now route req params w
    · exact .inl (congrArg Forwarded.events hone)
    · exact .inr ⟨text, htext, congrArg Forwarded.events hboth⟩
  · rw [forward_path he, Route.sentRequest, String.toList_ofList]
    refine ⟨?_, hsent route.primary List.mem_cons_self⟩
    rw [Route.primaryParts]
    split
    · next hstatus => exact (statusRoutes_segments hraw htransparent hparams hclean hstatus).1
    · next hother =>
      have hkeeps := (openRoutes_cases route hmem hopen).resolve_right hother
      exact keepsPath_segments hraw htransparent hparams (hclean _ List.mem_cons_self) hkeeps
  · obtain ⟨target, hfallback, htarget⟩ := Option.map_eq_some_iff.mp htext
    have hstatus : route ∈ statusRoutes := by
      rcases openRoutes_cases route hmem hopen with hkeeps | hstatus
      · rw [keepsPath_fallback hkeeps] at hfallback
        cases hfallback
      · exact hstatus
    have hv2 : ∀ route ∈ statusRoutes, route.router ≠ .api := by decide
    refine ⟨hstatus, fun e he => ?_⟩
    rw [forward_path he, Route.sentRequest, String.toList_ofList]
    refine ⟨(statusRoutes_segments hraw htransparent hparams hclean hstatus).2 text htext, ?_⟩
    have hquery := hsent target
      (List.mem_cons_of_mem _ (by rw [hfallback]; exact List.mem_singleton_self _))
    rw [← htarget, hquery, Route.sentQuery, if_neg (hv2 route hstatus)]

/-- The status of a crawl whose id has an escaped blank, asked for by the alias. -/
theorem crawlStatusAlias_url_agrees :
    let raw := "/v2/crawl/status/a%20b".toList
    let req : InboundRequest :=
      { clientId := 1, method := "GET", path := unquote raw, queryString := "next=%2F".toList }
    let route := V2.crawlStatusAlias
    let params := ["a b".toList]
    ∀ (fwd : Forwarder) (primary fallback : Nat → Turn) (now : Instant) (w : World),
      ((route.forwards req params fwd primary fallback now w).events =
          (route.firstForward req params fwd primary now w).events ∨
        ∃ text, route.fallbackText req params = some text ∧
          (route.forwards req params fwd primary fallback now w).events =
            (route.firstForward req params fwd primary now w).events ++
              (route.secondForward req params fwd primary fallback now w text).events) ∧
        (∀ e ∈ exchangesOf (route.firstForward req params fwd primary now w).events,
          belowVersion (pathOf e.request.path.toList) = route.primaryParts (belowVersion raw) ∧
            queryOf e.request.path.toList = route.sentQuery req.queryString) ∧
        ∀ text, route.fallbackText req params = some text → route ∈ statusRoutes ∧
          ∀ e ∈ exchangesOf (route.secondForward req params fwd primary fallback now w text).events,
            belowVersion (pathOf e.request.path.toList) = withStatus (belowVersion raw) ∧
              queryOf e.request.path.toList = req.queryString := by
  intro raw req route params
  have htransparent : ∀ part ∈ segments raw, IsTransparent (unquote part) := by decide
  have hroute : routeOf {} req = some (V2.crawlStatusAlias, ["a b".toList]) := by decide
  exact upstream_url_agrees rfl htransparent (by decide) hroute rfl

/-- The alias of a status is sent under another path. -/
theorem crawlStatusAlias_renames :
    let raw := "/v2/crawl/status/abc".toList
    let req : InboundRequest := { clientId := 1, method := "GET", path := unquote raw }
    routeOf {} req = some (V2.crawlStatusAlias, ["abc".toList]) ∧
      ∃ (fwd : Forwarder) (primary fallback : Nat → Turn) (now : Instant) (w : World),
        ∃ e ∈ exchangesOf (V2.crawlStatusAlias.forwards req ["abc".toList] fwd primary fallback now
          w).events, belowVersion (pathOf e.request.path.toList) = ["crawl".toList, "abc".toList] ∧
            belowVersion raw = ["crawl".toList, "status".toList, "abc".toList] := by
  intro raw req
  have htext :
      V2.crawlStatusAlias.primaryText req ["abc".toList] ∈ V2.crawlStatusAlias.texts req
        ["abc".toList] :=
    List.mem_cons_self
  obtain ⟨fwd, primary, fallback, now, w, _, e, hsent, hpath⟩ :=
    forwards_reach {} (by decide) req ["abc".toList] htext
  refine ⟨by decide, fwd, primary, fallback, now, w, e, hsent, ?_, by decide⟩
  rw [hpath, String.toList_ofList]
  decide

end Fcam
