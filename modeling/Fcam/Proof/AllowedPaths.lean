import Fcam.Proof.Sent

/-!
# The allow-list of paths

`RequestLimitsMiddleware` looks at one segment of the path of a request. What a handler sends begins
with that segment too, but dot segments may leave it.
-/

namespace Fcam

/-! ### The path of `request.url` -/

/-- A character the URL of a request keeps in its path. -/
def isPlain (c : Char) : Bool := c != '\t' && c != '\r' && c != '\n' && !endsPath c

def IsPlain (text : List Char) : Prop := ∀ c ∈ text, isPlain c = true

/-- The path that is read from a text. -/
def readPath (text : List Char) : List Char :=
  pathOf (text.filter fun c => c ≠ '\t' ∧ c ≠ '\r' ∧ c ≠ '\n')

theorem IsPlain.endsPath {text : List Char} (h : IsPlain text) {c : Char} (hc : c ∈ text) :
    endsPath c = false := by
  have hplain := h c hc
  rw [isPlain, Bool.and_eq_true] at hplain
  simpa using hplain.2

theorem filter_plain {text : List Char} (h : IsPlain text) :
    (text.filter fun c => c ≠ '\t' ∧ c ≠ '\r' ∧ c ≠ '\n') = text := by
  refine List.filter_eq_self.mpr fun c hc => ?_
  have hplain := h c hc
  simp only [isPlain, Bool.and_eq_true, bne_iff_ne] at hplain
  simpa [and_assoc] using hplain.1

theorem readPath_append {first : List Char} (h : IsPlain first) (rest : List Char) :
    readPath (first ++ rest) = first ++ readPath rest := by
  rw [readPath, List.filter_append, filter_plain h, pathOf_append fun c hc => h.endsPath hc,
    readPath]

theorem urlPath_eq (req : InboundRequest) :
    ∃ more, req.urlPath = readPath (req.path ++ more) ∧
      (more = [] ∨ ∃ query, more = '?' :: query) := by
  by_cases hquery : req.queryString = []
  · refine ⟨[], ?_, .inl rfl⟩
    rw [InboundRequest.urlPath, InboundRequest.urlText, if_pos hquery, List.append_nil, readPath]
  · refine ⟨'?' :: req.queryString, ?_, .inr ⟨_, rfl⟩⟩
    rw [InboundRequest.urlPath, InboundRequest.urlText, if_neg hquery, readPath]

theorem readPath_query (query : List Char) : readPath ('?' :: query) = [] := by
  simp [readPath, pathOf, endsPath]

theorem isPlain_slash : IsPlain ['/'] := by
  intro c hc
  obtain rfl := List.mem_singleton.mp hc
  decide

theorem segments_readPath {first tail : List Char} (h : IsPlain first) (hslash : '/' ∉ first) :
    segments (readPath (first ++ '/' :: tail)) = first :: segments (readPath tail) := by
  have htail : readPath ('/' :: tail) = '/' :: readPath tail := readPath_append isPlain_slash tail
  rw [readPath_append h, htail, segments_append_slash, segments_of_not_mem hslash,
    List.singleton_append]

/-- A plain segment is read as it stands. -/
theorem head_readPath {first text more : List Char} {rest : List (List Char)} (h : IsPlain first)
    (htext : segments text = first :: rest) (hmore : more = [] ∨ ∃ query, more = '?' :: query) :
    ∃ rest', segments (readPath (text ++ more)) = first :: rest' := by
  have hslash : '/' ∉ first := not_mem_of_mem_segments (htext ▸ List.mem_cons_self)
  cases rest with
  | nil =>
    obtain rfl := eq_of_segments_eq_singleton htext
    have hnil : readPath more = [] := by
      obtain rfl | ⟨query, rfl⟩ := hmore
      · rfl
      · exact readPath_query query
    exact ⟨[], by rw [readPath_append h, hnil, List.append_nil, segments_of_not_mem hslash]⟩
  | cons second rest =>
    obtain ⟨tail, rfl, _⟩ := exists_of_segments_eq_cons htext
    exact ⟨_, by rw [List.append_assoc, List.cons_append, segments_readPath h hslash]⟩

theorem Router.isPlain (router : Router) : IsPlain router.segment := by
  apply List.all_eq_true.mp
  cases router <;> decide

/-- A routed request has the segment of its router and one more, the fixed one of its route where
there is one. -/
theorem Route.urlPath_segments {route : Route} {req : InboundRequest} {params : List (List Char)}
    (h : route.params req.path = some params) :
    ∃ first rest, segments req.urlPath = [] :: route.router.segment :: first :: rest ∧
      ∀ text parts, route.pattern = .parts (.lit text :: parts) → IsPlain text.toList →
        first = text.toList := by
  rw [Route.params] at h
  split at h
  · next root first rest hpath =>
    obtain ⟨afterSlash, hreq, hafter⟩ := exists_of_segments_eq_cons hpath
    obtain ⟨afterRoot, rfl, hrest⟩ := exists_of_segments_eq_cons hafter
    obtain ⟨more, hurl, hmore⟩ := urlPath_eq req
    split at h
    · next hroot =>
      subst hroot
      have hslash : '/' ∉ route.router.segment :=
        not_mem_of_mem_segments (hafter ▸ List.mem_cons_self)
      have hsegments :
          segments req.urlPath = [] :: route.router.segment ::
            segments (readPath (afterRoot ++ more)) := by
        rw [hurl, hreq, List.append_assoc, List.cons_append,
          segments_readPath (fun c hc => absurd hc List.not_mem_nil) List.not_mem_nil,
          List.append_assoc, List.cons_append, segments_readPath route.router.isPlain hslash]
      cases hread : segments (readPath (afterRoot ++ more)) with
      | nil => exact absurd hread (segments_ne_nil _)
      | cons read others =>
        refine ⟨read, others, by rw [hsegments, hread], fun text parts hpattern hplain => ?_⟩
        rw [hpattern] at h
        simp only [matchParts] at h
        split at h
        · next hfirst =>
          obtain ⟨rest', hread'⟩ := head_readPath hplain (hfirst ▸ hrest) hmore
          rw [hread] at hread'
          exact (List.cons.inj hread').1
        · cases h
    · cases h
  · cases h

/-! ### What the handlers write -/

/-- The segments a template gives; a parameter with a delimiter ends the path. -/
def filled (param : List Char) : List PathPart → List (List Char)
  | [] => []
  | .lit text :: parts => text.toList :: filled param parts
  | .param :: parts => if param.any endsPath then [pathOf param] else param :: filled param parts

/-- The segments a handler sends a request under. -/
def Target.segments (req : InboundRequest) (param : List Char) : Target → List (List Char)
  | inbound => (Fcam.segments req.urlPath).tail
  | withoutExa => (Fcam.segments (withoutExaPrefix req.urlPath)).tail
  | built version parts _ => version.segment :: filled param parts

def Route.targets (route : Route) : List Target := route.primary :: route.fallback.toList

/-- A part of a template that is one segment of every path. -/
def PathPart.isClean : PathPart → Bool
  | lit text => text.toList.all fun c => isPlain c && c != '/'
  | param => true

theorem pathOf_withQuery (req : InboundRequest) (path : List Char) :
    pathOf (req.withQuery path) = pathOf path := by
  rw [InboundRequest.withQuery]
  split
  · rfl
  · exact pathOf_append_ends path rfl _

theorem pathOf_urlPath (req : InboundRequest) : pathOf req.urlPath = req.urlPath :=
  pathOf_eq_self fun _ hc => endsPath_of_mem_pathOf hc

theorem mem_withoutExaPrefix {path : List Char} {c : Char} (h : c ∈ withoutExaPrefix path) :
    c = '/' ∨ c ∈ path := by
  have hrest : ∀ {rest : List Char}, c ∈ (if ['/'].isPrefixOf rest then rest else '/' :: rest) →
      c = '/' ∨ c ∈ rest := by
    intro rest hmem
    split at hmem
    · exact .inr hmem
    · exact List.mem_cons.mp hmem
  rw [withoutExaPrefix] at h
  rcases hrest h with hslash | hmem
  · exact .inl hslash
  · split at hmem
    · exact .inr (List.mem_of_mem_drop hmem)
    · exact .inr hmem

/-- A template, cut at the first delimiter of its parameter, has the segments it is filled with. -/
theorem segments_filled {param : List Char} (hparam : '/' ∉ param) {parts : List PathPart}
    (hclean : parts.all PathPart.isClean = true) {before : List Char} (hbefore : '/' ∉ before) :
    segments (before ++ pathOf (parts.flatMap fun part => '/' :: part.text param)) =
      before :: filled param parts := by
  induction parts generalizing before with
  | nil => simp [pathOf, filled, segments_of_not_mem hbefore]
  | cons part parts ih =>
    rw [List.all_cons, Bool.and_eq_true] at hclean
    rw [List.flatMap_cons]
    cases part with
    | lit text =>
      have hchars := List.all_eq_true.mp hclean.1
      have hends : ∀ c ∈ '/' :: text.toList, endsPath c = false := by
        intro c hc
        rcases List.mem_cons.mp hc with rfl | hc
        · rfl
        · exact IsPlain.endsPath (fun c hc => (Bool.and_eq_true _ _ ▸ hchars c hc).1) hc
      have hslash : '/' ∉ text.toList := fun hmem => by simpa using hchars '/' hmem
      rw [PathPart.text, pathOf_append hends, List.cons_append, segments_append_slash,
        segments_of_not_mem hbefore, ih hclean.2 hslash, filled, List.singleton_append]
    | param =>
      rw [PathPart.text, filled]
      split
      · next hany =>
        obtain ⟨c, hc, hends⟩ := List.any_eq_true.mp hany
        have hcut :
            pathOf ('/' :: param ++ parts.flatMap fun part => '/' :: part.text param) =
              '/' :: pathOf param := by
          rw [pathOf_append_of_ends ⟨c, List.mem_cons_of_mem _ hc, hends⟩]
          rfl
        have hslash : '/' ∉ pathOf param :=
          fun hmem => hparam ((List.takeWhile_sublist _).subset hmem)
        rw [hcut, segments_append_slash, segments_of_not_mem hbefore, segments_of_not_mem hslash,
          List.singleton_append]
      · next hnone =>
        have hends : ∀ c ∈ '/' :: param, endsPath c = false := by
          intro c hc
          rcases List.mem_cons.mp hc with rfl | hc
          · rfl
          · simpa using fun h => hnone (List.any_eq_true.mpr ⟨c, hc, h⟩)
        rw [pathOf_append hends, List.cons_append, segments_append_slash,
          segments_of_not_mem hbefore, ih hclean.2 hparam, List.singleton_append]

theorem ApiVersion.segment_clean (version : ApiVersion) :
    ∀ c ∈ version.segment, isPlain c = true ∧ c ≠ '/' := by
  have hall : version.segment.all (fun c => isPlain c && decide (c ≠ '/')) = true := by
    cases version <;> decide
  intro c hc
  have hboth := List.all_eq_true.mp hall c hc
  rwa [Bool.and_eq_true, decide_eq_true_eq] at hboth

def Target.isClean : Target → Bool
  | built _ parts _ => parts.all PathPart.isClean
  | inbound | withoutExa => true

theorem segments_pathOf_text {req : InboundRequest} {param : List Char} (hparam : '/' ∉ param)
    {target : Target} (hclean : target.isClean = true) :
    (segments (pathOf (target.text req param))).tail = target.segments req param := by
  cases target with
  | inbound => rw [Target.text, pathOf_withQuery, pathOf_urlPath, Target.segments]
  | withoutExa =>
    have hends : ∀ c ∈ withoutExaPrefix req.urlPath, endsPath c = false := by
      intro c hc
      rcases mem_withoutExaPrefix hc with rfl | hc
      · rfl
      · exact endsPath_of_mem_pathOf hc
    rw [Target.text, pathOf_withQuery, pathOf_eq_self hends, Target.segments]
  | built version parts keepsQuery =>
    have htemplate :
        segments (pathOf (builtPath version parts param)) = [] :: version.segment ::
          filled param parts := by
      have hversion : ∀ c ∈ '/' :: version.segment, endsPath c = false := by
        intro c hc
        rcases List.mem_cons.mp hc with rfl | hc
        · rfl
        · exact IsPlain.endsPath (fun c hc => (version.segment_clean c hc).1) hc
      have hslash : '/' ∉ version.segment := fun hmem => (version.segment_clean '/' hmem).2 rfl
      rw [builtPath, pathOf_append hversion, List.cons_append, segments_cons_slash,
        segments_filled hparam hclean hslash]
    cases keepsQuery with
    | true => rw [Target.text, pathOf_withQuery, htemplate, Target.segments, List.tail_cons]
    | false => rw [Target.text, htemplate, Target.segments, List.tail_cons]

/-! ### What is let through -/

/-- A template that begins with the fixed segment its route is found by. -/
def keepsHead : Pattern → List PathPart → Bool
  | .parts (.lit first :: _), .lit written :: _ => first == written && (PathPart.lit first).isClean
  | _, _ => false

theorem keepsHead_cases {pattern : Pattern} {parts : List PathPart}
    (h : keepsHead pattern parts = true) :
    ∃ text others rest, pattern = .parts (.lit text :: others) ∧ parts = .lit text :: rest ∧
      IsPlain text.toList := by
  unfold keepsHead at h
  split at h
  · next text others written rest =>
    rw [Bool.and_eq_true, beq_iff_eq, PathPart.isClean, List.all_eq_true] at h
    obtain ⟨rfl, hchars⟩ := h
    exact ⟨text, others, rest, rfl, rfl, fun c hc => (Bool.and_eq_true _ _ ▸ hchars c hc).1⟩
  · cases h

/-- A target under a version of the API whose first segment is the one the route is found by. -/
def Target.keepsFirst (route : Route) : Target → Bool
  | inbound => route.router == .v1 || route.router == .v2
  | withoutExa => false
  | built _ parts _ => keepsHead route.pattern parts

theorem targets_keepFirst :
    ∀ route ∈ Api.routes ++ V1.routes ++ V2.routes, ∀ target ∈ route.targets,
    target.isClean = true ∧ target.keepsFirst route = true := by
  decide

theorem mem_routes_of_routeOf {config : AppConfig} {req : InboundRequest} {route : Route}
    {params : List (List Char)} (h : routeOf config req = some (route, params)) :
    route ∈ routesOf config ∧ route.params req.path = some params := by
  obtain ⟨other, hmem, hmatch⟩ := List.exists_of_findSome?_eq_some h
  split at hmatch
  · obtain ⟨found, hparams, heq⟩ := Option.map_eq_some_iff.mp hmatch
    obtain ⟨rfl, rfl⟩ := Prod.mk.inj heq
    exact ⟨hmem, hparams⟩
  · cases hmatch

theorem mem_api_of_router {config : AppConfig} {route : Route} (hmem : route ∈ routesOf config)
    (hrouter : route.router ≠ .exa) : route ∈ Api.routes ++ V1.routes ++ V2.routes := by
  rw [routesOf, List.mem_append] at hmem
  rcases hmem with hmem | hmem
  · exact hmem
  · split at hmem
    · have hexa : ∀ route ∈ Exa.routes, route.router = .exa := by decide
      exact absurd (hexa route hmem) hrouter
    · cases hmem

/-- The middleware lets through only what has an allowed segment after that of its router. -/
theorem dispatch_allows {config : AppConfig} {req : InboundRequest}
    (hthrough : (RequestLimits.ofConfig config).dispatch req = .ok ()) {router : Router}
    (hrouter : router ≠ .exa) {first : List Char} {rest : List (List Char)}
    (hpath : segments req.urlPath = [] :: router.segment :: first :: rest) :
    first ∈ (RequestLimits.ofConfig config).allowedApiPaths := by
  have hcheck : (RequestLimits.ofConfig config).checkPath req.urlPath = .ok () := by
    cases hresult : (RequestLimits.ofConfig config).checkPath req.urlPath with
    | ok _ => rfl
    | error e =>
      rw [RequestLimits.dispatch, hresult] at hthrough
      cases hthrough
  have hsegment : router.segment = "api".toList ∨ router.segment = "v1".toList ∨
      router.segment = "v2".toList := by
    cases router with
    | api => exact .inl rfl
    | v1 => exact .inr (.inl rfl)
    | v2 => exact .inr (.inr rfl)
    | exa => exact absurd rfl hrouter
  rw [RequestLimits.checkPath, hpath] at hcheck
  simp only [hsegment, if_true] at hcheck
  split at hcheck
  · assumption
  · cases hcheck

/-- Everything a handler sends of what was let through begins with a version of the API and an
allowed segment. -/
theorem target_segments {config : AppConfig} {req : InboundRequest} {route : Route}
    {params : List (List Char)} (hthrough : (RequestLimits.ofConfig config).dispatch req = .ok ())
    (hroute : routeOf config req = some (route, params)) (hrouter : route.router ≠ .exa)
    {target : Target} (htarget : target ∈ route.targets) :
    ∃ version : ApiVersion, ∃ first rest, target.segments req (Route.param params) =
      version.segment :: first :: rest ∧
      first ∈ (RequestLimits.ofConfig config).allowedApiPaths := by
  obtain ⟨hmem, hparams⟩ := mem_routes_of_routeOf hroute
  obtain ⟨_, hkeeps⟩ := targets_keepFirst route (mem_api_of_router hmem hrouter) target htarget
  obtain ⟨first, rest, hpath, hfixed⟩ := Route.urlPath_segments hparams
  have hallowed := dispatch_allows hthrough hrouter hpath
  cases target with
  | inbound =>
    have hversion : ∃ version : ApiVersion, route.router.segment = version.segment := by
      rw [Target.keepsFirst, Bool.or_eq_true, beq_iff_eq, beq_iff_eq] at hkeeps
      obtain hrouter | hrouter := hkeeps
      · exact ⟨.v1, by rw [hrouter]; rfl⟩
      · exact ⟨.v2, by rw [hrouter]; rfl⟩
    obtain ⟨version, hversion⟩ := hversion
    exact ⟨version, first, rest, by rw [Target.segments, hpath, List.tail_cons, hversion], hallowed⟩
  | withoutExa => cases hkeeps
  | built version parts keepsQuery =>
    obtain ⟨text, others, more, hpattern, rfl, hplain⟩ := keepsHead_cases hkeeps
    obtain rfl := hfixed text others hpattern hplain
    exact ⟨version, text.toList, _, rfl, hallowed⟩

/-! ### What reaches the upstream -/

/-- Below its root and without dot segments, a path begins with a version of the API and an allowed
segment. -/
def ReachesAllowed (allowed root : List (List Char)) (text : List Char) : Prop :=
  ∃ version : ApiVersion, ∃ first rest,
    removeDots root (segments (pathOf text)).tail = root ++ version.segment :: first :: rest ∧
      first ∈ allowed

/-- No dot segment leaves the segment after the version. -/
def StaysInside (parts : List (List Char)) : Prop :=
  ∃ version : ApiVersion, ∃ first rest,
    parts = version.segment :: first :: rest ∧ isOrdinary first = true ∧ climbs 0 rest = false

/-- What follows the first two segments leads back to a version of the API and an allowed segment,
and stays there. -/
def ComesBack (allowed root parts : List (List Char)) : Prop :=
  ∃ version : ApiVersion, ∃ before first after, 2 ≤ before.length ∧
    parts = before ++ first :: after ∧ isOrdinary first = true ∧
      walk root.reverse before = version.segment :: root.reverse ∧ climbs 0 after = false ∧
    first ∈ allowed

theorem asDirectory_cons_cons (first second : List Char) (rest : List (List Char)) :
    ∃ more, asDirectory (first :: second :: rest) = first :: second :: more := by
  rw [asDirectory]
  split
  · exact ⟨rest, rfl⟩
  · exact ⟨rest ++ [[]], rfl⟩

theorem ApiVersion.isOrdinary_segment (version : ApiVersion) :
    isOrdinary version.segment = true := by
  cases version <;> decide

theorem reachesAllowed_iff_walk (allowed root : List (List Char)) (text : List Char) :
    ReachesAllowed allowed root text ↔ ∃ version : ApiVersion, ∃ first ∈ allowed, ∃ more,
      walk root.reverse (asDirectory (segments (pathOf text)).tail) =
        more ++ first :: version.segment :: root.reverse := by
  constructor
  · rintro ⟨version, first, rest, hremoved, hfirst⟩
    refine ⟨version, first, hfirst, rest.reverse, ?_⟩
    rw [removeDots, List.reverse_eq_iff] at hremoved
    rw [hremoved]
    simp
  · rintro ⟨version, first, hfirst, more, hwalk⟩
    refine ⟨version, first, more.reverse, ?_, hfirst⟩
    rw [removeDots, hwalk]
    simp

/-- A path that begins with a version and an allowed segment ends there if and only if it never
leaves that segment or comes back to an allowed one. -/
theorem reachesAllowed_iff {allowed root : List (List Char)} {text : List Char}
    {version : ApiVersion} {first : List Char} {rest : List (List Char)}
    (htext : (segments (pathOf text)).tail = version.segment :: first :: rest)
    (hfirst : first ∈ allowed) :
    ReachesAllowed allowed root text ↔
      StaysInside (asDirectory (segments (pathOf text)).tail) ∨
        ComesBack allowed root (asDirectory (segments (pathOf text)).tail) := by
  obtain ⟨more, hparts⟩ := asDirectory_cons_cons version.segment first rest
  rw [reachesAllowed_iff_walk, htext, hparts]
  have hlonger :
      ∀ version : ApiVersion,
        root.reverse.length ≤ (version.segment :: root.reverse).length := by simp
  constructor
  · rintro ⟨reached, found, hfound, kept, hwalk⟩
    obtain ⟨before, after, hsplit, hordinary, hbelow, hclimbs⟩ :=
      (walk_keeps_iff (hlonger reached)).mp ⟨kept, hwalk⟩
    match before with
    | [] => exact absurd (congrArg List.length hbelow) (by simp [walk])
    | [_] =>
      obtain ⟨rfl, rfl⟩ := List.cons.inj (List.cons.inj hsplit).2
      exact .inl ⟨version, first, more, rfl, hordinary, hclimbs⟩
    | one :: two :: before =>
      exact .inr ⟨reached, one :: two :: before, found, after, by simp, hsplit, hordinary, hbelow,
        hclimbs, hfound⟩
  · rintro (⟨reached, found, after, hsplit, hordinary, hclimbs⟩ |
      ⟨reached, before, found, after, _, hsplit, hordinary, hbelow, hclimbs, hfound⟩)
    · obtain ⟨hversion, htail⟩ := List.cons.inj hsplit
      obtain ⟨rfl, rfl⟩ := List.cons.inj htail
      have hbelow : walk root.reverse [version.segment] = version.segment :: root.reverse :=
        stepInto_ordinary version.isOrdinary_segment root.reverse
      exact ⟨version, first, hfirst,
        (walk_keeps_iff (hlonger version)).mpr ⟨[version.segment], more, rfl, hordinary, hbelow,
          hclimbs⟩⟩
    · exact ⟨reached, found, hfound,
        (walk_keeps_iff (hlonger reached)).mpr ⟨before, after, hsplit, hordinary, hbelow, hclimbs⟩⟩

theorem mem_of_matchParts {parts : List PathPart} {path params : List (List Char)}
    (h : matchParts parts path = some params) : ∀ param ∈ params, param ∈ path := by
  fun_induction matchParts parts path generalizing params with
  | case1 =>
    obtain rfl := Option.some.inj h
    exact fun param hmem => absurd hmem List.not_mem_nil
  | case2 text parts rest ih => exact fun param hmem => List.mem_cons_of_mem _ (ih h param hmem)
  | case3 text parts segment rest hne => cases h
  | case4 parts rest => cases h
  | case5 parts segment rest hne ih =>
    obtain ⟨others, hothers, rfl⟩ := Option.map_eq_some_iff.mp h
    intro param hmem
    rcases List.mem_cons.mp hmem with rfl | hmem
    · exact List.mem_cons_self
    · exact List.mem_cons_of_mem _ (ih hothers param hmem)
  | case6 => cases h

theorem mem_segments_of_params {route : Route} {path : List Char} {params : List (List Char)}
    (h : route.params path = some params) : ∀ param ∈ params, param ∈ segments path := by
  rw [Route.params] at h
  split at h
  · next root first rest hpath =>
    split at h
    · split at h
      · obtain rfl := Option.some.inj h
        exact fun param hmem => absurd hmem List.not_mem_nil
      · intro param hmem
        rw [hpath]
        exact List.mem_cons_of_mem _ (List.mem_cons_of_mem _ (mem_of_matchParts h param hmem))
    · cases h
  · cases h

theorem slash_not_mem_param {route : Route} {path : List Char} {params : List (List Char)}
    (h : route.params path = some params) : '/' ∉ Route.param params := by
  cases params with
  | nil => exact List.not_mem_nil
  | cons param rest =>
    exact not_mem_of_mem_segments (mem_segments_of_params h param List.mem_cons_self)

theorem mem_texts_iff {route : Route} {req : InboundRequest} {params : List (List Char)}
    {text : List Char} :
    text ∈ route.texts req params ↔
      ∃ target ∈ route.targets, text = target.text req (Route.param params) := by
  rw [Route.texts, Route.targets, Route.fallbackText, Route.primaryText]
  cases route.fallback <;> simp

/-- The requests of a handler reach allowed paths only if and only if each path it writes stays
inside its first segment or comes back to an allowed one. -/
theorem paths_allowed_iff {config : AppConfig} {req : InboundRequest} {route : Route}
    {params : List (List Char)} (hthrough : (RequestLimits.ofConfig config).dispatch req = .ok ())
    (hroute : routeOf config req = some (route, params)) (hrouter : route.router ≠ .exa)
    (root : List (List Char)) :
    (∀ (fwd : Forwarder) (primary fallback : Nat → Turn) (now : Instant) (w : World),
      fwd.config = config →
      ∀ e ∈ exchangesOf (route.forwards req params fwd primary fallback now w).events,
        ReachesAllowed (RequestLimits.ofConfig config).allowedApiPaths root e.request.path.toList) ↔
      ∀ target ∈ route.targets,
        StaysInside (asDirectory (target.segments req (Route.param params))) ∨
          ComesBack (RequestLimits.ofConfig config).allowedApiPaths root
            (asDirectory (target.segments req (Route.param params))) := by
  obtain ⟨hmem, hparams⟩ := mem_routes_of_routeOf hroute
  have hslash := slash_not_mem_param hparams
  have hreaches : ∀ target ∈ route.targets,
      ReachesAllowed (RequestLimits.ofConfig config).allowedApiPaths root
        (target.text req (Route.param params)) ↔
          StaysInside (asDirectory (target.segments req (Route.param params))) ∨
            ComesBack (RequestLimits.ofConfig config).allowedApiPaths root
              (asDirectory (target.segments req (Route.param params))) := by
    intro target htarget
    obtain ⟨hclean, _⟩ := targets_keepFirst route (mem_api_of_router hmem hrouter) target htarget
    obtain ⟨version, first, rest, hsegments, hfirst⟩ :=
      target_segments hthrough hroute hrouter htarget
    have htext :
        (segments (pathOf (target.text req (Route.param params)))).tail =
          target.segments req (Route.param params) :=
      segments_pathOf_text hslash hclean
    rw [← htext] at hsegments ⊢
    exact reachesAllowed_iff hsegments hfirst
  constructor
  · intro hallowed target htarget
    rw [← hreaches target htarget]
    obtain ⟨fwd, primary, fallback, now, w, hconfig, e, hsent, hpath⟩ :=
      forwards_reach config hrouter req params (mem_texts_iff.mpr ⟨target, htarget, rfl⟩)
    have hreached := hallowed fwd primary fallback now w hconfig e hsent
    rw [hpath, String.toList_ofList] at hreached
    exact hreached
  · intro hinside fwd primary fallback now w _ e hsent
    obtain ⟨text, htext, hpath⟩ := forwards_path hsent
    obtain ⟨target, htarget, rfl⟩ := mem_texts_iff.mp htext
    rw [hpath, String.toList_ofList]
    exact (hreaches target htarget).mpr (hinside target htarget)

/-- The status of a crawl is asked for under an allowed path. -/
theorem crawlStatus_paths_allowed :
    let config : AppConfig := {}
    let req : InboundRequest := { clientId := 1, method := "GET", path := "/v2/crawl/abc".toList }
    ∀ (fwd : Forwarder) (primary fallback : Nat → Turn) (now : Instant) (w : World),
      fwd.config = config →
      ∀ e ∈ exchangesOf
        (V2.crawlStatus.forwards req ["abc".toList] fwd primary fallback now w).events,
        ReachesAllowed (RequestLimits.ofConfig config).allowedApiPaths []
          e.request.path.toList := by
  intro config req
  have hthrough : (RequestLimits.ofConfig config).dispatch req = .ok () := rfl
  have hroute : routeOf config req = some (V2.crawlStatus, ["abc".toList]) := by decide
  refine (paths_allowed_iff hthrough hroute (by decide) []).mpr fun target htarget => .inl ?_
  obtain rfl | rfl := List.mem_pair.mp htarget
  · exact ⟨.v2, "crawl".toList, ["abc".toList], by decide, by decide, by decide⟩
  · exact ⟨.v2, "crawl".toList,
      ["status".toList, "abc".toList], by decide, by decide, by decide⟩

/-- `/v2/scrape/%2E%2E/admin` is let through, and `/v2/admin` is reached. -/
theorem dot_segments_pass_limits :
    let config : AppConfig := {}
    let req : InboundRequest :=
      { clientId := 1, method := "GET", path := "/v2/scrape/../admin".toList }
    (RequestLimits.ofConfig config).dispatch req = .ok () ∧
      routeOf config req = some (V2.passthroughGet, []) ∧
        ∃ (fwd : Forwarder) (primary fallback : Nat → Turn) (now : Instant) (w : World),
          fwd.config = config ∧
          ∃ e ∈ exchangesOf (V2.passthroughGet.forwards req [] fwd primary fallback now w).events,
            removeDots [] (segments (pathOf e.request.path.toList)).tail = ["v2".toList,
            "admin".toList] ∧ ¬ReachesAllowed (RequestLimits.ofConfig config).allowedApiPaths []
              e.request.path.toList := by
  intro config req
  have hthrough : (RequestLimits.ofConfig config).dispatch req = .ok () := rfl
  have hroute : routeOf config req = some (V2.passthroughGet, []) := by decide
  refine ⟨hthrough, hroute, ?_⟩
  have htext : V2.passthroughGet.primaryText req [] ∈ V2.passthroughGet.texts req [] :=
    List.mem_cons_self
  obtain ⟨fwd, primary, fallback, now, w, hconfig, e, hsent, hpath⟩ :=
    forwards_reach config (by decide) req [] htext
  have hremoved :
      removeDots [] (segments (pathOf e.request.path.toList)).tail = ["v2".toList,
        "admin".toList] := by
    rw [hpath, String.toList_ofList]
    decide
  have hadmin : "admin".toList ∉ (RequestLimits.ofConfig config).allowedApiPaths := by
    decide
  refine ⟨fwd, primary, fallback, now, w, hconfig, e, hsent, hremoved, ?_⟩
  rintro ⟨version, first, rest, hreached, hfirst⟩
  rw [hremoved, List.nil_append] at hreached
  obtain ⟨rfl, _⟩ := List.cons.inj (List.cons.inj hreached).2
  exact hadmin hfirst

end Fcam
