import Fcam.Base.Url
import Fcam.Model.CreditFetcher
import Fcam.Model.KeyTest
import Fcam.Proof.Sent

/-!
# The builders of upstream URLs

`forward` and `test_key` take the version off the end of `firecrawl.base_url`, the fetcher of
credits does not. They agree where no segment of it is a version.
-/

namespace Fcam

/-! ### Accepted base URLs -/

/-- A visible character of `ASCII` that delimits nothing in a URL. -/
def isUrlChar (c : Char) : Bool := 32 < c.toNat && c.toNat < 127 && c != '/' && !endsPath c

/-- A base URL: a root, the segments of its path, a version of the API and slashes. -/
structure BaseUrl where
  scheme : List Char
  authority : List Char
  path : List (List Char)
  version : Option ApiVersion
  slashes : Nat
  scheme_head : scheme.head?.any isAsciiLetter = true
  scheme_chars : scheme.all isSchemeChar = true
  authority_ne : authority ≠ []
  authority_chars : authority.all isUrlChar = true
  path_chars : ∀ part ∈ path, part ≠ [] ∧ part.all isUrlChar = true

namespace BaseUrl

variable (base : BaseUrl)

def parts : List (List Char) := base.path ++ base.version.toList.map ApiVersion.segment

/-- The URL without the slashes at its end. -/
def stem : List Char := base.scheme ++ "://".toList ++ base.authority ++ joined base.parts

def text : List Char := base.stem ++ List.replicate base.slashes '/'

end BaseUrl

/-! ### Stripping -/

theorem rstripChar_append_replicate (c : Char) (text : List Char) (n : Nat) :
    rstripChar c (text ++ List.replicate n c) = rstripChar c text := by
  rw [rstripChar, rstripChar, List.reverse_append, List.reverse_replicate]
  congr 1
  induction n with
  | zero => rfl
  | succ n ih =>
    rw [List.replicate_succ, List.cons_append, List.dropWhile_cons_of_pos (by simp), ih]

theorem rstripChar_concat {c last : Char} (h : last ≠ c) (text : List Char) :
    rstripChar c (text ++ [last]) = text ++ [last] := by
  rw [rstripChar, List.reverse_append, List.reverse_singleton, List.singleton_append,
    List.dropWhile_cons_of_neg (by simpa using h)]
  simp

/-- The last character is one of a segment. -/
def EndsPlain (text : List Char) : Prop :=
  ∃ front last, text = front ++ [last] ∧ isUrlChar last = true

theorem EndsPlain.append (front : List Char) {text : List Char} (h : EndsPlain text) :
    EndsPlain (front ++ text) := by
  obtain ⟨more, last, rfl, hlast⟩ := h
  exact ⟨front ++ more, last, (List.append_assoc _ _ _).symm, hlast⟩

theorem endsPlain_of_all {text : List Char} (hne : text ≠ []) (h : text.all isUrlChar = true) :
    EndsPlain text :=
  ⟨text.dropLast, text.getLast hne, (List.dropLast_append_getLast hne).symm,
    List.all_eq_true.mp h _ (List.getLast_mem hne)⟩

theorem EndsPlain.rstrip {text : List Char} (h : EndsPlain text) : rstripChar '/' text = text := by
  obtain ⟨front, last, rfl, hlast⟩ := h
  refine rstripChar_concat ?_ front
  rintro rfl
  exact absurd hlast (by decide)

theorem endsPlain_append_joined {front : List Char} (hfront : EndsPlain front)
    {parts : List (List Char)} (h : ∀ part ∈ parts, part ≠ [] ∧ part.all isUrlChar = true) :
    EndsPlain (front ++ joined parts) := by
  induction parts generalizing front with
  | nil => rwa [joined, List.flatMap_nil, List.append_nil]
  | cons part parts ih =>
    obtain ⟨hne, hchars⟩ := h part List.mem_cons_self
    have hpart : EndsPlain (front ++ '/' :: part) := by
      have hlast := (endsPlain_of_all hne hchars).append (front ++ ['/'])
      rwa [List.append_assoc, List.singleton_append] at hlast
    have hrest := ih hpart fun other hother => h other (List.mem_cons_of_mem _ hother)
    rwa [List.append_assoc] at hrest

/-! ### Reading a base URL -/

theorem toNat_of_isUrlChar {c : Char} (h : isUrlChar c = true) :
    32 < c.toNat ∧ c.toNat < 127 ∧ c ≠ '/' ∧ endsPath c = false := by
  simpa [isUrlChar, and_assoc] using h

theorem forall_ascii (P : Char → Prop) (h : ∀ n : Fin 127, P (Char.ofNat n)) {c : Char}
    (hc : c.toNat < 127) : P c := by
  have hn := h ⟨c.toNat, hc⟩
  rwa [Char.ofNat_toNat] at hn

theorem toNat_of_isSchemeChar {c : Char} (h : isSchemeChar c = true) :
    32 < c.toNat ∧ c.toNat < 127 ∧ c ≠ ':' ∧ endsPath c = false := by
  have hbound : c.toNat < 127 := by
    simp only [isSchemeChar, isAsciiLetter, Bool.or_eq_true, Bool.and_eq_true, decide_eq_true_eq,
      beq_iff_eq] at h
    rcases h with (((((⟨_, h⟩ | ⟨_, h⟩) | ⟨_, h⟩) | rfl) | rfl) | rfl)
    · exact Nat.lt_of_le_of_lt (Char.le_def.mp h) (by decide)
    · exact Nat.lt_of_le_of_lt (Char.le_def.mp h) (by decide)
    · exact Nat.lt_of_le_of_lt (Char.le_def.mp h) (by decide)
    all_goals decide
  obtain ⟨hlow, hcolon, hends⟩ := forall_ascii
    (fun c => isSchemeChar c = true → 32 < c.toNat ∧ c ≠ ':' ∧ endsPath c = false) (by decide)
      hbound h
  exact ⟨hlow, hbound, hcolon, hends⟩

theorem toLower_toLower {c : Char} (h : isSchemeChar c = true) : c.toLower.toLower = c.toLower :=
  forall_ascii (fun c => c.toLower.toLower = c.toLower) (by decide) (toNat_of_isSchemeChar h).2.1

theorem not_isSpace {c : Char} (hlow : 32 < c.toNat) (hhigh : c.toNat < 127) :
    isSpace c.toNat = false :=
  forall_ascii (fun c => 32 < c.toNat → isSpace c.toNat = false) (by decide) hhigh hlow

theorem dropWhile_eq_self {p : Char → Bool} {text : List Char} (h : ∀ c ∈ text, p c = false) :
    text.dropWhile p = text := by
  cases text with
  | nil => rfl
  | cons c rest => exact List.dropWhile_cons_of_neg (by simp [h c List.mem_cons_self])

namespace BaseUrl

variable (base : BaseUrl)

theorem parts_chars : ∀ part ∈ base.parts, part ≠ [] ∧ part.all isUrlChar = true := by
  intro part hpart
  rcases List.mem_append.mp hpart with hpart | hpart
  · exact base.path_chars part hpart
  · obtain ⟨version, _, rfl⟩ := List.mem_map.mp hpart
    cases version <;> decide

theorem endsPlain_stem : EndsPlain base.stem :=
  endsPlain_append_joined ((endsPlain_of_all base.authority_ne base.authority_chars).append _)
    base.parts_chars

theorem visible_stem : ∀ c ∈ base.stem, 32 < c.toNat ∧ c.toNat < 127 ∧ endsPath c = false := by
  have hslashes : ∀ c ∈ "://".toList, 32 < c.toNat ∧ c.toNat < 127 ∧ endsPath c = false := by
    have hall :
        "://".toList.all (fun c => decide (32 < c.toNat ∧ c.toNat < 127 ∧ endsPath c = false)) =
          true := by
      decide
    exact fun c hc => of_decide_eq_true (List.all_eq_true.mp hall c hc)
  have hplain : ∀ {text : List Char}, text.all isUrlChar = true →
      ∀ c ∈ text, 32 < c.toNat ∧ c.toNat < 127 ∧ endsPath c = false := by
    intro text htext c hc
    obtain ⟨hlow, hhigh, _, hends⟩ := toNat_of_isUrlChar (List.all_eq_true.mp htext c hc)
    exact ⟨hlow, hhigh, hends⟩
  intro c hc
  rw [stem, List.mem_append, List.mem_append, List.mem_append] at hc
  rcases hc with ((hc | hc) | hc) | hc
  · obtain ⟨hlow, hhigh, _, hends⟩ :=
      toNat_of_isSchemeChar (List.all_eq_true.mp base.scheme_chars c hc)
    exact ⟨hlow, hhigh, hends⟩
  · exact hslashes c hc
  · exact hplain base.authority_chars c hc
  · obtain ⟨part, hpart, hc⟩ := List.mem_flatMap.mp hc
    rcases List.mem_cons.mp hc with rfl | hc
    · decide
    · exact hplain (base.parts_chars part hpart).2 c hc

theorem normalize_text : normalizeBaseUrl base.text = some base.stem := by
  have hvisible : ∀ c ∈ base.text, isSpace c.toNat = false := by
    intro c hc
    rcases List.mem_append.mp hc with hc | hc
    · obtain ⟨hlow, hhigh, _⟩ := base.visible_stem c hc
      exact not_isSpace hlow hhigh
    · rw [List.eq_of_mem_replicate hc]
      decide
  have hne : base.text ≠ [] := by
    obtain ⟨front, last, hstem, _⟩ := base.endsPlain_stem
    simp [text, hstem]
  have hstripped : (base.text.reverse.dropWhile (isSpace ·.toNat)).reverse = base.text := by
    rw [dropWhile_eq_self fun c hc => hvisible c (List.mem_reverse.mp hc), List.reverse_reverse]
  rw [normalizeBaseUrl, dropWhile_eq_self hvisible, hstripped, if_neg hne, text,
    rstripChar_append_replicate, base.endsPlain_stem.rstrip]

theorem urlsplit_stem :
    urlsplit base.stem =
      { scheme := base.scheme.map Char.toLower, netloc := base.authority,
        path := joined base.parts } := by
  have hkept :
      (base.stem.dropWhile fun c => c.toNat ≤ 32).filter (fun c => c ≠ '\t' ∧ c ≠ '\r' ∧ c ≠ '\n') =
      base.stem := by
    rw [dropWhile_eq_self fun c hc => by simpa using (base.visible_stem c hc).1]
    refine List.filter_eq_self.mpr fun c hc => ?_
    have hlow := (base.visible_stem c hc).1
    have htab : c ≠ '\t' := fun heq => absurd hlow (by rw [heq]; decide)
    have hreturn : c ≠ '\r' := fun heq => absurd hlow (by rw [heq]; decide)
    have hline : c ≠ '\n' := fun heq => absurd hlow (by rw [heq]; decide)
    simp [htab, hreturn, hline]
  have hsplit :
      base.stem = base.scheme ++ ':' :: '/' :: '/' :: (base.authority ++ joined base.parts) := by
    simp [stem, List.append_assoc]
  have hcolon : ∀ c ∈ base.scheme, c ≠ ':' :=
    fun c hc => (toNat_of_isSchemeChar (List.all_eq_true.mp base.scheme_chars c hc)).2.2.1
  have hbefore : base.stem.takeWhile (· ≠ ':') = base.scheme := by
    rw [hsplit, List.takeWhile_append_of_pos fun c hc => by simpa using hcolon c hc]
    simp
  have hhead : (base.scheme.head?.map isAsciiLetter).getD false = true := by
    have hsome := base.scheme_head
    cases hscheme : base.scheme.head? with
    | none => rw [hscheme] at hsome; cases hsome
    | some c => rwa [hscheme] at hsome
  have hcontains : base.stem.contains ':' = true := by
    rw [hsplit]
    simp
  have hrest :
      base.stem.drop (base.scheme.length + 1) =
        '/' :: '/' :: (base.authority ++ joined base.parts) := by
    rw [hsplit, ← List.drop_drop, List.drop_left]
    rfl
  have hpath : ∀ c ∈ joined base.parts, endsPath c = false :=
    fun c hc => (base.visible_stem c (List.mem_append_right _ hc)).2.2
  have hnetloc :
      ((base.authority ++ joined base.parts).takeWhile fun c => c ≠ '/' ∧ c ≠ '?' ∧ c ≠ '#') =
      base.authority := by
    rw [List.takeWhile_append_of_pos fun c hc => ?_]
    · cases hparts : base.parts with
      | nil => simp [joined]
      | cons part parts => simp [joined]
    · obtain ⟨_, _, hslash, hends⟩ :=
        toNat_of_isUrlChar (List.all_eq_true.mp base.authority_chars c hc)
      simpa [endsPath, hslash] using hends
  have hwhole : ((joined base.parts).takeWhile fun c => c ≠ '#' ∧ c ≠ '?') = joined base.parts :=
    List.takeWhile_eq_self_iff.mpr fun c hc => by simpa [endsPath, and_comm] using hpath c hc
  simp only [urlsplit, hkept, hcontains, hbefore, hhead, base.scheme_chars, Bool.and_self, if_true,
    hrest]
  simp only [List.isPrefixOf, beq_self_eq_true, Bool.and_self, if_true, List.drop_succ_cons,
    List.drop_zero, hnetloc, List.drop_left, hwhole]

theorem slash_not_mem_parts : ∀ part ∈ base.parts, '/' ∉ part := by
  intro part hpart hslash
  have hchar := List.all_eq_true.mp (base.parts_chars part hpart).2 '/' hslash
  exact absurd hchar (by decide)

theorem not_isSuffixOf {version : ApiVersion} (h : version.segment ∉ base.parts) :
    ('/' :: version.segment).isSuffixOf (joined base.parts) = false := by
  rw [Bool.eq_false_iff, ne_eq, List.isSuffixOf_iff_suffix]
  rintro ⟨front, hfront⟩
  have hslash : '/' ∉ version.segment := by cases version <;> decide
  have hne : version.segment ≠ [] := by cases version <;> decide
  have hsegments : segments front ++ [version.segment] = [] :: base.parts := by
    have hjoined : segments ([] ++ joined base.parts) = [] :: base.parts :=
      segments_joined List.not_mem_nil base.slash_not_mem_parts
    rw [← hjoined, List.nil_append, ← hfront, segments_append_slash, segments_of_not_mem hslash]
  have hmem : version.segment ∈ [] :: base.parts := by
    rw [← hsegments]
    exact List.mem_append_right _ (List.mem_singleton_self _)
  exact (List.mem_cons.mp hmem).elim hne h

theorem rstrip_joined : rstripChar '/' (joined base.parts) = joined base.parts := by
  cases hparts : base.parts with
  | nil => rfl
  | cons part parts =>
    have hchars := hparts ▸ base.parts_chars
    obtain ⟨hne, hpart⟩ := hchars part List.mem_cons_self
    have hfirst : EndsPlain ('/' :: part) := (endsPlain_of_all hne hpart).append ['/']
    exact (endsPlain_append_joined hfirst fun other hother =>
      hchars other (List.mem_cons_of_mem _ hother)).rstrip

theorem strip_stem (h : ∀ version : ApiVersion, version.segment ∉ base.parts) :
    (stripFirecrawlVersionSuffix base.stem).1 =
      base.scheme.map Char.toLower ++ "://".toList ++ base.authority ++ joined base.parts := by
  have hscheme : base.scheme.map Char.toLower ≠ [] := by
    intro hnil
    have hhead := base.scheme_head
    rw [List.map_eq_nil_iff.mp hnil] at hhead
    cases hhead
  have hv1 : ['/', 'v', '1'].isSuffixOf (joined base.parts) = false := base.not_isSuffixOf (h .v1)
  have hv2 : ['/', 'v', '2'].isSuffixOf (joined base.parts) = false := base.not_isSuffixOf (h .v2)
  have hends :
      EndsPlain (base.scheme.map Char.toLower ++ "://".toList ++ base.authority ++
        joined base.parts) :=
    endsPlain_append_joined ((endsPlain_of_all base.authority_ne base.authority_chars).append _)
      base.parts_chars
  have hhead : joined base.parts = [] ∨ (joined base.parts).head? = some '/' := by
    cases base.parts with
    | nil => exact .inl rfl
    | cons part parts => exact .inr rfl
  simp only [stripFirecrawlVersionSuffix, base.endsPlain_stem.rstrip, base.urlsplit_stem, hscheme,
    base.authority_ne, or_self, if_false, base.rstrip_joined, hv1, hv2, Bool.false_eq_true,
    Option.isSome_none, urlunsplit, hhead, if_true]
  exact hends.rstrip

end BaseUrl

/-! ### What the builders send -/

/-- A segment that is a version of the API. -/
def isVersion (part : List Char) : Bool :=
  part == ApiVersion.v1.segment || part == ApiVersion.v2.segment

def UpstreamRequest.url (request : UpstreamRequest) : List Char :=
  request.baseUrl.toList ++ request.path.toList

/-- The server of a URL, with what stands before the version. -/
structure UrlRoot where
  scheme : List Char
  authority : List Char
  parts : List (List Char)
deriving DecidableEq, Repr

def rootOf (url : List Char) : UrlRoot :=
  let read := readAbsolute url
  { scheme := read.scheme
    authority := read.authority
    parts := (segments read.path).tail.takeWhile fun part => !isVersion part }

def versionCount (url : List Char) : Nat := (segments (readAbsolute url).path).countP isVersion

/-- A path under a version of the API that names no other. -/
def IsApiPath (path : String) : Prop :=
  ∃ version : ApiVersion, ∃ rest, segments (pathOf path.toList) = [] :: version.segment :: rest ∧
    ∀ part ∈ rest, isVersion part = false

/-- A request one of the three builders sends to Firecrawl. -/
inductive BuiltBy (config : AppConfig) : UpstreamRequest → Prop
  | forward (fwd : Forwarder) (turns : Nat → Turn) (req : ForwardRequest) (w : World)
    (e : Exchange) :
      fwd.config = config → req.provider = .firecrawl → IsApiPath req.upstreamPath →
      e ∈ exchangesOf (Fcam.forward fwd turns req w).events → BuiltBy config e.request
  | testKey (fwd : Forwarder) (env : TestEnv) (requestId : String) (id : Nat) (w : World)
    (mode : String)
      (testUrl : PyStr) (key : ApiKey) (e : Exchange) : fwd.config = config →
        key.provider = .firecrawl →
      e ∈ (Fcam.testKey fwd env requestId id w mode testUrl key).exchanges →
        BuiltBy config e.request
  | fetch (security : Security) (masterKey : Bytes) (env : FetchEnv) (requestId : String) (id : Nat)
    (key : ApiKey)
      (w : World) (e : Exchange) :
      e ∈ (fetchCreditFromFirecrawl config security masterKey env requestId id key w).exchanges →
      BuiltBy config e.request

theorem takeWhile_not_version (parts : List (List Char)) (version : ApiVersion)
    (rest : List (List Char)) :
    ((parts ++ version.segment :: rest).takeWhile fun part => !isVersion part) =
      parts.takeWhile fun part => !isVersion part := by
  have hversion : isVersion version.segment = true := by cases version <;> decide
  induction parts with
  | nil => rw [List.nil_append, List.takeWhile_cons_of_neg (by simp [hversion]), List.takeWhile_nil]
  | cons part parts ih => rw [List.cons_append, List.takeWhile_cons, List.takeWhile_cons, ih]

namespace BaseUrl

variable (base : BaseUrl) {path : String}

def root : UrlRoot :=
  { scheme := base.scheme.map Char.toLower
    authority := base.authority
    parts := base.parts.takeWhile fun part => !isVersion part }

/-- The URL of a path of the API, under the scheme in either spelling. -/
theorem read_url {scheme : List Char} (hscheme : ':' ∉ scheme) (hlower : scheme.map Char.toLower =
    base.scheme.map Char.toLower) (hpath : IsApiPath path) :
    rootOf (scheme ++ "://".toList ++ base.authority ++ joined base.parts ++ path.toList) =
      base.root ∧
      versionCount (scheme ++ "://".toList ++ base.authority ++ joined base.parts ++ path.toList) =
        base.parts.countP isVersion + 1 := by
  obtain ⟨version, rest, hsegments, hrest⟩ := hpath
  have hversion : isVersion version.segment = true := by cases version <;> decide
  obtain ⟨tail, htext, htail⟩ := exists_of_segments_eq_cons hsegments
  have hends : ∀ c ∈ joined base.parts, endsPath c = false :=
    fun c hc => (base.visible_stem c (List.mem_append_right _ hc)).2.2
  have hauthority : ∀ c ∈ base.authority, c ≠ '/' ∧ endsPath c = false := fun c hc =>
    (toNat_of_isUrlChar (List.all_eq_true.mp base.authority_chars c hc)).2.2
  have hhead : (joined base.parts ++ path.toList).head?.all (· == '/') = true := by
    have hwhole : path.toList = '/' :: (tail ++ path.toList.dropWhile fun c => !endsPath c) := by
      rw [← List.cons_append, ← List.nil_append ('/' :: tail), ← htext]
      exact List.takeWhile_append_dropWhile.symm
    rw [hwhole]
    cases base.parts with
    | nil => rfl
    | cons part parts => rfl
  have hread :
      readAbsolute (scheme ++ "://".toList ++ base.authority ++ joined base.parts ++ path.toList) =
        { scheme := base.scheme.map Char.toLower, authority := base.authority,
          path := joined base.parts ++ '/' :: tail } := by
    rw [List.append_assoc _ (joined base.parts), readAbsolute_append hscheme hauthority hhead,
      pathOf_append hends, htext, List.nil_append, hlower]
  have hparts :
      segments (joined base.parts ++ '/' :: tail) =
        [] :: base.parts ++ version.segment :: rest := by
    have hjoined := segments_append_joined List.not_mem_nil base.slash_not_mem_parts tail
    rwa [List.nil_append, htail] at hjoined
  constructor
  · rw [rootOf, hread, hparts, List.cons_append, List.tail_cons, takeWhile_not_version, root]
  · have hnone : rest.countP isVersion = 0 :=
      List.countP_eq_zero.mpr fun part hpart => by simp [hrest part hpart]
    rw [versionCount, hread, hparts, List.cons_append, List.countP_cons_of_neg (by decide),
      List.countP_append, List.countP_cons_of_pos hversion, hnone]

end BaseUrl

theorem mem_probes {outcome : Nat → Outcome} {candidates : List String} {i : Nat}
    {probe : String × Outcome} (h : probe ∈ probes outcome i candidates) :
    probe.1 ∈ candidates := by
  induction candidates generalizing i with
  | nil => cases h
  | cons path rest ih =>
    rw [probes, List.mem_cons] at h
    rcases h with rfl | hmem
    · exact List.mem_cons_self
    · split at hmem
      · exact List.mem_cons_of_mem _ (ih hmem)
      · cases hmem

/-- A test of a key sends to its server, to one of the candidates. -/
theorem testKeyWith_request {fwd : Forwarder} {env : TestEnv} {requestId : String} {id : Nat}
    {w : World} {provider : Provider} {candidates : List String} {body : Json} {masterKey : Bytes}
    {key : ApiKey} {e : Exchange}
    (h : e ∈ (testKeyWith fwd env requestId id w provider candidates body masterKey
      key).exchanges) :
    fwd.providerBaseUrl provider = .ok e.request.baseUrl ∧ e.request.path ∈ candidates := by
  rw [testKeyWith] at h
  simp only at h
  split at h
  · cases h
  split at h
  · cases h
  next baseUrl hbase =>
  simp only [List.mem_append, List.mem_map, Option.mem_toList] at h
  rcases h with ⟨probe, hprobe, rfl⟩ | ⟨probe, hprobe, rfl⟩
  · exact ⟨hbase, mem_probes (List.mem_of_mem_filter (List.mem_of_mem_dropLast hprobe))⟩
  · exact ⟨hbase, mem_probes (List.mem_of_mem_filter (List.mem_of_getLast? hprobe))⟩

theorem testKey_request {fwd : Forwarder} {env : TestEnv} {requestId : String} {id : Nat}
    {w : World} {mode : String} {testUrl : PyStr} {key : ApiKey} {e : Exchange}
    (hprovider : key.provider = .firecrawl)
    (h : e ∈ (testKey fwd env requestId id w mode testUrl key).exchanges) :
    e.request.baseUrl = fwd.firecrawlUpstreamBaseUrl ∧ IsApiPath e.request.path := by
  have hcandidates : ∀ path ∈ ["/v1/scrape", "/v2/scrape"], IsApiPath path := by
    intro path hpath
    obtain rfl | rfl := List.mem_pair.mp hpath
    · exact ⟨.v1, ["scrape".toList], by decide, by decide⟩
    · exact ⟨.v2, ["scrape".toList], by decide, by decide⟩
  rw [testKey] at h
  simp only [hprovider] at h
  split at h
  · cases h
  split at h
  · cases h
  obtain ⟨hbase, hpath⟩ := testKeyWith_request h
  refine ⟨(Except.ok.inj hbase).symm, hcandidates _ ?_⟩
  rw [testCandidates] at hpath
  split at hpath
  · exact hpath
  · exact List.mem_pair.mpr (List.mem_pair.mp hpath).symm

theorem fetch_request {config : AppConfig} {security : Security} {masterKey : Bytes}
    {env : FetchEnv} {requestId : String} {id : Nat} {key : ApiKey} {w : World} {e : Exchange}
    (h : e ∈ (fetchCreditFromFirecrawl config security masterKey env requestId id key
      w).exchanges) :
    e.request.baseUrl = config.firecrawl.baseUrl ∧ e.request.path = "/v2/team/credit-usage" := by
  rw [fetchCreditFromFirecrawl] at h
  split at h
  · cases h
  · simp only at h
    split at h
    · cases h
    · obtain rfl := List.mem_singleton.mp h
      exact ⟨rfl, rfl⟩

/-- What `forward` and `test_key` send goes to the stripped base URL. -/
theorem BuiltBy.cases_baseUrl {config : AppConfig} {request : UpstreamRequest}
    (h : BuiltBy config request) :
    IsApiPath request.path ∧
      (request.baseUrl.toList = (stripFirecrawlVersionSuffix config.firecrawl.baseUrl.toList).1 ∨
        request.baseUrl = config.firecrawl.baseUrl) := by
  have hstripped : ∀ fwd : Forwarder, fwd.config = config →
      fwd.firecrawlUpstreamBaseUrl.toList =
        (stripFirecrawlVersionSuffix config.firecrawl.baseUrl.toList).1 := by
    rintro fwd rfl
    exact String.toList_ofList
  cases h with
  | forward fwd turns req w e hfwd hprovider hpath hsent =>
    obtain ⟨baseUrl, plaintextKey, hbase, hrequest⟩ :=
      forward_sentAs fwd turns req w e (mem_exchangesOf.mp hsent)
    rw [hprovider] at hbase
    obtain rfl := Except.ok.inj hbase
    rw [hrequest]
    exact ⟨hpath, .inl (hstripped fwd hfwd)⟩
  | testKey fwd env requestId id w mode testUrl key e hfwd hprovider hsent =>
    obtain ⟨hbase, hpath⟩ := testKey_request hprovider hsent
    exact ⟨hpath, .inl (hbase ▸ hstripped fwd hfwd)⟩
  | fetch security masterKey env requestId id key w e hsent =>
    obtain ⟨hbase, hpath⟩ := fetch_request hsent
    exact ⟨hpath ▸ ⟨.v2, ["team".toList, "credit-usage".toList], by decide, by decide⟩, .inr hbase⟩

theorem exists_fetch (config : AppConfig) : ∃ request, BuiltBy config request ∧
    request.baseUrl = config.firecrawl.baseUrl ∧ request.path = "/v2/team/credit-usage" := by
  have hsent : ∀ e, e ∈ (fetchCreditFromFirecrawl config (openForwarder config).security []
      { outcome := .timeout, now := 0, writtenAt := 0 } "" 0 (freshKey 1 .firecrawl)
        (freshWorld 1 .firecrawl 1)).exchanges →
      BuiltBy config e.request := fun e he => .fetch _ _ _ _ _ _ _ e he
  exact ⟨_, hsent _ (List.mem_singleton_self _), rfl, rfl⟩

/-- The three builders agree on the root, and write one version, if and only if no segment of the
base URL is one. -/
theorem builders_agree_iff (base : BaseUrl) {config : AppConfig}
    (hconfig : normalizeBaseUrl base.text = some config.firecrawl.baseUrl.toList) :
    (∃ root, ∀ request, BuiltBy config request →
      rootOf request.url = root ∧ versionCount request.url = 1) ↔
      ∀ part ∈ base.parts, isVersion part = false := by
  rw [base.normalize_text, Option.some.injEq] at hconfig
  have hcolon : ':' ∉ base.scheme := fun hmem =>
    (toNat_of_isSchemeChar (List.all_eq_true.mp base.scheme_chars _ hmem)).2.2.1 rfl
  have hraw :
      ∀ {request : UpstreamRequest}, IsApiPath request.path →
        request.baseUrl = config.firecrawl.baseUrl → rootOf request.url = base.root ∧
          versionCount request.url = base.parts.countP isVersion + 1 := by
    intro request hpath hbase
    have hread := base.read_url hcolon rfl hpath
    rw [UpstreamRequest.url, hbase, ← hconfig]
    exact hread
  constructor
  · rintro ⟨root, hroot⟩ part hpart
    obtain ⟨request, hbuilt, hbase, hpath⟩ := exists_fetch config
    obtain ⟨_, hcount⟩ := hraw hbuilt.cases_baseUrl.1 hbase
    rw [(hroot request hbuilt).2] at hcount
    have hnone : base.parts.countP isVersion = 0 := by omega
    simpa using List.countP_eq_zero.mp hnone part hpart
  · intro hplain
    have hnone : base.parts.countP isVersion = 0 :=
      List.countP_eq_zero.mpr fun part hpart => by simp [hplain part hpart]
    have hversions : ∀ version : ApiVersion, version.segment ∉ base.parts := by
      intro version hmem
      have hfalse := hplain _ hmem
      cases version <;> exact absurd hfalse (by decide)
    have hlower :
        (base.scheme.map Char.toLower).map Char.toLower = base.scheme.map Char.toLower := by
      rw [List.map_map]
      exact List.map_congr_left fun c hc =>
        toLower_toLower (List.all_eq_true.mp base.scheme_chars c hc)
    have hcolon' : ':' ∉ base.scheme.map Char.toLower := by
      intro hmem
      obtain ⟨c, hc, heq⟩ := List.mem_map.mp hmem
      have hchar := List.all_eq_true.mp base.scheme_chars c hc
      exact forall_ascii (fun c => isSchemeChar c = true → c.toLower ≠ ':') (by decide)
        (toNat_of_isSchemeChar hchar).2.1 hchar heq
    refine ⟨base.root, fun request hbuilt => ?_⟩
    obtain ⟨hpath, hstripped | hbase⟩ := hbuilt.cases_baseUrl
    · rw [← hconfig, base.strip_stem hversions] at hstripped
      have hread := base.read_url hcolon' hlower hpath
      rw [hnone] at hread
      rw [UpstreamRequest.url, hstripped]
      exact hread
    · have hread := hraw hpath hbase
      rwa [hnone] at hread

/-- The default root. -/
def defaultBaseUrl (version : Option ApiVersion) : BaseUrl :=
  { scheme := "https".toList
    authority := "api.firecrawl.dev".toList
    path := []
    version
    slashes := 0
    scheme_head := by decide
    scheme_chars := by decide
    authority_ne := by decide
    authority_chars := by decide
    path_chars := fun part hmem => absurd hmem List.not_mem_nil }

/-- The builders agree on the default base URL. -/
theorem default_builders_agree :
    ∃ root, ∀ request, BuiltBy {} request →
      rootOf request.url = root ∧ versionCount request.url = 1 :=
  (builders_agree_iff (defaultBaseUrl none) (by decide)).mpr (by decide)

/-- With `/v1` at the end of the base URL the credits are asked for under `/v1/v2`. -/
theorem versioned_base_doubled :
    let config : AppConfig := { firecrawl := { baseUrl := "https://api.firecrawl.dev/v1" } }
    normalizeBaseUrl (defaultBaseUrl (some .v1)).text = some config.firecrawl.baseUrl.toList ∧
      ∃ request, BuiltBy config request ∧
        request.url = "https://api.firecrawl.dev/v1/v2/team/credit-usage".toList ∧
          versionCount request.url = 2 := by
  intro config
  obtain ⟨request, hbuilt, hbase, hpath⟩ := exists_fetch config
  have hurl : request.url = "https://api.firecrawl.dev/v1/v2/team/credit-usage".toList := by
    rw [UpstreamRequest.url, hbase, hpath]
    decide
  exact ⟨by decide, request, hbuilt, hurl, by rw [hurl]; decide⟩

end Fcam
