import Fcam.Model.StoredResponse
import Fcam.Proof.JsonRoundTrip
import Fcam.Proof.Replay

/-!
# Stored responses are read as they were sent

The text of a stored response is JSON that is read back, with the headers and the body it was made
of. So the text and the pair of headers and body that stands for it elsewhere answer a request
alike, and a replay is the response that was sent first.
-/

namespace Fcam

section

variable {float : PyStr → PyStr × Option Int} {strOf : Json → PyStr}

/-! ### Texts of characters -/

theorem latin1Text?_ofString (s : String) : latin1Text? (PyStr.ofString s) = if latin1 s then some s
    else none := by
  rw [latin1Text?, PyStr.map_ofNat_ofString, String.ofList_toList, PyStr.ofString, List.all_map]
  rfl

/-! ### The headers -/

/-- The headers as the members of a JSON object. -/
def headerMembers (headers : List (String × String)) : List (PyStr × Json) :=
  headers.map fun h => (PyStr.ofString h.1, .str (PyStr.ofString h.2))

theorem nodup_headerMembers {headers : List (String × String)}
    (hnames : (headers.map Prod.fst).Nodup) :
    ((headerMembers headers).map Prod.fst).Nodup := by
  have hmap : (headerMembers headers).map Prod.fst = (headers.map Prod.fst).map PyStr.ofString := by
    rw [headerMembers, List.map_map, List.map_map]
    rfl
  rw [hmap]
  exact hnames.map fun _ _ => PyStr.ofString_injective

/-- Headers are read from the members they were written to, unless a character of them is not
Latin-1. -/
theorem mapM_headerMembers (headers : List (String × String)) :
    ((headerMembers headers).mapM fun m => do
      let name ← latin1Text? m.1
      let value ← latin1Text? (headerText strOf m.2)
      some (name, value)) =
      if headers.all fun h => latin1 h.1 && latin1 h.2 then some headers else none := by
  induction headers with
  | nil => rfl
  | cons h headers ih =>
    rw [headerMembers, List.map_cons, ← headerMembers, List.mapM_cons, ih, headerText,
      latin1Text?_ofString, latin1Text?_ofString, List.all_cons]
    cases latin1 h.1 with
    | false => rfl
    | true =>
      cases latin1 h.2 with
      | false => rfl
      | true => cases headers.all fun h => latin1 h.1 && latin1 h.2 <;> rfl

/-! ### The blob -/

/-- The members of the JSON object a response is stored as. -/
def blobMembers (response : Response) : List (PyStr × Json) :=
  [(PyStr.ofString "v", .int 1), (PyStr.ofString "headers", .obj (headerMembers response.headers)),
    (PyStr.ofString "body_b64", .str (Base64.encode response.body))]

theorem everyMember_headerMembers (headers : List (String × String)) (names : List PyStr → Bool) :
    Json.everyMember (Json.parsedScalar float) names (headerMembers headers) = true := by
  induction headers with
  | nil => rfl
  | cons h headers ih => exact (Bool.and_eq_true _ _).mpr ⟨rfl, ih⟩

theorem parsed_blob {response : Response} (hnames : (response.headers.map Prod.fst).Nodup) :
    (Json.obj (blobMembers response)).parsed float = true := by
  have hheaders : (Json.obj (headerMembers response.headers)).parsed float = true :=
    (Bool.and_eq_true _ _).mpr ⟨decide_eq_true (nodup_headerMembers hnames),
      everyMember_headerMembers _ _⟩
  have hversion : (Json.int 1).parsed float = true := rfl
  show (decide [PyStr.ofString "v", PyStr.ofString "headers", PyStr.ofString "body_b64"].Nodup &&
    ((Json.int 1).parsed float &&
      ((Json.obj (headerMembers response.headers)).parsed float && true))) = true
  rw [hversion, hheaders]
  decide

theorem loads_blobText {response : Response} (hnames : (response.headers.map Prod.fst).Nodup) :
    Json.loads (.default float) (blobText response) = some (.obj (blobMembers response)) := by
  have htext : blobText response = Json.write [32] (.obj (blobMembers response)) := by
    rw [blobText, Json.dumpsSpaced, ← headerMembers,
      Json.dict_of_nodup (nodup_headerMembers hnames), blobMembers]
  rw [htext, Json.loads_write_of_parsed (by decide) (parsed_blob hnames)]

theorem orElse_empty_obj (members : List (PyStr × Json)) :
    (Json.obj members).orElse (.obj []) = .obj members := by
  cases members <;> rfl

theorem orElse_empty_str (text : PyStr) : (Json.str text).orElse (.str []) = .str text := by
  cases text <;> rfl

theorem readBlob_blobText {response : Response} (hnames : (response.headers.map Prod.fst).Nodup) :
    readBlob float strOf (blobText response) =
      if response.headers.all fun h => latin1 h.1 && latin1 h.2 then
        some (response.headers, response.body)
      else none := by
  have hascii : (Base64.encode response.body).all (· < 128) = true := by
    rw [List.all_eq_true]
    intro c hc
    exact decide_eq_true (Base64.encode_ascii response.body c hc)
  have hversion : (Json.obj (blobMembers response)).get? "v" .null = some (.int 1) := rfl
  have hheaders : (Json.obj (blobMembers response)).get? "headers" .null =
      some (.obj (headerMembers response.headers)) := rfl
  have hbody : (Json.obj (blobMembers response)).get? "body_b64" .null =
      some (.str (Base64.encode response.body)) := rfl
  rw [readBlob, loads_blobText hnames]
  simp only [Option.bind_eq_bind, Option.bind_some, hversion, hheaders, hbody, orElse_empty_obj,
    orElse_empty_str,
    show (Json.int 1).isOne = true from rfl, hascii, if_true, Base64.decode_encode]
  have hread := @mapM_headerMembers strOf response.headers
  simp only [Option.bind_eq_bind] at hread
  rw [hread]
  split_ifs <;> rfl

/-- The text of a response is answered with as the headers and the body it consists of are. -/
theorem deserializeText_blobText {response : Response}
    (hnames : (response.headers.map Prod.fst).Nodup) (statusCode : Nat) :
    deserializeText float strOf statusCode (blobText response) =
      deserializeResponse statusCode (response.headers, response.body) := by
  rw [deserializeText, readBlob_blobText hnames]
  split_ifs with hlatin
  · rfl
  · rw [deserializeResponse, mkResponse, if_neg hlatin]

theorem serializeText_eq (response : Response) (maxBytes : Int) :
    serializeText response maxBytes =
      (serializeResponse response maxBytes).map fun stored => (stored.1, blobText response) := by
  rw [serializeText, serializeResponse]
  split_ifs <;> rfl

/-! ### The response of an upstream -/

theorem nodup_of_mkResponse {statusCode : Nat} {headers : List (String × String)} {body : Bytes}
    {response : Response} (hnames : (headers.map Prod.fst).Nodup)
    (h : mkResponse statusCode headers body = .ok response) :
    (response.headers.map Prod.fst).Nodup := by
  rw [mkResponse] at h
  split_ifs at h with hlatin
  rw [← Except.ok.inj h]
  dsimp only
  split_ifs with hfilled
  · exact hnames
  · rw [Bool.or_eq_true, not_or] at hfilled
    rw [List.map_append, List.map_singleton, List.nodup_append]
    refine ⟨hnames, List.nodup_singleton _, ?_⟩
    intro name hname other hother
    rw [List.mem_singleton.mp hother]
    rintro rfl
    exact hfilled.1 (List.contains_iff_mem.mpr hname)

theorem nodup_of_toFastapiResponse {r : UpstreamResponse} {response : Response}
    (hnames : (r.headers.map Prod.fst).Nodup) (hsent : toFastapiResponse r = .ok response) :
    (response.headers.map Prod.fst).Nodup :=
  nodup_of_mkResponse (hnames.sublist (List.filter_sublist.map _)) hsent

/-- What is stored of a response that the forwarder made is read as that response; of one that is
too long nothing is stored. -/
theorem stored_response_read (float : PyStr → PyStr × Option Int) (strOf : Json → PyStr)
    (config : AppConfig) {r : UpstreamResponse} {response : Response}
    (hnames : (r.headers.map Prod.fst).Nodup) (hsent : toFastapiResponse r = .ok response) :
    (response.body.length ≤ maxResponseBytes config →
      ∃ statusCode text, serializeText response (maxResponseBytes config) = .ok (statusCode, text) ∧
        deserializeText float strOf statusCode text = .replay response) ∧
      (maxResponseBytes config < response.body.length →
        (∃ error, serializeText response (maxResponseBytes config) = .error error) ∧
          ∀ ctx records, complete config ctx response records = records) := by
  constructor
  · intro hshort
    refine ⟨response.statusCode, blobText response, ?_, ?_⟩
    · rw [serializeText, if_neg (by omega)]
    · have hwell := wellFormed_of_mkResponse hsent
      rw [Response.WellFormed] at hwell
      rw [deserializeText_blobText (nodup_of_toFastapiResponse hnames hsent), deserializeResponse]
      dsimp only
      rw [hwell]
  · intro hlong
    constructor
    · rw [serializeText, if_pos hlong]
      exact ⟨_, rfl⟩
    · intro ctx records
      have hrefused :
          ∃ error, serializeResponse response (maxResponseBytes config) = .error error := by
        rw [serializeResponse, if_pos hlong]
        exact ⟨_, rfl⟩
      obtain ⟨error, hrefused⟩ := hrefused
      rw [complete, hrefused]
      split
      · rfl
      · split
        · next hok => cases hok
        · rfl

end

/-! ### A body that is no text -/

def binaryUpstream : UpstreamResponse :=
  { statusCode := 200
    headers := [("content-type", "application/octet-stream"), ("content-length", "3"),
      ("x-note", "\"caf\u00e9\"")]
    content := [1, 255, 0] }

def binaryResponse : Response :=
  { statusCode := 200
    headers := [("content-type", "application/octet-stream"), ("x-note", "\"caf\u00e9\""),
      ("content-length", "3")]
    body := [1, 255, 0] }

theorem binary_response_read :
    ∃ statusCode text, serializeText binaryResponse (maxResponseBytes {}) = .ok (statusCode, text) ∧
      deserializeText (fun text => (text, none))
        (fun _ => []) statusCode text = .replay binaryResponse :=
  (stored_response_read (fun text => (text, none)) (fun _ => []) {} (r := binaryUpstream)
   (by decide) (by decide)).1
    (by decide)

end Fcam
