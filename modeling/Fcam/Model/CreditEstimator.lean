import Mathlib.Data.List.Infix
import Fcam.Model.Json

/-!
# Local credit estimation

`credit_estimator.py`: what one request is taken to cost, from its normalised endpoint and the
parsed response.
-/

namespace Fcam

/-- `CREDIT_COST_MAP`. -/
def creditCostMap : List (String × Int) :=
  [("/v1/scrape", 1), ("/v1/crawl", 5), ("/v1/search", 1), ("/v1/map", 1),
    ("/v2/scrape", 1), ("/v2/crawl", 5), ("/v2/map", 1), ("/v2/extract", 2),
    ("/v2/batch/scrape", 1)]

/-- `part in text`. -/
def contains (text part : String) : Bool := decide (part.toList <:+: text.toList)

/-- `response_data.get("data", {}).get(field, 1)` read as an integer, 1 where it is not one. Nothing
where a `get` is called on a value without it. -/
def countField (response : Json) (field : String) : Option Int :=
  ((response.get? "data" (.obj [])).bind fun data => data.get? field (.int 1)).map fun value =>
    value.toInt?.getD 1

/-- `estimate_credit_cost`, or nothing where it raises `AttributeError`. -/
def estimateCreditCost (endpoint : String) (responseData : Option Json) : Option Int :=
  let baseCost := (creditCostMap.lookup endpoint).getD 1
  let present := responseData.filter Json.truthy
  match contains endpoint "/crawl", contains endpoint "/batch/", present with
  | true, _, some response =>
    (countField response "total").map fun pages => max baseCost (max pages 1)
  | false, true, some response =>
    (countField response "count").map fun count => max (baseCost * max count 1) 1
  | _, _, _ => some baseCost

/-- `normalize_endpoint`. -/
def normalizeEndpoint (path : String) : String :=
  let pathNoQuery := path.toList.takeWhile (· ≠ '?')
  let parts := pathNoQuery.splitOn '/'
  let joined (n : Nat) : String := String.ofList (['/'].intercalate (parts.take n))
  if pathNoQuery = [] ∨ pathNoQuery = ['/'] then String.ofList pathNoQuery
  else if 4 ≤ parts.length ∧ parts[2]? = some "crawl".toList then joined 3
  else if 5 ≤ parts.length ∧ parts[2]? = some "batch".toList then joined 4
  else String.ofList pathNoQuery

example : normalizeEndpoint "/v2/batch/scrape/xyz789?x=1" = "/v2/batch/scrape" := by decide

end Fcam
