import Fcam.Proof.Counting

/-!
# What a request is taken to cost

The counts of a response are read from `data` without a test that it is an object, and nothing is
estimated where it is not. Where they can be read, the estimate is at least what the endpoint costs
and what the counts say.
-/

namespace Fcam

/-- The integer that a response states in `data`. -/
def statedCount (response : Json) (field : String) : Option Int :=
  match response with
  | .obj members =>
    match members.lookup (PyStr.ofString "data") with
    | some (.obj data) => (data.lookup (PyStr.ofString field)).bind Json.toInt?
    | _ => none
  | _ => none

/-- The cost is at least what the endpoint costs, the pages of a crawl and the items of a batch. -/
structure CostBounded (endpoint : String) (responseData : Option Json) (cost : Int) : Prop where
  base : (creditCostMap.lookup endpoint).getD 1 ≤ cost
  pages : contains endpoint "/crawl" = true →
    ∀ pages ∈ responseData.bind (statedCount · "total"), pages ≤ cost
  items : contains endpoint "/batch/" = true → ∀ count ∈ responseData.bind (statedCount · "count"),
    (creditCostMap.lookup endpoint).getD 1 * count ≤ cost

/-- An object, whose `data`, if there is any, is one too. -/
def HoldsCounts : Json → Prop
  | .obj members => ∀ data ∈ members.lookup (PyStr.ofString "data"), ∃ counts, data = .obj counts
  | _ => False

/-- The endpoint is not counted, or there is nothing to count, or the counts can be read; and a
crawl that is a batch as well has no more items than pages. -/
structure CountsReadable (endpoint : String) (responseData : Option Json) : Prop where
  holds : contains endpoint "/crawl" = true ∨ contains endpoint "/batch/" = true →
    ∀ response ∈ responseData, response.truthy = true → HoldsCounts response
  items : contains endpoint "/crawl" = true → contains endpoint "/batch/" = true →
    ∀ count ∈ responseData.bind (statedCount · "count"),
      count ≤ max ((responseData.bind (statedCount · "total")).getD 1) 1

theorem countField_eq_some_iff {response : Json} {field : String} {count : Int} :
    countField response field = some count ↔
      HoldsCounts response ∧ count = (statedCount response field).getD 1 := by
  cases response with
  | obj members =>
    cases hdata : members.lookup (PyStr.ofString "data") with
    | none => simp [countField, statedCount, HoldsCounts, Json.get?, Json.toInt?, hdata, eq_comm]
    | some data =>
      cases data with
      | obj counts =>
        cases hfield : counts.lookup (PyStr.ofString field) with
        | none =>
          simp [countField, statedCount, HoldsCounts, Json.get?, Json.toInt?, hdata, hfield,
            eq_comm]
        | some value =>
          simp [countField, statedCount, HoldsCounts, Json.get?, hdata, hfield, eq_comm]
      | _ => simp [countField, HoldsCounts, Json.get?, hdata]
  | _ => simp [countField, HoldsCounts, Json.get?]

theorem statedCount_of_not_truthy {response : Json} {field : String}
    (hempty : response.truthy = false) :
    statedCount response field = none := by
  cases response with
  | obj members =>
    have hnil : members = [] := by simpa [Json.truthy] using hempty
    rw [hnil]
    rfl
  | _ => rfl

theorem baseCost_crawl_batch {endpoint : String} (hcrawl : contains endpoint "/crawl" = true)
    (hbatch : contains endpoint "/batch/" = true) : (creditCostMap.lookup endpoint).getD 1 = 1 := by
  cases hlookup : creditCostMap.lookup endpoint with
  | none => rfl
  | some cost =>
    obtain ⟨before, after, hmap, -⟩ := List.lookup_eq_some_iff.mp hlookup
    have hmem : (endpoint, cost) ∈ creditCostMap := by simp [hmap]
    have hall :
        ∀ entry ∈ creditCostMap, contains entry.1 "/crawl" = true →
          contains entry.1 "/batch/" ≠ true := by
      decide
    exact absurd hbatch (hall _ hmem hcrawl)

theorem estimateCreditCost_empty {endpoint : String} {responseData : Option Json}
    (hempty : responseData.filter Json.truthy = none) :
    estimateCreditCost endpoint responseData = some ((creditCostMap.lookup endpoint).getD 1) := by
  simp only [estimateCreditCost, hempty]
  cases contains endpoint "/crawl" <;> cases contains endpoint "/batch/" <;> rfl

theorem stated_of_empty {responseData : Option Json}
    (hempty : responseData.filter Json.truthy = none) (field : String) :
    responseData.bind (statedCount · field) = none := by
  cases responseData with
  | none => rfl
  | some response =>
    rw [Option.bind_some]
    apply statedCount_of_not_truthy
    cases htruthy : response.truthy with
    | false => rfl
    | true => rw [Option.filter_some_pos htruthy] at hempty; cases hempty

theorem not_mem_of_eq_none {o : Option Int} (hnone : o = none) {p : Int → Prop} : ∀ n ∈ o, p n := by
  intro n hn
  rw [hnone] at hn
  cases hn

/-- The cost is at least what the endpoint and the counts say exactly where the counts can be
read. -/
theorem cost_estimated_iff (endpoint : String) (responseData : Option Json) :
    (∃ cost, estimateCreditCost endpoint responseData = some cost ∧
      CostBounded endpoint responseData cost) ↔
      CountsReadable endpoint responseData := by
  have hbase := baseCost_pos endpoint
  cases hpresent : responseData.filter Json.truthy with
  | none =>
    have hstated := stated_of_empty hpresent
    apply iff_of_true
    · refine ⟨_, estimateCreditCost_empty hpresent, le_refl _, ?_, ?_⟩
      · intro _
        exact not_mem_of_eq_none (hstated "total")
      · intro _
        exact not_mem_of_eq_none (hstated "count")
    · constructor
      · intro _ response hresponse htruthy
        rw [Option.mem_def] at hresponse
        rw [hresponse, Option.filter_some_pos htruthy] at hpresent
        cases hpresent
      · intro _ _
        exact not_mem_of_eq_none (hstated "count")
  | some response =>
    obtain ⟨hresponse, htruthy⟩ := Option.filter_eq_some_iff.mp hpresent
    subst hresponse
    cases hcrawl : contains endpoint "/crawl" with
    | true =>
      have hcost : estimateCreditCost endpoint (some response) =
          (countField response "total").map fun pages =>
            max ((creditCostMap.lookup endpoint).getD 1) (max pages 1) := by
        simp only [estimateCreditCost, hpresent, hcrawl]
      rw [hcost]
      constructor
      · rintro ⟨cost, hsome, hbounded⟩
        obtain ⟨pages, hpages, rfl⟩ := Option.map_eq_some_iff.mp hsome
        obtain ⟨hholds, hstated⟩ := countField_eq_some_iff.mp hpages
        refine ⟨?_, ?_⟩
        · rintro - other hother -
          rwa [← Option.some.inj hother]
        · intro _ hbatch count hcount
          have hitems := hbounded.items hbatch count hcount
          rw [baseCost_crawl_batch hcrawl hbatch] at hitems
          rw [Option.bind_some, ← hstated]
          omega
      · rintro ⟨hholds, hitems⟩
        have hholds := hholds (.inl hcrawl) response rfl htruthy
        have hpages : countField response "total" = some ((statedCount response "total").getD 1) :=
          countField_eq_some_iff.mpr ⟨hholds, rfl⟩
        refine ⟨_, by rw [hpages, Option.map_some], le_max_left _ _, ?_, ?_⟩
        · intro _ pages hstated
          rw [Option.bind_some, Option.mem_def] at hstated
          rw [hstated, Option.getD_some]
          omega
        · intro hbatch count hcount
          have hle := hitems hcrawl hbatch count hcount
          rw [baseCost_crawl_batch hcrawl hbatch]
          rw [Option.bind_some] at hle
          omega
    | false =>
      cases hbatch : contains endpoint "/batch/" with
      | true =>
        have hcost : estimateCreditCost endpoint (some response) =
            (countField response "count").map fun count =>
              max ((creditCostMap.lookup endpoint).getD 1 * max count 1) 1 := by
          simp only [estimateCreditCost, hpresent, hcrawl, hbatch]
        rw [hcost]
        constructor
        · rintro ⟨cost, hsome, -⟩
          obtain ⟨count, hcount, -⟩ := Option.map_eq_some_iff.mp hsome
          obtain ⟨hholds, -⟩ := countField_eq_some_iff.mp hcount
          refine ⟨?_, by simp [hcrawl]⟩
          rintro - other hother -
          rwa [← Option.some.inj hother]
        · rintro ⟨hholds, -⟩
          have hholds := hholds (.inr hbatch) response rfl htruthy
          have hcount :
              countField response "count" = some ((statedCount response "count").getD 1) :=
            countField_eq_some_iff.mpr ⟨hholds, rfl⟩
          refine ⟨_, by rw [hcount, Option.map_some], ?_, by simp [hcrawl], ?_⟩
          · have hle :=
              Int.mul_le_mul_of_nonneg_left (le_max_right ((statedCount response "count").getD 1) 1)
              (by omega : 0 ≤ (creditCostMap.lookup endpoint).getD 1)
            rw [Int.mul_one] at hle
            exact le_max_of_le_left hle
          · intro _ count hstated
            rw [Option.bind_some, Option.mem_def] at hstated
            rw [hstated, Option.getD_some]
            apply le_max_of_le_left
            exact Int.mul_le_mul_of_nonneg_left (le_max_left _ _) (by omega)
      | false =>
        have hcost :
            estimateCreditCost endpoint (some response) =
              some ((creditCostMap.lookup endpoint).getD 1) := by
          simp only [estimateCreditCost, hpresent, hcrawl, hbatch]
        apply iff_of_true
        · exact ⟨_, hcost, le_refl _, by simp [hcrawl], by simp [hbatch]⟩
        · exact ⟨by simp [hcrawl, hbatch], by simp [hcrawl]⟩

/-- A response whose `data` is a list. -/
theorem listed_pages_not_estimated :
    estimateCreditCost "/v2/crawl" (some (.obj [(PyStr.ofString "data", .arr [])])) = none := by
  decide

end Fcam
