import Fcam.Proof.BackOffEnds
import Fcam.Proof.Rotation
import Mathlib.Data.Finset.Card

/-!
# Everybody has a turn

Of the keys of a scope, those that are available while others are not are selected in turn. The
position the scope begins at may be that of an earlier table, and calls for other scopes may come
between: they move another index, and what they write to a row changes nothing about whether it is
available.
-/

namespace Fcam

/-! ### Calls for other scopes -/

section Examined

variable {reading : Reading} {secondsUntilNextMidnight : Int} {stored : Nat → Option Int}

theorem lazyReset_isDisabled (today : Day) (key : ApiKey) :
    isDisabled (lazyReset today key) = isDisabled key := by
  rw [lazyReset]
  split
  · rfl
  · by_cases hexceeded : key.status = .quotaExceeded
    · rw [isDisabled, isDisabled, hexceeded, if_pos rfl]
      rfl
    · rw [isDisabled, if_neg hexceeded]
      rfl

theorem lazyReset_of_today {today : Day} {key : ApiKey} (h : key.quotaResetAt = some today) :
    lazyReset today key = key := by
  rw [lazyReset, if_pos h]

theorem released_frame (key : ApiKey) :
    (released key).quotaResetAt = key.quotaResetAt ∧ backsOff (released key) = false ∧
      isDisabled (released key) = isDisabled key := by
  rw [released]
  split
  · next hbacks =>
    refine ⟨rfl, rfl, ?_⟩
    rw [backsOff, Bool.or_eq_true, beq_iff_eq, beq_iff_eq] at hbacks
    rw [isDisabled, isDisabled]
    rcases hbacks with hstatus | hstatus
    · rw [hstatus]
      rfl
    · rw [hstatus]
      rfl
  · next hbacks => exact ⟨rfl, Bool.eq_false_iff.mpr hbacks, rfl⟩

/-- What an examination writes to a row changes nothing about whether it is available. -/
theorem Examines.isAvailable_eq {id : Nat} {key after : ApiKey} {verdict : Verdict}
    (h : Examines (.ofStore reading secondsUntilNextMidnight stored) id key verdict after) :
    isAvailable reading stored (id, after) = isAvailable reading stored (id, key) := by
  rw [Bool.eq_iff_iff, isAvailable_iff, isAvailable_iff]
  have htoday : (lazyReset reading.today key).quotaResetAt = some reading.today :=
    lazyReset_quotaResetAt _ key
  cases h with
  | disabled => exact Iff.rfl
  | cooling =>
    have hsame : ofToday reading (id, lazyReset reading.today key) = ofToday reading (id, key) :=
      congrArg (Prod.mk id) (lazyReset_of_today htoday)
    show isDisabled (lazyReset reading.today key) = false ∧ _ ↔ _
    rw [lazyReset_isDisabled]
    exact and_congr_right fun _ => hsame ▸ Iff.rfl
  | quotaExceeded tested henabled htested hquota =>
    obtain ⟨_, rfl⟩ := htested.ofStore
    obtain ⟨hlimit, husage⟩ := released_quota (ofToday reading (id, key)).2
    have hsame :
        (ofToday reading
         (id, { released (ofToday reading (id, key)).2 with status := .quotaExceeded })).2 =
           { released (ofToday reading (id, key)).2 with status := .quotaExceeded } :=
      lazyReset_of_today ((released_frame _).1.trans htoday)
    refine iff_of_false ?_ ?_
    · rintro ⟨_, _, hbelow⟩
      rw [hsame] at hbelow
      exact absurd hbelow (Nat.not_lt.mpr hquota)
    · rintro ⟨_, _, hbelow⟩
      rw [hlimit, husage] at hquota
      exact absurd hbelow (Nat.not_lt.mpr hquota)
  | eligible tested henabled htested hquota =>
    obtain ⟨hover, rfl⟩ := htested.ofStore
    obtain ⟨hreset, hbacks, hdisabled⟩ := released_frame (ofToday reading (id, key)).2
    obtain ⟨hlimit, husage⟩ := released_quota (ofToday reading (id, key)).2
    have hsame : ofToday reading (id, released (ofToday reading (id, key)).2) =
        (id, released (ofToday reading (id, key)).2) :=
      congrArg (Prod.mk id) (lazyReset_of_today (hreset.trans htoday))
    have henabled' : isDisabled (released (ofToday reading (id, key)).2) = false := by
      rw [hdisabled, ofToday, lazyReset_isDisabled, henabled]
    rw [hsame]
    refine iff_of_true ⟨henabled', ?_, hquota⟩ ⟨henabled, hover, ?_⟩
    · rw [backOff_of_not_backsOff hbacks]
    · rw [hlimit, husage] at hquota
      exact hquota

variable {w : World} {clientId : Option Nat} {provider : Provider}

/-- A key is available after a selection, for any scope, if and only if it was before. -/
theorem select_isAvailable_eq (id : Nat) :
    Option.Rel (fun before after =>
      isAvailable reading stored (id, after) = isAvailable reading stored (id, before))
      (w.key? id) ((select (.ofStore reading secondsUntilNextMidnight stored) w clientId
        provider).world.key? id) := by
  have hscheduling :=
    select_scheduling (.ofStore reading secondsUntilNextMidnight stored) w clientId provider id
  cases hafter :
    (select (.ofStore reading secondsUntilNextMidnight stored) w clientId provider).world.key?
      id with
  | none =>
    rw [hafter] at hscheduling
    generalize w.key? id = before at hscheduling ⊢
    cases hscheduling
    exact .none
  | some after =>
    obtain ⟨before, hbefore, hcases⟩ := select_key? hafter
    rw [hbefore]
    refine .some ?_
    rcases hcases with rfl | ⟨verdict, hexamines⟩
    · rfl
    · exact hexamines.isAvailable_eq

theorem select_rrIndex_of_ne (env : PoolEnv) {scope : Scope}
    (hne : scope ≠ { clientId, provider }) :
    (select env w clientId provider).world.rrIndexByScope scope = w.rrIndexByScope scope := by
  rw [select]
  simp only
  split
  · rfl
  split
  · rfl
  split
  · rfl
  · rfl
  · exact Function.update_of_ne hne _ _

end Examined

/-! ### A window of calls -/

section Window

variable (clientId : Option Nat) (provider : Provider)

/-- The available keys of the scope. -/
def eligibleKeys (reading : Reading) (stored : Nat → Option Int) (w : World) : Finset Nat :=
  (((w.db.keys.select (inScope clientId provider)).filter (isAvailable reading stored)).map
     Prod.fst).toFinset

variable (eligible : Finset Nat)

/-- Calls of `select` one after the other, and what those for the scope return. At each of these the
available keys are the given ones. Between them there are calls for other scopes, and steps that
keep the keys the scope has. -/
inductive Selections : World → List (Except FcamError (Nat × ApiKey)) → World → Prop where
  | nil (w : World) : Selections w [] w
  | own {w v : World} {results : List (Except FcamError (Nat × ApiKey))} (reading : Reading)
      (secondsUntilNextMidnight : Int) (stored : Nat → Option Int)
      (heligible : eligibleKeys clientId provider reading stored w = eligible)
      (hrest : Selections
       (select (.ofStore reading secondsUntilNextMidnight stored) w clientId provider).world results
        v) :
      Selections w
        ((select (.ofStore reading secondsUntilNextMidnight stored) w clientId provider).result ::
          results) v
  | other {w v : World} {results : List (Except FcamError (Nat × ApiKey))} (env : PoolEnv)
      (scope : Scope) (hscope : scope ≠ { clientId, provider })
      (hrest : Selections (select env w scope.clientId scope.provider).world results v) :
      Selections w results v
  | elsewhere {w u v : World} {results : List (Except FcamError (Nat × ApiKey))}
      (hkeys : keyIds u clientId provider = keyIds w clientId provider)
      (hindex : u.rrIndexByScope { clientId, provider } = w.rrIndexByScope { clientId, provider })
      (hrest : Selections u results v) : Selections w results v

/-- The eligible keys in the order the scope comes to them. -/
def turnOrder (w : World) : List Nat := (keyOrder w clientId provider).filter (· ∈ eligible)

end Window

section Window

variable {clientId : Option Nat} {provider : Provider} {eligible : Finset Nat} {w v : World}

theorem mem_eligibleKeys {reading : Reading} {stored : Nat → Option Int} {id : Nat} :
    id ∈ eligibleKeys clientId provider reading stored w ↔
      ∃ key, w.key? id = some key ∧ inScope clientId provider key = true ∧
        isAvailable reading stored (id, key) = true := by
  rw [eligibleKeys, List.mem_toFinset, List.mem_map]
  constructor
  · rintro ⟨row, hrow, rfl⟩
    obtain ⟨hmem, havailable⟩ := List.mem_filter.mp hrow
    obtain ⟨hkey, hscope⟩ := Table.mem_select.mp hmem
    exact ⟨row.2, hkey, hscope, havailable⟩
  · rintro ⟨key, hkey, hscope, havailable⟩
    exact ⟨(id, key), List.mem_filter.mpr ⟨Table.mem_select.mpr ⟨hkey, hscope⟩, havailable⟩, rfl⟩

theorem turnOrder_congr {u : World}
    (hkeys : keyIds u clientId provider = keyIds w clientId provider)
    (hindex : u.rrIndexByScope { clientId, provider } = w.rrIndexByScope { clientId, provider }) :
    turnOrder clientId provider eligible u = turnOrder clientId provider eligible w := by
  rw [turnOrder, turnOrder, keyOrder, keyOrder, hkeys, hindex]

/-- A call returns the eligible key whose turn it is, and it is the last to have another. -/
theorem select_turn {reading : Reading} {stored : Nat → Option Int} {first : Nat} {rest : List Nat}
    (heligible : eligibleKeys clientId provider reading stored w = eligible)
    (hturn : turnOrder clientId provider eligible w = first :: rest)
    (secondsUntilNextMidnight : Int) :
    let selection := select (.ofStore reading secondsUntilNextMidnight stored) w clientId provider
    selection.result.map Prod.fst = .ok first ∧
      turnOrder clientId provider eligible selection.world = rest ++ [first] := by
  intro selection
  have hiff :
      ∀ id, id ∈ eligible ↔ ∃ key, w.key? id = some key ∧ inScope clientId provider key = true ∧
        isAvailable reading stored (id, key) = true := by
    intro id
    rw [← heligible]
    exact mem_eligibleKeys
  have hmem : first ∈ eligible := by
    have hfilter : first ∈ turnOrder clientId provider _ w := hturn ▸ List.mem_cons_self
    exact of_decide_eq_true (List.mem_filter.mp hfilter).2
  obtain ⟨key, hkey, hscope, havailable⟩ := (hiff first).mp hmem
  have hstored : (first, key) ∈ w.db.keys.select (inScope clientId provider) :=
    Table.mem_select.mpr ⟨hkey, hscope⟩
  obtain ⟨id, row, hresult⟩ : ∃ id row, selection.result = .ok (id, row) :=
    select_isOk hstored havailable
  obtain ⟨passed, behind, key', horder, hafter, hkey', hexamine, _, hpassed⟩ := select_order hresult
  -- The keys that were passed over are not eligible, and the one that was returned is.
  have hnot : ∀ other ∈ passed, decide (other ∈ eligible) = false := by
    intro other hother
    obtain ⟨before, verdict, after, hbefore, hverdict, hne⟩ := hpassed other hother
    refine decide_eq_false fun hin => hne ?_
    obtain ⟨before', hbefore', _, havailable'⟩ := (hiff other).mp hin
    obtain rfl := Option.some.inj (hbefore'.symm.trans hbefore)
    obtain ⟨read, hread, _⟩ :
        ∃ read, examine (.ofStore reading secondsUntilNextMidnight stored) other before' =
          .ok (verdictOf reading stored (other, before'), read) ∧ _ :=
            examine_ofStore (other, before')
    rw [hverdict] at hread
    rw [(Prod.mk.inj (Except.ok.inj hread)).1]
    exact verdictOf_eq_eligible.mpr havailable'
  have hin : decide (id ∈ eligible) = true := by
    obtain ⟨row', hrow', rfl, havailable'⟩ := select_ok_available hresult
    exact decide_eq_true ((hiff row'.1).mpr
      ⟨row'.2, (Table.mem_select.mp hrow').1, (Table.mem_select.mp hrow').2, havailable'⟩)
  obtain ⟨hbefore, hnext⟩ :
      (passed ++ id :: behind).filter (· ∈ eligible) = id :: behind.filter (· ∈ eligible) ∧ _ :=
    filter_of_picked hnot hin
  rw [turnOrder, horder, hbefore] at hturn
  obtain ⟨rfl, rfl⟩ := List.cons.inj hturn
  refine ⟨by rw [hresult]; rfl, ?_⟩
  have hkeys :=
    (select_sameScopes (.ofStore reading secondsUntilNextMidnight stored) w clientId
     provider).keyIds_eq
    clientId provider
  rw [turnOrder, keyOrder, ← hkeys, hafter, hnext]

/-- A call, for whichever scope, leaves the same keys eligible. -/
theorem select_eligibleKeys (reading : Reading) (secondsUntilNextMidnight : Int)
    (stored : Nat → Option Int) (w : World) (scope : Scope) :
    eligibleKeys clientId provider reading stored
        (select (.ofStore reading secondsUntilNextMidnight stored) w scope.clientId
          scope.provider).world =
      eligibleKeys clientId provider reading stored w := by
  refine Finset.ext fun id => ?_
  rw [mem_eligibleKeys, mem_eligibleKeys]
  have hscopes :=
    select_sameScopes (.ofStore reading secondsUntilNextMidnight stored) w scope.clientId
      scope.provider id
  have havailable : Option.Rel _ (w.key? id)
      ((select (.ofStore reading secondsUntilNextMidnight stored) w scope.clientId
        scope.provider).world.key? id) :=
    select_isAvailable_eq id
  generalize w.key? id = before at hscopes havailable ⊢
  generalize World.key? _ id = after at hscopes havailable ⊢
  cases hscopes with
  | none => rfl
  | some hscopes =>
    next key row =>
    obtain ⟨hclient, hprovider⟩ := hscopes
    cases havailable with
    | some havailable =>
      have hsame : inScope clientId provider row = inScope clientId provider key := by
        rw [inScope, inScope, hclient, hprovider]
      simp only [Option.some.injEq, exists_eq_left', hsame, havailable]

/-- So a run returns the eligible keys in order, until each had its turn. -/
theorem Selections.results_eq {results : List (Except FcamError (Nat × ApiKey))}
    (hrun : Selections clientId provider eligible w results v)
    (hwindow : results.length ≤ (turnOrder clientId provider eligible w).length) :
    results.map (·.map Prod.fst) =
      ((turnOrder clientId provider eligible w).take results.length).map .ok := by
  induction hrun with
  | nil w => rfl
  | own reading secondsUntilNextMidnight stored heligible hrest ih =>
    next w v results =>
    cases hturn : turnOrder clientId provider eligible w with
    | nil =>
      rw [hturn] at hwindow
      exact absurd hwindow (Nat.not_succ_le_zero _)
    | cons first rest =>
      have hstep := select_turn heligible hturn
      obtain ⟨hfirst, hnext⟩ := hstep secondsUntilNextMidnight
      have hshort : results.length ≤ rest.length := by
        rw [hturn, List.length_cons, List.length_cons] at hwindow
        omega
      rw [hnext, List.length_append, List.take_append_of_le_length hshort] at ih
      rw [List.map_cons, hfirst, List.length_cons, List.take_succ_cons, List.map_cons,
        ih (by omega)]
  | other env scope hscope hrest ih =>
    next w v results =>
    have hkeys :=
      (select_sameScopes env w scope.clientId scope.provider).keyIds_eq clientId provider
    rw [turnOrder_congr hkeys.symm (select_rrIndex_of_ne env hscope.symm)] at ih
    exact ih hwindow
  | elsewhere hkeys hindex hrest ih =>
    rw [turnOrder_congr hkeys hindex] at ih
    exact ih hwindow

/-- While one call is made for the scope the eligible keys are keys of it. -/
theorem Selections.length_turnOrder {results : List (Except FcamError (Nat × ApiKey))}
    (hrun : Selections clientId provider eligible w results v) (hresults : results ≠ []) :
    (turnOrder clientId provider eligible w).length = eligible.card := by
  induction hrun with
  | nil w => exact absurd rfl hresults
  | own reading secondsUntilNextMidnight stored heligible hrest ih =>
    next w v results =>
    have hnodup : (turnOrder clientId provider eligible w).Nodup :=
      (keyOrder_nodup w clientId provider).filter _
    rw [← List.toFinset_card_of_nodup hnodup]
    refine congrArg Finset.card (Finset.ext fun id => ?_)
    rw [List.mem_toFinset, turnOrder, List.mem_filter, decide_eq_true_eq]
    refine ⟨And.right, fun hmem => ⟨?_, hmem⟩⟩
    rw [← heligible] at hmem
    obtain ⟨key, hkey, hscope, _⟩ := mem_eligibleKeys.mp hmem
    exact mem_keyOrder.mpr ⟨key, hkey, hscope⟩
  | other env scope hscope hrest ih =>
    next w v results =>
    have hkeys :=
      (select_sameScopes env w scope.clientId scope.provider).keyIds_eq clientId provider
    rw [turnOrder_congr hkeys.symm (select_rrIndex_of_ne env hscope.symm)] at ih
    exact ih hresults
  | elsewhere hkeys hindex hrest ih =>
    rw [turnOrder_congr hkeys hindex] at ih
    exact ih hresults

/-- As many calls as there are eligible keys return each of them exactly once, and calls for other
scopes between them change neither the keys of the scope, nor where it goes on, nor which of its
keys are available. -/
theorem select_fair (clientId : Option Nat) (provider : Provider) :
    (∀ (eligible : Finset Nat) (w v : World) (results : List (Except FcamError (Nat × ApiKey))),
      Selections clientId provider eligible w results v → results.length = eligible.card →
        ∃ ids : List Nat, results.map (·.map Prod.fst) = ids.map .ok ∧ ids.Nodup ∧
          ∀ id, id ∈ ids ↔ id ∈ eligible) ∧
      ∀ (scope : Scope), scope ≠ { clientId, provider } →
        ∀ (reading : Reading) (secondsUntilNextMidnight : Int) (stored : Nat → Option Int)
          (w : World),
          let after :=
            (select (.ofStore reading secondsUntilNextMidnight stored) w scope.clientId
             scope.provider).world
          keyIds after clientId provider = keyIds w clientId provider ∧
            after.rrIndexByScope { clientId, provider } = w.rrIndexByScope { clientId, provider } ∧
            eligibleKeys clientId provider reading stored after = eligibleKeys clientId provider
              reading stored w := by
  refine ⟨fun eligible w v results hrun hwindow => ?_, fun scope hscope reading midnight stored w =>
    ⟨?_, ?_, ?_⟩⟩
  · by_cases hresults : results = []
    · subst hresults
      obtain rfl : eligible = ∅ := Finset.card_eq_zero.mp hwindow.symm
      exact ⟨[], rfl, List.nodup_nil, fun id => by simp⟩
    · have hlength := hrun.length_turnOrder hresults
      have hturns := hrun.results_eq (hwindow.trans hlength.symm).le
      have hnodup : (turnOrder clientId provider eligible w).Nodup :=
        (keyOrder_nodup w clientId provider).filter _
      rw [hwindow, ← hlength, List.take_length] at hturns
      refine ⟨turnOrder clientId provider eligible w, hturns, hnodup, fun id => ?_⟩
      have hsub : (turnOrder clientId provider eligible w).toFinset ⊆ eligible := by
        intro id hid
        exact of_decide_eq_true (List.mem_filter.mp (List.mem_toFinset.mp hid)).2
      have hall :=
        Finset.eq_of_subset_of_card_le hsub (by rw [List.toFinset_card_of_nodup hnodup, hlength])
      rw [← hall, List.mem_toFinset, hall]
  · exact ((select_sameScopes _ w scope.clientId scope.provider).keyIds_eq clientId provider).symm
  · exact select_rrIndex_of_ne _ hscope.symm
  · exact select_eligibleKeys reading midnight stored w scope

end Window

/-- Two clients' keys, the second of them disabled, and an index left over from a larger table. -/
def sharedWorld : World where
  db :=
    { keys :=
        let key : ApiKey := { clientId := some 1, apiKeyCiphertext := [107], dailyQuota := 5 }
        (((Table.empty.insert key).insert { key with isActive := false }).insert key).insert
          { key with clientId := some 2 } }
  rrIndexByScope := fun _ => 7

/-- Two calls for a client return its two enabled keys, with a call for another client between
them. -/
theorem sharedWorld_calls_fair :
    let env := PoolEnv.ofStore ⟨0, 0⟩ 0 fun _ => none
    let first := select env sharedWorld (some 1) .firecrawl
    let between := select env first.world (some 2) .firecrawl
    let second := select env between.world (some 1) .firecrawl
    (∃ ids : List Nat, [first.result, second.result].map (·.map Prod.fst) = ids.map .ok ∧
     ids.Nodup ∧
        ∀ id, id ∈ ids ↔ id ∈ ({1, 3} : Finset Nat)) ∧
      between.world.rrIndexByScope ⟨some 1, .firecrawl⟩ = first.world.rrIndexByScope ⟨some 1,
        .firecrawl⟩ := by
  intro env first between second
  have hfair := select_fair (some 1) .firecrawl
  have hrun :
      Selections (some 1) .firecrawl {1, 3} sharedWorld [first.result,
        second.result] second.world := by
    apply Selections.own ⟨0, 0⟩ 0 _ (by decide)
    apply Selections.other env ⟨some 2, .firecrawl⟩ (by decide)
    apply Selections.own ⟨0, 0⟩ 0 _ (by decide)
    exact .nil _
  have hwindow : [first.result, second.result].length = ({1, 3} : Finset Nat).card := by simp
  have hbetween := hfair.2 ⟨some 2, .firecrawl⟩ (by decide) ⟨0, 0⟩ 0 (fun _ => none) first.world
  exact ⟨hfair.1 {1, 3} sharedWorld _ _ hrun hwindow, hbetween.2.1⟩

end Fcam
