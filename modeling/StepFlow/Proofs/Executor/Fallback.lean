import Mathlib.Data.List.Nodup
import StepFlow.Proofs.Executor.Cancellation

/-! What a pool tries when nothing answers. It goes through the providers that an order mentions, as
often as it does so, and then through the others. So everyone of the pool has its turn, but only
where no mention is repeated does nobody have a second one. -/
namespace StepFlow

variable {σ α : Type}

theorem filterMap_getElem?_range (xs : List α) : (List.range xs.length).filterMap (xs[·]?) = xs := by
  induction xs with
  | nil => rfl
  | cons x rest ih =>
      rw [List.length_cons, List.range_succ_eq_map]
      change x :: List.filterMap ((x :: rest)[·]?) ((List.range rest.length).map Nat.succ) = x :: rest
      rw [List.filterMap_map]
      exact congrArg (x :: ·) ih

/-- The members at those places of a list for which something holds that can be told from the member. -/
theorem filterMap_getElem?_filter {xs : List α} {p : Nat → Bool} {q : α → Bool}
    (h : ∀ i x, xs[i]? = some x → p i = q x) :
    ((List.range xs.length).filter p).filterMap (xs[·]?) = xs.filter q := by
  have hMember : ∀ i, (if p i = true then xs[i]? else none) = xs[i]?.filter q := by
    intro i
    cases hFound : xs[i]? with
    | none => simp
    | some x => simp [Option.filter_some, h i x hFound]
  rw [List.filterMap_filter, funext hMember, ← List.filter_filterMap, filterMap_getElem?_range]

theorem nodup_eraseDups [BEq α] [LawfulBEq α] (xs : List α) : xs.eraseDups.Nodup := by
  match xs with
  | [] => simp
  | x :: rest =>
      rw [List.eraseDups_cons, List.nodup_cons, List.mem_eraseDups]
      exact ⟨by simp, nodup_eraseDups _⟩
termination_by xs.length
decreasing_by exact Nat.lt_succ_of_le (List.length_filter_le _ _)

theorem eraseDups_of_nodup [BEq α] [LawfulBEq α] {xs : List α} (h : xs.Nodup) :
    xs.eraseDups = xs := by
  induction xs with
  | nil => simp
  | cons x rest ih =>
      obtain ⟨hNew, hRest⟩ := List.nodup_cons.mp h
      have hOthers : (rest.filter fun y => !y == x) = rest := by
        rw [List.filter_eq_self]
        intro y hMem
        have hDiffers : y ≠ x := fun hSame => hNew (hSame ▸ hMem)
        simpa using hDiffers
      rw [List.eraseDups_cons, hOthers, ih hRest]

namespace Provider

/-- The names of a pool that an order mentions, as often as it does so. -/
def mentioned (names : List String) (order : List Value) : List String :=
  order.filterMap fun v =>
    match v with
    | .text name => if name ∈ names then some name else none
    | _ => none

/-- The names of a pool that an order does not mention. -/
def unmentioned (names : List String) (order : List Value) : List String :=
  names.filter fun name => name ∉ mentioned names order

/-- The names of a pool in the order in which they have a turn when nothing answers. -/
def turns (names : List String) (order : List Value) : List String :=
  mentioned names order ++ unmentioned names order

section Names

variable {names : List String} {order : List Value} {name : String} {place : Nat}

theorem mem_of_mem_mentioned (h : name ∈ mentioned names order) : name ∈ names := by
  obtain ⟨v, -, hFound⟩ := List.mem_filterMap.mp h
  split at hFound
  · split at hFound
    · rename_i hMem
      cases hFound
      exact hMem
    · cases hFound
  · cases hFound

theorem mem_unmentioned_iff :
    name ∈ unmentioned names order ↔ name ∈ names ∧ name ∉ mentioned names order := by
  unfold unmentioned
  rw [List.mem_filter, decide_eq_true_iff]

theorem nodup_unmentioned (hNames : names.Nodup) : (unmentioned names order).Nodup :=
  hNames.filter _

theorem mem_turns_iff : name ∈ turns names order ↔ name ∈ names := by
  unfold turns
  rw [List.mem_append, mem_unmentioned_iff]
  constructor
  · rintro (hMentioned | ⟨hMem, -⟩)
    · exact mem_of_mem_mentioned hMentioned
    · exact hMem
  · intro hMem
    by_cases hMentioned : name ∈ mentioned names order
    · exact .inl hMentioned
    · exact .inr ⟨hMem, hMentioned⟩

/-- Without what is repeated, the turns are those of the mentioned names in the order of their first
mention, and then those of the others. -/
theorem eraseDups_turns (hNames : names.Nodup) : (turns names order).eraseDups =
    (mentioned names order).eraseDups ++ unmentioned names order := by
  have hOthers : (unmentioned names order).removeAll (mentioned names order) =
      unmentioned names order := by
    unfold List.removeAll
    rw [List.filter_eq_self]
    intro name hMem
    simpa using (mem_unmentioned_iff.mp hMem).2
  unfold turns
  rw [List.eraseDups_append, hOthers, eraseDups_of_nodup (nodup_unmentioned hNames)]

theorem perm_eraseDups_turns (hNames : names.Nodup) : (turns names order).eraseDups.Perm names := by
  rw [List.perm_ext_iff_of_nodup (nodup_eraseDups _) hNames]
  intro name
  rw [List.mem_eraseDups, mem_turns_iff]

/-- Everyone has one turn exactly when no mention is repeated. -/
theorem perm_turns_iff (hNames : names.Nodup) :
    (turns names order).Perm names ↔ (mentioned names order).Nodup := by
  constructor
  · intro hPerm
    exact (List.nodup_append.mp (hPerm.nodup_iff.mpr hNames)).1
  · intro hOnce
    have hTurns : (turns names order).Nodup := by
      refine List.nodup_append.mpr ⟨hOnce, nodup_unmentioned hNames, ?_⟩
      rintro name hMentioned other hOther rfl
      exact (mem_unmentioned_iff.mp hOther).2 hMentioned
    rw [List.perm_ext_iff_of_nodup hTurns hNames]
    intro name
    exact mem_turns_iff

theorem getElem?_of_placeOf? (h : placeOf? names name = some place) : names[place]? = some name := by
  unfold placeOf? at h
  obtain ⟨i, hFound, rfl⟩ := Option.map_eq_some_iff.mp h
  obtain ⟨hBound, hName, -⟩ := List.findIdx?_eq_some_iff_getElem.mp hFound
  rw [List.length_reverse] at hBound
  rw [← List.getElem?_reverse hBound, List.getElem?_eq_getElem (by simpa using hBound)]
  simpa using hName

theorem placeOf?_eq_none_iff : placeOf? names name = none ↔ name ∉ names := by
  unfold placeOf?
  rw [Option.map_eq_none_iff, List.findIdx?_eq_none_iff]
  simp only [List.mem_reverse, decide_eq_false_iff_not]
  exact ⟨fun hNone hMem => hNone name hMem rfl, fun hNone other hMem hSame => hNone (hSame ▸ hMem)⟩

theorem filterMap_ranked : (ranked names order).filterMap (names[·]?) = mentioned names order := by
  unfold ranked mentioned
  rw [List.filterMap_filterMap]
  congr 1
  funext v
  cases v with
  | text name =>
      cases hFound : placeOf? names name with
      | none => simp [hFound, placeOf?_eq_none_iff.mp hFound]
      | some place =>
          have hPlace := getElem?_of_placeOf? hFound
          simp [hFound, hPlace, List.mem_of_getElem? hPlace]
  | _ => rfl

/-- A name is mentioned where a provider of its own is ranked. -/
theorem mem_mentioned_iff :
    name ∈ mentioned names order ↔ ∃ place ∈ ranked names order, names[place]? = some name := by
  rw [← filterMap_ranked, List.mem_filterMap]

/-- Where names tell providers apart, those at the places that are tried are the ones of the names
that have a turn. -/
theorem filterMap_ordered {labels : List (String × Nat)} (hNames : (labels.map Prod.fst).Nodup) :
    (ordered labels order).filterMap ((labels.map Prod.fst)[·]?) =
      turns (labels.map Prod.fst) order := by
  unfold ordered turns
  rw [List.filterMap_append, filterMap_ranked]
  refine congrArg (mentioned (labels.map Prod.fst) order ++ ·) ?_
  rw [← List.length_map (f := Prod.fst)]
  refine filterMap_getElem?_filter fun place name hPlace => ?_
  rw [Bool.eq_iff_iff, List.all_eq_true, decide_eq_true_iff, mem_mentioned_iff]
  constructor
  · rintro hOthers ⟨other, hRanked, hSame⟩
    have hBound := (List.getElem?_eq_some_iff.mp hSame).1
    have hOwn : other = place := (List.getElem?_inj hBound hNames).mp (hSame.trans hPlace.symm)
    simpa [hOwn] using hOthers other hRanked
  · intro hNot other hRanked
    refine decide_eq_true fun hSame => hNot ⟨other, hRanked, ?_⟩
    rw [← hPlace, List.getElem?_map, List.getElem?_map, hSame]

end Names

variable {pool : List (Provider σ)} {order : List Value} {messages : List Message}
  {config : ProviderConfig}

/-- A provider answers to nothing that it is asked, but fails with a fault. -/
def Fails (messages : List Message) (config : ProviderConfig) (p : Provider σ) : Prop :=
  ∀ w, ∃ fault, ((p.complete messages config).perform w).1 = .error (.fault fault)

/-- What is noted of providers that have their turn one after the other. -/
def begun (names : List String) : List Moment := names.map fun name => .began (.provider name)

/-- The attempt at a provider that fails comes to its fault, and it has begun. -/
theorem notes_attempt {p : Provider σ} (hFails : p.Fails messages config) :
    Act.Notes (Act.attempt (p.tracked.complete messages config))
      (Act.attempt (p.complete messages config))
      fun outcome more => (∃ fault, outcome = .ok (.error fault)) ∧ more = begun [p.name] := by
  intro w
  obtain ⟨more, hPerform, hMore⟩ :=
    (Act.Notes.tracked_aside (.provider p.name) (p.complete messages config)).attempt w
  obtain ⟨fault, hFault⟩ := hFails w.1
  have hOutcome : ((Act.attempt (p.complete messages config)).perform w.1).1 =
      .ok (.error fault) := by
    rw [Act.perform_attempt_eq]
    rcases hAct : (p.complete messages config).perform w.1 with ⟨outcome, world⟩
    rw [hAct] at hFault
    cases hFault
    rfl
  rw [hOutcome] at hMore
  exact ⟨more, hPerform, ⟨fault, hOutcome⟩, hMore⟩

/-- Where all providers fail, each has its turn, and what comes of it is a fault. -/
theorem notes_tryAll {ps : List (Provider σ)} (hFails : ∀ p ∈ ps, p.Fails messages config)
    (last : Fault) :
    Act.Notes (tryAll messages config last (ps.map tracked)) (tryAll messages config last ps)
      fun outcome more =>
        (∃ fault, outcome = .error (.fault fault)) ∧ more = begun (ps.map name) := by
  induction ps generalizing last with
  | nil =>
      exact Act.Notes.ofExcept (r := .error last) ⟨⟨last, rfl⟩, rfl⟩
  | cons p ps ih =>
      apply (notes_attempt (hFails p List.mem_cons_self)).bind
      · rintro why more ⟨⟨fault, hFault⟩, -⟩
        cases hFault
      · rintro answer more ⟨⟨fault, hFault⟩, rfl⟩
        cases hFault
        apply (ih (fun q hMem => hFails q (List.mem_cons_of_mem p hMem)) fault).mono
        rintro outcome later ⟨hFault, rfl⟩
        exact ⟨hFault, rfl⟩

variable {call : ModelCall}

/-- A call whose messages and order can be read goes through the providers at the places to try. -/
theorem callPool_eq (hMessages : conversation call = .ok messages)
    (hOrder : call.providerOrder.settingElements = .ok order) (pool : List (Provider σ)) :
    callPool pool call = tryAll messages (.ofCall call) (.raised "No LLM provider available")
      ((ordered (pool.map label) order).filterMap fun place => pool[place]?) := by
  unfold callPool
  rw [hMessages, hOrder]
  rfl

theorem names_of_labels (pool : List (Provider σ)) : (pool.map label).map Prod.fst = pool.map name := by
  rw [List.map_map]
  rfl

/-- The providers at the places to try are those of the names that have a turn. -/
theorem names_at_ordered (hNames : (pool.map name).Nodup) :
    ((ordered (pool.map label) order).filterMap fun place => pool[place]?).map name =
      turns (pool.map name) order := by
  rw [← names_of_labels pool] at hNames ⊢
  rw [← filterMap_ordered hNames, names_of_labels, List.map_filterMap]
  simp only [List.getElem?_map]

/-- In a call that everyone fails, those of the pool have their turns, and a fault comes of it. -/
theorem notes_callPool (hNames : (pool.map name).Nodup)
    (hMessages : conversation call = .ok messages)
    (hOrder : call.providerOrder.settingElements = .ok order)
    (hFails : ∀ p ∈ pool, p.Fails messages (.ofCall call)) :
    Act.Notes (callPool (pool.map tracked) call) (callPool pool call)
      fun outcome more => (∃ fault, outcome = .error (.fault fault)) ∧
        more = begun (turns (pool.map name) order) := by
  rw [callPool_eq hMessages hOrder, callPool_eq hMessages hOrder, labels_tracked, at_tracked,
    ← names_at_ordered hNames]
  apply notes_tryAll
  intro p hMem
  obtain ⟨place, -, hPlace⟩ := List.mem_filterMap.mp hMem
  exact hFails p (List.mem_of_getElem? hPlace)

/-- A call to a pool that nobody answers gives all of the pool a turn: those that the order mentions
as often as it does so, and then the others. Without what is repeated these are the mentioned ones in
the order of their first mention, the others in the order of the pool, and everyone once. So nobody is
tried twice exactly when no mention is repeated. -/
theorem tried_once_unless_repeated (hPool : pool ≠ []) (hNames : (pool.map name).Nodup)
    (hMessages : conversation call = .ok messages)
    (hOrder : call.providerOrder.settingElements = .ok order)
    (hFails : ∀ p ∈ pool, p.Fails messages (.ofCall call)) :
    (∃ answer noted, pooled pool = .ok answer ∧ pooled (pool.map tracked) = .ok noted ∧
        Act.Notes (noted call) (answer call) fun outcome more =>
          (∃ fault, outcome = .error (.fault fault)) ∧
            more = begun (turns (pool.map name) order)) ∧
      (turns (pool.map name) order).eraseDups =
        (mentioned (pool.map name) order).eraseDups ++ unmentioned (pool.map name) order ∧
      (turns (pool.map name) order).eraseDups.Perm (pool.map name) ∧
      ((turns (pool.map name) order).Perm (pool.map name) ↔
        (mentioned (pool.map name) order).Nodup) := by
  have hAnswer : ∀ {τ : Type} {ps : List (Provider τ)}, ps ≠ [] → pooled ps = .ok (callPool ps) := by
    intro τ ps hSome
    unfold pooled
    rw [if_neg (by simpa using hSome)]
  refine ⟨⟨_, _, hAnswer hPool, hAnswer (by simpa using hPool),
    notes_callPool hNames hMessages hOrder hFails⟩, eraseDups_turns hNames,
    perm_eraseDups_turns hNames, perm_turns_iff hNames⟩

/-- A provider that is down. -/
def down (name : String) : Provider Unit :=
  ⟨name, 0, fun _ _ => Act.fail (.raised (name ++ " is down"))⟩

/-- A call without messages that asks for an order. -/
def callInOrder (order : List Value) : ModelCall :=
  ⟨.text "m", "", [], .null, .null, none, .list order⟩

theorem fails_down (name : String) : (down name).Fails messages config := fun _ => ⟨_, rfl⟩

/-- Of two providers that are down the mentioned one has its turn first. -/
theorem down_tried_once : ∃ answer noted, pooled [down "a", down "b"] = .ok answer ∧
    pooled ([down "a", down "b"].map tracked) = .ok noted ∧
    Act.Notes (noted (callInOrder [.text "b", .int 1, .text "c"]))
      (answer (callInOrder [.text "b", .int 1, .text "c"])) fun outcome more =>
        (∃ fault, outcome = .error (.fault fault)) ∧ more = begun ["b", "a"] := by
  have hFails : ∀ p ∈ [down "a", down "b"],
      p.Fails [] (.ofCall (callInOrder [.text "b", .int 1, .text "c"])) := by
    intro p hMem
    rcases List.mem_pair.mp hMem with rfl | rfl
    · exact fails_down "a"
    · exact fails_down "b"
  exact (tried_once_unless_repeated (by simp) (by decide) rfl rfl hFails).1

/-- A provider that is mentioned twice is tried twice. -/
theorem repeated_mention_tried_twice :
    ((callPool ([down "a", down "b"].map tracked) (callInOrder [.text "a", .text "a"])).perform
      ((), [])).2.2 = begun ["a", "a", "b"] ∧ ¬ ["a", "a", "b"].Perm ["a", "b"] :=
  ⟨rfl, by decide⟩

end Provider

end StepFlow
