import StepFlow.Proofs.Flow.Audit

/-! What an audit tells of the targets of routers. The settings of a router are free data, and there
are three obstacles in them that break an audit off. Without them it comes to a list of issues, and
every target that is no step has its issue there. -/
namespace StepFlow

namespace Flow

/-- What a router chooses from: branches where a model does so, routes where conditions do. -/
def listing (config : Table Value) : Value :=
  Value.field config (if routesByModel config then "branches" else "routes")

/-- The name under which the target of something listed is given. -/
def targetName (config : Table Value) : String := if routesByModel config then "id" else "target"

/-- The settings of a router name a target: with something listed, or as the default where conditions
choose. What counts as left out is none. -/
inductive Names (config : Table Value) (target : Value) : Prop where
  | listed {vs : List Value} {v : Value} {fields : Table Value}
    (hListing : (listing config).settingElements = .ok vs) (hMem : v ∈ vs)
    (hFields : v.fields? = some fields) (hTarget : Value.field fields (targetName config) = target)
    (hGiven : target.isVoid = false)
  | fallback (hMode : routesByModel config = false)
    (hTarget : Value.field config "defaultTarget" = target) (hGiven : target.isVoid = false)

/-- What breaks an audit off at the settings of a router: a listing that cannot be gone through, a
target that no set can hold, or one that is an integer of too many digits for a message. -/
inductive Obstacle (config : Table Value) : Fault → Prop where
  | listing {fault : Fault} (h : (listing config).settingElements = .error fault) :
    Obstacle config fault
  | unhashable {target : Value} (hNames : Names config target) (h : target.isHashable = false) :
    Obstacle config (.unhashable target.kind)
  | unwritable {n : Int} (hNames : Names config (.int n))
    (h : Number.digitLimit < (Nat.toDigits 10 n.natAbs).length) : Obstacle config .integerTooLong

/-- The issue of a target that is no step. -/
def unknownBranch (stepId : String) (target : Value) : Issue :=
  ⟨"unknown_branch", "Branch target \"" ++ target.shown ++ "\" does not exist", some stepId⟩

variable {config : Table Value} {ids : List String} {stepId : String} {target : Value}

theorem givenIn?_eq_some_iff {name : String} {v : Value} :
    givenIn? name v = some target ↔
      ∃ fields, v.fields? = some fields ∧ Value.field fields name = target ∧ target.isVoid = false := by
  unfold givenIn?
  cases v.fields? with
  | none => simp
  | some fields =>
      simp only [Option.bind_eq_bind, Option.bind_some, Option.some.injEq, exists_eq_left']
      constructor
      · intro h
        split at h
        · cases h
        · rename_i hGiven
          cases h
          exact ⟨rfl, Bool.eq_false_iff.mpr hGiven⟩
      · rintro ⟨rfl, hGiven⟩
        simp [hGiven]

theorem routerTargets_eq (config : Table Value) : routerTargets config = do
    let listed ← (listing config).settingElements
    return listed.filterMap (givenIn? (targetName config)) ++
      if routesByModel config then [] else (givenIn? "defaultTarget" (.map config)).toList := by
  unfold routerTargets listing targetName
  cases routesByModel config <;> simp

theorem routerTargets_eq_error_iff {fault : Fault} : routerTargets config = .error fault ↔
    (listing config).settingElements = .error fault := by
  rw [routerTargets_eq]
  cases (listing config).settingElements with
  | error e => simp [bind, Except.bind]
  | ok vs => simp [bind, Except.bind, pure, Except.pure]

/-- What is found in the settings of a router are the targets that they name. -/
theorem mem_routerTargets_iff {targets : List Value} (h : routerTargets config = .ok targets) :
    target ∈ targets ↔ Names config target := by
  rw [routerTargets_eq] at h
  obtain ⟨vs, hListing, h⟩ := exists_of_bind_eq_ok h
  cases h
  rw [List.mem_append, List.mem_filterMap]
  constructor
  · rintro (⟨v, hMem, hGiven⟩ | hFallback)
    · obtain ⟨fields, hFields, hTarget, hGiven⟩ := givenIn?_eq_some_iff.mp hGiven
      exact .listed hListing hMem hFields hTarget hGiven
    · split at hFallback
      · cases hFallback
      · rename_i hMode
        obtain ⟨fields, hFields, hTarget, hGiven⟩ :=
          givenIn?_eq_some_iff.mp (Option.mem_toList.mp hFallback)
        cases hFields
        exact .fallback (Bool.eq_false_iff.mpr hMode) hTarget hGiven
  · rintro (⟨hOwn, hMem, hFields, hTarget, hGiven⟩ | ⟨hMode, hTarget, hGiven⟩)
    · cases hListing.symm.trans hOwn
      exact .inl ⟨_, hMem, givenIn?_eq_some_iff.mpr ⟨_, hFields, hTarget, hGiven⟩⟩
    · refine .inr ?_
      rw [hMode]
      exact Option.mem_toList.mpr (givenIn?_eq_some_iff.mpr ⟨config, rfl, hTarget, hGiven⟩)

/-- Of what a set can hold, only integers of too many digits cannot be written. -/
theorem exists_int_of_unwritable (hHashable : target.isHashable = true)
    (h : target.isWritable = false) :
    ∃ n, target = .int n ∧ Number.digitLimit < (Nat.toDigits 10 n.natAbs).length := by
  cases target with
  | int n =>
      refine ⟨n, rfl, Nat.lt_of_not_le fun hFew => ?_⟩
      cases h.symm.trans (Value.isWritable_int_iff.mpr hFew)
  | list items => cases hHashable
  | set members => cases hHashable
  | map fields => cases hHashable
  | keyed entries => cases hHashable
  | _ => simp [Value.isWritable] at h

theorem branchIssue_eq (ids : List String) (stepId : String) (target : Value) :
    branchIssue ids stepId target =
      if target.isHashable = false then .error (.unhashable target.kind)
      else if target.isOneOf ids then .ok []
      else if target.isWritable then .ok [unknownBranch stepId target]
      else .error .integerTooLong := by
  unfold branchIssue Value.hashed Value.display unknownBranch
  cases hHashable : target.isHashable with
  | false => rfl
  | true =>
      cases hListed : target.isOneOf ids with
      | true => simp [hListed, bind, Except.bind, pure, Except.pure]
      | false =>
          cases hWritable : target.isWritable <;>
            simp [hListed, hWritable, bind, Except.bind, pure, Except.pure]

theorem branchIssue_eq_error {fault : Fault} (hNames : Names config target)
    (h : branchIssue ids stepId target = .error fault) : Obstacle config fault := by
  rw [branchIssue_eq] at h
  split at h
  · rename_i hList
    cases h
    exact .unhashable hNames hList
  · rename_i hHashable
    split at h
    · cases h
    · split at h
      · cases h
      · rename_i hUnwritable
        cases h
        obtain ⟨n, rfl, hDigits⟩ := exists_int_of_unwritable (by simpa using hHashable)
          (Bool.eq_false_iff.mpr hUnwritable)
        exact .unwritable hNames hDigits

theorem exists_branchIssue_eq_error (h : target.isHashable = false ∨ ∃ n, target = .int n ∧
    Number.digitLimit < (Nat.toDigits 10 n.natAbs).length) :
    ∃ fault, branchIssue ids stepId target = .error fault := by
  rw [branchIssue_eq]
  rcases h with hList | ⟨n, rfl, hDigits⟩
  · exact ⟨_, if_pos hList⟩
  · have hUnwritable : (Value.int n).isWritable = false := by
      rw [← Bool.not_eq_true, Value.isWritable_int_iff]
      exact Nat.not_le_of_lt hDigits
    refine ⟨.integerTooLong, ?_⟩
    simp [Value.isHashable, Value.isOneOf, hUnwritable]

theorem mem_branchIssue {found : List Issue} {i : Issue}
    (h : branchIssue ids stepId target = .ok found) :
    i ∈ found ↔ (∀ id ∈ ids, target ≠ .text id) ∧ i = unknownBranch stepId target := by
  have hListed : target.isOneOf ids = false ↔ ∀ id ∈ ids, target ≠ .text id := by
    rw [← Bool.not_eq_true, Value.isOneOf_iff]
    simp
  rw [branchIssue_eq] at h
  rw [← hListed]
  split at h
  · cases h
  · split at h
    · rename_i hStep
      cases h
      simp [hStep]
    · rename_i hOther
      split at h
      · cases h
        simp [hOther]
      · cases h

section Steps

variable {f : Flow} {types : List String} {s : Step}

/-- The branches of a router break an audit off by an obstacle in its settings. -/
theorem obstacle_of_branchIssues {fault : Fault} (h : branchIssues ids s = .error fault) :
    s.type = routerType ∧ Obstacle s.config fault := by
  unfold branchIssues at h
  split at h
  · rename_i hRouter
    refine ⟨hRouter, ?_⟩
    obtain hTargets | ⟨targets, hTargets, h⟩ := or_exists_of_bind_eq_error h
    · exact .listing (routerTargets_eq_error_iff.mp hTargets)
    · obtain hEach | ⟨parts, -, h⟩ := or_exists_of_bind_eq_error h
      · obtain ⟨target, hMem, hFailed⟩ := exists_of_mapM_eq_error hEach
        exact branchIssue_eq_error ((mem_routerTargets_iff hTargets).mp hMem) hFailed
      · cases h
  · cases h

/-- Where the branches of a router are looked at, there is no obstacle in its settings. -/
theorem not_obstacle_of_branchIssues {found : List Issue} (h : branchIssues ids s = .ok found)
    (hRouter : s.type = routerType) (fault : Fault) : ¬ Obstacle s.config fault := by
  unfold branchIssues at h
  rw [if_pos hRouter] at h
  obtain ⟨targets, hTargets, h⟩ := exists_of_bind_eq_ok h
  obtain ⟨parts, hEach, -⟩ := exists_of_bind_eq_ok h
  have hNamed : ∀ {target}, Names s.config target →
      ¬ ∃ fault, branchIssue ids s.id target = .error fault := by
    rintro target hNames ⟨fault, hFailed⟩
    obtain ⟨part, hPart⟩ := exists_of_mapM_eq_ok hEach ((mem_routerTargets_iff hTargets).mpr hNames)
    cases hPart.symm.trans hFailed
  rintro (hListing | ⟨hNames, hList⟩ | ⟨hNames, hDigits⟩)
  · cases hTargets.symm.trans (routerTargets_eq_error_iff.mpr hListing)
  · exact hNamed hNames (exists_branchIssue_eq_error (.inl hList))
  · exact hNamed hNames (exists_branchIssue_eq_error (.inr ⟨_, rfl, hDigits⟩))

theorem mem_branchIssues {found : List Issue} {i : Issue} (h : branchIssues ids s = .ok found) :
    i ∈ found ↔ s.type = routerType ∧ ∃ target, Names s.config target ∧
      (∀ id ∈ ids, target ≠ .text id) ∧ i = unknownBranch s.id target := by
  unfold branchIssues at h
  split at h
  · rename_i hRouter
    obtain ⟨targets, hTargets, h⟩ := exists_of_bind_eq_ok h
    obtain ⟨parts, hEach, h⟩ := exists_of_bind_eq_ok h
    cases h
    rw [mem_flatten_of_mapM hEach]
    constructor
    · rintro ⟨target, hMem, part, hPart, hIssue⟩
      exact ⟨hRouter, target, (mem_routerTargets_iff hTargets).mp hMem,
        (mem_branchIssue hPart).mp hIssue⟩
    · rintro ⟨-, target, hNames, hIssue⟩
      have hMem := (mem_routerTargets_iff hTargets).mpr hNames
      obtain ⟨part, hPart⟩ := exists_of_mapM_eq_ok hEach hMem
      exact ⟨target, hMem, part, hPart, (mem_branchIssue hPart).mpr hIssue⟩
  · rename_i hOther
    cases h
    simp [hOther]

theorem code_of_mem_duplicateIssues {i : Issue} (h : i ∈ duplicateIssues ids) :
    i.code = "duplicate_step" := by
  obtain ⟨id, -, hIssue⟩ := List.mem_filterMap.mp h
  simp only [Option.ite_none_right_eq_some, Option.some.injEq] at hIssue
  obtain ⟨-, rfl⟩ := hIssue
  rfl

theorem code_of_mem_entryIssues {i : Issue} (h : i ∈ f.entryIssues) :
    i.code = "unknown_entry_point" := by
  unfold entryIssues at h
  split at h
  · split at h
    · cases h
    · rw [List.mem_singleton.mp h]
  · cases h

theorem code_of_mem_typeIssues {i : Issue} (h : i ∈ typeIssues types s) : i.code = "unknown_type" := by
  unfold typeIssues at h
  split at h
  · cases h
  · rw [List.mem_singleton.mp h]

theorem code_of_mem_edgeIssues {i : Issue} (h : i ∈ edgeIssues ids s) : i.code = "unknown_next" := by
  obtain ⟨id, -, hIssue⟩ := List.mem_filterMap.mp h
  simp only [Option.ite_none_left_eq_some, Option.some.injEq] at hIssue
  obtain ⟨-, rfl⟩ := hIssue
  rfl

theorem exists_branchIssues_of_stepIssues {found : List Issue} (h : stepIssues types ids s = .ok found) :
    ∃ branches, branchIssues ids s = .ok branches ∧
      found = typeIssues types s ++ edgeIssues ids s ++ branches := by
  obtain ⟨branches, hBranches, h⟩ := exists_of_bind_eq_ok h
  exact ⟨branches, hBranches, (Except.ok.inj h).symm⟩

theorem obstacle_of_stepIssues {fault : Fault} (h : stepIssues types ids s = .error fault) :
    s.type = routerType ∧ Obstacle s.config fault := by
  obtain hBranches | ⟨branches, -, h⟩ := or_exists_of_bind_eq_error h
  · exact obstacle_of_branchIssues hBranches
  · cases h

theorem mem_stepIssues {found : List Issue} {i : Issue} (h : stepIssues types ids s = .ok found)
    (hCode : i.code = "unknown_branch") :
    i ∈ found ↔ s.type = routerType ∧ ∃ target, Names s.config target ∧
      (∀ id ∈ ids, target ≠ .text id) ∧ i = unknownBranch s.id target := by
  obtain ⟨branches, hBranches, rfl⟩ := exists_branchIssues_of_stepIssues h
  have hType : i ∉ typeIssues types s := by
    intro hMem
    exact absurd (hCode.symm.trans (code_of_mem_typeIssues hMem)) (by decide)
  have hEdge : i ∉ edgeIssues ids s := by
    intro hMem
    exact absurd (hCode.symm.trans (code_of_mem_edgeIssues hMem)) (by decide)
  rw [← mem_branchIssues hBranches]
  simp [hType, hEdge]

theorem obstacle_of_audit {fault : Fault} (h : f.audit types = .error fault) :
    ∃ s ∈ f.steps, s.type = routerType ∧ Obstacle s.config fault := by
  obtain hEach | ⟨perStep, -, h⟩ := or_exists_of_bind_eq_error h
  · obtain ⟨s, hStep, hFailed⟩ := exists_of_mapM_eq_error hEach
    exact ⟨s, hStep, obstacle_of_stepIssues hFailed⟩
  · cases h

theorem not_obstacle_of_audit {issues : List Issue} (h : f.audit types = .ok issues)
    (hStep : s ∈ f.steps) (hRouter : s.type = routerType) (fault : Fault) :
    ¬ Obstacle s.config fault := by
  obtain ⟨perStep, hEach, -⟩ := exists_of_bind_eq_ok h
  obtain ⟨found, hFound⟩ := exists_of_mapM_eq_ok hEach hStep
  obtain ⟨branches, hBranches, -⟩ := exists_branchIssues_of_stepIssues hFound
  exact not_obstacle_of_branchIssues hBranches hRouter fault

/-- The unknown branches that an audit tells of are found at the steps. -/
theorem mem_audit {issues : List Issue} {i : Issue} (h : f.audit types = .ok issues)
    (hCode : i.code = "unknown_branch") :
    i ∈ issues ↔ ∃ s ∈ f.steps, ∃ found, stepIssues types f.stepIds s = .ok found ∧ i ∈ found := by
  obtain ⟨perStep, hEach, h⟩ := exists_of_bind_eq_ok h
  cases h
  have hDuplicate : i ∉ duplicateIssues f.stepIds := by
    intro hMem
    exact absurd (hCode.symm.trans (code_of_mem_duplicateIssues hMem)) (by decide)
  have hEntry : i ∉ f.entryIssues := by
    intro hMem
    exact absurd (hCode.symm.trans (code_of_mem_entryIssues hMem)) (by decide)
  rw [← mem_flatten_of_mapM hEach]
  simp only [List.mem_append, hDuplicate, hEntry, false_or]

/-- An audit comes to a list of issues unless there is an obstacle in the settings of a router, which
it then fails on. In the list there are, with the code of unknown branches, the issues of just those
targets of routers that are no ids of steps. -/
theorem targets_reported_unless_obstacle (f : Flow) (types : List String) :
    ((∃ issues, f.audit types = .ok issues) ↔
        ∀ s ∈ f.steps, s.type = routerType → ∀ fault, ¬ Obstacle s.config fault) ∧
      (∀ fault, f.audit types = .error fault →
        ∃ s ∈ f.steps, s.type = routerType ∧ Obstacle s.config fault) ∧
      ∀ issues, f.audit types = .ok issues → ∀ i, i.code = "unknown_branch" →
        (i ∈ issues ↔ ∃ s ∈ f.steps, s.type = routerType ∧ ∃ target, Names s.config target ∧
          (∀ id ∈ f.stepIds, target ≠ .text id) ∧ i = unknownBranch s.id target) := by
  refine ⟨⟨?_, ?_⟩, fun fault => obstacle_of_audit, ?_⟩
  · rintro ⟨issues, hAudit⟩ s hStep hRouter fault
    exact not_obstacle_of_audit hAudit hStep hRouter fault
  · intro hNone
    cases hAudit : f.audit types with
    | ok issues => exact ⟨issues, rfl⟩
    | error fault =>
        obtain ⟨s, hStep, hRouter, hObstacle⟩ := obstacle_of_audit hAudit
        exact absurd hObstacle (hNone s hStep hRouter fault)
  · intro issues hAudit i hCode
    rw [mem_audit hAudit hCode]
    constructor
    · rintro ⟨s, hStep, found, hFound, hIssue⟩
      exact ⟨s, hStep, (mem_stepIssues hFound hCode).mp hIssue⟩
    · rintro ⟨s, hStep, hTarget⟩
      obtain ⟨perStep, hEach, -⟩ := exists_of_bind_eq_ok hAudit
      obtain ⟨found, hFound⟩ := exists_of_mapM_eq_ok hEach hStep
      exact ⟨s, hStep, found, hFound, (mem_stepIssues hFound hCode).mpr hTarget⟩

/-- A default target that is a list breaks an audit off, though it is no step. -/
theorem list_target_unaudited :
    audit ⟨[⟨"r", routerType, [("defaultTarget", .list [.text "a"])], none, none, .unset, []⟩], none⟩
      [routerType] = .error (.unhashable .list) := by
  decide

end Steps

end Flow

end StepFlow
