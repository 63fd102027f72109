import StepFlow.Budget

/-! What the checks before a step calls out have found. They find nothing exactly when the step is
permitted what it hands in, and the message of what they find tells the first of the time, the model
and the tools that is not right. -/
namespace StepFlow

/-- What a step hands in before it asks for anything: the model that it is to ask, or a value that
names none, and the tools that it is to use. -/
structure Submission where
  model : Value
  tools : List Value

/-- A value is one of the names of a list, unless the list is empty. -/
def Listed (allowed : List String) (name : Value) : Prop :=
  allowed ≠ [] → ∃ s ∈ allowed, name = .text s

namespace Budget

variable {b : Budget} {now : Float}

theorem allows_iff {allowed : List String} {name : Value} :
    allows allowed name = true ↔ Listed allowed name := by
  rw [allows, Bool.or_eq_true, List.isEmpty_iff, Value.isOneOf_iff, Listed]
  exact Decidable.or_iff_not_imp_left

/-- One check, and a next one where it finds nothing. -/
def firstOf (check next : Except Fault (Option Violation)) : Except Fault (Option Violation) :=
  match check with
  | .ok none => next
  | found => found

section

variable {check next : Except Fault (Option Violation)}

theorem firstOf_eq_none_iff :
    firstOf check next = .ok none ↔ check = .ok none ∧ next = .ok none := by
  rcases check with f | _ | v <;> simp [firstOf]

theorem firstOf_eq_some_iff {v : Violation} :
    firstOf check next = .ok (some v) ↔
      check = .ok (some v) ∨ check = .ok none ∧ next = .ok (some v) := by
  rcases check with f | _ | w <;> simp [firstOf]

end

/-- A name that must be listed, or a report of what it looks like. -/
def checkListed (allowed : List String) (name : Value) (report : String → Violation) :
    Except Fault (Option Violation) :=
  if allows allowed name then .ok none else name.display.map fun shown => some (report shown)

theorem checkListed_eq_none_iff {allowed : List String} {name : Value} {report : String → Violation} :
    checkListed allowed name report = .ok none ↔ Listed allowed name := by
  rw [← allows_iff]
  unfold checkListed
  cases allows allowed name with
  | true => simp
  | false => cases name.display <;> simp [Except.map]

theorem checkListed_eq_some_iff {allowed : List String} {name : Value} {report : String → Violation}
    {v : Violation} :
    checkListed allowed name report = .ok (some v) ↔
      ¬ Listed allowed name ∧ ∃ shown, name.display = .ok shown ∧ report shown = v := by
  rw [← allows_iff]
  unfold checkListed
  cases allows allowed name with
  | true => simp
  | false => cases name.display <;> simp [Except.map]

/-- The violation of a list of models. -/
def modelViolation (b : Budget) (model : Value) (shown : String) : Violation :=
  { type := .modelNotAllowed
    message := "Model \"" ++ shown ++ "\" is not in the allowed list: " ++
      listText b.scopes.allowedModels
    detail := [("model", model), ("allowed", .list (b.scopes.allowedModels.map .text))] }

def toolViolation (b : Budget) (tool : Value) (shown : String) : Violation :=
  { type := .toolNotAllowed
    message := "Tool \"" ++ shown ++ "\" is not in the allowed list: " ++
      listText b.scopes.allowedTools
    detail := [("tool", tool), ("allowed", .list (b.scopes.allowedTools.map .text))] }

theorem checkModel_eq (b : Budget) (model : Value) :
    b.checkModel model = checkListed b.scopes.allowedModels model (b.modelViolation model) := by
  unfold checkModel checkListed
  cases model.display <;> rfl

theorem checkTool_eq (b : Budget) (tool : Value) :
    b.checkTool tool = checkListed b.scopes.allowedTools tool (b.toolViolation tool) := by
  unfold checkTool checkListed
  cases tool.display <;> rfl

theorem checkTools_cons (b : Budget) (tool : Value) (rest : List Value) :
    b.checkTools (tool :: rest) = firstOf (b.checkTool tool) (b.checkTools rest) := by
  rw [checkTools]
  rcases b.checkTool tool with f | _ | v <;> rfl

/-- The checks before a step calls out are three in a row. -/
theorem checkBefore_eq (b : Budget) (now : Float) (model : Value) (tools : List Value) :
    b.checkBefore now model tools =
      firstOf (b.checkTime now)
        (firstOf (if model.isVoid then .ok none else b.checkModel model) (b.checkTools tools)) := by
  unfold checkBefore
  rcases b.checkTime now with f | _ | v
  · rfl
  · cases model.isVoid with
    | true => rfl
    | false => rcases b.checkModel model with f | _ | v <;> rfl
  · rfl

/-- At a time of the clock, no limit of time is exceeded. -/
def Timely (b : Budget) (now : Float) : Prop :=
  0 < b.scopes.maxExecutionTimeMs →
    ∃ ms, b.elapsedMs now = .ok ms ∧ ms ≤ b.scopes.maxExecutionTimeMs

theorem checkTime_of_unlimited (hLimit : b.scopes.maxExecutionTimeMs ≤ 0) :
    b.checkTime now = .ok none := by simp [checkTime, hLimit, pure, Except.pure]

theorem checkTime_eq_none_iff : b.checkTime now = .ok none ↔ b.Timely now := by
  by_cases hLimit : b.scopes.maxExecutionTimeMs ≤ 0
  · simp [checkTime_of_unlimited hLimit, Timely, Int.not_lt.mpr hLimit]
  · unfold checkTime
    cases hElapsed : b.elapsedMs now with
    | error f => simp [Timely, hElapsed, hLimit, bind, Except.bind, Int.not_le.mp hLimit]
    | ok ms =>
        by_cases hWithin : ms ≤ b.scopes.maxExecutionTimeMs <;>
          simp [Timely, hElapsed, hLimit, hWithin, bind, Except.bind, pure, Except.pure,
            Int.not_le.mp hLimit]

theorem checkTime_eq_some_iff {v : Violation} :
    b.checkTime now = .ok (some v) ↔
      ∃ ms, b.elapsedMs now = .ok ms ∧ 0 < b.scopes.maxExecutionTimeMs ∧
        b.scopes.maxExecutionTimeMs < ms ∧ timeViolation b.scopes.maxExecutionTimeMs ms = v := by
  by_cases hLimit : b.scopes.maxExecutionTimeMs ≤ 0
  · simp [checkTime_of_unlimited hLimit, Int.not_lt.mpr hLimit]
  · unfold checkTime
    cases hElapsed : b.elapsedMs now with
    | error f => simp [hLimit, bind, Except.bind]
    | ok ms =>
        by_cases hWithin : ms ≤ b.scopes.maxExecutionTimeMs
        · simp [hLimit, hWithin, bind, Except.bind, pure, Except.pure, Int.not_lt.mpr hWithin]
        · simp [hLimit, hWithin, bind, Except.bind, pure, Except.pure, Int.not_le.mp hLimit,
            Int.not_le.mp hWithin]

/-- At a time of the clock, a step may ask for what it has handed in. -/
structure Permits (b : Budget) (now : Float) (sub : Submission) : Prop where
  timely : b.Timely now
  model : sub.model.isVoid = false → Listed b.scopes.allowedModels sub.model
  tools : ∀ tool ∈ sub.tools, Listed b.scopes.allowedTools tool

/-- Why a step may not ask for what it has handed in, with the message that says so. The time goes
before the model, the model before the tools, and one tool before the next. -/
inductive Refuses (b : Budget) (now : Float) (sub : Submission) : String → Prop where
  | late {ms : Int} (hElapsed : b.elapsedMs now = .ok ms) (hLimit : 0 < b.scopes.maxExecutionTimeMs)
      (hLate : b.scopes.maxExecutionTimeMs < ms) :
      Refuses b now sub ("Execution time exceeded: " ++ toString ms ++ "ms > " ++
        toString b.scopes.maxExecutionTimeMs ++ "ms")
  | model {shown : String} (hTimely : b.Timely now) (hNamed : sub.model.isVoid = false)
      (hUnlisted : ¬ Listed b.scopes.allowedModels sub.model)
      (hShown : sub.model.display = .ok shown) :
      Refuses b now sub ("Model \"" ++ shown ++ "\" is not in the allowed list: " ++
        listText b.scopes.allowedModels)
  | tool {earlier later : List Value} {tool : Value} {shown : String} (hTimely : b.Timely now)
      (hModel : sub.model.isVoid = false → Listed b.scopes.allowedModels sub.model)
      (hTools : sub.tools = earlier ++ tool :: later)
      (hEarlier : ∀ t ∈ earlier, Listed b.scopes.allowedTools t)
      (hUnlisted : ¬ Listed b.scopes.allowedTools tool) (hShown : tool.display = .ok shown) :
      Refuses b now sub ("Tool \"" ++ shown ++ "\" is not in the allowed list: " ++
        listText b.scopes.allowedTools)

theorem checkTools_eq_none_iff {tools : List Value} :
    b.checkTools tools = .ok none ↔ ∀ tool ∈ tools, Listed b.scopes.allowedTools tool := by
  induction tools with
  | nil => simp [checkTools]
  | cons tool rest ih =>
      rw [checkTools_cons, firstOf_eq_none_iff, ih, checkTool_eq, checkListed_eq_none_iff,
        List.forall_mem_cons]

/-- The first tool that is not listed is reported. -/
theorem checkTools_eq_some_iff {tools : List Value} {v : Violation} :
    b.checkTools tools = .ok (some v) ↔
      ∃ earlier tool later shown, tools = earlier ++ tool :: later ∧
        (∀ t ∈ earlier, Listed b.scopes.allowedTools t) ∧ ¬ Listed b.scopes.allowedTools tool ∧
        tool.display = .ok shown ∧ b.toolViolation tool shown = v := by
  induction tools with
  | nil => simp [checkTools]
  | cons first rest ih =>
      rw [checkTools_cons, firstOf_eq_some_iff, ih, checkTool_eq, checkListed_eq_none_iff,
        checkListed_eq_some_iff]
      constructor
      · rintro (⟨hUnlisted, shown, hShown⟩ | ⟨hFirst, earlier, tool, later, shown, rfl, hEarlier, hTool⟩)
        · exact ⟨[], first, rest, shown, rfl, nofun, hUnlisted, hShown⟩
        · exact ⟨first :: earlier, tool, later, shown, rfl,
            List.forall_mem_cons.mpr ⟨hFirst, hEarlier⟩, hTool⟩
      · rintro ⟨_ | ⟨t, earlier⟩, tool, later, shown, hTools, hEarlier, hUnlisted, hShown⟩
        · cases hTools
          exact .inl ⟨hUnlisted, shown, hShown⟩
        · cases hTools
          obtain ⟨hFirst, hEarlier⟩ := List.forall_mem_cons.mp hEarlier
          exact .inr ⟨hFirst, earlier, tool, later, shown, rfl, hEarlier, hUnlisted, hShown⟩

/-- The check of a model that may be none. -/
theorem checkNamed_eq_none_iff {model : Value} :
    (if model.isVoid then .ok none else b.checkModel model) = .ok none ↔
      (model.isVoid = false → Listed b.scopes.allowedModels model) := by
  rw [checkModel_eq]
  cases model.isVoid with
  | true => simp
  | false => simp [checkListed_eq_none_iff]

theorem checkNamed_eq_some_iff {model : Value} {v : Violation} :
    (if model.isVoid then .ok none else b.checkModel model) = .ok (some v) ↔
      model.isVoid = false ∧ ¬ Listed b.scopes.allowedModels model ∧
        ∃ shown, model.display = .ok shown ∧ b.modelViolation model shown = v := by
  rw [checkModel_eq]
  cases model.isVoid with
  | true => simp
  | false => simp [checkListed_eq_some_iff]

/-- The checks find nothing exactly when a step is permitted what it hands in. -/
theorem checkBefore_eq_none_iff {sub : Submission} :
    b.checkBefore now sub.model sub.tools = .ok none ↔ b.Permits now sub := by
  rw [checkBefore_eq, firstOf_eq_none_iff, firstOf_eq_none_iff, checkTime_eq_none_iff,
    checkNamed_eq_none_iff, checkTools_eq_none_iff]
  exact ⟨fun ⟨hTime, hModel, hTools⟩ => ⟨hTime, hModel, hTools⟩,
    fun h => ⟨h.timely, h.model, h.tools⟩⟩

/-- The checks find something exactly when a step is refused, and then they tell why. -/
theorem exists_violation_iff {sub : Submission} {message : String} :
    (∃ v, b.checkBefore now sub.model sub.tools = .ok (some v) ∧ v.message = message) ↔
      b.Refuses now sub message := by
  constructor
  · rintro ⟨v, hFound, rfl⟩
    rw [checkBefore_eq, firstOf_eq_some_iff, firstOf_eq_some_iff, checkTime_eq_none_iff,
      checkTime_eq_some_iff, checkNamed_eq_none_iff, checkNamed_eq_some_iff,
      checkTools_eq_some_iff] at hFound
    rcases hFound with ⟨ms, hElapsed, hLimit, hLate, rfl⟩ |
      ⟨hTimely, ⟨hNamed, hUnlisted, shown, hShown, rfl⟩ |
        ⟨hModel, earlier, tool, later, shown, hTools, hEarlier, hUnlisted, hShown, rfl⟩⟩
    · exact .late hElapsed hLimit hLate
    · exact .model hTimely hNamed hUnlisted hShown
    · exact .tool hTimely hModel hTools hEarlier hUnlisted hShown
  · intro hRefuses
    simp only [checkBefore_eq, firstOf_eq_some_iff, checkTime_eq_none_iff, checkTime_eq_some_iff,
      checkNamed_eq_none_iff, checkNamed_eq_some_iff, checkTools_eq_some_iff]
    cases hRefuses with
    | late hElapsed hLimit hLate => exact ⟨_, .inl ⟨_, hElapsed, hLimit, hLate, rfl⟩, rfl⟩
    | model hTimely hNamed hUnlisted hShown =>
        exact ⟨_, .inr ⟨hTimely, .inl ⟨hNamed, hUnlisted, _, hShown, rfl⟩⟩, rfl⟩
    | tool hTimely hModel hTools hEarlier hUnlisted hShown =>
        exact ⟨_, .inr ⟨hTimely, .inr ⟨hModel, _, _, _, _, hTools, hEarlier, hUnlisted, hShown, rfl⟩⟩,
          rfl⟩

/-- A message of a refusal is not empty. -/
theorem Refuses.message_ne_empty {sub : Submission} {message : String}
    (h : b.Refuses now sub message) : message ≠ "" := by
  cases h with
  | late => simp
  | model => simp
  | tool => simp

end Budget

end StepFlow
