import StepFlow.Model
import StepFlow.Proofs.Json.Regular
import StepFlow.Proofs.Schema.Reader
import StepFlow.Proofs.Value.Regular

/-! Stored data there and back. What a model makes of data is written down under either naming of
its fields, and is read from that as it is, with the fields of steps that no model knows in their
order, and so data is in the form of its model once it has been read. One thing is in the way: a step
keeps a field of its own that it is given in bytes beside its fields, and its dump has one name for
both. -/
namespace StepFlow

open Schema

theorem Next.read_dump (n : Next) : Next.read n.dump = .ok n := by
  cases n with
  | unset => rfl
  | one id => rfl
  | several ids =>
      have hIds : list text (.list (ids.map .text)) = .ok ids := list_texts ids
      have hText : text (.list (ids.map .text)) = .fail .textExpected := rfl
      unfold Next.read Next.dump
      simp only [hText, hIds]
      rfl
  | named branches =>
      have hBranches : mapping text (Next.named branches).dump = .ok branches :=
        mapping_map fun _ _ => rfl
      have hText : text (Next.named branches).dump = .fail .textExpected := rfl
      have hList : list text (Next.named branches).dump = .fail .listExpected := rfl
      unfold Next.dump at hBranches hText hList
      unfold Next.read Next.dump
      simp only [hText, hList, hBranches]
      rfl

namespace Step

/-- What holds of a step that is read: its id and its type are there, and what it holds beside its
fields is named once, with characters alone. -/
structure Fit (s : Step) : Prop where
  id : Text.isSound s.id = true ∧ s.id.isEmpty = false
  type : Text.isSound s.type = true ∧ s.type.isEmpty = false
  once : s.extra.keys.Nodup
  sound : ∀ name ∈ s.extra.keys, Text.isSound name = true

/-- Nothing that a step holds beside its fields is named like one of them. -/
def Apart (s : Step) : Prop := ∀ name ∈ s.extra.keys, name ∉ fieldNames

theorem Fit.beside {s : Step} (h : s.Fit) (hApart : s.Apart) : Beside fieldNames s.extra :=
  ⟨h.once, hApart, h.sound⟩

/-- A step is read with an id and a type that are there, and with what is left over of its data. -/
theorem parts_of_read {data : Value} {s : Step} (h : Step.read data = .ok s) :
    hasSoundNames data = true ∧ leftover fieldNames data = .ok s.extra ∧
      (Text.isSound s.id = true ∧ s.id.isEmpty = false) ∧
      (Text.isSound s.type = true ∧ s.type.isEmpty = false) := by
  unfold Step.read at h
  split at h
  · rename_i hSound
    obtain ⟨build, extra, hModel, hExtra, rfl⟩ := Checked.and_eq_ok_iff.mp h
    obtain ⟨fields, -, hFields⟩ := model_eq_ok hModel
    obtain ⟨_, _, hBefore, -, hNext⟩ := Checked.and_eq_ok_iff.mp hFields
    obtain ⟨_, _, hBefore, -, hCondition⟩ := Checked.and_eq_ok_iff.mp hBefore
    obtain ⟨_, _, hBefore, -, hInputs⟩ := Checked.and_eq_ok_iff.mp hBefore
    obtain ⟨_, _, hBefore, -, hConfig⟩ := Checked.and_eq_ok_iff.mp hBefore
    obtain ⟨_, type, hBefore, hType, hTyped⟩ := Checked.and_eq_ok_iff.mp hBefore
    obtain ⟨_, id, hBefore, hId, hNamed⟩ := Checked.and_eq_ok_iff.mp hBefore
    cases hBefore
    subst hNamed hTyped hConfig hInputs hCondition hNext
    obtain ⟨_, _, -, hId⟩ := required_eq_ok hId
    obtain ⟨_, _, -, hType⟩ := required_eq_ok hType
    exact ⟨hSound, hExtra, someText_eq_ok hId, someText_eq_ok hType⟩
  · cases h

/-- What is read as a step is fit. -/
theorem fit_of_read {data : Value} {s : Step} (hData : data.NamesOnce) (h : Step.read data = .ok s) :
    s.Fit := by
  obtain ⟨hSound, hExtra, hId, hType⟩ := parts_of_read h
  have hOnce : ∀ fields, data = .map fields → (Table.keys fields).Nodup := by
    rintro fields rfl
    exact hData fields (.self _)
  exact ⟨hId, hType, once_of_leftover hOnce hExtra,
    fun name hMem => (mem_leftover hSound hExtra hMem).1⟩

/-- Only a name that is given in bytes is both known and left over. -/
theorem inBytes_of_read {data : Value} {s : Step} {name : String} (h : Step.read data = .ok s)
    (hMem : name ∈ s.extra.keys) (hKnown : name ∈ fieldNames) : InBytes data name := by
  obtain ⟨hSound, hExtra, -, -⟩ := parts_of_read h
  exact (mem_leftover hSound hExtra hMem).2 hKnown

/-- What is read from a mapping by texts keeps its fields apart. -/
theorem apart_of_read {fields : Table Value} {s : Step} (h : Step.read (.map fields) = .ok s) :
    s.Apart := by
  intro name hMem hKnown
  obtain ⟨_, _, _, hKeyed, -⟩ := inBytes_of_read h hMem hKnown
  cases hKeyed

/-- The fields that every step has, as they are dumped. -/
def known (s : Step) : Table Value :=
  [("id", .text s.id), ("type", .text s.type), ("config", .map s.config),
    ("inputs", Value.ofOption (fun inputs => .map (inputs.map fun (name, t) => (name, .text t)))
      s.inputs),
    ("condition", Value.ofOption .text s.condition), ("next", s.next.dump)]

theorem dump_eq {s : Step} (h : s.Fit) (hApart : s.Apart) : s.dump = .map (s.known ++ s.extra) :=
  congrArg Value.map (Table.merge_of_new h.once hApart)

theorem readFields_known {s : Step} (h : s.Fit) :
    Step.readFields (s.known ++ s.extra) =
      .ok (Step.mk s.id s.type s.config s.inputs s.condition s.next) := by
  have hId : required someText (sole "id") (s.known ++ s.extra) = .ok s.id :=
    required_of_given ⟨_, rfl⟩ (someText_text h.id.1 h.id.2)
  have hType : required someText (sole "type") (s.known ++ s.extra) = .ok s.type :=
    required_of_given ⟨_, rfl⟩ (someText_text h.type.1 h.type.2)
  have hConfig : defaulted readConfig (sole "config") [] (s.known ++ s.extra) = .ok s.config :=
    defaulted_of_given ⟨_, rfl⟩ (mapping_anything s.config)
  have hInputs : defaulted (optional (mapping text)) (sole "inputs") none (s.known ++ s.extra) =
      .ok s.inputs :=
    defaulted_of_given ⟨_, rfl⟩ (optional_ofOption nofun fun _ _ => mapping_map fun _ _ => rfl)
  have hCondition : defaulted (optional text) (sole "condition") none (s.known ++ s.extra) =
      .ok s.condition :=
    defaulted_of_given ⟨_, rfl⟩ (optional_text s.condition)
  have hNext : defaulted Next.read (sole "next") .unset (s.known ++ s.extra) = .ok s.next :=
    defaulted_of_given ⟨_, rfl⟩ s.next.read_dump
  unfold Step.readFields
  rw [hId, hType, hConfig, hInputs, hCondition, hNext]
  rfl

/-- A step that is fit and keeps its fields apart is read back from its dump. -/
theorem read_dump {s : Step} (h : s.Fit) (hApart : s.Apart) : Step.read s.dump = .ok s := by
  have hSound : hasSoundNames (.map (s.known ++ s.extra)) = true := by
    have hKnown : ∀ name ∈ fieldNames, Text.isSound name = true := by decide
    refine List.all_eq_true.mpr fun entry hMem => ?_
    rcases List.mem_append.mp hMem with hMem | hMem
    · exact hKnown entry.1 (List.mem_map_of_mem hMem)
    · exact h.sound entry.1 (List.mem_map_of_mem hMem)
  have hModel : model Step.readFields (.map (s.known ++ s.extra)) =
      .ok (Step.mk s.id s.type s.config s.inputs s.condition s.next) := readFields_known h
  have hExtra : leftover fieldNames (.map (s.known ++ s.extra)) = .ok s.extra :=
    leftover_append (fun _ hMem => hMem) (h.beside hApart)
  rw [dump_eq h hApart]
  unfold Step.read
  rw [if_pos hSound, hModel, hExtra]
  rfl

end Step

namespace Flow

/-- The fields of a flow as they are dumped. -/
def fields (naming : Naming) (f : Flow) : Table Value :=
  [("steps", .list (f.steps.map Step.dump)),
    (entryName.under naming, Value.ofOption .text f.entryPoint)]

/-- The steps of a flow are read from the list that is given for them, or there are none. -/
theorem steps_of_read {data : Value} {f : Flow} (h : Flow.read data = .ok f) :
    ∃ fields, data.fields? = some fields ∧
      ((∃ k v, given? fields (sole "steps") = some (k, v) ∧ list Step.read v = .ok f.steps) ∨
        f.steps = []) := by
  obtain ⟨fields, hGiven, hFields⟩ := model_eq_ok h
  obtain ⟨_, _, hBefore, -, hEntry⟩ := Checked.and_eq_ok_iff.mp hFields
  obtain ⟨_, steps, hBefore, hSteps, hBuild⟩ := Checked.and_eq_ok_iff.mp hBefore
  cases hBefore
  subst hBuild hEntry
  exact ⟨fields, hGiven, defaulted_eq_ok hSteps⟩

/-- Each step of a flow is read from a part of its data. -/
theorem exists_part_of_read {data : Value} {f : Flow} (h : Flow.read data = .ok f) :
    ∀ s ∈ f.steps, ∃ item, Value.Part item data ∧ Step.read item = .ok s := by
  intro s hMem
  obtain ⟨fields, hGiven, ⟨k, v, hValue, hList⟩ | hNone⟩ := steps_of_read h
  · obtain ⟨items, hItems, hRead⟩ := list_eq_ok hList
    obtain ⟨item, hItem, hStep⟩ := hRead s hMem
    have hList : Value.Part v data := .of_field hGiven (given?_mem hValue)
    exact ⟨item, (Value.Part.of_items hItems hItem).trans hList, hStep⟩
  · rw [hNone] at hMem
    cases hMem

/-- A flow that is read from a dump keeps the fields of its steps apart. -/
theorem apart_of_read_dump {f g : Flow} {naming : Naming} (h : Flow.read (f.dump naming) = .ok g) :
    ∀ s ∈ g.steps, s.Apart := by
  intro s hMem
  obtain ⟨fields, hGiven, ⟨k, v, hValue, hList⟩ | hNone⟩ := steps_of_read h
  · have hDumped : given? (f.fields naming) (sole "steps") =
        some ("steps", .list (f.steps.map Step.dump)) := by cases naming <;> rfl
    obtain rfl : f.fields naming = fields := Option.some.inj hGiven
    rw [hDumped] at hValue
    cases hValue
    obtain ⟨items, hItems | hItems, hRead⟩ := list_eq_ok hList
    · cases hItems
      obtain ⟨item, hItem, hStep⟩ := hRead s hMem
      obtain ⟨t, -, rfl⟩ := List.mem_map.mp hItem
      exact Step.apart_of_read hStep
    · cases hItems
  · rw [hNone] at hMem
    cases hMem

theorem read_dump {f : Flow} (h : ∀ s ∈ f.steps, Step.read s.dump = .ok s) (naming : Naming) :
    Flow.read (f.dump naming) = .ok f := by
  have hSteps : defaulted (list Step.read) (sole "steps") [] (f.fields naming) = .ok f.steps :=
    defaulted_of_given (by cases naming <;> exact ⟨_, rfl⟩) (list_map h)
  have hEntry : defaulted (optional text) entryName none (f.fields naming) = .ok f.entryPoint :=
    defaulted_of_given (by cases naming <;> exact ⟨_, rfl⟩) (optional_text f.entryPoint)
  change Flow.readFields (f.fields naming) = .ok f
  unfold Flow.readFields
  rw [hSteps, hEntry]
  rfl

end Flow

namespace Scopes

/-- The fields of scopes as they are dumped. -/
def fields (naming : Naming) (s : Scopes) : Table Value :=
  [(modelsName.under naming, .list (s.allowedModels.map .text)),
    (tokensName.under naming, .int s.maxTotalTokens),
    (timeName.under naming, .int s.maxExecutionTimeMs),
    (toolsName.under naming, .list (s.allowedTools.map .text)),
    (subAgentsName.under naming, .bool s.canCreateSubAgents)]

theorem read_dump (naming : Naming) (s : Scopes) : Scopes.read (s.dump naming) = .ok s := by
  have hModels : defaulted (list text) modelsName [] (s.fields naming) = .ok s.allowedModels :=
    defaulted_of_given (by cases naming <;> exact ⟨_, rfl⟩) (list_texts s.allowedModels)
  have hTokens : defaulted integer tokensName defaultTokens (s.fields naming) =
      .ok s.maxTotalTokens :=
    defaulted_of_given (by cases naming <;> exact ⟨_, rfl⟩) (integer_int s.maxTotalTokens)
  have hTime : defaulted integer timeName defaultTimeMs (s.fields naming) =
      .ok s.maxExecutionTimeMs :=
    defaulted_of_given (by cases naming <;> exact ⟨_, rfl⟩) (integer_int s.maxExecutionTimeMs)
  have hTools : defaulted (list text) toolsName [] (s.fields naming) = .ok s.allowedTools :=
    defaulted_of_given (by cases naming <;> exact ⟨_, rfl⟩) (list_texts s.allowedTools)
  have hAgents : defaulted boolean subAgentsName false (s.fields naming) =
      .ok s.canCreateSubAgents :=
    defaulted_of_given (by cases naming <;> exact ⟨_, rfl⟩) (boolean_bool s.canCreateSubAgents)
  change Scopes.readFields (s.fields naming) = .ok s
  unfold Scopes.readFields
  rw [hModels, hTokens, hTime, hTools, hAgents]
  rfl

end Scopes

namespace Trigger

/-- The fields of a trigger as they are dumped. -/
def fields (naming : Naming) (t : Trigger) : Table Value :=
  [("type", .text t.type), ("content", Value.ofOption .text t.content),
    (messageName.under naming, Value.ofOption .text t.messageId),
    (conversationName.under naming, Value.ofOption .text t.conversationId),
    (senderName.under naming, Value.ofOption .text t.senderAccountId),
    (recipientName.under naming, Value.ofOption .text t.recipientAccountId),
    ("metadata", Value.ofOption .map t.metadata)]

theorem type_of_read {data : Value} {t : Trigger} (h : Trigger.read data = .ok t) :
    t.type ∈ types := by
  obtain ⟨fields, -, hFields⟩ := model_eq_ok h
  obtain ⟨_, _, hBefore, -, hMetadata⟩ := Checked.and_eq_ok_iff.mp hFields
  obtain ⟨_, _, hBefore, -, hRecipient⟩ := Checked.and_eq_ok_iff.mp hBefore
  obtain ⟨_, _, hBefore, -, hSender⟩ := Checked.and_eq_ok_iff.mp hBefore
  obtain ⟨_, _, hBefore, -, hConversation⟩ := Checked.and_eq_ok_iff.mp hBefore
  obtain ⟨_, _, hBefore, -, hMessage⟩ := Checked.and_eq_ok_iff.mp hBefore
  obtain ⟨_, _, hBefore, -, hContent⟩ := Checked.and_eq_ok_iff.mp hBefore
  obtain ⟨_, type, hBefore, hType, hTyped⟩ := Checked.and_eq_ok_iff.mp hBefore
  cases hBefore
  subst hTyped hContent hMessage hConversation hSender hRecipient hMetadata
  obtain ⟨_, _, -, hChoice⟩ := required_eq_ok hType
  exact choice_eq_ok hChoice

theorem read_dump {t : Trigger} (hType : t.type ∈ types) (naming : Naming) :
    Trigger.read (t.dump naming) = .ok t := by
  have hKind : required (choice types) (sole "type") (t.fields naming) = .ok t.type :=
    required_of_given (by cases naming <;> exact ⟨_, rfl⟩) (choice_text hType)
  have hContent : defaulted (optional text) (sole "content") none (t.fields naming) =
      .ok t.content :=
    defaulted_of_given (by cases naming <;> exact ⟨_, rfl⟩) (optional_text t.content)
  have hMessage : defaulted (optional text) messageName none (t.fields naming) = .ok t.messageId :=
    defaulted_of_given (by cases naming <;> exact ⟨_, rfl⟩) (optional_text t.messageId)
  have hConversation : defaulted (optional text) conversationName none (t.fields naming) =
      .ok t.conversationId :=
    defaulted_of_given (by cases naming <;> exact ⟨_, rfl⟩) (optional_text t.conversationId)
  have hSender : defaulted (optional text) senderName none (t.fields naming) =
      .ok t.senderAccountId :=
    defaulted_of_given (by cases naming <;> exact ⟨_, rfl⟩) (optional_text t.senderAccountId)
  have hRecipient : defaulted (optional text) recipientName none (t.fields naming) =
      .ok t.recipientAccountId :=
    defaulted_of_given (by cases naming <;> exact ⟨_, rfl⟩) (optional_text t.recipientAccountId)
  have hMetadata : defaulted (optional (mapping anything)) (sole "metadata") none (t.fields naming) =
      .ok t.metadata :=
    defaulted_of_given (by cases naming <;> exact ⟨_, rfl⟩)
      (optional_ofOption nofun fun table _ => mapping_anything table)
  change Trigger.readFields (t.fields naming) = .ok t
  unfold Trigger.readFields
  rw [hKind, hContent, hMessage, hConversation, hSender, hRecipient, hMetadata]
  rfl

end Trigger

namespace Definition

/-- The fields of a definition as they are dumped. -/
def fields (naming : Naming) (d : Definition) : Table Value :=
  [("name", .text d.name), ("description", .text d.description),
    (agentName.under naming, Value.ofOption .text d.agentId),
    ("flow", d.flow.dump naming), ("scopes", d.scopes.dump naming)]

/-- The flow of a definition is read from what is given for it, or has no steps. -/
theorem flow_of_read {data : Value} {d : Definition} (h : Definition.read data = .ok d) :
    ∃ fields, data.fields? = some fields ∧
      ((∃ k v, given? fields (sole "flow") = some (k, v) ∧ Flow.read v = .ok d.flow) ∨
        d.flow = ⟨[], none⟩) := by
  obtain ⟨fields, hGiven, hFields⟩ := model_eq_ok h
  obtain ⟨_, _, hBefore, -, hScopes⟩ := Checked.and_eq_ok_iff.mp hFields
  obtain ⟨_, flow, hBefore, hFlow, hFlows⟩ := Checked.and_eq_ok_iff.mp hBefore
  obtain ⟨_, _, hBefore, -, hAgent⟩ := Checked.and_eq_ok_iff.mp hBefore
  obtain ⟨_, _, hBefore, -, hDescription⟩ := Checked.and_eq_ok_iff.mp hBefore
  obtain ⟨_, _, hBefore, -, hName⟩ := Checked.and_eq_ok_iff.mp hBefore
  cases hBefore
  subst hName hDescription hAgent hFlows hScopes
  exact ⟨fields, hGiven, defaulted_eq_ok hFlow⟩

theorem exists_part_of_read {data : Value} {d : Definition} (h : Definition.read data = .ok d) :
    ∀ s ∈ d.flow.steps, ∃ item, Value.Part item data ∧ Step.read item = .ok s := by
  intro s hMem
  obtain ⟨fields, hGiven, ⟨k, v, hValue, hRead⟩ | hNone⟩ := flow_of_read h
  · obtain ⟨item, hItem, hStep⟩ := Flow.exists_part_of_read hRead s hMem
    exact ⟨item, hItem.trans (.of_field hGiven (given?_mem hValue)), hStep⟩
  · rw [hNone] at hMem
    cases hMem

theorem apart_of_read_dump {c d : Definition} {naming : Naming}
    (h : Definition.read (c.dump naming) = .ok d) : ∀ s ∈ d.flow.steps, s.Apart := by
  intro s hMem
  obtain ⟨fields, hGiven, ⟨k, v, hValue, hRead⟩ | hNone⟩ := flow_of_read h
  · have hDumped : given? (c.fields naming) (sole "flow") = some ("flow", c.flow.dump naming) := by
      cases naming <;> rfl
    obtain rfl : c.fields naming = fields := Option.some.inj hGiven
    rw [hDumped] at hValue
    cases hValue
    exact Flow.apart_of_read_dump hRead s hMem
  · rw [hNone] at hMem
    cases hMem

theorem read_dump {d : Definition} (h : ∀ s ∈ d.flow.steps, Step.read s.dump = .ok s)
    (naming : Naming) : Definition.read (d.dump naming) = .ok d := by
  have hName : required text (sole "name") (d.fields naming) = .ok d.name :=
    required_of_given (by cases naming <;> exact ⟨_, rfl⟩) (text_text d.name)
  have hDescription : defaulted text (sole "description") "" (d.fields naming) =
      .ok d.description :=
    defaulted_of_given (by cases naming <;> exact ⟨_, rfl⟩) (text_text d.description)
  have hAgent : defaulted (optional text) agentName none (d.fields naming) = .ok d.agentId :=
    defaulted_of_given (by cases naming <;> exact ⟨_, rfl⟩) (optional_text d.agentId)
  have hFlow : defaulted Flow.read (sole "flow") ⟨[], none⟩ (d.fields naming) = .ok d.flow :=
    defaulted_of_given (by cases naming <;> exact ⟨_, rfl⟩) (Flow.read_dump h naming)
  have hScopes : defaulted Scopes.read (sole "scopes") .standard (d.fields naming) =
      .ok d.scopes :=
    defaulted_of_given (by cases naming <;> exact ⟨_, rfl⟩) (d.scopes.read_dump naming)
  change Definition.readFields (d.fields naming) = .ok d
  unfold Definition.readFields
  rw [hName, hDescription, hAgent, hFlow, hScopes]
  rfl

end Definition

namespace Settings

/-- Settings that can be read: some step may be run, and the level is one of those there are. -/
structure Fit (s : Settings) : Prop where
  steps : 1 ≤ s.maxSteps
  level : s.logLevel ∈ logLevels

/-- The fields of settings as they are dumped. -/
def fields (naming : Naming) (s : Settings) : Table Value :=
  [("default_max_steps", .int s.maxSteps), ("abort_on_error", .bool s.abortOnError),
    ("default_llm_model", .text s.defaultModel), ("default_scopes", s.defaultScopes.dump naming),
    ("log_level", .text s.logLevel), ("json_logs", .bool s.jsonLogs),
    ("metrics_enabled", .bool s.metricsEnabled)]

theorem readLevel_eq_ok {v : Value} {level : String} (h : readLevel v = .ok level) :
    level ∈ logLevels := by
  unfold readLevel at h
  split at h
  all_goals exact choice_eq_ok h

theorem readLevel_text {level : String} (h : level ∈ logLevels) :
    readLevel (.text level) = .ok level := by
  have hUpper : ∀ level ∈ logLevels, level.toList.map upper = level.toList := by decide
  have hSame : level.map upper = level :=
    String.toList_inj.mp (String.toList_map.trans (hUpper level h))
  change choice logLevels (.text (level.map upper)) = .ok level
  rw [hSame]
  exact choice_text h

theorem fit_of_read {data : Value} {s : Settings} (h : Settings.read data = .ok s) : s.Fit := by
  obtain ⟨fields, -, hFields⟩ := model_eq_ok h
  obtain ⟨_, _, hBefore, -, hMetrics⟩ := Checked.and_eq_ok_iff.mp hFields
  obtain ⟨_, _, hBefore, -, hLogs⟩ := Checked.and_eq_ok_iff.mp hBefore
  obtain ⟨_, level, hBefore, hLevel, hLevels⟩ := Checked.and_eq_ok_iff.mp hBefore
  obtain ⟨_, _, hBefore, -, hScopes⟩ := Checked.and_eq_ok_iff.mp hBefore
  obtain ⟨_, _, hBefore, -, hModel⟩ := Checked.and_eq_ok_iff.mp hBefore
  obtain ⟨_, _, hBefore, -, hAbort⟩ := Checked.and_eq_ok_iff.mp hBefore
  obtain ⟨_, steps, hBefore, hSteps, hStepped⟩ := Checked.and_eq_ok_iff.mp hBefore
  cases hBefore
  subst hStepped hAbort hModel hScopes hLevels hLogs hMetrics
  constructor
  · rcases defaulted_eq_ok hSteps with ⟨_, _, -, hRead⟩ | rfl
    · exact integerFrom_eq_ok hRead
    · exact (by decide : (1 : Int) ≤ 50)
  · rcases defaulted_eq_ok hLevel with ⟨_, _, -, hRead⟩ | rfl
    · exact readLevel_eq_ok hRead
    · exact (by decide : "INFO" ∈ logLevels)

theorem read_dump {s : Settings} (h : s.Fit) (naming : Naming) :
    Settings.read (s.dump naming) = .ok s := by
  have hSteps : defaulted (integerFrom 1) (sole "default_max_steps") 50 (s.fields naming) =
      .ok s.maxSteps :=
    defaulted_of_given (by cases naming <;> exact ⟨_, rfl⟩) (integerFrom_int h.steps)
  have hAbort : defaulted boolean (sole "abort_on_error") true (s.fields naming) =
      .ok s.abortOnError :=
    defaulted_of_given (by cases naming <;> exact ⟨_, rfl⟩) (boolean_bool s.abortOnError)
  have hModel : defaulted text (sole "default_llm_model") standardModel (s.fields naming) =
      .ok s.defaultModel :=
    defaulted_of_given (by cases naming <;> exact ⟨_, rfl⟩) (text_text s.defaultModel)
  have hScopes : defaulted Scopes.read (sole "default_scopes") .standard (s.fields naming) =
      .ok s.defaultScopes :=
    defaulted_of_given (by cases naming <;> exact ⟨_, rfl⟩) (s.defaultScopes.read_dump naming)
  have hLevel : defaulted readLevel (sole "log_level") "INFO" (s.fields naming) = .ok s.logLevel :=
    defaulted_of_given (by cases naming <;> exact ⟨_, rfl⟩) (readLevel_text h.level)
  have hLogs : defaulted boolean (sole "json_logs") false (s.fields naming) = .ok s.jsonLogs :=
    defaulted_of_given (by cases naming <;> exact ⟨_, rfl⟩) (boolean_bool s.jsonLogs)
  have hMetrics : defaulted boolean (sole "metrics_enabled") true (s.fields naming) =
      .ok s.metricsEnabled :=
    defaulted_of_given (by cases naming <;> exact ⟨_, rfl⟩) (boolean_bool s.metricsEnabled)
  change Settings.readFields (s.fields naming) = .ok s
  unfold Settings.readFields
  rw [hSteps, hAbort, hModel, hScopes, hLevel, hLogs, hMetrics]
  rfl

end Settings

namespace Model

/-- What a model makes of data. -/
def Form : Model → Type
  | .flow => Flow
  | .step => Step
  | .scopes => Scopes
  | .trigger => Trigger
  | .definition => Definition
  | .settings => Settings

def read : (m : Model) → Reader m.Form
  | .flow => Flow.read
  | .step => Step.read
  | .scopes => Scopes.read
  | .trigger => Trigger.read
  | .definition => Definition.read
  | .settings => Settings.read

def dump : (m : Model) → Naming → m.Form → Value
  | .flow => Flow.dump
  | .step => fun _ => Step.dump
  | .scopes => Scopes.dump
  | .trigger => Trigger.dump
  | .definition => Definition.dump
  | .settings => Settings.dump

/-- The steps in what a model makes of data. -/
def steps : (m : Model) → m.Form → List Step
  | .flow => Flow.steps
  | .step => fun s => [s]
  | .definition => fun d => d.flow.steps
  | .scopes | .trigger | .settings => fun _ => []

/-- No step in it holds a field that is named like one of its own. -/
def Apart (m : Model) (x : m.Form) : Prop := ∀ s ∈ m.steps x, s.Apart

/-- Each step is read from a part of the data. -/
theorem exists_part_of_read {m : Model} {data : Value} {x : m.Form} (h : m.read data = .ok x) :
    ∀ s ∈ m.steps x, ∃ item, Value.Part item data ∧ Step.read item = .ok s := by
  cases m with
  | flow => exact Flow.exists_part_of_read h
  | step =>
      intro s hMem
      rw [List.mem_singleton.mp hMem]
      exact ⟨data, .self data, h⟩
  | definition => exact Definition.exists_part_of_read h
  | _ => exact nofun

/-- What is read from data is read again from its dump, if its steps are from theirs. -/
theorem read_dump {m : Model} {data : Value} {x : m.Form} (h : m.read data = .ok x)
    (hSteps : ∀ s ∈ m.steps x, Step.read s.dump = .ok s) (naming : Naming) :
    m.read (m.dump naming x) = .ok x := by
  cases m with
  | flow => exact Flow.read_dump hSteps naming
  | step => exact hSteps x (List.mem_singleton_self x)
  | scopes => exact Scopes.read_dump naming x
  | trigger => exact Trigger.read_dump (Trigger.type_of_read h) naming
  | definition => exact Definition.read_dump hSteps naming
  | settings => exact Settings.read_dump (Settings.fit_of_read h) naming

/-- What is read from a dump keeps the fields of its steps apart. -/
theorem apart_of_read_dump {m : Model} {x y : m.Form} {naming : Naming}
    (h : m.read (m.dump naming x) = .ok y) : m.Apart y := by
  cases m with
  | flow => exact Flow.apart_of_read_dump h
  | step =>
      intro s hMem
      rw [List.mem_singleton.mp hMem]
      exact Step.apart_of_read h
  | definition => exact Definition.apart_of_read_dump h
  | _ => exact nofun

/-- What keeps the fields of its steps apart is read again from its dump. -/
theorem read_dump_of_apart {m : Model} {data : Value} {x : m.Form} (hData : data.NamesOnce)
    (h : m.read data = .ok x) (hApart : m.Apart x) (naming : Naming) :
    m.read (m.dump naming x) = .ok x := by
  refine read_dump h (fun s hMem => ?_) naming
  obtain ⟨item, hPart, hStep⟩ := exists_part_of_read h s hMem
  exact Step.read_dump (Step.fit_of_read (hData.of_part hPart) hStep) (hApart s hMem)

/-- What is stored as a document is read again from its dump. -/
theorem read_dump_of_parse {m : Model} {document : String} {data : Value} {x : m.Form}
    (hDocument : Json.parse document = .ok data) (h : m.read data = .ok x) (naming : Naming) :
    m.read (m.dump naming x) = .ok x := by
  have hData := Json.regular_of_parse hDocument
  refine read_dump_of_apart hData.once h (fun s hMem name hLeft hKnown => ?_) naming
  obtain ⟨item, hPart, hStep⟩ := exists_part_of_read h s hMem
  obtain ⟨entries, _, _, rfl, -⟩ := Step.inBytes_of_read hStep hLeft hKnown
  exact hData.texts entries hPart

end Model

end StepFlow
