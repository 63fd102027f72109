import StepFlow.Proofs.Executor.Fallback
import StepFlow.Proofs.Fault

/-! The course of a call to a pool. The providers at the places to try are asked one after the other,
all for the same, each in the world that the one before it has left. The first that answers ends the
call, and nobody behind it is asked. If nobody answers, the fault of the last one is what comes of it. -/
namespace StepFlow

/-- A message is read off its fields. Nobody in particular is the user, and nothing is said. -/
structure Message.ReadOff (fields : Table Value) (m : Message) : Prop where
  role : fields.get? "role" = some (.text m.role.word) ∨
    fields.get? "role" = none ∧ m.role = .user
  content : fields.get? "content" = some m.content ∨
    fields.get? "content" = none ∧ m.content = .text ""

/-- The role of a message is one that there is, or is left out. -/
def Message.Addressed (fields : Table Value) : Prop :=
  ∀ v, fields.get? "role" = some v → ∃ role : Role, v = .text role.word

/-- What a call has every provider asked for: its messages behind its prompt if it has one, from its
model, with its settings or the standard ones, and in no format but JSON. -/
structure ModelCall.Puts (call : ModelCall) (messages : List Message) (config : ProviderConfig) :
    Prop where
  messages : ∃ said, List.Forall₂ Message.ReadOff call.messages said ∧
    messages = if call.systemPrompt = "" then said else ⟨.system, .text call.systemPrompt⟩ :: said
  model : config.model = call.model
  temperature : config.temperature = call.temperature ∧ call.temperature ≠ .null ∨
    config.temperature = .real 0.7 ∧ call.temperature = .null
  maxTokens : config.maxTokens = call.maxTokens ∧ call.maxTokens ≠ .null ∨
    config.maxTokens = .int 1024 ∧ call.maxTokens = .null
  responseFormat : config.responseFormat = some "json" ∧ call.responseFormat = some "json" ∨
    config.responseFormat = none ∧ call.responseFormat ≠ some "json"

/-- What a reply counts for: what it reports, nothing where it reports nothing, and in total the sum
unless it reports a total. -/
structure ProviderReply.CountsFor (r : ProviderReply) (u : Usage) : Prop where
  prompt : r.inputTokens = some u.prompt ∨ r.inputTokens = none ∧ u.prompt = 0
  completion : r.outputTokens = some u.completion ∨ r.outputTokens = none ∧ u.completion = 0
  total : r.totalTokens = some u.total ∨ r.totalTokens = none ∧ u.total = u.prompt + u.completion

theorem ProviderReply.countsFor_usage (r : ProviderReply) : r.CountsFor r.usage := by
  obtain ⟨content, input, output, total⟩ := r
  constructor
  · cases input <;> simp [usage]
  · cases output <;> simp [usage]
  · cases total <;> simp [usage]

namespace Message

theorem ofValue_word (role : Role) : Role.ofValue (.text role.word) = .ok role := by
  cases role <;> rfl

theorem readOff_of_ofFields {fields : Table Value} (hAddressed : Addressed fields) :
    ∃ m, ofFields fields = .ok m ∧ ReadOff fields m := by
  have hContent : fields.get? "content" = some ((fields.get? "content").getD (.text "")) ∨
      fields.get? "content" = none ∧ (fields.get? "content").getD (.text "") = .text "" := by
    cases fields.get? "content" with
    | none => exact .inr ⟨rfl, rfl⟩
    | some v => exact .inl rfl
  unfold ofFields
  cases hRole : fields.get? "role" with
  | none => exact ⟨_, rfl, .inr ⟨hRole, rfl⟩, hContent⟩
  | some v =>
      obtain ⟨role, rfl⟩ := hAddressed v hRole
      refine ⟨⟨role, _⟩, ?_, .inl hRole, hContent⟩
      rw [Option.getD_some, ofValue_word]
      rfl

theorem readOff_of_mapM {all : List (Table Value)} (hAddressed : ∀ fields ∈ all, Addressed fields) :
    ∃ said, all.mapM ofFields = .ok said ∧ List.Forall₂ ReadOff all said := by
  induction all with
  | nil => exact ⟨[], rfl, .nil⟩
  | cons fields rest ih =>
      obtain ⟨hFirst, hRest⟩ := List.forall_mem_cons.mp hAddressed
      obtain ⟨m, hRead, hReadOff⟩ := readOff_of_ofFields hFirst
      obtain ⟨said, hLater, hSaid⟩ := ih hRest
      refine ⟨m :: said, ?_, .cons hReadOff hSaid⟩
      rw [List.mapM_cons, hRead, hLater]
      rfl

end Message

namespace Provider

variable {σ : Type}

/-- Messages with roles that there are can be put to providers. -/
theorem puts_conversation {call : ModelCall}
    (hAddressed : ∀ fields ∈ call.messages, Message.Addressed fields) :
    ∃ messages, conversation call = .ok messages ∧ call.Puts messages (.ofCall call) := by
  obtain ⟨said, hRead, hSaid⟩ := Message.readOff_of_mapM hAddressed
  refine ⟨_, by unfold conversation; rw [hRead]; rfl, ⟨said, hSaid, ?_⟩, rfl, ?_, ?_, ?_⟩
  · by_cases hPrompt : call.systemPrompt = "" <;> simp [hPrompt]
  · unfold ProviderConfig.ofCall
    cases call.temperature <;> simp
  · unfold ProviderConfig.ofCall
    cases call.maxTokens <;> simp
  · unfold ProviderConfig.ofCall
    by_cases hFormat : call.responseFormat = some "json" <;> simp [hFormat]

/-- One attempt of a call: the place of the provider that is asked, and what it is asked for. -/
structure Attempt where
  place : Nat
  messages : List Message
  config : ProviderConfig

/-- A provider that notes what it is asked for, under its place. -/
def noting (place : Nat) (p : Provider σ) : Provider (σ × List Attempt) :=
  { name := p.name
    mark := p.mark
    complete := fun messages config w =>
      (p.complete messages config).aside.perform (w.1, w.2 ++ [⟨place, messages, config⟩]) }

/-- A pool whose providers note what they are asked for. -/
def noted (pool : List (Provider σ)) : List (Provider (σ × List Attempt)) := pool.mapIdx noting

theorem getElem?_noted (pool : List (Provider σ)) (place : Nat) :
    (noted pool)[place]? = pool[place]?.map (noting place) := List.getElem?_mapIdx

theorem labels_noted (pool : List (Provider σ)) : (noted pool).map label = pool.map label := by
  apply List.ext_getElem?
  intro place
  rw [List.getElem?_map, getElem?_noted, List.getElem?_map]
  cases pool[place]? <;> rfl

/-- The providers at some places fail one after the other, each in the world that the one before it
has left. -/
inductive Failing (pool : List (Provider σ)) (messages : List Message) (config : ProviderConfig) :
    List Nat → σ → List Fault → σ → Prop where
  | nil (w : σ) : Failing pool messages config [] w [] w
  | cons {place : Nat} {places : List Nat} {p : Provider σ} {w between w' : σ} {f : Fault}
      {faults : List Fault} (hPlace : pool[place]? = some p)
      (hFault : (p.complete messages config).perform w = (.error (.fault f), between))
      (hLater : Failing pool messages config places between faults w') :
      Failing pool messages config (place :: places) w (f :: faults) w'

/-- What becomes of a call that has some places to try: the places at which providers are asked, what
it comes to, and the world after it. -/
inductive Course (pool : List (Provider σ)) (messages : List Message) (config : ProviderConfig)
    (places : List Nat) (w : σ) : List Nat → Except Halt Completion → σ → Prop where
  /-- The first provider that answers is the last one that is asked. -/
  | answered {before after : List Nat} {place : Nat} {p : Provider σ} {faults : List Fault}
      {between w' : σ} {reply : ProviderReply} {usage : Usage}
      (hPlaces : places = before ++ place :: after)
      (hBefore : Failing pool messages config before w faults between)
      (hPlace : pool[place]? = some p)
      (hReply : (p.complete messages config).perform between = (.ok reply, w'))
      (hUsage : reply.CountsFor usage) :
      Course pool messages config places w (before ++ [place]) (.ok ⟨reply.content, some usage⟩) w'
  /-- Where all of them fail, the fault of the last one is left. -/
  | exhausted {faults : List Fault} {last : Fault} {w' : σ}
      (hAll : Failing pool messages config places w (faults ++ [last]) w') :
      Course pool messages config places w places (.error (.fault last)) w'
  /-- Nobody is asked behind one that is cancelled either. -/
  | cancelled {before after : List Nat} {place : Nat} {p : Provider σ} {faults : List Fault}
      {between w' : σ} (hPlaces : places = before ++ place :: after)
      (hBefore : Failing pool messages config before w faults between)
      (hPlace : pool[place]? = some p)
      (hCancelled : (p.complete messages config).perform between = (.error .cancelled, w')) :
      Course pool messages config places w (before ++ [place]) (.error .cancelled) w'

section Course

variable {pool : List (Provider σ)} {messages : List Message} {config : ProviderConfig}
  {place : Nat} {places tried : List Nat} {p : Provider σ} {w between w' : σ} {f : Fault}
  {outcome : Except Halt Completion}

/-- A provider that fails first goes before the course of the others. -/
theorem Course.behind (h : Course pool messages config places between tried outcome w')
    (hPlace : pool[place]? = some p)
    (hFault : (p.complete messages config).perform w = (.error (.fault f), between)) :
    Course pool messages config (place :: places) w (place :: tried) outcome w' := by
  cases h with
  | answered hPlaces hBefore hAt hReply hUsage =>
      exact .answered (congrArg (place :: ·) hPlaces) (.cons hPlace hFault hBefore) hAt hReply hUsage
  | @exhausted faults last w' hAll =>
      have hLonger : Failing pool messages config (place :: places) w (f :: faults ++ [last]) w' :=
        .cons hPlace hFault hAll
      exact .exhausted hLonger
  | cancelled hPlaces hBefore hAt hCancelled =>
      exact .cancelled (congrArg (place :: ·) hPlaces) (.cons hPlace hFault hBefore) hAt hCancelled

/-- The attempt at a provider that notes it is noted, whatever comes of it. -/
theorem perform_attempt_noting (p : Provider σ) (place : Nat) (w : σ × List Attempt) :
    (Act.attempt ((p.noting place).complete messages config)).perform w =
      (((Act.attempt (p.complete messages config)).perform w.1).1,
        ((Act.attempt (p.complete messages config)).perform w.1).2,
        w.2 ++ [⟨place, messages, config⟩]) := by
  have hNoting : ((p.noting place).complete messages config).perform w =
      (((p.complete messages config).perform w.1).1,
        ((p.complete messages config).perform w.1).2, w.2 ++ [⟨place, messages, config⟩]) := rfl
  rw [Act.perform_attempt_eq, Act.perform_attempt_eq, hNoting]
  rcases (p.complete messages config).perform w.1 with ⟨(f | _) | reply, world⟩ <;> rfl

/-- Providers that are tried from a fault on keep to a course, which they note. The fault is left only
where there is nobody to try. -/
theorem course_tryAll (messages : List Message) (config : ProviderConfig)
    (hPlaces : ∀ place ∈ places, place < pool.length) (last : Fault) (w : σ) (past : List Attempt) :
    ∃ tried outcome w',
      (tryAll messages config last (places.filterMap (pool[·]?))).perform w = (outcome, w') ∧
      (tryAll messages config last (places.filterMap ((noted pool)[·]?))).perform (w, past) =
        (outcome, w', past ++ tried.map fun place => ⟨place, messages, config⟩) ∧
      (Course pool messages config places w tried outcome w' ∨
        places = [] ∧ tried = [] ∧ outcome = .error (.fault last) ∧ w' = w) := by
  induction places generalizing last w past with
  | nil =>
      refine ⟨[], _, w, rfl, ?_, .inr ⟨rfl, rfl, rfl, rfl⟩⟩
      rw [List.map_nil, List.append_nil]
      rfl
  | cons place places ih =>
      obtain ⟨hHere, hLater⟩ := List.forall_mem_cons.mp hPlaces
      obtain ⟨p, hPlace⟩ : ∃ p, pool[place]? = some p := ⟨_, List.getElem?_eq_getElem hHere⟩
      have hFirst : place :: places = [] ++ place :: places := rfl
      have hNoted : (noted pool)[place]? = some (p.noting place) := by
        rw [getElem?_noted, hPlace]
        rfl
      rw [List.filterMap_cons_some hPlace, List.filterMap_cons_some hNoted, tryAll, tryAll,
        Act.perform_bind, Act.perform_bind, perform_attempt_noting, Act.perform_attempt_eq]
      rcases hComplete : (p.complete messages config).perform w with ⟨(f | _) | reply, between⟩
      · obtain ⟨tried, outcome, w', hPerform, hNotes, hCourse⟩ :=
          ih hLater f between (past ++ [⟨place, messages, config⟩])
        refine ⟨place :: tried, outcome, w', hPerform, ?_, .inl ?_⟩
        · rw [List.append_assoc] at hNotes
          exact hNotes
        · rcases hCourse with hCourse | ⟨rfl, rfl, rfl, rfl⟩
          · exact hCourse.behind hPlace hComplete
          · have hOnly : Failing pool messages config [place] w ([] ++ [f]) w' :=
              .cons hPlace hComplete (.nil w')
            exact .exhausted hOnly
      · exact ⟨[place], _, between, rfl, rfl,
          .inl (.cancelled hFirst (.nil w) hPlace hComplete)⟩
      · exact ⟨[place], _, between, rfl, rfl,
          .inl (.answered hFirst (.nil w) hPlace hComplete reply.countsFor_usage)⟩

end Course

section Ordered

variable {labels : List (String × Nat)} {order : List Value} {place : Nat}

theorem lt_of_mem_ranked {names : List String} (h : place ∈ ranked names order) :
    place < names.length := by
  obtain ⟨v, -, hFound⟩ := List.mem_filterMap.mp h
  split at hFound
  · exact (List.getElem?_eq_some_iff.mp (getElem?_of_placeOf? hFound)).1
  · cases hFound

theorem lt_of_mem_ordered (h : place ∈ ordered labels order) : place < labels.length := by
  rcases List.mem_append.mp h with hRanked | hOther
  · rw [← List.length_map (f := Prod.fst)]
    exact lt_of_mem_ranked hRanked
  · exact List.mem_range.mp (List.mem_filter.mp hOther).1

/-- Every provider has a turn some time, at one of its places. -/
theorem mem_ordered (h : place < labels.length) :
    ∃ other ∈ ordered labels order, labels[other]? = labels[place]? := by
  by_cases hOthers : ∀ other ∈ ranked (labels.map Prod.fst) order, labels[other]? ≠ labels[place]?
  · refine ⟨place, List.mem_append_right _ (List.mem_filter.mpr ⟨List.mem_range.mpr h, ?_⟩), rfl⟩
    exact List.all_eq_true.mpr fun other hRanked => decide_eq_true (hOthers other hRanked)
  · simp only [not_forall, not_not] at hOthers
    obtain ⟨other, hRanked, hSame⟩ := hOthers
    exact ⟨other, List.mem_append_left _ hRanked, hSame⟩

/-- A provider that stands at two places has one turn when it is mentioned. -/
example : ordered [("g", 0), ("o", 1), ("g", 0)] [.text "g"] = [2, 1] := by decide

end Ordered

variable {pool : List (Provider σ)} {call : ModelCall} {order : List Value}

/-- A call to a pool goes through the providers at the places to try, all of which it asks for the
same, up to the first that answers. What it comes to is the answer of that one, or the fault of the
last one if all of them fail. The notes of the providers tell who was asked, and for what. -/
theorem first_answer_counts (hPool : pool ≠ [])
    (hAddressed : ∀ fields ∈ call.messages, Message.Addressed fields)
    (hOrder : call.providerOrder.settingElements = .ok order) :
    ∃ answer noting messages config, pooled pool = .ok answer ∧ pooled (noted pool) = .ok noting ∧
      call.Puts messages config ∧
      ∀ (w : σ) (past : List Attempt), ∃ tried outcome w',
        (answer call).perform w = (outcome, w') ∧
        (noting call).perform (w, past) =
          (outcome, w', past ++ tried.map fun place => ⟨place, messages, config⟩) ∧
        Course pool messages config (ordered (pool.map label) order) w tried outcome w' := by
  have hAnswer : ∀ {τ : Type} {ps : List (Provider τ)}, ps ≠ [] → pooled ps = .ok (callPool ps) := by
    intro τ ps hSome
    unfold pooled
    rw [if_neg (by simpa using hSome)]
  have hNoted : noted pool ≠ [] := by
    intro hNone
    exact hPool (List.mapIdx_eq_nil_iff.mp hNone)
  obtain ⟨messages, hMessages, hPuts⟩ := puts_conversation hAddressed
  refine ⟨_, _, messages, _, hAnswer hPool, hAnswer hNoted, hPuts, ?_⟩
  intro w past
  rw [callPool_eq hMessages hOrder, callPool_eq hMessages hOrder, labels_noted]
  have hPlaces : ∀ place ∈ ordered (pool.map label) order, place < pool.length := by
    intro place hMem
    simpa using lt_of_mem_ordered hMem
  obtain ⟨tried, outcome, w', hPerform, hNotes, hCourse⟩ :=
    course_tryAll messages (.ofCall call) hPlaces (.raised "No LLM provider available") w past
  refine ⟨tried, outcome, w', hPerform, hNotes, hCourse.resolve_right ?_⟩
  rintro ⟨hNobody, -⟩
  have hFirst : 0 < (pool.map label).length := by
    simpa using List.length_pos_iff.mpr hPool
  have hTurn : ∃ other ∈ ordered (pool.map label) order, _ := mem_ordered hFirst
  obtain ⟨other, hTried, -⟩ := hTurn
  rw [hNobody] at hTried
  cases hTried

/-- A provider that answers with its name and reports two counts. -/
def up (name : String) : Provider Unit := ⟨name, 0, fun _ _ => pure ⟨.text name, some 2, some 3, none⟩⟩

/-- A call that a model and an assistant have begun. -/
def callAfterAnswer (order : List Value) : ModelCall :=
  { callInOrder order with
    systemPrompt := "s"
    messages := [[("role", .text "assistant"), ("content", .text "hi")], [("content", .text "so")]] }

/-- Of three providers the mentioned one fails and the next one answers, so that the last one is not
asked. -/
theorem second_answer_counts :
    (∃ answer noting messages config, pooled [up "a", down "b", up "c"] = .ok answer ∧
      pooled (noted [up "a", down "b", up "c"]) = .ok noting ∧
      (callAfterAnswer [.text "b"]).Puts messages config ∧
      ∀ (w : Unit) (past : List Attempt), ∃ tried outcome w',
        (answer (callAfterAnswer [.text "b"])).perform w = (outcome, w') ∧
        (noting (callAfterAnswer [.text "b"])).perform (w, past) =
          (outcome, w', past ++ tried.map fun place => ⟨place, messages, config⟩) ∧
        Course [up "a", down "b", up "c"] messages config
          (ordered [("a", 0), ("b", 0), ("c", 0)] [.text "b"]) w tried outcome w') ∧
    ((callPool [up "a", down "b", up "c"] (callAfterAnswer [.text "b"])).perform ()).1 =
      .ok ⟨.text "a", some ⟨2, 3, 5⟩⟩ ∧
    ((callPool (noted [up "a", down "b", up "c"]) (callAfterAnswer [.text "b"])).perform
      ((), [])).2.2.map Attempt.place = [1, 0] := by
  refine ⟨first_answer_counts (by simp) ?_ rfl, rfl, rfl⟩
  intro fields hMem v hRole
  rcases List.mem_pair.mp hMem with rfl | rfl
  · cases hRole
    exact ⟨.assistant, rfl⟩
  · cases hRole

end Provider

end StepFlow
