import StepFlow.Proofs.Executor.Errand
import StepFlow.Proofs.Fault
import StepFlow.Proofs.Json.Attempts

/-! What the built-in executors report to have spent. An executor asks a model or a search at most
once, and reports what the answer has cost unless it fails on it. It fails on an answer only in the
three ways in which an errand is lost. -/
namespace StepFlow

variable {σ α β : Type}

namespace Json

/-- A reply of too many digits and nothing else is such an integer. -/
theorem isOverlong_of_digits {n : Nat} (hMany : Number.digitLimit < n) :
    isOverlong (.text (String.ofList (List.replicate n '9'))) = true := by
  obtain ⟨m, rfl⟩ : ∃ m, n = m + 1 := ⟨n - 1, by omega⟩
  have hBlank : Text.allBlank (List.replicate (m + 1) '9') = false := rfl
  unfold isOverlong readReply replyValue? parse?
  simp only [String.toList_ofList, hBlank, parseChars_replicate hMany]
  rfl

end Json

/-- A call reports what its errands have cost, the lost ones aside. -/
def Call.Reports (c : Call) (errands : List Errand) : Prop := c.spent = Errand.counted errands

namespace Executor

variable {host : Host σ} {kind : Builtin} {s : Step} {l : Ledger} {b : Budget}

theorem notes_guard (model : Value) (tools : List Value) :
    Act.Notes ((host.noting kind s).guard b model tools) (host.guard b model tools)
      fun _ more => more = [] := by
  unfold Host.guard
  simp only
  split
  · apply Act.Notes.after (.pure rfl)
    · exact fun _ => rfl
    · exact fun now => .ofExcept rfl
  · apply Act.Notes.after (.ofState host.seconds)
    · exact fun _ => rfl
    · exact fun now => .ofExcept rfl

/-- A result that fails exactly when an errand is lost reports its cost. -/
theorem reports_of_result {x : Errand} {result : Except Fault StepResult}
    (hLost : x.isLost = !result.isOk)
    (hUsage : ∀ r, result = .ok r → r.usage.getD Usage.none = x.spent) :
    Call.Reports ⟨s, l, result.mapError .fault⟩ [x] := by
  cases result with
  | error f => exact (Errand.counted_of_lost hLost).symm
  | ok r => exact (hUsage r rfl).trans (Errand.counted_of_kept hLost).symm

/-- A result without a cost is reported right when nothing was asked. -/
theorem reports_nothing {result : Except Fault StepResult}
    (hUsage : ∀ r, result = .ok r → r.usage = none) :
    Call.Reports ⟨s, l, result.mapError .fault⟩ [] := by
  cases result with
  | error f => rfl
  | ok r =>
      change r.usage.getD Usage.none = Usage.none
      rw [hUsage r rfl]
      rfl

/-- The reply to a model's step is lost exactly where its output fails. -/
theorem isLost_reply (s : Step) (reply : Completion) :
    Errand.isLost ⟨.llm, s, .reply reply⟩ = !(completionOutput s.config reply.content).isOk := by
  change (readsJson s.config && Json.isOverlong reply.content) =
    !(if readsJson s.config then _ else _ : Except Fault Value).isOk
  cases readsJson s.config with
  | false => rfl
  | true =>
      unfold Json.isOverlong
      cases hRead : Json.readReply false reply.content with
      | ok found => rfl
      | error f =>
          obtain ⟨digits, rfl⟩ := Json.readReply_eq_error hRead
          rfl

theorem notes_completion :
    Act.Notes (completion (host.noting .llm s) s l b) (completion host s l b)
      fun outcome more => Call.Reports ⟨s, l, outcome⟩ more := by
  unfold completion
  apply Act.Notes.compute fun _ _ => rfl
  intro model _
  apply (notes_guard model []).after fun _ => rfl
  rintro (_ | violation)
  · apply Act.Notes.compute fun _ _ => rfl
    intro inputs _
    apply Act.Notes.compute fun _ _ => rfl
    intro message _
    apply Act.Notes.compute fun _ _ => rfl
    intro resolved _
    apply Act.Asks.attempt
    · apply Act.Asks.compute
      intro systemPrompt _
      exact .noting _ trivial
    · rfl
    · exact fun f => .pure rfl
    · intro reply _
      have hLost := isLost_reply s reply
      apply Act.Notes.compute
      · intro f hFailed
        rw [hFailed] at hLost
        exact (Errand.counted_of_lost hLost).symm
      · intro output hDone
        rw [hDone] at hLost
        exact .pure (Errand.counted_of_kept hLost).symm
  · exact .pure rfl

/-- The chunks that a search has found make a text exactly when each of them is one. -/
theorem isOk_chunkTexts (chunks : List Chunk) (position : Nat) :
    (chunkTexts position chunks).isOk = !chunks.any fun c => !c.content.isTextual := by
  induction chunks generalizing position with
  | nil => rfl
  | cons c rest ih =>
      unfold chunkTexts
      rw [List.any_cons]
      cases c.content with
      | text s =>
          have hRest := ih (position + 1)
          change _ = !(false || _)
          rw [Bool.false_or, ← hRest]
          cases chunkTexts (position + 1) rest <;> rfl
      | _ => rfl

/-- What a search has found is lost exactly where its result fails. -/
theorem isLost_findings (s : Step) (stores : List Value) (topK minScore : Value)
    (found : SearchResult) :
    Errand.isLost ⟨.rag, s, .findings found⟩ =
      !(searchOutcome stores topK minScore found).isOk := by
  change (found.chunks.any fun c => !c.content.isTextual) = _
  rw [← Bool.not_not (found.chunks.any fun c => !c.content.isTextual),
    ← isOk_chunkTexts found.chunks 0]
  unfold searchOutcome
  cases chunkTexts 0 found.chunks <;> rfl

theorem usage_of_searchOutcome {stores : List Value} {topK minScore : Value} {found : SearchResult}
    {r : StepResult} (h : searchOutcome stores topK minScore found = .ok r) :
    r.usage = some { total := found.totalTokens } := by
  obtain ⟨texts, -, hResult⟩ := exists_of_bind_eq_ok h
  cases hResult
  rfl

theorem notes_retrieval :
    Act.Notes (retrieval (host.noting .rag s) s l b) (retrieval host s l b)
      fun outcome more => Call.Reports ⟨s, l, outcome⟩ more := by
  unfold retrieval
  apply Act.Notes.compute fun _ _ => rfl
  intro stores _
  apply (notes_guard .null []).after fun _ => rfl
  rintro (_ | violation)
  · apply Act.Notes.compute fun _ _ => rfl
    intro inputs _
    apply Act.Notes.compute fun _ _ => rfl
    rintro (_ | query) _
    · exact .pure rfl
    · apply Act.Asks.attempt
      · apply Act.Asks.compute
        intro text _
        exact .noting _ trivial
      · rfl
      · exact fun f => .pure rfl
      · intro found _
        apply Act.Notes.ofExcept
        apply reports_of_result (isLost_findings s _ _ _ found)
        intro r hResult
        rw [usage_of_searchOutcome hResult]
        rfl
  · exact .pure rfl

/-- The answer of a tool costs nothing. -/
theorem notes_toolUse :
    Act.Notes (toolUse (host.noting .tool s) s l b) (toolUse host s l b)
      fun outcome more => Call.Reports ⟨s, l, outcome⟩ more := by
  unfold toolUse
  simp only
  split
  · exact .pure rfl
  apply (notes_guard .null _).after fun _ => rfl
  rintro (_ | violation)
  · apply Act.Notes.compute fun _ _ => rfl
    intro inputs _
    apply Act.Notes.compute fun _ _ => rfl
    intro params _
    apply (Act.Notes.attempt (.aside (host.callTool _))).bind
    · rintro why _ ⟨rfl, rfl⟩
      rfl
    · rintro (f | outcome) _ rfl
      · apply Act.Notes.compute fun _ _ => rfl
        exact fun shown _ => .pure rfl
      · simp only
        split
        · split
          · exact .pure rfl
          · exact .pure rfl
        · exact .pure rfl
  · exact .pure rfl

/-- A branch that is listed in a prompt has an id for a set unless that is a list or a mapping. -/
theorem isOk_id_of_branchLine {branch : Value} (hLine : (branchLine branch).isOk = true) :
    (do (Value.field (← branch.settingFields) "id").hashed : Except Fault Value).isOk =
      !isUnhashable branch := by
  unfold branchLine Value.settingFields at hLine
  unfold Value.settingFields Value.hashed isUnhashable
  cases hFields : branch.fields? with
  | none =>
      rw [hFields] at hLine
      cases hLine
  | some fields =>
      change (if (Value.field fields "id").isHashable then _ else _ : Except Fault Value).isOk =
        !!(Value.field fields "id").isHashable
      cases (Value.field fields "id").isHashable <;> rfl

/-- A router that lists its branches in a prompt collects their ids unless one is unfit for a set. -/
theorem isOk_branchIds {config : Table Value} {prompt : String}
    (hPrompt : routerPrompt ((Value.field config "branches").orElse (.list [])) = .ok prompt) :
    (branchIds ((Value.field config "branches").orElse (.list []))).isOk =
      !listsUnhashable config := by
  obtain ⟨branches, hBranches, hListed⟩ := exists_of_bind_eq_ok hPrompt
  obtain ⟨lines, hLines, -⟩ := exists_of_bind_eq_ok hListed
  have hEach : ∀ branch ∈ branches, (branchLine branch).isOk = true := by
    rw [← List.all_eq_true, ← isOk_mapM, hLines]
    rfl
  unfold branchIds listsUnhashable
  rw [hBranches]
  change (branches.mapM _ : Except Fault (List Value)).isOk = !branches.any isUnhashable
  rw [isOk_mapM, List.not_any_eq_all_not, Bool.eq_iff_iff, List.all_eq_true, List.all_eq_true]
  refine forall₂_congr fun branch hBranch => ?_
  rw [isOk_id_of_branchLine (hEach branch hBranch)]

/-- The reply to a router is lost exactly where its result fails. -/
theorem isLost_routed {s : Step} {prompt : String} (model : Value) (reply : Completion)
    (hPrompt : routerPrompt ((Value.field s.config "branches").orElse (.list [])) = .ok prompt) :
    Errand.isLost ⟨.router, s, .reply reply⟩ =
      !(replyResult model ((Value.field s.config "branches").orElse (.list [])) reply).isOk := by
  change (!reply.content.isTextual || listsUnhashable s.config) = _
  rw [← Bool.not_not (listsUnhashable s.config), ← isOk_branchIds hPrompt]
  unfold replyResult
  cases reply.content with
  | text content =>
      simp only
      cases branchIds ((Value.field s.config "branches").orElse (.list [])) <;> rfl
  | _ => rfl

theorem usage_of_replyResult {model branches : Value} {reply : Completion} {r : StepResult}
    (h : replyResult model branches reply = .ok r) : r.usage = reply.usage := by
  unfold replyResult at h
  split at h
  · obtain ⟨ids, -, hResult⟩ := exists_of_bind_eq_ok h
    cases hResult
    rfl
  · cases h

theorem usage_of_firstRoute {context : Expr.Context} {routes : List Value} {r : StepResult}
    (h : firstRoute context routes = .ok (some r)) : r.usage = none := by
  induction routes with
  | nil => cases h
  | cons route rest ih =>
      obtain ⟨fields, -, hHolds⟩ := exists_of_bind_eq_ok h
      obtain ⟨holds, -, hChosen⟩ := exists_of_bind_eq_ok hHolds
      cases holds with
      | true =>
          obtain ⟨target, -, hResult⟩ := exists_of_bind_eq_ok hChosen
          cases hResult
          rfl
      | false => exact ih hChosen

/-- A branch that is chosen by conditions costs nothing. -/
theorem usage_of_routeByCondition {r : StepResult} (h : routeByCondition s l = .ok r) :
    r.usage = none := by
  obtain ⟨routes, -, hFirst⟩ := exists_of_bind_eq_ok h
  obtain ⟨chosen, hChosen, hResult⟩ := exists_of_bind_eq_ok hFirst
  cases chosen with
  | none =>
      obtain ⟨target, -, hResult⟩ := exists_of_bind_eq_ok hResult
      cases hResult
      rfl
  | some result =>
      cases hResult
      exact usage_of_firstRoute hChosen

/-- What a router comes to, by what it has asked. It asks no model or gets no reply, or a reply that
it has listed its branches for makes its result. -/
inductive Routed (s : Step) : Except Halt StepResult → List Errand → Prop where
  | cancelled : Routed s (.error .cancelled) []
  | unasked (result : Except Fault StepResult) (hUsage : ∀ r, result = .ok r → r.usage = none) :
      Routed s (result.mapError .fault) []
  | replied {prompt : String} (model : Value) (reply : Completion)
      (hPrompt : routerPrompt ((Value.field s.config "branches").orElse (.list [])) = .ok prompt) :
      Routed s ((replyResult model ((Value.field s.config "branches").orElse (.list []))
        reply).mapError .fault) [⟨.router, s, .reply reply⟩]

theorem Routed.of_error (why : Halt) : Routed s (.error why) [] := by
  cases why with
  | fault f => exact .unasked (.error f) nofun
  | cancelled => exact .cancelled

theorem Routed.of_failure (message : String) : Routed s (.ok (.failure message)) [] :=
  .unasked (.ok (.failure message)) (by rintro _ ⟨⟩; rfl)

theorem Routed.reports {outcome : Except Halt StepResult} {more : List Errand}
    (h : Routed s outcome more) : Call.Reports ⟨s, l, outcome⟩ more := by
  cases h with
  | cancelled => rfl
  | unasked _ hUsage => exact reports_nothing hUsage
  | replied model reply hPrompt =>
      apply reports_of_result (isLost_routed model reply hPrompt)
      intro r hResult
      rw [usage_of_replyResult hResult]
      rfl

theorem notes_routed :
    Act.Notes (routing (host.noting .router s) s l b) (routing host s l b) (Routed s) := by
  unfold routing
  split
  · unfold routeByModel
    apply Act.Notes.compute fun _ _ => .of_error _
    intro model _
    apply (notes_guard model []).after fun why => .of_error why
    rintro (_ | violation)
    · apply Act.Notes.compute fun _ _ => .of_error _
      intro inputs _
      apply Act.Asks.attempt
      · apply Act.Asks.compute
        intro systemPrompt hPrompt
        apply Act.Asks.compute
        intro message _
        exact .noting _ (⟨_, hPrompt⟩ : ∃ prompt, routerPrompt _ = .ok prompt)
      · exact .cancelled
      · exact fun f => .pure (.of_failure _)
      · rintro reply ⟨prompt, hPrompt⟩
        exact .ofExcept (.replied model reply hPrompt)
    · exact .pure (.of_failure _)
  · exact .ofExcept (.unasked _ fun _ => usage_of_routeByCondition)

theorem notes_routing :
    Act.Notes (routing (host.noting .router s) s l b) (routing host s l b)
      fun outcome more => Call.Reports ⟨s, l, outcome⟩ more :=
  notes_routed.mono fun _ _ h => h.reports

theorem notes_rules :
    Act.Notes (rules s l b) (rules (σ := σ) s l b)
      fun outcome more => Call.Reports ⟨s, l, outcome⟩ more := by
  apply Act.Notes.ofExcept
  apply reports_nothing
  intro r hResult
  obtain ⟨inputs, -, hResult⟩ := exists_of_bind_eq_ok hResult
  obtain ⟨checks, -, hResult⟩ := exists_of_bind_eq_ok hResult
  obtain ⟨ruling, -, hResult⟩ := exists_of_bind_eq_ok hResult
  cases hResult
  rfl

theorem notes_reshape :
    Act.Notes (reshape s l b) (reshape (σ := σ) s l b)
      fun outcome more => Call.Reports ⟨s, l, outcome⟩ more := by
  apply Act.Notes.ofExcept
  apply reports_nothing
  intro r hResult
  obtain ⟨inputs, -, hResult⟩ := exists_of_bind_eq_ok hResult
  cases hReshaped : reshaped s.config ((Value.field s.config "operation").orElse (.text "passthrough"))
      inputs l.context with
  | error f =>
      rw [hReshaped] at hResult
      cases hResult
      rfl
  | ok output =>
      rw [hReshaped] at hResult
      cases hResult
      rfl

end Executor

/-- Every built-in executor reports what its errands have cost, the lost ones aside. -/
theorem Builtin.notes_executor (host : Host σ) (kind : Builtin) (s : Step) (l : Ledger) (b : Budget) :
    Act.Notes (kind.executor (host.noting kind s) s l b) (kind.executor host s l b)
      fun outcome more => Call.Reports ⟨s, l, outcome⟩ more := by
  cases kind with
  | llm => exact Executor.notes_completion
  | rag => exact Executor.notes_retrieval
  | deterministic => exact Executor.notes_rules (b := b)
  | tool => exact Executor.notes_toolUse
  | router => exact Executor.notes_routing
  | transform => exact Executor.notes_reshape (b := b)

end StepFlow
