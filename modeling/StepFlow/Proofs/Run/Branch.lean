import StepFlow.Proofs.Flow.Target
import StepFlow.Proofs.Run.Spending
import StepFlow.Proofs.Text.Trim

/-! The branch that a model's reply names. A reply that spells an id, alone or between quotes, makes
a run follow the branch of that id. Two things can be in the way: quotes in the id itself, for these
are dropped as well, and a listed branch whose id no set can hold. -/
namespace StepFlow

variable {σ : Type}

namespace Executor

def isQuote (c : Char) : Bool := c = '"' || c = '\''

def Quoteless (id : String) : Prop := ∀ c ∈ id.toList, isQuote c = false

/-- The ways to spell an id in a reply: alone or between a pair of quotes, with blanks around it. -/
inductive Spells (id reply : String) : Prop where
  | bare {left right : List Char} (hLeft : ∀ c ∈ left, Text.isBlank c = true)
      (hRight : ∀ c ∈ right, Text.isBlank c = true)
      (hReply : reply.toList = left ++ (id.toList ++ right))
  | quoted {left right : List Char} {quote : Char} (hLeft : ∀ c ∈ left, Text.isBlank c = true)
      (hRight : ∀ c ∈ right, Text.isBlank c = true) (hQuote : isQuote quote = true)
      (hReply : reply.toList = left ++ (quote :: (id.toList ++ [quote]) ++ right))

variable {id reply : String}

theorem selectedBranch_eq (reply : String) :
    selectedBranch reply = String.ofList ((Text.trim reply.toList).filter fun c => !isQuote c) := by
  unfold selectedBranch isQuote
  congr 2
  funext c
  simp

theorem isBlank_of_isQuote {c : Char} (h : isQuote c = true) : Text.isBlank c = false := by
  unfold isQuote at h
  rw [Bool.or_eq_true, decide_eq_true_eq, decide_eq_true_eq] at h
  rcases h with rfl | rfl
  · rfl
  · rfl

/-- What is selected by a reply that spells an id is the id without its quotes. -/
theorem selectedBranch_of_spells (hTrimmed : Text.trim id.toList = id.toList)
    (h : Spells id reply) :
    selectedBranch reply = String.ofList (id.toList.filter fun c => !isQuote c) := by
  rw [selectedBranch_eq]
  cases h with
  | bare hLeft hRight hReply => rw [hReply, Text.trim_around hLeft hRight, hTrimmed]
  | @quoted _ _ quote hLeft hRight hQuote hReply =>
      have hFull := isBlank_of_isQuote hQuote
      have hEnd : quote :: (id.toList ++ [quote]) = (quote :: id.toList) ++ [quote] := rfl
      have hBody : Text.trim (quote :: (id.toList ++ [quote])) = quote :: (id.toList ++ [quote]) :=
        Text.trim_of_ends hFull hFull rfl hEnd
      rw [hReply, Text.trim_around hLeft hRight, hBody]
      simp [hQuote]

theorem selectedBranch_eq_iff (hTrimmed : Text.trim id.toList = id.toList) (h : Spells id reply) :
    selectedBranch reply = id ↔ Quoteless id := by
  rw [selectedBranch_of_spells hTrimmed h, ← String.toList_inj, String.toList_ofList,
    List.filter_eq_self]
  simp [Quoteless]

/-- A text makes no result that has failed, and one that goes on with what is selected, if that is
anything. -/
theorem replyResult_ok {model branches : Value} {usage : Option Usage} {r : StepResult}
    (h : replyResult model branches ⟨.text reply, usage⟩ = .ok r) : r.error = none ∧
      r.nextBranch =
        if (selectedBranch reply).isEmpty then .null else .text (selectedBranch reply) := by
  unfold replyResult at h
  simp only at h
  obtain ⟨ids, -, hResult⟩ := exists_of_bind_eq_ok h
  simp only [← Except.ok.inj hResult, and_self]

/-- A reply that spells an id makes a result that goes on with it unless there are quotes in the id,
or a branch is listed that no set can hold. -/
theorem replyResult_goes_on_iff {s : Step} {prompt : String} (model : Value) (usage : Option Usage)
    (hId : id ≠ "") (hTrimmed : Text.trim id.toList = id.toList) (hSpells : Spells id reply)
    (hPrompt : routerPrompt ((Value.field s.config "branches").orElse (.list [])) = .ok prompt) :
    (∃ r, replyResult model ((Value.field s.config "branches").orElse (.list []))
        ⟨.text reply, usage⟩ = .ok r ∧ r.nextBranch = .text id) ↔
      Quoteless id ∧ listsUnhashable s.config = false := by
  have hLost : listsUnhashable s.config = !(replyResult model _ ⟨.text reply, usage⟩).isOk :=
    isLost_routed model ⟨.text reply, usage⟩ hPrompt
  rw [hLost, ← selectedBranch_eq_iff hTrimmed hSpells]
  cases hResult : replyResult model ((Value.field s.config "branches").orElse (.list []))
      ⟨.text reply, usage⟩ with
  | error f => simp [Except.isOk, Except.toBool]
  | ok r =>
      have hChosen : r.nextBranch = .text id ↔ selectedBranch reply = id := by
        rw [(replyResult_ok hResult).2]
        split
        · rename_i hEmpty
          rw [String.isEmpty_iff.mp hEmpty]
          simp [hId.symm]
        · simp
      simp [Except.isOk, Except.toBool, hChosen]

end Executor

namespace Plan

variable {plan : Plan σ} {host : Host σ} {item id reply : String} {p q : Progress σ} {s : Step}

/-- A router that goes on with a step queues its branch, of which the step is the first. -/
theorem visit_of_chosen {executor : Executor σ} {world : σ} {r : StepResult}
    (hCleared : plan.Cleared item p s q) (hServed : plan.executors s.type = some executor)
    (hCall : plan.call executor s q = (.ok r, world)) (hRouter : s.type = Flow.routerType)
    (hFailed : r.failed = false) (hBranch : r.nextBranch = .text id) (hId : id ≠ "")
    (hStep : (plan.flow.step? id).isSome = true)
    (hCheck : plan.budget.checkAfter (plan.settled s q world r).ledger = .ok none) :
    plan.visit item p = .goesOn (plan.withBranch s id (plan.settled s q world r)) := by
  have hAnswered : plan.call executor s q =
      ((Except.ok r : Except Fault StepResult).mapError .fault, world) := hCall
  have hTarget : plan.chosenTarget s r = .ok (some id) := by
    simp [chosenTarget, hRouter, hBranch, hStep, Value.isVoid, hId]
  rw [visit_of_answered hCleared hServed hAnswered]
  unfold afterResult
  simp only [resultOf, hCheck, hTarget, hFailed]
  rfl

theorem mem_pending_withBranch (s : Step) (w : Progress σ) (hId : id ≠ "")
    (hStep : (plan.flow.step? id).isSome = true) :
    id ∈ (plan.withBranch s id w).pending ∨ w.ledger.has id = true := by
  cases hRan : w.ledger.has id with
  | true => exact .inr rfl
  | false =>
      left
      have hFirst : (plan.flow.chainFrom id).head? = some id :=
        Flow.head?_chain (by simpa [String.isEmpty_iff] using hId) rfl
      change id ∈ w.pending ++ plan.branchFrom w.ledger id
      apply List.mem_append_right
      exact List.mem_filter.mpr ⟨List.mem_of_mem_head? hFirst, by simp [hStep, hRan]⟩

/-- Where the reply to a router spells an id, the router goes on with that id just when there are no
quotes in it and every listed id can be held by a set. The run then follows the branch of the id, if
it is that of a step. -/
theorem reply_followed_iff {usage : Option Usage} {outcome : Except Halt StepResult} {world : σ}
    {errands : List Errand} (hCleared : plan.Cleared item p s q)
    (hServed : plan.executors s.type = some (Executor.routing host))
    (hRouter : s.type = Flow.routerType) (hId : id ≠ "")
    (hTrimmed : Text.trim id.toList = id.toList) (hSpells : Executor.Spells id reply)
    (hNoted : (Executor.routing (host.noting .router s) s q.ledger plan.budget).perform
      ((plan.host.stamp.run q.world).2, []) = (outcome, world, errands))
    (hReply : ⟨.router, s, .reply ⟨.text reply, usage⟩⟩ ∈ errands) :
    plan.call (Executor.routing host) s q = (outcome, world) ∧
    ((∃ r, outcome = .ok r ∧ r.nextBranch = .text id) ↔
      Executor.Quoteless id ∧ Executor.listsUnhashable s.config = false) ∧
    ∀ r, outcome = .ok r → r.nextBranch = .text id → (plan.flow.step? id).isSome = true →
      plan.budget.checkAfter (plan.settled s q world r).ledger = .ok none →
        plan.visit item p = .goesOn (plan.withBranch s id (plan.settled s q world r)) ∧
        (id ∈ (plan.withBranch s id (plan.settled s q world r)).pending ∨
          (plan.settled s q world r).ledger.has id = true) := by
  have hNotes : Act.Notes (Executor.routing (host.noting .router s) s q.ledger plan.budget)
      (Executor.routing host s q.ledger plan.budget) (Executor.Routed s) := Executor.notes_routed
  obtain ⟨more, hPerform, hRouted⟩ := hNotes ((plan.host.stamp.run q.world).2, [])
  rw [hNoted] at hPerform
  obtain ⟨hOutcome, hRest⟩ := Prod.mk.inj hPerform
  obtain ⟨hWorld, hErrands⟩ := Prod.mk.inj hRest
  have hCall : plan.call (Executor.routing host) s q = (outcome, world) :=
    Prod.ext hOutcome.symm hWorld.symm
  rw [← hOutcome, ← List.nil_append more, ← hErrands] at hRouted
  refine ⟨hCall, ?_⟩
  cases hRouted with
  | cancelled => cases hReply
  | unasked => cases hReply
  | replied model noted hPrompt =>
      cases List.mem_singleton.mp hReply
      refine ⟨?_, ?_⟩
      · rw [← Executor.replyResult_goes_on_iff model usage hId hTrimmed hSpells hPrompt]
        simp only [Act.mapError_eq_ok_iff]
      · intro r hDone hBranch hStep hCheck
        have hFailed : r.failed = false := by
          unfold StepResult.failed
          rw [(Executor.replyResult_ok (Act.mapError_eq_ok_iff.mp hDone)).1]
        rw [hDone] at hCall
        exact ⟨visit_of_chosen hCleared hServed hCall hRouter hFailed hBranch hId hStep hCheck,
          mem_pending_withBranch s _ hId hStep⟩

end Plan

namespace Engine

/-- A router that has a model choose, and lists one branch. -/
def chooser (id : String) : Step :=
  ⟨"choose", Flow.routerType, [("routingMode", .text "llm"), ("model", .text "m"),
    ("branches", .list [.map [("id", .text id)]])], none, none, .unset, []⟩

/-- A run of that router, with a step that only the branch leads to. -/
def choosing (id : String) : Job :=
  { soleRouter with
    flow := ⟨[⟨id, "transform", [], none, none, .unset, []⟩, chooser id], some "choose"⟩ }

/-- An engine whose model always gives one reply. -/
def echoing (reply : String) : Engine Unit :=
  builtin (replying ⟨.text reply, none⟩) Builtin.ofType? listRouting.settings

/-- The plan of a run in which the model gives one reply. -/
def fork (id reply : String) : Plan Unit := ((echoing reply).opening (choosing id) ()).1

/-- The run where the router's turn has come. -/
def atFork (id reply : String) : Progress Unit :=
  { ((echoing reply).opening (choosing id) ()).2 with pending := [] }

theorem cleared_fork (id reply : String) :
    (fork id reply).Cleared "choose" (atFork id reply) (chooser id) (atFork id reply) := by
  have hDue : (fork id reply).Due "choose" (atFork id reply) (chooser id) :=
    ⟨(by decide : (0 : Int) < 50), rfl, rfl⟩
  exact { hDue with timely := rfl, admitted := nofun }

/-- The router asks, and its reply is noted. -/
theorem perform_chooser (id reply : String) (l : Ledger) : ∃ outcome,
    (Executor.routing ((replying ⟨.text reply, none⟩).noting .router (chooser id)) (chooser id) l
        ⟨.unlimited, 0.0⟩).perform ((), []) =
      (outcome, (), [⟨.router, chooser id, .reply ⟨.text reply, none⟩⟩]) := ⟨_, rfl⟩

/-- A reply in quotes and blanks is followed. -/
theorem quoted_reply_followed : ∃ r w,
    (fork "bill" " \"bill\" ").call (Executor.routing (replying ⟨.text " \"bill\" ", none⟩))
        (chooser "bill") (atFork "bill" " \"bill\" ") = (.ok r, ()) ∧
      r.nextBranch = .text "bill" ∧
      (fork "bill" " \"bill\" ").visit "choose" (atFork "bill" " \"bill\" ") = .goesOn w ∧
      "bill" ∈ w.pending := by
  have hBlank : ∀ c ∈ [' '], Text.isBlank c = true := List.forall_mem_singleton.mpr rfl
  have hQuote : Executor.isQuote '"' = true := rfl
  have hSpells : Executor.Spells "bill" " \"bill\" " := .quoted hBlank hBlank hQuote rfl
  obtain ⟨outcome, hNoted⟩ :=
    perform_chooser "bill" " \"bill\" " (atFork "bill" " \"bill\" ").ledger
  obtain ⟨hCall, hGoes, hFollowed⟩ :=
    Plan.reply_followed_iff (cleared_fork "bill" " \"bill\" ") rfl rfl (by decide) (by decide)
      hSpells hNoted (List.mem_singleton_self _)
  obtain ⟨r, rfl, hBranch⟩ := hGoes.mpr ⟨by simp [Executor.Quoteless, Executor.isQuote], rfl⟩
  obtain ⟨hVisit, hQueued⟩ := hFollowed r rfl hBranch rfl rfl
  exact ⟨r, _, hCall, hBranch, hVisit, hQueued.resolve_right nofun⟩

/-- A model replies with the id that is listed, and the apostrophe in it is dropped. The run does not
go to the step of that id. -/
theorem apostrophe_dropped :
    Flow.Names (chooser "it's").config (.text "it's") ∧
    Text.trim "it's".toList = "it's".toList ∧ Executor.Spells "it's" "it's" ∧
    ((fork "it's" "it's").flow.step? "it's").isSome = true ∧
    ∃ r w, (fork "it's" "it's").call (Executor.routing (replying ⟨.text "it's", none⟩))
        (chooser "it's") (atFork "it's" "it's") = (.ok r, ()) ∧
      r.nextBranch = .text "its" ∧ r.nextBranch ≠ .text "it's" ∧
      (fork "it's" "it's").visit "choose" (atFork "it's" "it's") = .goesOn w ∧ w.pending = [] := by
  have hNone : ∀ c ∈ ([] : List Char), Text.isBlank c = true := nofun
  refine ⟨.listed (v := .map [("id", .text "it's")]) rfl (List.mem_singleton_self _) rfl rfl rfl,
    by decide, .bare hNone hNone rfl, rfl, _, _, rfl, rfl, ?_, rfl, rfl⟩
  exact fun hSame => absurd (Value.text.inj hSame) (by decide)

end Engine

end StepFlow
