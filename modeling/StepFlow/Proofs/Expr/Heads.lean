import StepFlow.Expr.Template
import StepFlow.Proofs.Expr.Meaning

/-! What a text reads of a context: the names that its paths begin with. Two contexts that say the
same of these names give it the same value or the same fault, be it well formed or not. Templates
and conditions read what the expressions in them read. -/
namespace StepFlow.Expr

/-- The name that an operand begins with, if it is a path. -/
def Operand.head? : Operand → Option String
  | .literal _ => none
  | .path head _ => some head

/-- The names that the paths of an expression begin with. -/
def heads (expression : String) : List String :=
  (Item.operands (Item.ofTokens (Token.scan (Text.trim expression.toList)))).filterMap Operand.head?

/-- Two contexts say the same of some names. What a context does not hold it says to be null. -/
def Agree (names : List String) (c d : Context) : Prop :=
  ∀ name ∈ names, Value.field c name = Value.field d name

variable {names more : List String} {c d : Context}

theorem Agree.mono (h : Agree names c d) (hMore : more ⊆ names) : Agree more c d :=
  fun name hName => h name (hMore hName)

theorem agree_append : Agree (names ++ more) c d ↔ Agree names c d ∧ Agree more c d :=
  List.forall_mem_append

/-- An operand reads no name but its head. -/
theorem Operand.value_congr {a : Operand} (h : Agree a.head?.toList c d) : a.value c = a.value d := by
  cases a with
  | literal v => rfl
  | path head rest =>
      have hHead : Value.field c head = Value.field d head := h head (List.mem_singleton_self head)
      unfold Operand.value Value.path Value.segment
      simp only [hHead]

/-- Items are read through their operands. -/
theorem Item.resolve_congr {items : List (Item Operand)}
    (h : Agree ((Item.operands items).filterMap Operand.head?) c d) :
    Item.resolve c items = Item.resolve d items := by
  induction items with
  | nil => rfl
  | cons item items ih =>
      rw [operands_cons, List.filterMap_append, agree_append] at h
      obtain ⟨hItem, hItems⟩ := h
      have hTraverse : traverse (Operand.value c) item = traverse (Operand.value d) item := by
        cases item with
        | operand a =>
            have hValue : a.value c = a.value d := by
              apply Operand.value_congr
              cases a <;> exact hItem
            simp only [traverse, hValue]
        | relation | and | or | not | opening | closing => rfl
      unfold resolve at ih ⊢
      rw [List.mapM_cons, List.mapM_cons, hTraverse, ih hItems]

/-- An expression has one value, or one fault, in all contexts that agree on what it reads. -/
theorem evaluate?_congr {text : String} (h : Agree (heads text) c d) :
    evaluate? text c = evaluate? text d := by
  unfold evaluate? evaluateTokens
  rw [Item.resolve_congr h]

theorem evaluate_congr {text : String} (h : Agree (heads text) c d) :
    evaluate text c = evaluate text d := by
  unfold evaluate
  rw [evaluate?_congr h]

namespace Template

/-- The names that a segment reads. -/
def segmentHeads : Segment → List String
  | .plain _ => []
  | .placeholder expression => Expr.heads (String.ofList expression)

/-- The names that the placeholders of a template read. -/
def heads (template : String) : List String :=
  let cs := Text.trim template.toList
  match Placeholder.whole? cs with
  | some expression => Expr.heads (String.ofList expression)
  | none => (segments cs).flatMap segmentHeads

theorem segmentText_congr {s : Segment} (h : Agree (segmentHeads s) c d) :
    segmentText c s = segmentText d s := by
  cases s with
  | plain => rfl
  | placeholder expression =>
      have hSame : evaluate (String.ofList expression) c = evaluate (String.ofList expression) d :=
        evaluate_congr h
      simp only [segmentText, hSame]

theorem fill_congr {ss : List Segment} (h : Agree (ss.flatMap segmentHeads) c d) :
    fill c ss = fill d ss := by
  induction ss with
  | nil => rfl
  | cons s ss ih =>
      rw [List.flatMap_cons, agree_append] at h
      unfold fill
      rw [segmentText_congr h.1, ih h.2]

/-- A template comes to the same in all contexts that agree on what its placeholders read. -/
theorem resolve_congr {template : String} (h : Agree (heads template) c d) :
    resolve template c = resolve template d := by
  unfold heads at h
  unfold resolve
  cases hWhole : Placeholder.whole? (Text.trim template.toList) with
  | some expression =>
      simp only [hWhole] at h
      simp only [hWhole, evaluate_congr h]
  | none =>
      simp only [hWhole] at h
      simp only [hWhole, fill_congr h]

end Template

end StepFlow.Expr
