import StepFlow.Proofs.Expr.Condition
import StepFlow.Proofs.Expr.Truth
import StepFlow.Proofs.Value.Ordering

/-! How an expression can fail. Any text is scanned, mended and read, so nothing is wrong with it
before its paths are read. Then there are two ways only: an attribute of a record raises something
when it is read, or an integer beyond the range of doubles is tested or ordered. -/
namespace StepFlow

namespace Value

/-- A record raises something when one of its attributes is read. -/
def FailsAt (v : Value) (name why : String) : Prop :=
  ∃ mark shown attributes failing, v = .record mark shown attributes failing ∧
    name.toList.head? ≠ some '_' ∧ Table.get? failing name = some why

/-- On the way of some names into a value, an attribute is read that raises something. -/
inductive Breaks : Value → List String → String → Prop where
  | here {v : Value} {name why : String} (rest : List String) (hFails : v.FailsAt name why) :
      Breaks v (name :: rest) why
  | later {v w : Value} {name why : String} {rest : List String} (hStep : v.segment name = .ok w)
      (hRest : Breaks w rest why) : Breaks v (name :: rest) why

/-- Reading an attribute fails exactly where it is one of those that raise something. -/
theorem readAttribute_eq_error_iff {attributes : Table Value} {failing : Table String}
    {name : String} {f : Fault} :
    readAttribute attributes failing name = .error f ↔
      ∃ why, (name.toList.head? ≠ some '_' ∧ failing.get? name = some why) ∧ f = .raised why := by
  unfold readAttribute
  by_cases hHidden : name.toList.head? = some '_'
  · simp [hHidden]
  · cases hFailing : failing.get? name with
    | none => simp [hHidden]
    | some why => simp [hHidden, eq_comm]

theorem segment_eq_error_iff {v : Value} {name : String} {f : Fault} :
    v.segment name = .error f ↔ ∃ why, v.FailsAt name why ∧ f = .raised why := by
  unfold FailsAt
  cases v with
  | record mark shown attributes failing =>
      simp [segment, readAttribute_eq_error_iff]
  | timestamp t | bytes content | set members =>
      simp [segment, readAttribute_eq_error_iff, Table.get?]
  | _ => simp [segment]

/-- Null is no exception: what is read into it is null again. -/
theorem path_cons (v : Value) (name : String) (rest : List String) :
    v.path (name :: rest) = v.segment name >>= fun w => w.path rest := by
  cases v with
  | null => cases rest <;> rfl
  | _ => rfl

theorem path_eq_error_iff {v : Value} {names : List String} {f : Fault} :
    v.path names = .error f ↔ ∃ why, v.Breaks names why ∧ f = .raised why := by
  induction names generalizing v with
  | nil =>
      refine iff_of_false nofun ?_
      rintro ⟨why, hBreaks, -⟩
      cases hBreaks
  | cons name rest ih =>
      rw [path_cons]
      cases hStep : v.segment name with
      | error g =>
          obtain ⟨why, hFails, rfl⟩ := segment_eq_error_iff.mp hStep
          constructor
          · rintro ⟨⟩
            exact ⟨why, .here rest hFails, rfl⟩
          · rintro ⟨why', hBreaks, rfl⟩
            cases hBreaks with
            | here _ hFails' =>
                rw [← segment_eq_error_iff.mpr ⟨why', hFails', rfl⟩, hStep]
                rfl
            | later hStep' hRest =>
                rw [hStep] at hStep'
                cases hStep'
      | ok w =>
          change w.path rest = .error f ↔ _
          rw [ih]
          refine exists_congr fun why => and_congr_left fun _ => ⟨.later hStep, fun hBreaks => ?_⟩
          cases hBreaks with
          | here _ hFails =>
              rw [segment_eq_error_iff.mpr ⟨why, hFails, rfl⟩] at hStep
              cases hStep
          | later hStep' hRest =>
              rw [hStep] at hStep'
              cases hStep'
              exact hRest

end Value

namespace Expr

/-- A tree and the trees below its operators. -/
def parts {α : Type} : Expr α → List (Expr α)
  | .leaf a => [.leaf a]
  | .not e => .not e :: parts e
  | .relate r left right => .relate r left right :: (parts left ++ parts right)
  | .and left right => .and left right :: (parts left ++ parts right)
  | .or left right => .or left right :: (parts left ++ parts right)

theorem self_mem_parts {α : Type} (e : Expr α) : e ∈ e.parts := by
  cases e <;> exact List.mem_cons_self

/-- What passes from the operands of every operator to the whole passes from any part of a tree. -/
theorem of_mem_parts {α : Type} (holds : Expr α → Prop)
    (hNot : ∀ e, holds e → holds (.not e))
    (hRelate : ∀ r left right, holds left ∨ holds right → holds (.relate r left right))
    (hAnd : ∀ left right, holds left ∨ holds right → holds (.and left right))
    (hOr : ∀ left right, holds left ∨ holds right → holds (.or left right))
    {e part : Expr α} (hPart : part ∈ e.parts) (h : holds part) : holds e := by
  induction e with
  | leaf a => rwa [← List.mem_singleton.mp hPart]
  | not e ih =>
      rcases List.mem_cons.mp hPart with rfl | hBelow
      · exact h
      · exact hNot e (ih hBelow)
  | relate r left right ihLeft ihRight =>
      rcases List.mem_cons.mp hPart with rfl | hBelow
      · exact h
      · exact hRelate r left right ((List.mem_append.mp hBelow).imp ihLeft ihRight)
  | and left right ihLeft ihRight =>
      rcases List.mem_cons.mp hPart with rfl | hBelow
      · exact h
      · exact hAnd left right ((List.mem_append.mp hBelow).imp ihLeft ihRight)
  | or left right ihLeft ihRight =>
      rcases List.mem_cons.mp hPart with rfl | hBelow
      · exact h
      · exact hOr left right ((List.mem_append.mp hBelow).imp ihLeft ihRight)

/-- The operator of a tree asks for the truth of a value, or for its place in an order. There is no
order beside null. -/
inductive Tests (context : Context) : Expr Operand → Value → Prop where
  | not {e : Expr Operand} {v : Value} (hInner : Denotes context e v) : Tests context (.not e) v
  | and {left : Expr Operand} {v : Value} (right : Expr Operand) (hLeft : Denotes context left v) :
      Tests context (.and left right) v
  | or {left : Expr Operand} {v : Value} (right : Expr Operand) (hLeft : Denotes context left v) :
      Tests context (.or left right) v
  | orderLeft {r : Relation} {left right : Expr Operand} {v w : Value} (hOrders : r.Orders)
      (hLeft : Denotes context left v) (hRight : Denotes context right w) (hPresent : w ≠ .null) :
      Tests context (.relate r left right) v
  | orderRight {r : Relation} {left right : Expr Operand} {v w : Value} (hOrders : r.Orders)
      (hLeft : Denotes context left v) (hRight : Denotes context right w) (hPresent : v ≠ .null) :
      Tests context (.relate r left right) w

/-- Somewhere in a tree, an integer beyond the range of doubles is tested or ordered. -/
def Overflows (context : Context) (e : Expr Operand) : Prop :=
  ∃ part ∈ e.parts, ∃ n, Tests context part (.int n) ∧ Number.rangeEnd ≤ n.natAbs

variable {context : Context}

theorem Tests.raises {e : Expr Operand} {n : Int} (h : Tests context e (.int n))
    (hBeyond : Number.rangeEnd ≤ n.natAbs) : Raises context e .integerTooLarge := by
  have hTruth : (Value.int n).truth = .error .integerTooLarge :=
    Value.truth_eq_error_iff_beyond.mpr ⟨rfl, n, rfl, hBeyond⟩
  generalize hValue : Value.int n = v at h
  cases h with
  | not hInner => exact .notTruth hInner (hValue ▸ hTruth)
  | and right hLeft => exact .andTruth hLeft (hValue ▸ hTruth)
  | or right hLeft => exact .orTruth hLeft (hValue ▸ hTruth)
  | orderLeft hOrders hLeft hRight hPresent =>
      exact .order hLeft hRight (Value.relate_eq_error_iff.mpr
        ⟨rfl, hOrders, hValue ▸ nofun, hPresent, n, .inl hValue.symm, hBeyond⟩)
  | orderRight hOrders hLeft hRight hPresent =>
      exact .order hLeft hRight (Value.relate_eq_error_iff.mpr
        ⟨rfl, hOrders, hPresent, hValue ▸ nofun, n, .inr hValue.symm, hBeyond⟩)

theorem raises_of_mem_parts {e part : Expr Operand} {f : Fault} (hPart : part ∈ e.parts)
    (h : Raises context part f) : Raises context e f := by
  apply of_mem_parts (fun e => Raises context e f) _ _ _ _ hPart h
  · exact fun _ => .inNot
  · exact fun _ _ _ hBelow => hBelow.elim .relateLeft .relateRight
  · exact fun _ _ hBelow => hBelow.elim .andLeft .andRight
  · exact fun _ _ hBelow => hBelow.elim .orLeft .orRight

theorem leaves_of_mem_parts {e part : Expr Operand} (hPart : part ∈ e.parts) :
    part.leaves ⊆ e.leaves := by
  intro a hLeaf
  apply of_mem_parts (fun e => a ∈ e.leaves) _ _ _ _ hPart hLeaf
  · exact fun _ hBelow => hBelow
  · exact fun _ _ _ => List.mem_append.mpr
  · exact fun _ _ => List.mem_append.mpr
  · exact fun _ _ => List.mem_append.mpr

theorem Overflows.mono {e e' : Expr Operand} (h : Overflows context e) (hSub : e.parts ⊆ e'.parts) :
    Overflows context e' := by
  obtain ⟨part, hPart, hTested⟩ := h
  exact ⟨part, hSub hPart, hTested⟩

theorem Tests.overflows {e : Expr Operand} {n : Int} (h : Tests context e (.int n))
    (hBeyond : Number.rangeEnd ≤ n.natAbs) : Overflows context e :=
  ⟨e, self_mem_parts e, n, h, hBeyond⟩

/-- Where every path can be read, the only fault in a tree is an integer that is too large. -/
theorem overflows_of_raises {e : Expr Operand} {f : Fault} (h : Raises context e f)
    (hRead : ∀ a ∈ e.leaves, ∀ f, a.value context ≠ .error f) :
    f = .integerTooLarge ∧ Overflows context e := by
  have hTruths : ∀ {e e' : Expr Operand} {v : Value} {f : Fault}, v.truth = .error f →
      Denotes context e v → (∀ {n}, Denotes context e (.int n) → Tests context e' (.int n)) →
      f = .integerTooLarge ∧ Overflows context e' := by
    intro e e' v f hTruth hDenotes hTests
    obtain ⟨rfl, n, rfl, hBeyond⟩ := Value.truth_eq_error_iff_beyond.mp hTruth
    exact ⟨rfl, (hTests hDenotes).overflows hBeyond⟩
  have hLeftPart : ∀ left right e : Expr Operand,
      left.parts ⊆ e :: (left.parts ++ right.parts) := fun left right _ =>
    List.subset_cons_of_subset _ (List.subset_append_left left.parts right.parts)
  have hRightPart : ∀ left right e : Expr Operand,
      right.parts ⊆ e :: (left.parts ++ right.parts) := fun left right _ =>
    List.subset_cons_of_subset _ (List.subset_append_right left.parts right.parts)
  induction h with
  | @path a f hFault => exact absurd hFault (hRead a (List.mem_singleton_self a) f)
  | inNot _ ih => exact (ih hRead).imp_right (·.mono (List.subset_cons_self _ _))
  | notTruth hInner hTruth => exact hTruths hTruth hInner .not
  | relateLeft _ ih =>
      exact (ih (List.forall_mem_append.mp hRead).1).imp_right (·.mono (hLeftPart _ _ _))
  | relateRight _ ih =>
      exact (ih (List.forall_mem_append.mp hRead).2).imp_right (·.mono (hRightPart _ _ _))
  | order hLeft hRight hRelated =>
      obtain ⟨rfl, hOrders, hFirst, hSecond, n, rfl | rfl, hBeyond⟩ :=
        Value.relate_eq_error_iff.mp hRelated
      · exact ⟨rfl, (Tests.orderLeft hOrders hLeft hRight hSecond).overflows hBeyond⟩
      · exact ⟨rfl, (Tests.orderRight hOrders hLeft hRight hFirst).overflows hBeyond⟩
  | andLeft _ ih =>
      exact (ih (List.forall_mem_append.mp hRead).1).imp_right (·.mono (hLeftPart _ _ _))
  | andRight _ ih =>
      exact (ih (List.forall_mem_append.mp hRead).2).imp_right (·.mono (hRightPart _ _ _))
  | andTruth hLeft hTruth => exact hTruths hTruth hLeft (.and _)
  | orLeft _ ih =>
      exact (ih (List.forall_mem_append.mp hRead).1).imp_right (·.mono (hLeftPart _ _ _))
  | orRight _ ih =>
      exact (ih (List.forall_mem_append.mp hRead).2).imp_right (·.mono (hRightPart _ _ _))
  | orTruth hLeft hTruth => exact hTruths hTruth hLeft (.or _)

theorem Overflows.raises {e : Expr Operand} (h : Overflows context e) :
    Raises context e .integerTooLarge := by
  obtain ⟨part, hPart, n, hTests, hBeyond⟩ := h
  exact raises_of_mem_parts hPart (hTests.raises hBeyond)

/-- An integer that a tree has for a value is that of one of its operands. -/
theorem exists_leaf_of_int {e : Expr Operand} {n : Int} (h : Denotes context e (.int n)) :
    ∃ a ∈ e.leaves, a.value context = .ok (.int n) := by
  generalize hValue : Value.int n = v at h
  induction h with
  | @leaf a v hRead => exact ⟨a, List.mem_singleton_self a, hValue ▸ hRead⟩
  | not => cases hValue
  | relate => cases hValue
  | @and left right v w b _ _ _ ihLeft ihRight =>
      cases b with
      | true =>
          obtain ⟨a, hLeaf, hRead⟩ := ihRight hValue
          exact ⟨a, List.mem_append_right _ hLeaf, hRead⟩
      | false =>
          obtain ⟨a, hLeaf, hRead⟩ := ihLeft hValue
          exact ⟨a, List.mem_append_left _ hLeaf, hRead⟩
  | @or left right v w b _ _ _ ihLeft ihRight =>
      cases b with
      | true =>
          obtain ⟨a, hLeaf, hRead⟩ := ihLeft hValue
          exact ⟨a, List.mem_append_left _ hLeaf, hRead⟩
      | false =>
          obtain ⟨a, hLeaf, hRead⟩ := ihRight hValue
          exact ⟨a, List.mem_append_right _ hLeaf, hRead⟩

/-- So is an integer that is tested or ordered. -/
theorem Tests.exists_leaf {e : Expr Operand} {n : Int} (h : Tests context e (.int n)) :
    ∃ a ∈ e.leaves, a.value context = .ok (.int n) := by
  generalize hValue : Value.int n = v at h
  cases h with
  | not hInner =>
      subst hValue
      obtain ⟨a, hLeaf, hRead⟩ := exists_leaf_of_int hInner
      exact ⟨a, hLeaf, hRead⟩
  | and right hLeft | or right hLeft | orderLeft _ hLeft =>
      subst hValue
      obtain ⟨a, hLeaf, hRead⟩ := exists_leaf_of_int hLeft
      exact ⟨a, List.mem_append_left _ hLeaf, hRead⟩
  | orderRight _ _ hRight =>
      subst hValue
      obtain ⟨a, hLeaf, hRead⟩ := exists_leaf_of_int hRight
      exact ⟨a, List.mem_append_right _ hLeaf, hRead⟩

namespace Operand

/-- Reading an operand raises something: a path breaks, literals never do. -/
def Breaks (context : Context) (why : String) : Operand → Prop
  | .literal _ => False
  | .path head rest => (Value.map context).Breaks (head :: rest) why

theorem value_eq_error_iff {a : Operand} {f : Fault} :
    a.value context = .error f ↔ ∃ why, a.Breaks context why ∧ f = .raised why := by
  cases a with
  | literal v => simp [value, Breaks]
  | path head rest => exact Value.path_eq_error_iff

theorem exists_value_iff {a : Operand} :
    (∃ v, a.value context = .ok v) ↔ ∀ why, ¬ a.Breaks context why := by
  cases hRead : a.value context with
  | error f =>
      obtain ⟨why, hBreaks, -⟩ := value_eq_error_iff.mp hRead
      exact iff_of_false (by simp) fun hSound => hSound why hBreaks
  | ok v =>
      refine iff_of_true ⟨v, rfl⟩ fun why hBreaks => ?_
      rw [value_eq_error_iff.mpr ⟨why, hBreaks, rfl⟩] at hRead
      cases hRead

end Operand

/-- The first of some operands that breaks raises this. -/
inductive FirstBreak (context : Context) (why : String) : List Operand → Prop where
  | here {a : Operand} (rest : List Operand) (hBreaks : a.Breaks context why) :
      FirstBreak context why (a :: rest)
  | later {a : Operand} {rest : List Operand} (hSound : ∀ why, ¬ a.Breaks context why)
      (hRest : FirstBreak context why rest) : FirstBreak context why (a :: rest)

theorem firstBreak_cons_iff {a : Operand} {rest : List Operand} {why : String} :
    FirstBreak context why (a :: rest) ↔
      a.Breaks context why ∨ (∀ why, ¬ a.Breaks context why) ∧ FirstBreak context why rest := by
  constructor
  · intro h
    cases h with
    | here _ hBreaks => exact .inl hBreaks
    | later hSound hRest => exact .inr ⟨hSound, hRest⟩
  · rintro (hBreaks | ⟨hSound, hRest⟩)
    · exact .here rest hBreaks
    · exact .later hSound hRest

/-- None of some operands breaks. -/
def Sound (context : Context) (operands : List Operand) : Prop :=
  ∀ a ∈ operands, ∀ why, ¬ a.Breaks context why

/-- Where some operand breaks, one is the first. -/
theorem sound_iff {operands : List Operand} :
    Sound context operands ↔ ¬ ∃ why, FirstBreak context why operands := by
  constructor
  · rintro hSound ⟨why, hFirst⟩
    induction hFirst with
    | here rest hBreaks => exact hSound _ List.mem_cons_self why hBreaks
    | later _ _ ih => exact ih fun a hMem => hSound a (List.mem_cons_of_mem _ hMem)
  · intro hNone
    induction operands with
    | nil => exact nofun
    | cons a rest ih =>
        have hHead : ∀ why, ¬ a.Breaks context why :=
          fun why hBreaks => hNone ⟨why, .here rest hBreaks⟩
        have hRest : Sound context rest := by
          apply ih
          rintro ⟨why, hFirst⟩
          exact hNone ⟨why, .later hHead hFirst⟩
        exact List.forall_mem_cons.mpr ⟨hHead, hRest⟩

/-- Items are read behind the first of them, which is at fault first. -/
theorem resolve_cons_eq_error_iff {item : Item Operand} {items : List (Item Operand)} {f : Fault} :
    Item.resolve context (item :: items) = .error f ↔
      item.traverse (Operand.value context) = .error f ∨
      (∃ read, item.traverse (Operand.value context) = .ok read) ∧
        Item.resolve context items = .error f := by
  unfold Item.resolve
  rw [List.mapM_cons]
  cases item.traverse (Operand.value context) with
  | error g => simp [bind, Except.bind]
  | ok read =>
      cases items.mapM (Item.traverse (Operand.value context)) with
      | error g => simp [bind, Except.bind]
      | ok rest => simp [bind, Except.bind, pure, Except.pure]

/-- The first operand that breaks is the fault of reading all of them. -/
theorem resolve_eq_error_iff {items : List (Item Operand)} {f : Fault} :
    Item.resolve context items = .error f ↔
      ∃ why, FirstBreak context why (Item.operands items) ∧ f = .raised why := by
  induction items with
  | nil =>
      refine iff_of_false nofun ?_
      rintro ⟨why, hFirst, -⟩
      cases hFirst
  | cons item items ih =>
      rw [resolve_cons_eq_error_iff, ih, Item.operands_cons]
      cases item with
      | operand a =>
          have hFault : (Item.operand a).traverse (Operand.value context) = .error f ↔
              ∃ why, a.Breaks context why ∧ f = .raised why := by
            rw [← Operand.value_eq_error_iff, Item.traverse]
            cases a.value context <;> simp [Except.map]
          have hRead : (∃ read, (Item.operand a).traverse (Operand.value context) = .ok read) ↔
              ∀ why, ¬ a.Breaks context why := by
            rw [← Operand.exists_value_iff, Item.traverse]
            cases a.value context <;> simp [Except.map]
          change _ ↔ ∃ why, FirstBreak context why (a :: Item.operands items) ∧ _
          simp only [hFault, hRead, firstBreak_cons_iff, or_and_right, and_assoc, exists_or,
            exists_and_left]
      | relation | and | or | not | opening | closing => simp [Item.traverse, Item.operands]

/-- Some tokens have no value just when a path among them breaks, or when none does and the tree
that is recovered from them overflows. -/
theorem evaluateTokens_eq_error_iff {tokens : List Token} {e : Expr Operand} {clean : Bool}
    (h : Recovery (.literal .null) (Item.ofTokens tokens) e clean) {f : Fault} :
    evaluateTokens tokens context = .error f ↔
      (∃ why, FirstBreak context why (Item.operands (Item.ofTokens tokens)) ∧ f = .raised why) ∨
      Sound context (Item.operands (Item.ofTokens tokens)) ∧ Overflows context e ∧
        f = .integerTooLarge := by
  by_cases hFaulty : ∃ why, FirstBreak context why (Item.operands (Item.ofTokens tokens))
  · obtain ⟨why, hFirst⟩ := hFaulty
    have hResolve : Item.resolve context (Item.ofTokens tokens) = .error (.raised why) :=
      resolve_eq_error_iff.mpr ⟨why, hFirst, rfl⟩
    have hEvaluate : evaluateTokens tokens context = .error (.raised why) := by
      unfold evaluateTokens
      rw [hResolve]
      rfl
    constructor
    · intro hError
      rw [hEvaluate] at hError
      cases hError
      exact .inl ⟨why, hFirst, rfl⟩
    · rintro (hBreak | ⟨hSound, -⟩)
      · rw [resolve_eq_error_iff.mpr hBreak] at hResolve
        cases hResolve
        exact hEvaluate
      · exact absurd ⟨why, hFirst⟩ (sound_iff.mp hSound)
  · have hSound : Sound context (Item.operands (Item.ofTokens tokens)) := sound_iff.mpr hFaulty
    have hRead : ∀ a ∈ Item.operands (Item.ofTokens tokens), ∀ f, a.value context ≠ .error f := by
      intro a hMem f hError
      obtain ⟨why, hBreaks, -⟩ := Operand.value_eq_error_iff.mp hError
      exact hSound a hMem why hBreaks
    have hLeaves : ∀ a ∈ e.leaves, ∀ f, a.value context ≠ .error f := by
      obtain ⟨rest, c, hRecovers, -, -⟩ := h
      intro a hLeaf
      rcases hRecovers.mem_operands.1 a hLeaf with rfl | hMem
      · exact nofun
      · exact hRead a hMem
    have hEvaluate := evaluateTokens_of_recovery context h
    constructor
    · intro hError
      rw [hError] at hEvaluate
      rcases hEvaluate with hRaises | ⟨a, hMem, hFault⟩
      · obtain ⟨rfl, hOverflows⟩ := overflows_of_raises hRaises hLeaves
        exact .inr ⟨hSound, hOverflows, rfl⟩
      · exact absurd hFault (hRead a hMem f)
    · rintro (⟨why, hFirst, -⟩ | ⟨-, hOverflows, rfl⟩)
      · exact absurd ⟨why, hFirst⟩ hFaulty
      · cases hCases : evaluateTokens tokens context with
        | ok v =>
            rw [hCases] at hEvaluate
            exact absurd hEvaluate.1 (hOverflows.raises.not_denotes v)
        | error g =>
            rw [hCases] at hEvaluate
            rcases hEvaluate with hRaises | ⟨a, hMem, hFault⟩
            · rw [(overflows_of_raises hRaises hLeaves).1]
            · exact absurd hFault (hRead a hMem g)

/-- The operands in a text, those included that are left over. -/
def operandsOf (text : String) : List Operand :=
  Item.operands (Item.ofTokens (Token.scan (Text.trim text.toList)))

/-- A text is mended to a tree. -/
def MendsTo (text : String) (e : Expr Operand) : Prop :=
  ∃ clean, Recovery (.literal .null) (Item.ofTokens (Token.scan (Text.trim text.toList))) e clean

theorem exists_mendsTo (text : String) : ∃ e, MendsTo text e :=
  exists_recovery (Operand.literal .null) _

theorem MendsTo.unique {text : String} {e e' : Expr Operand} (h : MendsTo text e)
    (h' : MendsTo text e') : e' = e := by
  obtain ⟨_, hRecovery⟩ := h
  obtain ⟨_, hOther⟩ := h'
  rw [← hOther.ofItems_eq, hRecovery.ofItems_eq]

/-- The operands of the tree are those of the text, or stand in for one that is missing. -/
theorem MendsTo.operand_of_leaf {text : String} {e : Expr Operand} {a : Operand}
    (h : MendsTo text e) (hLeaf : a ∈ e.leaves) :
    a = Operand.literal .null ∨ a ∈ operandsOf text := by
  obtain ⟨_, _, _, hRecovers, -, -⟩ := h
  exact hRecovers.mem_operands.1 a hLeaf

theorem MendsTo.evaluate?_eq_error_iff {text : String} {e : Expr Operand} {f : Fault}
    (h : MendsTo text e) : evaluate? text context = .error f ↔
      (∃ why, FirstBreak context why (operandsOf text) ∧ f = .raised why) ∨
      Sound context (operandsOf text) ∧ Overflows context e ∧ f = .integerTooLarge := by
  obtain ⟨_, hRecovery⟩ := h
  exact evaluateTokens_eq_error_iff hRecovery

/-- An integer that is tested or ordered was written in the text or read out of the context. -/
theorem MendsTo.origin_of_tests {text : String} {e part : Expr Operand} {n : Int}
    (h : MendsTo text e) (hPart : part ∈ e.parts) (hTests : Tests context part (.int n)) :
    Operand.literal (.int n) ∈ operandsOf text ∨
    ∃ head rest, .path head rest ∈ operandsOf text ∧
      (Value.map context).path (head :: rest) = .ok (.int n) := by
  obtain ⟨a, hLeaf, hRead⟩ := hTests.exists_leaf
  rcases h.operand_of_leaf (leaves_of_mem_parts hPart hLeaf) with rfl | hWritten
  · cases hRead
  · cases a with
    | literal v =>
        obtain rfl := Except.ok.inj hRead
        exact .inl hWritten
    | path head rest => exact .inr ⟨head, rest, hWritten, hRead⟩

/-- How the evaluation of any text can fail, in any context. The text is mended to one tree, so it
is never the text itself. Either a path breaks, used or left over, and the first one that does is
told. Or none does, and the tree tests or orders an integer beyond the range of doubles, which was
written in the text or read out of the context. Whenever neither is so, there is a value. -/
theorem evaluation_fails_iff (text : String) (context : Context) :
    ∃ e, MendsTo text e ∧ (∀ e', MendsTo text e' → e' = e) ∧
      (∀ f, evaluate? text context = .error f ↔
        (∃ why, FirstBreak context why (operandsOf text) ∧ f = .raised why) ∨
        Sound context (operandsOf text) ∧ Overflows context e ∧ f = .integerTooLarge) ∧
      ((∃ v, evaluate? text context = .ok v) ↔
        Sound context (operandsOf text) ∧ ¬ Overflows context e) ∧
      ∀ part ∈ e.parts, ∀ n, Tests context part (.int n) →
        Operand.literal (.int n) ∈ operandsOf text ∨
        ∃ head rest, .path head rest ∈ operandsOf text ∧
          (Value.map context).path (head :: rest) = .ok (.int n) := by
  obtain ⟨e, hMends⟩ := exists_mendsTo text
  refine ⟨e, hMends, fun _ => hMends.unique, fun _ => hMends.evaluate?_eq_error_iff, ?_,
    fun _ hPart _ => hMends.origin_of_tests hPart⟩
  constructor
  · rintro ⟨v, hValue⟩
    have hSafe : ∀ f, evaluate? text context ≠ .error f := by
      intro f
      rw [hValue]
      exact nofun
    have hSound : Sound context (operandsOf text) := by
      rw [sound_iff]
      rintro ⟨why, hFirst⟩
      exact hSafe _ (hMends.evaluate?_eq_error_iff.mpr (.inl ⟨why, hFirst, rfl⟩))
    refine ⟨hSound, fun hOverflows => ?_⟩
    exact hSafe _ (hMends.evaluate?_eq_error_iff.mpr (.inr ⟨hSound, hOverflows, rfl⟩))
  · rintro ⟨hSound, hBounded⟩
    cases hCases : evaluate? text context with
    | ok v => exact ⟨v, rfl⟩
    | error f =>
        rcases hMends.evaluate?_eq_error_iff.mp hCases with ⟨why, hFirst, -⟩ | ⟨-, hOverflows, -⟩
        · exact absurd ⟨why, hFirst⟩ (sound_iff.mp hSound)
        · exact absurd hOverflows hBounded

end Expr

end StepFlow
