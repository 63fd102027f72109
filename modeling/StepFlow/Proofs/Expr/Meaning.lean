import StepFlow.Proofs.Expr.Sentence
import StepFlow.Expr.Evaluate

/-! What a tree means in a context, as rules that look at one operator at a time. Evaluation goes
over the items twice, once for the paths and once for the operators; it comes to the same. -/
namespace StepFlow.Expr

/-- A tree has a value. Both operands of an operator have one, whichever of them it takes. -/
inductive Denotes (context : Context) : Expr Operand → Value → Prop where
  | leaf {a : Operand} {v : Value} (hRead : a.value context = .ok v) : Denotes context (.leaf a) v
  | not {e : Expr Operand} {v : Value} {b : Bool} (hInner : Denotes context e v)
      (hTruth : v.truth = .ok b) : Denotes context (.not e) (.bool (!b))
  | relate {r : Relation} {left right : Expr Operand} {v w : Value} {b : Bool}
      (hLeft : Denotes context left v) (hRight : Denotes context right w)
      (hRelated : v.relate r w = .ok b) : Denotes context (.relate r left right) (.bool b)
  | and {left right : Expr Operand} {v w : Value} {b : Bool} (hLeft : Denotes context left v)
      (hRight : Denotes context right w) (hTruth : v.truth = .ok b) :
      Denotes context (.and left right) (if b then w else v)
  | or {left right : Expr Operand} {v w : Value} {b : Bool} (hLeft : Denotes context left v)
      (hRight : Denotes context right w) (hTruth : v.truth = .ok b) :
      Denotes context (.or left right) (if b then v else w)

/-- Something in a tree has a fault: a path that cannot be read, an operand whose truth cannot be
told, or two that cannot be ordered. -/
inductive Raises (context : Context) : Expr Operand → Fault → Prop where
  | path {a : Operand} {f : Fault} (hRead : a.value context = .error f) :
      Raises context (.leaf a) f
  | inNot {e : Expr Operand} {f : Fault} (h : Raises context e f) : Raises context (.not e) f
  | notTruth {e : Expr Operand} {v : Value} {f : Fault} (hInner : Denotes context e v)
      (hTruth : v.truth = .error f) : Raises context (.not e) f
  | relateLeft {r : Relation} {left right : Expr Operand} {f : Fault} (h : Raises context left f) :
      Raises context (.relate r left right) f
  | relateRight {r : Relation} {left right : Expr Operand} {f : Fault}
      (h : Raises context right f) : Raises context (.relate r left right) f
  | order {r : Relation} {left right : Expr Operand} {v w : Value} {f : Fault}
      (hLeft : Denotes context left v) (hRight : Denotes context right w)
      (hRelated : v.relate r w = .error f) : Raises context (.relate r left right) f
  | andLeft {left right : Expr Operand} {f : Fault} (h : Raises context left f) :
      Raises context (.and left right) f
  | andRight {left right : Expr Operand} {f : Fault} (h : Raises context right f) :
      Raises context (.and left right) f
  | andTruth {left right : Expr Operand} {v : Value} {f : Fault} (hLeft : Denotes context left v)
      (hTruth : v.truth = .error f) : Raises context (.and left right) f
  | orLeft {left right : Expr Operand} {f : Fault} (h : Raises context left f) :
      Raises context (.or left right) f
  | orRight {left right : Expr Operand} {f : Fault} (h : Raises context right f) :
      Raises context (.or left right) f
  | orTruth {left right : Expr Operand} {v : Value} {f : Fault} (hLeft : Denotes context left v)
      (hTruth : v.truth = .error f) : Raises context (.or left right) f

/-- What a tree comes to: a value that it has, or a fault in it. -/
def ComesTo (context : Context) (e : Expr Operand) : Except Fault Value → Prop
  | .ok v => Denotes context e v
  | .error f => Raises context e f

variable {context : Context}

/-- A tree has one value. -/
theorem Denotes.unique {e : Expr Operand} {v w : Value} (h : Denotes context e v) :
    Denotes context e w → v = w := by
  induction h generalizing w with
  | leaf hRead =>
      intro h'
      cases h' with
      | leaf hRead' =>
          rw [hRead] at hRead'
          exact Except.ok.inj hRead'
  | not _ hTruth ih =>
      intro h'
      cases h' with
      | not hInner' hTruth' =>
          rw [ih hInner', hTruth'] at hTruth
          rw [Except.ok.inj hTruth]
  | relate _ _ hRelated ihLeft ihRight =>
      intro h'
      cases h' with
      | relate hLeft' hRight' hRelated' =>
          rw [ihLeft hLeft', ihRight hRight', hRelated'] at hRelated
          rw [Except.ok.inj hRelated]
  | and _ _ hTruth ihLeft ihRight =>
      intro h'
      cases h' with
      | and hLeft' hRight' hTruth' =>
          rw [ihLeft hLeft', hTruth'] at hTruth
          rw [Except.ok.inj hTruth, ihLeft hLeft', ihRight hRight']
  | or _ _ hTruth ihLeft ihRight =>
      intro h'
      cases h' with
      | or hLeft' hRight' hTruth' =>
          rw [ihLeft hLeft', hTruth'] at hTruth
          rw [Except.ok.inj hTruth, ihLeft hLeft', ihRight hRight']

/-- What has a value has no fault in it. -/
theorem Raises.not_denotes {e : Expr Operand} {f : Fault} (h : Raises context e f) :
    ∀ v, ¬ Denotes context e v := by
  have hTruths : ∀ {e : Expr Operand} {v w : Value} {b : Bool} {f : Fault},
      Denotes context e v → v.truth = .error f → Denotes context e w → w.truth ≠ .ok b := by
    intro e v w b f hDenotes hError hOther hTruth
    rw [← hDenotes.unique hOther, hError] at hTruth
    cases hTruth
  induction h with
  | path hRead =>
      intro v hDenotes
      cases hDenotes with
      | leaf hRead' =>
          rw [hRead] at hRead'
          cases hRead'
  | inNot _ ih =>
      intro v hDenotes
      cases hDenotes with
      | not hInner _ => exact ih _ hInner
  | notTruth hInner hTruth =>
      intro v hDenotes
      cases hDenotes with
      | not hInner' hTruth' => exact hTruths hInner hTruth hInner' hTruth'
  | relateLeft _ ih =>
      intro v hDenotes
      cases hDenotes with
      | relate hLeft _ _ => exact ih _ hLeft
  | relateRight _ ih =>
      intro v hDenotes
      cases hDenotes with
      | relate _ hRight _ => exact ih _ hRight
  | order hLeft hRight hRelated =>
      intro v hDenotes
      cases hDenotes with
      | relate hLeft' hRight' hRelated' =>
          rw [hLeft.unique hLeft', hRight.unique hRight', hRelated'] at hRelated
          cases hRelated
  | andLeft _ ih =>
      intro v hDenotes
      cases hDenotes with
      | and hLeft _ _ => exact ih _ hLeft
  | andRight _ ih =>
      intro v hDenotes
      cases hDenotes with
      | and _ hRight _ => exact ih _ hRight
  | andTruth hLeft hTruth =>
      intro v hDenotes
      cases hDenotes with
      | and hLeft' _ hTruth' => exact hTruths hLeft hTruth hLeft' hTruth'
  | orLeft _ ih =>
      intro v hDenotes
      cases hDenotes with
      | or hLeft _ _ => exact ih _ hLeft
  | orRight _ ih =>
      intro v hDenotes
      cases hDenotes with
      | or _ hRight _ => exact ih _ hRight
  | orTruth hLeft hTruth =>
      intro v hDenotes
      cases hDenotes with
      | or hLeft' _ hTruth' => exact hTruths hLeft hTruth hLeft' hTruth'

/-- A tree that has a value comes to it. -/
theorem ComesTo.eq_of_denotes {e : Expr Operand} {x : Except Fault Value} {v : Value}
    (h : ComesTo context e x) (hDenotes : Denotes context e v) : x = .ok v := by
  cases x with
  | ok w => rw [hDenotes.unique h]
  | error f => exact absurd hDenotes (Raises.not_denotes h v)

/-- A tree with one fault in it comes to this fault. -/
theorem ComesTo.eq_error {e : Expr Operand} {x : Except Fault Value} {f : Fault}
    (h : ComesTo context e x) (hRaises : Raises context e f)
    (hOnly : ∀ f', Raises context e f' → f' = f) : x = .error f := by
  cases x with
  | ok v => exact absurd h (hRaises.not_denotes v)
  | error f' => rw [hOnly f' h]

/-- The operands of a tree from left to right. -/
def leaves {α : Type} : Expr α → List α
  | .leaf a => [a]
  | .not e => leaves e
  | .relate _ left right => leaves left ++ leaves right
  | .and left right => leaves left ++ leaves right
  | .or left right => leaves left ++ leaves right

/-- A tree with its operands replaced. -/
def map {α β : Type} (g : α → β) : Expr α → Expr β
  | .leaf a => .leaf (g a)
  | .not e => .not (map g e)
  | .relate r left right => .relate r (map g left) (map g right)
  | .and left right => .and (map g left) (map g right)
  | .or left right => .or (map g left) (map g right)

/-- A tree whose operator has two operands comes to a fault of either, or to what the operator makes
of their values. -/
theorem ComesTo.both {left right e : Expr Operand} {x y : Except Fault Value}
    {op : Value → Value → Except Fault Value} (hLeft : ComesTo context left x)
    (hRight : ComesTo context right y) (hInLeft : ∀ f, Raises context left f → Raises context e f)
    (hInRight : ∀ f, Raises context right f → Raises context e f)
    (hApplied : ∀ v w, Denotes context left v → Denotes context right w →
      ComesTo context e (op v w)) : ComesTo context e (x >>= fun v => y >>= fun w => op v w) := by
  cases x with
  | error f => exact hInLeft f hLeft
  | ok v =>
      cases y with
      | error f => exact hInRight f hRight
      | ok w => exact hApplied v w hLeft hRight

/-- A tree comes to what its operators make of the values of its paths. -/
theorem eval_map {e : Expr Operand} {g : Operand → Value}
    (hRead : ∀ a ∈ e.leaves, a.value context = .ok (g a)) : ComesTo context e (e.map g).eval := by
  induction e with
  | leaf a => exact Denotes.leaf (hRead a List.mem_cons_self)
  | not e ih =>
      have hInner := ih hRead
      unfold map eval
      cases hEval : (e.map g).eval with
      | error f =>
          rw [hEval] at hInner
          exact .inNot hInner
      | ok v =>
          rw [hEval] at hInner
          change ComesTo context (.not e) (v.truth >>= fun b => pure (.bool (!b)))
          cases hTruth : v.truth with
          | error f => exact .notTruth hInner hTruth
          | ok b => exact Denotes.not hInner hTruth
  | relate r left right ihLeft ihRight =>
      obtain ⟨hReadLeft, hReadRight⟩ := List.forall_mem_append.mp hRead
      refine (ihLeft hReadLeft).both (ihRight hReadRight) (fun _ => .relateLeft)
        (fun _ => .relateRight) ?_
      intro v w hLeft hRight
      cases hRelated : v.relate r w with
      | error f => exact .order hLeft hRight hRelated
      | ok b => exact Denotes.relate hLeft hRight hRelated
  | and left right ihLeft ihRight =>
      obtain ⟨hReadLeft, hReadRight⟩ := List.forall_mem_append.mp hRead
      refine (ihLeft hReadLeft).both (ihRight hReadRight) (fun _ => .andLeft) (fun _ => .andRight) ?_
      intro v w hLeft hRight
      cases hTruth : v.truth with
      | error f => exact .andTruth hLeft hTruth
      | ok b => exact Denotes.and hLeft hRight hTruth
  | or left right ihLeft ihRight =>
      obtain ⟨hReadLeft, hReadRight⟩ := List.forall_mem_append.mp hRead
      refine (ihLeft hReadLeft).both (ihRight hReadRight) (fun _ => .orLeft) (fun _ => .orRight) ?_
      intro v w hLeft hRight
      cases hTruth : v.truth with
      | error f => exact .orTruth hLeft hTruth
      | ok b => exact Denotes.or hLeft hRight hTruth

/-- A path that cannot be read is a fault of its tree. -/
theorem raises_of_mem_leaves {e : Expr Operand} {a : Operand} {f : Fault} (hLeaf : a ∈ e.leaves)
    (hRead : a.value context = .error f) : Raises context e f := by
  induction e with
  | leaf b =>
      obtain rfl := List.mem_singleton.mp hLeaf
      exact .path hRead
  | not e ih => exact .inNot (ih hLeaf)
  | relate r left right ihLeft ihRight =>
      rcases List.mem_append.mp hLeaf with hLeft | hRight
      · exact .relateLeft (ihLeft hLeft)
      · exact .relateRight (ihRight hRight)
  | and left right ihLeft ihRight =>
      rcases List.mem_append.mp hLeaf with hLeft | hRight
      · exact .andLeft (ihLeft hLeft)
      · exact .andRight (ihRight hRight)
  | or left right ihLeft ihRight =>
      rcases List.mem_append.mp hLeaf with hLeft | hRight
      · exact .orLeft (ihLeft hLeft)
      · exact .orRight (ihRight hRight)

namespace Item

/-- An item with its operand replaced. -/
def map {α β : Type} (g : α → β) : Item α → Item β
  | .operand a => .operand (g a)
  | .relation r => .relation r
  | .and => .and
  | .or => .or
  | .not => .not
  | .opening => .opening
  | .closing => .closing

/-- The operands among some items. -/
def operands {α : Type} (items : List (Item α)) : List α :=
  items.filterMap fun
    | .operand a => some a
    | _ => none

theorem operands_cons {α : Type} (item : Item α) (items : List (Item α)) :
    operands (item :: items) = operands [item] ++ operands items := by
  cases item <;> rfl

theorem operands_append {α : Type} (items others : List (Item α)) :
    operands (items ++ others) = operands items ++ operands others := List.filterMap_append

/-- Paths that can be read are replaced by their values. -/
theorem resolve_of_read {items : List (Item Operand)} {g : Operand → Value}
    (hRead : ∀ a ∈ operands items, a.value context = .ok (g a)) :
    resolve context items = .ok (items.map (Item.map g)) := by
  induction items with
  | nil => rfl
  | cons item items ih =>
      rw [operands_cons] at hRead
      have hRest : resolve context items = .ok (items.map (Item.map g)) :=
        ih fun a hMem => hRead a (List.mem_append_right _ hMem)
      have hItem : traverse (Operand.value context) item = .ok (item.map g) := by
        cases item with
        | operand a => simp [traverse, map, hRead a (by simp [operands]), Except.map]
        | relation | and | or | not | opening | closing => rfl
      unfold resolve at hRest ⊢
      rw [List.mapM_cons, hItem, hRest]
      rfl

/-- The first path that cannot be read is the fault of all. -/
theorem resolve_of_not_read {items : List (Item Operand)} {a : Operand} {f : Fault}
    (hMem : a ∈ operands items) (hRead : a.value context = .error f) :
    ∃ b ∈ operands items, ∃ f', b.value context = .error f' ∧
      resolve context items = .error f' := by
  induction items with
  | nil => cases hMem
  | cons item items ih =>
      unfold resolve
      rw [List.mapM_cons]
      cases hItem : traverse (Operand.value context) item with
      | error f' =>
          cases item with
          | operand b =>
              cases hValue : b.value context with
              | error f'' =>
                  rw [traverse, hValue] at hItem
                  cases hItem
                  exact ⟨b, by simp [operands], f', hValue, rfl⟩
              | ok v =>
                  rw [traverse, hValue] at hItem
                  cases hItem
          | relation | and | or | not | opening | closing => cases hItem
      | ok item' =>
          have hRest : a ∈ operands items := by
            rw [operands_cons, List.mem_append] at hMem
            rcases hMem with hHere | hRest
            · cases item with
              | operand b =>
                  obtain rfl := List.mem_singleton.mp hHere
                  rw [traverse, hRead] at hItem
                  cases hItem
              | relation | and | or | not | opening | closing => cases hHere
            · exact hRest
          obtain ⟨b, hIn, f', hFault, hResolve⟩ := ih hRest
          refine ⟨b, ?_, f', hFault, ?_⟩
          · rw [operands_cons]
            exact List.mem_append_right _ hIn
          · unfold resolve at hResolve
            rw [hResolve]
            rfl

end Item

section Replaced

variable {α β : Type} {missing : α} {g : α → β}

/-- Replacing operands makes no mark out of another item. -/
theorem map_ne_mark (mark : Item α) (hMark : ∀ a, mark ≠ .operand a) {rest : List (Item α)}
    (hEnd : ∀ after, rest ≠ mark :: after) :
    ∀ after, rest.map (Item.map g) ≠ mark.map g :: after := by
  intro after hRest
  obtain ⟨first, others, rfl, hFirst, -⟩ := List.map_eq_cons_iff.mp hRest
  apply hEnd others
  congr 1
  cases mark with
  | operand a => exact absurd rfl (hMark a)
  | relation | and | or | not | opening | closing =>
      cases first with
      | _ => cases hFirst <;> rfl

/-- What is recovered does not hang on what the operands are. -/
theorem Recovers.map {level : Level} {items rest : List (Item α)} {e : Expr α} {clean : Bool}
    (h : Recovers missing level items e rest clean) :
    Recovers (g missing) level (items.map (Item.map g)) (e.map g) (rest.map (Item.map g)) clean := by
  induction h with
  | operand a rest => exact .operand (g a) _
  | absent => exact .absent
  | @misplaced item rest hItem =>
      have hMapped : (item.map g).isMisplaced = true := by
        cases item with
        | operand | not | opening => cases hItem
        | relation | and | or | closing => rfl
      exact .misplaced _ hMapped
  | closed _ ih => exact .closed ih
  | unclosed _ hOr hOpen ih =>
      exact .unclosed ih (map_ne_mark .or nofun hOr) (map_ne_mark .closing nofun hOpen)
  | ofPrimary _ ih => exact .ofPrimary ih
  | not _ ih => exact .not ih
  | ofUnary _ hRelation ih =>
      exact .ofUnary ih fun r => map_ne_mark (.relation r) nofun (hRelation r)
  | relate _ _ ihLeft ihRight => exact .relate ihLeft ihRight
  | ofComparison _ ih => exact .ofComparison ih
  | and _ _ ihLeft ihRight => exact .and ihLeft ihRight
  | ofAnd _ hAnd ih => exact .ofAnd ih (map_ne_mark .and nofun hAnd)
  | or _ _ hAnd ihLeft ihRight => exact .or ihLeft ihRight (map_ne_mark .and nofun hAnd)

theorem Recovery.map {items : List (Item α)} {e : Expr α} {clean : Bool}
    (h : Recovery missing items e clean) :
    Recovery (g missing) (items.map (Item.map g)) (e.map g) clean := by
  obtain ⟨rest, c, hRecovers, hOr, rfl⟩ := h
  refine ⟨rest.map (Item.map g), c, hRecovers.map, map_ne_mark .or nofun hOr, ?_⟩
  cases rest <;> rfl

end Replaced

/-- The operands of a recovered tree are among the items, but for those that were missing. -/
theorem Recovers.mem_operands {α : Type} {missing : α} {level : Level} {items rest : List (Item α)}
    {e : Expr α} {clean : Bool} (h : Recovers missing level items e rest clean) :
    (∀ a ∈ e.leaves, a = missing ∨ a ∈ Item.operands items) ∧
      ∀ a ∈ Item.operands rest, a ∈ Item.operands items := by
  have hBehind : ∀ {a : α} (item : Item α) {items : List (Item α)},
      a ∈ Item.operands items → a ∈ Item.operands (item :: items) := by
    intro a item items hMem
    rw [Item.operands_cons]
    exact List.mem_append_right _ hMem
  have hBinary : ∀ {left right : Expr α} {items others : List (Item α)},
      (∀ a ∈ left.leaves, a = missing ∨ a ∈ Item.operands items) →
      (∀ a ∈ Item.operands others, a ∈ Item.operands items) →
      (∀ a ∈ right.leaves, a = missing ∨ a ∈ Item.operands others) →
      ∀ a ∈ left.leaves ++ right.leaves, a = missing ∨ a ∈ Item.operands items := by
    intro left right items others hLeft hOthers hRight a hMem
    rcases List.mem_append.mp hMem with hMem | hMem
    · exact hLeft a hMem
    · exact (hRight a hMem).imp_right (hOthers a)
  induction h with
  | operand a rest =>
      refine ⟨fun b hLeaf => .inr ?_, fun b hMem => hBehind _ hMem⟩
      rw [List.mem_singleton.mp hLeaf]
      exact List.mem_cons_self
  | absent =>
      refine ⟨fun a hLeaf => .inl (List.mem_singleton.mp hLeaf), fun a hMem => hMem⟩
  | misplaced rest _ =>
      exact ⟨fun a hLeaf => .inl (List.mem_singleton.mp hLeaf), fun a hMem => hBehind _ hMem⟩
  | closed _ ih =>
      exact ⟨fun a hLeaf => (ih.1 a hLeaf).imp_right (hBehind _),
        fun a hMem => hBehind _ (ih.2 a (hBehind _ hMem))⟩
  | unclosed _ _ _ ih =>
      exact ⟨fun a hLeaf => (ih.1 a hLeaf).imp_right (hBehind _),
        fun a hMem => hBehind _ (ih.2 a hMem)⟩
  | ofPrimary _ ih => exact ih
  | not _ ih =>
      exact ⟨fun a hLeaf => (ih.1 a hLeaf).imp_right (hBehind _),
        fun a hMem => hBehind _ (ih.2 a hMem)⟩
  | ofUnary _ _ ih => exact ih
  | relate _ _ ihLeft ihRight =>
      have hOthers := fun a hMem => ihLeft.2 a (hBehind _ hMem)
      exact ⟨hBinary ihLeft.1 hOthers ihRight.1, fun a hMem => hOthers a (ihRight.2 a hMem)⟩
  | ofComparison _ ih => exact ih
  | and _ _ ihLeft ihRight =>
      have hOthers := fun a hMem => ihLeft.2 a (hBehind _ hMem)
      exact ⟨hBinary ihLeft.1 hOthers ihRight.1, fun a hMem => hOthers a (ihRight.2 a hMem)⟩
  | ofAnd _ _ ih => exact ih
  | or _ _ _ ihLeft ihRight =>
      have hOthers := fun a hMem => ihLeft.2 a (hBehind _ hMem)
      exact ⟨hBinary ihLeft.1 hOthers ihRight.1, fun a hMem => hOthers a (ihRight.2 a hMem)⟩

/-- The operands of a sentence are those of its tree. -/
theorem Sentence.operands_eq {α : Type} {level : Level} {items : List (Item α)} {e : Expr α}
    (h : Sentence level items e) : Item.operands items = e.leaves := by
  induction h with
  | operand a => rfl
  | parens _ ih =>
      rw [Item.operands_append, Item.operands_cons, ih]
      simp [Item.operands]
  | ofPrimary _ ih => exact ih
  | not _ ih =>
      rw [Item.operands_cons, ih]
      rfl
  | ofUnary _ ih => exact ih
  | relate r _ _ ihLeft ihRight =>
      rw [Item.operands_append, Item.operands_cons, ihLeft, ihRight]
      rfl
  | ofComparison _ ih => exact ih
  | and _ _ ihLeft ihRight =>
      rw [Item.operands_append, Item.operands_cons, ihLeft, ihRight]
      rfl
  | ofAnd _ ih => exact ih
  | or _ _ ihLeft ihRight =>
      rw [Item.operands_append, Item.operands_cons, ihLeft, ihRight]
      rfl

/-- The value of an operand, null if it cannot be read. -/
def Operand.valueOrNull (context : Context) (a : Operand) : Value :=
  match a.value context with
  | .ok v => v
  | .error _ => .null

/-- Some tokens have the value of the tree that is recovered from them, when all of their paths can
be read, those left over included. -/
theorem evaluateTokens_of_recovery (context : Context) {tokens : List Token} {e : Expr Operand}
    {clean : Bool} (h : Recovery (.literal .null) (Item.ofTokens tokens) e clean) :
    match evaluateTokens tokens context with
    | .ok v => Denotes context e v ∧
        ∀ a ∈ Item.operands (Item.ofTokens tokens), ∀ f, a.value context ≠ .error f
    | .error f => Raises context e f ∨
        ∃ a ∈ Item.operands (Item.ofTokens tokens), a.value context = .error f := by
  unfold evaluateTokens
  by_cases hFaulty : ∃ a ∈ Item.operands (Item.ofTokens tokens), ∃ f, a.value context = .error f
  · obtain ⟨a, hMem, f, hFault⟩ := hFaulty
    obtain ⟨b, hIn, f', hFault', hResolve⟩ := Item.resolve_of_not_read hMem hFault
    rw [hResolve]
    exact .inr ⟨b, hIn, hFault'⟩
  · have hSound : ∀ a ∈ Item.operands (Item.ofTokens tokens), ∀ f, a.value context ≠ .error f :=
      fun a hMem f hFault => hFaulty ⟨a, hMem, f, hFault⟩
    have hValue : ∀ a ∈ Item.operands (Item.ofTokens tokens),
        a.value context = .ok (a.valueOrNull context) := by
      intro a hMem
      unfold Operand.valueOrNull
      cases hRead : a.value context with
      | ok v => rfl
      | error f => exact absurd hRead (hSound a hMem f)
    have hLeaves : ∀ a ∈ e.leaves, a.value context = .ok (a.valueOrNull context) := by
      intro a hLeaf
      obtain ⟨rest, c, hRecovers, -, -⟩ := h
      rcases hRecovers.mem_operands.1 a hLeaf with rfl | hMem
      · rfl
      · exact hValue a hMem
    have hTree : ofItems .null ((Item.ofTokens tokens).map (Item.map (Operand.valueOrNull context))) =
        e.map (Operand.valueOrNull context) :=
      (h.map (g := Operand.valueOrNull context)).ofItems_eq
    rw [Item.resolve_of_read hValue]
    change match (ofItems .null ((Item.ofTokens tokens).map _)).eval with
      | .ok v => _
      | .error f => _
    rw [hTree]
    have hEval := eval_map hLeaves
    cases hCases : (e.map (Operand.valueOrNull context)).eval with
    | ok v =>
        rw [hCases] at hEval
        exact ⟨hEval, hSound⟩
    | error f =>
        rw [hCases] at hEval
        exact .inl hEval

end StepFlow.Expr
