import StepFlow.Expr.Item

/-!
Reading trees from items. Disjunction binds loosest, then conjunction, then one comparison that
does not chain, then negation. The reader accepts every list: a missing operand is null, a missing
closing parenthesis is forgiven, and what follows a complete expression is left over.
-/
namespace StepFlow.Expr

variable {α : Type}

/-- A tree read from a list of items, with what is left over and no longer than the list. -/
abbrev Reading (α : Type) (items : List (Item α)) :=
  { out : Expr α × List (Item α) // out.2.length ≤ items.length }

/-- The relation that comes next, if one does, and what follows it. -/
def nextRelation : List (Item α) → Option (Relation × List (Item α))
  | .relation r :: rest => some (r, rest)
  | _ => none

theorem nextRelation_length {items rest : List (Item α)} {r : Relation}
    (h : nextRelation items = some (r, rest)) : rest.length < items.length := by
  unfold nextRelation at h
  split at h
  · simp only [Option.some.injEq, Prod.mk.injEq] at h
    obtain ⟨_, rfl⟩ := h
    simp
  · simp at h

/-- A closing parenthesis is read when it comes next. -/
def dropClosing : List (Item α) → List (Item α)
  | .closing :: rest => rest
  | items => items

theorem dropClosing_length (items : List (Item α)) :
    (dropClosing items).length ≤ items.length := by
  unfold dropClosing
  split <;> simp

mutual

/-- A disjunction of conjunctions. -/
def readOr (missing : α) (items : List (Item α)) : Reading α items :=
  match readAnd missing items with
  | ⟨(left, rest), h⟩ =>
    match moreOr missing left rest with
    | ⟨out, h'⟩ => ⟨out, Nat.le_trans h' h⟩
termination_by 6 * items.length + 5
decreasing_by
  · omega
  · simp only at h
    omega

/-- Further operands of a disjunction whose left part is read. -/
def moreOr (missing : α) (left : Expr α) (items : List (Item α)) : Reading α items :=
  match items with
  | .or :: rest =>
    match readAnd missing rest with
    | ⟨(right, rest'), h⟩ =>
      match moreOr missing (.or left right) rest' with
      | ⟨out, h'⟩ => ⟨out, Nat.le_trans h' (Nat.le_succ_of_le h)⟩
  | items => ⟨(left, items), Nat.le_refl _⟩
termination_by 6 * items.length + 4
decreasing_by
  · simp only [List.length_cons]
    omega
  · simp only at h
    simp only [List.length_cons]
    omega

/-- A conjunction of comparisons. -/
def readAnd (missing : α) (items : List (Item α)) : Reading α items :=
  match readComparison missing items with
  | ⟨(left, rest), h⟩ =>
    match moreAnd missing left rest with
    | ⟨out, h'⟩ => ⟨out, Nat.le_trans h' h⟩
termination_by 6 * items.length + 3
decreasing_by
  · omega
  · simp only at h
    omega

/-- Further operands of a conjunction whose left part is read. -/
def moreAnd (missing : α) (left : Expr α) (items : List (Item α)) : Reading α items :=
  match items with
  | .and :: rest =>
    match readComparison missing rest with
    | ⟨(right, rest'), h⟩ =>
      match moreAnd missing (.and left right) rest' with
      | ⟨out, h'⟩ => ⟨out, Nat.le_trans h' (Nat.le_succ_of_le h)⟩
  | items => ⟨(left, items), Nat.le_refl _⟩
termination_by 6 * items.length + 2
decreasing_by
  · simp only [List.length_cons]
    omega
  · simp only at h
    simp only [List.length_cons]
    omega

/-- One operand, or two with a relation between them. -/
def readComparison (missing : α) (items : List (Item α)) : Reading α items :=
  match readUnary missing items with
  | ⟨(left, rest), h⟩ =>
    match hr : nextRelation rest with
    | none => ⟨(left, rest), h⟩
    | some (r, rest') =>
      have hlt := nextRelation_length hr
      match readUnary missing rest' with
      | ⟨(right, rest''), h'⟩ =>
        ⟨(.relate r left right, rest''), Nat.le_trans h' (Nat.le_trans (Nat.le_of_lt hlt) h)⟩
termination_by 6 * items.length + 1
decreasing_by
  · omega
  · simp only at h
    omega

/-- An operand behind any number of negations. -/
def readUnary (missing : α) (items : List (Item α)) : Reading α items :=
  match items with
  | [] => ⟨(.leaf missing, []), Nat.le_refl _⟩
  | .not :: rest =>
    match readUnary missing rest with
    | ⟨(tree, rest'), h⟩ => ⟨(.not tree, rest'), Nat.le_succ_of_le h⟩
  | .operand a :: rest => ⟨(.leaf a, rest), Nat.le_succ _⟩
  | .opening :: rest =>
    match readOr missing rest with
    | ⟨(tree, rest'), h⟩ =>
      ⟨(tree, dropClosing rest'),
        Nat.le_trans (dropClosing_length rest') (Nat.le_succ_of_le h)⟩
  | .relation _ :: rest => ⟨(.leaf missing, rest), Nat.le_succ _⟩
  | .and :: rest => ⟨(.leaf missing, rest), Nat.le_succ _⟩
  | .or :: rest => ⟨(.leaf missing, rest), Nat.le_succ _⟩
  | .closing :: rest => ⟨(.leaf missing, rest), Nat.le_succ _⟩
termination_by 6 * items.length

end

/-- The tree that a list of items begins with; what follows it is ignored. -/
def ofItems (missing : α) (items : List (Item α)) : Expr α := (readOr missing items).val.1

end StepFlow.Expr
