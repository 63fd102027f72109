import StepFlow.Expr.Grammar

/-! The grammar of expressions, said without a reader: which lists of items are sentences, and of
which trees. What is no sentence is read all the same. It is recovered: an operand that is missing
or that another item stands in the place of becomes null, a parenthesis may stay open, and what
follows a whole expression is left over. -/
namespace StepFlow.Expr

variable {α : Type}

/-- How an operator binds, from the loosest to the tightest. -/
inductive Level where
  | or
  | and
  | comparison
  | unary
  | primary

/-- The sentences of a level, each with its tree. Both chains go to the left, and comparisons make
no chain. -/
inductive Sentence : Level → List (Item α) → Expr α → Prop where
  | operand (a : α) : Sentence .primary [.operand a] (.leaf a)
  | parens {items : List (Item α)} {e : Expr α} (hInner : Sentence .or items e) :
      Sentence .primary (.opening :: items ++ [.closing]) e
  | ofPrimary {items : List (Item α)} {e : Expr α} (h : Sentence .primary items e) :
      Sentence .unary items e
  | not {items : List (Item α)} {e : Expr α} (h : Sentence .unary items e) :
      Sentence .unary (.not :: items) (.not e)
  | ofUnary {items : List (Item α)} {e : Expr α} (h : Sentence .unary items e) :
      Sentence .comparison items e
  | relate {items others : List (Item α)} {left right : Expr α} (r : Relation)
      (hLeft : Sentence .unary items left) (hRight : Sentence .unary others right) :
      Sentence .comparison (items ++ .relation r :: others) (.relate r left right)
  | ofComparison {items : List (Item α)} {e : Expr α} (h : Sentence .comparison items e) :
      Sentence .and items e
  | and {items others : List (Item α)} {left right : Expr α} (hLeft : Sentence .and items left)
      (hRight : Sentence .comparison others right) :
      Sentence .and (items ++ .and :: others) (.and left right)
  | ofAnd {items : List (Item α)} {e : Expr α} (h : Sentence .and items e) : Sentence .or items e
  | or {items others : List (Item α)} {left right : Expr α} (hLeft : Sentence .or items left)
      (hRight : Sentence .and others right) :
      Sentence .or (items ++ .or :: others) (.or left right)

/-- The items that are passed over where an operand is due. -/
def Item.isMisplaced : Item α → Bool
  | .relation _ | .and | .or | .closing => true
  | .operand _ | .not | .opening => false

/-- What is made of a list of items at a level: a tree, the items left over, and whether all went
by the grammar. -/
inductive Recovers (missing : α) : Level → List (Item α) → Expr α → List (Item α) → Bool → Prop
    where
  | operand (a : α) (rest : List (Item α)) :
      Recovers missing .primary (.operand a :: rest) (.leaf a) rest true
  | absent : Recovers missing .primary [] (.leaf missing) [] false
  | misplaced {item : Item α} (rest : List (Item α)) (hItem : item.isMisplaced = true) :
      Recovers missing .primary (item :: rest) (.leaf missing) rest false
  | closed {items rest : List (Item α)} {e : Expr α} {clean : Bool}
      (hInner : Recovers missing .or items e (.closing :: rest) clean) :
      Recovers missing .primary (.opening :: items) e rest clean
  | unclosed {items rest : List (Item α)} {e : Expr α} {clean : Bool}
      (hInner : Recovers missing .or items e rest clean) (hOr : ∀ after, rest ≠ .or :: after)
      (hOpen : ∀ after, rest ≠ .closing :: after) :
      Recovers missing .primary (.opening :: items) e rest false
  | ofPrimary {items rest : List (Item α)} {e : Expr α} {clean : Bool}
      (h : Recovers missing .primary items e rest clean) : Recovers missing .unary items e rest clean
  | not {items rest : List (Item α)} {e : Expr α} {clean : Bool}
      (h : Recovers missing .unary items e rest clean) :
      Recovers missing .unary (.not :: items) (.not e) rest clean
  | ofUnary {items rest : List (Item α)} {e : Expr α} {clean : Bool}
      (h : Recovers missing .unary items e rest clean)
      (hRelation : ∀ r after, rest ≠ .relation r :: after) :
      Recovers missing .comparison items e rest clean
  | relate {items others rest : List (Item α)} {left right : Expr α} {r : Relation} {c d : Bool}
      (hLeft : Recovers missing .unary items left (.relation r :: others) c)
      (hRight : Recovers missing .unary others right rest d) :
      Recovers missing .comparison items (.relate r left right) rest (c && d)
  | ofComparison {items rest : List (Item α)} {e : Expr α} {clean : Bool}
      (h : Recovers missing .comparison items e rest clean) :
      Recovers missing .and items e rest clean
  | and {items others rest : List (Item α)} {left right : Expr α} {c d : Bool}
      (hLeft : Recovers missing .and items left (.and :: others) c)
      (hRight : Recovers missing .comparison others right rest d) :
      Recovers missing .and items (.and left right) rest (c && d)
  | ofAnd {items rest : List (Item α)} {e : Expr α} {clean : Bool}
      (h : Recovers missing .and items e rest clean) (hAnd : ∀ after, rest ≠ .and :: after) :
      Recovers missing .or items e rest clean
  | or {items others rest : List (Item α)} {left right : Expr α} {c d : Bool}
      (hLeft : Recovers missing .or items left (.or :: others) c)
      (hRight : Recovers missing .and others right rest d) (hAnd : ∀ after, rest ≠ .and :: after) :
      Recovers missing .or items (.or left right) rest (c && d)

variable {missing : α}

theorem readOr_val (items : List (Item α)) :
    (readOr missing items).val = (moreOr missing (readAnd missing items).val.1
      (readAnd missing items).val.2).val := by
  rw [readOr]

theorem moreOr_or (left : Expr α) (rest : List (Item α)) :
    (moreOr missing left (.or :: rest)).val = (moreOr missing
      (.or left (readAnd missing rest).val.1) (readAnd missing rest).val.2).val := by
  rw [moreOr]

theorem moreOr_end (left : Expr α) {items : List (Item α)}
    (hEnd : ∀ after, items ≠ .or :: after) : (moreOr missing left items).val = (left, items) := by
  rw [moreOr]
  exact hEnd

theorem readAnd_val (items : List (Item α)) :
    (readAnd missing items).val = (moreAnd missing (readComparison missing items).val.1
      (readComparison missing items).val.2).val := by
  rw [readAnd]

theorem moreAnd_and (left : Expr α) (rest : List (Item α)) :
    (moreAnd missing left (.and :: rest)).val = (moreAnd missing
      (.and left (readComparison missing rest).val.1) (readComparison missing rest).val.2).val := by
  rw [moreAnd]

theorem moreAnd_end (left : Expr α) {items : List (Item α)}
    (hEnd : ∀ after, items ≠ .and :: after) :
    (moreAnd missing left items).val = (left, items) := by
  rw [moreAnd]
  exact hEnd

theorem nextRelation_eq_none {items : List (Item α)}
    (hEnd : ∀ r after, items ≠ .relation r :: after) : nextRelation items = none := by
  unfold nextRelation
  split
  · rename_i r after
    exact absurd rfl (hEnd r after)
  · rfl

theorem readComparison_end {items rest : List (Item α)} {e : Expr α}
    (hLeft : (readUnary missing items).val = (e, rest))
    (hEnd : ∀ r after, rest ≠ .relation r :: after) :
    (readComparison missing items).val = (e, rest) := by
  rw [readComparison]
  rcases hUnary : readUnary missing items with ⟨⟨left, rest'⟩, h⟩
  rw [hUnary] at hLeft
  cases hLeft
  simp only
  split
  · rfl
  · rename_i hNext
    rw [nextRelation_eq_none hEnd] at hNext
    cases hNext

theorem readComparison_relate {items others rest : List (Item α)} {left right : Expr α}
    {r : Relation} (hLeft : (readUnary missing items).val = (left, .relation r :: others))
    (hRight : (readUnary missing others).val = (right, rest)) :
    (readComparison missing items).val = (.relate r left right, rest) := by
  rw [readComparison]
  rcases hUnary : readUnary missing items with ⟨⟨left', rest'⟩, h⟩
  rw [hUnary] at hLeft
  cases hLeft
  simp only
  split
  · rename_i hNext
    cases hNext
  · rename_i hNext
    cases hNext
    rcases hOther : readUnary missing others with ⟨⟨right', rest'⟩, h'⟩
    rw [hOther] at hRight
    cases hRight
    rfl

theorem readUnary_not {items rest : List (Item α)} {e : Expr α}
    (h : (readUnary missing items).val = (e, rest)) :
    (readUnary missing (.not :: items)).val = (.not e, rest) := by
  rw [readUnary]
  rcases hUnary : readUnary missing items with ⟨⟨e', rest'⟩, h'⟩
  rw [hUnary] at h
  cases h
  rfl

theorem readUnary_opening (items : List (Item α)) :
    (readUnary missing (.opening :: items)).val =
      ((readOr missing items).val.1, dropClosing (readOr missing items).val.2) := by
  rw [readUnary]

theorem readUnary_misplaced {item : Item α} (rest : List (Item α))
    (hItem : item.isMisplaced = true) :
    (readUnary missing (item :: rest)).val = (.leaf missing, rest) := by
  cases item with
  | operand | not | opening => cases hItem
  | relation | and | or | closing => rw [readUnary]

theorem dropClosing_eq {items : List (Item α)} (hOpen : ∀ after, items ≠ .closing :: after) :
    dropClosing items = items := by
  unfold dropClosing
  split
  · rename_i after
    exact absurd rfl (hOpen after)
  · rfl

/-- What the reader of a level does on a list, as far as a tree and the rest say it. In a chain the
tree may be a part of the chain, which the reader goes on from. -/
def Level.Read (missing : α) (items : List (Item α)) (e : Expr α) (rest : List (Item α)) :
    Level → Prop
  | .or => (readOr missing items).val = (moreOr missing e rest).val
  | .and => (readAnd missing items).val = (moreAnd missing e rest).val
  | .comparison => (readComparison missing items).val = (e, rest)
  | .unary => (readUnary missing items).val = (e, rest)
  | .primary => (readUnary missing items).val = (e, rest)

/-- The reader does what the recovery says. -/
theorem Recovers.read {level : Level} {items rest : List (Item α)} {e : Expr α} {clean : Bool}
    (h : Recovers missing level items e rest clean) : level.Read missing items e rest := by
  induction h with
  | operand a rest =>
      change (readUnary missing (.operand a :: rest)).val = (.leaf a, rest)
      rw [readUnary]
  | absent =>
      change (readUnary missing []).val = (.leaf missing, [])
      rw [readUnary]
  | misplaced rest hItem => exact readUnary_misplaced rest hItem
  | @closed items rest e clean _ ih =>
      change (readUnary missing (.opening :: items)).val = (e, rest)
      have hInner : (readOr missing items).val = (e, .closing :: rest) := by
        rw [show (readOr missing items).val = _ from ih]
        exact moreOr_end e (by simp)
      rw [readUnary_opening, hInner]
      rfl
  | @unclosed items rest e clean _ hOr hOpen ih =>
      change (readUnary missing (.opening :: items)).val = (e, rest)
      have hInner : (readOr missing items).val = (e, rest) := by
        rw [show (readOr missing items).val = _ from ih]
        exact moreOr_end e hOr
      rw [readUnary_opening, hInner]
      simp only
      rw [dropClosing_eq hOpen]
  | ofPrimary _ ih => exact ih
  | not _ ih => exact readUnary_not ih
  | ofUnary _ hRelation ih => exact readComparison_end ih hRelation
  | relate _ _ ihLeft ihRight => exact readComparison_relate ihLeft ihRight
  | @ofComparison items rest e clean _ ih =>
      change (readAnd missing items).val = (moreAnd missing e rest).val
      rw [readAnd_val, show (readComparison missing items).val = _ from ih]
  | @and items others rest left right c d _ _ ihLeft ihRight =>
      change (readAnd missing items).val = (moreAnd missing (.and left right) rest).val
      rw [show (readAnd missing items).val = _ from ihLeft, moreAnd_and,
        show (readComparison missing others).val = _ from ihRight]
  | @ofAnd items rest e clean _ hAnd ih =>
      change (readOr missing items).val = (moreOr missing e rest).val
      rw [readOr_val, show (readAnd missing items).val = _ from ih, moreAnd_end e hAnd]
  | @or items others rest left right c d _ _ hAnd ihLeft ihRight =>
      change (readOr missing items).val = (moreOr missing (.or left right) rest).val
      rw [show (readOr missing items).val = _ from ihLeft, moreOr_or,
        show (readAnd missing others).val = _ from ihRight, moreAnd_end right hAnd]

/-- The whole of a list recovered: its tree, and whether it is a sentence. -/
def Recovery (missing : α) (items : List (Item α)) (e : Expr α) (clean : Bool) : Prop :=
  ∃ rest c, Recovers missing .or items e rest c ∧ (∀ after, rest ≠ .or :: after) ∧
    clean = (c && rest.isEmpty)

/-- There is one recovery, the tree that is read. -/
theorem Recovery.ofItems_eq {items : List (Item α)} {e : Expr α} {clean : Bool}
    (h : Recovery missing items e clean) : ofItems missing items = e := by
  obtain ⟨rest, c, hRecovers, hOr, -⟩ := h
  have hRead : (readOr missing items).val = (moreOr missing e rest).val := hRecovers.read
  unfold ofItems
  rw [hRead, moreOr_end e hOr]

/-- What may follow a sentence of a level that is to be read to its end. -/
def Level.Follow : Level → List (Item α) → Prop
  | .or, rest => (∀ r after, rest ≠ .relation r :: after) ∧ ∀ after, rest ≠ .and :: after
  | .and, rest => ∀ r after, rest ≠ .relation r :: after
  | .comparison, rest => ∀ r after, rest ≠ .relation r :: after
  | .unary, _ => True
  | .primary, _ => True

/-- A sentence is recovered as it is written, whatever follows. -/
theorem Sentence.recovers {level : Level} {items : List (Item α)} {e : Expr α}
    (h : Sentence level items e) :
    ∀ rest, level.Follow rest → Recovers missing level (items ++ rest) e rest true := by
  induction h with
  | operand a =>
      intro rest _
      exact .operand a rest
  | @parens items e _ ih =>
      intro rest _
      have hInner : Recovers missing .or (items ++ .closing :: rest) e (.closing :: rest) true :=
        ih _ ⟨by simp, by simp⟩
      have hItems : (.opening :: items ++ [.closing]) ++ rest =
          Item.opening :: (items ++ .closing :: rest) := by simp
      rw [hItems]
      exact .closed hInner
  | ofPrimary _ ih =>
      intro rest _
      exact .ofPrimary (ih rest trivial)
  | not _ ih =>
      intro rest _
      exact .not (ih rest trivial)
  | ofUnary _ ih =>
      intro rest hFollow
      exact .ofUnary (ih rest trivial) hFollow
  | @relate items others left right r _ _ ihLeft ihRight =>
      intro rest _
      rw [List.append_assoc, List.cons_append]
      exact .relate (ihLeft _ trivial) (ihRight rest trivial)
  | ofComparison _ ih =>
      intro rest hFollow
      exact .ofComparison (ih rest hFollow)
  | @and items others left right _ _ ihLeft ihRight =>
      intro rest hFollow
      rw [List.append_assoc, List.cons_append]
      have hNext : Level.Follow .and (.and :: (others ++ rest)) := by simp [Level.Follow]
      exact .and (ihLeft _ hNext) (ihRight rest hFollow)
  | ofAnd _ ih =>
      intro rest hFollow
      exact .ofAnd (ih rest hFollow.1) hFollow.2
  | @or items others left right _ _ ihLeft ihRight =>
      intro rest hFollow
      rw [List.append_assoc, List.cons_append]
      have hNext : Level.Follow .or (.or :: (others ++ rest)) := by simp [Level.Follow]
      exact .or (ihLeft _ hNext) (ihRight rest hFollow.1) hFollow.2

/-- What is recovered by the grammar alone is a sentence. -/
theorem Recovers.sentence {level : Level} {items rest : List (Item α)} {e : Expr α} {clean : Bool}
    (h : Recovers missing level items e rest clean) (hClean : clean = true) :
    ∃ front, items = front ++ rest ∧ Sentence level front e := by
  induction h with
  | operand a rest => exact ⟨[.operand a], rfl, .operand a⟩
  | absent | misplaced | unclosed => cases hClean
  | closed _ ih =>
      obtain ⟨front, rfl, hFront⟩ := ih hClean
      exact ⟨.opening :: front ++ [.closing], by simp, .parens hFront⟩
  | ofPrimary _ ih =>
      obtain ⟨front, rfl, hFront⟩ := ih hClean
      exact ⟨front, rfl, .ofPrimary hFront⟩
  | not _ ih =>
      obtain ⟨front, rfl, hFront⟩ := ih hClean
      exact ⟨.not :: front, rfl, .not hFront⟩
  | ofUnary _ _ ih =>
      obtain ⟨front, rfl, hFront⟩ := ih hClean
      exact ⟨front, rfl, .ofUnary hFront⟩
  | @relate items others rest left right r c d _ _ ihLeft ihRight =>
      rw [Bool.and_eq_true] at hClean
      obtain ⟨front, rfl, hFront⟩ := ihLeft hClean.1
      obtain ⟨back, rfl, hBack⟩ := ihRight hClean.2
      exact ⟨front ++ .relation r :: back, by simp, .relate r hFront hBack⟩
  | ofComparison _ ih =>
      obtain ⟨front, rfl, hFront⟩ := ih hClean
      exact ⟨front, rfl, .ofComparison hFront⟩
  | @and items others rest left right c d _ _ ihLeft ihRight =>
      rw [Bool.and_eq_true] at hClean
      obtain ⟨front, rfl, hFront⟩ := ihLeft hClean.1
      obtain ⟨back, rfl, hBack⟩ := ihRight hClean.2
      exact ⟨front ++ .and :: back, by simp, .and hFront hBack⟩
  | ofAnd _ _ ih =>
      obtain ⟨front, rfl, hFront⟩ := ih hClean
      exact ⟨front, rfl, .ofAnd hFront⟩
  | @or items others rest left right c d _ _ _ ihLeft ihRight =>
      rw [Bool.and_eq_true] at hClean
      obtain ⟨front, rfl, hFront⟩ := ihLeft hClean.1
      obtain ⟨back, rfl, hBack⟩ := ihRight hClean.2
      exact ⟨front ++ .or :: back, by simp, .or hFront hBack⟩

/-- A list is a sentence exactly when nothing had to be mended. -/
theorem sentence_iff_recovery {items : List (Item α)} {e : Expr α} :
    Sentence .or items e ↔ Recovery missing items e true := by
  constructor
  · intro h
    have hRecovers : Recovers missing .or (items ++ []) e [] true := h.recovers [] (by simp [Level.Follow])
    rw [List.append_nil] at hRecovers
    exact ⟨[], true, hRecovers, by simp, rfl⟩
  · rintro ⟨rest, c, hRecovers, -, hClean⟩
    have hBoth := hClean.symm
    rw [Bool.and_eq_true, List.isEmpty_iff] at hBoth
    obtain ⟨hTrue, rfl⟩ := hBoth
    obtain ⟨front, rfl, hFront⟩ := hRecovers.sentence hTrue
    rwa [List.append_nil]

/-- A level can be recovered from a list, and its chain goes on to its end. -/
def Recoverable (missing : α) (level : Level) (items : List (Item α)) : Prop :=
  ∃ e rest clean, Recovers missing level items e rest clean ∧ rest.length ≤ items.length ∧
    match level with
    | .or => ∀ after, rest ≠ .or :: after
    | .and => ∀ after, rest ≠ .and :: after
    | _ => True

theorem recoverable_comparison {n : Nat}
    (hUnary : ∀ items : List (Item α), items.length ≤ n → Recoverable missing .unary items)
    (items : List (Item α)) (hLength : items.length ≤ n) :
    Recoverable missing .comparison items := by
  obtain ⟨left, rest, c, hLeft, hRest, -⟩ := hUnary items hLength
  by_cases hRelation : ∃ r others, rest = .relation r :: others
  · obtain ⟨r, others, rfl⟩ := hRelation
    rw [List.length_cons] at hRest
    obtain ⟨right, rest', d, hRight, hRest', -⟩ := hUnary others (by omega)
    exact ⟨.relate r left right, rest', c && d, .relate hLeft hRight, by omega, trivial⟩
  · have hEnd : ∀ r after, rest ≠ .relation r :: after := by
      intro r after hRest'
      exact hRelation ⟨r, after, hRest'⟩
    exact ⟨left, rest, c, .ofUnary hLeft hEnd, hRest, trivial⟩

/-- A tree of a level has been made of the first items, up to the rest. -/
def Begun (missing : α) (level : Level) (items rest : List (Item α)) : Prop :=
  ∃ e clean, Recovers missing level items e rest clean

/-- A chain that has been begun comes to its end, since each further link takes the operator before
it along. -/
theorem Begun.chain_end {level : Level} {mark : Item α} {items : List (Item α)} {n : Nat}
    (hLink : ∀ others, others.length < n → Begun missing level items (mark :: others) →
      ∃ rest, Begun missing level items rest ∧ rest.length ≤ others.length) (k : Nat) :
    ∀ rest, Begun missing level items rest → rest.length ≤ k → rest.length ≤ n →
      ∃ last, Begun missing level items last ∧ last.length ≤ rest.length ∧
        ∀ after, last ≠ mark :: after := by
  induction k with
  | zero =>
      intro rest hBegun hShort _
      rw [Nat.le_zero, List.length_eq_zero_iff] at hShort
      subst hShort
      exact ⟨[], hBegun, Nat.le_refl _, nofun⟩
  | succ k ih =>
      intro rest hBegun hShort hLength
      by_cases hMark : ∃ others, rest = mark :: others
      · obtain ⟨others, rfl⟩ := hMark
        rw [List.length_cons] at hShort hLength
        obtain ⟨next, hNext, hLess⟩ := hLink others (by omega) hBegun
        obtain ⟨last, hLast, hRest, hEnd⟩ := ih next hNext (by omega) (by omega)
        refine ⟨last, hLast, ?_, hEnd⟩
        rw [List.length_cons]
        omega
      · refine ⟨rest, hBegun, Nat.le_refl _, ?_⟩
        intro after hRest
        exact hMark ⟨after, hRest⟩

theorem recoverable_and {n : Nat}
    (hUnary : ∀ items : List (Item α), items.length ≤ n → Recoverable missing .unary items)
    (items : List (Item α)) (hLength : items.length ≤ n) : Recoverable missing .and items := by
  obtain ⟨left, rest, c, hLeft, hRest, -⟩ := recoverable_comparison hUnary items hLength
  have hBegun : Begun missing .and items rest := ⟨left, c, .ofComparison hLeft⟩
  have hLink : ∀ others : List (Item α), others.length < n →
      Begun missing .and items (.and :: others) →
      ∃ rest, Begun missing .and items rest ∧ rest.length ≤ others.length := by
    rintro others hOthers ⟨left, c, hLeft⟩
    obtain ⟨right, rest, d, hRight, hRest, -⟩ := recoverable_comparison hUnary others (by omega)
    exact ⟨rest, ⟨.and left right, c && d, .and hLeft hRight⟩, hRest⟩
  obtain ⟨last, ⟨e, d, hLast⟩, hLess, hEnd⟩ :=
    Begun.chain_end hLink n rest hBegun (by omega) (by omega)
  exact ⟨e, last, d, hLast, by omega, hEnd⟩

theorem recoverable_or {n : Nat}
    (hUnary : ∀ items : List (Item α), items.length ≤ n → Recoverable missing .unary items)
    (items : List (Item α)) (hLength : items.length ≤ n) : Recoverable missing .or items := by
  obtain ⟨left, rest, c, hLeft, hRest, hAnd⟩ := recoverable_and hUnary items hLength
  have hBegun : Begun missing .or items rest := ⟨left, c, .ofAnd hLeft hAnd⟩
  have hLink : ∀ others : List (Item α), others.length < n →
      Begun missing .or items (.or :: others) →
      ∃ rest, Begun missing .or items rest ∧ rest.length ≤ others.length := by
    rintro others hOthers ⟨left, c, hLeft⟩
    obtain ⟨right, rest, d, hRight, hRest, hAnd⟩ := recoverable_and hUnary others (by omega)
    exact ⟨rest, ⟨.or left right, c && d, .or hLeft hRight hAnd⟩, hRest⟩
  obtain ⟨last, ⟨e, d, hLast⟩, hLess, hEnd⟩ :=
    Begun.chain_end hLink n rest hBegun (by omega) (by omega)
  exact ⟨e, last, d, hLast, by omega, hEnd⟩

theorem recoverable_unary (n : Nat) :
    ∀ items : List (Item α), items.length ≤ n → Recoverable missing .unary items := by
  induction n with
  | zero =>
      intro items hLength
      rw [Nat.le_zero, List.length_eq_zero_iff] at hLength
      subst hLength
      exact ⟨.leaf missing, [], false, .ofPrimary .absent, Nat.le_refl _, trivial⟩
  | succ n ih =>
      intro items hLength
      cases items with
      | nil => exact ⟨.leaf missing, [], false, .ofPrimary .absent, Nat.le_refl _, trivial⟩
      | cons item rest =>
          rw [List.length_cons] at hLength
          have hMisplaced : item.isMisplaced = true → Recoverable missing .unary (item :: rest) :=
            fun hItem => ⟨.leaf missing, rest, false, .ofPrimary (.misplaced rest hItem),
              Nat.le_succ _, trivial⟩
          cases item with
          | operand a =>
              exact ⟨.leaf a, rest, true, .ofPrimary (.operand a rest), Nat.le_succ _, trivial⟩
          | not =>
              obtain ⟨e, rest', c, hInner, hRest, -⟩ := ih rest (by omega)
              exact ⟨.not e, rest', c, .not hInner, Nat.le_succ_of_le hRest, trivial⟩
          | opening =>
              obtain ⟨e, rest', c, hInner, hRest, hOr⟩ := recoverable_or ih rest (by omega)
              by_cases hClosing : ∃ after, rest' = .closing :: after
              · obtain ⟨after, rfl⟩ := hClosing
                rw [List.length_cons] at hRest
                refine ⟨e, after, c, .ofPrimary (.closed hInner), ?_, trivial⟩
                rw [List.length_cons]
                omega
              · refine ⟨e, rest', false, .ofPrimary (.unclosed hInner hOr ?_),
                  Nat.le_succ_of_le hRest, trivial⟩
                intro after hRest'
                exact hClosing ⟨after, hRest'⟩
          | relation | and | or | closing => exact hMisplaced rfl

/-- Every list of items can be recovered. -/
theorem exists_recovery (missing : α) (items : List (Item α)) :
    ∃ e clean, Recovery missing items e clean := by
  obtain ⟨e, rest, c, hRecovers, -, hOr⟩ :=
    recoverable_or (recoverable_unary items.length) items (Nat.le_refl _)
  exact ⟨e, c && rest.isEmpty, rest, c, hRecovers, hOr, rfl⟩

end StepFlow.Expr
