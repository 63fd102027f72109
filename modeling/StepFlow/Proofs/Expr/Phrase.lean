import StepFlow.Proofs.Expr.Sentence

/-! Tokens that show items. A literal is one token, a path is its names with dots between them, and
every mark is itself. A list of tokens that shows a sentence is a phrase; one with a dot out of place
shows nothing. -/
namespace StepFlow.Expr

/-- The value that a token spells out. -/
def Token.literal? : Token → Option Value
  | .text s => some (.text s)
  | .int n => some (.int n)
  | .real x => some (.ofFloat x)
  | .bool b => some (.bool b)
  | .null => some .null
  | _ => none

/-- The further names of a path, each behind its dot. -/
def dotted : List String → List Token
  | [] => []
  | name :: names => .dot :: .ident name :: dotted names

/-- The tokens of one item. -/
inductive Item.Shown : List Token → Item Operand → Prop where
  | literal {t : Token} {v : Value} (hValue : t.literal? = some v) :
      Shown [t] (.operand (.literal v))
  | path (name : String) (names : List String) :
      Shown (.ident name :: dotted names) (.operand (.path name names))
  | relation (r : Relation) : Shown [.relation r] (.relation r)
  | and : Shown [.and] .and
  | or : Shown [.or] .or
  | not : Shown [.not] .not
  | opening : Shown [.opening] .opening
  | closing : Shown [.closing] .closing

/-- The tokens of some items, one after the other. -/
inductive Shows : List Token → List (Item Operand) → Prop where
  | nil : Shows [] []
  | cons {ts us : List Token} {item : Item Operand} {items : List (Item Operand)}
      (hFirst : item.Shown ts) (hRest : Shows us items) : Shows (ts ++ us) (item :: items)

/-- Tokens that are a sentence of the grammar, with its tree. -/
def Phrase (tokens : List Token) (e : Expr Operand) : Prop :=
  ∃ items, Shows tokens items ∧ Sentence .or items e

/-- No item begins with a dot. -/
theorem Shows.ne_dot {tokens : List Token} {items : List (Item Operand)} (h : Shows tokens items) :
    ∀ after, tokens ≠ .dot :: after := by
  intro after hTokens
  cases h with
  | nil => cases hTokens
  | cons hFirst _ =>
      cases hFirst with
      | literal hValue =>
          cases hTokens
          cases hValue
      | _ => cases hTokens

theorem chain_dotted (names : List String) {rest : List Token}
    (hEnd : ∀ after, rest ≠ .dot :: after) : Item.chain (dotted names ++ rest) = (names, rest) := by
  induction names with
  | nil =>
      change Item.chain rest = ([], rest)
      unfold Item.chain
      split
      · rename_i after
        exact absurd rfl (hEnd _)
      · rfl
  | cons name names ih =>
      change Item.chain (.dot :: .ident name :: (dotted names ++ rest)) = (name :: names, rest)
      rw [Item.chain, ih]

/-- Items are read off the tokens that show them. -/
theorem Shows.ofTokens_eq {tokens : List Token} {items : List (Item Operand)}
    (h : Shows tokens items) : Item.ofTokens tokens = items := by
  induction h with
  | nil => rw [Item.ofTokens]
  | @cons ts us item items hFirst hRest ih =>
      cases hFirst with
      | @literal t v hValue =>
          cases t with
          | text | int | real | bool | null =>
              cases hValue
              rw [List.singleton_append, Item.ofTokens, ih]
          | _ => cases hValue
      | path name names =>
          rw [List.cons_append, Item.ofTokens, chain_dotted names hRest.ne_dot, ih]
      | _ => rw [List.singleton_append, Item.ofTokens, ih]

/-- A phrase is one whose tokens show its items and whose recovery mends nothing. -/
theorem phrase_iff {tokens : List Token} {e : Expr Operand} :
    Phrase tokens e ↔ Shows tokens (Item.ofTokens tokens) ∧
      Recovery (.literal .null) (Item.ofTokens tokens) e true := by
  constructor
  · rintro ⟨items, hShows, hSentence⟩
    rw [hShows.ofTokens_eq]
    exact ⟨hShows, sentence_iff_recovery.mp hSentence⟩
  · rintro ⟨hShows, hRecovery⟩
    exact ⟨_, hShows, sentence_iff_recovery.mpr hRecovery⟩

end StepFlow.Expr
