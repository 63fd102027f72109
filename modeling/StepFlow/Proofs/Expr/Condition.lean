import StepFlow.Expr.Template
import StepFlow.Proofs.Expr.Meaning
import StepFlow.Proofs.Expr.Spelling

/-! Conditions whose text is malformed. Nothing is refused: what is no phrase is mended, and the
condition is as true as the tree that it was mended to. It fails closed only when that tree has no
value or one that counts as false. -/
namespace StepFlow.Expr

/-- The tokens of a condition, braces around it aside. -/
def conditionTokens (text : String) : List Token :=
  Token.scan (Text.trim (conditionBody text).toList)

/-- A path among some tokens cannot be read. -/
def Unreadable (context : Context) (tokens : List Token) : Prop :=
  ∃ a ∈ Item.operands (Item.ofTokens tokens), ∃ f, a.value context = .error f

theorem condition_eq (text : String) (context : Context) :
    (condition text context).1 = match evaluateTokens (conditionTokens text) context with
      | .ok v => v.truth
      | .error _ => .ok false := by
  unfold condition evaluate evaluate?
  change (match evaluateTokens (conditionTokens text) context with
    | .ok v => (v, [])
    | .error reason => (Value.null, [_])).1.truth = _
  cases evaluateTokens (conditionTokens text) context with
  | ok v => rfl
  | error f => rfl

/-- A tree has an operand. -/
theorem leaves_ne_nil {α : Type} (e : Expr α) : e.leaves ≠ [] := by
  induction e with
  | leaf a => simp [leaves]
  | not e ih => exact ih
  | relate r left right ihLeft _ => simp [leaves, ihLeft]
  | and left right ihLeft _ => simp [leaves, ihLeft]
  | or left right ihLeft _ => simp [leaves, ihLeft]

/-- Without an operand there is no phrase. -/
theorem not_phrase_of_no_operands {tokens : List Token}
    (hNone : Item.operands (Item.ofTokens tokens) = []) (e : Expr Operand) : ¬ Phrase tokens e := by
  rintro ⟨items, hShows, hSentence⟩
  rw [hShows.ofTokens_eq, hSentence.operands_eq] at hNone
  exact leaves_ne_nil e hNone

/-- A recovery tells a phrase from what had to be mended. -/
theorem exists_recovery_of_tokens (tokens : List Token) :
    ∃ e clean, Recovery (.literal .null) (Item.ofTokens tokens) e clean ∧
      ((∃ e', Phrase tokens e') ↔ Shows tokens (Item.ofTokens tokens) ∧ clean = true) := by
  by_cases hPhrase : ∃ e, Phrase tokens e
  · obtain ⟨e, hPhrase⟩ := hPhrase
    obtain ⟨hShows, hRecovery⟩ := phrase_iff.mp hPhrase
    exact ⟨e, true, hRecovery, fun _ => ⟨hShows, rfl⟩, fun _ => ⟨e, hPhrase⟩⟩
  · obtain ⟨e, clean, hRecovery⟩ := exists_recovery (.literal .null) (Item.ofTokens tokens)
    refine ⟨e, clean, hRecovery, fun h => absurd h hPhrase, ?_⟩
    rintro ⟨hShows, rfl⟩
    exact ⟨e, phrase_iff.mpr ⟨hShows, hRecovery⟩⟩

/-- A condition holds when the tree that it is mended to has a value that counts as true. It is
false when there is no value or one that counts as false, and it has no truth when its value has
none. Tokens that are left over matter only by their paths. -/
theorem condition_of_recovery {text : String} {e : Expr Operand} {clean : Bool} (context : Context)
    (h : Recovery (.literal .null) (Item.ofTokens (conditionTokens text)) e clean) :
    ((condition text context).1 = .ok true ↔ ¬ Unreadable context (conditionTokens text) ∧
      ∃ v, Denotes context e v ∧ v.truth = .ok true) ∧
    ((condition text context).1 = .ok false ↔ Unreadable context (conditionTokens text) ∨
      (∃ f, Raises context e f) ∨ ∃ v, Denotes context e v ∧ v.truth = .ok false) := by
  have hEvaluate := evaluateTokens_of_recovery context h
  rw [condition_eq]
  cases hCases : evaluateTokens (conditionTokens text) context with
  | ok v =>
      rw [hCases] at hEvaluate
      obtain ⟨hDenotes, hSound⟩ := hEvaluate
      have hReadable : ¬ Unreadable context (conditionTokens text) := by
        rintro ⟨a, hMem, f, hFault⟩
        exact hSound a hMem f hFault
      have hTruth : ∀ b, (v.truth = .ok b ↔ ∃ w, Denotes context e w ∧ w.truth = .ok b) := by
        intro b
        constructor
        · intro hTruth
          exact ⟨v, hDenotes, hTruth⟩
        · rintro ⟨w, hOther, hTruth⟩
          rwa [hDenotes.unique hOther]
      have hSafe : ¬ ∃ f, Raises context e f := by
        rintro ⟨f, hRaises⟩
        exact hRaises.not_denotes v hDenotes
      simp only [hTruth]
      simp [hReadable, hSafe]
  | error f =>
      rw [hCases] at hEvaluate
      have hClosed : Unreadable context (conditionTokens text) ∨ ∃ f, Raises context e f := by
        rcases hEvaluate with hRaises | ⟨a, hMem, hFault⟩
        · exact .inr ⟨f, hRaises⟩
        · exact .inl ⟨a, hMem, f, hFault⟩
      refine ⟨⟨nofun, ?_⟩, ⟨fun _ => ?_, fun _ => rfl⟩⟩
      · rintro ⟨hReadable, v, hDenotes, -⟩
        rcases hClosed with hUnreadable | ⟨f, hRaises⟩
        · exact absurd hUnreadable hReadable
        · exact absurd hDenotes (hRaises.not_denotes v)
      · rcases hClosed with hUnreadable | hRaises
        · exact .inl hUnreadable
        · exact .inr (.inl hRaises)

/-- What a condition does with any text, malformed or not. Its tokens are mended to one tree, and
they are a phrase exactly when nothing had to be mended. Whether it fails closed is up to the values
in that tree, whatever was wrong with the text. -/
theorem condition_fails_closed_iff (text : String) (context : Context) :
    ∃ e clean, Recovery (.literal .null) (Item.ofTokens (conditionTokens text)) e clean ∧
      (∀ e' clean', Recovery (.literal .null) (Item.ofTokens (conditionTokens text)) e' clean' →
        e' = e) ∧
      ((∃ e', Phrase (conditionTokens text) e') ↔
        Shows (conditionTokens text) (Item.ofTokens (conditionTokens text)) ∧ clean = true) ∧
      ((condition text context).1 = .ok true ↔ ¬ Unreadable context (conditionTokens text) ∧
        ∃ v, Denotes context e v ∧ v.truth = .ok true) ∧
      ((condition text context).1 = .ok false ↔ Unreadable context (conditionTokens text) ∨
        (∃ f, Raises context e f) ∨ ∃ v, Denotes context e v ∧ v.truth = .ok false) := by
  obtain ⟨e, clean, hRecovery, hPhrase⟩ := exists_recovery_of_tokens (conditionTokens text)
  refine ⟨e, clean, hRecovery, ?_, hPhrase, condition_of_recovery context hRecovery⟩
  intro e' clean' hOther
  rw [← hOther.ofItems_eq, hRecovery.ofItems_eq]

theorem items_negation : Item.ofTokens (conditionTokens "!") = [.not] := by
  have hTokens : conditionTokens "!" = [.not] := by
    change Token.scan ['!'] = [.not]
    have hNext : ∀ d, ([] : List Char).head? = some d → Token.pair? '!' d = none := nofun
    rw [Token.scan_single rfl rfl hNext, Token.scan.eq_def]
  rw [hTokens, Item.ofTokens, Item.ofTokens]

/-- A negation of nothing holds: the operand that is missing is null, which counts as false. -/
theorem negation_of_nothing_holds :
    (∀ e, ¬ Phrase (conditionTokens "!") e) ∧
      ∀ context, (condition "!" context).1 = .ok true := by
  refine ⟨?_, ?_⟩
  · apply not_phrase_of_no_operands
    rw [items_negation]
    rfl
  · intro context
    have hRecovers : Recovers (Operand.literal .null) .or [.not] (.not (.leaf (.literal .null)))
        [] false :=
      .ofAnd (.ofComparison (.ofUnary (.not (.ofPrimary .absent)) nofun)) nofun
    have hRecovery : Recovery (.literal .null) (Item.ofTokens (conditionTokens "!"))
        (.not (.leaf (.literal .null))) false := by
      rw [items_negation]
      exact ⟨[], false, hRecovers, nofun, rfl⟩
    have hNull : Denotes context (.leaf (.literal .null)) .null := .leaf rfl
    have hDenotes : Denotes context (.not (.leaf (.literal .null))) (.bool (!false)) := hNull.not rfl
    apply (condition_of_recovery context hRecovery).1.mpr
    refine ⟨?_, .bool true, hDenotes, rfl⟩
    rintro ⟨a, hMem, -⟩
    rw [items_negation] at hMem
    cases hMem

end StepFlow.Expr
