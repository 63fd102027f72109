import StepFlow.Proofs.Expr.Meaning
import StepFlow.Proofs.Expr.Spelling

/-! Written expressions have the value of their trees. A text is scanned, its tokens are gathered to
items and the items are read by levels; what comes out is what the rules say of the tree that the
text was written for. Every tree of plain operands can be written. -/
namespace StepFlow.Expr

open Text (decimalValue_lt decimalValue_toDigits isAsciiDigit_of_mem_toDigits)

/-- The operands that the grammar has literals and paths for. -/
inductive Operand.Plain : Operand → Prop where
  | text (s : String) : Plain (.literal (.text s))
  | int {n : Int} (hCount : (Value.int n).isWritable = true) : Plain (.literal (.int n))
  | bool (b : Bool) : Plain (.literal (.bool b))
  | null : Plain (.literal .null)
  | path {name : String} {names : List String} (hName : IsName name)
      (hNames : ∀ other ∈ names, IsName other) : Plain (.path name names)

section Operands

/-- A text between quotes can be any text, since all of it can be escaped. -/
theorem exists_quoted (quote : Char) (body : List Char) : ∃ written, Quoted quote body written := by
  induction body with
  | nil => exact ⟨[], .nil⟩
  | cons c body ih =>
      obtain ⟨written, h⟩ := ih
      exact ⟨'\\' :: c :: written, .escaped c h⟩

theorem exists_dotted {names : List String} (hNames : ∀ name ∈ names, IsName name) :
    ∃ cs, Dotted names cs := by
  induction names with
  | nil => exact ⟨[], .nil⟩
  | cons name names ih =>
      obtain ⟨cs, h⟩ := ih fun other hMem => hNames other (List.mem_cons_of_mem _ hMem)
      exact ⟨_, @Dotted.cons [] [] cs name names nofun nofun (hNames name List.mem_cons_self) h⟩

theorem Dotted.names {names : List String} {cs : List Char} (h : Dotted names cs) :
    ∀ name ∈ names, IsName name := by
  induction h with
  | nil => exact nofun
  | cons _ _ hName _ ih =>
      intro other hMem
      rcases List.mem_cons.mp hMem with rfl | hMem
      · exact hName
      · exact ih other hMem

/-- An integer that is spelled with few enough digits has few enough of its own. -/
theorem isWritable_decimalValue {digits : List Char}
    (hDigits : ∀ c ∈ digits, Text.isAsciiDigit c = true)
    (hCount : digits.length ≤ Number.digitLimit) :
    (Value.int (Text.decimalValue digits)).isWritable = true := by
  rw [Value.isWritable_int_iff, Int.natAbs_natCast, Nat.length_toDigits_le_iff (by decide) (by decide)]
  exact (decimalValue_lt hDigits).trans_le (Nat.pow_le_pow_right (by decide) hCount)

/-- An operand can be written exactly when it is plain. -/
theorem Operand.exists_spelled_iff {a : Operand} :
    (∃ written, Item.Spelled (.operand a) written) ↔ a.Plain := by
  constructor
  · rintro ⟨written, h⟩
    cases h with
    | text => exact .text _
    | natural _ hDigits hCount => exact .int (isWritable_decimalValue hDigits hCount)
    | negative _ hDigits hCount =>
        exact .int ((Value.isWritable_neg _).trans (isWritable_decimalValue hDigits hCount))
    | trueWord => exact .bool true
    | falseWord => exact .bool false
    | nullWord => exact .null
    | undefinedWord => exact .null
    | path hName hRest => exact .path hName hRest.names
  · intro h
    cases h with
    | text s =>
        obtain ⟨written, hQuoted⟩ := exists_quoted '"' s.toList
        have hSpelled := Item.Spelled.text (.inr rfl) hQuoted
        rw [String.ofList_toList] at hSpelled
        exact ⟨_, hSpelled⟩
    | @int n hCount =>
        rw [Value.isWritable_int_iff] at hCount
        have hDigits : ∀ c ∈ Nat.toDigits 10 n.natAbs, Text.isAsciiDigit c = true :=
          fun _ => isAsciiDigit_of_mem_toDigits
        rcases Int.natAbs_eq n with hSign | hSign
        · have hSpelled := Item.Spelled.natural Nat.toDigits_ne_nil hDigits hCount
          rw [decimalValue_toDigits, ← hSign] at hSpelled
          exact ⟨_, hSpelled⟩
        · have hSpelled := Item.Spelled.negative Nat.toDigits_ne_nil hDigits hCount
          rw [decimalValue_toDigits, ← hSign] at hSpelled
          exact ⟨_, hSpelled⟩
    | bool b =>
        cases b with
        | true => exact ⟨_, .trueWord⟩
        | false => exact ⟨_, .falseWord⟩
    | null => exact ⟨_, .nullWord⟩
    | path hName hNames =>
        obtain ⟨cs, hRest⟩ := exists_dotted hNames
        exact ⟨_, .path hName hRest⟩

end Operands

/-- A line can be begun with a blank and a further item. -/
theorem Laid.further {item : Item Operand} {items : List (Item Operand)} {written rest : List Char}
    (hRest : Laid items rest) (hFirst : item.Spelled written) (hApart : Apart rest) :
    Laid (item :: items) (' ' :: (written ++ rest)) ∧ Apart (' ' :: (written ++ rest)) := by
  have hBlank : ∀ c ∈ [' '], Text.isBlank c = true := List.all_eq_true.mp rfl
  refine ⟨.cons hBlank hFirst hApart hRest, ?_⟩
  intro c hHead
  cases hHead
  rfl

/-- Items that can be written can be written in a line. -/
theorem exists_laid {items : List (Item Operand)}
    (hSpelled : ∀ item ∈ items, ∃ written, item.Spelled written) :
    ∃ cs, Laid items cs ∧ Apart cs := by
  induction items with
  | nil => exact ⟨[], .nil (by simp), by simp [Apart]⟩
  | cons item items ih =>
      obtain ⟨written, hFirst⟩ := hSpelled item List.mem_cons_self
      obtain ⟨rest, hRest, hApart⟩ := ih fun other hMem => hSpelled other (List.mem_cons_of_mem _ hMem)
      exact ⟨_, hRest.further hFirst hApart⟩

/-- A tree has a sentence, with each of its parts in parentheses. -/
theorem exists_sentence (e : Expr Operand)
    (hSpelled : ∀ a ∈ e.leaves, ∃ written, Item.Spelled (.operand a) written) :
    ∃ items, Sentence .primary items e ∧ ∀ item ∈ items, ∃ written, item.Spelled written := by
  have hParens : ∀ {items : List (Item Operand)} {e : Expr Operand}, Sentence .or items e →
      (∀ item ∈ items, ∃ written, item.Spelled written) →
      ∃ items, Sentence .primary items e ∧ ∀ item ∈ items, ∃ written, item.Spelled written := by
    intro items e hSentence hItems
    refine ⟨.opening :: items ++ [.closing], .parens hSentence, ?_⟩
    intro item hMem
    rcases List.mem_append.mp hMem with hMem | hMem
    · rcases List.mem_cons.mp hMem with rfl | hMem
      · exact ⟨_, .opening⟩
      · exact hItems item hMem
    · rw [List.mem_singleton.mp hMem]
      exact ⟨_, .closing⟩
  have hBetween : ∀ {items others : List (Item Operand)} {mark : Item Operand},
      (∀ item ∈ items, ∃ written, item.Spelled written) → (∃ written, mark.Spelled written) →
      (∀ item ∈ others, ∃ written, item.Spelled written) →
      ∀ item ∈ items ++ mark :: others, ∃ written, item.Spelled written := by
    intro items others mark hItems hMark hOthers item hMem
    rcases List.mem_append.mp hMem with hMem | hMem
    · exact hItems item hMem
    · rcases List.mem_cons.mp hMem with rfl | hMem
      · exact hMark
      · exact hOthers item hMem
  induction e with
  | leaf a =>
      refine ⟨[.operand a], .operand a, ?_⟩
      intro item hMem
      rw [List.mem_singleton.mp hMem]
      exact hSpelled a (by simp [leaves])
  | not e ih =>
      obtain ⟨items, hSentence, hItems⟩ := ih hSpelled
      refine hParens (.ofAnd (.ofComparison (.ofUnary (.not (.ofPrimary hSentence))))) ?_
      intro item hMem
      rcases List.mem_cons.mp hMem with rfl | hMem
      · exact ⟨_, .not⟩
      · exact hItems item hMem
  | relate r left right ihLeft ihRight =>
      obtain ⟨hSpelledLeft, hSpelledRight⟩ := List.forall_mem_append.mp hSpelled
      obtain ⟨items, hLeft, hItems⟩ := ihLeft hSpelledLeft
      obtain ⟨others, hRight, hOthers⟩ := ihRight hSpelledRight
      exact hParens (.ofAnd (.ofComparison (.relate r (.ofPrimary hLeft) (.ofPrimary hRight))))
        (hBetween hItems ⟨_, .relation r⟩ hOthers)
  | and left right ihLeft ihRight =>
      obtain ⟨hSpelledLeft, hSpelledRight⟩ := List.forall_mem_append.mp hSpelled
      obtain ⟨items, hLeft, hItems⟩ := ihLeft hSpelledLeft
      obtain ⟨others, hRight, hOthers⟩ := ihRight hSpelledRight
      exact hParens (.ofAnd (.and (.ofComparison (.ofUnary (.ofPrimary hLeft)))
        (.ofUnary (.ofPrimary hRight)))) (hBetween hItems ⟨_, .and⟩ hOthers)
  | or left right ihLeft ihRight =>
      obtain ⟨hSpelledLeft, hSpelledRight⟩ := List.forall_mem_append.mp hSpelled
      obtain ⟨items, hLeft, hItems⟩ := ihLeft hSpelledLeft
      obtain ⟨others, hRight, hOthers⟩ := ihRight hSpelledRight
      exact hParens (.or (.ofAnd (.ofComparison (.ofUnary (.ofPrimary hLeft))))
        (.ofComparison (.ofUnary (.ofPrimary hRight)))) (hBetween hItems ⟨_, .or⟩ hOthers)

theorem Laid.spelled {items : List (Item Operand)} {cs : List Char} (h : Laid items cs) :
    ∀ item ∈ items, ∃ written, item.Spelled written := by
  induction h with
  | nil => exact nofun
  | cons _ hFirst _ _ ih =>
      intro item hMem
      rcases List.mem_cons.mp hMem with rfl | hMem
      · exact ⟨_, hFirst⟩
      · exact ih item hMem

/-- The trees that can be written are those of plain operands, whatever their operators. -/
theorem exists_written_iff {e : Expr Operand} :
    (∃ text, Written text e) ↔ ∀ a ∈ e.leaves, a.Plain := by
  constructor
  · rintro ⟨text, items, hSentence, hLaid⟩ a hLeaf
    rw [← hSentence.operands_eq, Item.operands, List.mem_filterMap] at hLeaf
    obtain ⟨item, hMem, hOperand⟩ := hLeaf
    cases item with
    | operand b =>
        cases hOperand
        exact Operand.exists_spelled_iff.mp (hLaid.spelled _ hMem)
    | relation | and | or | not | opening | closing => cases hOperand
  · intro hPlain
    obtain ⟨items, hSentence, hItems⟩ :=
      exists_sentence e fun a hLeaf => Operand.exists_spelled_iff.mpr (hPlain a hLeaf)
    obtain ⟨cs, hLaid, -⟩ := exists_laid hItems
    refine ⟨String.ofList cs, items, .ofAnd (.ofComparison (.ofUnary (.ofPrimary hSentence))), ?_⟩
    rwa [String.toList_ofList]

/-- A written tree is scanned as a phrase of it, blanks around it aside. -/
theorem phrase_of_written {text : String} {e : Expr Operand} (h : Written text e) :
    Phrase (Token.scan (Text.trim text.toList)) e := by
  obtain ⟨items, hSentence, hLaid⟩ := h
  exact ⟨items, hLaid.scan_trim, hSentence⟩

/-- A phrase comes to what its tree comes to. -/
theorem evaluateTokens_of_phrase {tokens : List Token} {e : Expr Operand} (h : Phrase tokens e)
    (context : Context) : ComesTo context e (evaluateTokens tokens context) := by
  obtain ⟨items, hShows, hSentence⟩ := h
  have hItems := hShows.ofTokens_eq
  have hRecovery : Recovery (.literal .null) (Item.ofTokens tokens) e true := by
    rw [hItems]
    exact sentence_iff_recovery.mp hSentence
  have hEvaluate := evaluateTokens_of_recovery context hRecovery
  cases hCases : evaluateTokens tokens context with
  | ok v =>
      rw [hCases] at hEvaluate
      exact hEvaluate.1
  | error f =>
      rw [hCases] at hEvaluate
      rcases hEvaluate with hRaises | ⟨a, hMem, hFault⟩
      · exact hRaises
      · rw [hItems, hSentence.operands_eq] at hMem
        exact raises_of_mem_leaves hMem hFault

/-- A written expression comes to what its tree comes to. -/
theorem evaluate?_of_written {text : String} {e : Expr Operand} (h : Written text e)
    (context : Context) : ComesTo context e (evaluate? text context) :=
  evaluateTokens_of_phrase (phrase_of_written h) context

/-- A written expression has the one value of its tree, without a diagnostic, or something in its
tree has a fault: then it has no value, and is null with that fault as its one diagnostic. -/
theorem evaluate_of_written {text : String} {e : Expr Operand} (h : Written text e)
    (context : Context) :
    (∃ v, (∀ w, Denotes context e w ↔ w = v) ∧ (∀ f, ¬ Raises context e f) ∧
      evaluate text context = (v, [])) ∨
    (∃ f, Raises context e f ∧ (∀ v, ¬ Denotes context e v) ∧
      evaluate text context = (.null, [⟨text, f⟩])) := by
  have hTokens := evaluateTokens_of_phrase (phrase_of_written h) context
  unfold evaluate evaluate?
  cases hCases : evaluateTokens (Token.scan (Text.trim text.toList)) context with
  | ok v =>
      rw [hCases] at hTokens
      have hValue : Denotes context e v := hTokens
      refine .inl ⟨v, ?_, fun f hRaises => hRaises.not_denotes v hValue, rfl⟩
      intro w
      constructor
      · intro hDenotes
        exact hDenotes.unique hValue
      · intro hSame
        rwa [hSame]
  | error f =>
      rw [hCases] at hTokens
      have hRaises : Raises context e f := hTokens
      exact .inr ⟨f, hRaises, hRaises.not_denotes, rfl⟩

/-- The tree of a text with every operator, in which null stands for a path that leads nowhere. -/
def sampleTree : Expr Operand :=
  .or (.not (.relate .eq (.leaf (.path "user" ["tag-1"])) (.leaf (.literal (.text "it's")))))
    (.and (.relate .lt (.leaf (.literal (.int (-5)))) (.leaf (.path "total" [])))
      (.leaf (.literal .null)))

def sampleContext : Context := [("user", .map [("tag-1", .text "it's")])]

theorem evaluate_of_written_sample :
    Written " ! ( user.tag-1 == 'it\\'s' ) || -5 < total && null" sampleTree ∧
      evaluate " ! ( user.tag-1 == 'it\\'s' ) || -5 < total && null" sampleContext =
        (.bool false, []) := by
  have hUser : IsName "user" := ⟨⟨'u', ['s', 'e', 'r'], rfl, rfl, List.all_eq_true.mp rfl⟩, by decide⟩
  have hTag : IsName "tag-1" := ⟨⟨'t', ['a', 'g', '-', '1'], rfl, rfl, List.all_eq_true.mp rfl⟩, by decide⟩
  have hTotal : IsName "total" := ⟨⟨'t', ['o', 't', 'a', 'l'], rfl, rfl, List.all_eq_true.mp rfl⟩, by decide⟩
  have hText : Quoted '\'' "it's".toList "it\\'s".toList :=
    .plain (by decide) (by decide) (.plain (by decide) (by decide)
      (.escaped '\'' (.plain (by decide) (by decide) .nil)))
  have hPath : Dotted ["tag-1"] ".tag-1".toList := @Dotted.cons [] [] [] _ _ nofun nofun hTag .nil
  have hFive : Item.Spelled (.operand (.literal (.int (-5)))) "-5".toList :=
    @Item.Spelled.negative ['5'] nofun (List.all_eq_true.mp rfl) (by decide)
  have hEnd : Laid [] [] := .nil nofun
  obtain ⟨hLine, hApart⟩ := hEnd.further .nullWord nofun
  obtain ⟨hLine, hApart⟩ := hLine.further .and hApart
  obtain ⟨hLine, hApart⟩ := hLine.further (.path hTotal .nil) hApart
  obtain ⟨hLine, hApart⟩ := hLine.further (.relation .lt) hApart
  obtain ⟨hLine, hApart⟩ := hLine.further hFive hApart
  obtain ⟨hLine, hApart⟩ := hLine.further .or hApart
  obtain ⟨hLine, hApart⟩ := hLine.further .closing hApart
  obtain ⟨hLine, hApart⟩ := hLine.further (.text (.inl rfl) hText) hApart
  obtain ⟨hLine, hApart⟩ := hLine.further (.relation .eq) hApart
  obtain ⟨hLine, hApart⟩ := hLine.further (.path hUser hPath) hApart
  obtain ⟨hLine, hApart⟩ := hLine.further .opening hApart
  obtain ⟨hLine, -⟩ := hLine.further .not hApart
  have hSentence : Sentence .or _ sampleTree :=
    .or (.ofAnd (.ofComparison (.ofUnary (.not (.ofPrimary (.parens (.ofAnd (.ofComparison
        (.relate .eq (.ofPrimary (.operand _)) (.ofPrimary (.operand _)))))))))))
      (.and (.ofComparison (.relate .lt (.ofPrimary (.operand _)) (.ofPrimary (.operand _))))
        (.ofUnary (.ofPrimary (.operand _))))
  have hWritten : Written " ! ( user.tag-1 == 'it\\'s' ) || -5 < total && null" sampleTree :=
    ⟨_, hSentence, hLine⟩
  refine ⟨hWritten, ?_⟩
  have hEqual : Denotes sampleContext (.relate .eq (.leaf (.path "user" ["tag-1"]))
      (.leaf (.literal (.text "it's")))) (.bool true) :=
    .relate (.leaf rfl) (.leaf rfl) rfl
  have hLess : Denotes sampleContext (.relate .lt (.leaf (.literal (.int (-5))))
      (.leaf (.path "total" []))) (.bool false) :=
    .relate (.leaf rfl) (.leaf rfl) rfl
  have hDenotes : Denotes sampleContext sampleTree (.bool false) :=
    .or (.not hEqual rfl) (.and hLess (.leaf rfl) rfl) rfl
  rcases evaluate_of_written hWritten sampleContext with ⟨v, hOnly, -, hValue⟩ | ⟨f, -, hNone, -⟩
  · rw [hValue, (hOnly _).mp hDenotes]
  · exact absurd hDenotes (hNone _)

end StepFlow.Expr
