import StepFlow.Proofs.Expr.Interpolation

/-! What becomes of a placeholder with nothing but blanks in it. Where no placeholder follows, it is
closed by its own braces and puts in nothing. Otherwise the search for its expression goes on past
these braces to those of the next placeholder, and the plain text between the two is drawn into its
expression. Nothing is lost only when there is no such text. -/
namespace StepFlow.Expr

open Text (trim_eq trimRight_append trimRight_blanks trim_of_ends dropWhile_blanks takeWhile_blanks)

variable {context : Context}

/-- Braces begin no token. -/
theorem Token.scan_brace {c : Char} (hBrace : c = '{' ∨ c = '}') (cs : List Char) :
    scan (c :: cs) = scan cs := by
  have hFirst : first c cs = (none, cs) := by
    rcases hBrace with rfl | rfl
    all_goals
      cases cs with
      | nil => rfl
      | cons d rest => rfl
  rw [scan_cons, hFirst]
  rfl

/-- An expression without tokens has no value and nothing to tell. -/
theorem evaluate_of_no_tokens {expression : String}
    (hNone : Token.scan (Text.trim expression.toList) = []) :
    evaluate expression context = (.null, []) := by
  have hTokens : evaluateTokens [] context = .ok .null := by cbv
  have hValue : evaluate? expression context = .ok .null := by
    unfold evaluate?
    rw [hNone, hTokens]
  unfold evaluate
  rw [hValue]

theorem evaluate_blanks {blanks : List Char} (hBlanks : ∀ c ∈ blanks, Text.isBlank c = true) :
    evaluate (String.ofList blanks) context = (.null, []) := by
  apply evaluate_of_no_tokens
  rw [String.toList_ofList, trim_eq, trimRight_blanks hBlanks]
  exact Token.scan.eq_def []

/-- A name that stands for a text alone comes to the text. -/
theorem evaluate_named {name s : String} (hName : IsName name) :
    evaluate name [(name, .text s)] = (.text s, []) := by
  have hField : Value.field [(name, .text s)] name = .text s := by
    simp [Value.field, Table.get?_cons]
  have hRead : (Operand.path name []).value [(name, .text s)] = .ok (.text s) :=
    congrArg Except.ok hField
  rw [evaluate, evaluate?_name hName hRead]

/-- What a pattern shows whose one expression is such a name. -/
theorem shown_named {p : Pattern} {name s : String} (hName : IsName name)
    (hSole : p.expressions = [name.toList]) : ∀ e ∈ p.expressions,
      (evaluate (String.ofList e) [(name, .text s)]).1.interpolated = .ok s := by
  intro e hMem
  rw [hSole] at hMem
  rw [List.mem_singleton.mp hMem, String.ofList_toList, evaluate_named hName]
  rfl

namespace Placeholder

open Pattern (Braceless)

/-- No closing braces are found in text that holds none. -/
theorem cutAt_unclosed {cs : List Char} (hOpen : ∀ c ∈ cs, c ≠ '}') :
    Text.cutAt ['}', '}'] cs = (cs, none) := by
  induction cs with
  | nil => rfl
  | cons c cs ih =>
      have hRest := ih fun d hMem => hOpen d (List.mem_cons_of_mem c hMem)
      simp [Text.cutAt, hRest, Ne.symm (hOpen c List.mem_cons_self)]

/-- A brace in front, with a character behind it that is none, makes no closing braces. -/
theorem cutAt_brace {cs before : List Char} {after : Option (List Char)} {c : Char}
    (hHead : c ≠ '}') (hCut : Text.cutAt ['}', '}'] (c :: cs) = (before, after)) :
    Text.cutAt ['}', '}'] ('}' :: c :: cs) = ('}' :: before, after) := by
  rw [Text.cutAt, hCut]
  simp [Ne.symm hHead]

variable {blanks : List Char} (hBlanks : ∀ c ∈ blanks, Text.isBlank c = true)
include hBlanks

/-- With nothing but plain text behind it, a blank placeholder is closed by its own braces. Its
expression is the last of its blanks. -/
theorem next?_blank {blank : Char} (hLast : blanks.getLast? = some blank) {rest : List Char}
    (hPlain : Braceless rest) :
    next? (blanks ++ '}' :: '}' :: rest) = some ([blank], rest) := by
  have hCut : Text.cutAt ['}', '}'] ('}' :: rest) = ('}' :: rest, none) := by
    cases rest with
    | nil => rfl
    | cons c cs =>
        have hClosing := fun d hMem => (hPlain d hMem).2
        exact cutAt_brace (hClosing c List.mem_cons_self) (cutAt_unclosed hClosing)
  unfold next?
  rw [dropWhile_blanks hBlanks (by decide), takeWhile_blanks hBlanks (by decide)]
  simp only [hCut, hLast]

/-- With another placeholder behind it, a blank one reaches to the braces that close the other. -/
theorem next?_drawn {between e : List Char} (hBetween : Braceless between) (hPlain : Braceless e)
    (rest : List Char) :
    next? (blanks ++ '}' :: '}' :: (between ++ '{' :: '{' :: (e ++ '}' :: '}' :: rest))) =
      some (Text.trim ('}' :: '}' :: (between ++ '{' :: '{' :: e)), rest) := by
  have hOpen : ∀ c ∈ between ++ '{' :: '{' :: e, c ≠ '}' := by
    intro c hMem
    simp only [List.mem_append, List.mem_cons] at hMem
    rcases hMem with hMem | rfl | rfl | hMem
    · exact (hBetween c hMem).2
    · decide
    · decide
    · exact (hPlain c hMem).2
  have hCut : Text.cutAt ['}', '}'] ('}' :: (between ++ '{' :: '{' :: (e ++ '}' :: '}' :: rest))) =
      ('}' :: (between ++ '{' :: '{' :: e), some rest) := by
    have hFound := cutAt_closing hOpen rest
    have hSplit : between ++ '{' :: '{' :: (e ++ '}' :: '}' :: rest) =
        (between ++ '{' :: '{' :: e) ++ '}' :: '}' :: rest := by simp
    rw [hSplit]
    cases hCases : between ++ '{' :: '{' :: e with
    | nil => simp at hCases
    | cons c cs =>
        rw [hCases] at hFound hOpen
        exact cutAt_brace (hOpen c List.mem_cons_self) hFound
  unfold next?
  rw [dropWhile_blanks hBlanks (by decide)]
  simp only [hCut]
  rfl

end Placeholder

namespace Template

open Pattern (Braceless braced)

/-- A template that begins with plain text is no placeholder as a whole. -/
theorem whole?_of_plain {c : Char} (hPlain : c ≠ '{') (cs : List Char) :
    Placeholder.whole? (c :: cs) = none := by
  cases hInside : Placeholder.inside? (c :: cs) with
  | none => simp [Placeholder.whole?, hInside]
  | some inner =>
      have hText := Placeholder.inside?_eq_some_iff.mp hInside
      exact absurd (List.cons.inj hText).1 hPlain

/-- Plain text, blanks between double braces, and a pattern behind them. -/
structure Blanked where
  before : List Char
  blanks : List Char
  behind : Pattern

namespace Blanked

/-- The template that such a text is. -/
def text (t : Blanked) : List Char := t.before ++ (braced t.blanks ++ t.behind.text)

/-- The text with nothing in place of the blanks, and a text in place of each expression. -/
def filled (t : Blanked) (f : List Char → List Char) : List Char := t.before ++ t.behind.filled f

/-- The text that stands in braces of its own once the blank placeholder is not closed: up to the
expression of the next one. -/
def drawn (t : Blanked) (expression : List Char) : List Char :=
  '}' :: '}' :: (t.behind.first ++ '{' :: '{' :: expression)

/-- There are blanks, neither end of the text is blank, and all braces are those of placeholders. -/
structure Plain (t : Blanked) : Prop where
  before : Braceless t.before
  starts : ∃ c rest, t.before = c :: rest ∧ Text.isBlank c = false
  some : t.blanks ≠ []
  blank : ∀ c ∈ t.blanks, Text.isBlank c = true
  behind : t.behind.Plain
  ends : ∃ front c, t.behind.text = front ++ [c] ∧ Text.isBlank c = false

variable {t : Blanked}

/-- Nothing is trimmed off such a text, and it is filled segment by segment. -/
theorem resolve_eq (hPlain : t.Plain) :
    resolve (String.ofList t.text) context =
      (fill context (segments (braced t.blanks ++ t.behind.text))).map fun filled =>
        (.text (String.ofList (t.before ++ filled.1)), filled.2) := by
  obtain ⟨c, rest, hBefore, hFirst⟩ := hPlain.starts
  obtain ⟨front, d, hBehind, hLast⟩ := hPlain.ends
  have hBrace : c ≠ '{' := (hPlain.before c (hBefore ▸ List.mem_cons_self)).1
  have hText : t.text = c :: (rest ++ (braced t.blanks ++ t.behind.text)) := by
    rw [text, hBefore, List.cons_append]
  have hTrim : Text.trim t.text = t.text := by
    have hEnds : t.text = c :: ((rest ++ (braced t.blanks ++ front)) ++ [d]) := by
      rw [hText, hBehind]
      simp
    exact trim_of_ends hFirst hLast hEnds (hEnds.trans (List.cons_append ..).symm)
  have hWhole : Placeholder.whole? t.text = none := hText ▸ whole?_of_plain hBrace _
  unfold resolve
  rw [String.toList_ofList, hTrim]
  simp only [hWhole]
  rw [text, segments_plain hPlain.before, fill_plain]
  cases fill context (segments (braced t.blanks ++ t.behind.text)) with
  | error f => rfl
  | ok filled => rfl

/-- With no placeholder behind it, a blank one puts in nothing. -/
theorem resolve_alone (hPlain : t.Plain) (hNone : t.behind.parts = []) :
    resolve (String.ofList t.text) context =
      .ok (.text (String.ofList (t.before ++ t.behind.first)), []) := by
  obtain ⟨blank, hLast⟩ := Option.isSome_iff_exists.mp (List.getLast?_isSome.mpr hPlain.some)
  have hBlank : ∀ c ∈ [blank], Text.isBlank c = true := by
    intro c hMem
    rw [List.mem_singleton.mp hMem]
    exact hPlain.blank blank (List.mem_of_getLast? hLast)
  have hText : braced t.blanks ++ t.behind.text =
      '{' :: '{' :: (t.blanks ++ '}' :: '}' :: t.behind.first) := by
    simp [braced, Pattern.text, Pattern.filled, hNone]
  have hFill : fill context (segments t.behind.first) = .ok (t.behind.first, []) := by
    have hNil : segments [] = [] := by rw [segments.eq_def]
    have hRead := segments_plain hPlain.behind.first []
    rw [List.append_nil, hNil] at hRead
    rw [hRead, fill_plain]
    simp [fill, Except.map]
  rw [resolve_eq hPlain, hText,
    segments_of_next? (Placeholder.next?_blank hPlain.blank hLast hPlain.behind.first), fill,
    segmentText, evaluate_blanks hBlank, hFill]
  rfl

/-- With a placeholder behind it, a blank one draws the text up to that one into its expression. -/
theorem resolve_drawn (hPlain : t.Plain) {e after : List Char}
    {rest : List (List Char × List Char)} (hParts : t.behind.parts = (e, after) :: rest)
    {shown : List Char → String} (hShown : ∀ e ∈ t.behind.expressions,
      (evaluate (String.ofList e) context).1.interpolated = .ok (shown e)) :
    resolve (String.ofList t.text) context =
      (evaluate (String.ofList (t.drawn e)) context).1.interpolated.map fun text =>
        (.text (String.ofList (t.before ++ (text.toList ++
          (Pattern.mk after rest).filled fun e => (shown e).toList))),
          (t.drawn e :: rest.map Prod.fst).flatMap fun e =>
            (evaluate (String.ofList (Text.trim e)) context).2) := by
  have hPart : (e, after) ∈ t.behind.parts := hParts ▸ List.mem_cons_self
  have hText : braced t.blanks ++ t.behind.text =
      '{' :: '{' :: (t.blanks ++ '}' :: '}' :: (t.behind.first ++ '{' :: '{' :: (e ++ '}' :: '}' ::
        (Pattern.mk after rest).text))) := by
    simp [braced, Pattern.text, Pattern.filled, hParts]
  have hNext := Placeholder.next?_drawn hPlain.blank hPlain.behind.first
    (hPlain.behind.inside _ hPart) (Pattern.mk after rest).text
  have hLater : ∀ part ∈ rest, part ∈ t.behind.parts :=
    fun part hMem => hParts ▸ List.mem_cons_of_mem _ hMem
  have hRest : (Pattern.mk after rest).Plain :=
    ⟨hPlain.behind.after _ hPart, fun part hMem => hPlain.behind.inside part (hLater part hMem),
      fun part hMem => hPlain.behind.after part (hLater part hMem),
      fun part hMem => hPlain.behind.present part (hLater part hMem)⟩
  have hFill := fill_parts fun e hMem => hShown e (List.map_subset Prod.fst hLater hMem)
  rw [resolve_eq hPlain, hText, segments_of_next? hNext, fill_placeholder, segments_text hRest,
    fill_plain, hFill]
  change _ = Except.map _ (evaluate (String.ofList (t.drawn e)) context).1.interpolated
  unfold drawn
  cases (evaluate (String.ofList _) context).1.interpolated with
  | error f => rfl
  | ok text => rfl

/-- What comes out is the text as it is meant to be just when the drawn text happens to be put in as
it stands. -/
theorem resolve_eq_filled_iff (hPlain : t.Plain) {e after : List Char}
    {rest : List (List Char × List Char)} (hParts : t.behind.parts = (e, after) :: rest)
    {shown : List Char → String} (hShown : ∀ e ∈ t.behind.expressions,
      (evaluate (String.ofList e) context).1.interpolated = .ok (shown e)) :
    (∃ told, resolve (String.ofList t.text) context =
      .ok (.text (String.ofList (t.filled fun e => (shown e).toList)), told)) ↔
    (evaluate (String.ofList (t.drawn e)) context).1.interpolated =
      .ok (String.ofList (t.behind.first ++ (shown e).toList)) := by
  have hFilled : (t.filled fun e => (shown e).toList) = t.before ++ ((t.behind.first ++
      (shown e).toList) ++ (Pattern.mk after rest).filled fun e => (shown e).toList) := by
    simp [filled, Pattern.filled, hParts]
  rw [resolve_drawn hPlain hParts hShown, hFilled]
  cases (evaluate (String.ofList (t.drawn e)) context).1.interpolated with
  | error f =>
      constructor
      · rintro ⟨told, hSame⟩
        cases hSame
      · intro hText
        cases hText
  | ok text =>
      constructor
      · rintro ⟨told, hSame⟩
        have hTexts := congrArg String.toList (Value.text.inj (congrArg Prod.fst (Except.ok.inj hSame)))
        rw [String.toList_ofList, String.toList_ofList] at hTexts
        rw [← List.append_cancel_right (List.append_cancel_left hTexts), String.ofList_toList]
      · intro hText
        rw [Except.ok.inj hText]
        simp only [Except.map, String.toList_ofList, Except.ok.injEq, Prod.mk.injEq, true_and,
          exists_eq']

/-- Where no text is drawn, the braces that are drawn do not count. -/
theorem evaluate_drawn_value (hFirst : t.behind.first = []) (e : List Char) :
    (evaluate (String.ofList (t.drawn e)) context).1 = (evaluate (String.ofList e) context).1 := by
  have hDrawn : t.drawn e = ['}', '}', '{'] ++ '{' :: e := by simp [drawn, hFirst]
  have hStop : Text.trimRight (['}', '}', '{'] ++ '{' :: e) =
      ['}', '}', '{'] ++ '{' :: Text.trimRight e := trimRight_append (by decide)
  have hTrim : Text.trim (t.drawn e) = '}' :: '}' :: '{' :: '{' :: Text.trimRight e := by
    rw [hDrawn]
    exact hStop
  have hScan : Token.scan (Text.trim (t.drawn e)) = Token.scan (Text.trim e) := by
    rw [hTrim, trim_eq e, scan_trimLeft, Token.scan_brace (.inr rfl), Token.scan_brace (.inr rfl),
      Token.scan_brace (.inl rfl), Token.scan_brace (.inl rfl)]
  have hSame : evaluate? (String.ofList (t.drawn e)) context =
      evaluate? (String.ofList e) context := by
    unfold evaluate?
    rw [String.toList_ofList, String.toList_ofList, hScan]
  unfold evaluate
  rw [hSame]
  cases evaluate? (String.ofList e) context with
  | error f => rfl
  | ok v => rfl

end Blanked

/-- The law of blank placeholders between plain text and a pattern. With no placeholder behind it, or
with no text up to that one, a blank placeholder puts in nothing, and the pattern is filled as it
would be alone. Otherwise the text up to the next placeholder is no part of what comes out. It is
drawn into the expression of that placeholder, all braces between them with it, and so what comes
out is right only where this expression happens to have the text and then the value for its own. -/
theorem resolve_blanked {t : Blanked} (hPlain : t.Plain) (context : Context)
    {shown : List Char → String} (hShown : ∀ e ∈ t.behind.expressions,
      (evaluate (String.ofList e) context).1.interpolated = .ok (shown e)) :
    let value (e : List Char) : Value := (evaluate (String.ofList e) context).1
    let right : Value := .text (String.ofList (t.filled fun e => (shown e).toList))
    (t.behind.parts = [] ∨ t.behind.first = [] →
      ∃ told, resolve (String.ofList t.text) context = .ok (right, told)) ∧
    ∀ e after rest, t.behind.parts = (e, after) :: rest →
      resolve (String.ofList t.text) context = (value (t.drawn e)).interpolated.map (fun text =>
        (.text (String.ofList (t.before ++ (text.toList ++
          (Pattern.mk after rest).filled fun e => (shown e).toList))),
          (t.drawn e :: rest.map Prod.fst).flatMap fun e =>
            (evaluate (String.ofList (Text.trim e)) context).2)) ∧
      ((∃ told, resolve (String.ofList t.text) context = .ok (right, told)) ↔
        (value (t.drawn e)).interpolated =
          .ok (String.ofList (t.behind.first ++ (shown e).toList))) := by
  intro value right
  have hIff : ∀ e after rest, t.behind.parts = (e, after) :: rest →
      ((∃ told, resolve (String.ofList t.text) context = .ok (right, told)) ↔
        (value (t.drawn e)).interpolated =
          .ok (String.ofList (t.behind.first ++ (shown e).toList))) :=
    fun e after rest hParts => Blanked.resolve_eq_filled_iff hPlain hParts hShown
  refine ⟨?_, fun e after rest hParts =>
    ⟨Blanked.resolve_drawn hPlain hParts hShown, hIff e after rest hParts⟩⟩
  intro hSpared
  cases hParts : t.behind.parts with
  | nil =>
      have hFilled : (t.filled fun e => (shown e).toList) = t.before ++ t.behind.first := by
        simp [Blanked.filled, Pattern.filled, hParts]
      refine ⟨[], ?_⟩
      rw [Blanked.resolve_alone hPlain hParts, ← hFilled]
  | cons part rest =>
      obtain ⟨e, after⟩ := part
      have hFirst : t.behind.first = [] := hSpared.resolve_left (by simp [hParts])
      have hMem : e ∈ t.behind.expressions := by simp [Pattern.expressions, hParts]
      rw [hIff e after rest hParts, hFirst]
      change (evaluate (String.ofList (t.drawn e)) context).1.interpolated = _
      rw [Blanked.evaluate_drawn_value hFirst, hShown e hMem, List.nil_append, String.ofList_toList]

/-- A blank placeholder right before another one puts in nothing. -/
theorem resolve_blanked_adjacent :
    let t : Blanked := ⟨['a'], [' ', ' '], ⟨[], [(['x'], ['!'])]⟩⟩
    t.Plain ∧ ∃ told, resolve (String.ofList t.text) [("x", .text "1")] = .ok (.text "a1!", told) := by
  intro t
  have hPlain : t.Plain := by
    refine ⟨?_, ⟨'a', [], rfl, by decide⟩, by simp [t], ?_, ⟨?_, ?_, ?_, ?_⟩,
      ⟨['{', '{', 'x', '}', '}'], '!', rfl, by decide⟩⟩
    all_goals simp [t, Braceless]
    all_goals decide
  have hName : IsName "x" := ⟨⟨'x', [], rfl, rfl, List.forall_mem_nil _⟩, by decide⟩
  exact ⟨hPlain, (resolve_blanked hPlain [("x", .text "1")] (shown_named hName rfl)).1 (.inr rfl)⟩

/-- A letter between a blank placeholder and another one is lost, and so is the value of the other:
the letter is evaluated, as the name of something that is not there. -/
theorem blank_placeholder_draws_letter :
    resolve "a\x7b\x7b \x7d\x7db\x7b\x7bx\x7d\x7dc" [("x", .text "1")] = .ok (.text "ac", []) := by
  let t : Blanked := ⟨['a'], [' '], ⟨['b'], [(['x'], ['c'])]⟩⟩
  have hPlain : t.Plain := by
    refine ⟨?_, ⟨'a', [], rfl, by decide⟩, by simp [t], ?_, ⟨?_, ?_, ?_, ?_⟩,
      ⟨['b', '{', '{', 'x', '}', '}'], 'c', rfl, by decide⟩⟩
    all_goals simp [t, Braceless]
    all_goals decide
  have hOne : IsName "x" := ⟨⟨'x', [], rfl, rfl, List.forall_mem_nil _⟩, by decide⟩
  have hOther : IsName "b" := ⟨⟨'b', [], rfl, rfl, List.forall_mem_nil _⟩, by decide⟩
  have hScan : Token.scan (Text.trim (t.drawn ['x'])) = [.ident "b", .ident "x"] := by
    have hTrim : Text.trim (t.drawn ['x']) =
        '}' :: '}' :: ("b".toList ++ ('{' :: '{' :: ("x".toList ++ []))) := rfl
    have hApart : ∀ d, ('{' :: '{' :: ("x".toList ++ [])).head? = some d →
        Token.isIdentChar d = false := by
      rintro d ⟨⟩
      rfl
    rw [hTrim, Token.scan_brace (.inr rfl), Token.scan_brace (.inr rfl),
      Token.scan_name hOther hApart, Token.scan_brace (.inl rfl), Token.scan_brace (.inl rfl),
      Token.scan_name hOne (by simp), Token.scan.eq_def]
  have hShows : Shows [.ident "b", .ident "x"]
      [.operand (.path "b" []), .operand (.path "x" [])] :=
    .cons (.path "b" []) (.cons (.path "x" []) .nil)
  have hRead : Item.resolve [("x", .text "1")] [.operand (.path "b" []), .operand (.path "x" [])] =
      .ok [.operand .null, .operand (.text "1")] := rfl
  -- With no operator behind it, the first operand is the whole expression.
  have hFirst : (ofItems .null [.operand .null, .operand (.text "1")]).eval = .ok .null := by cbv
  have hTokens : evaluateTokens [.ident "b", .ident "x"] [("x", .text "1")] = .ok .null := by
    rw [evaluateTokens, hShows.ofTokens_eq, hRead]
    exact hFirst
  have hDrawn : evaluate (String.ofList (t.drawn ['x'])) [("x", .text "1")] = (.null, []) := by
    rw [evaluate, evaluate?, String.toList_ofList, hScan, hTokens]
  have hTrimmed : evaluate (String.ofList (Text.trim (t.drawn ['x']))) [("x", .text "1")] =
      (.null, []) := hDrawn
  have hParts : t.behind.parts = [(['x'], ['c'])] := rfl
  have hLaw := Blanked.resolve_drawn hPlain hParts (shown_named (s := "1") hOne rfl)
  rw [hDrawn] at hLaw
  refine hLaw.trans ?_
  simp only [List.map_nil, List.flatMap_singleton, hTrimmed]
  rfl

end Template

end StepFlow.Expr
