import StepFlow.Expr.Template
import StepFlow.Proofs.Expr.Truth
import StepFlow.Proofs.Value.Interpolated

/-! What a template comes to, by the pattern it is written in. Where neither the plain text nor the
expressions hold a brace, the placeholders are where they are meant to be, and a template comes to
its pattern with the texts of its values in place of the placeholders. What is put in is not looked
at again. Only a template that is one placeholder, but for blanks around it, keeps the kind of its
value. -/
namespace StepFlow.Expr

open Text (trimLeft_append trimRight_append trimLeft_of_present trim_trim)

/-- A text with gaps: plain text, and then expressions, each with the plain text behind it. -/
structure Pattern where
  first : List Char
  parts : List (List Char × List Char)

namespace Pattern

/-- A pattern with a text in place of each expression. -/
def filled (p : Pattern) (f : List Char → List Char) : List Char :=
  p.first ++ p.parts.flatMap fun part => f part.1 ++ part.2

/-- An expression between double braces. -/
def braced (expression : List Char) : List Char := '{' :: '{' :: (expression ++ ['}', '}'])

/-- The expressions of a pattern from left to right. -/
def expressions (p : Pattern) : List (List Char) := p.parts.map Prod.fst

/-- The template that a pattern is of. -/
def text (p : Pattern) : List Char := p.filled braced

/-- Parts without the blanks at the end of the last. -/
def trimLast : List (List Char × List Char) → List (List Char × List Char)
  | [] => []
  | [(expression, after)] => [(expression, Text.trimRight after)]
  | part :: next :: rest => part :: trimLast (next :: rest)

/-- A pattern without the blanks around it. -/
def trimmed (p : Pattern) : Pattern :=
  match p.parts with
  | [] => ⟨Text.trim p.first, []⟩
  | part :: rest => ⟨Text.trimLeft p.first, trimLast (part :: rest)⟩

/-- The pattern of nothing but one expression. -/
def sole (expression : List Char) : Pattern := ⟨[], [(expression, [])]⟩

/-- Plain text, in which nothing could be taken for an edge of a placeholder. -/
def Braceless (cs : List Char) : Prop := ∀ c ∈ cs, c ≠ '{' ∧ c ≠ '}'

/-- There is no brace within a pattern, and no expression is blank. -/
structure Plain (p : Pattern) : Prop where
  first : Braceless p.first
  inside : ∀ part ∈ p.parts, Braceless part.1
  after : ∀ part ∈ p.parts, Braceless part.2
  present : ∀ part ∈ p.parts, ∃ c ∈ part.1, Text.isBlank c = false

end Pattern

/-- Blanks around an expression do not count. -/
theorem evaluate?_trim (expression : List Char) (context : Context) :
    evaluate? (String.ofList (Text.trim expression)) context =
      evaluate? (String.ofList expression) context := by
  unfold evaluate?
  rw [String.toList_ofList, String.toList_ofList, trim_trim]

theorem evaluate_trim_value (expression : List Char) (context : Context) :
    (evaluate (String.ofList (Text.trim expression)) context).1 =
      (evaluate (String.ofList expression) context).1 := by
  unfold evaluate
  rw [evaluate?_trim]
  cases evaluate? (String.ofList expression) context <;> rfl

namespace Placeholder

open Pattern (Braceless)

theorem hasDouble_cons {c : Char} {cs : List Char} (h : hasDouble cs = true) :
    hasDouble (c :: cs) = true := by
  cases cs with
  | nil => cases h
  | cons d cs => simp [hasDouble, h]

/-- Two closing braces are found behind whatever there is. -/
theorem hasDouble_append (before after : List Char) :
    hasDouble (before ++ '}' :: '}' :: after) = true := by
  induction before with
  | nil => simp [hasDouble]
  | cons c before ih => exact hasDouble_cons ih

/-- A single character behind plain text makes no double brace. -/
theorem hasDouble_of_braceless {cs next : List Char} (hPlain : Braceless cs)
    (hNext : next.length ≤ 1) : hasDouble (cs ++ next) = false := by
  induction cs with
  | nil =>
      match next, hNext with
      | [], _ => rfl
      | [_], _ => rfl
  | cons c cs ih =>
      have hRest : hasDouble (cs ++ next) = false :=
        ih fun d hMem => hPlain d (List.mem_cons_of_mem c hMem)
      obtain ⟨hOpening, hClosing⟩ := hPlain c List.mem_cons_self
      cases hCases : cs ++ next with
      | nil => simp [hCases, hasDouble]
      | cons d ds =>
          rw [hCases] at hRest
          simp [hCases, hasDouble, hRest, hOpening, hClosing]

/-- What stands between double braces. -/
theorem inside?_eq_some_iff {cs inner : List Char} :
    inside? cs = some inner ↔ cs = Pattern.braced inner := by
  unfold inside? Pattern.braced
  constructor
  · intro h
    split at h
    · rename_i rest
      split at h
      · rename_i reversed hReversed
        have hRest : rest = reversed.reverse ++ ['}', '}'] := by
          rw [← List.reverse_reverse rest, hReversed]
          simp
        rw [hRest, Option.some.inj h]
      · cases h
    · cases h
  · rintro rfl
    simp

/-- A sole placeholder is read whole. -/
theorem whole?_braced {e : List Char} (hPlain : Braceless e)
    (hPresent : ∃ c ∈ e, Text.isBlank c = false) :
    whole? (Pattern.braced e) = some (Text.trim e) := by
  obtain ⟨c, rest, hBody, -⟩ := trimLeft_of_present hPresent
  have hSub : ∀ d ∈ Text.trim e, d ∈ e := by
    intro d hMem
    have hLeft : d ∈ Text.trimLeft e := by
      have hReversed := (List.dropWhile_sublist Text.isBlank).subset (List.mem_reverse.mp hMem)
      exact List.mem_reverse.mp hReversed
    exact (List.dropWhile_sublist Text.isBlank).subset hLeft
  have hSingle : ∀ next : List Char, next.length ≤ 1 → hasDouble (Text.trim e ++ next) = false :=
    fun next hNext => hasDouble_of_braceless (fun d hMem => hPlain d (hSub d hMem)) hNext
  have hTrim : Text.trimRight (Text.trimLeft e) = Text.trim e := rfl
  have hSome : (Text.trimLeft e).isEmpty = false := by simp [hBody]
  unfold whole?
  rw [inside?_eq_some_iff.mpr rfl]
  simp only [hSome, Bool.false_eq_true, if_false, hTrim]
  rw [hSingle _ (List.length_take_le _ _)]
  simp

/-- What holds double closing braces and later double opening braces is no placeholder. -/
theorem whole?_of_two (before between after : List Char) :
    whole? (Pattern.braced (before ++ '}' :: '}' :: (between ++ '{' :: '{' :: after))) = none := by
  have hBody : Text.trimLeft (before ++ '}' :: '}' :: (between ++ '{' :: '{' :: after)) =
      Text.trimLeft before ++ '}' :: '}' :: (between ++ '{' :: '{' :: after) :=
    trimLeft_append (by decide)
  have hExpression :
      Text.trimRight (Text.trimLeft before ++ '}' :: '}' :: (between ++ '{' :: '{' :: after)) =
        Text.trimLeft before ++ '}' :: '}' :: (between ++ '{' :: '{' :: Text.trimRight after) := by
    have hSplit : ∀ rest, Text.trimLeft before ++ '}' :: '}' :: (between ++ '{' :: '{' :: rest) =
        (Text.trimLeft before ++ '}' :: '}' :: (between ++ ['{'])) ++ '{' :: rest := by simp
    rw [hSplit, hSplit, trimRight_append (by decide)]
  unfold whole?
  rw [inside?_eq_some_iff.mpr rfl]
  simp only [hBody, hExpression]
  rw [if_neg (by simp), List.append_assoc]
  simp only [List.cons_append, hasDouble_append, if_true]

/-- Closing braces are found behind text that holds none. -/
theorem cutAt_closing {cs : List Char} (hOpen : ∀ c ∈ cs, c ≠ '}') (rest : List Char) :
    Text.cutAt ['}', '}'] (cs ++ '}' :: '}' :: rest) = (cs, some rest) := by
  induction cs with
  | nil => simp [Text.cutAt]
  | cons c cs ih =>
      have hRest := ih fun d hMem => hOpen d (List.mem_cons_of_mem c hMem)
      simp [Text.cutAt, hRest, Ne.symm (hOpen c List.mem_cons_self)]

/-- Up to its closing braces a placeholder is read as its expression. -/
theorem next?_append {e : List Char} (hPlain : Braceless e)
    (hPresent : ∃ c ∈ e, Text.isBlank c = false) (rest : List Char) :
    next? (e ++ '}' :: '}' :: rest) = some (Text.trim e, rest) := by
  obtain ⟨c, body, hBody, -⟩ := trimLeft_of_present hPresent
  have hDrop : (e ++ '}' :: '}' :: rest).dropWhile Text.isBlank = c :: (body ++ '}' :: '}' :: rest) := by
    have hAppend : Text.trimLeft (e ++ '}' :: '}' :: rest) = Text.trimLeft e ++ '}' :: '}' :: rest :=
      trimLeft_append (by decide)
    rw [hBody] at hAppend
    exact hAppend
  have hOpen : ∀ d ∈ body, d ≠ '}' := by
    intro d hMem
    have hLeft : d ∈ Text.trimLeft e := by
      rw [hBody]
      exact List.mem_cons_of_mem c hMem
    exact (hPlain d ((List.dropWhile_sublist Text.isBlank).subset hLeft)).2
  unfold next?
  rw [hDrop]
  simp only [cutAt_closing hOpen]
  have hTrim : Text.trim e = Text.trimRight (Text.trimLeft e) := rfl
  rw [hTrim, hBody]

end Placeholder

namespace Pattern

variable {p : Pattern}

/-- Trimming a template on the right trims its last plain text. -/
theorem trimRight_parts {parts : List (List Char × List Char)} (hSome : parts ≠ [])
    (before : List Char) :
    Text.trimRight (before ++ parts.flatMap fun part => braced part.1 ++ part.2) =
      before ++ (trimLast parts).flatMap fun part => braced part.1 ++ part.2 := by
  induction parts generalizing before with
  | nil => exact absurd rfl hSome
  | cons part parts ih =>
      cases parts with
      | nil =>
          have hSplit : ∀ after, before ++ (braced part.1 ++ after) =
              (before ++ '{' :: '{' :: (part.1 ++ ['}'])) ++ '}' :: after := by simp [braced]
          simp only [List.flatMap_singleton, trimLast, hSplit]
          exact trimRight_append (by decide)
      | cons next rest =>
          rw [List.flatMap_cons, ← List.append_assoc, ih nofun, trimLast, List.flatMap_cons,
            List.append_assoc]

/-- A trimmed template is of the trimmed pattern. -/
theorem trim_text (p : Pattern) : Text.trim p.text = p.trimmed.text := by
  obtain ⟨first, parts⟩ := p
  cases parts with
  | nil => simp [text, filled, trimmed]
  | cons part rest =>
      have hLeft : Text.trimLeft (text ⟨first, part :: rest⟩) =
          text ⟨Text.trimLeft first, part :: rest⟩ := trimLeft_append (by decide)
      unfold Text.trim
      rw [hLeft]
      exact trimRight_parts (List.cons_ne_nil part rest) (Text.trimLeft first)

theorem Braceless.sublist {cs more : List Char} (h : Braceless more) (hSub : cs.Sublist more) :
    Braceless cs := fun c hMem => h c (hSub.subset hMem)

theorem trimLeft_sublist (cs : List Char) : (Text.trimLeft cs).Sublist cs :=
  List.dropWhile_sublist _

theorem trimRight_sublist (cs : List Char) : (Text.trimRight cs).Sublist cs := by
  have hReversed := (List.dropWhile_sublist Text.isBlank (l := cs.reverse)).reverse
  rwa [List.reverse_reverse] at hReversed

/-- Trimming changes no expression, and of the plain texts it only drops blanks. -/
theorem mem_trimLast {parts : List (List Char × List Char)} {part : List Char × List Char}
    (h : part ∈ trimLast parts) : ∃ whole ∈ parts, part.1 = whole.1 ∧ part.2.Sublist whole.2 := by
  fun_induction trimLast parts with
  | case1 => cases h
  | case2 e after =>
      rw [List.mem_singleton.mp h]
      exact ⟨(e, after), List.mem_cons_self, rfl, trimRight_sublist after⟩
  | case3 first next rest ih =>
      rcases List.mem_cons.mp h with rfl | hLater
      · exact ⟨part, List.mem_cons_self, rfl, List.Sublist.refl _⟩
      · obtain ⟨whole, hMem, hSame⟩ := ih hLater
        exact ⟨whole, List.mem_cons_of_mem first hMem, hSame⟩

theorem trimLast_expressions (parts : List (List Char × List Char)) :
    (trimLast parts).map Prod.fst = parts.map Prod.fst := by
  fun_induction trimLast parts with
  | case1 => rfl
  | case2 => rfl
  | case3 first next rest ih =>
      rw [List.map_cons, ih]
      rfl

theorem trimmed_expressions (p : Pattern) : p.trimmed.expressions = p.expressions := by
  obtain ⟨first, parts⟩ := p
  cases parts with
  | nil => rfl
  | cons part rest => exact trimLast_expressions (part :: rest)

theorem Plain.trimmed (h : p.Plain) : p.trimmed.Plain := by
  obtain ⟨first, parts⟩ := p
  cases parts with
  | nil =>
      have hTrim : (Text.trim first).Sublist first :=
        (trimRight_sublist _).trans (trimLeft_sublist first)
      exact ⟨h.first.sublist hTrim, nofun, nofun, nofun⟩
  | cons part rest =>
      refine ⟨h.first.sublist (trimLeft_sublist first), ?_, ?_, ?_⟩
      · intro part hPart
        obtain ⟨whole, hMem, hSame, -⟩ := mem_trimLast hPart
        rw [hSame]
        exact h.inside whole hMem
      · intro part hPart
        obtain ⟨whole, hMem, -, hSub⟩ := mem_trimLast hPart
        exact (h.after whole hMem).sublist hSub
      · intro part hPart
        obtain ⟨whole, hMem, hSame, -⟩ := mem_trimLast hPart
        rw [hSame]
        exact h.present whole hMem

/-- Only the template of one sole expression is a placeholder as a whole. -/
theorem whole?_text_of_not_sole (hPlain : p.Plain) (hNot : ∀ e, p ≠ sole e) :
    Placeholder.whole? p.text = none := by
  obtain ⟨first, parts⟩ := p
  cases hInside : Placeholder.inside? (text ⟨first, parts⟩) with
  | none => simp [Placeholder.whole?, hInside]
  | some inner =>
      have hText : text ⟨first, parts⟩ = braced inner := Placeholder.inside?_eq_some_iff.mp hInside
      -- plain text neither begins nor ends what stands between braces
      cases first with
      | cons c first =>
          have hHead : c = '{' := (List.cons.inj hText).1
          exact absurd hHead (hPlain.first c List.mem_cons_self).1
      | nil =>
          rcases List.eq_nil_or_concat' parts with rfl | ⟨earlier, ⟨e, after⟩, rfl⟩
          · cases hText
          · rcases List.eq_nil_or_concat' after with rfl | ⟨front, c, rfl⟩
            · cases earlier with
              | nil => exact absurd rfl (hNot e)
              | cons opening between =>
                  have hTwo : text ⟨[], opening :: between ++ [(e, [])]⟩ =
                      braced (opening.1 ++ '}' :: '}' :: ((opening.2 ++
                        between.flatMap fun part => braced part.1 ++ part.2) ++ '{' :: '{' :: e)) := by
                    simp [text, filled, braced]
                  rw [hTwo]
                  exact Placeholder.whole?_of_two _ _ _
            · have hEnds : (earlier.flatMap (fun part => braced part.1 ++ part.2) ++ braced e ++ front) ++
                  [c] = ('{' :: '{' :: (inner ++ ['}'])) ++ ['}'] := by
                simpa [text, filled, braced] using hText
              have hLast : c = '}' := (List.cons.inj (List.append_inj' hEnds rfl).2).1
              have hMem : (e, front ++ [c]) ∈ earlier ++ [(e, front ++ [c])] := by simp
              exact absurd hLast (hPlain.after _ hMem c (by simp)).2

end Pattern

namespace Template

variable {context : Context} {shown : List Char → String}

open Pattern (Braceless braced)

theorem segments_cons {c : Char} (hPlain : c ≠ '{') (rest : List Char) :
    segments (c :: rest) = .plain c :: segments rest := by
  rw [segments.eq_def]
  split
  · rename_i hNil
    cases hNil
  · rename_i hBraces
    exact absurd (List.cons.inj hBraces).1 hPlain
  · rename_i hCons
    obtain ⟨rfl, rfl⟩ := List.cons.inj hCons
    rfl

/-- Plain text is its own characters. -/
theorem segments_plain {cs : List Char} (hPlain : Braceless cs) (rest : List Char) :
    segments (cs ++ rest) = cs.map .plain ++ segments rest := by
  induction cs with
  | nil => rfl
  | cons c cs ih =>
      have hRest := ih fun d hMem => hPlain d (List.mem_cons_of_mem c hMem)
      rw [List.cons_append, segments_cons (hPlain c List.mem_cons_self).1, hRest]
      rfl

/-- Placeholders are read one by one. -/
theorem segments_of_next? {cs expression after : List Char}
    (hNext : Placeholder.next? cs = some (expression, after)) :
    segments ('{' :: '{' :: cs) = .placeholder expression :: segments after := by
  rw [segments.eq_def]
  simp only
  split
  · rename_i hFound
    rw [hNext] at hFound
    cases hFound
    rfl
  · rename_i hNone
    rw [hNext] at hNone
    cases hNone

/-- A placeholder is one segment. -/
theorem segments_braced {e : List Char} (hPlain : Braceless e)
    (hPresent : ∃ c ∈ e, Text.isBlank c = false) (rest : List Char) :
    segments (braced e ++ rest) = .placeholder (Text.trim e) :: segments rest := by
  have hNext := Placeholder.next?_append hPlain hPresent rest
  have hText : braced e ++ rest = '{' :: '{' :: (e ++ '}' :: '}' :: rest) := by simp [braced]
  rw [hText, segments_of_next? hNext]

/-- The segments of a part of a pattern. -/
def partSegments (part : List Char × List Char) : List Segment :=
  .placeholder (Text.trim part.1) :: part.2.map .plain

/-- A template is read as the pattern that it is of. -/
theorem segments_text {p : Pattern} (hPlain : p.Plain) :
    segments p.text = p.first.map .plain ++ p.parts.flatMap partSegments := by
  obtain ⟨first, parts⟩ := p
  have hParts : segments (parts.flatMap fun part => braced part.1 ++ part.2) =
      parts.flatMap partSegments := by
    have hInside := hPlain.inside
    have hAfter := hPlain.after
    have hPresent := hPlain.present
    simp only at hInside hAfter hPresent
    clear hPlain
    induction parts with
    | nil => rw [List.flatMap_nil, segments.eq_def]; rfl
    | cons part parts ih =>
        rw [List.forall_mem_cons] at hInside hAfter hPresent
        rw [List.flatMap_cons, List.append_assoc, segments_braced hInside.1 hPresent.1,
          segments_plain hAfter.1, ih hInside.2 hAfter.2 hPresent.2]
        rfl
  unfold Pattern.text Pattern.filled
  rw [segments_plain hPlain.first, hParts]

/-- Plain text in front is put in front. -/
theorem fill_plain (cs : List Char) (ss : List Segment) :
    fill context (cs.map .plain ++ ss) =
      (fill context ss).map fun filled => (cs ++ filled.1, filled.2) := by
  induction cs with
  | nil =>
      rw [List.map_nil, List.nil_append]
      cases fill context ss with
      | error f => rfl
      | ok filled => rfl
  | cons c cs ih =>
      rw [List.map_cons, List.cons_append, fill, ih]
      cases fill context ss with
      | error f => rfl
      | ok filled => rfl

/-- A placeholder in front puts in the text of its value, and tells what its expression tells. -/
theorem fill_placeholder {e : List Char} (ss : List Segment) :
    fill context (.placeholder (Text.trim e) :: ss) = do
      let text ← (evaluate (String.ofList e) context).1.interpolated
      let filled ← fill context ss
      return (text.toList ++ filled.1,
        (evaluate (String.ofList (Text.trim e)) context).2 ++ filled.2) := by
  rw [fill, segmentText, ← evaluate_trim_value]
  rcases evaluate (String.ofList (Text.trim e)) context with ⟨v, told⟩
  simp only
  cases v.interpolated with
  | error f => rfl
  | ok text =>
      cases fill context ss with
      | error f => rfl
      | ok filled => rfl

/-- Where all values have a text, each part puts in its own. -/
theorem fill_parts {parts : List (List Char × List Char)}
    (hShown : ∀ e ∈ parts.map Prod.fst,
      (evaluate (String.ofList e) context).1.interpolated = .ok (shown e)) :
    fill context (parts.flatMap partSegments) =
      .ok (parts.flatMap fun part => (shown part.1).toList ++ part.2,
        (parts.map Prod.fst).flatMap fun e =>
          (evaluate (String.ofList (Text.trim e)) context).2) := by
  induction parts with
  | nil => rfl
  | cons part parts ih =>
      rw [List.map_cons, List.forall_mem_cons] at hShown
      rw [List.flatMap_cons, partSegments, List.cons_append, fill_placeholder, fill_plain,
        ih hShown.2, hShown.1]
      simp [Except.map, bind, Except.bind, pure, Except.pure]

/-- The first value without a text leaves the template without one, by the same fault. -/
theorem fill_untold {before after : List (List Char × List Char)} {part : List Char × List Char}
    {f : Fault}
    (hBefore : ∀ e ∈ before.map Prod.fst,
      ∃ s, (evaluate (String.ofList e) context).1.interpolated = .ok s)
    (hUntold : (evaluate (String.ofList part.1) context).1.interpolated = .error f) :
    fill context ((before ++ part :: after).flatMap partSegments) = .error f := by
  induction before with
  | nil =>
      rw [List.nil_append, List.flatMap_cons, partSegments, List.cons_append, fill_placeholder,
        hUntold]
      rfl
  | cons first before ih =>
      obtain ⟨⟨s, hText⟩, hLater⟩ := List.forall_mem_cons.mp hBefore
      rw [List.cons_append, List.flatMap_cons, partSegments, List.cons_append, fill_placeholder,
        fill_plain, hText, ih hLater]
      rfl

theorem trim_ofList_text (p : Pattern) :
    Text.trim (String.ofList p.text).toList = p.trimmed.text := by
  rw [String.toList_ofList, Pattern.trim_text]

/-- The template of a sole expression comes to the value of the expression, whatever its kind. -/
theorem resolve_sole {p : Pattern} {e : List Char} (hPlain : p.Plain) (hSole : p.trimmed = .sole e) :
    resolve (String.ofList p.text) context =
      .ok ((evaluate (String.ofList e) context).1,
        (evaluate (String.ofList (Text.trim e)) context).2) := by
  have hText : p.trimmed.text = braced e := by
    simp [hSole, Pattern.sole, Pattern.text, Pattern.filled]
  have hPart : (e, []) ∈ p.trimmed.parts := by simp [hSole, Pattern.sole]
  unfold resolve
  rw [trim_ofList_text, hText]
  simp only
  rw [Placeholder.whole?_braced (hPlain.trimmed.inside _ hPart) (hPlain.trimmed.present _ hPart),
    ← evaluate_trim_value]

/-- Any other template comes to a text, in which its segments are filled. -/
theorem resolve_of_not_sole {p : Pattern} (hPlain : p.Plain) (hNot : ∀ e, p.trimmed ≠ .sole e) :
    resolve (String.ofList p.text) context =
      (fill context (p.trimmed.parts.flatMap partSegments)).map fun filled =>
        (.text (String.ofList (p.trimmed.first ++ filled.1)), filled.2) := by
  unfold resolve
  rw [trim_ofList_text]
  simp only
  rw [Pattern.whole?_text_of_not_sole hPlain.trimmed hNot, segments_text hPlain.trimmed, fill_plain]
  cases fill context (p.trimmed.parts.flatMap partSegments) with
  | error f => rfl
  | ok filled => rfl

/-- The law of templates. The template of a sole expression, blanks around it aside, comes to the
value of the expression. Any other comes to its pattern without the blanks around it, with the text
of its value in place of each expression: the text of a text is itself, whatever is in it. Each
expression tells what is wrong with it once, from left to right. The template has no text exactly
when one of the values has none, and then it fails as the first of them: an integer in it has too
many digits, or a name in one of its mappings has no form in documents. -/
theorem resolve_pattern {p : Pattern} (hPlain : p.Plain) (context : Context) :
    let value (e : List Char) : Value := (evaluate (String.ofList e) context).1
    let told (e : List Char) : List Diagnostic :=
      (evaluate (String.ofList (Text.trim e)) context).2
    (∀ e, p.trimmed = .sole e →
      resolve (String.ofList p.text) context = .ok (value e, told e)) ∧
    ((∀ e, p.trimmed ≠ .sole e) →
      (∀ shown : List Char → String,
        (∀ e ∈ p.expressions, (value e).interpolated = .ok (shown e)) →
          resolve (String.ofList p.text) context =
            .ok (.text (String.ofList (p.trimmed.filled fun e => (shown e).toList)),
              p.expressions.flatMap told) ∧
          ∀ e ∈ p.expressions, ∀ s, value e = .text s → shown e = s) ∧
      ∀ before e after f, p.expressions = before ++ e :: after →
        (∀ d ∈ before, ∃ s, (value d).interpolated = .ok s) → (value e).interpolated = .error f →
          resolve (String.ofList p.text) context = .error f) ∧
    ∀ e ∈ p.expressions, (∃ s, (value e).interpolated = .ok s) ↔
      (value e).isWritable = true ∧ Json.hasNames (value e) = true := by
  intro value told
  refine ⟨fun e hSole => resolve_sole hPlain hSole, ?_, ?_⟩
  · intro hNot
    have hSame : p.trimmed.parts.map Prod.fst = p.expressions := p.trimmed_expressions
    refine ⟨?_, ?_⟩
    · intro shown hShown
      refine ⟨?_, ?_⟩
      · rw [← hSame] at hShown
        rw [resolve_of_not_sole hPlain hNot, fill_parts hShown, hSame]
        rfl
      · intro e hMem s hText
        have hOwn := hShown e hMem
        rw [hText] at hOwn
        exact (Except.ok.inj hOwn).symm
    · intro before e after f hSplit hBefore hUntold
      rw [← hSame] at hSplit
      obtain ⟨front, behind, hParts, rfl, hBehind⟩ := List.map_eq_append_iff.mp hSplit
      obtain ⟨part, later, rfl, rfl, rfl⟩ := List.map_eq_cons_iff.mp hBehind
      rw [resolve_of_not_sole hPlain hNot, hParts, fill_untold hBefore hUntold]
      rfl
  · intro e _
    rcases Value.interpolated_eq_ok_or (value e) with ⟨hWritable, hNames, hText⟩ | ⟨hNot, f, hFault⟩
    · exact ⟨fun _ => ⟨hWritable, hNames⟩, fun _ => hText⟩
    · simp [hNot, hFault]

/-- A value that looks like a placeholder is put in as it is. -/
theorem resolve_pattern_verbatim :
    let p : Pattern := ⟨['s', 'a', 'y', ' '], [([' ', 'x', ' '], ['!', ' '])]⟩
    p.Plain ∧ (∀ e, p.trimmed ≠ .sole e) ∧
      resolve (String.ofList p.text) [("x", .text "\x7b\x7b y \x7d\x7d")] =
        .ok (.text "say \x7b\x7b y \x7d\x7d!", []) := by
  intro p
  have hPlain : p.Plain := by
    refine ⟨?_, ?_, ?_, ?_⟩
    all_goals simp [p, Pattern.Braceless]
    decide
  have hNot : ∀ e, p.trimmed ≠ .sole e := by
    intro e hSole
    have hFirst : p.trimmed.first = ['s', 'a', 'y', ' '] := rfl
    rw [hSole] at hFirst
    cases hFirst
  have hName : IsName "x" := ⟨⟨'x', [], rfl, rfl, nofun⟩, by decide⟩
  have hTrim : String.ofList (Text.trim [' ', 'x', ' ']) = "x" := rfl
  have hValue : evaluate "x" [("x", .text "\x7b\x7b y \x7d\x7d")] =
      (.text "\x7b\x7b y \x7d\x7d", []) := by
    have hRead : evaluate? "x" [("x", .text "\x7b\x7b y \x7d\x7d")] =
        .ok (.text "\x7b\x7b y \x7d\x7d") := evaluate?_name hName rfl
    rw [evaluate, hRead]
  have hShown : ∀ e ∈ p.expressions,
      (evaluate (String.ofList e) [("x", .text "\x7b\x7b y \x7d\x7d")]).1.interpolated =
        .ok "\x7b\x7b y \x7d\x7d" := by
    intro e hMem
    rw [List.mem_singleton.mp hMem, ← evaluate_trim_value, hTrim, hValue]
    rfl
  have hLaw := (((resolve_pattern hPlain [("x", .text "\x7b\x7b y \x7d\x7d")]).2.1 hNot).1
    (fun _ => "\x7b\x7b y \x7d\x7d") hShown).1
  have hTold : p.expressions.flatMap (fun e =>
      (evaluate (String.ofList (Text.trim e)) [("x", .text "\x7b\x7b y \x7d\x7d")]).2) = [] := by
    simp only [p, Pattern.expressions, List.map_cons, List.map_nil, List.flatMap_singleton, hTrim,
      hValue]
  refine ⟨hPlain, hNot, hLaw.trans ?_⟩
  rw [hTold]
  rfl

end Template

end StepFlow.Expr
