import StepFlow.Text.Blank

/-!
Placeholders in texts: an expression between double braces. A text that is one placeholder as a
whole holds no other delimiter inside it. Elsewhere a placeholder reaches from double opening
braces to the first double closing braces behind at least one character; blanks next to the braces
are no part of it unless there is nothing else.
-/
namespace StepFlow.Expr.Placeholder

/-- Whether two equal braces stand side by side. -/
def hasDouble : List Char → Bool
  | c :: d :: cs => (c = d && (c = '{' || c = '}')) || hasDouble (d :: cs)
  | _ => false

/-- The inside of a text that begins and ends with double braces. -/
def inside? (cs : List Char) : Option (List Char) :=
  match cs with
  | '{' :: '{' :: rest =>
    match rest.reverse with
    | '}' :: '}' :: inner => some inner.reverse
    | _ => none
  | _ => none

/-- The expression of a text that is a single placeholder. -/
def whole? (cs : List Char) : Option (List Char) :=
  match inside? cs with
  | none => none
  | some inner =>
    let body := Text.trimLeft inner
    if body.isEmpty then inner.getLast?.map ([·])
    else
      let expression := Text.trimRight body
      let next := ((body ++ ['}']).drop expression.length).take 1
      if hasDouble (expression ++ next) then none else some expression

/-- The expression of a placeholder whose opening braces have been read, and what follows it. -/
def next? (cs : List Char) : Option (List Char × List Char) :=
  match cs.dropWhile Text.isBlank with
  | [] => none
  | c :: rest =>
    match Text.cutAt ['}', '}'] rest with
    | (before, some after) => some (Text.trimRight (c :: before), after)
    | (_, none) =>
      match (cs.takeWhile Text.isBlank).getLast?, c :: rest with
      | some blank, '}' :: '}' :: after => some ([blank], after)
      | _, _ => none

theorem cutAt_length {mark cs before after : List Char}
    (h : Text.cutAt mark cs = (before, some after)) : after.length ≤ cs.length := by
  have := congrArg List.length (Text.cutAt_append h)
  simp only [List.length_append] at this
  omega

/-- What follows a placeholder is shorter than what follows its opening braces. -/
theorem next?_length {cs expression after : List Char} (h : next? cs = some (expression, after)) :
    after.length < cs.length := by
  have hdrop := (List.dropWhile_suffix (l := cs) Text.isBlank).sublist.length_le
  unfold next? at h
  split at h
  · simp at h
  · rename_i c rest hrest
    rw [hrest, List.length_cons] at hdrop
    split at h
    · rename_i before after' hcut
      simp only [Option.some.injEq, Prod.mk.injEq] at h
      have := cutAt_length hcut
      rw [h.2] at this
      omega
    · split at h
      · rename_i heq
        simp only [Option.some.injEq, Prod.mk.injEq] at h
        simp only [List.cons.injEq] at heq
        rw [heq.2, h.2, List.length_cons] at hdrop
        omega
      · simp at h

end StepFlow.Expr.Placeholder
