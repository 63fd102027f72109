import StepFlow.Text.Blank

/-!
Repairing text that is almost JSON: block comments, line comments that begin their line, and commas
before a closing bracket are dropped. The rules look at characters alone, wherever they stand.
-/
namespace StepFlow.Json

/-- Drops everything from an opening mark to the next closing mark, again and again. -/
def dropBlockComments (cs : List Char) : List Char :=
  match cs with
  | [] => []
  | '/' :: '*' :: rest =>
    match _h : Text.cutAt ['*', '/'] rest with
    | (_, some after) => dropBlockComments after
    | (_, none) => '/' :: dropBlockComments ('*' :: rest)
  | c :: rest => c :: dropBlockComments rest
termination_by cs.length
decreasing_by
  · have := congrArg List.length (Text.cutAt_append _h)
    simp only [List.length_append, List.length_cons] at this ⊢
    omega
  · simp
  · simp

/-- What a line comment leaves: the rest of the text from the end of the comment's line. Blanks
before the comment belong to it, line ends included. -/
def afterLineComment? (cs : List Char) : Option (List Char) :=
  match cs.dropWhile Text.isBlank with
  | '/' :: '/' :: rest => some (rest.dropWhile (· ≠ '\n'))
  | _ => none

theorem afterLineComment?_length {cs rest : List Char} (h : afterLineComment? cs = some rest) :
    rest.length < cs.length := by
  have hdrop := (List.dropWhile_suffix (l := cs) Text.isBlank).sublist.length_le
  unfold afterLineComment? at h
  split at h
  · rename_i body hbody
    rw [hbody] at hdrop
    simp only [Option.some.injEq] at h
    have := (List.dropWhile_suffix (l := body) (· ≠ '\n')).sublist.length_le
    rw [h] at this
    simp only [List.length_cons] at hdrop
    omega
  · simp at h

/-- Drops the comments that begin a line. The flag says that a line begins here. -/
def dropLineComments (atStart : Bool) (cs : List Char) : List Char :=
  match _h : if atStart then afterLineComment? cs else none with
  | some rest => dropLineComments false rest
  | none =>
    match cs with
    | [] => []
    | c :: rest => c :: dropLineComments (c = '\n') rest
termination_by cs.length
decreasing_by
  · split at _h
    · exact afterLineComment?_length _h
    · simp at _h
  · simp

/-- Drops each comma that has only blanks between it and a closing bracket, and those blanks. -/
def dropTrailingCommas (cs : List Char) : List Char :=
  match cs with
  | [] => []
  | c :: rest =>
    if c = ',' then
      match rest.dropWhile Text.isBlank, (List.dropWhile_suffix (l := rest) Text.isBlank) with
      | d :: after, _h =>
        if d = '}' || d = ']' then d :: dropTrailingCommas after
        else c :: dropTrailingCommas rest
      | [], _ => c :: dropTrailingCommas rest
    else c :: dropTrailingCommas rest
termination_by cs.length
decreasing_by
  · have := _h.sublist.length_le
    simp only [List.length_cons] at *
    omega
  all_goals simp

/-- All repairs in turn, and the blanks around the result dropped. -/
def repairChars (cs : List Char) : List Char :=
  Text.trim (dropTrailingCommas (dropLineComments true (dropBlockComments cs)))

def repair (text : String) : String := String.ofList (repairChars text.toList)

end StepFlow.Json
