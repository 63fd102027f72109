import StepFlow.Json.Lexeme

/-!
Reading JSON documents. Of several entries of one name in an object the last counts, in the place
of the first. Nothing but blanks may stand around the document.
-/
namespace StepFlow.Json

/-- What reading something from a list gives: the thing and a shorter rest. -/
abbrev Reading (α : Type) (cs : List Char) :=
  Except Failure { out : α × List Char // out.2.length < cs.length }

def readAtom (cs : List Char) : Reading Value cs :=
  match h : atom cs with
  | .error e => .error e
  | .ok (v, rest) => .ok ⟨(v, rest), atom_length h⟩

/-- The name of an entry with its colon. -/
def readName (cs : List Char) : Reading String cs :=
  match cs with
  | '"' :: rest =>
    match h : stringBody? rest with
    | none => .error .malformed
    | some (name, after) =>
      match hs : skipSpace after with
      | ':' :: last =>
        .ok ⟨(String.ofList name, skipSpace last), by
          have h1 := stringBody?_length h
          have h2 := skipSpace_length after
          have h3 := skipSpace_length last
          rw [hs] at h2
          simp only [List.length_cons] at *
          omega⟩
      | _ => .error .malformed
  | _ => .error .malformed

mutual

def readValue (cs : List Char) : Reading Value cs :=
  match cs with
  | '"' :: rest =>
    match h : stringBody? rest with
    | none => .error .malformed
    | some (body, after) =>
      .ok ⟨(.text (String.ofList body), after), Nat.lt_succ_of_lt (stringBody?_length h)⟩
  | '[' :: rest =>
    match h : skipSpace rest with
    | ']' :: after =>
      .ok ⟨(.list [], after), by
        have := skipSpace_length rest
        rw [h] at this
        simp only [List.length_cons] at *
        omega⟩
    | start =>
      match readItems start with
      | .error e => .error e
      | .ok ⟨(items, after), h'⟩ =>
        .ok ⟨(.list items, after), by
          have := skipSpace_length rest
          rw [h] at this
          simp only [List.length_cons] at *
          omega⟩
  | '{' :: rest =>
    match h : skipSpace rest with
    | '}' :: after =>
      .ok ⟨(.map [], after), by
        have := skipSpace_length rest
        rw [h] at this
        simp only [List.length_cons] at *
        omega⟩
    | start =>
      match readEntries start with
      | .error e => .error e
      | .ok ⟨(entries, after), h'⟩ =>
        .ok ⟨(.map (Table.ofList entries), after), by
          have := skipSpace_length rest
          rw [h] at this
          simp only [List.length_cons] at *
          omega⟩
  | cs => readAtom cs
termination_by 2 * cs.length
decreasing_by
  all_goals
    have := skipSpace_length rest
    rw [h] at this
    simp only [List.length_cons]
    omega

/-- The items of a list up to its closing bracket. -/
def readItems (cs : List Char) : Reading (List Value) cs :=
  match readValue cs with
  | .error e => .error e
  | .ok ⟨(v, rest), h⟩ =>
    match hs : skipSpace rest with
    | ']' :: after =>
      .ok ⟨([v], after), by
        have := skipSpace_length rest
        rw [hs] at this
        simp only [List.length_cons] at *
        omega⟩
    | ',' :: more =>
      match readItems (skipSpace more) with
      | .error e => .error e
      | .ok ⟨(items, after), h'⟩ =>
        .ok ⟨(v :: items, after), by
          have h1 := skipSpace_length rest
          have h2 := skipSpace_length more
          rw [hs] at h1
          simp only [List.length_cons] at *
          omega⟩
    | _ => .error .malformed
termination_by 2 * cs.length + 1
decreasing_by
  · omega
  · have h1 := skipSpace_length rest
    have h2 := skipSpace_length more
    rw [hs] at h1
    simp only [List.length_cons] at *
    omega

/-- The entries of an object up to its closing brace. -/
def readEntries (cs : List Char) : Reading (List (String × Value)) cs :=
  match readName cs with
  | .error e => .error e
  | .ok ⟨(name, start), h⟩ =>
    match readValue start with
    | .error e => .error e
    | .ok ⟨(v, rest), h'⟩ =>
      match hs : skipSpace rest with
      | '}' :: after =>
        .ok ⟨([(name, v)], after), by
          have := skipSpace_length rest
          rw [hs] at this
          simp only [List.length_cons] at *
          omega⟩
      | ',' :: more =>
        match readEntries (skipSpace more) with
        | .error e => .error e
        | .ok ⟨(entries, after), h''⟩ =>
          .ok ⟨((name, v) :: entries, after), by
            have h1 := skipSpace_length rest
            have h2 := skipSpace_length more
            rw [hs] at h1
            simp only [List.length_cons] at *
            omega⟩
      | _ => .error .malformed
termination_by 2 * cs.length + 1
decreasing_by
  · simp only at h
    omega
  · have h1 := skipSpace_length rest
    have h2 := skipSpace_length more
    rw [hs] at h1
    simp only [List.length_cons] at *
    omega

end

/-- The value of a document. -/
def parseChars (cs : List Char) : Except Failure Value :=
  match readValue (skipSpace cs) with
  | .error e => .error e
  | .ok ⟨(v, rest), _⟩ => if (skipSpace rest).isEmpty then .ok v else .error .malformed

def parse (s : String) : Except Failure Value := parseChars s.toList

end StepFlow.Json
