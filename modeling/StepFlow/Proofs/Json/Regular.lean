import StepFlow.Proofs.Json.Reader
import StepFlow.Proofs.Table
import StepFlow.Proofs.Value.Regular

/-! What documents hold. Names in an object are texts, and of several entries of one name one is
kept, so that all that is read from a document is regular. -/
namespace StepFlow.Json

theorem regular_atom {cs rest : List Char} {v : Value} (h : atom cs = .ok (v, rest)) :
    v.Regular := by
  cases atomic_of_atom h
  all_goals exact .of_sole (by rintro _ ⟨⟩; rfl) rfl

theorem regular_ofList {entries : List (String × Value)} (h : ∀ entry ∈ entries, entry.2.Regular) :
    (Value.map (Table.ofList entries)).Regular := by
  have hEmpty : (Table.keys ([] : Table Value)).Nodup := List.nodup_nil
  refine .map (Table.nodup_keys_merge hEmpty entries) fun entry hMem => ?_
  rcases Table.mem_of_mem_merge hMem with hNone | hListed
  · cases hNone
  · exact h entry hListed

/-- Values are regular, and so is all that items and entries hold. -/
theorem regular_rules : Rules (fun _ v _ => v.Regular) (fun _ vs _ => ∀ v ∈ vs, v.Regular)
    (fun _ entries _ => ∀ entry ∈ entries, entry.2.Regular) where
  string := fun _ => .of_sole (by rintro _ ⟨⟩; rfl) rfl
  emptyList := fun _ => .list nofun
  list := .list
  emptyMap := fun _ => .map List.nodup_nil nofun
  map := regular_ofList
  atom := regular_atom
  lastItem := fun hFirst _ => List.forall_mem_singleton.mpr hFirst
  nextItem := fun hFirst _ hLater => List.forall_mem_cons.mpr ⟨hFirst, hLater⟩
  lastEntry := fun _ hFirst _ => List.forall_mem_singleton.mpr hFirst
  nextEntry := fun _ hFirst _ hLater => List.forall_mem_cons.mpr ⟨hFirst, hLater⟩

/-- What a document holds is regular. -/
theorem regular_of_parse {s : String} {v : Value} (h : parse s = .ok v) : v.Regular := by
  obtain ⟨-, hRegular, -⟩ := regular_rules.of_parseChars h
  exact hRegular

end StepFlow.Json
