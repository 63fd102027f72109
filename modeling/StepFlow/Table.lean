/-!
Tables of named entries in the order of first insertion. Putting a name that is already there
changes its entry where it stands; all other entries keep their place.
-/
namespace StepFlow

abbrev Table (α : Type) := List (String × α)

namespace Table

variable {α : Type}

def get? (t : Table α) (name : String) : Option α := t.lookup name

def contains (t : Table α) (name : String) : Bool := (t.get? name).isSome

def keys (t : Table α) : List String := t.map Prod.fst

def values (t : Table α) : List α := t.map Prod.snd

def put : Table α → String → α → Table α
  | [], name, a => [(name, a)]
  | (k, b) :: rest, name, a => if k = name then (k, a) :: rest else (k, b) :: put rest name a

def erase (t : Table α) (name : String) : Table α := t.filter fun entry => entry.1 ≠ name

/-- Puts every entry of the second table, in order. -/
def merge (t extra : Table α) : Table α := extra.foldl (fun acc entry => acc.put entry.1 entry.2) t

/-- The table of a list of entries: the last entry of a name wins, in the place of its first. -/
def ofList (entries : List (String × α)) : Table α := merge [] entries

@[simp] theorem get?_nil (name : String) : get? ([] : Table α) name = none := rfl

theorem get?_cons (k : String) (b : α) (rest : Table α) (name : String) :
    get? ((k, b) :: rest) name = if k = name then some b else get? rest name := by
  simp only [get?, List.lookup_cons]
  by_cases h : name = k
  · simp [h]
  · simp [beq_false_of_ne h, Ne.symm h]

@[simp] theorem get?_put_self (t : Table α) (name : String) (a : α) :
    (t.put name a).get? name = some a := by
  induction t with
  | nil => simp [put, get?_cons]
  | cons entry rest ih =>
    obtain ⟨k, b⟩ := entry
    simp only [put]
    split <;> rename_i h <;> simp [get?_cons, h, ih]

theorem get?_put_ne {name other : String} (h : other ≠ name) (t : Table α) (a : α) :
    (t.put name a).get? other = t.get? other := by
  induction t with
  | nil => simp [put, get?_cons, Ne.symm h]
  | cons entry rest ih =>
    obtain ⟨k, b⟩ := entry
    simp only [put]
    split
    · rename_i hk
      simp [get?_cons, hk, Ne.symm h]
    · simp [get?_cons, ih]

theorem contains_iff_mem_keys (t : Table α) (name : String) :
    t.contains name = true ↔ name ∈ t.keys := by
  induction t with
  | nil => simp [contains, keys]
  | cons entry rest ih =>
    obtain ⟨k, b⟩ := entry
    simp only [contains, keys, get?_cons, List.map_cons, List.mem_cons] at ih ⊢
    by_cases h : k = name
    · simp [h]
    · simp [h, ih, Ne.symm h]

/-- A new name goes to the end, a known one keeps its place. -/
theorem keys_put (t : Table α) (name : String) (a : α) :
    (t.put name a).keys = if name ∈ t.keys then t.keys else t.keys ++ [name] := by
  induction t with
  | nil => simp [put, keys]
  | cons entry rest ih =>
    obtain ⟨k, b⟩ := entry
    simp only [put]
    by_cases h : k = name
    · simp [keys, h]
    · simp only [keys] at ih
      simp only [h, if_false, keys, List.map_cons, ih, List.mem_cons, Ne.symm h, false_or]
      split <;> rename_i hm <;> simp [hm]

end Table

end StepFlow
