import StepFlow.Tool

/-! Toolboxes with other tools of the same names. What is looked for is found by the same name, and
what is missing is told in the same words. -/
namespace StepFlow.Toolbox

variable {σ τ : Type}

/-- A toolbox with something in the place of each tool, under its name. -/
def map (g : String → Tool σ → Tool τ) (b : Toolbox σ) : Toolbox τ :=
  ⟨b.tools.map fun entry => (entry.1, g entry.1 entry.2)⟩

variable {g : String → Tool σ → Tool τ}

theorem get?_map (tools : Table (Tool σ)) (name : String) :
    (Toolbox.map g ⟨tools⟩).tools.get? name = (tools.get? name).map (g name) := by
  induction tools with
  | nil => rfl
  | cons entry tools ih =>
      obtain ⟨k, t⟩ := entry
      have hMapped : (Toolbox.map g ⟨(k, t) :: tools⟩).tools =
          (k, g k t) :: (Toolbox.map g ⟨tools⟩).tools := rfl
      rw [hMapped, Table.get?_cons, Table.get?_cons, ih]
      by_cases hName : k = name
      · simp [hName]
      · simp [hName]

/-- Looking for a tool ends in one of three ways, and in the same one for what stands in its place. -/
theorem find_map (g : String → Tool σ → Tool τ) (b : Toolbox σ) (name : Value) :
    (∃ f, (b.map g).find name = .error f ∧ b.find name = .error f) ∨
      ((b.map g).find name = .ok none ∧ b.find name = .ok none) ∨
      ∃ called t, name = .text called ∧ b.tools.get? called = some t ∧
        (b.map g).find name = .ok (some (g called t)) ∧ b.find name = .ok (some t) := by
  unfold find
  cases hHashed : name.hashed with
  | error f => exact .inl ⟨f, rfl, rfl⟩
  | ok v =>
      cases v with
      | text s =>
          have hName : name = .text s := by
            unfold Value.hashed at hHashed
            split at hHashed
            · exact Except.ok.inj hHashed
            · cases hHashed
          have hGet := get?_map (g := g) b.tools s
          cases hFound : b.tools.get? s with
          | none =>
              rw [hFound] at hGet
              exact .inr (.inl ⟨congrArg Except.ok hGet, congrArg Except.ok hFound⟩)
          | some t =>
              rw [hFound] at hGet
              exact .inr (.inr ⟨s, t, hName, hFound, congrArg Except.ok hGet,
                congrArg Except.ok hFound⟩)
      | _ => exact .inr (.inl ⟨rfl, rfl⟩)

theorem missing_map (g : String → Tool σ → Tool τ) (b : Toolbox σ) (shown : String) :
    (b.map g).missing shown = b.missing shown := by
  have hNames : (b.map g).names = b.names := by simp [names, Table.keys, map]
  rw [missing, hNames]
  rfl

end StepFlow.Toolbox
