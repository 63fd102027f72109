import StepFlow.Proofs.Value.Ordering
import StepFlow.Proofs.Value.Symmetry

/-! Comparisons do not depend on which operand stands first: equality is symmetric, and an ordering
of two values is the converse ordering of them exchanged, faults included. -/
namespace StepFlow

/-- The relation of two operands exchanged. -/
def Relation.converse : Relation → Relation
  | .eq => .eq
  | .ne => .ne
  | .lt => .gt
  | .le => .ge
  | .gt => .lt
  | .ge => .le

namespace Value

variable {v w : Value}

/-- Whether a value is neither null nor a text. -/
def isPlain : Value → Bool
  | .null | .text _ => false
  | _ => true

theorem null_or_text_or_plain (v : Value) : v = .null ∨ (∃ s, v = .text s) ∨ v.isPlain = true := by
  cases v with
  | null => exact .inl rfl
  | text s => exact .inr (.inl ⟨s, rfl⟩)
  | _ => exact .inr (.inr rfl)

section LooseEquality

theorem looseEquals_null (w : Value) : looseEquals .null w = looseEquals w .null := by
  cases w <;> rfl

theorem looseEquals_text_plain (s : String) (hw : w.isPlain = true) : looseEquals (.text s) w =
    (w.quantity?.map (Quantity.real (doubleOfText s)).same).getD false := by
  cases w with
  | null | text => cases hw
  | _ => rfl

theorem looseEquals_plain_text (hv : v.isPlain = true) (t : String) : looseEquals v (.text t) =
    (v.quantity?.map fun p => p.same (.real (doubleOfText t))).getD false := by
  cases v with
  | null | text => cases hv
  | _ => rfl

theorem looseEquals_plain (hv : v.isPlain = true) (hw : w.isPlain = true) :
    v.looseEquals w = v.same w := by
  cases v with
  | null | text => cases hv
  | _ =>
    cases w with
    | null | text => cases hw
    | _ => rfl

/-- A text and a number are equal in either order. -/
theorem looseEquals_text_comm (s : String) (hw : w.isPlain = true) :
    looseEquals (.text s) w = looseEquals w (.text s) := by
  rw [looseEquals_text_plain s hw, looseEquals_plain_text hw s]
  cases w.quantity? with
  | none => rfl
  | some q => exact Quantity.same_comm _ q

theorem looseEquals_comm (hv : Distinct v) (hw : Distinct w) :
    v.looseEquals w = w.looseEquals v := by
  rcases null_or_text_or_plain v with rfl | ⟨s, rfl⟩ | hPlain
  · exact looseEquals_null w
  · rcases null_or_text_or_plain w with rfl | ⟨t, rfl⟩ | hPlain'
    · rfl
    · exact BEq.comm
    · exact looseEquals_text_comm s hPlain'
  · rcases null_or_text_or_plain w with rfl | ⟨t, rfl⟩ | hPlain'
    · exact (looseEquals_null v).symm
    · exact (looseEquals_text_comm t hPlain).symm
    · rw [looseEquals_plain hPlain hPlain', looseEquals_plain hPlain' hPlain, same_comm hv hw]

end LooseEquality

section Order

variable {r : Relation}

theorem order_null (r : Relation) (v : Value) : order r v .null = .ok false := by
  cases v <;> rfl

/-- Beside a value that is plain, values are ordered by their doubles. -/
theorem order_of_plain (hv : v ≠ .null) (hw : w ≠ .null)
    (hPlain : v.isPlain = true ∨ w.isPlain = true) : order r v w = do
      let x ← v.double
      let y ← w.double
      return !x.isNaN && !y.isNaN && orderDoubles r x y := by
  cases v with
  | null => exact absurd rfl hv
  | text s =>
    cases w with
    | null => exact absurd rfl hw
    | text t => rcases hPlain with h | h <;> cases h
    | _ => rfl
  | _ =>
    cases w with
    | null => exact absurd rfl hw
    | _ => rfl

theorem orderTexts_converse (r : Relation) (s t : String) :
    orderTexts r s t = orderTexts r.converse t s := by
  cases r with
  | eq => exact BEq.comm
  | ne => exact bne_comm
  | lt | le | gt | ge => rfl

theorem orderDoubles_converse (r : Relation) (x y : Float) :
    orderDoubles r x y = orderDoubles r.converse y x := by
  cases r with
  | eq => exact BEq.comm
  | ne => exact bne_comm
  | lt | le | gt | ge => rfl

/-- What two values decide together they decide in either order, if each alone fails alike. -/
theorem bind_comm_of_fault {a b : Except Fault Float} {f : Fault}
    (ha : ∀ f', a = .error f' → f' = f) (hb : ∀ f', b = .error f' → f' = f)
    {decision converse : Float → Float → Bool} (h : ∀ x y, decision x y = converse y x) :
    (do let x ← a; let y ← b; return decision x y) =
      (do let y ← b; let x ← a; return converse y x : Except Fault Bool) := by
  cases a with
  | error f' =>
    cases b with
    | error f'' => rw [ha f' rfl, hb f'' rfl]; rfl
    | ok y => rfl
  | ok x =>
    cases b with
    | error f' => rfl
    | ok y => exact congrArg Except.ok (h x y)

theorem order_converse_of_plain (r : Relation) (hv : v ≠ .null) (hw : w ≠ .null)
    (hPlain : v.isPlain = true ∨ w.isPlain = true) : v.order r w = w.order r.converse v := by
  rw [order_of_plain hv hw hPlain, order_of_plain hw hv hPlain.symm]
  refine bind_comm_of_fault (fun _ h => (double_eq_error_iff.mp h).1)
    (fun _ h => (double_eq_error_iff.mp h).1) fun x y => ?_
  rw [orderDoubles_converse, Bool.and_comm !x.isNaN]

/-- An ordering of two values is the converse ordering of them exchanged. -/
theorem order_converse (r : Relation) (v w : Value) : v.order r w = w.order r.converse v := by
  rcases null_or_text_or_plain v with rfl | ⟨s, rfl⟩ | hPlain
  · exact (order_null r.converse w).symm
  · rcases null_or_text_or_plain w with rfl | ⟨t, rfl⟩ | hPlain'
    · rfl
    · exact congrArg Except.ok (orderTexts_converse r s t)
    · exact order_converse_of_plain r (by simp) (by rintro rfl; cases hPlain') (.inr hPlain')
  · have hSome : v ≠ .null := by
      rintro rfl
      cases hPlain
    by_cases hNull : w = .null
    · rw [hNull, order_null]
      rfl
    · exact order_converse_of_plain r hSome hNull (.inl hPlain)

end Order

/-- Any relation of two values is the converse relation of them exchanged. -/
theorem relate_converse (r : Relation) (hv : Distinct v) (hw : Distinct w) :
    v.relate r w = w.relate r.converse v := by
  cases r with
  | eq => exact congrArg Except.ok (looseEquals_comm hv hw)
  | ne => exact congrArg (fun equal => Except.ok !equal) (looseEquals_comm hv hw)
  | lt => exact order_converse .lt v w
  | le => exact order_converse .le v w
  | gt => exact order_converse .gt v w
  | ge => exact order_converse .ge v w

/-- Neither equality nor any ordering depends on which operand stands first, and where one order of
the operands has a fault the other has the same. -/
theorem comparisons_converse (hv : Distinct v) (hw : Distinct w) :
    v.looseEquals w = w.looseEquals v ∧ v.order .lt w = w.order .gt v ∧
      v.order .le w = w.order .ge v :=
  ⟨looseEquals_comm hv hw, order_converse .lt v w, order_converse .le v w⟩

/-- Two mappings with their entries in opposite orders are equal from either side. -/
theorem mappings_equal_from_either_side :
    Distinct (.map [("a", .list [.int 1, .null]), ("b", .text "x")]) ∧
      Distinct (.map [("b", .text "x"), ("a", .list [.bool true, .null])]) ∧
      looseEquals (.map [("a", .list [.int 1, .null]), ("b", .text "x")])
        (.map [("b", .text "x"), ("a", .list [.bool true, .null])]) = true ∧
      looseEquals (.map [("b", .text "x"), ("a", .list [.bool true, .null])])
        (.map [("a", .list [.int 1, .null]), ("b", .text "x")]) = true := by
  have hOne : Distinct (.map [("a", .list [.int 1, .null]), ("b", .text "x")]) := by
    refine .map (by decide) ?_
    simp only [List.forall_mem_cons]
    exact ⟨.list (by simp only [List.forall_mem_cons]; exact ⟨.sole rfl, .sole rfl, nofun⟩),
      .sole rfl, nofun⟩
  have hOther : Distinct (.map [("b", .text "x"), ("a", .list [.bool true, .null])]) := by
    refine .map (by decide) ?_
    simp only [List.forall_mem_cons]
    exact ⟨.sole rfl,
      .list (by simp only [List.forall_mem_cons]; exact ⟨.sole rfl, .sole rfl, nofun⟩), nofun⟩
  have hEqual : looseEquals (.map [("a", .list [.int 1, .null]), ("b", .text "x")])
      (.map [("b", .text "x"), ("a", .list [.bool true, .null])]) = true := by
    simp [looseEquals, same, sameFields, sameItems, List.lookup, isOne, quantity?, Quantity.same,
      Quantity.ofBool]
  refine ⟨hOne, hOther, hEqual, ?_⟩
  rw [← (comparisons_converse hOne hOther).1, hEqual]

end Value

end StepFlow
