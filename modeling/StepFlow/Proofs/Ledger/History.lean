import StepFlow.Ledger
import StepFlow.Proofs.Expr.Heads
import StepFlow.Proofs.Table

/-! What a ledger keeps of all that is written to it: of every step the first entry, in the order in
which they came. A write of a step that has an entry is refused and leaves no mark, so what a text
reads of steps that have run is settled for good. -/
namespace StepFlow

namespace Ledger

/-- A write as it is tried: it adds its entry, or is refused with a fault and changes nothing. -/
def attempt (l : Ledger) (e : Entry) : Except Fault Unit × Ledger :=
  match l.write? e with
  | some l' => (.ok (), l')
  | none => (.error (.alreadyWritten e.stepId), l)

/-- The ledger after some writes are tried, one after the other. -/
def attempts (l : Ledger) (es : List Entry) : Ledger := es.foldl (fun l e => (l.attempt e).2) l

/-- Of some entries the first of each step. -/
def firstWrites : List Entry → List Entry
  | [] => []
  | e :: es => e :: (firstWrites es).filter fun other => other.stepId ≠ e.stepId

theorem attempt_eq (l : Ledger) (e : Entry) :
    l.attempt e = if e.stepId ∈ l.stepIds then (.error (.alreadyWritten e.stepId), l)
      else (.ok (), { l with entries := l.entries ++ [e] }) := by
  unfold attempt write?
  by_cases hUsed : e.stepId ∈ l.stepIds
  · simp [hUsed, (has_iff_mem l e.stepId).mpr hUsed]
  · have hFresh : l.has e.stepId = false := by
      rw [← has_iff_mem] at hUsed
      simpa using hUsed
    simp [hUsed, hFresh]

@[simp] theorem entries_start (trigger : Trigger) (metadata : Table Value) :
    (start trigger metadata).entries = [] := rfl

@[simp] theorem stepIds_start (trigger : Trigger) (metadata : Table Value) :
    (start trigger metadata).stepIds = [] := rfl

@[simp] theorem entry?_start (trigger : Trigger) (metadata : Table Value) (id : String) :
    entry? (start trigger metadata) id = none := rfl

@[simp] theorem attempts_nil (l : Ledger) : l.attempts [] = l := rfl

/-- Tried writes begin with the first of them. -/
theorem attempts_cons (l : Ledger) (e : Entry) (es : List Entry) :
    l.attempts (e :: es) = (l.attempt e).2.attempts es := rfl

@[simp] theorem stepIds_append (l : Ledger) (e : Entry) :
    Ledger.stepIds { l with entries := l.entries ++ [e] } = l.stepIds ++ [e.stepId] :=
  List.map_append

theorem stepIds_attempt (l : Ledger) (e : Entry) :
    (l.attempt e).2.stepIds = if e.stepId ∈ l.stepIds then l.stepIds else l.stepIds ++ [e.stepId] := by
  rw [attempt_eq]
  split
  · rfl
  · exact stepIds_append l e

/-- Whatever is tried, the trigger and the metadata stay. -/
theorem frame_attempts (l : Ledger) (es : List Entry) :
    (l.attempts es).trigger = l.trigger ∧ (l.attempts es).metadata = l.metadata := by
  induction es generalizing l with
  | nil => exact ⟨rfl, rfl⟩
  | cons e es ih =>
      have hFirst : (l.attempt e).2.trigger = l.trigger ∧ (l.attempt e).2.metadata = l.metadata := by
        rw [attempt_eq]
        split
        · exact ⟨rfl, rfl⟩
        · exact ⟨rfl, rfl⟩
      rw [attempts_cons, (ih _).1, (ih _).2]
      exact hFirst

/-- A step is on the ledger once a write of it was tried. -/
theorem mem_stepIds_attempts (l : Ledger) (es : List Entry) (id : String) :
    id ∈ (l.attempts es).stepIds ↔ id ∈ l.stepIds ∨ id ∈ es.map Entry.stepId := by
  induction es generalizing l with
  | nil => simp
  | cons e es ih =>
      rw [attempts_cons, ih, stepIds_attempt, List.map_cons, List.mem_cons]
      split
      · rename_i hUsed
        constructor
        · exact Or.imp_right .inr
        · rintro (hMem | rfl | hMem)
          · exact .inl hMem
          · exact .inl hUsed
          · exact .inr hMem
      · simp only [List.mem_append, List.mem_singleton, or_assoc]

/-- No step has two entries, whatever is tried. -/
theorem nodup_attempts {l : Ledger} (hOnce : l.stepIds.Nodup) (es : List Entry) :
    (l.attempts es).stepIds.Nodup := by
  induction es generalizing l with
  | nil => exact hOnce
  | cons e es ih =>
      apply ih
      rw [stepIds_attempt]
      split
      · exact hOnce
      · rename_i hFresh
        rw [← List.concat_eq_append]
        exact hOnce.concat hFresh

/-- What is written in the end: of each new step the first entry that was tried. -/
theorem entries_attempts (l : Ledger) (es : List Entry) :
    (l.attempts es).entries =
      l.entries ++ (firstWrites es).filter fun e => e.stepId ∉ l.stepIds := by
  induction es generalizing l with
  | nil => simp [firstWrites]
  | cons e es ih =>
      rw [attempts_cons, ih, stepIds_attempt, firstWrites, attempt_eq]
      by_cases hUsed : e.stepId ∈ l.stepIds
      · -- the entry is refused, and the filter drops whatever has its id
        simp only [hUsed, if_true, List.filter_cons, not_true_eq_false, decide_false,
          Bool.false_eq_true, if_false, List.filter_filter]
        congr 1
        apply List.filter_congr
        intro other _
        by_cases hSame : other.stepId = e.stepId
        · simp [hSame, hUsed]
        · simp [hSame]
      · simp only [hUsed, if_false, List.filter_cons, not_false_eq_true, decide_true, if_true,
          List.filter_filter, List.append_assoc, List.singleton_append]
        congr 2
        apply List.filter_congr
        intro other _
        simp [not_or]

/-- The entry of a step is the first that was tried. -/
theorem entry?_attempts (l : Ledger) (es : List Entry) (id : String) :
    entry? (l.attempts es) id = (l.entry? id).or (es.find? fun e => e.stepId = id) := by
  induction es generalizing l with
  | nil => simp
  | cons e es ih =>
      rw [attempts_cons, ih, attempt_eq]
      by_cases hUsed : e.stepId ∈ l.stepIds
      · by_cases hId : e.stepId = id
        · have hHas : (l.entry? id).isSome = true := (has_iff_mem l id).mpr (hId ▸ hUsed)
          obtain ⟨found, hFound⟩ := Option.isSome_iff_exists.mp hHas
          simp [hUsed, hFound]
        · simp [hUsed, hId]
      · simp only [hUsed, if_false, entry?, List.find?_append, Option.or_assoc]
        by_cases hId : e.stepId = id <;> simp [hId]

theorem output_eq (l : Ledger) (id : String) :
    l.output id = ((l.entry? id).map Entry.output).getD .null := by
  unfold output
  cases l.entry? id with
  | none => rfl
  | some e => rfl

/-- A name stands for the output of its step, else for what the run began with. -/
theorem get?_context {l : Ledger} (hOnce : l.stepIds.Nodup) (name : String) :
    l.context.get? name =
      ((l.entry? name).map Entry.output).or ((start l.trigger l.metadata).context.get? name) := by
  have hOutputs : ∀ es : List Entry, Table.get? (es.map fun e => (e.stepId, e.output)) name =
      (es.find? fun e => e.stepId = name).map Entry.output := by
    intro es
    induction es with
    | nil => rfl
    | cons e es ih =>
        rw [List.map_cons, Table.get?_cons, ih]
        by_cases hName : e.stepId = name
        · simp [hName]
        · simp [hName]
  have hKeys : Table.keys (l.entries.map fun e => (e.stepId, e.output)) = l.stepIds := by
    simp [Table.keys, stepIds]
  unfold context entry?
  rw [Table.get?_merge (by rw [hKeys]; exact hOnce), hOutputs]
  rfl

/-- Later writes leave what a step stands for alone. -/
theorem agree_attempts {l : Ledger} (hOnce : l.stepIds.Nodup) {names : List String}
    (hNames : ∀ name ∈ names, name ∈ l.stepIds) (more : List Entry) :
    Expr.Agree names (l.attempts more).context l.context := by
  intro name hName
  obtain ⟨e, hEntry⟩ := Option.isSome_iff_exists.mp ((has_iff_mem l name).mpr (hNames name hName))
  have hLater : entry? (l.attempts more) name = some e := by simp [entry?_attempts, hEntry]
  unfold Value.field
  rw [get?_context (nodup_attempts hOnce more), get?_context hOnce, hLater, hEntry]
  rfl

/-- A ledger that is only appended to. Each write that is tried comes to what the writes before it
allow: a step that has an entry is refused and nothing changes. In the end the ledger holds the first
entry of each step, reads them and sums up their usage. What a text comes to that reads steps with
an entry is what it comes to after any further writes, because no text can tell two contexts apart
that agree on the names it reads. -/
theorem history_settled (trigger : Trigger) (metadata : Table Value) (es : List Entry) :
    let l := (start trigger metadata).attempts es
    (∀ before e after, es = before ++ e :: after →
      let found := (start trigger metadata).attempts before
      found.attempt e =
        if e.stepId ∈ before.map Entry.stepId then (.error (.alreadyWritten e.stepId), found)
        else (.ok (), { found with entries := found.entries ++ [e] })) ∧
    l.entries = firstWrites es ∧
    (∀ id, l.entry? id = (es.find? fun e => e.stepId = id) ∧
      l.output id = ((es.find? fun e => e.stepId = id).map Entry.output).getD .null) ∧
    l.usage = Usage.sum ((firstWrites es).filterMap Entry.usage) ∧
    (∀ more text, (∀ name ∈ Expr.heads text, name ∈ es.map Entry.stepId) →
      Expr.evaluate? text (l.attempts more).context = Expr.evaluate? text l.context) ∧
    ∀ text c d, Expr.Agree (Expr.heads text) c d →
      Expr.evaluate? text c = Expr.evaluate? text d := by
  have hEntries : ((start trigger metadata).attempts es).entries = firstWrites es := by
    simp [entries_attempts]
  have hEntry : ∀ id, entry? ((start trigger metadata).attempts es) id =
      es.find? fun e => e.stepId = id := by
    intro id
    simp [entry?_attempts]
  refine ⟨?_, hEntries, ?_, ?_, ?_, fun text c d hAgree => Expr.evaluate?_congr hAgree⟩
  · intro before e after _
    have hUsed : e.stepId ∈ ((start trigger metadata).attempts before).stepIds ↔
        e.stepId ∈ before.map Entry.stepId := by
      simp [mem_stepIds_attempts]
    simp only [attempt_eq, hUsed]
  · intro id
    exact ⟨hEntry id, by rw [output_eq, hEntry]⟩
  · rw [← hEntries]
    rfl
  · intro more text hNames
    have hOnce : ((start trigger metadata).attempts es).stepIds.Nodup :=
      nodup_attempts (by simp) es
    apply Expr.evaluate?_congr
    apply agree_attempts hOnce
    intro name hName
    exact (mem_stepIds_attempts _ _ _).mpr (.inr (hNames name hName))

end Ledger

end StepFlow
