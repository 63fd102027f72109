import StepFlow.Proofs.Json.Overlong
import StepFlow.Yaml.Reader

/-! What a folder gives for a name. There is nothing exactly for the names that it does not list. For
the others the first file with the name is loaded, and what it is refused with is an error of the
loader unless the reading of its text or of its document escapes with an error of another kind. -/
namespace StepFlow

variable {name : String}

theorem fromUTF8?_eq_some_iff {bytes : ByteArray} {s : String} :
    String.fromUTF8? bytes = some s ↔ s.toUTF8 = bytes := by
  unfold String.fromUTF8?
  constructor
  · intro h
    split at h
    · cases h
      rfl
    · cases h
  · rintro rfl
    exact dif_pos s.isValidUTF8

theorem mem_sortedNames {names : List String} : name ∈ sortedNames names ↔ name ∈ names := by
  unfold sortedNames
  rw [List.mem_mergeSort]

/-- What a reader of YAML raises of its own is no error of the loader. -/
def YamlReader.Foreign (yaml : YamlReader) : Prop :=
  ∀ bytes category message, yaml bytes = .error (.raised category message) →
    category ≠ "FlowLoaderError"

theorem Yaml.reader_foreign : YamlReader.Foreign Yaml.reader := by
  intro bytes category message h
  unfold Yaml.reader at h
  split at h
  · cases h
    simp
  · rename_i text hText
    cases hParse : Yaml.parse text with
    | ok v =>
        rw [hParse] at h
        cases h
    | error failure =>
        rw [hParse] at h
        cases failure <;> cases h <;> simp [Yaml.Failure.category]

namespace File

variable {yaml : YamlReader} {f : File} {text : String} {refusal : FileRefusal}

/-- The bytes of a file are those of a text. -/
def Holds (f : File) (text : String) : Prop :=
  ∃ s : String, s.toUTF8 = f.bytes ∧ Text.ofCharacters s = text

/-- What loading a file fails with though it is no error of the loader: bytes of a JSON file that are
no text, an integer of too many digits in it, or what the reader of YAML raises of its own. -/
inductive Escape (yaml : YamlReader) (f : File) : FileRefusal → Prop where
  | encoding (hForm : f.suffix = ".json") (h : ∀ text, ¬ f.Holds text) :
    Escape yaml f (.notText f.bytes.data.toList)
  | numeral {text : String} {digits : Nat} (hForm : f.suffix = ".json") (hText : f.Holds text)
    (h : Json.parse text = .error (.numeralTooLong digits)) : Escape yaml f (.numeral digits)
  | raised {category message : String} (hForm : f.suffix ≠ ".json")
    (h : yaml f.bytes = .error (.raised category message)) :
    Escape yaml f (.raised category message)

/-- A file gives a definition: its document is a mapping, which makes up the definition when a name
that is not given is that of the file. -/
inductive Defines (yaml : YamlReader) (f : File) (definition : Definition) : Prop where
  | intro {v : Value} {fields : Table Value} (hDocument : f.document yaml = .ok v)
    (hFields : v.fields? = some fields)
    (h : Definition.read (.map (f.named fields)) = .ok definition)

theorem holds_iff :
    f.Holds text ↔ (String.fromUTF8? f.bytes).map Text.ofCharacters = some text := by
  unfold Holds
  simp only [Option.map_eq_some_iff, fromUTF8?_eq_some_iff]

theorem jsonDocument_of_not_holds (hNone : ∀ text, ¬ f.Holds text) :
    f.jsonDocument = .error (.notText f.bytes.data.toList) := by
  have hBytes : (String.fromUTF8? f.bytes).map Text.ofCharacters = none := by
    rw [Option.eq_none_iff_forall_not_mem]
    intro text hMem
    exact hNone text (holds_iff.mpr hMem)
  unfold jsonDocument
  rw [hBytes]

section Document

variable {v : Value} {fields : Table Value} {definition : Definition}

theorem load_of_document_error (h : f.document yaml = .error refusal) :
    f.load yaml = .error refusal := by
  unfold load
  simp only [h]

theorem load_of_no_mapping (hDocument : f.document yaml = .ok v) (h : v.fields? = none) :
    f.load yaml = .error (.notMapping f.name) := by
  unfold load
  simp only [hDocument, h]

theorem load_of_mapping (hDocument : f.document yaml = .ok v) (h : v.fields? = some fields) :
    f.load yaml = (Definition.read (.map (f.named fields))).mapError (.notDefinition f.name) := by
  unfold load
  simp only [hDocument, h]
  rfl

theorem Defines.load_eq (h : f.Defines yaml definition) : f.load yaml = .ok definition := by
  obtain ⟨hDocument, hFields, hRead⟩ := h
  rw [load_of_mapping hDocument hFields, hRead]
  rfl

theorem Escape.document_eq (h : f.Escape yaml refusal) : f.document yaml = .error refusal := by
  unfold document
  cases h with
  | encoding hForm hNone => rw [if_pos hForm, jsonDocument_of_not_holds hNone]
  | numeral hForm hText hParse =>
      rw [if_pos hForm]
      unfold jsonDocument
      simp only [holds_iff.mp hText, hParse]
  | raised hForm hRaised => rw [if_neg hForm, hRaised]

theorem Escape.category_ne (hForeign : yaml.Foreign) (h : f.Escape yaml refusal) :
    refusal.category ≠ "FlowLoaderError" := by
  cases h with
  | encoding hForm hNone => simp [FileRefusal.category]
  | numeral hForm hText hParse => simp [FileRefusal.category]
  | raised hForm hRaised => exact hForeign _ _ _ hRaised

/-- What a JSON file is refused with is an error of the loader unless it escapes. -/
theorem jsonDocument_refused (hForm : f.suffix = ".json") (h : f.jsonDocument = .error refusal) :
    refusal.category = "FlowLoaderError" ∨ f.Escape yaml refusal := by
  by_cases hText : ∃ text, f.Holds text
  · obtain ⟨text, hText⟩ := hText
    unfold jsonDocument at h
    simp only [holds_iff.mp hText] at h
    split at h
    · cases h
    · cases h
      exact .inl rfl
    · rename_i hParse
      cases h
      exact .inr (.numeral hForm hText hParse)
  · have hNone : ∀ text, ¬ f.Holds text := not_exists.mp hText
    rw [jsonDocument_of_not_holds hNone] at h
    cases h
    exact .inr (.encoding hForm hNone)

/-- What a document is refused with is an error of the loader unless it escapes. -/
theorem document_refused (h : f.document yaml = .error refusal) :
    refusal.category = "FlowLoaderError" ∨ f.Escape yaml refusal := by
  unfold document at h
  split at h
  · rename_i hForm
    exact jsonDocument_refused hForm h
  · rename_i hForm
    split at h
    · cases h
    · cases h
      exact .inl rfl
    · rename_i hRaised
      cases h
      exact .inr (.raised hForm hRaised)

/-- All that can come of loading a file. -/
theorem load_cases (yaml : YamlReader) (f : File) :
    (∃ definition, f.load yaml = .ok definition ∧ f.Defines yaml definition) ∨
      ∃ refusal, f.load yaml = .error refusal ∧
        (refusal.category = "FlowLoaderError" ∨ f.Escape yaml refusal) := by
  cases hDocument : f.document yaml with
  | error refusal => exact .inr ⟨refusal, load_of_document_error hDocument, document_refused hDocument⟩
  | ok v =>
      cases hFields : v.fields? with
      | none => exact .inr ⟨_, load_of_no_mapping hDocument hFields, .inl rfl⟩
      | some fields =>
          have hLoad := load_of_mapping hDocument hFields
          cases hRead : Definition.read (.map (f.named fields)) with
          | ok definition =>
              rw [hRead] at hLoad
              exact .inl ⟨definition, hLoad, .intro hDocument hFields hRead⟩
          | error problems =>
              rw [hRead] at hLoad
              exact .inr ⟨_, hLoad, .inl rfl⟩

theorem load_eq_ok_iff : f.load yaml = .ok definition ↔ f.Defines yaml definition := by
  refine ⟨fun h => ?_, Defines.load_eq⟩
  obtain ⟨own, hLoad, hDefines⟩ | ⟨own, hLoad, -⟩ := f.load_cases yaml
  · cases h.symm.trans hLoad
    exact hDefines
  · cases h.symm.trans hLoad

theorem load_escapes_iff (hForeign : yaml.Foreign) :
    f.load yaml = .error refusal ∧ refusal.category ≠ "FlowLoaderError" ↔
      f.Escape yaml refusal := by
  refine ⟨?_, fun h => ⟨load_of_document_error h.document_eq, h.category_ne hForeign⟩⟩
  rintro ⟨h, hOther⟩
  obtain ⟨own, hLoad, -⟩ | ⟨own, hLoad, hOwn⟩ := f.load_cases yaml
  · cases h.symm.trans hLoad
  · cases h.symm.trans hLoad
    exact hOwn.resolve_left hOther

end Document

/-- The loading of a file escapes by an integer only where its text holds one of too many digits. -/
theorem Escape.overlong {digits : Nat} (h : f.Escape yaml (.numeral digits)) :
    ∃ text, f.Holds text ∧ Json.Overlong digits text.toList := by
  cases h with
  | numeral hForm hText hParse => exact ⟨_, hText, Json.overlong_of_parseChars hParse⟩

end File

namespace Folder

variable {yaml : YamlReader} {d : Folder}

theorem file?_eq_none_iff : d.file? name = none ↔ name ∉ d.names := by
  unfold file? names
  rw [List.find?_eq_none, mem_sortedNames, List.mem_eraseDups, List.mem_map]
  simp

theorem load?_eq_none_iff : d.load? yaml name = .ok none ↔ name ∉ d.names := by
  rw [← file?_eq_none_iff]
  unfold load?
  cases d.file? name with
  | none => simp
  | some f => cases hLoad : f.load yaml <;> simp [Except.map, hLoad]

theorem load?_eq_error_iff {refusal : FileRefusal} :
    d.load? yaml name = .error refusal ↔
      ∃ f, d.file? name = some f ∧ f.load yaml = .error refusal := by
  unfold load?
  cases d.file? name with
  | none => simp
  | some f => cases hLoad : f.load yaml <;> simp [Except.map, hLoad]

theorem load?_eq_some_iff {definition : Definition} :
    d.load? yaml name = .ok (some definition) ↔
      ∃ f, d.file? name = some f ∧ f.load yaml = .ok definition := by
  unfold load?
  cases d.file? name with
  | none => simp
  | some f => cases hLoad : f.load yaml <;> simp [Except.map, hLoad]

theorem file?_singleton {f : File} (hListed : f.isDefinition = true) (hName : f.stem = name) :
    (⟨[f]⟩ : Folder).file? name = some f := by
  unfold file? definitionFiles
  rw [List.filter_cons_of_pos hListed, List.filter_nil, List.mergeSort_singleton]
  simp [hName]

/-- Nothing is given exactly for a name that is not listed. For the others a definition is given if
the first file with the name gives one, and else an error of the loader, unless the loading of the
file escapes with an error of another kind. -/
theorem loaded_unless_escape {yaml : YamlReader} (hForeign : yaml.Foreign) (d : Folder)
    (name : String) :
    (d.load? yaml name = .ok none ↔ name ∉ d.names) ∧
      (∀ definition, d.load? yaml name = .ok (some definition) ↔
        ∃ f, d.file? name = some f ∧ f.Defines yaml definition) ∧
      ∀ refusal, d.load? yaml name = .error refusal ∧ refusal.category ≠ "FlowLoaderError" ↔
        ∃ f, d.file? name = some f ∧ f.Escape yaml refusal := by
  refine ⟨load?_eq_none_iff, fun definition => ?_, fun refusal => ?_⟩
  · rw [load?_eq_some_iff]
    simp only [File.load_eq_ok_iff]
  · rw [load?_eq_error_iff]
    constructor
    · rintro ⟨⟨f, hFile, hLoad⟩, hOther⟩
      exact ⟨f, hFile, (File.load_escapes_iff hForeign).mp ⟨hLoad, hOther⟩⟩
    · rintro ⟨f, hFile, hEscape⟩
      obtain ⟨hLoad, hOther⟩ := (File.load_escapes_iff hForeign).mpr hEscape
      exact ⟨⟨f, hFile, hLoad⟩, hOther⟩

theorem fromUTF8?_stray : String.fromUTF8? ⟨#[0xFF]⟩ = none := rfl

/-- A YAML file of one byte that begins no character is refused with the error of its decoding. -/
theorem undecoded_yaml_escapes :
    Yaml.reader.Foreign ∧
      ∃ refusal, (⟨[⟨"a.yaml", ⟨#[0xFF]⟩⟩]⟩ : Folder).load? Yaml.reader "a" = .error refusal ∧
        refusal.category ≠ "FlowLoaderError" ∧
        refusal.message =
          "'utf-8' codec can't decode byte 0xff in position 0: invalid start byte" := by
  let f : File := ⟨"a.yaml", ⟨#[0xFF]⟩⟩
  have hSuffix : f.suffix = ".yaml" := by decide +kernel
  have hForm : f.suffix ≠ ".json" := by simp [hSuffix]
  have hFile : (⟨[f]⟩ : Folder).file? "a" = some f :=
    file?_singleton (by simp [File.isDefinition, File.suffixes, hSuffix]) (by decide +kernel)
  have hEscape : f.Escape Yaml.reader
      (.raised "UnicodeDecodeError" (Text.undecodedMessage [0xFF])) :=
    .raised hForm (by unfold Yaml.reader; simp only [f, fromUTF8?_stray]; rfl)
  obtain ⟨-, -, hEscapes⟩ := loaded_unless_escape Yaml.reader_foreign ⟨[f]⟩ "a"
  obtain ⟨hLoad, hOther⟩ := (hEscapes _).mpr ⟨f, hFile, hEscape⟩
  exact ⟨Yaml.reader_foreign, _, hLoad, hOther, by decide +kernel⟩

/-- Of a JSON file of that byte it is the same error. -/
theorem undecoded_file_escapes : ∃ refusal,
    (⟨[⟨"a.json", ⟨#[0xFF]⟩⟩]⟩ : Folder).load? Yaml.reader "a" = .error refusal ∧
      refusal.category = "UnicodeDecodeError" := by
  let f : File := ⟨"a.json", ⟨#[0xFF]⟩⟩
  have hForm : f.suffix = ".json" := by decide +kernel
  have hFile : (⟨[f]⟩ : Folder).file? "a" = some f :=
    file?_singleton (by simp [File.isDefinition, File.suffixes, hForm]) (by decide +kernel)
  have hNone : ∀ text, ¬ f.Holds text := by
    intro text hText
    have hDecoded := File.holds_iff.mp hText
    simp [f, fromUTF8?_stray] at hDecoded
  have hEscape : f.Escape Yaml.reader (.notText f.bytes.data.toList) := .encoding hForm hNone
  exact ⟨_, load?_eq_error_iff.mpr ⟨f, hFile, File.load_of_document_error hEscape.document_eq⟩, rfl⟩

end Folder

end StepFlow
