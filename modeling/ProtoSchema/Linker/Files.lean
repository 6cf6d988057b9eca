import ProtoSchema.Linker.Load

/-!
# The files of a linker

Declaring a file adds it to the linker's files and touches them nowhere else.
-/

namespace ProtoSchema.Linker

@[simp] theorem files_note (l : Linker) (r : Report) : (l.note r).files = l.files := rfl

@[simp] theorem files_report (l : Linker) (file : FileScope) (position : Option Position)
    (p : LinkProblem) : (l.report file position p).files = l.files := rfl

theorem files_define (l : Linker) (file : FileScope) (position : Option Position)
    (d : Definition) : (l.define file position d).1.files = l.files := by
  unfold define
  split
  · rfl
  · split <;> rfl

theorem files_of_define {l l' : Linker} {file : FileScope} {position : Option Position}
    {d : Definition} {b : Bool} (h : l.define file position d = (l', b)) : l'.files = l.files := by
  rw [← files_define l file position d, h]

@[simp] theorem files_modifyMessage (l : Linker) (place : Nat) (f : MessageEntry → MessageEntry) :
    (l.modifyMessage place f).files = l.files := rfl

@[simp] theorem files_modifyParent (l : Linker) (parent : Option Nat)
    (f : MessageEntry → MessageEntry) : (l.modifyParent parent f).files = l.files := by
  cases parent <;> rfl

theorem files_foldl {α : Type} {step : Linker → α → Linker}
    (h : ∀ l a, (step l a).files = l.files) (l : Linker) (xs : List α) :
    (xs.foldl step l).files = l.files := by
  induction xs generalizing l with
  | nil => rfl
  | cons x xs ih => rw [List.foldl_cons, ih, h]

@[simp] theorem files_declarePackage (l : Linker) (file : FileScope) :
    (l.declarePackage file).files = l.files :=
  files_foldl (fun _ _ => files_define ..) l _

@[simp] theorem files_acceptValues (l : Linker) (file : FileScope) (e : EnumDecl) (name : String)
    (accepted values : List EnumValueDecl) :
    (l.acceptValues file e name accepted values).1.files = l.files := by
  induction values generalizing l accepted with
  | nil => rfl
  | cons v vs ih =>
    unfold acceptValues
    split <;> simp [ih]

@[simp] theorem files_declareEnum (l : Linker) (file : FileScope) (scope : String)
    (parent : Option Nat) (e : EnumDecl) :
    (l.declareEnum file scope parent e).files = l.files := by
  unfold declareEnum
  simp only
  split
  · next h => exact files_of_define h
  · next h =>
    rw [files_modifyParent]
    split <;> simp [files_of_define h]

@[simp] theorem files_declareExtend (l : Linker) (file : FileScope) (scope : String)
    (e : ExtendDecl) : (l.declareExtend file scope e).files = l.files := rfl

@[simp] theorem files_addMessage (l : Linker) (m : MessageEntry) :
    (l.addMessage m).files = l.files := by
  simp [addMessage]

@[simp] theorem files_addField (l : Linker) (file : FileScope) (owner : Nat) (scope : String)
    (f : FieldDecl) : (l.addField file owner scope f).files = l.files := rfl

theorem files_of_declareMapEntry {l l' : Linker} {file : FileScope} {owner : Nat}
    {scope : String} {f : FieldDecl} {key value : String} {position : Position} {b : Bool}
    (h : l.declareMapEntry file owner scope f key value position = (l', b)) :
    l'.files = l.files := by
  unfold declareMapEntry at h
  simp only at h
  split at h
  · next hd =>
    cases h
    exact files_of_define hd
  · next hd =>
    cases h
    simp [files_of_define hd]

@[simp] theorem files_declareFields (l : Linker) (file : FileScope) (owner : Nat) (scope : String)
    (rules : FieldRules) (fields : List FieldDecl) :
    (l.declareFields file owner scope rules fields).files = l.files := by
  induction fields generalizing l rules with
  | nil => rfl
  | cons f fs ih =>
    unfold declareFields
    split
    · simp [ih]
    · split
      · split <;> (next h => simp [ih, files_of_declareMapEntry h])
      · simp [ih]
      · simp [ih]

mutual

theorem files_declareMessage (l : Linker) (file : FileScope) (scope : String)
    (parent : Option Nat) :
    (m : MessageDecl) → (l.declareMessage file scope parent m).files = l.files
  | ⟨_, _, messages, _, _, _, _, _, _, _, _⟩ => by
    unfold declareMessage
    simp only
    split
    · next h => exact files_of_define h
    · next h =>
      rw [files_foldl (fun _ _ => files_declareExtend ..), files_declareFields,
        files_declareMessages, files_foldl (fun _ _ => files_declareEnum ..), files_addMessage]
      exact files_of_define h

theorem files_declareMessages (l : Linker) (file : FileScope) (scope : String)
    (parent : Option Nat) :
    (ms : List MessageDecl) → (l.declareMessages file scope parent ms).files = l.files
  | [] => rfl
  | m :: ms => by
    unfold declareMessages
    rw [files_declareMessages, files_declareMessage]

end

theorem files_declareMethod (l : Linker) (file : FileScope) (service : String) (m : MethodDecl) :
    (l.declareMethod file service m).files = l.files := by
  unfold declareMethod
  simp only
  split
  · next h => exact files_of_define h
  · next h => exact (files_of_define h : _ = l.files)

theorem files_declareService (l : Linker) (file : FileScope) (s : ServiceDecl) :
    (l.declareService file s).files = l.files := by
  unfold declareService
  simp only
  split
  · next h => exact files_of_define h
  · next h =>
    rw [files_foldl (fun _ _ => files_declareMethod ..)]
    exact files_of_define h

/-- Declaring a file only adds it to the files. -/
theorem files_declare (l : Linker) (f : SchemaFile) :
    (l.declare f).files = (l.addFile f.scope).files := by
  simp only [declare]
  rw [files_foldl (fun _ _ => files_declareService ..),
    files_foldl (fun _ _ => files_declareExtend ..),
    files_foldl (fun _ _ => files_declareEnum ..), files_declareMessages, files_declarePackage]

/-- The names of all files that are imported by the files of the linker. -/
def importPaths (l : Linker) : List Text := l.files.flatMap FileScope.importNames

theorem mem_importPaths {l : Linker} {n : Text} :
    n ∈ l.importPaths ↔ ∃ f ∈ l.files, n ∈ f.importNames := by
  simp [importPaths]

/-- A new file brings in no imports but its own. -/
theorem mem_importPaths_addFile {l : Linker} {file : FileScope} {n : Text}
    (h : n ∈ (l.addFile file).importPaths) : n ∈ l.importPaths ∨ n ∈ file.importNames := by
  obtain ⟨f, hf, hn⟩ := mem_importPaths.mp h
  simp only [addFile] at hf
  split at hf
  · obtain ⟨g, hg, rfl⟩ := List.mem_map.mp hf
    split at hn
    · exact .inr hn
    · exact .inl (mem_importPaths.mpr ⟨g, hg, hn⟩)
  · rcases List.mem_append.mp hf with hf | hf
    · exact .inl (mem_importPaths.mpr ⟨f, hf, hn⟩)
    · rw [List.mem_singleton] at hf
      exact .inr (hf ▸ hn)

/-- Declaring a file brings in no imports but its own. -/
theorem mem_importPaths_declare {l : Linker} {f : SchemaFile} {n : Text}
    (h : n ∈ (l.declare f).importPaths) : n ∈ l.importPaths ∨ n ∈ f.scope.importNames := by
  apply mem_importPaths_addFile
  rwa [importPaths, files_declare] at h

end ProtoSchema.Linker
