import ProtoSchema.Proofs.Linker.Alongside
import ProtoSchema.Proofs.Linker.Outcome

/-!
# Earlier notes do not matter

What a linker has noted so far has no bearing on what it does later. With earlier notes in front of
its own (`behind`), it declares the same and notes the same (`declare_behind`), and linking tells the
same. So the notes may be taken away between two files (`quiet`), as it is done by a pool, and the
tables stay those of the linker that kept them.
-/

namespace ProtoSchema

namespace Linker

variable {l : Linker}

/-- The linker with earlier notes in front of its own. -/
def behind (past : List Report) (l : Linker) : Linker := { l with reports := past ++ l.reports }

/-- The linker without its notes. -/
def quiet (l : Linker) : Linker := { l with reports := [] }

theorem behind_quiet (l : Linker) : behind l.reports l.quiet = l := by
  simp [behind, quiet]

theorem quiet_behind (past : List Report) (l : Linker) : (behind past l).quiet = l.quiet := rfl

/-! ## Declaring behind earlier notes -/

theorem note_behind (past : List Report) (l : Linker) (r : Report) :
    (behind past l).note r = behind past (l.note r) := by
  simp [note, behind]

theorem report_behind (past : List Report) (l : Linker) (file : FileScope)
    (position : Option Position) (p : LinkProblem) :
    (behind past l).report file position p = behind past (l.report file position p) :=
  note_behind past l _

theorem define_behind (past : List Report) (l : Linker) (file : FileScope)
    (position : Option Position) (d : Definition) :
    (behind past l).define file position d =
      (behind past (l.define file position d).1, (l.define file position d).2) := by
  have hknown : (behind past l).definition? d.fullName = l.definition? d.fullName := rfl
  unfold define
  rw [hknown]
  cases l.definition? d.fullName with
  | none => rfl
  | some old =>
    simp only
    split_ifs
    · rfl
    · rw [report_behind]

theorem modifyParent_behind (past : List Report) (l : Linker) (parent : Option Nat)
    (f : MessageEntry → MessageEntry) :
    (behind past l).modifyParent parent f = behind past (l.modifyParent parent f) := by
  cases parent <;> rfl

/-- What every step of a fold does behind earlier notes, the whole fold does. -/
theorem foldl_behind {α : Type} {step : Linker → α → Linker}
    (h : ∀ l x, step (behind past l) x = behind past (step l x)) (l : Linker) (xs : List α) :
    xs.foldl step (behind past l) = behind past (xs.foldl step l) := by
  induction xs generalizing l with
  | nil => rfl
  | cons x xs ih => rw [List.foldl_cons, List.foldl_cons, h, ih]

theorem addFile_behind (past : List Report) (l : Linker) (file : FileScope) :
    (behind past l).addFile file = behind past (l.addFile file) := rfl

theorem declarePackage_behind (past : List Report) (l : Linker) (file : FileScope) :
    (behind past l).declarePackage file = behind past (l.declarePackage file) :=
  foldl_behind (fun l name => by rw [define_behind]) l _

theorem acceptValues_behind (past : List Report) (l : Linker) (file : FileScope) (e : EnumDecl)
    (fullName : String) (accepted values : List EnumValueDecl) :
    (behind past l).acceptValues file e fullName accepted values =
      (behind past (l.acceptValues file e fullName accepted values).1,
        (l.acceptValues file e fullName accepted values).2) := by
  induction values generalizing l accepted with
  | nil => rfl
  | cons v vs ih =>
    unfold acceptValues
    cases e.problem? fullName accepted v with
    | none => exact ih ..
    | some p =>
      simp only [report_behind]
      exact ih ..

theorem declareEnum_behind (past : List Report) (l : Linker) (file : FileScope) (scope : String)
    (parent : Option Nat) (e : EnumDecl) :
    (behind past l).declareEnum file scope parent e =
      behind past (l.declareEnum file scope parent e) := by
  have hplace : (behind past l).enums = l.enums := rfl
  simp only [declareEnum, define_behind, hplace]
  rcases l.define file (some e.position)
    ⟨.enum, Dotted.join scope e.name, some file.name, some l.enums.size⟩ with ⟨l₁, _ | _⟩
  · rfl
  · simp only [acceptValues_behind]
    rcases l₁.acceptValues file e (Dotted.join scope e.name) [] e.values with ⟨l₂, values⟩
    simp only
    split_ifs
    · rw [report_behind]
      cases parent <;> rfl
    · cases parent <;> rfl

theorem declareExtend_behind (past : List Report) (l : Linker) (file : FileScope) (scope : String)
    (e : ExtendDecl) :
    (behind past l).declareExtend file scope e = behind past (l.declareExtend file scope e) := rfl

theorem addMessage_behind (past : List Report) (l : Linker) (m : MessageEntry) :
    (behind past l).addMessage m = behind past (l.addMessage m) :=
  modifyParent_behind past { l with messages := l.messages.push m } m.parent _

theorem addField_behind (past : List Report) (l : Linker) (file : FileScope) (owner : Nat)
    (scope : String) (f : FieldDecl) :
    (behind past l).addField file owner scope f = behind past (l.addField file owner scope f) := rfl

theorem declareMapEntry_behind (past : List Report) (l : Linker) (file : FileScope) (owner : Nat)
    (scope : String) (f : FieldDecl) (key value : String) (position : Position) :
    (behind past l).declareMapEntry file owner scope f key value position =
      (behind past (l.declareMapEntry file owner scope f key value position).1,
        (l.declareMapEntry file owner scope f key value position).2) := by
  have hplace : (behind past l).messages = l.messages := rfl
  simp only [declareMapEntry, define_behind, hplace]
  rcases l.define file (some f.position) ⟨.message, Dotted.join scope (MapEntry.name f.name),
    some file.name, some l.messages.size⟩ with ⟨l₁, _ | _⟩
  · rfl
  · simp only [addMessage_behind, addField_behind]

theorem declareField_behind (past : List Report) (l : Linker) (file : FileScope) (owner : Nat)
    (scope : String) (rules : FieldRules) (f : FieldDecl) :
    (behind past l).declareField file owner scope rules f =
      behind past (l.declareField file owner scope rules f) := by
  unfold declareField
  cases rules.problem? f with
  | some p => exact report_behind ..
  | none =>
    simp only
    cases f.shape with
    | map key value position =>
      simp only [declareMapEntry_behind]
      rcases l.declareMapEntry file owner scope f key value position with ⟨l₁, _ | _⟩ <;> rfl
    | named => rfl
    | group => rfl

theorem declareFields_behind (past : List Report) (l : Linker) (file : FileScope) (owner : Nat)
    (scope : String) (rules : FieldRules) (fs : List FieldDecl) :
    (behind past l).declareFields file owner scope rules fs =
      behind past (l.declareFields file owner scope rules fs) := by
  induction fs generalizing l rules with
  | nil => rfl
  | cons f fs ih => rw [declareFields_cons, declareFields_cons, declareField_behind, ih]

mutual

theorem declareMessage_behind (past : List Report) (l : Linker) (file : FileScope)
    (scope : String) (parent : Option Nat) : (m : MessageDecl) →
    (behind past l).declareMessage file scope parent m =
      behind past (l.declareMessage file scope parent m)
  | ⟨name, fields, messages, enums, extendBlocks, oneofs, options, extensionRanges, reservedRanges,
      reservedNames, position⟩ => by
    have hplace : (behind past l).messages = l.messages := rfl
    rw [declareMessage.eq_def, declareMessage.eq_def]
    simp only [define_behind, hplace]
    rcases l.define file (some position) ⟨.message, Dotted.join scope name, some file.name,
      some l.messages.size⟩ with ⟨l₁, _ | _⟩
    · rfl
    · simp only [addMessage_behind]
      rw [foldl_behind fun l e => declareEnum_behind past l file _ _ e, declareMessages_behind,
        declareFields_behind, foldl_behind fun l e => declareExtend_behind past l file _ e]

theorem declareMessages_behind (past : List Report) (l : Linker) (file : FileScope)
    (scope : String) (parent : Option Nat) : (ms : List MessageDecl) →
    (behind past l).declareMessages file scope parent ms =
      behind past (l.declareMessages file scope parent ms)
  | [] => by rw [declareMessages, declareMessages]
  | m :: ms => by
    rw [declareMessages, declareMessages, declareMessage_behind, declareMessages_behind]

end

theorem declareMethod_behind (past : List Report) (l : Linker) (file : FileScope)
    (service : String) (m : MethodDecl) :
    (behind past l).declareMethod file service m =
      behind past (l.declareMethod file service m) := by
  have hplace : (behind past l).methods = l.methods := rfl
  simp only [declareMethod, define_behind, hplace]
  rcases l.define file (some m.position) ⟨.method, Dotted.join service m.name, some file.name,
    some l.methods.size⟩ with ⟨l₁, _ | _⟩ <;> rfl

theorem declareService_behind (past : List Report) (l : Linker) (file : FileScope)
    (s : ServiceDecl) :
    (behind past l).declareService file s = behind past (l.declareService file s) := by
  simp only [declareService, define_behind]
  rcases l.define file (some s.position) ⟨.service, Dotted.join file.package s.name,
    some file.name, none⟩ with ⟨l₁, _ | _⟩
  · rfl
  · exact foldl_behind (fun l m => declareMethod_behind past l file _ m) l₁ _

/-- A file is declared behind earlier notes as it is without them. -/
theorem declare_behind (past : List Report) (l : Linker) (f : SchemaFile) :
    (behind past l).declare f = behind past (l.declare f) := by
  simp only [declare]
  rw [addFile_behind, declarePackage_behind, declareMessages_behind,
    foldl_behind fun l e => declareEnum_behind past l _ _ _ e,
    foldl_behind fun l e => declareExtend_behind past l _ _ e,
    foldl_behind fun l s => declareService_behind past l _ s]

/-- Declaring adds notes to those that were there. -/
theorem declare_eq_behind (l : Linker) (f : SchemaFile) :
    l.declare f = behind l.reports (l.quiet.declare f) := by
  rw [← declare_behind, behind_quiet]

/-! ## Linking behind earlier notes -/

theorem meaning?_quiet (l : Linker) : l.quiet.meaning? = l.meaning? := by
  funext scope name file
  have hfiles : l.quiet.files = l.files := rfl
  have hdefinitions : l.quiet.definitions = l.definitions := rfl
  rw [meaning?, meaning?, visibleFrom_congr hfiles, lookup?_congr hdefinitions]

theorem linked_quiet (l : Linker) : l.quiet.linked = l.linked := by
  funext f
  simp only [linked, typeLink?, meaning?_quiet]

theorem methodRecord_quiet (l : Linker) : l.quiet.methodRecord = l.methodRecord := by
  funext m
  simp only [methodRecord, methodEnd?, meaning?_quiet]

theorem attachedTo_quiet (l : Linker) (members : List FieldEntry) (es : List ExtensionEntry) :
    l.quiet.attachedTo members es = l.attachedTo members es := by
  have howner (members : List FieldEntry) (e : ExtensionEntry) :
      l.quiet.extensionOwner? members e = l.extensionOwner? members e := by
    simp only [extensionOwner?, target?, meaning?_quiet]
    rfl
  induction es generalizing members with
  | nil => rfl
  | cons e es ih =>
    rw [attachedTo, attachedTo, howner]
    cases l.extensionOwner? members e with
    | none => exact ih members
    | some owner => exact congrArg _ (ih _)

theorem attached_quiet (l : Linker) : l.quiet.attached = l.attached :=
  attachedTo_quiet l l.inventory.fields l.inventory.extensions

theorem memberRecords_quiet (l : Linker) : l.quiet.memberRecords = l.memberRecords := by
  have henums : l.quiet.enums = l.enums := rfl
  simp only [memberRecords, attached_quiet, linked_quiet, fieldRecord_congr henums]
  rfl

theorem linkedTables_quiet (l : Linker) : l.quiet.linkedTables = l.linkedTables := by
  have hmessages : l.quiet.linkedMessage = l.linkedMessage := by
    funext i m
    simp only [linkedMessage, members, memberRecords_quiet, attached_quiet]
    rfl
  simp only [linkedTables, hmessages, memberRecords_quiet, methodRecord_quiet]
  rfl

/-- Without its notes, a linker links to the same tables or fails for the same reason. -/
theorem Coherent.link_quiet (hl : l.Coherent) : l.quiet.link.2 = l.link.2 := by
  obtain ⟨hstops, hends⟩ := hl.link_outcome
  have hquiet : l.quiet.Coherent := hl.withReports []
  obtain ⟨hquietStops, hquietEnds⟩ := hquiet.link_outcome
  have hmembers : l.quiet.members = l.members := congrArg (l.inventory.fields ++ ·) (attached_quiet l)
  rw [hmembers, linkedTables_quiet] at hquietEnds
  rw [hmembers] at hquietStops
  by_cases hbeyond : ∃ f ∈ l.members, f.BeyondDoubles
  · rw [hstops hbeyond, hquietStops hbeyond]
  · have hwithin : ∀ f ∈ l.members, ¬ f.BeyondDoubles := fun f hf hf' => hbeyond ⟨f, hf, hf'⟩
    rw [(hends hwithin).1, (hquietEnds hwithin).1]

end Linker

end ProtoSchema
