import ProtoSchema.Proofs.Linker.Clean
import ProtoSchema.Proofs.Linker.Notes

/-!
# Holders of names and numbers

A field is refused for a name or a number that another field of its message has taken. The other
field has been declared by then, or it is a map field whose entry message could not be declared
(`Held`). What holds a name or number goes on holding it, so all such refusals stay warranted while
further files are declared (`warranted_ofFiles`).
-/

namespace ProtoSchema

/-- Whether a report is that the name or number of a field or extension is taken. -/
def Report.isClash (r : Report) : Bool :=
  match r.problem with
  | .link (.fieldNameTaken ..) | .link (.fieldNumberTaken ..)
  | .link (.extensionNumberTaken ..) => true
  | _ => false

namespace Linker

variable {l l' l'' : Linker} {file : FileScope} {scope : String} {parent : Option Nat}

/-! ## Holders -/

/-- The message with a full name has a field of a name and number. -/
def HasField (l : Linker) (message name : String) (number : Nat) : Prop :=
  ∃ i m f, l.inventory.messages[i]? = some m ∧ m.fullName = message ∧ f ∈ l.inventory.fields ∧
    f.owner = some i ∧ f.decl.name = name ∧ f.decl.number = number

/-- A map field has been dropped from a message: the full name of its entry message was taken. -/
def MapFieldDropped (reports : List Report) (file : Text) (message name : String) : Prop :=
  ∃ r ∈ reports, r.file = file ∧
    ∃ owner, r.problem = .link (.alreadyDefined (Dotted.join message (MapEntry.name name)) owner)

/-- A name and number of a message are taken, by a field or by a map field that was dropped. -/
def Held (l : Linker) (file : Text) (message name : String) (number : Nat) : Prop :=
  l.HasField message name number ∨ MapFieldDropped l.reports file message name

/-- A report of declaring: if it is that a field has the name or number of another one, there is such
a field. Extensions are not compared before they are attached. -/
structure Warranted (l : Linker) (r : Report) : Prop where
  semantic : r.problem.kind = .semantic
  number : ∀ number message holder,
    r.problem = .link (.fieldNumberTaken number message holder) →
      l.Held r.file message holder number
  name : ∀ name message, r.problem = .link (.fieldNameTaken name message) →
    ∃ number, l.Held r.file message name number
  extension : ∀ number message holder,
    r.problem ≠ .link (.extensionNumberTaken number message holder)

/-- No message, field or report is taken back. -/
structure Extends (l l' : Linker) : Prop where
  messages : l.inventory.messages <+: l'.inventory.messages
  fields : l.inventory.fields <+: l'.inventory.fields
  reports : l.reports <+: l'.reports

/-- Nothing is taken back, and what is reported in addition is warranted. -/
structure Advances (l l' : Linker) : Prop extends Extends l l' where
  warranted : ∀ r ∈ l'.reports, r ∈ l.reports ∨ Warranted l' r

theorem getElem?_of_prefix {α : Type} {xs ys : List α} (h : xs <+: ys) {i : Nat} {x : α}
    (hx : xs[i]? = some x) : ys[i]? = some x := by
  obtain ⟨added, rfl⟩ := h
  rw [List.getElem?_append_left (List.getElem?_eq_some_iff.mp hx).1, hx]

theorem Held.mono {text : Text} {message name : String} {number : Nat}
    (h : l.Held text message name number) (hextends : Extends l l') :
    l'.Held text message name number := by
  rcases h with ⟨i, m, f, hm, hname, hf, hfield⟩ | ⟨r, hr, hdropped⟩
  · exact .inl ⟨i, m, f, getElem?_of_prefix hextends.messages hm, hname,
      hextends.fields.subset hf, hfield⟩
  · exact .inr ⟨r, hextends.reports.subset hr, hdropped⟩

theorem Warranted.mono {r : Report} (h : Warranted l r) (hextends : Extends l l') :
    Warranted l' r := by
  refine ⟨h.semantic, fun number message holder hproblem => ?_, fun name message hproblem => ?_,
    h.extension⟩
  · exact (h.number number message holder hproblem).mono hextends
  · obtain ⟨number, hheld⟩ := h.name name message hproblem
    exact ⟨number, hheld.mono hextends⟩

theorem encloses_extended (h : l.inventory.messages <+: l'.inventory.messages) {place : Nat}
    (hscope : l.inventory.Encloses file scope (some place)) :
    l'.inventory.Encloses file scope (some place) := by
  obtain ⟨m, hm, hm'⟩ := hscope
  exact ⟨m, getElem?_of_prefix h hm, hm'⟩

namespace Advances

theorem refl (l : Linker) : Advances l l :=
  ⟨⟨List.prefix_rfl, List.prefix_rfl, List.prefix_rfl⟩, fun _ hr => .inl hr⟩

theorem trans (h : Advances l l') (h' : Advances l' l'') : Advances l l'' := by
  refine ⟨⟨h.messages.trans h'.messages, h.fields.trans h'.fields,
    h.reports.trans h'.reports⟩, fun r hr => ?_⟩
  rcases h'.warranted r hr with hr | hr
  · exact (h.warranted r hr).imp_right fun hwarranted => hwarranted.mono h'.toExtends
  · exact .inr hr

theorem foldl {α : Type} {step : Linker → α → Linker} (h : ∀ l a, Advances l (step l a))
    (l : Linker) (xs : List α) : Advances l (xs.foldl step l) := by
  induction xs generalizing l with
  | nil => exact refl l
  | cons x xs ih => exact (h l x).trans (ih (step l x))

/-- Where nothing is reported, all is warranted. -/
theorem of_reports (hmessages : l.inventory.messages <+: l'.inventory.messages)
    (hfields : l.inventory.fields <+: l'.inventory.fields) (hreports : l'.reports = l.reports) :
    Advances l l' :=
  ⟨⟨hmessages, hfields, hreports ▸ List.prefix_rfl⟩, fun _ hr => .inl (hreports ▸ hr)⟩

/-- A report that is warranted may be added. -/
theorem report {p : LinkProblem} {position : Option Position}
    (h : Warranted l ⟨.link p, file.name, position⟩) : Advances l (l.report file position p) := by
  have hextends : Extends l (l.report file position p) :=
    ⟨List.prefix_rfl, List.prefix_rfl, List.prefix_append _ _⟩
  refine ⟨hextends, fun r hr => (List.mem_append.mp hr).imp_right fun hlast => ?_⟩
  obtain rfl := List.mem_singleton.mp hlast
  exact h.mono hextends

end Advances

/-- All reports of something else are warranted. -/
theorem warranted_of_not_isClash {r : Report} (hsemantic : r.problem.kind = .semantic)
    (h : r.isClash = false) : Warranted l r := by
  refine ⟨hsemantic, fun _ _ _ hproblem => ?_, fun _ _ hproblem => ?_, fun _ _ _ hproblem => ?_⟩ <;>
    simp [Report.isClash, hproblem] at h

theorem advances_alreadyDefined (l : Linker) (file : FileScope) (position : Option Position)
    (fullName : String) (owner : Option Text) :
    Advances l (l.report file position (.alreadyDefined fullName owner)) :=
  .report (warranted_of_not_isClash rfl rfl)

theorem advances_modifyParent (l : Linker) (parent : Option Nat) {f : MessageEntry → MessageEntry}
    (hf : ∀ m, (f m).header = m.header) : Advances l (l.modifyParent parent f) := by
  have hinventory := inventory_modifyParent l parent hf
  exact .of_reports (hinventory ▸ List.prefix_rfl) (hinventory ▸ List.prefix_rfl)
    (reports_modifyParent l parent f)

/-! ## Declarations under names that are taken -/

/-- A definition under a name that is taken is reported with that name. -/
theorem define_of_isSome (file : FileScope) (position : Option Position) {d : Definition}
    (htaken : (l.definition? d.fullName).isSome) (hkind : d.kind ≠ .package) :
    ∃ owner, l.define file position d =
      (l.report file position (.alreadyDefined d.fullName owner), false) := by
  obtain ⟨old, hold⟩ := Option.isSome_iff_exists.mp htaken
  simp only [define, hold, hkind, and_false, if_false]
  exact ⟨_, rfl⟩

/-- A package is opened, entered, or reported for its name. -/
theorem advances_declarePackage (l : Linker) (file : FileScope) :
    Advances l (l.declarePackage file) := by
  refine .foldl (fun l name => ?_) l _
  unfold define
  split
  · exact .of_reports List.prefix_rfl List.prefix_rfl rfl
  · split_ifs
    · exact .refl l
    · exact advances_alreadyDefined ..

/-- The problem of an enum value is not one of fields. -/
theorem warranted_of_enumProblem {e : EnumDecl} {fullName : String}
    {accepted : List EnumValueDecl} {v : EnumValueDecl} {p : LinkProblem}
    (h : e.problem? fullName accepted v = some p) (text : Text) (position : Option Position) :
    Warranted l ⟨.link p, text, position⟩ := by
  unfold EnumDecl.problem? at h
  split_ifs at h
  case neg =>
    obtain ⟨holder, -, rfl⟩ := Option.map_eq_some_iff.mp h
    exact warranted_of_not_isClash rfl rfl
  all_goals
    obtain rfl := Option.some.inj h
    exact warranted_of_not_isClash rfl rfl

theorem advances_acceptValues (l : Linker) (file : FileScope) (e : EnumDecl) (fullName : String)
    (accepted values : List EnumValueDecl) :
    Advances l (l.acceptValues file e fullName accepted values).1 := by
  induction values generalizing l accepted with
  | nil => exact .refl l
  | cons v vs ih =>
    rw [acceptValues]
    cases hproblem : e.problem? fullName accepted v with
    | none => exact ih l _
    | some p =>
      have hreport : Advances l (l.report file (some v.position) p) :=
        .report (warranted_of_enumProblem hproblem file.name (some v.position))
      exact hreport.trans (ih _ _)

theorem advances_declareEnum (l : Linker) (file : FileScope) (scope : String)
    (parent : Option Nat) (e : EnumDecl) : Advances l (l.declareEnum file scope parent e) := by
  let fullName := Dotted.join scope e.name
  let d : Definition := ⟨.enum, fullName, some file.name, some l.enums.size⟩
  cases hname : l.definition? fullName with
  | some old =>
    obtain ⟨owner, hd⟩ := define_of_isSome file (some e.position) (d := d)
      (Option.isSome_of_eq_some hname) (by simp [d])
    simp only [declareEnum, d, fullName] at hd ⊢
    rw [hd]
    exact advances_alreadyDefined ..
  | none =>
    have hd : l.define file (some e.position) d = (l.enter d, true) := define_of_free hname
    have hentered : Advances l (l.enter d) := .of_reports List.prefix_rfl List.prefix_rfl rfl
    have hvalues := advances_acceptValues (l.enter d) file e fullName [] e.values
    simp only [declareEnum, d, fullName] at hd hvalues hentered ⊢
    simp only [hd]
    refine hentered.trans (hvalues.trans ?_)
    generalize acceptValues _ file e (Dotted.join scope e.name) [] e.values = accepted
    have hempty : Advances accepted.1 (if accepted.2.isEmpty then
        accepted.1.report file (some e.position) (.emptyEnum (Dotted.join scope e.name))
        else accepted.1) := by
      split_ifs
      · exact .report (warranted_of_not_isClash rfl rfl)
      · exact .refl _
    refine hempty.trans (Advances.trans ?_ (advances_modifyParent _ parent fun _ => rfl))
    exact .of_reports List.prefix_rfl List.prefix_rfl rfl

/-! ## Fields -/

/-- A name or number that is taken is one of those that the rules know. -/
theorem warranted_of_problem {rules : FieldRules} {f : FieldDecl} {p : LinkProblem}
    (h : rules.problem? f = some p)
    (hheld : ∀ x ∈ rules.taken, l.Held file.name rules.message x.2 x.1)
    (position : Option Position) : Warranted l ⟨.link p, file.name, position⟩ := by
  unfold FieldRules.problem? at h
  split_ifs at h with _ _ _ _ htaken
  on_goal 4 =>
    obtain ⟨x, hx, hname⟩ := List.any_eq_true.mp htaken
    obtain rfl := Option.some.inj h
    refine ⟨rfl, by simp, fun name message hproblem => ?_, by simp⟩
    cases hproblem
    exact ⟨x.1, of_decide_eq_true hname ▸ hheld x hx⟩
  on_goal 4 =>
    obtain ⟨x, hx, rfl⟩ := Option.map_eq_some_iff.mp h
    refine ⟨rfl, fun number message holder hproblem => ?_, by simp, by simp⟩
    cases hproblem
    have hnumber : x.1 = f.number := by simpa using List.find?_some hx
    exact hnumber ▸ hheld x (List.mem_of_find?_eq_some hx)
  all_goals
    obtain rfl := Option.some.inj h
    exact warranted_of_not_isClash rfl rfl

theorem reports_enterMessage (l : Linker) (file : FileScope) (scope : String)
    (parent : Option Nat) (name : String) (isMapEntry : Bool)
    (extensionRanges : List NumberRange) :
    (l.enterMessage file scope parent name isMapEntry extensionRanges).reports = l.reports := by
  rw [enterMessage, addMessage, reports_modifyParent]
  rfl

theorem advances_enterMessage (l : Linker) (file : FileScope) (scope : String)
    (parent : Option Nat) (name : String) (isMapEntry : Bool)
    (extensionRanges : List NumberRange) :
    Advances l (l.enterMessage file scope parent name isMapEntry extensionRanges) := by
  refine .of_reports ?_ ?_ (reports_enterMessage ..) <;> simp

theorem advances_addField (l : Linker) (file : FileScope) (owner : Nat) (scope : String)
    (f : FieldDecl) : Advances l (l.addField file owner scope f) := by
  refine .of_reports ?_ ?_ rfl <;> simp

/-- A field that has been added holds its name and number. -/
theorem held_addField {owner : Nat} (h : l.inventory.Encloses file scope (some owner))
    (f : FieldDecl) (text : Text) :
    (l.addField file owner scope f).Held text scope f.name f.number := by
  obtain ⟨m, hm, hname, -⟩ := h
  refine .inl ⟨owner, m, ⟨f, Dotted.join scope f.name, scope, file, some owner, .unresolved⟩, ?_,
    hname, ?_, rfl, rfl, rfl⟩
  · simpa using hm
  · simp

/-- The entry message of a map field is declared, or the field is dropped. -/
theorem advances_declareMapEntry (l : Linker) (file : FileScope) (owner : Nat) (scope : String)
    (f : FieldDecl) (key value : String) (position : Position) :
    let result := l.declareMapEntry file owner scope f key value position
    Advances l result.1 ∧
      (result.2 = false → MapFieldDropped result.1.reports file.name scope f.name) := by
  intro result
  rcases declareMapEntry_cases l file owner scope f key value position with
    ⟨-, heq⟩ | ⟨htaken, -⟩
  · simp only [result, heq]
    exact ⟨(advances_enterMessage ..).trans ((advances_addField ..).trans (advances_addField ..)),
      by simp⟩
  · let fullName := Dotted.join scope (MapEntry.name f.name)
    let d : Definition := ⟨.message, fullName, some file.name, some l.messages.size⟩
    obtain ⟨holder, hd⟩ := define_of_isSome file (some f.position) (d := d) htaken (by simp [d])
    have hresult : result =
        (l.report file (some f.position) (.alreadyDefined fullName holder), false) := by
      simp only [result, declareMapEntry, d, fullName] at hd ⊢
      rw [hd]
    rw [hresult]
    refine ⟨advances_alreadyDefined .., fun _ => ?_⟩
    exact ⟨⟨.link (.alreadyDefined fullName holder), file.name, some f.position⟩,
      List.mem_append_right _ (List.mem_singleton_self _), rfl, holder, rfl⟩

/-- While the fields of a message are declared, all names and numbers that its rules know are held. -/
theorem advances_declareFields {owner : Nat} {rules : FieldRules} (hmessage : rules.message = scope)
    (hscope : l.inventory.Encloses file scope (some owner))
    (hheld : ∀ x ∈ rules.taken, l.Held file.name scope x.2 x.1) (fs : List FieldDecl) :
    Advances l (l.declareFields file owner scope rules fs) := by
  induction fs generalizing l rules with
  | nil => exact .refl l
  | cons f fs ih =>
    have hstep {l' : Linker} (hl : Advances l l')
        (hf : l'.Held file.name scope f.name f.number) :
        Advances l (l'.declareFields file owner scope (rules.take f) fs) := by
      refine hl.trans (ih hmessage (encloses_extended hl.messages hscope) ?_)
      refine List.forall_mem_append.mpr ⟨fun x hx => (hheld x hx).mono hl.toExtends, ?_⟩
      simpa using hf
    have hplain : Advances l ((l.addField file owner scope f).declareFields file owner scope
        (rules.take f) fs) :=
      hstep (advances_addField l file owner scope f) (held_addField hscope f file.name)
    rw [declareFields.eq_def]
    simp only
    cases hproblem : rules.problem? f with
    | some p =>
      have hreport : Advances l (l.report file (some f.position) p) :=
        .report (warranted_of_problem hproblem (hmessage ▸ hheld) (some f.position))
      exact hreport.trans (ih hmessage (encloses_extended hreport.messages hscope)
        fun x hx => (hheld x hx).mono hreport.toExtends)
    | none =>
      cases hshape : f.shape with
      | named | group => exact hplain
      | map key value position =>
        obtain ⟨hentry, hdropped⟩ :=
          advances_declareMapEntry l file owner scope f key value position
        simp only
        rcases hresult : l.declareMapEntry file owner scope f key value position with
          ⟨l', done⟩
        rw [hresult] at hentry hdropped
        cases done with
        | true =>
          have hfield := advances_addField l' file owner scope (mapField f)
          exact hstep (hentry.trans hfield) (held_addField (f := mapField f)
            (encloses_extended hentry.messages hscope) file.name)
        | false => exact hstep hentry (.inr (hdropped rfl))

/-! ## Messages, services and files -/

theorem advances_declareExtends (l : Linker) (file : FileScope) (scope : String)
    (blocks : List ExtendDecl) :
    Advances l (blocks.foldl (fun l e => l.declareExtend file scope e) l) := by
  have hextend (l : Linker) (e : ExtendDecl) : Advances l (l.declareExtend file scope e) := by
    refine .of_reports ?_ ?_ rfl <;> simp
  exact .foldl hextend l blocks

mutual

theorem advances_declareMessage (l : Linker) (file : FileScope) (scope : String)
    (parent : Option Nat) :
    (m : MessageDecl) → Advances l (l.declareMessage file scope parent m)
  | ⟨name, fields, messages, enums, extendBlocks, oneofs, options, extensionRanges,
      reservedRanges, reservedNames, position⟩ => by
    let fullName := Dotted.join scope name
    rcases declareMessage_cases l file scope parent ⟨name, fields, messages, enums, extendBlocks,
      oneofs, options, extensionRanges, reservedRanges, reservedNames, position⟩ with
      ⟨-, heq⟩ | ⟨htaken, -⟩
    · rw [heq]
      have hentered := advances_enterMessage l file scope parent name false extensionRanges
      have hinside := encloses_enterMessage l file scope parent name false extensionRanges
      have henums := Advances.foldl (fun l' e => advances_declareEnum l' file fullName
        (some l.messages.size) e) (l.enterMessage file scope parent name false extensionRanges) enums
      have hmessages := advances_declareMessages (enums.foldl (fun l' e => l'.declareEnum file
        fullName (some l.messages.size) e) (l.enterMessage file scope parent name false
          extensionRanges)) file fullName (some l.messages.size) messages
      let rules : FieldRules := ⟨fullName, reservedRanges, reservedNames, []⟩
      have hmessage : rules.message = fullName := rfl
      have hfields := advances_declareFields hmessage
        (encloses_extended (henums.trans hmessages).messages hinside) (by simp [rules]) fields
      exact ((hentered.trans (henums.trans hmessages)).trans hfields).trans
        (advances_declareExtends _ file fullName extendBlocks)
    · let d : Definition := ⟨.message, fullName, some file.name, some l.messages.size⟩
      obtain ⟨owner, hd⟩ := define_of_isSome file (some position) (d := d) htaken (by simp [d])
      rw [declareMessage.eq_def]
      simp only [d, fullName] at hd ⊢
      rw [hd]
      exact advances_alreadyDefined ..

theorem advances_declareMessages (l : Linker) (file : FileScope) (scope : String)
    (parent : Option Nat) :
    (ms : List MessageDecl) → Advances l (l.declareMessages file scope parent ms)
  | [] => by
    rw [declareMessages]
    exact .refl l
  | m :: ms => by
    rw [declareMessages]
    exact (advances_declareMessage l file scope parent m).trans
      (advances_declareMessages _ file scope parent ms)

end

theorem advances_declareMethod (l : Linker) (file : FileScope) (service : String)
    (m : MethodDecl) : Advances l (l.declareMethod file service m) := by
  rcases declareMethod_cases l file service m with ⟨-, heq⟩ | ⟨htaken, -⟩
  · rw [heq]
    refine .of_reports ?_ ?_ rfl <;> simp
  · let d : Definition :=
      ⟨.method, Dotted.join service m.name, some file.name, some l.methods.size⟩
    obtain ⟨owner, hd⟩ := define_of_isSome file (some m.position) (d := d) htaken (by simp [d])
    simp only [declareMethod, d] at hd ⊢
    rw [hd]
    exact advances_alreadyDefined ..

theorem advances_declareService (l : Linker) (file : FileScope) (s : ServiceDecl) :
    Advances l (l.declareService file s) := by
  rcases declareService_cases l file s with ⟨-, heq⟩ | ⟨htaken, -⟩
  · rw [heq]
    have hentered : Advances l
        (l.enter ⟨.service, Dotted.join file.package s.name, some file.name, none⟩) :=
      .of_reports List.prefix_rfl List.prefix_rfl rfl
    exact hentered.trans (.foldl (fun l m => advances_declareMethod l file _ m) _ _)
  · let d : Definition := ⟨.service, Dotted.join file.package s.name, some file.name, none⟩
    obtain ⟨owner, hd⟩ := define_of_isSome file (some s.position) (d := d) htaken (by simp [d])
    simp only [declareService, d] at hd ⊢
    rw [hd]
    exact advances_alreadyDefined ..

theorem advances_declare (l : Linker) (f : SchemaFile) : Advances l (l.declare f) := by
  have hfile : Advances l (l.addFile f.scope) := .of_reports List.prefix_rfl List.prefix_rfl rfl
  refine hfile.trans ((advances_declarePackage _ f.scope).trans ?_)
  refine (advances_declareMessages _ f.scope f.scope.package none f.messages).trans ?_
  refine (Advances.foldl (fun l e => advances_declareEnum l f.scope f.scope.package none e) _
    f.enums).trans ?_
  refine (advances_declareExtends _ f.scope f.scope.package f.extendBlocks).trans ?_
  exact .foldl (fun l s => advances_declareService l f.scope s) _ f.services

/-- Whatever files are declared: a name or number is refused as taken only if a field of the message
has it, or a map field that was dropped. -/
theorem warranted_ofFiles (files : List SchemaFile) {r : Report}
    (hr : r ∈ (ofFiles files).reports) : Warranted (ofFiles files) r := by
  have hadvances : Advances empty (ofFiles files) := .foldl advances_declare empty files
  exact (hadvances.warranted r hr).resolve_left (by simp [empty])

end Linker

end ProtoSchema
