import ProtoSchema.Proofs.Linker.Notes

/-!
# Declarations that are dropped

A declaration is dropped when nothing comes of it but a report. `Drops` takes a list of files apart
at a declaration that is dropped, at any depth, and puts it together again without that. Up to its
notes a linker does not tell the one list from the other (`Drops.quiet_eq`): what is dropped changes
nothing, and all that comes behind it depends on what has been declared alone.

There is one exception. A map field whose entry message cannot be declared is dropped as well, but it
has taken its name and number by then. It is without effect only as long as no field behind it has
either.
-/

namespace ProtoSchema

/-- The rules for the fields behind one, which takes its name and number if it breaks no rule. -/
def FieldRules.next (rules : FieldRules) (f : FieldDecl) : FieldRules :=
  if (rules.problem? f).isSome then rules else rules.take f

namespace Linker

variable {l l' : Linker} {file : FileScope} {scope : String} {parent : Option Nat}

/-! ## Lists of declarations -/

/-- Among some declarations one is dropped, or changes because something inside it is: `here` tells
what stays of it. The others come before or behind it. -/
inductive DropsFrom {α : Type} (step : Linker → α → Linker) (here : Linker → α → Option α → Prop) :
    Linker → List α → List α → Prop
  | here {l : Linker} {x : α} {rest : Option α} (xs : List α) (h : here l x rest) :
    DropsFrom step here l (x :: xs) (rest.toList ++ xs)
  | later {l : Linker} (x : α) {xs xs' : List α} (h : DropsFrom step here (step l x) xs xs') :
    DropsFrom step here l (x :: xs) (x :: xs')

/-- What is done to a linker does not depend on its notes. -/
def IgnoresNotes (step : Linker → Linker) : Prop :=
  ∀ past l, step (behind past l) = behind past (step l)

theorem IgnoresNotes.quiet_congr {step : Linker → Linker} (h : IgnoresNotes step)
    (hl : l.quiet = l'.quiet) : (step l).quiet = (step l').quiet := by
  rw [← behind_quiet l, ← behind_quiet l', h, h, quiet_behind, quiet_behind, hl]

/-- If a linker does not tell a dropped declaration from what stays of it, it does not tell the lists
apart. -/
theorem DropsFrom.quiet_eq {α : Type} {step : Linker → α → Linker}
    {here : Linker → α → Option α → Prop} (hstep : ∀ x, IgnoresNotes (step · x))
    (hhere : ∀ {l x rest}, here l x rest → (rest.toList.foldl step l).quiet = (step l x).quiet)
    {xs xs' : List α} (h : DropsFrom step here l xs xs') :
    (xs'.foldl step l).quiet = (xs.foldl step l).quiet := by
  induction h with
  | here xs h =>
    have hrest : IgnoresNotes (xs.foldl step ·) :=
      fun past l => foldl_behind (fun l x => hstep x past l) l xs
    rw [List.foldl_append, List.foldl_cons]
    exact hrest.quiet_congr (hhere h)
  | later x h ih => exact ih

/-! ## Enums, services and fields -/

/-- An enum is dropped, or kept without one of its values that breaks a rule. -/
inductive DropsEnum (file : FileScope) (scope : String) (parent : Option Nat) :
    Linker → EnumDecl → Option EnumDecl → Prop
  | whole {l : Linker} {e : EnumDecl} {p : LinkProblem}
    (h : l.declareEnum file scope parent e = l.report file (some e.position) p) :
    DropsEnum file scope parent l e none
  | value {l : Linker} {e : EnumDecl} {before behind : List EnumValueDecl} {v : EnumValueDecl}
    (hkept : l.definition? (Dotted.join scope e.name) = none)
    (hvalues : e.values = before ++ v :: behind)
    (h : (e.problem? (Dotted.join scope e.name)
      (e.accepted (Dotted.join scope e.name) [] before) v).isSome) :
    DropsEnum file scope parent l e (some { e with values := before ++ behind })

/-- A method is dropped. -/
inductive DropsMethod (file : FileScope) (service : String) :
    Linker → MethodDecl → Option MethodDecl → Prop
  | whole {l : Linker} {m : MethodDecl} {p : LinkProblem}
    (h : l.declareMethod file service m = l.report file (some m.position) p) :
    DropsMethod file service l m none

/-- A service is dropped, or kept without one of its methods that is. -/
inductive DropsService (file : FileScope) : Linker → ServiceDecl → Option ServiceDecl → Prop
  | whole {l : Linker} {s : ServiceDecl} {p : LinkProblem}
    (h : l.declareService file s = l.report file (some s.position) p) :
    DropsService file l s none
  | method {l : Linker} {s : ServiceDecl} {methods : List MethodDecl}
    (hkept : l.definition? (Dotted.join file.package s.name) = none)
    (h : DropsFrom (fun l m => l.declareMethod file (Dotted.join file.package s.name) m)
      (DropsMethod file (Dotted.join file.package s.name))
      (l.enter ⟨.service, Dotted.join file.package s.name, some file.name, none⟩) s.methods
      methods) :
    DropsService file l s (some { s with methods })

/-- A field of a message is dropped: it breaks a rule, or it is a map field whose entry message cannot
be declared, and no field behind it has its name or number. -/
inductive DropsField (file : FileScope) (owner : Nat) (scope : String) :
    Linker → FieldRules → List FieldDecl → List FieldDecl → Prop
  | broken {l : Linker} {rules : FieldRules} {f : FieldDecl} (fs : List FieldDecl)
    (h : (rules.problem? f).isSome) : DropsField file owner scope l rules (f :: fs) fs
  | mapField {l : Linker} {rules : FieldRules} {f : FieldDecl} {fs : List FieldDecl}
    {p : LinkProblem} (hkept : rules.problem? f = none)
    (h : l.declareField file owner scope rules f = l.report file (some f.position) p)
    (hunused : ∀ g ∈ fs, g.name ≠ f.name ∧ g.number ≠ f.number) :
    DropsField file owner scope l rules (f :: fs) fs
  | later {l : Linker} {rules : FieldRules} (f : FieldDecl) {fs fs' : List FieldDecl}
    (h : DropsField file owner scope (l.declareField file owner scope rules f) (rules.next f) fs
      fs') : DropsField file owner scope l rules (f :: fs) (f :: fs')

/-! ## Messages and files -/

/-- The linker behind the enums of a message. -/
def behindEnums (l : Linker) (file : FileScope) (fullName : String) (place : Nat)
    (m : MessageDecl) : Linker :=
  m.enums.foldl (fun l e => l.declareEnum file fullName (some place) e) l

/-- The linker behind the enums of a message and the messages nested in it. -/
def behindMessages (l : Linker) (file : FileScope) (fullName : String) (place : Nat)
    (m : MessageDecl) : Linker :=
  (l.behindEnums file fullName place m).declareMessages file fullName (some place) m.messages

/-- The rules for the first field of a message. -/
def fieldRules (fullName : String) (m : MessageDecl) : FieldRules :=
  ⟨fullName, m.reservedRanges, m.reservedNames, []⟩

mutual

/-- Inside a message, whose place has been entered, something is dropped: an enum or a value of one, a
message nested in it or something inside that, or a field. -/
inductive DropsInside (file : FileScope) :
    Linker → String → Nat → MessageDecl → MessageDecl → Prop
  | enum {l : Linker} {fullName : String} {place : Nat} {m : MessageDecl} {enums : List EnumDecl}
    (h : DropsFrom (fun l e => l.declareEnum file fullName (some place) e)
      (DropsEnum file fullName (some place)) l m.enums enums) :
    DropsInside file l fullName place m { m with enums }
  | message {l : Linker} {fullName : String} {place : Nat} {m : MessageDecl}
    {messages : List MessageDecl}
    (h : DropsMessage file (l.behindEnums file fullName place m) fullName (some place) m.messages
      messages) : DropsInside file l fullName place m { m with messages }
  | field {l : Linker} {fullName : String} {place : Nat} {m : MessageDecl}
    {fields : List FieldDecl}
    (h : DropsField file place fullName (l.behindMessages file fullName place m)
      (fieldRules fullName m) m.fields fields) :
    DropsInside file l fullName place m { m with fields }

/-- Among some messages one is dropped, or kept without something inside it that is. -/
inductive DropsMessage (file : FileScope) :
    Linker → String → Option Nat → List MessageDecl → List MessageDecl → Prop
  | whole {l : Linker} {scope : String} {parent : Option Nat} {m : MessageDecl} {p : LinkProblem}
    (ms : List MessageDecl)
    (h : l.declareMessage file scope parent m = l.report file (some m.position) p) :
    DropsMessage file l scope parent (m :: ms) ms
  | inside {l : Linker} {scope : String} {parent : Option Nat} {m m' : MessageDecl}
    (ms : List MessageDecl) (hkept : l.definition? (Dotted.join scope m.name) = none)
    (h : DropsInside file (l.enterMessage file scope parent m.name false m.extensionRanges)
      (Dotted.join scope m.name) l.messages.size m m') :
    DropsMessage file l scope parent (m :: ms) (m' :: ms)
  | later {l : Linker} {scope : String} {parent : Option Nat} (m : MessageDecl)
    {ms ms' : List MessageDecl}
    (h : DropsMessage file (l.declareMessage file scope parent m) scope parent ms ms') :
    DropsMessage file l scope parent (m :: ms) (m :: ms')

end

/-- The linker behind the packages and messages of a file. -/
def behindTopMessages (l : Linker) (f : SchemaFile) : Linker :=
  ((l.addFile f.scope).declarePackage f.scope).declareMessages f.scope f.scope.package none
    f.messages

/-- The linker behind everything in a file but its services. -/
def behindExtends (l : Linker) (f : SchemaFile) : Linker :=
  f.extendBlocks.foldl (fun l e => l.declareExtend f.scope f.scope.package e)
    (f.enums.foldl (fun l e => l.declareEnum f.scope f.scope.package none e)
      (l.behindTopMessages f))

/-- Something in a file is dropped: a message, an enum, a service, or something inside one. -/
inductive DropsInFile : Linker → SchemaFile → Option SchemaFile → Prop
  | message {l : Linker} {f : SchemaFile} {messages : List MessageDecl}
    (h : DropsMessage f.scope ((l.addFile f.scope).declarePackage f.scope) f.scope.package none
      f.messages messages) : DropsInFile l f (some { f with messages })
  | enum {l : Linker} {f : SchemaFile} {enums : List EnumDecl}
    (h : DropsFrom (fun l e => l.declareEnum f.scope f.scope.package none e)
      (DropsEnum f.scope f.scope.package none) (l.behindTopMessages f) f.enums enums) :
    DropsInFile l f (some { f with enums })
  | service {l : Linker} {f : SchemaFile} {services : List ServiceDecl}
    (h : DropsFrom (fun l s => l.declareService f.scope s) (DropsService f.scope)
      (l.behindExtends f) f.services services) : DropsInFile l f (some { f with services })

/-- While some files are declared in turn, one declaration in them is dropped, and the other files are
those without it. -/
def Drops (files files' : List SchemaFile) : Prop :=
  DropsFrom declare DropsInFile empty files files'

/-! ## What is dropped changes nothing -/

/-- Values that come in two parts are accepted part by part. -/
theorem accepted_append (e : EnumDecl) (fullName : String)
    (accepted before values : List EnumValueDecl) :
    e.accepted fullName accepted (before ++ values) =
      e.accepted fullName (e.accepted fullName accepted before) values := by
  induction before generalizing accepted with
  | nil => rfl
  | cons v vs ih =>
    rw [List.cons_append, EnumDecl.accepted, EnumDecl.accepted]
    cases e.problem? fullName accepted v with
    | none => exact ih _
    | some p => exact ih _

/-- The rules of an enum do not depend on the values that it declares. -/
theorem accepted_withValues (e : EnumDecl) (declared : List EnumValueDecl) (fullName : String)
    (accepted values : List EnumValueDecl) :
    EnumDecl.accepted { e with values := declared } fullName accepted values =
      e.accepted fullName accepted values := by
  induction values generalizing accepted with
  | nil => rfl
  | cons v vs ih =>
    have hproblem : EnumDecl.problem? { e with values := declared } fullName accepted v =
        e.problem? fullName accepted v := rfl
    rw [EnumDecl.accepted, EnumDecl.accepted, hproblem]
    cases e.problem? fullName accepted v with
    | none => exact ih _
    | some p => exact ih _

/-- An enum that is kept looks the same without a value that breaks a rule. -/
theorem DropsEnum.quiet_eq {e : EnumDecl} {rest : Option EnumDecl}
    (h : DropsEnum file scope parent l e rest) :
    (rest.toList.foldl (fun l e => l.declareEnum file scope parent e) l).quiet =
      (l.declareEnum file scope parent e).quiet := by
  cases h with
  | whole h =>
    rw [h]
    rfl
  | @value before behind v hkept hvalues h =>
    let fullName := Dotted.join scope e.name
    let e' : EnumDecl := { e with values := before ++ behind }
    obtain ⟨p, hp⟩ := Option.isSome_iff_exists.mp h
    have haccepted : e'.accepted fullName [] e'.values = e.accepted fullName [] e.values := by
      rw [accepted_withValues, hvalues, accepted_append, accepted_append e fullName [] before,
        EnumDecl.accepted, hp]
    have hentered : (l.enterEnum file scope parent e').quiet =
        (l.enterEnum file scope parent e).quiet := by
      simp only [enterEnum]
      rw [haccepted]
    have hnotes (rs : List Report) (e : EnumDecl) :
        ((l.noteAll rs).enterEnum file scope parent e).quiet =
          (l.enterEnum file scope parent e).quiet := by
      cases parent <;> rfl
    obtain ⟨rs, -, heq⟩ := declareEnum_of_free file parent e hkept
    obtain ⟨rs', -, heq'⟩ := declareEnum_of_free file parent e' hkept
    rw [Option.toList_some, List.foldl_cons, List.foldl_nil, heq, heq', hnotes, hnotes, hentered]

theorem DropsMethod.quiet_eq {service : String} {m : MethodDecl} {rest : Option MethodDecl}
    (h : DropsMethod file service l m rest) :
    (rest.toList.foldl (fun l m => l.declareMethod file service m) l).quiet =
      (l.declareMethod file service m).quiet := by
  obtain ⟨h⟩ := h
  rw [h]
  rfl

theorem DropsService.quiet_eq {s : ServiceDecl} {rest : Option ServiceDecl}
    (h : DropsService file l s rest) :
    (rest.toList.foldl (fun l s => l.declareService file s) l).quiet =
      (l.declareService file s).quiet := by
  cases h with
  | whole h =>
    rw [h]
    rfl
  | @method methods hkept h =>
    have hdeclared (s' : ServiceDecl) (hname : s'.name = s.name) : l.declareService file s' =
        s'.methods.foldl (fun l m => l.declareMethod file (Dotted.join file.package s.name) m)
          (l.enter ⟨.service, Dotted.join file.package s.name, some file.name, none⟩) := by
      rcases declareService_cases l file s' with ⟨-, heq⟩ | ⟨htaken, -⟩
      · rw [heq, hname]
      · rw [hname, hkept] at htaken
        cases htaken
    rw [Option.toList_some, List.foldl_cons, List.foldl_nil, hdeclared s rfl,
      hdeclared { s with methods } rfl]
    exact h.quiet_eq (fun m past l => declareMethod_behind past l file _ m) DropsMethod.quiet_eq

/-- A name and number that no field has stand in no field's way. -/
theorem problem?_unused (rules : FieldRules) (before behind : List (Nat × String))
    {x : Nat × String} {f : FieldDecl} (hname : f.name ≠ x.2) (hnumber : f.number ≠ x.1) :
    FieldRules.problem? { rules with taken := before ++ x :: behind } f =
      FieldRules.problem? { rules with taken := before ++ behind } f := by
  have hany : (before ++ x :: behind).any (·.2 = f.name) = (before ++ behind).any (·.2 = f.name) := by
    simp [List.any_append, hname.symm]
  have hfind : (before ++ x :: behind).find? (·.1 = f.number) =
      (before ++ behind).find? (·.1 = f.number) := by
    simp [List.find?_append, hnumber.symm]
  rw [FieldRules.problem?, FieldRules.problem?]
  simp only [hany, hfind]

theorem declareFields_unused (l : Linker) (file : FileScope) (owner : Nat) (scope : String)
    (rules : FieldRules) (before behind : List (Nat × String)) {x : Nat × String}
    {fs : List FieldDecl} (h : ∀ f ∈ fs, f.name ≠ x.2 ∧ f.number ≠ x.1) :
    l.declareFields file owner scope { rules with taken := before ++ x :: behind } fs =
      l.declareFields file owner scope { rules with taken := before ++ behind } fs := by
  induction fs generalizing l behind with
  | nil => rfl
  | cons f fs ih =>
    have hrest : ∀ g ∈ fs, g.name ≠ x.2 ∧ g.number ≠ x.1 := fun g hg => h g (by simp [hg])
    obtain ⟨hname, hnumber⟩ := h f (by simp)
    have hfield := problem?_unused rules before behind hname hnumber
    rw [declareFields_cons, declareFields_cons]
    simp only [declareField, hfield]
    cases hproblem : FieldRules.problem? { rules with taken := before ++ behind } f with
    | some p => exact ih _ _ hrest
    | none =>
      simp only [FieldRules.take, List.append_assoc, List.cons_append]
      exact ih _ _ hrest

theorem ignoresNotes_declareFields (file : FileScope) (owner : Nat) (scope : String)
    (rules : FieldRules) (fs : List FieldDecl) :
    IgnoresNotes fun l => l.declareFields file owner scope rules fs :=
  fun past l => declareFields_behind past l file owner scope rules fs

theorem DropsField.quiet_eq {owner : Nat} {rules : FieldRules} {fs fs' : List FieldDecl}
    (h : DropsField file owner scope l rules fs fs') :
    (l.declareFields file owner scope rules fs').quiet =
      (l.declareFields file owner scope rules fs).quiet := by
  induction h with
  | @broken l rules f fs h =>
    obtain ⟨p, hp⟩ := Option.isSome_iff_exists.mp h
    rw [declareFields_cons, declareField, hp]
    exact (ignoresNotes_declareFields file owner scope rules fs).quiet_congr rfl
  | @mapField l rules f fs p hkept h hunused =>
    -- what the field has taken is in nobody's way
    have htaken : (l.report file (some f.position) p).declareFields file owner scope
        (rules.take f) fs = (l.report file (some f.position) p).declareFields file owner scope
          { rules with taken := rules.taken ++ [] } fs :=
      declareFields_unused _ file owner scope rules rules.taken [] hunused
    rw [declareFields_cons, h, hkept]
    simp only [Option.isSome_none, Bool.false_eq_true, if_false, htaken, List.append_nil]
    exact (ignoresNotes_declareFields file owner scope rules fs).quiet_congr rfl
  | later f h ih =>
    rw [declareFields_cons, declareFields_cons]
    exact ih

theorem ignoresNotes_foldl {α : Type} {step : Linker → α → Linker}
    (h : ∀ x, IgnoresNotes (step · x)) (xs : List α) :
    IgnoresNotes fun l => xs.foldl step l :=
  fun past l => foldl_behind (fun l x => h x past l) l xs

theorem ignoresNotes_declareMessages (file : FileScope) (scope : String) (parent : Option Nat)
    (ms : List MessageDecl) : IgnoresNotes fun l => l.declareMessages file scope parent ms :=
  fun past l => declareMessages_behind past l file scope parent ms

theorem ignoresNotes_declareEnum (file : FileScope) (scope : String) (parent : Option Nat)
    (e : EnumDecl) : IgnoresNotes fun l => l.declareEnum file scope parent e :=
  fun past l => declareEnum_behind past l file scope parent e

theorem ignoresNotes_declareExtend (file : FileScope) (scope : String) (e : ExtendDecl) :
    IgnoresNotes fun l => l.declareExtend file scope e :=
  fun past l => declareExtend_behind past l file scope e

theorem ignoresNotes_declareService (file : FileScope) (s : ServiceDecl) :
    IgnoresNotes fun l => l.declareService file s :=
  fun past l => declareService_behind past l file s

/-- A message whose name is free is kept. -/
theorem declareMessage_of_free (file : FileScope) (parent : Option Nat) {m : MessageDecl}
    (h : l.definition? (Dotted.join scope m.name) = none) :
    l.declareMessage file scope parent m =
      (l.enterMessage file scope parent m.name false m.extensionRanges).declareBody file
        (Dotted.join scope m.name) l.messages.size m := by
  rcases declareMessage_cases l file scope parent m with ⟨-, heq⟩ | ⟨htaken, -⟩
  · exact heq
  · rw [h] at htaken
    cases htaken

theorem DropsInside.name_eq {fullName : String} {place : Nat} {m m' : MessageDecl}
    (h : DropsInside file l fullName place m m') : m'.name = m.name := by
  cases h <;> rfl

theorem DropsInside.extensionRanges_eq {fullName : String} {place : Nat} {m m' : MessageDecl}
    (h : DropsInside file l fullName place m m') : m'.extensionRanges = m.extensionRanges := by
  cases h <;> rfl

mutual

/-- A message that is kept looks the same without what is dropped inside it. -/
theorem DropsInside.quiet_eq {file : FileScope} {l : Linker} {fullName : String} {place : Nat}
    {m m' : MessageDecl} : DropsInside file l fullName place m m' →
      (l.declareBody file fullName place m').quiet = (l.declareBody file fullName place m).quiet
  | .enum h => by
    have hextends := ignoresNotes_foldl (ignoresNotes_declareExtend file fullName) m.extendBlocks
    have hfields := ignoresNotes_declareFields file place fullName (fieldRules fullName m) m.fields
    have hmessages := ignoresNotes_declareMessages file fullName (some place) m.messages
    exact hextends.quiet_congr (hfields.quiet_congr (hmessages.quiet_congr
      (h.quiet_eq (ignoresNotes_declareEnum file fullName (some place)) DropsEnum.quiet_eq)))
  | .message h => by
    have hextends := ignoresNotes_foldl (ignoresNotes_declareExtend file fullName) m.extendBlocks
    have hfields := ignoresNotes_declareFields file place fullName (fieldRules fullName m) m.fields
    exact hextends.quiet_congr (hfields.quiet_congr h.quiet_eq)
  | .field h => by
    have hextends := ignoresNotes_foldl (ignoresNotes_declareExtend file fullName) m.extendBlocks
    exact hextends.quiet_congr h.quiet_eq

/-- Messages look the same without what is dropped among and inside them. -/
theorem DropsMessage.quiet_eq {file : FileScope} {l : Linker} {scope : String}
    {parent : Option Nat} {ms ms' : List MessageDecl} : DropsMessage file l scope parent ms ms' →
      (l.declareMessages file scope parent ms').quiet =
        (l.declareMessages file scope parent ms).quiet
  | .whole ms h => by
    rw [declareMessages, h]
    exact (ignoresNotes_declareMessages file scope parent ms).quiet_congr rfl
  | .inside ms hkept h => by
    have hkept' := hkept
    rw [← h.name_eq] at hkept'
    rw [declareMessages, declareMessages, declareMessage_of_free file parent hkept,
      declareMessage_of_free file parent hkept', h.name_eq, h.extensionRanges_eq]
    exact (ignoresNotes_declareMessages file scope parent ms).quiet_congr h.quiet_eq
  | .later m h => by
    rw [declareMessages, declareMessages]
    exact h.quiet_eq

end

/-- A file looks the same without what is dropped in it. -/
theorem DropsInFile.quiet_eq {f : SchemaFile} {rest : Option SchemaFile}
    (h : DropsInFile l f rest) :
    (rest.toList.foldl declare l).quiet = (l.declare f).quiet := by
  have hservices := ignoresNotes_foldl (ignoresNotes_declareService f.scope) f.services
  have hextends := ignoresNotes_foldl
    (ignoresNotes_declareExtend f.scope f.scope.package) f.extendBlocks
  have henums := ignoresNotes_foldl
    (ignoresNotes_declareEnum f.scope f.scope.package none) f.enums
  cases h with
  | message h =>
    exact hservices.quiet_congr (hextends.quiet_congr (henums.quiet_congr h.quiet_eq))
  | enum h =>
    exact hservices.quiet_congr (hextends.quiet_congr
      (h.quiet_eq (ignoresNotes_declareEnum f.scope f.scope.package none) DropsEnum.quiet_eq))
  | service h =>
    exact h.quiet_eq (ignoresNotes_declareService f.scope) DropsService.quiet_eq

/-- Up to its notes, a linker does not tell files from those without something that is dropped. -/
theorem Drops.quiet_eq {files files' : List SchemaFile} (h : Drops files files') :
    (ofFiles files').quiet = (ofFiles files).quiet :=
  DropsFrom.quiet_eq (fun f past l => declare_behind past l f) DropsInFile.quiet_eq h

/-- Dropping something keeps the files and their names. -/
theorem Drops.map_name_eq {files files' : List SchemaFile} (h : Drops files files') :
    files'.map (·.name) = files.map (·.name) := by
  unfold Drops at h
  generalize empty = l at h
  induction h with
  | here files h => cases h <;> rfl
  | later f _ ih => simp only [List.map_cons, ih]

end Linker

end ProtoSchema
