import ProtoSchema.Proofs.Linker.Outline
import ProtoSchema.Proofs.Places

/-!
# Declaring without problems

Declaring notes nothing if and only if no declaration breaks a rule of its own (`SchemaFile.Tidy`)
and no two definitions clash (`Fits`); and then it enters the outline of what is declared, nothing
less and nothing more, whatever was noted before. `Declares` says this of one operation, with the
conditions and the outline of that operation. It composes, so that it holds of whole files by
following the recursion of the declarations (`declares_ofFiles`).
-/

namespace ProtoSchema

/-- Two definitions can stand beside each other: they have different names, or both are packages. -/
def Definition.Compatible (d d' : Definition) : Prop :=
  d.fullName = d'.fullName → d.kind = .package ∧ d'.kind = .package

/-- New definitions clash neither with old ones nor among themselves. -/
def Fits (old new : List Definition) : Prop :=
  new.Pairwise Definition.Compatible ∧ ∀ d ∈ old, ∀ d' ∈ new, d.Compatible d'

theorem fits_nil (old : List Definition) : Fits old [] := ⟨.nil, by simp⟩

/-- Whether a definition is compatible does not depend on its place. -/
theorem fits_congr {old old' new : List Definition}
    (h : ∀ d, d ∈ old.map Definition.unplaced ↔ d ∈ old'.map Definition.unplaced) :
    Fits old new ↔ Fits old' new := by
  have hold (ds : List Definition) : (∀ d ∈ ds, ∀ d' ∈ new, d.Compatible d') ↔
      ∀ d ∈ ds.map Definition.unplaced, ∀ d' ∈ new, d.Compatible d' := by
    rw [List.forall_mem_map]
    rfl
  rw [Fits, Fits, hold old, hold old']
  simp only [h]

theorem fits_append {old new new' : List Definition} :
    Fits old (new ++ new') ↔ Fits old new ∧ Fits (old ++ new) new' := by
  simp only [Fits, List.pairwise_append, List.mem_append, or_imp, forall_and]
  constructor
  · rintro ⟨⟨hnew, hnew', hboth⟩, hold, hold'⟩
    exact ⟨⟨hnew, hold⟩, hnew', hold', hboth⟩
  · rintro ⟨⟨hnew, hold⟩, hnew', hold', hboth⟩
    exact ⟨⟨hnew, hnew', hboth⟩, hold, hold'⟩

/-- An inventory has grown by an outline. Definitions of packages that are opened again are not
entered twice. -/
structure Inventory.Grown (a a' : Inventory) (o : Outline) : Prop where
  definitions : ∀ d, d ∈ a'.definitions.map Definition.unplaced ↔
    d ∈ (a.definitions ++ o.definitions).map Definition.unplaced
  messages : a'.messages.map MessageHeader.site =
    a.messages.map MessageHeader.site ++ o.messages.map MessageOutline.toMessageSite
  fields : a'.fields.map FieldEntry.unowned = a.fields.map FieldEntry.unowned ++ o.fields
  extensions : a'.extensions = a.extensions ++ o.extensions
  enums : a'.enums.map EnumEntry.site = a.enums.map EnumEntry.site ++ o.enums
  methods : a'.methods = a.methods ++ o.methods

/-- An inventory holds an outline, nothing less and nothing more. -/
structure Inventory.Outlined (a : Inventory) (o : Outline) : Prop where
  definitions : ∀ d, d ∈ a.definitions.map Definition.unplaced ↔
    d ∈ o.definitions.map Definition.unplaced
  messages : a.messages.map MessageHeader.site = o.messages.map MessageOutline.toMessageSite
  fields : a.fields.map FieldEntry.unowned = o.fields
  extensions : a.extensions = o.extensions
  enums : a.enums.map EnumEntry.site = o.enums
  methods : a.methods = o.methods

theorem Inventory.Grown.refl (a : Inventory) : a.Grown a .empty := by
  constructor <;> simp [Outline.empty]

theorem Inventory.Grown.trans {a a' a'' : Inventory} {o o' : Outline} (h : a.Grown a' o)
    (h' : a'.Grown a'' o') : a.Grown a'' (o ++ o') := by
  constructor
  · intro d
    rw [h'.definitions, List.map_append, List.mem_append, h.definitions]
    simp [or_assoc]
  · rw [h'.messages, h.messages, List.append_assoc, ← List.map_append]
    rfl
  · rw [h'.fields, h.fields, List.append_assoc]
    rfl
  · rw [h'.extensions, h.extensions, List.append_assoc]
    rfl
  · rw [h'.enums, h.enums, List.append_assoc]
    rfl
  · rw [h'.methods, h.methods, List.append_assoc]
    rfl

namespace Linker

variable {l l' l'' : Linker} {file : FileScope} {scope : String} {parent : Option Nat}
variable {ok ok' : Prop} {o o' : Outline}

/-- No two definitions have one name, and packages belong to no file. -/
structure Distinct (l : Linker) : Prop where
  nodup : (l.definitions.map (·.fullName)).Nodup
  package : ∀ d ∈ l.definitions, d.kind = .package → d.file = none

/-- Nothing but a package fits under a name that is taken. -/
theorem not_fits_of_taken {d : Definition} {new : List Definition}
    (htaken : (l.definition? d.fullName).isSome) (hkind : d.kind ≠ .package) (hd : d ∈ new) :
    ¬ Fits l.definitions new := by
  intro hfits
  obtain ⟨old, hold⟩ := Option.isSome_iff_exists.mp htaken
  unfold definition? at hold
  have hname : old.fullName = d.fullName := of_decide_eq_true (List.find?_some hold :)
  exact hkind (hfits.2 old (List.mem_of_find?_eq_some hold) d hd hname).2

/-- From `l` to `l'` something has been declared. Nothing was noted just if `ok` and the definitions
of the outline fit; and then the outline has been entered. -/
structure Declares (l l' : Linker) (ok : Prop) (o : Outline) : Prop where
  distinct : l'.Distinct
  noted : l.reports <+: l'.reports
  clean : l'.reports = l.reports ↔ ok ∧ Fits l.definitions o.definitions
  grown : l'.reports = l.reports → l.inventory.Grown l'.inventory o

namespace Declares

theorem refl (h : l.Distinct) : Declares l l True .empty :=
  ⟨h, List.prefix_rfl, by simp [Outline.empty, fits_nil], fun _ => .refl _⟩

theorem trans (h : Declares l l' ok o) (h' : Declares l' l'' ok' o') :
    Declares l l'' (ok ∧ ok') (o ++ o') := by
  -- nothing was noted at all just if nothing was noted on either way
  have hsplit : l''.reports = l.reports ↔ l'.reports = l.reports ∧ l''.reports = l'.reports := by
    refine ⟨fun heq => ?_, fun ⟨h₁, h₂⟩ => h₂.trans h₁⟩
    have hlength := h.noted.length_le
    have hlength' := h'.noted.length_le
    rw [heq] at hlength'
    have hfirst := h.noted.eq_of_length (Nat.le_antisymm hlength hlength')
    exact ⟨hfirst.symm, heq.trans hfirst⟩
  have hclean : l''.reports = l.reports ↔
      (ok ∧ ok') ∧ Fits l.definitions (o ++ o').definitions := by
    rw [hsplit, h'.clean, Outline.append_definitions, fits_append]
    -- once nothing was noted so far, the old definitions and the outline are all there is
    have hfits (hreports : l'.reports = l.reports) : Fits l'.definitions o'.definitions ↔
        Fits (l.definitions ++ o.definitions) o'.definitions :=
      fits_congr (h.grown hreports).definitions
    constructor
    · rintro ⟨hreports, hok', hfit'⟩
      obtain ⟨hok, hfit⟩ := h.clean.mp hreports
      exact ⟨⟨hok, hok'⟩, hfit, (hfits hreports).mp hfit'⟩
    · rintro ⟨⟨hok, hok'⟩, hfit, hfit'⟩
      have hreports := h.clean.mpr ⟨hok, hfit⟩
      exact ⟨hreports, hok', (hfits hreports).mpr hfit'⟩
  refine ⟨h'.distinct, h.noted.trans h'.noted, hclean, fun hreports => ?_⟩
  obtain ⟨hreports, hreports'⟩ := hsplit.mp hreports
  exact (h.grown hreports).trans (h'.grown hreports')

theorem congr (h : Declares l l' ok o) (hok : ok ↔ ok') : Declares l l' ok' o :=
  ⟨h.distinct, h.noted, by rw [h.clean, hok], h.grown⟩

/-- Something that should not be well has been noted, and perhaps more after it. -/
theorem of_noted {r : Report} (hdistinct : l'.Distinct) (hreports : l.reports ++ [r] <+: l'.reports)
    (hok : ¬ (ok ∧ Fits l.definitions o.definitions)) : Declares l l' ok o := by
  have hne : l'.reports ≠ l.reports := by
    intro heq
    have hlength := hreports.length_le
    rw [heq, List.length_append, List.length_singleton] at hlength
    omega
  refine ⟨hdistinct, (List.prefix_append _ _).trans hreports, ?_, fun h => absurd h hne⟩
  exact ⟨fun h => absurd h hne, fun h => absurd h hok⟩

/-- A definition under a name that is taken has been noted. -/
theorem of_taken (hl : l.Distinct) {d : Definition} (htaken : (l.definition? d.fullName).isSome)
    (hkind : d.kind ≠ .package) (hd : d ∈ o.definitions) (position : Option Position)
    (p : LinkProblem) : Declares l (l.report file position p) ok o :=
  of_noted ⟨hl.nodup, hl.package⟩ List.prefix_rfl
    fun hboth => not_fits_of_taken htaken hkind hd hboth.2

/-- Entries without definitions have been added. -/
theorem of_added (hl : l.Distinct) (hdefinitions : l'.definitions = l.definitions)
    (hreports : l'.reports = l.reports) (ho : o.definitions = [])
    (hgrown : l.inventory.Grown l'.inventory o) : Declares l l' True o := by
  refine ⟨⟨?_, ?_⟩, ?_, ?_, fun _ => hgrown⟩
  · rw [hdefinitions]
    exact hl.nodup
  · rw [hdefinitions]
    exact hl.package
  · exact hreports ▸ List.prefix_rfl
  · simp [hreports, ho, fits_nil]

/-- A definition has been entered under a free name, with its entry if it has one. -/
theorem of_entered (hl : l.Distinct) {d : Definition} (hfree : l.definition? d.fullName = none)
    (hpackage : d.kind = .package → d.file = none)
    (hdefinitions : l'.definitions = l.definitions ++ [d])
    (hnoted : l.reports <+: l'.reports) (hreports : l'.reports = l.reports ↔ ok)
    (ho : o.definitions = [d.unplaced])
    (hgrown : l'.reports = l.reports → l.inventory.Grown l'.inventory o) :
    Declares l l' ok o := by
  have hnew : ∀ d' ∈ l.definitions, d'.fullName ≠ d.fullName := by
    simpa [definition?] using hfree
  refine ⟨⟨?_, ?_⟩, hnoted, ?_, hgrown⟩
  · rw [hdefinitions]
    exact nodup_map_append_singleton hl.nodup (by simpa using hnew)
  · rw [hdefinitions]
    intro d' hd'
    rcases List.mem_append.mp hd' with hd' | hd'
    · exact hl.package d' hd'
    · rw [List.mem_singleton.mp hd']
      exact hpackage
  -- the name was free, so that nothing can clash
  · have hfits : Fits l.definitions o.definitions := by
      rw [ho]
      refine ⟨List.pairwise_singleton _ _, ?_⟩
      intro d' hd' d'' hd'' heq
      rw [List.mem_singleton.mp hd''] at heq
      exact absurd heq (hnew d' hd')
    simp [hreports, hfits]

/-- What is declared one after the other. -/
theorem foldl {α : Type} {step : Linker → α → Linker} {ok : α → Prop} {outline : α → Outline}
    (hstep : ∀ l a, l.Distinct → Declares l (step l a) (ok a) (outline a)) (h : l.Distinct)
    (xs : List α) :
    Declares l (xs.foldl step l) (∀ x ∈ xs, ok x) (.flatten (xs.map outline)) := by
  induction xs generalizing l with
  | nil => exact (refl h).congr (by simp)
  | cons x xs ih =>
    have hx := hstep l x h
    exact (hx.trans (ih hx.distinct)).congr (by simp)

end Declares

/-! ## Packages -/

theorem declares_definePackage (h : l.Distinct) (file : FileScope) (name : String) :
    Declares l (l.define file none ⟨.package, name, none, none⟩).1 True
      { Outline.empty with definitions := [⟨.package, name, none, none⟩] } := by
  cases htaken : l.definition? name with
  | none =>
    rw [define_of_free htaken]
    refine .of_entered h htaken (fun _ => rfl) rfl List.prefix_rfl (by simp [enter]) rfl
      fun _ => ?_
    constructor <;> simp [Outline.empty]
  | some old =>
    have hmem : old ∈ l.definitions := List.mem_of_find?_eq_some htaken
    have hname : old.fullName = name := by
      unfold definition? at htaken
      exact of_decide_eq_true (List.find?_some htaken :)
    by_cases hkind : old.kind = .package
    · rw [define_of_package htaken hkind rfl]
      -- the package that is opened again is all there is of its name
      have hold : old.unplaced = ⟨.package, name, none, none⟩ := by
        rw [Definition.unplaced, hkind, hname, h.package old hmem hkind]
      have hfits : Fits l.definitions [⟨.package, name, none, none⟩] := by
        refine ⟨List.pairwise_singleton _ _, ?_⟩
        intro d hd d' hd' heq
        rw [List.mem_singleton.mp hd'] at heq ⊢
        have heq' : d = old := List.inj_on_of_nodup_map h.nodup hd hmem (heq.trans hname.symm)
        exact ⟨heq' ▸ hkind, rfl⟩
      refine ⟨h, List.prefix_rfl, by simp [hfits], fun _ => ⟨fun d => ?_, ?_, ?_, ?_, ?_, ?_⟩⟩
      · rw [List.map_append, List.mem_append, or_iff_left_of_imp]
        intro hd
        obtain rfl : d = _ := List.mem_singleton.mp hd
        exact List.mem_map.mpr ⟨old, hmem, hold⟩
      all_goals simp [Outline.empty]
    · obtain ⟨p, hp⟩ := define_of_taken (d := ⟨.package, name, none, none⟩) file none htaken
        fun hk => hkind hk.1
      rw [hp]
      refine .of_noted ⟨h.nodup, h.package⟩ List.prefix_rfl fun hboth => ?_
      exact hkind (hboth.2.2 old hmem ⟨.package, name, none, none⟩ (by simp) hname).1

theorem declares_declarePackage (h : l.Distinct) (file : FileScope) :
    Declares l (l.declarePackage file) True file.packageOutline := by
  have hfold := Declares.foldl (fun l name hl => declares_definePackage hl file name) h
    (Dotted.packages file.package)
  have houtline : file.packageOutline = .flatten ((Dotted.packages file.package).map fun name =>
      { Outline.empty with definitions := [⟨.package, name, none, none⟩] }) := by
    ext1 <;> simp [FileScope.packageOutline, Outline.flatten, Outline.empty, List.flatMap_map]
    exact List.map_eq_flatMap
  exact houtline ▸ hfold.congr (by simp)

/-! ## Enums -/

/-- The values that an enum accepts are all of its values if none breaks a rule. -/
theorem accepted_of_acceptsAll {e : EnumDecl} {fullName : String}
    {accepted values : List EnumValueDecl} (h : e.AcceptsAll fullName accepted values) :
    e.accepted fullName accepted values = accepted ++ values := by
  induction values generalizing accepted with
  | nil => simp [EnumDecl.accepted]
  | cons v vs ih =>
    obtain ⟨hv, hvs⟩ := h
    rw [EnumDecl.accepted, hv]
    simp [ih hvs]

theorem reports_acceptValues (l : Linker) (file : FileScope) (e : EnumDecl) (fullName : String)
    (accepted values : List EnumValueDecl) :
    (l.acceptValues file e fullName accepted values).1.reports = l.reports ↔
      e.AcceptsAll fullName accepted values := by
  induction values generalizing l accepted with
  | nil => simp [acceptValues, EnumDecl.AcceptsAll]
  | cons v vs ih =>
    rw [acceptValues, EnumDecl.AcceptsAll]
    cases h : e.problem? fullName accepted v with
    | none => simp [ih]
    | some p =>
      obtain ⟨rs, -, heq⟩ :=
        acceptValues_eq (l.report file (some v.position) p) file e fullName accepted vs
      simp only [heq]
      simp [noteAll, Linker.report, note]

theorem reports_modifyParent (l : Linker) (parent : Option Nat)
    (f : MessageEntry → MessageEntry) : (l.modifyParent parent f).reports = l.reports := by
  cases parent <;> rfl

/-- Declaring an enum under a free name notes nothing just if the enum is tidy. -/
theorem reports_declareEnum (e : EnumDecl) (file : FileScope) (parent : Option Nat)
    (h : l.definition? (Dotted.join scope e.name) = none) :
    (l.declareEnum file scope parent e).reports = l.reports ↔ e.Tidy scope := by
  let fullName := Dotted.join scope e.name
  let d : Definition := ⟨.enum, fullName, some file.name, some l.enums.size⟩
  have hd : l.define file (some e.position) d = (l.enter d, true) := define_of_free h
  have hvalues := reports_acceptValues (l.enter d) file e fullName [] e.values
  obtain ⟨rs, -, haccept⟩ := acceptValues_eq (l.enter d) file e fullName [] e.values
  rw [haccept] at hvalues
  simp only [declareEnum, d, fullName] at hd haccept ⊢
  simp only [hd, haccept, reports_modifyParent]
  by_cases hempty : (e.accepted (Dotted.join scope e.name) [] e.values).isEmpty
  · rw [if_pos hempty]
    have hnoted : l.reports ++ rs ++ [⟨.link (.emptyEnum fullName), file.name, some e.position⟩] ≠
        l.reports := by
      simp
    refine ⟨fun hreports => absurd hreports hnoted, ?_⟩
    rintro ⟨haccepts, hne⟩
    rw [accepted_of_acceptsAll haccepts] at hempty
    exact absurd (by simpa using hempty) hne
  · rw [if_neg hempty]
    refine hvalues.trans ⟨fun haccepts => ⟨haccepts, ?_⟩, And.left⟩
    rw [accepted_of_acceptsAll haccepts] at hempty
    simpa using hempty

theorem declares_declareEnum (h : l.Distinct) (file : FileScope) (scope : String)
    (parent : Option Nat) (e : EnumDecl) :
    Declares l (l.declareEnum file scope parent e) (e.Tidy scope)
      (e.outline file scope parent.isSome) := by
  let d : Definition := ⟨.enum, Dotted.join scope e.name, some file.name, none⟩
  cases hnew : l.definition? (Dotted.join scope e.name) with
  | none =>
    have hclean := reports_declareEnum e file parent hnew
    obtain ⟨rs, -, heq⟩ := declareEnum_of_free file parent e hnew
    rw [heq] at hclean ⊢
    refine .of_entered (d := { d with place := some l.enums.size }) h hnew (by simp [d]) ?_ ?_
      hclean rfl fun hreports => ?_
    · exact congrArg Inventory.definitions (inventory_enterEnum (l.noteAll rs) file scope parent e)
    · rw [enterEnum, reports_modifyParent]
      exact List.prefix_append _ _
    · have hvalues := accepted_of_acceptsAll (hclean.mp hreports).1
      constructor <;> simp [EnumDecl.outline, Outline.empty, EnumEntry.site, hvalues,
        Definition.unplaced]
  | some old =>
    obtain ⟨p, hp⟩ := declareEnum_of_taken file parent e hnew
    rw [hp]
    exact .of_taken (d := d) h (by simp [d, hnew]) (by simp [d]) (by simp [EnumDecl.outline, d]) _ p

/-! ## Extensions -/

theorem declares_declareExtend (h : l.Distinct) (file : FileScope) (scope : String)
    (e : ExtendDecl) :
    Declares l (l.declareExtend file scope e) True (e.outline file scope) := by
  refine .of_added h rfl rfl rfl ?_
  rw [inventory_declareExtend]
  constructor <;> simp [ExtendDecl.outline, Outline.empty]

/-! ## Messages -/

theorem declares_enterMessage (h : l.Distinct) (file : FileScope) (parent : Option Nat)
    {name : String} (isMapEntry : Bool) (extensionRanges : List NumberRange)
    (fields : List FieldDecl) (hfree : l.definition? (Dotted.join scope name) = none) :
    let site : MessageSite :=
      ⟨name, Dotted.join scope name, file, parent.isSome, isMapEntry, extensionRanges⟩
    Declares l (l.enterMessage file scope parent name isMapEntry extensionRanges) True
      (.ofMessage ⟨site, fields⟩) := by
  let d : Definition :=
    ⟨.message, Dotted.join scope name, some file.name, some l.messages.size⟩
  have hinventory := inventory_enterMessage l file scope parent name isMapEntry extensionRanges
  have hreports : (l.enterMessage file scope parent name isMapEntry extensionRanges).reports =
      l.reports := by
    rw [enterMessage, addMessage, reports_modifyParent]
    rfl
  refine .of_entered (d := d) h hfree (by simp [d]) ?_ (hreports ▸ List.prefix_rfl)
    (by simp [hreports]) rfl fun _ => ?_
  · exact congrArg Inventory.definitions hinventory
  · rw [hinventory]
    constructor <;> simp [Outline.ofMessage, Outline.empty, MessageHeader.site,
      Definition.unplaced]

theorem declares_addField (h : l.Distinct) (file : FileScope) (owner : Nat) (scope : String)
    (f : FieldDecl) :
    Declares l (l.addField file owner scope f) True (.ofField (f.entry file scope)) := by
  refine .of_added h rfl rfl rfl ?_
  rw [inventory_addField]
  constructor <;> simp [Outline.ofField, Outline.empty, FieldEntry.unowned, FieldDecl.entry]

/-- The entry message of a map field is declared, or its name is taken and this is noted. -/
theorem declares_declareMapEntry (h : l.Distinct) (file : FileScope) (owner : Nat) (scope : String)
    (f : FieldDecl) (key value : String) (position : Position) :
    let o := f.mapOutline file scope key value position
    (∃ l', l.declareMapEntry file owner scope f key value position = (l', true) ∧
      Declares l l' True o) ∨
      ((∃ p, l.declareMapEntry file owner scope f key value position =
        (l.report file (some f.position) p, false)) ∧ ¬ Fits l.definitions o.definitions) := by
  intro o
  let fullName := Dotted.join scope (MapEntry.name f.name)
  rcases declareMapEntry_cases l file owner scope f key value position with
    ⟨hfree, heq⟩ | ⟨htaken, hreport⟩
  · have hentry := declares_enterMessage h file (some owner) true []
      [keyField f key, valueField f value position] hfree
    have hkey := declares_addField hentry.distinct file l.messages.size fullName (keyField f key)
    have hvalue := declares_addField hkey.distinct file l.messages.size fullName
      (valueField f value position)
    exact .inl ⟨_, heq, ((hentry.trans hkey).trans hvalue).congr (by simp)⟩
  · refine .inr ⟨hreport, ?_⟩
    exact not_fits_of_taken (d := ⟨.message, fullName, some file.name, none⟩) htaken (by simp)
      (by simp [o, FieldDecl.mapOutline, Outline.ofMessage, fullName])

theorem declares_declareFields (h : l.Distinct) (file : FileScope) (owner : Nat) (scope : String)
    (rules : FieldRules) (fs : List FieldDecl) :
    Declares l (l.declareFields file owner scope rules fs) (rules.AcceptsAll fs)
      (.flatten (fs.map (FieldDecl.outline file scope))) := by
  induction fs generalizing l rules with
  | nil => exact (Declares.refl h).congr (by simp [FieldRules.AcceptsAll])
  | cons f fs ih =>
    -- once something is noted, nothing takes it back
    have hnoted (p : LinkProblem) (rules : FieldRules) :
        ((l.report file (some f.position) p).declareFields file owner scope rules fs).Distinct ∧
          l.reports ++ [⟨.link p, file.name, some f.position⟩] <+:
            ((l.report file (some f.position) p).declareFields file owner scope rules fs).reports := by
      have hrest := ih (l := l.report file (some f.position) p) ⟨h.nodup, h.package⟩ rules
      exact ⟨hrest.distinct, hrest.noted⟩
    rw [List.map_cons, Outline.flatten_cons, declareFields.eq_def, FieldRules.AcceptsAll]
    simp only
    cases hproblem : rules.problem? f with
    | some p => exact .of_noted (hnoted p rules).1 (hnoted p rules).2 (by simp)
    | none =>
      -- an accepted field takes its number and name; a map enters its entry message first
      refine (?_ : Declares l _ ((rules.take f).AcceptsAll fs) _).congr (by simp)
      have hplain (hf : f.outline file scope = .ofField (f.entry file scope)) :
          Declares l ((l.addField file owner scope f).declareFields file owner scope
            (rules.take f) fs) ((rules.take f).AcceptsAll fs)
            (f.outline file scope ++ .flatten (fs.map (FieldDecl.outline file scope))) := by
        have hfield := declares_addField h file owner scope f
        rw [hf]
        exact (hfield.trans (ih hfield.distinct _)).congr (by simp)
      cases hshape : f.shape with
      | named => exact hplain (by simp [FieldDecl.outline, hshape])
      | group => exact hplain (by simp [FieldDecl.outline, hshape])
      | map key value position =>
        have houtline : f.outline file scope = f.mapOutline file scope key value position ++
            .ofField ((mapField f).entry file scope) := by
          simp [FieldDecl.outline, hshape]
        rw [houtline]
        simp only
        rcases declares_declareMapEntry h file owner scope f key value position with
          ⟨l', heq, hentry⟩ | ⟨⟨p, heq⟩, hfits⟩
        · have hfield := declares_addField hentry.distinct file owner scope (mapField f)
          rw [heq]
          exact ((hentry.trans hfield).trans (ih hfield.distinct _)).congr (by simp)
        · rw [heq]
          refine .of_noted (hnoted p _).1 (hnoted p _).2 fun hboth => hfits ?_
          exact (fits_append.mp (fits_append.mp hboth.2).1).1

mutual

theorem declares_declareMessage {l : Linker} (h : l.Distinct) (file : FileScope) (scope : String)
    (parent : Option Nat) :
    (m : MessageDecl) → Declares l (l.declareMessage file scope parent m) (m.Tidy scope)
      (m.outline file scope parent.isSome)
  | ⟨name, fields, messages, enums, extendBlocks, oneofs, options, extensionRanges,
      reservedRanges, reservedNames, position⟩ => by
    rw [MessageDecl.Tidy, MessageDecl.outline]
    rcases declareMessage_cases l file scope parent ⟨name, fields, messages, enums, extendBlocks,
      oneofs, options, extensionRanges, reservedRanges, reservedNames, position⟩ with
      ⟨hfree, heq⟩ | ⟨htaken, p, heq⟩
    · rw [heq]
      have hentry := declares_enterMessage h file parent false extensionRanges fields hfree
      have henums := Declares.foldl (fun _ e hl => declares_declareEnum hl file
        (Dotted.join scope name) (some l.messages.size) e) hentry.distinct enums
      have hmessages := declares_declareMessages henums.distinct file (Dotted.join scope name)
        (some l.messages.size) messages
      have hfields := declares_declareFields hmessages.distinct file l.messages.size
        (Dotted.join scope name) ⟨Dotted.join scope name, reservedRanges, reservedNames, []⟩ fields
      have hextends := Declares.foldl (fun _ e hl => declares_declareExtend hl file
        (Dotted.join scope name) e) hfields.distinct extendBlocks
      exact (hentry.trans (henums.trans (hmessages.trans (hfields.trans hextends)))).congr
        (by simp)
    · let d : Definition := ⟨.message, Dotted.join scope name, some file.name, none⟩
      rw [heq]
      exact .of_taken (d := d) h htaken (by simp [d]) (by simp [Outline.ofMessage, d]) _ p

theorem declares_declareMessages {l : Linker} (h : l.Distinct) (file : FileScope) (scope : String)
    (parent : Option Nat) :
    (ms : List MessageDecl) → Declares l (l.declareMessages file scope parent ms)
      (MessageDecl.TidyAll scope ms) (MessageDecl.outlineAll file scope parent.isSome ms)
  | [] => by
    rw [declareMessages, MessageDecl.TidyAll, MessageDecl.outlineAll]
    exact .refl h
  | m :: ms => by
    rw [declareMessages, MessageDecl.TidyAll, MessageDecl.outlineAll]
    have hm := declares_declareMessage h file scope parent m
    exact hm.trans (declares_declareMessages hm.distinct file scope parent ms)

end

/-! ## Services and files -/

theorem declares_declareMethod (h : l.Distinct) (file : FileScope) (service : String)
    (m : MethodDecl) :
    Declares l (l.declareMethod file service m) True (m.outline file service) := by
  let d : Definition :=
    ⟨.method, Dotted.join service m.name, some file.name, some l.methods.size⟩
  rcases declareMethod_cases l file service m with ⟨hfree, heq⟩ | ⟨htaken, p, heq⟩
  · rw [heq]
    refine .of_entered (d := d) h hfree (by simp [d]) rfl List.prefix_rfl
      (by simp [enterMethod, enter]) rfl fun _ => ?_
    rw [inventory_enterMethod]
    constructor <;> simp [MethodDecl.outline, Outline.empty, Definition.unplaced]
  · rw [heq]
    exact .of_taken (d := { d with place := none }) h htaken (by simp [d])
      (by simp [MethodDecl.outline, d]) _ p

theorem declares_declareService (h : l.Distinct) (file : FileScope) (s : ServiceDecl) :
    Declares l (l.declareService file s) True (s.outline file) := by
  let d : Definition := ⟨.service, Dotted.join file.package s.name, some file.name, none⟩
  rcases declareService_cases l file s with ⟨hfree, heq⟩ | ⟨htaken, p, heq⟩
  · have hentry : Declares l (l.enter d) True { Outline.empty with definitions := [d] } := by
      refine .of_entered h hfree (by simp [d]) rfl List.prefix_rfl (by simp [enter]) rfl
        fun _ => ?_
      constructor <;> simp [Outline.empty]
    have hmethods := Declares.foldl (fun _ m hl => declares_declareMethod hl file d.fullName m)
      hentry.distinct s.methods
    rw [heq]
    exact (hentry.trans hmethods).congr (by simp)
  · rw [heq]
    exact .of_taken (d := d) h htaken (by simp [d]) (by simp [ServiceDecl.outline, d]) _ p

theorem declares_declare (h : l.Distinct) (f : SchemaFile) :
    Declares l (l.declare f) f.Tidy f.outline := by
  have hfile : Declares l (l.addFile f.scope) True .empty :=
    .of_added h rfl rfl rfl (.refl _)
  have hpackage := declares_declarePackage hfile.distinct f.scope
  have hmessages := declares_declareMessages hpackage.distinct f.scope f.scope.package none
    f.messages
  have henums := Declares.foldl (fun _ e hl => declares_declareEnum hl f.scope f.scope.package
    none e) hmessages.distinct f.enums
  have hextends := Declares.foldl (fun _ e hl => declares_declareExtend hl f.scope
    f.scope.package e) henums.distinct f.extendBlocks
  have hservices := Declares.foldl (fun _ s hl => declares_declareService hl f.scope s)
    hextends.distinct f.services
  exact (hfile.trans (hpackage.trans (hmessages.trans (henums.trans
    (hextends.trans hservices))))).congr (by simp [SchemaFile.Tidy])

/-- Files are declared without problems just if each is tidy and no two definitions clash. -/
theorem declares_ofFiles (files : List SchemaFile) :
    Declares empty (ofFiles files) (∀ f ∈ files, f.Tidy) (.ofFiles files) :=
  .foldl (fun _ f hl => declares_declare hl f) ⟨by simp [empty], by simp [empty]⟩ files

/-- What has been declared without problems is just the outline of the files. -/
theorem outlined_ofFiles {files : List SchemaFile} (h : (ofFiles files).reports = []) :
    (ofFiles files).inventory.Outlined (.ofFiles files) := by
  have hgrown := (declares_ofFiles files).grown h
  refine ⟨fun d => ?_, hgrown.messages, hgrown.fields, hgrown.extensions, hgrown.enums,
    hgrown.methods⟩
  exact hgrown.definitions d

end Linker

end ProtoSchema
