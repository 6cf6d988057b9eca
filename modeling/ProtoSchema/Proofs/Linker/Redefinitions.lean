import ProtoSchema.Proofs.Linker.Clean
import ProtoSchema.Proofs.Linker.Outcome

/-!
# Names that are defined twice

A name is reported as already defined only if it is declared twice, whatever else may be wrong with
the declarations. `Claims` says this of one operation, with the outline of what it declares: it
enters no names but those of the outline, and where these are distinct and free, it reports none as
already defined. It composes, so that it holds of whole files (`claims_declare`). Linking never
reports a name as already defined.
-/

namespace ProtoSchema

/-- Whether a report is that a name is already defined: a full name, or the name of a field or an enum
value. -/
def Report.isRedefinition (r : Report) : Bool :=
  match r.problem with
  | .link (.alreadyDefined ..) | .link (.fieldNameTaken ..) | .link (.enumValueTaken ..) => true
  | _ => false

/-- No message of an outline declares two fields of one name, and no enum two values of one name. -/
structure Outline.DistinctMembers (o : Outline) : Prop where
  fields : ∀ m ∈ o.messages, (m.fields.map (·.name)).Nodup
  values : ∀ e ∈ o.enums, (e.values.map (·.name)).Nodup

theorem Outline.distinctMembers_append {o o' : Outline} :
    (o ++ o').DistinctMembers ↔ o.DistinctMembers ∧ o'.DistinctMembers := by
  constructor
  · rintro ⟨hfields, hvalues⟩
    simp only [append_messages, append_enums, List.forall_mem_append] at hfields hvalues
    exact ⟨⟨hfields.1, hvalues.1⟩, hfields.2, hvalues.2⟩
  · rintro ⟨h, h'⟩
    exact ⟨List.forall_mem_append.mpr ⟨h.fields, h'.fields⟩,
      List.forall_mem_append.mpr ⟨h.values, h'.values⟩⟩

theorem Outline.distinctMembers_of_mem {α : Type} {outline : α → Outline} {xs : List α}
    (h : (Outline.flatten (xs.map outline)).DistinctMembers) {x : α} (hx : x ∈ xs) :
    (outline x).DistinctMembers := by
  obtain ⟨before, after, rfl⟩ := List.append_of_mem hx
  rw [List.map_append, List.map_cons, flatten_append, flatten_cons, distinctMembers_append,
    distinctMembers_append] at h
  exact h.2.1

namespace Linker

variable {l l' l'' : Linker} {file : FileScope} {scope : String} {parent : Option Nat}
variable {ok ok' : Prop} {o o' : Outline}

/-- Nothing is reported as already defined that has not been before. -/
def Adds (l l' : Linker) : Prop := ∀ r ∈ l'.reports, r ∈ l.reports ∨ r.isRedefinition = false

theorem Adds.of_reports (h : l'.reports = l.reports) : Adds l l' :=
  fun _ hr => .inl (h ▸ hr)

theorem Adds.trans (h : Adds l l') (h' : Adds l' l'') : Adds l l'' := by
  intro r hr
  rcases h' r hr with hr | hr
  · exact h r hr
  · exact .inr hr

theorem Adds.report {p : LinkProblem} {position : Option Position}
    (h : Report.isRedefinition ⟨.link p, file.name, position⟩ = false) :
    Adds l (l.report file position p) := by
  intro r hr
  refine (List.mem_append.mp hr).imp_right fun hlast => ?_
  rwa [List.mem_singleton.mp hlast]

/-- From `l` to `l'` something of an outline has been declared. No names but those of the outline have
been entered; and if the definitions of the outline fit and the names of its members are as `ok`
wants them, none was reported as already defined. -/
structure Claims (l l' : Linker) (ok : Prop) (o : Outline) : Prop where
  within : ∀ d' ∈ l'.definitions, ∃ d ∈ l.definitions ++ o.definitions,
    d.fullName = d'.fullName ∧ d.kind = d'.kind
  free : ok → Fits l.definitions o.definitions → Adds l l'

namespace Claims

/-- Definitions that fit beside all that may have been entered fit beside what has been. -/
theorem fits (h : Claims l l' ok o) {new : List Definition}
    (hnew : Fits (l.definitions ++ o.definitions) new) : Fits l'.definitions new := by
  refine ⟨hnew.1, fun d' hd' e he hname => ?_⟩
  obtain ⟨d, hd, hsame, hkind⟩ := h.within d' hd'
  obtain ⟨hd, he⟩ := hnew.2 d hd e he (hsame.trans hname)
  exact ⟨hkind ▸ hd, he⟩

theorem trans (h : Claims l l' ok o) (h' : Claims l' l'' ok' o') :
    Claims l l'' (ok ∧ ok') (o ++ o') := by
  refine ⟨fun d'' hd'' => ?_, fun hboth hfits => ?_⟩
  · obtain ⟨d', hd', hsame'⟩ := h'.within d'' hd''
    rw [Outline.append_definitions, ← List.append_assoc]
    rcases List.mem_append.mp hd' with hd' | hd'
    · obtain ⟨d, hd, hsame⟩ := h.within d' hd'
      exact ⟨d, List.mem_append_left _ hd, hsame.1.trans hsame'.1, hsame.2.trans hsame'.2⟩
    · exact ⟨d', List.mem_append_right _ hd', hsame'⟩
  · rw [Outline.append_definitions, fits_append] at hfits
    exact (h.free hboth.1 hfits.1).trans (h'.free hboth.2 (h.fits hfits.2))

theorem imp (h : Claims l l' ok o) (himp : ok' → ok) : Claims l l' ok' o :=
  ⟨h.within, fun hok => h.free (himp hok)⟩

/-- No definition has been entered. -/
theorem of_kept (hdefinitions : l'.definitions = l.definitions) (hadds : ok → Adds l l') :
    Claims l l' ok o := by
  refine ⟨fun d' hd' => ⟨d', ?_, rfl, rfl⟩, fun hok _ => hadds hok⟩
  exact List.mem_append_left _ (hdefinitions ▸ hd')

theorem refl (l : Linker) : Claims l l True .empty := .of_kept rfl fun _ => .of_reports rfl

/-- A definition under a name that is taken has been reported. -/
theorem of_taken {d : Definition} (htaken : (l.definition? d.fullName).isSome)
    (hkind : d.kind ≠ .package) (hd : d ∈ o.definitions) (position : Option Position)
    (p : LinkProblem) : Claims l (l.report file position p) ok o := by
  refine ⟨fun d' hd' => ⟨d', List.mem_append_left _ hd', rfl, rfl⟩, fun _ hfits => ?_⟩
  exact absurd hfits (not_fits_of_taken htaken hkind hd)

/-- A definition has been entered. -/
theorem of_entered (d d' : Definition) (hdefinitions : l'.definitions = l.definitions ++ [d'])
    (hname : d.fullName = d'.fullName) (hkind : d.kind = d'.kind) (hd : d ∈ o.definitions)
    (hadds : ok → Adds l l') : Claims l l' ok o := by
  refine ⟨?_, fun hok _ => hadds hok⟩
  rw [hdefinitions]
  refine List.forall_mem_append.mpr ⟨fun e he => ⟨e, List.mem_append_left _ he, rfl, rfl⟩, ?_⟩
  simpa using ⟨d, .inr hd, hname, hkind⟩

/-- What is declared one after the other. -/
theorem foldl {α : Type} {step : Linker → α → Linker} {ok : α → Prop} {outline : α → Outline}
    (hstep : ∀ l a, Claims l (step l a) (ok a) (outline a)) (l : Linker) (xs : List α) :
    Claims l (xs.foldl step l) (∀ x ∈ xs, ok x) (.flatten (xs.map outline)) := by
  induction xs generalizing l with
  | nil => exact (refl l).imp fun _ => trivial
  | cons x xs ih =>
    exact ((hstep l x).trans (ih (step l x))).imp fun hall =>
      ⟨hall x (by simp), fun y hy => hall y (by simp [hy])⟩

end Claims

/-! ## Packages -/

theorem claims_declarePackage (l : Linker) (file : FileScope) :
    Claims l (l.declarePackage file) True file.packageOutline := by
  have hpackage (l : Linker) (name : String) :
      Claims l (l.define file none ⟨.package, name, none, none⟩).1 True
        { Outline.empty with definitions := [⟨.package, name, none, none⟩] } := by
    let d : Definition := ⟨.package, name, none, none⟩
    cases htaken : l.definition? name with
    | none =>
      rw [define_of_free htaken]
      exact .of_entered d d rfl rfl rfl (by simp [d]) fun _ => .of_reports rfl
    | some old =>
      by_cases hkind : old.kind = .package
      · rw [define_of_package htaken hkind rfl]
        exact .of_kept rfl fun _ => .of_reports rfl
      · obtain ⟨p, hp⟩ := define_of_taken (d := d) file none htaken fun hk => hkind hk.1
        have hname : old.fullName = name := by
          unfold definition? at htaken
          exact of_decide_eq_true (List.find?_some htaken :)
        rw [hp]
        refine ⟨fun d' hd' => ⟨d', List.mem_append_left _ hd', rfl, rfl⟩, fun _ hfits => ?_⟩
        -- a package does not fit under the name of something else
        exact absurd (hfits.2 old (List.mem_of_find?_eq_some htaken) d (by simp [d]) hname).1 hkind
  have houtline : file.packageOutline = .flatten ((Dotted.packages file.package).map fun name =>
      { Outline.empty with definitions := [⟨.package, name, none, none⟩] }) := by
    ext1 <;> simp [FileScope.packageOutline, Outline.flatten, Outline.empty, List.flatMap_map]
    exact List.map_eq_flatMap
  exact houtline ▸ (Claims.foldl hpackage l _).imp (by simp)

/-! ## Enums and extensions -/

/-- An enum value is reported as already defined only if a value before it has its name. -/
theorem isRedefinition_of_enumProblem {e : EnumDecl} {fullName : String}
    {accepted : List EnumValueDecl} {v : EnumValueDecl} {p : LinkProblem}
    (h : e.problem? fullName accepted v = some p) (hnew : v.name ∉ accepted.map (·.name))
    (text : Text) (position : Option Position) :
    Report.isRedefinition ⟨.link p, text, position⟩ = false := by
  have hfree : ¬ accepted.any (·.name = v.name) := by
    intro hany
    obtain ⟨x, hx, hname⟩ := List.any_eq_true.mp hany
    exact hnew (List.mem_map.mpr ⟨x, hx, of_decide_eq_true hname⟩)
  unfold EnumDecl.problem? at h
  rw [if_neg hfree] at h
  split_ifs at h
  case neg =>
    obtain ⟨holder, -, rfl⟩ := Option.map_eq_some_iff.mp h
    rfl
  all_goals
    obtain rfl := Option.some.inj h
    rfl

theorem adds_acceptValues (l : Linker) (file : FileScope) (e : EnumDecl) (fullName : String)
    (accepted : List EnumValueDecl) {values : List EnumValueDecl}
    (h : ((accepted ++ values).map (·.name)).Nodup) :
    Adds l (l.acceptValues file e fullName accepted values).1 := by
  induction values generalizing l accepted with
  | nil => exact .of_reports rfl
  | cons v vs ih =>
    rw [acceptValues]
    cases hproblem : e.problem? fullName accepted v with
    | none => exact ih l _ (by simpa using h)
    | some p =>
      have hperm : (accepted ++ v :: vs).Perm (v :: (accepted ++ vs)) := List.perm_middle
      have hnodup := (hperm.map (·.name)).nodup_iff.mp h
      rw [List.map_cons, List.nodup_cons, List.map_append, List.mem_append, not_or] at hnodup
      have hreport : Adds l (l.report file (some v.position) p) :=
        .report (isRedefinition_of_enumProblem hproblem hnodup.1.1 file.name (some v.position))
      exact hreport.trans (ih _ _ (by simpa using hnodup.2))

theorem claims_declareEnum (l : Linker) (file : FileScope) (scope : String)
    (parent : Option Nat) (e : EnumDecl) :
    Claims l (l.declareEnum file scope parent e) (e.values.map (·.name)).Nodup
      (e.outline file scope parent.isSome) := by
  let fullName := Dotted.join scope e.name
  let d : Definition := ⟨.enum, fullName, some file.name, none⟩
  let d' : Definition := { d with place := some l.enums.size }
  have hd : d ∈ (e.outline file scope parent.isSome).definitions := by
    simp [EnumDecl.outline, d, fullName]
  cases hnew : l.definition? fullName with
  | none =>
    obtain ⟨rs, -, heq⟩ := declareEnum_of_free file parent e hnew
    have hdefinitions : (l.declareEnum file scope parent e).definitions = l.definitions ++ [d'] := by
      rw [heq]
      exact congrArg Inventory.definitions (inventory_enterEnum (l.noteAll rs) file scope parent e)
    refine .of_entered d d' hdefinitions rfl rfl hd fun hok => ?_
    have hdefine : l.define file (some e.position) d' = (l.enter d', true) := define_of_free hnew
    have hentered : Adds l (l.enter d') := .of_reports rfl
    have hvalues := adds_acceptValues (l.enter d') file e fullName [] hok
    simp only [declareEnum, d', d, fullName] at hdefine hvalues hentered ⊢
    simp only [hdefine]
    refine hentered.trans (hvalues.trans ?_)
    generalize acceptValues _ file e (Dotted.join scope e.name) [] e.values = accepted
    have hempty : Adds accepted.1 (if accepted.2.isEmpty then
        accepted.1.report file (some e.position) (.emptyEnum (Dotted.join scope e.name))
        else accepted.1) := by
      split_ifs
      · exact .report rfl
      · exact .of_reports rfl
    exact hempty.trans (.of_reports (reports_modifyParent _ parent _))
  | some old =>
    obtain ⟨p, hp⟩ := declareEnum_of_taken file parent e hnew
    rw [hp]
    exact .of_taken (d := d) (by simp [d, hnew]) (by simp [d]) hd _ p

theorem claims_declareExtend (l : Linker) (file : FileScope) (scope : String) (e : ExtendDecl) :
    Claims l (l.declareExtend file scope e) True (e.outline file scope) :=
  .of_kept rfl fun _ => .of_reports rfl

/-! ## Fields -/

/-- A field is reported as already defined only if a field before it has its name. -/
theorem isRedefinition_of_problem {rules : FieldRules} {f : FieldDecl} {p : LinkProblem}
    (h : rules.problem? f = some p) (hnew : f.name ∉ rules.taken.map (·.2)) (text : Text)
    (position : Option Position) : Report.isRedefinition ⟨.link p, text, position⟩ = false := by
  have hfree : ¬ rules.taken.any (·.2 = f.name) := by
    intro hany
    obtain ⟨x, hx, hname⟩ := List.any_eq_true.mp hany
    exact hnew (List.mem_map.mpr ⟨x, hx, of_decide_eq_true hname⟩)
  unfold FieldRules.problem? at h
  rw [if_neg hfree] at h
  split_ifs at h
  case neg =>
    obtain ⟨holder, -, rfl⟩ := Option.map_eq_some_iff.mp h
    rfl
  all_goals
    obtain rfl := Option.some.inj h
    rfl

theorem claims_enterMessage (l : Linker) (file : FileScope) (scope : String) (parent : Option Nat)
    (name : String) (isMapEntry : Bool) (extensionRanges : List NumberRange) (fields : List FieldDecl) :
    let site : MessageSite :=
      ⟨name, Dotted.join scope name, file, parent.isSome, isMapEntry, extensionRanges⟩
    Claims l (l.enterMessage file scope parent name isMapEntry extensionRanges) True
      (.ofMessage ⟨site, fields⟩) := by
  let d : Definition :=
    ⟨.message, Dotted.join scope name, some file.name, some l.messages.size⟩
  have hinventory := inventory_enterMessage l file scope parent name isMapEntry extensionRanges
  refine .of_entered d.unplaced d ?_ rfl rfl (by simp [Outline.ofMessage, d,
    Definition.unplaced]) fun _ => .of_reports ?_
  · exact congrArg Inventory.definitions hinventory
  · rw [enterMessage, addMessage, reports_modifyParent]
    rfl

theorem claims_addField (l : Linker) (file : FileScope) (owner : Nat) (scope : String)
    (f : FieldDecl) :
    Claims l (l.addField file owner scope f) True (.ofField (f.entry file scope)) :=
  .of_kept rfl fun _ => .of_reports rfl

theorem claims_declareMapEntry (l : Linker) (file : FileScope) (owner : Nat) (scope : String)
    (f : FieldDecl) (key value : String) (position : Position) :
    Claims l (l.declareMapEntry file owner scope f key value position).1 True
      (f.mapOutline file scope key value position) := by
  let fullName := Dotted.join scope (MapEntry.name f.name)
  rcases declareMapEntry_cases l file owner scope f key value position with
    ⟨-, heq⟩ | ⟨htaken, p, heq⟩
  · have hentry := claims_enterMessage l file scope (some owner)
      (MapEntry.name f.name) true [] [keyField f key, valueField f value position]
    have hkey := claims_addField (l.enterMessage file scope (some owner) (MapEntry.name f.name) true
      []) file l.messages.size fullName (keyField f key)
    rw [heq]
    exact ((hentry.trans hkey).trans (claims_addField _ file l.messages.size fullName
      (valueField f value position))).imp (by simp)
  · rw [heq]
    exact .of_taken (d := ⟨.message, fullName, some file.name, none⟩) htaken (by simp)
      (by simp [FieldDecl.mapOutline, Outline.ofMessage, fullName]) _ p

theorem claims_declareFields (l : Linker) (file : FileScope) (owner : Nat) (scope : String)
    (rules : FieldRules) (fs : List FieldDecl) :
    Claims l (l.declareFields file owner scope rules fs)
      (rules.taken.map (·.2) ++ fs.map (·.name)).Nodup
      (.flatten (fs.map (FieldDecl.outline file scope))) := by
  induction fs generalizing l rules with
  | nil => exact (Claims.refl l).imp fun _ => trivial
  | cons f fs ih =>
    rw [List.map_cons, List.map_cons, Outline.flatten_cons, declareFields.eq_def]
    simp only
    -- the name of a field counts no more once the field is refused
    have hrest (h : (rules.taken.map (·.2) ++ f.name :: fs.map (·.name)).Nodup) :
        f.name ∉ rules.taken.map (·.2) ∧ (rules.taken.map (·.2) ++ fs.map (·.name)).Nodup := by
      rw [List.perm_middle.nodup_iff, List.nodup_cons, List.mem_append, not_or] at h
      exact ⟨h.1.1, h.2⟩
    have htake (h : (rules.taken.map (·.2) ++ f.name :: fs.map (·.name)).Nodup) :
        ((rules.take f).taken.map (·.2) ++ fs.map (·.name)).Nodup := by
      simpa [FieldRules.take] using h
    cases hproblem : rules.problem? f with
    | some p =>
      have hreport : Claims l (l.report file (some f.position) p)
          (f.name ∉ rules.taken.map (·.2)) (f.outline file scope) :=
        .of_kept rfl fun hnew => .report (isRedefinition_of_problem hproblem hnew file.name _)
      exact (hreport.trans (ih _ rules)).imp hrest
    | none =>
      have hplain (hf : f.outline file scope = .ofField (f.entry file scope)) :
          Claims l ((l.addField file owner scope f).declareFields file owner scope
            (rules.take f) fs) (rules.taken.map (·.2) ++ f.name :: fs.map (·.name)).Nodup
            (f.outline file scope ++ .flatten (fs.map (FieldDecl.outline file scope))) := by
        rw [hf]
        exact ((claims_addField l file owner scope f).trans (ih _ _)).imp fun h =>
          ⟨trivial, htake h⟩
      cases hshape : f.shape with
      | named => exact hplain (by simp [FieldDecl.outline, hshape])
      | group => exact hplain (by simp [FieldDecl.outline, hshape])
      | map key value position =>
        have houtline : f.outline file scope = f.mapOutline file scope key value position ++
            .ofField ((mapField f).entry file scope) := by
          simp [FieldDecl.outline, hshape]
        have hentry := claims_declareMapEntry l file owner scope f key value position
        rw [houtline]
        simp only
        rcases hresult : l.declareMapEntry file owner scope f key value position with ⟨l', done⟩
        rw [hresult] at hentry
        cases done with
        | true =>
          have hfield := hentry.trans (claims_addField l' file owner scope (mapField f))
          exact (hfield.trans (ih _ _)).imp fun h => ⟨⟨trivial, trivial⟩, htake h⟩
        | false =>
          have hdropped : Claims l' l' True (.ofField ((mapField f).entry file scope)) :=
            .of_kept rfl fun _ => .of_reports rfl
          exact ((hentry.trans hdropped).trans (ih _ _)).imp fun h =>
            ⟨⟨trivial, trivial⟩, htake h⟩

/-! ## Messages, services and files -/

theorem claims_declareEnums (l : Linker) (file : FileScope) (scope : String)
    (parent : Option Nat) (es : List EnumDecl) :
    let o := Outline.flatten (es.map (EnumDecl.outline file scope parent.isSome))
    Claims l (es.foldl (fun l e => l.declareEnum file scope parent e) l) o.DistinctMembers o := by
  intro o
  refine (Claims.foldl (fun l e => claims_declareEnum l file scope parent e) l es).imp fun h e he => ?_
  have hdistinct := Outline.distinctMembers_of_mem h he
  exact hdistinct.values _ (List.mem_singleton_self _)

mutual

theorem claims_declareMessage (l : Linker) (file : FileScope) (scope : String)
    (parent : Option Nat) :
    (m : MessageDecl) → Claims l (l.declareMessage file scope parent m)
      (m.outline file scope parent.isSome).DistinctMembers (m.outline file scope parent.isSome)
  | ⟨name, fields, messages, enums, extendBlocks, oneofs, options, extensionRanges,
      reservedRanges, reservedNames, position⟩ => by
    let fullName := Dotted.join scope name
    rw [MessageDecl.outline]
    rcases declareMessage_cases l file scope parent ⟨name, fields, messages, enums, extendBlocks,
      oneofs, options, extensionRanges, reservedRanges, reservedNames, position⟩ with
      ⟨-, heq⟩ | ⟨htaken, p, heq⟩
    · rw [heq]
      have hentry := claims_enterMessage l file scope parent name false
        extensionRanges fields
      have henums := claims_declareEnums (l.enterMessage file scope parent name false
        extensionRanges) file fullName (some l.messages.size) enums
      have hmessages := claims_declareMessages (enums.foldl (fun l' e => l'.declareEnum file
        fullName (some l.messages.size) e) (l.enterMessage file scope parent name false
          extensionRanges)) file fullName (some l.messages.size) messages
      have hfields (l' : Linker) := claims_declareFields l' file l.messages.size fullName
        ⟨fullName, reservedRanges, reservedNames, []⟩ fields
      have hextends (l' : Linker) := Claims.foldl (fun l e => claims_declareExtend l file fullName e)
        l' extendBlocks
      refine (hentry.trans (henums.trans (hmessages.trans ((hfields _).trans (hextends _))))).imp
        fun hdistinct => ?_
      simp only [Outline.distinctMembers_append] at hdistinct
      obtain ⟨hmessage, henums, hmessages, -⟩ := hdistinct
      exact ⟨trivial, henums, hmessages, hmessage.fields _ (List.mem_singleton_self _),
        fun _ _ => trivial⟩
    · rw [heq]
      exact .of_taken (d := ⟨.message, fullName, some file.name, none⟩) htaken (by simp)
        (by simp [Outline.ofMessage, fullName]) _ p

theorem claims_declareMessages (l : Linker) (file : FileScope) (scope : String)
    (parent : Option Nat) :
    (ms : List MessageDecl) → Claims l (l.declareMessages file scope parent ms)
      (MessageDecl.outlineAll file scope parent.isSome ms).DistinctMembers
      (MessageDecl.outlineAll file scope parent.isSome ms)
  | [] => by
    rw [declareMessages, MessageDecl.outlineAll]
    exact (Claims.refl l).imp fun _ => trivial
  | m :: ms => by
    rw [declareMessages, MessageDecl.outlineAll]
    exact ((claims_declareMessage l file scope parent m).trans
      (claims_declareMessages _ file scope parent ms)).imp Outline.distinctMembers_append.mp

end

theorem claims_declareMethod (l : Linker) (file : FileScope) (service : String)
    (m : MethodDecl) : Claims l (l.declareMethod file service m) True (m.outline file service) := by
  let d : Definition :=
    ⟨.method, Dotted.join service m.name, some file.name, some l.methods.size⟩
  have hd : d.unplaced ∈ (m.outline file service).definitions := by
    simp [MethodDecl.outline, d, Definition.unplaced]
  rcases declareMethod_cases l file service m with ⟨-, heq⟩ | ⟨htaken, p, heq⟩
  · rw [heq]
    exact .of_entered d.unplaced d rfl rfl rfl hd fun _ => .of_reports rfl
  · rw [heq]
    exact .of_taken (d := d.unplaced) htaken (by simp [d, Definition.unplaced]) hd _ p

theorem claims_declareService (l : Linker) (file : FileScope) (s : ServiceDecl) :
    Claims l (l.declareService file s) True (s.outline file) := by
  let d : Definition := ⟨.service, Dotted.join file.package s.name, some file.name, none⟩
  rcases declareService_cases l file s with ⟨-, heq⟩ | ⟨htaken, p, heq⟩
  · have hentry : Claims l (l.enter d) True { Outline.empty with definitions := [d] } :=
      .of_entered d d rfl rfl rfl (List.mem_singleton_self _) fun _ => .of_reports rfl
    have hmethods := Claims.foldl (fun l m => claims_declareMethod l file d.fullName m) (l.enter d)
      s.methods
    rw [heq]
    exact (hentry.trans hmethods).imp (by simp)
  · rw [heq]
    exact .of_taken (d := d) htaken (by simp [d]) (by simp [ServiceDecl.outline, d]) _ p

/-- While a file is declared, no name is reported as already defined unless the file declares it
twice, or it was defined before. -/
theorem claims_declare (l : Linker) (f : SchemaFile) :
    Claims l (l.declare f) f.outline.DistinctMembers f.outline := by
  have hfile : Claims l (l.addFile f.scope) True .empty := .of_kept rfl fun _ => .of_reports rfl
  have hpackage := claims_declarePackage (l.addFile f.scope) f.scope
  have hmessages (l' : Linker) := claims_declareMessages l' f.scope f.scope.package none f.messages
  have henums (l' : Linker) := claims_declareEnums l' f.scope f.scope.package none f.enums
  have hextends (l' : Linker) := Claims.foldl (fun l e => claims_declareExtend l f.scope
    f.scope.package e) l' f.extendBlocks
  have hservices (l' : Linker) := Claims.foldl (fun l s => claims_declareService l f.scope s) l'
    f.services
  refine (hfile.trans (hpackage.trans ((hmessages _).trans ((henums _).trans
    ((hextends _).trans (hservices _)))))).imp fun hdistinct => ?_
  simp only [SchemaFile.outline, Outline.distinctMembers_append] at hdistinct
  exact ⟨trivial, trivial, hdistinct.2.1, hdistinct.2.2.1, fun _ _ => trivial, fun _ _ => trivial⟩

/-! ## Linking -/

theorem isRedefinition_of_mem_referenceNotes {name : String} {position : Option Position}
    {r : Report} (hr : r ∈ l.referenceNotes scope name file position) :
    r.isRedefinition = false := by
  unfold referenceNotes missing at hr
  split at hr
  · simp at hr
  · obtain rfl := List.mem_singleton.mp hr
    split <;> rfl

theorem isRedefinition_of_mem_typeNotes {f : FieldEntry} {r : Report} (hr : r ∈ l.typeNotes f) :
    r.isRedefinition = false := by
  unfold typeNotes at hr
  split at hr
  · simp at hr
  · split at hr
    · exact isRedefinition_of_mem_referenceNotes hr
    · split at hr
      · simp at hr
      · obtain rfl := List.mem_singleton.mp hr
        rfl

theorem isRedefinition_of_mem_methodNotes {m : MethodEntry} {r : Report} (hr : r ∈ l.methodNotes m) :
    r.isRedefinition = false := by
  have hend {type : String} (hr : r ∈ l.methodEndNotes m type) : r.isRedefinition = false := by
    unfold methodEndNotes at hr
    split at hr
    · exact isRedefinition_of_mem_referenceNotes hr
    · split_ifs at hr
      · simp at hr
      · obtain rfl := List.mem_singleton.mp hr
        rfl
  exact (List.mem_append.mp hr).elim hend hend

theorem isRedefinition_of_mem_extensionNotes {members : List FieldEntry} {e : ExtensionEntry}
    {r : Report} (hr : r ∈ l.extensionNotes members e) : r.isRedefinition = false := by
  unfold extensionNotes at hr
  simp only at hr
  split at hr
  · exact isRedefinition_of_mem_referenceNotes hr
  · split at hr
    · split_ifs at hr
      · split at hr
        · obtain rfl := List.mem_singleton.mp hr
          rfl
        · simp at hr
      · obtain rfl := List.mem_singleton.mp hr
        rfl
    · obtain rfl := List.mem_singleton.mp hr
      rfl

theorem isRedefinition_of_mem_attachingNotes {members : List FieldEntry}
    {es : List ExtensionEntry} {r : Report} (hr : r ∈ l.attachingNotes members es) :
    r.isRedefinition = false := by
  induction es generalizing members with
  | nil => simp [attachingNotes] at hr
  | cons e es ih =>
    rcases List.mem_append.mp hr with hr | hr
    · exact isRedefinition_of_mem_extensionNotes hr
    · split at hr
      · exact ih hr
      · exact ih hr

theorem isRedefinition_of_mem_followNotes {r : Report} (hr : r ∈ l.followNotes) :
    r.isRedefinition = false := by
  simp only [followNotes, List.mem_append, List.mem_flatMap] at hr
  rcases hr with ((⟨f, -, hr⟩ | hr) | ⟨f, -, hr⟩) | ⟨m, -, hr⟩
  · exact isRedefinition_of_mem_typeNotes hr
  · exact isRedefinition_of_mem_attachingNotes hr
  · exact isRedefinition_of_mem_typeNotes hr
  · exact isRedefinition_of_mem_methodNotes hr

/-- Making the records reports options only, whether or not it ends with an overflow. -/
theorem adds_fieldRecords (l : Linker) (fs : List (FieldEntry × Option String)) :
    Adds l (l.fieldRecords fs).1 := by
  induction fs generalizing l with
  | nil => exact .of_reports rfl
  | cons f fs ih =>
    obtain ⟨f, extensionScope⟩ := f
    have hdefault : Adds l (l.fieldDefault f f.label).1 := by
      unfold fieldDefault
      split
      · exact .of_reports rfl
      · split
        · exact .of_reports rfl
        · exact .report rfl
        · exact .of_reports rfl
    have hpacked (l : Linker) : Adds l (l.fieldPacked f f.label).1 := by
      unfold fieldPacked
      split_ifs
      · exact .of_reports rfl
      · simp only
        split
        · exact .of_reports rfl
        · split
          · exact .of_reports rfl
          · exact .report rfl
    rw [Linker.fieldRecords]
    simp only [FieldEntry.label] at hdefault hpacked
    rcases hfield : l.fieldDefault f (f.decl.label.getD .optional) with ⟨l₁, e | default⟩ <;>
      rw [hfield] at hdefault
    · exact hdefault
    · exact hdefault.trans ((hpacked l₁).trans (ih _))

/-- Linking reports no name as already defined. -/
theorem Coherent.adds_link (hl : l.Coherent) : Adds l l.link.1 := by
  obtain ⟨l₁, hfollowed, heq⟩ := hl.followed
  have hfollow : Adds l l₁ := by
    intro r hr
    rw [hfollowed.notes] at hr
    exact (List.mem_append.mp hr).imp_right isRedefinition_of_mem_followNotes
  have hrecords := adds_fieldRecords l₁ l.linkedMembers
  rw [heq]
  rcases hmade : l₁.fieldRecords l.linkedMembers with ⟨l₂, e | records⟩ <;> rw [hmade] at hrecords
  · exact hfollow.trans hrecords
  · exact hfollow.trans hrecords

end Linker

end ProtoSchema
