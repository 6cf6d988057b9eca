import ProtoSchema.Proofs.Linker.Clean
import ProtoSchema.Proofs.Linker.Coherence

/-!
# Declaring beside other definitions

Two linkers declare the same, one of which has some definitions more (`Beside`). If none of these
clashes with what the other linker ends with, the same declarations are accepted by both, so that
the first still has just the extra definitions more. `Alongside` says this of one operation, and
also that the operation enters nothing but definitions of its outline.
-/

namespace ProtoSchema

/-- A definition of a file belongs to it, unless it is the package that the file is in or one around
that. -/
def Definition.OwnedBy (file : FileScope) (d : Definition) : Prop :=
  if d.kind = .package then d.file = none ∧ d.fullName ∈ Dotted.packages file.package
  else d.file = some file.name

/-! ## The definitions of outlines -/

section

variable {file : FileScope} {o o' : Outline}

/-- All definitions of an outline are those of a file. -/
def Outline.OwnedBy (file : FileScope) (o : Outline) : Prop := ∀ d ∈ o.definitions, d.OwnedBy file

theorem Outline.OwnedBy.append (h : o.OwnedBy file) (h' : o'.OwnedBy file) :
    (o ++ o').OwnedBy file := by
  intro d hd
  rcases List.mem_append.mp hd with hd | hd
  · exact h d hd
  · exact h' d hd

theorem Outline.OwnedBy.flatten {α : Type} {outline : α → Outline}
    (h : ∀ x, (outline x).OwnedBy file) (xs : List α) :
    (Outline.flatten (xs.map outline)).OwnedBy file := by
  intro d hd
  simp only [Outline.flatten, List.flatMap_map, List.mem_flatMap] at hd
  obtain ⟨x, -, hd⟩ := hd
  exact h x d hd

/-- An outline without definitions. -/
theorem Outline.OwnedBy.of_none (h : o.definitions = []) : o.OwnedBy file := by
  intro d hd
  rw [h] at hd
  exact absurd hd (by simp)

/-- An outline with one definition, which is no package. -/
theorem Outline.OwnedBy.of_one {kind : DefinitionKind} {fullName : String}
    (h : o.definitions = [⟨kind, fullName, some file.name, none⟩]) (hkind : kind ≠ .package) :
    o.OwnedBy file := by
  intro d hd
  rw [h, List.mem_singleton] at hd
  rw [hd, Definition.OwnedBy, if_neg hkind]

theorem FileScope.packageOutline_ownedBy (file : FileScope) : file.packageOutline.OwnedBy file := by
  intro d hd
  obtain ⟨name, hname, rfl⟩ := List.mem_map.mp hd
  exact (if_pos rfl).mpr ⟨rfl, hname⟩

theorem EnumDecl.outline_ownedBy (scope : String) (isNested : Bool) (e : EnumDecl) :
    (e.outline file scope isNested).OwnedBy file :=
  .of_one rfl (by simp)

theorem FieldDecl.outline_ownedBy (scope : String) (f : FieldDecl) :
    (f.outline file scope).OwnedBy file := by
  unfold FieldDecl.outline
  split
  · have hentry (f : FieldEntry) : (Outline.ofField f).OwnedBy file := .of_none rfl
    exact (((Outline.OwnedBy.of_one rfl (by simp)).append (hentry _)).append (hentry _)).append
      (hentry _)
  · exact .of_none rfl
  · exact .of_none rfl

theorem ExtendDecl.outline_ownedBy (scope : String) (e : ExtendDecl) :
    (e.outline file scope).OwnedBy file :=
  .of_none rfl

mutual

theorem MessageDecl.outline_ownedBy (scope : String) (isNested : Bool) :
    (m : MessageDecl) → (m.outline file scope isNested).OwnedBy file
  | ⟨name, fields, messages, enums, extendBlocks, _, _, _, _, _, _⟩ => by
    rw [MessageDecl.outline]
    refine .append (.of_one rfl (by simp)) (.append ?_ (.append ?_ (.append ?_ ?_)))
    · exact .flatten (EnumDecl.outline_ownedBy _ true) enums
    · exact MessageDecl.outlineAll_ownedBy _ true messages
    · exact .flatten (FieldDecl.outline_ownedBy _) fields
    · exact .flatten (ExtendDecl.outline_ownedBy _) extendBlocks

theorem MessageDecl.outlineAll_ownedBy (scope : String) (isNested : Bool) :
    (ms : List MessageDecl) → (MessageDecl.outlineAll file scope isNested ms).OwnedBy file
  | [] => by
    rw [MessageDecl.outlineAll]
    exact .of_none rfl
  | m :: ms => by
    rw [MessageDecl.outlineAll]
    exact (MessageDecl.outline_ownedBy scope isNested m).append
      (MessageDecl.outlineAll_ownedBy scope isNested ms)

end

theorem ServiceDecl.outline_ownedBy (s : ServiceDecl) : (s.outline file).OwnedBy file :=
  .append (.of_one rfl (by simp)) (.flatten (fun _ => .of_one rfl (by simp)) s.methods)

theorem SchemaFile.outline_ownedBy (f : SchemaFile) : f.outline.OwnedBy f.scope :=
  .append f.scope.packageOutline_ownedBy
    (.append (MessageDecl.outlineAll_ownedBy _ false f.messages)
      (.append (.flatten (EnumDecl.outline_ownedBy _ false) f.enums)
        (.append (.flatten (ExtendDecl.outline_ownedBy _) f.extendBlocks)
          (.flatten ServiceDecl.outline_ownedBy f.services))))

end

/-! ## Two runs -/

namespace Linker

variable {l l' l'' m m' m'' : Linker} {extra new new' : List Definition} {file : FileScope}

/-- `m` has the definitions of `l` and some of `extra` besides, places apart. -/
structure Beside (extra : List Definition) (l m : Linker) : Prop where
  kept : ∀ name d, l.definition? name = some d →
    ∃ e, m.definition? name = some e ∧ e.unplaced = d.unplaced
  added : ∀ name e, l.definition? name = none → m.definition? name = some e → e.unplaced ∈ extra

/-- No definition clashes with an extra one. -/
def Clear (extra : List Definition) (l : Linker) : Prop :=
  ∀ d ∈ l.definitions, ∀ e ∈ extra, d.Compatible e

/-- The same is done from `l` to `l'` and from `m` to `m'`. No definitions but those of `new` are
entered in `l`, and if none of them clashes with `extra`, then `m` does not come to have more than
these besides. -/
structure Alongside (extra : List Definition) (l l' m m' : Linker) (new : List Definition) :
    Prop where
  grown : l.definitions <+: l'.definitions
  entered : ∀ d ∈ l'.definitions, d ∈ l.definitions ∨ d.unplaced ∈ new
  beside : Clear extra l' → Beside extra l m → Beside extra l' m'

theorem Beside.congr (h : Beside extra l m) (hl : l'.definitions = l.definitions)
    (hm : m'.definitions = m.definitions) : Beside extra l' m' := by
  obtain ⟨hkept, hadded⟩ := h
  simp only [definition?] at hkept hadded
  constructor
  · simpa only [definition?, hl, hm] using hkept
  · simpa only [definition?, hl, hm] using hadded

theorem definition?_append_singleton {d : Definition} (h : l'.definitions = l.definitions ++ [d])
    (name : String) : l'.definition? name =
      (l.definition? name).or (if d.fullName = name then some d else none) := by
  simp [definition?, h, List.find?_append, List.find?_singleton]

theorem unplaced_fullName (d : Definition) : d.unplaced.fullName = d.fullName := rfl

theorem fullName_of_definition? {name : String} {d : Definition} (h : l.definition? name = some d) :
    d.fullName = name := by
  unfold definition? at h
  exact of_decide_eq_true (List.find?_some h :)

/-- The same definition is entered in both. -/
theorem Beside.enter (h : Beside extra l m) {d e : Definition} (hsame : e.unplaced = d.unplaced)
    (hl : l'.definitions = l.definitions ++ [d]) (hm : m'.definitions = m.definitions ++ [e])
    (hfree : m.definition? d.fullName = none) : Beside extra l' m' := by
  have hname : e.unplaced.fullName = d.unplaced.fullName := by rw [hsame]
  rw [unplaced_fullName, unplaced_fullName] at hname
  constructor
  · intro name d' hd'
    rw [definition?_append_singleton hl] at hd'
    rw [definition?_append_singleton hm, hname]
    cases hold : l.definition? name with
    | some old =>
      rw [hold, Option.some_or] at hd'
      cases hd'
      obtain ⟨e', he', hsame'⟩ := h.kept name d' hold
      exact ⟨e', by simp [he'], hsame'⟩
    | none =>
      rw [hold, Option.none_or] at hd'
      split_ifs at hd' with heq
      cases hd'
      rw [← heq, hfree, Option.none_or, if_pos rfl]
      exact ⟨e, rfl, hsame⟩
  · intro name e' hnone he'
    rw [definition?_append_singleton hl, Option.or_eq_none_iff] at hnone
    rw [definition?_append_singleton hm, hname] at he'
    have hne : d.fullName ≠ name := by
      intro heq
      simp [heq] at hnone
    rw [if_neg hne, Option.or_none] at he'
    exact h.added name e' hnone.1 he'

namespace Alongside

theorem refl (l m : Linker) : Alongside extra l l m m new :=
  ⟨List.prefix_rfl, fun _ hd => .inl hd, fun _ h => h⟩

theorem trans (h : Alongside extra l l' m m' new) (h' : Alongside extra l' l'' m' m'' new') :
    Alongside extra l l'' m m'' (new ++ new') := by
  refine ⟨h.grown.trans h'.grown, fun d hd => ?_, fun hclear hbeside => ?_⟩
  · rw [List.mem_append]
    rcases h'.entered d hd with hd | hd
    · exact (h.entered d hd).imp_right .inl
    · exact .inr (.inr hd)
  · have hclear' : Clear extra l' := fun d hd => hclear d (h'.grown.subset hd)
    exact h'.beside hclear (h.beside hclear' hbeside)

theorem mono (h : Alongside extra l l' m m' new) (hnew : new ⊆ new') :
    Alongside extra l l' m m' new' :=
  ⟨h.grown, fun d hd => (h.entered d hd).imp_right fun hd => hnew hd, h.beside⟩

/-- Something else than the definitions is changed. -/
theorem of_eq (hl : l'.definitions = l.definitions) (hm : m'.definitions = m.definitions) :
    Alongside extra l l' m m' new :=
  ⟨hl ▸ List.prefix_rfl, fun _ hd => .inl (hl ▸ hd), fun _ hbeside => hbeside.congr hl hm⟩

/-- What is declared one after the other. -/
theorem foldl {α : Type} {step step' : Linker → α → Linker} {outline : α → Outline}
    (hstep : ∀ l m x, Alongside extra l (step l x) m (step' m x) (outline x).definitions)
    (l m : Linker) (xs : List α) :
    Alongside extra l (xs.foldl step l) m (xs.foldl step' m)
      (Outline.flatten (xs.map outline)).definitions := by
  induction xs generalizing l m with
  | nil => exact refl l m
  | cons x xs ih =>
    rw [List.map_cons, Outline.flatten_cons, Outline.append_definitions]
    exact (hstep l m x).trans (ih _ _)

theorem congr (h : Alongside extra l l' m m' new) (hl : l''.definitions = l'.definitions)
    (hm : m''.definitions = m'.definitions) : Alongside extra l l'' m m'' new := by
  refine ⟨hl ▸ h.grown, fun d hd => h.entered d (hl ▸ hd), fun hclear hbeside => ?_⟩
  exact (h.beside (fun d hd => hclear d (hl ▸ hd)) hbeside).congr hl hm

/-- Something that is no package is declared under a name. If the name is free, it is entered, and
what it holds is declared; if the name is taken, then no definitions are changed. -/
theorem guarded {d e : Definition} {le lb me mb : Linker} (hsame : e.unplaced = d.unplaced)
    (hkind : d.kind ≠ .package) (hnew : d.unplaced ∈ new)
    (hd : le.definitions = l.definitions ++ [d]) (he : me.definitions = m.definitions ++ [e])
    (hbody : Alongside extra le lb me mb new)
    (hl : (l.definition? d.fullName = none ∧ l'.definitions = lb.definitions) ∨
      ((l.definition? d.fullName).isSome ∧ l'.definitions = l.definitions))
    (hm : (m.definition? d.fullName = none ∧ m'.definitions = mb.definitions) ∨
      ((m.definition? d.fullName).isSome ∧ m'.definitions = m.definitions)) :
    Alongside extra l l' m m' new := by
  rcases hl with ⟨hfree, hl⟩ | ⟨htaken, hl⟩
  · have hfirst : l.definitions ++ [d] <+: l'.definitions := hl ▸ hd ▸ hbody.grown
    refine ⟨(List.prefix_append _ _).trans hfirst, fun d' hd' => ?_, fun hclear hbeside => ?_⟩
    · rcases hbody.entered d' (hl ▸ hd') with hd' | hd'
      · rw [hd, List.mem_append, List.mem_singleton] at hd'
        exact hd'.imp_right fun heq => by rwa [heq]
      · exact .inr hd'
    · rcases hm with ⟨hfree', hm⟩ | ⟨htaken', -⟩
      · exact (hbody.congr hl hm).beside hclear (hbeside.enter hsame hd he hfree')
      · -- an extra definition under this name would clash with the one that is entered
        obtain ⟨old, hold⟩ := Option.isSome_iff_exists.mp htaken'
        have hin := hbeside.added _ old hfree hold
        have hname := fullName_of_definition? hold
        exact absurd (hclear d (hfirst.subset (by simp)) _ hin hname.symm).1 hkind
  · refine ⟨hl ▸ List.prefix_rfl, fun d' hd' => .inl (hl ▸ hd'), fun _ hbeside => ?_⟩
    rcases hm with ⟨hfree', -⟩ | ⟨-, hm⟩
    · -- what is taken in the first is taken in the other
      obtain ⟨old, hold⟩ := Option.isSome_iff_exists.mp htaken
      obtain ⟨old', hold', -⟩ := hbeside.kept _ old hold
      rw [hfree'] at hold'
      cases hold'
    · exact hbeside.congr hl hm

end Alongside

/-! ## Packages, enums and extensions -/

theorem alongside_definePackage
    (hextra : ∀ e ∈ extra, e.kind = .package → e.file = none) (l m : Linker)
    (file : FileScope) (name : String) :
    let d : Definition := ⟨.package, name, none, none⟩
    Alongside extra l (l.define file none d).1 m (m.define file none d).1 [d] := by
  intro d
  -- where the name is taken, by a package or something else, no definitions are changed
  have htaken (n : Linker) (h : (n.definition? name).isSome) :
      (n.define file none d).1.definitions = n.definitions := by
    obtain ⟨old, hold⟩ := Option.isSome_iff_exists.mp h
    simp only [define, hold, d]
    split_ifs <;> rfl
  cases hl : l.definition? name with
  | none =>
    have hfree : l.define file none d = (l.enter d, true) := define_of_free hl
    rw [hfree]
    refine ⟨List.prefix_append _ _, fun d' hd' => ?_, fun hclear hbeside => ?_⟩
    · exact (List.mem_append.mp hd').imp_right fun h => by
        rw [List.mem_singleton.mp h]
        exact List.mem_singleton_self d
    · cases hm : m.definition? name with
      | none =>
        have hfree' : m.define file none d = (m.enter d, true) := define_of_free hm
        rw [hfree']
        exact hbeside.enter rfl rfl rfl hm
      | some old =>
        -- the extra definition under this name is the same package
        have hin := hbeside.added name old hl hm
        have hname := fullName_of_definition? hm
        have hkind : old.kind = .package :=
          (hclear d (by simp [enter]) _ hin hname.symm).2
        have hold : old.unplaced = d := by
          have hfile : old.unplaced.file = none := hextra _ hin hkind
          change old.file = none at hfile
          simp [Definition.unplaced, hkind, hname, hfile, d]
        have hm' := htaken m (by simp [hm])
        refine Beside.congr (l := l.enter d) (m := m) ?_ rfl hm'
        constructor
        · intro name' d' hd'
          rw [definition?_append_singleton rfl] at hd'
          cases hl' : l.definition? name' with
          | some d'' =>
            rw [hl', Option.some_or] at hd'
            cases hd'
            exact hbeside.kept name' d' hl'
          | none =>
            rw [hl', Option.none_or] at hd'
            split_ifs at hd' with heq
            cases hd'
            exact ⟨old, heq ▸ hm, hold⟩
        · intro name' e hnone he
          rw [definition?_append_singleton rfl, Option.or_eq_none_iff] at hnone
          exact hbeside.added name' e hnone.1 he
  | some old =>
    have hl' := htaken l (by simp [hl])
    refine ⟨hl' ▸ List.prefix_rfl, fun d' hd' => .inl (hl' ▸ hd'), fun _ hbeside => ?_⟩
    obtain ⟨old', hold', -⟩ := hbeside.kept name old hl
    exact hbeside.congr hl' (htaken m (by simp [hold']))

theorem alongside_declarePackage
    (hextra : ∀ e ∈ extra, e.kind = .package → e.file = none) (l m : Linker)
    (file : FileScope) :
    Alongside extra l (l.declarePackage file) m (m.declarePackage file)
      file.packageOutline.definitions := by
  let outline (name : String) : Outline :=
    { Outline.empty with definitions := [⟨.package, name, none, none⟩] }
  have hfold : Alongside extra l (l.declarePackage file) m (m.declarePackage file)
      (Outline.flatten ((Dotted.packages file.package).map outline)).definitions := by
    refine .foldl (fun l m name => ?_) l m _
    exact alongside_definePackage hextra l m file name
  refine hfold.mono ?_
  simp [Outline.flatten, FileScope.packageOutline, outline, List.flatMap_map,
    ← List.map_eq_flatMap]

theorem alongside_declareEnum (l m : Linker) (file : FileScope) (scope : String)
    (parent parent' : Option Nat) (isNested : Bool) (e : EnumDecl) :
    Alongside extra l (l.declareEnum file scope parent e) m (m.declareEnum file scope parent' e)
      (e.outline file scope isNested).definitions := by
  let d (n : Linker) : Definition :=
    ⟨.enum, Dotted.join scope e.name, some file.name, some n.enums.size⟩
  -- an enum holds nothing that has a full name
  have hcases (n : Linker) (parent : Option Nat) :
      (n.definition? (Dotted.join scope e.name) = none ∧
        (n.declareEnum file scope parent e).definitions = (n.enter (d n)).definitions) ∨
      ((n.definition? (Dotted.join scope e.name)).isSome ∧
        (n.declareEnum file scope parent e).definitions = n.definitions) := by
    cases h : n.definition? (Dotted.join scope e.name) with
    | none =>
      obtain ⟨rs, -, heq⟩ := declareEnum_of_free file parent e h
      refine .inl ⟨rfl, ?_⟩
      rw [heq]
      exact congrArg Inventory.definitions (inventory_enterEnum (n.noteAll rs) file scope parent e)
    | some old =>
      obtain ⟨p, hp⟩ := declareEnum_of_taken file parent e h
      exact .inr ⟨rfl, by rw [hp]; rfl⟩
  exact .guarded (d := d l) (e := d m) rfl (by simp [d])
    (by simp [EnumDecl.outline, d, Definition.unplaced]) rfl rfl (.refl _ _) (hcases l parent)
    (hcases m parent')

/-! ## Messages -/

/-- Declares one field of a message, which is dropped if it breaks a rule. -/
def declareField (l : Linker) (file : FileScope) (owner : Nat) (scope : String)
    (rules : FieldRules) (f : FieldDecl) : Linker :=
  match rules.problem? f with
  | some p => l.report file (some f.position) p
  | none =>
    match f.shape with
    | .map key value valuePosition =>
      match l.declareMapEntry file owner scope f key value valuePosition with
      | (l, true) => l.addField file owner scope (mapField f)
      | (l, false) => l
    | .named .. | .group _ => l.addField file owner scope f

/-- Fields are declared one after the other, each by the rules that those before leave. -/
theorem declareFields_cons (l : Linker) (file : FileScope) (owner : Nat) (scope : String)
    (rules : FieldRules) (f : FieldDecl) (fs : List FieldDecl) :
    l.declareFields file owner scope rules (f :: fs) =
      (l.declareField file owner scope rules f).declareFields file owner scope
        (if (rules.problem? f).isSome then rules else rules.take f) fs := by
  rw [declareFields.eq_def]
  unfold declareField
  simp only
  cases hproblem : rules.problem? f with
  | some p => rfl
  | none =>
    cases hshape : f.shape with
    | named | group => rfl
    | map key value position =>
      rcases hentry : l.declareMapEntry file owner scope f key value position with ⟨l', _ | _⟩ <;>
        simp only [hentry] <;> rfl

theorem alongside_declareField (l m : Linker) (file : FileScope) (owner owner' : Nat)
    (scope : String) (rules : FieldRules) (f : FieldDecl) :
    Alongside extra l (l.declareField file owner scope rules f) m
      (m.declareField file owner' scope rules f) (f.outline file scope).definitions := by
  unfold declareField
  cases hproblem : rules.problem? f with
  | some p => exact .of_eq rfl rfl
  | none =>
    cases hshape : f.shape with
    | named | group => exact .of_eq rfl rfl
    | map key value position =>
      let d (n : Linker) : Definition :=
        ⟨.message, Dotted.join scope (MapEntry.name f.name), some file.name, some n.messages.size⟩
      have hcases (n : Linker) (owner : Nat) :
          (n.definition? (Dotted.join scope (MapEntry.name f.name)) = none ∧
            (match n.declareMapEntry file owner scope f key value position with
              | (n, true) => n.addField file owner scope (mapField f)
              | (n, false) => n).definitions = (n.enter (d n)).definitions) ∨
          ((n.definition? (Dotted.join scope (MapEntry.name f.name))).isSome ∧
            (match n.declareMapEntry file owner scope f key value position with
              | (n, true) => n.addField file owner scope (mapField f)
              | (n, false) => n).definitions = n.definitions) := by
        rcases declareMapEntry_cases n file owner scope f key value position with
          ⟨hfree, heq⟩ | ⟨htaken, p, heq⟩
        · refine .inl ⟨hfree, ?_⟩
          rw [heq]
          exact congrArg Inventory.definitions
            (inventory_enterMessage n file scope (some owner) (MapEntry.name f.name) true [])
        · exact .inr ⟨htaken, by rw [heq]; rfl⟩
      refine .guarded (d := d l) (e := d m) rfl (by simp [d]) ?_ rfl rfl (.refl _ _)
        (hcases l owner) (hcases m owner')
      simp [FieldDecl.outline, hshape, FieldDecl.mapOutline, Outline.ofMessage, Outline.ofField,
        Outline.empty, d, Definition.unplaced]

theorem alongside_declareFields (l m : Linker) (file : FileScope) (owner owner' : Nat)
    (scope : String) (rules : FieldRules) (fs : List FieldDecl) :
    Alongside extra l (l.declareFields file owner scope rules fs) m
      (m.declareFields file owner' scope rules fs)
      (Outline.flatten (fs.map (FieldDecl.outline file scope))).definitions := by
  induction fs generalizing l m rules with
  | nil => exact .of_eq rfl rfl
  | cons f fs ih =>
    rw [declareFields_cons, declareFields_cons, List.map_cons, Outline.flatten_cons,
      Outline.append_definitions]
    exact (alongside_declareField l m file owner owner' scope rules f).trans (ih _ _ _)

theorem alongside_declareExtends (l m : Linker) (file : FileScope) (scope : String)
    (blocks : List ExtendDecl) :
    Alongside extra l (blocks.foldl (fun l e => l.declareExtend file scope e) l) m
      (blocks.foldl (fun l e => l.declareExtend file scope e) m)
      (Outline.flatten (blocks.map (ExtendDecl.outline file scope))).definitions := by
  refine .foldl (fun l m e => ?_) l m blocks
  exact .of_eq rfl rfl

theorem alongside_declareEnums (l m : Linker) (file : FileScope) (scope : String)
    (parent parent' : Option Nat) (isNested : Bool) (enums : List EnumDecl) :
    Alongside extra l (enums.foldl (fun l e => l.declareEnum file scope parent e) l) m
      (enums.foldl (fun l e => l.declareEnum file scope parent' e) m)
      (Outline.flatten (enums.map (EnumDecl.outline file scope isNested))).definitions := by
  refine .foldl (fun l m e => ?_) l m enums
  exact alongside_declareEnum l m file scope parent parent' isNested e

mutual

theorem alongside_declareMessage (l m : Linker) (file : FileScope) (scope : String)
    (parent parent' : Option Nat) (isNested : Bool) :
    (d : MessageDecl) → Alongside extra l (l.declareMessage file scope parent d) m
      (m.declareMessage file scope parent' d) (d.outline file scope isNested).definitions
  | ⟨name, fields, messages, enums, extendBlocks, oneofs, options, extensionRanges,
      reservedRanges, reservedNames, position⟩ => by
    let decl : MessageDecl := ⟨name, fields, messages, enums, extendBlocks, oneofs, options,
      extensionRanges, reservedRanges, reservedNames, position⟩
    let fullName := Dotted.join scope name
    let d (n : Linker) : Definition := ⟨.message, fullName, some file.name, some n.messages.size⟩
    let entered (n : Linker) (parent : Option Nat) : Linker :=
      n.enterMessage file scope parent name false extensionRanges
    have hentered (n : Linker) (parent : Option Nat) :
        (entered n parent).definitions = n.definitions ++ [d n] :=
      congrArg Inventory.definitions
        (inventory_enterMessage n file scope parent name false extensionRanges)
    have hcases (n : Linker) (parent : Option Nat) :
        (n.definition? fullName = none ∧ (n.declareMessage file scope parent decl).definitions =
          ((entered n parent).declareBody file fullName n.messages.size decl).definitions) ∨
        ((n.definition? fullName).isSome ∧
          (n.declareMessage file scope parent decl).definitions = n.definitions) := by
      rcases declareMessage_cases n file scope parent decl with ⟨hfree, heq⟩ | ⟨htaken, p, heq⟩
      · exact .inl ⟨hfree, congrArg definitions heq⟩
      · exact .inr ⟨htaken, by rw [heq]; rfl⟩
    rw [MessageDecl.outline]
    -- the body is declared in turn: enums, messages, fields and extensions
    have hbody : Alongside extra (entered l parent)
        ((entered l parent).declareBody file fullName l.messages.size decl) (entered m parent')
        ((entered m parent').declareBody file fullName m.messages.size decl) _ :=
      (alongside_declareEnums _ _ file fullName _ _ true enums).trans
        ((alongside_declareMessages _ _ file fullName _ _ true messages).trans
          ((alongside_declareFields _ _ file _ _ fullName _ fields).trans
            (alongside_declareExtends _ _ file fullName extendBlocks)))
    refine .guarded (d := d l) (e := d m) rfl (by simp [d]) ?_ (hentered l parent)
      (hentered m parent') (hbody.mono ?_) (hcases l parent) (hcases m parent')
    · simp [Outline.ofMessage, d, Definition.unplaced, fullName]
    · exact List.subset_append_right _ _

theorem alongside_declareMessages (l m : Linker) (file : FileScope) (scope : String)
    (parent parent' : Option Nat) (isNested : Bool) :
    (ds : List MessageDecl) → Alongside extra l (l.declareMessages file scope parent ds) m
      (m.declareMessages file scope parent' ds)
      (MessageDecl.outlineAll file scope isNested ds).definitions
  | [] => by
    rw [declareMessages, declareMessages]
    exact .refl l m
  | d :: ds => by
    rw [declareMessages, declareMessages, MessageDecl.outlineAll, Outline.append_definitions]
    exact (alongside_declareMessage l m file scope parent parent' isNested d).trans
      (alongside_declareMessages _ _ file scope parent parent' isNested ds)

end

/-! ## Services and files -/

theorem alongside_declareMethod (l m : Linker) (file : FileScope) (service : String)
    (d : MethodDecl) :
    Alongside extra l (l.declareMethod file service d) m (m.declareMethod file service d)
      (d.outline file service).definitions := by
  let fullName := Dotted.join service d.name
  let entered (n : Linker) : Definition := ⟨.method, fullName, some file.name, some n.methods.size⟩
  have hcases (n : Linker) :
      (n.definition? fullName = none ∧
        (n.declareMethod file service d).definitions = (n.enter (entered n)).definitions) ∨
      ((n.definition? fullName).isSome ∧
        (n.declareMethod file service d).definitions = n.definitions) := by
    rcases declareMethod_cases n file service d with ⟨hfree, heq⟩ | ⟨htaken, p, heq⟩
    · exact .inl ⟨hfree, by rw [heq]; rfl⟩
    · exact .inr ⟨htaken, by rw [heq]; rfl⟩
  exact .guarded (d := entered l) (e := entered m) rfl (by simp [entered])
    (by simp [MethodDecl.outline, entered, Definition.unplaced, fullName]) rfl rfl (.refl _ _)
    (hcases l) (hcases m)

theorem alongside_declareService (l m : Linker) (file : FileScope) (s : ServiceDecl) :
    Alongside extra l (l.declareService file s) m (m.declareService file s)
      (s.outline file).definitions := by
  let d : Definition := ⟨.service, Dotted.join file.package s.name, some file.name, none⟩
  let body (n : Linker) : Linker :=
    s.methods.foldl (fun l m => l.declareMethod file d.fullName m) (n.enter d)
  have hcases (n : Linker) :
      (n.definition? d.fullName = none ∧
        (n.declareService file s).definitions = (body n).definitions) ∨
      ((n.definition? d.fullName).isSome ∧
        (n.declareService file s).definitions = n.definitions) := by
    rcases declareService_cases n file s with ⟨hfree, heq⟩ | ⟨htaken, p, heq⟩
    · exact .inl ⟨hfree, congrArg definitions heq⟩
    · exact .inr ⟨htaken, by rw [heq]; rfl⟩
  have hbody : Alongside extra (l.enter d) (body l) (m.enter d) (body m)
      (Outline.flatten (s.methods.map (MethodDecl.outline file d.fullName))).definitions := by
    refine .foldl (fun l m x => ?_) _ _ s.methods
    exact alongside_declareMethod l m file d.fullName x
  refine .guarded (d := d) (e := d) rfl (by simp [d]) ?_ rfl rfl (hbody.mono ?_) (hcases l)
    (hcases m)
  · simp [ServiceDecl.outline, d, Definition.unplaced]
  · exact List.subset_append_right _ _

/-- A file is declared alongside. -/
theorem alongside_declare
    (hextra : ∀ e ∈ extra, e.kind = .package → e.file = none) (l m : Linker)
    (f : SchemaFile) :
    Alongside extra l (l.declare f) m (m.declare f) f.outline.definitions := by
  have hfile : Alongside extra l (l.addFile f.scope) m (m.addFile f.scope) [] := .of_eq rfl rfl
  have hservices (l m : Linker) : Alongside extra l
      (f.services.foldl (fun l s => l.declareService f.scope s) l) m
      (f.services.foldl (fun l s => l.declareService f.scope s) m)
      (Outline.flatten (f.services.map (ServiceDecl.outline f.scope))).definitions := by
    refine .foldl (fun l m s => ?_) l m f.services
    exact alongside_declareService l m f.scope s
  exact hfile.trans ((alongside_declarePackage hextra _ _ f.scope).trans
    ((alongside_declareMessages _ _ f.scope f.scope.package none none false f.messages).trans
      ((alongside_declareEnums _ _ f.scope f.scope.package none none false f.enums).trans
        ((alongside_declareExtends _ _ f.scope f.scope.package f.extendBlocks).trans
          (hservices _ _)))))

theorem alongside_declareAll (hextra : ∀ e ∈ extra, e.kind = .package → e.file = none)
    (l m : Linker) (files : List SchemaFile) :
    Alongside extra l (files.foldl declare l) m (files.foldl declare m)
      (Outline.ofFiles files).definitions :=
  .foldl (alongside_declare hextra) l m files

end Linker

end ProtoSchema
