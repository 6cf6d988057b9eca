import ProtoSchema.Proofs.Linker.Holdings
import ProtoSchema.Proofs.Linker.Clean
import ProtoSchema.Proofs.Schema.Fields

/-!
# Entered fields

Declaring enters some of the fields and extensions of an outline, in the order of the outline, and
none besides (`Enters`); what is refused is left out. So the entries of a linker are among those that
the declared files list (`enters_ofFiles`), and each has what all fields of its file have
(`SchemaFile.outline_fresh`).
-/

namespace ProtoSchema

namespace Linker

variable {l l' l'' : Linker} {file : FileScope} {scope : String} {o o' : Outline}

/-! ## Operations without fields -/

/-- From `l` to `l'` neither fields nor extensions have been entered. -/
structure KeepsFields (l l' : Linker) : Prop where
  fields : l'.inventory.fields = l.inventory.fields
  extensions : l'.inventory.extensions = l.inventory.extensions

namespace KeepsFields

theorem refl (l : Linker) : KeepsFields l l := ⟨rfl, rfl⟩

theorem trans (h : KeepsFields l l') (h' : KeepsFields l' l'') : KeepsFields l l'' :=
  ⟨h'.fields.trans h.fields, h'.extensions.trans h.extensions⟩

theorem foldl {α : Type} {step : Linker → α → Linker} (hstep : ∀ l a, KeepsFields l (step l a))
    (l : Linker) (xs : List α) : KeepsFields l (xs.foldl step l) := by
  induction xs generalizing l with
  | nil => exact .refl l
  | cons x xs ih => exact (hstep l x).trans (ih (step l x))

end KeepsFields

theorem keepsFields_declarePackage (l : Linker) (file : FileScope) :
    KeepsFields l (l.declarePackage file) := by
  refine .foldl (fun l name => ?_) l _
  unfold define
  split
  · exact ⟨rfl, rfl⟩
  · split <;> exact ⟨rfl, rfl⟩

theorem keepsFields_declareEnum (l : Linker) (file : FileScope) (scope : String)
    (parent : Option Nat) (e : EnumDecl) : KeepsFields l (l.declareEnum file scope parent e) := by
  cases hdefined : l.definition? (Dotted.join scope e.name) with
  | none =>
    obtain ⟨rs, -, heq⟩ := declareEnum_of_free file parent e hdefined
    rw [heq]
    constructor <;> simp
  | some old =>
    obtain ⟨p, heq⟩ := declareEnum_of_taken file parent e hdefined
    rw [heq]
    exact ⟨rfl, rfl⟩

theorem keepsFields_declareMethod (l : Linker) (file : FileScope) (service : String)
    (m : MethodDecl) : KeepsFields l (l.declareMethod file service m) := by
  rcases declareMethod_cases l file service m with ⟨-, heq⟩ | ⟨-, p, heq⟩
  · rw [heq]
    constructor <;> simp
  · rw [heq]
    exact ⟨rfl, rfl⟩

theorem keepsFields_declareService (l : Linker) (file : FileScope) (s : ServiceDecl) :
    KeepsFields l (l.declareService file s) := by
  rcases declareService_cases l file s with ⟨-, heq⟩ | ⟨-, p, heq⟩
  · have hentered (d : Definition) : KeepsFields l (l.enter d) := ⟨rfl, rfl⟩
    rw [heq]
    exact (hentered _).trans (.foldl (fun l m => keepsFields_declareMethod l file _ m) _ _)
  · rw [heq]
    exact ⟨rfl, rfl⟩

/-! ## Operations with fields -/

/-- From `l` to `l'` some fields and extensions of an outline have been entered, in its order. -/
structure Enters (l l' : Linker) (o : Outline) : Prop where
  fields : ∃ added, l'.inventory.fields.map FieldEntry.unowned =
    l.inventory.fields.map FieldEntry.unowned ++ added ∧ added.Sublist o.fields
  extensions : ∃ added, l'.inventory.extensions = l.inventory.extensions ++ added ∧
    added.Sublist o.extensions

theorem KeepsFields.enters (h : KeepsFields l l') : Enters l l' o :=
  ⟨⟨[], by rw [h.fields, List.append_nil], List.nil_sublist _⟩,
    ⟨[], by rw [h.extensions, List.append_nil], List.nil_sublist _⟩⟩

namespace Enters

theorem refl (l : Linker) : Enters l l o := (KeepsFields.refl l).enters

theorem trans (h : Enters l l' o) (h' : Enters l' l'' o') : Enters l l'' (o ++ o') := by
  obtain ⟨⟨fields, hfields, hin⟩, ⟨extensions, hextensions, hinside⟩⟩ := h
  obtain ⟨⟨fields', hfields', hin'⟩, ⟨extensions', hextensions', hinside'⟩⟩ := h'
  refine ⟨⟨fields ++ fields', ?_, hin.append hin'⟩,
    ⟨extensions ++ extensions', ?_, hinside.append hinside'⟩⟩
  · rw [hfields', hfields, List.append_assoc]
  · rw [hextensions', hextensions, List.append_assoc]

/-- What is declared one after the other. -/
theorem foldl {α : Type} {step : Linker → α → Linker} {outline : α → Outline}
    (hstep : ∀ l a, Enters l (step l a) (outline a)) (l : Linker) (xs : List α) :
    Enters l (xs.foldl step l) (.flatten (xs.map outline)) := by
  induction xs generalizing l with
  | nil => exact .refl l
  | cons x xs ih => exact (hstep l x).trans (ih (step l x))

end Enters

theorem enters_addField (l : Linker) (file : FileScope) (owner : Nat) (scope : String)
    (f : FieldDecl) : Enters l (l.addField file owner scope f) (.ofField (f.entry file scope)) := by
  refine ⟨⟨[f.entry file scope], ?_, List.Sublist.refl _⟩, ⟨[], ?_, List.nil_sublist _⟩⟩
  · simp [FieldDecl.entry, FieldEntry.unowned]
  · simp

theorem enters_declareExtend (l : Linker) (file : FileScope) (scope : String) (e : ExtendDecl) :
    Enters l (l.declareExtend file scope e) (e.outline file scope) := by
  refine ⟨⟨[], ?_, List.nil_sublist _⟩, ⟨_, ?_, List.Sublist.refl _⟩⟩
  · simp
  · rw [inventory_declareExtend]
    rfl

theorem enters_declareMapEntry (l : Linker) (file : FileScope) (owner : Nat) (scope : String)
    (f : FieldDecl) (key value : String) (position : Position) :
    Enters l (l.declareMapEntry file owner scope f key value position).1
      (f.mapOutline file scope key value position) := by
  rcases declareMapEntry_cases l file owner scope f key value position with ⟨-, heq⟩ | ⟨-, p, heq⟩
  · have hentry : KeepsFields l (l.enterMessage file scope (some owner) (MapEntry.name f.name) true
        []) := by
      constructor <;> simp
    rw [heq]
    exact (hentry.enters.trans (enters_addField _ file _ _ _)).trans (enters_addField _ file _ _ _)
  · rw [heq]
    exact KeepsFields.enters ⟨rfl, rfl⟩

theorem enters_declareFields (l : Linker) (file : FileScope) (owner : Nat) (scope : String)
    (rules : FieldRules) (fs : List FieldDecl) :
    Enters l (l.declareFields file owner scope rules fs)
      (.flatten (fs.map (FieldDecl.outline file scope))) := by
  induction fs generalizing l rules with
  | nil => exact .refl l
  | cons f fs ih =>
    have hplain (houtline : f.outline file scope = .ofField (f.entry file scope)) :
        Enters l ((l.addField file owner scope f).declareFields file owner scope (rules.take f) fs)
          (f.outline file scope ++ .flatten (fs.map (FieldDecl.outline file scope))) := by
      rw [houtline]
      exact (enters_addField l file owner scope f).trans (ih _ _)
    rw [List.map_cons, Outline.flatten_cons, declareFields.eq_def]
    simp only
    split
    · next p _ =>
      have hreport : Enters l (l.report file (some f.position) p) (f.outline file scope) :=
        KeepsFields.enters ⟨rfl, rfl⟩
      exact hreport.trans (ih _ rules)
    · split
      · next key value position hshape =>
        have houtline : f.outline file scope = f.mapOutline file scope key value position ++
            .ofField ((mapField f).entry file scope) := by simp [FieldDecl.outline, hshape]
        have hentry := enters_declareMapEntry l file owner scope f key value position
        rw [houtline]
        split
        · next l' heq =>
          rw [heq] at hentry
          exact (hentry.trans (enters_addField l' file owner scope (mapField f))).trans (ih _ _)
        · next l' heq =>
          rw [heq] at hentry
          exact (hentry.trans (.refl l')).trans (ih _ _)
      · next hshape => exact hplain (by simp [FieldDecl.outline, hshape])
      · next hshape => exact hplain (by simp [FieldDecl.outline, hshape])

mutual

theorem enters_declareMessage (l : Linker) (file : FileScope) (scope : String)
    (parent : Option Nat) : (m : MessageDecl) →
      Enters l (l.declareMessage file scope parent m) (m.outline file scope parent.isSome)
  | ⟨name, fields, messages, enums, extendBlocks, oneofs, options, extensionRanges,
      reservedRanges, reservedNames, position⟩ => by
    rw [MessageDecl.outline]
    rcases declareMessage_cases l file scope parent ⟨name, fields, messages, enums, extendBlocks,
      oneofs, options, extensionRanges, reservedRanges, reservedNames, position⟩ with
      ⟨-, heq⟩ | ⟨-, p, heq⟩
    · have hentry : KeepsFields l (l.enterMessage file scope parent name false extensionRanges) := by
        constructor <;> simp
      have henums (l' : Linker) (parent : Option Nat) : KeepsFields l' (enums.foldl (fun l e =>
          l.declareEnum file (Dotted.join scope name) parent e) l') :=
        .foldl (fun l e => keepsFields_declareEnum l file _ parent e) l' enums
      rw [heq]
      exact hentry.enters.trans ((henums _ _).enters.trans
        ((enters_declareMessages _ file _ _ messages).trans
          ((enters_declareFields _ file _ _ _ fields).trans
            (.foldl (fun l e => enters_declareExtend l file _ e) _ extendBlocks))))
    · rw [heq]
      exact KeepsFields.enters ⟨rfl, rfl⟩

theorem enters_declareMessages (l : Linker) (file : FileScope) (scope : String)
    (parent : Option Nat) : (ms : List MessageDecl) →
      Enters l (l.declareMessages file scope parent ms)
        (MessageDecl.outlineAll file scope parent.isSome ms)
  | [] => by
    rw [declareMessages]
    exact .refl l
  | m :: ms => by
    rw [declareMessages, MessageDecl.outlineAll]
    exact (enters_declareMessage l file scope parent m).trans
      (enters_declareMessages _ file scope parent ms)

end

theorem enters_declare (l : Linker) (f : SchemaFile) : Enters l (l.declare f) f.outline := by
  have hstart : KeepsFields l ((l.addFile f.scope).declarePackage f.scope) := by
    have hfile : KeepsFields l (l.addFile f.scope) := ⟨rfl, rfl⟩
    exact hfile.trans (keepsFields_declarePackage _ _)
  have henums (l' : Linker) : KeepsFields l' (f.enums.foldl (fun l e =>
      l.declareEnum f.scope f.scope.package none e) l') :=
    .foldl (fun l e => keepsFields_declareEnum l f.scope _ none e) l' f.enums
  have hservices (l' : Linker) : KeepsFields l' (f.services.foldl (fun l s =>
      l.declareService f.scope s) l') :=
    .foldl (fun l s => keepsFields_declareService l f.scope s) l' f.services
  exact hstart.enters.trans ((enters_declareMessages _ f.scope _ none f.messages).trans
    ((henums _).enters.trans ((Enters.foldl (fun l e => enters_declareExtend l f.scope _ e) _
      f.extendBlocks).trans (hservices _).enters)))

/-- The entries of a linker are among those that the declared files list, in their order. -/
theorem enters_ofFiles (files : List SchemaFile) :
    Enters Linker.empty (ofFiles files) (.ofFiles files) :=
  .foldl enters_declare _ files

end Linker

/-! ## What holds of all fields of a file -/

/-- An entry of a file that is not linked, and whose declaration has a property. -/
structure FieldEntry.Fresh (file : FileScope) (P : FieldDecl → Prop) (f : FieldEntry) : Prop where
  file : f.file = file
  link : f.link = .unresolved
  decl : P f.decl

/-- All entries of an outline are fresh. -/
structure Outline.Fresh (file : FileScope) (P : FieldDecl → Prop) (o : Outline) : Prop where
  fields : ∀ f ∈ o.fields, f.Fresh file P
  extensions : ∀ e ∈ o.extensions, e.field.Fresh file P

section

variable {file : FileScope} {P : FieldDecl → Prop} {o o' : Outline}

namespace Outline.Fresh

theorem of_none (hfields : o.fields = []) (hextensions : o.extensions = []) : o.Fresh file P := by
  constructor <;> simp [hfields, hextensions]

theorem append (h : o.Fresh file P) (h' : o'.Fresh file P) : (o ++ o').Fresh file P :=
  ⟨List.forall_mem_append.mpr ⟨h.fields, h'.fields⟩,
    List.forall_mem_append.mpr ⟨h.extensions, h'.extensions⟩⟩

theorem flatten {α : Type} {outline : α → Outline} {xs : List α}
    (h : ∀ x ∈ xs, (outline x).Fresh file P) :
    (Outline.flatten (xs.map outline)).Fresh file P := by
  induction xs with
  | nil => exact of_none rfl rfl
  | cons x xs ih =>
    rw [List.forall_mem_cons] at h
    exact h.1.append (ih h.2)

theorem ofField {f : FieldDecl} (h : P f) (scope : String) :
    (Outline.ofField (f.entry file scope)).Fresh file P := by
  constructor <;> simp only [Outline.ofField, Outline.empty]
  · exact List.forall_mem_singleton.mpr ⟨rfl, rfl, h⟩
  · simp

end Outline.Fresh

/-- What a map field is entered as has a property if the map field has. -/
def MapsKeep (P : FieldDecl → Prop) : Prop :=
  ∀ f key value position, P f → f.shape = .map key value position →
    P (Linker.keyField f key) ∧ P (Linker.valueField f value position) ∧ P (Linker.mapField f)

theorem FieldDecl.outline_fresh (hmaps : MapsKeep P) (scope : String) {f : FieldDecl} (h : P f) :
    (f.outline file scope).Fresh file P := by
  unfold FieldDecl.outline
  split
  · next key value position hshape =>
    obtain ⟨hkey, hvalue, hmap⟩ := hmaps f key value position h hshape
    exact (((Outline.Fresh.of_none rfl rfl).append (.ofField hkey _)).append
      (.ofField hvalue _)).append (.ofField hmap _)
  · exact .ofField h _
  · exact .ofField h _

theorem ExtendDecl.outline_fresh (scope : String) {e : ExtendDecl} (h : ∀ f ∈ e.fields, P f) :
    (e.outline file scope).Fresh file P := by
  constructor <;> simp only [ExtendDecl.outline, Outline.empty]
  · simp
  · exact List.forall_mem_map.mpr fun f hf => ⟨rfl, rfl, h f hf⟩

mutual

theorem MessageDecl.outline_fresh (hmaps : MapsKeep P) (scope : String) (isNested : Bool) :
    (m : MessageDecl) → m.Forall (MessageDecl.ForallFields P) →
      (m.outline file scope isNested).Fresh file P
  | ⟨name, fields, messages, enums, extendBlocks, _, _, _, _, _, _⟩, h => by
    rw [MessageDecl.Forall] at h
    rw [MessageDecl.outline]
    refine .append (.of_none rfl rfl) (.append ?_ (.append ?_ (.append ?_ ?_)))
    · exact .flatten fun e _ => .of_none rfl rfl
    · exact MessageDecl.outlineAll_fresh hmaps _ true messages h.2
    · exact .flatten fun f hf => f.outline_fresh hmaps _ (h.1.1 f hf)
    · exact .flatten fun e he => e.outline_fresh _ (h.1.2 e he)

theorem MessageDecl.outlineAll_fresh (hmaps : MapsKeep P) (scope : String) (isNested : Bool) :
    (ms : List MessageDecl) → MessageDecl.ForallIn (MessageDecl.ForallFields P) ms →
      (MessageDecl.outlineAll file scope isNested ms).Fresh file P
  | [], _ => .of_none rfl rfl
  | m :: ms, h => by
    rw [MessageDecl.ForallIn] at h
    rw [MessageDecl.outlineAll]
    exact (MessageDecl.outline_fresh hmaps scope isNested m h.1).append
      (MessageDecl.outlineAll_fresh hmaps scope isNested ms h.2)

end

end

/-- What holds of all fields of a file holds of its entries. -/
theorem SchemaFile.outline_fresh {P : FieldDecl → Prop} (hmaps : MapsKeep P) {f : SchemaFile}
    (h : f.ForallFields P) : f.outline.Fresh f.scope P := by
  refine .append (.of_none rfl rfl) (.append ?_ (.append ?_ (.append ?_ ?_)))
  · exact MessageDecl.outlineAll_fresh hmaps _ false f.messages h.1
  · exact .flatten fun e _ => .of_none rfl rfl
  · exact .flatten fun e he => e.outline_fresh _ (h.2 e he)
  · exact .flatten fun s _ => .append (.of_none rfl rfl) (.flatten fun m _ => .of_none rfl rfl)

end ProtoSchema
