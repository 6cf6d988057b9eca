import ProtoSchema.Proofs.Descriptor.Clauses
import ProtoSchema.Proofs.Linker.Contents
import ProtoSchema.Proofs.Places

/-!
# Messages that are declared again

A message is reworded by a declaration with the same names, the same fields in the same order, and
the same enums and messages, all the way down, but with nothing else: no extensions, no ranges and no
options (`MessageDecl.Reworded`). What the fields have in common is left open. What breaks no rule in
the one breaks none in the other (`MessageDecl.tidy_of_reworded`), and the two have outlines that go
side by side (`Outline.Beside`).
-/

namespace ProtoSchema

open Dotted

/-! ## Entered fields -/

namespace FieldDecl

/-- A field that is a map is declared by its types of key and value. -/
theorem isMap_iff {g : FieldDecl} :
    g.isMap = true ↔ ∃ key value position, g.shape = .map key value position := by
  unfold isMap
  split <;> simp_all

theorem name_entered (g : FieldDecl) : g.entered.name = g.name := by
  unfold entered
  split <;> rfl

theorem number_entered (g : FieldDecl) : g.entered.number = g.number := by
  unfold entered
  split <;> rfl

theorem entered_of_not_isMap {g : FieldDecl} (h : g.isMap = false) : g.entered = g := by
  unfold entered
  unfold isMap at h
  split <;> simp_all

theorem entered_of_map {g : FieldDecl} {key value : String} {position : Position}
    (h : g.shape = .map key value position) : g.entered = Linker.mapField g := by
  rw [entered, h]

end FieldDecl

/-! ## Declarations that are related -/

/-- Values with one name and one number. -/
def EnumValueDecl.Alike (v v' : EnumValueDecl) : Prop := v'.name = v.name ∧ v'.number = v.number

/-- Related fields have one name and one number, and maps are related to maps only. -/
structure FieldDecl.Alike (g h : FieldDecl) : Prop where
  name : h.name = g.name
  number : h.number = g.number
  isMap : h.isMap = g.isMap

/-- An enum has been declared again with the same values. -/
structure EnumDecl.Reworded (e e' : EnumDecl) : Prop where
  plain : e'.Plain
  name : e'.name = e.name
  values : e.values.Forall₂ EnumValueDecl.Alike e'.values

mutual

/-- A message in a scope has been declared again, with fields that are related in its own scope. -/
def MessageDecl.Reworded (R : String → FieldDecl → FieldDecl → Prop) (scope : String) :
    MessageDecl → MessageDecl → Prop
  | ⟨name, fields, messages, enums, _, _, _, _, _, _, _⟩, m' =>
    let fullName := join scope name
    m'.Plain ∧ m'.name = name ∧ fields.Forall₂ (R fullName) m'.fields ∧
      enums.Forall₂ EnumDecl.Reworded m'.enums ∧ MessageDecl.RewordedAll R fullName messages m'.messages

/-- Several messages have been declared again. -/
def MessageDecl.RewordedAll (R : String → FieldDecl → FieldDecl → Prop) (scope : String) :
    List MessageDecl → List MessageDecl → Prop
  | [], ms' => ms' = []
  | m :: ms, ms' => ∃ m' rest, ms' = m' :: rest ∧ m.Reworded R scope m' ∧
    MessageDecl.RewordedAll R scope ms rest

end

variable {R : String → FieldDecl → FieldDecl → Prop}

/-! ## Rules -/

/-- A field that breaks no rule breaks none that reserves nothing. -/
theorem FieldRules.problem?_of_alike {rules : FieldRules} {message : String} {g h : FieldDecl}
    (halike : g.Alike h) (hg : rules.problem? g = none) :
    FieldRules.problem? ⟨message, [], [], rules.taken⟩ h = none := by
  rw [problem?_eq_none_iff] at hg ⊢
  obtain ⟨hrange, himplementation, -, -, hname, hnumber⟩ := hg
  rw [halike.name, halike.number]
  exact ⟨hrange, himplementation, rfl, rfl, hname, hnumber⟩

theorem FieldRules.acceptsAll_of_alike {rules : FieldRules} {message : String}
    {gs hs : List FieldDecl} (halike : gs.Forall₂ FieldDecl.Alike hs) (h : rules.AcceptsAll gs) :
    FieldRules.AcceptsAll ⟨message, [], [], rules.taken⟩ hs := by
  induction halike generalizing rules with
  | nil => trivial
  | cons hfirst _ ih =>
    refine ⟨problem?_of_alike hfirst h.1, ?_⟩
    have hrest := ih h.2
    rw [take, hfirst.name, hfirst.number]
    exact hrest

/-- Values that break no rule and have different numbers break none of an enum that reserves
nothing. -/
theorem EnumDecl.acceptsAll_of_plain {e e' : EnumDecl} {fullName fullName' : String}
    {accepted accepted' values values' : List EnumValueDecl} (hplain : e'.Plain)
    (haccepted : accepted.Forall₂ EnumValueDecl.Alike accepted')
    (hvalues : values.Forall₂ EnumValueDecl.Alike values')
    (hapart : ((accepted ++ values).map (·.number)).Nodup)
    (h : e.AcceptsAll fullName accepted values) : e'.AcceptsAll fullName' accepted' values' := by
  induction hvalues generalizing accepted accepted' with
  | nil => trivial
  | @cons v v' vs vs' hv hvs ih =>
    obtain ⟨hproblem, hrest⟩ := h
    have hfree : v.number ∉ accepted.map (·.number) := by
      rw [List.map_append, List.map_cons, List.nodup_append] at hapart
      exact fun hmem => hapart.2.2 _ hmem _ List.mem_cons_self rfl
    refine ⟨?_, ih (List.rel_append haccepted (.cons hv .nil)) (by simpa using hapart) hrest⟩
    rw [problem?_eq_none_iff] at hproblem ⊢
    rw [map_eq_map_of_forall₂ (fun _ _ h => h.1) haccepted,
      map_eq_map_of_forall₂ (fun _ _ h => h.2) haccepted, hplain.reservedRanges,
      hplain.reservedNames, hv.1, hv.2]
    exact ⟨hproblem.1, hproblem.2.1, rfl, rfl, .inr hfree⟩

theorem EnumDecl.tidy_of_reworded {e e' : EnumDecl} (hreworded : e.Reworded e')
    (hapart : e.Unaliased) {scope : String} (h : e.Tidy scope) : e'.Tidy scope := by
  refine ⟨acceptsAll_of_plain hreworded.plain .nil hreworded.values hapart h.1, ?_⟩
  rintro hnil
  have hvalues := hreworded.values
  rw [hnil, List.forall₂_nil_right_iff] at hvalues
  exact h.2 hvalues

/-- Of an enum that may not give two values one number, all values that break no rule have different
numbers. -/
theorem EnumDecl.nodup_numbers_of_acceptsAll {e : EnumDecl} (halias : e.allowsAlias = false)
    {fullName : String} {accepted values : List EnumValueDecl}
    (haccepted : (accepted.map (·.number)).Nodup) (h : e.AcceptsAll fullName accepted values) :
    ((accepted ++ values).map (·.number)).Nodup := by
  induction values generalizing accepted with
  | nil => rwa [List.append_nil]
  | cons v vs ih =>
    obtain ⟨hproblem, hrest⟩ := h
    obtain ⟨-, -, -, -, hnumber⟩ := problem?_eq_none_iff.mp hproblem
    have hfree : v.number ∉ accepted.map (·.number) := hnumber.resolve_left (by simp [halias])
    rw [List.append_cons]
    exact ih (nodup_map_append_singleton haccepted hfree) hrest

theorem EnumDecl.unaliased_of_tidy {e e' : EnumDecl} (hreworded : e.Reworded e') {scope : String}
    (h : e'.Tidy scope) : e.Unaliased := by
  have halias : e'.allowsAlias = false := by rw [allowsAlias, hreworded.plain.options]; rfl
  have hnumbers : e'.values.map (·.number) = e.values.map (·.number) :=
    map_eq_map_of_forall₂ (fun _ _ hv => hv.2) hreworded.values
  have hnodup := nodup_numbers_of_acceptsAll halias (by simp) h.1
  rwa [List.nil_append, hnumbers] at hnodup

mutual

/-- If a message breaks no rule, then neither does the message that rewords it, unless an enum in it
gives two values one number. -/
theorem MessageDecl.tidy_of_reworded (halike : ∀ scope g h, R scope g h → g.Alike h) {scope : String} :
    (m : MessageDecl) → {m' : MessageDecl} → m.Reworded R scope m' →
      (∀ x ∈ m.declared scope, ∀ e ∈ x.2.enums, e.Unaliased) → m.Tidy scope → m'.Tidy scope
  | ⟨name, fields, messages, enums, _, _, _, _, _, _, _⟩,
    ⟨name', fields', messages', enums', _, _, _, _, _, _, _⟩, hreworded, hapart, htidy => by
    rw [Reworded] at hreworded
    rw [declared, List.forall_mem_cons] at hapart
    rw [Tidy] at htidy ⊢
    obtain ⟨hplain, rfl, hfields, henums, hmessages⟩ := hreworded
    obtain ⟨hranges, hnames⟩ := And.intro hplain.reservedRanges hplain.reservedNames
    refine ⟨fun e' he' => ?_,
      MessageDecl.tidyAll_of_reworded halike messages hmessages hapart.2 htidy.2.1, ?_⟩
    · obtain ⟨e, he, hreworded⟩ := exists_of_forall₂ henums e' he'
      exact e.tidy_of_reworded hreworded (hapart.1 e he) (htidy.1 e he)
    · simp only at hranges hnames
      rw [hranges, hnames]
      exact FieldRules.acceptsAll_of_alike (hfields.imp (halike _)) htidy.2.2

theorem MessageDecl.tidyAll_of_reworded (halike : ∀ scope g h, R scope g h → g.Alike h)
    {scope : String} : (ms : List MessageDecl) → {ms' : List MessageDecl} →
      MessageDecl.RewordedAll R scope ms ms' →
        (∀ x ∈ MessageDecl.declaredAll scope ms, ∀ e ∈ x.2.enums, e.Unaliased) →
          MessageDecl.TidyAll scope ms → MessageDecl.TidyAll scope ms'
  | [], ms', hreworded, _, _ => by
    rw [RewordedAll] at hreworded
    rw [hreworded, TidyAll]
    trivial
  | m :: ms, ms', hreworded, hapart, htidy => by
    rw [RewordedAll] at hreworded
    rw [declaredAll, List.forall_mem_append] at hapart
    obtain ⟨m', rest, rfl, hfirst, hrest⟩ := hreworded
    rw [TidyAll] at htidy ⊢
    exact ⟨MessageDecl.tidy_of_reworded halike m hfirst hapart.1 htidy.1,
      MessageDecl.tidyAll_of_reworded halike ms hrest hapart.2 htidy.2⟩

end

mutual

/-- If the message that rewords another one breaks no rule, then no enum in the other one gives two
values one number. -/
theorem MessageDecl.unaliased_of_tidy {scope : String} : (m : MessageDecl) → {m' : MessageDecl} →
    m.Reworded R scope m' → m'.Tidy scope → ∀ x ∈ m.declared scope, ∀ e ∈ x.2.enums, e.Unaliased
  | ⟨name, fields, messages, enums, _, _, _, _, _, _, _⟩,
    ⟨name', fields', messages', enums', _, _, _, _, _, _, _⟩, hreworded, htidy => by
    rw [Reworded] at hreworded
    rw [Tidy] at htidy
    rw [declared, List.forall_mem_cons]
    obtain ⟨-, rfl, -, henums, hmessages⟩ := hreworded
    refine ⟨fun e he => ?_, MessageDecl.unaliased_of_tidyAll messages hmessages htidy.2.1⟩
    obtain ⟨e', he', hreworded⟩ := exists_of_forall₂ henums.flip e he
    exact e.unaliased_of_tidy hreworded (htidy.1 e' he')

theorem MessageDecl.unaliased_of_tidyAll {scope : String} : (ms : List MessageDecl) →
    {ms' : List MessageDecl} → MessageDecl.RewordedAll R scope ms ms' →
      MessageDecl.TidyAll scope ms' →
        ∀ x ∈ MessageDecl.declaredAll scope ms, ∀ e ∈ x.2.enums, e.Unaliased
  | [], _, _, _ => by
    rw [declaredAll]
    exact List.forall_mem_nil _
  | m :: ms, ms', hreworded, htidy => by
    rw [RewordedAll] at hreworded
    obtain ⟨m', rest, rfl, hfirst, hrest⟩ := hreworded
    rw [TidyAll] at htidy
    rw [declaredAll, List.forall_mem_append]
    exact ⟨MessageDecl.unaliased_of_tidy m hfirst htidy.1,
      MessageDecl.unaliased_of_tidyAll ms hrest htidy.2⟩

end

/-! ## Outlines -/

/-- Definitions of one kind and one full name. -/
def Definition.Alike (d d' : Definition) : Prop := d'.kind = d.kind ∧ d'.fullName = d.fullName

/-- Messages with one full name, nested alike. -/
structure MessageSite.Alike (m m' : MessageSite) : Prop where
  name : m'.name = m.name
  fullName : m'.fullName = m.fullName
  isNested : m'.isNested = m.isNested
  isMapEntry : m'.isMapEntry = m.isMapEntry

/-- Enums with one full name and the same values, nested alike. -/
structure EnumSite.Alike (e e' : EnumSite) : Prop where
  name : e'.name = e.name
  fullName : e'.fullName = e.fullName
  isNested : e'.isNested = e.isNested
  values : e.values.Forall₂ EnumValueDecl.Alike e'.values

/-- Of two outlines, the second one has everything but extensions and methods at the same places as
the first. The fields are related. -/
structure Outline.Beside (S : FieldEntry → FieldEntry → Prop) (o o' : Outline) : Prop where
  definitions : o.definitions.Forall₂ Definition.Alike o'.definitions
  messages : o.messages.Forall₂ (fun m m' => m.toMessageSite.Alike m'.toMessageSite) o'.messages
  fields : o.fields.Forall₂ S o'.fields
  extensions : o'.extensions = []
  enums : o.enums.Forall₂ EnumSite.Alike o'.enums
  methods : o.methods = [] ∧ o'.methods = []

variable {file file' : FileScope} {S : FieldEntry → FieldEntry → Prop} {o o' p p' : Outline}

namespace Outline.Beside

/-- Nothing has to stand beside extensions. -/
theorem of_extensions (hdefinitions : o.definitions = []) (hmessages : o.messages = [])
    (hfields : o.fields = []) (henums : o.enums = []) (hmethods : o.methods = []) :
    o.Beside S .empty := by
  constructor <;> simp [*, Outline.empty]

theorem append (h : o.Beside S o') (h' : p.Beside S p') : (o ++ p).Beside S (o' ++ p') where
  definitions := List.rel_append h.definitions h'.definitions
  messages := List.rel_append h.messages h'.messages
  fields := List.rel_append h.fields h'.fields
  extensions := by rw [append_extensions, h.extensions, h'.extensions, List.append_nil]
  enums := List.rel_append h.enums h'.enums
  methods := by simp [h.methods, h'.methods]

theorem flatten {α : Type} {P : α → α → Prop} {outline outline' : α → Outline}
    (hP : ∀ x y, P x y → (outline x).Beside S (outline' y)) {xs ys : List α} (h : xs.Forall₂ P ys) :
    (Outline.flatten (xs.map outline)).Beside S (.flatten (ys.map outline')) := by
  induction h with
  | nil => exact of_extensions rfl rfl rfl rfl rfl
  | cons hfirst _ ih => exact (hP _ _ hfirst).append ih

theorem ofField {f f' : FieldEntry} (h : S f f') : (Outline.ofField f).Beside S (.ofField f') := by
  constructor <;> simp [Outline.ofField, Outline.empty, h]

theorem ofMessage {m m' : MessageOutline} (h : m.toMessageSite.Alike m'.toMessageSite) :
    (Outline.ofMessage m).Beside S (.ofMessage m') := by
  constructor <;> simp [Outline.ofMessage, Outline.empty, h, Definition.Alike, h.fullName]

end Outline.Beside

/-- Fields that are related are entered as fields that are related, and so are the keys and the values
of maps. -/
structure Rewords (file file' : FileScope) (R : String → FieldDecl → FieldDecl → Prop)
    (S : FieldEntry → FieldEntry → Prop) : Prop where
  alike : ∀ scope g h, R scope g h → g.Alike h
  entered : ∀ scope g h, R scope g h →
    S (g.entered.entry file scope) (h.entered.entry file' scope)
  parts : ∀ scope g h, R scope g h → ∀ key value position key' value' position',
    g.shape = .map key value position → h.shape = .map key' value' position' →
      let entry := join scope (MapEntry.name g.name)
      S ((Linker.keyField g key).entry file entry) ((Linker.keyField h key').entry file' entry) ∧
        S ((Linker.valueField g value position).entry file entry)
          ((Linker.valueField h value' position').entry file' entry)

theorem Rewords.outline_field (h : Rewords file file' R S) {scope : String} {f f' : FieldDecl}
    (hf : R scope f f') : (f.outline file scope).Beside S (f'.outline file' scope) := by
  have halike := h.alike scope f f' hf
  have hentered := h.entered scope f f' hf
  have hplain (g : FieldDecl) (hg : g.isMap = false) (file : FileScope) :
      g.outline file scope = .ofField (g.entered.entry file scope) := by
    rw [FieldDecl.entered_of_not_isMap hg]
    unfold FieldDecl.outline
    unfold FieldDecl.isMap at hg
    split <;> simp_all
  cases hmap : f.isMap with
  | false =>
    rw [hplain f hmap, hplain f' (halike.isMap.trans hmap)]
    exact .ofField hentered
  | true =>
    obtain ⟨key, value, position, hshape⟩ := FieldDecl.isMap_iff.mp hmap
    obtain ⟨key', value', position', hshape'⟩ := FieldDecl.isMap_iff.mp (halike.isMap.trans hmap)
    obtain ⟨hkey, hvalue⟩ := h.parts scope f f' hf _ _ _ _ _ _ hshape hshape'
    simp only [FieldDecl.entered, hshape, hshape'] at hentered
    simp only [FieldDecl.outline, hshape, hshape', FieldDecl.mapOutline, halike.name]
    refine .append (.append (.append (.ofMessage ⟨rfl, rfl, rfl, rfl⟩) (.ofField hkey))
      (.ofField hvalue)) (.ofField hentered)

theorem EnumDecl.outline_beside {scope : String} {isNested : Bool} {e e' : EnumDecl}
    (h : e.Reworded e') : (e.outline file scope isNested).Beside S (e'.outline file' scope isNested) := by
  have hsite : (⟨e.name, join scope e.name, file, isNested, e.values⟩ : EnumSite).Alike
      ⟨e.name, join scope e.name, file', isNested, e'.values⟩ :=
    ⟨rfl, rfl, rfl, h.values⟩
  constructor <;> simp [EnumDecl.outline, Outline.empty, Definition.Alike, h.name, hsite]

mutual

/-- The outline of a message goes beside that of the message that it rewords. -/
theorem Rewords.outline_message (h : Rewords file file' R S) {scope : String} {isNested : Bool} :
    (m : MessageDecl) → {m' : MessageDecl} → m.Reworded R scope m' →
      (m.outline file scope isNested).Beside S (m'.outline file' scope isNested)
  | ⟨name, fields, messages, enums, extendBlocks, _, _, _, _, _, _⟩,
    ⟨name', fields', messages', enums', _, _, _, _, _, _, _⟩, hreworded => by
    rw [MessageDecl.Reworded] at hreworded
    rw [MessageDecl.outline, MessageDecl.outline]
    obtain ⟨hplain, rfl, hfields, henums, hmessages⟩ := hreworded
    have hextends := hplain.extendBlocks
    simp only at hextends
    rw [hextends, List.map_nil]
    refine .append (.ofMessage ⟨rfl, rfl, rfl, rfl⟩) (.append ?_ (.append ?_ (.append ?_ ?_)))
    · exact .flatten (fun _ _ he => EnumDecl.outline_beside he) henums
    · exact h.outline_messages messages hmessages
    · exact .flatten (fun _ _ hf => h.outline_field hf) hfields
    · refine .of_extensions ?_ ?_ ?_ ?_ ?_ <;>
        simp [Outline.flatten, List.flatMap_map, ExtendDecl.outline, Outline.empty]

theorem Rewords.outline_messages (h : Rewords file file' R S) {scope : String} {isNested : Bool} :
    (ms : List MessageDecl) → {ms' : List MessageDecl} → MessageDecl.RewordedAll R scope ms ms' →
      (MessageDecl.outlineAll file scope isNested ms).Beside S
        (MessageDecl.outlineAll file' scope isNested ms')
  | [], ms', hreworded => by
    rw [MessageDecl.RewordedAll] at hreworded
    rw [hreworded]
    exact .of_extensions rfl rfl rfl rfl rfl
  | m :: ms, ms', hreworded => by
    rw [MessageDecl.RewordedAll] at hreworded
    obtain ⟨m', rest, rfl, hfirst, hrest⟩ := hreworded
    rw [MessageDecl.outlineAll, MessageDecl.outlineAll]
    exact (h.outline_message m hfirst).append (h.outline_messages ms hrest)

end

end ProtoSchema
