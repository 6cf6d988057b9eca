import ProtoSchema.Proofs.Linker.Linked
import ProtoSchema.Proofs.Linker.Forgetting

/-!
# The passes of linking

Whatever has been declared to a linker, and whether it has been linked before: linking goes through
fields, extensions and methods and changes nothing of a field but its link and its owner
(`Linker.Passes`). If it gives tables, then the records of fields are made from what the passes have
left of the fields and of the extensions that were attached (`exists_members_of_link`), and all
extensions were, if nothing was noted.
-/

namespace ProtoSchema

/-! ## Fields -/

/-- A field at a later time: only what it is linked to and what it belongs to may have changed. Only
groups become groups, and a scalar stays the scalar that it is. -/
structure FieldEntry.Follows (f f' : FieldEntry) : Prop where
  same : ∃ link owner, f' = { f with link, owner }
  group : f'.link.type = .group → f.link.type = .group ∨ f.decl.isGroup
  scalar : ∀ t, FieldType.scalar? f.decl.typeName = some t → f.link.type = t → f'.link.type = t

/-- The keyword of a scalar is linked to the scalar. -/
def FieldEntry.Settled (f : FieldEntry) : Prop :=
  ∀ t, FieldType.scalar? f.decl.typeName = some t → f.link.type = t

namespace FieldEntry.Follows

variable {f f' f'' : FieldEntry}

theorem refl (f : FieldEntry) : f.Follows f := ⟨⟨f.link, f.owner, rfl⟩, .inl, fun _ _ h => h⟩

theorem decl (h : f.Follows f') : f'.decl = f.decl := by
  obtain ⟨link, owner, rfl⟩ := h.same
  rfl

theorem trans (h : f.Follows f') (h' : f'.Follows f'') : f.Follows f'' := by
  have hdecl := h.decl
  refine ⟨?_, fun hgroup => ?_, fun t hscalar htype => ?_⟩
  · obtain ⟨link, owner, rfl⟩ := h.same
    obtain ⟨link', owner', rfl⟩ := h'.same
    exact ⟨link', owner', rfl⟩
  · rcases h'.group hgroup with hgroup | hgroup
    · exact h.group hgroup
    · exact .inr (hdecl ▸ hgroup)
  · exact h'.scalar t (hdecl ▸ hscalar) (h.scalar t hscalar htype)

theorem settled (h : f.Follows f') (hf : f.Settled) : f'.Settled := by
  intro t hscalar
  rw [h.decl] at hscalar
  exact h.scalar t hscalar (hf t hscalar)

/-- A field may be given to a message. -/
theorem owned (f : FieldEntry) (owner : Option Nat) : f.Follows { f with owner } :=
  ⟨⟨f.link, owner, rfl⟩, .inl, fun _ _ h => h⟩

end FieldEntry.Follows

/-- What holds of the items of two lists at each place holds after a change at one of them. -/
theorem forall₂_modify {α : Type} {R : α → α → Prop} (hrefl : ∀ x, R x x) {xs : List α} {i : Nat}
    {f : α → α} (h : ∀ x, xs[i]? = some x → R x (f x)) : xs.Forall₂ R (xs.modify i f) := by
  induction xs generalizing i with
  | nil => simp
  | cons x xs ih =>
    cases i with
    | zero =>
      rw [List.modify_zero_cons]
      exact .cons (h x rfl) (List.forall₂_same.mpr fun y _ => hrefl y)
    | succ i =>
      rw [List.modify_succ_cons]
      exact .cons (hrefl x) (ih h)

/-- A relation between the items of two lists is as transitive as the one between the items. -/
theorem forall₂_trans {α : Type} {R : α → α → Prop} (htrans : ∀ x y z, R x y → R y z → R x z)
    {xs ys zs : List α} (h : xs.Forall₂ R ys) (h' : ys.Forall₂ R zs) : xs.Forall₂ R zs := by
  induction h generalizing zs with
  | nil => exact h'
  | cons hx _ ih =>
    cases h' with
    | cons hy hrest => exact .cons (htrans _ _ _ hx hy) (ih hrest)

namespace Linker

variable {l l' l'' : Linker} {t : Tables}

/-- From `l` to `l'` references have been followed. -/
structure Passes (l l' : Linker) : Prop where
  reports : l.reports <+: l'.reports
  enums : l'.enums = l.enums
  fields : l.fields.toList.Forall₂ FieldEntry.Follows l'.fields.toList
  extensions : l.extensions.toList.Forall₂ (fun e e' => e.field.Follows e'.field)
    l'.extensions.toList

namespace Passes

theorem of_rest (h : l.reports <+: l'.reports) (henums : l'.enums = l.enums)
    (hfields : l'.fields = l.fields) (hextensions : l'.extensions = l.extensions) : Passes l l' :=
  ⟨h, henums, by rw [hfields]; exact List.forall₂_same.mpr fun f _ => .refl f,
    by rw [hextensions]; exact List.forall₂_same.mpr fun e _ => .refl e.field⟩

theorem refl (l : Linker) : Passes l l := .of_rest List.prefix_rfl rfl rfl rfl

theorem trans (h : Passes l l') (h' : Passes l' l'') : Passes l l'' := by
  refine ⟨h.reports.trans h'.reports, h'.enums.trans h.enums,
    forall₂_trans ?_ h.fields h'.fields, forall₂_trans ?_ h.extensions h'.extensions⟩
  · exact fun _ _ _ => FieldEntry.Follows.trans
  · exact fun _ _ _ => FieldEntry.Follows.trans

theorem size_extensions (h : Passes l l') : l'.extensions.size = l.extensions.size := by
  simpa using h.extensions.length_eq.symm

/-- Each extension comes from the one at its place. -/
theorem exists_extension (h : Passes l l') {i : Nat} {e' : ExtensionEntry}
    (he : l'.extensions[i]? = some e') : ∃ e, l.extensions[i]? = some e ∧ e.field.Follows e'.field := by
  obtain ⟨hi, rfl⟩ := Array.getElem?_eq_some_iff.mp he
  have hi' : i < l.extensions.size := h.size_extensions ▸ hi
  exact ⟨l.extensions[i], by simp [hi'], h.extensions.get (by simpa using hi') (by simpa using hi)⟩

end Passes

/-! ## The passes -/

/-- A reference that stands for nothing is noted. -/
theorem passes_resolve (l : Linker) (scope name : String) (file : FileScope)
    (position : Option Position) :
    Passes l (l.resolve scope name file position).1 ∧
      ((l.resolve scope name file position).2 = none →
        (l.resolve scope name file position).1.reports ≠ []) := by
  have hsees : ∃ visible, (l.visibleFiles file).1 = { l with visible } := by
    unfold visibleFiles
    split <;> exact ⟨_, rfl⟩
  obtain ⟨visible, hsees⟩ := hsees
  unfold resolve
  simp only [hsees]
  split
  · exact ⟨.of_rest List.prefix_rfl rfl rfl rfl, by simp⟩
  · exact ⟨.of_rest (List.prefix_append _ _) rfl rfl rfl, fun _ => by simp [Linker.report, note]⟩

theorem passes_report (l : Linker) (file : FileScope) (position : Option Position)
    (p : LinkProblem) : Passes l (l.report file position p) :=
  .of_rest (List.prefix_append _ _) rfl rfl rfl

theorem passes_resolveType (l : Linker) (f : FieldEntry) :
    Passes l (l.resolveType f).1 ∧ f.Follows (l.resolveType f).2 ∧ (l.resolveType f).2.Settled := by
  unfold resolveType
  cases hscalar : FieldType.scalar? f.decl.typeName with
  | some t =>
    simp only [hscalar]
    refine ⟨.refl l, ⟨⟨_, f.owner, rfl⟩, fun hgroup => ?_, fun t' ht' _ => ?_⟩, fun t' ht' => ?_⟩
    · have hscalars : ∀ t ∈ FieldType.scalars, t ≠ .group := by decide
      exact absurd hgroup (hscalars t (List.mem_of_find?_eq_some hscalar))
    · exact Option.some.inj (hscalar.symm.trans ht')
    · exact Option.some.inj (hscalar.symm.trans ht')
  | none =>
    simp only [hscalar]
    have hsettled {f' : FieldEntry} (hdecl : f'.decl = f.decl) : f'.Settled := by
      intro t ht
      rw [hdecl, hscalar] at ht
      cases ht
    have hnone {P : Prop} {t : FieldType} (ht : FieldType.scalar? f.decl.typeName = some t) : P := by
      rw [hscalar] at ht
      cases ht
    obtain ⟨hpasses, -⟩ :=
      l.passes_resolve f.scope f.decl.typeName f.file (some f.decl.typePosition)
    rcases heq : l.resolve f.scope f.decl.typeName f.file (some f.decl.typePosition) with
      ⟨l₁, _ | d⟩ <;> simp only [heq] at hpasses ⊢
    · exact ⟨hpasses, ⟨⟨_, f.owner, rfl⟩, .inl, fun _ ht _ => hnone ht⟩, hsettled rfl⟩
    · split
      · refine ⟨hpasses, ⟨⟨_, f.owner, rfl⟩, fun hgroup => .inr ?_, fun _ ht _ => hnone ht⟩,
          hsettled rfl⟩
        by_contra hplain
        simp [hplain] at hgroup
      · exact ⟨hpasses, ⟨⟨_, f.owner, rfl⟩, nofun, fun _ ht _ => hnone ht⟩, hsettled rfl⟩
      · exact ⟨hpasses.trans (passes_report ..),
          ⟨⟨_, f.owner, rfl⟩, .inl, fun _ ht _ => hnone ht⟩, hsettled rfl⟩

theorem passes_resolveTypes (l : Linker) (fs : List FieldEntry) :
    Passes l (l.resolveTypes fs).1 ∧ (l.resolveTypes fs).1.fields = l.fields ∧
      fs.Forall₂ FieldEntry.Follows (l.resolveTypes fs).2 ∧
      ∀ f ∈ (l.resolveTypes fs).2, f.Settled := by
  induction fs generalizing l with
  | nil => exact ⟨.refl l, rfl, .nil, by simp [resolveTypes]⟩
  | cons f fs ih =>
    obtain ⟨hpasses, hfollows, hsettled⟩ := l.passes_resolveType f
    obtain ⟨⟨visible, reports, hrest⟩, -⟩ := l.resolveType_rest f
    obtain ⟨hpasses', hfields, hall, hsettled'⟩ := ih (l.resolveType f).1
    rw [resolveTypes]
    refine ⟨hpasses.trans hpasses', hfields.trans (by rw [hrest]), .cons hfollows hall, ?_⟩
    exact List.forall_mem_cons.mpr ⟨hsettled, hsettled'⟩

theorem passes_linkFields (l : Linker) :
    Passes l l.linkFields ∧ ∀ f ∈ l.linkFields.fields.toList, f.Settled := by
  obtain ⟨hpasses, hfields, hfollows, hsettled⟩ := l.passes_resolveTypes l.fields.toList
  exact ⟨⟨hpasses.reports, hpasses.enums, hfollows, hpasses.extensions⟩, hsettled⟩

theorem passes_attach (l : Linker) (attached : List Nat) (place owner : Nat) :
    Passes l (l.attach attached place owner) := by
  refine ⟨List.prefix_rfl, rfl, List.forall₂_same.mpr fun f _ => .refl f, ?_⟩
  rw [attach, modifyMessage, Array.toList_modify]
  exact forall₂_modify (fun e => .refl e.field) fun e _ => .owned e.field _

/-- Extensions are attached or noted. -/
theorem passes_attachExtensions (l : Linker) (attached places : List Nat) :
    let result := l.attachExtensions attached places
    Passes l result.1 ∧ (∀ i ∈ attached, i ∈ result.2) ∧
      (result.1.reports = [] → ∀ i ∈ places, i < l.extensions.size → i ∈ result.2) := by
  induction places generalizing l attached with
  | nil => exact ⟨.refl l, fun _ hi => hi, by simp⟩
  | cons place places ih =>
    simp only [attachExtensions]
    -- an extension that is not attached stands in the way, or a note does
    have hskip {l₁ : Linker} (hpasses : Passes l l₁)
        (hnoted : place < l.extensions.size → l₁.reports ≠ []) :
        let result := l₁.attachExtensions attached places
        Passes l result.1 ∧ (∀ i ∈ attached, i ∈ result.2) ∧
          (result.1.reports = [] → ∀ i ∈ place :: places, i < l.extensions.size →
            i ∈ result.2) := by
      obtain ⟨hpasses', hkept, hall⟩ := ih l₁ attached
      refine ⟨hpasses.trans hpasses', hkept, fun hclean => ?_⟩
      have hclean' : l₁.reports = [] := List.prefix_nil.mp (hclean ▸ hpasses'.reports)
      refine List.forall_mem_cons.mpr ⟨fun hplace => absurd hclean' (hnoted hplace), ?_⟩
      exact fun i hi hlt => hall hclean i hi (hpasses.size_extensions ▸ hlt)
    cases he : l.extensions[place]? with
    | none => exact hskip (.refl l) fun hplace => absurd he (by simp [hplace])
    | some e =>
      obtain ⟨hpasses, hnoted⟩ := l.passes_resolve e.field.scope e.extendee e.field.file
        (some e.field.decl.position)
      rcases heq : l.resolve e.field.scope e.extendee e.field.file (some e.field.decl.position) with
        ⟨l₁, _ | d⟩ <;> simp only [heq] at hpasses hnoted ⊢
      · exact hskip hpasses fun _ => hnoted trivial
      · cases howner : l₁.extensionOwner attached e d with
        | error p =>
          simp only
          exact hskip (hpasses.trans (passes_report ..)) fun _ => by simp [Linker.report, note]
        | ok owner =>
          simp only
          have hpasses₂ := hpasses.trans (passes_attach l₁ attached place owner)
          obtain ⟨hpasses', hkept, hall⟩ :=
            ih (l₁.attach attached place owner) (attached ++ [place])
          refine ⟨hpasses₂.trans hpasses', fun i hi => hkept i (by simp [hi]), fun hclean => ?_⟩
          refine List.forall_mem_cons.mpr ⟨fun _ => hkept place (by simp), ?_⟩
          exact fun i hi hlt => hall hclean i hi (hpasses₂.size_extensions ▸ hlt)

theorem passes_linkExtensions (l : Linker) (places : List Nat) :
    Passes l (l.linkExtensions places) ∧
      ∀ i ∈ places, ∀ e, (l.linkExtensions places).extensions[i]? = some e → e.field.Settled := by
  induction places generalizing l with
  | nil => exact ⟨.refl l, by simp⟩
  | cons place places ih =>
    rw [linkExtensions]
    cases he : l.extensions[place]? with
    | none =>
      obtain ⟨hpasses, hall⟩ := ih l
      refine ⟨hpasses, List.forall_mem_cons.mpr ⟨fun e' he' => ?_, hall⟩⟩
      obtain ⟨e, he'', -⟩ := hpasses.exists_extension he'
      rw [he] at he''
      cases he''
    | some e =>
      obtain ⟨hpasses, hfollows, hsettled⟩ := l.passes_resolveType e.field
      obtain ⟨⟨visible, reports, hrest⟩, -⟩ := l.resolveType_rest e.field
      simp only
      generalize hl₁ : ({ (l.resolveType e.field).1 with
        extensions := (l.resolveType e.field).1.extensions.modify place
          ({ · with field := (l.resolveType e.field).2 }) } : Linker) = l₁
      have hextensions : (l.resolveType e.field).1.extensions = l.extensions := by rw [hrest]
      have hpasses₁ : Passes l l₁ := by
        subst hl₁
        refine ⟨hpasses.reports, hpasses.enums, hpasses.fields, ?_⟩
        rw [Array.toList_modify, hextensions]
        refine forall₂_modify (fun e => .refl e.field) fun e' he' => ?_
        obtain rfl : e = e' := by simpa [he] using he'
        exact hfollows
      have hplace : ∀ e', l₁.extensions[place]? = some e' → e'.field.Settled := by
        subst hl₁
        intro e' he'
        obtain rfl : { e with field := (l.resolveType e.field).2 } = e' := by
          simpa [hextensions, Array.getElem?_modify, he] using he'
        exact hsettled
      obtain ⟨hpasses', hall⟩ := ih l₁
      refine ⟨hpasses₁.trans hpasses', List.forall_mem_cons.mpr ⟨fun e' he' => ?_, hall⟩⟩
      obtain ⟨e₁, he₁, hfollows'⟩ := hpasses'.exists_extension he'
      exact hfollows'.settled (hplace e₁ he₁)

theorem passes_resolveMethodEnd (l : Linker) (m : MethodEntry) (type : String) :
    Passes l (l.resolveMethodEnd m type).1 := by
  obtain ⟨hpasses, -⟩ := l.passes_resolve m.service type m.file (some m.decl.position)
  unfold resolveMethodEnd
  rcases heq : l.resolve m.service type m.file (some m.decl.position) with ⟨l₁, _ | d⟩ <;>
    simp only [heq] at hpasses ⊢
  · exact hpasses
  · split_ifs
    · exact hpasses
    · exact hpasses.trans (passes_report ..)

theorem passes_linkMethods (l : Linker) (ms : List MethodEntry) :
    Passes l (l.linkMethods ms).1 := by
  induction ms generalizing l with
  | nil => exact .refl l
  | cons m ms ih =>
    rw [linkMethods]
    exact ((passes_resolveMethodEnd l m _).trans (passes_resolveMethodEnd _ m _)).trans (ih _)

/-! ## Records -/

theorem fields_of_tables {fields : List FieldRecord} {methods : List MethodRecord}
    (h : l.tables fields methods = .ok t) : t.fields = fields.toArray := by
  unfold tables at h
  rcases hmessages : l.messages.toList.mapM (messageRecord fields.toArray) with e | rs
  · rw [hmessages] at h
    cases h
  · rw [hmessages] at h
    rw [← Except.ok.inj h]

/-- If linking gives tables, then their fields are those that have been declared, followed by the
extensions that were attached; these are all that have been declared, if nothing was noted. -/
theorem exists_members_of_link (h : l.link = (l', .ok t)) :
    ∃ fields extensions : List FieldEntry,
      t.fields = ((fields.map fun f => l.fieldRecord f none) ++
        extensions.map fun f => l.fieldRecord f (some f.scope)).toArray ∧
      (∀ f ∈ fields ++ extensions, f.Settled ∧ ¬ l.Overflows f) ∧
      l.fields.toList.Forall₂ FieldEntry.Follows fields ∧
      (∀ f ∈ extensions, ∃ e ∈ l.extensions, e.field.Follows f) ∧
      (l'.reports = [] → ∀ e ∈ l.extensions, ∃ f ∈ extensions, e.field.Follows f) := by
  obtain ⟨hpasses₁, hsettled₁⟩ := l.passes_linkFields
  obtain ⟨hpasses₂, -, hall₂⟩ :=
    l.linkFields.passes_attachExtensions [] (List.range l.linkFields.extensions.size)
  unfold link at h
  simp only at h
  generalize l.linkFields = l₁ at *
  rcases hattach : l₁.attachExtensions [] (List.range l₁.extensions.size) with ⟨l₂, attached⟩
  simp only [hattach] at h hpasses₂ hall₂
  obtain ⟨hpasses₃, hall₃⟩ := l₂.passes_linkExtensions attached
  generalize l₂.linkExtensions attached = l₃ at *
  have hpasses₄ := l₃.passes_linkMethods l₃.methods.toList
  rcases hmethods : l₃.linkMethods l₃.methods.toList with ⟨l₄, methods⟩
  simp only [hmethods] at h hpasses₄
  have hpasses := ((hpasses₁.trans hpasses₂).trans hpasses₃).trans hpasses₄
  have henums := hpasses.enums
  have hplaces {f : FieldEntry} (hf : f ∈ l₄.extensionsAt attached) :
      ∃ i ∈ attached, ∃ e, l₄.extensions[i]? = some e ∧ e.field = f := by
    obtain ⟨i, hi, he⟩ := List.mem_filterMap.mp hf
    obtain ⟨e, he, hfield⟩ := Option.map_eq_some_iff.mp he
    exact ⟨i, hi, e, he, hfield⟩
  have hsettled : ∀ f ∈ l₄.fields.toList ++ l₄.extensionsAt attached, f.Settled := by
    refine List.forall_mem_append.mpr ⟨fun f hf => ?_, fun f hf => ?_⟩
    · obtain ⟨f₁, hf₁, hfollows⟩ :=
        exists_of_forall₂ ((hpasses₂.trans hpasses₃).trans hpasses₄).fields f hf
      exact hfollows.settled (hsettled₁ f₁ hf₁)
    · obtain ⟨i, hi, e, he, rfl⟩ := hplaces hf
      obtain ⟨e₃, he₃, hfollows⟩ := hpasses₄.exists_extension he
      exact hfollows.settled (hall₃ i hi e₃ he₃)
  -- nothing overflows, since records were made
  have hends : ∀ f ∈ (l₄.fields.toList.map fun f => (f, none)) ++
      (l₄.extensionsAt attached).map fun f => (f, some f.scope), ¬ l₄.Overflows f.1 := by
    intro f hf hover
    obtain ⟨l₅, e, hfails⟩ := fieldRecords_of_overflows ⟨f, hf, hover⟩
    rw [hfails] at h
    cases (Prod.mk.inj h).2
  obtain ⟨reports, hrecords, hclean⟩ := fieldRecords_eq _ hends
  rw [hrecords] at h
  obtain ⟨rfl, htables⟩ := Prod.mk.inj h
  refine ⟨l₄.fields.toList, l₄.extensionsAt attached, ?_, fun f hf => ⟨hsettled f hf, ?_⟩,
    hpasses.fields, fun f hf => ?_, fun hnone e he => ?_⟩
  · have hfields : t.fields = (((l₄.fields.toList.map fun f => (f, none)) ++
        (l₄.extensionsAt attached).map fun f : FieldEntry => (f, some f.scope)).map
          fun f : FieldEntry × Option String => l₄.fieldRecord f.1 f.2).toArray :=
      fields_of_tables htables
    rw [hfields, fieldRecord_congr henums, List.map_append, List.map_map, List.map_map]
    rfl
  · have hover : ¬ l₄.Overflows f := by
      rcases List.mem_append.mp hf with hf | hf
      · exact hends (f, none) (List.mem_append_left _ (List.mem_map_of_mem hf))
      · exact hends (f, some f.scope) (List.mem_append_right _
          (List.mem_map_of_mem (f := fun f => (f, some f.scope)) hf))
    simpa only [Overflows, defaultOf_congr henums] using hover
  · obtain ⟨i, -, e, he, rfl⟩ := hplaces hf
    obtain ⟨e₀, he₀, hfollows⟩ := hpasses.exists_extension he
    exact ⟨e₀, Array.mem_of_getElem? he₀, hfollows⟩
  · obtain ⟨i, hi⟩ := Array.getElem?_of_mem he
    have hreports : l₂.reports = [] := by
      have hlater := (hpasses₃.trans hpasses₄).reports
      rw [(hclean.mp hnone).1] at hlater
      exact List.prefix_nil.mp hlater
    have hlt : i < l.extensions.size := (Array.getElem?_eq_some_iff.mp hi).1
    have hattached : i ∈ attached := by
      rw [← hpasses₁.size_extensions] at hlt
      exact hall₂ hreports i (List.mem_range.mpr hlt) hlt
    have hlt₄ : i < l₄.extensions.size := by rwa [hpasses.size_extensions]
    have hi₄ : l₄.extensions[i]? = some l₄.extensions[i] := by simp [hlt₄]
    obtain ⟨e₀, he₀, hfollows⟩ := hpasses.exists_extension hi₄
    obtain rfl := Option.some.inj (hi.symm.trans he₀)
    refine ⟨_, List.mem_filterMap.mpr ⟨i, hattached, ?_⟩, hfollows⟩
    rw [hi₄, Option.map_some]

end Linker

end ProtoSchema
