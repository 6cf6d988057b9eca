import ProtoSchema.Proofs.Descriptor.Clauses
import ProtoSchema.Proofs.Places

/-!
# Rendered fields

The line of a field is read as a declaration that mirrors its record, if everything that is written
of records can be read (`Linker.Writes`).
-/

namespace ProtoSchema

open Dotted

/-- Records that can be written: their names are words, the full names that they refer to are paths,
and so on for everything that is written of a message. Each message is behind the one that it is
nested in. -/
structure Linker.Writes (l : Linker) (t : Tables) : Prop where
  messages : ∀ m ∈ t.messages, m.isMapEntry = false → IsWord m.name ∧ IsPath m.fullName
  enums : ∀ e ∈ t.enums, IsWord e.name ∧ IsPath e.fullName
  values : ∀ v ∈ t.enumValues, IsWord v.name
  fields : ∀ f ∈ t.fields, IsWord f.name
  remarks : ∀ f ∈ t.fields, '\n' ∉ f.fullName.toList ∧ ∀ o ∈ f.oneof, '\n' ∉ o.toList
  plain : ∀ f ∈ t.fields, t.entry? f = none → ∃ type, t.RefersTo f type
  maps : ∀ f ∈ t.fields, ∀ entry, t.entry? f = some entry → ∃ key value type,
    entry.fields.map (t.fields[·]?) = [some key, some value] ∧
      key.type ∈ FieldType.scalars ∧ FieldType.isMapKeyName key.type.keyword = true ∧
      t.RefersTo value type ∧ IsTypeText type
  defaults : ∀ f ∈ t.fields, ∀ x, f.default = some x → (∃ text, t.literal? x = some text) ∧
    ∀ value, t.Denotes x value → l.ConvertsTo f value x
  fieldPlaces : ∀ m ∈ t.messages, ∀ place ∈ m.fields, place < t.fields.size
  enumPlaces : ∀ m ∈ t.messages, ∀ place ∈ m.enums, place < t.enums.size
  valuePlaces : ∀ e ∈ t.enums, ∀ place ∈ e.values, place < t.enumValues.size
  messagePlaces : ∀ p m, t.messages[p]? = some m → ∀ q ∈ m.messages, p < q ∧ q < t.messages.size

/-- Lines that are read as a nonterminal behind every item of a sort, with an item of this sort at
the end. -/
def Nonterminal.Chunk (n : Nonterminal) (Behind : Item → Prop) (lines : List String)
    (Q : n.Value → Prop) : Prop :=
  ∃ ls, Lines lines ls ∧ ∀ prev, Behind prev → n.Reads prev ls fun v last => Q v ∧ Behind last

/-- A run of what is read one by one, where a run is one or goes on with one. -/
theorem exists_run {V α : Type} {one : Item → List Lexed → (V → Item → Prop) → Prop}
    {many : Item → List Lexed → (List V → Item → Prop) → Prop}
    (hone : ∀ {prev : Item} {ls : List Lexed} {Q : V → Item → Prop} {R : List V → Item → Prop},
      one prev ls Q → (∀ v last, Q v last → R [v] last) → many prev ls R)
    (hmore : ∀ {prev : Item} {ls ms : List Lexed} {P R : List V → Item → Prop}
      {Q : V → Item → Prop}, many prev ls P → (∀ vs last, P vs last → one last ms Q) →
      (∀ vs v last last', P vs last → Q v last' → R (vs ++ [v]) last') → many prev (ls ++ ms) R)
    {Behind : Item → Prop} {lines : α → List String} {Q : α → V → Prop} {xs : List α} (hne : xs ≠ [])
    (h : ∀ x ∈ xs, ∃ ls, Lines (lines x) ls ∧ ∀ prev, Behind prev → one prev ls fun v last =>
      Q x v ∧ Behind last) :
    ∃ ls, Lines (xs.flatMap lines) ls ∧ ∀ prev, Behind prev → many prev ls fun vs last =>
      xs.Forall₂ Q vs ∧ Behind last := by
  induction xs using List.reverseRecOn with
  | nil => exact absurd rfl hne
  | append_singleton xs x ih =>
    obtain ⟨ms, hlines, hreads⟩ := h x (by simp)
    by_cases hxs : xs = []
    · subst hxs
      refine ⟨ms, by simpa using hlines, fun prev hprev => hone (hreads prev hprev) ?_⟩
      exact fun v last hv => ⟨.cons hv.1 .nil, hv.2⟩
    · obtain ⟨ls, hlines', hreads'⟩ := ih hxs fun y hy => h y (by simp [hy])
      refine ⟨ls ++ ms, ?_, fun prev hprev => ?_⟩
      · rw [List.flatMap_append, List.flatMap_singleton]
        exact hlines'.append hlines
      · refine hmore (hreads' prev hprev) (fun _ last hvs => hreads last hvs.2) ?_
        exact fun vs v _ _ hvs hv => ⟨List.rel_append hvs.1 (.cons hv.1 .nil), hv.2⟩

/-- A string is inserted into another one as it is. -/
theorem toString_self (s : String) : toString s = s := rfl

section Writes

variable {l : Linker} {t : Tables} {f : FieldRecord}

/-- What a field refers to is what is written. -/
theorem Tables.RefersTo.typeReference {type : String} (h : t.RefersTo f type) :
    t.typeReference f = type := by
  have hscalars : ∀ type ∈ FieldType.scalars, type.keyword.isEmpty = false ∧
      type ∉ [.message, .group, .enum] := by
    decide
  unfold Tables.RefersTo at h
  unfold Tables.typeReference
  split at h
  · next hf =>
    obtain ⟨m, hm, rfl⟩ := h
    simp [hf, hm]
  · next hf =>
    obtain ⟨m, hm, rfl⟩ := h
    simp [hf, hm]
  · next hf =>
    obtain ⟨e, he, rfl⟩ := h
    simp [hf, he]
  · next hmessage hgroup henum =>
    obtain ⟨htype, rfl⟩ := h
    simp [(hscalars _ htype).1]

theorem Tables.entry?_eq_some {entry : MessageRecord} :
    t.entry? f = some entry ↔ f.messageType.bind (t.messages[·]?) = some entry ∧
      entry.isMapEntry = true := by
  simp [Tables.entry?, Option.filter_eq_some_iff]

theorem Tables.mapEntry?_eq_none (h : t.entry? f = none) : t.mapEntry? f = none := by
  unfold Tables.mapEntry?
  cases hm : f.messageType.bind (t.messages[·]?) with
  | none => rfl
  | some m =>
    have hentry : m.isMapEntry = false := by
      rw [← Bool.not_eq_true]
      intro hentry
      cases h.symm.trans (Tables.entry?_eq_some.mpr ⟨hm, hentry⟩)
    simp [hentry]

theorem Tables.mapEntry?_eq_some {entry : MessageRecord} {key value : FieldRecord}
    (h : t.entry? f = some entry)
    (hfields : entry.fields.map (t.fields[·]?) = [some key, some value]) :
    t.mapEntry? f = some (key, value) := by
  obtain ⟨hm, hentry⟩ := Tables.entry?_eq_some.mp h
  have hat : t.fieldsAt entry.fields = [key, value] := filterMap_of_map hfields
  simp [Tables.mapEntry?, hm, hentry, hat]

/-- A field that is no map refers to a scalar or a path. -/
theorem Linker.Writes.isTypeText (h : l.Writes t) (hf : t.entry? f = none) {type : String}
    (htype : t.RefersTo f type) : IsTypeText type := by
  have hmessage {m : MessageRecord} (hm : f.messageType.bind (t.messages[·]?) = some m) :
      IsTypeText ("." ++ m.fullName) := by
    have hentry : m.isMapEntry = false := by
      rw [← Bool.not_eq_true]
      intro hentry
      cases hf.symm.trans (Tables.entry?_eq_some.mpr ⟨hm, hentry⟩)
    obtain ⟨place, -, hplace⟩ := Option.bind_eq_some_iff.mp hm
    exact .inl ⟨_, (h.messages m (Array.mem_of_getElem? hplace) hentry).2, rfl⟩
  unfold Tables.RefersTo at htype
  split at htype
  · obtain ⟨m, hm, rfl⟩ := htype
    exact hmessage hm
  · obtain ⟨m, hm, rfl⟩ := htype
    exact hmessage hm
  · obtain ⟨e, he, rfl⟩ := htype
    obtain ⟨place, -, hplace⟩ := Option.bind_eq_some_iff.mp he
    exact .inl ⟨_, (h.enums e (Array.mem_of_getElem? hplace)).2, rfl⟩
  · exact .inr ⟨f.type, htype⟩

/-- The keyword of a scalar refers to it. -/
theorem Tables.refersTo_scalar (hf : f.type ∈ FieldType.scalars) : t.RefersTo f f.type.keyword := by
  have hscalars : ∀ type ∈ FieldType.scalars, type ∉ [.message, .group, .enum] := by decide
  have hother := hscalars f.type hf
  unfold Tables.RefersTo
  split <;> simp_all

/-- The line of a field is its type and the rest of its declaration, with a remark behind it if it is
in a oneof. -/
theorem Linker.Writes.line_field (h : l.Writes t) (hf : f ∈ t.fields) {ls tail : List Lexed}
    (hls : Segment (t.declaredType f).toList ls)
    (htail : Segment (f.name ++ " = " ++ toString f.number ++ t.fieldOptions f ++ ";").toList tail) :
    Line (t.fieldLine f) (ls ++ tail) := by
  have hsegment := hls.spaced htail
  cases ho : f.oneof with
  | none =>
    have htext : (t.fieldLine f).toList = (t.declaredType f).toList ++ ' ' ::
        (f.name ++ " = " ++ toString f.number ++ t.fieldOptions f ++ ";").toList := by
      simp [Tables.fieldLine, ho, toString_self]
    exact Segment.line (htext ▸ hsegment)
  | some name =>
    have htext : t.fieldLine f = t.declaredType f ++ " " ++
        (f.name ++ " = " ++ toString f.number ++ t.fieldOptions f ++ ";") ++ "  //" ++
          (" oneof " ++ name) := by
      apply String.toList_injective
      simp [Tables.fieldLine, ho, toString_self]
    rw [htext]
    refine Segment.remarked (by simpa using hsegment) ?_
    simpa using (h.remarks f hf).2 name ho

/-- A field that is no map is read as one with its label and type. -/
theorem Linker.Writes.reads_plain (h : l.Writes t) (hf : f ∈ t.fields) (hentry : t.entry? f = none)
    {tail : List Lexed} (htail : ReadsTail f.name f.number tail ∧ l.MirrorsOptions f [] ∨
      ReadsTailWith f.name f.number (l.MirrorsOptions f) tail) :
    ∃ ls, Segment (t.declaredType f).toList ls ∧ ∀ prev,
      Nonterminal.fieldDecl.Reads prev (ls ++ tail) fun d _ => l.MirrorsField t f d := by
  obtain ⟨type, htype⟩ := h.plain f hf hentry
  obtain ⟨ts, hsegment, hts⟩ := phrase_type (h.isTypeText hentry htype)
  obtain ⟨label, hlabel, hlabels⟩ := phrase_label f.label
  refine ⟨label ++ ts, ?_, fun prev => ?_⟩
  · have htext : (t.declaredType f).toList = f.label.name.toList ++ ' ' :: type.toList := by
      simp [Tables.declaredType, Tables.mapEntry?_eq_none hentry, htype.typeReference,
        toString_self]
    rw [htext]
    exact hlabel.spaced hsegment
  · have hmirrors {d : FieldDecl} {position : Position} {options : List OptionDecl}
        (hd : d.name = f.name ∧ d.number = f.number ∧ d.label = some f.label ∧
          d.shape = .named type (some position) ∧ d.options = options)
        (hoptions : l.MirrorsOptions f options) : l.MirrorsField t f d := by
      refine ⟨hd.1, hd.2.1, ?_, hd.2.2.2.2 ▸ hoptions⟩
      rw [Tables.MirrorsType, hentry]
      exact ⟨hd.2.2.1, _, _, hd.2.2.2.1, htype⟩
    rw [List.append_assoc]
    rcases htail with ⟨hreads, hoptions⟩ | hreads
    · refine Nonterminal.reads_rule 1 (Action.reads_part (hlabels prev trivial) ?_)
      rintro _ _ rfl
      refine Action.reads_part (hts _ trivial) fun v last hv => ?_
      refine hreads (hv.2 ▸ Item.quiet_name) fun w _ k _ hw hk => ⟨_, rfl, fun _ => ?_⟩
      exact hmirrors ⟨hw, hk, rfl, by rw [FieldDecl.plain, hv.1], rfl⟩ hoptions
    · refine Nonterminal.reads_rule 0 (Action.reads_part (hlabels prev trivial) ?_)
      rintro _ _ rfl
      refine Action.reads_part (hts _ trivial) fun v last hv => ?_
      refine hreads (hv.2 ▸ Item.quiet_name) fun w _ k os _ hw hk hos => ⟨_, rfl, fun _ => ?_⟩
      exact hmirrors ⟨hw, hk, rfl, by rw [FieldDecl.plain, hv.1], rfl⟩ hos

/-- A map is read as one of its key and value. -/
theorem Linker.Writes.reads_map (h : l.Writes t) (hf : f ∈ t.fields) {entry : MessageRecord}
    (hentry : t.entry? f = some entry) {tail : List Lexed}
    (htail : ReadsTail f.name f.number tail ∧ l.MirrorsOptions f [] ∨
      ReadsTailWith f.name f.number (l.MirrorsOptions f) tail) :
    ∃ ls, Segment (t.declaredType f).toList ls ∧ ∀ prev,
      Nonterminal.mapFieldDecl.Reads prev (ls ++ tail) fun d _ => l.MirrorsField t f d := by
  obtain ⟨key, value, type, hfields, hkey, -, hvalue, htype⟩ := h.maps f hf entry hentry
  obtain ⟨ks, hks, hkeys⟩ := phrase_type (.inr ⟨key.type, hkey, rfl⟩)
  obtain ⟨vs, hvs, hvalues⟩ := phrase_type htype
  refine ⟨[(.keyword .kwMap, ['m', 'a', 'p'])] ++ (.mark .less, ['<']) ::
    (ks ++ (.mark .comma, [',']) :: (vs ++ [(.mark .greater, ['>'])])), ?_, fun prev => ?_⟩
  · have htext : (t.declaredType f).toList = ['m', 'a', 'p'] ++ '<' ::
        (key.type.keyword.toList ++ ',' :: ' ' :: (type.toList ++ ['>'])) := by
      simp [Tables.declaredType, Tables.mapEntry?_eq_some hentry hfields, hvalue.typeReference,
        (Tables.refersTo_scalar hkey).typeReference, toString_self]
    rw [htext]
    have hend := (hvs.marked (m := .greater) nofun .nil).blank (c := ' ') rfl
    exact (Segment.lexeme (l := (.keyword .kwMap, ['m', 'a', 'p'])) rfl).marked (m := .less) nofun
      (hks.marked (m := .comma) nofun hend)
  · have hmirrors {d : FieldDecl} {position : Position} {options : List OptionDecl}
        (hd : d.name = f.name ∧ d.number = f.number ∧
          d.shape = .map key.type.keyword type position ∧ d.options = options)
        (hoptions : l.MirrorsOptions f options) : l.MirrorsField t f d := by
      refine ⟨hd.1, hd.2.1, ?_, hd.2.2.2 ▸ hoptions⟩
      rw [Tables.MirrorsType, hentry]
      exact ⟨key, value, _, _, _, hfields, hd.2.2.1, Tables.refersTo_scalar hkey, hvalue⟩
    have hgreater : (⟨⟨.mapFieldDecl, 0⟩, 6⟩ : Item).Quiet ∧
        (⟨⟨.mapFieldDecl, 1⟩, 6⟩ : Item).Quiet := by decide
    simp only [List.append_assoc, List.cons_append, List.nil_append]
    rcases htail with ⟨hreads, hoptions⟩ | hreads
    · refine Nonterminal.reads_rule 1 (Action.reads_terminal rfl Item.admits_keyword ?_)
      refine fun _ _ => Action.reads_terminal rfl Item.admits_mark fun _ _ => ?_
      refine Action.reads_part (hkeys _ trivial) fun k _ hk => ?_
      refine Action.reads_terminal rfl Item.admits_mark fun _ _ => ?_
      refine Action.reads_part (hvalues _ trivial) fun v _ hv => ?_
      refine Action.reads_terminal rfl Item.admits_mark fun _ _ => ?_
      refine hreads hgreater.2 fun w _ n _ hw hn => ⟨_, rfl, fun _ => ?_⟩
      exact hmirrors ⟨hw, hn, by rw [FieldDecl.ofMap, hk.1, hv.1], rfl⟩ hoptions
    · refine Nonterminal.reads_rule 0 (Action.reads_terminal rfl Item.admits_keyword ?_)
      refine fun _ _ => Action.reads_terminal rfl Item.admits_mark fun _ _ => ?_
      refine Action.reads_part (hkeys _ trivial) fun k _ hk => ?_
      refine Action.reads_terminal rfl Item.admits_mark fun _ _ => ?_
      refine Action.reads_part (hvalues _ trivial) fun v _ hv => ?_
      refine Action.reads_terminal rfl Item.admits_mark fun _ _ => ?_
      refine hreads hgreater.1 fun w _ n os _ hw hn hos => ⟨_, rfl, fun _ => ?_⟩
      exact hmirrors ⟨hw, hn, by rw [FieldDecl.ofMap, hk.1, hv.1], rfl⟩ hos

/-- The line of a field is read as a field that mirrors it. -/
theorem Linker.Writes.chunk_field (h : l.Writes t) (hf : f ∈ t.fields) :
    Nonterminal.messageItem.Chunk (fun _ => True) [t.fieldLine f] fun item =>
      ∃ d, item = .field d ∧ l.MirrorsField t f d := by
  obtain ⟨tail, htail, hreads⟩ := exists_tail (h.fields f hf) h.values (h.defaults f hf)
  cases hentry : t.entry? f with
  | none =>
    obtain ⟨ls, hls, hdecl⟩ := h.reads_plain hf hentry hreads
    exact ⟨_, .single (h.line_field hf hls htail), fun prev _ => Nonterminal.reads_rule 0
      (Action.reads_last (hdecl prev) fun d _ hd => ⟨_, rfl, ⟨d, rfl, hd⟩, trivial⟩)⟩
  | some entry =>
    obtain ⟨ls, hls, hdecl⟩ := h.reads_map hf hentry hreads
    exact ⟨_, .single (h.line_field hf hls htail), fun prev _ => Nonterminal.reads_rule 2
      (Action.reads_last (hdecl prev) fun d _ hd => ⟨_, rfl, ⟨d, rfl, hd⟩, trivial⟩)⟩

end Writes

end ProtoSchema
