import Mathlib
import ProtoSchema.Proofs.Decimal.Overflow
import ProtoSchema.Proofs.Tables.Integrity

/-!
# How linking ends

Linking notes what it cannot make sense of and goes on, with one exception: an integer that is
beyond all doubles, as the default of a single field of a floating type, stops it
(`FieldEntry.BeyondDoubles`). Otherwise it ends with tables, and what it notes is a function of the
declarations (`linkNotes`); a field whose default is refused is kept without one.
-/

namespace ProtoSchema

/-- A field may have a default and asks for one that is an integer beyond all doubles, while its
type is a floating one. -/
structure FieldEntry.BeyondDoubles (f : FieldEntry) : Prop where
  dialect : f.file.dialect ≠ .proto3
  label : f.label ≠ .repeated
  floating : FieldType.scalar? f.decl.typeName = some .float ∨
    FieldType.scalar? f.decl.typeName = some .double
  default : ∃ o, f.decl.option? "default" = some o ∧
    ∃ i, o.value.value = .int i ∧ Decimal.overflowBound ≤ i.natAbs

namespace Linker

variable {l l' l₀ : Linker}

/-! ## Defaults that stop linking -/

/-- Only an integer beyond all doubles fails as a default of a floating type. -/
theorem floatDefault_failure {value : Value} {type : FieldType} {e : LinkFailure} :
    value.floatDefault type = .error (.failure e) ↔
      e = .defaultOverflow ∧ ∃ i, value = .int i ∧ Decimal.overflowBound ≤ i.natAbs := by
  cases value with
  | int i =>
    cases hx : Decimal.ofInt? i with
    | none =>
      have hbeyond := Decimal.ofInt?_eq_none.mp hx
      simp [Value.floatDefault, hx, hbeyond, eq_comm]
    | some x =>
      have hwithin : ¬ Decimal.overflowBound ≤ i.natAbs := by
        rw [← Decimal.ofInt?_eq_none, hx]
        simp
      simp [Value.floatDefault, hx, hwithin]
  | ident word => cases hx : floatWord? word <;> simp [Value.floatDefault, hx]
  | float x | string s | aggregate es | list vs => simp [Value.floatDefault]

/-- A problem with a default is no failure. -/
theorem mapError_problem_ne_failure {α : Type} (r : Except DefaultProblem α) (e : LinkFailure) :
    r.mapError DefaultRefusal.problem ≠ .error (.failure e) := by
  cases r <;> simp [Except.mapError]

theorem convertDefault_failure {link : TypeLink} {value : Value} {e : LinkFailure} :
    l.convertDefault link value = .error (.failure e) ↔
      e = .defaultOverflow ∧ (link.type = .float ∨ link.type = .double) ∧
        ∃ i, value = .int i ∧ Decimal.overflowBound ≤ i.natAbs := by
  obtain ⟨type, typeName, messageType, enumType⟩ := link
  cases type <;>
    simp [convertDefault, FieldType.integerRange?, mapError_problem_ne_failure,
      floatDefault_failure]

theorem defaultOf_failure {f : FieldEntry} {label : Label} {value : Value} {e : LinkFailure} :
    l.defaultOf f label value = .error (.failure e) ↔
      e = .defaultOverflow ∧ f.file.dialect ≠ .proto3 ∧ label ≠ .repeated ∧
        (f.link.type = .float ∨ f.link.type = .double) ∧
        ∃ i, value = .int i ∧ Decimal.overflowBound ≤ i.natAbs := by
  have hsome (r : Except DefaultRefusal DefaultValue) :
      r.map some = .error (.failure e) ↔ r = .error (.failure e) := by
    cases r <;> simp [Except.map]
  unfold defaultOf
  split_ifs with hdialect hlabel
  · simp [hdialect]
  · simp [hlabel]
  · cases htype : f.link.type <;> simp [hsome, convertDefault_failure, htype, hdialect, hlabel]

/-- A definition is never a scalar type. -/
theorem typeLinkOf_not_floating {d : Definition} {isGroup : Bool} {link : TypeLink}
    (h : typeLinkOf d isGroup = some link) : link.type ≠ .float ∧ link.type ≠ .double := by
  unfold typeLinkOf at h
  split at h <;> cases h <;> simp

/-- A reference means a floating type just if it is the keyword of that type. -/
theorem linked_type_iff {f : FieldEntry} {t : FieldType} (h : t = .float ∨ t = .double) :
    (l.linked f).link.type = t ↔ FieldType.scalar? f.decl.typeName = some t := by
  have hunresolved : FieldType.unresolved ≠ t := by
    rcases h with rfl | rfl <;> simp
  unfold linked typeLink?
  cases hscalar : FieldType.scalar? f.decl.typeName with
  | some t' => simp [hscalar]
  | none =>
    simp only [hscalar, reduceCtorEq, iff_false]
    cases hlink : (l.meaning? f.scope f.decl.typeName f.file).bind
        (typeLinkOf · f.decl.isGroup) with
    | none => exact hunresolved
    | some link =>
      obtain ⟨d, -, hd⟩ := Option.bind_eq_some_iff.mp hlink
      obtain ⟨hfloat, hdouble⟩ := typeLinkOf_not_floating hd
      rcases h with rfl | rfl
      · exact hfloat
      · exact hdouble

/-- Linking stops at a field just if its default is beyond all doubles. -/
theorem overflows_linked_iff {f : FieldEntry} :
    l.Overflows (l.linked f) ↔ f.BeyondDoubles := by
  unfold Overflows
  simp only [defaultOf_failure, linked_type_iff (.inl rfl), linked_type_iff (.inr rfl)]
  constructor
  · rintro ⟨o, hoption, e, -, hdialect, hlabel, hfloating, i, hi, hbeyond⟩
    exact ⟨hdialect, hlabel, hfloating, o, hoption, i, hi, hbeyond⟩
  · rintro ⟨hdialect, hlabel, hfloating, o, hoption, i, hi, hbeyond⟩
    exact ⟨o, hoption, _, rfl, hdialect, hlabel, hfloating, i, hi, hbeyond⟩

/-- Making the records fails with an overflow only. -/
theorem fieldRecords_failure {fs : List (FieldEntry × Option String)} {e : LinkFailure}
    (h : (l.fieldRecords fs).2 = .error e) : e = .defaultOverflow := by
  induction fs generalizing l with
  | nil => simp [Linker.fieldRecords] at h
  | cons f fs ih =>
    obtain ⟨f, extensionScope⟩ := f
    by_cases hf : l.Overflows f
    · obtain ⟨o, hoption, e', hdefault⟩ := hf
      have hfield : l.fieldDefault f f.label = (l, .error e') := by
        simp [fieldDefault, hoption, hdefault]
      simp only [FieldEntry.label] at hfield
      rw [Linker.fieldRecords] at h
      simp only [hfield] at h
      cases h
      exact (defaultOf_failure.mp hdefault).1
    · obtain ⟨reports₁, hdefault, -⟩ := fieldDefault_eq l f hf
      obtain ⟨reports₂, hpacked, -⟩ := fieldPacked_eq { l with reports := reports₁ } f
      simp only [FieldEntry.label] at hdefault hpacked
      rw [Linker.fieldRecords] at h
      simp only [hdefault, hpacked] at h
      cases hrest : (Linker.fieldRecords { l with reports := reports₂ } fs).2 with
      | error e' =>
        rw [hrest] at h
        cases h
        exact ih hrest
      | ok records =>
        rw [hrest] at h
        cases h

/-! ## Options -/

/-- The note on the default of a field; there is none if the field can have it. -/
def defaultNotes (l : Linker) (f : FieldEntry) : List Report :=
  match f.decl.option? "default" with
  | none => []
  | some o =>
    match l.defaultOf f f.label o.value.value with
    | .error (.problem p) => [f.file.reportOf (some o.position) (.badDefault f.fullName p)]
    | _ => []

/-- The note on the packing of a field; there is none if it can be told. -/
def packedNotes (f : FieldEntry) : List Report :=
  if f.label ≠ .repeated ∨ ¬ f.link.type.isPackable then []
  else
    match f.decl.option? "packed" with
    | none => []
    | some o =>
      match o.value.value.flag? with
      | some _ => []
      | none =>
        [f.file.reportOf (some o.position) (.badPacked f.fullName o.value.value.description)]

/-- The notes on the options of a field. -/
def optionNotes (l : Linker) (f : FieldEntry) : List Report := l.defaultNotes f ++ packedNotes f

theorem defaultNotes_congr (h : l'.enums = l.enums) : l'.defaultNotes = l.defaultNotes := by
  funext f
  simp only [defaultNotes, defaultOf_congr h]

theorem fieldDefault_notes (l : Linker) (f : FieldEntry) (h : ¬ l.Overflows f) :
    l.fieldDefault f f.label =
      ({ l with reports := l.reports ++ l.defaultNotes f }, .ok (l.default? f)) := by
  unfold fieldDefault default? defaultNotes
  cases hoption : f.decl.option? "default" with
  | none => simp
  | some o =>
    simp only [Option.bind_some]
    cases hdefault : l.defaultOf f f.label o.value.value with
    | ok d => cases d <;> simp [Except.toOption]
    | error refusal =>
      cases refusal with
      | problem p => rfl
      | failure e => exact absurd ⟨o, hoption, e, hdefault⟩ h

theorem fieldPacked_notes (l : Linker) (f : FieldEntry) :
    l.fieldPacked f f.label = ({ l with reports := l.reports ++ packedNotes f }, f.packed) := by
  unfold fieldPacked FieldEntry.packed packedNotes
  by_cases hskip : f.label ≠ .repeated ∨ ¬ f.link.type.isPackable
  · rw [if_pos hskip, if_pos hskip, if_pos hskip, List.append_nil]
  · rw [if_neg hskip, if_neg hskip, if_neg hskip]
    cases hoption : f.decl.option? "packed" with
    | none => simp
    | some o =>
      simp only [Option.bind_some]
      cases hflag : o.value.value.flag? with
      | some b => simp
      | none => rfl

/-- Making the records notes the options that cannot be read. -/
theorem fieldRecords_notes (fs : List (FieldEntry × Option String))
    (h : ∀ f ∈ fs, ¬ l.Overflows f.1) :
    (l.fieldRecords fs).1.reports = l.reports ++ fs.flatMap fun f => l.optionNotes f.1 := by
  induction fs generalizing l with
  | nil => simp [Linker.fieldRecords]
  | cons f fs ih =>
    obtain ⟨f, extensionScope⟩ := f
    have hdefault := fieldDefault_notes l f (h (f, extensionScope) (by simp))
    have hpacked := fieldPacked_notes { l with reports := l.reports ++ l.defaultNotes f } f
    have hrest := ih (l := { l with reports := l.reports ++ l.defaultNotes f ++ packedNotes f })
      fun f' hf' => h f' (by simp [hf'])
    rw [Linker.fieldRecords]
    simp only [FieldEntry.label] at hdefault hpacked
    simp only [hdefault, hpacked]
    rw [hrest]
    simp only [List.flatMap_cons, optionNotes, List.append_assoc]
    rfl

/-! ## Linking -/

/-- Everything that linking notes: on references, and then on options. -/
def linkNotes (l : Linker) : List Report :=
  l.followNotes ++ l.members.flatMap fun f => l.optionNotes (l.linked f)

/-- Linking ends with tables unless a default is beyond all doubles, and then it fails for that. It
notes what stays without a link and the options that cannot be read, and nothing else. -/
theorem Coherent.link_outcome (hl : l.Coherent) :
    ((∃ f ∈ l.members, f.BeyondDoubles) → l.link.2 = .error .defaultOverflow) ∧
      ((∀ f ∈ l.members, ¬ f.BeyondDoubles) →
        l.link.2 = .ok l.linkedTables ∧ l.link.1.reports = l.reports ++ l.linkNotes) := by
  obtain ⟨l₁, hfollowed, heq⟩ := hl.followed
  have henums := hfollowed.enums
  have hoverflows (f : FieldEntry) : l₁.Overflows f ↔ l.Overflows f := by
    simp only [Overflows, defaultOf_congr henums]
  constructor
  · rintro ⟨f, hf, hbeyond⟩
    have hstops : ∃ f ∈ l.linkedMembers, l₁.Overflows f.1 := by
      by_contra hnone
      push Not at hnone
      refine forall_mem_linkedMembers (P := fun f => ¬ l₁.Overflows f) |>.mp hnone f hf ?_
      exact (hoverflows _).mpr (overflows_linked_iff.mpr hbeyond)
    obtain ⟨l₂, e, hrecords⟩ := fieldRecords_of_overflows hstops
    have he := fieldRecords_failure (congrArg Prod.snd hrecords)
    rw [heq, hrecords, he]
  · intro hwithin
    have hends : ∀ f ∈ l.members, ¬ l.Overflows (l.linked f) := fun f hf =>
      mt overflows_linked_iff.mp (hwithin f hf)
    obtain ⟨l₂, hlink, -⟩ := hl.link_eq hends
    refine ⟨congrArg Prod.snd hlink, ?_⟩
    have hends₁ : ∀ f ∈ l.linkedMembers, ¬ l₁.Overflows f.1 :=
      forall_mem_linkedMembers (P := fun f => ¬ l₁.Overflows f) |>.mpr fun f hf =>
        mt (hoverflows _).mp (hends f hf)
    have hnotes := fieldRecords_notes l.linkedMembers hends₁
    obtain ⟨reports, hrecords, -⟩ := fieldRecords_eq l.linkedMembers hends₁
    have hmembers : (l.linkedMembers.flatMap fun f => l₁.optionNotes f.1) =
        l.members.flatMap fun f => l.optionNotes (l.linked f) := by
      simp [linkedMembers, members, optionNotes, defaultNotes_congr henums, List.flatMap_map]
    rw [heq]
    rw [hrecords] at hnotes ⊢
    rw [linkNotes, ← List.append_assoc, ← hfollowed.notes, ← hmembers]
    exact hnotes

/-! ## Nothing is lost without a note -/

theorem typeNotes_ne_nil {f : FieldEntry} (h : l.typeLink? f = none) :
    ∃ p position, f.file.reportOf position p ∈ l.typeNotes f := by
  unfold typeLink? at h
  unfold typeNotes
  cases hscalar : FieldType.scalar? f.decl.typeName with
  | some t => simp [hscalar] at h
  | none =>
    simp only [hscalar] at h ⊢
    cases hmeaning : l.meaning? f.scope f.decl.typeName f.file with
    | none => exact ⟨_, _, by rw [referenceNotes, hmeaning]; exact List.mem_singleton_self _⟩
    | some d =>
      rw [hmeaning, Option.bind_some] at h
      simp only [h]
      exact ⟨_, _, List.mem_singleton_self _⟩

theorem methodEndNotes_ne_nil {m : MethodEntry} {type : String}
    (h : ¬ l.MethodEndFits m type) :
    ∃ p, m.file.reportOf (some m.decl.position) p ∈ l.methodEndNotes m type := by
  unfold methodEndNotes
  cases hmeaning : l.meaning? m.service type m.file with
  | none => exact ⟨_, by rw [referenceNotes, hmeaning]; exact List.mem_singleton_self _⟩
  | some d =>
    have hkind : d.kind ≠ .message := fun hkind => h ⟨d, hmeaning, hkind⟩
    simp only [if_neg hkind]
    exact ⟨_, List.mem_singleton_self _⟩

/-- There is a note on an extension that no message takes. -/
theorem extensionNotes_ne_nil {members : List FieldEntry} {e : ExtensionEntry}
    (h : l.extensionOwner? members e = none) :
    ∃ p, e.field.file.reportOf (some e.field.decl.position) p ∈ l.extensionNotes members e := by
  unfold extensionOwner? target? at h
  unfold extensionNotes
  cases hmeaning : l.meaning? e.field.scope e.extendee e.field.file with
  | none =>
    simp only [referenceNotes, hmeaning]
    exact ⟨_, List.mem_singleton_self _⟩
  | some d =>
    simp only [hmeaning, Option.bind_some] at h ⊢
    cases hkind : d.kind with
    | message =>
      cases hplace : d.place with
      | none => exact ⟨_, List.mem_singleton_self _⟩
      | some place =>
        cases hm : l.inventory.messages[place]? with
        | none =>
          simp only [Option.bind_some, hm, Option.map_none]
          exact ⟨_, List.mem_singleton_self _⟩
        | some m =>
          simp only [Option.bind_some, hm, Option.map_some]
          split_ifs with hopen
          · -- the message is open for the number, so that some member has it already
            simp only [hkind, hplace, if_true, Option.filter_some, hm, Option.any_some, hopen]
              at h
            cases hholder : members.find? fun f' =>
                f'.owner = some place ∧ f'.decl.number = e.field.decl.number with
            | some holder => exact ⟨_, List.mem_singleton_self _⟩
            | none =>
              rw [List.find?_eq_none] at hholder
              simp only [decide_eq_true_eq, not_and] at hholder
              simp [decide_eq_true hholder] at h
          · exact ⟨_, List.mem_singleton_self _⟩
    | package | enum | service | method => exact ⟨_, List.mem_singleton_self _⟩

/-- Each extension is attached, or there is a note on it. -/
theorem attached_or_noted {members : List FieldEntry} {es : List ExtensionEntry}
    {e : ExtensionEntry} (he : e ∈ es) :
    (∃ owner, { e.field with owner := some owner } ∈ l.attachedTo members es) ∨
      ∃ p, e.field.file.reportOf (some e.field.decl.position) p ∈
        l.attachingNotes members es := by
  induction es generalizing members with
  | nil => exact absurd he (by simp)
  | cons e' es ih =>
    rw [attachedTo, attachingNotes]
    cases howner : l.extensionOwner? members e' with
    | none =>
      rcases List.mem_cons.mp he with rfl | he
      · obtain ⟨p, hp⟩ := extensionNotes_ne_nil howner
        exact .inr ⟨p, List.mem_append_left _ hp⟩
      · rcases ih he with hattached | ⟨p, hp⟩
        · exact .inl hattached
        · exact .inr ⟨p, List.mem_append_right _ hp⟩
    | some owner =>
      rcases List.mem_cons.mp he with rfl | he
      · exact .inl ⟨owner, List.mem_cons_self⟩
      · rcases ih he with ⟨owner', hattached⟩ | ⟨p, hp⟩
        · exact .inl ⟨owner', List.mem_cons_of_mem _ hattached⟩
        · exact .inr ⟨p, List.mem_append_right _ hp⟩

/-- What a linking that ends has done with the declarations of `l₀`: everything without a link is
noted, and so is every default that is refused, whose field is kept without one. -/
structure Noted (l₀ l : Linker) (t : Tables) : Prop where
  reports : l.reports = l₀.reports ++ l₀.linkNotes
  types : ∀ f ∈ l₀.members, l₀.typeLink? f = none →
    ∃ p position, f.file.reportOf position p ∈ l.reports
  extensions : ∀ e ∈ l₀.inventory.extensions,
    (∃ owner, { e.field with owner := some owner } ∈ l₀.attached) ∨
      ∃ p, e.field.file.reportOf (some e.field.decl.position) p ∈ l.reports
  methods : ∀ m ∈ l₀.inventory.methods, ∀ type ∈ [m.decl.inputType, m.decl.outputType],
    ¬ l₀.MethodEndFits m type → ∃ p, m.file.reportOf (some m.decl.position) p ∈ l.reports
  defaults : ∀ (i : Nat) f o p, l₀.members[i]? = some f → f.decl.option? "default" = some o →
    l₀.defaultOf (l₀.linked f) f.label o.value.value = .error (.problem p) →
      f.file.reportOf (some o.position) (.badDefault f.fullName p) ∈ l.reports ∧
      ∃ r, t.fields[i]? = some r ∧ r.fullName = f.fullName ∧ r.default = none

theorem noted_of_reports (h : l'.reports = l.reports ++ l.linkNotes) :
    Noted l l' l.linkedTables := by
  have hmem {r : Report} (hr : r ∈ l.linkNotes) : r ∈ l'.reports := by
    rw [h]
    exact List.mem_append_right _ hr
  have hfollow {r : Report} (hr : r ∈ l.followNotes) : r ∈ l'.reports :=
    hmem (List.mem_append_left _ hr)
  refine ⟨h, ?_, ?_, ?_, ?_⟩
  · intro f hf hlink
    obtain ⟨p, position, hp⟩ := typeNotes_ne_nil hlink
    refine ⟨p, position, hfollow ?_⟩
    have hnote := List.mem_flatMap.mpr ⟨f, hf, hp⟩
    rw [members, List.flatMap_append] at hnote
    simp only [followNotes, List.mem_append] at hnote ⊢
    tauto
  · intro e he
    refine (attached_or_noted he).imp_right ?_
    rintro ⟨p, hp⟩
    refine ⟨p, hfollow ?_⟩
    simp only [followNotes, List.mem_append]
    tauto
  · intro m hm type htype hfits
    obtain ⟨p, hp⟩ := methodEndNotes_ne_nil hfits
    refine ⟨p, hfollow (List.mem_append_right _ (List.mem_flatMap.mpr ⟨m, hm, ?_⟩))⟩
    rcases List.mem_pair.mp htype with rfl | rfl
    · exact List.mem_append_left _ hp
    · exact List.mem_append_right _ hp
  · intro i f o p hf hoption hrefused
    refine ⟨hmem (List.mem_append_right _ (List.mem_flatMap.mpr
      ⟨f, List.mem_of_getElem? hf, List.mem_append_left _ ?_⟩)), ?_⟩
    · have hlabel : (l.linked f).label = f.label := rfl
      simp [defaultNotes, hoption, hlabel, hrefused]
    · have hscoped := congrArg (·[i]?) l.map_fst_scopedMembers
      simp only [List.getElem?_map, hf, Option.map_eq_some_iff] at hscoped
      obtain ⟨⟨f', extensionScope⟩, hscoped, rfl⟩ := hscoped
      refine ⟨l.fieldRecord (l.linked f') extensionScope, ?_, rfl, ?_⟩
      · simp [linkedTables, memberRecords_eq, hscoped]
      · have hlabel : (l.linked f').label = f'.label := rfl
        simp [fieldRecord, default?, hoption, hlabel, hrefused, Except.toOption]

/-- Whatever files of different names are declared: linking them ends with tables, unless a default
is beyond all doubles, and every problem with a reference, an extension or another default ends as
a note. -/
theorem link_noted {files : List SchemaFile} (hnames : (files.map (·.name)).Nodup) :
    (∀ e, (ofFiles files).link.2 = .error e ↔
      e = .defaultOverflow ∧ ∃ f ∈ (ofFiles files).members, f.BeyondDoubles) ∧
    ∀ l t, (ofFiles files).link = (l, .ok t) → Noted (ofFiles files) l t := by
  obtain ⟨hstops, hends⟩ := (coherent_ofFiles hnames).link_outcome
  by_cases hbeyond : ∃ f ∈ (ofFiles files).members, f.BeyondDoubles
  · rw [hstops hbeyond]
    refine ⟨fun e => ?_, fun l t hlink => ?_⟩
    · simp [hbeyond, eq_comm]
    · have hfails := hstops hbeyond
      rw [hlink] at hfails
      cases hfails
  · obtain ⟨hlink, hreports⟩ := hends fun f hf hf' => hbeyond ⟨f, hf, hf'⟩
    rw [hlink]
    refine ⟨fun e => by simp [hbeyond], fun l t heq => ?_⟩
    rw [heq] at hlink hreports
    cases hlink
    exact noted_of_reports hreports

end Linker

namespace Sample

/-- A file with one field, of a floating type, whose default is beyond all doubles. -/
def beyond : SchemaFile where
  name := Text.ofString "beyond.proto"
  dialect := .proto2
  package := none
  imports := []
  messages := [message "M" [{ field "d" 1 "double" with
    options := [⟨"default", ⟨.int (10 ^ 309), none⟩, ⟨1, 1⟩⟩] }]]
  enums := []
  services := []
  extendBlocks := []
  options := []

end Sample

namespace Linker

/-- Of the sample files the last stops linking. -/
theorem link_noted_sample :
    (∃ l t, (ofFiles [Sample.shapes, Sample.again]).link = (l, .ok t) ∧
      Noted (ofFiles [Sample.shapes, Sample.again]) l t) ∧
    ∃ f ∈ (ofFiles [Sample.beyond]).members, f.BeyondDoubles := by
  constructor
  · have hlinks : (ofFiles [Sample.shapes, Sample.again]).link.2.toOption.isSome := by
      decide +kernel
    obtain ⟨l, t, h⟩ := exists_tables hlinks
    exact ⟨l, t, h, (link_noted (by decide +kernel)).2 l t h⟩
  · have hstops : ¬ (ofFiles [Sample.beyond]).link.2.toOption.isSome := by
      decide +kernel
    rcases hlink : (ofFiles [Sample.beyond]).link.2 with e | t
    · exact (((link_noted (by decide +kernel)).1 e).mp hlink).2
    · rw [hlink] at hstops
      exact absurd rfl hstops

/-- Linking need not end with tables. -/
theorem link_beyond_no_tables : ¬ ∃ l t, (ofFiles [Sample.beyond]).link = (l, .ok t) := by
  rintro ⟨l, t, hlink⟩
  have hstops : ¬ (ofFiles [Sample.beyond]).link.2.toOption.isSome := by
    decide +kernel
  rw [hlink] at hstops
  exact hstops rfl

end Linker

end ProtoSchema
