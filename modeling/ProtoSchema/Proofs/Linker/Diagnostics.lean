import Mathlib
import ProtoSchema.Proofs.Linker.Extensions

/-!
# What is noted of references

A reference that stays without a link is noted where it stands, and nothing else is. The notes on
the type of a field, on an extension and on a method are functions of the declared files and
definitions, as the links are (`typeNotes`, `extensionNotes`, `methodNotes`), and following all
references adds these notes in the order of the passes (`followNotes`).
-/

namespace ProtoSchema

/-- The report of a problem at a place of a file. -/
def FileScope.reportOf (file : FileScope) (position : Option Position) (p : LinkProblem) : Report :=
  ⟨.link p, file.name, position⟩

namespace Linker

variable {l l' l₀ : Linker} {file : FileScope} {added : List FieldEntry} {places rest : List Nat}

@[simp] theorem reports_report (l : Linker) (file : FileScope) (position : Option Position)
    (p : LinkProblem) :
    (l.report file position p).reports = l.reports ++ [file.reportOf position p] := rfl

/-! ## References -/

/-- The note on a reference; there is none if it stands for something. -/
def referenceNotes (l : Linker) (scope name : String) (file : FileScope)
    (position : Option Position) : List Report :=
  match l.meaning? scope name file with
  | some _ => []
  | none => [file.reportOf position (l.missing scope name file)]

/-- What is said of a missing name depends on the definitions alone. -/
theorem missing_congr (h : l'.definitions = l.definitions) (scope name : String)
    (file : FileScope) : l'.missing scope name file = l.missing scope name file := by
  rw [missing, missing, lookup?_congr h]

/-- A reference is noted if and only if it has no meaning. -/
theorem Knows.reports_resolve (h : Knows l₀ l) (hfile : file ∈ l₀.files) (scope name : String)
    (position : Option Position) :
    (l.resolve scope name file position).1.reports =
      l.reports ++ l₀.referenceNotes scope name file position := by
  obtain ⟨l₁, heq, hsees⟩ := h.visibleFiles hfile
  have hreports : l₁.reports = l.reports := by
    have hl₁ : (l.visibleFiles file).1 = l₁ := congrArg Prod.fst heq
    rw [← hl₁]
    unfold Linker.visibleFiles
    split <;> rfl
  have hlookup := lookup?_congr hsees.knows.definitions scope name
    (·.seenIn (l₀.visibleFrom file))
  have hmissing := missing_congr hsees.knows.definitions scope name file
  unfold Linker.resolve referenceNotes meaning?
  rw [heq]
  simp only [hlookup]
  cases l₀.lookup? scope name (·.seenIn (l₀.visibleFrom file)) with
  | some d => simp [hreports]
  | none => simp [hreports, hmissing]

/-- The note on the type of a field; there is none if the reference means a type. -/
def typeNotes (l : Linker) (f : FieldEntry) : List Report :=
  match FieldType.scalar? f.decl.typeName with
  | some _ => []
  | none =>
    match l.meaning? f.scope f.decl.typeName f.file with
    | none => l.referenceNotes f.scope f.decl.typeName f.file (some f.decl.typePosition)
    | some d =>
      match typeLinkOf d f.decl.isGroup with
      | some _ => []
      | none => [f.file.reportOf (some f.decl.position) (.notAType f.decl.typeName d.kind)]

theorem Knows.reports_resolveType (h : Knows l₀ l) {f : FieldEntry} (hfile : f.file ∈ l₀.files) :
    (l.resolveType f).1.reports = l.reports ++ l₀.typeNotes f := by
  have hreports := h.reports_resolve hfile f.scope f.decl.typeName (some f.decl.typePosition)
  obtain ⟨l₁, heq, -⟩ := h.resolve hfile f.scope f.decl.typeName (some f.decl.typePosition)
  unfold Linker.resolveType typeNotes
  cases hscalar : FieldType.scalar? f.decl.typeName with
  | some t => simp [hscalar]
  | none =>
    simp only [hscalar, heq]
    cases hmeaning : l₀.meaning? f.scope f.decl.typeName f.file with
    | none => simpa [heq] using hreports
    | some d =>
      rw [heq, referenceNotes, hmeaning, List.append_nil] at hreports
      unfold typeLinkOf
      cases hkind : d.kind <;> cases hgroup : f.decl.isGroup <;> simp [hkind, ← hreports]

theorem Knows.reports_resolveTypes (h : Knows l₀ l) {fs : List FieldEntry}
    (hfs : ∀ f ∈ fs, f.file ∈ l₀.files ∧ f.link = .unresolved) :
    (l.resolveTypes fs).1.reports = l.reports ++ fs.flatMap l₀.typeNotes := by
  induction fs generalizing l with
  | nil => simp [Linker.resolveTypes]
  | cons f fs ih =>
    obtain ⟨hfile, hlink⟩ := hfs f (by simp)
    have hreports := h.reports_resolveType hfile
    obtain ⟨l₁, heq, hlooks⟩ := h.resolveType hfile hlink
    rw [heq] at hreports
    rw [Linker.resolveTypes, heq, List.flatMap_cons, ← List.append_assoc, ← hreports]
    exact ih hlooks.knows fun f' hf' => hfs f' (by simp [hf'])

/-- The note on one end of a method; there is none if it means a message. -/
def methodEndNotes (l : Linker) (m : MethodEntry) (type : String) : List Report :=
  match l.meaning? m.service type m.file with
  | none => l.referenceNotes m.service type m.file (some m.decl.position)
  | some d =>
    if d.kind = .message then []
    else [m.file.reportOf (some m.decl.position) (.methodEndNotMessage m.fullName type)]

/-- The notes on a method. -/
def methodNotes (l : Linker) (m : MethodEntry) : List Report :=
  l.methodEndNotes m m.decl.inputType ++ l.methodEndNotes m m.decl.outputType

theorem Knows.reports_resolveMethodEnd (h : Knows l₀ l) {m : MethodEntry}
    (hfile : m.file ∈ l₀.files) (type : String) :
    (l.resolveMethodEnd m type).1.reports = l.reports ++ l₀.methodEndNotes m type := by
  have hreports := h.reports_resolve hfile m.service type (some m.decl.position)
  obtain ⟨l₁, heq, -⟩ := h.resolve hfile m.service type (some m.decl.position)
  unfold Linker.resolveMethodEnd methodEndNotes
  simp only [heq]
  cases hmeaning : l₀.meaning? m.service type m.file with
  | none => simpa [heq] using hreports
  | some d =>
    rw [heq, referenceNotes, hmeaning, List.append_nil] at hreports
    by_cases hkind : d.kind = .message <;> simp [hkind, ← hreports]

theorem Knows.reports_linkMethods (h : Knows l₀ l) {ms : List MethodEntry}
    (hms : ∀ m ∈ ms, m.file ∈ l₀.files) :
    (l.linkMethods ms).1.reports = l.reports ++ ms.flatMap l₀.methodNotes := by
  induction ms generalizing l with
  | nil => simp [Linker.linkMethods]
  | cons m ms ih =>
    have hfile := hms m (by simp)
    have hreports₁ := h.reports_resolveMethodEnd hfile m.decl.inputType
    obtain ⟨l₁, hinput, hlooks₁⟩ := h.resolveMethodEnd hfile m.decl.inputType
    rw [hinput] at hreports₁
    have hreports₂ := hlooks₁.knows.reports_resolveMethodEnd hfile m.decl.outputType
    obtain ⟨l₂, houtput, hlooks₂⟩ := hlooks₁.knows.resolveMethodEnd hfile m.decl.outputType
    rw [houtput] at hreports₂
    rw [Linker.linkMethods, hinput]
    simp only [houtput]
    rw [ih hlooks₂.knows fun m' hm' => hms m' (by simp [hm']), hreports₂, hreports₁]
    simp [methodNotes]

/-! ## Extensions -/

/-- The note on an extension, where `members` are the fields and extensions that belong to messages
already; there is none if the extension can be attached. -/
def extensionNotes (l : Linker) (members : List FieldEntry) (e : ExtensionEntry) : List Report :=
  let f := e.field
  let position := some f.decl.position
  match l.meaning? f.scope e.extendee f.file with
  | none => l.referenceNotes f.scope e.extendee f.file position
  | some d =>
    match d.kind, d.place.bind fun place => (l.inventory.messages[place]?).map (place, ·) with
    | .message, some (place, m) =>
      if ¬ NumberRange.anyContains m.extensionRanges maxFieldNumber f.decl.number then
        [f.file.reportOf position (.notAnExtensionNumber m.fullName f.decl.number)]
      else
        match members.find? fun f' => f'.owner = some place ∧ f'.decl.number = f.decl.number with
        | some holder =>
          [f.file.reportOf position
            (.extensionNumberTaken f.decl.number m.fullName holder.fullName)]
        | none => []
    | _, _ => [f.file.reportOf position (.notExtendable e.extendee)]

/-- The notes on some extensions that are attached in turn. -/
def attachingNotes (l : Linker) (members : List FieldEntry) : List ExtensionEntry → List Report
  | [] => []
  | e :: es =>
    l.extensionNotes members e ++
      match l.extensionOwner? members e with
      | none => l.attachingNotes members es
      | some owner => l.attachingNotes (members ++ [{ e.field with owner := some owner }]) es

/-- The first member of a message that has a number holds it. -/
theorem Attaching.numberHolder?_eq (h : Attaching l₀ l places added) {place : Nat}
    {m : MessageEntry} (hm : l.messages[place]? = some m) (number : Nat) :
    l.numberHolder? places place m number =
      ((l₀.inventory.fields ++ added).find? fun f =>
        f.owner = some place ∧ f.decl.number = number).map (·.fullName) := by
  have hfields : l.fields.toList = l₀.inventory.fields.map l₀.linked :=
    congrArg Inventory.fields h.inventory
  have hown : (m.fields.filterMap fun p => l.fields[p]?) =
      l.fields.toList.filter (·.owner = some place) := by
    rw [(h.listed place m hm).fields, ← filterMap_getElem?_findIdxs]
    simp only [Array.getElem?_toList]
    rfl
  simp only [Linker.numberHolder?, hown, hfields, h.extensionsAt]
  simp only [List.find?_append, List.find?_filter, List.find?_map, Option.map_or, Option.map_map,
    Function.comp_def, linked_owner, linked_decl, linked_fullName, Bool.decide_and,
    Bool.decide_eq_true]
  rfl

/-- The problem with an extension is what is noted on it. -/
theorem Attaching.extensionNotes_eq (h : Attaching l₀ l places added) {e : ExtensionEntry}
    {d : Definition} (hd : l₀.meaning? e.field.scope e.extendee e.field.file = some d) :
    l₀.extensionNotes (l₀.inventory.fields ++ added) e =
      match l.extensionOwner places e d with
      | .ok _ => []
      | .error p => [e.field.file.reportOf (some e.field.decl.position) p] := by
  have hmessages : l₀.inventory.messages = l.inventory.messages := by
    rw [h.inventory]
  unfold Linker.extensionOwner extensionNotes
  simp only [hd, hmessages]
  by_cases hkind : d.kind = .message
  · rw [hkind]
    cases d.place with
    | none => rfl
    | some place =>
      cases hm : l.messages[place]? with
      | none =>
        have hnone : l.inventory.messages[place]? = none := by
          simpa [inventory] using hm
        simp [hm, hnone]
      | some m =>
        have hheader := header_of_getElem? hm
        have hholder := h.numberHolder?_eq hm e.field.decl.number
        simp only [Option.bind_some, hm, Option.map_some, hheader, MessageEntry.header, hholder]
        by_cases hopen : NumberRange.anyContains m.extensionRanges maxFieldNumber
            e.field.decl.number
        · rw [if_neg (not_not.mpr hopen), if_neg (not_not.mpr hopen)]
          cases (l₀.inventory.fields ++ added).find? fun f =>
              f.owner = some place ∧ f.decl.number = e.field.decl.number <;> rfl
        · rw [if_pos hopen, if_pos hopen]
  · cases hkind' : d.kind <;> first | rfl | exact absurd hkind' hkind

/-- The next extension is attached to its owner, or left out, and what is noted is the note on it. -/
theorem Attaching.step_notes (h : Attaching l₀ l places added) {place : Nat} {e : ExtensionEntry}
    (he : l.extensions[place]? = some e) (hfile : e.field.file ∈ l₀.files) (rest : List Nat) :
    ∃ l₁ ok, LooksUp l₀ l l₁ ok ∧
      l₁.reports = l.reports ++ l₀.extensionNotes (l₀.inventory.fields ++ added) e ∧
      match l₀.extensionOwner? (l₀.inventory.fields ++ added) e with
      | some owner => l.attachExtensions places (place :: rest) =
          (l₁.attach places place owner).attachExtensions (places ++ [place]) rest
      | none => l.attachExtensions places (place :: rest) = l₁.attachExtensions places rest := by
  have hreports := h.knows.reports_resolve hfile e.field.scope e.extendee
    (some e.field.decl.position)
  obtain ⟨l₁, hresolve, hlooks⟩ := h.knows.resolve hfile e.field.scope e.extendee
    (some e.field.decl.position)
  rw [hresolve] at hreports
  rw [Linker.attachExtensions, he]
  simp only [hresolve]
  cases hmeaning : l₀.meaning? e.field.scope e.extendee e.field.file with
  | none =>
    refine ⟨l₁, _, hlooks, ?_, ?_⟩
    · simpa [extensionNotes, hmeaning] using hreports
    · simp [extensionOwner?, target?, hmeaning]
  | some d =>
    rw [referenceNotes, hmeaning, List.append_nil] at hreports
    have hattaching := h.lookUp hlooks
    have hnotes := hattaching.extensionNotes_eq hmeaning
    rcases hattaching.extensionOwner hmeaning with ⟨owner, howner, hpure⟩ | ⟨⟨p, hp⟩, hpure⟩
    · rw [howner] at hnotes
      refine ⟨l₁, _, hlooks, by simpa [hnotes] using hreports, ?_⟩
      simp only [hpure, howner]
    · rw [hp] at hnotes
      have hreport := hlooks.knows.report e.field.file (some e.field.decl.position) p
      refine ⟨_, _, hlooks.trans hreport, ?_, ?_⟩
      · rw [reports_report, hnotes, ← hreports]
      · simp only [hpure, hp]

/-- Attaching notes the extensions that are left out, and why. -/
theorem Attaching.reports_attachExtensions (h : Attaching l₀ l places added) (hnodup : rest.Nodup)
    {es : List ExtensionEntry} (hrest : rest.map (l.extensions[·]?) = es.map some)
    (hdisjoint : ∀ p ∈ rest, p ∉ places) (hfiles : ∀ e ∈ es, e.field.file ∈ l₀.files) :
    (l.attachExtensions places rest).1.reports =
      l.reports ++ l₀.attachingNotes (l₀.inventory.fields ++ added) es := by
  induction rest generalizing l places added es with
  | nil =>
    have hes : es = [] := by simpa using hrest.symm
    simp [hes, Linker.attachExtensions, attachingNotes]
  | cons place rest ih =>
    cases es with
    | nil => simp at hrest
    | cons e es =>
      simp only [List.map_cons, List.cons.injEq] at hrest
      obtain ⟨he, hrest⟩ := hrest
      obtain ⟨hplace, hnodup⟩ := List.nodup_cons.mp hnodup
      have hfiles' : ∀ e ∈ es, e.field.file ∈ l₀.files := fun e' he' => hfiles e' (by simp [he'])
      have hdisjoint' : ∀ p ∈ rest, p ∉ places := fun p hp => hdisjoint p (by simp [hp])
      obtain ⟨l₁, ok, hlooks, hreports, hstep⟩ := h.step_notes he (hfiles e (by simp)) rest
      have hattaching := h.lookUp hlooks
      obtain ⟨visible, reports, hl₁⟩ := hlooks.rest
      have hextensions : l₁.extensions = l.extensions := by rw [hl₁]
      rw [attachingNotes, ← List.append_assoc, ← hreports]
      cases howner : l₀.extensionOwner? (l₀.inventory.fields ++ added) e with
      | none =>
        rw [howner] at hstep
        rw [hstep]
        exact ih hattaching hnodup (by rwa [hextensions]) hdisjoint' hfiles'
      | some owner =>
        rw [howner] at hstep
        -- the extensions that are still to come are as they were
        have hrest' : rest.map ((l₁.attach places place owner).extensions[·]?) = es.map some := by
          rw [← hrest, ← hextensions]
          apply List.map_congr_left
          intro p hp
          have hne : place ≠ p := fun heq => hplace (heq ▸ hp)
          simp [Linker.attach, modifyMessage, Array.getElem?_modify, hne]
        have hapart : ∀ p ∈ rest, p ∉ places ++ [place] := by
          intro p hp
          rw [List.mem_append, List.mem_singleton]
          rintro (hin | rfl)
          · exact hdisjoint' p hp hin
          · exact hplace hp
        have he' : l₁.extensions[place]? = some e := by rw [hextensions, he]
        have hattach : Attaching l₀ (l₁.attach places place owner) _ _ :=
          hattaching.attach (hdisjoint place (by simp)) he'
        have hnext := ih hattach hnodup hrest' hapart hfiles'
        rw [hstep, hnext, ← List.append_assoc]
        rfl

theorem Knows.reports_linkExtensions (h : Knows l₀ l) (hnodup : places.Nodup)
    {fs : List FieldEntry}
    (hplaces : places.map (fun p => (l.extensions[p]?).map (·.field)) = fs.map some)
    (hfs : ∀ f ∈ fs, f.file ∈ l₀.files ∧ f.link = .unresolved) :
    (l.linkExtensions places).reports = l.reports ++ fs.flatMap l₀.typeNotes := by
  induction places generalizing l fs with
  | nil =>
    have hfs : fs = [] := by simpa using hplaces.symm
    simp [hfs, Linker.linkExtensions]
  | cons place places ih =>
    cases fs with
    | nil => simp at hplaces
    | cons f fs =>
      simp only [List.map_cons, List.cons.injEq] at hplaces
      obtain ⟨hfield, hplaces⟩ := hplaces
      obtain ⟨hplace, hnodup⟩ := List.nodup_cons.mp hnodup
      obtain ⟨e, he, rfl⟩ := Option.map_eq_some_iff.mp hfield
      obtain ⟨hfile, hlink⟩ := hfs e.field (by simp)
      have hreports := h.reports_resolveType hfile
      obtain ⟨l₁, heq, hlooks⟩ := h.resolveType hfile hlink
      rw [heq] at hreports
      have hknows := hlooks.knows
      obtain ⟨visible₁, reports₁, hl₁⟩ := hlooks.rest
      let l₂ := { l₁ with extensions := l₁.extensions.modify place ({ · with
        field := l₀.linked e.field }) }
      -- names mean the same whatever the links of extensions
      have hknows₂ : Knows l₀ l₂ :=
        ⟨hknows.distinct, hknows.files, hknows.definitions, hknows.visible⟩
      have hplaces' : places.map (fun p => (l₂.extensions[p]?).map (·.field)) = fs.map some := by
        rw [← hplaces]
        apply List.map_congr_left
        intro p hp
        have hne : place ≠ p := fun heq => hplace (heq ▸ hp)
        simp [l₂, Array.getElem?_modify, hne, hl₁]
      have hrest := ih hknows₂ hnodup hplaces' fun f' hf' => hfs f' (by simp [hf'])
      rw [Linker.linkExtensions, he]
      simp only [heq]
      rw [List.flatMap_cons, ← List.append_assoc, ← hreports]
      exact hrest

/-! ## All references -/

/-- What is noted when all references are followed: on the types of fields, on extensions and on
the types of those attached, and on the ends of methods. -/
def followNotes (l : Linker) : List Report :=
  l.inventory.fields.flatMap l.typeNotes ++
    l.attachingNotes l.inventory.fields l.inventory.extensions ++
    l.attached.flatMap l.typeNotes ++ l.inventory.methods.flatMap l.methodNotes

end Linker

end ProtoSchema
