import ProtoSchema.Proofs.Linker.Meaning
import ProtoSchema.Proofs.Places

/-!
# Attached extensions

Extensions are attached to messages one by one: each goes to the message that its extendee means,
if that is open for the extension's number and the number is still free there. Which extensions are
attached is therefore a fold over the list of all extensions (`attachedTo`), and the places that the
linker keeps on the way are those of the attached extensions behind all fields (`Attaching`).
-/

namespace ProtoSchema

namespace Linker

variable {l l' l₀ : Linker} {added : List FieldEntry} {places rest : List Nat}

/-! ## Which extensions are attached -/

/-- The message that an extension is for: the one that its extendee means, if that is open for the
number of the extension. -/
def target? (l : Linker) (e : ExtensionEntry) : Option Nat :=
  (l.meaning? e.field.scope e.extendee e.field.file).bind fun d =>
    if d.kind = .message then
      d.place.filter fun place => (l.inventory.messages[place]?).any fun m =>
        NumberRange.anyContains m.extensionRanges maxFieldNumber e.field.decl.number
    else none

/-- The message that an extension is attached to, where `members` are the fields and extensions that
belong to messages already. -/
def extensionOwner? (l : Linker) (members : List FieldEntry) (e : ExtensionEntry) : Option Nat :=
  (l.target? e).filter fun place =>
    ∀ f ∈ members, f.owner = some place → f.decl.number ≠ e.field.decl.number

/-- The fields of the extensions that are attached, each with its owner. -/
def attachedTo (l : Linker) (members : List FieldEntry) : List ExtensionEntry → List FieldEntry
  | [] => []
  | e :: es =>
    match l.extensionOwner? members e with
    | none => l.attachedTo members es
    | some owner =>
      let f := { e.field with owner := some owner }
      f :: l.attachedTo (members ++ [f]) es

/-- The fields of all extensions that are attached when everything is linked. -/
def attached (l : Linker) : List FieldEntry :=
  l.attachedTo l.inventory.fields l.inventory.extensions

theorem length_attachedTo_le (l : Linker) (members : List FieldEntry) (es : List ExtensionEntry) :
    (l.attachedTo members es).length ≤ es.length := by
  induction es generalizing members with
  | nil => exact Nat.le_refl 0
  | cons e es ih =>
    rw [attachedTo]
    split
    · exact (ih members).trans (Nat.le_succ _)
    · exact Nat.succ_le_succ (ih _)

/-- The field of an extension, with the message that the extension is for as its owner. -/
def targeted (l : Linker) (e : ExtensionEntry) : FieldEntry :=
  { e.field with owner := l.target? e }

/-- All extensions can be attached: each has a target, and there its number is free among `members`
and all other extensions. -/
structure Attachable (l : Linker) (members : List FieldEntry) (es : List ExtensionEntry) :
    Prop where
  targets : ∀ e ∈ es, (l.target? e).isSome
  members : ∀ e ∈ es, ∀ f ∈ members, f.owner = l.target? e →
    f.decl.number ≠ e.field.decl.number
  apart : es.Pairwise fun e e' =>
    l.target? e = l.target? e' → e.field.decl.number ≠ e'.field.decl.number

theorem attachable_cons {members : List FieldEntry} {e : ExtensionEntry}
    {es : List ExtensionEntry} :
    l.Attachable members (e :: es) ↔
      ((l.target? e).isSome ∧
        ∀ f ∈ members, f.owner = l.target? e → f.decl.number ≠ e.field.decl.number) ∧
      l.Attachable (members ++ [l.targeted e]) es := by
  constructor
  -- what is free among all others is free among those before and those behind
  · rintro ⟨htargets, hmembers, hapart⟩
    obtain ⟨hhead, htail⟩ := List.pairwise_cons.mp hapart
    refine ⟨⟨htargets e (by simp), hmembers e (by simp)⟩,
      fun e' he' => htargets e' (by simp [he']), ?_, htail⟩
    intro e' he' f hf howner
    rcases List.mem_append.mp hf with hf | hf
    · exact hmembers e' (by simp [he']) f hf howner
    · rw [List.mem_singleton.mp hf] at howner ⊢
      exact hhead e' he' howner
  · rintro ⟨⟨htarget, hfree⟩, htargets, hmembers, hapart⟩
    refine ⟨List.forall_mem_cons.mpr ⟨htarget, htargets⟩, ?_, List.pairwise_cons.mpr ⟨?_, hapart⟩⟩
    · intro e' he' f hf
      rcases List.mem_cons.mp he' with rfl | he'
      · exact hfree f hf
      · exact hmembers e' he' f (by simp [hf])
    · intro e' he'
      exact hmembers e' he' (l.targeted e) (by simp)

/-- None is left out just if all extensions can be attached, each to its target. -/
theorem length_attachedTo_eq_iff {members : List FieldEntry} {es : List ExtensionEntry} :
    (l.attachedTo members es).length = es.length ↔ l.Attachable members es := by
  induction es generalizing members with
  | nil => exact ⟨fun _ => ⟨by simp, by simp, .nil⟩, fun _ => rfl⟩
  | cons e es ih =>
    have hless := l.length_attachedTo_le members es
    rw [attachedTo, attachable_cons, ← ih]
    cases howner : l.extensionOwner? members e with
    | none =>
      -- one that is left out is missing in the length, whatever becomes of the others
      have hnone : ¬ ((l.target? e).isSome ∧
          ∀ f ∈ members, f.owner = l.target? e → f.decl.number ≠ e.field.decl.number) := by
        rintro ⟨htarget, hfree⟩
        obtain ⟨place, hplace⟩ := Option.isSome_iff_exists.mp htarget
        rw [hplace] at hfree
        have htaken : ∃ f ∈ members, f.owner = some place ∧
            f.decl.number = e.field.decl.number := by
          simpa [extensionOwner?, hplace] using howner
        obtain ⟨f, hf, hsame, htaken⟩ := htaken
        exact hfree f hf hsame htaken
      simp only [List.length_cons, hnone, false_and, iff_false]
      omega
    | some owner =>
      obtain ⟨htarget, hfree⟩ := Option.filter_eq_some_iff.mp howner
      simp only [List.length_cons, Nat.add_right_cancel_iff, targeted, htarget]
      simpa using fun _ => hfree

theorem attachedTo_eq_map {members : List FieldEntry} {es : List ExtensionEntry}
    (h : l.Attachable members es) : l.attachedTo members es = es.map l.targeted := by
  induction es generalizing members with
  | nil => rfl
  | cons e es ih =>
    obtain ⟨⟨htarget, hfree⟩, hrest⟩ := attachable_cons.mp h
    obtain ⟨place, hplace⟩ := Option.isSome_iff_exists.mp htarget
    have howner : l.extensionOwner? members e = some place := by
      rw [hplace] at hfree
      simpa [extensionOwner?, hplace] using hfree
    have htargeted : l.targeted e = { e.field with owner := some place } := by
      rw [targeted, hplace]
    rw [attachedTo, howner, List.map_cons, ← ih hrest, htargeted]

/-- What is attached is one of the extensions, with its target as owner. -/
theorem exists_of_mem_attachedTo {members : List FieldEntry} {es : List ExtensionEntry}
    {f : FieldEntry} (h : f ∈ l.attachedTo members es) :
    ∃ e ∈ es, ∃ owner, l.target? e = some owner ∧ f = { e.field with owner := some owner } := by
  induction es generalizing members with
  | nil => simp [attachedTo] at h
  | cons e es ih =>
    rw [attachedTo] at h
    split at h
    · obtain ⟨e', he', hf⟩ := ih h
      exact ⟨e', by simp [he'], hf⟩
    · next owner howner =>
      rcases List.mem_cons.mp h with h | h
      · exact ⟨e, by simp, owner, (Option.filter_eq_some_iff.mp howner).1, h⟩
      · obtain ⟨e', he', hf⟩ := ih h
        exact ⟨e', by simp [he'], hf⟩

/-- The target of an extension is a message. -/
theorem target?_lt {e : ExtensionEntry} {place : Nat} (h : l.target? e = some place) :
    place < l.inventory.messages.length := by
  obtain ⟨d, -, hd⟩ := Option.bind_eq_some_iff.mp h
  split at hd
  · obtain ⟨-, hany⟩ := Option.filter_eq_some_iff.mp hd
    by_contra hge
    rw [List.getElem?_eq_none (Nat.le_of_not_lt hge)] at hany
    exact absurd hany (by simp)
  · exact absurd hd (by simp)

/-! ## Attaching -/

/-- A linker in which the extensions at some places have been attached, so that these have become
`added`. -/
structure Attaching (l₀ l : Linker) (places : List Nat) (added : List FieldEntry) : Prop where
  knows : Knows l₀ l
  inventory : l.inventory =
    { l₀.inventory with
      fields := l₀.inventory.fields.map l₀.linked
      extensions := l.inventory.extensions }
  listed : ∀ i m, l.messages[i]? = some m → ListedAt l.inventory added i m
  added : places.map (fun p => (l.extensions[p]?).map (·.field)) = added.map some
  nodup : places.Nodup

theorem Attaching.length_eq (h : Attaching l₀ l places added) : places.length = added.length := by
  simpa using congrArg List.length h.added

/-- Looking names up does not disturb what has been attached. -/
theorem Attaching.lookUp {ok : Prop} (h : Attaching l₀ l places added)
    (hlooks : LooksUp l₀ l l' ok) : Attaching l₀ l' places added := by
  have hknows := hlooks.knows
  obtain ⟨visible, reports, rfl⟩ := hlooks.rest
  exact ⟨hknows, h.inventory, h.listed, h.added, h.nodup⟩

theorem Attaching.extensionsAt (h : Attaching l₀ l places added) :
    l.extensionsAt places = added := by
  have hadded := congrArg (List.filterMap id) h.added
  simpa [Linker.extensionsAt, List.filterMap_map, Function.comp_def] using hadded

theorem header_of_getElem? {i : Nat} {m : MessageEntry} (h : l.messages[i]? = some m) :
    l.inventory.messages[i]? = some m.header := by
  simp [inventory, h]

/-- A number is free in a message just if no field and no attached extension of it has it. -/
theorem Attaching.numberHolder? (h : Attaching l₀ l places added) {place : Nat} {m : MessageEntry}
    (hm : l.messages[place]? = some m) (number : Nat) :
    l.numberHolder? places place m number = none ↔
      ∀ f ∈ l₀.inventory.fields ++ added, f.owner = some place → f.decl.number ≠ number := by
  have hfields : l.fields.toList = l₀.inventory.fields.map l₀.linked :=
    congrArg Inventory.fields h.inventory
  have hown : (m.fields.filterMap fun p => l.fields[p]?) =
      l.fields.toList.filter (·.owner = some place) := by
    rw [(h.listed place m hm).fields, ← filterMap_getElem?_findIdxs]
    simp only [Array.getElem?_toList]
    rfl
  simp only [Linker.numberHolder?, hown, hfields, h.extensionsAt]
  simp only [Option.map_eq_none_iff, List.find?_eq_none, List.mem_append, List.mem_filter,
    List.mem_map, decide_eq_true_eq]
  constructor
  · rintro hfree f (hf | hf) howner
    · exact hfree (l₀.linked f) (.inl ⟨⟨f, hf, rfl⟩, howner⟩)
    · exact hfree f (.inr ⟨hf, howner⟩)
  · rintro hfree _ (⟨⟨f, hf, rfl⟩, howner⟩ | ⟨hf, howner⟩)
    · exact hfree f (.inl hf) howner
    · exact hfree _ (.inr hf) howner

/-- The linker finds the message that an extension is attached to, or a problem if there is none. -/
theorem Attaching.extensionOwner (h : Attaching l₀ l places added) {e : ExtensionEntry}
    {d : Definition}
    (hd : l₀.meaning? e.field.scope e.extendee e.field.file = some d) :
    (∃ owner, l.extensionOwner places e d = .ok owner ∧
        l₀.extensionOwner? (l₀.inventory.fields ++ added) e = some owner) ∨
      (∃ p, l.extensionOwner places e d = .error p) ∧
        l₀.extensionOwner? (l₀.inventory.fields ++ added) e = none := by
  have hmessages : l₀.inventory.messages = l.inventory.messages := by
    rw [h.inventory]
  unfold Linker.extensionOwner Linker.extensionOwner? target?
  simp only [hd, Option.bind_some]
  by_cases hkind : d.kind = .message
  · simp only [hkind, if_true, hmessages]
    cases d.place with
    | none => exact .inr ⟨⟨_, rfl⟩, rfl⟩
    | some place =>
      cases hm : l.messages[place]? with
      | none =>
        have hnone : l.inventory.messages[place]? = none := by
          simpa [inventory] using hm
        refine .inr ⟨⟨.notExtendable e.extendee, by simp [hm]⟩, by simp [Option.filter, hnone]⟩
      | some m =>
        have hheader := header_of_getElem? hm
        have hholder := h.numberHolder? hm e.field.decl.number
        simp only [Option.bind_some, hm, Option.map_some, Option.filter_some, hheader,
          Option.any_some, MessageEntry.header]
        by_cases hopen : NumberRange.anyContains m.extensionRanges maxFieldNumber
            e.field.decl.number
        · simp only [hopen, not_true, if_false, if_true, Option.filter_some]
          cases hfree : l.numberHolder? places place m e.field.decl.number with
          | none => exact .inl ⟨place, rfl, if_pos (decide_eq_true (hholder.mp hfree))⟩
          | some holder =>
            have htaken := mt hholder.mpr (by simp [hfree])
            exact .inr ⟨⟨_, rfl⟩, if_neg (by simpa using htaken)⟩
        · simp only [hopen]
          exact .inr ⟨⟨_, rfl⟩, rfl⟩
  · refine .inr ⟨⟨.notExtendable e.extendee, ?_⟩, by simp [hkind]⟩
    split
    · next hmessage _ => exact absurd hmessage hkind
    · rfl

/-- Attaching one more extension. -/
theorem Attaching.attach (h : Attaching l₀ l places added) {place owner : Nat}
    {e : ExtensionEntry} (hplace : place ∉ places) (he : l.extensions[place]? = some e) :
    Attaching l₀ (l.attach places place owner) (places ++ [place])
      (added ++ [{ e.field with owner := some owner }]) := by
  obtain ⟨hlt, -⟩ := Array.getElem?_eq_some_iff.mp he
  have hfields : (l.attach places place owner).inventory.fields = l.inventory.fields := rfl
  have hinventory : (l.attach places place owner).inventory =
      { l.inventory with extensions := (l.attach places place owner).inventory.extensions } := by
    unfold Linker.attach
    rw [inventory_modifyMessage]
    · rfl
    · intro m
      rfl
  -- only the list of the owner and the field of the extension are touched
  refine ⟨⟨h.knows.distinct, h.knows.files, h.knows.definitions, h.knows.visible⟩, ?_, ?_, ?_, ?_⟩
  · rw [hinventory, h.inventory]
  · intro i m hm
    have hm' : (if owner = i then (l.messages[i]?).map fun m =>
        { m with extensions := m.extensions ++ [l.fields.size + places.length] }
        else l.messages[i]?) = some m := by
      rw [← hm]
      simp [Linker.attach, modifyMessage, Array.getElem?_modify]
    rw [hinventory]
    by_cases hi : owner = i
    · rw [if_pos hi, Option.map_eq_some_iff] at hm'
      obtain ⟨old, hold, rfl⟩ := hm'
      obtain ⟨hfields, hmessages, henums, hextensions⟩ := h.listed i old hold
      refine ⟨hfields, hmessages, henums, ?_⟩
      -- the place that is listed counts the fields and those attached so far
      simp [hextensions, hi, h.length_eq]
    · rw [if_neg hi] at hm'
      obtain ⟨hfields, hmessages, henums, hextensions⟩ := h.listed i m hm'
      refine ⟨hfields, hmessages, henums, ?_⟩
      simp [hextensions, hi]
  · have hextensions (p : Nat) : (l.attach places place owner).extensions[p]? =
        if place = p then (l.extensions[p]?).map fun e =>
          { e with field := { e.field with owner := some owner } }
        else l.extensions[p]? := by
      simp [Linker.attach, modifyMessage, Array.getElem?_modify]
    rw [List.map_append, List.map_append, ← h.added]
    congr 1
    · apply List.map_congr_left
      intro p hp
      have hne : place ≠ p := fun heq => hplace (heq ▸ hp)
      rw [hextensions, if_neg hne]
    · simp [hextensions, he]
  · rw [List.nodup_append]
    refine ⟨h.nodup, by simp, ?_⟩
    intro p hp q hq hpq
    rw [List.mem_singleton] at hq
    exact hplace (hq ▸ hpq ▸ hp)

/-- The next extension is attached to its owner, or left out with a problem noted. -/
theorem Attaching.step (h : Attaching l₀ l places added) {place : Nat} {e : ExtensionEntry}
    (he : l.extensions[place]? = some e) (hfile : e.field.file ∈ l₀.files) (rest : List Nat) :
    (∃ l₁ owner, LooksUp l₀ l l₁ True ∧
        l₀.extensionOwner? (l₀.inventory.fields ++ added) e = some owner ∧
        l.attachExtensions places (place :: rest) =
          (l₁.attach places place owner).attachExtensions (places ++ [place]) rest) ∨
      ∃ l₁, LooksUp l₀ l l₁ False ∧
        l₀.extensionOwner? (l₀.inventory.fields ++ added) e = none ∧
        l.attachExtensions places (place :: rest) = l₁.attachExtensions places rest := by
  obtain ⟨l₁, hresolve, hlooks⟩ := h.knows.resolve hfile e.field.scope e.extendee
    (some e.field.decl.position)
  rw [Linker.attachExtensions, he]
  simp only [hresolve]
  cases hmeaning : l₀.meaning? e.field.scope e.extendee e.field.file with
  | none =>
    refine .inr ⟨l₁, hlooks.congr (by simp [hmeaning]), ?_, rfl⟩
    simp [extensionOwner?, target?, hmeaning]
  | some d =>
    have hok : LooksUp l₀ l l₁ True := hlooks.congr (by simp [hmeaning])
    rcases (h.lookUp hlooks).extensionOwner hmeaning with ⟨owner, howner, hpure⟩ | ⟨⟨p, hp⟩, hpure⟩
    · exact .inl ⟨l₁, owner, hok, hpure, by simp only [howner]⟩
    · have hreport := hlooks.knows.report e.field.file (some e.field.decl.position) p
      exact .inr ⟨_, (hok.trans hreport).congr (by simp), hpure, by simp only [hp]⟩

/-- Of the extensions at some places those are attached that have an owner, and nothing is noted if
these are all of them. -/
theorem Attaching.attachExtensions (h : Attaching l₀ l places added) (hnodup : rest.Nodup)
    {es : List ExtensionEntry} (hrest : rest.map (l.extensions[·]?) = es.map some)
    (hdisjoint : ∀ p ∈ rest, p ∉ places) (hfiles : ∀ e ∈ es, e.field.file ∈ l₀.files) :
    ∃ l' places', l.attachExtensions places rest = (l', places') ∧
      Attaching l₀ l' places' (added ++ l₀.attachedTo (l₀.inventory.fields ++ added) es) ∧
      (l'.reports = [] ↔ l.reports = [] ∧
        (l₀.attachedTo (l₀.inventory.fields ++ added) es).length = es.length) := by
  induction rest generalizing l places added es with
  | nil =>
    have hes : es = [] := by simpa using hrest.symm
    exact ⟨l, places, rfl, by simpa [hes, attachedTo] using h, by simp [hes, attachedTo]⟩
  | cons place rest ih =>
    cases es with
    | nil => simp at hrest
    | cons e es =>
      simp only [List.map_cons, List.cons.injEq] at hrest
      obtain ⟨he, hrest⟩ := hrest
      obtain ⟨hplace, hnodup⟩ := List.nodup_cons.mp hnodup
      have hfiles' : ∀ e ∈ es, e.field.file ∈ l₀.files := fun e' he' => hfiles e' (by simp [he'])
      have hdisjoint' : ∀ p ∈ rest, p ∉ places := fun p hp => hdisjoint p (by simp [hp])
      rcases h.step he (hfiles e (by simp)) rest with
        ⟨l₁, owner, hlooks, howner, heq⟩ | ⟨l₁, hlooks, hnone, heq⟩
      · have hclean₁ := hlooks.clean
        have hattaching := h.lookUp hlooks
        obtain ⟨visible, reports, rfl⟩ := hlooks.rest
        -- the extensions that are still to come are as they were
        have hrest' : rest.map (({ l with visible, reports }.attach places place
            owner).extensions[·]?) = es.map some := by
          rw [← hrest]
          apply List.map_congr_left
          intro p hp
          have hne : place ≠ p := fun heq => hplace (heq ▸ hp)
          simp [Linker.attach, modifyMessage, Array.getElem?_modify, hne]
        have hapart : ∀ p ∈ rest, p ∉ places ++ [place] := by
          intro p hp
          rw [List.mem_append, List.mem_singleton]
          rintro (hin | rfl)
          · exact hdisjoint' p hp hin
          · exact hplace hp
        obtain ⟨l', places', heq', hattaching', hclean⟩ :=
          ih (hattaching.attach (hdisjoint place (by simp)) he) hnodup hrest' hapart hfiles'
        refine ⟨l', places', heq.trans heq', ?_, ?_⟩
        · rw [attachedTo, howner]
          simpa using hattaching'
        · rw [hclean, attachedTo, howner]
          simp only [List.length_cons, Nat.add_right_cancel_iff, List.append_assoc]
          exact and_congr_left fun _ => hclean₁.trans (by simp)
      · have hclean₁ := hlooks.clean
        have hattaching := h.lookUp hlooks
        obtain ⟨visible, reports, rfl⟩ := hlooks.rest
        obtain ⟨l', places', heq', hattaching', hclean⟩ :=
          ih hattaching hnodup hrest hdisjoint' hfiles'
        refine ⟨l', places', heq.trans heq', ?_, ?_⟩
        · rwa [attachedTo, hnone]
        · -- an extension that is left out is missing at the end
          have hless := length_attachedTo_le l₀ (l₀.inventory.fields ++ added) es
          rw [hclean, hclean₁, attachedTo, hnone, List.length_cons]
          simp only [and_false, false_and, false_iff, not_and]
          intro _ hlength
          omega

/-! ## The types of extensions -/

/-- The types of the extensions at some places are resolved to what their references mean. -/
theorem Knows.linkExtensions (h : Knows l₀ l) (hnodup : places.Nodup) {fs : List FieldEntry}
    (hplaces : places.map (fun p => (l.extensions[p]?).map (·.field)) = fs.map some)
    (hfs : ∀ f ∈ fs, f.file ∈ l₀.files ∧ f.link = .unresolved) :
    ∃ visible extensions reports,
      l.linkExtensions places = { l with visible, extensions, reports } ∧
      Knows l₀ (l.linkExtensions places) ∧
      places.map (fun p => (extensions[p]?).map (·.field)) = (fs.map l₀.linked).map some ∧
      (∀ p, p ∉ places → extensions[p]? = l.extensions[p]?) ∧
      (reports = [] ↔ l.reports = [] ∧ ∀ f ∈ fs, (l₀.typeLink? f).isSome) := by
  induction places generalizing l fs with
  | nil =>
    have hfs : fs = [] := by simpa using hplaces.symm
    exact ⟨l.visible, l.extensions, l.reports, rfl, h, by simp [hfs], by simp, by simp [hfs]⟩
  | cons place places ih =>
    cases fs with
    | nil => simp at hplaces
    | cons f fs =>
      simp only [List.map_cons, List.cons.injEq] at hplaces
      obtain ⟨hfield, hplaces⟩ := hplaces
      obtain ⟨hplace, hnodup⟩ := List.nodup_cons.mp hnodup
      obtain ⟨e, he, rfl⟩ := Option.map_eq_some_iff.mp hfield
      have hfresh := hfs e.field (by simp)
      obtain ⟨l₁, heq, hlooks⟩ := h.resolveType hfresh.1 hfresh.2
      have hknows := hlooks.knows
      have hclean := hlooks.clean
      obtain ⟨visible₁, reports₁, hl₁⟩ := hlooks.rest
      let field := l₀.linked e.field
      let l₂ := { l₁ with extensions := l₁.extensions.modify place ({ · with field }) }
      have hstep : l.linkExtensions (place :: places) = l₂.linkExtensions places := by
        rw [Linker.linkExtensions, he]
        simp only [heq, l₂, field]
      have hl₂ (p : Nat) : l₂.extensions[p]? =
          if place = p then (l.extensions[p]?).map ({ · with field }) else l.extensions[p]? := by
        simp only [l₂, Array.getElem?_modify, hl₁]
      have hplaces' : places.map (fun p => (l₂.extensions[p]?).map (·.field)) = fs.map some := by
        rw [← hplaces]
        apply List.map_congr_left
        intro p hp
        have hne : place ≠ p := fun heq => hplace (heq ▸ hp)
        rw [hl₂, if_neg hne]
      -- names mean the same whatever the links of extensions
      have hknows₂ : Knows l₀ l₂ :=
        ⟨hknows.distinct, hknows.files, hknows.definitions, hknows.visible⟩
      obtain ⟨visible, extensions, reports, hlink, hknows', hlinked, hframe, hreports⟩ :=
        ih hknows₂ hnodup hplaces' fun f' hf' => hfs f' (by simp [hf'])
      refine ⟨visible, extensions, reports, ?_, hstep ▸ hknows', ?_, ?_, ?_⟩
      · rw [hstep, hlink]
        simp only [l₂, hl₁]
      · simp only [List.map_cons]
        rw [hlinked, hframe place hplace, hl₂]
        simp [he, field]
      · intro p hp
        rw [List.mem_cons, not_or] at hp
        rw [hframe p hp.2, hl₂, if_neg (Ne.symm hp.1)]
      · rw [hreports]
        simp only [l₂, hclean]
        simp [and_assoc]

end Linker

end ProtoSchema
