import ProtoSchema.Proofs.Linker.Holdings
import ProtoSchema.Proofs.Name.Words

/-!
# What lies in the messages of outlines

An outline lists messages and enums of all depths together. Since a full name tells the scope, each
message can still be told what was declared directly in it: the messages, other than the entries of
maps, and the enums, both in their order (`Outline.Contains`).
-/

namespace ProtoSchema

open Dotted

/-! ## Sites -/

/-- Where a message is declared, other than the entry of a map. -/
def MessageDecl.site (file : FileScope) (scope : String) (isNested : Bool) (m : MessageDecl) :
    MessageSite :=
  ⟨m.name, join scope m.name, file, isNested, false, m.extensionRanges⟩

/-- The entry message of a map field. -/
def FieldDecl.entryMessage (file : FileScope) (scope : String) (f : FieldDecl) (key value : String)
    (position : Position) : MessageOutline :=
  ⟨⟨MapEntry.name f.name, join scope (MapEntry.name f.name), file, true, true, []⟩,
    [Linker.keyField f key, Linker.valueField f value position]⟩

/-- Where an enum is declared. -/
def EnumDecl.site (file : FileScope) (scope : String) (isNested : Bool) (e : EnumDecl) : EnumSite :=
  ⟨e.name, join scope e.name, file, isNested, e.values⟩

/-- A message is declared directly in the message that the scope names. -/
def MessageSite.LiesIn (m : MessageSite) (scope : String) : Prop :=
  m.isNested = true ∧ m.isMapEntry = false ∧ m.fullName = join scope m.name

/-- An enum is declared directly in the message that the scope names. -/
def EnumSite.LiesIn (e : EnumSite) (scope : String) : Prop :=
  e.isNested = true ∧ e.fullName = join scope e.name

instance (m : MessageSite) (scope : String) : Decidable (m.LiesIn scope) :=
  inferInstanceAs (Decidable (_ ∧ _ ∧ _))

instance (e : EnumSite) (scope : String) : Decidable (e.LiesIn scope) :=
  inferInstanceAs (Decidable (_ ∧ _))

theorem MessageSite.LiesIn.eq {m : MessageSite} {scope scope' : String} (h : m.LiesIn scope)
    (h' : m.LiesIn scope') : scope = scope' :=
  join_left_injective (h.2.2.symm.trans h'.2.2)

theorem EnumSite.LiesIn.eq {e : EnumSite} {scope scope' : String} (h : e.LiesIn scope)
    (h' : e.LiesIn scope') : scope = scope' :=
  join_left_injective (h.2.symm.trans h'.2)

mutual

/-- All messages that are declared in a message, and the message itself, with their full names. -/
def MessageDecl.declared (scope : String) : MessageDecl → List (String × MessageDecl)
  | ⟨name, fields, messages, enums, extendBlocks, oneofs, options, extensionRanges, reservedRanges,
      reservedNames, position⟩ =>
    (join scope name, ⟨name, fields, messages, enums, extendBlocks, oneofs, options,
      extensionRanges, reservedRanges, reservedNames, position⟩) ::
        MessageDecl.declaredAll (join scope name) messages

/-- All messages that are declared in several messages, and these themselves. -/
def MessageDecl.declaredAll (scope : String) : List MessageDecl → List (String × MessageDecl)
  | [] => []
  | m :: ms => m.declared scope ++ MessageDecl.declaredAll scope ms

end

namespace Outline

variable {o o' : Outline} {file : FileScope} {around : Option String}
variable {ms ms' : List MessageSite} {es es' : List EnumSite}
variable {decls decls' : List (String × MessageDecl)} {scope : String} {isNested : Bool}

/-- The messages that are declared directly in the message of a full name. -/
def messagesIn (o : Outline) (scope : String) : List MessageSite :=
  (o.messages.map MessageOutline.toMessageSite).filter (·.LiesIn scope)

/-- The enums that are declared directly in the message of a full name. -/
def enumsIn (o : Outline) (scope : String) : List EnumSite := o.enums.filter (·.LiesIn scope)

/-- Everything that is nested lies in a message or in the scope around. If these are told apart, then
`ms` and `es` are what lies in the scope around, and each of the declared messages has what was
declared in it, and the entries of its maps. -/
structure Contains (o : Outline) (file : FileScope) (around : Option String)
    (ms : List MessageSite) (es : List EnumSite) (decls : List (String × MessageDecl)) : Prop where
  messageScopes : ∀ m ∈ o.messages, ∀ scope, m.LiesIn scope →
    around = some scope ∨ ∃ m' ∈ o.messages, m'.fullName = scope
  enumScopes : ∀ e ∈ o.enums, ∀ scope, e.LiesIn scope →
    around = some scope ∨ ∃ m' ∈ o.messages, m'.fullName = scope
  declared : ∀ x ∈ decls, ∃ m ∈ o.messages,
    m.fullName = x.1 ∧ m.isMapEntry = false ∧ m.fields = x.2.fields
  entries : ∀ x ∈ decls, ∀ f ∈ x.2.fields, ∀ key value position,
    f.shape = .map key value position → f.entryMessage file x.1 key value position ∈ o.messages
  own : o.Apart around → ∀ scope ∈ around, o.messagesIn scope = ms ∧ o.enumsIn scope = es
  inside : o.Apart around → ∀ x ∈ decls,
    o.messagesIn x.1 = x.2.messages.map (MessageDecl.site file x.1 true) ∧
      o.enumsIn x.1 = x.2.enums.map (EnumDecl.site file x.1 true)

theorem messagesIn_append (o o' : Outline) (scope : String) :
    (o ++ o').messagesIn scope = o.messagesIn scope ++ o'.messagesIn scope := by
  simp [messagesIn]

theorem enumsIn_append (o o' : Outline) (scope : String) :
    (o ++ o').enumsIn scope = o.enumsIn scope ++ o'.enumsIn scope := by
  simp [enumsIn]

namespace Contains

/-- Nothing lies in a scope that is neither around nor the name of a message. -/
theorem none_in (h : o.Contains file around ms es decls) {scope : String}
    (haround : around ≠ some scope) (hmessages : ∀ m ∈ o.messages, m.fullName ≠ scope) :
    o.messagesIn scope = [] ∧ o.enumsIn scope = [] := by
  have hout : ¬ (around = some scope ∨ ∃ m ∈ o.messages, m.fullName = scope) := by
    rintro (h | ⟨m, hm, hname⟩)
    exacts [haround h, hmessages m hm hname]
  constructor
  · refine List.filter_eq_nil_iff.mpr (List.forall_mem_map.mpr fun m hm hlies => hout ?_)
    exact h.messageScopes m hm scope (of_decide_eq_true hlies)
  · exact List.filter_eq_nil_iff.mpr fun e he hlies =>
      hout (h.enumScopes e he scope (of_decide_eq_true hlies))

theorem append (h : o.Contains file around ms es decls)
    (h' : o'.Contains file around ms' es' decls') :
    (o ++ o').Contains file around (ms ++ ms') (es ++ es') (decls ++ decls') := by
  have hleft {scope : String} (hscope : around = some scope ∨ ∃ m ∈ o.messages, m.fullName = scope) :
      around = some scope ∨ ∃ m ∈ (o ++ o').messages, m.fullName = scope :=
    hscope.imp_right fun ⟨m, hm, hname⟩ => ⟨m, List.mem_append_left _ hm, hname⟩
  have hright {scope : String}
      (hscope : around = some scope ∨ ∃ m ∈ o'.messages, m.fullName = scope) :
      around = some scope ∨ ∃ m ∈ (o ++ o').messages, m.fullName = scope :=
    hscope.imp_right fun ⟨m, hm, hname⟩ => ⟨m, List.mem_append_right _ hm, hname⟩
  refine ⟨fun m hm scope hlies => ?_, fun e he scope hlies => ?_, fun x hx => ?_,
    fun x hx f hf key value position hshape => ?_, fun hapart scope hscope => ?_,
    fun hapart x hx => ?_⟩
  · rcases List.mem_append.mp hm with hm | hm
    · exact hleft (h.messageScopes m hm scope hlies)
    · exact hright (h'.messageScopes m hm scope hlies)
  · rcases List.mem_append.mp he with he | he
    · exact hleft (h.enumScopes e he scope hlies)
    · exact hright (h'.enumScopes e he scope hlies)
  · rcases List.mem_append.mp hx with hx | hx
    · obtain ⟨m, hm, heq⟩ := h.declared x hx
      exact ⟨m, List.mem_append_left _ hm, heq⟩
    · obtain ⟨m, hm, heq⟩ := h'.declared x hx
      exact ⟨m, List.mem_append_right _ hm, heq⟩
  · rcases List.mem_append.mp hx with hx | hx
    · exact List.mem_append_left _ (h.entries x hx f hf _ _ _ hshape)
    · exact List.mem_append_right _ (h'.entries x hx f hf _ _ _ hshape)
  · obtain ⟨hms, hes⟩ := h.own hapart.left scope hscope
    obtain ⟨hms', hes'⟩ := h'.own hapart.right scope hscope
    rw [messagesIn_append, enumsIn_append, hms, hms', hes, hes']
    exact ⟨rfl, rfl⟩
  · rw [messagesIn_append, enumsIn_append]
    -- the other outline has nothing in this message: neither its messages nor `around` are it
    rcases List.mem_append.mp hx with hx | hx
    · obtain ⟨m, hm, hname, -⟩ := h.declared x hx
      obtain ⟨hms, hes⟩ := h'.none_in (fun heq => hapart.left.2 m hm (hname ▸ heq))
        fun m' hm' heq => hapart.ne hm hm' (hname.trans heq.symm)
      rw [hms, hes, List.append_nil, List.append_nil]
      exact h.inside hapart.left x hx
    · obtain ⟨m, hm, hname, -⟩ := h'.declared x hx
      obtain ⟨hms, hes⟩ := h.none_in (fun heq => hapart.right.2 m hm (hname ▸ heq))
        fun m' hm' heq => hapart.ne hm' hm (heq.trans hname.symm)
      rw [hms, hes]
      exact h'.inside hapart.right x hx

/-- What has neither enums nor messages other than entries of maps contains nothing. -/
theorem of_entries (hmessages : ∀ m ∈ o.messages, m.isMapEntry = true) (henums : o.enums = []) :
    o.Contains file around [] [] [] := by
  have hlies : ∀ m ∈ o.messages, ∀ scope, ¬ m.LiesIn scope := by
    rintro m hm scope ⟨-, hentry, -⟩
    exact Bool.noConfusion ((hmessages m hm).symm.trans hentry)
  refine ⟨fun m hm scope h => absurd h (hlies m hm scope), ?_, by simp, by simp,
    fun _ scope _ => ?_, by simp⟩
  · simp [henums]
  · simpa [messagesIn, enumsIn, henums] using fun m hm => hlies m hm scope

theorem flatten_nil {α : Type} {outline : α → Outline} (xs : List α)
    (h : ∀ x ∈ xs, (outline x).Contains file around [] [] []) :
    (Outline.flatten (xs.map outline)).Contains file around [] [] [] := by
  induction xs with
  | nil => exact of_entries (by simp [Outline.flatten]) rfl
  | cons x xs ih => exact (h x (by simp)).append (ih fun x' hx' => h x' (by simp [hx']))

/-- Enums lie in the scope around. -/
theorem ofEnums (scope : String) (isNested : Bool)
    (haround : ∀ s ∈ around, isNested = true ∧ s = scope) (hnested : isNested → around = some scope)
    (enums : List EnumDecl) :
    (Outline.flatten (enums.map (EnumDecl.outline file scope isNested))).Contains file around []
      (enums.map (EnumDecl.site file scope isNested)) [] := by
  have hone (e : EnumDecl) : (e.outline file scope isNested).Contains file around []
      [e.site file scope isNested] [] := by
    refine ⟨by simp [EnumDecl.outline, Outline.empty], fun e' he' s hlies => ?_, by simp, by simp,
      fun _ s hs => ⟨rfl, ?_⟩, by simp⟩
    · obtain rfl := List.mem_singleton.mp he'
      obtain rfl : scope = s := join_left_injective hlies.2
      exact .inl (hnested hlies.1)
    · obtain ⟨rfl, rfl⟩ := haround s hs
      have hlies : (e.site file s true).LiesIn s := ⟨rfl, rfl⟩
      refine List.filter_eq_self.mpr fun e' he' => ?_
      rw [List.mem_singleton.mp he']
      exact decide_eq_true hlies
  induction enums with
  | nil => exact of_entries (by simp [Outline.flatten]) rfl
  | cons e enums ih => exact (hone e).append ih

/-- A message takes what lies around what it holds, and lies itself in the scope around. -/
theorem ofMessage {m : MessageDecl} {site : MessageOutline}
    (hsite : site.toMessageSite = m.site file scope isNested) (hfields : site.fields = m.fields)
    (hentries : ∀ f ∈ m.fields, ∀ key value position, f.shape = .map key value position →
      f.entryMessage file site.fullName key value position ∈ o.messages)
    (haround : ∀ s ∈ around, isNested = true ∧ s = scope) (hnested : isNested → around = some scope)
    (h : o.Contains file (some site.fullName)
      (m.messages.map (MessageDecl.site file site.fullName true))
      (m.enums.map (EnumDecl.site file site.fullName true)) decls) :
    (Outline.ofMessage site ++ o).Contains file around [m.site file scope isNested] []
      ((site.fullName, m) :: decls) := by
  have hlies {s : String} (hs : site.LiesIn s) : around = some s := by
    rw [hsite] at hs
    obtain rfl : scope = s := join_left_injective hs.2.2
    exact hnested hs.1
  have hscope {s : String} (hs : some site.fullName = some s ∨ ∃ m' ∈ o.messages, m'.fullName = s) :
      ∃ m' ∈ (Outline.ofMessage site ++ o).messages, m'.fullName = s := by
    rcases hs with hs | ⟨m', hm', hname⟩
    · exact ⟨site, by simp [Outline.ofMessage], Option.some.inj hs⟩
    · exact ⟨m', by simp [hm'], hname⟩
  have hinside (hapart : (Outline.ofMessage site ++ o).Apart around) :
      o.Apart (some site.fullName) := by
    refine ⟨hapart.right.1, fun m' hm' heq => ?_⟩
    exact hapart.ne (by simp [Outline.ofMessage]) hm' (Option.some.inj heq)
  have hout (hapart : (Outline.ofMessage site ++ o).Apart around) {s : String}
      (hs : ∃ m' ∈ (Outline.ofMessage site ++ o).messages, m'.fullName = s) : around ≠ some s := by
    obtain ⟨m', hm', rfl⟩ := hs
    exact hapart.2 m' hm'
  have hmessagesIn (s : String) : (Outline.ofMessage site ++ o).messagesIn s =
      (if site.LiesIn s then [site.toMessageSite] else []) ++ o.messagesIn s := by
    rw [messagesIn_append]
    simp [messagesIn, Outline.ofMessage, List.filter_cons]
  have henumsIn (s : String) : (Outline.ofMessage site ++ o).enumsIn s = o.enumsIn s := rfl
  have hdeclared : ∀ x ∈ (site.fullName, m) :: decls,
      ∃ m' ∈ (Outline.ofMessage site ++ o).messages,
        m'.fullName = x.1 ∧ m'.isMapEntry = false ∧ m'.fields = x.2.fields := by
    refine List.forall_mem_cons.mpr ⟨⟨site, by simp [Outline.ofMessage], rfl, ?_, hfields⟩, ?_⟩
    · exact (congrArg MessageSite.isMapEntry hsite :)
    · intro x hx
      obtain ⟨m', hm', heq⟩ := h.declared x hx
      exact ⟨m', by simp [hm'], heq⟩
  refine ⟨fun m' hm' s hs => ?_, fun e he s hs => .inr (hscope (h.enumScopes e he s hs)),
    hdeclared, fun x hx f hf key value position hshape => ?_, fun hapart s hs => ?_,
    fun hapart x hx => ?_⟩
  · rcases List.mem_append.mp hm' with hm' | hm'
    · obtain rfl := List.mem_singleton.mp hm'
      exact .inl (hlies hs)
    · exact .inr (hscope (h.messageScopes m' hm' s hs))
  · refine List.mem_append_right _ ?_
    rcases List.mem_cons.mp hx with rfl | hx
    · exact hentries f hf _ _ _ hshape
    · exact h.entries x hx f hf _ _ _ hshape
  · obtain ⟨rfl, rfl⟩ := haround s hs
    have hself : site.LiesIn s := by
      rw [hsite]
      exact ⟨rfl, rfl, rfl⟩
    have hnone : o.messagesIn s = [] ∧ o.enumsIn s = [] :=
      h.none_in (fun heq => hout hapart (hscope (.inl heq)) hs)
        fun m' hm' heq => hout hapart (hscope (.inr ⟨m', hm', heq⟩)) hs
    rw [hmessagesIn, henumsIn, hnone.1, hnone.2, if_pos hself, hsite]
    exact ⟨rfl, rfl⟩
  · have hnot : ¬ site.LiesIn x.1 := fun hlies' => by
      obtain ⟨m', hm', hname, -⟩ := hdeclared x hx
      exact hout hapart ⟨m', hm', hname⟩ (hlies hlies')
    rw [hmessagesIn, henumsIn, if_neg hnot, List.nil_append]
    rcases List.mem_cons.mp hx with rfl | hx
    · exact h.own (hinside hapart) _ rfl
    · exact h.inside (hinside hapart) x hx

end Contains

end Outline

/-! ## Declarations -/

variable {file : FileScope}

theorem FieldDecl.outline_contains (scope : String) (around : Option String) (f : FieldDecl) :
    (f.outline file scope).Contains file around [] [] [] := by
  unfold FieldDecl.outline
  cases f.shape with
  | named | group => exact .of_entries (by simp [Outline.ofField, Outline.empty]) rfl
  | map key value position =>
    refine .of_entries ?_ rfl
    simp [FieldDecl.mapOutline, Outline.ofMessage, Outline.ofField, Outline.empty]

mutual

theorem MessageDecl.outline_contains (scope : String) (isNested : Bool) (around : Option String)
    (haround : ∀ s ∈ around, isNested = true ∧ s = scope) (hnested : isNested → around = some scope) :
    (m : MessageDecl) → (m.outline file scope isNested).Contains file around
      [m.site file scope isNested] [] (m.declared scope)
  | ⟨name, fields, messages, enums, extendBlocks, oneofs, options, extensionRanges, reservedRanges,
      reservedNames, position⟩ => by
    let fullName := join scope name
    have henums : (Outline.flatten (enums.map (EnumDecl.outline file fullName true))).Contains file
        (some fullName) [] (enums.map (EnumDecl.site file fullName true)) [] :=
      .ofEnums fullName true (by simp) (by simp) enums
    have hmessages := MessageDecl.outlineAll_contains fullName true (some fullName) (by simp)
      (by simp) messages
    have hfields : (Outline.flatten (fields.map (FieldDecl.outline file fullName))).Contains file
        (some fullName) [] [] [] :=
      .flatten_nil fields fun f _ => f.outline_contains fullName (some fullName)
    have hextends : (Outline.flatten (extendBlocks.map (ExtendDecl.outline file fullName))).Contains
        file (some fullName) [] [] [] :=
      .flatten_nil extendBlocks fun e _ => .of_entries (by simp [ExtendDecl.outline, Outline.empty]) rfl
    rw [MessageDecl.outline, MessageDecl.declared]
    refine .ofMessage rfl rfl ?_ haround hnested ?_
    · intro f hf key value position hshape
      have hentry : f.entryMessage file fullName key value position ∈
          (f.outline file fullName).messages := by
        simp [FieldDecl.outline, hshape, FieldDecl.mapOutline, Outline.ofMessage,
          FieldDecl.entryMessage]
      simp only [Outline.append_messages, List.mem_append]
      exact .inr (.inr (.inl (List.mem_flatMap.mpr
        ⟨_, List.mem_map_of_mem (f := FieldDecl.outline file fullName) hf, hentry⟩)))
    simpa using henums.append (hmessages.append (hfields.append hextends))

theorem MessageDecl.outlineAll_contains (scope : String) (isNested : Bool) (around : Option String)
    (haround : ∀ s ∈ around, isNested = true ∧ s = scope) (hnested : isNested → around = some scope) :
    (ms : List MessageDecl) → (MessageDecl.outlineAll file scope isNested ms).Contains file around
      (ms.map (MessageDecl.site file scope isNested)) [] (MessageDecl.declaredAll scope ms)
  | [] => .of_entries (by simp [MessageDecl.outlineAll, Outline.empty]) rfl
  | m :: ms => by
    rw [MessageDecl.outlineAll, MessageDecl.declaredAll, List.map_cons]
    exact (MessageDecl.outline_contains scope isNested around haround hnested m).append
      (MessageDecl.outlineAll_contains scope isNested around haround hnested ms)

end

theorem ServiceDecl.outline_contains (around : Option String) (s : ServiceDecl) :
    (s.outline file).Contains file around [] [] [] := by
  have hmethods : (Outline.flatten (s.methods.map
      (MethodDecl.outline file (join file.package s.name)))).Contains file around [] [] [] :=
    .flatten_nil s.methods fun m _ => .of_entries (by simp [MethodDecl.outline, Outline.empty]) rfl
  exact (Outline.Contains.of_entries (by simp [Outline.empty]) rfl).append hmethods

/-- All messages that are declared in a file, with their full names. -/
def SchemaFile.declared (f : SchemaFile) : List (String × MessageDecl) :=
  MessageDecl.declaredAll f.scope.package f.messages

/-- The values of an enum have different numbers. -/
def EnumDecl.Unaliased (e : EnumDecl) : Prop := (e.values.map (·.number)).Nodup

/-- No enum that is declared in a message of a file gives two values one number. -/
def SchemaFile.Unaliased (f : SchemaFile) : Prop := ∀ x ∈ f.declared, ∀ e ∈ x.2.enums, e.Unaliased

/-- The outline of a file contains what its messages declare. -/
theorem SchemaFile.outline_contains (f : SchemaFile) : ∃ ms es,
    f.outline.Contains f.scope none ms es f.declared := by
  have hpackage : f.scope.packageOutline.Contains f.scope none [] [] [] :=
    .of_entries (by simp [FileScope.packageOutline, Outline.empty]) rfl
  have hmessages := @MessageDecl.outlineAll_contains f.scope f.scope.package false none
    (by simp) (by simp) f.messages
  have henums : (Outline.flatten (f.enums.map
      (EnumDecl.outline f.scope f.scope.package false))).Contains f.scope none [] _ [] :=
    .ofEnums f.scope.package false (by simp) (by simp) f.enums
  have hextends : (Outline.flatten (f.extendBlocks.map
      (ExtendDecl.outline f.scope f.scope.package))).Contains f.scope none [] [] [] :=
    .flatten_nil f.extendBlocks fun e _ => .of_entries (by simp [ExtendDecl.outline, Outline.empty]) rfl
  have hservices : (Outline.flatten (f.services.map (ServiceDecl.outline f.scope))).Contains f.scope
      none [] [] [] :=
    .flatten_nil f.services fun s _ => s.outline_contains none
  have hall := hpackage.append (hmessages.append (henums.append (hextends.append hservices)))
  simp only [List.nil_append, List.append_nil] at hall
  exact ⟨_, _, hall⟩

end ProtoSchema
