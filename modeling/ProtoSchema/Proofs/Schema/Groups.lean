import ProtoSchema.Proofs.Schema.Fields

/-!
# Groups and their bodies

A group declares a field and a message, both at the place where its name stands. The names of messages
stand at different places of a text, since they come from different tokens
(`SchemaFile.nodup_marks_of_parse`). So a field that is declared as a group has one body among the
messages beside it (`SchemaFile.bodied_of_parse`).
-/

namespace ProtoSchema

/-! ## The places of tokens -/

namespace Position

/-- A place comes before another one in a text. -/
def Before (p q : Position) : Prop := p.line < q.line ∨ (p.line = q.line ∧ p.column < q.column)

theorem Before.trans {p q r : Position} (h : p.Before q) (h' : q.Before r) : p.Before r := by
  unfold Before at *
  omega

theorem Before.ne {p q : Position} (h : p.Before q) : p ≠ q := by
  rintro rfl
  unfold Before at h
  omega

theorem before_next (p : Position) (c : Char) : p.Before (p.next c) := by
  unfold next Before
  split <;> simp

/-- The place behind a text that is not empty comes behind the place where the text starts. -/
theorem before_advance (p : Position) {cs : List Char} (h : cs ≠ []) : p.Before (p.advance cs) := by
  obtain ⟨c, cs, rfl⟩ := List.exists_cons_of_ne_nil h
  have hstart := p.before_next c
  rw [advance, List.foldl_cons]
  clear h
  generalize p.next c = q at hstart ⊢
  induction cs generalizing q with
  | nil => exact hstart
  | cons c cs ih => exact ih (q.next c) (hstart.trans (q.before_next c))

theorem eq_or_before_advance (p : Position) (cs : List Char) :
    p = p.advance cs ∨ p.Before (p.advance cs) := by
  by_cases h : cs = []
  · exact .inl (by rw [h]; rfl)
  · exact .inr (p.before_advance h)

end Position

/-- The tokens of a text stand at different places. -/
theorem Layout.nodup_positions {p : Position} {text : List Char} {tokens : List Token}
    (h : Layout p text tokens) :
    (tokens.map (·.position)).Nodup ∧ ∀ t ∈ tokens, p = t.position ∨ p.Before t.position := by
  induction h with
  | nil => simp
  | @cons p gap _ t ts _ hplace hlexeme _ ih =>
    obtain ⟨hnodup, hbehind⟩ := ih
    have hstart : p = t.position ∨ p.Before t.position := hplace ▸ p.eq_or_before_advance gap
    have hlexeme : t.position.Before (t.position.advance t.lexeme) :=
      t.position.before_advance fun hnil => t.terminal.nil_notMem_language (hnil ▸ hlexeme)
    have hlater : ∀ u ∈ ts, t.position.Before u.position := fun u hu => by
      rcases hbehind u hu with heq | hu
      · exact heq ▸ hlexeme
      · exact hlexeme.trans hu
    refine ⟨?_, List.forall_mem_cons.mpr ⟨hstart, fun u hu => .inr ?_⟩⟩
    · rw [List.map_cons, List.nodup_cons]
      refine ⟨fun hmem => ?_, hnodup⟩
      obtain ⟨u, hu, heq⟩ := List.mem_map.mp hmem
      exact (hlater u hu).ne heq.symm
    · rcases hstart with rfl | hstart
      · exact hlater u hu
      · exact hstart.trans (hlater u hu)

/-! ## The places of messages -/

mutual

/-- The places where a message and the messages nested in it, at any depth, are named. -/
def MessageDecl.marks : MessageDecl → List Position
  | ⟨_, _, messages, _, _, _, _, _, _, _, position⟩ => position :: MessageDecl.marksAll messages

/-- The places where some messages and the messages nested in them are named. -/
def MessageDecl.marksAll : List MessageDecl → List Position
  | [] => []
  | m :: ms => m.marks ++ MessageDecl.marksAll ms

end

theorem MessageDecl.marks_eq (m : MessageDecl) : m.marks = m.position :: marksAll m.messages := by
  obtain ⟨_, _, _, _, _, _, _, _, _, _, _⟩ := m
  rw [marks]

theorem MessageDecl.marksAll_eq (ms : List MessageDecl) : marksAll ms = ms.flatMap marks := by
  induction ms with
  | nil => rw [marksAll, List.flatMap_nil]
  | cons m ms ih => rw [marksAll, ih, List.flatMap_cons]

/-- The places where the messages of an item are named. -/
def MessageItem.marks (i : MessageItem) : List Position := (i.message?.map (·.marks)).getD []

@[inherit_doc MessageItem.marks]
def TopItem.marks (i : TopItem) : List Position := (i.message?.map (·.marks)).getD []

theorem flatMap_filterMap_getD {α β γ : Type} (f : α → Option β) (g : β → List γ) (xs : List α) :
    (xs.filterMap f).flatMap g = xs.flatMap fun x => ((f x).map g).getD [] := by
  induction xs with
  | nil => rfl
  | cons x xs ih =>
    rw [List.flatMap_cons, ← ih]
    cases hx : f x with
    | none => rw [List.filterMap_cons_none hx, Option.map_none, Option.getD_none, List.nil_append]
    | some y =>
      rw [List.filterMap_cons_some hx, List.flatMap_cons, Option.map_some, Option.getD_some]

theorem MessageDecl.marks_ofItems (name : Ident) (items : List MessageItem) :
    (ofItems name items).marks = name.position :: items.flatMap MessageItem.marks := by
  rw [marks_eq, marksAll_eq]
  exact congrArg _ (flatMap_filterMap_getD ..)

/-- The places of the names in whatever a nonterminal stands for: of a name itself, or of the messages
of a part. -/
def Nonterminal.marks : (n : Nonterminal) → n.Value → List Position
  | .name => fun i => [i.position]
  | .groupDecl => fun g => g.body.marks
  | .messageDecl => fun m => m.marks
  | .messageItem => fun i => i.marks
  | .messageItems => fun is => is.flatMap MessageItem.marks
  | .topItem => fun i => i.marks
  | .topItems => fun is => is.flatMap TopItem.marks
  | .schemaFile => fun f => MessageDecl.marksAll f.messages
  | _ => fun _ => []

/-- The places of the names in whatever a symbol stands for. -/
def Symbol.marks : (s : Symbol) → s.Value → List Position
  | .terminal _ => fun t => [t.position]
  | .nonterminal n => n.marks

/-- An action yields only results whose places are, in their order, among `places` and those of its
parts. -/
def Action.Locates {β : Type} (marks : β → List Position) (places : List Position) :
    (ss : List Symbol) → Action β ss → Prop
  | [], result => ∀ v, result = .ok v → (marks v).Sublist places
  | s :: ss, action => ∀ v, Action.Locates marks (places ++ s.marks v) ss (action v)

theorem Action.locates_of_nil {β : Type} {marks : β → List Position} (h : ∀ v, marks v = [])
    (places : List Position) (ss : List Symbol) (action : Action β ss) :
    Action.Locates marks places ss action := by
  induction ss generalizing places with
  | nil => exact fun v _ => h v ▸ List.nil_sublist _
  | cons s ss ih => exact fun v => ih (places ++ s.marks v) (action v)

/-- What keeps the places of its parts keeps those of the tokens that they are read from. -/
theorem Action.Locates.builds {β : Type} {marks : β → List Position} {places : List Position}
    {read : List Token} (hplaces : places.Sublist (read.map (·.position))) {ss : List Symbol}
    {action : Action β ss} (h : Action.Locates marks places ss action) (tokens : List Token) :
    Action.Builds (fun _ _ => True) (fun n read v => (n.marks v).Sublist (read.map (·.position)))
      tokens (fun read v => (marks v).Sublist (read.map (·.position))) read ss action := by
  induction ss generalizing places read with
  | nil => exact fun _ v hv => (h v hv).trans hplaces
  | cons s ss ih =>
    intro more v hv
    refine ih ?_ (h v)
    rw [List.map_append]
    refine hplaces.append ?_
    cases s with
    | terminal t =>
      obtain ⟨rfl, -⟩ := hv
      exact .refl _
    | nonterminal n => exact hv

/-- If all rules keep the places of their parts, then the places in what a tree stands for are those
of its tokens. -/
theorem Tree.marks_sublist
    (h : ∀ r : RuleName, Action.Locates r.head.marks [] r.symbols r.rule.action) {s : Symbol}
    (tree : Tree s) (v : s.Value) (hv : tree.value = .ok v) :
    (s.marks v).Sublist (tree.tokens.map (·.position)) := by
  have hspans := Tree.spans_value (fun _ _ => trivial)
    (fun r => (h r).builds (List.nil_sublist _) tree.tokens) tree List.infix_rfl v hv
  cases s with
  | terminal t =>
    obtain ⟨hread, -⟩ := hspans
    rw [hread]
    exact .refl _
  | nonterminal n => exact hspans

theorem SchemaFile.marks_ofItems_sublist {dialect : Dialect} {items : List TopItem} {f : SchemaFile}
    (h : SchemaFile.ofItems dialect items = .ok f) :
    (MessageDecl.marksAll f.messages).Sublist (items.flatMap TopItem.marks) := by
  unfold SchemaFile.ofItems at h
  split at h
  · cases h
  · obtain rfl := Except.ok.inj h
    rw [MessageDecl.marksAll_eq, flatMap_filterMap_getD]
    exact List.Sublist.refl _

/-- Every rule takes the places from its parts, in their order. -/
theorem Rule.locates_of_mem {n : Nonterminal} :
    ∀ r ∈ rules n, Action.Locates n.marks [] r.symbols r.action := by
  cases n with
  | name => simp [rules, Action.Locates, Symbol.marks, Nonterminal.marks, Token.ident]
  | groupDecl =>
    simp [rules, Action.Locates, Symbol.marks, Nonterminal.marks, GroupDecl.ofItems,
      MessageDecl.marks_ofItems]
    exact fun _ _ _ _ _ _ _ =>
      .cons _ (.cons_cons _ (.cons _ (.cons _ (List.sublist_append_left ..))))
  | messageDecl =>
    simp [rules, Action.Locates, Symbol.marks, Nonterminal.marks, MessageDecl.marks_ofItems]
    exact fun _ _ _ _ _ => .cons _ (.cons_cons _ (.cons _ (List.sublist_append_left ..)))
  | messageItem | messageItems =>
    simp [rules, Action.Locates, Symbol.marks, Nonterminal.marks, MessageItem.marks,
      MessageItem.message?]
  | topItem | topItems =>
    simp [rules, Action.Locates, Symbol.marks, Nonterminal.marks, TopItem.marks, TopItem.message?]
  | schemaFile =>
    refine List.forall_iff_forall_mem.mp ⟨?_, ?_, ?_, ?_⟩
    · exact fun d items f (hf : SchemaFile.ofItems d items = .ok f) =>
        SchemaFile.marks_ofItems_sublist hf
    · exact fun d f (hf : SchemaFile.ofItems d [] = .ok f) => SchemaFile.marks_ofItems_sublist hf
    · exact fun items f (hf : SchemaFile.ofItems .proto2 items = .ok f) =>
        SchemaFile.marks_ofItems_sublist hf
    · exact fun f (hf : SchemaFile.ofItems .proto2 [] = .ok f) =>
        SchemaFile.marks_ofItems_sublist hf
  -- no other part of a file has messages
  | _ => exact fun r _ => Action.locates_of_nil (fun _ => rfl) [] r.symbols r.action

/-- The messages of a file, at any depth, are named at different places. -/
theorem SchemaFile.nodup_marks_of_parse {name : Text} {text : List Char} {f : SchemaFile}
    (h : SchemaFile.parse name text = .ok f) : (MessageDecl.marksAll f.messages).Nodup := by
  obtain ⟨tree, file, htree, hvalue, rfl⟩ := exists_tree_of_parse h
  have hmarks := tree.marks_sublist (fun _ => Rule.locates_of_mem _ (List.getElem_mem _)) file hvalue
  exact (layout_of_derive htree).nodup_positions.1.sublist hmarks

/-! ## Groups -/

/-- Each field of a message that is declared as a group has a body among the messages beside it: named
like the group, at the place of the group. -/
def MessageDecl.Bodied (m : MessageDecl) : Prop :=
  ∀ f ∈ m.fields, ∀ type, f.shape = .group type →
    ∃ b ∈ m.messages, b.name = type ∧ b.position = f.position

/-- A group is one field with one message of the same name, at the same place. -/
structure GroupDecl.Bodied (g : GroupDecl) : Prop where
  shape : g.field.shape = .group g.body.name
  position : g.body.position = g.field.position
  body : g.body.Forall MessageDecl.Bodied

/-- No member of a oneof is a group. -/
def OneofDecl.Groupless (o : OneofDecl) : Prop := ∀ f ∈ o.fields, f.isGroup = false

/-- The fields of an item are no groups, apart from the field of a group. -/
def MessageItem.Bodied : MessageItem → Prop
  | .field f => f.isGroup = false
  | .group g => g.Bodied
  | .oneof o => o.Groupless
  | .message m => m.Forall MessageDecl.Bodied
  | .enum _ | .extend _ | .extensions _ | .reserved _ | .option _ | .empty => True

@[inherit_doc MessageItem.Bodied]
def TopItem.Bodied : TopItem → Prop
  | .message m => m.Forall MessageDecl.Bodied
  | .dependency _ | .package _ | .option _ | .enum _ | .service _ | .extend _ | .empty => True

namespace MessageItem

variable {i : MessageItem} (h : i.Bodied)
include h

theorem Bodied.fields : ∀ f ∈ i.fields, ∀ type, f.shape = .group type →
    ∃ b, i.message? = some b ∧ b.name = type ∧ b.position = f.position := by
  intro f hf type htype
  have hgroup : f.isGroup = true := by rw [FieldDecl.isGroup, htype]
  cases i with
  | field g =>
    obtain rfl := List.mem_singleton.mp hf
    exact absurd hgroup (by rw [show f.isGroup = false from h]; decide)
  | group g =>
    obtain rfl := List.mem_singleton.mp hf
    rw [h.shape, FieldShape.group.injEq] at htype
    exact ⟨g.body, rfl, htype, h.position⟩
  | oneof o => exact absurd hgroup (by rw [h f hf]; decide)
  | message | enum | extend | extensions | reserved | option | empty => cases hf

theorem Bodied.message : ∀ m ∈ i.message?, m.Forall MessageDecl.Bodied := by
  intro m hm
  cases i with
  | group g =>
    obtain rfl := Option.some.inj hm
    exact h.body
  | message m' =>
    obtain rfl := Option.some.inj hm
    exact h
  | field | oneof | enum | extend | extensions | reserved | option | empty => cases hm

end MessageItem

theorem MessageDecl.bodied_ofItems {name : Ident} {items : List MessageItem}
    (h : ∀ i ∈ items, i.Bodied) : (MessageDecl.ofItems name items).Forall MessageDecl.Bodied := by
  rw [MessageDecl.ofItems, MessageDecl.Forall]
  refine ⟨fun f hf type htype => ?_, MessageDecl.forallIn_iff.mpr fun m hm => ?_⟩
  · obtain ⟨i, hi, hf⟩ := List.mem_flatMap.mp hf
    obtain ⟨b, hb, hfacts⟩ := (h i hi).fields f hf type htype
    exact ⟨b, List.mem_filterMap.mpr ⟨i, hi, hb⟩, hfacts⟩
  · obtain ⟨i, hi, hm⟩ := List.mem_filterMap.mp hm
    exact (h i hi).message m hm

theorem FieldDecl.isGroup_plain (label : Option Label) (type name : Ident) (number : Nat)
    (options : List OptionDecl) :
    (FieldDecl.plain label type name number options).isGroup = false := rfl

theorem FieldDecl.isGroup_ofMap (key value name : Ident) (number : Nat)
    (options : List OptionDecl) :
    (FieldDecl.ofMap key value name number options).isGroup = false := rfl

theorem GroupDecl.bodied_ofItems {label : Label} {name : Ident} {number : Nat}
    {options : List OptionDecl} {items : List MessageItem} (h : ∀ i ∈ items, i.Bodied) :
    (GroupDecl.ofItems label name number options items).Bodied :=
  ⟨rfl, rfl, MessageDecl.bodied_ofItems h⟩

theorem OneofDecl.groupless_ofFields {name : Ident} {fs : List FieldDecl}
    (h : ∀ f ∈ fs, f.isGroup = false) : (OneofDecl.ofFields name fs).Groupless := by
  intro f hf
  obtain ⟨g, hg, rfl⟩ := List.mem_map.mp hf
  exact h g hg

theorem SchemaFile.bodied_ofItems {dialect : Dialect} {items : List TopItem} {f : SchemaFile}
    (hf : SchemaFile.ofItems dialect items = .ok f) (h : ∀ i ∈ items, i.Bodied) :
    MessageDecl.ForallIn MessageDecl.Bodied f.messages := by
  unfold SchemaFile.ofItems at hf
  split at hf
  · cases hf
  · obtain rfl := Except.ok.inj hf
    refine MessageDecl.forallIn_iff.mpr fun m hm => ?_
    obtain ⟨i, hi, hm⟩ := List.mem_filterMap.mp hm
    have hitem := h i hi
    cases i with
    | message m' =>
      obtain rfl := Option.some.inj hm
      exact hitem
    | dependency | package | option | enum | service | extend | empty => cases hm

/-- Groups have their bodies in whatever a nonterminal stands for. -/
def Nonterminal.Bodied : (n : Nonterminal) → n.Value → Prop
  | .fieldDecl | .mapFieldDecl | .oneofField => fun f => f.isGroup = false
  | .oneofItem | .oneofItems => fun fs => ∀ f ∈ fs, f.isGroup = false
  | .oneofDecl => OneofDecl.Groupless
  | .groupDecl => GroupDecl.Bodied
  | .messageDecl => fun m => m.Forall MessageDecl.Bodied
  | .messageItem => MessageItem.Bodied
  | .messageItems => fun is => ∀ i ∈ is, i.Bodied
  | .topItem => TopItem.Bodied
  | .topItems => fun is => ∀ i ∈ is, i.Bodied
  | .schemaFile => fun f => MessageDecl.ForallIn MessageDecl.Bodied f.messages
  | _ => fun _ => True

/-- A rule leaves groups their bodies. -/
abbrev Rule.Bodied {n : Nonterminal} (r : Rule n) : Prop :=
  Action.Yields (fun _ _ => True) Nonterminal.Bodied n.Bodied r.symbols r.action

theorem Rule.bodied_of_mem {n : Nonterminal} : ∀ r ∈ rules n, r.Bodied := by
  cases n with
  | fieldDecl | mapFieldDecl | oneofField | oneofItem | oneofItems | groupDecl | oneofDecl
  | messageDecl =>
    simp +contextual [rules, Rule.Bodied, Action.Yields, Symbol.Satisfies, Nonterminal.Bodied,
      FieldDecl.isGroup_plain, FieldDecl.isGroup_ofMap, GroupDecl.bodied_ofItems,
      OneofDecl.groupless_ofFields, MessageDecl.bodied_ofItems, or_imp, forall_and]
  | messageItem | messageItems =>
    simp +contextual [rules, Rule.Bodied, Action.Yields, Symbol.Satisfies, Nonterminal.Bodied,
      MessageItem.Bodied, or_imp, forall_and]
  | topItem | topItems =>
    simp +contextual [rules, Rule.Bodied, Action.Yields, Symbol.Satisfies, Nonterminal.Bodied,
      TopItem.Bodied, or_imp, forall_and]
  | schemaFile =>
    refine List.forall_iff_forall_mem.mp ⟨?_, ?_, ?_, ?_⟩
    · exact fun d _ items hitems f hf => SchemaFile.bodied_ofItems hf hitems
    · exact fun d _ f hf => SchemaFile.bodied_ofItems hf (List.forall_mem_nil _)
    · exact fun items hitems f hf => SchemaFile.bodied_ofItems hf hitems
    · exact fun f hf => SchemaFile.bodied_ofItems hf (List.forall_mem_nil _)
  -- no other part of a file has groups
  | _ => exact fun r _ => Action.yields_of_all (fun _ => trivial) r.symbols r.action

/-- Which message is the body of a field that is declared as a group: the one at its place. -/
def MessageDecl.IsBodyOf (m : MessageDecl) (f : FieldDecl) (b : MessageDecl) : Prop :=
  b ∈ m.messages ∧ b.position = f.position

mutual

theorem MessageDecl.forall_nodup_marks : (m : MessageDecl) → m.marks.Nodup →
    m.Forall fun m => m.marks.Nodup
  | ⟨_, _, messages, _, _, _, _, _, _, _, _⟩, h => by
    rw [MessageDecl.Forall]
    refine ⟨h, MessageDecl.forallIn_nodup_marks messages ?_⟩
    rw [MessageDecl.marks] at h
    exact h.of_cons

theorem MessageDecl.forallIn_nodup_marks : (ms : List MessageDecl) →
    (MessageDecl.marksAll ms).Nodup → MessageDecl.ForallIn (fun m => m.marks.Nodup) ms
  | [], _ => by
    rw [MessageDecl.ForallIn]
    trivial
  | m :: ms, h => by
    rw [MessageDecl.marksAll, List.nodup_append] at h
    rw [MessageDecl.ForallIn]
    exact ⟨MessageDecl.forall_nodup_marks m h.1, MessageDecl.forallIn_nodup_marks ms h.2.1⟩

end

/-- The places of some messages are among those of all that is nested in them. -/
theorem MessageDecl.positions_sublist_marksAll (ms : List MessageDecl) :
    (ms.map (·.position)).Sublist (marksAll ms) := by
  induction ms with
  | nil => exact List.nil_sublist _
  | cons m ms ih =>
    rw [marksAll, marks_eq, List.map_cons, List.cons_append]
    exact (ih.trans (List.sublist_append_right ..)).cons_cons _

/-- In a message whose messages are named at different places each group has one body only. -/
theorem MessageDecl.Bodied.existsUnique {m : MessageDecl} (h : m.Bodied) (hmarks : m.marks.Nodup)
    {f : FieldDecl} (hf : f ∈ m.fields) {type : String} (hshape : f.shape = .group type) :
    ∃ b, m.IsBodyOf f b ∧ b.name = type ∧ ∀ x, m.IsBodyOf f x → x = b := by
  obtain ⟨b, hb, hname, hposition⟩ := h f hf type hshape
  have hnodup : (m.messages.map (·.position)).Nodup := by
    rw [MessageDecl.marks_eq] at hmarks
    exact hmarks.of_cons.sublist (positions_sublist_marksAll m.messages)
  exact ⟨b, ⟨hb, hposition⟩, hname, fun x hx =>
    List.inj_on_of_nodup_map hnodup hx.1 hb (hx.2.trans hposition.symm)⟩

/-- In a file that was read each group, at any depth, has one body. -/
theorem SchemaFile.bodied_of_parse {name : Text} {text : List Char} {f : SchemaFile}
    (h : SchemaFile.parse name text = .ok f) :
    MessageDecl.ForallIn (fun m => ∀ x ∈ m.fields, ∀ type, x.shape = .group type →
      ∃ b, m.IsBodyOf x b ∧ b.name = type ∧ ∀ y, m.IsBodyOf x y → y = b) f.messages := by
  have hmarks := MessageDecl.forallIn_nodup_marks _ (nodup_marks_of_parse h)
  obtain ⟨tree, file, -, hvalue, rfl⟩ := exists_tree_of_parse h
  have hbodied : MessageDecl.ForallIn MessageDecl.Bodied file.messages :=
    Tree.satisfies_value (fun _ => Rule.bodied_of_mem _ (List.getElem_mem _)) tree
      (fun _ _ => trivial) file hvalue
  refine MessageDecl.ForallIn.imp (fun m hm => ?_) file.messages
    (MessageDecl.ForallIn.and file.messages hbodied hmarks)
  exact fun x hx type hshape => hm.1.existsUnique hm.2 hx hshape

end ProtoSchema
