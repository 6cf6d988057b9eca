import ProtoSchema.Proofs.Linker.Stages
import ProtoSchema.Proofs.Schema.Accepted
import ProtoSchema.Proofs.Tables.Defaults
import ProtoSchema.Proofs.Tables.Numbers

/-!
# Numbers of extensions

A field is checked against the numbers that fields may have, an extension only against the ranges of
the message that it belongs to, and these are taken as they are written. So the number of an
extension is as legal as the range that lets it in (`extended_of_link`).
-/

namespace ProtoSchema

/-- All numbers of a range are numbers that a field may have. -/
def NumberRange.IsLegal (r : NumberRange) : Prop :=
  1 ≤ r.first ∧ r.last.getD (2 ^ 29 - 1) ≤ 2 ^ 29 - 1 ∧
    (r.last.getD (2 ^ 29 - 1) < 19000 ∨ 19999 < r.first)

theorem NumberRange.IsLegal.isFieldNumber {r : NumberRange} (h : r.IsLegal) {n : Nat}
    (hn : r.Covers n) : IsFieldNumber n := by
  obtain ⟨hfirst, hlast, hapart⟩ := h
  obtain ⟨hge, hle⟩ := hn
  refine ⟨⟨by omega, by omega⟩, fun hbetween => ?_⟩
  rcases hapart with hbelow | habove <;> omega

/-- The members of the message at place `i`. Its fields have legal numbers. Its extensions have
numbers that its declaration leaves to extensions, and those that come from a legal range are
legal. -/
structure Tables.Extended (t : Tables) (files : List SchemaFile) (i : Nat) (m : MessageRecord) :
    Prop where
  fields : ∀ k ∈ m.fields, ∃ f, t.fields[k]? = some f ∧ IsFieldNumber f.number
  extensions : ∀ k ∈ m.extensions, ∃ f, t.fields[k]? = some f ∧ f.containingType = some i ∧
    f.extensionScope.isSome ∧
    ∃ d, DeclaredAs files (t.messages.toList.map MessageRecord.source) i d ∧
      ∃ r ∈ d.extensionRanges, r.Covers f.number ∧ (r.IsLegal → IsFieldNumber f.number)

namespace Linker

variable {l l' : Linker} {t : Tables} {attached : List Nat}

/-! ## Attaching -/

/-- The extensions that messages list have been attached: `attached` are their places. Each of them
belongs to the message, and has a number that the message leaves to extensions. -/
structure Admitted (l : Linker) (attached : List Nat) : Prop where
  present : ∀ p ∈ attached, p < l.extensions.size
  listed : ∀ i m, l.messages[i]? = some m → ∀ k ∈ m.extensions, ∃ j p e, attached[j]? = some p ∧
    k = l.fields.size + j ∧ l.extensions[p]? = some e ∧ e.field.owner = some i ∧
      NumberRange.anyContains m.extensionRanges maxFieldNumber e.field.decl.number = true

theorem exists_of_extensionOwner {e : ExtensionEntry} {d : Definition} {owner : Nat}
    (h : l.extensionOwner attached e d = .ok owner) :
    ∃ m, l.messages[owner]? = some m ∧
      NumberRange.anyContains m.extensionRanges maxFieldNumber e.field.decl.number = true := by
  unfold extensionOwner at h
  split at h
  · next place m _ hfound =>
    obtain ⟨p, -, hm⟩ := Option.bind_eq_some_iff.mp hfound
    obtain ⟨m', hm', heq⟩ := Option.map_eq_some_iff.mp hm
    obtain ⟨rfl, rfl⟩ := Prod.mk.inj heq
    simp only at h
    split at h
    · cases h
    · next hopen =>
      split at h
      · cases h
      · obtain rfl := Except.ok.inj h
        exact ⟨m', hm', by simpa using hopen⟩
  · cases h

namespace Admitted

/-- What is remembered and noted is of no account. -/
theorem rest (h : Admitted l attached) (visible : List (Text × List Text)) (reports : List Report) :
    Admitted { l with visible, reports } attached :=
  ⟨h.present, h.listed⟩

/-- One more extension is attached to a message that leaves its number to extensions. -/
theorem attach (h : Admitted l attached) {place owner : Nat} (hnew : place ∉ attached)
    {e : ExtensionEntry} {m : MessageEntry} (he : l.extensions[place]? = some e)
    (hm : l.messages[owner]? = some m)
    (hopen : NumberRange.anyContains m.extensionRanges maxFieldNumber e.field.decl.number = true) :
    Admitted (l.attach attached place owner) (attached ++ [place]) := by
  have hlt : place < l.extensions.size := (Array.getElem?_eq_some_iff.mp he).1
  have hextensions (p : Nat) : (l.attach attached place owner).extensions[p]? =
      if place = p then (l.extensions[p]?).map fun e =>
        { e with field := { e.field with owner := some owner } }
      else l.extensions[p]? := by
    simp [Linker.attach, modifyMessage, Array.getElem?_modify]
  -- the extensions before stay where they are, and no one else gets them
  have hold {i k : Nat} {old : MessageEntry} (hi : l.messages[i]? = some old)
      (hk : k ∈ old.extensions) : ∃ j p e, (attached ++ [place])[j]? = some p ∧
        k = l.fields.size + j ∧ (l.attach attached place owner).extensions[p]? = some e ∧
          e.field.owner = some i ∧ NumberRange.anyContains old.extensionRanges maxFieldNumber
            e.field.decl.number = true := by
    obtain ⟨j, p, e, hj, rfl, hp, hrest⟩ := h.listed i old hi k hk
    have hne : place ≠ p := fun heq => hnew (heq ▸ List.mem_of_getElem? hj)
    refine ⟨j, p, e, ?_, rfl, by rw [hextensions, if_neg hne, hp], hrest⟩
    rw [List.getElem?_append_left (List.getElem?_eq_some_iff.mp hj).1, hj]
  constructor
  · have hsize : (l.attach attached place owner).extensions.size = l.extensions.size := by
      simp [Linker.attach, modifyMessage]
    rw [hsize]
    exact List.forall_mem_append.mpr ⟨h.present, by simpa using hlt⟩
  · intro i m' hm' k hk
    have hm' : (if owner = i then (l.messages[i]?).map fun m =>
        { m with extensions := m.extensions ++ [l.fields.size + attached.length] }
        else l.messages[i]?) = some m' := by
      rw [← hm']
      simp [Linker.attach, modifyMessage, Array.getElem?_modify]
    by_cases hi : owner = i
    · subst hi
      rw [if_pos rfl, hm, Option.map_some, Option.some.injEq] at hm'
      subst hm'
      rcases List.mem_append.mp hk with hk | hk
      · obtain ⟨j, p, e, hj, hfound⟩ := hold hm hk
        exact ⟨j, p, e, hj, hfound⟩
      · obtain rfl := List.mem_singleton.mp hk
        exact ⟨attached.length, place, { e with field := { e.field with owner := some owner } },
          by simp, rfl, by simp [hextensions, he], rfl, hopen⟩
    · rw [if_neg hi] at hm'
      exact hold hm' hk

/-- What is attached is admitted. -/
theorem attachExtensions (h : Admitted l attached) {places : List Nat} (hnodup : places.Nodup)
    (hnew : ∀ p ∈ places, p ∉ attached) :
    Admitted (l.attachExtensions attached places).1 (l.attachExtensions attached places).2 := by
  induction places generalizing l attached with
  | nil => exact h
  | cons place places ih =>
    obtain ⟨hplace, hnodup⟩ := List.nodup_cons.mp hnodup
    obtain ⟨hnew, hrest⟩ := List.forall_mem_cons.mp hnew
    rw [Linker.attachExtensions]
    cases he : l.extensions[place]? with
    | none => exact ih h hnodup hrest
    | some e =>
      obtain ⟨visible, reports, hresolve⟩ := l.resolve_rest e.field.scope e.extendee e.field.file
        (some e.field.decl.position)
      rcases heq : l.resolve e.field.scope e.extendee e.field.file (some e.field.decl.position) with
        ⟨l₁, _ | d⟩ <;> simp only [heq] at hresolve ⊢ <;> subst hresolve
      · exact ih (h.rest visible reports) hnodup hrest
      · cases howner : extensionOwner { l with visible, reports } attached e d with
        | error p => exact ih (h.rest visible _) hnodup hrest
        | ok owner =>
          obtain ⟨m, hm, hopen⟩ := exists_of_extensionOwner howner
          refine ih ((h.rest visible reports).attach hnew he hm hopen) hnodup fun p hp => ?_
          rw [List.mem_append, List.mem_singleton, not_or]
          exact ⟨hrest p hp, fun heq => hplace (heq ▸ hp)⟩

/-- Linking extensions leaves them with their messages. -/
theorem linkExtensions (h : Admitted l attached) (places : List Nat) :
    Admitted (l.linkExtensions places) attached := by
  induction places generalizing l with
  | nil => exact h
  | cons place places ih =>
    rw [Linker.linkExtensions]
    cases he : l.extensions[place]? with
    | none => exact ih h
    | some e =>
      obtain ⟨⟨visible, reports, hrest⟩, link, hlink⟩ := l.resolveType_rest e.field
      rcases heq : l.resolveType e.field with ⟨l₁, field⟩
      simp only [heq] at hrest hlink ⊢
      subst hrest hlink
      refine ih ⟨by simpa using h.present, fun i m hm k hk => ?_⟩
      obtain ⟨j, p, e', hj, rfl, he', howner, hopen⟩ := h.listed i m hm k hk
      by_cases hp : place = p
      · subst hp
        obtain rfl := Option.some.inj (he.symm.trans he')
        exact ⟨j, place, { e with field := { e.field with link } }, hj, rfl,
          by simp [Array.getElem?_modify, he], howner, hopen⟩
      · exact ⟨j, p, e', hj, rfl, by simpa [Array.getElem?_modify, hp] using he', howner, hopen⟩

end Admitted

/-! ## Declared linkers -/

variable {files : List SchemaFile}

/-- A linker that has not linked yet has attached nothing. -/
theorem Listed.admitted (h : l.Listed) : Admitted l [] := by
  refine ⟨by simp, fun i m hm k hk => ?_⟩
  rw [(h i m hm).extensions, List.findIdxs_nil] at hk
  cases hk

theorem Stages.admitted {l₁ : Linker} (h : Stages l l' t attached l₁) (hl : l.Listed) :
    Admitted l' attached := by
  have hfields : Admitted l.linkFields [] := by
    obtain ⟨⟨visible, reports, hrest⟩, -⟩ := l.resolveTypes_rest l.fields.toList
    have hmessages : l.linkFields.messages = l.messages := by simp only [linkFields, hrest]
    refine ⟨by simp, fun i m hm k hk => ?_⟩
    rw [hmessages] at hm
    obtain ⟨j, p, e, hj, -⟩ := hl.admitted.listed i m hm k hk
    simp at hj
  have hattached := hfields.attachExtensions
    (List.nodup_range (n := l.linkFields.extensions.size)) (by simp)
  rw [h.attach] at hattached
  obtain ⟨visible, reports, rfl⟩ := h.rest
  exact (hattached.linkExtensions attached).rest visible reports

/-! ## Tables -/

/-- Whatever files are declared: when linking gives tables, fields have legal numbers, and an
extension has a number that its message leaves to extensions, which is legal if the range that lets
it in is. -/
theorem extended_of_link (hlink : (ofFiles files).link = (l, .ok t)) {i : Nat} {m : MessageRecord}
    (hm : t.messages[i]? = some m) : t.Extended files i m := by
  have hsourced := sourced_ofFiles files
  have hlisted := listed_ofFiles files
  have halike := alike_of_link hlink
  obtain ⟨attached, l₁, hstages⟩ := exists_stages_of_link hlink
  obtain ⟨x, hx, hrecorded⟩ := hstages.exists_message hm
  have hadmitted := hstages.admitted hlisted
  constructor
  · intro k hk
    -- what a message lists as its fields has not changed since they were declared
    have hforget := congrArg (·[i]?) halike.messages
    simp only [Array.getElem?_map, hx, Option.map_some] at hforget
    obtain ⟨y, hy, hyx⟩ := Option.map_eq_some_iff.mp hforget.symm
    have hfields : m.fields = y.fields :=
      hrecorded.fields.trans (congrArg MessageEntry.fields hyx).symm
    rw [hfields, (hlisted i y hy).fields] at hk
    obtain ⟨f, hf, -⟩ := mem_findIdxs.mp hk
    have hsame := congrArg (·[k]?) halike.fields
    have hf' : (ofFiles files).fields[k]? = some f := by simpa [inventory] using hf
    simp only [Array.getElem?_map, hf', Option.map_some] at hsame
    obtain ⟨g, hg, hgf⟩ := Option.map_eq_some_iff.mp hsame
    have hdecl : g.decl = f.decl := (congrArg FieldEntry.decl hgf :)
    refine ⟨_, hstages.getElem?_field hg, ?_⟩
    rw [fieldRecord, hdecl]
    exact (hsourced.fields f (List.mem_of_getElem? hf)).1
  · intro k hk
    rw [hrecorded.extensions] at hk
    obtain ⟨j, p, e, hj, rfl, he, howner, hopen⟩ := hadmitted.listed i x hx k hk
    have hheader : (ofFiles files).inventory.messages[i]? = some x.header := by
      rw [← halike.inventory_messages]
      exact header_of_getElem? hx
    obtain ⟨d, hd, r, hr, hcovers⟩ := hsourced.opensNumber hheader hopen
    have hsources : l.sources = (ofFiles files).sources :=
      congrArg (List.map _) halike.inventory_messages
    refine ⟨_, hstages.getElem?_extension hadmitted.present hj he, howner, rfl, d, ?_, r, hr,
      hcovers, fun hlegal => hlegal.isFieldNumber hcovers⟩
    rwa [hstages.sources, hsources]

theorem extended_of_link_sample :
    ∃ l t m, (ofFiles [Sample.shapes, Sample.drawing]).link = (l, .ok t) ∧
      t.messages[0]? = some m ∧ t.Extended [Sample.shapes, Sample.drawing] 0 m := by
  obtain ⟨l, t, hlink⟩ := exists_tables (l := ofFiles [Sample.shapes, Sample.drawing])
    (by decide +kernel)
  have hsome : ((ofFiles [Sample.shapes, Sample.drawing]).link.2.toOption.bind
      (·.messages[0]?)).isSome := by
    decide +kernel
  rw [hlink] at hsome
  obtain ⟨m, hm⟩ := Option.isSome_iff_exists.mp hsome
  exact ⟨l, t, m, hlink, hm, extended_of_link hlink hm⟩

end Linker

namespace Sample

/-- The lexemes of a file with a message that leaves all numbers to extensions, and two extensions
of it. -/
def openLexemes : List Lexed :=
  [(.keyword .kwMessage, ['m', 'e', 's', 's', 'a', 'g', 'e']), (.name, ['M']),
    (.mark .lbrace, ['\x7b']),
    (.keyword .kwExtensions, ['e', 'x', 't', 'e', 'n', 's', 'i', 'o', 'n', 's']), (.int, ['0']),
    (.keyword .kwTo, ['t', 'o']), (.keyword .kwMax, ['m', 'a', 'x']), (.mark .semicolon, [';']),
    (.mark .rbrace, ['\x7d']), (.keyword .kwExtend, ['e', 'x', 't', 'e', 'n', 'd']), (.name, ['M']),
    (.mark .lbrace, ['\x7b']), (.keyword .kwOptional, ['o', 'p', 't', 'i', 'o', 'n', 'a', 'l']),
    (.name, ['i', 'n', 't', '3', '2']), (.name, ['a']), (.mark .equal, ['=']), (.int, ['0']),
    (.mark .semicolon, [';']), (.keyword .kwOptional, ['o', 'p', 't', 'i', 'o', 'n', 'a', 'l']),
    (.name, ['i', 'n', 't', '3', '2']), (.name, ['b']), (.mark .equal, ['=']),
    (.int, ['1', '9', '0', '0', '0']), (.mark .semicolon, [';']), (.mark .rbrace, ['\x7d'])]

/-- The tree of this file. -/
def openTree : Tree (.nonterminal .schemaFile) :=
  let range : Tree (.part .numberRange) := .node ⟨.numberRange, 2⟩
    (.cons (.node ⟨.signedInt, 1⟩ (.cons (leafAt .int ['0'] 24) .nil))
      (.cons (leafAt (.keyword .kwTo) ['t', 'o'] 26)
        (.cons (leafAt (.keyword .kwMax) ['m', 'a', 'x'] 29) .nil)))
  let ranges : Tree (.part .extensionsStmt) := .node ⟨.extensionsStmt, 1⟩
    (.cons (leafAt (.keyword .kwExtensions) ['e', 'x', 't', 'e', 'n', 's', 'i', 'o', 'n', 's'] 13)
      (.cons (.node ⟨.numberRanges, 1⟩ (.cons range .nil))
        (.cons (leafAt (.mark .semicolon) [';'] 33) .nil)))
  let items : Tree (.part .messageItems) := .node ⟨.messageItems, 0⟩
    (.cons (.node ⟨.messageItem, 7⟩ (.cons ranges .nil)) .nil)
  let field (name number : List Char) (column equal last : Nat) : Tree (.part .extendItem) :=
    .node ⟨.extendItem, 0⟩ (.cons (.node ⟨.fieldDecl, 1⟩ (.cons (optionalAt column)
      (.cons (typeAt ['i', 'n', 't', '3', '2'] (column + 9)) (.cons (wordAt name (column + 15))
        (.cons (leafAt (.mark .equal) ['='] equal) (.cons (numberAt number (equal + 2))
          (.cons (leafAt (.mark .semicolon) [';'] last) .nil))))))) .nil)
  let fields : Tree (.part .extendItems) := .node ⟨.extendItems, 1⟩
    (.cons (.node ⟨.extendItems, 0⟩ (.cons (field ['a'] ['0'] 48 65 69) .nil))
      (.cons (field ['b'] ['1', '9', '0', '0', '0'] 71 88 96) .nil))
  let block : Tree (.part .topItem) := .node ⟨.topItem, 6⟩ (.cons (.node ⟨.extendDecl, 0⟩
    (.cons (leafAt (.keyword .kwExtend) ['e', 'x', 't', 'e', 'n', 'd'] 37) (.cons (typeAt ['M'] 44)
      (.cons (leafAt (.mark .lbrace) ['\x7b'] 46) (.cons fields
        (.cons (leafAt (.mark .rbrace) ['\x7d'] 98) .nil)))))) .nil)
  .node .bareFile (.cons (.node ⟨.topItems, 1⟩
    (.cons (.node .firstItem (.cons (messageAt items 35) .nil)) (.cons block .nil))) .nil)

/-- The file with this message and its extensions. -/
def openFile (name : Text) : SchemaFile :=
  let field (name : String) (number column : Nat) : FieldDecl :=
    ⟨name, number, .named "int32" (some ⟨1, column⟩), some .optional, [], none, ⟨1, column + 6⟩⟩
  ⟨name, .proto2, none, [], [⟨"M", [], [], [], [], [], [], [⟨0, none⟩], [], [], ⟨1, 9⟩⟩], [], [],
    [⟨"M", [field "a" 0 57, field "b" 19000 80], ⟨1, 44⟩⟩], []⟩

end Sample

theorem SchemaFile.parse_openLexemes (name : Text) :
    SchemaFile.parse name (Lexed.spaced Sample.openLexemes) = .ok (Sample.openFile name) := by
  have hvalue : Sample.openTree.value = .ok (Sample.openFile "") := by
    with_unfolding_all rfl
  exact parse_spaced_tree (by decide) (by decide) hvalue rfl name

namespace Linker

/-- A message can have extensions with numbers that no field may have. -/
theorem illegal_extensions_attached :
    ∃ file : SchemaFile, file.IsRead ∧ ∃ l t m, (ofFiles [file]).link = (l, .ok t) ∧
      t.messages[0]? = some m ∧ (m.extensions.filterMap (t.fields[·]?)).map (·.number) = [0, 19000] ∧
        ¬ IsFieldNumber 0 ∧ ¬ IsFieldNumber 19000 := by
  have hnumbers : ((ofFiles [Sample.openFile "a.proto"]).link.2.toOption.bind fun t =>
      (t.messages[0]?).map fun m => (m.extensions.filterMap (t.fields[·]?)).map (·.number)) =
        some [0, 19000] := by
    decide +kernel
  obtain ⟨l, t, hlink⟩ := exists_tables (l := ofFiles [Sample.openFile "a.proto"])
    (by decide +kernel)
  rw [hlink] at hnumbers
  obtain ⟨m, hm, hnumbers⟩ := Option.map_eq_some_iff.mp hnumbers
  exact ⟨Sample.openFile "a.proto", ⟨_, SchemaFile.parse_openLexemes _⟩, l, t, m, hlink, hm,
    hnumbers, by simp [IsFieldNumber], by simp [IsFieldNumber]⟩

end Linker

end ProtoSchema
