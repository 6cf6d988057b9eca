import ProtoSchema.Proofs.Linker.Hidden
import ProtoSchema.Proofs.Linker.Innermost
import ProtoSchema.Proofs.Linker.Retold

/-!
# Scopes are taken

Nothing is defined inside a scope before something is defined under the name of the scope, be it a
package, a message or a service. So in a linker that files which were read have been declared to, the
scope of each full name is the outermost one or a full name itself (`founded_ofFiles`). Every step of
declaring keeps this for the scope that it works in (`Founds`).
-/

namespace ProtoSchema

open Dotted

/-! ## Scopes of names -/

namespace Dotted

variable {scope name : String}

theorem words_of_point_notMem (h : '.' ∉ name.toList) : words name = [name] := by
  have hnone : ∀ l ∈ [name.toList], '.' ∉ l := by simpa using h
  have hsingle : name.toList.splitOn '.' = [name.toList] := by
    simpa using List.splitOn_intercalate '.' hnone (List.cons_ne_nil _ _)
  rw [words, hsingle, List.map_singleton, String.ofList_toList]

theorem words_point (scope name : String) :
    words (scope ++ "." ++ name) = words scope ++ words name := by
  have hlist : (scope ++ "." ++ name).toList = scope.toList ++ '.' :: name.toList := by simp
  have hsplit : (scope.toList ++ '.' :: name.toList).splitOn '.' =
      scope.toList.splitOn '.' ++ name.toList.splitOn '.' :=
    List.splitOnP_append_cons scope.toList name.toList rfl
  rw [words, hlist, hsplit, List.map_append, words, words]

/-- A name without points is cut off what stands before it. -/
theorem enclosing_point (h : '.' ∉ name.toList) : enclosing (scope ++ "." ++ name) = scope := by
  rw [enclosing, words_point, words_of_point_notMem h, List.dropLast_concat, ofWords_words]

theorem enclosing_of_point_notMem (h : '.' ∉ name.toList) : enclosing name = "" := by
  rw [enclosing, words_of_point_notMem h]
  rfl

/-- A name without points is cut off its full name. -/
theorem enclosing_join (h : '.' ∉ name.toList) : enclosing (join scope name) = scope := by
  by_cases hscope : scope = ""
  · rw [hscope, join_empty, enclosing_of_point_notMem h]
  · rw [join_of_ne_empty hscope, enclosing_point h]

theorem IsWord.point_notMem (h : IsWord name) : '.' ∉ name.toList :=
  point_notMem_of_isPart h.isPart

/-- The last of some words is cut off a name that is made of them. -/
theorem enclosing_ofWords (ws : List String) (h : '.' ∉ name.toList) :
    enclosing (ofWords (ws ++ [name])) = ofWords ws := by
  by_cases hws : ws = []
  · rw [hws, List.nil_append, ofWords, String.intercalate_singleton, enclosing_of_point_notMem h]
    rfl
  · rw [ofWords_append_singleton hws, enclosing_point h]

/-- A package is opened behind the packages around it, from the outermost one on. -/
theorem packages_eq (h : name ≠ "") : packages name = (words name).inits.tail.map ofWords := by
  rw [packages, if_neg (by simpa using h), openings_eq_inits, ← List.map_reverse]
  congr 1
  rw [← List.tail_reverse, List.reverse_reverse]

/-- The words of a reference have no points. -/
theorem IsReference.point_notMem_words (h : IsReference name) : ∀ w ∈ words name, '.' ∉ w.toList := by
  have hpath {path : String} (hpath : IsPath path) : ∀ w ∈ words path, '.' ∉ w.toList := by
    obtain ⟨ws, hne, hws, rfl⟩ := hpath
    rw [words_ofWords hne fun w hw => (hws w hw).isPart]
    exact fun w hw => (hws w hw).point_notMem
  rcases h with h | ⟨path, h, rfl⟩
  · exact hpath h
  · have hwords : words ("." ++ path) = words "" ++ words path := by
      simpa using words_point "" path
    rw [hwords, words_of_point_notMem (by simp)]
    simpa using hpath h

end Dotted

namespace Linker

variable {l l' l'' : Linker} {file : FileScope} {scope name : String} {parent : Option Nat}

/-! ## What is open -/

/-- A scope is open if it is the outermost one, or its name is taken. -/
def Opens (l : Linker) (scope : String) : Prop := scope = "" ∨ (l.definition? scope).isSome

/-- Whatever is defined stands in a scope that is open. -/
def Founded (l : Linker) : Prop := ∀ d ∈ l.definitions, l.Opens (enclosing d.fullName)

/-- Nothing is taken back, and what is defined besides stands in open scopes, provided that `scope`
was open. -/
structure Founds (scope : String) (l l' : Linker) : Prop where
  grown : l.definitions <+: l'.definitions
  founded : l.Founded → l.Opens scope → l'.Founded

theorem isSome_definition?_of_mem {d : Definition} (hd : d ∈ l.definitions) :
    (l.definition? d.fullName).isSome := by
  rw [Option.isSome_iff_ne_none, ne_eq, definition?_eq_none, not_not]
  exact List.mem_map_of_mem hd

theorem Opens.mono (h : l.Opens scope) (hgrown : l.definitions <+: l'.definitions) :
    l'.Opens scope := by
  refine h.imp_right fun hsome => ?_
  rw [Option.isSome_iff_ne_none, ne_eq, definition?_eq_none, not_not] at hsome ⊢
  exact (hgrown.map _).subset hsome

namespace Founds

theorem of_eq (h : l'.definitions = l.definitions) : Founds scope l l' := by
  refine ⟨h ▸ List.prefix_rfl, fun hl _ d hd => ?_⟩
  exact (hl d (h ▸ hd)).mono (h ▸ List.prefix_rfl)

theorem refl (l : Linker) : Founds scope l l := of_eq rfl

theorem trans (h : Founds scope l l') (h' : Founds scope l' l'') : Founds scope l l'' :=
  ⟨h.grown.trans h'.grown, fun hl hscope => h'.founded (h.founded hl hscope) (hscope.mono h.grown)⟩

theorem foldl {α : Type} {step : Linker → α → Linker} {xs : List α}
    (h : ∀ l, ∀ x ∈ xs, Founds scope l (step l x)) (l : Linker) :
    Founds scope l (xs.foldl step l) := by
  induction xs generalizing l with
  | nil => exact refl l
  | cons x xs ih =>
    exact (h l x (by simp)).trans (ih (fun l y hy => h l y (by simp [hy])) (step l x))

/-- One definition is entered that stands in the scope. -/
theorem enter {d : Definition} (h : l'.definitions = l.definitions ++ [d])
    (hd : enclosing d.fullName = scope) : Founds scope l l' := by
  have hgrown : l.definitions <+: l'.definitions := h ▸ List.prefix_append _ _
  refine ⟨hgrown, fun hl hscope e he => ?_⟩
  rw [h, List.mem_append, List.mem_singleton] at he
  rcases he with he | rfl
  · exact (hl e he).mono hgrown
  · exact (hd ▸ hscope).mono hgrown

/-- Something is entered in the scope, and then what stands in it, in its own scope. -/
theorem nest {d : Definition} (h : l'.definitions = l.definitions ++ [d])
    (hd : enclosing d.fullName = scope) (hinside : Founds d.fullName l' l'') :
    Founds scope l l'' := by
  have hentered : Founds scope l l' := .enter h hd
  have hopen : l'.Opens d.fullName := .inr (isSome_definition?_of_mem (h ▸ by simp))
  exact ⟨hentered.grown.trans hinside.grown,
    fun hl hscope => hinside.founded (hentered.founded hl hscope) hopen⟩

end Founds

/-! ## Declarations stand in their scopes -/

theorem founds_declareEnum (l : Linker) (file : FileScope) (parent : Option Nat) {e : EnumDecl}
    (h : e.Worded) : Founds scope l (l.declareEnum file scope parent e) := by
  cases hfree : l.definition? (join scope e.name) with
  | none =>
    obtain ⟨rs, -, heq⟩ := declareEnum_of_free file parent e hfree
    refine .enter (d := ⟨.enum, join scope e.name, some file.name, some l.enums.size⟩) ?_
      (enclosing_join h.name.point_notMem)
    rw [heq]
    exact congrArg Inventory.definitions (inventory_enterEnum (l.noteAll rs) file scope parent e)
  | some old =>
    obtain ⟨p, heq⟩ := declareEnum_of_taken file parent e hfree
    exact .of_eq (by rw [heq]; rfl)

theorem founds_declareExtends (l : Linker) (file : FileScope) (blocks : List ExtendDecl) :
    Founds scope l (blocks.foldl (fun l e => l.declareExtend file scope e) l) :=
  .foldl (fun l e _ => show Founds scope l (l.declareExtend file scope e) from .of_eq rfl) l

theorem founds_declareField (l : Linker) (file : FileScope) (owner : Nat) (rules : FieldRules)
    {f : FieldDecl} (h : f.Worded) :
    Founds scope l (l.declareField file owner scope rules f) := by
  unfold declareField
  cases rules.problem? f with
  | some p => exact .of_eq rfl
  | none =>
    cases f.shape with
    | named | group => exact .of_eq rfl
    | map key value position =>
      rcases declareMapEntry_cases l file owner scope f key value position with
        ⟨-, heq⟩ | ⟨-, p, heq⟩
      · simp only [heq]
        exact .enter (congrArg Inventory.definitions
          (inventory_enterMessage l file scope (some owner) (MapEntry.name f.name) true []))
          (enclosing_join (point_notMem_of_isPart (MapEntry.isPart_name h.name)))
      · simp only [heq]
        exact .of_eq rfl

theorem founds_declareFields (l : Linker) (file : FileScope) (owner : Nat) (rules : FieldRules)
    {fs : List FieldDecl} (h : ∀ f ∈ fs, f.Worded) :
    Founds scope l (l.declareFields file owner scope rules fs) := by
  induction fs generalizing l rules with
  | nil => exact .refl l
  | cons f fs ih =>
    obtain ⟨hf, hfs⟩ := List.forall_mem_cons.mp h
    rw [declareFields_cons]
    exact (founds_declareField l file owner rules hf).trans (ih _ _ hfs)

mutual

theorem founds_declareMessage (l : Linker) (file : FileScope) (scope : String)
    (parent : Option Nat) : (m : MessageDecl) → m.Forall MessageDecl.Worded →
      Founds scope l (l.declareMessage file scope parent m)
  | ⟨name, fields, messages, enums, extendBlocks, oneofs, options, extensionRanges,
      reservedRanges, reservedNames, position⟩, h => by
    let m : MessageDecl := ⟨name, fields, messages, enums, extendBlocks, oneofs, options,
      extensionRanges, reservedRanges, reservedNames, position⟩
    rw [MessageDecl.Forall] at h
    obtain ⟨hm, hmessages⟩ := h
    rcases declareMessage_cases l file scope parent m with ⟨-, heq⟩ | ⟨-, p, heq⟩
    · have hinside (entered : Linker) : Founds (join scope name) entered
          (entered.declareBody file (join scope name) l.messages.size m) :=
        (((Founds.foldl (fun l e he => founds_declareEnum l file _ (hm.enums e he)) entered).trans
          (founds_declareMessages _ file _ _ messages hmessages)).trans
            (founds_declareFields _ file _ _ hm.fields)).trans
              (founds_declareExtends _ file extendBlocks)
      rw [heq]
      exact .nest (congrArg Inventory.definitions
        (inventory_enterMessage l file scope parent name false extensionRanges))
        (enclosing_join hm.name.point_notMem) (hinside _)
    · exact .of_eq (by rw [heq]; rfl)

theorem founds_declareMessages (l : Linker) (file : FileScope) (scope : String)
    (parent : Option Nat) : (ms : List MessageDecl) →
      MessageDecl.ForallIn MessageDecl.Worded ms →
      Founds scope l (l.declareMessages file scope parent ms)
  | [], _ => by
    rw [declareMessages]
    exact .refl l
  | m :: ms, h => by
    rw [MessageDecl.ForallIn] at h
    rw [declareMessages]
    exact (founds_declareMessage l file scope parent m h.1).trans
      (founds_declareMessages _ file scope parent ms h.2)

end

theorem founds_declareMethod (l : Linker) (file : FileScope) (service : String) {m : MethodDecl}
    (h : IsWord m.name) : Founds service l (l.declareMethod file service m) := by
  rcases declareMethod_cases l file service m with ⟨-, heq⟩ | ⟨-, p, heq⟩
  · exact .enter (d := ⟨.method, join service m.name, some file.name, some l.methods.size⟩)
      (by rw [heq]; rfl) (enclosing_join h.point_notMem)
  · exact .of_eq (by rw [heq]; rfl)

theorem founds_declareService (l : Linker) (file : FileScope) {s : ServiceDecl} (h : s.Worded) :
    Founds file.package l (l.declareService file s) := by
  rcases declareService_cases l file s with ⟨-, heq⟩ | ⟨-, p, heq⟩
  · rw [heq]
    exact .nest (d := ⟨.service, join file.package s.name, some file.name, none⟩) rfl
      (enclosing_join h.name.point_notMem)
      (.foldl (fun l m hm => founds_declareMethod l file _ (h.methods m hm)) _)
  · exact .of_eq (by rw [heq]; rfl)

/-! ## Packages and files -/

/-- Opening a package inside of an open one leaves it open. -/
theorem founded_definePackage (file : FileScope) (hl : l.Founded)
    (hscope : l.Opens (enclosing name)) :
    let l' := (l.define file none ⟨.package, name, none, none⟩).1
    l'.Founded ∧ l'.Opens name := by
  intro l'
  have htaken {old : Definition} (h : l.definition? name = some old)
      (heq : l'.definitions = l.definitions) : l'.Founded ∧ l'.Opens name := by
    refine ⟨(Founds.of_eq heq).founded hl hscope, .inr ?_⟩
    rw [definition?, heq, ← definition?, h, Option.isSome_some]
  cases h : l.definition? name with
  | none =>
    have heq : l' = l.enter ⟨.package, name, none, none⟩ :=
      congrArg Prod.fst (define_of_free (d := ⟨.package, name, none, none⟩) h)
    have hentered : l'.definitions = l.definitions ++ [⟨.package, name, none, none⟩] := by
      rw [heq]
      rfl
    refine ⟨(Founds.enter hentered rfl).founded hl hscope, .inr ?_⟩
    exact isSome_definition?_of_mem (d := ⟨.package, name, none, none⟩) (hentered ▸ by simp)
  | some old =>
    by_cases hkind : old.kind = .package
    · exact htaken h (by rw [show l' = l from congrArg Prod.fst (define_of_package h hkind rfl)])
    · obtain ⟨p, heq⟩ := define_of_taken (d := ⟨.package, name, none, none⟩) file none h
        fun hkinds => hkind hkinds.1
      exact htaken h (by rw [show l' = _ from congrArg Prod.fst heq]; rfl)

/-- Packages are opened from the outside inwards. -/
theorem founded_definePackages (file : FileScope) (hl : l.Founded) {ws : List String}
    (h : ∀ w ∈ ws, '.' ∉ w.toList) :
    let l' := (ws.inits.tail.map ofWords).foldl
      (fun l name => (l.define file none ⟨.package, name, none, none⟩).1) l
    l'.Founded ∧ l'.Opens (ofWords ws) := by
  induction ws using List.reverseRecOn with
  | nil => exact ⟨hl, .inl rfl⟩
  | append_singleton ws w ih =>
    obtain ⟨hws, hw⟩ := List.forall_mem_append.mp h
    obtain ⟨hfounded, hopen⟩ := ih hws
    have hinits : (ws ++ [w]).inits.tail = ws.inits.tail ++ [ws ++ [w]] := by
      cases ws <;> simp [List.inits_append]
    rw [hinits, List.map_append, List.foldl_append]
    exact founded_definePackage file hfounded (by rwa [enclosing_ofWords ws (by simpa using hw)])

/-- Behind its packages the scope of a file is open. -/
theorem founded_declarePackage (hl : l.Founded) (h : ∀ w ∈ words file.package, '.' ∉ w.toList) :
    (l.declarePackage file).Founded ∧ (l.declarePackage file).Opens file.package := by
  by_cases hempty : file.package = ""
  · refine ⟨?_, .inl hempty⟩
    rw [declarePackage, hempty]
    exact hl
  · have hopened := founded_definePackages file hl h
    rwa [ofWords_words, ← packages_eq hempty] at hopened

/-- Declaring a file that is named by words leaves everything in open scopes. -/
theorem Founded.declare (hl : l.Founded) {f : SchemaFile} (h : f.Worded) : (l.declare f).Founded := by
  have hwords : ∀ w ∈ words f.scope.package, '.' ∉ w.toList := by
    cases hpackage : f.package with
    | none => simp [SchemaFile.scope, hpackage, words_of_point_notMem]
    | some p =>
      have hp : f.scope.package = p := by simp [SchemaFile.scope, hpackage]
      exact hp ▸ (h.package p hpackage).point_notMem_words
  have hadded : (l.addFile f.scope).Founded :=
    (show Founds "" l (l.addFile f.scope) from
      .of_eq (by unfold addFile; split <;> rfl)).founded hl (.inl rfl)
  obtain ⟨hstart, hopen⟩ := founded_declarePackage hadded hwords
  have hbody (l : Linker) : Founds f.scope.package l (f.services.foldl
      (fun l s => l.declareService f.scope s) (f.extendBlocks.foldl
        (fun l e => l.declareExtend f.scope f.scope.package e) (f.enums.foldl
          (fun l e => l.declareEnum f.scope f.scope.package none e)
          (l.declareMessages f.scope f.scope.package none f.messages)))) :=
    (((founds_declareMessages l _ _ _ f.messages h.messages).trans
      (.foldl (fun l e he => founds_declareEnum l _ _ (h.enums e he)) _)).trans
        (founds_declareExtends _ _ f.extendBlocks)).trans
          (.foldl (fun l s hs => founds_declareService l _ (h.services s hs)) _)
  exact (hbody _).founded hstart hopen

/-- Whatever files were read and declared, each full name stands in the outermost scope, or inside of
a full name. -/
theorem founded_ofFiles {files : List SchemaFile} (hread : ∀ f ∈ files, f.Worded) :
    (ofFiles files).Founded := by
  induction files using List.reverseRecOn with
  | nil => simp [Founded, ofFiles, empty]
  | append_singleton files f ih =>
    rw [ofFiles_append_singleton]
    exact (ih fun g hg => hread g (by simp [hg])).declare (hread f (by simp))

end Linker

end ProtoSchema
