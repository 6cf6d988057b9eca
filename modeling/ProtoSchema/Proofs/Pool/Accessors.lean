import ProtoSchema.Proofs.Pool.Lookups
import ProtoSchema.Proofs.Tables.Defaults

/-!
# Asking for defaults

A pool has an accessor for the explicit defaults of each class of types, and one for those of enums,
which falls back on the first value of the enum (`Pool.Accessor`). A field with a default gets it from
just one accessor, and one without a default gets nothing from any but that of enums. What it gets
suits the type and the literal of the field (`Linker.defaults_of_link`).
-/

namespace ProtoSchema

namespace Pool

/-- What can be asked for the default of a field. -/
inductive Accessor
  | explicit (c : DefaultClass)
  | enum
  deriving DecidableEq

/-- Asks for the default of a field. -/
def Accessor.ask : Accessor → Handle → Run (Option Substitute)
  | .explicit c, h => Option.map .value <$> explicitDefault c h
  | .enum, h => Option.map .enumValue <$> enumDefault h

/-- A default as a pool gives it out: an enum value by its handle. -/
def shown (p : Pool) : DefaultValue → Substitute
  | .enumValue place => .enumValue (p.handleAt .enumValue place)
  | d => .value d

/-- Just one accessor gives something for a field, and it gives the default. -/
def ShowsOnly (p : Pool) (t : FileTree) (h : Handle) (d : DefaultValue) : Prop :=
  ∃ a : Accessor, (a.ask h).on t p = (.ok (some (p.shown d)), p) ∧
    ∀ a', a' ≠ a → (Accessor.ask a' h).on t p = (.ok none, p)

/-- No accessor but that of enums gives anything for a field. -/
def ShowsNone (p : Pool) (t : FileTree) (h : Handle) : Prop :=
  ∀ a, a ≠ .enum → (Accessor.ask a h).on t p = (.ok none, p)

variable {t : FileTree} {p : Pool} {ts : Tables} {i : Nat} {r : FieldRecord} {d : DefaultValue}

/-! ## The answers of the accessors -/

section

variable (hopen : ¬ p.isClosed) (hlinked : p.linked = some ts) (hr : ts.fields[i]? = some r)
include hopen hlinked hr

theorem on_field : (field (p.handleAt .field i)).on t p = (.ok r, p) :=
  on_record hopen hlinked hr

theorem on_explicitDefault (c : DefaultClass) :
    (explicitDefault c (p.handleAt .field i)).on t p =
      (.ok (if r.type.defaultClass? = some c then r.default else none), p) := by
  rw [explicitDefault, on_bind, on_field hopen hlinked hr]
  rfl

theorem on_enumDefault_of_ne (htype : r.type ≠ .enum) :
    (enumDefault (p.handleAt .field i)).on t p = (.ok none, p) := by
  rw [enumDefault, on_bind, on_field hopen hlinked hr]
  simp only
  split
  · next htype' _ => exact absurd htype' htype
  · rfl

theorem on_enumDefault_of_default {enum place : Nat} (htype : r.type = .enum)
    (henum : r.enumType = some enum) (hd : r.default = some (.enumValue place)) :
    (enumDefault (p.handleAt .field i)).on t p = (.ok (some (p.handleAt .enumValue place)), p) := by
  rw [enumDefault, on_bind, on_field hopen hlinked hr]
  simp only [htype, henum, hd]
  rfl

/-- A default that suits an enum is given out by the accessor of enums only. -/
theorem showsOnly_of_enum {enum place : Nat} (htype : r.type = .enum)
    (henum : r.enumType = some enum) (hd : r.default = some (.enumValue place)) :
    p.ShowsOnly t (p.handleAt .field i) (.enumValue place) := by
  refine ⟨.enum, ?_, fun a ha => ?_⟩
  · rw [Accessor.ask, on_map, on_enumDefault_of_default hopen hlinked hr htype henum hd]
    rfl
  · cases a with
    | enum => exact absurd rfl ha
    | explicit c =>
      rw [Accessor.ask, on_map, on_explicitDefault hopen hlinked hr, htype]
      rfl

/-- A default of a type with a class is given out by the accessor of the class only. -/
theorem showsOnly_of_class {c : DefaultClass} (hclass : r.type.defaultClass? = some c)
    (hd : r.default = some d) (hvalue : p.shown d = .value d) :
    p.ShowsOnly t (p.handleAt .field i) d := by
  refine ⟨.explicit c, ?_, fun a ha => ?_⟩
  · rw [Accessor.ask, on_map, on_explicitDefault hopen hlinked hr, if_pos hclass, hd, hvalue]
    rfl
  · cases a with
    | enum =>
      have htype : r.type ≠ .enum := fun htype => by simp [htype, FieldType.defaultClass?] at hclass
      rw [Accessor.ask, on_map, on_enumDefault_of_ne hopen hlinked hr htype]
      rfl
    | explicit c' =>
      have hother : ¬ r.type.defaultClass? = some c' := by
        rw [hclass]
        exact fun hsame => ha (by rw [Option.some.inj hsame])
      rw [Accessor.ask, on_map, on_explicitDefault hopen hlinked hr, if_neg hother]
      rfl

theorem showsOnly_of_suits {literal : Value} (hd : r.default = some d)
    (hsuits : ts.Suits r literal d) : p.ShowsOnly t (p.handleAt .field i) d := by
  unfold Tables.Suits at hsuits
  cases htype : r.type with
  | unresolved | message | group => simp [htype] at hsuits
  | enum =>
    simp only [htype] at hsuits
    obtain ⟨_, enum, place, -, rfl, henum, -⟩ := hsuits
    exact showsOnly_of_enum hopen hlinked hr htype henum hd
  | int32 | sint32 | sfixed32 | int64 | sint64 | sfixed64 | uint32 | fixed32 | uint64 | fixed64 =>
    simp only [htype] at hsuits
    obtain ⟨_, -, rfl, -⟩ := hsuits
    exact showsOnly_of_class hopen hlinked hr (by rw [htype]; rfl) hd rfl
  | float | double =>
    simp only [htype] at hsuits
    obtain ⟨_, rfl⟩ := hsuits
    exact showsOnly_of_class hopen hlinked hr (by rw [htype]; rfl) hd rfl
  | bool =>
    simp only [htype] at hsuits
    obtain ⟨-, rfl⟩ | ⟨-, rfl⟩ := hsuits <;>
    exact showsOnly_of_class hopen hlinked hr (by rw [htype]; rfl) hd rfl
  | string =>
    simp only [htype] at hsuits
    obtain ⟨_, _, -, rfl, -⟩ := hsuits
    exact showsOnly_of_class hopen hlinked hr (by rw [htype]; rfl) hd rfl
  | bytes =>
    simp only [htype] at hsuits
    obtain ⟨_, -, rfl⟩ := hsuits
    exact showsOnly_of_class hopen hlinked hr (by rw [htype]; rfl) hd rfl

theorem showsNone_of_default (hd : r.default = none) : p.ShowsNone t (p.handleAt .field i) := by
  intro a ha
  cases a with
  | enum => exact absurd rfl ha
  | explicit c =>
    rw [Accessor.ask, on_map, on_explicitDefault hopen hlinked hr, hd, ite_self]
    rfl

end

end Pool

namespace Linker

variable {l : Linker} {files : List SchemaFile} {t : Tables}

/-- Whatever files are declared, if linking gives tables: a field with a default is declared in a file
of the older dialect with a literal that suits its type, and is not repeated; an open pool with these
tables gives the default out through just one accessor. Without a default, nothing is given out but
through the accessor of enums. -/
theorem defaults_of_link (h : (ofFiles files).link = (l, .ok t)) {i : Nat} {r : FieldRecord}
    (hr : t.fields[i]? = some r) :
    (∀ d, r.default = some d →
      (∃ f ∈ files, ∃ e o, f.Declares e r.extensionScope ∧ r.IsOf e ∧
        e.decl.option? "default" = some o ∧ f.dialect = .proto2 ∧ r.label ≠ .repeated ∧
        t.Suits r o.value.value d) ∧
      ∀ (tree : FileTree) (p : Pool), ¬ p.isClosed → p.linked = some t →
        p.ShowsOnly tree (p.handleAt .field i) d) ∧
    (r.default = none → ∀ (tree : FileTree) (p : Pool), ¬ p.isClosed → p.linked = some t →
      p.ShowsNone tree (p.handleAt .field i)) := by
  refine ⟨fun d hd => ?_, fun hnone tree p hopen hlinked =>
    Pool.showsNone_of_default hopen hlinked hr hnone⟩
  have hsuits := suits_of_link h hr hd
  refine ⟨hsuits, fun tree p hopen hlinked => ?_⟩
  obtain ⟨_, -, _, _, -, -, -, -, -, hsuits⟩ := hsuits
  exact Pool.showsOnly_of_suits hopen hlinked hr hd hsuits

/-- The color of a shape is an enum field with a default. -/
theorem defaults_of_link_color : ∃ l t r, (ofFiles [Sample.shapes]).link = (l, .ok t) ∧
    t.fields[3]? = some r ∧ r.default.isSome ∧
    (∀ d, r.default = some d →
      (∃ f ∈ [Sample.shapes], ∃ e o, f.Declares e r.extensionScope ∧ r.IsOf e ∧
        e.decl.option? "default" = some o ∧ f.dialect = .proto2 ∧ r.label ≠ .repeated ∧
        t.Suits r o.value.value d) ∧
      ∀ (tree : FileTree) (p : Pool), ¬ p.isClosed → p.linked = some t →
        p.ShowsOnly tree (p.handleAt .field 3) d) ∧
    (r.default = none → ∀ (tree : FileTree) (p : Pool), ¬ p.isClosed → p.linked = some t →
      p.ShowsNone tree (p.handleAt .field 3)) := by
  have hfield : ((ofFiles [Sample.shapes]).link.2.toOption.bind (·.fields[3]?)).map
      (·.default.isSome) = some true := by
    decide +kernel
  obtain ⟨l, t, hlink⟩ := exists_tables (l := ofFiles [Sample.shapes]) (by decide +kernel)
  obtain ⟨r, hr, hsome⟩ := Option.map_eq_some_iff.mp hfield
  rw [hlink] at hr
  exact ⟨l, t, r, hlink, hr, hsome, defaults_of_link hlink hr⟩

end Linker

end ProtoSchema
