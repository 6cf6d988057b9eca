import Mathlib.Tactic.ByContra
import Mathlib.Tactic.SplitIfs
import ProtoSchema.FileTree.Basic

/-!
# Where paths lead

A path without single points that leads to something in a file tree leads to the location that it
spells (`location?_of_find`): whatever is not there ends the walk, and nothing turns it elsewhere. So
what is made of the location of a path, like the way to it from another path, is the same for all
paths that lead to one file, and so is the last component (`name_of_find`).

The names of files and directories are no steps up, and hold no slash (`FileTree.Named`). So the path
from a directory to a file below it goes through the same components as the place of the file
(`relative?_below`), a path of such components is read back from its text (`ofText_text`), and two
files below one directory never go by one name.
-/

namespace ProtoSchema

namespace Path

/-- A path without single points. -/
def IsPlain (p : Path) : Prop := Path.here ∉ p.components

theorem isPlain_ofText (t : Text) : (ofText t).IsPlain := by
  intro hmem
  obtain ⟨component, hcomponent, hhere⟩ := List.mem_map.mp hmem
  have heffective := (List.mem_filter.mp hcomponent).2
  have hpoint : component = [.char '.'] := congrArg Text.units hhere
  rw [hpoint] at heffective
  exact absurd heffective (by decide)

theorem IsPlain.join {p q : Path} (hp : p.IsPlain) (hq : q.IsPlain) : (p.join q).IsPlain := by
  unfold Path.join
  split
  · exact hq
  · exact fun hmem => (List.mem_append.mp hmem).elim hp hq

theorem IsPlain.parent {p : Path} (hp : p.IsPlain) : p.parent.IsPlain :=
  fun hmem => hp (List.dropLast_subset _ hmem)

end Path

namespace FileTree

variable {t : FileTree} {p p' : Path} {l l' : Location} {cs : List Text} {c : Text}
  {bytes : List UInt8} {node : FileNode}

/-- The next component is followed from a directory. -/
theorem walk_cons (h : t.walk l (c :: cs) = .ok l') (hc : c ≠ Path.here) :
    t.nodeAt? l = some .directory ∧ t.walk (l.step c) cs = .ok l' := by
  rw [walk] at h
  split at h
  · cases h
  · cases h
  · next hdirectory =>
    rw [if_neg hc] at h
    split at h
    · cases h
    · exact ⟨hdirectory, h⟩

theorem walk_eq_foldl (hplain : Path.here ∉ cs) (h : t.walk l cs = .ok l') :
    l' = cs.foldl Location.step l := by
  induction cs generalizing l with
  | nil =>
    cases h
    rfl
  | cons c cs ih =>
    rw [List.mem_cons, not_or] at hplain
    exact ih hplain.2 (walk_cons h (Ne.symm hplain.1)).2

/-- A path that leads to something is not absolute, and each of its components has been followed. -/
theorem walk_of_find (h : t.find p = .ok (l, node)) :
    p.absolute = false ∧ t.walk .start p.components = .ok l ∧ t.nodeAt? l = some node := by
  unfold find at h
  split at h
  · cases h
  · next habsolute =>
    split at h
    · cases h
    · cases hwalk : t.walk .start p.components with
      | error e => simp [hwalk, bind, Except.bind] at h
      | ok l' =>
        simp only [hwalk, bind, Except.bind] at h
        split at h
        · next hnode =>
          cases h
          exact ⟨by simpa using fun hp => habsolute (.inl hp), rfl, hnode⟩
        · cases h

/-- A path without single points that leads to something leads where it says. -/
theorem location?_of_find (hplain : p.IsPlain) (h : t.find p = .ok (l, node)) :
    p.location? = some l := by
  obtain ⟨habsolute, hwalk, -⟩ := walk_of_find h
  rw [Path.location?, habsolute, walk_eq_foldl hplain hwalk]
  rfl

/-- How a path is reached from another one depends only on where it leads. -/
theorem relative?_eq_of_find (hp : p.IsPlain) (hp' : p'.IsPlain) (h : t.find p = .ok (l, node))
    (h' : t.find p' = .ok (l, node)) (root : Path) : root.relative? p = root.relative? p' := by
  simp only [Path.relative?, location?_of_find hp h, location?_of_find hp' h']

/-! ## Names of files -/

/-- All locations around a location are directories. -/
def Opens (t : FileTree) (l : Location) : Prop :=
  ∀ n < l.components.length, t.nodeAt? ⟨l.above, l.components.take n⟩ = some .directory

theorem opens_of_isEmpty (h : l.components = []) : t.Opens l := by
  simp [Opens, h]

/-- A directory whose surroundings are directories is left for another such location. -/
theorem Opens.step (h : t.Opens l) (hdirectory : t.nodeAt? l = some .directory) (c : Text) :
    t.Opens (l.step c) := by
  unfold Location.step
  split_ifs with hup hempty
  · exact opens_of_isEmpty rfl
  · intro n hn
    rw [List.length_dropLast] at hn
    have htake : l.components.dropLast.take n = l.components.take n := by
      rw [List.dropLast_eq_take, List.take_take, Nat.min_eq_left (Nat.le_of_lt hn)]
    simpa only [htake] using h n (by omega)
  · intro n hn
    rw [List.length_append, List.length_singleton] at hn
    rcases Nat.lt_succ_iff_lt_or_eq.mp hn with hn | rfl
    · rw [List.take_append_of_le_length (Nat.le_of_lt hn)]
      exact h n hn
    · simpa using hdirectory

/-- The location above a directory is a directory. -/
theorem Opens.nodeAt?_up (h : t.Opens l) : t.nodeAt? (l.step Path.up) = some .directory := by
  unfold Location.step
  rw [if_pos rfl]
  split_ifs with hempty
  · simp [nodeAt?]
  · have hlength : 0 < l.components.length := by
      simpa [List.length_pos_iff, List.isEmpty_iff] using hempty
    have hlast := h (l.components.length - 1) (by omega)
    rwa [← List.dropLast_eq_take] at hlast

/-- The last component that is followed leads to a directory, if it leads up, and else is the last
one of the location. -/
theorem last_of_walk (h : t.Opens l) (hplain : Path.here ∉ cs ++ [c])
    (hwalk : t.walk l (cs ++ [c]) = .ok l') :
    t.nodeAt? l' = some .directory ∨ l'.components.getLastD ⟨[]⟩ = c := by
  induction cs generalizing l with
  | nil =>
    have hc : c ≠ Path.here := by simpa [eq_comm] using hplain
    obtain ⟨hdirectory, hend⟩ := walk_cons hwalk hc
    obtain rfl := Except.ok.inj hend
    by_cases hup : c = Path.up
    · exact .inl (hup ▸ h.nodeAt?_up)
    · exact .inr (by simp [Location.step, hup])
  | cons c' cs ih =>
    rw [List.cons_append, List.mem_cons, not_or] at hplain
    obtain ⟨hdirectory, hrest⟩ := walk_cons hwalk (Ne.symm hplain.1)
    exact ih (h.step hdirectory c') hplain.2 hrest

/-- The name of a file is the last component of its location, whatever path leads to it. -/
theorem name_of_find (hplain : p.IsPlain) (h : t.find p = .ok (l, .file bytes)) :
    p.name = l.components.getLastD ⟨[]⟩ := by
  obtain ⟨-, hwalk, hnode⟩ := walk_of_find h
  unfold Path.IsPlain at hplain
  unfold Path.name
  rcases List.eq_nil_or_concat p.components with hnil | ⟨cs, c, hcs⟩
  · rw [hnil] at hwalk
    obtain rfl := Except.ok.inj hwalk
    cases hnode
  · rw [List.concat_eq_append] at hcs
    rw [hcs] at hwalk hplain ⊢
    have hstart : t.Opens .start := opens_of_isEmpty rfl
    rcases last_of_walk hstart hplain hwalk with hdirectory | hlast
    · rw [hnode] at hdirectory
      cases hdirectory
    · rw [hlast]
      simp

/-! ## Schema files -/

/-- No file or directory has a single point for a name. -/
def IsPlain (t : FileTree) : Prop := ∀ n ∈ t.nodes, Path.here ∉ n.1

/-- The paths of schema files are those of their directory with names of nodes behind. -/
theorem isPlain_of_mem_schemaFiles (ht : t.IsPlain) {root : Path} (hroot : root.IsPlain)
    (h : p ∈ t.schemaFiles root) : p.IsPlain := by
  unfold schemaFiles at h
  split at h
  · simp only [List.mem_mergeSort, List.mem_filterMap] at h
    obtain ⟨⟨key, node⟩, hmem, h⟩ := h
    split at h
    · cases h
    · split at h
      · obtain rfl := Option.some.inj h
        intro hhere
        rcases List.mem_append.mp hhere with hhere | hhere
        · exact hroot hhere
        · exact ht _ hmem (List.mem_of_mem_drop hhere)
      · cases h
  · simp at h

end FileTree

/-! ## Files below a directory -/

namespace Path

/-- A component that names a file or directory where it is. -/
structure IsEntry (component : Text) : Prop where
  effective : isEffective component.units
  ne_up : component ≠ Path.up
  slash : .char '/' ∉ component.units

instance (c : Text) : Decidable (IsEntry c) :=
  decidable_of_iff (isEffective c.units ∧ c ≠ Path.up ∧ .char '/' ∉ c.units)
    ⟨fun ⟨effective, ne_up, slash⟩ => ⟨effective, ne_up, slash⟩,
      fun ⟨effective, ne_up, slash⟩ => ⟨effective, ne_up, slash⟩⟩

theorem IsEntry.ne_here {c : Text} (h : IsEntry c) : c ≠ Path.here := by
  rintro rfl
  exact absurd h.effective (by decide)

variable {cs cs' : List Text}

theorem text_singleton (c : Text) : Path.text ⟨false, [c]⟩ = c := by
  simp [Path.text, Text.intercalate]

theorem text_cons (c : Text) (hcs : cs ≠ []) : (Path.text ⟨false, c :: cs⟩).units =
    c.units ++ .char '/' :: (Path.text ⟨false, cs⟩).units := by
  obtain ⟨c', cs, rfl⟩ := List.exists_cons_of_ne_nil hcs
  simp [Path.text, Text.intercalate]
  rfl

theorem length_toBytes_text_cons (c : Text) (hcs : cs ≠ []) :
    (Path.text ⟨false, c :: cs⟩).toBytes.length =
      c.toBytes.length + 1 + (Path.text ⟨false, cs⟩).toBytes.length := by
  have hslash : (TextUnit.toBytes (.char '/')).length = 1 := rfl
  rw [Text.toBytes, text_cons c hcs, List.flatMap_append, List.flatMap_cons, List.length_append,
    List.length_append, hslash, Text.toBytes, Text.toBytes, Nat.add_assoc]

theorem hasZero_text (h : ∀ c ∈ cs, hasZero c = false) : hasZero (Path.text ⟨false, cs⟩) = false := by
  induction cs with
  | nil => decide
  | cons c cs ih =>
    rw [List.forall_mem_cons] at h
    by_cases hcs : cs = []
    · rw [hcs, text_singleton]
      exact h.1
    · have hrest := ih h.2
      have hfirst := h.1
      simp only [hasZero, List.contains_eq_mem, decide_eq_false_iff_not] at hrest hfirst ⊢
      rw [text_cons c hcs, List.mem_append, List.mem_cons]
      rintro (hmem | hmem | hmem)
      · exact hfirst hmem
      · exact absurd hmem (by decide)
      · exact hrest hmem

/-- A text of some components joined by slashes starts with no slash. -/
theorem head?_intercalate (heffective : ∀ c ∈ cs, isEffective c.units)
    (hslash : ∀ c ∈ cs, .char '/' ∉ c.units) :
    (Text.intercalate "/" cs).units.head? ≠ some (.char '/') := by
  cases cs with
  | nil => simp [Text.intercalate]
  | cons c rest =>
    obtain ⟨u, us, hunits⟩ : ∃ u us, c.units = u :: us := by
      cases hunits : c.units with
      | nil => exact absurd (heffective c List.mem_cons_self) (by simp [isEffective, hunits])
      | cons u us => exact ⟨u, us, rfl⟩
    have hu : u ≠ .char '/' := fun heq => hslash c List.mem_cons_self (by simp [hunits, heq])
    cases rest with
    | nil => simpa [Text.intercalate, hunits] using hu
    | cons c' rest => simpa [Text.intercalate, hunits] using hu

/-- A path that is not absolute is read back from its text, also where it leads up. -/
theorem ofText_text_of_isEffective (heffective : ∀ c ∈ cs, isEffective c.units)
    (hslash : ∀ c ∈ cs, .char '/' ∉ c.units) : ofText (Path.text ⟨false, cs⟩) = ⟨false, cs⟩ := by
  by_cases hnil : cs = []
  · subst hnil
    decide
  have htext : Path.text ⟨false, cs⟩ = Text.intercalate "/" cs := by
    simp [Path.text, hnil]
  have hsplit : (Text.intercalate "/" cs).units.splitOn (.char '/') = cs.map Text.units :=
    List.splitOn_intercalate _ (List.forall_mem_map.mpr hslash) (by simpa using hnil)
  have hkept : (cs.map Text.units).filter isEffective = cs.map Text.units :=
    List.filter_eq_self.mpr (List.forall_mem_map.mpr heffective)
  rw [htext, ofText, hsplit, hkept, decide_eq_false (head?_intercalate heffective hslash)]
  simp [Function.comp_def]

theorem ofText_text (h : ∀ c ∈ cs, IsEntry c) : ofText (Path.text ⟨false, cs⟩) = ⟨false, cs⟩ :=
  ofText_text_of_isEffective (fun c hc => (h c hc).effective) fun c hc => (h c hc).slash

/-- Paths of names that are not absolute are told apart by their texts. -/
theorem text_inj (h : ∀ c ∈ cs, IsEntry c) (h' : ∀ c ∈ cs', IsEntry c)
    (htext : Path.text ⟨false, cs⟩ = Path.text ⟨false, cs'⟩) : cs = cs' := by
  have hpaths := congrArg ofText htext
  rw [ofText_text h, ofText_text h'] at hpaths
  exact congrArg components hpaths

end Path

/-- Names lead down. -/
theorem Location.foldl_step {cs : List Text} (h : ∀ c ∈ cs, c ≠ Path.up) (l : Location) :
    cs.foldl Location.step l = ⟨l.above, l.components ++ cs⟩ := by
  induction cs generalizing l with
  | nil => simp
  | cons c cs ih =>
    rw [List.forall_mem_cons] at h
    rw [List.foldl_cons, ih h.2, Location.step, if_neg h.1]
    simp

/-- A path is reached from a directory just if both lead somewhere and it lies below. -/
theorem Path.isSome_relative? {r path : Path} : (r.relative? path).isSome ↔
    ¬ Path.hasZero r.text ∧ ∃ l l', r.location? = some l ∧ path.location? = some l' ∧
      l.above = l'.above ∧ l.components <+: l'.components := by
  rw [Path.relative?]
  split_ifs with hzero
  · simp [hzero]
  · rcases r.location? with _ | l <;> rcases path.location? with _ | l' <;>
      simp only [Location.below?, Option.bind_eq_bind, Option.bind_some, Option.bind_none]
    · simp
    · simp
    · simp
    · by_cases hbelow : l.above = l'.above ∧ l.components <+: l'.components <;> simp [hzero, hbelow]

/-- Of directories that lie apart, only one has a path below it. -/
theorem Path.relative?_of_apart {r root path : Path} {l : Location} {cs : List Text}
    (hapart : r.relative? root = none ∧ root.relative? r = none) (hzero : ¬ Path.hasZero root.text)
    (hroot : root.location? = some l) (hpath : path.location? = some ⟨l.above, cs⟩)
    (hbelow : l.components <+: cs) : r.relative? path = none := by
  by_contra hsome
  obtain ⟨hzero', lr, l', hr, hpath', habove, hprefix⟩ :=
    isSome_relative?.mp (Option.isSome_iff_ne_none.mpr hsome)
  obtain rfl : l' = ⟨l.above, cs⟩ := Option.some.inj (hpath'.symm.trans hpath)
  -- both directories lie on the way to the path
  rcases List.prefix_or_prefix_of_prefix hprefix hbelow with hless | hless
  · have hreached := isSome_relative?.mpr ⟨hzero', lr, l, hr, hroot, habove, hless⟩
    simp [hapart.1] at hreached
  · have hreached := isSome_relative?.mpr ⟨hzero, l, lr, hroot, hr, habove.symm, hless⟩
    simp [hapart.2] at hreached

namespace FileTree

/-- All files and directories have names. -/
def Named (t : FileTree) : Prop := ∀ n ∈ t.nodes, ∀ c ∈ n.1, Path.IsEntry c

theorem Named.isPlain {t : FileTree} (h : t.Named) : t.IsPlain :=
  fun n hn hhere => (h n hn _ hhere).ne_here rfl

theorem mem_nodes_of_node?_key {t : FileTree} {key : List Text} {bytes : List UInt8}
    (h : t.node? key = some (.file bytes)) : (key, .file bytes) ∈ t.nodes := by
  unfold node? at h
  split at h
  · cases h
  · obtain ⟨n, hn, hbytes⟩ := Option.map_eq_some_iff.mp h
    have hkey : n.1 = key := of_decide_eq_true (List.find?_some hn :)
    exact hkey ▸ hbytes ▸ List.mem_of_find?_eq_some hn

section

variable {t : FileTree} {root path : Path} {place key : List Text} {node : FileNode}

/-- The path to a place below a directory. -/
def pathBelow (root : Path) (place key : List Text) : Path :=
  { root with components := root.components ++ key.drop place.length }

theorem mem_schemaFiles (hroot : t.find root = .ok (⟨0, place⟩, .directory)) :
    path ∈ t.schemaFiles root ↔ ∃ key bytes, (key, .file bytes) ∈ t.nodes ∧ place <+: key ∧
      isSchemaName (key.getLastD ⟨[]⟩) ∧ path = pathBelow root place key := by
  simp only [schemaFiles, hroot, List.mem_mergeSort, List.mem_filterMap]
  constructor
  · rintro ⟨⟨key, node⟩, hmem, hpath⟩
    cases node with
    | directory => cases hpath
    | file bytes =>
      simp only [Option.ite_none_right_eq_some, Option.some.injEq] at hpath
      obtain ⟨⟨hbelow, hname⟩, rfl⟩ := hpath
      exact ⟨key, bytes, hmem, List.isPrefixOf_iff_prefix.mp hbelow, hname, rfl⟩
  · rintro ⟨key, bytes, hmem, hbelow, hname, rfl⟩
    refine ⟨(key, .file bytes), hmem, ?_⟩
    simp only [if_pos (And.intro (List.isPrefixOf_iff_prefix.mpr hbelow) hname), pathBelow]

theorem isPlain_below (hplain : root.IsPlain) (hnames : ∀ c ∈ key, Path.IsEntry c) :
    (pathBelow root place key).IsPlain := by
  intro hhere
  rcases List.mem_append.mp hhere with hhere | hhere
  · exact hplain hhere
  · exact (hnames _ (List.mem_of_mem_drop hhere)).ne_here rfl

variable (hplain : root.IsPlain) (hroot : t.find root = .ok (⟨0, place⟩, node))
  (hbelow : place <+: key) (hnames : ∀ c ∈ key, Path.IsEntry c)
include hplain hroot hbelow hnames

/-- The path below a directory leads where it says. -/
theorem location?_below : (pathBelow root place key).location? = some ⟨0, key⟩ := by
  obtain ⟨habsolute, hwalk, -⟩ := walk_of_find hroot
  have hplace := walk_eq_foldl hplain hwalk
  obtain ⟨rest, rfl⟩ := hbelow
  have hrest : ∀ c ∈ rest, c ≠ Path.up := fun c hc => (hnames c (by simp [hc])).ne_up
  have hpath : (pathBelow root place (place ++ rest)).components = root.components ++ rest := by
    simp [pathBelow]
  have hsame : (pathBelow root place (place ++ rest)).absolute = root.absolute := rfl
  rw [Path.location?, hpath, hsame, habsolute, List.foldl_append, ← hplace,
    Location.foldl_step hrest]
  rfl

/-- The way from a directory to a place below it. -/
theorem relative?_below : root.relative? (pathBelow root place key) =
    some ⟨false, key.drop place.length⟩ := by
  have hzero : ¬ Path.hasZero root.text := by
    intro hzero
    simp [find, hzero] at hroot
  have hlocation := location?_of_find hplain hroot
  rw [Path.relative?, if_neg hzero]
  simp [hlocation, location?_below hplain hroot hbelow hnames, Location.below?, hbelow]

/-- What is found below a directory is what stands at the place. -/
theorem node?_of_find_below {l : Location} {found : FileNode}
    (hfound : t.find (pathBelow root place key) = .ok (l, found)) : t.node? key = some found := by
  have hpath : (pathBelow root place key).IsPlain := isPlain_below hplain hnames
  have hlocation := location?_of_find hpath hfound
  rw [location?_below hplain hroot hbelow hnames] at hlocation
  obtain rfl := Option.some.inj hlocation
  exact (walk_of_find hfound).2.2

end

/-! ## Paths that cannot be asked for -/

section

variable {t : FileTree} {p path root r : Path} {l : Location} {cs place key : List Text}
  {node : FileNode}

/-- No component that has been followed is too long. -/
theorem length_le_of_walk (hplain : Path.here ∉ cs) (h : t.walk l cs = .ok l') :
    ∀ c ∈ cs, c.toBytes.length ≤ Path.longestName := by
  induction cs generalizing l with
  | nil => simp
  | cons c cs ih =>
    rw [List.mem_cons, not_or] at hplain
    obtain ⟨hdirectory, hrest⟩ := walk_cons h (Ne.symm hplain.1)
    refine List.forall_mem_cons.mpr ⟨?_, ih hplain.2 hrest⟩
    rw [walk, hdirectory] at h
    simp only [if_neg (Ne.symm hplain.1)] at h
    split at h
    · cases h
    · next hshort => exact Nat.not_lt.mp hshort

theorem walk_ne_nameTooLong (h : ∀ c ∈ cs, c.toBytes.length ≤ Path.longestName) :
    t.walk l cs ≠ .error .nameTooLong := by
  induction cs generalizing l with
  | nil => simp [walk]
  | cons c cs ih =>
    rw [List.forall_mem_cons] at h
    rw [walk]
    split
    · simp
    · simp
    · rw [if_neg (Nat.not_lt.mpr h.1)]
      split_ifs <;> exact ih h.2

/-- A path that cannot be asked for although none of its components is too long is too long as a
whole. -/
theorem isTooLong_of_find (hshort : ∀ c ∈ p.components, c.toBytes.length ≤ Path.longestName)
    (h : t.find p = .error .nameTooLong) : Path.isTooLong p.text := by
  unfold find at h
  split at h
  · cases h
  split at h
  · assumption
  · have hwalk := walk_ne_nameTooLong (t := t) (l := .start) hshort
    cases hend : t.walk .start p.components with
    | error e =>
      simp only [hend, bind, Except.bind] at h
      obtain rfl := Except.error.inj h
      exact absurd hend hwalk
    | ok l =>
      simp only [hend, bind, Except.bind] at h
      split at h <;> cases h

theorem exists_find_of_isFile (h : t.isFile p) :
    ∃ l bytes, t.find p = .ok (l, .file bytes) := by
  unfold isFile at h
  split at h
  · next l bytes hfind => exact ⟨l, bytes, hfind⟩
  · cases h

theorem exists_find_of_lookUp (h : t.lookUp p = .ok (some node)) : ∃ l, t.find p = .ok (l, node) := by
  unfold lookUp at h
  split at h <;> cases h
  exact ⟨_, ‹_›⟩

/-- A path that leads to a file from one directory, but cannot be asked for from another one, is too
long from there as a whole. -/
theorem isTooLong_of_find_join (hplain : root.IsPlain) (hpath : path.IsPlain)
    (hfile : t.isFile (root.join path)) (hr : r.IsPlain) (hdirectory : t.lookUp r = .ok (some node))
    (h : t.find (r.join path) = .error .nameTooLong) : Path.isTooLong (r.join path).text := by
  obtain ⟨l, bytes, hfind⟩ := exists_find_of_isFile hfile
  obtain ⟨l', hfind'⟩ := exists_find_of_lookUp hdirectory
  obtain ⟨habsolute, hwalk, -⟩ := walk_of_find hfind
  obtain ⟨-, hwalk', -⟩ := walk_of_find hfind'
  have hshort := length_le_of_walk (hplain.join hpath) hwalk
  have hshort' := length_le_of_walk hr hwalk'
  have hrelative : path.absolute = false := by
    cases hcase : path.absolute with
    | false => rfl
    | true => simp [Path.join, hcase] at habsolute
  refine isTooLong_of_find (fun c hc => ?_) h
  simp only [Path.join, hrelative, Bool.false_eq_true, if_false] at hshort hc
  rcases List.mem_append.mp hc with hc | hc
  · exact hshort' c hc
  · exact hshort c (List.mem_append_right _ hc)

/-! ## Files that are found from a directory -/

/-- Schema files are known only below a directory that is not above the working directory. -/
theorem exists_place_of_mem_schemaFiles (h : path ∈ t.schemaFiles root) :
    ∃ place, t.find root = .ok (⟨0, place⟩, .directory) := by
  unfold schemaFiles at h
  split at h
  · next place hfind => exact ⟨place, hfind⟩
  · simp at h

/-- The way to a place below a directory leads on from there. -/
theorem join_ofText_below (hnames : ∀ c ∈ key, Path.IsEntry c) :
    root.join (.ofText (Path.text ⟨false, key.drop place.length⟩)) = pathBelow root place key := by
  rw [Path.ofText_text fun c hc => hnames c (List.mem_of_mem_drop hc)]
  simp [Path.join, pathBelow]

/-- A schema file that is reached from a directory through names is one of those below it. -/
theorem exists_schemaFile_of_isFile (hplain : root.IsPlain)
    (hroot : t.lookUp root = .ok (some .directory)) (hnames : ∀ c ∈ cs, Path.IsEntry c)
    (hcs : cs ≠ []) (hschema : isSchemaName (cs.getLastD ⟨[]⟩))
    (h : t.isFile (root.join (.ofText (Path.text ⟨false, cs⟩)))) :
    ∃ place bytes, t.find root = .ok (⟨0, place⟩, .directory) ∧
      (place ++ cs, .file bytes) ∈ t.nodes ∧ pathBelow root place (place ++ cs) ∈ t.schemaFiles root := by
  obtain ⟨l', bytes, hfind⟩ := exists_find_of_isFile h
  obtain ⟨l, hdirectory⟩ := exists_find_of_lookUp hroot
  obtain ⟨-, hwalk, -⟩ := walk_of_find hdirectory
  obtain ⟨-, hwalk', hnode⟩ := walk_of_find hfind
  have hcomponents : (root.join (.ofText (Path.text ⟨false, cs⟩))).components =
      root.components ++ cs := by
    simp [Path.ofText_text hnames, Path.join]
  have hpath : Path.here ∉ root.components ++ cs := by
    rw [List.mem_append, not_or]
    exact ⟨hplain, fun hhere => (hnames _ hhere).ne_here rfl⟩
  rw [hcomponents] at hwalk'
  have hplace := walk_eq_foldl hpath hwalk'
  rw [List.foldl_append, ← walk_eq_foldl hplain hwalk,
    Location.foldl_step fun c hc => (hnames c hc).ne_up] at hplace
  subst hplace
  -- nothing is known of what stands above the working directory but directories
  obtain ⟨above, place⟩ := l
  obtain rfl : above = 0 := by
    by_contra habove
    have hempty : (place ++ cs).isEmpty = false := by simp [hcs]
    simp [nodeAt?, habove, hempty] at hnode
  have hmem : (place ++ cs, .file bytes) ∈ t.nodes := mem_nodes_of_node?_key hnode
  refine ⟨place, bytes, hdirectory, hmem, (mem_schemaFiles hdirectory).mpr ?_⟩
  refine ⟨place ++ cs, bytes, hmem, List.prefix_append .., ?_, rfl⟩
  obtain ⟨cs, c, rfl⟩ := (List.eq_nil_or_concat cs).resolve_left hcs
  rw [List.concat_eq_append, ← List.append_assoc, List.getLastD_concat]
  simpa using hschema

end

end FileTree

end ProtoSchema
