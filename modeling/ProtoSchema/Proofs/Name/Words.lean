import ProtoSchema.Name.Dotted
import ProtoSchema.Proofs.Token.Whole

/-!
# Words and paths

A name inside a scope is the scope, a point and the name; so a name that is not empty makes a full
name that is not empty, and the scope can be read off the full name. A word is a lexeme of names, and
a path consists of words with points between them. A path has no point in front, so that a lookup,
which ignores points in front of a name, finds it as it is (`stripPoints_eq_self`). A name inside a
path is a path again (`IsPath.join`).
-/

namespace ProtoSchema

/-! ## Joined names -/

namespace Dotted

variable {scope scope' name : String}

theorem join_of_ne_empty (h : scope ≠ "") (name : String) :
    join scope name = scope ++ "." ++ name := by
  rw [join, if_neg (by simpa using h)]

theorem join_empty (name : String) : join "" name = name := rfl

theorem join_ne_empty (h : name ≠ "") : join scope name ≠ "" := by
  unfold join
  split
  · exact h
  · rw [Ne, String.append_eq_empty_iff]
    exact fun hempty => h hempty.2

/-- The scope of a name is told by the full name. -/
theorem join_left_injective (h : join scope name = join scope' name) : scope = scope' := by
  have hlength (s : String) (hs : s ≠ "") : join s name ≠ join "" name := by
    intro heq
    rw [join_of_ne_empty hs, join_empty] at heq
    have hle := congrArg String.length heq
    simp only [String.length_append] at hle
    have hpoint : ".".length = 1 := rfl
    omega
  by_cases hs : scope = ""
  · by_cases hs' : scope' = ""
    · rw [hs, hs']
    · exact absurd (hs ▸ h).symm (hlength scope' hs')
  · by_cases hs' : scope' = ""
    · exact absurd (hs' ▸ h) (hlength scope hs)
    · rw [join_of_ne_empty hs, join_of_ne_empty hs', String.append_left_inj,
        String.append_left_inj] at h
      exact h

/-- A name that starts with a point is a full name. -/
theorem candidates_of_point (scope name : String) : candidates scope ("." ++ name) = [name] := by
  simp [candidates]

end Dotted

/-- The name of a map entry is not empty. -/
theorem MapEntry.name_ne_empty (field : String) : MapEntry.name field ≠ "" := by
  rw [MapEntry.name, Ne, String.append_eq_empty_iff]
  exact fun h => absurd h.2 (by decide)

namespace Dotted

/-- One word. -/
def IsWord (name : String) : Prop := name.toList ∈ Terminal.language .name

/-- A name that could be the end of a word. -/
def IsPart (name : String) : Prop := name ≠ "" ∧ ∀ c ∈ name.toList, Lexeme.isNamePart c = true

/-- Words with points between them. -/
def IsPath (name : String) : Prop := ∃ ws, ws ≠ [] ∧ (∀ w ∈ ws, IsWord w) ∧ name = ofWords ws

/-- A path, or one behind a point. -/
def IsReference (name : String) : Prop := IsPath name ∨ ∃ path, IsPath path ∧ name = "." ++ path

/-- The scope of a path: the outermost one or a path. -/
def IsScope (name : String) : Prop := name = "" ∨ IsPath name

/-- A point stands in front of a name. -/
def IsPointed (name : String) : Prop := name.toList.head? = some '.'

variable {scope name : String} {ws : List String}

instance : Decidable (IsWord name) :=
  decidable_of_iff (Lexeme.name? name.toList = some name.toList)
    ⟨Lexeme.mem_names_of_name?, fun h => by simpa using @Lexeme.name?_append _ [] h (by simp)⟩

instance : Decidable (IsPointed name) := inferInstanceAs (Decidable (_ = _))

/-! ## Characters -/

theorem IsWord.exists_cons (h : IsWord name) : ∃ c cs, name.toList = c :: cs ∧
    Lexeme.isNameStart c = true ∧ ∀ x ∈ cs, Lexeme.isNamePart x = true :=
  Lexeme.exists_of_mem_names h

theorem isNamePart_of_start {c : Char} (h : Lexeme.isNameStart c = true) :
    Lexeme.isNamePart c = true := by
  simp only [Lexeme.isNameStart, Lexeme.isNamePart, Char.isAlphanum, Bool.or_eq_true,
    decide_eq_true_eq] at h ⊢
  exact h.imp_left .inl

theorem IsWord.isPart (h : IsWord name) : IsPart name := by
  obtain ⟨c, cs, hname, hc, hcs⟩ := h.exists_cons
  refine ⟨fun hempty => ?_, ?_⟩
  · simp [hempty] at hname
  · rw [hname]
    exact List.forall_mem_cons.mpr ⟨isNamePart_of_start hc, hcs⟩

/-- A word is made of characters of words and starts with one that may come first. -/
theorem isWord_of_cons {c : Char} {cs : List Char} (hname : name.toList = c :: cs)
    (hc : Lexeme.isNameStart c = true) (hcs : ∀ x ∈ cs, Lexeme.isNamePart x = true) :
    IsWord name := by
  have hread : Lexeme.name? name.toList = some name.toList := by
    rw [hname, Lexeme.name?, if_pos hc, List.takeWhile_eq_self_iff.mpr hcs]
  exact Lexeme.mem_names_of_name? hread

theorem point_notMem_of_isPart (h : IsPart name) : '.' ∉ name.toList := fun hmem =>
  absurd (h.2 '.' hmem) (by decide)

/-- What is checked for the first 128 characters holds of all within ASCII. -/
theorem of_ascii {p q : Char → Bool}
    (h : ∀ n : Fin 128, p (Char.ofNat n) = true → q (Char.ofNat n) = true) {c : Char}
    (hc : c.toNat < 128) (hp : p c = true) : q c = true := by
  have hn := h ⟨c.toNat, hc⟩
  rw [Char.ofNat_toNat] at hn
  exact hn hp

theorem toNat_lt_of_isNamePart {c : Char} (h : Lexeme.isNamePart c = true) : c.toNat < 128 := by
  simp only [Lexeme.isNamePart, Char.isAlphanum, Char.isAlpha, Char.isUpper, Char.isLower,
    Char.isDigit, Bool.or_eq_true, Bool.and_eq_true, decide_eq_true_eq] at h
  rcases h with ((⟨-, h⟩ | ⟨-, h⟩) | ⟨-, h⟩) | rfl
  · exact lt_of_le_of_lt (show c.toNat ≤ 90 from h) (by decide)
  · exact lt_of_le_of_lt (show c.toNat ≤ 122 from h) (by decide)
  · exact lt_of_le_of_lt (show c.toNat ≤ 57 from h) (by decide)
  · decide

/-- The small letters of a word make up a word. -/
theorem IsWord.toLower (h : IsWord name) : IsWord name.toLower := by
  have hstart : ∀ n : Fin 128, Lexeme.isNameStart (Char.ofNat n) = true →
      Lexeme.isNameStart (Char.toLower (Char.ofNat n)) = true := by
    decide
  have hpart : ∀ n : Fin 128, Lexeme.isNamePart (Char.ofNat n) = true →
      Lexeme.isNamePart (Char.ofNat n).toLower = true := by
    decide
  obtain ⟨c, cs, hname, hc, hcs⟩ := h.exists_cons
  refine @isWord_of_cons _ c.toLower (cs.map Char.toLower) ?_ ?_ ?_
  · simp [String.toLower, hname]
  · have hascii := toNat_lt_of_isNamePart (isNamePart_of_start hc)
    exact of_ascii (q := fun c => Lexeme.isNameStart c.toLower) hstart hascii hc
  · rintro x hx
    obtain ⟨y, hy, rfl⟩ := List.mem_map.mp hx
    have hascii := toNat_lt_of_isNamePart (hcs y hy)
    exact of_ascii (q := fun c => Lexeme.isNamePart c.toLower) hpart hascii (hcs y hy)

/-! ## Paths -/

theorem IsWord.isPath (h : IsWord name) : IsPath name :=
  ⟨[name], by simp, by simpa using h, by simp [ofWords, String.intercalate_singleton]⟩

theorem ofWords_append_singleton (hne : ws ≠ []) (name : String) :
    ofWords (ws ++ [name]) = ofWords ws ++ "." ++ name := by
  obtain ⟨w, ws, rfl⟩ := List.exists_cons_of_ne_nil hne
  induction ws generalizing w with
  | nil => simp [ofWords]
  | cons w' ws ih =>
    apply String.toList_injective
    have hrest := congrArg String.toList (ih w' (by simp))
    simp only [ofWords, String.toList_intercalate, String.toList_append, List.map_append,
      List.map_cons, List.cons_append, List.map_nil] at hrest ⊢
    rw [List.intercalate_cons_cons, hrest, List.intercalate_cons_cons]
    simp

theorem ofWords_ne_empty (hne : ws ≠ []) (h : ∀ w ∈ ws, IsWord w) : ofWords ws ≠ "" := by
  obtain ⟨w, ws, rfl⟩ := List.exists_cons_of_ne_nil hne
  obtain ⟨c, cs, hw, -, -⟩ := (h w (by simp)).exists_cons
  intro hempty
  have hlist := congrArg String.toList hempty
  cases ws with
  | nil => simp [ofWords, hw] at hlist
  | cons w' ws => simp [ofWords, String.toList_intercalate, hw] at hlist

theorem IsPath.ne_empty (h : IsPath name) : name ≠ "" := by
  obtain ⟨ws, hne, hws, rfl⟩ := h
  exact ofWords_ne_empty hne hws

/-- A word inside a scope is a path. -/
theorem IsScope.join (h : IsScope scope) (hname : IsWord name) : IsPath (join scope name) := by
  rcases h with rfl | h
  · exact hname.isPath
  · rw [join_of_ne_empty h.ne_empty]
    obtain ⟨ws, hne, hws, rfl⟩ := h
    refine ⟨ws ++ [name], by simp, ?_, (ofWords_append_singleton hne name).symm⟩
    exact List.forall_mem_append.mpr ⟨hws, by simpa using hname⟩

/-- The words of a path are those that it is made of. -/
theorem words_ofWords (hne : ws ≠ []) (h : ∀ w ∈ ws, IsPart w) : words (ofWords ws) = ws := by
  have hpoints : ∀ l ∈ ws.map String.toList, '.' ∉ l := by
    rintro l hl
    obtain ⟨w, hw, rfl⟩ := List.mem_map.mp hl
    exact point_notMem_of_isPart (h w hw)
  rw [words, ofWords, String.toList_intercalate]
  rw [show ".".toList = ['.'] from rfl, List.splitOn_intercalate '.' hpoints (by simpa using hne)]
  simp

/-! ## Characters of full names -/

/-- A name of words and points. -/
def IsDotted (name : String) : Prop :=
  ∀ c ∈ name.toList, Lexeme.isNamePart c = true ∨ c = '.'

theorem IsPart.isDotted (h : IsPart name) : IsDotted name := fun c hc => .inl (h.2 c hc)

theorem IsDotted.join (h : IsDotted scope) (hname : IsDotted name) :
    IsDotted (Dotted.join scope name) := by
  unfold Dotted.join
  split_ifs
  · exact hname
  · intro c hc
    simp only [String.toList_append, List.mem_append] at hc
    rcases hc with (hc | hc) | hc
    · exact h c hc
    · exact .inr (by simpa using hc)
    · exact hname c hc

theorem isDotted_ofWords (h : ∀ w ∈ ws, IsWord w) : IsDotted (ofWords ws) := by
  induction ws using List.reverseRecOn with
  | nil => simp [IsDotted, ofWords]
  | append_singleton ws w ih =>
    obtain ⟨hws, hw⟩ := List.forall_mem_append.mp h
    have hword : IsDotted w := (hw w (by simp)).isPart.isDotted
    by_cases hempty : ws = []
    · simpa [hempty, ofWords, String.intercalate_singleton] using hword
    · rw [ofWords_append_singleton hempty]
      rw [← join_of_ne_empty (ofWords_ne_empty hempty hws)]
      exact (ih hws).join hword

theorem IsPath.isDotted (h : IsPath name) : IsDotted name := by
  obtain ⟨ws, -, hws, rfl⟩ := h
  exact isDotted_ofWords hws

theorem IsScope.isDotted (h : IsScope scope) : IsDotted scope := by
  rcases h with rfl | h
  · simp [IsDotted]
  · exact h.isDotted

/-- A name of words and points is on one line. -/
theorem IsDotted.newline_notMem (h : IsDotted name) : '\n' ∉ name.toList := fun hmem =>
  absurd (h _ hmem) (by decide)

/-! ## Points in front -/

theorem isPointed_point (name : String) : IsPointed ("." ++ name) := by
  simp [IsPointed]

theorem IsPart.not_isPointed (h : IsPart name) : ¬ IsPointed name := fun hpoint =>
  point_notMem_of_isPart h (List.mem_of_mem_head? hpoint)

theorem IsPath.not_isPointed (h : IsPath name) : ¬ IsPointed name := by
  obtain ⟨ws, hne, hws, rfl⟩ := h
  obtain ⟨w, ws, rfl⟩ := List.exists_cons_of_ne_nil hne
  obtain ⟨c, cs, hw, hc, -⟩ := (hws w (by simp)).exists_cons
  have hhead : (ofWords (w :: ws)).toList.head? = some c := by
    cases ws with
    | nil => simp [ofWords, hw]
    | cons w' ws =>
      simp [ofWords, String.toList_intercalate, hw]
  intro hpoint
  obtain rfl := Option.some.inj (hhead.symm.trans hpoint)
  exact absurd hc (by decide)

/-- A full name has a point in front only if its scope has one. -/
theorem not_isPointed_join (hscope : ¬ IsPointed scope) (hname : ¬ IsPointed name) :
    ¬ IsPointed (Dotted.join scope name) := by
  unfold Dotted.join
  split_ifs with hempty
  · exact hname
  · have hne : scope.toList ≠ [] := by simpa using hempty
    obtain ⟨c, cs, hcs⟩ := List.exists_cons_of_ne_nil hne
    simpa [IsPointed, hcs] using hscope

/-- A reference without a point in front is a path. -/
theorem IsReference.isPath (h : IsReference name) (hpoint : ¬ IsPointed name) : IsPath name := by
  rcases h with h | ⟨path, -, rfl⟩
  · exact h
  · exact absurd (isPointed_point path) hpoint

theorem not_isPointed_stripPoints (name : String) : ¬ IsPointed (stripPoints name) := by
  have hhead := List.head?_dropWhile_not (fun c => decide (c = '.')) name.toList
  intro h
  rw [IsPointed, stripPoints, String.toList_ofList] at h
  rw [h] at hhead
  simp at hhead

/-- A name without a point in front is looked up as it is. -/
theorem stripPoints_eq_self : stripPoints name = name ↔ ¬ IsPointed name := by
  refine ⟨fun h => h ▸ not_isPointed_stripPoints name, fun h => ?_⟩
  rw [IsPointed] at h
  rw [stripPoints]
  cases hname : name.toList with
  | nil => rw [List.dropWhile_nil, ← hname, String.ofList_toList]
  | cons c cs =>
    have hc : c ≠ '.' := by simpa [hname] using h
    rw [List.dropWhile_cons_of_neg (by simpa using hc), ← hname, String.ofList_toList]

/-! ## Last parts -/

/-- What stands behind the last point of a name. -/
def lastPart (name : String) : String :=
  String.ofList (name.toList.reverse.takeWhile (· ≠ '.')).reverse

theorem IsPart.lastPart (h : IsPart name) : lastPart name = name := by
  have hpoint : ∀ c ∈ name.toList.reverse, decide (c ≠ '.') = true := by
    intro c hc
    rw [decide_eq_true_iff]
    rintro rfl
    exact point_notMem_of_isPart h (List.mem_reverse.mp hc)
  rw [Dotted.lastPart, List.takeWhile_eq_self_iff.mpr hpoint, List.reverse_reverse,
    String.ofList_toList]

theorem lastPart_append (scope name : String) : lastPart (scope ++ "." ++ name) = lastPart name := by
  have hlist : (scope ++ "." ++ name).toList.reverse =
      name.toList.reverse ++ '.' :: scope.toList.reverse := by
    simp
  rw [lastPart, lastPart, hlist, List.takeWhile_append]
  split_ifs with hall
  · have heq := (List.takeWhile_prefix (· ≠ '.')).eq_of_length hall
    rw [heq]
    simp
  · rfl

theorem lastPart_join (scope name : String) : lastPart (join scope name) = lastPart name := by
  unfold join
  split_ifs
  · rfl
  · exact lastPart_append scope name

theorem lastPart_ofWords (ws : List String) (name : String) :
    lastPart (ofWords (ws ++ [name])) = lastPart name := by
  by_cases hempty : ws = []
  · rw [hempty]
    simp [ofWords]
  · rw [ofWords_append_singleton hempty, lastPart_append]

/-- A path ends with a word. -/
theorem IsPath.isWord_lastPart (h : IsPath name) : IsWord (lastPart name) := by
  obtain ⟨ws, hne, hws, rfl⟩ := h
  obtain ⟨ws, w, rfl⟩ := (List.eq_nil_or_concat ws).resolve_left hne
  have hw : IsWord w := hws w (by simp)
  rw [List.concat_eq_append, lastPart_ofWords, hw.isPart.lastPart]
  exact hw

/-- The full names that a reference may stand for end as the reference does. -/
theorem lastPart_of_mem_candidates {ref : String} (hpoint : ¬ IsPointed ref)
    (h : name ∈ candidates scope ref) : lastPart name = lastPart ref := by
  unfold candidates at h
  split at h
  · next rest hrest => exact absurd (by simp [IsPointed, hrest]) hpoint
  · obtain ⟨ws, -, rfl⟩ := List.mem_map.mp h
    exact lastPart_ofWords ws ref

end Dotted

/-! ## Names of map entries -/

/-- The capital form of a character of words is one again. -/
theorem isNamePart_of_mem_capital {c x : Char} (hc : Lexeme.isNamePart c = true)
    (hx : x ∈ capital c) : Lexeme.isNamePart x = true := by
  have hupper : ∀ n : Fin 128, Lexeme.isNamePart (Char.ofNat n) = true →
      Lexeme.isNamePart (Char.ofNat n).toUpper = true := by
    decide
  have hascii := Dotted.toNat_lt_of_isNamePart hc
  simp only [capital, hascii, if_true, List.mem_singleton] at hx
  rw [hx]
  exact Dotted.of_ascii (q := fun c => Lexeme.isNamePart c.toUpper) hupper hascii hc

theorem MapEntry.isNamePart_camelCase (starting : Bool) {cs : List Char}
    (h : ∀ c ∈ cs, Lexeme.isNamePart c = true) :
    ∀ c ∈ camelCase starting cs, Lexeme.isNamePart c = true := by
  induction cs generalizing starting with
  | nil => simp [camelCase]
  | cons c cs ih =>
    obtain ⟨hc, hcs⟩ := List.forall_mem_cons.mp h
    unfold camelCase
    split_ifs
    · exact ih true hcs
    · refine List.forall_mem_append.mpr ⟨?_, ih false hcs⟩
      exact fun x hx => isNamePart_of_mem_capital hc hx
    · exact List.forall_mem_append.mpr ⟨by simpa using hc, ih false hcs⟩

/-- The name of a map entry may start with a digit, but has no other characters than words. -/
theorem MapEntry.isPart_name {field : String} (h : Dotted.IsWord field) :
    Dotted.IsPart (MapEntry.name field) := by
  refine ⟨MapEntry.name_ne_empty field, ?_⟩
  rw [MapEntry.name, String.toList_append, String.toList_ofList]
  refine List.forall_mem_append.mpr ⟨isNamePart_camelCase true h.isPart.2, ?_⟩
  have hentry : "Entry".toList.all Lexeme.isNamePart = true := by decide +kernel
  exact List.all_eq_true.mp hentry

end ProtoSchema
