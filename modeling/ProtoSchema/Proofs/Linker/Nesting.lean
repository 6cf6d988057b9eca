import ProtoSchema.Proofs.Linker.Step

/-!
# How messages are nested

A message is entered before everything that is nested in it: first come the messages that are
declared in it, each with all that it holds, and then the entries of its maps. So the messages of
all files stand in their arena as they are met on a walk from the outside to the inside
(`Nesting.walk`), whatever was dropped.
-/

namespace ProtoSchema

/-- Messages as they stand in an arena from place `base` on, nested in `parent`: behind each one come
those that are declared in it, with all that they hold, and then the entries of its maps. -/
inductive Nesting : (base : Nat) → (parent : Option Nat) → List MessageHeader → Prop
  | nil (base : Nat) (parent : Option Nat) : Nesting base parent []
  | cons {base : Nat} {parent : Option Nat} {m : MessageHeader}
      {inner entries rest : List MessageHeader} (hm : m.parent = parent ∧ m.isMapEntry = false)
      (hinner : Nesting (base + 1) (some base) inner)
      (hentries : ∀ e ∈ entries, e.parent = some base ∧ e.isMapEntry = true)
      (hrest : Nesting (base + 1 + (inner ++ entries).length) parent rest) :
      Nesting base parent (m :: (inner ++ entries) ++ rest)

/-- A walk from some places on: each place is followed by the walk through what lies directly inside
it. -/
inductive Walk (inside : Nat → List Nat) : (starts visited : List Nat) → Prop
  | nil : Walk inside [] []
  | cons {i : Nat} {starts inner outer : List Nat} (hinner : Walk inside (inside i) inner)
      (houter : Walk inside starts outer) : Walk inside (i :: starts) (i :: inner ++ outer)

namespace Walk

variable {inside : Nat → List Nat} {starts starts' visited visited' : List Nat}

theorem append (h : Walk inside starts visited) (h' : Walk inside starts' visited') :
    Walk inside (starts ++ starts') (visited ++ visited') := by
  induction h with
  | nil => exact h'
  | cons hinner _ _ ih =>
    rw [List.append_assoc]
    exact .cons hinner ih

/-- Places with nothing inside them are visited one after the other. -/
theorem of_leaves (h : ∀ i ∈ starts, inside i = []) : Walk inside starts starts := by
  induction starts with
  | nil => exact .nil
  | cons i starts ih =>
    have hinner : Walk inside (inside i) [] := by
      rw [h i (by simp)]
      exact .nil
    exact .cons hinner (ih fun j hj => h j (by simp [hj]))

/-- There is one walk only. -/
theorem eq_of_starts (h : Walk inside starts visited) (h' : Walk inside starts visited') :
    visited = visited' := by
  induction h generalizing visited' with
  | nil =>
    cases h'
    rfl
  | cons _ _ hinner houter =>
    obtain _ | ⟨hinner', houter'⟩ := h'
    rw [hinner hinner', houter houter']

/-- The walk starts at all of its starts. -/
theorem mem_of_mem_starts (h : Walk inside starts visited) : ∀ i ∈ starts, i ∈ visited := by
  induction h with
  | nil => exact fun i hi => hi
  | cons _ _ _ ih =>
    intro j hj
    rcases List.mem_cons.mp hj with rfl | hj
    · simp
    · simp [ih j hj]

/-- A walk from one place starts there and goes on inside. -/
theorem exists_cons {i : Nat} (h : Walk inside [i] visited) :
    ∃ inner, visited = i :: inner ∧ Walk inside (inside i) inner := by
  generalize hstarts : [i] = starts at h
  cases h with
  | nil => cases hstarts
  | @cons j starts inner outer hinner houter =>
    obtain ⟨rfl, rfl⟩ := List.cons.inj hstarts
    cases houter
    exact ⟨inner, by simp, hinner⟩

/-- What is met from a place on is one piece of the whole walk. -/
theorem exists_infix (h : Walk inside starts visited) {i : Nat} (hi : i ∈ visited) :
    ∃ part, Walk inside [i] part ∧ part <:+: visited := by
  induction h with
  | nil => cases hi
  | @cons j starts inner outer hinner houter ih ih' =>
    rw [List.cons_append, List.mem_cons, List.mem_append] at hi
    rcases hi with rfl | hi | hi
    · refine ⟨i :: inner, ?_, ⟨[], outer, rfl⟩⟩
      simpa using Walk.cons hinner .nil
    · obtain ⟨part, hwalk, hpart⟩ := ih hi
      exact ⟨part, hwalk, hpart.trans ⟨[j], outer, by simp⟩⟩
    · obtain ⟨part, hwalk, hpart⟩ := ih' hi
      exact ⟨part, hwalk, hpart.trans ⟨j :: inner, [], by simp⟩⟩

end Walk

namespace Nesting

variable {base : Nat} {parent : Option Nat} {ms ms' : List MessageHeader}

theorem append (h : Nesting base parent ms) (h' : Nesting (base + ms.length) parent ms') :
    Nesting base parent (ms ++ ms') := by
  induction h with
  | nil => exact h'
  | cons hm hinner hentries _ _ ih =>
    rw [List.append_assoc]
    refine .cons hm hinner hentries (ih ?_)
    rw [List.length_append, List.length_cons] at h'
    rwa [show ∀ a b c : Nat, a + 1 + b + c = a + (b + 1 + c) by omega]

/-- Everything is nested in `parent` or in something that stands here, too. -/
theorem parent_cases (h : Nesting base parent ms) :
    ∀ m ∈ ms, m.parent = parent ∨
      ∃ k, m.parent = some k ∧ base ≤ k ∧ k < base + ms.length := by
  induction h with
  | nil => simp
  | @cons base parent m inner entries rest hm _ hentries _ ih ih' =>
    intro x hx
    simp only [List.cons_append, List.mem_cons, List.mem_append] at hx
    simp only [List.length_append, List.length_cons] at ih' ⊢
    rcases hx with rfl | (hx | hx) | hx
    · exact .inl hm.1
    · rcases ih x hx with hx | ⟨k, hk, hbase, hlt⟩
      · exact .inr ⟨base, hx, by omega, by omega⟩
      · exact .inr ⟨k, hk, by omega, by omega⟩
    · exact .inr ⟨base, (hentries x hx).1, by omega, by omega⟩
    · rcases ih' x hx with hx | ⟨k, hk, hbase, hlt⟩
      · exact .inl hx
      · exact .inr ⟨k, hk, by omega, by omega⟩

/-- Nothing here is nested in what stands elsewhere, apart from `parent`. -/
theorem parent_ne (h : Nesting base parent ms) {k : Nat} (hparent : parent ≠ some k)
    (hk : k < base ∨ base + ms.length ≤ k) : ∀ m ∈ ms, m.parent ≠ some k := by
  rintro m hm hmk
  rcases h.parent_cases m hm with heq | ⟨k', heq, hbase, hlt⟩
  · exact hparent (heq.symm.trans hmk)
  · obtain rfl : k' = k := Option.some.inj (heq.symm.trans hmk)
    omega

/-- The places in a message, in what it holds, and in what stands behind it. -/
theorem findIdxs_cons (p : MessageHeader → Bool) (m : MessageHeader)
    (inner entries rest : List MessageHeader) (base : Nat) :
    (m :: (inner ++ entries) ++ rest).findIdxs p base =
      (if p m then [base] else []) ++ (inner.findIdxs p (base + 1) ++
        entries.findIdxs p (base + 1 + inner.length)) ++
          rest.findIdxs p (base + 1 + (inner ++ entries).length) := by
  rw [List.cons_append, List.findIdxs_cons, List.findIdxs_append, List.findIdxs_append]
  split <;> simp

theorem findIdxs_eq_nil (h : ∀ m ∈ ms, m.parent ≠ parent) (base : Nat) :
    ms.findIdxs (·.parent = parent) base = [] :=
  List.findIdxs_eq_nil_iff.mpr fun m hm => decide_eq_false (h m hm)

theorem findIdxs_eq_range' (h : ∀ m ∈ ms, m.parent = parent) (base : Nat) :
    ms.findIdxs (·.parent = parent) base = List.range' base ms.length := by
  induction ms generalizing base with
  | nil => rfl
  | cons m ms ih =>
    rw [List.forall_mem_cons] at h
    rw [List.findIdxs_cons, if_pos (decide_eq_true h.1), ih h.2, List.length_cons, List.range'_succ]

/-- A message with the nestings inside it and behind it, where nothing here contains the message. -/
structure Head (base : Nat) (parent : Option Nat) (m : MessageHeader)
    (inner entries rest : List MessageHeader) : Prop where
  parent_eq : m.parent = parent
  nested : Nesting (base + 1) (some base) inner
  entry_parent : ∀ e ∈ entries, e.parent = some base
  behind : Nesting (base + 1 + (inner ++ entries).length) parent rest
  outside : ∀ k, base ≤ k → parent ≠ some k

namespace Head

variable {m : MessageHeader} {inner entries rest : List MessageHeader} {k : Nat}
variable (h : Head base parent m inner entries rest)
include h

theorem entries_ne (hk : base < k) : ∀ e ∈ entries, e.parent ≠ some k := by
  intro e he
  rw [h.entry_parent e he, Ne, Option.some.injEq]
  omega

theorem inner_ne (hk : base + 1 + inner.length ≤ k) : ∀ x ∈ inner, x.parent ≠ some k :=
  h.nested.parent_ne (by rw [Ne, Option.some.injEq]; omega) (.inr hk)

theorem rest_ne (hk : base ≤ k) (hlt : k < base + 1 + (inner ++ entries).length) :
    ∀ x ∈ rest, x.parent ≠ some k :=
  h.behind.parent_ne (h.outside k hk) (.inl hlt)

/-- The outermost messages are the first one and those behind all that it holds. -/
theorem findIdxs_outermost :
    (m :: (inner ++ entries) ++ rest).findIdxs (·.parent = parent) base =
      base :: rest.findIdxs (·.parent = parent) (base + 1 + (inner ++ entries).length) := by
  have hinner : ∀ x ∈ inner, x.parent ≠ parent := by
    rintro x hx hparent
    rcases h.nested.parent_cases x hx with heq | ⟨k, heq, hbase, -⟩
    · exact h.outside base (Nat.le_refl _) (hparent.symm.trans heq)
    · exact h.outside k (by omega) (hparent.symm.trans heq)
  have hentries : ∀ e ∈ entries, e.parent ≠ parent := fun e he hparent =>
    h.outside base (Nat.le_refl _) (hparent.symm.trans (h.entry_parent e he))
  rw [findIdxs_cons, findIdxs_eq_nil hinner, findIdxs_eq_nil hentries]
  simp [h.parent_eq]

/-- Directly inside the first message are the outermost ones of those it holds, and its entries. -/
theorem findIdxs_self : (m :: (inner ++ entries) ++ rest).findIdxs (·.parent = some base) base =
    inner.findIdxs (·.parent = some base) (base + 1) ++
      List.range' (base + 1 + inner.length) entries.length := by
  rw [findIdxs_cons, findIdxs_eq_range' h.entry_parent,
    findIdxs_eq_nil (h.rest_ne (Nat.le_refl _) (by omega))]
  simp [h.parent_eq, h.outside]

/-- What is inside a message that the first one holds stands there, too. -/
theorem findIdxs_inner (hk : base + 1 ≤ k) (hlt : k < base + 1 + inner.length) :
    (m :: (inner ++ entries) ++ rest).findIdxs (·.parent = some k) base =
      inner.findIdxs (·.parent = some k) (base + 1) := by
  have hrest := h.rest_ne (k := k) (by omega) (by rw [List.length_append]; omega)
  rw [findIdxs_cons, findIdxs_eq_nil (h.entries_ne hk), findIdxs_eq_nil hrest]
  simp [h.parent_eq, h.outside k (by omega)]

/-- Nothing is inside an entry. -/
theorem findIdxs_entry (hk : base + 1 + inner.length ≤ k)
    (hlt : k < base + 1 + (inner ++ entries).length) :
    (m :: (inner ++ entries) ++ rest).findIdxs (·.parent = some k) base = [] := by
  rw [findIdxs_cons, findIdxs_eq_nil (h.inner_ne hk), findIdxs_eq_nil (h.entries_ne (by omega)),
    findIdxs_eq_nil (h.rest_ne (by omega) hlt)]
  simp [h.parent_eq, h.outside k (by omega)]

/-- What is inside a message behind the first one and all that it holds stands there, too. -/
theorem findIdxs_rest (hk : base + 1 + (inner ++ entries).length ≤ k) :
    (m :: (inner ++ entries) ++ rest).findIdxs (·.parent = some k) base =
      rest.findIdxs (·.parent = some k) (base + 1 + (inner ++ entries).length) := by
  have hinner := h.inner_ne (k := k) (by rw [List.length_append] at hk; omega)
  rw [findIdxs_cons, findIdxs_eq_nil hinner, findIdxs_eq_nil (h.entries_ne (by omega))]
  simp [h.parent_eq, h.outside k (by omega)]

end Head

/-- The messages of a nesting are met in the order in which they stand. -/
theorem walk {inside : Nat → List Nat} (h : Nesting base parent ms)
    (hout : ∀ k, base ≤ k → parent ≠ some k)
    (hinside : ∀ k, base ≤ k → k < base + ms.length →
      inside k = ms.findIdxs (·.parent = some k) base) :
    Walk inside (ms.findIdxs (·.parent = parent) base) (List.range' base ms.length) := by
  induction h with
  | nil => exact .nil
  | @cons base parent m inner entries rest hm hinner hentries hrest ih ih' =>
    have hhead : Head base parent m inner entries rest :=
      ⟨hm.1, hinner, fun e he => (hentries e he).1, hrest, hout⟩
    simp only [List.length_append, List.length_cons] at hinside
    have hself := (hinside base (by omega) (by omega)).trans hhead.findIdxs_self
    have hinner_walk := ih (fun k hk => by rw [Ne, Option.some.injEq]; omega) fun k hk hlt =>
      (hinside k (by omega) (by omega)).trans (hhead.findIdxs_inner hk hlt)
    have hentries_walk : Walk inside (List.range' (base + 1 + inner.length) entries.length)
        (List.range' (base + 1 + inner.length) entries.length) := by
      refine .of_leaves fun k hk => ?_
      rw [List.mem_range'_1] at hk
      rw [hinside k (by omega) (by omega),
        hhead.findIdxs_entry hk.1 (by rw [List.length_append]; omega)]
    have hrest_walk := ih' (fun k hk => hout k (by omega)) fun k hk hlt =>
      (hinside k (by omega) (by rw [List.length_append] at hlt; omega)).trans
        (hhead.findIdxs_rest hk)
    have hwalk := Walk.cons (hself ▸ hinner_walk.append hentries_walk) hrest_walk
    have hlength : (m :: (inner ++ entries) ++ rest).length =
        1 + (inner.length + entries.length) + rest.length := by
      simp only [List.length_append, List.length_cons]
      omega
    rw [hhead.findIdxs_outermost, hlength, ← List.range'_append_1, ← List.range'_append_1,
      ← List.range'_append_1]
    simpa [Nat.add_assoc] using hwalk

/-- The outermost messages are no entries of maps, and inside each message the entries come behind
all others. -/
theorem kinds {isEntry : Nat → Bool} (h : Nesting base parent ms)
    (hout : ∀ k, base ≤ k → parent ≠ some k)
    (hentry : ∀ (i : Nat) m, ms[i]? = some m → isEntry (base + i) = m.isMapEntry) :
    (∀ j ∈ ms.findIdxs (·.parent = parent) base, isEntry j = false) ∧
      ∀ k, base ≤ k → k < base + ms.length → ∃ declared entries,
        ms.findIdxs (·.parent = some k) base = declared ++ entries ∧
          (∀ j ∈ declared, isEntry j = false) ∧ ∀ j ∈ entries, isEntry j = true := by
  induction h with
  | nil => exact ⟨by simp, fun k hk hlt => absurd hlt (by simpa using hk)⟩
  | @cons base parent m inner entries rest hm hinner hentries hrest ih ih' =>
    have hhead : Head base parent m inner entries rest :=
      ⟨hm.1, hinner, fun e he => (hentries e he).1, hrest, hout⟩
    have hfirst : isEntry base = false := (hentry 0 m rfl).trans hm.2
    obtain ⟨hdeclared, hinside⟩ := ih (fun k hk => by rw [Ne, Option.some.injEq]; omega)
      fun i x hx => by
        obtain ⟨hlt, rfl⟩ := List.getElem?_eq_some_iff.mp hx
        rw [← hentry (i + 1) inner[i] (by simp [List.getElem?_append, hlt]), Nat.add_assoc,
          Nat.add_comm 1]
    have hlast : ∀ j ∈ List.range' (base + 1 + inner.length) entries.length, isEntry j = true := by
      intro j hj
      obtain ⟨i, hi, rfl⟩ := List.mem_range'.mp hj
      rw [← (hentries entries[i] (List.getElem_mem hi)).2,
        ← hentry (inner.length + i + 1) entries[i] (by simp [List.getElem?_append, hi])]
      congr 1
      omega
    obtain ⟨hbehind, hinside'⟩ := ih' (fun k hk => hout k (by omega)) fun i x hx => by
      have hplace : (m :: (inner ++ entries) ++ rest)[(inner ++ entries).length + i + 1]? = some x := by
        rw [List.cons_append, List.getElem?_cons_succ, List.getElem?_append_right (by omega),
          Nat.add_sub_cancel_left, hx]
      rw [← hentry _ x hplace]
      congr 1
      omega
    refine ⟨?_, fun k hk hlt => ?_⟩
    · rw [hhead.findIdxs_outermost]
      exact List.forall_mem_cons.mpr ⟨hfirst, hbehind⟩
    · simp only [List.length_append, List.length_cons] at hlt hinside'
      by_cases hself : k = base
      · subst hself
        exact ⟨_, _, hhead.findIdxs_self, hdeclared, hlast⟩
      by_cases hnested : k < base + 1 + inner.length
      · rw [hhead.findIdxs_inner (by omega) hnested]
        exact hinside k (by omega) hnested
      by_cases hleaf : k < base + 1 + (inner ++ entries).length
      · rw [hhead.findIdxs_entry (by omega) hleaf]
        exact ⟨[], [], rfl, by simp, by simp⟩
      · rw [List.length_append] at hleaf
        rw [hhead.findIdxs_rest (by rw [List.length_append]; omega), List.length_append]
        exact hinside' k (by omega) (by omega)

end Nesting

namespace Linker

variable {l l' l'' : Linker} {file : FileScope} {scope : String} {parent : Option Nat}

/-! ## Declared messages -/

/-- From `l` to `l'` nothing but a nesting has been added to the messages. -/
def Nests (l l' : Linker) (parent : Option Nat) : Prop :=
  ∃ ms, l'.inventory.messages = l.inventory.messages ++ ms ∧
    Nesting l.inventory.messages.length parent ms

theorem Nests.of_eq (h : l'.inventory.messages = l.inventory.messages) : Nests l l' parent :=
  ⟨[], by rw [h, List.append_nil], .nil _ _⟩

theorem Nests.trans (h : Nests l l' parent) (h' : Nests l' l'' parent) : Nests l l'' parent := by
  obtain ⟨ms, hms, hnesting⟩ := h
  obtain ⟨ms', hms', hnesting'⟩ := h'
  rw [hms, List.length_append] at hnesting'
  exact ⟨ms ++ ms', by rw [hms', hms, List.append_assoc], hnesting.append hnesting'⟩

theorem messages_foldl {α : Type} {step : Linker → α → Linker}
    (h : ∀ l a, (step l a).inventory.messages = l.inventory.messages) (l : Linker) (xs : List α) :
    (xs.foldl step l).inventory.messages = l.inventory.messages := by
  induction xs generalizing l with
  | nil => rfl
  | cons x xs ih => rw [List.foldl_cons, ih, h]

theorem messages_define (l : Linker) (file : FileScope) (position : Option Position)
    (d : Definition) : (l.define file position d).1.inventory.messages = l.inventory.messages := by
  unfold define
  split
  · rfl
  · split <;> rfl

theorem messages_declareEnum (l : Linker) (file : FileScope) (scope : String)
    (parent : Option Nat) (e : EnumDecl) :
    (l.declareEnum file scope parent e).inventory.messages = l.inventory.messages := by
  cases h : l.definition? (Dotted.join scope e.name) with
  | none =>
    obtain ⟨rs, -, heq⟩ := declareEnum_of_free file parent e h
    simp [heq]
  | some old =>
    obtain ⟨p, heq⟩ := declareEnum_of_taken file parent e h
    rw [heq]
    rfl

theorem messages_declareService (l : Linker) (file : FileScope) (s : ServiceDecl) :
    (l.declareService file s).inventory.messages = l.inventory.messages := by
  have hmethod (l : Linker) (m : MethodDecl) :
      (l.declareMethod file (Dotted.join file.package s.name) m).inventory.messages =
        l.inventory.messages := by
    rcases declareMethod_cases l file (Dotted.join file.package s.name) m with
      ⟨-, heq⟩ | ⟨-, p, heq⟩
    · simp [heq]
    · rw [heq]
      rfl
  rcases declareService_cases l file s with ⟨-, heq⟩ | ⟨-, p, heq⟩
  · rw [heq, messages_foldl hmethod]
    rfl
  · rw [heq]
    rfl

/-- From `l` to `l'` nothing but entries of maps in the message at `owner` have been added to the
messages. -/
def AddsEntries (l l' : Linker) (owner : Nat) : Prop :=
  ∃ entries, l'.inventory.messages = l.inventory.messages ++ entries ∧
    ∀ e ∈ entries, e.parent = some owner ∧ e.isMapEntry = true

theorem AddsEntries.of_eq {owner : Nat} (h : l'.inventory.messages = l.inventory.messages) :
    AddsEntries l l' owner :=
  ⟨[], by rw [h, List.append_nil], by simp⟩

theorem AddsEntries.trans {owner : Nat} (h : AddsEntries l l' owner)
    (h' : AddsEntries l' l'' owner) : AddsEntries l l'' owner := by
  obtain ⟨es, hes, hentries⟩ := h
  obtain ⟨es', hes', hentries'⟩ := h'
  exact ⟨es ++ es', by rw [hes', hes, List.append_assoc],
    List.forall_mem_append.mpr ⟨hentries, hentries'⟩⟩

theorem addsEntries_declareMapEntry (l : Linker) (file : FileScope) (owner : Nat) (scope : String)
    (f : FieldDecl) (key value : String) (position : Position) :
    AddsEntries l (l.declareMapEntry file owner scope f key value position).1 owner := by
  rcases declareMapEntry_cases l file owner scope f key value position with ⟨-, heq⟩ | ⟨-, p, heq⟩
  · rw [heq]
    refine ⟨[⟨MapEntry.name f.name, Dotted.join scope (MapEntry.name f.name), file, some owner, true,
      []⟩], ?_, by simp⟩
    rw [inventory_addField, inventory_addField, inventory_enterMessage]
  · rw [heq]
    exact .of_eq rfl

theorem addsEntries_declareFields (l : Linker) (file : FileScope) (owner : Nat) (scope : String)
    (rules : FieldRules) (fs : List FieldDecl) :
    AddsEntries l (l.declareFields file owner scope rules fs) owner := by
  have hfield (l : Linker) (f : FieldDecl) : AddsEntries l (l.addField file owner scope f) owner :=
    .of_eq (by rw [inventory_addField])
  induction fs generalizing l rules with
  | nil => exact .of_eq (by rw [declareFields])
  | cons f fs ih =>
    rw [declareFields.eq_def]
    simp only
    split
    · exact ih _ rules
    · split
      · next key value position _ =>
        have hentry := addsEntries_declareMapEntry l file owner scope f key value position
        split
        · next l' heq =>
          rw [heq] at hentry
          exact hentry.trans ((hfield l' _).trans (ih _ _))
        · next l' heq =>
          rw [heq] at hentry
          exact hentry.trans (ih _ _)
      · exact (hfield l f).trans (ih _ _)
      · exact (hfield l f).trans (ih _ _)

mutual

theorem nests_declareMessage (l : Linker) (file : FileScope) (scope : String) (parent : Option Nat) :
    (m : MessageDecl) → Nests l (l.declareMessage file scope parent m) parent
  | ⟨name, fields, messages, enums, extendBlocks, oneofs, options, extensionRanges,
      reservedRanges, reservedNames, position⟩ => by
    rcases declareMessage_cases l file scope parent ⟨name, fields, messages, enums, extendBlocks,
      oneofs, options, extensionRanges, reservedRanges, reservedNames, position⟩ with
      ⟨-, heq⟩ | ⟨-, p, heq⟩
    · let fullName := Dotted.join scope name
      let header : MessageHeader := ⟨name, fullName, file, parent, false, extensionRanges⟩
      have hentered : (l.enterMessage file scope parent name false extensionRanges).inventory.messages
          = l.inventory.messages ++ [header] := by
        rw [inventory_enterMessage]
      have henums : (enums.foldl (fun l' e => l'.declareEnum file fullName (some l.messages.size) e)
          (l.enterMessage file scope parent name false extensionRanges)).inventory.messages =
            l.inventory.messages ++ [header] :=
        (messages_foldl (fun _ e => messages_declareEnum _ file fullName _ e) _ enums).trans hentered
      obtain ⟨inner, hmessages, hinner⟩ :=
        nests_declareMessages (enums.foldl (fun l' e => l'.declareEnum file fullName
          (some l.messages.size) e) (l.enterMessage file scope parent name false extensionRanges))
            file fullName (some l.messages.size) messages
      obtain ⟨entries, hfields, hentries⟩ := addsEntries_declareFields _ file l.messages.size
        fullName ⟨fullName, reservedRanges, reservedNames, []⟩ fields
      refine ⟨header :: (inner ++ entries) ++ [], ?_, .cons ⟨rfl, rfl⟩ ?_ ?_ (.nil _ _)⟩
      · rw [heq, declareBody]
        simp only
        rw [messages_foldl (fun _ e => by rw [inventory_declareExtend]), hfields, hmessages, henums]
        simp
      · rw [henums] at hinner
        simpa using hinner
      · rwa [length_messages_inventory]
    · rw [heq]
      exact .of_eq rfl

theorem nests_declareMessages (l : Linker) (file : FileScope) (scope : String)
    (parent : Option Nat) :
    (ms : List MessageDecl) → Nests l (l.declareMessages file scope parent ms) parent
  | [] => by
    rw [declareMessages]
    exact .of_eq rfl
  | m :: ms => by
    rw [declareMessages]
    exact (nests_declareMessage l file scope parent m).trans
      (nests_declareMessages _ file scope parent ms)

end

theorem nests_declare (l : Linker) (f : SchemaFile) : Nests l (l.declare f) none := by
  have hpackage : ((l.addFile f.scope).declarePackage f.scope).inventory.messages =
      l.inventory.messages :=
    messages_foldl (fun l name => messages_define l f.scope none ⟨.package, name, none, none⟩)
      (l.addFile f.scope) (Dotted.packages f.scope.package)
  refine (Nests.of_eq hpackage).trans ((nests_declareMessages _ f.scope f.scope.package none
    f.messages).trans (.of_eq ?_))
  rw [declare, messages_foldl fun _ s => messages_declareService _ f.scope s,
    messages_foldl fun _ e => by rw [inventory_declareExtend],
    messages_foldl fun _ e => messages_declareEnum _ f.scope f.scope.package none e]

/-- The messages of any files stand in their arena as they are nested. -/
theorem nesting_ofFiles (files : List SchemaFile) :
    Nesting 0 none (ofFiles files).inventory.messages := by
  induction files using List.reverseRecOn with
  | nil => exact .nil 0 none
  | append_singleton files f ih =>
    obtain ⟨ms, hms, hnesting⟩ := nests_declare (ofFiles files) f
    rw [ofFiles_append_singleton, hms]
    exact ih.append (by rwa [Nat.zero_add])

end Linker

end ProtoSchema
