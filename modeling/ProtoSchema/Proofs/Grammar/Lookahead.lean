import ProtoSchema.Proofs.Grammar.Exploration

/-!
# Finished rules and what follows them

A rule is finished where following its symbols from one of its sites leads
(`Exploration.mem_finished`), so that the set there holds the rule with all its symbols read. What
is read directly behind the nonterminal of a site may follow it (`Exploration.contains_follow`), and
nothing that has been found to follow is lost when more is inherited.
-/

namespace ProtoSchema

namespace ExpectationSet

@[simp]
theorem contains_union (a b : ExpectationSet) (e : Expectation) :
    (a.union b).contains e = (a.contains e || b.contains e) :=
  Nat.testBit_or _ _ _

@[simp]
theorem contains_empty (e : Expectation) : empty.contains e = false :=
  Nat.zero_testBit _

@[simp]
theorem contains_singleton (e : Expectation) : (singleton e).contains e = true := by
  simp [contains, singleton]

/-- A union of sets contains what one of them contains. -/
theorem contains_foldl_union {α : Type} (set : α → ExpectationSet) (as : List α)
    (first : ExpectationSet) (e : Expectation) :
    (as.foldl (fun s a => s.union (set a)) first).contains e = true ↔
      first.contains e = true ∨ ∃ a ∈ as, (set a).contains e = true := by
  induction as generalizing first with
  | nil => simp
  | cons a as ih => simp [ih, or_assoc]

theorem contains_ofList {es : List Expectation} {e : Expectation} (h : e ∈ es) :
    (ofList es).contains e = true :=
  (contains_foldl_union singleton es empty e).mpr (.inr ⟨e, h, contains_singleton e⟩)

end ExpectationSet

/-! ## Sites -/

theorem Nonterminal.getElem?_all_ctorIdx (n : Nonterminal) : all[n.ctorIdx]? = some n := by
  cases n <;> rfl

theorem Nonterminal.ctorIdx_lt (n : Nonterminal) : n.ctorIdx < all.length :=
  (List.getElem?_eq_some_iff.mp n.getElem?_all_ctorIdx).1

theorem Site.index_lt {s : Site} {count : Nat} (h : s.state < count) :
    s.index < count * Nonterminal.all.length :=
  calc s.index < s.state * Nonterminal.all.length + Nonterminal.all.length :=
        Nat.add_lt_add_left s.nonterminal.ctorIdx_lt _
    _ = (s.state + 1) * Nonterminal.all.length := (Nat.succ_mul _ _).symm
    _ ≤ count * Nonterminal.all.length := Nat.mul_le_mul_right _ h

/-- The number of a site tells its state and its nonterminal. -/
theorem Site.index_injective : Function.Injective index := by
  rintro ⟨i, n⟩ ⟨j, m⟩ h
  simp only [index] at h
  have hn := n.ctorIdx_lt
  have hm := m.ctorIdx_lt
  have hstate := congrArg (· / Nonterminal.all.length) h
  have hplace := congrArg (· % Nonterminal.all.length) h
  simp only [Nat.mul_comm _ Nonterminal.all.length, Nat.mul_add_mod, Nat.mod_eq_of_lt hn,
    Nat.mod_eq_of_lt hm, Nat.mul_add_div (Nat.zero_lt_of_lt hn), Nat.div_eq_of_lt hn,
    Nat.div_eq_of_lt hm, Nat.add_zero] at hstate hplace
  have hsame := n.getElem?_all_ctorIdx
  rw [hplace, m.getElem?_all_ctorIdx] at hsame
  rw [hstate, Option.some.inj hsame]

namespace Exploration

variable {e : Exploration}

/-- The reading of a file begins in the first state, that of any other nonterminal where a rule of
it may stand next. -/
theorem mem_sites {s : Site} :
    s ∈ e.sites ↔ s.state < e.sets.size ∧ (s.state = 0 ∧ s.nonterminal = .schemaFile ∨
      s.nonterminal ∈ (e.sets[s.state]?.map ItemSet.corners).getD []) := by
  obtain ⟨i, n⟩ := s
  have hstate : ∀ j, ⟨i, n⟩ ∈ e.sitesOf j ↔ j = i ∧ (i = 0 ∧ n = .schemaFile ∨
      n ∈ (e.sets[i]?.map ItemSet.corners).getD []) := by
    intro j
    by_cases hj : j = i
    · subst hj
      by_cases h0 : j = 0 <;> simp [sitesOf, h0]
    · simp [sitesOf, hj]
  simp only [sites, List.mem_flatMap, List.mem_range, hstate]
  constructor
  · rintro ⟨j, hj, rfl, h⟩
    exact ⟨hj, h⟩
  · rintro ⟨hi, h⟩
    exact ⟨i, hi, rfl, h⟩

/-- The set of a site holds the rules of the site's nonterminal with nothing read. -/
theorem holds_of_mem_sites (hstart : e.sets[0]? = some .start) {s : Site} (hs : s ∈ e.sites)
    {r : RuleName} (hr : r.head = s.nonterminal) : e.Holds s.state ⟨r, 0⟩ := by
  obtain ⟨hlt, hfile | hcorner⟩ := mem_sites.mp hs
  · refine ⟨.start, hfile.1 ▸ hstart, List.mem_append_left _ (Item.mem_ofHead.mpr ⟨?_, rfl⟩)⟩
    rw [RuleName.mem_ofHead, hr, hfile.2]
  · rw [Array.getElem?_eq_getElem hlt] at hcorner
    refine ⟨_, Array.getElem?_eq_getElem hlt, List.mem_append_right _ ?_⟩
    have hrule : (⟨r, 0⟩ : Item) ∈ Item.ofHead s.nonterminal :=
      Item.mem_ofHead.mpr ⟨RuleName.mem_ofHead.mpr hr, rfl⟩
    exact List.mem_flatMap.mpr ⟨_, hcorner, hrule⟩

/-! ## Finished rules -/

/-- Sorting things into the lists of a table, each at its place. -/
theorem mem_foldl_modify {α : Type} (place : α → Option Nat) (as : List α) (table : Array (List α))
    (a : α) (j : Nat) :
    a ∈ ((as.foldl (fun table a => match place a with
      | some i => table.modify i (a :: ·)
      | none => table) table)[j]?.getD []) ↔
      a ∈ table[j]?.getD [] ∨ j < table.size ∧ a ∈ as ∧ place a = some j := by
  induction as generalizing table with
  | nil => simp
  | cons first as ih =>
    rw [List.foldl_cons, ih]
    cases hplace : place first with
    | none => grind
    | some i =>
      rw [Array.getElem?_modify, Array.size_modify]
      by_cases hi : i = j
      · subst hi
        by_cases hlt : i < table.size <;> grind
      · grind

/-- A rule is finished in the state to which its symbols lead from a site of its nonterminal. -/
theorem mem_finished {r : RuleName} {s : Site} {j : Nat} :
    (r, s) ∈ e.finished[j]?.getD [] ↔
      j < e.sets.size ∧ s ∈ e.sites ∧ r.head = s.nonterminal ∧
        e.walk? s.state r.symbols = some j := by
  have h := mem_foldl_modify (fun f : RuleName × Site => e.walk? f.2.state f.1.symbols)
    (e.sites.flatMap fun s => (RuleName.ofHead s.nonterminal).map (·, s))
    (Array.replicate e.sets.size []) (r, s) j
  rw [List.foldl_flatMap] at h
  simp only [List.foldl_map] at h
  refine h.trans ?_
  simp only [Array.getElem?_replicate, Array.size_replicate, List.mem_flatMap, List.mem_map,
    RuleName.mem_ofHead, Prod.mk.injEq]
  constructor
  · rintro (h | ⟨hj, ⟨_, hs, _, hr, rfl, rfl⟩, hwalk⟩)
    · split at h <;> cases h
    · exact ⟨hj, hs, hr, hwalk⟩
  · rintro ⟨hj, hs, hr, hwalk⟩
    exact .inr ⟨hj, ⟨s, hs, r, hr, rfl, rfl⟩, hwalk⟩

/-- A finished rule has been read. -/
theorem Sound.holds_of_mem_finished (h : e.Sound) (hstart : e.sets[0]? = some .start)
    {f : RuleName × Site} {j : Nat} (hf : f ∈ e.finished[j]?.getD []) :
    e.Holds j ⟨f.1, f.1.symbols.length⟩ := by
  obtain ⟨-, hs, hr, hj⟩ := mem_finished.mp hf
  exact h.holds_finished (holds_of_mem_sites hstart hs hr) hj

/-! ## What follows -/

theorem mem_endingWith {s : Site} {r : RuleName} {n : Nonterminal} {j : Nat}
    (hr : r.head = s.nonterminal) (hlast : r.symbols.getLast? = some (.nonterminal n))
    (hj : e.walk? s.state r.symbols.dropLast = some j) : ⟨j, n⟩ ∈ e.endingWith s := by
  refine List.mem_filterMap.mpr ⟨r, RuleName.mem_ofHead.mpr hr, ?_⟩
  rw [hlast]
  simp only [hj, Option.map_some]

/-- Nothing that follows at a site is lost. -/
def Follow.Le (follow later : Follow) : Prop :=
  ∀ s e, (followAt follow s).contains e = true → (followAt later s).contains e = true

theorem Follow.Le.refl (follow : Follow) : follow.Le follow := fun _ _ h => h

theorem Follow.Le.trans {follow later last : Follow} (h : follow.Le later) (h' : later.Le last) :
    follow.Le last :=
  fun s e hs => h' s e (h s e hs)

theorem followAt_setIfInBounds_self {follow : Follow} {s : Site} (hs : s.index < follow.size)
    (set : ExpectationSet) : followAt (follow.setIfInBounds s.index set) s = set := by
  simp [followAt, hs]

theorem followAt_setIfInBounds_ne {s t : Site} (h : s ≠ t) (follow : Follow)
    (set : ExpectationSet) : followAt (follow.setIfInBounds s.index set) t = followAt follow t := by
  unfold followAt
  rw [Array.getElem?_setIfInBounds_ne (Site.index_injective.ne h)]

theorem le_setIfInBounds (follow : Follow) (s : Site) (set : ExpectationSet) :
    follow.Le (follow.setIfInBounds s.index ((followAt follow s).union set)) := by
  intro t x ht
  by_cases hs : s.index < follow.size
  · by_cases hst : s = t
    · subst hst
      rw [followAt_setIfInBounds_self hs, ExpectationSet.contains_union, ht, Bool.true_or]
    · rwa [followAt_setIfInBounds_ne hst]
  · rwa [Array.setIfInBounds_eq_of_size_le (Nat.le_of_not_lt hs)]

theorem size_inherit (follow : Follow) (edge : Site × List Site) :
    (inherit follow edge).size = follow.size := by
  obtain ⟨source, targets⟩ := edge
  unfold inherit
  induction targets generalizing follow with
  | nil => rfl
  | cons t targets ih => rw [List.foldl_cons, ih, Array.size_setIfInBounds]

theorem le_inherit (follow : Follow) (edge : Site × List Site) :
    follow.Le (inherit follow edge) := by
  obtain ⟨source, targets⟩ := edge
  unfold inherit
  induction targets generalizing follow with
  | nil => exact .refl follow
  | cons t targets ih => exact (le_setIfInBounds follow t _).trans (ih _)

/-- What follows at the source of an edge follows at its targets. -/
theorem contains_inherit {follow : Follow} {source t : Site} {targets : List Site}
    {x : Expectation} (ht : t ∈ targets) (hbound : t.index < follow.size)
    (h : (followAt follow source).contains x = true) :
    (followAt (inherit follow (source, targets)) t).contains x = true := by
  induction targets generalizing follow with
  | nil => cases ht
  | cons first targets ih =>
    have hle := le_setIfInBounds follow first (followAt follow source)
    rcases List.mem_cons.mp ht with rfl | ht
    · refine le_inherit _ (source, targets) t x ?_
      rw [followAt_setIfInBounds_self hbound, ExpectationSet.contains_union, h, Bool.or_true]
    · refine ih ht ?_ (hle source x h)
      rwa [Array.size_setIfInBounds]

theorem le_foldl_inherit (edges : List (Site × List Site)) (follow : Follow) :
    follow.Le (edges.foldl inherit follow) := by
  induction edges generalizing follow with
  | nil => exact .refl follow
  | cons edge edges ih => exact (le_inherit follow edge).trans (ih _)

/-- In one round what follows at a site reaches all sites whose nonterminal ends there. -/
theorem contains_foldl_inherit {edges : List (Site × List Site)} {follow : Follow} {s t : Site}
    {targets : List Site} {x : Expectation} (hedge : (s, targets) ∈ edges) (ht : t ∈ targets)
    (hbound : t.index < follow.size) (h : (followAt follow s).contains x = true) :
    (followAt (edges.foldl inherit follow) t).contains x = true := by
  induction edges generalizing follow with
  | nil => cases hedge
  | cons edge edges ih =>
    rcases List.mem_cons.mp hedge with rfl | hedge
    · exact le_foldl_inherit edges _ t x (contains_inherit ht hbound h)
    · refine ih hedge ?_ (le_inherit follow edge s x h)
      rwa [size_inherit]

theorem le_settle (bound : Nat) (edges : List (Site × List Site)) (follow : Follow) :
    follow.Le (settle bound edges follow) := by
  induction bound generalizing follow with
  | zero => exact .refl follow
  | succ bound ih =>
    rw [settle]
    split
    · exact .refl follow
    · exact (le_foldl_inherit edges follow).trans (ih _)

/-- What may follow before anything is inherited. -/
def reading (e : Exploration) : Follow :=
  e.sites.foldl (fun (follow : Follow) s => follow.setIfInBounds s.index (e.readsBehind s))
    (Array.replicate (e.sets.size * Nonterminal.all.length) .empty)

theorem follow_eq_settle :
    e.follow = settle bound (e.sites.map fun s => (s, e.endingWith s)) e.reading := rfl

theorem size_reading : e.reading.size = e.sets.size * Nonterminal.all.length := by
  unfold reading
  generalize hfirst : Array.replicate _ ExpectationSet.empty = first
  have hsize := congrArg Array.size hfirst
  rw [Array.size_replicate] at hsize
  rw [hsize]
  generalize e.sites = sites
  clear hfirst hsize
  induction sites generalizing first with
  | nil => rfl
  | cons s sites ih => rw [List.foldl_cons, ih, Array.size_setIfInBounds]

/-- Before anything is inherited, what follows at a site is what is read behind it. -/
theorem followAt_reading {s : Site} (hs : s ∈ e.sites) :
    followAt e.reading s = e.readsBehind s := by
  suffices h : ∀ (sites : List Site) (follow : Follow), s.index < follow.size →
      s ∈ sites ∨ followAt follow s = e.readsBehind s →
        followAt (sites.foldl (fun (follow : Follow) s =>
          follow.setIfInBounds s.index (e.readsBehind s)) follow) s = e.readsBehind s from
    h e.sites _ (by simpa using Site.index_lt (mem_sites.mp hs).1) (.inl hs)
  intro sites
  induction sites with
  | nil => exact fun follow _ h => h.resolve_left List.not_mem_nil
  | cons first sites ih =>
    intro follow hbound h
    refine ih _ (by rwa [Array.size_setIfInBounds]) ?_
    by_cases hfirst : first = s
    · exact .inr (hfirst ▸ followAt_setIfInBounds_self (hfirst ▸ hbound) _)
    · rw [followAt_setIfInBounds_ne hfirst]
      exact h.imp_left fun hs => (List.mem_cons.mp hs).resolve_left (Ne.symm hfirst)

/-- What is read directly behind the nonterminal of a site follows it. -/
theorem contains_follow {s : Site} (hs : s ∈ e.sites) {x : Expectation}
    (h : (e.readsBehind s).contains x = true) : (followAt e.follow s).contains x = true := by
  rw [follow_eq_settle]
  refine le_settle _ _ _ s x ?_
  rwa [followAt_reading hs]

end Exploration

end ProtoSchema
