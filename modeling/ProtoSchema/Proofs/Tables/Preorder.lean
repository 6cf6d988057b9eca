import ProtoSchema.Proofs.Linker.Nesting
import ProtoSchema.Proofs.Pool.Lookups

/-!
# The order of messages

The records of messages stand in the order of a walk through their nesting: each message is followed
by those nested in it, the declared ones first and then the entries of its maps, and what is inside a
message is one piece of the whole (`Tables.Preordered`). So this is the order in which a pool gives
out the handles of all messages (`preordered_of_link`).
-/

namespace ProtoSchema

namespace Tables

variable {t : Tables}

/-- The places of what is nested directly in the message at a place. -/
def inside (t : Tables) (place : Nat) : List Nat := (t.messages[place]?).elim [] (·.messages)

/-- The places of the messages that are nested in no other. -/
def outermost (t : Tables) : List Nat := t.messages.toList.findIdxs (·.parent = none)

/-- A walk through all messages meets each one once, in the order of their places. What is inside a
message stands directly behind it, and the entries of its maps are its last messages. -/
structure Preordered (t : Tables) : Prop where
  walk : Walk t.inside t.outermost (List.range t.messages.size)
  subtrees : ∀ i < t.messages.size, ∃ n, Walk t.inside [i] (List.range' i n)
  entriesLast : ∀ i < t.messages.size, ∃ declared entries, t.inside i = declared ++ entries ∧
    (∀ k ∈ declared, ∃ m, t.messages[k]? = some m ∧ m.isMapEntry = false) ∧
      ∀ k ∈ entries, ∃ m, t.messages[k]? = some m ∧ m.isMapEntry = true

/-- What is nested in a message stands behind it. -/
theorem Preordered.lt_of_mem (h : t.Preordered) {i j : Nat} (hi : i < t.messages.size)
    (hj : j ∈ t.inside i) : i < j ∧ j < t.messages.size := by
  obtain ⟨part, hwalk, hpart⟩ := h.walk.exists_infix (List.mem_range.mpr hi)
  obtain ⟨n, hsubtree⟩ := h.subtrees i hi
  obtain rfl := hwalk.eq_of_starts hsubtree
  obtain ⟨inner, hcons, hinner⟩ := hsubtree.exists_cons
  have hmem : j ∈ inner := hinner.mem_of_mem_starts j hj
  have hbehind : inner = List.range' (i + 1) (n - 1) := by
    cases n with
    | zero => cases hcons
    | succ n => exact (List.cons.inj (hcons.symm.trans List.range'_succ)).2
  refine ⟨?_, List.mem_range.mp (hpart.mem (by rw [hcons]; exact List.mem_cons_of_mem i hmem))⟩
  rw [hbehind, List.mem_range'_1] at hmem
  omega

end Tables

/-- A piece of consecutive numbers is made of consecutive numbers. -/
theorem eq_range'_of_infix {n i : Nat} {xs : List Nat} (h : i :: xs <:+: List.range n) :
    i :: xs = List.range' i (xs.length + 1) := by
  obtain ⟨before, behind, heq⟩ := h
  rw [List.range_eq_range', List.append_assoc] at heq
  obtain ⟨k, -, -, hrest⟩ := List.range'_eq_append_iff.mp heq.symm
  obtain ⟨n, -, hpart, -⟩ := List.range'_eq_append_iff.mp hrest.symm
  have hlength := congrArg List.length hpart
  rw [List.length_cons, List.length_range'] at hlength
  rw [← hlength] at hpart
  have hstart : i = 0 + k * 1 := by
    rw [List.range'_succ] at hpart
    exact (List.cons.inj hpart).1
  rwa [← hstart] at hpart

namespace Linker

variable {l : Linker}

/-- Messages that stand as they are nested have their records in the order of the walk. -/
theorem preordered_linkedTables (h : Nesting 0 none l.inventory.messages) :
    l.linkedTables.Preordered := by
  have hsize : l.linkedTables.messages.size = l.inventory.messages.length := by simp [linkedTables]
  have hrecord (k : Nat) : l.linkedTables.messages[k]? =
      (l.inventory.messages[k]?).map (l.linkedMessage k) := by
    simp [linkedTables]
  have hinside (k : Nat) (hk : k < l.inventory.messages.length) :
      l.linkedTables.inside k = l.inventory.messages.findIdxs (·.parent = some k) := by
    rw [Tables.inside, hrecord, List.getElem?_eq_getElem hk]
    rfl
  have hparents : l.linkedTables.messages.toList.map (·.parent) =
      l.inventory.messages.map (·.parent) := by
    apply List.ext_getElem?
    intro k
    rw [List.getElem?_map, List.getElem?_map, Array.getElem?_toList, hrecord, Option.map_map]
    rfl
  have houtermost : l.linkedTables.outermost =
      l.inventory.messages.findIdxs (·.parent = none) := by
    have hfind := congrArg (List.findIdxs fun parent => decide (parent = none)) hparents
    rwa [List.findIdxs_map, List.findIdxs_map] at hfind
  have hwalk : Walk l.linkedTables.inside l.linkedTables.outermost
      (List.range l.linkedTables.messages.size) := by
    rw [houtermost, hsize, List.range_eq_range']
    exact h.walk (by simp) fun k _ hk => hinside k (by rwa [Nat.zero_add] at hk)
  refine ⟨hwalk, fun i hi => ?_, fun i hi => ?_⟩
  · obtain ⟨part, hpart, hinfix⟩ := hwalk.exists_infix (List.mem_range.mpr hi)
    obtain ⟨inner, rfl, -⟩ := hpart.exists_cons
    exact ⟨_, eq_range'_of_infix hinfix ▸ hpart⟩
  · let isEntry (k : Nat) : Bool := ((l.inventory.messages[k]?).map (·.isMapEntry)).getD false
    have hentry (k : Nat) (m : MessageHeader) (hm : l.inventory.messages[k]? = some m) :
        isEntry (0 + k) = m.isMapEntry := by
      simp [isEntry, hm]
    obtain ⟨-, hkinds⟩ := h.kinds (by simp) hentry
    rw [hsize] at hi
    obtain ⟨declared, entries, hsplit, hdeclared, hentries⟩ := hkinds i (Nat.zero_le i)
      (by rwa [Nat.zero_add])
    have hkind {k : Nat} {b : Bool} (hk : k ∈ declared ++ entries) (hb : isEntry k = b) :
        ∃ m, l.linkedTables.messages[k]? = some m ∧ m.isMapEntry = b := by
      rw [← hsplit] at hk
      obtain ⟨m, hm, -⟩ := mem_findIdxs.mp hk
      have hentry : m.isMapEntry = b := by simpa [isEntry, hm] using hb
      exact ⟨l.linkedMessage k m, by rw [hrecord, hm, Option.map_some], hentry⟩
    refine ⟨declared, entries, (hinside i hi).trans hsplit, fun k hk => ?_, fun k hk => ?_⟩
    · exact hkind (List.mem_append_left entries hk) (hdeclared k hk)
    · exact hkind (List.mem_append_right declared hk) (hentries k hk)

end Linker

/-! ## Pools -/

namespace Pool

/-- A pool goes through all messages in the order of a walk, whether it gives out their handles or
calls a visitor with them that leaves the pool as it is. -/
structure GoesThrough (p : Pool) (tree : FileTree) (visited : List Nat) : Prop where
  messages : messages.on tree p = (.ok (visited.map (p.handleAt .message)), p)
  forEach : ∀ {σ : Type} (visit : Handle → StateT σ Run PUnit) (step : σ → Handle → σ),
    (∀ h s, ((visit h).run s).on tree p = (.ok (⟨⟩, step s h), p)) →
      ∀ s, ((forEachMessage visit).run s).on tree p =
        (.ok (visited.length, (visited.map (p.handleAt .message)).foldl step s), p)

theorem goesThrough {p : Pool} (tree : FileTree) {t : Tables} (hopen : ¬ p.isClosed)
    (hlinked : p.linked = some t) : p.GoesThrough tree (List.range t.messages.size) := by
  refine ⟨?_, fun visit step hvisit s => ?_⟩
  · simpa [handles, Named.names, Named.kind] using on_messages hopen hlinked (t := tree)
  · have heach (places : List Nat) (s) :
        ((forM places fun place => do
          visit (← handle .message (place : Nat)) : StateT _ Run PUnit).run s).on tree p =
            (.ok (⟨⟩, (places.map (p.handleAt .message)).foldl step s), p) := by
      induction places generalizing s with
      | nil => rfl
      | cons place places ih =>
        have hfirst : ((do visit (← handle .message (place : Nat)) : StateT _ Run PUnit).run s).on
            tree p = (.ok (⟨⟩, step s (p.handleAt .message place)), p) :=
          hvisit (p.handleAt .message place) s
        rw [List.forM_cons, StateT.run_bind, on_bind, hfirst]
        exact ih _
    have htables : (((tables : Run Tables) : StateT _ Run Tables).run s).on tree p = (.ok (t, s), p) := by
      change (tables >>= fun ts => (pure (ts, s) : Run _)).on tree p = _
      rw [on_bind, on_tables_of_linked hopen hlinked]
      rfl
    rw [forEachMessage, StateT.run_bind, on_bind, htables]
    simp only [List.forM_eq_forM]
    rw [StateT.run_bind, on_bind, heach]
    rfl

end Pool

namespace Linker

variable {l : Linker} {files : List SchemaFile} {t : Tables}

/-- Whatever files of different names are declared: if linking gives tables, then a walk through all
messages and what is nested in them meets them in the order of their places, and every open pool with
these tables goes through them in this order. -/
theorem preordered_of_link (hnames : (files.map (·.name)).Nodup)
    (hlink : (ofFiles files).link = (l, .ok t)) :
    t.Preordered ∧ ∀ (tree : FileTree) (p : Pool), ¬ p.isClosed → p.linked = some t →
      ∀ visited, Walk t.inside t.outermost visited → p.GoesThrough tree visited := by
  obtain ⟨rfl, -⟩ := (coherent_ofFiles hnames).eq_linkedTables hlink
  have hpreordered := preordered_linkedTables (nesting_ofFiles files)
  refine ⟨hpreordered, fun tree p hopen hlinked visited hvisited => ?_⟩
  rw [hvisited.eq_of_starts hpreordered.walk]
  exact Pool.goesThrough tree hopen hlinked

theorem preordered_of_link_sample :
    ∃ l t, (ofFiles [Sample.shapes, Sample.drawing, Sample.again]).link = (l, .ok t) ∧
      t.Preordered ∧ ∀ (tree : FileTree) (p : Pool), ¬ p.isClosed → p.linked = some t →
        ∀ visited, Walk t.inside t.outermost visited → p.GoesThrough tree visited := by
  obtain ⟨l, t, hlink⟩ := exists_tables
    (l := ofFiles [Sample.shapes, Sample.drawing, Sample.again]) (by decide +kernel)
  exact ⟨l, t, hlink, preordered_of_link (by decide +kernel) hlink⟩

end Linker

end ProtoSchema
