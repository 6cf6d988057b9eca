import Mathlib.Data.List.Forall2
import Mathlib.Data.List.Induction
import Mathlib.Data.List.Nodup
import Mathlib.Data.Set.Function
import Mathlib.Order.Interval.Set.Defs

/-!
# Places in lists

An arena is a list whose entries are referred to by their places. The places of the entries that
belong to something are found by `List.findIdxs`; these lemmas lead from such places back to the
entries, and count places over all owners and over consecutive blocks.

Two arenas that hold the same things in different orders are matched by keys: each place leads to
the one where the same key stands. If no key stands at two places, then the matching is a bijection
of the places, and it carries whatever is found in one arena over to the other.
-/

namespace ProtoSchema

variable {α β : Type}

/-- A new key keeps the keys different. -/
theorem nodup_map_append_singleton {key : α → β} {xs : List α} {x : α} (h : (xs.map key).Nodup)
    (hnew : key x ∉ xs.map key) : ((xs ++ [x]).map key).Nodup := by
  rw [List.map_append, List.map_singleton, List.nodup_append]
  refine ⟨h, by simp, ?_⟩
  intro k hk k' hk' heq
  rw [List.mem_singleton] at hk'
  exact hnew (hk' ▸ heq ▸ hk)

/-! ## The entries at places -/

/-- The places where `p` holds are those of the entries that satisfy it. -/
theorem map_getElem?_findIdxs (p : α → Bool) (xs : List α) :
    (xs.findIdxs p).map (xs[·]?) = (xs.filter p).map some := by
  induction xs with
  | nil => rfl
  | cons x xs ih =>
    have htail : (xs.findIdxs p 1).map ((x :: xs)[·]?) = (xs.filter p).map some := by
      rw [List.findIdxs_start, List.map_map, ← ih]
      rfl
    cases h : p x <;> simp [List.findIdxs_cons, h, htail]

theorem filterMap_getElem?_findIdxs (p : α → Bool) (xs : List α) :
    (xs.findIdxs p).filterMap (xs[·]?) = xs.filter p := by
  have h := congrArg (List.filterMap id) (map_getElem?_findIdxs p xs)
  simpa [List.filterMap_map] using h

theorem mapM_getElem?_findIdxs (p : α → Bool) (xs : List α) :
    (xs.findIdxs p).mapM (xs[·]?) = some (xs.filter p) := by
  have h := List.mapM_map (m := Option) (f := (xs[·]?)) (g := id) (l := xs.findIdxs p)
  rw [map_getElem?_findIdxs, List.mapM_map] at h
  have hall : (xs.filter p).mapM (fun x => some x) = some ((xs.filter p).map id) :=
    List.mapM_pure
  simpa [hall] using h.symm

/-- What succeeds at every place succeeds for the whole list. -/
theorem mapM_eq_mapIdx {ε : Type} {f : α → Except ε β} {g : Nat → α → β} {xs : List α}
    (h : ∀ i x, xs[i]? = some x → f x = .ok (g i x)) : xs.mapM f = .ok (xs.mapIdx g) := by
  induction xs generalizing g with
  | nil => rfl
  | cons x xs ih =>
    have hx : f x = .ok (g 0 x) := h 0 x rfl
    have hxs := ih (g := fun i => g (i + 1)) fun i y hy => h (i + 1) y (by simpa using hy)
    rw [List.mapM_cons, hx, hxs, List.mapIdx_cons]
    rfl

/-- What the entries made place by place have in common with those they are made from. -/
theorem map_eq_map_mapIdx {γ : Type} {define : Nat → α → β} {f : β → γ} {g : α → γ}
    (h : ∀ i x, g x = f (define i x)) (xs : List α) : xs.map g = (xs.mapIdx define).map f := by
  apply List.ext_getElem?
  intro i
  simp [Option.map_map, Function.comp_def, ← h]

theorem mem_findIdxs {p : α → Bool} {xs : List α} {i : Nat} :
    i ∈ xs.findIdxs p ↔ ∃ x, xs[i]? = some x ∧ p x := by
  rw [List.mem_findIdxs_iff_exists_getElem_pos]
  constructor
  · rintro ⟨hi, hp⟩
    exact ⟨xs[i], List.getElem?_eq_getElem hi, hp⟩
  · rintro ⟨x, hx, hp⟩
    obtain ⟨hi, rfl⟩ := List.getElem?_eq_some_iff.mp hx
    exact ⟨hi, hp⟩

/-! ## All places together -/

/-- If every entry has one of the owners below `n`, then the places of the entries of each owner are
all places together. -/
theorem perm_flatMap_findIdxs (owner : α → Option Nat) {xs : List α} {n : Nat}
    (h : ∀ x ∈ xs, ∃ i < n, owner x = some i) :
    ((List.range n).flatMap fun i => xs.findIdxs (owner · = some i)).Perm
      (List.range xs.length) := by
  rw [List.perm_ext_iff_of_nodup _ List.nodup_range]
  · intro k
    simp only [List.mem_flatMap, List.mem_range, mem_findIdxs, decide_eq_true_eq]
    constructor
    · rintro ⟨i, -, x, hx, -⟩
      exact (List.getElem?_eq_some_iff.mp hx).1
    · intro hk
      obtain ⟨i, hi, howner⟩ := h xs[k] (List.getElem_mem hk)
      exact ⟨i, hi, xs[k], List.getElem?_eq_getElem hk, howner⟩
  · rw [List.nodup_flatMap]
    refine ⟨fun i _ => List.nodup_findIdxs, ?_⟩
    refine List.nodup_range.imp_of_mem fun {i j} _ _ hij => ?_
    intro k hi hj
    obtain ⟨x, hx, hxi⟩ := mem_findIdxs.mp hi
    obtain ⟨y, hy, hyj⟩ := mem_findIdxs.mp hj
    rw [hx, Option.some.injEq] at hy
    subst hy
    exact hij (Option.some.inj ((of_decide_eq_true hxi).symm.trans (of_decide_eq_true hyj)))

/-- Entries that are made place by place, with what is made of each known from its place. -/
theorem flatMap_mapIdx {γ : Type} {g : Nat → α → β} {f : β → List γ} {k : Nat → List γ}
    (h : ∀ i x, f (g i x) = k i) (xs : List α) :
    (xs.mapIdx g).flatMap f = (List.range xs.length).flatMap k := by
  rw [List.flatMap_def, List.flatMap_def]
  congr 1
  apply List.ext_getElem?
  intro i
  by_cases hi : i < xs.length
  · simp [hi, h]
  · simp [Nat.not_lt.mp hi]

/-! ## Consecutive blocks -/

/-- Entry `k` of the block of an entry stands behind all blocks before. -/
theorem getElem?_flatMap_block (f : α → List β) {xs : List α} {i : Nat} {x : α}
    (hx : xs[i]? = some x) {k : Nat} (hk : k < (f x).length) :
    (xs.flatMap f)[((xs.take i).flatMap f).length + k]? = (f x)[k]? := by
  obtain ⟨hi, rfl⟩ := List.getElem?_eq_some_iff.mp hx
  have hsplit : xs.flatMap f =
      (xs.take i).flatMap f ++ (f xs[i] ++ (xs.drop (i + 1)).flatMap f) := by
    rw [← List.flatMap_cons, ← List.flatMap_append, List.getElem_cons_drop, List.take_append_drop]
  rw [hsplit, List.getElem?_append_right (Nat.le_add_right _ _), Nat.add_sub_cancel_left,
    List.getElem?_append_left hk]

/-- The places of all blocks, one block after the other, are all places. -/
theorem flatten_mapIdx_range' (f : α → List β) (xs : List α) :
    (xs.mapIdx fun i x => List.range' ((xs.take i).flatMap f).length (f x).length).flatten =
      List.range (xs.flatMap f).length := by
  induction xs using List.reverseRecOn with
  | nil => rfl
  | append_singleton xs x ih =>
    have hsame : (xs.mapIdx fun i y => List.range' (((xs ++ [x]).take i).flatMap f).length
        (f y).length) = xs.mapIdx fun i y => List.range' ((xs.take i).flatMap f).length
        (f y).length := by
      apply List.ext_getElem?
      intro i
      by_cases hi : i < xs.length
      · have htake : (xs ++ [x]).take i = xs.take i :=
          List.take_append_of_le_length (Nat.le_of_lt hi)
        simp only [List.getElem?_mapIdx, htake]
      · simp [Nat.not_lt.mp hi]
    rw [List.mapIdx_append, List.flatten_append, hsame, ih, List.flatMap_append,
      List.length_append, List.range_eq_range', List.range_eq_range', ← List.range'_append]
    simp

/-- Every place stands in one of the blocks. -/
theorem exists_block (f : α → List β) {xs : List α} {j : Nat} (hj : j < (xs.flatMap f).length) :
    ∃ i x k, xs[i]? = some x ∧ k < (f x).length ∧ j = ((xs.take i).flatMap f).length + k := by
  rw [← List.mem_range, ← flatten_mapIdx_range', List.mem_flatten] at hj
  obtain ⟨block, hblock, hmem⟩ := hj
  obtain ⟨i, hi, rfl⟩ := List.mem_mapIdx.mp hblock
  obtain ⟨k, hk, rfl⟩ := List.mem_range'.mp hmem
  exact ⟨i, xs[i], k, List.getElem?_eq_getElem hi, hk, by rw [Nat.one_mul]⟩

/-! ## Lists side by side -/

/-- A list of which every entry is found. -/
theorem filterMap_of_map {f : α → Option β} {xs : List α} {ys : List β}
    (h : xs.map f = ys.map some) : xs.filterMap f = ys := by
  have hid : (xs.map f).filterMap id = xs.filterMap f := List.filterMap_map
  rw [← hid, h, List.filterMap_map]
  exact List.filterMap_some

/-- The records at places that all hold one. -/
theorem exists_records {arena : Array α} {places : List Nat} (h : ∀ p ∈ places, p < arena.size) :
    ∃ rs : List α, places.map (arena[·]?) = rs.map some ∧ ∀ r ∈ rs, r ∈ arena := by
  induction places with
  | nil => exact ⟨[], rfl, List.forall_mem_nil _⟩
  | cons p places ih =>
    rw [List.forall_mem_cons] at h
    obtain ⟨rs, hrs, hmem⟩ := ih h.2
    refine ⟨arena[p] :: rs, ?_, List.forall_mem_cons.mpr ⟨Array.getElem_mem h.1, hmem⟩⟩
    rw [List.map_cons, hrs, Array.getElem?_eq_getElem h.1, List.map_cons]

/-- Where all elements have results, each of them has one. -/
theorem exists_mem_of_mapM {f : α → Option β} {xs : List α} {ys : List β}
    (h : xs.mapM f = some ys) {x : α} (hx : x ∈ xs) : ∃ y ∈ ys, f x = some y := by
  induction xs generalizing ys with
  | nil => cases hx
  | cons x' xs ih =>
    simp only [List.mapM_cons, Option.pure_def, Option.bind_eq_bind, Option.bind_eq_some_iff,
      Option.some.injEq] at h
    obtain ⟨y, hy, ys, hys, rfl⟩ := h
    rcases List.mem_cons.mp hx with rfl | hx
    · exact ⟨y, List.mem_cons_self, hy⟩
    · obtain ⟨z, hz, hvalue⟩ := ih hys hx
      exact ⟨z, List.mem_cons_of_mem _ hz, hvalue⟩

theorem forall₂_places {γ : Type} {f : α → Option β} {P : β → γ → Prop} {xs : List α} {ys : List β}
    {ds : List γ} (h : xs.map f = ys.map some) (hP : ys.Forall₂ P ds) :
    xs.Forall₂ (fun x d => ∃ y, f x = some y ∧ P y d) ds := by
  rw [← List.forall₂_map_left_iff (R := fun o d => ∃ y, o = some y ∧ P y d), h,
    List.forall₂_map_left_iff]
  exact hP.imp fun y d hd => ⟨y, rfl, hd⟩

/-- Records that are found stand beside what is beside their places. -/
theorem forall₂_of_found {γ δ : Type} {f : α → Option β} {g : γ → β} {P : β → δ → Prop} {xs : List α}
    {ys : List γ} {ds : List δ} (h : xs.map f = ys.map fun y => some (g y))
    (hP : xs.Forall₂ (fun x d => ∃ r, f x = some r ∧ P r d) ds) :
    ys.Forall₂ (fun y d => P (g y) d) ds := by
  have hfound : (xs.map f).Forall₂ (fun r? d => ∃ r, r? = some r ∧ P r d) ds :=
    List.forall₂_map_left_iff.mpr hP
  rw [h, List.forall₂_map_left_iff] at hfound
  exact hfound.imp fun y d ⟨r, hr, hd⟩ => Option.some.inj hr ▸ hd

/-- What is found beside what was made of some items is beside the items. -/
theorem forall₂_of_maps {α' β' γ δ : Type} {f : α → γ} {f' : α' → γ} {g : β → δ} {g' : β' → δ}
    {R : γ → δ → Prop} {xs : List α} {xs' : List α'} {ys : List β} {ys' : List β'}
    (hxs : xs.map f = xs'.map f') (hys : ys.map g = ys'.map g')
    (h : xs'.Forall₂ (fun x y => R (f' x) (g' y)) ys') : xs.Forall₂ (fun x y => R (f x) (g y)) ys := by
  have hmaps : (xs'.map f').Forall₂ R (ys'.map g') := by
    rwa [List.forall₂_map_left_iff, List.forall₂_map_right_iff]
  rw [← hxs, ← hys, List.forall₂_map_left_iff, List.forall₂_map_right_iff] at hmaps
  exact hmaps

theorem forall₂_mem_both {R : α → β → Prop} {xs : List α} {ys : List β}
    (h : xs.Forall₂ R ys) : xs.Forall₂ (fun x y => x ∈ xs ∧ y ∈ ys ∧ R x y) ys := by
  rw [List.forall₂_iff_zip] at h ⊢
  exact ⟨h.1, fun hzip => ⟨(List.of_mem_zip hzip).1, (List.of_mem_zip hzip).2, h.2 hzip⟩⟩

theorem forall₂_mem {R : α → β → Prop} {xs : List α} {ys : List β} (h : xs.Forall₂ R ys) :
    xs.Forall₂ (fun x y => x ∈ xs ∧ R x y) ys :=
  (forall₂_mem_both h).imp fun _ _ hxy => ⟨hxy.1, hxy.2.2⟩

theorem exists_of_forall₂ {R : α → β → Prop} {xs : List α} {ys : List β} (h : xs.Forall₂ R ys) :
    ∀ y ∈ ys, ∃ x ∈ xs, R x y := by
  induction h with
  | nil => exact List.forall_mem_nil _
  | @cons x y xs ys hxy _ ih =>
    refine List.forall_mem_cons.mpr ⟨⟨x, by simp, hxy⟩, fun z hz => ?_⟩
    obtain ⟨w, hw, hwz⟩ := ih z hz
    exact ⟨w, List.mem_cons_of_mem x hw, hwz⟩

theorem getElem?_of_forall₂ {R : α → β → Prop} {xs : List α} {ys : List β}
    (h : xs.Forall₂ R ys) {i : Nat} {x : α} (hx : xs[i]? = some x) : ∃ y, ys[i]? = some y ∧ R x y := by
  induction h generalizing i with
  | nil => simp at hx
  | @cons x' y' _ _ hxy _ ih =>
    cases i with
    | zero =>
      obtain rfl := Option.some.inj hx
      exact ⟨y', rfl, hxy⟩
    | succ i => exact ih hx

/-- What is equal for all items at the same places of two lists is equal for the lists. -/
theorem map_eq_map_of_forall₂ {γ : Type} {P : α → β → Prop} {f : α → γ} {f' : β → γ}
    (hP : ∀ a b, P a b → f' b = f a) {xs : List α} {ys : List β} (h : xs.Forall₂ P ys) :
    ys.map f' = xs.map f := by
  induction h with
  | nil => rfl
  | cons hfirst _ ih => rw [List.map_cons, List.map_cons, hP _ _ hfirst, ih]

/-- Where lists have the same column, the same entries are found by it. -/
theorem findIdxs_of_map_eq {γ : Type} {f : α → γ} {g : β → γ} {xs : List α} {ys : List β}
    (h : ys.map g = xs.map f) (p : γ → Bool) : ys.findIdxs (p ∘ g) = xs.findIdxs (p ∘ f) := by
  rw [← List.findIdxs_map, h, List.findIdxs_map]

/-! ## Matching by keys -/

variable {κ : Type} [DecidableEq κ] {keys keys' : List κ}

/-- The place where a key stands; without a key, the place behind all keys. -/
def placeOf (keys : List κ) (key : Option κ) : Nat := key.elim keys.length keys.idxOf

/-- The place in `keys'` of the key that stands at a place in `keys`. -/
def matchPlace (keys keys' : List κ) (i : Nat) : Nat := placeOf keys' keys[i]?

/-- A key is found where it stands. -/
theorem placeOf_eq (h : keys.Nodup) {i : Nat} {k : κ} (hk : keys[i]? = some k) :
    placeOf keys (some k) = i := by
  obtain ⟨hi, rfl⟩ := List.getElem?_eq_some_iff.mp hk
  exact h.idxOf_getElem i hi

theorem matchPlace_eq (h : keys'.Nodup) {i j : Nat} {k : κ} (hi : keys[i]? = some k)
    (hj : keys'[j]? = some k) : matchPlace keys keys' i = j := by
  rw [matchPlace, hi, placeOf_eq h hj]

/-- Places behind all keys stay there. -/
theorem matchPlace_of_none {i : Nat} (h : keys[i]? = none) :
    matchPlace keys keys' i = keys'.length := by
  rw [matchPlace, h]
  rfl

/-- Where the same keys stand, the same key stands at matching places. -/
theorem getElem?_keys_matchPlace (h : keys.Perm keys') (hnodup : keys'.Nodup) (i : Nat) :
    keys'[matchPlace keys keys' i]? = keys[i]? := by
  cases hk : keys[i]? with
  | none =>
    rw [matchPlace_of_none hk, List.getElem?_eq_none_iff]
  | some k =>
    obtain ⟨j, hj⟩ := List.mem_iff_getElem?.mp (h.mem_iff.mp (List.mem_of_getElem? hk))
    rw [matchPlace_eq hnodup hk hj, hj]

/-- The matching is a bijection of the places. -/
theorem bijOn_matchPlace (h : keys.Perm keys') (hnodup : keys'.Nodup) :
    Set.BijOn (matchPlace keys keys') (Set.Iio keys.length) (Set.Iio keys'.length) := by
  have hkeys : keys.Nodup := h.nodup_iff.mpr hnodup
  refine ⟨?_, ?_, ?_⟩
  · intro i hi
    have hsame := getElem?_keys_matchPlace h hnodup i
    rw [List.getElem?_eq_getElem hi] at hsame
    exact (List.getElem?_eq_some_iff.mp hsame).1
  · intro i hi j hj heq
    have hi' := getElem?_keys_matchPlace h hnodup i
    rw [heq, getElem?_keys_matchPlace h hnodup j] at hi'
    exact ((List.getElem?_inj hj hkeys).mp hi').symm
  · intro j (hj : j < keys'.length)
    have hj' : keys'[j]? = some keys'[j] := List.getElem?_eq_getElem hj
    obtain ⟨i, hi⟩ := List.mem_iff_getElem?.mp (h.mem_iff.mpr (List.getElem_mem hj))
    exact ⟨i, (List.getElem?_eq_some_iff.mp hi).1, matchPlace_eq hnodup hi hj'⟩

/-- Where no key stands twice, the entry of a key is the same in any order. -/
theorem find?_eq_of_perm {key : α → κ} {xs ys : List α} (h : ys.Perm xs)
    (hnodup : (xs.map key).Nodup) (k : κ) : ys.find? (key · = k) = xs.find? (key · = k) := by
  cases hx : xs.find? (key · = k) with
  | none =>
    rw [List.find?_eq_none] at hx ⊢
    exact fun y hy => hx y (h.mem_iff.mp hy)
  | some x =>
    have hkey : key x = k := of_decide_eq_true (List.find?_some hx :)
    have hmem := List.mem_of_find?_eq_some hx
    cases hy : ys.find? (key · = k) with
    | none => exact absurd (decide_eq_true hkey) (List.find?_eq_none.mp hy x (h.mem_iff.mpr hmem))
    | some y =>
      have hkey' : key y = k := of_decide_eq_true (List.find?_some hy :)
      have hmem' := h.mem_iff.mp (List.mem_of_find?_eq_some hy)
      exact congrArg some (List.inj_on_of_nodup_map hnodup hmem' hmem (hkey'.trans hkey.symm))

/-! ## Entries at matching places -/

section

variable {xs : List α} {ys : List β} {key : α → κ} {key' : β → κ}

/-- What stands in `xs` stands, changed by `g`, at the matching place in `ys`. -/
theorem getElem?_matchPlace {g : α → β} (h : ∀ x ∈ xs, g x ∈ ys)
    (hkey : ∀ x ∈ xs, key' (g x) = key x) (hnodup : (ys.map key').Nodup) (i : Nat) :
    ys[matchPlace (xs.map key) (ys.map key') i]? = (xs[i]?).map g := by
  cases hx : xs[i]? with
  | none =>
    rw [matchPlace_of_none (by simp [hx]), Option.map_none, List.getElem?_eq_none_iff]
    simp
  | some x =>
    have hmem := List.mem_of_getElem? hx
    obtain ⟨j, hj⟩ := List.mem_iff_getElem?.mp (h x hmem)
    have hk : (xs.map key)[i]? = some (key x) := by simp [hx]
    have hk' : (ys.map key')[j]? = some (key x) := by simp [hj, hkey x hmem]
    rw [matchPlace_eq hnodup hk hk', hj, Option.map_some]

/-- The places of some entries are those of their keys. -/
theorem map_placeOf_findIdxs (p : α → Bool) (keys' : List κ) :
    (xs.findIdxs p).map (matchPlace (xs.map key) keys') =
      ((xs.filter p).map key).map fun k => placeOf keys' (some k) := by
  have hplaces := congrArg (List.map fun x : Option α => placeOf keys' (x.map key))
    (map_getElem?_findIdxs p xs)
  have hmatch : matchPlace (xs.map key) keys' = fun i => placeOf keys' ((xs[i]?).map key) := by
    funext i
    rw [matchPlace, List.getElem?_map]
  rw [hmatch, List.map_map]
  simpa [Function.comp_def] using hplaces

theorem findIdxs_eq_map_placeOf (hnodup : (ys.map key').Nodup) (q : β → Bool) :
    ys.findIdxs q = ((ys.filter q).map key').map fun k => placeOf (ys.map key') (some k) := by
  rw [← map_placeOf_findIdxs]
  refine (List.map_id _).symm.trans (List.map_congr_left fun i hi => ?_)
  obtain ⟨y, hy, -⟩ := mem_findIdxs.mp hi
  have hk : (ys.map key')[i]? = some (key' y) := by simp [hy]
  exact (matchPlace_eq hnodup hk hk).symm

/-- Entries with the same keys in the same order stand at matching places. -/
theorem findIdxs_eq_map_matchPlace {p : α → Bool} {q : β → Bool}
    (h : (ys.filter q).map key' = (xs.filter p).map key) (hnodup : (ys.map key').Nodup) :
    ys.findIdxs q = (xs.findIdxs p).map (matchPlace (xs.map key) (ys.map key')) := by
  rw [findIdxs_eq_map_placeOf hnodup, h, map_placeOf_findIdxs]

/-- Entries with the same keys stand at matching places. -/
theorem perm_findIdxs_matchPlace {p : α → Bool} {q : β → Bool}
    (h : ((ys.filter q).map key').Perm ((xs.filter p).map key)) (hnodup : (ys.map key').Nodup) :
    (ys.findIdxs q).Perm ((xs.findIdxs p).map (matchPlace (xs.map key) (ys.map key'))) := by
  rw [findIdxs_eq_map_placeOf hnodup, map_placeOf_findIdxs]
  exact h.map _

end

end ProtoSchema
