import Mathlib.Data.List.Basic
import NodeScript.Store

/-!
# Lookups

What a lookup finds in an ordered map after an update, and the same for nodes of graphs and graphs
of stores.
-/

namespace NodeScript

open List

namespace OrderedMap

variable {κ α β σ : Type}

@[simp] theorem keys_mapEntries (m : OrderedMap κ α) (f : κ × α → β) : (m.mapEntries f).keys = m.keys := by
  simp [keys, mapEntries]

theorem keys_map (m : OrderedMap κ α) (g : α → β) : (m.map g).keys = m.keys := keys_mapEntries m _

variable [DecidableEq κ]

@[simp] theorem get?_empty (k : κ) : (∅ : OrderedMap κ α).get? k = none := rfl

theorem get?_eq_some_iff {m : OrderedMap κ α} {k : κ} {a : α} :
    m.get? k = some a ↔ (k, a) ∈ m.entries := by
  obtain ⟨entries, nodup⟩ := m
  simp only [get?]
  induction entries with
  | nil => simp
  | cons e rest ih =>
    rw [map_cons, nodup_cons] at nodup
    by_cases h : e.1 = k
    · have hrest : (k, a) ∉ rest := fun hmem => nodup.1 (h ▸ mem_map_of_mem hmem)
      simp only [find?_cons, decide_true, h, Option.map_some, Option.some.injEq, mem_cons, hrest,
        or_false]
      constructor
      · rintro rfl
        rw [← h]
      · intro heq
        rw [← heq]
    · have hne : (k, a) ≠ e := fun heq => h (heq ▸ rfl)
      simp only [find?_cons, h, decide_false, mem_cons, hne, false_or]
      exact ih nodup.2

theorem mem_keys_iff {m : OrderedMap κ α} {k : κ} : k ∈ m.keys ↔ ∃ a, m.get? k = some a := by
  simp only [get?_eq_some_iff, keys, mem_map, Prod.exists, exists_and_right, exists_eq_right]

theorem get?_eq_none_iff {m : OrderedMap κ α} {k : κ} : m.get? k = none ↔ k ∉ m.keys := by
  rw [mem_keys_iff, Option.eq_none_iff_forall_ne_some]
  simp

theorem mem_values_iff {m : OrderedMap κ α} {a : α} : a ∈ m.values ↔ ∃ k, m.get? k = some a := by
  simp only [get?_eq_some_iff, values, mem_map, Prod.exists, exists_eq_right]

theorem get?_modify (m : OrderedMap κ α) (k j : κ) (f : α → α) :
    (m.modify k f).get? j = if j = k then (m.get? j).map f else m.get? j := by
  obtain ⟨entries, nodup⟩ := m
  simp only [get?, modify, mapEntries]
  clear nodup
  induction entries with
  | nil => simp
  | cons e rest ih =>
    simp only [map_cons, find?_cons]
    by_cases h : e.1 = j
    · simp only [h, decide_true, Option.map_some]
      by_cases hjk : j = k
      · simp [hjk]
      · simp [hjk]
    · simp only [h, decide_false]
      exact ih

/-- A change of a present key stays at its place. -/
theorem entries_modify {m : OrderedMap κ α} {k : κ} {a : α} (h : m.get? k = some a) :
    ∃ before after, m.entries = before ++ (k, a) :: after ∧
      ∀ f, (m.modify k f).entries = before ++ (k, f a) :: after := by
  obtain ⟨before, after, hsplit⟩ := append_of_mem (get?_eq_some_iff.mp h)
  have hnodup := m.nodup
  rw [hsplit, map_append, map_cons, nodup_append, nodup_cons] at hnodup
  obtain ⟨_, ⟨hafter, _⟩, hbefore⟩ := hnodup
  refine ⟨before, after, hsplit, fun f => ?_⟩
  have hsame : ∀ entries : List (κ × α), (∀ e ∈ entries, e.1 ≠ k) →
      (entries.map fun e => (e.1, if e.1 = k then f e.2 else e.2)) = entries := by
    intro entries hne
    refine (map_congr_left fun e he => ?_).trans (map_id entries)
    simp [hne e he]
  simp only [modify, mapEntries, hsplit, map_append, map_cons, if_true]
  rw [hsame before, hsame after]
  · intro e he heq
    have hkey : e.1 ∈ after.map Prod.fst := mem_map_of_mem he
    exact hafter (heq ▸ hkey)
  · exact fun e he heq => hbefore e.1 (mem_map_of_mem he) k mem_cons_self heq

theorem modify_eq_const {m : OrderedMap κ α} {k : κ} {a : α} (h : m.get? k = some a) (f : α → α) :
    m.modify k f = m.modify k fun _ => f a := by
  obtain ⟨before, after, _, hmodify⟩ := entries_modify h
  refine ext ?_
  rw [hmodify, hmodify]

theorem get?_insert (m : OrderedMap κ α) (k j : κ) (a : α) :
    (m.insert k a).get? j = if j = k then some a else m.get? j := by
  unfold insert
  split
  next h =>
    rw [get?_modify]
    split
    next hjk =>
      obtain ⟨old, hold⟩ := mem_keys_iff.mp h
      rw [hjk, hold]
      rfl
    next => rfl
  next h =>
    have hnone : m.get? k = none := get?_eq_none_iff.mpr h
    obtain ⟨entries, nodup⟩ := m
    simp only [get?, find?_append, find?_singleton]
    by_cases hjk : j = k
    · subst hjk
      simp only [get?, Option.map_eq_none_iff] at hnone
      simp [hnone]
    · have hkj : ¬ k = j := fun h => hjk h.symm
      simp [hjk, hkj]

theorem get?_insert_self {m : OrderedMap κ α} {k : κ} {a : α} : (m.insert k a).get? k = some a :=
  (get?_insert m k k a).trans (if_pos rfl)

theorem get?_insert_of_ne {m : OrderedMap κ α} {k j : κ} {a : α} (h : j ≠ k) : (m.insert k a).get? j = m.get? j :=
  (get?_insert m k j a).trans (if_neg h)

theorem get?_erase (m : OrderedMap κ α) (k j : κ) :
    (m.erase k).get? j = if j = k then none else m.get? j := by
  simp only [get?, erase, find?_filter]
  split
  next h =>
    subst h
    rw [Option.map_eq_none_iff, find?_eq_none]
    intro e _ htest
    simp at htest
  next h =>
    congr 2
    funext e
    by_cases he : e.1 = j
    · simp [he, h]
    · simp [he]

/-- What is found without a key is found with it. -/
theorem erase_of_get?_eq_none {m : OrderedMap κ α} {k : κ} (h : m.get? k = none) : m.erase k = m := by
  refine ext (filter_eq_self.mpr fun e he => decide_eq_true fun heq => ?_)
  rw [get?_eq_some_iff.mpr (heq ▸ he : (k, e.2) ∈ m.entries)] at h
  cases h

theorem get?_of_erase {m : OrderedMap κ α} {k j : κ} {a : α}
    (h : (m.erase k).get? j = some a) : m.get? j = some a := by
  rw [get?_erase] at h
  split at h
  · cases h
  · exact h

theorem keys_insert_of_mem {m : OrderedMap κ α} {k : κ} (h : k ∈ m.keys) (a : α) :
    (m.insert k a).keys = m.keys := by
  unfold insert
  rw [dif_pos h]
  exact keys_mapEntries m _

theorem entries_insert_of_not_mem {m : OrderedMap κ α} {k : κ} (h : k ∉ m.keys) (a : α) :
    (m.insert k a).entries = m.entries ++ [(k, a)] := by
  unfold insert
  rw [dif_neg h]

/-- An insertion keeps the keys in their order. -/
theorem keys_prefix_insert (m : OrderedMap κ α) (k : κ) (a : α) : m.keys <+: (m.insert k a).keys := by
  by_cases h : k ∈ m.keys
  · exact (keys_insert_of_mem h a).symm ▸ prefix_refl _
  · unfold keys
    rw [entries_insert_of_not_mem h, map_append]
    exact prefix_append _ _

theorem modify_modify (m : OrderedMap κ α) (k : κ) (f g : α → α) :
    (m.modify k f).modify k g = m.modify k (g ∘ f) := by
  refine ext ?_
  simp only [modify, mapEntries, map_map]
  refine map_congr_left fun e _ => ?_
  by_cases h : e.1 = k
  · simp [h]
  · simp [h]

/-- A value is put in the place of itself. -/
theorem modify_self {m : OrderedMap κ α} {k : κ} {a : α} (h : m.get? k = some a) : (m.modify k fun _ => a) = m := by
  refine ext ((map_congr_left fun e he => ?_).trans (map_id m.entries))
  by_cases hkey : e.1 = k
  · have hget : m.get? e.1 = some e.2 := get?_eq_some_iff.mpr he
    rw [hkey, h, Option.some.injEq] at hget
    simp [← hkey, hget]
  · simp [hkey]

theorem insert_self {m : OrderedMap κ α} {k : κ} {a : α} (h : m.get? k = some a) : m.insert k a = m := by
  rw [insert, dif_pos (mem_keys_iff.mpr ⟨a, h⟩), modify_self h]

/-- A key without a value is not changed. -/
theorem modify_of_not_mem {m : OrderedMap κ α} {k : κ} (h : k ∉ m.keys) (f : α → α) : m.modify k f = m := by
  refine ext ((map_congr_left fun e he => ?_).trans (map_id m.entries))
  have hne : e.1 ≠ k := fun heq => h (heq ▸ mem_map_of_mem he)
  simp [hne]

/-- Only the last value that a key is given counts. -/
theorem modify_insert (m : OrderedMap κ α) (k : κ) (a b : α) :
    (m.insert k a).modify k (fun _ => b) = m.insert k b := by
  refine ext ?_
  by_cases h : k ∈ m.keys
  · simp only [insert, dif_pos h, modify, mapEntries, map_map]
    refine map_congr_left fun e _ => ?_
    by_cases he : e.1 = k
    · simp [he]
    · simp [he]
  · have hold : (m.modify k fun _ => b).entries = m.entries := by rw [modify_of_not_mem h]
    rw [entries_insert_of_not_mem h, ← hold]
    simp only [modify, mapEntries, entries_insert_of_not_mem h, map_append]
    simp

/-- Changes at different keys commute. -/
theorem modify_insert_of_ne (m : OrderedMap κ α) {k j : κ} (hne : j ≠ k) (a : α) (f : α → α) :
    (m.insert k a).modify j f = (m.modify j f).insert k a := by
  refine ext ?_
  by_cases h : k ∈ m.keys
  · have h' : k ∈ (m.modify j f).keys := by rwa [modify, keys_mapEntries]
    rw [insert, dif_pos h, insert, dif_pos h']
    simp only [modify, mapEntries, map_map]
    refine map_congr_left fun e _ => ?_
    by_cases hk : e.1 = k
    · simp [hk, hne.symm]
    · simp [hk]
  · have h' : k ∉ (m.modify j f).keys := by rwa [modify, keys_mapEntries]
    rw [entries_insert_of_not_mem h']
    simp [modify, mapEntries, entries_insert_of_not_mem h, hne.symm]

theorem insert_insert (m : OrderedMap κ α) (k : κ) (a b : α) : (m.insert k a).insert k b = m.insert k b := by
  have hkey : k ∈ (m.insert k a).keys := mem_keys_iff.mpr ⟨a, get?_insert_self⟩
  rw [← modify_insert m k a b, insert, dif_pos hkey]

/-- Inserting new keys one after another puts them behind the others. -/
theorem entries_foldl_insert {m : OrderedMap κ α} {pairs : List (κ × α)}
    (nodup : (m.entries.map Prod.fst ++ pairs.map Prod.fst).Nodup) :
    (pairs.foldl (fun m e => m.insert e.1 e.2) m).entries = m.entries ++ pairs := by
  induction pairs generalizing m with
  | nil => simp
  | cons e rest ih =>
    have hfree : e.1 ∉ m.keys := by
      intro hmem
      exact (nodup_append.mp nodup).2.2 e.1 hmem e.1 (by simp) rfl
    have hentries := entries_insert_of_not_mem hfree e.2
    rw [foldl_cons, ih, hentries]
    · simp
    · rw [hentries]
      simpa using nodup

/-- A map is made of its own entries. -/
theorem ofList_entries (m : OrderedMap κ α) : ofList m.entries = m := by
  have h := @entries_foldl_insert κ α _ empty m.entries (by simpa [empty] using m.nodup)
  exact ext h

/-- After insertions the last one of a key counts. -/
theorem get?_foldl_insert {γ : Type} (key : γ → κ) (value : γ → α) (as : List γ) (m : OrderedMap κ α) (k : κ) :
    (as.foldl (fun m a => m.insert (key a) (value a)) m).get? k =
      ((as.reverse.find? fun a => key a = k).map value).or (m.get? k) := by
  induction as generalizing m with
  | nil => rfl
  | cons a rest ih =>
    rw [foldl_cons, ih, get?_insert, reverse_cons, find?_append]
    cases rest.reverse.find? fun a => key a = k with
    | some last => rfl
    | none =>
      by_cases hkey : key a = k
      · simp [hkey]
      · simp [hkey, Ne.symm hkey]

theorem mem_of_mem_ofList {pairs : List (κ × α)} {e : κ × α} (h : e ∈ (ofList pairs).entries) : e ∈ pairs := by
  have hlast := get?_foldl_insert Prod.fst Prod.snd pairs (empty : OrderedMap κ α) e.1
  rw [show pairs.foldl _ _ = ofList pairs from rfl, get?_eq_some_iff.mpr h] at hlast
  obtain ⟨pair, hfind, hvalue⟩ := Option.map_eq_some_iff.mp ((Option.or_none.symm.trans hlast.symm))
  have hkey : pair.1 = e.1 := by simpa using find?_some hfind
  have hmem : pair ∈ pairs := mem_reverse.mp (mem_of_find?_eq_some hfind)
  rwa [show pair = e from Prod.ext hkey hvalue] at hmem

/-! ### Maps of values -/

theorem get?_map (m : OrderedMap κ α) (g : α → β) (k : κ) : (m.map g).get? k = (m.get? k).map g := by
  rw [get?, OrderedMap.map, mapEntries, find?_map, Option.map_map, get?, Option.map_map]
  rfl

/-! ### Maps with the same lookups -/

theorem entries_map_some (m : OrderedMap κ α) :
    m.entries.map (fun e => (e.1, some e.2)) = m.keys.map fun k => (k, m.get? k) := by
  rw [keys, map_map]
  refine map_congr_left fun e he => ?_
  rw [Function.comp_apply, get?_eq_some_iff.mpr he]

theorem ext_get? {m m' : OrderedMap κ α} (keys : m.keys = m'.keys)
    (lookups : ∀ k, m.get? k = m'.get? k) : m = m' := by
  have hinjective : Function.Injective fun e : κ × α => (e.1, some e.2) := by
    rintro ⟨k, a⟩ ⟨k', a'⟩ h
    cases h
    rfl
  apply OrderedMap.ext
  apply map_injective_iff.mpr hinjective
  rw [entries_map_some, entries_map_some, keys]
  exact map_congr_left fun k _ => by rw [lookups]

/-- Keys at the end and changes are those of one insertion, where all other keys have what they
had. -/
theorem eq_insert {m m' : OrderedMap κ α} {k : κ} {a : α} (order : m.keys <+: m'.keys)
    (others : ∀ j, j ≠ k → m'.get? j = m.get? j) (found : m'.get? k = some a) : m' = m.insert k a := by
  have hlookups : ∀ j, m'.get? j = (m.insert k a).get? j := by
    intro j
    rw [get?_insert]
    split
    · next heq => exact heq ▸ found
    · next hne => exact others j hne
  refine ext_get? ?_ hlookups
  obtain ⟨added, hadded⟩ := order
  have hnodup : (m.keys ++ added).Nodup := hadded ▸ m'.nodup
  obtain ⟨-, hnodup, hdisjoint⟩ := nodup_append.mp hnodup
  have hsame : ∀ j ∈ added, j = k := by
    intro j hj
    by_contra hne
    have hmem : j ∈ m'.keys := hadded ▸ mem_append_right _ hj
    obtain ⟨b, hb⟩ := mem_keys_iff.mp hmem
    have hold : j ∈ m.keys := mem_keys_iff.mpr ⟨b, others j hne ▸ hb⟩
    exact hdisjoint j hold j hj rfl
  by_cases hkey : k ∈ m.keys
  · have hnone : added = [] := by
      refine eq_nil_iff_forall_not_mem.mpr fun j hj => ?_
      exact hdisjoint k hkey j hj (hsame j hj).symm
    rw [keys_insert_of_mem hkey, ← hadded, hnone, append_nil]
  · have hmem : k ∈ added := by
      have hnew : k ∈ m.keys ++ added := hadded ▸ mem_keys_iff.mpr ⟨a, found⟩
      exact (mem_append.mp hnew).resolve_left hkey
    have hone : added = [k] := by
      match added, hmem, hsame, hnodup with
      | [j], _, hsame, _ => rw [hsame j mem_cons_self]
      | j :: j' :: rest, _, hsame, hnodup =>
        have heq : j = j' := by rw [hsame j (by simp), hsame j' (by simp)]
        exact absurd (heq ▸ mem_cons_self) (nodup_cons.mp hnodup).1
    rw [← hadded, hone, keys, keys, entries_insert_of_not_mem hkey, map_append]
    rfl

end OrderedMap

end NodeScript
