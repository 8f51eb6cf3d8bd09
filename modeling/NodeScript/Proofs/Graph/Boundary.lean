import NodeScript.Proofs.Graph.Sound

/-!
# Aligning the boundary

The alignment after a new result gives the sink one more port. Ports that fit the interface already
stay as they are, and so do all other nodes.
-/

namespace NodeScript

open List

namespace OrderedMap

variable {κ α σ : Type} [DecidableEq κ]

/-- A step that changes the value of one key only. -/
theorem runEntries_single {f : α → σ → α × σ} {k : κ} {a : α} {entries : List (κ × α)}
    (nodup : (entries.map Prod.fst).Nodup) (hmem : (k, a) ∈ entries)
    (hother : ∀ e ∈ entries, e.1 ≠ k → ∀ s, f e.2 s = (e.2, s)) (s : σ) :
    runEntries f entries s =
      (entries.map fun e => (e.1, if e.1 = k then (f a s).1 else e.2), (f a s).2) := by
  have hsame : ∀ rest : List (κ × α), (∀ e ∈ rest, e.1 ≠ k) → (∀ e ∈ rest, ∀ s, f e.2 s = (e.2, s)) →
      ∀ (a' : α) (s : σ), runEntries f rest s = (rest.map fun e => (e.1, if e.1 = k then a' else e.2), s) := by
    intro rest hkeys hid a' s
    induction rest with
    | nil => rfl
    | cons e rest ih =>
      have hne : e.1 ≠ k := hkeys e mem_cons_self
      rw [runEntries, hid e mem_cons_self]
      dsimp only
      rw [ih (fun e he => hkeys e (.tail _ he)) fun e he => hid e (.tail _ he)]
      simp [hne]
  induction entries generalizing s with
  | nil => cases hmem
  | cons e rest ih =>
    rw [map_cons, nodup_cons] at nodup
    rw [runEntries]
    by_cases hk : e.1 = k
    · have he : e.2 = a := by
        rcases mem_cons.mp hmem with h | h
        · rw [← h]
        · exact absurd (hk ▸ mem_map_of_mem h) nodup.1
      have hkeys : ∀ e' ∈ rest, e'.1 ≠ k := fun e' he' heq =>
        nodup.1 (hk.symm ▸ heq ▸ mem_map_of_mem he')
      rw [he]
      dsimp only
      rw [hsame rest hkeys (fun e' he' => hother e' (mem_cons_of_mem _ he') (hkeys e' he')) (f a s).1]
      simp [hk]
    · have hrest : (k, a) ∈ rest := by
        rcases mem_cons.mp hmem with h | h
        · exact absurd (congrArg Prod.fst h).symm hk
        · exact h
      rw [hother e mem_cons_self hk]
      dsimp only
      rw [ih nodup.2 hrest fun e' he' => hother e' (mem_cons_of_mem _ he')]
      simp [hk]

/-- The map after such a step. -/
theorem mapState_single {f : α → StateM σ α} {m : OrderedMap κ α} {k : κ} {a : α} (hget : m.get? k = some a)
    (hother : ∀ j b, m.get? j = some b → j ≠ k → ∀ s, f b s = (b, s)) (s : σ) :
    m.mapState f s = (m.modify k fun _ => (f a s).1, (f a s).2) := by
  have h := runEntries_single m.nodup (get?_eq_some_iff.mp hget)
    (fun e he hne => hother e.1 e.2 (get?_eq_some_iff.mpr he) hne) s
  refine Prod.ext (ext ?_) ?_
  · exact congrArg Prod.fst h
  · change (runEntries f m.entries s).2 = _
    rw [h]

end OrderedMap

namespace Boundary

/-- Ports that show the entries stay as they are, and a further entry gets a new port. -/
theorem align_append {direction : Direction} {entries : List Entry} {ports : List Port}
    (h : ports.map Port.toSocket = entries.map fun entry => entry.socket direction)
    (more : List Entry) (s : Supply) :
    align direction (entries ++ more) ports s =
      (ports ++ (align direction more [] s).1, (align direction more [] s).2) := by
  induction entries generalizing ports s with
  | nil =>
    rw [map_nil, map_eq_nil_iff] at h
    rw [h]
    rfl
  | cons entry entries ih =>
    cases ports with
    | nil => cases h
    | cons port ports =>
      rw [map_cons, map_cons, List.cons.injEq] at h
      rw [cons_append, align, Supply.bind_apply, ih h.2]
      have hport : ({ entry.socket direction with id := port.id } : Port) = port := by
        rw [← h.1]
      exact congrArg (fun first => (first :: (ports ++ (align direction more [] s).1),
        (align direction more [] s).2)) hport

theorem align_nil (direction : Direction) (s : Supply) (ports : List Port) :
    align direction [] ports s = ([], s) := by
  cases ports <;> rfl

end Boundary

end NodeScript
