import NodeScript.Proofs.Decompile.Names
import NodeScript.Proofs.Graph.Search

/-!
# The order of statements

What a node depends on is visited before it. Where dependencies go down in some rank, a visit of a
node leaves no dependency of it open, so each node stands behind all the nodes that it depends on,
be it through nodes that make no statement.
-/

namespace NodeScript.Graph

open List

variable {graph : Graph} {spans : List Span} {rank : NodeId → Nat} {good : NodeId → Prop} {pending : NodeId → Prop}
  {walk : Walk} {id other : NodeId}

/-- Nodes on which a set of nodes depends are in the set and have a lower rank. -/
structure Founded (graph : Graph) (spans : List Span) (rank : NodeId → Nat) (good : NodeId → Prop) : Prop where
  present : ∀ {id}, good id → (graph.node? id).isSome = true
  closed : ∀ {id other}, good id → other ∈ graph.dependencies spans id → good other
  lower : ∀ {id other}, good id → other ∈ graph.dependencies spans id → rank other < rank id

/-- The node makes a statement. -/
def Speaks (graph : Graph) (id : NodeId) : Prop := ∃ node, graph.node? id = some node ∧ node.role.isZoneEntry = false

/-- Everything visited is finished, except for the nodes whose visit is going on. -/
structure Walk.Settled (graph : Graph) (spans : List Span) (pending : NodeId → Prop) (walk : Walk) : Prop where
  deps : ∀ id ∈ walk.visited, ¬ pending id → ∀ other ∈ graph.dependencies spans id, other ∈ walk.visited
  order : ∀ id ∈ walk.visited, ¬ pending id → graph.Speaks id → id ∈ walk.order
  sorted : Sorts (fun id other =>
    Relation.TransGen (fun id other => other ∈ graph.dependencies spans id) id other ∧ graph.Speaks other) walk.order

/-- Visiting nodes one after another. -/
theorem settled_foldl {step : Walk → NodeId → Walk} (hgrows : ∀ (walk : Walk) id, walk.Grows (step walk id))
    (ids : List NodeId) (hstep : ∀ walk : Walk, ∀ id ∈ ids, walk.Settled graph spans pending →
      (step walk id).Settled graph spans pending ∧ id ∈ (step walk id).visited)
    (settled : walk.Settled graph spans pending) :
    (ids.foldl step walk).Settled graph spans pending ∧ ∀ id ∈ ids, id ∈ (ids.foldl step walk).visited := by
  induction ids generalizing walk with
  | nil => exact ⟨settled, fun _ h => absurd h not_mem_nil⟩
  | cons id rest ih =>
    obtain ⟨settled₁, hid⟩ := hstep walk id mem_cons_self settled
    obtain ⟨settled₂, hrest⟩ := ih (fun walk other hother => hstep walk other (.tail _ hother)) settled₁
    refine ⟨settled₂, fun other hother => ?_⟩
    rcases mem_cons.mp hother with rfl | hother
    · exact (Walk.grows_foldl hgrows rest _).visited _ hid
    · exact hrest other hother

namespace Walk.Settled

variable {walk : Walk} {pending : NodeId → Prop} {id : NodeId}

/-- A visit of a node begins. -/
theorem mark (settled : walk.Settled graph spans pending) (id : NodeId) :
    Settled graph spans (fun other => pending other ∨ other = id) { walk with visited := id :: walk.visited } where
  deps := fun other hother hpending next hnext => by
    rcases mem_cons.mp hother with rfl | hother
    · exact absurd (.inr rfl) hpending
    · exact mem_cons_of_mem _ (settled.deps other hother (fun h => hpending (.inl h)) next hnext)
  order := fun other hother hpending speaks => by
    rcases mem_cons.mp hother with rfl | hother
    · exact absurd (.inr rfl) hpending
    · exact settled.order other hother (fun h => hpending (.inl h)) speaks
  sorted := settled.sorted

/-- The visit of a node that makes no statement ends. -/
theorem leave (settled : walk.Settled graph spans fun other => pending other ∨ other = id)
    (hdeps : ∀ other ∈ graph.dependencies spans id, other ∈ walk.visited) (silent : ¬ graph.Speaks id) :
    walk.Settled graph spans pending where
  deps := fun other hother hpending => by
    by_cases heq : other = id
    · exact heq ▸ hdeps
    · exact settled.deps other hother fun h => h.elim hpending heq
  order := fun other hother hpending speaks => by
    by_cases heq : other = id
    · exact absurd (heq ▸ speaks) silent
    · exact settled.order other hother (fun h => h.elim hpending heq) speaks
  sorted := settled.sorted

/-- The visit of a node ends with its statement. -/
theorem close (founded : graph.Founded spans rank good) (hgood : good id)
    (settled : walk.Settled graph spans fun other => pending other ∨ other = id)
    (hpending : ∀ other, pending other → rank id < rank other)
    (hdeps : ∀ other ∈ graph.dependencies spans id, other ∈ walk.visited) :
    Settled graph spans pending { walk with order := walk.order ++ [id] } where
  deps := fun other hother hpending => by
    by_cases heq : other = id
    · exact heq ▸ hdeps
    · exact settled.deps other hother fun h => h.elim hpending heq
  order := fun other hother hpending speaks => by
    by_cases heq : other = id
    · exact heq ▸ mem_append_right _ mem_cons_self
    · exact mem_append_left _ (settled.order other hother (fun h => h.elim hpending heq) speaks)
  sorted := by
    -- Nodes of a lower rank than the one at hand have been visited to the end, and so have all they depend on.
    have hlow : ∀ other, rank other < rank id → ¬ (pending other ∨ other = id) := by
      rintro other hlt (h | rfl)
      · exact Nat.lt_asymm hlt (hpending other h)
      · exact Nat.lt_irrefl _ hlt
    have hreach : ∀ other, Relation.TransGen (fun id other => other ∈ graph.dependencies spans id) id other →
        good other ∧ other ∈ walk.visited ∧ rank other < rank id := by
      intro other path
      induction path with
      | single depends => exact ⟨founded.closed hgood depends, hdeps _ depends, founded.lower hgood depends⟩
      | @tail between other _ depends ih =>
        obtain ⟨hbetween, hvisited, hlt⟩ := ih
        exact ⟨founded.closed hbetween depends, settled.deps between hvisited (hlow between hlt) other depends,
          Nat.lt_trans (founded.lower hbetween depends) hlt⟩
    refine settled.sorted.concat fun other ⟨path, speaks⟩ => ?_
    obtain ⟨_, hvisited, hlt⟩ := hreach other path
    exact settled.order other hvisited (hlow other hlt) speaks

end Walk.Settled

/-- A visit finishes a node and all it depends on. -/
theorem settled_visit (founded : graph.Founded spans rank good) (depth : Nat) (hgood : good id)
    (hdepth : rank id < depth) (hpending : ∀ other, pending other → rank id < rank other)
    (settled : walk.Settled graph spans pending) :
    (graph.visit spans depth walk id).Settled graph spans pending ∧
      id ∈ (graph.visit spans depth walk id).visited := by
  induction depth generalizing walk id pending with
  | zero => exact absurd hdepth (Nat.not_lt_zero _)
  | succ depth ih =>
    rw [visit]
    split
    · next hid => exact ⟨settled, hid⟩
    · obtain ⟨node, hnode⟩ := Option.isSome_iff_exists.mp (founded.present hgood)
      rw [hnode]
      dsimp only
      have hstep : ∀ walk : Walk, ∀ other ∈ graph.dependencies spans id,
          walk.Settled graph spans (fun other => pending other ∨ other = id) →
          (graph.visit spans depth walk other).Settled graph spans (fun other => pending other ∨ other = id) ∧
            other ∈ (graph.visit spans depth walk other).visited := by
        intro walk other hother settled
        have hlt := founded.lower hgood hother
        refine ih (founded.closed hgood hother) (by omega) ?_ settled
        rintro next (hnext | rfl)
        · exact Nat.lt_trans hlt (hpending next hnext)
        · exact hlt
      obtain ⟨settled', hdeps⟩ := settled_foldl (graph.grows_visit spans depth) _ hstep (settled.mark id)
      have hid := (Walk.grows_foldl (graph.grows_visit spans depth) (graph.dependencies spans id)
        { walk with visited := id :: walk.visited }).visited id mem_cons_self
      split
      · next hrole =>
          refine ⟨settled'.leave hdeps ?_, hid⟩
          rintro ⟨other, hother, hfalse⟩
          rw [hnode] at hother
          cases hother
          rw [hrole] at hfalse
          cases hfalse
      · exact ⟨settled'.close founded hgood hpending hdeps, hid⟩

/-- Only nodes that a node depends on are visited on its behalf. -/
theorem depends_of_visited (depth : Nat) (hother : other ∈ (graph.visit spans depth walk id).visited) :
    other ∈ walk.visited ∨ Relation.ReflTransGen (fun id other => other ∈ graph.dependencies spans id) id other := by
  induction depth generalizing walk id with
  | zero => exact .inl hother
  | succ depth ih =>
    have hfold : ∀ (ids : List NodeId) (walk : Walk), (∀ next ∈ ids, next ∈ graph.dependencies spans id) →
        other ∈ (ids.foldl (graph.visit spans depth) walk).visited → other ∈ walk.visited ∨
          Relation.ReflTransGen (fun id other => other ∈ graph.dependencies spans id) id other := by
      intro ids
      induction ids with
      | nil => exact fun walk _ h => .inl h
      | cons next rest ihrest =>
        intro walk hdeps h
        rcases ihrest _ (fun next hnext => hdeps next (.tail _ hnext)) h with hwalk | hreach
        · exact (ih hwalk).imp_right fun hreach => .head (hdeps next mem_cons_self) hreach
        · exact .inr hreach
    rw [visit] at hother
    split at hother
    · exact .inl hother
    · cases hnode : graph.node? id with
      | none =>
        rw [hnode] at hother
        rcases mem_cons.mp hother with rfl | h
        · exact .inr .refl
        · exact .inl h
      | some node =>
        rw [hnode] at hother
        dsimp only at hother
        have hvisited : other ∈ ((graph.dependencies spans id).foldl (graph.visit spans depth)
            { walk with visited := id :: walk.visited }).visited := by
          split at hother <;> exact hother
        rcases hfold _ _ (fun _ h => h) hvisited with h | h
        · rcases mem_cons.mp h with rfl | h
          · exact .inr .refl
          · exact .inl h
        · exact .inr h

/-- Only nodes that make a statement are put in order. -/
theorem speaks_of_mem_order (depth : Nat) (hother : other ∈ (graph.visit spans depth walk id).order) :
    other ∈ walk.order ∨ graph.Speaks other := by
  induction depth generalizing walk id with
  | zero => exact .inl hother
  | succ depth ih =>
    have hfold : ∀ (ids : List NodeId) (walk : Walk), other ∈ (ids.foldl (graph.visit spans depth) walk).order →
        other ∈ walk.order ∨ graph.Speaks other := by
      intro ids
      induction ids with
      | nil => exact fun walk h => .inl h
      | cons next rest ihrest => exact fun walk h => (ihrest _ h).elim ih .inr
    rw [visit] at hother
    split at hother
    · exact .inl hother
    · cases hnode : graph.node? id with
      | none =>
        rw [hnode] at hother
        exact .inl hother
      | some node =>
        rw [hnode] at hother
        dsimp only at hother
        split at hother
        · exact hfold _ { walk with visited := id :: walk.visited } hother
        · next hrole =>
            rcases mem_append.mp hother with hold | hnew
            · exact hfold _ { walk with visited := id :: walk.visited } hold
            · obtain rfl := mem_singleton.mp hnew
              exact .inr ⟨node, hnode, Bool.eq_false_iff.mpr hrole⟩

end NodeScript.Graph
