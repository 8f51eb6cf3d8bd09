import NodeScript.Proofs.Build.Growth

/-!
# Identities that builds leave behind

A build changes the graph that its program is named after and no other one, and puts it behind the
others if it is new. All identities in that graph were in the store before, or they have been drawn.
-/

namespace NodeScript

open Build Script List

variable {session : Session} {name : String}

/-! ## Graphs with drawn identities -/

/-- Inputs keep the identities of the inputs before, or get drawn ones. -/
theorem bounded_reconcile (olds : List Entry) (declarations : List Declaration) (s : Supply) :
    s.next ≤ (reconcile olds declarations s).2.next ∧ ∀ entry ∈ (reconcile olds declarations s).1,
      entry.id ∈ olds.map Entry.id ∨ entry.id.code < (reconcile olds declarations s).2.next := by
  induction declarations generalizing olds s with
  | nil => cases olds <;> exact ⟨Nat.le_refl _, fun _ h => absurd h not_mem_nil⟩
  | cons declaration rest ih =>
    have hnext : ∀ (olds : List Entry) (entry : Entry) (s' : Supply), s.next ≤ s'.next →
        (entry.id ∈ olds.map Entry.id ∨ entry.id.code < s'.next) →
        s.next ≤ (reconcile olds.tail rest s').2.next ∧ ∀ found ∈ entry :: (reconcile olds.tail rest s').1,
          found.id ∈ olds.map Entry.id ∨ found.id.code < (reconcile olds.tail rest s').2.next := by
      intro olds entry s' hle hentry
      obtain ⟨hrest, hfound⟩ := ih olds.tail s'
      refine ⟨Nat.le_trans hle hrest, fun found hmem => ?_⟩
      rcases mem_cons.mp hmem with rfl | hmem
      · exact hentry.imp_right fun hcode => Nat.lt_of_lt_of_le hcode hrest
      · exact (hfound found hmem).imp_left fun h => map_subset _ (tail_sublist olds).subset h
    have hfresh := (Supply.draws_fresh s).range _ (mem_singleton_self _)
    cases olds with
    | nil => exact hnext [] (declaration.mint s).1 (declaration.mint s).2 (Supply.climbs_fresh s) (.inr hfresh.2)
    | cons old olds =>
      rw [reconcile]
      by_cases htype : old.type = declaration.type
      · simp only [htype, if_true]
        exact hnext (old :: olds) { declaration with id := old.id } s (Nat.le_refl _) (.inl mem_cons_self)
      · simp only [htype, if_false]
        exact hnext (old :: olds) (declaration.mint s).1
          (declaration.mint s).2 (Supply.climbs_fresh s) (.inr hfresh.2)

/-- The identities of inputs are in the store. -/
theorem mem_ids_of_getD {store : Store} {id : Identity} (h : id ∈ (store.getD name).interface.inputs.map Entry.id) :
    id ∈ store.ids := by
  unfold Store.getD at h
  cases hget : store.get? name with
  | none =>
    rw [hget] at h
    cases h
  | some graph =>
    rw [hget] at h
    obtain ⟨entry, hentry, rfl⟩ := mem_map.mp h
    refine mem_flatMap.mpr ⟨graph, OrderedMap.mem_values_iff.mpr ⟨name, hget⟩, ?_⟩
    exact Graph.mem_ids.mpr (.inr (.inr ⟨entry, mem_append_left _ hentry, rfl⟩))

namespace Script.Program

/-- A successful build puts one graph into the store. -/
theorem exists_set_of_build {program : Program} {b b' : Build} (h : exec (program.build session) b = (.ok (), b')) :
    ∃ graph, b'.store = b.store.set program.name graph ∧
      ∀ id ∈ graph.ids, id ∈ b.store.ids ∨ id.code < b'.supply.next := by
  cases hinputs : program.inputs session with
  | error e =>
    rw [exec_build_error hinputs] at h
    cases h
  | ok params =>
    have limits := growing.limits session
    obtain ⟨inputs, s, hreconcile, changed, _⟩ := limits.changed_program hinputs
      (limits.keeps_program (fun _ _ _ _ => trivial) params) (b := b) fun _ _ _ _ => trivial
    rw [h] at changed
    obtain ⟨graph, hgraph, grows⟩ := changed.graph
    have hgraphs : b'.store.graphs = b.store.graphs.insert program.name graph :=
      OrderedMap.eq_insert changed.names (fun other hother => changed.others other hother not_false) hgraph
    refine ⟨graph, ?_, fun id hid => ?_⟩
    · rw [Store.set, ← hgraphs, ← changed.version]
    · rcases grows.ids id hid with hold | hcode
      · change id ∈ (inputs ++ []).map Entry.id at hold
        rw [append_nil] at hold
        obtain ⟨entry, hentry, rfl⟩ := mem_map.mp hold
        obtain ⟨_, hreconciled⟩ := bounded_reconcile (b.store.getD program.name).interface.inputs
          (params.map ResolvedParam.declaration) b.supply
        rw [hreconcile] at hreconciled
        rcases hreconciled entry hentry with hkept | hcode
        · exact .inl (mem_ids_of_getD hkept)
        · exact .inr (Nat.lt_of_lt_of_le hcode grows.le)
      · exact .inr hcode.2

end Script.Program

end NodeScript
