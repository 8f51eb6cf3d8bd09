import NodeScript.Proofs.Build.Run

/-!
# Runs as constructions

A step of building inside a graph, whether it succeeds or fails, is a construction: it takes the
draft of the graph to a later one and leaves all other graphs alone. A post-condition speaks about
the result of a step that succeeds.
-/

namespace NodeScript

open Build Draft

variable {α β : Type}

/-- Where building takes place: the session, the rules of the construction and the name of the
graph. -/
structure Site where
  session : Session
  rules : Rules
  name : String

/-- Between the builds only the graph of the name has changed, and no graph has come or gone. -/
structure Build.Inside (name : String) (b b' : Build) : Prop where
  scopes : b'.scopes = b.scopes
  others : ∀ other, other ≠ name → b'.store.get? other = b.store.get? other
  names : b'.store.graphs.entries.map (fun e => (e.1, e.2.name)) =
    b.store.graphs.entries.map fun e => (e.1, e.2.name)

namespace Build.Inside

variable {name : String} {b b' b'' : Build}

theorem refl (name : String) (b : Build) : Inside name b b := ⟨rfl, fun _ _ => rfl, rfl⟩

theorem trans (first : Inside name b b') (second : Inside name b' b'') : Inside name b b'' :=
  ⟨second.scopes.trans first.scopes, fun other h => (second.others other h).trans (first.others other h),
    second.names.trans first.names⟩

end Build.Inside

namespace Site

variable {site : Site} {draft : Draft}

/-- Function names stand for the graphs of the store as the rules say. -/
def Serves (site : Site) (store : Store) : Prop :=
  ∀ function graph target, site.session.functions.get? function = none →
    (store.graphs.values.find? fun graph => snakeCase graph.name = function) = some graph →
    graph.name ≠ site.name → store.get? graph.name = some target →
    site.rules.callee? function = some (graph.name, target.interface)

/-- The build is at a draft of the site's graph. -/
structure At (site : Site) (draft : Draft) (b : Build) : Prop where
  scope : b.scopes.head? = some site.name
  graph : b.store.get? site.name = some draft.graph
  next : b.supply.next = draft.next
  serves : site.Serves b.store

theorem At.current {b : Build} (h : site.At draft b) : b.current? = some draft.graph := by
  rw [current?, h.scope]
  exact h.graph

/-- A search by a feature finds elements of one feature in lists of the same features. -/
theorem find?_feature {γ δ : Type} {feature : γ → δ} {test : δ → Bool} {as bs : List γ}
    (h : bs.map feature = as.map feature) {b : γ} (hb : bs.find? (fun x => test (feature x)) = some b) :
    ∃ a, as.find? (fun x => test (feature x)) = some a ∧ feature a = feature b := by
  induction bs generalizing as with
  | nil => cases hb
  | cons first rest ih =>
    cases as with
    | nil => cases h
    | cons first' rest' =>
      rw [List.map_cons, List.map_cons, List.cons.injEq] at h
      rw [List.find?_cons] at hb ⊢
      rw [← h.1]
      cases htest : test (feature first) with
      | true =>
        rw [htest] at hb
        cases hb
        exact ⟨first', rfl, h.1.symm⟩
      | false =>
        rw [htest] at hb
        exact ih h.2 hb

/-- What function names stand for stays while only the site's graph changes. -/
theorem Serves.inside {b b' : Build} (h : site.Serves b.store) (inside : Build.Inside site.name b b') :
    site.Serves b'.store := by
  intro function graph' target hfunction hfind hne htarget
  have hnames : b'.store.graphs.values.map Graph.name = b.store.graphs.values.map Graph.name := by
    have h := congrArg (List.map Prod.snd) inside.names
    simpa [OrderedMap.values, Function.comp_def] using h
  obtain ⟨graph, hgraph, hname⟩ := @find?_feature _ _ Graph.name (fun name => snakeCase name = function) _ _ hnames
    graph' hfind
  rw [← hname] at hne htarget ⊢
  refine h function graph target hfunction hgraph hne ?_
  rw [← inside.others _ hne]
  exact htarget

/-- Putting a later draft of the graph in its place. -/
theorem At.put {draft' : Draft} {b : Build} (h : site.At draft b) (hname : draft'.graph.name = draft.graph.name)
    {supply : Supply} (hnext : supply.next = draft'.next) :
    site.At draft' ((b.withSupply supply).put draft'.graph) ∧
      Build.Inside site.name b ((b.withSupply supply).put draft'.graph) := by
  have hput : (b.withSupply supply).put draft'.graph =
      { b with store := b.store.set site.name draft'.graph, supply } :=
    @Build.put_eq _ (b.withSupply supply) h.scope draft'.graph
  have hkey : site.name ∈ b.store.graphs.keys := OrderedMap.mem_keys_iff.mpr ⟨_, h.graph⟩
  have inside : Build.Inside site.name b ((b.withSupply supply).put draft'.graph) := by
    rw [hput]
    refine ⟨rfl, fun other hother => ?_, ?_⟩
    · exact OrderedMap.get?_insert_of_ne hother
    · simp only [Store.set, OrderedMap.insert, dif_pos hkey, OrderedMap.modify, OrderedMap.mapEntries, List.map_map]
      refine List.map_congr_left fun e he => ?_
      by_cases heq : e.1 = site.name
      · have hget : b.store.get? e.1 = some e.2 := OrderedMap.get?_eq_some_iff.mpr he
        rw [heq, h.graph, Option.some.injEq] at hget
        simp [heq, hname, hget]
      · simp [heq]
  refine ⟨⟨?_, ?_, ?_, h.serves.inside inside⟩, inside⟩
  · rw [inside.scopes]
    exact h.scope
  · rw [hput]
    exact OrderedMap.get?_insert_self
  · rw [supply_put]
    exact hnext

/-- The step is a construction, and where it succeeds its result satisfies a condition. -/
def Runs (site : Site) (m : BuildM α) (draft : Draft) (post : α → Draft → Prop) : Prop :=
  ∀ b, site.At draft b → ∃ draft', Steps site.rules draft draft' ∧ site.At draft' (exec m b).2 ∧
    Build.Inside site.name b (exec m b).2 ∧ ∀ a, (exec m b).1 = .ok a → post a draft'

namespace Runs

variable {m : BuildM α} {f : α → BuildM β} {post : α → Draft → Prop} {post' : β → Draft → Prop}

theorem mono {weaker : α → Draft → Prop} (h : site.Runs m draft post)
    (imp : ∀ a draft', post a draft' → weaker a draft') : site.Runs m draft weaker := by
  intro b hb
  obtain ⟨draft', steps, hat, hinside, hpost⟩ := h b hb
  exact ⟨draft', steps, hat, hinside, fun a ha => imp a draft' (hpost a ha)⟩

/-- A step that changes nothing. -/
theorem ofRead (h : ∀ b, site.At draft b → (exec m b).2 = b ∧ ∀ a, (exec m b).1 = .ok a → post a draft) :
    site.Runs m draft post := by
  intro b hb
  obtain ⟨hsame, hpost⟩ := h b hb
  refine ⟨draft, .refl, ?_, ?_, hpost⟩
  · rwa [hsame]
  · rw [hsame]
    exact .refl _ _

/-- A step that fails at once, or puts a later draft in place and goes on as another one. -/
theorem ofExec (sound : draft.Sound site.rules)
    (h : ∀ b, site.At draft b → (∃ e, exec m b = (.error e, b)) ∨
      ∃ draft' supply m', Steps site.rules draft draft' ∧ supply.next = draft'.next ∧
        exec m b = exec m' ((b.withSupply supply).put draft'.graph) ∧ site.Runs m' draft' post) :
    site.Runs m draft post := by
  intro b hb
  rcases h b hb with ⟨e, hexec⟩ | ⟨draft', supply, m', steps, hnext, hexec, hruns⟩
  · rw [hexec]
    exact ⟨draft, .refl, hb, .refl _ _, fun a ha => by cases ha⟩
  · obtain ⟨hat, hinside⟩ := hb.put (Steps.later steps sound).name hnext
    obtain ⟨draft'', steps', hat', hinside', hpost⟩ := hruns _ hat
    rw [hexec]
    exact ⟨draft'', steps.trans steps', hat', hinside.trans hinside', hpost⟩

/-- A step that fails at once or puts a later draft in place. -/
theorem ofWrite (sound : draft.Sound site.rules)
    (h : ∀ b, site.At draft b → (∃ e, exec m b = (.error e, b)) ∨
      ∃ draft' supply a, Steps site.rules draft draft' ∧ supply.next = draft'.next ∧
        exec m b = (.ok a, (b.withSupply supply).put draft'.graph) ∧ post a draft') :
    site.Runs m draft post := by
  refine ofExec sound fun b hb => ?_
  rcases h b hb with hfail | ⟨draft', supply, a, steps, hnext, hexec, hpost⟩
  · exact Or.inl hfail
  · exact Or.inr ⟨draft', supply, Pure.pure a, steps, hnext, hexec,
      ofRead fun b _ => ⟨rfl, fun a' ha => by cases ha; exact hpost⟩⟩

/-- A step that only notes a warning. -/
theorem warn (warning : Warning) : site.Runs (Build.warn warning) draft fun _ draft' => draft' = draft ∧ True := by
  intro b hb
  exact ⟨draft, .refl, ⟨hb.scope, hb.graph, hb.next, hb.serves⟩, ⟨rfl, fun _ _ => rfl, rfl⟩,
    fun _ _ => ⟨rfl, trivial⟩⟩

theorem pure {a : α} (h : post a draft) : site.Runs (pure a) draft post :=
  ofRead fun b _ => ⟨rfl, fun a' ha => by cases ha; exact h⟩

theorem throw {e : BuildError} : site.Runs (throw e : BuildM α) draft post :=
  ofRead fun b _ => ⟨rfl, fun a ha => by cases ha⟩

theorem ofExcept {r : Except BuildError α} (h : ∀ a, r = .ok a → post a draft) :
    site.Runs (Build.ofExcept r) draft post :=
  ofRead fun b _ => by
    rw [exec_ofExcept]
    exact ⟨rfl, h⟩

theorem bind (sound : draft.Sound site.rules) (first : site.Runs m draft post)
    (second : ∀ a draft', draft'.Sound site.rules → Later draft draft' → post a draft' →
      site.Runs (f a) draft' post') : site.Runs (m >>= f) draft post' := by
  intro b hb
  obtain ⟨draft', steps, hat, hinside, hpost⟩ := first b hb
  cases hm : exec m b with
  | mk result b' =>
    rw [hm] at hat hinside hpost
    cases result with
    | error e =>
      rw [exec_bind_error hm]
      exact ⟨draft', steps, hat, hinside, fun a ha => by cases ha⟩
    | ok a =>
      rw [exec_bind_ok hm]
      obtain ⟨draft'', steps', hat', hinside', hpost'⟩ :=
        second a draft' (Steps.sound steps sound) (Steps.later steps sound) (hpost a rfl) b' hat
      exact ⟨draft'', steps.trans steps', hat', hinside.trans hinside', hpost'⟩

/-- What is known of the draft at the end may be used for the post-condition. -/
theorem andLater (h : site.Runs m draft post) (sound : draft.Sound site.rules) {weaker : α → Draft → Prop}
    (imp : ∀ a draft', draft'.Sound site.rules → Later draft draft' → post a draft' → weaker a draft') :
    site.Runs m draft weaker := by
  intro b hb
  obtain ⟨draft', steps, hat, hinside, hpost⟩ := h b hb
  exact ⟨draft', steps, hat, hinside, fun a ha =>
    imp a draft' (Steps.sound steps sound) (Steps.later steps sound) (hpost a ha)⟩

theorem bindExcept (sound : draft.Sound site.rules) {r : Except BuildError α}
    (h : ∀ a, r = .ok a → site.Runs (f a) draft post') : site.Runs (Build.ofExcept r >>= f) draft post' := by
  have first : site.Runs (Build.ofExcept r) draft fun a draft' => r = .ok a ∧ draft' = draft :=
    ofExcept fun a ha => ⟨ha, rfl⟩
  refine bind sound first ?_
  rintro a _ _ _ ⟨ha, rfl⟩
  exact h a ha

/-- A step that only reads in front of another. -/
theorem bindRead (sound : draft.Sound site.rules) {p : α → Prop}
    (first : site.Runs m draft fun a draft' => draft' = draft ∧ p a)
    (second : ∀ a, p a → site.Runs (f a) draft post') : site.Runs (m >>= f) draft post' := by
  refine bind sound first ?_
  rintro a _ _ _ ⟨rfl, ha⟩
  exact second a ha

/-- A step whose result is known and that changes nothing in front of another. -/
theorem bindValue {a : α} (first : ∀ b, site.At draft b → exec m b = (.ok a, b))
    (second : site.Runs (f a) draft post') : site.Runs (m >>= f) draft post' := by
  intro b hb
  rw [exec_bind_ok (first b hb)]
  exact second b hb

/-- Where a step ends that succeeds. -/
theorem ends (h : site.Runs m draft post) (sound : draft.Sound site.rules)
    {b c : Build} (hb : site.At draft b) {a : α}
    (hexec : exec m b = (.ok a, c)) :
    ∃ draft', draft'.Sound site.rules ∧ Later draft draft' ∧ site.At draft' c ∧ post a draft' := by
  obtain ⟨draft', steps, hat, _, hpost⟩ := h b hb
  rw [hexec] at hat hpost
  exact ⟨draft', Steps.sound steps sound, Steps.later steps sound, hat, hpost a rfl⟩

/-- What is known of the graph that the step leaves. -/
theorem andExec (h : site.Runs m draft post) {more : α → Graph → Prop}
    (hexec : ∀ b a c, site.At draft b → exec m b = (.ok a, c) → ∃ graph, c.current? = some graph ∧ more a graph) :
    site.Runs m draft fun a draft' => post a draft' ∧ more a draft'.graph := by
  intro b hb
  obtain ⟨draft', steps, hat, hinside, hpost⟩ := h b hb
  refine ⟨draft', steps, hat, hinside, fun a ha => ⟨hpost a ha, ?_⟩⟩
  obtain ⟨graph, hgraph, hmore⟩ := hexec b a _ hb (Prod.ext ha rfl)
  rw [hat.current, Option.some.injEq] at hgraph
  exact hgraph ▸ hmore

/-- Steps of the construction that leave no trace in the build. -/
theorem andThen (h : site.Runs m draft post) {weaker : α → Draft → Prop}
    (step : ∀ a draft', Steps site.rules draft draft' → post a draft' →
      ∃ draft'', Draft.Step site.rules draft' draft'' ∧ draft''.graph = draft'.graph ∧ draft''.next = draft'.next ∧
        weaker a draft'') : site.Runs m draft weaker := by
  intro b hb
  obtain ⟨draft', steps, hat, hinside, hpost⟩ := h b hb
  cases hm : (exec m b).1 with
  | error e => exact ⟨draft', steps, hat, hinside, fun a ha => by cases ha⟩
  | ok a =>
    obtain ⟨draft'', next, hgraph, hnext, hweaker⟩ := step a draft' steps (hpost a hm)
    refine ⟨draft'', steps.tail next, ⟨hat.scope, ?_, ?_, hat.serves⟩, hinside, fun a' ha => ?_⟩
    · rw [hgraph]
      exact hat.graph
    · rw [hnext]
      exact hat.next
    · cases ha
      exact hweaker

end Runs

end Site

end NodeScript
