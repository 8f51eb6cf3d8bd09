import NodeScript.Proofs.Build.Holdings

/-!
# References between graphs

A group node refers to a graph by its name. Calling a graph from itself is refused, so graphs refer
to themselves only where a script writes the reference as an argument, or names its graph like the
empty reference that new group nodes start with.
-/

namespace NodeScript

open Build Script

/-- Every graph is stored under its name, and no node in it refers to it. -/
def Store.Separate (store : Store) : Prop :=
  ∀ name graph, store.get? name = some graph →
    graph.name = name ∧ ∀ id node, graph.node? id = some node → node.graph? ≠ some name

/-- Some call of the program names the program's own graph: by the argument for the reference, or by
a bare group node where the graph has the empty name. -/
def Script.Program.NamesItself (program : Program) : Prop :=
  ∃ target function args, Statement.call target function args ∈ program.parts ∧
    ((graphProperty, Value.literal (.text program.name)) ∈ args ∨ program.name = "" ∧ function = "group")

/-! ## Nodes that refer to other graphs -/

/-- Values of nodes that do not refer to the graph. -/
def Allowance.foreign (self : String) : Allowance where
  self := self
  called _ := True
  property name value := name = graphProperty → value ≠ .graph self
  literal _ := True

theorem Node.Holds.graph?_ne {self : String} {node : Node} (holds : node.Holds (.foreign self)) :
    node.graph? ≠ some self := by
  intro h
  obtain ⟨value, hvalue, hgraph⟩ := Option.bind_eq_some_iff.mp h
  obtain ⟨property, hfind, rfl⟩ := Option.map_eq_some_iff.mp hvalue
  have hname : property.decl.name = graphProperty := by simpa using List.find?_some hfind
  exact holds.properties property (List.mem_of_find?_eq_some hfind) hname (PropertyValue.eq_graph hgraph)

/-- Only group nodes have a reference. -/
theorem standardKinds_references : ∀ spec ∈ Catalog.standardKinds,
    (spec.role ≠ .group → ∀ decl ∈ spec.properties, decl.name ≠ graphProperty) ∧
      (spec.role = .group → spec.id = groupKind) := by
  decide +kernel

theorem eq_bareGroupSpec {spec : KindSpec} (listed : spec ∈ Catalog.standardKinds) (group : spec.role = .group) :
    spec = bareGroupSpec :=
  List.inj_on_of_nodup_map Catalog.standardKinds_nodup listed bareGroupSpec_mem
    ((standardKinds_references spec listed).2 group)

theorem Allowance.lawful_foreign (self : String) : (Allowance.foreign self).Lawful where
  coerce _ _ _ := trivial
  carried := by
    intro value carrier name property _ hcarrier hplace hname
    cases value <;> cases hcarrier <;> cases hplace <;> exact absurd hname (by decide)
  properties spec listed plain decl hdecl hname :=
    absurd hname ((standardKinds_references spec listed).1 plain decl hdecl)
  defaults _ _ _ _ _ _ := trivial
  callee name hname _ _ h := hname (PropertyValue.graph.inj h)

namespace Script.Program

variable {session : Session} {program : Program}

theorem covers_foreign (standard : session.IsStandard) (h : ¬ program.NamesItself) :
    (Allowance.foreign program.name).Covers session program where
  self := rfl
  call := by
    intro target function args hpart
    refine ⟨?_, fun _ _ _ => trivial, ?_⟩
    · intro entry hentry
      obtain ⟨spec, listed, hkind, _, hname⟩ := standard.function hentry
      rw [hkind]
      by_cases hgroup : spec.role = .group
      · rw [eq_bareGroupSpec listed hgroup] at hname ⊢
        have hfunction : function = "group" := hname.symm.trans (by decide +kernel)
        refine (Allowance.lawful_foreign program.name).bareGroup standard fun _ heq => ?_
        exact h ⟨target, function, args, hpart, Or.inr ⟨(PropertyValue.graph.inj heq).symm, hfunction⟩⟩
      · exact (Allowance.lawful_foreign program.name).kind standard listed hgroup
    · rintro ⟨name, value⟩ harg environment argument hargument
      refine ⟨?_, fun _ _ => trivial, fun _ _ _ _ _ _ => trivial⟩
      rintro decl found hvalue hdecl hname rfl
      rcases PropertyDecl.eq_of_valueOf_graph hvalue with rfl | rfl
      · exact Environment.argument_ne_choice hargument _ rfl
      · have htext := Environment.eq_literal_of_argument hargument rfl
        subst htext
        exact h ⟨target, function, args, hpart, Or.inl (hname ▸ harg)⟩
  zone _ _ _ _ _ _ _ := ⟨fun _ _ _ _ _ _ _ => trivial, fun _ _ _ _ _ _ _ => trivial⟩
  results _ _ _ _ _ _ _ := trivial
  once := trivial

/-- One build keeps graphs from referring to themselves. -/
theorem separate_step (standard : session.IsStandard) (h : ¬ program.NamesItself) {b : Build}
    (separate : b.store.Separate) : (exec (program.build session) b).2.store.Separate := by
  cases hinputs : program.inputs session with
  | error e =>
    rw [exec_build_error hinputs]
    exact separate
  | ok params =>
    obtain ⟨graph, hgraph, hname, holds, hothers⟩ := (Allowance.lawful_foreign program.name).holds_build standard
      (covers_foreign standard h) hinputs (b := b) fun _ _ _ _ _ _ _ _ _ => trivial
    intro name found hfound
    by_cases heq : name = program.name
    · subst heq
      rw [hgraph, Option.some.injEq] at hfound
      subst hfound
      refine ⟨?_, fun id node hnode => (holds id node hnode).graph?_ne⟩
      rw [hname, Store.getD]
      cases hold : b.store.get? program.name with
      | none => rfl
      | some old => exact (separate program.name old hold).1
    · rw [hothers name heq] at hfound
      exact separate name found hfound

/-- No graph refers to itself after any number of builds of programs that do not name themselves,
whether they succeed or not. -/
theorem separate_builds (s : Supply) (programs : List Program) (h : ∀ program ∈ programs, ¬ program.NamesItself)
    (b : Build) (start : b.store = .empty) :
    (programs.foldl (fun b program => (exec (program.build (Session.standard s)) b).2) b).store.Separate := by
  have hstart : b.store.Separate := by
    rw [start]
    intro name graph hget
    cases hget
  clear start
  induction programs generalizing b with
  | nil => exact hstart
  | cons program rest ih =>
    apply ih (fun other hother => h other (List.mem_cons_of_mem _ hother))
    exact separate_step (Session.isStandard_standard s) (h program List.mem_cons_self) hstart

/-- A program with one call for its only result. -/
def calling (name function : String) (args : List (String × Value)) : Program :=
  ⟨name, [], [.call "found" function args], [("Found", .name "found")]⟩

theorem namesItself_calling {name function : String} {args : List (String × Value)} :
    (calling name function args).NamesItself ↔
      (graphProperty, Value.literal (.text name)) ∈ args ∨ name = "" ∧ function = "group" := by
  constructor
  · rintro ⟨target, found, given, hpart, hself⟩
    cases List.mem_singleton.mp hpart
    exact hself
  · intro hself
    exact ⟨"found", function, args, List.mem_singleton_self _, hself⟩

/-- Graphs that are called by others and rebuilt, one of them by a program that calls itself in
vain. -/
theorem separate_callers :
    let programs := [calling "Base" "value" [], calling "Top" "base" [], calling "Other" "group"
      [(graphProperty, .literal (.text "Top"))], calling "Base" "base" []]
    (∀ program ∈ programs, ¬ program.NamesItself) ∧
      (programs.foldl (fun b program => (exec (program.build (Session.standard {})) b).2)
        { store := .empty, supply := {} }).store.Separate := by
  intro programs
  have hnames : ∀ program ∈ programs, ¬ program.NamesItself := by
    simp [programs, namesItself_calling]
  exact ⟨hnames, separate_builds {} programs hnames _ rfl⟩

/-- A group node inside its own graph: the argument for the reference is not looked at. -/
theorem not_separate_ring :
    ¬ (exec ((calling "Ring" "group" [(graphProperty, .literal (.text "Ring"))]).build (Session.standard {}))
      { store := .empty, supply := {} }).2.store.Separate := by
  intro separate
  have hrun : ((exec ((calling "Ring" "group" [(graphProperty, .literal (.text "Ring"))]).build
      (Session.standard {}))
      { store := .empty, supply := {} }).2.store.get? "Ring").any (fun graph =>
        graph.nodes.values.any fun node => node.graph? = some "Ring") = true := by
    decide +kernel
  obtain ⟨graph, hgraph, hany⟩ := (Option.any_eq_true _ _).mp hrun
  obtain ⟨node, hnode, hself⟩ := List.any_eq_true.mp hany
  obtain ⟨id, hid⟩ := OrderedMap.mem_values_iff.mp hnode
  exact (separate "Ring" graph hgraph).2 id node hid (of_decide_eq_true hself)

end Script.Program

end NodeScript
