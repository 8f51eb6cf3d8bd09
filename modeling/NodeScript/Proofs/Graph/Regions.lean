import NodeScript.Proofs.Catalog.Kinds
import NodeScript.Proofs.Graph.Order
import NodeScript.Proofs.Graph.Sound

/-!
# Regions of zones

The two ends of a zone know each other: the entry is the innermost zone around the inputs of the
exit, and it is completed first. Where no zone is inside another one, the completed nodes fall into
four classes by the zones around their inputs and outputs, and no link enters or leaves a zone but
through its ends.
-/

namespace NodeScript.Draft

open List

variable {rules : Rules} {draft draft' : Draft} {node : Node} {entry : NodeId} {link : Link} {rest : List NodeId}

/-- An entry and the exit it is paired with. -/
structure Partners (draft : Draft) (entry exit : NodeId) : Prop where
  found : (draft.graph.node? exit).isSome = true
  ne : exit ≠ draft.source
  outer : entry ≠ draft.source
  reads : (draft.info exit).reads = entry :: (draft.info exit).shows
  first : exit ∈ draft.done → entry ∈ draft.done ∧ draft.done.idxOf entry < draft.done.idxOf exit

/-- Paired nodes are the ends of a zone. -/
def Coupled (draft : Draft) : Prop :=
  ∀ id node exit, draft.graph.node? id = some node → node.pairedOutput = some exit → draft.Partners id exit

theorem Partners.later {exit : NodeId} (partners : draft.Partners entry exit) (later : Later draft draft')
    (hdone : draft'.done = draft.done) : draft'.Partners entry exit where
  found := later.found exit partners.found
  ne := later.source ▸ partners.ne
  outer := later.source ▸ partners.outer
  reads := by
    rw [later.info exit partners.found]
    exact partners.reads
  first := hdone ▸ partners.first

/-- A completed exit was completed after its entry. -/
theorem Complete.partner {exit : NodeId} (complete : draft.Complete rules exit node)
    (hreads : (draft.info exit).reads = entry :: (draft.info exit).shows) : entry ∈ draft.done := by
  cases complete with
  | plain spec listed inner shape unpaired path called =>
    rw [path] at hreads
    exact absurd (congrArg length hreads) (by simp)
  | group function name interface args callee called shape unpaired path graph refers =>
    rw [path] at hreads
    exact absurd (congrArg length hreads) (by simp)
  | entry kind items exit paired shape exitShape path exitReads exitShows named found =>
    rw [path] at hreads
    exact absurd (congrArg length hreads) (by simp; omega)
  | exit kind items other otherNode done found paired unpaired shape otherShape reads =>
    rw [hreads] at reads
    cases reads
    exact done

theorem Step.coupled (step : Step rules draft draft') (sound : draft.Sound rules) (coupled : draft.Coupled) :
    draft'.Coupled := by
  have later := step.later sound
  cases step with
  | skip => exact fun id node exit hnode hpaired => (coupled id node exit hnode hpaired).later later rfl
  | link => exact fun id node exit hnode hpaired => (coupled id node exit hnode hpaired).later later rfl
  | @add new info first next made le unused inner allowed unpaired =>
    intro id node exit hnode hpaired
    rw [Graph.node?_withNode] at hnode
    split at hnode
    · cases hnode
      rw [unpaired] at hpaired
      cases hpaired
    · exact (coupled id node exit hnode hpaired).later later rfl
  | @zone entry exit entryInfo exitInfo first next le entryMade
      entryUnused entryInner entryAllowed exitMade exitUnused
      exitInner exitAllowed paired unpaired reads =>
      have hexit := (exitUnused _ mem_cons_self).node
      have hne : exit.id ≠ entry.id := by
        intro heq
        rw [heq, Graph.node?_withNode, if_pos rfl] at hexit
        cases hexit
      rw [Graph.node?_withNode, if_neg hne] at hexit
      intro id node other hnode hpaired
      rw [Graph.node?_withNode] at hnode
      split at hnode
      · cases hnode
        rw [unpaired] at hpaired
        cases hpaired
      · rw [Graph.node?_withNode] at hnode
        split at hnode
        · next heq =>
            cases hnode
            rw [paired, Option.some.injEq] at hpaired
            subst hpaired heq
            obtain ⟨_, _, source, hsource, _⟩ := sound.source
            refine ⟨?_, ?_, ?_, ?_, fun hdone => ?_⟩
            · rw [Graph.node?_withNode, if_pos rfl]
              rfl
            · intro heq
              rw [← heq, hexit] at hsource
              cases hsource
            · intro heq
              rw [← heq, (entryUnused _ mem_cons_self).node] at hsource
              cases hsource
            · dsimp only
              rw [Function.update_self]
              exact reads
            · obtain ⟨old, hold⟩ := sound.present _ hdone
              rw [hexit] at hold
              cases hold
        · exact (coupled id node other hnode hpaired).later later rfl
  | @revise old new found opened inner shape ports linked =>
    intro id node exit hnode hpaired
    rw [Graph.node?_updateNode] at hnode
    split at hnode
    · next heq =>
        rw [heq, found] at hnode
        cases hnode
        subst heq
        exact (coupled _ old exit found (ports.pairedOutput ▸ hpaired)).later later rfl
    · exact (coupled id node exit hnode hpaired).later later rfl
  | @output entry port next le lt plain form =>
    intro id node exit hnode hpaired
    rw [Graph.node?_withOutput] at hnode
    split at hnode
    · next heq =>
        obtain ⟨_, _, sink, hsink, _⟩ := sound.sink
        rw [heq, hsink] at hnode
        cases hnode
        subst heq
        exact (coupled _ sink exit hsink hpaired).later later rfl
    · exact (coupled id node exit hnode hpaired).later later rfl
  | @close closed id found opened inner complete =>
    intro entry node exit hnode hpaired
    have partners := coupled entry node exit hnode hpaired
    refine ⟨partners.found, partners.ne, partners.outer, partners.reads, fun hdone => ?_⟩
    dsimp only at hdone ⊢
    by_cases hold : exit ∈ draft.done
    · obtain ⟨hentry, hlt⟩ := partners.first hold
      rw [idxOf_append_of_mem hentry, idxOf_append_of_mem hold]
      exact ⟨mem_append_left _ hentry, hlt⟩
    · obtain rfl : exit = id := by
        rcases mem_append.mp hdone with h | h
        · exact absurd h hold
        · exact mem_singleton.mp h
      have hentry := complete.partner partners.reads
      refine ⟨mem_append_left _ hentry, ?_⟩
      rw [idxOf_append_of_mem hentry, idxOf_append_of_notMem hold]
      exact Nat.lt_of_lt_of_le (idxOf_lt_length_iff.mpr hentry) (Nat.le_add_right _ _)

theorem Steps.coupled (steps : Steps rules draft draft') (sound : draft.Sound rules) (coupled : draft.Coupled) :
    draft'.Coupled := by
  induction steps with
  | refl => exact coupled
  | tail first step ih => exact step.coupled (Steps.sound first sound) ih

/-! ## What lasts -/

/-- A node keeps its role and its pairing. -/
theorem Step.lasting (step : Step rules draft draft') (sound : draft.Sound rules) {id : NodeId}
    (hnode : draft.graph.node? id = some node) :
    ∃ node', draft'.graph.node? id = some node' ∧ node'.role = node.role ∧
      node'.pairedOutput = node.pairedOutput := by
  have hne : ∀ {other : Node}, draft.graph.node? other.id = none → id ≠ other.id := by
    rintro other hnone rfl
    rw [hnone] at hnode
    cases hnode
  cases step with
  | skip => exact ⟨node, hnode, rfl, rfl⟩
  | link => exact ⟨node, hnode, rfl, rfl⟩
  | close => exact ⟨node, hnode, rfl, rfl⟩
  | add made le unused => exact ⟨node, by simpa [hne (unused _ mem_cons_self).node] using hnode, rfl, rfl⟩
  | zone le entryMade entryUnused entryInner entryAllowed exitMade exitUnused =>
    have hentry := hne (entryUnused _ mem_cons_self).node
    have hexit := (exitUnused _ mem_cons_self).node
    rw [Graph.node?_withNode] at hexit
    split at hexit
    · cases hexit
    · exact ⟨node, by simpa [hentry, hne hexit] using hnode, rfl, rfl⟩
  | @revise old new found opened inner shape ports linked =>
    by_cases heq : id = old.id
    · subst heq
      rw [found, Option.some.injEq] at hnode
      subst hnode
      exact ⟨new, by simp [found], shape.role.trans (sound.shaped found inner).2.role.symm, ports.pairedOutput⟩
    · exact ⟨node, by simpa [heq] using hnode, rfl, rfl⟩
  | @output entry port next le lt plain form =>
    by_cases heq : id = draft.sink
    · refine ⟨{ node with inputs := node.inputs ++ [port] }, ?_, rfl, rfl⟩
      rw [Graph.node?_withOutput, if_pos heq, hnode]
      rfl
    · exact ⟨node, by simpa [heq] using hnode, rfl, rfl⟩

theorem Steps.lasting (steps : Steps rules draft draft') (sound : draft.Sound rules) {id : NodeId}
    (hnode : draft.graph.node? id = some node) :
    ∃ node', draft'.graph.node? id = some node' ∧ node'.role = node.role ∧
      node'.pairedOutput = node.pairedOutput := by
  induction steps with
  | refl => exact ⟨node, hnode, rfl, rfl⟩
  | tail first step ih =>
    obtain ⟨node₁, hnode₁, hrole, hpaired⟩ := ih
    obtain ⟨node₂, hnode₂, hrole', hpaired'⟩ := step.lasting (Steps.sound first sound) hnode₁
    exact ⟨node₂, hnode₂, hrole'.trans hrole, hpaired'.trans hpaired⟩

/-- A completed node gets no further links. -/
theorem Step.linksTo (step : Step rules draft draft')
    (sound : draft.Sound rules) {id : NodeId} (hdone : id ∈ draft.done)
    (hnode : draft.graph.node? id = some node) {port : Port} (hport : port ∈ node.inputs) :
    draft'.graph.linksTo port.id = draft.graph.linksTo port.id := by
  cases step with
  | @link link next le lt check opened linked =>
    obtain ⟨target, input, htarget, hinput, hid, _⟩ := linked.finish
    have hne : link.toPort ≠ port.id := by
      rintro heq
      have hsame := sound.owner htarget hnode input.id (mem_map_of_mem (mem_append_left _ hinput))
        (hid.trans heq ▸ mem_map_of_mem (mem_append_left _ hport))
      exact opened (hsame ▸ hdone)
    change (draft.graph.withLink link).links.values.filter (fun l => l.toPort = port.id) = _
    rw [draft.graph.values_withLink (sound.link_not_mem le), filter_append, filter_cons_of_neg (by simpa using hne)]
    exact append_nil _
  | _ => rfl

theorem Steps.linksTo (steps : Steps rules draft draft') (sound : draft.Sound rules) {id : NodeId}
    (hdone : id ∈ draft.done) (hnode : draft.graph.node? id = some node) {port : Port} (hport : port ∈ node.inputs) :
    draft'.graph.linksTo port.id = draft.graph.linksTo port.id := by
  induction steps with
  | refl => rfl
  | tail first step ih =>
    have later := Steps.later first sound
    exact (step.linksTo (Steps.sound first sound) (later.done.subset hdone) ((later.kept _ hdone).trans hnode)
      hport).trans ih

/-! ## Layouts -/

theorem Complete.move {key : NodeId} (complete : draft.Complete rules key node) (id : NodeId)
    (position place : Single × Single) :
    Complete rules { draft with graph := draft.graph.move id position } key { node with position := place } := by
  cases complete with
  | plain spec listed inner shape unpaired path called => exact .plain spec listed inner shape unpaired path called
  | group function name interface args callee called shape unpaired path graph refers =>
    exact .group function name interface args callee called shape unpaired path graph refers
  | entry kind items exit paired shape exitShape path exitReads exitShows named found =>
    refine .entry kind items exit paired shape exitShape path exitReads exitShows named ?_
    rw [Graph.node?_move, Option.isSome_map]
    exact found
  | exit kind items entry entryNode complete found paired unpaired shape entryShape reads =>
    obtain ⟨place', found'⟩ := Graph.exists_node?_move found id position
    exact .exit kind items entry { entryNode with position := place' } complete found' paired unpaired shape
      entryShape reads

theorem Sound.move (sound : draft.Sound rules) (id : NodeId) (position : Single × Single) :
    Sound rules { draft with graph := draft.graph.move id position } := by
  have hold : ∀ {key : NodeId} {node' : Node}, (draft.graph.move id position).node? key = some node' →
      ∃ node place, draft.graph.node? key = some node ∧ node' = { node with position := place } := by
    intro key node' h
    rw [Graph.node?_move] at h
    obtain ⟨node, hnode, rfl⟩ := Option.map_eq_some_iff.mp h
    exact ⟨node, _, hnode, rfl⟩
  have hnew : ∀ {key : NodeId} {node : Node}, draft.graph.node? key = some node →
      ∃ place, (draft.graph.move id position).node? key = some { node with position := place } :=
    fun h => Graph.exists_node?_move h id position
  have numbered : (draft.graph.move id position).Numbered draft.next := by
    refine ⟨fun h => ?_, fun h => ?_, fun h => ?_, fun h h' => ?_⟩ <;> obtain ⟨node, place, hnode, rfl⟩ := hold h
    · exact (sound.keyed hnode :)
    · exact (sound.codes hnode :)
    · exact (sound.distinct hnode :)
    · obtain ⟨last, place', hlast, rfl⟩ := hold h'
      exact (sound.owner hnode hlast :)
  constructor
  case toNumbered => exact numbered
  case linkCodes => exact sound.linkCodes
  case shaped =>
    intro key node' h inner
    obtain ⟨node, place, hnode, rfl⟩ := hold h
    obtain ⟨allowed, shape⟩ := sound.shaped hnode inner
    exact ⟨allowed, shape.kind, shape.name, shape.role, shape.decls, shape.accepted, shape.inputs, shape.outputs,
      shape.silent⟩
  case nodup => exact sound.nodup
  case present =>
    intro key hkey
    obtain ⟨node, hnode⟩ := sound.present key hkey
    exact ⟨_, (hnew hnode).choose_spec⟩
  case linked =>
    intro link hlink
    have linked := sound.linked link hlink
    obtain ⟨start, output, hstart, hid, hreferable⟩ := linked.start
    obtain ⟨finish, input, hfinish, hinput, hid', henabled, hpristine⟩ := linked.finish
    obtain ⟨place, hstart'⟩ := hnew hstart
    obtain ⟨place', hfinish'⟩ := hnew hfinish
    exact ⟨linked.ready, ⟨_, output, hstart', hid, hreferable.mem, hreferable.enabled, hreferable.named⟩,
      ⟨_, input, hfinish', hinput, hid', henabled, hpristine⟩, linked.scope⟩
  case ordered => exact sound.ordered
  case single =>
    intro key node' port h hport hmulti
    obtain ⟨node, place, hnode, rfl⟩ := hold h
    exact sound.single hnode hport hmulti
  case complete =>
    intro key hkey
    rcases sound.complete key hkey with same | ⟨node, hnode, complete⟩
    · exact .inl same
    · obtain ⟨place, hnode'⟩ := hnew hnode
      exact .inr ⟨_, hnode', complete.move id position place⟩
  case source =>
    obtain ⟨hdone, hshows, node, hnode, hrest⟩ := sound.source
    exact ⟨hdone, hshows, _, (hnew hnode).choose_spec, hrest⟩
  case sink =>
    obtain ⟨hdone, hreads, node, hnode, hrest⟩ := sound.sink
    exact ⟨hdone, hreads, _, (hnew hnode).choose_spec, hrest⟩
  case boundary =>
    intro key node' h
    obtain ⟨node, place, hnode, rfl⟩ := hold h
    have old := sound.boundary hnode
    exact old

theorem Coupled.move (coupled : draft.Coupled) (id : NodeId) (position : Single × Single) :
    Coupled { draft with graph := draft.graph.move id position } := by
  intro key node' exit hnode hpaired
  rw [Graph.node?_move] at hnode
  obtain ⟨node, hold, rfl⟩ := Option.map_eq_some_iff.mp hnode
  have partners := coupled key node exit hold hpaired
  refine ⟨?_, partners.ne, partners.outer, partners.reads, partners.first⟩
  rw [Graph.node?_move, Option.isSome_map]
  exact partners.found

/-! ## Links of sound drafts -/

namespace Sound

variable {id : NodeId} {node : Node} {port : Port}

section

variable (sound : draft.Sound rules)
include sound

theorem inner (hnode : draft.graph.node? id = some node) (hsource : id ≠ draft.source)
    (hsink : id ≠ draft.sink) : node.role.isBoundary = false := by
  cases hrole : node.role.isBoundary with
  | false => rfl
  | true =>
    rcases sound.boundary hnode hrole with h | h
    · exact absurd h hsource
    · exact absurd h hsink

theorem completed (hdone : id ∈ draft.done) (hsource : id ≠ draft.source)
    (hnode : draft.graph.node? id = some node) : draft.Complete rules id node := by
  obtain ⟨found, hfound, complete⟩ := (sound.complete id hdone).resolve_left hsource
  rw [hnode] at hfound
  cases hfound
  exact complete

theorem inner_of_done (hdone : id ∈ draft.done) (hsource : id ≠ draft.source)
    (hnode : draft.graph.node? id = some node) : node.role.isBoundary = false :=
  sound.inner hnode hsource fun hsink => sound.sink.1 (hsink ▸ hdone)

theorem inner_of_reads (hnode : draft.graph.node? id = some node) (hne : id ≠ draft.source)
    (hreads : (draft.info id).reads = entry :: rest) : node.role.isBoundary = false := by
  refine sound.inner hnode hne fun hsink => ?_
  rw [hsink, sound.sink.2.1] at hreads
  cases hreads

/-- A link into a node ends at one of its inputs. -/
theorem link_to (hlink : link ∈ draft.graph.links.values)
    (hnode : draft.graph.node? id = some node) (hport : port ∈ node.inputs) (hto : link.toPort = port.id) :
    link.toNode = id := by
  obtain ⟨finish, last, hfinish, hmem, hid, _⟩ := (sound.linked link hlink).finish
  refine sound.owner hfinish hnode port.id ?_ (mem_map_of_mem (mem_append_left _ hport))
  rw [← hto, ← hid]
  exact mem_map_of_mem (mem_append_left _ hmem)

/-- A link leaves a node at one of its outputs. -/
theorem link_from (hlink : link ∈ draft.graph.links.values)
    (hnode : draft.graph.node? id = some node) (hport : port ∈ node.outputs) (hfrom : link.fromPort = port.id) :
    link.fromNode = id := by
  obtain ⟨start, first, hstart, hid, hreferable⟩ := (sound.linked link hlink).start
  refine sound.owner hstart hnode port.id ?_ (mem_map_of_mem (mem_append_right _ hport))
  rw [← hfrom, ← hid]
  exact mem_map_of_mem (mem_append_right _ hreferable.mem)

/-- No link goes back to the source. -/
theorem to_ne_source (hlink : link ∈ draft.graph.links.values) : link.toNode ≠ draft.source := by
  intro heq
  obtain ⟨finish, last, hfinish, hmem, _⟩ := (sound.linked link hlink).finish
  obtain ⟨_, _, source, hsource, _, hinputs, _⟩ := sound.source
  rw [heq, hsource] at hfinish
  cases hfinish
  rw [hinputs] at hmem
  cases hmem

/-- Links lead upwards in the order of completion, with incomplete nodes on top. -/
theorem ranked : draft.graph.Ranked draft.done.idxOf := by
  intro link hlink
  by_cases hdone : link.toNode ∈ draft.done
  · exact sound.ordered link hlink hdone
  · change draft.done.idxOf link.fromNode < draft.done.idxOf link.toNode
    rw [idxOf_of_notMem hdone]
    exact idxOf_lt_length_iff.mpr (sound.linked link hlink).ready

end

end Sound

/-! ## Zones side by side -/

/-- A draft in which no zone is inside another one, and where only zones show the time of a
simulation. -/
structure Flat (rules : Rules) (draft : Draft) : Prop where
  sound : draft.Sound rules
  coupled : draft.Coupled
  depth : rules.depth ≤ 1
  calls : ∀ args, ¬ rules.call "simulation_input" args

/-- Where a completed node is. -/
inductive Place (draft : Draft) (id : NodeId) : Prop
  | source (same : id = draft.source)
  | call (node : Node) (found : draft.graph.node? id = some node) (unpaired : node.pairedOutput = none)
      (path : (draft.info id).shows = (draft.info id).reads)
      (plain : node.role.isZoneEntry = true → node.outputs = [])
  | entry (node : Node) (kind : Script.ZoneKind) (items : List (String × SocketType)) (exit : NodeId) (last : Node)
      (found : draft.graph.node? id = some node) (paired : node.pairedOutput = some exit)
      (shape : node.Instantiates (kind.entrySpec.withItems items)) (reads : (draft.info id).reads = [])
      (shows : (draft.info id).shows = [id]) (exitFound : draft.graph.node? exit = some last)
      (exitRole : last.role.isZoneExit = true) (exitReads : (draft.info exit).reads = [id])
  | exit (node : Node) (entry : NodeId) (entryNode : Node) (found : draft.graph.node? id = some node)
      (plain : node.role.isZoneEntry = false) (done : entry ∈ draft.done)
      (entryFound : draft.graph.node? entry = some entryNode) (paired : entryNode.pairedOutput = some id)
      (reads : (draft.info id).reads = [entry]) (shows : (draft.info id).shows = [])

namespace Flat

variable {id : NodeId}

/-- A node with a zone around its inputs is inside the graph, and the zone is the only one. -/
theorem reads_eq (flat : draft.Flat rules)
    (hnode : draft.graph.node? id = some node) (inner : node.role.isBoundary = false)
    (hreads : (draft.info id).reads = entry :: rest) : rest = [] := by
  have hlength := (flat.sound.shaped hnode inner).1.reads
  rw [hreads] at hlength
  have hdepth := flat.depth
  simp only [length_cons] at hlength
  exact length_eq_zero_iff.mp (by omega)

theorem place (flat : draft.Flat rules) (hid : id ∈ draft.done) : draft.Place id := by
  by_cases hsource : id = draft.source
  · exact .source hsource
  obtain ⟨node, hnode, complete⟩ := (flat.sound.complete id hid).resolve_left hsource
  have inner := flat.sound.inner_of_done hid hsource hnode
  obtain ⟨allowed, hshape⟩ := flat.sound.shaped hnode inner
  cases complete with
  | plain spec listed _ shape unpaired path called =>
    refine .call node hnode unpaired path fun hrole => ?_
    rw [shape] at hshape
    rw [hshape.role] at hrole
    rcases standardKinds_entries spec listed hrole with hnone | hname
    · have houtputs := hshape.outputs
      rw [hnone] at houtputs
      cases hports : node.outputs with
      | nil => rfl
      | cons port rest =>
        rw [hports] at houtputs
        cases houtputs
    · obtain ⟨args, hcall⟩ := called hrole
      have hsnake : snakeCase "Simulation Input" = "simulation_input" := by decide +kernel
      rw [hname, hsnake] at hcall
      exact absurd hcall (flat.calls args)
  | group function name interface args callee called shape unpaired path graph refers =>
    refine .call node hnode unpaired path fun hrole => ?_
    rw [shape] at hshape
    rw [hshape.role] at hrole
    cases hrole
  | entry kind items exit paired shape exitShape path exitReads exitShows named found =>
    have hreads : (draft.info id).reads = [] := by
      have hlength := allowed.shows
      have hdepth := flat.depth
      rw [path, length_cons] at hlength
      exact length_eq_zero_iff.mp (by omega)
    obtain ⟨last, hlast⟩ := Option.isSome_iff_exists.mp found
    have partners := flat.coupled id node exit hnode paired
    have exitInner := flat.sound.inner_of_reads hlast partners.ne partners.reads
    have hexit := (flat.sound.shaped hlast exitInner).2
    rw [shape] at hshape
    rw [exitShape] at hexit
    refine .entry node kind items exit last hnode paired hshape hreads ?_ hlast ?_ ?_
    · rw [path, hreads]
    · rw [hexit.role]
      cases kind <;> rfl
    · rw [exitReads, hreads]
  | exit kind items entry entryNode done found paired unpaired shape entryShape reads =>
    have hshows := flat.reads_eq hnode inner reads
    rw [shape] at hshape
    refine .exit node entry entryNode hnode ?_ done found paired ?_ hshows
    · rw [hshape.role]
      cases kind <;> rfl
    · rw [reads, hshows]

/-- A link from inside a zone ends inside that zone or at its exit. -/
theorem reads_of_link (flat : draft.Flat rules) (hlink : link ∈ draft.graph.links.values)
    (hshows : (draft.info link.fromNode).shows = [entry]) :
    (draft.info link.toNode).reads = [entry] := by
  have hscope := (flat.sound.linked link hlink).scope
  obtain ⟨finish, last, hfinish, _⟩ := (flat.sound.linked link hlink).finish
  rw [hshows] at hscope
  cases hreads : (draft.info link.toNode).reads with
  | nil =>
    rw [hreads] at hscope
    cases suffix_nil.mp hscope
  | cons first rest =>
    have inner := flat.sound.inner_of_reads hfinish (flat.sound.to_ne_source hlink) hreads
    have hrest := flat.reads_eq hfinish inner hreads
    rw [hreads, hrest] at hscope
    rw [hrest, hscope.eq_of_length rfl]

end Flat

end NodeScript.Draft
