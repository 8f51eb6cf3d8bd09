import NodeScript.Proofs.Build.Bounds
import NodeScript.Proofs.Command.Files
import NodeScript.Proofs.Command.Steps
import NodeScript.Proofs.Decompile.Placement
import NodeScript.Proofs.Document.Decoding

/-!
# All or nothing

A command that fails has changed no file. One that succeeds has written at most the store it was
given: a build puts one graph into it, and a layout moves the nodes of one graph, which is nothing
that a decompiled program would show.
-/

namespace NodeScript

open Command

variable {program : Script.Program} {files' : Files} {json : Bool}

/-! ## Stores in files -/

namespace Store

variable {store : Store} {name : String} {graph graph' : Graph}

theorem mem_ids_set {id : Identity} (h : id ∈ (store.set name graph).ids) : id ∈ store.ids ∨ id ∈ graph.ids := by
  obtain ⟨held, hheld, hid⟩ := List.mem_flatMap.mp h
  obtain ⟨key, hget⟩ := OrderedMap.mem_values_iff.mp hheld
  rw [set, OrderedMap.get?_insert] at hget
  split at hget
  · cases hget
    exact .inr hid
  · exact .inl (List.mem_flatMap.mpr ⟨held, OrderedMap.mem_values_iff.mpr ⟨key, hget⟩, hid⟩)

theorem ids_set (hget : store.get? name = some graph) (h : graph'.ids = graph.ids) :
    (store.set name graph').ids = store.ids := by
  obtain ⟨before, after, hsplit, hmodify⟩ := OrderedMap.entries_modify hget
  have hinsert : (store.graphs.insert name graph').entries = before ++ (name, graph') :: after := by
    unfold OrderedMap.insert
    rw [dif_pos (OrderedMap.mem_keys_iff.mpr ⟨graph, hget⟩), hmodify]
  unfold ids OrderedMap.values
  rw [set, hinsert, hsplit]
  simp only [List.map_append, List.map_cons, List.flatMap_append, List.flatMap_cons, h]

end Store

namespace Files

/-- The file at a path reads as a store. -/
def Holds (files : Files) (path : String) (store : Store) : Prop :=
  ∃ text, files.read path = .ok text ∧ Store.ofText text = .ok store

/-- What a build can start from: the store in the file, or an empty one if there is none. -/
def Offers (files : Files) (path : String) (store : Store) : Prop :=
  if files.isPresent path then files.Holds path store else store = .empty

variable {files : Files} {path : String} {store : Store}

theorem Holds.well (holds : files.Holds path store) :
    store.version ≤ Store.formatVersion ∧ ∀ id ∈ store.ids, id.Fits := by
  obtain ⟨text, -, hstore⟩ := holds
  exact Store.of_ofText hstore

theorem Offers.well (offers : files.Offers path store) :
    store.version ≤ Store.formatVersion ∧ ∀ id ∈ store.ids, id.Fits := by
  unfold Offers at offers
  split at offers
  · exact offers.well
  · subst offers
    exact ⟨UInt32.le_refl _, fun id hid => nomatch hid⟩

/-- A moved graph goes into a file as it comes out of it. -/
theorem Holds.ofText_set (holds : files.Holds path store) {name : String} {graph graph' : Graph}
    (hget : store.get? name = some graph) (same : graph'.unplaced = graph.unplaced) :
    Store.ofText (store.set name graph').toText = .ok (store.set name graph') := by
  have hids : graph'.ids = graph.ids := by rw [← Graph.ids_unplaced, same, Graph.ids_unplaced]
  refine Store.ofText_toText holds.well.1 ?_
  rw [Store.ids_set hget hids]
  exact holds.well.2

end Files

/-! ## What a success has done -/

namespace Command

variable {α : Type} {path : String} {w w' : Workspace} {store : Store} {session : Session}

/-- The program of a script has been built into the store at a path. -/
structure Built (session : Session) (program : Script.Program) (path : String) (files : Files) (after : Workspace)
    (before : Store) (graph : Graph) : Prop where
  offers : files.Offers path before
  built : ∃ supply b, Build.exec (program.build session) { store := before, supply } = (.ok (), b) ∧
    b.store = before.set program.name graph
  writes : files.Writes after.files path (before.set program.name graph).toText
  /-- The file can be read again, as long as identities of 128 bits have not run out. -/
  holds : after.supply.next ≤ 2 ^ 128 → after.files.Holds path (before.set program.name graph)

/-- A graph in the store at a path has been arranged. -/
structure Arranged (session : Session) (path name : String) (files files' : Files) (before : Store)
    (graph graph' : Graph) : Prop where
  held : files.Holds path before
  found : before.get? name = some graph
  arranged : graph.arrange session.settings.layout = .ok graph'
  /-- Only positions differ. -/
  moved : graph'.unplaced = graph.unplaced
  writes : files.Writes files' path (before.set name graph').toText
  holds : files'.Holds path (before.set name graph')

theorem holds_of_loadStore (h : exec (loadStore path) w = (.ok store, w')) : w.files.Holds path store := by
  rw [exec_loadStore] at h
  split at h
  next => cases h
  next text hread =>
    split at h
    next => cases h
    next found hstore =>
      cases h
      exact ⟨text, hread, hstore⟩

theorem offers_of_priorStore (h : exec (priorStore path) w = (.ok store, w')) : w.files.Offers path store := by
  rw [exec_priorStore] at h
  unfold Files.Offers
  split at h
  next hpresent =>
    rw [if_pos hpresent]
    exact holds_of_loadStore h
  next habsent =>
    cases h
    rw [if_neg habsent]

theorem write_of_save_say {line : LogLine}
    (h : exec (do saveStore path store; say line) w = (.ok (), w')) :
    w.files.write path store.toText = .ok w'.files ∧ w'.supply = w.supply := by
  rw [exec_bind, exec_saveStore] at h
  cases hwrite : w.files.write path store.toText with
  | error e =>
    rw [hwrite] at h
    cases h
  | ok files =>
    rw [hwrite] at h
    cases h
    exact ⟨rfl, rfl⟩

theorem reads_eq_ok {ε : Type} {wrap : ε → CommandError} {found : Except ε α} {a : α}
    (h : exec (reads wrap found) w = (.ok a, w')) : found = .ok a := by
  cases found with
  | error e => cases h
  | ok a' =>
    cases h
    rfl

theorem of_buildInto {after : Store} (h : exec (buildInto session store program) w = (.ok after, w')) :
    ∃ b graph, Build.exec (program.build session) { store, supply := w.supply } = (.ok (), b) ∧ b.store = after ∧
      after = store.set program.name graph ∧ ∀ id ∈ graph.ids, id ∈ store.ids ∨ id.code < w'.supply.next := by
  rw [exec_buildInto] at h
  cases hbuild : Build.exec (program.build session) { store, supply := w.supply } with
  | mk result b =>
    rw [hbuild] at h
    cases result with
    | error e => cases h
    | ok u =>
      cases h
      obtain ⟨graph, hset, hids⟩ := Script.Program.exists_set_of_build hbuild
      exact ⟨b, graph, rfl, rfl, hset, hids⟩

theorem built_of_buildScript {script : String} (h : exec (buildScript session script path) w = (.ok (), w')) :
    ∃ text program before graph, w.files.read script = .ok text ∧ Script.Program.parse text = .ok program ∧
      Built session program path w.files w' before graph := by
  rw [buildScript_eq] at h
  obtain ⟨text, w₁, hread, h⟩ := exec_bind_eq_ok h
  obtain ⟨program, w₂, hparse, h⟩ := exec_bind_eq_ok h
  obtain ⟨before, w₃, hprior, h⟩ := exec_bind_eq_ok h
  obtain ⟨after, w₄, hbuild, h⟩ := exec_bind_eq_ok h
  have hfiles₂ : w₂.files = w.files :=
    ((quiet_reads _ _).files_eq hparse).trans ((quiet_readText _ _).files_eq hread)
  have hfiles₄ : w₄.files = w.files :=
    ((quiet_buildInto _ _ _).files_eq hbuild).trans (((quiet_priorStore _).files_eq hprior).trans hfiles₂)
  have hoffers : w.files.Offers path before := hfiles₂ ▸ offers_of_priorStore hprior
  obtain ⟨hwrite, hsupply⟩ := write_of_save_say h
  obtain ⟨b, graph, hexec, hstore, rfl, hids⟩ := of_buildInto hbuild
  rw [hfiles₄] at hwrite
  have hwrites := Files.writes_of_write hwrite
  rw [exec_readText, ← exec_reads] at hread
  refine ⟨text, program, before, graph, reads_eq_ok hread,
    reads_eq_ok hparse, hoffers, ⟨_, b, hexec, hstore⟩, hwrites,
    fun hlast => ?_⟩
  refine ⟨_, hwrites.here, Store.ofText_toText hoffers.well.1 fun id hid => ?_⟩
  rcases Store.mem_ids_set hid with hold | hnew
  · exact hoffers.well.2 id hold
  · rcases hids id hnew with hold | hcode
    · exact hoffers.well.2 id hold
    · rw [← hsupply] at hcode
      exact Nat.lt_of_lt_of_le hcode hlast

theorem arranged_of_layoutGraph {name : String} (h : exec (layoutGraph session path name) w = (.ok (), w')) :
    ∃ before graph graph', Arranged session path name w.files w'.files before graph graph' := by
  obtain ⟨before, w₁, hload, h⟩ := exec_bind_eq_ok h
  obtain ⟨graph, w₂, hfind, h⟩ := exec_bind_eq_ok h
  obtain ⟨graph', w₃, harrange, h⟩ := exec_bind_eq_ok h
  have hfiles : w₃.files = w.files := ((quiet_reads _ _).files_eq harrange).trans
    (((quiet_findGraph _ _).files_eq hfind).trans ((quiet_loadStore _).files_eq hload))
  have hget : before.get? name = some graph := by
    unfold findGraph at hfind
    split at hfind
    next found hfound =>
      cases hfind
      exact hfound
    next => cases hfind
  have hheld := holds_of_loadStore hload
  have harranged := reads_eq_ok harrange
  have hmoved := Graph.unplaced_arrange harranged
  have hwrite := (write_of_save_say h).1
  rw [hfiles] at hwrite
  have hwrites := Files.writes_of_write hwrite
  exact ⟨before, graph, graph', hheld, hget, harranged, hmoved,
    hwrites, _, hwrites.here, hheld.ofText_set hget hmoved⟩

/-! ## Decompiling what was moved -/

section Moved

variable {files : Files} {path name : String} {store : Store} {graph graph' : Graph}

theorem findGraph_set_bind {next : Graph → CommandM α} (hget : store.get? name = some graph)
    (same : next graph' = next graph) (other : String) :
    (findGraph (store.set name graph') other >>= next) = findGraph store other >>= next := by
  unfold findGraph
  rw [Store.get?_set]
  by_cases hother : other = name
  · rw [if_pos hother, hother, hget]
    exact same
  · rw [if_neg hother]

/-- The text in a file may be replaced by one of a store in which nodes have moved. -/
theorem alike_decompileGraph_moved (holds : files.Holds path store) (hget : store.get? name = some graph)
    (same : graph'.unplaced = graph.unplaced) (session : Session) (place other : String) (json : Bool) :
    Alike files (files.put path (store.set name graph').toText) (decompileGraph session place other json) := by
  have hnew := holds.ofText_set hget same
  obtain ⟨text, hread, hstore⟩ := holds
  have htext := Files.get?_of_read hread
  have hput : (files.put path (store.set name graph').toText).read place = _ :=
    Files.read_put (Option.isSome_iff_exists.mpr ⟨text, htext⟩) place
  by_cases hplace : Path.canonical place = Path.canonical path
  · rw [if_pos hplace] at hput
    cases hold : files.read place with
    | error e =>
      rw [hold] at hput
      exact .decompileGraph session (hput.trans hold.symm) other json
    | ok text' =>
      have htext' := Files.get?_of_read hold
      rw [hplace, htext] at htext'
      cases htext'
      rw [hold] at hput
      have hids : (store.set name graph').ids = store.ids :=
        Store.ids_set hget (by rw [← Graph.ids_unplaced, same, Graph.ids_unplaced])
      intro w hw
      unfold decompileGraph
      rw [exec_bind, exec_bind, exec_loadStore, exec_loadStore]
      rw [show (w.on (files.put path (store.set name graph').toText)).files.read place = _ from hput, hw, hold]
      simp only [Except.map, hstore, hnew, hids]
      rw [findGraph_set_bind hget ?_]
      · exact ((Alike.findGraph store other).bind fun graph => .printGraph session graph json) _ rfl
      · rw [← Graph.decompileWarnings_unplaced graph', ← Graph.decompile_unplaced graph', same,
          Graph.decompileWarnings_unplaced, Graph.decompile_unplaced]
  · rw [if_neg hplace] at hput
    exact .decompileGraph session hput other json

/-- A layout of one file makes no difference to a decompilation that reads it as a store only. -/
theorem Arranged.alike_run {session : Session}
    (arranged : Arranged session path name files files' store graph graph')
    {invocation : Invocation} {place other : String}
    (hcommand : invocation.command = .decompile place other json)
    (catalog : ∀ file ∈ invocation.catalog, Path.canonical file ≠ Path.canonical path)
    (settings : ∀ file ∈ invocation.settings, Path.canonical file ≠ Path.canonical path) :
    Alike files files' invocation.run := by
  obtain ⟨text, hread, -⟩ := arranged.held
  have hput : ∀ file, Path.canonical file ≠ Path.canonical path → files'.read file = files.read file := by
    intro file hne
    rw [arranged.writes.put, Files.read_put
      (Option.isSome_iff_exists.mpr ⟨text, Files.get?_of_read hread⟩), if_neg hne]
  refine (Alike.openSession (fun file hfile => hput file (catalog file hfile))
    fun file hfile => hput file (settings file hfile)).bind fun session => ?_
  rw [hcommand, arranged.writes.put]
  exact alike_decompileGraph_moved arranged.held arranged.found arranged.moved session place other json

end Moved

end Command

/-! ## Runs -/

namespace Ending

/-- How a run ends that has come to a result. -/
def ofResult : Except CommandError Unit × Workspace → Ending
  | (.ok (), workspace) => ⟨0, workspace⟩
  | (.error error, workspace) =>
    ⟨1, { workspace with log := workspace.log ++ [⟨.error, programName, error.message⟩] }⟩

/-- The same ending among other files. -/
def on (ending : Ending) (files : Files) : Ending := ⟨ending.status, ending.workspace.on files⟩

theorem ofResult_on (result : Except CommandError Unit) (w : Workspace) (files : Files) :
    ofResult (result, w.on files) = (ofResult (result, w)).on files := by
  cases result <;> rfl

end Ending

variable {arguments : List String} {invocation : Invocation}

theorem runArguments_invoke (h : Request.ofArguments? arguments = some (.invoke invocation)) (files : Files) :
    runArguments arguments files = .ofResult (exec invocation.run { files }) := by
  unfold runArguments
  rw [h]
  change (match exec invocation.run { files } with
    | (.ok (), workspace) => _ | (.error error, workspace) => _) = _
  cases exec invocation.run { files } with
  | mk result w => cases result <;> rfl

theorem runArguments_of_alike {files : Files} (h : Request.ofArguments? arguments = some (.invoke invocation))
    (alike : Command.Alike files files' invocation.run) :
    runArguments arguments files' = (runArguments arguments files).on files' := by
  rw [runArguments_invoke h, runArguments_invoke h]
  have hexec : exec invocation.run { files := files' } = _ := (alike { files } rfl).2
  rw [hexec]
  exact Ending.ofResult_on _ _ _

/-- Whoever decompiles anything, with other files for the catalog and the settings, sees no
difference between the files. -/
def Files.SameScripts (path : String) (files files' : Files) : Prop :=
  ∀ (arguments : List String) (invocation : Invocation) (place other : String) (json : Bool),
    Request.ofArguments? arguments = some (.invoke invocation) → invocation.command = .decompile place other json →
    (∀ file ∈ invocation.catalog, Path.canonical file ≠ Path.canonical path) →
    (∀ file ∈ invocation.settings, Path.canonical file ≠ Path.canonical path) →
    runArguments arguments files' = (runArguments arguments files).on files'

namespace Invocation

/-- What an invocation that succeeded has done to the files. -/
def Effect (invocation : Invocation) (files : Files) (after : Workspace) : Prop :=
  match invocation.command with
  | .functions _ | .decompile _ _ _ => after.files = files
  | .build script path => ∃ session text program before graph,
      (exec (openSession invocation) { files }).1 = .ok session ∧
      files.read script = .ok text ∧ Script.Program.parse text = .ok program ∧
      Command.Built session program path files after before graph
  | .layout path name => ∃ session before graph graph',
      (exec (openSession invocation) { files }).1 = .ok session ∧
      Command.Arranged session path name files after.files before graph graph' ∧
      files.SameScripts path after.files

theorem effect_of_run {files : Files} {after : Workspace}
    (h : exec invocation.run { files } = (.ok (), after)) : invocation.Effect files after := by
  obtain ⟨session, w, hopen, h⟩ := exec_bind_eq_ok h
  have hfiles : w.files = files := (quiet_openSession invocation).files_eq hopen
  have hsession : (exec (openSession invocation) { files }).1 = .ok session := by rw [hopen]
  unfold Effect
  split
  case h_1 category hcommand =>
    rw [hcommand] at h
    exact ((quiet_listFunctions session category).files_eq h).trans hfiles
  case h_2 place other json hcommand =>
    rw [hcommand] at h
    exact ((quiet_decompileGraph session place other json).files_eq h).trans hfiles
  case h_3 script path hcommand =>
    rw [hcommand] at h
    obtain ⟨text, program, before, graph, hread, hparse, built⟩ := Command.built_of_buildScript h
    rw [hfiles] at hread built
    exact ⟨session, text, program, before, graph, hsession, hread, hparse, built⟩
  case h_4 path name hcommand =>
    rw [hcommand] at h
    obtain ⟨before, graph, graph', arranged⟩ := Command.arranged_of_layoutGraph h
    rw [hfiles] at arranged
    refine ⟨session, before, graph, graph', hsession, arranged, ?_⟩
    intro arguments later place other json hrequest hdecompile hcatalog hsettings
    exact runArguments_of_alike hrequest (arranged.alike_run hdecompile hcatalog hsettings)

end Invocation

/-! ## A file with two readings

A store can hold more fields than it needs, and with the right ones it is a catalog as well. A
layout writes it anew without them.
-/

/-- The text of a store that has no kinds is no catalog. -/
theorem Store.catalog_toText {store : Store} (h : ∀ id ∈ store.ids, id.Fits) :
    Catalog.ofText store.toText = .error .malformed := by
  have hkeeps := Store.keeps (k := 0) h
  have hdecode : Catalog.codec.decode {} (Store.codec.encode store) = none := by
    rw [Option.eq_none_iff_forall_ne_some]
    intro catalog hcatalog
    simp only [Catalog.codec, Option.bind_eq_bind, Option.bind_eq_some_iff] at hcatalog
    obtain ⟨fields, hfields, _, -, kinds, hkinds, -⟩ := hcatalog
    simp only [Store.codec, Document.fields?, Document.Fields.of?, Option.ite_none_right_eq_some] at hfields
    obtain ⟨-, -, hfields⟩ := hfields
    cases hfields
    cases hkinds
  have hread : Catalog.codec.ofText? store.toText = none := by
    unfold Codec.ofText? Store.toText Codec.toText
    rw [Document.parse?_render hkeeps.plain.canonical (hkeeps.plain.shallow.trans (by decide))]
    exact hdecode
  rw [Catalog.ofText, Codec.ofText, hread]

namespace Command

section

variable {files : Files} {path name : String} {store : Store} {graph : Graph} {session : Session}

theorem gives_loadStore (holds : files.Holds path store) : Gives files (loadStore path) store := by
  intro w hw
  obtain ⟨text, hread, hstore⟩ := holds
  rw [exec_loadStore, hw, hread]
  dsimp only
  rw [hstore]
  exact ⟨_, rfl, rfl⟩

theorem gives_findGraph (h : store.get? name = some graph) : Gives files (findGraph store name) graph := by
  unfold findGraph
  rw [h]
  exact gives_pure graph

theorem gives_decompileGraph (holds : files.Holds path store)
    (hget : store.get? name = some graph) (hprogram : graph.decompile session.catalog = .ok program) (json : Bool) :
    Gives files (decompileGraph session path name json) () :=
  (gives_loadStore holds).bind ((gives_findGraph hget).bind (Gives.bind (fun _ hw => ⟨_, rfl, hw⟩)
    ((gives_reads hprogram).bind fun _ hw => ⟨_, rfl, hw⟩)))

/-- What can be arranged and written is arranged. -/
theorem exec_layoutGraph {graph' : Graph} (holds : files.Holds path store)
    (hget : store.get? name = some graph) (harrange : graph.arrange session.settings.layout = .ok graph')
    (hwrite : files.write path (store.set name graph').toText = .ok files') {w : Workspace} (hw : w.files = files) :
    ∃ w', exec (layoutGraph session path name) w = (.ok (), w') := by
  have hsave : ∀ w : Workspace, w.files = files → ∃ w', exec (do
      saveStore path (store.set name graph')
      say ⟨.info, programName, "Arranged '" ++ name ++ "'"⟩) w = (.ok (), w') := by
    intro w hw
    rw [exec_bind, exec_saveStore, hw, hwrite]
    exact ⟨_, rfl⟩
  unfold layoutGraph
  obtain ⟨w₁, hload, hw₁⟩ := gives_loadStore holds w hw
  obtain ⟨w₂, hfind, hw₂⟩ := gives_findGraph hget w₁ hw₁
  rw [exec_bind, hload]
  dsimp only
  rw [exec_bind, hfind]
  dsimp only
  rw [exec_bind, harrange, exec_reads]
  exact hsave w₂ hw₂

end

/-- What a layout wrote is no catalog. -/
theorem Arranged.catalog_malformed {session : Session} {path name : String} {files : Files} {before : Store}
    {graph graph' : Graph} (arranged : Arranged session path name files files' before graph graph') :
    ∃ text, files'.read path = .ok text ∧ Catalog.ofText text = .error .malformed :=
  ⟨_, arranged.writes.here, Store.catalog_toText arranged.holds.well.2⟩

end Command

section Requests

variable {arguments : List String} {path place name text : String} {files : Files}

theorem status_of_malformed_catalog {command : Command}
    (hrequest : Request.ofArguments? arguments = some (.invoke { command, catalog := some path }))
    (hread : files.read path = .ok text) (hcatalog : Catalog.ofText text = .error .malformed) :
    (runArguments arguments files).status = 1 := by
  have hload : exec (loadCatalog path) { files } = (.error (.catalog .malformed), { files }) := by
    unfold loadCatalog
    rw [exec_bind, exec_readText, hread]
    dsimp only [Except.mapError]
    rw [exec_bind, exec_reads, hcatalog]
    rfl
  rw [runArguments_invoke hrequest, Invocation.run, exec_bind, openSession_eq, exec_bind,
    Option.elim_some, hload]
  rfl

variable {catalog : Catalog} {store : Store} {graph graph' : Graph} (hread : files.read path = .ok text)
  (hcatalog : Catalog.ofText text = .ok catalog)
  (holds : files.Holds place store) (hget : store.get? name = some graph)

include hread hcatalog holds hget

theorem status_of_decompile
    (hrequest : Request.ofArguments? arguments =
      some (.invoke { command := .decompile place name json, catalog := some path }))
    (hprogram : graph.decompile catalog = .ok program) : (runArguments arguments files).status = 0 := by
  obtain ⟨session, rfl, -, gives⟩ := gives_openSession (.decompile place name json) hread hcatalog
  obtain ⟨w, hsession, hw⟩ := gives { files } rfl
  obtain ⟨w', hexec, -⟩ := Command.gives_decompileGraph holds hget hprogram json w hw
  rw [runArguments_invoke hrequest, Invocation.run, exec_bind, hsession]
  dsimp only
  rw [hexec]
  rfl

theorem arranged_of_layout
    (hrequest : Request.ofArguments? arguments =
      some (.invoke { command := .layout place name, catalog := some path }))
    (harrange : graph.arrange {} = .ok graph')
    (hwrite : files.write place (store.set name graph').toText = .ok files') :
    (runArguments arguments files).status = 0 ∧ ∃ session before graph graph',
      Command.Arranged session place name files
        (runArguments arguments files).workspace.files before graph graph' := by
  obtain ⟨session, rfl, hsettings, gives⟩ := gives_openSession (.layout place name) hread hcatalog
  obtain ⟨w, hsession, hw⟩ := gives { files } rfl
  rw [show ({} : LayoutOptions) = session.settings.layout by rw [hsettings]] at harrange
  obtain ⟨w', hexec⟩ := Command.exec_layoutGraph holds hget harrange hwrite hw
  have hrun : runArguments arguments files = ⟨0, w'⟩ := by
    rw [runArguments_invoke hrequest, Invocation.run, exec_bind, hsession]
    dsimp only
    rw [hexec]
    rfl
  rw [hrun]
  exact ⟨rfl, _, hw ▸ Command.arranged_of_layoutGraph hexec⟩

end Requests

/-- One end of a graph. -/
def endNode (id : NodeId) (role : Role) : Node :=
  { id, kind := "", name := "", role, width := 0, inputs := [], outputs := [], properties := [] }

/-- A graph that has nothing between its ends. -/
def hollow : Graph :=
  { name := "G", nodes := .ofList [(⟨0⟩, endNode ⟨0⟩ .groupInput), (⟨1⟩, endNode ⟨1⟩ .groupOutput)] }

/-- A store of one graph that lists no kinds as well. -/
def twofold : Document := .record none [("version", Codec.uint32.encode 1), ("kinds", .map []),
  ("graphs", (Codec.text.orderedMap Graph.codec).encode (Store.empty.set "G" hollow).graphs)]

theorem parse?_twofold : Document.parse? twofold.render = some ({}, twofold) :=
  Document.parse?_render (by decide +kernel) (by decide +kernel)

theorem store_twofold : Store.ofText twofold.render = .ok (Store.empty.set "G" hollow) := by
  rw [Store.ofText, Codec.ofText, Codec.ofText?, parse?_twofold]
  rfl

theorem catalog_twofold : Catalog.ofText twofold.render = .ok ⟨1, ∅⟩ := by
  rw [Catalog.ofText, Codec.ofText, Codec.ofText?, parse?_twofold]
  rfl

/-! ## All or nothing -/

/-- What a request that succeeded has done to the files. -/
def Request.Effect (request : Request) (files : Files) (after : Workspace) : Prop :=
  match request with
  | .invoke invocation => invocation.Effect files after
  | .version | .help => after.files = files

/-- A run that fails leaves all files as they were. One that succeeds has done what was asked for
and nothing else. -/
theorem runArguments_all_or_nothing (arguments : List String) (files : Files) :
    ((runArguments arguments files).status ≠ 0 → (runArguments arguments files).workspace.files = files) ∧
    ((runArguments arguments files).status = 0 → ∃ request, Request.ofArguments? arguments = some request ∧
      request.Effect files (runArguments arguments files).workspace) := by
  cases hrequest : Request.ofArguments? arguments with
  | none =>
    have hrun : runArguments arguments files = ⟨2, { files }⟩ := by
      unfold runArguments
      rw [hrequest]
    rw [hrun]
    exact ⟨fun _ => rfl, fun h => nomatch h⟩
  | some request =>
    cases request with
    | version =>
      have hrun : runArguments arguments files = ⟨0, { files, output := Command.versionText }⟩ := by
        unfold runArguments
        rw [hrequest]
      rw [hrun]
      exact ⟨fun _ => rfl, fun _ => ⟨.version, rfl, rfl⟩⟩
    | help =>
      have hrun : runArguments arguments files = ⟨0, { files, output := Command.helpText }⟩ := by
        unfold runArguments
        rw [hrequest]
      rw [hrun]
      exact ⟨fun _ => rfl, fun _ => ⟨.help, rfl, rfl⟩⟩
    | invoke invocation =>
      rw [runArguments_invoke hrequest]
      cases hexec : Command.exec invocation.run { files } with
      | mk result after =>
        cases result with
        | error e =>
          have hfiles := Command.careful_run invocation { files } e (by rw [hexec])
          rw [hexec] at hfiles
          exact ⟨fun _ => hfiles, fun h => nomatch h⟩
        | ok u => exact ⟨fun h => absurd rfl h, fun _ => ⟨_, rfl, Invocation.effect_of_run hexec⟩⟩

/-- If the store is the catalog as well, a layout takes the catalog away, and what could be
decompiled before it can be decompiled no more. -/
theorem runArguments_decompile_lost :
    let files : Files := { texts := .ofList [("s.ron", twofold.render)] }
    let decompile := ["decompile", "--store", "s.ron", "--graph", "G", "--catalog", "s.ron"]
    let layout := ["layout", "--store", "s.ron", "--graph", "G", "--catalog", "s.ron"]
    (runArguments decompile files).status = 0 ∧ (runArguments layout files).status = 0 ∧
      (runArguments decompile (runArguments layout files).workspace.files).status = 1 := by
  intro files decompile layout
  have hdecompile : Request.ofArguments? decompile =
      some (.invoke { command := .decompile "s.ron" "G" false, catalog := some "s.ron" }) := by decide +kernel
  have hlayout : Request.ofArguments? layout =
      some (.invoke { command := .layout "s.ron" "G", catalog := some "s.ron" }) := by decide +kernel
  have hread : files.read "s.ron" = .ok twofold.render := rfl
  have hholds : files.Holds "s.ron" (Store.empty.set "G" hollow) := ⟨_, hread, store_twofold⟩
  have hget : (Store.empty.set "G" hollow).get? "G" = some hollow := by rw [Store.get?_set, if_pos rfl]
  obtain ⟨program, hprogram⟩ : ∃ program, hollow.decompile ⟨1, ∅⟩ = .ok program := ⟨_, rfl⟩
  obtain ⟨graph', harrange⟩ : ∃ graph', hollow.arrange {} = .ok graph' := ⟨_, rfl⟩
  obtain ⟨files', hwrite⟩ : ∃ files',
      files.write "s.ron" ((Store.empty.set "G" hollow).set "G" graph').toText = .ok files' := ⟨_, rfl⟩
  obtain ⟨hstatus, _, _, _, _, arranged⟩ :=
    arranged_of_layout hread catalog_twofold hholds hget hlayout harrange hwrite
  obtain ⟨text, htext, hmalformed⟩ := arranged.catalog_malformed
  exact ⟨status_of_decompile hread catalog_twofold hholds hget hdecompile hprogram, hstatus,
    status_of_malformed_catalog hdecompile htext hmalformed⟩

end NodeScript
