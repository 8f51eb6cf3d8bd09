import NodeScript.Command.Run
import NodeScript.Proofs.Build.Run

/-!
# Steps of a command

Every step of a command but the last two leaves the files as they are, and it does not care about
files that it does not read. A store is written last, and nothing can fail behind it: so a command
that fails has changed no file.
-/

namespace NodeScript

/-- The workspace with other files. -/
def Workspace.on (w : Workspace) (files : Files) : Workspace := { w with files }

namespace Command

variable {α β ε : Type}

/-- The outcome of a step and the workspace it leaves behind. -/
def exec (m : CommandM α) (w : Workspace) : Except CommandError α × Workspace := m w

theorem exec_bind (m : CommandM α) (f : α → CommandM β) (w : Workspace) : exec (m >>= f) w =
    match exec m w with
    | (.ok a, w') => exec (f a) w'
    | (.error e, w') => (.error e, w') := by
  change (match exec m w with | (a, s) => ExceptT.bindCont f a s) = _
  cases exec m w with
  | mk result w' => cases result <;> rfl

theorem exec_bind_eq_ok {m : CommandM α} {f : α → CommandM β} {w w' : Workspace} {r : β}
    (h : exec (m >>= f) w = (.ok r, w')) :
    ∃ a between, exec m w = (.ok a, between) ∧ exec (f a) between = (.ok r, w') := by
  rw [exec_bind] at h
  cases hm : exec m w with
  | mk result between =>
    rw [hm] at h
    cases result with
    | error e => cases h
    | ok a => exact ⟨a, between, rfl, h⟩

@[simp] theorem exec_get (w : Workspace) : exec get w = (.ok w, w) := rfl

@[simp] theorem exec_modify (f : Workspace → Workspace) (w : Workspace) : exec (modify f) w = (.ok (), f w) := rfl

@[simp] theorem exec_reads (wrap : ε → CommandError) (found : Except ε α) (w : Workspace) :
    exec (reads wrap found) w = (found.mapError wrap, w) := by
  cases found <;> rfl

theorem exec_readText (path : String) (wrap : FileError → CommandError) (w : Workspace) :
    exec (readText path wrap) w = ((w.files.read path).mapError wrap, w) := by
  unfold readText
  rw [exec_bind, exec_get]
  exact exec_reads _ _ _

theorem exec_saveStore (path : String) (store : Store) (w : Workspace) : exec (saveStore path store) w =
    match w.files.write path store.toText with
    | .ok files => (.ok (), { w with files })
    | .error e => (.error (.save path e), w) := by
  unfold saveStore
  rw [exec_bind, exec_get]
  dsimp only
  rw [exec_bind, exec_reads]
  cases w.files.write path store.toText <;> rfl

/-- A build runs on the identities of the workspace. -/
theorem exec_buildInto (session : Session) (store : Store) (program : Script.Program) (w : Workspace) :
    let built := Build.exec (program.build session) { store, supply := w.supply }
    exec (buildInto session store program) w = ((built.1.mapError CommandError.build).map fun _ => built.2.store,
      { w with supply := built.2.supply, log := w.log ++ built.2.warnings.map Warning.logLine }) := by
  intro built
  unfold buildInto warn
  rw [exec_bind, exec_get]
  change exec (do
    modify fun workspace => { workspace with supply := built.2.supply }
    modify fun workspace => { workspace with log := workspace.log ++ built.2.warnings.map Warning.logLine }
    reads .build built.1
    return built.2.store) w = _
  rw [exec_bind, exec_modify]
  dsimp only
  rw [exec_bind, exec_modify]
  dsimp only
  rw [exec_bind, exec_reads]
  cases built.1 <;> rfl

theorem exec_loadStore (path : String) (w : Workspace) : exec (loadStore path) w =
    match w.files.read path with
    | .error e => (.error (.storeFile path e), w)
    | .ok text =>
      match Store.ofText text with
      | .error e => (.error (.store path e), w)
      | .ok store => (.ok store, { w with supply := w.supply.reserve store.ids }) := by
  unfold loadStore
  rw [exec_bind, exec_readText]
  cases w.files.read path with
  | error e => rfl
  | ok text =>
    change exec (do
      let store ← reads (CommandError.store path) (Store.ofText text)
      reserve store.ids
      return store) w = _
    rw [exec_bind, exec_reads]
    dsimp only
    cases Store.ofText text <;> rfl

/-- The store that a build starts from. -/
def priorStore (path : String) : CommandM Store := do
  if (← get).files.isPresent path then loadStore path else pure Store.empty

theorem exec_priorStore (path : String) (w : Workspace) : exec (priorStore path) w =
    if w.files.isPresent path then exec (loadStore path) w else (.ok Store.empty, w) := by
  unfold priorStore
  rw [exec_bind, exec_get]
  dsimp only
  split <;> rfl

theorem buildScript_eq (session : Session) (script store : String) : buildScript session script store = (do
    let text ← readText script (.script script)
    let program ← reads (.parse script) (Script.Program.parse text)
    let before ← priorStore store
    let after ← buildInto session before program
    saveStore store after
    say ⟨.info, programName, "Built '" ++ program.name ++ "' into " ++ store⟩) := by
  unfold buildScript priorStore
  refine congrArg _ (funext fun text => congrArg _ (funext fun program => ?_))
  rw [bind_assoc]
  refine congrArg _ (funext fun w => ?_)
  split <;> rfl

theorem openSession_eq (invocation : Invocation) : openSession invocation = (do
    let catalog ← invocation.catalog.elim (draw Catalog.standard) loadCatalog
    let settings ← invocation.settings.elim (pure {}) loadSettings
    return { catalog, settings }) := by
  unfold openSession
  cases invocation.catalog <;> cases invocation.settings <;> rfl

/-! ## Steps that write nothing -/

/-- The step changes no file, and it makes no difference to it if other files are there. -/
def Alike (files files' : Files) (m : CommandM α) : Prop :=
  ∀ w : Workspace, w.files = files →
    (exec m w).2.files = files ∧ exec m (w.on files') = ((exec m w).1, (exec m w).2.on files')

namespace Alike

variable {files files' : Files} {path : String}

theorem pure (a : α) : Alike files files' (Pure.pure a) := fun _ hw => ⟨hw, rfl⟩

theorem reads (wrap : ε → CommandError) (found : Except ε α) :
    Alike files files' (Command.reads wrap found) := by
  intro w hw
  rw [exec_reads, exec_reads]
  exact ⟨hw, rfl⟩

theorem modify {f : Workspace → Workspace} (kept : ∀ w, (f w).files = w.files)
    (blind : ∀ w : Workspace, f (w.on files') = (f w).on files') :
    Alike files files' (MonadStateOf.modifyGet fun w => ((), f w)) :=
  fun w hw => ⟨(kept w).trans hw, congrArg (Prod.mk _) (blind w)⟩

theorem bind {m : CommandM α} {f : α → CommandM β} (first : Alike files files' m)
    (second : ∀ a, Alike files files' (f a)) : Alike files files' (m >>= f) := by
  intro w hw
  obtain ⟨hfiles, hexec⟩ := first w hw
  rw [exec_bind, exec_bind, hexec]
  cases hm : exec m w with
  | mk result between =>
    rw [hm] at hfiles
    cases result with
    | error e => exact ⟨hfiles, rfl⟩
    | ok a => exact second a between hfiles

theorem say (line : LogLine) : Alike files files' (Command.say line) := modify (fun _ => rfl) fun _ => rfl

theorem warn (warnings : List Warning) : Alike files files' (Command.warn warnings) :=
  modify (fun _ => rfl) fun _ => rfl

theorem print (text : String) : Alike files files' (Command.print text) := modify (fun _ => rfl) fun _ => rfl

theorem reserve (identities : List Identity) : Alike files files' (Command.reserve identities) :=
  modify (fun _ => rfl) fun _ => rfl

theorem draw (step : StateM Supply α) : Alike files files' (Command.draw step) := fun _ hw => ⟨hw, rfl⟩

section

variable (same : files'.read path = files.read path)
include same

theorem readText (wrap : FileError → CommandError) : Alike files files' (Command.readText path wrap) := by
  intro w hw
  rw [exec_readText, exec_readText]
  refine ⟨hw, ?_⟩
  rw [show (w.on files').files = files' from rfl, same, hw]

theorem loadCatalog : Alike files files' (Command.loadCatalog path) :=
  (readText same _).bind fun _ => (reads _ _).bind fun _ => (reserve _).bind fun _ => (say _).bind fun _ => pure _

theorem loadSettings : Alike files files' (Command.loadSettings path) :=
  (readText same _).bind fun _ => reads _ _

theorem loadStore : Alike files files' (Command.loadStore path) :=
  (readText same _).bind fun _ => (reads _ _).bind fun _ => (reserve _).bind fun _ => pure _

end

theorem openSession {invocation : Invocation}
    (catalog : ∀ path ∈ invocation.catalog, files'.read path = files.read path)
    (settings : ∀ path ∈ invocation.settings, files'.read path = files.read path) :
    Alike files files' (Command.openSession invocation) := by
  rw [openSession_eq]
  refine bind ?_ fun _ => bind ?_ fun _ => pure _
  · cases hpath : invocation.catalog with
    | none =>
      rw [Option.elim_none]
      exact draw Catalog.standard
    | some path => exact loadCatalog (catalog path hpath)
  · cases hpath : invocation.settings with
    | none => exact pure _
    | some path => exact loadSettings (settings path hpath)

theorem listFunctions (session : Session) (category : Option String) :
    Alike files files' (Command.listFunctions session category) := by
  have hall : ∀ functions : List Function,
      Alike files files' (functions.forM fun function => Command.print (functionLine function)) := by
    intro functions
    induction functions with
    | nil => exact pure _
    | cons function rest ih => exact (print _).bind fun _ => ih
  exact hall _

theorem findGraph (store : Store) (name : String) : Alike files files' (Command.findGraph store name) := by
  unfold Command.findGraph
  split
  · exact pure _
  · exact fun _ hw => ⟨hw, rfl⟩

/-- What is left of decompiling once the graph has been found. -/
theorem printGraph (session : Session) (graph : Graph) (json : Bool) : Alike files files' (do
    Command.warn (graph.decompileWarnings session.catalog)
    let program ← Command.reads .decompile (graph.decompile session.catalog)
    Command.print (if json then program.toJson.render ++ "\n" else program.render)) :=
  (warn _).bind fun _ => (reads _ _).bind fun _ => print _

theorem decompileGraph (session : Session) {store : String}
    (same : files'.read store = files.read store) (name : String)
    (json : Bool) : Alike files files' (Command.decompileGraph session store name json) :=
  (loadStore same).bind fun _ => (findGraph _ _).bind fun _ => printGraph session _ json

end Alike

/-- The step changes no file. -/
def Quiet (m : CommandM α) : Prop := ∀ w, (exec m w).2.files = w.files

/-- If the step fails, it has changed no file. -/
def Careful (m : CommandM α) : Prop := ∀ w e, (exec m w).1 = .error e → (exec m w).2.files = w.files

section Steps

variable {m : CommandM α} {f : α → CommandM β}

theorem Quiet.of_alike (h : ∀ files, Alike files files m) : Quiet m := fun w => (h w.files w rfl).1

theorem Quiet.careful (quiet : Quiet m) : Careful m := fun w _ _ => quiet w

/-- As long as nothing was written, failing does no harm. -/
theorem Quiet.bind_careful (quiet : Quiet m) (careful : ∀ a, Careful (f a)) : Careful (m >>= f) := by
  intro w e he
  have hquiet := quiet w
  rw [exec_bind] at he ⊢
  cases hm : exec m w with
  | mk result between =>
    rw [hm] at he hquiet
    cases result with
    | error e' => exact hquiet
    | ok a => exact (careful a between e he).trans hquiet

theorem Quiet.files_eq (quiet : Quiet m) {w w' : Workspace} {r : Except CommandError α} (h : exec m w = (r, w')) :
    w'.files = w.files := by
  have hquiet := quiet w
  rw [h] at hquiet
  exact hquiet

/-- Nothing can fail once the store has been written. -/
theorem careful_save_say (path : String) (store : Store) (line : LogLine) : Careful (do
    saveStore path store
    say line) := by
  intro w e he
  rw [exec_bind, exec_saveStore] at he ⊢
  cases hwrite : w.files.write path store.toText with
  | error e' => rfl
  | ok files =>
    rw [hwrite] at he
    cases he

theorem quiet_readText (path : String) (wrap : FileError → CommandError) : Quiet (readText path wrap) :=
  .of_alike fun _ => .readText rfl wrap

theorem quiet_reads (wrap : ε → CommandError) (found : Except ε α) : Quiet (reads wrap found) :=
  .of_alike fun _ => .reads wrap found

theorem quiet_loadStore (path : String) : Quiet (loadStore path) := .of_alike fun _ => .loadStore rfl

theorem quiet_findGraph (store : Store) (name : String) : Quiet (findGraph store name) :=
  .of_alike fun _ => .findGraph store name

theorem quiet_openSession (invocation : Invocation) : Quiet (openSession invocation) :=
  .of_alike fun _ => .openSession (fun _ _ => rfl) fun _ _ => rfl

theorem quiet_priorStore (path : String) : Quiet (priorStore path) := by
  intro w
  rw [exec_priorStore]
  split
  · exact quiet_loadStore path w
  · rfl

theorem quiet_buildInto (session : Session) (store : Store) (program : Script.Program) :
    Quiet (buildInto session store program) := by
  intro w
  rw [exec_buildInto]

theorem careful_buildScript (session : Session) (script store : String) :
    Careful (buildScript session script store) := by
  rw [buildScript_eq]
  exact (quiet_readText _ _).bind_careful fun _ => (quiet_reads _ _).bind_careful fun _ =>
    (quiet_priorStore _).bind_careful fun _ => (quiet_buildInto _ _ _).bind_careful fun _ => careful_save_say _ _ _

theorem careful_layoutGraph (session : Session) (path name : String) : Careful (layoutGraph session path name) :=
  (quiet_loadStore _).bind_careful fun _ => (quiet_findGraph _ _).bind_careful fun _ =>
    (quiet_reads _ _).bind_careful fun _ => careful_save_say _ _ _

theorem quiet_listFunctions (session : Session) (category : Option String) :
    Quiet (listFunctions session category) :=
  .of_alike fun _ => .listFunctions session category

theorem quiet_decompileGraph (session : Session) (store name : String) (json : Bool) :
    Quiet (decompileGraph session store name json) := .of_alike fun _ => .decompileGraph session rfl name json

theorem careful_run (invocation : Invocation) : Careful invocation.run := by
  refine (quiet_openSession invocation).bind_careful fun session => ?_
  split
  case h_1 category _ => exact (quiet_listFunctions session category).careful
  case h_2 script store _ => exact careful_buildScript session script store
  case h_3 store graph json _ => exact (quiet_decompileGraph session store graph json).careful
  case h_4 store graph _ => exact careful_layoutGraph session store graph

end Steps

/-! ## Steps that succeed -/

/-- Among the files, the step succeeds with a value and writes nothing. -/
def Gives (files : Files) (m : CommandM α) (a : α) : Prop :=
  ∀ w : Workspace, w.files = files → ∃ w', exec m w = (.ok a, w') ∧ w'.files = files

section Gives

variable {files : Files} {path text : String}

theorem Gives.bind {m : CommandM α} {f : α → CommandM β} {a : α} {b : β} (first : Gives files m a)
    (second : Gives files (f a) b) : Gives files (m >>= f) b := by
  intro w hw
  obtain ⟨between, hexec, hfiles⟩ := first w hw
  rw [exec_bind, hexec]
  exact second between hfiles

theorem gives_pure (a : α) : Gives files (pure a) a := fun w hw => ⟨w, rfl, hw⟩

theorem gives_reads {wrap : ε → CommandError} {found : Except ε α} {a : α} (h : found = .ok a) :
    Gives files (reads wrap found) a := by
  subst h
  exact gives_pure a

theorem gives_readText {wrap : FileError → CommandError} (h : files.read path = .ok text) :
    Gives files (readText path wrap) text := by
  intro w hw
  rw [exec_readText, hw, h]
  exact ⟨w, rfl, hw⟩

theorem gives_openSession (c : Command) {catalog : Catalog} (hread : files.read path = .ok text)
    (hcatalog : Catalog.ofText text = .ok catalog) :
    ∃ session : Session, session.catalog = catalog ∧ session.settings = {} ∧
      Gives files (openSession { command := c, catalog := some path }) session := by
  refine ⟨{ catalog, settings := {} }, rfl, rfl, ?_⟩
  rw [openSession_eq]
  refine Gives.bind (a := catalog) ?_ ((gives_pure _).bind (gives_pure _))
  exact (gives_readText hread).bind ((gives_reads hcatalog).bind
    (Gives.bind (fun w hw => ⟨_, rfl, hw⟩) (Gives.bind (fun w hw => ⟨_, rfl, hw⟩) (gives_pure _))))

end Gives

end Command

end NodeScript
