import NodeScript.Proofs.Build.Zones
import NodeScript.Proofs.Graph.Regions

/-!
# Zones that a run opens

A run of statements creates zones one after another. The log of a run lists them in that order, each
with the build in which it was created, so that its step can be told from there. Every zone of the
log stands in the graph that the run leaves, also if it fails; if it succeeds, all of them have run
their steps.
-/

namespace NodeScript

open Build Draft List Script

variable {α β : Type}

/-! ## Logs -/

/-- A zone of a script that has been created: the statement, what names and arguments stand for
there, and its two ends with the build that they were created in. -/
structure Opening where
  target : String
  kind : ZoneKind
  items : List Parameter
  args : List (String × Value)
  body : List Statement
  next : List Value
  environment : Environment
  iterations : Operand
  initial : Arguments
  entry : NodeId
  exit : NodeId
  created : Build

namespace Opening

def statement (zone : Opening) : Statement :=
  .zone zone.target zone.kind zone.items zone.args zone.body zone.next

def params (zone : Opening) : List Param := zone.items.map Parameter.item

def enter (session : Session) (zone : Opening) : BuildM Inputs :=
  enterZone session zone.kind zone.iterations zone.params zone.initial zone.entry

/-- Enter the zone and carry out its body; gives the values that the step gets and the next
values. -/
def step (session : Session) (zone : Opening) : BuildM (Inputs × List Operand) := do
  let inputs ← zone.enter session
  let inner ← Statement.buildAll session (zone.environment.withInputs inputs) zone.body
  let next ← Build.ofExcept (zone.next.mapM inner.operand)
  return (inputs, next)

end Opening

/-- What a log says after a step, which is nothing if the step fails. -/
def Build.after (m : BuildM α) (b : Build) (log : α → Build → List β) : List β :=
  match exec m b with
  | (.ok a, c) => log a c
  | (.error _, _) => []

theorem Build.after_ok {m : BuildM α} {b c : Build} {a : α} (h : exec m b = (.ok a, c))
    (log : α → Build → List β) : Build.after m b log = log a c := by
  rw [Build.after, h]

theorem Build.after_error {m : BuildM α} {b c : Build} {e : BuildError} (h : exec m b = (.error e, c))
    (log : α → Build → List β) : Build.after m b log = [] := by
  rw [Build.after, h]

theorem Build.after_bind {γ : Type} (m : BuildM α) (f : α → BuildM β) (b : Build) (log : β → Build → List γ) :
    Build.after (m >>= f) b log = Build.after m b fun a c => Build.after (f a) c log := by
  cases hm : exec m b with
  | mk result c =>
    cases result with
    | error e => rw [Build.after_error hm, Build.after_error (exec_bind_error hm)]
    | ok a => rw [Build.after_ok hm, Build.after, exec_bind_ok hm, Build.after]

namespace Script.Statement

variable {session : Session} {environment : Environment}

mutual

/-- The zones that a statement creates. -/
def openings (session : Session) (environment : Environment) : Statement → Build → List Opening
  | .call .. => fun _ => []
  | .zone target kind items args body values => fun b =>
    Build.after (Build.ofExcept (environment.zoneArguments kind args (.literal (.int 1)) ∅)) b
      fun (iterations, initial) b =>
        Build.after (createZone session kind (items.map Parameter.item)) b fun (entry, exit) created =>
          let zone : Opening :=
            { target, kind, items, args, body, next := values,
              environment, iterations, initial, entry, exit, created }
          zone :: Build.after (zone.enter session) created fun inputs b =>
            openingsIn session (environment.withInputs inputs) body b

/-- The zones that statements create one after another. -/
def openingsIn (session : Session) (environment : Environment) : List Statement → Build → List Opening
  | [] => fun _ => []
  | statement :: rest => fun b =>
    openings session environment statement b ++
      Build.after (statement.build session environment) b fun result b =>
        openingsIn session (environment.insert statement.target result) rest b

end

/-- A zone statement creates its zone, runs its step and binds the next values. -/
theorem build_zone (target : String) (kind : ZoneKind) (items : List Parameter) (args : List (String × Value))
    (body : List Statement) (next : List Value) (created : Build) :
    (Statement.zone target kind items args body next).build session environment = (do
      let (iterations, initial) ← Build.ofExcept (environment.zoneArguments kind args (.literal (.int 1)) ∅)
      let (entry, exit) ← createZone session kind (items.map Parameter.item)
      let zone : Opening :=
        { target, kind, items, args, body, next, environment, iterations, initial, entry, exit, created }
      let result ← zone.step session
      Site.finishZone session exit zone.params result.2) := by
  rw [Statement.build]
  refine congrArg (_ >>= ·) (funext fun (iterations, initial) => ?_)
  cases kind with
  | repetition =>
    simp only [repetition, runZone, Opening.step, Opening.enter, enterZone, bindIterations,
      startZone, Opening.params, bind_assoc, pure_bind]
    rfl
  | simulation =>
    simp only [simulation, runZone, Opening.step, Opening.enter, enterZone, bindIterations,
      startZone, Opening.params, bind_assoc, pure_bind]
    rfl

end Script.Statement

/-! ## What a zone leaves in the graph -/

namespace Opening

variable {zone : Opening} {site : Site} {classes : SocketClasses} {draft draft' : Draft} {rules : Rules}
  {result : Inputs × List Operand}

/-- The two ends are there and are paired, with sockets for the items. -/
def Stands (zone : Opening) (classes : SocketClasses) (draft : Draft) : Prop :=
  ∃ resolved entry exit, resolveItems classes zone.params = .ok resolved ∧
    draft.graph.node? zone.entry = some entry ∧ entry.role.isBoundary = false ∧ entry.pairedOutput = some zone.exit ∧
    draft.graph.node? zone.exit = some exit ∧ exit.role.isBoundary = false ∧
    (draft.info zone.entry).shape = zone.kind.entrySpec.withItems resolved ∧
    (draft.info zone.exit).shape = zone.kind.exitSpec.withItems resolved

theorem Stands.steps (h : zone.Stands classes draft) (sound : draft.Sound rules) (steps : Steps rules draft draft') :
    zone.Stands classes draft' := by
  obtain ⟨resolved, entry, exit, hresolved, hentry, hentryRole,
      hpaired, hexit, hexitRole, hentryInfo, hexitInfo⟩ := h
  obtain ⟨entry', hentry', hrole, hpaired'⟩ := Steps.lasting steps sound hentry
  obtain ⟨exit', hexit', hrole', _⟩ := Steps.lasting steps sound hexit
  have later := Steps.later steps sound
  refine ⟨resolved, entry', exit', hresolved, hentry', hrole ▸ hentryRole, hpaired'.trans hpaired, hexit',
    hrole' ▸ hexitRole, ?_, ?_⟩
  · rw [later.info _ (by rw [hentry]; rfl), hentryInfo]
  · rw [later.info _ (by rw [hexit]; rfl), hexitInfo]

/-- The step has got its values from the entry, and the exit has got the next values. -/
structure Finished (zone : Opening) (site : Site) (result : Inputs × List Operand) (draft : Draft) : Prop where
  short : result.2.length ≤ zone.items.length
  entryDone : zone.entry ∈ draft.done
  exitDone : zone.exit ∈ draft.done
  state : ∃ entry, draft.graph.node? zone.entry = some entry ∧ Site.StateOf site.name zone.params entry result.1
  continues : ∃ exit, draft.graph.node? zone.exit = some exit ∧ draft.graph.Continues exit result.2

theorem Finished.steps (h : zone.Finished site result draft) (sound : draft.Sound rules)
    (steps : Steps rules draft draft') : zone.Finished site result draft' := by
  have later := Steps.later steps sound
  refine ⟨h.short, later.done.subset h.entryDone, later.done.subset h.exitDone, ?_, ?_⟩
  · rw [later.kept _ h.entryDone]
    exact h.state
  · obtain ⟨exit, hexit, continues⟩ := h.continues
    refine ⟨exit, (later.kept _ h.exitDone).trans hexit, fun place port hport => ?_⟩
    have hmem := (mem_filter.mp (mem_of_getElem? hport)).1
    exact gets_later (continues place port hport) sound later (Steps.linksTo steps sound h.exitDone hexit hmem)

/-- The zone has run its step from where it was created. -/
def Ran (zone : Opening) (site : Site) (draft : Draft) : Prop :=
  ∃ result c, exec (zone.step site.session) zone.created = (.ok result, c) ∧ zone.Finished site result draft

theorem Ran.steps (h : zone.Ran site draft) (sound : draft.Sound rules) (steps : Steps rules draft draft') :
    zone.Ran site draft' := by
  obtain ⟨result, c, hexec, finished⟩ := h
  exact ⟨result, c, hexec, finished.steps sound steps⟩

end Opening

/-! ## Runs with a log -/

namespace Site

variable {site : Site} {before draft draft' : Draft} {zones : List Opening}

/-- All zones of a log stand in the draft. They have entries of their own, which were not there
before. -/
structure Logged (site : Site) (before draft : Draft) (zones : List Opening) : Prop where
  stands : ∀ zone ∈ zones, zone.Stands site.session.classes draft
  new : ∀ zone ∈ zones, before.graph.node? zone.entry = none
  nodup : (zones.map Opening.entry).Nodup

theorem Logged.nil (site : Site) (before draft : Draft) : site.Logged before draft [] :=
  ⟨fun _ h => absurd h not_mem_nil, fun _ h => absurd h not_mem_nil, nodup_nil⟩

theorem Logged.steps (logged : site.Logged before draft zones) (sound : draft.Sound site.rules)
    (steps : Steps site.rules draft draft') : site.Logged before draft' zones :=
  { logged with stands := fun zone hzone => (logged.stands zone hzone).steps sound steps }

/-- What is new later is new from an earlier point on. -/
theorem new_of_later (earlier : Later before draft) {id : NodeId} (h : draft.graph.node? id = none) :
    before.graph.node? id = none := by
  cases hnode : before.graph.node? id with
  | none => rfl
  | some node =>
    have hfound := earlier.found id (by rw [hnode]; rfl)
    rw [h] at hfound
    cases hfound

/-- A log of what comes later is behind the first one. -/
theorem Logged.append (sound : draft.Sound site.rules) (logged : site.Logged before draft zones)
    (steps : Steps site.rules draft draft') {zones' : List Opening} (logged' : site.Logged draft draft' zones')
    (earlier : Later before draft) : site.Logged before draft' (zones ++ zones') where
  stands :=
    fun zone hzone => (mem_append.mp hzone).elim ((logged.steps sound steps).stands zone) (logged'.stands zone)
  new := fun zone hzone => (mem_append.mp hzone).elim (logged.new zone) fun h =>
    new_of_later earlier (logged'.new zone h)
  nodup := by
    rw [map_append, nodup_append]
    refine ⟨logged.nodup, logged'.nodup, fun id hid id' hid' heq => ?_⟩
    obtain ⟨zone, hzone, rfl⟩ := mem_map.mp hid
    obtain ⟨zone', hzone', rfl⟩ := mem_map.mp hid'
    obtain ⟨_, entry, _, _, hentry, _⟩ := logged.stands zone hzone
    rw [heq, logged'.new zone' hzone'] at hentry
    cases hentry

/-- A construction that creates the zones of a log. Where it succeeds, they have run their steps. -/
def Logs (site : Site) (before : Draft) (m : BuildM α) (log : Build → List Opening)
    (draft : Draft) (post : α → Draft → Prop) : Prop :=
  ∀ b, site.At draft b → ∃ draft', Steps site.rules draft draft' ∧ site.At draft' (exec m b).2 ∧
    Build.Inside site.name b (exec m b).2 ∧ site.Logged before draft' (log b) ∧
    ∀ a, (exec m b).1 = .ok a → post a draft' ∧ ∀ zone ∈ log b, zone.Ran site draft'

variable {m : BuildM α} {f : α → BuildM β} {log : Build → List Opening} {post : α → Draft → Prop}
  {post' : β → Draft → Prop}

theorem Logs.runs (h : site.Logs before m log draft post) : site.Runs m draft post := by
  intro b hb
  obtain ⟨draft', steps, hat, inside, _, hpost⟩ := h b hb
  exact ⟨draft', steps, hat, inside, fun a ha => (hpost a ha).1⟩

theorem Runs.logs (h : site.Runs m draft post) (before : Draft) : site.Logs before m (fun _ => []) draft post := by
  intro b hb
  obtain ⟨draft', steps, hat, inside, hpost⟩ := h b hb
  exact ⟨draft', steps, hat, inside, .nil site before draft', fun a ha =>
    ⟨hpost a ha, fun _ h => absurd h not_mem_nil⟩⟩

theorem Logs.mono {weaker : α → Draft → Prop} (h : site.Logs before m log draft post)
    (imp : ∀ a draft', post a draft' → weaker a draft') : site.Logs before m log draft weaker := by
  intro b hb
  obtain ⟨draft', steps, hat, inside, logged, hpost⟩ := h b hb
  exact ⟨draft', steps, hat, inside, logged, fun a ha => ⟨imp a draft' (hpost a ha).1, (hpost a ha).2⟩⟩

theorem Logs.earlier {middle : Draft} (h : site.Logs middle m log draft post) (earlier : Later before middle) :
    site.Logs before m log draft post := by
  intro b hb
  obtain ⟨draft', steps, hat, inside, logged, hpost⟩ := h b hb
  exact ⟨draft', steps, hat, inside,
    { logged with new := fun zone hzone => new_of_later earlier (logged.new zone hzone) },
    hpost⟩

section

variable (sound : draft.Sound site.rules)
include sound

/-- A step that creates no zone in front of another. -/
theorem Runs.bindLogs (first : site.Runs m draft post)
    {log : α → Build → List Opening}
    (second : ∀ a draft', draft'.Sound site.rules → Later draft draft' → post a draft' →
      site.Logs before (f a) (log a) draft' post') :
    site.Logs before (m >>= f) (fun b => Build.after m b log) draft post' := by
  intro b hb
  obtain ⟨draft', steps, hat, inside, hpost⟩ := first b hb
  dsimp only
  cases hm : exec m b with
  | mk result c =>
    rw [hm] at hat inside hpost
    cases result with
    | error e =>
      rw [exec_bind_error hm, Build.after_error hm]
      exact ⟨draft', steps, hat, inside, .nil site before draft', fun a ha => by cases ha⟩
    | ok a =>
      rw [exec_bind_ok hm, Build.after_ok hm]
      obtain ⟨draft'', steps', hat', inside', logged, hpost'⟩ :=
        second a draft' (Steps.sound steps sound) (Steps.later steps sound) (hpost a rfl) c hat
      exact ⟨draft'', steps.trans steps', hat', inside.trans inside', logged, hpost'⟩

theorem Logs.bindExcept {r : Except BuildError α} {log : α → Build → List Opening}
    (h : ∀ a, r = .ok a → site.Logs before (f a) (log a) draft post') :
    site.Logs before (Build.ofExcept r >>= f) (fun b => Build.after (Build.ofExcept r) b log) draft post' := by
  have first : site.Runs (Build.ofExcept r) draft fun a draft' => r = .ok a ∧ draft' = draft :=
    Runs.ofExcept fun a ha => ⟨ha, rfl⟩
  refine first.bindLogs sound ?_
  rintro a _ _ _ ⟨ha, rfl⟩
  exact h a ha

theorem Logs.bind (earlier : Later before draft)
    (first : site.Logs before m log draft post) {log' : α → Build → List Opening}
    (second : ∀ a draft', draft'.Sound site.rules → Later draft draft' → post a draft' →
      site.Logs draft' (f a) (log' a) draft' post') :
    site.Logs before (m >>= f) (fun b => log b ++ Build.after m b log') draft post' := by
  intro b hb
  obtain ⟨draft', steps, hat, inside, logged, hpost⟩ := first b hb
  dsimp only
  cases hm : exec m b with
  | mk result c =>
    rw [hm] at hat inside hpost
    cases result with
    | error e =>
      rw [exec_bind_error hm, Build.after_error hm, append_nil]
      exact ⟨draft', steps, hat, inside, logged, fun a ha => by cases ha⟩
    | ok a =>
      rw [exec_bind_ok hm, Build.after_ok hm]
      have sound' := Steps.sound steps sound
      have later := Steps.later steps sound
      obtain ⟨held, ran⟩ := hpost a rfl
      obtain ⟨draft'', steps', hat', inside', logged', hpost'⟩ := second a draft' sound' later held c hat
      refine ⟨draft'', steps.trans steps', hat', inside.trans inside',
        logged.append sound' steps' logged' (earlier.trans later), fun r hr => ⟨(hpost' r hr).1, ?_⟩⟩
      intro zone hzone
      rcases mem_append.mp hzone with h | h
      · exact (ran zone h).steps sound' steps'
      · exact (hpost' r hr).2 zone h

/-- A step that creates no zone behind another. -/
theorem Logs.bindRuns (earlier : Later before draft)
    (first : site.Logs before m log draft post) (second : ∀ a draft', draft'.Sound site.rules → Later draft draft' →
      post a draft' → site.Runs (f a) draft' post') : site.Logs before (m >>= f) log draft post' := by
  have hlog : (fun b => log b ++ Build.after m b fun _ _ => []) = log := by
    funext b
    unfold Build.after
    split <;> exact append_nil _
  exact hlog ▸ first.bind sound earlier fun a draft' sound' later held => (second a draft' sound' later held).logs _

/-- A zone that has been created comes first in the log. Once its step has run and its exit is done,
it has run. -/
theorem Logs.openZone {zone : Opening} {post : CallResult → Draft → Prop}
    (earlier : Later before draft) (new : before.graph.node? zone.entry = none)
    (stands : zone.Stands site.session.classes draft) {middle : Inputs × List Operand → Draft → Prop}
    (step : site.Logs draft (zone.step site.session) log draft middle)
    (finish : ∀ result draft', draft'.Sound site.rules → Later draft draft' → middle result draft' →
      site.Runs (finishZone site.session zone.exit zone.params result.2) draft' fun r draft'' =>
        post r draft'' ∧ zone.Finished site result draft'') :
    site.Logs before (zone.step site.session >>= fun result =>
      finishZone site.session zone.exit zone.params result.2)
      (fun b => { zone with created := b } :: log b) draft post := by
  intro b hb
  dsimp only
  obtain ⟨draft₁, steps₁, hat₁, inside₁, logged₁, hstep⟩ := step b hb
  have sound₁ := Steps.sound steps₁ sound
  have first : site.Logged before draft [{ zone with created := b }] :=
    ⟨fun _ h => mem_singleton.mp h ▸ stands, fun _ h => mem_singleton.mp h ▸ new, nodup_singleton _⟩
  cases hm : exec (zone.step site.session) b with
  | mk result c =>
    rw [hm] at hat₁ inside₁ hstep
    cases result with
    | error e =>
      rw [exec_bind_error hm]
      exact ⟨draft₁, steps₁, hat₁, inside₁, first.append sound steps₁ logged₁ earlier, fun a ha => by cases ha⟩
    | ok result =>
      rw [exec_bind_ok hm]
      obtain ⟨held, ran⟩ := hstep result rfl
      obtain ⟨draft₂, steps₂, hat₂, inside₂, hpost⟩ :=
        finish result draft₁ sound₁ (Steps.later steps₁ sound) held c hat₁
      have logged₂ := logged₁.steps sound₁ steps₂
      refine ⟨draft₂, steps₁.trans steps₂, hat₂, inside₁.trans inside₂,
        first.append sound (steps₁.trans steps₂) logged₂ earlier,
          fun r hr => ⟨(hpost r hr).1, fun other hother => ?_⟩⟩
      rcases mem_cons.mp hother with rfl | hinner
      · exact ⟨result, c, hm, { (hpost r hr).2 with }⟩
      · exact (ran other hinner).steps sound₁ steps₂

end

end Site

end NodeScript
