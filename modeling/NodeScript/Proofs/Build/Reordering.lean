import NodeScript.Proofs.Build.ArgumentOrder

/-!
# Arguments in any order

Named arguments may be given in any order. A program leaves the same build behind, up to warnings,
after the arguments of its calls and zones have changed their places, if only it builds at all.
-/

namespace NodeScript

open Build List Script.Statement

namespace Script

/-- Named arguments in another order. Those that change their places have different names. -/
def Reordered (args args' : List (String × Value)) : Prop :=
  args' = args ∨ (args.map Prod.fst).Nodup ∧ args.Perm args'

/-- The statement with the arguments of its calls and zones, at any depth, in another order. -/
inductive Statement.Reorders : Statement → Statement → Prop
  | call (target function : String) {args args' : List (String × Value)} (order : Reordered args args') :
      Reorders (.call target function args) (.call target function args')
  | zone (target : String) (kind : ZoneKind) (items : List Parameter) (next : List Value)
      {args args' : List (String × Value)} {body body' : List Statement} (order : Reordered args args')
      (inner : Forall₂ Reorders body body') :
      Reorders (.zone target kind items args body next) (.zone target kind items args' body' next)

/-- The program with arguments in another order. -/
structure Program.Reorders (program program' : Program) : Prop where
  name : program'.name = program.name
  params : program'.params = program.params
  statements : Forall₂ Statement.Reorders program.statements program'.statements
  returns : program'.returns = program.returns

/-! ## Zones -/

variable {session : Session} {environment : Environment} {args args' : List (String × Value)} {b : Build}

theorem Reordered.zoneArguments (order : Reordered args args') {kind : ZoneKind} {iterations count : Operand}
    {initial found : Arguments} (h : environment.zoneArguments kind args iterations initial = .ok (count, found)) :
    ∃ found', environment.zoneArguments kind args' iterations initial = .ok (count, found') ∧ found.Same found' := by
  rcases order with rfl | ⟨names, perm⟩
  · exact ⟨found, h, .refl found⟩
  · exact Environment.zoneArguments_perm perm names h

theorem Reordered.namedArguments (order : Reordered args args') {arguments found : Arguments}
    (h : environment.namedArguments args arguments = .ok found) :
    ∃ found', environment.namedArguments args' arguments = .ok found' ∧ found.Same found' := by
  let once : Operand := .literal (.int 1)
  have hzone : environment.zoneArguments .simulation args once arguments = .ok (once, found) := by
    rw [Environment.zoneArguments_simulation, h]
    rfl
  obtain ⟨found', hzone', same⟩ := order.zoneArguments hzone
  rw [Environment.zoneArguments_simulation] at hzone'
  cases hnamed : environment.namedArguments args' arguments with
  | error e =>
    rw [hnamed] at hzone'
    cases hzone'
  | ok other =>
    rw [hnamed] at hzone'
    cases hzone'
    exact ⟨_, rfl, same⟩

theorem followsAt_enterZone (kind : ZoneKind) (iterations : Operand)
    (items : List Param) {initial initial' : Arguments}
    (same : initial.Same initial') (entry : NodeId) :
    FollowsAt b (enterZone session kind iterations items initial entry)
      (enterZone session kind iterations items initial' entry) := by
  have limits := growing.limits session
  apply FollowsAt.bind
  intro _ b₁ _
  apply (followsAt_startZone session entry items same b₁).andThen
  · intro _ b'
    refine (limits.keeps_bind (limits.keeps_timeInput entry) (fun time => ?_) b' trivial).mute trivial
    exact limits.keeps_bind (limits.keeps_itemOutputs entry) fun states => limits.keeps_stateInputs entry _ time
  · exact fun _ _ _ => .refl _

theorem keeps_zoneBody (statements : List Statement) (next : List Value) (items : List Param) (exit : NodeId) :
    growing.Keeps (do
      let inner ← buildAll session environment statements
      let values ← Build.ofExcept (next.mapM inner.operand)
      Site.finishZone session exit items values) := by
  have limits := growing.limits session
  apply limits.keeps_bind (limits.keeps_buildAll statements _ (limits.covers fun _ _ _ _ => trivial))
  intro inner
  apply limits.keeps_bind (limits.keeps_ofExcept fun _ _ => trivial)
  intro values
  apply limits.keeps_bind (limits.keeps_itemInputs exit)
  intro ends
  split
  · exact limits.keeps_throw trivial
  · exact limits.keeps_zoneExit exit items (fun operand _ => limits.admitsOperand operand) ends

/-! ## Statements -/

theorem Statement.Reorders.target {statement statement' : Statement} (h : statement.Reorders statement') :
    statement'.target = statement.target := by
  cases h <;> rfl

mutual

theorem Statement.followsAt_build (session : Session) (environment : Environment) (statement : Statement)
    {statement' : Statement} (h : statement.Reorders statement') (b : Build) :
    FollowsAt b (statement.build session environment) (statement'.build session environment) := by
  cases statement with
  | call target function args =>
    cases h with
    | call _ _ order =>
      rw [build, build]
      apply FollowsAt.bind_exists
      intro arguments b' hexec
      rw [exec_ofExcept, Prod.mk.injEq] at hexec
      obtain ⟨hfound, rfl⟩ := hexec
      obtain ⟨arguments', hfound', same⟩ := order.namedArguments hfound
      refine ⟨arguments', by rw [exec_ofExcept, hfound'], ?_⟩
      exact followsAt_call session function none same (Environment.plain_of_namedArguments hfound) b
  | zone target kind items args body next =>
    cases h with
    | zone _ _ _ _ order inner =>
      rw [build_zone target kind items args body next b, build_zone target kind items _ _ next b]
      apply FollowsAt.bind_exists
      rintro ⟨iterations, initial⟩ b' hexec
      rw [exec_ofExcept, Prod.mk.injEq] at hexec
      obtain ⟨hfound, rfl⟩ := hexec
      obtain ⟨initial', hfound', same⟩ := order.zoneArguments hfound
      refine ⟨(iterations, initial'), by rw [exec_ofExcept, hfound'], ?_⟩
      apply FollowsAt.bind
      rintro ⟨entry, exit⟩ b₁ _
      simp only [Opening.step, Opening.enter, bind_assoc, pure_bind]
      -- What follows the entry does not look at warnings, so it is enough that each part follows its copy.
      apply (followsAt_enterZone kind iterations (items.map Parameter.item) same entry).andThen
      · exact fun inputs b' => (keeps_zoneBody _ next (items.map Parameter.item) exit b' trivial).mute trivial
      intro inputs b₂ _
      apply (Statement.followsAt_buildAll session (environment.withInputs inputs) body inner b₂).andThen
      · exact fun result b' => (keeps_zoneBody [] next (items.map Parameter.item) exit b' trivial).mute trivial
      · exact fun _ _ _ => .refl _

theorem Statement.followsAt_buildAll (session : Session) (environment : Environment) (statements : List Statement)
    {statements' : List Statement} (h : Forall₂ Statement.Reorders statements statements') (b : Build) :
    FollowsAt b (buildAll session environment statements)
      (buildAll session environment statements') := by
  cases h with
  | nil => exact .refl _
  | @cons statement statement' rest rest' first others =>
    have limits := growing.limits session
    rw [buildAll, buildAll, first.target]
    apply (Statement.followsAt_build session environment statement first b).andThen
    · intro result b'
      exact (limits.keeps_buildAll rest' _ (limits.covers fun _ _ _ _ => trivial) b' trivial).mute trivial
    · exact fun result b' _ => Statement.followsAt_buildAll session _ rest others b'

end

/-! ## Programs -/

theorem mute_arrange (session : Session) (name : String) (b : Build) : b.Mute (arrange session name) := by
  intro warnings
  have hget : (b.withWarnings warnings).store.get? name = b.store.get? name := rfl
  unfold arrange
  rw [exec_bind_ok (exec_get b), exec_bind_ok (exec_get _), hget]
  split
  · exact ⟨warnings, rfl⟩
  · split
    · exact ⟨warnings, rfl⟩
    · exact ⟨_, rfl⟩

theorem followsAt_inScope {α : Type} {name : String} {m m' : BuildM α}
    (h : FollowsAt { b with scopes := name :: b.scopes } m m') : FollowsAt b (inScope name m) (inScope name m') := by
  intro a c hexec
  rw [exec_inScope] at hexec ⊢
  obtain ⟨hresult, rfl⟩ := Prod.mk.inj hexec
  obtain ⟨warnings, hm'⟩ := h a _ (Prod.ext hresult rfl)
  rw [hm']
  exact ⟨warnings, rfl⟩

/-- Graphs are built alike by bodies that follow each other. -/
theorem followsAt_graph (session : Session) (name : String)
    (signature : Signature) {body body' : Inputs → BuildM Returns}
    (bodies : ∀ inputs b, FollowsAt b (body inputs) (body' inputs)) (b : Build) :
    FollowsAt b (Build.build session name signature body) (Build.build session name signature body') := by
  have limits := growing.limits session
  apply FollowsAt.bind
  intro params b₁ _
  apply FollowsAt.bind
  intro _ b₂ _
  apply FollowsAt.andThen
  · apply followsAt_inScope
    apply FollowsAt.bind
    intro source b₃ _
    apply FollowsAt.bind
    intro sink b₄ _
    apply FollowsAt.bind
    intro inputs b₅ _
    apply (bodies inputs b₅).andThen
    · intro returns b'
      refine (limits.keeps_bind (limits.collects returns).keeps (fun outputs => ?_) b' trivial).mute trivial
      exact limits.keeps_bindOutputs sink (fun output _ => limits.admitsOperand output.2) 0
    · exact fun _ _ _ => .refl _
  · intro _ b'
    split
    · exact mute_arrange session name b'
    · exact fun warnings => ⟨warnings, rfl⟩
  · exact fun _ _ _ => .refl _

namespace Program

variable {program program' : Program}

theorem Reorders.followsAt_body (reorders : program.Reorders program')
    (session : Session) (inputs : Inputs) (b : Build) :
    FollowsAt b (program.body session inputs) (program'.body session inputs) := by
  have limits := growing.limits session
  unfold Program.body
  rw [reorders.params, reorders.returns]
  apply FollowsAt.bind
  intro bound b₁ _
  apply (Statement.followsAt_buildAll session bound program.statements reorders.statements b₁).andThen
  · intro found b'
    exact (limits.keeps_bind (limits.keeps_ofExcept fun _ _ => trivial)
      (fun _ => limits.keeps_pure _) b' trivial).mute
      trivial
  · exact fun _ _ _ => .refl _

/-- A program that succeeds also does so with its arguments in another order, and leaves the same
build behind: the graphs are the same with all their nodes, links, ports, defaults, properties and
interfaces and with the identities that were drawn for them, and only the warnings may differ. -/
theorem build_reordered (session : Session) (reorders : program.Reorders program') {b c : Build}
    (h : exec (program.build session) b = (.ok (), c)) :
    ∃ warnings, exec (program'.build session) b = (.ok (), c.withWarnings warnings) := by
  have hfollows : FollowsAt b (program.build session) (program'.build session) := by
    unfold Program.build
    rw [reorders.name, reorders.params]
    apply FollowsAt.bind
    intro signature b₁ _
    exact followsAt_graph session program.name signature (reorders.followsAt_body session) b₁
  exact hfollows () c h

/-- A program that multiplies its parameter by two some times, with the arguments in two orders. -/
def doubling (swap : Bool) : Program where
  name := "Doubling"
  params := [⟨"value", "Float", none⟩]
  statements :=
    let order (args : List (String × Value)) := if swap then args.reverse else args
    [.zone "total" .repetition [⟨"x", "Float", none⟩]
      (order [("iterations", .literal (.int 3)), ("x", .name "value")])
      [.call "next" "math" (order [("operation", .literal (.text "MULTIPLY")),
        ("value", .list [.name "x", .literal (.int 2)])])] [.name "next"]]
  returns := [("Total", .name "total")]

theorem doubling_reorders : (doubling false).Reorders (doubling true) where
  name := rfl
  params := rfl
  statements := by
    refine .cons (.zone _ _ _ _ (Or.inr ⟨by decide, ?_⟩) (.cons (.call _ _ (Or.inr ⟨by decide, ?_⟩)) .nil)) .nil
    · exact (reverse_perm _).symm
    · exact (reverse_perm _).symm
  returns := rfl

theorem build_reordered_doubling :
    let session := Session.standard {}
    let b : Build := { store := .empty, supply := {} }
    (doubling false).Reorders (doubling true) ∧ doubling false ≠ doubling true ∧
      (exec ((doubling false).build session) b).1 = .ok () ∧
      ∃ warnings, exec ((doubling true).build session) b =
        (.ok (), (exec ((doubling false).build session) b).2.withWarnings warnings) := by
  intro session b
  have hpair : ∀ r : Except BuildError Unit × Build, r.1 = .ok () → r = (.ok (), r.2) := fun _ h => Prod.ext h rfl
  have hok : (exec ((doubling false).build session) b).1 = .ok () := by decide +kernel
  exact ⟨doubling_reorders, by simp [doubling], hok, build_reordered session doubling_reorders (hpair _ hok)⟩

end Program

end Script

end NodeScript
