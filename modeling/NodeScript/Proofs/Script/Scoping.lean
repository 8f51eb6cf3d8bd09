import NodeScript.Proofs.Script.Parts

/-!
# Scopes

A name in a program is a parameter, the target of an earlier statement of the same body or of one
around it, or a name that a zone around it gives to its body.
-/

namespace NodeScript.Script

open List

mutual

/-- Names that a value refers to. -/
def Value.names : Value → List String
  | .literal _ => []
  | .list items => Value.namesIn items
  | .name found => [found]
  | .select base _ => [base]

def Value.namesIn : List Value → List String
  | [] => []
  | value :: rest => value.names ++ Value.namesIn rest

end

theorem Value.namesIn_subset {known : List String}
    {values : List Value} (h : ∀ value ∈ values, value.names ⊆ known) :
    Value.namesIn values ⊆ known := by
  induction values with
  | nil => exact nil_subset _
  | cons value rest ih =>
    rw [Value.namesIn]
    exact append_subset.mpr ⟨h value mem_cons_self,
      ih fun other hother => h other (mem_cons_of_mem _ hother)⟩

/-- Names that a zone gives to its body: its items, and the time step of a simulation. -/
def zoneNames (kind : ZoneKind) (items : List Parameter) : List String :=
  match kind with
  | .repetition => items.map Parameter.name
  | .simulation => deltaTime :: items.map Parameter.name

mutual

/-- All names in a statement are known. -/
def Statement.Scoped : Statement → List String → Prop
  | .call _ _ args, known => ∀ arg ∈ args, arg.2.names ⊆ known
  | .zone _ kind items args body next, known =>
    (∀ arg ∈ args, arg.2.names ⊆ known) ∧ Statement.ScopedIn body (zoneNames kind items ++ known) ∧
      ∀ value ∈ next, value.names ⊆ body.map Statement.target ++ (zoneNames kind items ++ known)

/-- Every statement of a body knows the targets before it. -/
def Statement.ScopedIn : List Statement → List String → Prop
  | [], _ => True
  | statement :: rest, known => statement.Scoped known ∧ Statement.ScopedIn rest (statement.target :: known)

end

/-- All names in a program are in scope. -/
structure Program.WellScoped (program : Program) : Prop where
  statements : Statement.ScopedIn program.statements program.paramNames
  returns : ∀ result ∈ program.returns,
    result.2.names ⊆ program.statements.map Statement.target ++ program.paramNames

namespace Statement

mutual

def decidableScoped : (statement : Statement) → (known : List String) → Decidable (statement.Scoped known)
  | .call _ _ args, known => inferInstanceAs (Decidable (∀ arg ∈ args, arg.2.names ⊆ known))
  | .zone _ kind items args body next, known =>
    have := decidableScopedIn body (zoneNames kind items ++ known)
    inferInstanceAs (Decidable ((∀ arg ∈ args, arg.2.names ⊆ known) ∧ ScopedIn body (zoneNames kind items ++ known) ∧
      ∀ value ∈ next, value.names ⊆ body.map Statement.target ++ (zoneNames kind items ++ known)))

def decidableScopedIn : (statements : List Statement) → (known : List String) → Decidable (ScopedIn statements known)
  | [], _ => inferInstanceAs (Decidable True)
  | statement :: rest, known =>
    have := decidableScoped statement known
    have := decidableScopedIn rest (statement.target :: known)
    inferInstanceAs (Decidable (statement.Scoped known ∧ ScopedIn rest (statement.target :: known)))

end

variable {known : List String}

instance (statements : List Statement) (known : List String) : Decidable (ScopedIn statements known) :=
  decidableScopedIn statements known

theorem append_right_subset {known' : List String} (names : List String) (h : known ⊆ known') :
    names ++ known ⊆ names ++ known' :=
  append_subset.mpr ⟨subset_append_left _ _, List.Subset.trans h (subset_append_right _ _)⟩

mutual

theorem Scoped.mono : ∀ {statement : Statement} {known known' : List String}, statement.Scoped known →
    known ⊆ known' → statement.Scoped known'
  | .call .., _, _, h, hsub => by
    rw [Scoped] at h ⊢
    exact fun arg harg => List.Subset.trans (h arg harg) hsub
  | .zone _ kind items _ body _, _, _, h, hsub => by
    rw [Scoped] at h ⊢
    obtain ⟨hargs, hbody, hnext⟩ := h
    have hzone := append_right_subset (zoneNames kind items) hsub
    exact ⟨fun arg harg => List.Subset.trans (hargs arg harg) hsub, ScopedIn.mono hbody hzone,
      fun value hvalue => List.Subset.trans (hnext value hvalue)
        (append_right_subset (body.map Statement.target) hzone)⟩

theorem ScopedIn.mono : ∀ {statements : List Statement} {known known' : List String}, ScopedIn statements known →
    known ⊆ known' → ScopedIn statements known'
  | [], _, _, _, _ => by
    rw [ScopedIn]
    trivial
  | statement :: _, _, _, h, hsub => by
    rw [ScopedIn] at h ⊢
    exact ⟨h.1.mono hsub, ScopedIn.mono h.2 (cons_subset_cons statement.target hsub)⟩

end

theorem ScopedIn.append {statements others : List Statement} (first : ScopedIn statements known)
    (second : ScopedIn others (statements.map Statement.target ++ known)) :
    ScopedIn (statements ++ others) known := by
  induction statements generalizing known with
  | nil => exact second
  | cons statement rest ih =>
    rw [ScopedIn] at first
    rw [cons_append, ScopedIn]
    refine ⟨first.1, ih first.2 (second.mono ?_)⟩
    intro name hname
    simp only [map_cons, cons_append, mem_cons, mem_append] at hname ⊢
    tauto

theorem ScopedIn.singleton {statement : Statement} (h : statement.Scoped known) : ScopedIn [statement] known := by
  rw [ScopedIn, ScopedIn]
  exact ⟨h, trivial⟩

end Statement

instance (program : Program) : Decidable program.WellScoped :=
  decidable_of_iff (Statement.ScopedIn program.statements program.paramNames ∧ ∀ result ∈ program.returns,
      result.2.names ⊆ program.statements.map Statement.target ++ program.paramNames)
    ⟨fun h => ⟨h.1, h.2⟩, fun h => ⟨h.statements, h.returns⟩⟩

end NodeScript.Script
