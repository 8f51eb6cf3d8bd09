import Mathlib
import NodeScript.Proofs.Build.Confinement

/-!
# Faulty declarations

A fault in the parameters of a program is found before anything is touched. The items of a zone are
looked at only when the zone is built: then the graph has already been emptied.
-/

namespace NodeScript

open Build

/-- The types of items are found unless one of the names is unknown. -/
theorem Build.resolveItems_eq_error {classes : SocketClasses} {items : List Param} {e : BuildError}
    (h : resolveItems classes items = .error e) :
    ∃ item ∈ items, e = .configuration item.name (.unknownType item.typeName) ∧
      classes.resolve? item.typeName = none := by
  induction items with
  | nil => cases h
  | cons item rest ih =>
    rw [resolveItems] at h
    split at h
    · rcases Except.bind_eq_error.mp h with hrest | ⟨_, _, h⟩
      · obtain ⟨found, hmem, hfault⟩ := ih hrest
        exact ⟨found, List.mem_cons_of_mem _ hmem, hfault⟩
      · cases h
    · next hresolve =>
        cases h
        exact ⟨item, List.mem_cons_self, rfl, Option.eq_none_iff_forall_ne_some.mpr hresolve⟩

namespace Script.Program

variable {session : Session}

/-- A fault of a zone's item in the program. -/
def ItemFault (session : Session) (program : Program) (param : String) (fault : ParamFault) : Prop :=
  ∃ statement ∈ program.parts, ∃ item ∈ statement.items,
    item.name = param ∧ fault = .unknownType item.typeName ∧ session.classes.resolve? item.typeName = none

/-- Errors that do not blame a declaration, and faults of items. -/
def bodyError (session : Session) (program : Program) (e : BuildError) : Prop :=
  ∀ param fault, e = .configuration param fault → program.ItemFault session param fault

theorem bodyError_of_plain (program : Program) {e : BuildError} (plain : e.isConfiguration = false) :
    program.bodyError session e := by
  rintro param fault rfl
  cases plain

/-- The body of a program ends in no other fault of a declaration than one of a zone's item. -/
theorem keeps_faults (program : Program) (params : List ResolvedParam) :
    (Limits.loose (fun _ => False) (program.bodyError session)).Keeps
      (runBody session params (program.body session)) := by
  have wide := @Limits.open_loose (fun _ => False) (program.bodyError session)
    (fun _ => program.bodyError_of_plain) session
  refine wide.keeps_program (fun statement hpart e he param fault hfault => ?_) params
  obtain ⟨item, hitem, rfl, hresolve⟩ := resolveItems_eq_error he
  obtain ⟨parameter, hparameter, rfl⟩ := List.mem_map.mp hitem
  cases hfault
  exact ⟨statement, hpart, parameter, hparameter, rfl, rfl, hresolve⟩

/-- Where a build stops at a faulty declaration, either that is a parameter and nothing has changed,
or it is an item of a zone whose type has no meaning. -/
theorem unchanged_or_itemFault (session : Session) (program : Program)
    (b : Build) {param : String} {fault : ParamFault}
    (h : (exec (program.build session) b).1 = .error (.configuration param fault)) :
    exec (program.build session) b = (.error (.configuration param fault), b) ∨
      program.ItemFault session param fault := by
  cases hinputs : program.inputs session with
  | error e =>
    have hexec := exec_build_error hinputs b
    rw [hexec] at h
    cases h
    exact Or.inl hexec
  | ok params =>
    have lawful := @Limits.lawful_loose (fun _ => False) (program.bodyError session)
      (fun _ => program.bodyError_of_plain) session
    obtain ⟨_, _, _, _, hfails⟩ := lawful.changed_program (b := b) hinputs
      (program.keeps_faults params) fun _ _ _ _ => trivial
    exact Or.inr (hfails _ h param fault rfl)

/-- A program that returns its parameter, after a zone over one item of a named type. -/
def looping (paramType itemType : String) : Program where
  name := "Looping"
  params := [⟨"value", paramType, none⟩]
  statements := [.zone "zone" .repetition [⟨"x", itemType, none⟩] [] [] [.name "x"]]
  returns := [("Value", .name "value")]

theorem unchanged_looping :
    let b : Build := { store := Store.empty.set "Looping" { name := "Looping" }, supply := {} }
    (exec ((looping "Nothing" "Nothing").build (Session.standard {})) b).1 =
        .error (.configuration "value" (.unknownType "Nothing")) ∧
      (exec ((looping "Nothing" "Nothing").build (Session.standard {})) b =
          (.error (.configuration "value" (.unknownType "Nothing")), b) ∨
        (looping "Nothing" "Nothing").ItemFault (Session.standard {}) "value" (.unknownType "Nothing")) := by
  intro b
  have hinputs : ∀ catalog : Catalog, (looping "Nothing" "Nothing").inputs (.ofCatalog catalog) =
      .error (.configuration "value" (.unknownType "Nothing")) := by
    intro catalog
    cbv
  have hexec := exec_build_error (hinputs (Catalog.standard {}).1) b
  have hfault : (exec ((looping "Nothing" "Nothing").build (Session.standard {})) b).1 =
      .error (.configuration "value" (.unknownType "Nothing")) := congrArg Prod.fst hexec
  exact ⟨hfault, unchanged_or_itemFault (Session.standard {}) (looping "Nothing" "Nothing") b hfault⟩

/-- A zone over an item of an unknown type is found out after the graph has been emptied. -/
theorem emptied_looping :
    let first := (exec ((looping "Float" "Float").build (Session.standard {})) { store := .empty, supply := {} }).2
    let second := exec ((looping "Float" "Nothing").build (Session.standard {})) first
    second.1 = .error (.configuration "x" (.unknownType "Nothing")) ∧
      second.2.store.get? "Looping" ≠ first.store.get? "Looping" := by
  intro first second
  have hrun : second.1 = .error (.configuration "x" (.unknownType "Nothing")) ∧
      (first.store.get? "Looping").map (fun graph => graph.interface.outputs.length) = some 1 ∧
      (second.2.store.get? "Looping").map (fun graph => graph.interface.outputs.length) = some 0 := by
    decide +kernel
  obtain ⟨hfault, hbefore, hafter⟩ := hrun
  refine ⟨hfault, fun hsame => ?_⟩
  rw [hsame, hbefore] at hafter
  cases hafter

end Script.Program

end NodeScript
