import Mathlib.Data.List.Forall2
import NodeScript.Build.State
import NodeScript.Catalog.Standard
import NodeScript.Proofs.Graph.Maps

/-!
# The standard catalog

The kinds of the standard catalog are the written ones with identities for their sockets, and its
functions are those of the kinds that are no boundary.
-/

namespace NodeScript

open List OrderedMap

variable {specs : List KindSpec} {kinds : List NodeKind}

/-- A kind is a written one whose sockets have got identities. -/
structure Kind.Minted (spec : KindSpec) (kind : NodeKind) : Prop where
  id : kind.id = spec.id
  name : kind.name = spec.name
  category : kind.category = spec.category
  role : kind.role = spec.role
  properties : kind.properties = spec.properties
  inputs : kind.inputs.map Port.toSocket = spec.inputs
  outputs : kind.outputs.map Port.toSocket = spec.outputs

theorem Socket.mapM_mint_toSocket (sockets : List Socket) (s : Supply) :
    ((sockets.mapM Socket.mint : StateM Supply (List Port)) s).1.map Port.toSocket = sockets := by
  induction sockets generalizing s with
  | nil => rfl
  | cons socket rest ih =>
    rw [mapM_cons]
    change ((socket.mint s).1 :: ((rest.mapM Socket.mint : StateM Supply (List Port))
      (socket.mint s).2).1).map Port.toSocket = _
    rw [map_cons, ih]
    rfl

theorem Kind.mint_minted (spec : KindSpec) (s : Supply) : Kind.Minted spec (spec.mint s).1 where
  id := rfl
  name := rfl
  category := rfl
  role := rfl
  properties := rfl
  inputs := Socket.mapM_mint_toSocket spec.inputs s
  outputs := Socket.mapM_mint_toSocket spec.outputs _

section Related

variable {α β : Type} {r : α → β → Prop} {as : List α} {bs : List β}

theorem forall₂_exists_left (h : Forall₂ r as bs) {b : β} (hb : b ∈ bs) : ∃ a ∈ as, r a b := by
  induction h with
  | nil => cases hb
  | cons hab _ ih =>
    rcases mem_cons.mp hb with rfl | hmem
    · exact ⟨_, mem_cons_self, hab⟩
    · obtain ⟨a, ha, hr⟩ := ih hmem
      exact ⟨a, mem_cons_of_mem _ ha, hr⟩

theorem forall₂_and {s : α → β → Prop} (h : Forall₂ r as bs) (h' : Forall₂ s as bs) :
    Forall₂ (fun a b => r a b ∧ s a b) as bs := by
  induction h with
  | nil => exact .nil
  | cons hab _ ih =>
    cases h' with
    | cons hab' hrest => exact .cons ⟨hab, hab'⟩ (ih hrest)

theorem forall₂_exists_right (h : Forall₂ r as bs) {a : α} (ha : a ∈ as) : ∃ b ∈ bs, r a b :=
  forall₂_exists_left h.flip ha

end Related

namespace Catalog

theorem registerAll_cons (spec : KindSpec) (rest : List KindSpec) (catalog : Catalog) (s : Supply) :
    registerAll (spec :: rest) catalog s =
      registerAll rest (catalog.register (spec.mint s).1) (spec.mint s).2 := rfl

/-- Registering kinds with new identifiers puts them behind the others, in order. -/
theorem registerAll_entries {catalog : Catalog} {s : Supply}
    (fresh : ∀ spec ∈ specs, spec.id ∉ catalog.kinds.keys) (nodup : (specs.map Kind.id).Nodup) :
    ∃ added : List (String × NodeKind),
      (registerAll specs catalog s).1.kinds.entries = catalog.kinds.entries ++ added ∧
      Forall₂ (fun spec entry => entry.1 = spec.id ∧ Kind.Minted spec entry.2) specs added := by
  induction specs generalizing catalog s with
  | nil => exact ⟨[], (append_nil _).symm, .nil⟩
  | cons spec rest ih =>
    rw [map_cons, nodup_cons] at nodup
    have hminted := Kind.mint_minted spec s
    have hentries : (catalog.register (spec.mint s).1).kinds.entries =
        catalog.kinds.entries ++ [((spec.mint s).1.id, (spec.mint s).1)] :=
      entries_insert_of_not_mem (hminted.id ▸ fresh spec (by simp)) _
    have hfresh : ∀ other ∈ rest, other.id ∉ (catalog.register (spec.mint s).1).kinds.keys := by
      intro other hother hmem
      rw [OrderedMap.keys, hentries, map_append, mem_append] at hmem
      rcases hmem with hold | hnew
      · exact fresh other (mem_cons_of_mem spec hother) hold
      · have hsame : other.id = spec.id := (mem_singleton.mp hnew).trans hminted.id
        exact nodup.1 (hsame ▸ mem_map_of_mem hother)
    obtain ⟨added, heq, hall⟩ := @ih _ (spec.mint s).2 hfresh nodup.2
    refine ⟨((spec.mint s).1.id, (spec.mint s).1) :: added, ?_, .cons ⟨hminted.id, hminted⟩ hall⟩
    rw [registerAll_cons, heq, hentries, append_assoc]
    rfl

theorem standardKinds_nodup : (standardKinds.map Kind.id).Nodup := by decide +kernel

/-- The catalog lists the written kinds in order. -/
def IsStandard (catalog : Catalog) : Prop :=
  Forall₂ (fun spec entry => entry.1 = spec.id ∧ Kind.Minted spec entry.2) standardKinds
    catalog.kinds.entries

theorem isStandard_standard (s : Supply) : (standard s).1.IsStandard := by
  obtain ⟨added, heq, hall⟩ := @registerAll_entries standardKinds empty s
    (fun spec _ => not_mem_nil) standardKinds_nodup
  have hempty : empty.kinds.entries = [] := rfl
  rw [IsStandard, standard, heq, hempty, nil_append]
  exact hall

variable {catalog : Catalog}

theorem IsStandard.exists_spec (standard : catalog.IsStandard) {id : String} {kind : NodeKind}
    (h : catalog.get? id = some kind) : ∃ spec ∈ standardKinds, spec.id = id ∧ Kind.Minted spec kind := by
  have hmem : (id, kind) ∈ catalog.kinds.entries := get?_eq_some_iff.mp h
  obtain ⟨spec, hspec, hid, hminted⟩ := forall₂_exists_left standard hmem
  exact ⟨spec, hspec, hid.symm, hminted⟩

theorem IsStandard.exists_kind (standard : catalog.IsStandard) {spec : KindSpec}
    (h : spec ∈ standardKinds) : ∃ kind, catalog.get? spec.id = some kind ∧ Kind.Minted spec kind := by
  obtain ⟨⟨id, kind⟩, hmem, hid, hminted⟩ := forall₂_exists_right standard h
  cases hid
  exact ⟨kind, get?_eq_some_iff.mpr hmem, hminted⟩

end Catalog

/-! ## Functions -/

namespace FunctionTable

/-- Installing kinds with new function names puts their functions behind the others, in order. -/
theorem install_entries {table : OrderedMap String Function}
    (fresh : ∀ kind ∈ kinds, kind.role.isBoundary = false → snakeCase kind.name ∉ table.keys)
    (nodup : ((kinds.filter fun kind => !kind.role.isBoundary).map fun kind => snakeCase kind.name).Nodup) :
    (kinds.foldl install table).entries = table.entries ++
      (kinds.filter fun kind => !kind.role.isBoundary).map fun kind =>
        (snakeCase kind.name, Function.ofKind kind) := by
  induction kinds generalizing table with
  | nil => simp
  | cons kind rest ih =>
    rw [foldl_cons]
    by_cases hboundary : kind.role.isBoundary = true
    · have hinstall : install table kind = table := by simp [install, hboundary]
      rw [hinstall, ih (fun other hother => fresh other (mem_cons_of_mem kind hother))
        (by simpa [hboundary] using nodup)]
      simp [hboundary]
    · rw [Bool.not_eq_true] at hboundary
      have hnew : snakeCase kind.name ∉ table.keys := fresh kind (by simp) hboundary
      have hinstall : (install table kind).entries =
          table.entries ++ [(snakeCase kind.name, Function.ofKind kind)] := by
        have hcontains : table.contains (Function.ofKind kind).name = false := by
          exact decide_eq_false hnew
        unfold install
        simp only [hboundary, hcontains, Bool.or_self, Bool.false_eq_true, if_false]
        exact entries_insert_of_not_mem hnew _
      simp only [filter_cons, hboundary, Bool.not_false, if_true, map_cons,
        nodup_cons] at nodup
      rw [ih ?_ nodup.2, hinstall]
      · simp [hboundary]
      · intro other hother hother' hmem
        rw [OrderedMap.keys, hinstall, map_append, mem_append] at hmem
        rcases hmem with hold | hsame
        · exact fresh other (mem_cons_of_mem kind hother) hother' hold
        · refine nodup.1 ?_
          have hname : snakeCase other.name = snakeCase kind.name := mem_singleton.mp hsame
          rw [← hname]
          exact mem_map.mpr ⟨other, mem_filter.mpr ⟨hother, by simp [hother']⟩, rfl⟩

end FunctionTable

namespace Catalog

/-- Names under which kinds of the standard catalog are called. -/
def functionNames : List String :=
  (standardKinds.filter fun kind => !kind.role.isBoundary).map fun kind => snakeCase kind.name

theorem functionNames_nodup : functionNames.Nodup := by decide +kernel

variable {catalog : Catalog}

theorem filter_minted (h : Forall₂ Kind.Minted specs kinds) :
    ((kinds.filter fun kind => !kind.role.isBoundary).map fun kind => snakeCase kind.name) =
      (specs.filter fun kind => !kind.role.isBoundary).map fun kind => snakeCase kind.name := by
  induction h with
  | nil => rfl
  | cons hminted _ ih =>
    simp only [filter_cons, hminted.role]
    split
    · rw [map_cons, map_cons, hminted.name, ih]
    · exact ih

/-- The functions of the standard catalog are those of its kinds, apart from the boundary. -/
theorem IsStandard.functions (standard : catalog.IsStandard) :
    (FunctionTable.ofCatalog catalog).functions.entries =
      (catalog.kinds.values.filter fun kind => !kind.role.isBoundary).map fun kind =>
        (snakeCase kind.name, Function.ofKind kind) := by
  have hvalues : Forall₂ Kind.Minted standardKinds catalog.kinds.values :=
    forall₂_map_right_iff.mpr (standard.imp fun _ _ h => h.2)
  refine (FunctionTable.install_entries (fun kind _ _ => not_mem_nil) ?_).trans (nil_append _)
  rw [filter_minted hvalues]
  exact functionNames_nodup

end Catalog

/-! ## Sessions -/

/-- The standard socket classes stand for standard types. -/
theorem SocketClasses.mem_standard_of_resolve? {name : String} {type : SocketType}
    (h : SocketClasses.standard.resolve? name = some type) : type ∈ SocketType.standard := by
  have hentries : ∀ entry ∈ SocketClasses.standard.types.entries, entry.2 ∈ SocketType.standard := by
    decide +kernel
  rcases Option.or_eq_some_iff.mp h with hget | ⟨_, hget⟩
  · exact hentries _ (get?_eq_some_iff.mp hget)
  · exact hentries _ (get?_eq_some_iff.mp hget)

/-- The session has the standard catalog, socket classes and settings. -/
structure Session.IsStandard (session : Session) : Prop where
  catalog : session.catalog.IsStandard
  classes : session.classes = .standard
  functions : session.functions = .ofCatalog session.catalog
  settings : session.settings = {}

namespace Session

variable {name : String}

/-- The session of a catalog, with the standard socket classes and settings. -/
def ofCatalog (catalog : Catalog) : Session := { catalog }

/-- The session with the standard catalog, socket classes and settings. -/
def standard (s : Supply) : Session := ofCatalog (Catalog.standard s).1

theorem isStandard_ofCatalog {catalog : Catalog} (h : catalog.IsStandard) :
    (ofCatalog catalog).IsStandard := ⟨h, rfl, rfl, rfl⟩

theorem isStandard_standard (s : Supply) : (standard s).IsStandard :=
  isStandard_ofCatalog (Catalog.isStandard_standard s)

variable {session : Session}

/-- A function makes nodes of the written kind it is named after, which is no boundary. -/
theorem IsStandard.function (standard : session.IsStandard) {function : Function}
    (h : session.functions.get? name = some function) :
    ∃ spec ∈ Catalog.standardKinds, function.kind = spec.id ∧ spec.role.isBoundary = false ∧
      snakeCase spec.name = name := by
  have hmem : (name, function) ∈ session.functions.functions.entries := get?_eq_some_iff.mp h
  rw [standard.functions, standard.catalog.functions] at hmem
  obtain ⟨kind, hkind, heq⟩ := mem_map.mp hmem
  cases heq
  obtain ⟨hvalue, hrole⟩ := mem_filter.mp hkind
  obtain ⟨id, hget⟩ := mem_values_iff.mp hvalue
  obtain ⟨spec, hspec, _, hminted⟩ := standard.catalog.exists_spec hget
  refine ⟨spec, hspec, hminted.id, ?_, ?_⟩
  · rw [← hminted.role]
    simpa using hrole
  · rw [← hminted.name]

/-- Every kind that can be called has a function. -/
theorem IsStandard.not_mem_functionNames (standard : session.IsStandard) (h : session.functions.get? name = none) :
    name ∉ Catalog.functionNames := by
  intro hmem
  have hvalues : Forall₂ Kind.Minted Catalog.standardKinds session.catalog.kinds.values :=
    forall₂_map_right_iff.mpr (standard.catalog.imp fun _ _ h => h.2)
  rw [Catalog.functionNames, ← Catalog.filter_minted hvalues] at hmem
  obtain ⟨kind, hkind, rfl⟩ := mem_map.mp hmem
  have hentry : (snakeCase kind.name, Function.ofKind kind) ∈ session.functions.functions.entries := by
    rw [standard.functions, standard.catalog.functions]
    exact mem_map_of_mem hkind
  rw [FunctionTable.get?, get?_eq_some_iff.mpr hentry] at h
  cases h

end Session

end NodeScript
