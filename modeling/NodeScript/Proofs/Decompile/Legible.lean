import NodeScript.Proofs.Build.FiniteValues
import NodeScript.Proofs.Decompile.Scopes

/-!
# Legible nodes

The names in a decompiled program are numbered categories, or they come from ports, properties and
graphs. Where those of the nodes that have a statement are identifiers and the values that these
nodes hold are finite, the program can be printed.
-/

namespace NodeScript

open Script List

variable {id : NodeId}

/-! ## Names -/

namespace Text

variable {c : Char}

theorem isUpper_toLower (c : Char) : c.toLower.isUpper = false := by
  rw [Char.toLower]
  split
  · next h =>
      have hhigh : c.val.toNat ≤ 90 := UInt32.le_iff_toNat_le.mp h.2
      have hlow : 65 ≤ c.val.toNat := UInt32.le_iff_toNat_le.mp h.1
      have hsum : (c.val + ('a'.val - 'A'.val)).toNat = c.val.toNat + 32 := by
        rw [UInt32.toNat_add, show ('a'.val - 'A'.val).toNat = 32 from rfl]
        omega
      refine decide_eq_false fun hupper => ?_
      have hle : (c.val + ('a'.val - 'A'.val)).toNat ≤ 90 := UInt32.le_iff_toNat_le.mp hupper.2
      omega
  · next h => exact decide_eq_false h

theorem isUpper_of_lt (h : 90 < c.toNat) : c.isUpper = false := by
  refine decide_eq_false fun hupper => ?_
  have hle : c.toNat ≤ 90 := UInt32.le_iff_toNat_le.mp hupper.2
  omega

theorem isUpper_ofNat {n : Nat} (h : 90 < n) : (Char.ofNat n).isUpper = false := by
  rw [Char.ofNat]
  split
  · exact isUpper_of_lt h
  · rfl

/-- Characters of the lower-case form are no capitals: the runs of the table lead beyond them. -/
theorem isUpper_of_mem_lowerChar {d : Char} (h : d ∈ lowerChar c) : d.isUpper = false := by
  have hruns : ∀ run ∈ lowerRuns, 90 < (run.1 : Int) + run.2.2.2 := by decide +kernel
  have hexpansions : ∀ entry ∈ lowerExpansions, ∀ code ∈ entry.2, 90 < code := by decide +kernel
  unfold lowerChar at h
  split at h
  · rw [mem_singleton.mp h]
    exact isUpper_toLower c
  · next hcode =>
      split at h
      · next codes hlookup =>
          obtain ⟨code, hmem, rfl⟩ := mem_map.mp h
          obtain ⟨before, behind, hsplit, _⟩ := lookup_eq_some_iff.mp hlookup
          exact isUpper_ofNat (hexpansions _ (hsplit ▸ mem_append_right _ mem_cons_self) code hmem)
      · rw [mem_singleton.mp h]
        cases hmap : mapRuns lowerRuns c with
        | none => exact isUpper_of_lt (Nat.lt_of_lt_of_le (by omega) (Nat.le_of_not_lt hcode))
        | some mapped =>
          obtain ⟨⟨first, last, step, offset⟩, hrun, rfl⟩ := Option.map_eq_some_iff.mp hmap
          have hbeyond : 90 < (first : Int) + offset := hruns _ (mem_of_find?_eq_some hrun)
          have hfirst : first ≤ c.toNat := by
            have hinside := find?_some hrun
            simp only [Bool.and_eq_true, decide_eq_true_eq] at hinside
            exact hinside.1.1
          exact isUpper_ofNat (by omega)

theorem isUpper_of_mem_lowerAfter {before text : List Char}
    (h : c ∈ lowerAfter before text) : c.isUpper = false := by
  induction text generalizing before with
  | nil => cases h
  | cons first rest ih =>
    rw [lowerAfter] at h
    rcases mem_append.mp h with h | h
    · split at h
      · rw [mem_singleton.mp h]
        split <;> rfl
      · exact isUpper_of_mem_lowerChar h
    · exact ih h

end Text

theorem isUpper_of_mem_snakeCase {name : String} {c : Char}
    (h : c ∈ (snakeCase name).toList) : c.isUpper = false := by
  rw [snakeCase, String.toList_ofList] at h
  obtain ⟨d, hd, rfl⟩ := mem_map.mp h
  split
  · rfl
  · exact Text.isUpper_of_mem_lowerAfter hd

namespace Script.Value

variable {name : String}

/-- A name without capitals is no truth value. -/
theorem printable_name (h : isIdentifier name = true) (lower : ∀ c ∈ name.toList, c.isUpper = false) :
    (Value.name name).printable = true := by
  have hne : name ≠ "True" ∧ name ≠ "False" := by
    constructor
    · rintro rfl
      exact absurd (lower 'T' (by decide)) (by decide)
    · rintro rfl
      exact absurd (lower 'F' (by decide)) (by decide)
  simp [Value.printable, h, hne]

theorem printable_snakeCase (h : isIdentifier (snakeCase name) = true) :
    (Value.name (snakeCase name)).printable = true :=
  printable_name h fun _ => isUpper_of_mem_snakeCase

end Script.Value

namespace Category

theorem isIdentifier_numbered (category : Category) (n : Nat) : isIdentifier (category.numbered n) = true := by
  have hdigits : (Nat.toDigits 10 n).all isWordChar = true := by
    refine all_eq_true.mpr fun c hc => ?_
    have hdigit : c.isDigit = true := Nat.isDigit_of_mem_toDigits (by omega) (by omega) hc
    simp [isWordChar, Char.isAlphanum, hdigit]
  unfold isIdentifier
  rw [toList_numbered]
  have hslug : category.slug.toList.head?.all isLetter = true ∧ category.slug.toList.all isWordChar = true := by
    cases category <;> decide
  cases category <;> simp_all [slug]

theorem printable_numbered (category : Category) (n : Nat) :
    (Value.name (category.numbered n)).printable = true := by
  refine Value.printable_name (category.isIdentifier_numbered n) fun c hc => ?_
  rw [toList_numbered] at hc
  rcases mem_append.mp hc with hc | hc
  · have hslug : category.slug.toList.all (fun c => !c.isUpper) = true := by cases category <;> decide
    simpa using all_eq_true.mp hslug c hc
  · have hdigit : c.isDigit = true := Nat.isDigit_of_mem_toDigits (by omega) (by omega) hc
    have hdigits : c.isDigit = (decide (c.val ≥ 48) && decide (c.val ≤ 57)) := rfl
    have hupper : c.isUpper = decide (c.val ≥ 65 ∧ c.val ≤ 90) := rfl
    grind

end Category

theorem SocketType.isIdentifier_typeName : ∀ type ∈ SocketType.standard, isIdentifier type.typeName = true := by
  decide

/-! ## Pieces -/

namespace Piece

variable {spans : List Span} {order : List NodeId} {P : Piece → Prop}

/-- All pieces under way have a property. -/
def Nest.All (P : Piece → Prop) (nest : Nest) : Prop :=
  (∀ piece ∈ nest.top, P piece) ∧ ∀ body ∈ nest.bodies, ∀ piece ∈ body, P piece

theorem all_place (call : ∀ id ∈ order, (∀ span ∈ spans, span.exit ≠ id) → P (.call id))
    (zone : ∀ span ∈ spans, span.exit ∈ order → ∀ body, (∀ piece ∈ body, P piece) → P (.zone span body))
    {nest : Nest} (all : nest.All P) (hid : id ∈ order) : (place spans nest id).All P := by
  have htake : P (take spans nest id).1 ∧ (take spans nest id).2.All P := by
    unfold take
    cases hfind : spans.findIdx? fun span => span.exit = id with
    | none =>
      refine ⟨call id hid fun span hspan heq => ?_, all⟩
      exact absurd (decide_eq_true heq) (Bool.eq_false_iff.mp (findIdx?_eq_none_iff.mp hfind span hspan))
    | some position =>
      obtain ⟨hlt, hexit, _⟩ := findIdx?_eq_some_iff_getElem.mp hfind
      rw [decide_eq_true_eq] at hexit
      dsimp only
      rw [getElem?_eq_getElem hlt]
      refine ⟨zone _ (getElem_mem hlt) (hexit ▸ hid) _ fun piece hpiece => ?_, all.1, fun body hbody => ?_⟩
      · rw [getD_eq_getElem?_getD] at hpiece
        cases hget : nest.bodies[position]? with
        | none =>
          rw [hget] at hpiece
          cases hpiece
        | some body =>
          rw [hget] at hpiece
          exact all.2 body (mem_of_getElem? hget) piece hpiece
      · rcases mem_or_eq_of_mem_set hbody with hold | rfl
        · exact all.2 body hold
        · exact fun _ h => absurd h not_mem_nil
  obtain ⟨hpiece, htop, hbodies⟩ := htake
  unfold place
  dsimp only
  split
  · refine ⟨htop, fun body hbody piece hmem => ?_⟩
    obtain ⟨position, hposition, rfl⟩ := mem_iff_getElem.mp hbody
    rw [getElem_modify] at hmem
    split at hmem
    · rcases mem_append.mp hmem with hold | hnew
      · exact hbodies _ (getElem_mem _) piece hold
      · exact mem_singleton.mp hnew ▸ hpiece
    · exact hbodies _ (getElem_mem _) piece hmem
  · refine ⟨fun piece hmem => ?_, hbodies⟩
    rcases mem_append.mp hmem with hold | hnew
    · exact htop piece hold
    · exact mem_singleton.mp hnew ▸ hpiece

/-- What holds of the nodes of an order that end no zone, and goes on from a body to its zone, holds
of all pieces. -/
theorem nest_induction (call : ∀ id ∈ order, (∀ span ∈ spans, span.exit ≠ id) → P (.call id))
    (zone : ∀ span ∈ spans, span.exit ∈ order → ∀ body, (∀ piece ∈ body, P piece) → P (.zone span body)) :
    ∀ piece ∈ nest spans order, P piece := by
  have hfold : ∀ (ids : List NodeId) (start : Nest), ids ⊆ order → start.All P →
      (ids.foldl (place spans) start).All P := by
    intro ids
    induction ids with
    | nil => exact fun _ _ all => all
    | cons id rest ih =>
      intro start hsub all
      exact ih _ (fun other hother => hsub (.tail _ hother))
        (all_place call zone all (hsub mem_cons_self))
  refine (hfold order _ (Subset.refl _) ⟨fun _ h => absurd h not_mem_nil, fun body hbody piece hpiece => ?_⟩).1
  obtain ⟨_, _, rfl⟩ := mem_map.mp hbody
  cases hpiece

end Piece

/-! ## Statements -/

/-- The name of the port can be written, and so can its default. -/
structure Port.Legible (port : Port) : Prop where
  name : isIdentifier (snakeCase port.name) = true
  default : ∀ value, port.default = some value → finiteLiteral value = true

/-- The function of the node, the names of its arguments and the values that it holds can be
written. -/
structure Node.Legible (node : Node) : Prop where
  function : isIdentifier (References.functionOf node) = true
  properties : ∀ property ∈ node.properties, isIdentifier property.decl.name = true ∧ property.value.isFinite = true
  inputs : ∀ port ∈ node.inputs, port.Legible
  outputs : ∀ port ∈ node.outputs, port.default.isSome = true → port.Legible

namespace References

variable {refs : References} {node : Node} {value : Value} {statement : Statement}

/-- The values at the starts of all links can be written. -/
def Legible (refs : References) : Prop :=
  ∀ link ∈ refs.graph.links.values, ∀ value, refs.linkValue? link = some value → value.printable = true

theorem allPrintable_iff {values : List Value} :
    Value.allPrintable values = true ↔ ∀ value ∈ values, value.printable = true := by
  induction values with
  | nil => simp [Value.allPrintable]
  | cons value rest ih => simp [Value.allPrintable, ih]

theorem Legible.portValue? (legible : refs.Legible) {port : Port}
    (finite : ∀ value, port.default = some value → finiteLiteral value = true) {hidden : Bool}
    (h : refs.portValue? port hidden = some value) : value.printable = true := by
  have hlinks : ∀ value ∈ (refs.graph.linksTo port.id).filterMap refs.linkValue?, value.printable = true := by
    intro value hvalue
    obtain ⟨link, hlink, hsome⟩ := mem_filterMap.mp hvalue
    exact legible link (mem_of_mem_filter hlink) value hsome
  unfold References.portValue? at h
  split at h
  · split at h
    · obtain ⟨default, hdefault, rfl⟩ := Option.map_eq_some_iff.mp h
      rw [Value.printable]
      exact finite default hdefault
    · cases h
  · next heq =>
      cases h
      exact hlinks value (heq ▸ mem_cons_self)
  · cases h
    rw [Value.printable]
    exact allPrintable_iff.mpr hlinks

theorem printable_propertyValue? {property : PropertyValue} (finite : property.isFinite = true)
    (h : propertyValue? property = some value) : value.printable = true := by
  cases property with
  | float | vector =>
    cases h
    exact finite
  | graph => cases h
  | _ =>
    cases h
    rfl

theorem Legible.inputArgument? (legible : refs.Legible) {ports : List Port}
    (finite : ∀ port ∈ ports, ∀ value, port.default = some value → finiteLiteral value = true) {name : String}
    {argument : String × Value} (h : refs.inputArgument? name ports = some argument) :
    argument.1 = name ∧ argument.2.printable = true := by
  unfold References.inputArgument? at h
  split at h
  · obtain ⟨value, hvalue, rfl⟩ := Option.map_eq_some_iff.mp h
    exact ⟨rfl, legible.portValue? (finite _ mem_cons_self) hvalue⟩
  · split at h
    · cases h
    · cases h
      rw [Value.printable]
      refine ⟨rfl, allPrintable_iff.mpr fun value hvalue => ?_⟩
      obtain ⟨port, hport, hsome⟩ := mem_leading hvalue
      exact legible.portValue? (finite port hport) hsome

theorem Legible.arguments (legible : refs.Legible) (hnode : node.Legible) :
    printableArgs (refs.arguments node) = true := by
  refine all_eq_true.mpr fun argument hargument => ?_
  have hboth : isIdentifier argument.1 = true ∧ argument.2.printable = true := by
    unfold References.arguments at hargument
    rcases mem_append.mp hargument with hargument | hargument
    · rcases mem_append.mp hargument with hargument | hargument
      · obtain ⟨property, hproperty, hsome⟩ := mem_filterMap.mp hargument
        obtain ⟨value, hvalue, rfl⟩ := Option.map_eq_some_iff.mp hsome
        obtain ⟨hname, hfinite⟩ := hnode.properties property (mem_of_mem_filter hproperty)
        exact ⟨hname, printable_propertyValue? hfinite hvalue⟩
      · obtain ⟨port, hport, hsome⟩ := mem_filterMap.mp hargument
        obtain ⟨value, hvalue, rfl⟩ := Option.map_eq_some_iff.mp hsome
        have hlegible := hnode.outputs port (mem_of_mem_filter hport) (by rw [hvalue]; rfl)
        refine ⟨hlegible.name, ?_⟩
        rw [Value.printable]
        exact hlegible.default value hvalue
    · obtain ⟨⟨name, group⟩, hgroup, hsome⟩ := mem_filterMap.mp hargument
      obtain ⟨hsub, port, hport, hname⟩ := of_mem_byName hgroup
      obtain ⟨hsame, hprintable⟩ := legible.inputArgument? (fun other hother =>
        (hnode.inputs other (mem_of_mem_filter (hsub hother))).default) hsome
      refine ⟨?_, hprintable⟩
      rw [hsame, ← hname]
      exact (hnode.inputs port (mem_of_mem_filter hport)).name
  simp [hboth]

theorem Legible.callStatement? (legible : refs.Legible) (htarget : isIdentifier (refs.target id) = true)
    (hnode : ∀ node, refs.graph.node? id = some node → node.Legible) (h : refs.callStatement? id = some statement) :
    statement.printable = true := by
  obtain ⟨node, hfound, h⟩ := Option.bind_eq_some_iff.mp h
  cases h
  have hlegible := hnode node hfound
  simp [Statement.printable, htarget, hlegible.function, legible.arguments hlegible]

theorem Legible.zoneStatement? (legible : refs.Legible) {span : Span}
    (htarget : isIdentifier (refs.target span.exit) = true)
    (hentry : ∀ node, refs.graph.node? span.entry = some node → node.Legible ∧
      ∀ port ∈ items node.inputs, port.type ∈ SocketType.standard)
    (hexit : ∀ node, refs.graph.node? span.exit = some node → node.Legible) {body : List Statement}
    (hbody : Statement.allPrintable body = true) (h : refs.zoneStatement? span body = some statement) :
    statement.printable = true := by
  obtain ⟨entry, hfound, h⟩ := Option.bind_eq_some_iff.mp h
  obtain ⟨exit, hfound', h⟩ := Option.bind_eq_some_iff.mp h
  cases h
  obtain ⟨hlegible, htypes⟩ := hentry entry hfound
  have hitems : ((items entry.inputs).map itemParameter).all Parameter.printable = true := by
    refine all_eq_true.mpr fun parameter hparameter => ?_
    obtain ⟨port, hport, rfl⟩ := mem_map.mp hparameter
    have hname := (hlegible.inputs port (mem_of_mem_filter hport)).name
    have htype := SocketType.isIdentifier_typeName _ (htypes port hport)
    simp [Parameter.printable, itemParameter, hname, htype]
  have hargs : printableArgs (entry.enabledInputs.filterMap fun port =>
      (refs.portValue? port !port.zoneItem).map fun value => (snakeCase port.name, value)) = true := by
    refine all_eq_true.mpr fun argument hargument => ?_
    obtain ⟨port, hport, hsome⟩ := mem_filterMap.mp hargument
    obtain ⟨value, hvalue, rfl⟩ := Option.map_eq_some_iff.mp hsome
    have hport := hlegible.inputs port (mem_of_mem_filter hport)
    simp [hport.name, legible.portValue? hport.default hvalue]
  have hnext : Value.allPrintable (leading (fun port => refs.portValue? port false) (items exit.inputs)) = true := by
    refine allPrintable_iff.mpr fun value hvalue => ?_
    obtain ⟨port, hport, hsome⟩ := mem_leading hvalue
    exact legible.portValue? ((hexit exit hfound').inputs port (mem_of_mem_filter hport)).default hsome
  simp [Statement.printable, htarget, hitems, hargs, hbody, hnext]

/-- Statements are printable if those of all pieces are. -/
theorem allPrintable_statements {pieces : List Piece}
    (h : ∀ piece ∈ pieces, ∀ statement, refs.statement? piece = some statement → statement.printable = true) :
    Statement.allPrintable (refs.statements pieces) = true := by
  induction pieces with
  | nil =>
    rw [statements]
    rfl
  | cons piece rest ih =>
    have hrest := ih fun other hother => h other (.tail _ hother)
    rw [statements]
    cases hstatement : refs.statement? piece with
    | none => exact hrest
    | some statement => simp [Statement.allPrintable, h piece mem_cons_self statement hstatement, hrest]

end References

end NodeScript
