import NodeScript.Proofs.Document.Codecs

/-!
# Stores, catalogs and settings lose nothing

The codecs of all parts of a graph keep them, provided that identities have 128 bits.
-/

namespace NodeScript

open Codec List Document

variable {k : Nat} {store : Store}

/-! ## Identities, words and literals -/

theorem Identity.Fits.keeps {identity : Identity} (h : identity.Fits) (kind : String) :
    (Identity.codec kind).Keeps (k + 2) identity where
  plain := plain_tuple rfl (by simp) fun item hitem => by
    rw [mem_singleton.mp hitem]
    exact plain_text _
  faithful depth := by
    simp [Identity.codec, tuple?, Document.Reading.accepts, Identity.ofText?_text h]

theorem Direction.keeps (direction : Direction) : Direction.codec.Keeps k direction := by
  cases direction <;> exact keeps_words (by decide) rfl

theorem Role.keeps (role : Role) : Role.codec.Keeps k role := by
  cases role <;> exact keeps_words (by decide) rfl

theorem Category.keeps (category : Category) : Category.codec.Keeps k category := by
  cases category <;> exact keeps_words (by decide) rfl

theorem SocketType.keeps (type : SocketType) : SocketType.codec.Keeps (k + 2) type := by
  cases type with
  | custom className => exact (keeps_text className).variantAs "Custom" rfl (fun _ => rfl) rfl
  | _ => exact ⟨plain_word (by decide), fun _ => rfl⟩

theorem Literal.keeps (literal : Literal) : Literal.codec.Keeps (k + 4) literal := by
  cases literal with
  | bool v => exact (keeps_bool v).variantAs "Bool" rfl (fun _ => rfl) rfl
  | int v => exact (keeps_int32 v).variantAs "Int" rfl (fun _ => rfl) rfl
  | float v => exact (keeps_single v).variantAs "Float" rfl (fun _ => rfl) rfl
  | vector x y z =>
    have hv : (singlesVariant "Vector" 3).Keeps (k + 4) [x, y, z] :=
      keeps_singlesVariant "Vector" (by decide) rfl (by simp)
    exact ⟨hv.plain, triple?_encode "Vector" (by decide) Literal.vector x y z⟩
  | color r g b a =>
    have hv : (singlesVariant "Color" 4).Keeps (k + 4) [r, g, b, a] :=
      keeps_singlesVariant "Color" (by decide) rfl (by simp)
    refine ⟨hv.plain, fun depth => ?_⟩
    change Option.bind ((singlesVariant "Color" 4).decode { depth }
      ((singlesVariant "Color" 4).encode [r, g, b, a])) _ = _
    rw [hv.decode depth]
    rfl
  | text v => exact (keeps_text v).variantAs "String" rfl (fun _ => rfl) rfl

/-! ## Ports and properties -/

theorem PortCondition.keeps (condition : PortCondition) : PortCondition.codec.Keeps (k + 4) condition := by
  have hcases : ∀ cases : List String, text.list.Keeps (k + 2) cases := fun cases =>
    keeps_list fun text _ => keeps_text text
  cases condition with
  | oneOf property cases | noneOf property cases =>
    refine ⟨plain_record (by decide) (by simp [caseFields]) (by simp only [caseFields, List.map]; decide)
      ⟨plain_text property, (hcases cases).plain⟩, fun depth => ?_⟩
    simp [codec, caseFields, Document.Fields.of?, required, field?, (hcases cases).decode]

theorem Port.keeps {port : Port} (h : port.id.Fits) : Port.codec.Keeps (k + 7) port := by
  have hid : portIdCodec.Keeps (k + 5) port.id := h.keeps _
  have hdirection := Direction.keeps (k := k + 5) port.direction
  have htype := SocketType.keeps (k := k + 3) port.type
  have hdefault : Literal.codec.option.Keeps (k + 5) port.default := keeps_option fun literal _ => literal.keeps
  have hwhen : PortCondition.codec.option.Keeps (k + 5) port.enabledWhen :=
    keeps_option fun condition _ => condition.keeps
  have hbool := keeps_bool (k := k + 5)
  refine keeps_record rfl (fun _ _ => rfl) (by decide) rfl
    ⟨hid.plain, plain_text _, hdirection.plain,
      htype.plain, hdefault.plain, (hbool _).plain, (hbool _).plain,
      (hbool _).plain, hwhen.plain, (hbool _).plain⟩ fun depth => ?_
  simp [required, Document.optional, field?, hid.decode, hdirection.decode, htype.decode,
    hdefault.decode, hwhen.decode, (hbool _).decode]

theorem PropertyKind.keeps (kind : PropertyKind) : PropertyKind.codec.Keeps (k + 4) kind := by
  cases kind with
  | enumeration cases =>
    have hcases : text.list.Keeps (k + 2) cases := keeps_list fun text _ => keeps_text text
    exact hcases.variantAs "Enum" rfl (fun _ => rfl) rfl
  | _ => exact ⟨plain_word (by decide), fun _ => rfl⟩

theorem PropertyValue.keeps (value : PropertyValue) : PropertyValue.codec.Keeps (k + 4) value := by
  cases value with
  | bool v => exact (keeps_bool v).variantAs "Bool" rfl (fun _ => rfl) rfl
  | int v => exact (keeps_int32 v).variantAs "Int" rfl (fun _ => rfl) rfl
  | float v => exact (keeps_single v).variantAs "Float" rfl (fun _ => rfl) rfl
  | string v => exact (keeps_text v).variantAs "String" rfl (fun _ => rfl) rfl
  | vector x y z =>
    have hv : (singlesVariant "Vector" 3).Keeps (k + 4) [x, y, z] :=
      keeps_singlesVariant "Vector" (by decide) rfl (by simp)
    exact ⟨hv.plain, triple?_encode "Vector" (by decide) PropertyValue.vector x y z⟩
  | enumeration chosen => exact (keeps_text chosen).variantAs "Enum" rfl (fun _ => rfl) rfl
  | graph name => exact (keeps_text name).variantAs "GraphRef" rfl (fun _ => rfl) rfl

theorem PropertyDecl.keeps (decl : PropertyDecl) : PropertyDecl.codec.Keeps (k + 6) decl := by
  have hkind := PropertyKind.keeps (k := k) decl.kind
  have hdefault := PropertyValue.keeps (k := k) decl.default
  refine keeps_record rfl (fun _ _ => rfl) (by decide) rfl
    ⟨plain_text _, hkind.plain, hdefault.plain⟩ fun depth => ?_
  simp [required, field?, hkind.decode, hdefault.decode]

theorem Property.keeps (property : Property) : Property.codec.Keeps (k + 8) property := by
  have hdecl := PropertyDecl.keeps (k := k) property.decl
  have hvalue := PropertyValue.keeps (k := k + 2) property.value
  refine keeps_record rfl (fun _ _ => rfl) (by decide) rfl ⟨hdecl.plain, hvalue.plain⟩ fun depth => ?_
  simp [required, field?, hdecl.decode, hvalue.decode]

/-! ## Kinds and nodes -/

theorem keeps_ports {ports : List Port} (h : ∀ port ∈ ports, port.id.Fits) :
    Port.codec.list.Keeps (k + 9) ports := keeps_list fun port hport => Port.keeps (h port hport)

theorem NodeKind.keeps {kind : NodeKind} (h : ∀ port ∈ kind.inputs ++ kind.outputs, port.id.Fits) :
    NodeKind.codec.Keeps (k + 11) kind := by
  rw [forall_mem_append] at h
  have hcategory := Category.keeps (k := k + 9) kind.category
  have hpath : text.option.Keeps (k + 9) kind.menuPath := keeps_option fun path _ => keeps_text path
  have hrole := Role.keeps (k := k + 9) kind.role
  have hinputs := keeps_ports (k := k) h.1
  have houtputs := keeps_ports (k := k) h.2
  have hproperties : PropertyDecl.codec.list.Keeps (k + 9) kind.properties :=
    keeps_list fun decl _ => decl.keeps
  refine keeps_record rfl (fun _ _ => rfl) (by decide) rfl
    ⟨plain_text _, plain_text _, hcategory.plain, hpath.plain, hrole.plain, plain_text _,
      hinputs.plain, houtputs.plain, hproperties.plain⟩ fun depth => ?_
  simp [required, Document.optional, field?, hcategory.decode, hpath.decode, hrole.decode,
    hinputs.decode, houtputs.decode, hproperties.decode]

theorem keeps_pair (pair : Single × Single) : pairCodec.Keeps (k + 2) pair := by
  have hvalues : (singles 2).Keeps (k + 2) [pair.1, pair.2] := keeps_singles rfl (by simp)
  refine ⟨hvalues.plain, fun depth => ?_⟩
  simp [pairCodec, hvalues.decode depth]

theorem Node.keeps {node : Node}
    (h : ∀ id ∈ node.id :: node.pairedOutput.toList ++ node.ports.map Port.id, id.Fits) :
    Node.codec.Keeps (k + 12) node := by
  rw [forall_mem_append, forall_mem_cons, forall_mem_map, Node.ports, forall_mem_append] at h
  obtain ⟨⟨hid, hpaired⟩, hinputs, houtputs⟩ := h
  have hid : nodeIdCodec.Keeps (k + 10) node.id := hid.keeps _
  have hrole := Role.keeps (k := k + 10) node.role
  have hposition := keeps_pair (k := k + 8) node.position
  have hwidth := keeps_single (k := k + 10) node.width
  have hinputs := keeps_ports (k := k + 1) hinputs
  have houtputs := keeps_ports (k := k + 1) houtputs
  have hproperties : Property.codec.list.Keeps (k + 10) node.properties :=
    keeps_list fun property _ => property.keeps
  have hpaired : nodeIdCodec.option.Keeps (k + 10) node.pairedOutput :=
    keeps_option fun id hid => (hpaired id (by simpa using hid)).keeps _
  refine keeps_record rfl (fun _ _ => rfl) (by decide) rfl
    ⟨hid.plain, plain_text _, plain_text _,
      hrole.plain, hposition.plain, hwidth.plain, hinputs.plain,
      houtputs.plain, hproperties.plain, hpaired.plain⟩ fun depth => ?_
  simp [required, Document.optional, field?, hid.decode, hrole.decode, hposition.decode,
    hwidth.decode, hinputs.decode, houtputs.decode, hproperties.decode, hpaired.decode]

/-! ## Graphs -/

theorem Link.keeps {link : Link}
    (h : ∀ id ∈ [link.id, link.fromNode, link.fromPort, link.toNode, link.toPort], id.Fits) :
    Link.codec.Keeps (k + 4) link := by
  simp only [forall_mem_cons] at h
  obtain ⟨hid, hfromNode, hfromPort, htoNode, htoPort, -⟩ := h
  have hid : linkIdCodec.Keeps (k + 2) link.id := hid.keeps _
  have hfromNode : nodeIdCodec.Keeps (k + 2) link.fromNode := hfromNode.keeps _
  have hfromPort : portIdCodec.Keeps (k + 2) link.fromPort := hfromPort.keeps _
  have htoNode : nodeIdCodec.Keeps (k + 2) link.toNode := htoNode.keeps _
  have htoPort : portIdCodec.Keeps (k + 2) link.toPort := htoPort.keeps _
  refine keeps_record rfl (fun _ _ => rfl) (by decide) rfl
    ⟨hid.plain, hfromNode.plain, hfromPort.plain, htoNode.plain, htoPort.plain⟩ fun depth => ?_
  simp [required, field?, hid.decode, hfromNode.decode, hfromPort.decode, htoNode.decode,
    htoPort.decode]

theorem Entry.keeps {entry : Entry} (h : entry.id.Fits) : Entry.codec.Keeps (k + 7) entry := by
  have hid : entryIdCodec.Keeps (k + 5) entry.id := h.keeps _
  have htype := SocketType.keeps (k := k + 3) entry.type
  have hdefault : Literal.codec.option.Keeps (k + 5) entry.default := keeps_option fun literal _ => literal.keeps
  have hbound : ∀ bound : Option Single, single.option.Keeps (k + 5) bound := fun _ =>
    keeps_option fun value _ => keeps_single value
  have hsubtype : text.option.Keeps (k + 5) entry.subtype := keeps_option fun text _ => keeps_text text
  have hhide := keeps_bool (k := k + 5) entry.hideInModifier
  refine keeps_record rfl (fun _ _ => rfl) (by decide) rfl
    ⟨hid.plain, plain_text _, htype.plain, hdefault.plain,
      (hbound _).plain, (hbound _).plain, hsubtype.plain,
      plain_text _, hhide.plain⟩ fun depth => ?_
  simp [required, Document.optional, field?, hid.decode, htype.decode, hdefault.decode,
    (hbound _).decode, hsubtype.decode, hhide.decode]

theorem Interface.keeps {interface : Interface}
    (h : ∀ entry ∈ interface.inputs ++ interface.outputs, entry.id.Fits) :
    Interface.codec.Keeps (k + 11) interface := by
  rw [forall_mem_append] at h
  have hinputs : Entry.codec.list.Keeps (k + 9) interface.inputs :=
    keeps_list fun entry hentry => Entry.keeps (h.1 entry hentry)
  have houtputs : Entry.codec.list.Keeps (k + 9) interface.outputs :=
    keeps_list fun entry hentry => Entry.keeps (h.2 entry hentry)
  refine keeps_record rfl (fun _ _ => rfl) (by decide) rfl ⟨hinputs.plain, houtputs.plain⟩ fun depth => ?_
  simp [required, field?, hinputs.decode, houtputs.decode]

theorem Graph.keeps {graph : Graph} (h : ∀ id ∈ graph.ids, id.Fits) : Graph.codec.Keeps (k + 16) graph := by
  rw [Graph.ids, forall_mem_append, forall_mem_append, forall_mem_map] at h
  obtain ⟨⟨hnodes, hlinks⟩, hinterface⟩ := h
  have hnodes : (nodeIdCodec.orderedMap Node.codec).Keeps (k + 14) graph.nodes := by
    refine keeps_orderedMap fun entry hentry => ?_
    have hids : ∀ id ∈ entry.1 :: entry.2.id :: entry.2.pairedOutput.toList ++ entry.2.ports.map Port.id, id.Fits :=
      fun id hid => hnodes id (mem_flatMap.mpr ⟨entry, hentry, hid⟩)
    rw [cons_append, forall_mem_cons] at hids
    exact ⟨hids.1.keeps _, Node.keeps hids.2⟩
  have hlinks : (linkIdCodec.orderedMap Link.codec).Keeps (k + 14) graph.links := by
    refine keeps_orderedMap fun entry hentry => ?_
    have hids : ∀ id ∈ [entry.1, entry.2.id, entry.2.fromNode,
        entry.2.fromPort, entry.2.toNode, entry.2.toPort], id.Fits :=
      fun id hid => hlinks id (mem_flatMap.mpr ⟨entry, hentry, hid⟩)
    rw [forall_mem_cons] at hids
    exact ⟨hids.1.keeps _, Link.keeps hids.2⟩
  have hinterface := Interface.keeps (k := k + 3) hinterface
  refine keeps_record rfl (fun _ _ => rfl) (by decide) rfl
    ⟨plain_text _, hnodes.plain, hlinks.plain, hinterface.plain⟩ fun depth => ?_
  simp [required, field?, hnodes.decode, hlinks.decode, hinterface.decode]

/-! ## Stores, catalogs and settings -/

theorem Store.keeps (h : ∀ id ∈ store.ids, id.Fits) : Store.codec.Keeps (k + 20) store := by
  have hversion := keeps_uint32 (k := k + 18) store.version
  have hgraphs : (text.orderedMap Graph.codec).Keeps (k + 18) store.graphs := by
    refine keeps_orderedMap fun entry hentry => ⟨keeps_text _, Graph.keeps fun id hid => ?_⟩
    exact h id (mem_flatMap.mpr ⟨entry.2, mem_map.mpr ⟨entry, hentry, rfl⟩, hid⟩)
  refine keeps_record rfl (fun _ _ => rfl) (by decide) rfl ⟨hversion.plain, hgraphs.plain⟩ fun depth => ?_
  simp [required, field?, hversion.decode, hgraphs.decode]

theorem Catalog.keeps {catalog : Catalog} (h : ∀ id ∈ catalog.ids, id.Fits) :
    Catalog.codec.Keeps (k + 15) catalog := by
  have hversion := keeps_uint32 (k := k + 13) catalog.version
  have hkinds : (Codec.text.orderedMap NodeKind.codec).Keeps (k + 13) catalog.kinds := by
    refine keeps_orderedMap fun entry hentry => ⟨keeps_text _, NodeKind.keeps fun port hport => ?_⟩
    exact h port.id (mem_flatMap.mpr ⟨entry.2, mem_map.mpr ⟨entry, hentry, rfl⟩,
      mem_map.mpr ⟨port, hport, rfl⟩⟩)
  refine keeps_record rfl (fun _ _ => rfl) (by decide) rfl ⟨hversion.plain, hkinds.plain⟩ fun depth => ?_
  simp [required, field?, hversion.decode, hkinds.decode]

theorem LayoutOptions.keeps (options : LayoutOptions) : LayoutOptions.codec.Keeps (k + 4) options := by
  have hsingle := keeps_single (k := k + 2)
  have hpadding := keeps_pair (k := k) options.padding
  refine keeps_record rfl (fun _ _ => rfl) (by decide) rfl
    ⟨(hsingle _).plain, (hsingle _).plain, (hsingle _).plain,
      (hsingle _).plain, (hsingle _).plain, hpadding.plain⟩ fun depth => ?_
  simp [Document.optional, field?, (hsingle _).decode, hpadding.decode]

theorem Settings.keeps (settings : Settings) : Settings.codec.Keeps (k + 6) settings := by
  have hversion := keeps_uint32 (k := k + 4) settings.version
  have hauto := keeps_bool (k := k + 4) settings.autoLayout
  have hlayout := LayoutOptions.keeps (k := k) settings.layout
  refine keeps_record rfl (fun _ _ => rfl) (by decide) rfl
    ⟨hversion.plain, hauto.plain, hlayout.plain, plain_text _⟩ fun depth => ?_
  simp [Document.optional, field?, hversion.decode, hauto.decode, hlayout.decode]

/-! ## Texts -/

theorem Store.ofText?_toText (h : ∀ id ∈ store.ids, id.Fits) : ofText? store.toText = some store :=
  (keeps (k := 0) h).ofText?_toText (by decide)

/-- Writing and reading a store, a catalog or settings gives back every part of them, in order. A
store may be of any version, the others of one that is understood. -/
theorem persistence_lossless :
    (∀ store : Store, (∀ id ∈ store.ids, id.Fits) → Store.ofText? store.toText = some store) ∧
    (∀ catalog : Catalog, (∀ id ∈ catalog.ids, id.Fits) → catalog.version ≤ Catalog.formatVersion →
      Catalog.ofText catalog.toText = .ok catalog) ∧
    ∀ settings : Settings, settings.version ≤ Settings.formatVersion →
      Settings.ofText settings.toText = .ok settings := by
  refine ⟨fun store h => Store.ofText?_toText h, fun catalog h hversion => ?_, fun settings hversion => ?_⟩
  · exact (Catalog.keeps (k := 0) h).ofText_toText (by decide) hversion
  · exact (Settings.keeps (k := 0) settings).ofText_toText (by decide) hversion

/-- A port with a condition, whose default and names need escapes, signs and words. -/
def awkwardPort : Port where
  id := ⟨2 ^ 128 - 1⟩
  name := "tab\t \"quote\" \\ \u0301 é"
  direction := .input
  type := .custom "NodeSocketShader"
  default := some (.color (.nan true) (.infinite true) (.ofCode true 0) (.ofCode false 1))
  enabledWhen := some (.noneOf "Mode" ["A", ""])
  zoneItem := true

/-- A store of an unknown version with a linked node that is kept under another key. -/
def awkwardStore : Store where
  version := 7
  graphs := (∅ : OrderedMap String Graph).insert "first" {
    name := "second"
    nodes := (∅ : OrderedMap NodeId Node).insert ⟨5⟩ {
      id := ⟨6⟩
      kind := "GeometryNodeRepeatInput"
      name := ""
      role := .repeatInput
      position := (.ofCode true 1, .infinite false)
      inputs := [awkwardPort]
      outputs := []
      properties := [⟨⟨"Mode", .enumeration ["A"], .enumeration "A"⟩, .vector 0 0 (.nan false)⟩]
      pairedOutput := some ⟨9⟩ }
    links := (∅ : OrderedMap LinkId Link).insert ⟨0⟩ ⟨⟨1⟩, ⟨6⟩, ⟨2⟩, ⟨3⟩, ⟨4⟩⟩ }

theorem persistence_lossless_awkward :
    (∀ id ∈ awkwardStore.ids, id.Fits) ∧ Store.ofText? awkwardStore.toText = some awkwardStore ∧
      Catalog.ofText
          (Catalog.empty.register { id := "K", name := "K", category := .math, inputs := [awkwardPort] }).toText =
        .ok (Catalog.empty.register { id := "K", name := "K", category := .math, inputs := [awkwardPort] }) ∧
      Settings.ofText ({ outputName := "\n" } : Settings).toText = .ok { outputName := "\n" } := by
  have hids : ∀ id ∈ awkwardStore.ids, id.Fits := by decide
  refine ⟨hids, persistence_lossless.1 _ hids, persistence_lossless.2.1 _ (by decide) (by decide), ?_⟩
  exact persistence_lossless.2.2 _ (by decide)

end NodeScript
