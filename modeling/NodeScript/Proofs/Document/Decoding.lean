import NodeScript.Proofs.Document.Persistence

/-!
# Identities of what is read

Whatever the text, the identities in what is read from it have 128 bits. So a store that has been
read can be written and read again.
-/

namespace NodeScript

open List

variable {α β : Type} {identity : Identity} {text : String} {store : Store}

/-! ## Laws of codecs -/

/-- All that the codec reads has the property. -/
def Codec.Yields (codec : Codec α) (P : α → Prop) : Prop :=
  ∀ reading document a, codec.decode reading document = some a → P a

theorem forall_mem_of_mapM {f : α → Option β} {P : β → Prop} (law : ∀ {a b}, f a = some b → P b) {as : List α}
    {bs : List β} (h : as.mapM f = some bs) : ∀ b ∈ bs, P b := by
  induction as generalizing bs with
  | nil =>
    cases h
    simp
  | cons a rest ih =>
    rw [mapM_cons] at h
    obtain ⟨b, hb, h⟩ := Option.bind_eq_some_iff.mp h
    obtain ⟨others, hothers, h⟩ := Option.bind_eq_some_iff.mp h
    cases h
    exact forall_mem_cons.mpr ⟨law hb, ih hothers⟩

namespace Codec.Yields

variable {codec : Codec α} {P : α → Prop} {name : String} {fields : Document.Fields}

theorem option (law : codec.Yields P) : codec.option.Yields fun found => ∀ a ∈ found.toList, P a := by
  intro reading document found h
  have hpresent : ∀ {other content}, (codec.decode other content).map some = some found →
      ∀ a ∈ found.toList, P a := by
    intro other content h
    obtain ⟨a, ha, rfl⟩ := Option.map_eq_some_iff.mp h
    simpa using law _ _ _ ha
  simp only [Codec.option] at h
  split at h
  next =>
    cases h
    simp
  next => exact hpresent h
  next =>
    split at h
    · exact hpresent h
    · cases h

theorem list (law : codec.Yields P) : codec.list.Yields fun as => ∀ a ∈ as, P a := by
  intro reading document as h
  simp only [Codec.list] at h
  split at h
  next => exact forall_mem_of_mapM (law _ _ _) h
  next => cases h

theorem orderedMap [DecidableEq α] (law : codec.Yields P)
    {value : Codec β} {Q : β → Prop} (values : value.Yields Q) :
    (codec.orderedMap value).Yields fun m => ∀ e ∈ m.entries, P e.1 ∧ Q e.2 := by
  intro reading document m h
  simp only [Codec.orderedMap] at h
  split at h
  next entries =>
    obtain ⟨pairs, hpairs, h⟩ := Option.bind_eq_some_iff.mp h
    cases h
    have hlaws : ∀ e ∈ pairs, P e.1 ∧ Q e.2 := by
      refine forall_mem_of_mapM (fun {e pair} he => ?_) hpairs
      obtain ⟨k, hk, he⟩ := Option.bind_eq_some_iff.mp he
      obtain ⟨v, hv, he⟩ := Option.bind_eq_some_iff.mp he
      cases he
      exact ⟨law _ _ _ hk, values _ _ _ hv⟩
    exact fun e he => hlaws e (OrderedMap.mem_of_mem_ofList he)
  next => cases h

theorem required (law : codec.Yields P) {a : α} (h : Document.required codec name fields = some a) : P a := by
  obtain ⟨found, -, h⟩ := Option.bind_eq_some_iff.mp h
  obtain ⟨document, -, h⟩ := Option.bind_eq_some_iff.mp h
  exact law _ _ _ h

theorem optional (law : codec.Yields P) {default : α} (start : P default) {a : α}
    (h : Document.optional codec name default fields = some a) : P a := by
  obtain ⟨found, -, h⟩ := Option.bind_eq_some_iff.mp h
  cases found with
  | none =>
    cases h
    exact start
  | some document => exact law _ _ _ h

end Codec.Yields

/-! ## Identities -/

theorem Identity.fits_ofHex? {digits : List Char} (h : ofHex? digits = some identity) : identity.Fits := by
  have hbound : ∀ (digits : List Char) (n : Nat), (∀ c ∈ digits, Numeral.digitValue c < 16) →
      digits.foldl (fun n c => n * 16 + Numeral.digitValue c) n < (n + 1) * 16 ^ digits.length := by
    intro digits
    induction digits with
    | nil => simp
    | cons c rest ih =>
      intro n hdigits
      obtain ⟨hc, hrest⟩ := forall_mem_cons.mp hdigits
      calc rest.foldl (fun n c => n * 16 + Numeral.digitValue c) (n * 16 + Numeral.digitValue c)
        _ < (n * 16 + Numeral.digitValue c + 1) * 16 ^ rest.length := ih _ hrest
        _ ≤ ((n + 1) * 16) * 16 ^ rest.length := Nat.mul_le_mul_right _ (by omega)
        _ = (n + 1) * 16 ^ (c :: rest).length := by rw [length_cons, Nat.pow_succ', Nat.mul_assoc]
  unfold ofHex? at h
  split at h
  next hdigits =>
    cases h
    have hall : ∀ c ∈ digits, Numeral.digitValue c < 16 := by simpa using hdigits.2
    have hlt := hbound digits 0 hall
    rw [hdigits.1] at hlt
    exact hlt
  next => cases h

theorem Identity.fits_ofText? (h : ofText? text = some identity) : identity.Fits := by
  have hgroups : ∀ {chars}, ofGroups? chars = some identity → identity.Fits := by
    intro chars h
    simp only [ofGroups?] at h
    split at h
    · exact fits_ofHex? h
    · cases h
  unfold ofText? at h
  simp only at h
  split at h
  · exact fits_ofHex? h
  · split at h
    · exact hgroups h
    · split at h
      · exact hgroups h
      · split at h
        · exact hgroups h
        · cases h

theorem Identity.yields_codec (kind : String) : (Identity.codec kind).Yields Identity.Fits := by
  intro reading document identity h
  simp only [Identity.codec] at h
  split at h
  · split at h
    · exact fits_ofText? h
    · cases h
  · split at h
    · split at h
      · exact fits_ofText? h
      · cases h
    · cases h

/-! ## Parts of a store -/

theorem Port.yields_codec : Port.codec.Yields fun port => port.id.Fits := by
  intro reading document port h
  simp only [Port.codec, Option.bind_eq_bind, Option.bind_eq_some_iff] at h
  obtain ⟨fields, -, id, hid, name, -, direction, -, type, -,
    default, -, hide, -, enabled, -, multi, -, condition, -,
    item, -, h⟩ := h
  cases h
  exact (Identity.yields_codec _).required hid

theorem yields_ports : Port.codec.list.Yields fun ports => ∀ port ∈ ports, port.id.Fits := Port.yields_codec.list

theorem Node.yields_codec : Node.codec.Yields fun node =>
    ∀ id ∈ node.id :: node.pairedOutput.toList ++ node.ports.map Port.id, id.Fits := by
  intro reading document node h
  simp only [Node.codec, Option.bind_eq_bind, Option.bind_eq_some_iff] at h
  obtain ⟨fields, -, id, hid, kind, -, name, -, role, -, position, -, width, -, inputs, hinputs, outputs, houtputs,
    properties, -, paired, hpaired, h⟩ := h
  cases h
  have hid : id.Fits := (Identity.yields_codec _).required hid
  have hpaired : ∀ exit ∈ paired.toList, exit.Fits := (Identity.yields_codec _).option.optional (by simp) hpaired
  have hports : ∀ port ∈ inputs ++ outputs, port.id.Fits :=
    forall_mem_append.mpr ⟨yields_ports.required hinputs, yields_ports.required houtputs⟩
  rw [forall_mem_append, forall_mem_cons, forall_mem_map]
  exact ⟨⟨hid, hpaired⟩, hports⟩

theorem Link.yields_codec : Link.codec.Yields fun link =>
    ∀ id ∈ [link.id, link.fromNode, link.fromPort, link.toNode, link.toPort], id.Fits := by
  intro reading document link h
  simp only [Link.codec, Option.bind_eq_bind, Option.bind_eq_some_iff] at h
  obtain ⟨fields, -, id, hid, fromNode, hfromNode, fromPort, hfromPort, toNode, htoNode, toPort, htoPort, h⟩ := h
  cases h
  simp only [forall_mem_cons]
  exact ⟨(Identity.yields_codec _).required hid, (Identity.yields_codec _).required hfromNode,
    (Identity.yields_codec _).required hfromPort, (Identity.yields_codec _).required htoNode,
    (Identity.yields_codec _).required htoPort, by simp⟩

theorem Entry.yields_codec : Entry.codec.Yields fun entry => entry.id.Fits := by
  intro reading document entry h
  simp only [Entry.codec, Option.bind_eq_bind, Option.bind_eq_some_iff] at h
  obtain ⟨fields, -, id, hid, name, -, type, -, default, -,
      lower, -, upper, -, subtype, -, tooltip, -, hide, -, h⟩ := h
  cases h
  exact (Identity.yields_codec _).required hid

theorem Interface.yields_codec : Interface.codec.Yields fun interface =>
    ∀ entry ∈ interface.inputs ++ interface.outputs, entry.id.Fits := by
  intro reading document interface h
  simp only [Interface.codec, Option.bind_eq_bind, Option.bind_eq_some_iff] at h
  obtain ⟨fields, -, inputs, hinputs, outputs, houtputs, h⟩ := h
  cases h
  exact forall_mem_append.mpr
    ⟨Entry.yields_codec.list.required hinputs, Entry.yields_codec.list.required houtputs⟩

theorem Graph.yields_codec : Graph.codec.Yields fun graph => ∀ id ∈ graph.ids, id.Fits := by
  intro reading document graph h
  simp only [Graph.codec, Option.bind_eq_bind, Option.bind_eq_some_iff] at h
  obtain ⟨fields, -, name, -, nodes, hnodes, links, hlinks, interface, hinterface, h⟩ := h
  cases h
  have hnodes := ((Identity.yields_codec _).orderedMap Node.yields_codec).required hnodes
  have hlinks := ((Identity.yields_codec _).orderedMap Link.yields_codec).required hlinks
  have hinterface := Interface.yields_codec.required hinterface
  rw [Graph.ids, forall_mem_append, forall_mem_append, forall_mem_map]
  refine ⟨⟨fun id hid => ?_, fun id hid => ?_⟩, hinterface⟩
  · obtain ⟨e, he, hid⟩ := mem_flatMap.mp hid
    exact forall_mem_cons.mpr (hnodes e he) id hid
  · obtain ⟨e, he, hid⟩ := mem_flatMap.mp hid
    exact forall_mem_cons.mpr (hlinks e he) id hid

theorem Store.yields_codec : Store.codec.Yields fun store => ∀ id ∈ store.ids, id.Fits := by
  intro reading document store h
  simp only [Store.codec, Option.bind_eq_bind, Option.bind_eq_some_iff] at h
  obtain ⟨fields, -, version, -, graphs, hgraphs, h⟩ := h
  cases h
  have htexts : Codec.text.Yields fun _ => True := fun _ _ _ _ => trivial
  have hgraphs := (htexts.orderedMap Graph.yields_codec).required hgraphs
  intro id hid
  obtain ⟨graph, hgraph, hid⟩ := mem_flatMap.mp hid
  obtain ⟨e, he, rfl⟩ := mem_map.mp hgraph
  exact (hgraphs e he).2 id hid

/-- What is read as a store is of a version that is understood and has identities of 128 bits. -/
theorem Store.of_ofText (h : ofText text = .ok store) :
    store.version ≤ formatVersion ∧ ∀ id ∈ store.ids, id.Fits := by
  unfold ofText Codec.ofText at h
  split at h
  next => cases h
  next value hread =>
    split at h
    next => cases h
    next hversion =>
      cases h
      obtain ⟨⟨extensions, document⟩, -, hdecode⟩ := Option.bind_eq_some_iff.mp hread
      exact ⟨UInt32.not_lt.mp hversion, yields_codec _ _ _ hdecode⟩

theorem Store.ofText_toText (version : store.version ≤ formatVersion) (h : ∀ id ∈ store.ids, id.Fits) :
    ofText store.toText = .ok store := (keeps (k := 0) h).ofText_toText (by decide) version

end NodeScript
