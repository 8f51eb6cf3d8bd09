import NodeScript.Document.Node
import NodeScript.Graph.Basic

/-!
# Graphs as documents
-/

namespace NodeScript

def linkIdCodec : Codec LinkId := Identity.codec "LinkId"

def entryIdCodec : Codec EntryId := Identity.codec "InterfaceId"

/-- Fields of a link. -/
def Link.codec : Codec Link where
  encode link := .record none
    [("id", linkIdCodec.encode link.id), ("from_node", nodeIdCodec.encode link.fromNode),
      ("from_port", portIdCodec.encode link.fromPort), ("to_node", nodeIdCodec.encode link.toNode),
      ("to_port", portIdCodec.encode link.toPort)]
  decode reading document := do
    let fields ← document.fields? reading "Link"
      ["id", "from_node", "from_port", "to_node", "to_port"]
    return {
      id := ← Document.required linkIdCodec "id" fields
      fromNode := ← Document.required nodeIdCodec "from_node" fields
      fromPort := ← Document.required portIdCodec "from_port" fields
      toNode := ← Document.required nodeIdCodec "to_node" fields
      toPort := ← Document.required portIdCodec "to_port" fields }

/-- Fields of an interface entry. -/
def Entry.codec : Codec Entry where
  encode entry := .record none
    [("id", entryIdCodec.encode entry.id), ("name", .text entry.name),
      ("socket_type", SocketType.codec.encode entry.type),
      ("default_value", Literal.codec.option.encode entry.default),
      ("min_value", Codec.single.option.encode entry.lower),
      ("max_value", Codec.single.option.encode entry.upper),
      ("subtype", Codec.text.option.encode entry.subtype), ("description", .text entry.tooltip),
      ("hide_in_modifier", Codec.bool.encode entry.hideInModifier)]
  decode reading document := do
    let fields ← document.fields? reading "InterfaceSocket"
      ["id", "name", "socket_type", "default_value", "min_value", "max_value", "subtype",
        "description", "hide_in_modifier"]
    return {
      id := ← Document.required entryIdCodec "id" fields
      name := ← Document.required .text "name" fields
      type := ← Document.required SocketType.codec "socket_type" fields
      default := ← Document.optional Literal.codec.option "default_value" none fields
      lower := ← Document.optional Codec.single.option "min_value" none fields
      upper := ← Document.optional Codec.single.option "max_value" none fields
      subtype := ← Document.optional Codec.text.option "subtype" none fields
      tooltip := ← Document.optional .text "description" "" fields
      hideInModifier := ← Document.optional .bool "hide_in_modifier" false fields }

/-- Fields of an interface. -/
def Interface.codec : Codec Interface where
  encode interface := .record none
    [("inputs", Entry.codec.list.encode interface.inputs),
      ("outputs", Entry.codec.list.encode interface.outputs)]
  decode reading document := do
    let fields ← document.fields? reading "Interface" ["inputs", "outputs"]
    return {
      inputs := ← Document.required Entry.codec.list "inputs" fields
      outputs := ← Document.required Entry.codec.list "outputs" fields }

/-- Fields of a graph. -/
def Graph.codec : Codec Graph where
  encode graph := .record none
    [("name", .text graph.name),
      ("nodes", (nodeIdCodec.orderedMap Node.codec).encode graph.nodes),
      ("links", (linkIdCodec.orderedMap Link.codec).encode graph.links),
      ("interface", Interface.codec.encode graph.interface)]
  decode reading document := do
    let fields ← document.fields? reading "Graph" ["name", "nodes", "links", "interface"]
    return {
      name := ← Document.required .text "name" fields
      nodes := ← Document.required (nodeIdCodec.orderedMap Node.codec) "nodes" fields
      links := ← Document.required (linkIdCodec.orderedMap Link.codec) "links" fields
      interface := ← Document.required Interface.codec "interface" fields }

end NodeScript
