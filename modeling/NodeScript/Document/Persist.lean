import NodeScript.Catalog.Basic
import NodeScript.Document.Graph
import NodeScript.Document.Reader
import NodeScript.Document.Writer
import NodeScript.Settings
import NodeScript.Store

/-!
# Stores, catalogs and settings as texts

All three carry the version of their format, and a version that is too new is refused.
-/

namespace NodeScript

/-- Why a text is not accepted. -/
inductive FormatError where
  | malformed
  /-- The text is of a version that is not understood yet. -/
  | newerVersion (found : UInt32)
deriving DecidableEq, Repr

/-- Message on a version that is too new. -/
def newerVersionMessage (what : String) (found supported : UInt32) : String :=
  what ++ " version " ++ toString found.toNat ++ " is newer than supported version " ++
    toString supported.toNat

namespace Codec

variable {α : Type}

/-- Write a value. -/
def toText (codec : Codec α) (value : α) : String := (codec.encode value).render

/-- Read a value of any version. -/
def ofText? (codec : Codec α) (text : String) : Option α :=
  (Document.parse? text).bind fun (extensions, document) => codec.decode { extensions } document

/-- Read a value whose version is at most the newest that is understood. -/
def ofText (codec : Codec α) (version : α → UInt32) (newest : UInt32) (text : String) :
    Except FormatError α :=
  match codec.ofText? text with
  | none => .error .malformed
  | some value =>
    if newest < version value then .error (.newerVersion (version value)) else .ok value

end Codec

namespace Store

/-- Fields of a store. -/
def codec : Codec Store where
  encode store := .record none
    [("version", Codec.uint32.encode store.version),
      ("graphs", (Codec.text.orderedMap Graph.codec).encode store.graphs)]
  decode reading document := do
    let fields ← document.fields? reading "GraphStore" ["version", "graphs"]
    return {
      version := ← Document.required .uint32 "version" fields
      graphs := ← Document.required (Codec.text.orderedMap Graph.codec) "graphs" fields }

def toText (store : Store) : String := codec.toText store

/-- Read a store of any version. -/
def ofText? (text : String) : Option Store := codec.ofText? text

/-- Read a store, unless it is newer. -/
def ofText (text : String) : Except FormatError Store := codec.ofText version formatVersion text

def versionMessage (found : UInt32) : String := newerVersionMessage "Store" found formatVersion

end Store

namespace Catalog

/-- Fields of a catalog. -/
def codec : Codec Catalog where
  encode catalog := .record none
    [("version", Codec.uint32.encode catalog.version),
      ("kinds", (Codec.text.orderedMap NodeKind.codec).encode catalog.kinds)]
  decode reading document := do
    let fields ← document.fields? reading "NodeKindRegistry" ["version", "kinds"]
    return {
      version := ← Document.required .uint32 "version" fields
      kinds := ← Document.required (Codec.text.orderedMap NodeKind.codec) "kinds" fields }

def toText (catalog : Catalog) : String := codec.toText catalog

/-- Read a catalog, unless it is newer. -/
def ofText (text : String) : Except FormatError Catalog :=
  codec.ofText version formatVersion text

def versionMessage (found : UInt32) : String :=
  newerVersionMessage "Descriptor table" found formatVersion

end Catalog

/-- Fields of the layout options. -/
def LayoutOptions.codec : Codec LayoutOptions where
  encode options := .record (some "LayoutOptions")
    [("header_height", Codec.single.encode options.headerHeight),
      ("link_height", Codec.single.encode options.linkHeight),
      ("property_height", Codec.single.encode options.propertyHeight),
      ("vector_height", Codec.single.encode options.vectorHeight),
      ("ui_scale", Codec.single.encode options.scale),
      ("padding", pairCodec.encode options.padding)]
  decode reading document := do
    let fields ← document.fields? reading "LayoutOptions"
      ["header_height", "link_height", "property_height", "vector_height", "ui_scale", "padding"]
    let base : LayoutOptions := {}
    return {
      headerHeight := ← Document.optional .single "header_height" base.headerHeight fields
      linkHeight := ← Document.optional .single "link_height" base.linkHeight fields
      propertyHeight := ← Document.optional .single "property_height" base.propertyHeight fields
      vectorHeight := ← Document.optional .single "vector_height" base.vectorHeight fields
      scale := ← Document.optional .single "ui_scale" base.scale fields
      padding := ← Document.optional pairCodec "padding" base.padding fields }

namespace Settings

/-- Fields of the settings. -/
def codec : Codec Settings where
  encode settings := .record (some "CompilerSettings")
    [("version", Codec.uint32.encode settings.version),
      ("auto_layout", Codec.bool.encode settings.autoLayout),
      ("layout", LayoutOptions.codec.encode settings.layout),
      ("output_name", .text settings.outputName)]
  decode reading document := do
    let fields ← document.fields? reading "CompilerSettings"
      ["version", "auto_layout", "layout", "output_name"]
    let base : Settings := {}
    return {
      version := ← Document.optional .uint32 "version" base.version fields
      autoLayout := ← Document.optional .bool "auto_layout" base.autoLayout fields
      layout := ← Document.optional LayoutOptions.codec "layout" base.layout fields
      outputName := ← Document.optional .text "output_name" base.outputName fields }

def toText (settings : Settings) : String := codec.toText settings

/-- Read settings, unless they are newer. -/
def ofText (text : String) : Except FormatError Settings :=
  codec.ofText version formatVersion text

def versionMessage (found : UInt32) : String := newerVersionMessage "Settings" found formatVersion

end Settings

end NodeScript
