import NodeScript.Document.Persist
import NodeScript.Proofs.Document.Numbers
import NodeScript.Proofs.Graph.Maps

/-!
# Codecs lose nothing

A codec keeps a value if it writes it as a canonical document of few levels and reads that as the
value. The codecs of collections keep what their parts keep.
-/

namespace NodeScript

open Numeral Document List

variable {found : Option String} {known : List String}

namespace Document

variable {k : Nat} {items : List Document} {n : Nat} {entries : List (Document × Document)}
  {fields : List (String × Document)} {name : String}

/-! ## Canonical documents of few levels -/

structure Plain (levels : Nat) (document : Document) : Prop where
  canonical : document.isCanonical = true
  shallow : document.levels ≤ levels

theorem itemsCanonical_iff : itemsCanonical items = true ↔ ∀ item ∈ items, item.isCanonical = true := by
  induction items with
  | nil => simp [itemsCanonical]
  | cons item items ih => simp [itemsCanonical, ih]

theorem itemLevels_le_iff : itemLevels items ≤ n ↔ ∀ item ∈ items, item.levels + 1 ≤ n := by
  induction items with
  | nil => simp [itemLevels]
  | cons item items ih => simp [itemLevels, ih]

theorem entriesCanonical_iff : entriesCanonical entries = true ↔
    ∀ entry ∈ entries, entry.1.isCanonical = true ∧ entry.2.isCanonical = true := by
  induction entries with
  | nil => simp [entriesCanonical]
  | cons entry entries ih => simp [entriesCanonical, ih]

theorem entryLevels_le_iff :
    entryLevels entries ≤ n ↔ ∀ entry ∈ entries, max entry.1.levels entry.2.levels + 1 ≤ n := by
  induction entries with
  | nil => simp [entryLevels]
  | cons entry entries ih => simp [entryLevels, ih]

theorem fieldsCanonical_iff : fieldsCanonical fields = true ↔
    ∀ field ∈ fields, isWord field.1.toList = true ∧ field.2.isCanonical = true := by
  induction fields with
  | nil => simp [fieldsCanonical]
  | cons field fields ih => simp [fieldsCanonical, ih]

theorem fieldLevels_le_iff : fieldLevels fields ≤ n ↔ ∀ field ∈ fields, field.2.levels + 1 ≤ n := by
  induction fields with
  | nil => simp [fieldLevels]
  | cons field fields ih => simp [fieldLevels, ih]

theorem plain_text (text : String) : Plain k (.text text) := ⟨rfl, Nat.zero_le k⟩

theorem plain_word (h : isPlainWord name = true) : Plain k (.word name) := ⟨h, Nat.zero_le k⟩

theorem plain_number {digits : List Char} (h : isPlainNumber digits = true) : Plain k (.number digits) :=
  ⟨h, Nat.zero_le k⟩

theorem Plain.present {document : Document} (h : Plain k document) : Plain (k + 1) (.present .plain document) where
  canonical := by simp [isCanonical, h.canonical]
  shallow := by simpa [levels] using h.shallow

theorem plain_list (h : ∀ item ∈ items, Plain k item) : Plain (k + 2) (.list items) where
  canonical := itemsCanonical_iff.mpr fun item hitem => (h item hitem).canonical
  shallow := Nat.succ_le_succ (itemLevels_le_iff.mpr fun item hitem => Nat.succ_le_succ (h item hitem).shallow)

theorem plain_map (h : ∀ entry ∈ entries, Plain k entry.1 ∧ Plain k entry.2) : Plain (k + 2) (.map entries) where
  canonical := entriesCanonical_iff.mpr fun entry hentry =>
    ⟨(h entry hentry).1.canonical, (h entry hentry).2.canonical⟩
  shallow := Nat.succ_le_succ (entryLevels_le_iff.mpr fun entry hentry =>
    Nat.succ_le_succ (max_le (h entry hentry).1.shallow (h entry hentry).2.shallow))

theorem plain_tuple {name : Option String} (hname : name.all isPlainWord = true) (hne : items ≠ [])
    (h : ∀ item ∈ items, Plain k item) : Plain (k + 2) (.tuple .plain name items) where
  canonical := by
    have hitems := itemsCanonical_iff.mpr fun item hitem => (h item hitem).canonical
    simp [isCanonical, hname, hne, hitems]
  shallow := Nat.succ_le_succ (itemLevels_le_iff.mpr fun item hitem => Nat.succ_le_succ (h item hitem).shallow)

theorem plain_record {name : Option String} (hname : name.all isPlainWord = true) (hne : fields ≠ [])
    (hwords : (fields.map Prod.fst).all (fun name => isWord name.toList) = true)
    (h : List.Forall (fun field => Plain k field.2) fields) : Plain (k + 2) (.record name fields) := by
  rw [forall_iff_forall_mem] at h
  rw [all_map, all_eq_true] at hwords
  have hfields := fieldsCanonical_iff.mpr fun field hfield => ⟨hwords field hfield, (h field hfield).canonical⟩
  refine ⟨by simp [isCanonical, hname, hne, hfields], ?_⟩
  exact Nat.succ_le_succ (fieldLevels_le_iff.mpr fun field hfield => Nat.succ_le_succ (h field hfield).shallow)

@[simp] theorem within_depth (depth n : Nat) : Reading.within { depth } n = { depth := depth + n } := rfl

/-! ## Fields of records -/

/-- A record with no other fields than the known ones is taken apart. -/
theorem fields?_record {entries : List (String × Document)} (depth : Nat)
    (hfound : found.all (· == name) = true) (hknown : ∀ field ∈ entries.map Prod.fst, known.contains field = true) :
    (record found entries).fields? { depth } name known = some ⟨{ depth := depth + 2 }, entries⟩ := by
  have haccepts : Reading.accepts { depth } name found = true := by
    cases found with
    | none => rfl
    | some => simpa [Reading.accepts] using hfound
  have hall : (entries.all fun entry => known.contains entry.1 ||
      (Reading.within { depth } 2).admits entry.2) = true := by
    rw [all_eq_true]
    intro entry hentry
    have hcontains := hknown entry.1 (mem_map_of_mem hentry)
    simp only [hcontains, Bool.true_or]
  simp only [fields?, haccepts, if_true, Fields.of?]
  exact if_pos hall

end Document

namespace Codec

variable {α β : Type} {k : Nat} {codec : Codec α} {levels : Nat} {values : List Single}

structure Keeps (codec : Codec α) (levels : Nat) (a : α) : Prop where
  plain : (codec.encode a).Plain levels
  faithful : codec.Faithful a

theorem Keeps.decode {a : α} (h : codec.Keeps levels a) (depth : Nat) :
    codec.decode { depth } (codec.encode a) = some a := h.faithful depth

theorem keeps_text (text : String) : Codec.text.Keeps k text := ⟨Document.plain_text text, fun _ => rfl⟩

@[simp] theorem decode_text (reading : Document.Reading) (text : String) :
    Codec.text.decode reading (.text text) = some text := rfl

theorem keeps_bool (value : Bool) : Codec.bool.Keeps k value := ⟨⟨rfl, Nat.zero_le k⟩, fun _ => rfl⟩

theorem keeps_uint32 (value : UInt32) : Codec.uint32.Keeps k value := by
  have hbound : value.toNat < 2 ^ 32 := value.toNat_lt
  have hdigits : Nat.toDigits 10 value.toNat = (ofInt value.toNat).text := by
    rw [text_ofInt_nonneg (Int.natCast_nonneg _), Int.natAbs_natCast]
  have hwide : (Numeral.Width.signed 64).holds value.toNat = true := by
    simp [Numeral.Width.holds, Numeral.Width.signed]
    omega
  have hholds : (Numeral.Width.unsigned 32).holds value.toNat = true := by
    simp [Numeral.Width.holds, Numeral.Width.unsigned]
    omega
  refine ⟨Document.plain_number ?_, fun depth => ?_⟩
  · rw [hdigits]
    exact isPlainNumber_ofInt hwide
  · simp [Codec.uint32, hdigits, integer?_ofInt hholds]

theorem keeps_int32 (value : Int32) : Codec.int32.Keeps k value := by
  have hlow := value.le_toInt
  have hhigh := value.toInt_lt
  have hwide : (Numeral.Width.signed 64).holds value.toInt = true := by
    simp [Numeral.Width.holds, Numeral.Width.signed]
    omega
  have hholds : (Numeral.Width.signed 32).holds value.toInt = true := by
    simp [Numeral.Width.holds, Numeral.Width.signed]
    omega
  refine ⟨Document.plain_number ?_, fun depth => ?_⟩
  · rw [toList_toString]
    exact isPlainNumber_ofInt hwide
  · change (integer? (.signed 32) (toString value.toInt).toList).map Int32.ofInt = some value
    rw [toList_toString, integer?_ofInt hholds, Option.map_some, Int32.ofInt_toInt]

theorem keeps_single (value : Single) : Codec.single.Keeps k value :=
  ⟨Document.plain_number (isPlainNumber_document value), fun _ => single?_document value⟩

/-! ## Texts -/

/-- A value that is kept is read from its text. -/
theorem Keeps.ofText?_toText {a : α} (h : codec.Keeps levels a) (hlevels : levels ≤ Document.Reading.depthLimit) :
    codec.ofText? (codec.toText a) = some a := by
  rw [ofText?, toText, parse?_render h.plain.canonical (h.plain.shallow.trans hlevels), Option.bind_some]
  exact h.decode 0

theorem Keeps.ofText_toText {a : α} (h : codec.Keeps levels a) (hlevels : levels ≤ Document.Reading.depthLimit)
    {version : α → UInt32} {newest : UInt32} (hversion : version a ≤ newest) :
    codec.ofText version newest (codec.toText a) = .ok a := by
  rw [ofText, h.ofText?_toText hlevels]
  exact if_neg (UInt32.not_lt.mpr hversion)

/-! ## Collections -/

theorem keeps_option {value : Option α} (h : ∀ a ∈ value, codec.Keeps k a) : codec.option.Keeps (k + 1) value := by
  cases value with
  | none => exact ⟨⟨rfl, Nat.zero_le _⟩, fun _ => rfl⟩
  | some a =>
    obtain ⟨hplain, hfaithful⟩ := h a rfl
    exact ⟨hplain.present, fun depth => congrArg (Option.map some) (hfaithful (depth + 1))⟩

/-- Parts that are read one by one are read together. -/
theorem mapM_map_eq_some {as : List α} {write : α → β}
    {read : β → Option α} (h : ∀ a ∈ as, read (write a) = some a) :
    (as.map write).mapM read = some as := by
  induction as with
  | nil => rfl
  | cons a as ih =>
    rw [forall_mem_cons] at h
    rw [map_cons, mapM_cons, h.1, ih h.2]
    rfl

theorem keeps_list {as : List α} (h : ∀ a ∈ as, codec.Keeps k a) : codec.list.Keeps (k + 2) as where
  plain := Document.plain_list fun item hitem => by
    obtain ⟨a, ha, rfl⟩ := mem_map.mp hitem
    exact (h a ha).plain
  faithful depth := mapM_map_eq_some fun a ha => (h a ha).faithful (depth + 2)

theorem keeps_singles {size : Nat} (hsize : values.length = size) (hne : values ≠ []) :
    (singles size).Keeps (k + 2) values where
  plain := Document.plain_tuple rfl (by simpa using hne) fun item hitem => by
    obtain ⟨value, -, rfl⟩ := mem_map.mp hitem
    exact (keeps_single value).plain
  faithful depth := by
    have hvalues : (values.map single.encode).mapM (single.decode { depth := depth + 2 }) = some values :=
      mapM_map_eq_some fun value _ => (@keeps_single 0 value).faithful (depth + 2)
    simpa only [singles, tuple?, length_map, hsize, if_true, reduceCtorEq, if_false,
      Document.within_depth] using hvalues

theorem keeps_orderedMap [DecidableEq α] {value : Codec β} {m : OrderedMap α β}
    (h : ∀ entry ∈ m.entries, codec.Keeps k entry.1 ∧ value.Keeps k entry.2) :
    (codec.orderedMap value).Keeps (k + 2) m where
  plain := Document.plain_map fun entry hentry => by
    obtain ⟨pair, hpair, rfl⟩ := mem_map.mp hentry
    exact ⟨(h pair hpair).1.plain, (h pair hpair).2.plain⟩
  faithful depth := by
    change Option.bind ((m.entries.map _).mapM _) (fun pairs => some (OrderedMap.ofList pairs)) = some m
    rw [mapM_map_eq_some, Option.bind_some, OrderedMap.ofList_entries]
    intro entry hentry
    obtain ⟨hkey, hvalue⟩ := h entry hentry
    simp [hkey.faithful (depth + 2), hvalue.faithful (depth + 2)]

theorem keeps_words {all : List α} {name : α → String} {a : α} (hword : isPlainWord (name a) = true)
    (hfind : (all.find? fun b => name b = name a) = some a) : (words all name).Keeps k a :=
  ⟨Document.plain_word hword, fun _ => hfind⟩

theorem Keeps.variant {a : α} (h : codec.Keeps k a) (name : String) (hname : isPlainWord name = true) :
    (Codec.variant name codec).Keeps (k + 2) a where
  plain := Document.plain_tuple hname (by simp) fun item hitem => by
    rw [mem_singleton.mp hitem]
    exact h.plain
  faithful depth := by
    simpa [Codec.variant, tuple?] using h.faithful (depth + 2)

/-- A codec that writes some of its values as those of another one behind a name. -/
theorem Keeps.variantAs {a : α} (h : codec.Keeps k a) {whole : Codec β} {make : α → β} (name : String)
    (hencode : whole.encode (make a) = (Codec.variant name codec).encode a)
    (hdecode : ∀ reading, whole.decode reading ((Codec.variant name codec).encode a) =
      ((Codec.variant name codec).decode reading ((Codec.variant name codec).encode a)).map make)
    (hname : isPlainWord name = true) : whole.Keeps (k + 2) (make a) := by
  have hvariant := h.variant name hname
  refine ⟨hencode ▸ hvariant.plain, fun depth => ?_⟩
  rw [hencode, hdecode, hvariant.decode depth]
  rfl

/-- A codec that writes a record and reads its fields. -/
theorem keeps_record {a : α} {name : String}
    {entries : List (String × Document)} {finish : Document.Fields → Option α}
    (hencode : codec.encode a = .record found entries)
    (hdecode : ∀ reading document, codec.decode reading document = (document.fields? reading name known).bind finish)
    (hwords : (found.all isPlainWord && found.all (· == name) && known.all fun field => isWord field.toList) = true)
    (hknown : (!entries.isEmpty && (entries.map Prod.fst).all known.contains) = true)
    (plain : List.Forall (fun field => Document.Plain k field.2) entries)
    (back : ∀ depth, finish ⟨{ depth := depth + 2 }, entries⟩ = some a) : codec.Keeps (k + 2) a := by
  simp only [Bool.and_eq_true, all_eq_true] at hwords hknown
  obtain ⟨⟨hname, hfound⟩, hwords⟩ := hwords
  have hfields := all_eq_true.mpr fun field h => hwords field (contains_iff_mem.mp (hknown.2 field h))
  refine ⟨hencode ▸ Document.plain_record hname (by simpa using hknown.1) hfields plain, fun depth => ?_⟩
  rw [hencode, hdecode, Document.fields?_record depth hfound hknown.2]
  exact back depth

theorem keeps_singlesVariant {size : Nat} (name : String)
    (hname : isPlainWord name = true) (hsize : values.length = size) (hne : values ≠ []) :
    (singlesVariant name size).Keeps (k + 4) values where
  plain := ((keeps_singles hsize hne).variant name hname).plain
  faithful depth := by
    have hvariant := ((@keeps_singles 0 values size hsize hne).variant name hname).faithful depth
    simpa [singlesVariant] using hvariant

theorem triple?_encode (name : String) (hname : isPlainWord name = true)
    (make : Single → Single → Single → α)
    (x y z : Single) (depth : Nat) :
    triple? name make { depth } ((singlesVariant name 3).encode [x, y, z]) = some (make x y z) := by
  have hvalues : (singlesVariant name 3).Keeps 4 [x, y, z] := keeps_singlesVariant name hname rfl (by simp)
  simp [triple?, hvalues.decode depth]

end Codec

end NodeScript
