/-!
# Maps that keep their order

Keys are distinct and stay in the order of their first insertion. A new value for a present key
takes the old one's place.
-/

namespace NodeScript

/-- A map that keeps the order of its keys. -/
structure OrderedMap (κ α : Type) where
  entries : List (κ × α)
  nodup : (entries.map Prod.fst).Nodup

namespace OrderedMap

variable {κ α β σ : Type}

def empty : OrderedMap κ α := ⟨[], by simp⟩

instance : EmptyCollection (OrderedMap κ α) := ⟨empty⟩

instance : Inhabited (OrderedMap κ α) := ⟨empty⟩

@[ext]
theorem ext {m m' : OrderedMap κ α} (h : m.entries = m'.entries) : m = m' := by
  cases m; cases m'; cases h; rfl

def keys (m : OrderedMap κ α) : List κ := m.entries.map Prod.fst

def values (m : OrderedMap κ α) : List α := m.entries.map Prod.snd

def size (m : OrderedMap κ α) : Nat := m.entries.length

section Lookup

variable [DecidableEq κ]

/-- The value at a key. -/
def get? (m : OrderedMap κ α) (k : κ) : Option α :=
  (m.entries.find? fun e => e.1 = k).map Prod.snd

/-- Whether a key has a value. -/
def contains (m : OrderedMap κ α) (k : κ) : Bool := decide (k ∈ m.keys)

end Lookup

/-- Change the entries' values without touching their keys. -/
def mapEntries (m : OrderedMap κ α) (f : κ × α → β) : OrderedMap κ β where
  entries := m.entries.map fun e => (e.1, f e)
  nodup := by
    rw [List.map_map]
    exact m.nodup

/-- Change all values. -/
def map (m : OrderedMap κ α) (f : α → β) : OrderedMap κ β := m.mapEntries fun e => f e.2

/-- Keep the entries whose values pass, in order. -/
def filter (m : OrderedMap κ α) (p : α → Bool) : OrderedMap κ α where
  entries := m.entries.filter fun e => p e.2
  nodup := m.nodup.sublist (List.filter_sublist.map _)

section Update

variable [DecidableEq κ]

/-- Change the value of a key, if there is one. -/
def modify (m : OrderedMap κ α) (k : κ) (f : α → α) : OrderedMap κ α :=
  m.mapEntries fun e => if e.1 = k then f e.2 else e.2

/-- Remove a key; the others keep their order. -/
def erase (m : OrderedMap κ α) (k : κ) : OrderedMap κ α where
  entries := m.entries.filter fun e => e.1 ≠ k
  nodup := m.nodup.sublist (List.filter_sublist.map _)

/-- Give a key a value: in its place if it is present, at the end otherwise. -/
def insert (m : OrderedMap κ α) (k : κ) (a : α) : OrderedMap κ α :=
  if h : k ∈ m.keys then m.modify k fun _ => a
  else
    { entries := m.entries ++ [(k, a)]
      nodup := by
        rw [List.map_append, List.nodup_append]
        refine ⟨m.nodup, by simp, ?_⟩
        intro x hx y hy hxy
        simp only [List.map_cons, List.map_nil, List.mem_singleton] at hy
        exact h (hy ▸ hxy ▸ hx) }

/-- Insert pairs one after another. -/
def ofList (pairs : List (κ × α)) : OrderedMap κ α :=
  pairs.foldl (fun m e => m.insert e.1 e.2) empty

end Update

/-- Run a step on every value in order, threading a state. -/
def runEntries (f : α → σ → β × σ) : List (κ × α) → σ → List (κ × β) × σ
  | [], s => ([], s)
  | (k, a) :: rest, s =>
    let (b, s) := f a s
    let (rest, s) := runEntries f rest s
    ((k, b) :: rest, s)

theorem runEntries_keys (f : α → σ → β × σ) (entries : List (κ × α)) (s : σ) :
    (runEntries f entries s).1.map Prod.fst = entries.map Prod.fst := by
  induction entries generalizing s with
  | nil => rfl
  | cons e rest ih => simp [runEntries, ih]

/-- Change every value in order by a step that uses a state. -/
def mapState (m : OrderedMap κ α) (f : α → StateM σ β) : StateM σ (OrderedMap κ β) := fun s =>
  let result := runEntries f m.entries s
  (⟨result.1, by rw [runEntries_keys]; exact m.nodup⟩, result.2)

end OrderedMap

end NodeScript
