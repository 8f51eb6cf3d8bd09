import NodeScript.Command.Files
import NodeScript.Proofs.Graph.Maps

/-!
# Written files

Writing changes the text at one place. What is read there is what was written, and what is read at
any other place is what it was.
-/

namespace NodeScript

variable {parts : List (List Char)}

theorem Path.foldlM_step {files : Files} {place place' : Path.Place}
    (h : parts.foldlM files.step place = .ok place') : place' = parts.foldl Path.follow place := by
  induction parts generalizing place with
  | nil =>
    cases h
    rfl
  | cons part rest ih =>
    rw [List.foldlM_cons] at h
    cases hstep : files.step place part with
    | error e =>
      rw [hstep] at h
      cases h
    | ok next =>
      rw [hstep] at h
      have hnext : next = Path.follow place part := by
        unfold Files.step at hstep
        cases henter : files.enter place with
        | error e =>
          rw [henter] at hstep
          cases hstep
        | ok _ =>
          rw [henter] at hstep
          dsimp only [bind, Except.bind] at hstep
          split at hstep
          · cases hstep
          · exact (Except.ok.inj hstep).symm
      rw [List.foldl_cons, ← hnext]
      exact ih h

namespace Files

variable {files files' : Files} {path other text : String} {place : Path.Place}

/-- A path leads to the place that its spelling stands for. -/
theorem spelling_walk (h : files.walk path (Path.parts path) = .ok place) :
    Path.spelling place = Path.canonical path := by
  unfold walk at h
  split at h
  · cases h
  · split at h
    · cases h
    · rw [Path.foldlM_step h]
      rfl

/-- The files with a text at the place of a path. -/
def put (files : Files) (path text : String) : Files :=
  { files with texts := files.texts.insert (Path.canonical path) text }

/-- What is read at a place. -/
def fetch (files : Files) (path : String) (place : Path.Place) : Except FileError String :=
  if files.isDirectory place then .error .isDirectory
  else
    match files.texts.get? (Path.spelling place) with
    | none => .error .missing
    | some text => if Path.isOpenEnded path then .error .notDirectory else .ok text

theorem read_eq (files : Files) (path : String) :
    files.read path = (files.walk path (Path.parts path)).bind (files.fetch path) := rfl

/-! ## Ways -/

theorem toOption_step_put (place : Path.Place) (part : List Char) :
    ((files.put path text).step place part).toOption = (files.step place part).toOption := by
  unfold step enter
  rw [show (files.put path text).isDirectory place = files.isDirectory place from rfl]
  split <;> rfl

/-- A new file is in nobody's way: the same paths can be followed. -/
theorem toOption_walk_put (parts : List (List Char)) :
    ((files.put path text).walk other parts).toOption = (files.walk other parts).toOption := by
  have hfold : ∀ place, (parts.foldlM (files.put path text).step place).toOption =
      (parts.foldlM files.step place).toOption := by
    induction parts with
    | nil => exact fun _ => rfl
    | cons part rest ih =>
      intro place
      have hstep := @toOption_step_put files path text place part
      rw [List.foldlM_cons, List.foldlM_cons]
      cases hnew : (files.put path text).step place part <;> cases hold : files.step place part <;>
        rw [hnew, hold] at hstep
      case error.error => rfl
      case error.ok => cases hstep
      case ok.error => cases hstep
      case ok.ok =>
        cases hstep
        exact ih _
  unfold walk
  split
  · rfl
  · split
    · rfl
    · exact hfold _

theorem walk_put_eq_ok (h : files.walk other parts = .ok place) :
    (files.put path text).walk other parts = .ok place := by
  have hwalk := @toOption_walk_put files path other text parts
  rw [h] at hwalk
  cases hnew : (files.put path text).walk other parts with
  | error e =>
    rw [hnew] at hwalk
    cases hwalk
  | ok place' =>
    rw [hnew] at hwalk
    cases hwalk
    rfl

/-- An old file with a new text changes nothing about the ways. -/
theorem walk_put (present : (files.texts.get? (Path.canonical path)).isSome = true) (parts : List (List Char)) :
    (files.put path text).walk other parts = files.walk other parts := by
  have hkeys : ∀ key, (files.put path text).texts.contains key = files.texts.contains key := by
    intro key
    unfold OrderedMap.contains
    rw [put, OrderedMap.keys_insert_of_mem (OrderedMap.mem_keys_iff.mpr (Option.isSome_iff_exists.mp present))]
  have hstep : (files.put path text).step = files.step := by
    funext place part
    unfold step enter
    rw [hkeys]
    rfl
  unfold walk
  rw [hstep]

/-! ## Reading -/

theorem fetch_put_of_ne (hne : Path.spelling place ≠ Path.canonical path) :
    (files.put path text).fetch other place = files.fetch other place := by
  unfold fetch
  rw [show (files.put path text).texts.get? (Path.spelling place) = files.texts.get? (Path.spelling place) from
    OrderedMap.get?_insert_of_ne hne]
  rfl

/-- The new text is found at its place. -/
theorem fetch_put_of_eq (heq : Path.spelling place = Path.canonical path) :
    (files.put path text).fetch other place =
      if files.isDirectory place then .error .isDirectory
      else if Path.isOpenEnded other then .error .notDirectory else .ok text := by
  have hget : (files.put path text).texts.get? (Path.spelling place) = some text := by
    rw [heq]
    exact OrderedMap.get?_insert_self
  unfold fetch
  rw [hget]
  rfl

/-- Nothing changes elsewhere. -/
theorem toOption_read_put (hne : Path.canonical other ≠ Path.canonical path) :
    ((files.put path text).read other).toOption = (files.read other).toOption := by
  have hwalk := @toOption_walk_put files path other text (Path.parts other)
  rw [read_eq, read_eq]
  cases hnew : (files.put path text).walk other (Path.parts other) <;>
    cases hold : files.walk other (Path.parts other) <;> rw [hnew, hold] at hwalk
  case error.error => rfl
  case error.ok => cases hwalk
  case ok.error => cases hwalk
  case ok.ok =>
    cases hwalk
    have hplace := spelling_walk hold
    exact congrArg Except.toOption (fetch_put_of_ne (hplace ▸ hne))

/-- All paths to an old file lead to its new text, and all others to what they led to. -/
theorem read_put (present : (files.texts.get? (Path.canonical path)).isSome = true) (other : String) :
    (files.put path text).read other =
      if Path.canonical other = Path.canonical path then (files.read other).map fun _ => text
      else files.read other := by
  rw [read_eq, read_eq, walk_put present]
  cases hwalk : files.walk other (Path.parts other) with
  | error e => exact (ite_self _).symm
  | ok place =>
    have hplace := spelling_walk hwalk
    change (files.put path text).fetch other place =
      if _ then (files.fetch other place).map _ else files.fetch other place
    split
    · next heq =>
        obtain ⟨old, hold⟩ := Option.isSome_iff_exists.mp present
        rw [fetch_put_of_eq (hplace.trans heq)]
        unfold fetch
        rw [hplace, heq, hold]
        split
        · rfl
        · dsimp only
          split <;> rfl
    · next hne => exact fetch_put_of_ne (hplace ▸ hne)

/-! ## Writing -/

/-- A file is written where its path leads to, and no path can be written that only means a
directory. -/
theorem exists_place_of_write (h : files.write path text = .ok files') :
    ∃ place, files.walk path (Path.parts path) = .ok place ∧ files.isDirectory place = false ∧
      Path.isOpenEnded path = false ∧ files' = files.put path text := by
  unfold write at h
  split at h
  · cases hwalk : files.walk path (Path.parts path).dropLast with
    | error e =>
      rw [hwalk] at h
      cases h
    | ok place =>
      rw [hwalk] at h
      dsimp only [bind, Except.bind] at h
      cases henter : files.enter place <;> rw [henter] at h <;> cases h
  · cases hwalk : files.walk path (Path.parts path) with
    | error e =>
      rw [hwalk] at h
      cases h
    | ok place =>
      rw [hwalk] at h
      dsimp only [bind, Except.bind] at h
      split at h
      · cases h
      · next hdirectory =>
          refine ⟨place, rfl, Bool.eq_false_iff.mpr hdirectory, ?_⟩
          cases hopen : Path.isOpenEnded path with
          | true =>
            rw [hopen] at h
            unfold enter at h
            rw [if_pos rfl, if_neg hdirectory] at h
            cases h
          | false =>
            rw [hopen] at h
            cases h
            rw [spelling_walk hwalk]
            exact ⟨rfl, rfl⟩

/-- One file was written. It holds a text now, and all others are what they were. -/
structure Writes (files files' : Files) (path text : String) : Prop where
  put : files' = files.put path text
  here : files'.read path = .ok text
  elsewhere : ∀ other, Path.canonical other ≠ Path.canonical path →
    (files'.read other).toOption = (files.read other).toOption

/-- What is written can be read, and there is nothing else that is new. -/
theorem writes_of_write (h : files.write path text = .ok files') : files.Writes files' path text := by
  obtain ⟨place, hwalk, hdirectory, hopen, rfl⟩ := exists_place_of_write h
  have hread : (files.put path text).read path = .ok text := by
    rw [read_eq, walk_put_eq_ok hwalk]
    change (files.put path text).fetch path place = _
    rw [fetch_put_of_eq (spelling_walk hwalk), hdirectory, hopen]
    rfl
  exact ⟨rfl, hread, fun other hne => toOption_read_put hne⟩

/-- What can be read is the text at the place of the path. -/
theorem get?_of_read (h : files.read path = .ok text) : files.texts.get? (Path.canonical path) = some text := by
  rw [read_eq] at h
  cases hwalk : files.walk path (Path.parts path) with
  | error e =>
    rw [hwalk] at h
    cases h
  | ok place =>
    rw [hwalk] at h
    change files.fetch path place = _ at h
    unfold fetch at h
    rw [spelling_walk hwalk] at h
    split at h
    · cases h
    · cases hget : files.texts.get? (Path.canonical path) with
      | none =>
        rw [hget] at h
        cases h
      | some found =>
        rw [hget] at h
        dsimp only at h
        split at h
        · cases h
        · exact congrArg some (Except.ok.inj h)

end Files

end NodeScript
