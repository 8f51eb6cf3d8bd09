import NodeScript.Build.Graph
import NodeScript.Proofs.Graph.Maps

/-!
# Drawing identities

Steps that draw identities only ever move a supply forward, so an identity that is drawn is new to
all that was drawn before.
-/

namespace NodeScript

variable {α β κ : Type}

namespace Supply

/-- The step never moves a supply back. -/
def Climbs (step : StateM Supply α) : Prop := ∀ s, s.next ≤ (step s).2.next

theorem bind_apply (step : StateM Supply α) (next : α → StateM Supply β) (s : Supply) :
    (step >>= next) s = next (step s).1 (step s).2 := rfl

theorem climbs_pure (a : α) : Climbs (pure a : StateM Supply α) := fun _ => Nat.le_refl _

theorem Climbs.bind {step : StateM Supply α} {next : α → StateM Supply β} (first : Climbs step)
    (second : ∀ a, Climbs (next a)) : Climbs (step >>= next) := fun s =>
  Nat.le_trans (first s) (second (step s).1 (step s).2)

theorem le_code_fresh (s : Supply) : s.next ≤ (fresh s).1.code := le_firstFree _ _

theorem code_fresh_lt (s : Supply) : (fresh s).1.code < (fresh s).2.next := Nat.lt_succ_self _

theorem climbs_fresh : Climbs fresh := fun s => Nat.le_trans (le_code_fresh s) (Nat.le_of_lt (code_fresh_lt s))

theorem climbs_runEntries {f : α → StateM Supply β} (h : ∀ a, Climbs (f a)) (entries : List (κ × α)) (s : Supply) :
    s.next ≤ (OrderedMap.runEntries f entries s).2.next := by
  induction entries generalizing s with
  | nil => exact Nat.le_refl _
  | cons e rest ih => exact Nat.le_trans (h e.2 s) (ih (f e.2 s).2)

theorem climbs_mapState {f : α → StateM Supply β} (h : ∀ a, Climbs (f a)) (m : OrderedMap κ α) :
    Climbs (m.mapState f) := climbs_runEntries h m.entries

theorem climbs_mint (socket : Socket) : Climbs socket.mint := climbs_fresh.bind fun _ => climbs_pure _

theorem climbs_declaration (declaration : Declaration) : Climbs declaration.mint :=
  climbs_fresh.bind fun _ => climbs_pure _

theorem climbs_align (direction : Direction) (entries : List Entry) (ports : List Port) :
    Climbs (Boundary.align direction entries ports) := by
  induction entries generalizing ports with
  | nil => exact climbs_pure _
  | cons entry entries ih =>
    cases ports with
    | nil => exact (climbs_mint _).bind fun _ => (ih []).bind fun _ => climbs_pure _
    | cons port ports => exact (ih ports).bind fun _ => climbs_pure _

theorem climbs_alignNode (interface : Interface) (node : Node) :
    Climbs (Boundary.alignNode interface node) := by
  unfold Boundary.alignNode
  split
  · exact (climbs_align _ _ _).bind fun _ => climbs_pure _
  · exact (climbs_align _ _ _).bind fun _ => climbs_pure _
  · exact climbs_pure _

theorem climbs_addItemTo (graph : Graph) (name : String) (type : SocketType) (id : NodeId) :
    Climbs (graph.addItemTo name type id) := by
  unfold Graph.addItemTo
  split
  · exact climbs_pure _
  · exact (climbs_mint _).bind fun _ => (climbs_mint _).bind fun _ => climbs_pure _

theorem climbs_mapM {f : α → StateM Supply β} (h : ∀ a, Climbs (f a)) (as : List α) : Climbs (as.mapM f) := by
  induction as with
  | nil => exact climbs_pure []
  | cons a rest ih =>
    rw [List.mapM_cons]
    exact (h a).bind fun _ => ih.bind fun _ => climbs_pure _

theorem climbs_ofKind (kind : NodeKind) : Climbs (Node.ofKind kind) :=
  climbs_fresh.bind fun _ => (climbs_mapM (fun _ => climbs_mint _) _).bind fun _ =>
    (climbs_mapM (fun _ => climbs_mint _) _).bind fun _ => climbs_pure _

/-! ## What is drawn -/

/-- Different identities with codes from `lo` on and below `hi`. -/
structure Draws (lo hi : Nat) (ids : List Identity) : Prop where
  le : lo ≤ hi
  nodup : ids.Nodup
  range : ∀ id ∈ ids, lo ≤ id.code ∧ id.code < hi

theorem draws_nil (code : Nat) : Draws code code [] := ⟨Nat.le_refl _, .nil, by simp⟩

theorem draws_fresh (s : Supply) : Draws s.next (fresh s).2.next [(fresh s).1] :=
  ⟨climbs_fresh s, by simp, by simpa using ⟨le_code_fresh s, code_fresh_lt s⟩⟩

theorem Draws.append {lo mid hi : Nat} {ids ids' : List Identity} (first : Draws lo mid ids)
    (second : Draws mid hi ids') : Draws lo hi (ids ++ ids') := by
  refine ⟨Nat.le_trans first.le second.le, ?_, ?_⟩
  · refine List.nodup_append.mpr ⟨first.nodup, second.nodup, fun a ha b hb heq => ?_⟩
    have hlt := (first.range a ha).2
    have hle := (second.range b hb).1
    rw [heq] at hlt
    omega
  · intro id hid
    rcases List.mem_append.mp hid with h | h
    · exact ⟨(first.range id h).1, Nat.lt_of_lt_of_le (first.range id h).2 second.le⟩
    · exact ⟨Nat.le_trans first.le (second.range id h).1, (second.range id h).2⟩

theorem draws_mapM_mint (sockets : List Socket) (s : Supply) :
    Draws s.next ((sockets.mapM Socket.mint : StateM Supply (List Port)) s).2.next
      (((sockets.mapM Socket.mint : StateM Supply (List Port)) s).1.map Port.id) := by
  induction sockets generalizing s with
  | nil => exact draws_nil s.next
  | cons socket rest ih =>
    rw [List.mapM_cons]
    exact (draws_fresh s).append (ih (fresh s).2)

end Supply

end NodeScript
