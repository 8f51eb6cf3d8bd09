import Mathlib.Order.Bounds.Basic
import NodeScript.Graph.Layout
import NodeScript.Proofs.Graph.Search

/-!
# Columns as layers

Without cycles the columns of a graph are its layers: the columns to the right of a node are as many
as the longest path along links from the node has links.
-/

namespace NodeScript.Graph

open List

variable {graph : Graph} {columns columns' right : List (List NodeId)} {id node : NodeId} {count : Nat}
  {column : List NodeId}

/-! ## Paths and columns -/

/-- Lengths of the paths along links that start at a node. -/
def pathLengths (graph : Graph) (id : NodeId) : Set Nat :=
  {n | ∃ path : List NodeId, path.length = n ∧ IsChain graph.Feeds (id :: path)}

theorem zero_mem_pathLengths : 0 ∈ graph.pathLengths id := ⟨[], rfl, .singleton id⟩

/-- A longer path goes on from a consumer. -/
theorem succ_mem_pathLengths {n : Nat} :
    n + 1 ∈ graph.pathLengths id ↔ ∃ consumer, graph.Feeds id consumer ∧ n ∈ graph.pathLengths consumer := by
  constructor
  · rintro ⟨path, hlength, hchain⟩
    obtain ⟨consumer, rest, rfl⟩ := exists_cons_of_length_eq_add_one hlength
    obtain ⟨hfeeds, hrest⟩ := isChain_cons_cons.mp hchain
    exact ⟨consumer, hfeeds, rest, Nat.succ.inj hlength, hrest⟩
  · rintro ⟨consumer, hfeeds, path, rfl, hchain⟩
    exact ⟨consumer :: path, rfl, .cons_cons hfeeds hchain⟩

/-- The node stands in a column that has some number of columns to its right. -/
def Precedes (columns : List (List NodeId)) (id : NodeId) (count : Nat) : Prop :=
  ∃ left column right, columns = left ++ column :: right ∧ id ∈ column ∧ right.length = count

theorem precedes_cons : Precedes (column :: columns) id count ↔
    id ∈ column ∧ columns.length = count ∨ Precedes columns id count := by
  constructor
  · rintro ⟨left, found, right, hsplit, hid, rfl⟩
    cases left with
    | nil =>
      cases hsplit
      exact .inl ⟨hid, rfl⟩
    | cons first left =>
      cases hsplit
      exact .inr ⟨left, found, right, rfl, hid, rfl⟩
  · rintro (⟨hid, rfl⟩ | ⟨left, found, right, rfl, hid, rfl⟩)
    · exact ⟨[], column, columns, rfl, hid, rfl⟩
    · exact ⟨column :: left, found, right, rfl, hid, rfl⟩

theorem precedes_append {front : List (List NodeId)} (h : Precedes (front ++ columns) id count) :
    (∃ column ∈ front, id ∈ column) ∨ Precedes columns id count := by
  induction front with
  | nil => exact .inr h
  | cons column rest ih =>
    rcases precedes_cons.mp h with ⟨hid, _⟩ | h
    · exact .inl ⟨column, mem_cons_self, hid⟩
    · exact (ih h).imp_left fun ⟨other, hother, hid⟩ => ⟨other, mem_cons_of_mem _ hother, hid⟩

theorem Precedes.lt_length (precedes : Precedes columns id count) : count < columns.length := by
  obtain ⟨left, column, right, rfl, _, rfl⟩ := precedes
  rw [length_append, length_cons]
  omega

theorem mem_flatten_iff_precedes : id ∈ columns.flatten ↔ ∃ count, Precedes columns id count := by
  rw [mem_flatten]
  constructor
  · rintro ⟨column, hcolumn, hid⟩
    obtain ⟨left, right, hsplit⟩ := append_of_mem hcolumn
    exact ⟨right.length, left, column, right, hsplit, hid, rfl⟩
  · rintro ⟨_, left, column, right, rfl, hid, rfl⟩
    exact ⟨column, mem_append_right _ mem_cons_self, hid⟩

theorem feeds_eq_true : graph.feeds node column = true ↔ ∃ consumer ∈ column, graph.Feeds node consumer := by
  simp only [feeds, Feeds, any_eq_true, Bool.and_eq_true, decide_eq_true_eq, contains_iff_mem]
  constructor
  · rintro ⟨link, hlink, hfrom, hto⟩
    exact ⟨link.toNode, hto, link, hlink, hfrom, rfl⟩
  · rintro ⟨consumer, hconsumer, link, hlink, hfrom, rfl⟩
    exact ⟨link, hlink, hfrom, hconsumer⟩

/-! ## Placing a node -/

/-- A node is placed in front of some columns: in a column of its own or at the end of the one
before them. -/
inductive Inserts (node : NodeId) (right : List (List NodeId)) : List (List NodeId) → List (List NodeId) → Prop
  | front : Inserts node right right ([node] :: right)
  | join (left : List (List NodeId)) (column : List NodeId) :
      Inserts node right (left ++ column :: right) (left ++ (column ++ [node]) :: right)

/-- The columns in front of which a node belongs: from the first one on that it feeds, or none at
all. -/
inductive Fronts (graph : Graph) (node : NodeId) (columns : List (List NodeId)) : List (List NodeId) → Prop
  | last (none : ∀ column ∈ columns, graph.feeds node column = false) : Fronts graph node columns []
  | fed (front : List (List NodeId)) (next : List NodeId) (rest : List (List NodeId))
      (split : columns = front ++ next :: rest) (feeds : graph.feeds node next = true)
      (first : ∀ column ∈ front, graph.feeds node column = false) : Fronts graph node columns (next :: rest)

theorem modify_middle {α : Type} (left : List α) (a : α) (rest : List α) (f : α → α) :
    (left ++ a :: rest).modify left.length f = left ++ f a :: rest := by
  induction left with
  | nil => rfl
  | cons first left ih => exact congrArg (first :: ·) ih

theorem exists_inserts (graph : Graph) (columns : List (List NodeId)) (node : NodeId) :
    ∃ right, graph.Fronts node columns right ∧ Inserts node right columns (graph.placeInColumn columns node) := by
  unfold placeInColumn
  cases hfind : columns.findIdx? (graph.feeds node) with
  | none =>
    refine ⟨[], .last (findIdx?_eq_none_iff.mp hfind), ?_⟩
    rcases eq_nil_or_concat columns with rfl | ⟨left, column, rfl⟩
    · exact .front
    · have hlength : (left.concat column).length - 1 = left.length := by simp
      dsimp only
      rw [hlength, concat_eq_append]
      split
      · next hnil => exact absurd hnil (by simp)
      · rw [modify_middle]
        exact .join left column
  | some position =>
    obtain ⟨hlt, hfeeds, hfirst⟩ := findIdx?_eq_some_iff_getElem.mp hfind
    have hsplit : columns = columns.take position ++ columns[position] :: columns.drop (position + 1) := by
      rw [← drop_eq_getElem_cons hlt, take_append_drop]
    have hfront : ∀ column ∈ columns.take position, graph.feeds node column = false := by
      intro column hcolumn
      obtain ⟨index, hindex, rfl⟩ := mem_take_iff_getElem.mp hcolumn
      exact Bool.eq_false_iff.mpr (hfirst index (by omega))
    refine ⟨columns[position] :: columns.drop (position + 1), .fed _ _ _ hsplit hfeeds hfront, ?_⟩
    cases position with
    | zero =>
      rw [← drop_eq_getElem_cons hlt]
      exact .front
    | succ position =>
      have hbefore : position < columns.length := by omega
      have hlength : (columns.take position).length = position := length_take_of_le (by omega)
      have hjoin := @Inserts.join node (columns.drop (position + 1)) (columns.take position) columns[position]
      rw [← modify_middle _ _ _ (· ++ [node]), hlength, ← drop_eq_getElem_cons hbefore,
        take_append_drop] at hjoin
      rw [← drop_eq_getElem_cons hlt]
      exact hjoin

/-- A node that is placed stands in front of the columns that it was placed before, and all others
where they were. -/
theorem Inserts.precedes (inserts : Inserts node right columns columns') (h : Precedes columns' id count) :
    id = node ∧ count = right.length ∨ Precedes columns id count := by
  cases inserts with
  | front =>
    rcases precedes_cons.mp h with ⟨hid, rfl⟩ | h
    · exact .inl ⟨mem_singleton.mp hid, rfl⟩
    · exact .inr h
  | join left column =>
    induction left with
    | nil =>
      rcases precedes_cons.mp h with ⟨hid, rfl⟩ | h
      · rcases mem_append.mp hid with hid | hid
        · exact .inr (precedes_cons.mpr (.inl ⟨hid, rfl⟩))
        · exact .inl ⟨mem_singleton.mp hid, rfl⟩
      · exact .inr (precedes_cons.mpr (.inr h))
    | cons first left ih =>
      rcases precedes_cons.mp h with ⟨hid, hcount⟩ | h
      · refine .inr (precedes_cons.mpr (.inl ⟨hid, ?_⟩))
        rw [← hcount]
        simp
      · exact (ih h).imp_right fun h => precedes_cons.mpr (.inr h)

theorem Inserts.perm_flatten (inserts : Inserts node right columns columns') :
    columns'.flatten.Perm (columns.flatten ++ [node]) := by
  cases inserts with
  | front => exact (perm_append_singleton node _).symm
  | join left column =>
    simp only [flatten_append, flatten_cons, append_assoc]
    exact .append_left _ (.append_left _ perm_append_comm)

theorem Inserts.filled (inserts : Inserts node right columns columns') (filled : [] ∉ columns) : [] ∉ columns' := by
  cases inserts with
  | front => simpa using filled
  | join left column =>
    simp only [mem_append, mem_cons, not_or] at filled ⊢
    exact ⟨filled.1, by simp, filled.2.2⟩

/-! ## Layers -/

/-- The nodes placed so far stand in layers. -/
structure Layers (graph : Graph) (placed : List NodeId) (columns : List (List NodeId)) : Prop where
  nodes : columns.flatten.Perm placed
  filled : [] ∉ columns
  longest : ∀ id count, Precedes columns id count → IsGreatest (graph.pathLengths id) count

namespace Layers

variable {placed : List NodeId}

/-- The longest path from a node goes on from the first column that the node feeds. -/
theorem isGreatest (layers : graph.Layers placed columns) (fronts : graph.Fronts node columns right)
    (consumers : ∀ consumer, graph.Feeds node consumer → consumer ∈ placed) :
    IsGreatest (graph.pathLengths node) right.length := by
  have hplace : ∀ consumer, graph.Feeds node consumer → ∃ count, Precedes columns consumer count :=
    fun consumer hfeeds =>
    mem_flatten_iff_precedes.mp (layers.nodes.mem_iff.mpr (consumers consumer hfeeds))
  cases fronts with
  | last hnone =>
    refine ⟨zero_mem_pathLengths, fun n hn => ?_⟩
    cases n with
    | zero => exact Nat.le_refl _
    | succ n =>
      obtain ⟨consumer, hfeeds, _⟩ := succ_mem_pathLengths.mp hn
      obtain ⟨_, left, column, rest, rfl, hmem, _⟩ := hplace consumer hfeeds
      have hfalse := hnone column (mem_append_right _ mem_cons_self)
      rw [feeds_eq_true.mpr ⟨consumer, hmem, hfeeds⟩] at hfalse
      cases hfalse
  | fed front next rest split feeds first =>
    rw [length_cons]
    constructor
    · obtain ⟨consumer, hmem, hfeeds⟩ := feeds_eq_true.mp feeds
      exact succ_mem_pathLengths.mpr
        ⟨consumer, hfeeds, (layers.longest consumer _ ⟨front, next, rest, split, hmem, rfl⟩).1⟩
    · intro n hn
      cases n with
      | zero => exact Nat.zero_le _
      | succ n =>
        obtain ⟨consumer, hfeeds, hn⟩ := succ_mem_pathLengths.mp hn
        obtain ⟨count, hcount⟩ := hplace consumer hfeeds
        have hle : n ≤ count := (layers.longest consumer count hcount).2 hn
        -- No consumer stands in front of the first column that the node feeds.
        rw [split] at hcount
        rcases precedes_append hcount with ⟨column, hcolumn, hmem⟩ | hcount
        · have hfalse := first column hcolumn
          rw [feeds_eq_true.mpr ⟨consumer, hmem, hfeeds⟩] at hfalse
          cases hfalse
        · have hlt := hcount.lt_length
          rw [length_cons] at hlt
          omega

/-- One more node is placed, behind all its consumers. -/
theorem placeInColumn (layers : graph.Layers placed columns)
    (consumers : ∀ consumer, graph.Feeds node consumer → consumer ∈ placed) :
    graph.Layers (placed ++ [node]) (graph.placeInColumn columns node) := by
  obtain ⟨right, fronts, inserts⟩ := graph.exists_inserts columns node
  refine ⟨inserts.perm_flatten.trans (layers.nodes.append_right _),
    inserts.filled layers.filled, fun id count h => ?_⟩
  rcases inserts.precedes h with ⟨rfl, rfl⟩ | h
  · exact layers.isGreatest fronts consumers
  · exact layers.longest id count h

/-- All nodes are placed, each behind its consumers. -/
theorem foldl (todo : List NodeId) (layers : graph.Layers placed columns)
    (sorts : Sorts graph.Feeds (placed ++ todo)) :
    graph.Layers (placed ++ todo) (todo.foldl graph.placeInColumn columns) := by
  induction todo generalizing placed columns with
  | nil =>
    rw [append_nil]
    exact layers
  | cons node rest ih =>
    rw [append_cons] at sorts ⊢
    refine ih (layers.placeInColumn fun consumer hfeeds => ?_) sorts
    exact sorts placed node rest (by rw [append_assoc]; rfl) consumer hfeeds

end Layers

/-- Consumers come first in an order that is read backwards. -/
theorem sorts_reverse_order? {order : List NodeId} (anchored : graph.Anchored) (h : graph.order? = some order) :
    Sorts graph.Feeds order.reverse := by
  intro before node behind hsplit consumer hfeeds
  have hperm := perm_order? anchored h
  obtain ⟨link, hlink, hfrom, hto⟩ := hfeeds
  have hlt : order.idxOf link.fromNode < order.idxOf link.toNode := ranked_order? anchored h link hlink
  have hconsumer : consumer ∈ order := hperm.mem_iff.mpr (hto ▸ (anchored link hlink).2)
  have horder : order = behind.reverse ++ node :: before.reverse := by
    rw [← reverse_reverse order, hsplit]
    simp
  have hnode : node ∉ behind.reverse := by
    have hnodup := hperm.nodup_iff.mpr graph.nodes.nodup
    rw [horder, nodup_append] at hnodup
    exact fun hmem => hnodup.2.2 _ hmem _ mem_cons_self rfl
  rw [hfrom, hto, horder, idxOf_append_of_notMem hnode, idxOf_cons_self] at hlt
  rw [horder] at hconsumer
  rcases mem_append.mp hconsumer with hmem | hmem
  · rw [idxOf_append_of_mem hmem] at hlt
    exact absurd (idxOf_lt_length_iff.mpr hmem) (by omega)
  · rcases mem_cons.mp hmem with rfl | hmem
    · rw [idxOf_append_of_notMem hnode, idxOf_cons_self] at hlt
      exact absurd hlt (Nat.lt_irrefl _)
    · exact mem_reverse.mp hmem

/-- Columns that are the layers of a graph: every node stands in one of them, and the columns to its
right are as many as the longest path from the node has links. So links lead to the right, a node
stands next to the leftmost of its consumers, and the columns are one more than the links of the
longest path. -/
structure Layered (graph : Graph) (columns : List (List NodeId)) : Prop where
  nodes : columns.flatten.Perm graph.nodes.keys
  filled : [] ∉ columns
  longest : ∀ id count, Precedes columns id count → IsGreatest (graph.pathLengths id) count
  forwards : ∀ id consumer count count', graph.Feeds id consumer → Precedes columns id count →
    Precedes columns consumer count' → count' < count
  adjacent : ∀ id consumer count, graph.Feeds id consumer → Precedes columns id count →
    ∃ leftmost, count = leftmost + 1 ∧
      IsGreatest {count' | ∃ consumer, graph.Feeds id consumer ∧ Precedes columns consumer count'} leftmost
  width : graph.nodes.keys ≠ [] → ∃ length, columns.length = length + 1 ∧
    IsGreatest {n | ∃ id ∈ graph.nodes.keys, n ∈ graph.pathLengths id} length

namespace Layers

variable {id consumer : NodeId} {count count' : Nat}

theorem lt_of_feeds {placed : List NodeId} (layers : graph.Layers placed columns) (hfeeds : graph.Feeds id consumer)
    (hid : Precedes columns id count) (hconsumer : Precedes columns consumer count') : count' < count :=
  (layers.longest id count hid).2
    (succ_mem_pathLengths.mpr ⟨consumer, hfeeds, (layers.longest consumer count' hconsumer).1⟩)

/-- The longest path goes through the leftmost consumer. -/
theorem exists_leftmost (layers : graph.Layers graph.nodes.keys columns) (anchored : graph.Anchored)
    (hfeeds : graph.Feeds id consumer) (hid : Precedes columns id count) : ∃ leftmost, count = leftmost + 1 ∧
      IsGreatest {count' | ∃ consumer, graph.Feeds id consumer ∧ Precedes columns consumer count'} leftmost := by
  have hplace : ∀ {consumer}, graph.Feeds id consumer → ∃ count, Precedes columns consumer count := by
    rintro consumer ⟨link, hlink, _, rfl⟩
    exact mem_flatten_iff_precedes.mp (layers.nodes.mem_iff.mpr (anchored link hlink).2)
  obtain ⟨hpath, hbound⟩ := layers.longest id count hid
  obtain ⟨some, hsome⟩ := hplace hfeeds
  cases count with
  | zero => exact absurd (layers.lt_of_feeds hfeeds hid hsome) (Nat.not_lt_zero _)
  | succ leftmost =>
    obtain ⟨next, hnext, hrest⟩ := succ_mem_pathLengths.mp hpath
    obtain ⟨right, hright⟩ := hplace hnext
    have hle : leftmost ≤ right := (layers.longest next right hright).2 hrest
    have hlt : right < leftmost + 1 := layers.lt_of_feeds hnext hid hright
    obtain rfl : right = leftmost := by omega
    refine ⟨right, rfl, ⟨next, hnext, hright⟩, ?_⟩
    rintro other ⟨consumer, hconsumer, hother⟩
    exact Nat.le_of_lt_succ (layers.lt_of_feeds hconsumer hid hother)

/-- The nodes of the first column have the longest paths. -/
theorem exists_width (layers : graph.Layers graph.nodes.keys columns) (nonempty : graph.nodes.keys ≠ []) :
    ∃ length, columns.length = length + 1 ∧
      IsGreatest {n | ∃ id ∈ graph.nodes.keys, n ∈ graph.pathLengths id} length := by
  cases columns with
  | nil => exact absurd (nil_perm.mp layers.nodes) nonempty
  | cons first rest =>
    have hfirst : first ≠ [] := fun h => layers.filled (h ▸ mem_cons_self)
    obtain ⟨id, hid⟩ := exists_mem_of_ne_nil first hfirst
    refine ⟨rest.length, rfl, ⟨id, ?_, ?_⟩, ?_⟩
    · exact layers.nodes.mem_iff.mp (mem_flatten.mpr ⟨first, mem_cons_self, hid⟩)
    · exact (layers.longest id _ (precedes_cons.mpr (.inl ⟨hid, rfl⟩))).1
    · rintro n ⟨other, hother, hn⟩
      obtain ⟨count, hcount⟩ := mem_flatten_iff_precedes.mp (layers.nodes.mem_iff.mpr hother)
      exact Nat.le_trans ((layers.longest other count hcount).2 hn) (Nat.le_of_lt_succ hcount.lt_length)

end Layers

/-- Where links join nodes of the graph and form no cycle, the columns are the layers. -/
theorem layered_columns (anchored : graph.Anchored) (acyclic : ∀ id, ¬ Relation.TransGen graph.Feeds id id) :
    graph.Layered graph.columns := by
  obtain ⟨order, horder⟩ := Option.isSome_iff_exists.mp (order?_isSome_of_acyclic acyclic)
  have hscan : graph.scan = order.reverse := by rw [scan, horder]
  have start : graph.Layers [] [] := ⟨.nil, not_mem_nil, fun id count h => absurd h.lt_length (Nat.not_lt_zero _)⟩
  have done := start.foldl order.reverse (sorts_reverse_order? anchored horder)
  rw [← hscan] at done
  have layers : graph.Layers graph.nodes.keys graph.columns := by
    refine ⟨done.nodes.trans ?_, done.filled, done.longest⟩
    rw [nil_append, hscan]
    exact (reverse_perm order).trans (perm_order? anchored horder)
  exact {
    nodes := layers.nodes
    filled := layers.filled
    longest := layers.longest
    forwards := fun _ _ _ _ hfeeds hid hconsumer => layers.lt_of_feeds hfeeds hid hconsumer
    adjacent := fun _ _ _ hfeeds hid => layers.exists_leftmost anchored hfeeds hid
    width := layers.exists_width }

theorem layered_columns_detour :
    detour.columns = [[⟨3⟩], [⟨2⟩], [⟨1⟩], [⟨0⟩]] ∧ detour.Layered [[⟨3⟩], [⟨2⟩], [⟨1⟩], [⟨0⟩]] := by
  have hcolumns : detour.columns = [[⟨3⟩], [⟨2⟩], [⟨1⟩], [⟨0⟩]] := by decide
  have ranked : detour.Ranked fun id => 3 - id.code := by unfold Ranked; decide
  exact ⟨hcolumns, hcolumns ▸ layered_columns (by decide) ranked.acyclic⟩

end NodeScript.Graph
