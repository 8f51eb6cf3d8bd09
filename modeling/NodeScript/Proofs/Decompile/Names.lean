import Mathlib.Data.List.Nodup
import Mathlib.Data.List.Perm.Subperm
import NodeScript.Decompile.Program
import NodeScript.Proofs.Script.Parts

/-!
# Names in decompiled programs

A statement of a decompiled program is named for the category of its node, with a number behind. No
two statements share a name, at whatever depth they are: a node is visited once, each visited node
goes into one body, and the numbers of a category go up. A parameter has the name of an interface
entry, so it can be taken for a statement only if the entry itself is named like one.
-/

namespace NodeScript

open Script List

/-! ## Categories with numbers -/

namespace Category

/-- A category with a number behind. -/
def numbered (category : Category) (n : Nat) : String := category.slug ++ toString n

theorem slug_not_digit (category : Category) : category.slug.toList.all (fun c => !c.isDigit) = true := by
  cases category <;> decide

theorem toList_numbered (category : Category) (n : Nat) :
    (category.numbered n).toList = category.slug.toList ++ Nat.toDigits 10 n := by
  simp [numbered, Nat.repr]

/-- The number starts at the first digit. -/
theorem takeWhile_numbered (category : Category) (n : Nat) :
    (category.numbered n).toList.takeWhile (fun c => !c.isDigit) = category.slug.toList := by
  have hslug := all_eq_true.mp category.slug_not_digit
  have hdigits : ∀ c ∈ Nat.toDigits 10 n, c.isDigit = true := fun _ hc =>
    Nat.isDigit_of_mem_toDigits (by omega) (by omega) hc
  rw [toList_numbered, takeWhile_append_of_pos hslug]
  cases hn : Nat.toDigits 10 n with
  | nil => exact append_nil _
  | cons c rest =>
    rw [hn] at hdigits
    rw [takeWhile_cons, hdigits c mem_cons_self]
    exact append_nil _

theorem numbered_inj {category category' : Category} {n m : Nat} (h : category.numbered n = category'.numbered m) :
    category.slug = category'.slug ∧ n = m := by
  have hslug : category.slug.toList = category'.slug.toList := by
    rw [← category.takeWhile_numbered n, h, category'.takeWhile_numbered m]
  have hlist := congrArg String.toList h
  rw [toList_numbered, toList_numbered, hslug] at hlist
  have hdigits := congrArg (Nat.ofDigitChars 10 · 0) (append_cancel_left hlist)
  rw [Nat.ofDigitChars_ten_toDigits, Nat.ofDigitChars_ten_toDigits] at hdigits
  exact ⟨String.toList_inj.mp hslug, hdigits⟩

end Category

section Names

variable {graph : Graph} {catalog : Catalog} {id : NodeId}

/-- The category that the statement of a node is named for. -/
def Catalog.categoryOf (catalog : Catalog) (node : Node) : Category :=
  match catalog.get? node.kind with
  | some kind => kind.category
  | none => .custom

theorem statementNames_cons {node : Node} (hnode : graph.node? id = some node) (rest : List NodeId)
    (counts : List (String × Nat)) :
    statementNames graph catalog (id :: rest) counts =
      (id, (catalog.categoryOf node).numbered ((counts.lookup (catalog.categoryOf node).slug).getD 0 + 1)) ::
        statementNames graph catalog rest (((catalog.categoryOf node).slug,
          (counts.lookup (catalog.categoryOf node).slug).getD 0 + 1) :: counts) := by
  rw [statementNames, hnode, Catalog.categoryOf]
  dsimp only
  cases catalog.get? node.kind with
  | none => rfl
  | some kind => rfl

theorem statementNames_missing (hnode : graph.node? id = none) (rest : List NodeId) (counts : List (String × Nat)) :
    statementNames graph catalog (id :: rest) counts = statementNames graph catalog rest counts := by
  rw [statementNames, hnode]

variable (graph catalog)

/-- Statements get names with numbers that have not been given yet. -/
theorem numbered_of_mem_statementNames (ids : List NodeId) (counts : List (String × Nat)) :
    ∀ e ∈ statementNames graph catalog ids counts,
      ∃ category n, e.2 = Category.numbered category n ∧ (counts.lookup category.slug).getD 0 < n := by
  induction ids generalizing counts with
  | nil => exact fun e he => absurd he not_mem_nil
  | cons id rest ih =>
    cases hnode : graph.node? id with
    | none =>
      rw [statementNames_missing hnode]
      exact ih counts
    | some node =>
      rw [statementNames_cons hnode]
      intro e he
      rcases mem_cons.mp he with rfl | he
      · exact ⟨catalog.categoryOf node, _, rfl, Nat.lt_succ_self _⟩
      · obtain ⟨category, n, hname, hlt⟩ := ih _ e he
        refine ⟨category, n, hname, ?_⟩
        rw [lookup_cons] at hlt
        by_cases hslug : category.slug = (catalog.categoryOf node).slug
        · rw [hslug] at hlt ⊢
          simp only [beq_self_eq_true, Option.getD_some] at hlt
          exact Nat.lt_of_succ_lt hlt
        · rwa [beq_false_of_ne hslug] at hlt

theorem statementNames_nodup (ids : List NodeId) (counts : List (String × Nat)) :
    ((statementNames graph catalog ids counts).map Prod.snd).Nodup := by
  induction ids generalizing counts with
  | nil => exact nodup_nil
  | cons id rest ih =>
    cases hnode : graph.node? id with
    | none =>
      rw [statementNames_missing hnode]
      exact ih counts
    | some node =>
      rw [statementNames_cons hnode, map_cons, nodup_cons]
      refine ⟨fun hmem => ?_, ih _⟩
      obtain ⟨e, he, hname⟩ := mem_map.mp hmem
      obtain ⟨category, n, hnumbered, hlt⟩ := numbered_of_mem_statementNames graph catalog rest _ e he
      obtain ⟨hslug, rfl⟩ := Category.numbered_inj (hnumbered.symm.trans hname)
      rw [hslug, lookup_cons_self, Option.getD_some] at hlt
      exact Nat.lt_irrefl _ hlt

theorem keys_statementNames (ids : List NodeId) (counts : List (String × Nat)) :
    (statementNames graph catalog ids counts).map Prod.fst = ids.filter fun id => (graph.node? id).isSome := by
  induction ids generalizing counts with
  | nil => rfl
  | cons id rest ih =>
    cases hnode : graph.node? id with
    | none =>
      rw [statementNames_missing hnode, ih, filter_cons_of_neg]
      rw [hnode]
      exact Bool.false_ne_true
    | some node =>
      rw [statementNames_cons hnode, map_cons, ih, filter_cons_of_pos]
      rw [hnode]
      rfl

end Names

/-! ## Each node is visited once -/

namespace Graph.Walk

/-- No node is in the order twice, and all nodes in it have been visited. -/
structure Tidy (walk : Walk) : Prop where
  nodup : walk.order.Nodup
  visited : ∀ id ∈ walk.order, id ∈ walk.visited

/-- A walk goes on: it stays tidy, and nodes visited before are not put in order any more. -/
structure Grows (walk walk' : Walk) : Prop where
  tidy : walk.Tidy → walk'.Tidy
  visited : ∀ id ∈ walk.visited, id ∈ walk'.visited
  order : ∀ id ∈ walk'.order, id ∈ walk.order ∨ id ∉ walk.visited

variable {walk walk' walk'' : Walk}

theorem Grows.refl (walk : Walk) : walk.Grows walk := ⟨id, fun _ => id, fun _ => .inl⟩

theorem Grows.trans (first : walk.Grows walk') (second : walk'.Grows walk'') : walk.Grows walk'' := by
  refine ⟨fun tidy => second.tidy (first.tidy tidy), fun id hid => second.visited id (first.visited id hid), ?_⟩
  intro id hid
  rcases second.order id hid with hold | hnew
  · exact first.order id hold
  · exact .inr fun hvisited => hnew (first.visited id hvisited)

theorem grows_foldl {step : Walk → NodeId → Walk}
    (hstep : ∀ (walk : Walk) id, walk.Grows (step walk id)) (ids : List NodeId)
    (walk : Walk) : walk.Grows (ids.foldl step walk) := by
  induction ids generalizing walk with
  | nil => exact .refl walk
  | cons id rest ih => exact (hstep walk id).trans (ih _)

/-- Between the mark of a node and its place in the order, only other nodes are put in order. -/
theorem Grows.close {id : NodeId} (hid : id ∉ walk.visited)
    (grows : Grows { walk with visited := id :: walk.visited } walk') :
    walk.Grows { walk' with order := walk'.order ++ [id] } := by
  have hself : id ∈ walk'.visited := grows.visited id mem_cons_self
  refine ⟨fun tidy => ?_, fun other hother => grows.visited other (.tail _ hother), ?_⟩
  · have tidy' := grows.tidy ⟨tidy.nodup, fun other hother => mem_cons_of_mem _ (tidy.visited other hother)⟩
    refine ⟨nodup_append.mpr ⟨tidy'.nodup, nodup_singleton id, ?_⟩, ?_⟩
    · intro other hother last hlast heq
      rw [mem_singleton] at hlast
      subst heq hlast
      rcases grows.order _ hother with hold | hnew
      · exact hid (tidy.visited _ hold)
      · exact hnew mem_cons_self
    · intro other hother
      rcases mem_append.mp hother with hold | hlast
      · exact tidy'.visited other hold
      · rwa [mem_singleton.mp hlast]
  · intro other hother
    rcases mem_append.mp hother with hold | hlast
    · exact (grows.order other hold).imp_right fun hnew hvisited => hnew (.tail _ hvisited)
    · exact .inr (mem_singleton.mp hlast ▸ hid)

theorem Grows.mark {id : NodeId} (grows : Grows { walk with visited := id :: walk.visited } walk') :
    walk.Grows walk' :=
  ⟨fun tidy => grows.tidy ⟨tidy.nodup, fun other hother => mem_cons_of_mem _ (tidy.visited other hother)⟩,
    fun other hother => grows.visited other (.tail _ hother),
    fun other hother => (grows.order other hother).imp_right fun hnew hvisited =>
      hnew (.tail _ hvisited)⟩

end Graph.Walk

namespace Graph

theorem grows_visit (graph : Graph) (spans : List Span) (depth : Nat) (walk : Walk) (id : NodeId) :
    walk.Grows (graph.visit spans depth walk id) := by
  induction depth generalizing walk id with
  | zero => exact .refl walk
  | succ depth ih =>
    rw [visit]
    split
    · exact .refl walk
    · next hid =>
        cases graph.node? id with
        | none => exact (Walk.Grows.refl _).mark
        | some node =>
          have grows := Walk.grows_foldl ih (graph.dependencies spans id)
            { walk with visited := id :: walk.visited }
          dsimp only
          split
          · exact grows.mark
          · exact grows.close hid

theorem statementOrder_nodup (graph : Graph) (spans : List Span) (source sink : NodeId) :
    (graph.statementOrder spans source sink).Nodup := by
  have tidy := (graph.grows_visit spans (graph.nodes.size + 2) {} sink).tidy ⟨nodup_nil, fun _ h => h⟩
  exact tidy.nodup.filter _

end Graph

/-! ## Owners -/

namespace Piece

variable {spans : List Span} {id : NodeId} {position : Nat}

theorem smaller_eq {best : Option (Nat × Span)} {position : Nat} {span : Span} (h : spans[position]? = some span) :
    (smaller spans best position).isSome = true ∧
      ∀ found, smaller spans best position = some found → best = some found ∨ found = (position, span) := by
  unfold smaller
  rw [h]
  cases best with
  | none => exact ⟨rfl, fun found hfound => .inr (Option.some.inj hfound).symm⟩
  | some best =>
    dsimp only
    split
    · exact ⟨rfl, fun found hfound => .inr (Option.some.inj hfound).symm⟩
    · exact ⟨rfl, fun found hfound => .inl hfound⟩

/-- The owner is one of the zones that hold the node, if there are any. -/
theorem foldl_smaller (holders : List Nat) (hholders : ∀ position ∈ holders, ∃ span, spans[position]? = some span)
    (best : Option (Nat × Span)) :
    (∀ found, holders.foldl (smaller spans) best = some found → best = some found ∨ found.1 ∈ holders) ∧
      (best.isSome = true ∨ holders ≠ [] → (holders.foldl (smaller spans) best).isSome = true) := by
  induction holders generalizing best with
  | nil => exact ⟨fun _ h => .inl h, fun h => h.resolve_right fun h => h rfl⟩
  | cons position rest ih =>
    obtain ⟨span, hspan⟩ := hholders position mem_cons_self
    obtain ⟨hsome, hfound⟩ := @smaller_eq _ best _ _ hspan
    obtain ⟨ih₁, ih₂⟩ := ih (fun other hother => hholders other (.tail _ hother))
      (smaller spans best position)
    refine ⟨fun found h => ?_, fun _ => ih₂ (.inl hsome)⟩
    rcases ih₁ found h with h | h
    · rcases hfound found h with h | rfl
      · exact .inl h
      · exact .inr mem_cons_self
    · exact .inr (.tail _ h)

theorem mem_holders : position ∈ (range spans.length).filter (fun position =>
    (spans[position]?).any fun span => span.body.contains id) ↔
      ∃ span, spans[position]? = some span ∧ id ∈ span.body := by
  rw [mem_filter, mem_range]
  cases hspan : spans[position]? with
  | none => simp
  | some span =>
    have hlt := (List.getElem?_eq_some_iff.mp hspan).1
    simp [hlt]

theorem owner?_eq_some (h : owner? spans id = some position) :
    ∃ span, spans[position]? = some span ∧ id ∈ span.body := by
  unfold owner? at h
  obtain ⟨found, hfound, rfl⟩ := Option.map_eq_some_iff.mp h
  have hholders := (foldl_smaller _ (fun position h => (mem_holders.mp h).imp fun _ h => h.1) none).1 found hfound
  exact mem_holders.mp (hholders.resolve_left fun h => by cases h)

theorem owner?_ne_none {span : Span} (hspan : span ∈ spans) (hid : id ∈ span.body) : owner? spans id ≠ none := by
  obtain ⟨position, hposition⟩ := mem_iff_getElem?.mp hspan
  unfold owner?
  dsimp only
  have hsome := (foldl_smaller _ (fun position h => (mem_holders.mp h).imp fun _ h => h.1) none).2
    (.inr (ne_nil_of_mem (mem_holders.mpr ⟨span, hposition, hid⟩)))
  obtain ⟨found, hfound⟩ := Option.isSome_iff_exists.mp hsome
  rw [hfound]
  exact fun h => by cases h

end Piece

/-! ## Each node goes into one body -/

namespace Piece

mutual

/-- The nodes that a piece makes statements for. -/
def nodes : Piece → List NodeId
  | .call id => [id]
  | .zone span body => span.exit :: nodesAll body

def nodesAll : List Piece → List NodeId
  | [] => []
  | piece :: rest => nodes piece ++ nodesAll rest

end

theorem nodesAll_append (pieces others : List Piece) :
    nodesAll (pieces ++ others) = nodesAll pieces ++ nodesAll others := by
  induction pieces with
  | nil => rfl
  | cons piece rest ih => rw [cons_append, nodesAll, nodesAll, ih, append_assoc]

theorem nodesAll_singleton (piece : Piece) : nodesAll [piece] = nodes piece := by
  rw [nodesAll, nodesAll, append_nil]

/-- The nodes of all bodies. -/
def bodyNodes (bodies : List (List Piece)) : List NodeId := bodies.flatMap nodesAll

/-- The nodes sorted so far. -/
def Nest.nodes (nest : Nest) : List NodeId := nodesAll nest.top ++ bodyNodes nest.bodies

theorem bodyNodes_set (bodies : List (List Piece)) (position : Nat) :
    (nodesAll (bodies.getD position []) ++ bodyNodes (bodies.set position [])).Perm (bodyNodes bodies) := by
  induction bodies generalizing position with
  | nil => exact .refl _
  | cons body rest ih =>
    cases position with
    | zero => exact .refl _
    | succ position =>
      change (nodesAll (rest.getD position []) ++ (nodesAll body ++ bodyNodes (rest.set position []))).Perm
        (nodesAll body ++ bodyNodes rest)
      exact (perm_append_comm_assoc _ _ _).trans ((ih position).append_left _)

theorem bodyNodes_modify {bodies : List (List Piece)}
    {position : Nat} (h : position < bodies.length) (piece : Piece) :
    (bodyNodes (bodies.modify position (· ++ [piece]))).Perm (nodes piece ++ bodyNodes bodies) := by
  induction bodies generalizing position with
  | nil => cases h
  | cons body rest ih =>
    cases position with
    | zero =>
      change (nodesAll (body ++ [piece]) ++ bodyNodes rest).Perm (nodes piece ++ (nodesAll body ++ bodyNodes rest))
      rw [nodesAll_append, nodesAll_singleton, append_assoc]
      exact perm_append_comm_assoc _ _ _
    | succ position =>
      change (nodesAll body ++ bodyNodes (rest.modify position (· ++ [piece]))).Perm
        (nodes piece ++ (nodesAll body ++ bodyNodes rest))
      exact ((ih (Nat.lt_of_succ_lt_succ h)).append_left _).trans (perm_append_comm_assoc _ _ _)

theorem nodes_take (spans : List Span) (nest : Nest) (id : NodeId) :
    ((take spans nest id).1.nodes ++ (take spans nest id).2.nodes).Perm (id :: nest.nodes) := by
  unfold take
  split
  · exact .refl _
  · next position hfind =>
      split
      · exact .refl _
      · next span hspan =>
          have hexit : span.exit = id := by
            obtain ⟨hlt, hexit, _⟩ := findIdx?_eq_some_iff_getElem.mp hfind
            rw [getElem?_eq_getElem hlt, Option.some.injEq] at hspan
            exact hspan ▸ of_decide_eq_true hexit
          have hset := bodyNodes_set nest.bodies position
          dsimp only [nodes, Nest.nodes]
          rw [hexit]
          refine .cons id ?_
          exact (perm_append_comm_assoc _ _ _).trans (hset.append_left _)

theorem length_take (spans : List Span) (nest : Nest) (id : NodeId) :
    (take spans nest id).2.bodies.length = nest.bodies.length := by
  unfold take
  split
  · rfl
  · split
    · rfl
    · exact length_set

theorem length_place (spans : List Span) (nest : Nest) (id : NodeId) :
    (place spans nest id).bodies.length = nest.bodies.length := by
  unfold place
  dsimp only
  split
  · rw [length_modify, length_take]
  · exact length_take spans nest id

/-- Sorting a node in adds that node and no other. -/
theorem nodes_place {spans : List Span} {nest : Nest} (hlength : nest.bodies.length = spans.length) (id : NodeId) :
    (place spans nest id).nodes.Perm (id :: nest.nodes) := by
  have htake := nodes_take spans nest id
  have hbodies := length_take spans nest id
  unfold place
  revert htake hbodies
  generalize take spans nest id = taken
  obtain ⟨piece, rest⟩ := taken
  intro htake hbodies
  dsimp only at htake hbodies ⊢
  refine Perm.trans ?_ htake
  split
  · next position howner =>
      obtain ⟨span, hspan, _⟩ := owner?_eq_some howner
      have hlt : position < rest.bodies.length := by
        rw [hbodies, hlength]
        exact (List.getElem?_eq_some_iff.mp hspan).1
      change (nodesAll rest.top ++ bodyNodes (rest.bodies.modify position (· ++ [piece]))).Perm
        (nodes piece ++ (nodesAll rest.top ++ bodyNodes rest.bodies))
      exact ((bodyNodes_modify hlt piece).append_left _).trans (List.perm_append_comm_assoc _ _ _)
  · change (nodesAll (rest.top ++ [piece]) ++ bodyNodes rest.bodies).Perm
      (nodes piece ++ (nodesAll rest.top ++ bodyNodes rest.bodies))
    rw [nodesAll_append, nodesAll_singleton, append_assoc]
    exact perm_append_comm_assoc _ _ _

theorem nodes_foldl_place {spans : List Span} (order : List NodeId) {start : Nest}
    (hlength : start.bodies.length = spans.length) :
    (order.foldl (place spans) start).nodes.Perm (order ++ start.nodes) := by
  induction order generalizing start with
  | nil => exact .refl _
  | cons id rest ih =>
    have hrest := ih ((length_place spans start id).trans hlength)
    exact hrest.trans (((nodes_place hlength id).append_left rest).trans perm_middle)

theorem bodyNodes_blank (spans : List Span) : bodyNodes (spans.map fun _ => []) = [] := by
  induction spans with
  | nil => rfl
  | cons span rest ih => exact ih

/-- The statements are made for different nodes of the order. -/
theorem nodes_nest (spans : List Span) (order : List NodeId) : (nodesAll (nest spans order)).Subperm order := by
  have hall := @nodes_foldl_place spans order ⟨spans.map fun _ => [], []⟩ (length_map _)
  rw [Nest.nodes, Nest.nodes, bodyNodes_blank, nodesAll, append_nil, append_nil] at hall
  exact (sublist_append_left _ _).subperm.trans hall.subperm

end Piece

/-! ## Statements -/

theorem Script.Statement.partsIn_append (statements others : List Statement) :
    partsIn (statements ++ others) = partsIn statements ++ partsIn others := by
  induction statements with
  | nil => rfl
  | cons statement rest ih => rw [cons_append, partsIn, partsIn, ih, append_assoc]

namespace References

open Statement

variable {refs : References} {id : NodeId}

/-- The nodes of pieces that exist. -/
def present (refs : References) (ids : List NodeId) : List NodeId :=
  ids.filter fun id => (refs.graph.node? id).isSome

theorem present_append (refs : References) (ids others : List NodeId) :
    refs.present (ids ++ others) = refs.present ids ++ refs.present others := filter_append _ _

theorem present_singleton {node : Node} (hnode : refs.graph.node? id = some node) : refs.present [id] = [id] := by
  rw [present, filter_cons_of_pos (by rw [hnode]; rfl), filter_nil]

mutual

theorem targets_statement (refs : References) : ∀ piece,
    ((partsIn (refs.statement? piece).toList).map Statement.target).Sublist
      ((refs.present piece.nodes).map refs.target)
  | .call id => by
    rw [statement?, callStatement?]
    cases hnode : refs.graph.node? id with
    | none => exact nil_sublist _
    | some node =>
      rw [Piece.nodes, present_singleton hnode]
      exact .refl _
  | .zone span body => by
    have hbody := targets_statements refs body
    rw [statement?, zoneStatement?]
    cases refs.graph.node? span.entry with
    | none => exact nil_sublist _
    | some entry =>
      cases hexit : refs.graph.node? span.exit with
      | none => exact nil_sublist _
      | some exit =>
        rw [Piece.nodes, ← singleton_append, present_append, present_singleton hexit]
        change (refs.target span.exit :: (partsIn (refs.statements body) ++ []).map Statement.target).Sublist _
        rw [append_nil]
        exact hbody.cons_cons _

theorem targets_statements (refs : References) : ∀ pieces,
    ((partsIn (refs.statements pieces)).map Statement.target).Sublist
      ((refs.present (Piece.nodesAll pieces)).map refs.target)
  | [] => nil_sublist _
  | piece :: rest => by
    have hfirst := targets_statement refs piece
    have hrest := targets_statements refs rest
    rw [statements, partsIn_append, Piece.nodesAll, present_append, map_append, map_append]
    exact hfirst.append hrest

end

variable {catalog : Catalog} {order : List NodeId}

variable (hnames : refs.names = statementNames refs.graph catalog order []) (hid : id ∈ refs.present order)
include hnames hid

theorem mem_names :
    (id, refs.target id) ∈ refs.names := by
  unfold target
  cases hlookup : refs.names.lookup id with
  | none =>
    rw [present, ← keys_statementNames refs.graph catalog order [], ← hnames] at hid
    obtain ⟨e, he, rfl⟩ := mem_map.mp hid
    have hne := lookup_eq_none_iff.mp hlookup e he
    rw [bne_self_eq_false] at hne
    cases hne
  | some name =>
    obtain ⟨before, behind, hsplit, _⟩ := lookup_eq_some_iff.mp hlookup
    rw [hsplit]
    exact mem_append_right _ mem_cons_self

theorem numbered_target : ∃ category n, refs.target id = Category.numbered category n := by
  have hmem := mem_names hnames hid
  rw [hnames] at hmem
  obtain ⟨category, n, htarget, _⟩ := numbered_of_mem_statementNames _ _ order [] _ hmem
  exact ⟨category, n, htarget⟩

/-- Different nodes have different targets. -/
theorem target_injOn {other : NodeId} (hother : other ∈ refs.present order)
    (heq : refs.target id = refs.target other) :
    id = other := by
  have hnodup := statementNames_nodup refs.graph catalog order []
  rw [← hnames] at hnodup
  have hpair := inj_on_of_nodup_map hnodup (mem_names hnames hid) (mem_names hnames hother) heq
  exact congrArg Prod.fst hpair

end References

/-! ## Programs -/

namespace Decompilation

variable {graph : Graph} {catalog : Catalog} {found : Decompilation}

/-- What is decompiled follows an order in which no node is twice. -/
theorem exists_order (h : ofGraph graph catalog = .ok found) : ∃ order : List NodeId, order.Nodup ∧
    found.refs.graph = graph ∧ found.refs.names = statementNames graph catalog order [] ∧
    (Piece.nodesAll found.pieces).Subperm order := by
  unfold ofGraph at h
  split at h
  · cases h
  · cases h
  · next sink _ source hsinks hsource =>
      cases h
      exact ⟨_, graph.statementOrder_nodup graph.spans source.id sink.id, rfl, rfl, Piece.nodes_nest _ _⟩

end Decompilation

/-- The statements of a decompiled program have different names, each a category with a number. -/
theorem Graph.decompile_names {graph : Graph} {catalog : Catalog} {program : Program}
    (h : graph.decompile catalog = .ok program) :
    program.targets.Nodup ∧ (∀ target ∈ program.targets, ∃ category n, target = Category.numbered category n) ∧
      program.paramNames = graph.interface.inputs.map fun entry => snakeCase entry.name := by
  unfold Graph.decompile at h
  cases hfound : Decompilation.ofGraph graph catalog with
  | error e =>
    rw [hfound] at h
    cases h
  | ok found =>
    rw [hfound] at h
    cases h
    obtain ⟨order, hnodup, rfl, hnames, hnodes⟩ := Decompilation.exists_order hfound
    have hsub := found.refs.targets_statements found.pieces
    have hpresent : ∀ id ∈ found.refs.present (Piece.nodesAll found.pieces), id ∈ found.refs.present order :=
      fun id hid => mem_filter.mpr ⟨hnodes.subset (mem_filter.mp hid).1, (mem_filter.mp hid).2⟩
    refine ⟨hsub.nodup ?_, fun target htarget => ?_, ?_⟩
    · refine Nodup.map_on (fun id hid other hother heq => ?_) ?_
      · exact References.target_injOn hnames (hpresent id hid) (hpresent other hother) heq
      · obtain ⟨sorted, hperm, hsorted⟩ := hnodes
        exact (hperm.nodup_iff.mp (hsorted.nodup hnodup)).filter _
    · obtain ⟨id, hid, rfl⟩ := mem_map.mp (hsub.subset htarget)
      exact References.numbered_target hnames (hpresent id hid)
    · exact map_map

end NodeScript
