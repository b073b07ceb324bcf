import Stepwise.Proofs.Outline
import Stepwise.Proofs.Shape
import Stepwise.Tree.Node

/-!
The nodes of a syntax tree. A node is told apart from all others by its path, the numbers of the children on
the way down to it: the walk visits every path once, in lexicographic order (`Node.visits_paths`).

A tree loses its positions node by node, along the paths of the walk. An edit that changes a node and its
children says of all of them at once what becomes of them, so edits at many paths are one edit of the root
(`Edit.clearingAll_eq`), which by induction on the tree takes every position away (`Program.stripped_eq`).
-/
namespace Stepwise

section Outlines

/-! The children of a node are those that its outline shows, in the same order. -/

@[simp] theorem Field.nodes_value (name : String) (v : Spelled) : (value name v).nodes = [] := rfl

@[simp] theorem Field.nodes_named (name : String) (c : Constant) : (named name c).nodes = [] := rfl

@[simp] theorem Field.nodes_child (name : String) (node : Outline) : (child name node).nodes = [node] := rfl

@[simp] theorem Field.nodes_list (name : String) (nodes : List Outline) :
    (list name nodes).nodes = nodes := by
  cases nodes <;> rfl

@[simp] theorem Field.nodes_optional (name : String) (node : Option Outline) :
    (optional name node).nodes = node.toList := by
  cases node <;> rfl

@[simp] theorem Outline.children_mk (label : String) (pos : Pos) (text : String) (fields : List Field) :
    (mk label pos text fields).children = fields.flatMap Field.nodes := rfl

namespace Expr

@[simp] theorem outlines_eq (es : List Expr) : outlines es = es.map outline := by
  induction es with
  | nil => rfl
  | cons e es ih => rw [outlines, ih, List.map_cons]

@[simp] theorem outlineOption_eq (e : Option Expr) : outlineOption e = e.map outline := by
  cases e <;> rfl

theorem node_outlineEntries (entries : List (Constant × Expr)) :
    (outlineEntries entries).map Entry.node = entries.map fun entry => entry.2.outline := by
  induction entries with
  | nil => rfl
  | cons entry entries ih =>
    obtain ⟨key, e⟩ := entry
    rw [outlineEntries, List.map_cons, ih]
    rfl

end Expr

namespace Stmt

@[simp] theorem outlines_eq (ss : List Stmt) : outlines ss = ss.map outline := by
  induction ss with
  | nil => rfl
  | cons s ss ih => rw [outlines, ih, List.map_cons]

@[simp] theorem outlineElifs_eq (es : List Elif) : outlineElifs es = es.map outlineElif := by
  induction es with
  | nil => rfl
  | cons e es ih => rw [outlineElifs, ih, List.map_cons]

@[simp] theorem outlineFuncs_eq (fs : List Func) : outlineFuncs fs = fs.map outlineFunc := by
  induction fs with
  | nil => rfl
  | cons f fs ih => rw [outlineFuncs, ih, List.map_cons]

@[simp] theorem nodes_outlineOtherwise (body : Option (List Stmt)) :
    (outlineOtherwise body).nodes = (body.getD []).map outline := by
  cases body <;> simp [outlineOtherwise]

end Stmt

attribute [local simp] Node.outline Function.comp_def

theorem Expr.children_outline (e : Expr) : e.outline.children = e.children.map Node.outline := by
  cases e with
  | record pos entries =>
    cases entries with
    | nil => rfl
    | cons entry entries =>
      have nodes := node_outlineEntries (entry :: entries)
      simpa [outline, children, Field.nodes] using nodes
  | slice pos object start stop => cases start <;> cases stop <;> simp [outline, children]
  | _ => simp [outline, children]

theorem Func.children_outline (f : Func) : (Stmt.outlineFunc f).children = f.children.map Node.outline := by
  cases f
  simp [Stmt.outlineFunc, children, body]

theorem Elif.children_outline (e : Elif) : (Stmt.outlineElif e).children = e.children.map Node.outline := by
  cases e
  simp [Stmt.outlineElif, children, test, body]

theorem Stmt.children_outline (s : Stmt) : s.outline.children = s.children.map Node.outline := by
  cases s with
  | loopRange pos var start stop step body => cases step <;> simp [outline, children]
  | give pos value => cases value <;> simp [outline, children]
  | define f => exact f.children_outline
  | _ => simp [outline, children]

theorem Node.children_outline (node : Node) : node.outline.children = node.children.map outline := by
  cases node with
  | program p => simp [Program.outline, children]
  | stmt s => exact s.children_outline
  | elif e => exact e.children_outline
  | func f => exact f.children_outline
  | expr e => exact e.children_outline
  | alien o => simp [children]

theorem Node.pos_outline (node : Node) : node.outline.pos = node.pos := by
  cases node with
  | program => rfl
  | stmt s => cases s with | define f => cases f; rfl | _ => rfl
  | elif e => cases e; rfl
  | func f => cases f; rfl
  | expr e => cases e <;> rfl
  | alien => rfl

end Outlines

/-! The walk. -/

theorem map_mapIdx {α β γ : Type} (g : β → γ) (f : Nat → α → β) (xs : List α) :
    (xs.mapIdx f).map g = xs.mapIdx fun i => g ∘ f i :=
  List.ext_getElem? fun i => by simp

theorem mapIdx_const {α β : Type} (f : α → β) (xs : List α) : xs.mapIdx (fun _ => f) = xs.map f :=
  List.ext_getElem? fun i => by simp

theorem Rooted.map_below {α : Type} (f : Node → α) (rooted : Rooted) :
    rooted.below.map (f ∘ node) = rooted.node.children.map f := by
  rw [below, map_mapIdx]
  exact mapIdx_const f _

namespace Node

theorem counts : Counts children size := fun node => by
  rw [size, Outline.counts node.outline, children_outline, List.map_map]
  rfl

theorem walk_eq (node : Node) : node.walk = node :: node.children.flatMap walk :=
  walkFrom_singleton counts node

theorem walk_outline (node : Node) : node.walk.map outline = node.outline.walk :=
  map_walkFrom (fun node => node.children_outline.symm) _ _

/-- The node that is found by going down to the child of each number in turn. -/
def at? : List Nat → Node → Option Node
  | [], node => some node
  | i :: path, node => node.children[i]?.bind (at? path)

/-- The paths through some children, which are numbered from `k` on. -/
def pathsFrom (k : Nat) : List Node → List (List Nat)
  | [] => []
  | child :: children => child.paths.map (k :: ·) ++ pathsFrom (k + 1) children

theorem paths_from (node : Node) (path : List Nat) :
    (walkFrom Rooted.below node.size [⟨path, node⟩]).map Rooted.path =
      node.paths.map (path ++ ·) := by
  let under (rooted : Rooted) : Rooted := ⟨path ++ rooted.path, rooted.node⟩
  have alike (rooted : Rooted) : rooted.below.map under = (under rooted).below := by
    simp [Rooted.below, map_mapIdx, under, Function.comp_def]
  have deeper := map_walkFrom alike node.size [⟨[], node⟩]
  simp only [List.map_cons, List.map_nil, under, List.append_nil] at deeper
  rw [← deeper, paths, List.map_map, List.map_map]
  rfl

theorem paths_eq (node : Node) : node.paths = [] :: pathsFrom 0 node.children := by
  have counts : Counts Rooted.below (size ∘ Rooted.node) := fun rooted => by
    rw [rooted.map_below]
    exact Node.counts rooted.node
  have further (k : Nat) (children : List Node) :
      ((children.mapIdx fun i child => (⟨[i + k], child⟩ : Rooted)).flatMap fun rooted =>
        (walkFrom Rooted.below rooted.node.size [rooted]).map Rooted.path) =
        pathsFrom k children := by
    induction children generalizing k with
    | nil => rfl
    | cons child children ih =>
      rw [List.mapIdx_cons, List.flatMap_cons, pathsFrom, ← ih, paths_from, Nat.zero_add]
      simp only [Nat.add_assoc, Nat.add_comm 1 k]
      rfl
  refine (congrArg (List.map Rooted.path) (walkFrom_singleton counts ⟨[], node⟩)).trans ?_
  rw [List.map_cons, List.map_flatMap]
  exact congrArg _ (further 0 node.children)

/-- The paths along which the walk finds its nodes, one after the other. -/
structure Visits (node : Node) (paths : List (List Nat)) : Prop where
  /-- A node comes before those under it, and what is under one child before the next child. -/
  ordered : paths.Pairwise (· < ·)
  complete : ∀ path, path ∈ paths ↔ (node.at? path).isSome
  visited : paths.map (fun path => node.at? path) = node.walk.map some

/-- The paths through the children from a certain number on. -/
theorem visits_from {children : List Node} (each : ∀ child ∈ children, child.Visits child.paths) (k : Nat) :
    (pathsFrom k children).Pairwise (· < ·) ∧
      (∀ path, path ∈ pathsFrom k children ↔ ∃ i rest, path = (k + i) :: rest ∧
        (children[i]?.bind (at? rest)).isSome) ∧
      ∀ node : Node, (∀ i, node.children[k + i]? = children[i]?) →
        (pathsFrom k children).map (fun path => node.at? path) = (children.flatMap walk).map some := by
  induction children generalizing k with
  | nil => exact ⟨.nil, by simp [pathsFrom], fun _ _ => rfl⟩
  | cons child children ih =>
    obtain ⟨visits, each⟩ := List.forall_mem_cons.mp each
    obtain ⟨ordered, complete, visited⟩ := ih each (k + 1)
    rw [pathsFrom]
    refine ⟨?_, fun path => ?_, fun node same => ?_⟩
    · refine List.pairwise_append.mpr ⟨?_, ordered, fun a first b second => ?_⟩
      · exact List.pairwise_map.mpr (visits.ordered.imp .cons)
      · obtain ⟨rest, -, rfl⟩ := List.mem_map.mp first
        obtain ⟨i, rest, rfl, -⟩ := (complete b).mp second
        exact .rel (by omega)
    · rw [List.mem_append, List.mem_map, complete]
      constructor
      · rintro (⟨rest, inside, rfl⟩ | ⟨i, rest, rfl, found⟩)
        · exact ⟨0, rest, rfl, (visits.complete rest).mp inside⟩
        · exact ⟨i + 1, rest, by rw [Nat.add_right_comm, Nat.add_assoc], found⟩
      · rintro ⟨i, rest, rfl, found⟩
        cases i with
        | zero => exact .inl ⟨rest, (visits.complete rest).mpr found, rfl⟩
        | succ i => exact .inr ⟨i, rest, by rw [Nat.add_right_comm, Nat.add_assoc], found⟩
    · have here : node.children[k]? = some child := same 0
      have first : (child.paths.map (k :: ·)).map (fun path => node.at? path) = child.walk.map some := by
        rw [List.map_map, ← visits.visited]
        exact List.map_congr_left fun path _ => by simp [at?, here]
      rw [List.map_append, first, List.flatMap_cons, List.map_append, visited node fun i => ?_]
      have next := same (i + 1)
      rwa [← Nat.add_assoc, Nat.add_right_comm] at next

/-- The walk visits every path in a tree once, in lexicographic order. -/
theorem visits_paths (node : Node) : node.Visits node.paths := by
  induction node using counts.induct with
  | step node ih =>
    obtain ⟨ordered, complete, visited⟩ := visits_from ih 0
    rw [paths_eq]
    refine ⟨?_, fun path => ?_, ?_⟩
    · refine List.pairwise_cons.mpr ⟨fun path inside => ?_, ordered⟩
      obtain ⟨i, rest, rfl, -⟩ := (complete path).mp inside
      exact .nil
    · cases path with
      | nil => simp [at?]
      | cons i rest =>
        rw [List.mem_cons, complete]
        constructor
        · rintro (absurd | ⟨j, rest', same, found⟩)
          · cases absurd
          · cases same
            rwa [at?, Nat.zero_add]
        · exact fun found => .inr ⟨i, rest, by rw [Nat.zero_add], found⟩
    · rw [List.map_cons, walk_eq, List.map_cons, visited node fun i => by rw [Nat.zero_add]]
      rfl

end Node

/-! Edits. -/

section Edits

attribute [local simp] mapIdx_const Function.comp_def

@[simp] theorem Entry.change_id (entry : Entry) : entry.change id = entry := by
  cases entry
  rfl

@[simp] theorem Field.edited_self (field : Field) : field.edited (fun _ => {}) = field := by
  cases field with
  | keyed name entries =>
    rw [edited, mapIdx_const, List.map_congr_left fun entry _ => entry.change_id, List.map_id']
  | _ => simp [edited]

@[simp] theorem Field.editedAll_self (fields : List Field) : editedAll (fun _ => {}) fields = fields := by
  induction fields with
  | nil => rfl
  | cons field fields ih => rw [editedAll, edited_self, ih]

/-- Nothing is changed by changing nothing. -/
@[simp] theorem Edit.at_self : Edit.at id (fun _ => {}) = {} := by
  ext x
  · simp [Edit.at, Program.edited]
  · cases x with
    | define f => cases f; simp [Edit.at, Stmt.edited, Func.edited]
    | alien node => cases node; simp [Edit.at, Stmt.edited, Outline.edited]
    | _ => simp [Edit.at, Stmt.edited]
  · cases x
    simp [Edit.at, Elif.edited]
  · cases x
    simp [Edit.at, Func.edited]
  · cases x with
    | alien node => cases node; simp [Edit.at, Expr.edited, Outline.edited]
    | _ => simp [Edit.at, Expr.edited]
  · cases x
    simp [Edit.at, Outline.edited]

variable {p q : Pos → Pos} {f g : Nat → Edit}

@[simp] theorem Entry.change_change (h k : Outline → Outline) (entry : Entry) :
    (entry.change h).change k = entry.change (k ∘ h) := by
  cases entry
  rfl

theorem Field.edited_edited (field : Field) :
    (field.edited f).edited g = field.edited fun i => (f i).andThen (g i) := by
  cases field <;> simp [edited, Edit.andThen]

@[simp] theorem Field.length_nodes_edited (field : Field) :
    (field.edited f).nodes.length = field.nodes.length := by
  cases field <;> simp [edited, nodes]

theorem Field.editedAll_editedAll (fields : List Field) :
    editedAll g (editedAll f fields) = editedAll (fun i => (f i).andThen (g i)) fields := by
  induction fields generalizing f g with
  | nil => rfl
  | cons field fields ih => rw [editedAll, editedAll, edited_edited, length_nodes_edited, ih, editedAll]

theorem Outline.edited_edited (node : Outline) :
    (node.edited p f).edited q g = node.edited (q ∘ p) fun i => (f i).andThen (g i) := by
  cases node
  simp [edited, Field.editedAll_editedAll]

theorem Func.edited_edited (function : Func) :
    (function.edited p f).edited q g = function.edited (q ∘ p) fun i => (f i).andThen (g i) := by
  cases function
  simp [edited, Edit.andThen]

/-- One edit of a node after another is an edit of that node. -/
theorem Edit.at_andThen :
    (Edit.at p f).andThen (Edit.at q g) = Edit.at (q ∘ p) fun i => (f i).andThen (g i) := by
  ext x
  · simp [Edit.at, Edit.andThen, Program.edited]
  · cases x with
    | define function => simp [Edit.at, Edit.andThen, Stmt.edited, Func.edited_edited]
    | alien node => simp [Edit.at, Edit.andThen, Stmt.edited, Outline.edited_edited]
    | loopRange => simp [Edit.at, Edit.andThen, Stmt.edited, Option.toList_map]
    | _ => simp [Edit.at, Edit.andThen, Stmt.edited]
  · cases x
    simp [Edit.at, Edit.andThen, Elif.edited]
  · exact x.edited_edited
  · cases x with
    | slice => simp [Edit.at, Edit.andThen, Expr.edited, Option.toList_map]
    | alien node => simp [Edit.at, Edit.andThen, Expr.edited, Outline.edited_edited]
    | _ => simp [Edit.at, Edit.andThen, Expr.edited]
  · exact x.edited_edited

/-- Edits of the same numbers do the same to the nodes of these numbers. -/
def Edit.Alike (f g : Nat → Edit) (nodes : List Node) : Prop :=
  ∀ i node, nodes[i]? = some node → (f i).node node = (g i).node node

namespace Edit

@[simp] theorem alike_nil : Alike f g [] := fun i node absurd => by simp at absurd

@[simp] theorem alike_cons {node : Node} {nodes : List Node} :
    Alike f g (node :: nodes) ↔
      (f 0).node node = (g 0).node node ∧ Alike (fun i => f (i + 1)) (fun i => g (i + 1)) nodes :=
  ⟨fun alike => ⟨alike 0 node rfl, fun i => alike (i + 1)⟩,
    fun
    | ⟨first, _⟩, 0, _, rfl => first
    | ⟨_, later⟩, i + 1, other, there => later i other there⟩

@[simp] theorem alike_append {before after : List Node} :
    Alike f g (before ++ after) ↔ Alike f g before ∧
      Alike (fun i => f (i + before.length)) (fun i => g (i + before.length)) after := by
  induction before generalizing f g with
  | nil => simp
  | cons node before ih => simp [ih, and_assoc, Nat.add_assoc]

/-- Nodes of one kind, as parts of what is edited with them. -/
theorem alike_map {α : Type} (wrap : α → Node) (apply : Edit → α → α)
    (law : ∀ edit a, edit.node (wrap a) = wrap (apply edit a))
    (inj : ∀ a edit edit', wrap (apply edit a) = wrap (apply edit' a) → apply edit a = apply edit' a)
    {xs : List α} :
    Alike f g (xs.map wrap) ↔ (xs.mapIdx fun i => apply (f i)) = xs.mapIdx fun i => apply (g i) := by
  induction xs generalizing f g with
  | nil => simp
  | cons x xs ih =>
    rw [List.map_cons, alike_cons, ih, law, law, List.mapIdx_cons, List.mapIdx_cons, List.cons.injEq]
    exact and_congr_left' ⟨inj x _ _, congrArg wrap⟩

@[simp] theorem alike_stmts {ss : List Stmt} : Alike f g (ss.map .stmt) ↔
    (ss.mapIdx fun i => (f i).stmt) = ss.mapIdx fun i => (g i).stmt :=
  alike_map .stmt Edit.stmt (fun _ _ => rfl) fun _ _ _ => Node.stmt.inj

@[simp] theorem alike_elifs {es : List Elif} : Alike f g (es.map .elif) ↔
    (es.mapIdx fun i => (f i).elif) = es.mapIdx fun i => (g i).elif :=
  alike_map .elif Edit.elif (fun _ _ => rfl) fun _ _ _ => Node.elif.inj

@[simp] theorem alike_funcs {fs : List Func} : Alike f g (fs.map .func) ↔
    (fs.mapIdx fun i => (f i).func) = fs.mapIdx fun i => (g i).func :=
  alike_map .func Edit.func (fun _ _ => rfl) fun _ _ _ => Node.func.inj

@[simp] theorem alike_exprs {es : List Expr} : Alike f g (es.map .expr) ↔
    (es.mapIdx fun i => (f i).expr) = es.mapIdx fun i => (g i).expr :=
  alike_map .expr Edit.expr (fun _ _ => rfl) fun _ _ _ => Node.expr.inj

@[simp] theorem alike_entries {entries : List (Constant × Expr)} :
    Alike f g (entries.map fun entry => .expr entry.2) ↔
      (entries.mapIdx fun i entry => (entry.1, (f i).expr entry.2)) =
        entries.mapIdx fun i entry => (entry.1, (g i).expr entry.2) :=
  alike_map (fun entry => .expr entry.2) (fun edit entry => (entry.1, edit.expr entry.2)) (fun _ _ => rfl)
    fun entry _ _ same => congrArg (entry.1, ·) (Node.expr.inj same)

theorem alike_outlines {nodes : List Outline} : Alike f g (nodes.map .alien) ↔
    (nodes.mapIdx fun i => (f i).alien) = nodes.mapIdx fun i => (g i).alien :=
  alike_map .alien Edit.alien (fun _ _ => rfl) fun _ _ _ => Node.alien.inj

theorem alike_entry {entries : List Entry} : Alike f g (entries.map (.alien ∘ Entry.node)) ↔
    (entries.mapIdx fun i => Entry.change (f i).alien) = entries.mapIdx fun i => Entry.change (g i).alien :=
  alike_map (.alien ∘ Entry.node) (fun edit => Entry.change edit.alien)
    (fun _ entry => by cases entry; rfl) fun entry _ _ same => by
      cases entry
      exact congrArg (Entry.mk _) (Node.alien.inj same)

end Edit

theorem Field.edited_congr {field : Field} (alike : Edit.Alike f g (field.nodes.map .alien)) :
    field.edited f = field.edited g := by
  cases field with
  | value => rfl
  | child name node => exact congrArg (child name) (Node.alien.inj (Edit.alike_cons.mp alike).1)
  | children name inside => exact congrArg (children name) (Edit.alike_outlines.mp alike)
  | keyed name entries =>
    rw [nodes, List.map_map] at alike
    exact congrArg (keyed name) (Edit.alike_entry.mp alike)

theorem Field.editedAll_congr {fields : List Field}
    (alike : Edit.Alike f g ((fields.flatMap nodes).map .alien)) :
    editedAll f fields = editedAll g fields := by
  induction fields generalizing f g with
  | nil => rfl
  | cons field fields ih =>
    rw [List.flatMap_cons, List.map_append, Edit.alike_append, List.length_map] at alike
    rw [editedAll, editedAll, edited_congr alike.1, ih alike.2]

theorem Outline.edited_congr {node : Outline} (alike : Edit.Alike f g (node.children.map .alien)) :
    node.edited p f = node.edited p g := by
  cases node
  exact congrArg _ (Field.editedAll_congr alike)

theorem Expr.edited_congr {e : Expr} (alike : Edit.Alike f g e.children) :
    e.edited p f = e.edited p g := by
  cases e with
  | slice pos object start stop =>
    cases start <;> cases stop <;> simp_all [children, edited, Edit.node]
  | alien node => exact congrArg _ (Outline.edited_congr alike)
  | _ => simp_all [children, edited, Edit.node]

theorem Func.edited_congr {function : Func} (alike : Edit.Alike f g function.children) :
    function.edited p f = function.edited p g := by
  cases function
  simp_all [children, body, edited]

theorem Elif.edited_congr {e : Elif} (alike : Edit.Alike f g e.children) :
    e.edited p f = e.edited p g := by
  cases e
  simp_all [children, body, test, edited, Edit.node]

theorem Stmt.edited_congr {s : Stmt} (alike : Edit.Alike f g s.children) :
    s.edited p f = s.edited p g := by
  cases s with
  | branch pos test body elifs otherwise =>
    cases otherwise <;> simp_all [children, edited, Edit.node]
  | loopRange pos var start stop step body =>
    cases step <;> simp_all [children, edited, Edit.node]
  | define function => exact congrArg _ (Func.edited_congr alike)
  | give pos value => cases value <;> simp_all [children, edited, Edit.node]
  | alien node => exact congrArg _ (Outline.edited_congr alike)
  | _ => simp_all [children, edited, Edit.node]

/-- An edit of a node goes by what it does to the children that there are. -/
theorem Edit.at_congr {node : Node} (alike : Edit.Alike f g node.children) :
    (Edit.at p f).node node = (Edit.at p g).node node := by
  cases node with
  | program program => simp_all [Node.children, Edit.at, Edit.node, Program.edited]
  | stmt s => exact congrArg Node.stmt (Stmt.edited_congr alike)
  | elif e => exact congrArg Node.elif (Elif.edited_congr alike)
  | func function => exact congrArg Node.func (Func.edited_congr alike)
  | expr e => exact congrArg Node.expr (Expr.edited_congr alike)
  | alien node => exact congrArg Node.alien (Outline.edited_congr alike)

/-- Every node loses its position. -/
def Edit.unplacing : Edit where
  program := Program.unplaced
  stmt := Stmt.unplaced
  elif := Stmt.unplacedElif
  func := Stmt.unplacedFunc
  expr := Expr.unplaced
  alien := Outline.unplaced

theorem Outline.unplacedEntries_eq (entries : List Entry) :
    unplacedEntries entries = entries.map (Entry.change unplaced) := by
  induction entries with
  | nil => rfl
  | cons entry entries ih =>
    obtain ⟨key, node⟩ := entry
    rw [unplacedEntries, ih]
    rfl

theorem Field.edited_unplacing (field : Field) :
    field.edited (fun _ => Edit.unplacing) = Outline.unplacedField field := by
  cases field with
  | keyed name entries =>
    rw [edited, mapIdx_const]
    exact congrArg (keyed name) (Outline.unplacedEntries_eq entries).symm
  | _ => simp [edited, Edit.unplacing, Outline.unplacedField, Outline.unplacedNodes_eq]

theorem Field.editedAll_unplacing (fields : List Field) :
    editedAll (fun _ => Edit.unplacing) fields = Outline.unplacedFields fields := by
  induction fields with
  | nil => rfl
  | cons field fields ih => rw [editedAll, edited_unplacing, ih, Outline.unplacedFields]

theorem Outline.edited_unplacing (node : Outline) :
    node.edited (fun _ => {}) (fun _ => Edit.unplacing) = node.unplaced := by
  cases node
  exact congrArg _ (Field.editedAll_unplacing _)

theorem Func.edited_unplacing (function : Func) :
    function.edited (fun _ => {}) (fun _ => Edit.unplacing) = Stmt.unplacedFunc function := by
  cases function
  simp [edited, Edit.unplacing, Stmt.unplacedFunc, Stmt.unplacedAll_eq_map]

theorem Edit.at_unplacing : Edit.at (fun _ => {}) (fun _ => unplacing) = unplacing := by
  ext x
  · simp [Edit.at, unplacing, Program.edited, Program.unplaced, Stmt.unplacedAll_eq_map]
  · cases x with
    | define function => exact congrArg Stmt.define function.edited_unplacing
    | alien node => exact congrArg Stmt.alien node.edited_unplacing
    | _ => simp [Edit.at, unplacing, Stmt.edited, Stmt.unplaced, Stmt.unplacedAll_eq_map,
        Stmt.unplacedFuncs_eq_map, Stmt.unplacedElifs_eq_map, Stmt.unplacedOption_eq_map,
        Expr.unplacedOption_eq_map]
  · cases x
    simp [Edit.at, unplacing, Elif.edited, Stmt.unplacedElif, Stmt.unplacedAll_eq_map]
  · exact x.edited_unplacing
  · cases x with
    | alien node => exact congrArg Expr.alien node.edited_unplacing
    | _ => simp [Edit.at, unplacing, Expr.edited, Expr.unplaced, Expr.unplacedAll_eq_map,
        Expr.unplacedEntries_eq_map, Expr.unplacedOption_eq_map]
  · exact x.edited_unplacing

/-- An edit that does to every child what it does to the node itself. -/
structure Edit.Uniform (edit : Edit) (place : Pos → Pos) : Prop where
  eq : edit = .at place fun _ => edit

namespace Edit

theorem uniform_id : Uniform {} id := ⟨at_self.symm⟩

theorem uniform_unplacing : Uniform unplacing fun _ => {} := ⟨at_unplacing.symm⟩

variable {edit : Edit}

theorem Uniform.expr (uniform : edit.Uniform p) (e : Expr) : edit.expr e = e.edited p fun _ => edit :=
  congrFun (congrArg Edit.expr uniform.eq) e

theorem Uniform.stmt (uniform : edit.Uniform p) (s : Stmt) : edit.stmt s = s.edited p fun _ => edit :=
  congrFun (congrArg Edit.stmt uniform.eq) s

theorem Uniform.elif (uniform : edit.Uniform p) (e : Elif) : edit.elif e = e.edited p fun _ => edit :=
  congrFun (congrArg Edit.elif uniform.eq) e

end Edit

end Edits

/-! Clearing the nodes that the walk visits. -/

namespace Edit

/-- The paths that go through the child of a number, from there on. -/
def within (i : Nat) (paths : List (List Nat)) : List (List Nat) :=
  paths.filterMap fun
    | [] => none
    | j :: path => if j = i then some path else none

/-- A node is cleared if its path is among those to be cleared, and a child by the paths through it. -/
theorem clearingAll_eq (paths : List (List Nat)) : clearingAll paths =
    .at (if [] ∈ paths then fun _ => {} else id) fun i => clearingAll (within i paths) := by
  induction paths with
  | nil => exact at_self.symm
  | cons path paths ih =>
    rw [clearingAll, ih]
    cases path with
    | nil =>
      rw [clearing, at_andThen]
      refine congr (congrArg Edit.at ?_) rfl
      rw [if_pos (List.mem_cons_self ..)]
      split <;> rfl
    | cons j path =>
      rw [clearing, at_andThen]
      refine congr (congrArg Edit.at ?_) (funext fun i => ?_)
      · simp
      · by_cases same : i = j
        · subst same
          simp [within, clearingAll]
        · simp [within, same, Ne.symm same, andThen]

theorem within_map_cons (i k : Nat) (paths : List (List Nat)) :
    within i (paths.map (k :: ·)) = if k = i then paths else [] := by
  rw [within, List.filterMap_map, Function.comp_def]
  split
  · next same => simp [same]
  · next other => simp [other]

theorem within_pathsFrom_of_lt {i k : Nat} (before : i < k) (nodes : List Node) :
    within i (Node.pathsFrom k nodes) = [] := by
  induction nodes generalizing k with
  | nil => rfl
  | cons node nodes ih =>
    rw [Node.pathsFrom, within, List.filterMap_append, ← within, ← within, within_map_cons,
      if_neg (by omega), ih (by omega), List.append_nil]

theorem within_pathsFrom {i : Nat} {node : Node} {nodes : List Node} (there : nodes[i]? = some node)
    (k : Nat) : within (i + k) (Node.pathsFrom k nodes) = node.paths := by
  induction nodes generalizing i k with
  | nil => cases there
  | cons first nodes ih =>
    rw [Node.pathsFrom, within, List.filterMap_append, ← within, ← within, within_map_cons]
    cases i with
    | zero =>
      cases there
      rw [Nat.zero_add, if_pos rfl, within_pathsFrom_of_lt (Nat.lt_succ_self k), List.append_nil]
    | succ i =>
      rw [if_neg (by omega), List.nil_append, Nat.succ_add_eq_add_succ]
      exact ih there (k + 1)

/-- Clearing the nodes that the walk visits, one after the other, takes every position away. -/
theorem clearingAll_paths (node : Node) : (clearingAll node.paths).node node = unplacing.node node := by
  induction node using Node.counts.induct with
  | step node ih =>
    rw [clearingAll_eq, node.paths_eq, if_pos (List.mem_cons_self ..), ← at_unplacing]
    refine at_congr fun i child there => ?_
    have through : within i ([] :: Node.pathsFrom 0 node.children) = child.paths :=
      within_pathsFrom there 0
    rw [through]
    exact ih child (List.mem_of_getElem? there)

end Edit

theorem Program.stripped_eq (program : Program) : program.stripped = program.unplaced :=
  Node.program.inj (Edit.clearingAll_paths (.program program))

/-! What is inside a program. -/

namespace Node

/-- Conditions on the expressions and the statements, at this node alone. -/
def Meets (onExpr : Expr → Prop) (onStmt : Stmt → Prop) : Node → Prop
  | .expr e => onExpr e
  | .stmt s => onStmt s
  | .program _ | .elif _ | .func _ | .alien _ => True

def Every (onExpr : Expr → Prop) (onStmt : Stmt → Prop) : Node → Prop
  | .expr e => e.Every onExpr
  | .stmt s => s.Every onExpr onStmt
  | .elif e => e.Every onExpr onStmt
  | .func f => f.Every onExpr onStmt
  | .program p => p.Every onExpr onStmt
  | .alien _ => True

variable {onExpr : Expr → Prop} {onStmt : Stmt → Prop}

@[simp] theorem every_expr {e : Expr} : (expr e).Every onExpr onStmt ↔ e.Every onExpr := .rfl

@[simp] theorem every_stmt {s : Stmt} : (stmt s).Every onExpr onStmt ↔ s.Every onExpr onStmt := .rfl

@[simp] theorem every_elif {e : Elif} : (elif e).Every onExpr onStmt ↔ e.Every onExpr onStmt := .rfl

@[simp] theorem every_func {f : Func} : (func f).Every onExpr onStmt ↔ f.Every onExpr onStmt := .rfl

@[simp] theorem every_alien (o : Outline) : (alien o).Every onExpr onStmt := trivial

theorem everyBound_iff (e : Option Expr) :
    Expr.EveryBound onExpr e ↔ ∀ x, e = some x → x.Every onExpr := by
  cases e <;> simp [Expr.EveryBound]

theorem everyElif_iff (es : List Elif) :
    Stmt.EveryElif onExpr onStmt es ↔ ∀ e ∈ es, e.Every onExpr onStmt := by
  induction es with
  | nil => simp [Stmt.EveryElif]
  | cons e es ih => simp [Stmt.EveryElif, ih]

theorem everyOtherwise_iff (body : Option (List Stmt)) :
    Stmt.EveryOtherwise onExpr onStmt body ↔ ∀ s ∈ body.getD [], s.Every onExpr onStmt := by
  cases body <;> simp [Stmt.EveryOtherwise, Stmt.everyIn_iff]

theorem expr_every_iff (e : Expr) : e.Every onExpr ↔
    onExpr e ∧ ∀ child ∈ e.children, child.Every onExpr onStmt := by
  cases e with
  | record pos entries =>
    rw [Expr.Every, Expr.everyEntry_iff, Expr.children, List.forall_mem_map]
    rfl
  | _ => simp [Expr.children, Expr.Every, Expr.everyIn_iff, everyBound_iff, or_imp, forall_and]

theorem func_every_iff (f : Func) : f.Every onExpr onStmt ↔
    ∀ child ∈ f.children, child.Every onExpr onStmt := by
  simp [Func.children, Func.every_iff, Stmt.everyIn_iff]

theorem stmt_every_iff (s : Stmt) : s.Every onExpr onStmt ↔
    onStmt s ∧ ∀ child ∈ s.children, child.Every onExpr onStmt := by
  cases s <;> simp [Stmt.children, Stmt.Every, Stmt.everyIn_iff, Func.everyIn_iff, func_every_iff,
    everyBound_iff, everyElif_iff, everyOtherwise_iff, or_imp, forall_and]

/-- Conditions hold throughout a tree if they hold at its root and throughout what is under it. -/
theorem every_iff (node : Node) : node.Every onExpr onStmt ↔
    node.Meets onExpr onStmt ∧ ∀ child ∈ node.children, child.Every onExpr onStmt := by
  cases node with
  | expr e => exact expr_every_iff e
  | stmt s => exact stmt_every_iff s
  | elif e =>
    cases e
    simp [Meets, children, Elif.children, Elif.Every, Stmt.everyIn_iff, Elif.test, Elif.body]
  | func f => simp [Meets, children, func_every_iff f]
  | program p => simp [Every, Meets, children, Program.Every, Stmt.everyIn_iff]
  | alien o => simp [Meets, children]

/-- What holds throughout a tree is what holds at every node of the walk. -/
theorem every_iff_walk (node : Node) :
    node.Every onExpr onStmt ↔ ∀ found ∈ node.walk, found.Meets onExpr onStmt := by
  induction node using counts.induct with
  | step node ih =>
    rw [every_iff, walk_eq, List.forall_mem_cons]
    refine and_congr_right' ?_
    rw [List.forall_mem_flatMap]
    exact forall₂_congr ih

/-- The walk through a tree is the recursive traversal, and it finds what there is along every path, once
each and in lexicographic order; its outlines are those that the walk through the outline finds, and in a
program it finds every statement and every expression. A program of which the nodes on the walk were
cleared is the program without positions: the walk finds none, along every path there is a node that shows
what it showed before, and the outline of this program alone is so. -/
theorem walk_exact (node : Node) (program : Program) :
    node.walk = node :: node.children.flatMap walk ∧
      (∀ waiting fuel, (waiting.map size).sum ≤ fuel →
        walkFrom children fuel waiting = waiting.flatMap walk) ∧
      node.Visits node.paths ∧
      node.walk.map outline = node.outline.walk ∧
      (∀ onExpr onStmt, program.Every onExpr onStmt ↔
        (∀ e, expr e ∈ (Node.program program).walk → onExpr e) ∧
          ∀ s, stmt s ∈ (Node.program program).walk → onStmt s) ∧
      program.stripped = program.unplaced ∧
      (∀ found ∈ (Node.program program.stripped).walk, found.pos = {}) ∧
      ∀ other, program.outline.Displaces other ↔ other = program.stripped.outline := by
  refine ⟨walk_eq node, fun waiting fuel => walkFrom_enough counts, visits_paths node, walk_outline node,
    fun onExpr onStmt => ?_, program.stripped_eq, fun found inside => ?_, fun other => ?_⟩
  · refine (every_iff_walk (.program program)).trans ⟨fun meets => ?_, fun meets found inside => ?_⟩
    · exact ⟨fun e => meets (.expr e), fun s => meets (.stmt s)⟩
    · cases found with
      | expr e => exact meets.1 e inside
      | stmt s => exact meets.2 s inside
      | _ => trivial
  · have shown : found.outline ∈ program.outline.unplaced.walk := by
      rw [← program.outline_unplaced, ← program.stripped_eq]
      exact walk_outline (.program program.stripped) ▸ List.mem_map_of_mem inside
    rw [← pos_outline]
    exact Outline.pos_of_mem_walk_unplaced _ shown
  · rw [program.stripped_eq, program.outline_unplaced]
    exact Outline.displaces_iff

end Node

end Stepwise
