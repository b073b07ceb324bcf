import Stepwise.Tree.Outline
import Stepwise.Tree.Unplaced
import Stepwise.Tree.View
import Mathlib.Algebra.GroupWithZero.Nat

/-!
Walking through a tree, and outlines without positions.

The walk goes by a list of nodes that wait; what it still has to visit is what the recursive traversals of
these nodes visit (`walkFrom_enough`). This holds of nodes of any kind of which each has one more node than
there are under its children.

What a node of an outline shows of itself, its face, and the nodes that are found along the paths are all
there is to an outline (`ext_of_faces`). So the outline without positions is the only one that shows the
same faces along the same paths and has no position anywhere (`displaces_iff`).
-/
namespace Stepwise

section Walk

variable {α : Type} {children : α → List α} {size : α → Nat}

/-- A size that counts the nodes: one more than there are under the children. -/
def Counts (children : α → List α) (size : α → Nat) : Prop :=
  ∀ node, size node = ((children node).map size).sum + 1

theorem Counts.lt_of_child (counts : Counts children size) {child node : α}
    (inside : child ∈ children node) : size child < size node := by
  obtain ⟨before, after, siblings⟩ := List.append_of_mem inside
  rw [counts node, siblings, List.map_append, List.sum_append, List.map_cons, List.sum_cons]
  omega

/-- What follows for a node from its children holds of all nodes. -/
theorem Counts.induct (counts : Counts children size) {P : α → Prop}
    (step : ∀ node, (∀ child ∈ children node, P child) → P node) (node : α) : P node :=
  step node fun child inside =>
    have := counts.lt_of_child inside
    counts.induct step child
termination_by size node

@[simp] theorem walkFrom_nil (fuel : Nat) : walkFrom children fuel [] = [] := by
  cases fuel <;> rfl

/-- Nodes that wait longer are visited after everything under those in front of them. -/
theorem walkFrom_append (counts : Counts children size) (xs ys : List α) (fuel : Nat) :
    walkFrom children ((xs.map size).sum + fuel) (xs ++ ys) =
      walkFrom children (xs.map size).sum xs ++ walkFrom children fuel ys := by
  -- a visit puts the children in front of the nodes that wait, and these are one node less
  induction total : (xs.map size).sum using Nat.strongRecOn generalizing xs with
  | ind n ih =>
    cases xs with
    | nil =>
      subst total
      simp
    | cons node rest =>
      have visited : n = ((children node ++ rest).map size).sum + 1 := by
        rw [← total, List.map_cons, List.sum_cons, List.map_append, List.sum_append, counts node]
        omega
      subst visited
      rw [Nat.add_right_comm, List.cons_append, walkFrom, walkFrom, ← List.append_assoc,
        ih _ (Nat.lt_succ_self _) (children node ++ rest) rfl, List.cons_append]

theorem walkFrom_size (counts : Counts children size) (nodes : List α) :
    walkFrom children (nodes.map size).sum nodes =
      nodes.flatMap fun node => walkFrom children (size node) [node] := by
  induction nodes with
  | nil => rfl
  | cons node nodes ih =>
    have apart := walkFrom_append counts [node] nodes (nodes.map size).sum
    rwa [ih, List.map_singleton, List.sum_singleton] at apart

/-- What is still to be visited is what the recursive traversals of the waiting nodes visit; visits that
are left over are not made. -/
theorem walkFrom_enough (counts : Counts children size) {nodes : List α} {fuel : Nat}
    (enough : (nodes.map size).sum ≤ fuel) :
    walkFrom children fuel nodes = nodes.flatMap fun node => walkFrom children (size node) [node] := by
  obtain ⟨more, rfl⟩ := Nat.exists_eq_add_of_le enough
  have apart := walkFrom_append counts nodes [] more
  rwa [List.append_nil, walkFrom_nil, List.append_nil, walkFrom_size counts] at apart

/-- The walk is the recursive traversal: the node, then what is under each of its children. -/
theorem walkFrom_singleton (counts : Counts children size) (node : α) :
    walkFrom children (size node) [node] =
      node :: (children node).flatMap fun child => walkFrom children (size child) [child] := by
  rw [counts node, walkFrom, List.append_nil, walkFrom_size counts]

/-- Two trees of one form are walked through in step. -/
theorem map_walkFrom {β : Type} {children' : β → List β} {f : α → β}
    (alike : ∀ node, (children node).map f = children' (f node)) (fuel : Nat) (nodes : List α) :
    (walkFrom children fuel nodes).map f = walkFrom children' fuel (nodes.map f) := by
  induction fuel generalizing nodes with
  | zero => rfl
  | succ fuel ih =>
    cases nodes with
    | nil => rfl
    | cons node waiting => rw [walkFrom, List.map_cons, ih, List.map_append, alike, List.map_cons, walkFrom]

end Walk

namespace Outline

@[simp] theorem sizeNodes_nil : sizeNodes [] = 0 := rfl

@[simp] theorem sizeNodes_cons (node : Outline) (nodes : List Outline) :
    sizeNodes (node :: nodes) = node.size + sizeNodes nodes := rfl

@[simp] theorem sizeNodes_append (xs ys : List Outline) :
    sizeNodes (xs ++ ys) = sizeNodes xs + sizeNodes ys := by
  induction xs with
  | nil => simp
  | cons node xs ih => rw [List.cons_append, sizeNodes_cons, sizeNodes_cons, ih, Nat.add_assoc]

theorem sizeNodes_eq (nodes : List Outline) : sizeNodes nodes = (nodes.map size).sum := by
  induction nodes with
  | nil => rfl
  | cons node nodes ih => rw [sizeNodes_cons, ih, List.map_cons, List.sum_cons]

theorem sizeEntries_eq (entries : List Entry) :
    sizeEntries entries = sizeNodes (entries.map Entry.node) := by
  induction entries with
  | nil => rfl
  | cons entry entries ih =>
    obtain ⟨key, node⟩ := entry
    rw [sizeEntries, ih, List.map_cons, sizeNodes_cons]
    rfl

theorem sizeField_eq (field : Field) : sizeField field = sizeNodes field.nodes := by
  cases field with
  | value | child | children => rfl
  | keyed _ entries => exact sizeEntries_eq entries

theorem sizeFields_eq (fields : List Field) :
    sizeFields fields = sizeNodes (fields.flatMap Field.nodes) := by
  induction fields with
  | nil => rfl
  | cons field fields ih => rw [sizeFields, ih, sizeField_eq, List.flatMap_cons, sizeNodes_append]

/-- A node is one more than what is under it. -/
theorem size_eq (node : Outline) : node.size = sizeNodes node.children + 1 := by
  obtain ⟨label, pos, text, fields⟩ := node
  rw [size, sizeFields_eq]
  rfl

theorem counts : Counts children size := fun node => by rw [size_eq, sizeNodes_eq]

/-- The walk is the recursive traversal. -/
theorem walk_eq (node : Outline) : node.walk = node :: node.children.flatMap walk :=
  walkFrom_singleton counts node

/-- The node that is found by going down to the child of each number in turn. -/
def at? : List Nat → Outline → Option Outline
  | [], node => some node
  | i :: path, node => node.children[i]?.bind (at? path)

end Outline

def Entry.key : Entry → Spelled
  | .mk key _ => key

namespace Field

/-- What a field shows without the nodes in it. -/
inductive Frame where
  | value (name : String) (value : Spelled)
  | child (name : String)
  | children (name : String) (count : Nat)
  | keyed (name : String) (keys : List Spelled)

def frame : Field → Frame
  | .value name v => .value name v
  | .child name _ => .child name
  | .children name inside => .children name inside.length
  | .keyed name entries => .keyed name (entries.map Entry.key)

theorem entries_ext {xs ys : List Entry} (keys : xs.map Entry.key = ys.map Entry.key)
    (inside : xs.map Entry.node = ys.map Entry.node) : xs = ys := by
  induction xs generalizing ys with
  | nil => exact (List.map_eq_nil_iff.mp inside.symm).symm
  | cons x xs ih =>
    cases ys with
    | nil => cases inside
    | cons y ys =>
      obtain ⟨key, node⟩ := x
      obtain ⟨key', node'⟩ := y
      simp only [List.map_cons, List.cons.injEq, Entry.key, Entry.node] at keys inside
      rw [keys.1, inside.1, ih keys.2 inside.2]

variable {f g : Field}

theorem length_nodes (same : f.frame = g.frame) : f.nodes.length = g.nodes.length := by
  cases f <;> cases g <;> simp only [frame, reduceCtorEq, Frame.children.injEq, Frame.keyed.injEq] at same
  case value | child => rfl
  case children => exact same.2
  case keyed => simpa [nodes] using congrArg List.length same.2

theorem ext_of_frame (same : f.frame = g.frame) (inside : f.nodes = g.nodes) : f = g := by
  cases f <;> cases g <;> simp only [frame, reduceCtorEq, Frame.value.injEq, Frame.child.injEq,
    Frame.children.injEq, Frame.keyed.injEq] at same
  case value => rw [same.1, same.2]
  case child =>
    cases inside
    rw [same]
  case children =>
    cases inside
    rw [same.1]
  case keyed => rw [same.1, entries_ext same.2 inside]

end Field

namespace Outline

/-- What a node shows of itself, apart from its position and from the nodes under it. -/
structure Face where
  label : String
  text : String
  frames : List Field.Frame

def face (node : Outline) : Face := ⟨node.label, node.text, node.fields.map Field.frame⟩

theorem fields_ext {xs ys : List Field} (frames : xs.map Field.frame = ys.map Field.frame)
    (inside : xs.flatMap Field.nodes = ys.flatMap Field.nodes) : xs = ys := by
  induction xs generalizing ys with
  | nil => exact (List.map_eq_nil_iff.mp frames.symm).symm
  | cons x xs ih =>
    cases ys with
    | nil => cases frames
    | cons y ys =>
      obtain ⟨first, others⟩ := List.cons.inj frames
      obtain ⟨here, later⟩ := List.append_inj inside (Field.length_nodes first)
      rw [Field.ext_of_frame first here, ih others later]

/-- A node is its face, its position and its children. -/
theorem ext_of_children {a b : Outline} (face : a.face = b.face) (pos : a.pos = b.pos)
    (children : a.children = b.children) : a = b := by
  obtain ⟨label, p, text, fields⟩ := a
  obtain ⟨label', p', text', fields'⟩ := b
  obtain ⟨labels, texts, frames⟩ := Face.mk.inj face
  exact congr (congr (congr (congrArg mk labels) pos) texts) (fields_ext frames children)

/-- Outlines with the same faces and positions along all paths are equal. -/
theorem ext_of_faces {a b : Outline}
    (faces : ∀ path, (a.at? path).map face = (b.at? path).map face)
    (positions : ∀ path, (a.at? path).map pos = (b.at? path).map pos) : a = b := by
  induction a using counts.induct generalizing b with
  | step a ih =>
    refine ext_of_children (Option.some.inj (faces [])) (Option.some.inj (positions []))
      (List.ext_getElem? fun i => ?_)
    have below (path : List Nat) : ((a.children[i]?.bind (at? path)).map face =
          (b.children[i]?.bind (at? path)).map face) ∧
        (a.children[i]?.bind (at? path)).map pos = (b.children[i]?.bind (at? path)).map pos :=
      ⟨faces (i :: path), positions (i :: path)⟩
    cases first : a.children[i]? with
    | none =>
      have ends := (below []).1
      rw [first] at ends
      cases second : b.children[i]? with
      | none => rfl
      | some d => simp [second, at?] at ends
    | some c =>
      have ends := (below []).1
      rw [first] at ends
      cases second : b.children[i]? with
      | none => simp [second, at?] at ends
      | some d =>
        rw [first, second] at below
        rw [ih c (List.mem_of_getElem? first) (fun path => (below path).1) fun path => (below path).2]

/-! Taking the positions away. -/

theorem unplacedNodes_eq (nodes : List Outline) : unplacedNodes nodes = nodes.map unplaced := by
  induction nodes with
  | nil => rfl
  | cons node nodes ih => rw [unplacedNodes, ih, List.map_cons]

theorem nodes_unplacedEntries (entries : List Entry) :
    (unplacedEntries entries).map Entry.node = (entries.map Entry.node).map unplaced := by
  induction entries with
  | nil => rfl
  | cons entry entries ih =>
    obtain ⟨key, node⟩ := entry
    rw [unplacedEntries, List.map_cons, ih]
    rfl

theorem keys_unplacedEntries (entries : List Entry) :
    (unplacedEntries entries).map Entry.key = entries.map Entry.key := by
  induction entries with
  | nil => rfl
  | cons entry entries ih =>
    obtain ⟨key, node⟩ := entry
    rw [unplacedEntries, List.map_cons, ih]
    rfl

theorem nodes_unplacedField (field : Field) : (unplacedField field).nodes = field.nodes.map unplaced := by
  cases field with
  | value | child => rfl
  | children _ nodes => exact unplacedNodes_eq nodes
  | keyed _ entries => exact nodes_unplacedEntries entries

theorem frame_unplacedField (field : Field) : (unplacedField field).frame = field.frame := by
  cases field with
  | value | child => rfl
  | children name nodes =>
    refine congrArg (Field.Frame.children name) ?_
    rw [unplacedNodes_eq, List.length_map]
  | keyed name entries => exact congrArg (Field.Frame.keyed name) (keys_unplacedEntries entries)

theorem unplacedFields_eq (fields : List Field) : unplacedFields fields = fields.map unplacedField := by
  induction fields with
  | nil => rfl
  | cons field fields ih => rw [unplacedFields, ih, List.map_cons]

@[simp] theorem pos_unplaced (node : Outline) : node.unplaced.pos = {} := by
  cases node
  rfl

@[simp] theorem text_unplaced (node : Outline) : node.unplaced.text = node.text := by
  cases node
  rfl

@[simp] theorem face_unplaced (node : Outline) : node.unplaced.face = node.face := by
  obtain ⟨label, pos, text, fields⟩ := node
  refine congrArg (Face.mk label text) ?_
  change (unplacedFields fields).map Field.frame = fields.map Field.frame
  rw [unplacedFields_eq, List.map_map]
  exact List.map_congr_left fun field _ => frame_unplacedField field

@[simp] theorem children_unplaced (node : Outline) : node.unplaced.children = node.children.map unplaced := by
  obtain ⟨label, pos, text, fields⟩ := node
  change (unplacedFields fields).flatMap Field.nodes = (fields.flatMap Field.nodes).map unplaced
  rw [unplacedFields_eq, List.flatMap_map, List.map_flatMap]
  exact congrArg (List.flatMap · fields) (funext nodes_unplacedField)

theorem pos_of_mem_walk_unplaced {found : Outline} (node : Outline) (inside : found ∈ node.unplaced.walk) :
    found.pos = {} := by
  induction node using counts.induct with
  | step node ih =>
    rw [walk_eq, List.mem_cons, children_unplaced, List.flatMap_map, List.mem_flatMap] at inside
    obtain rfl | ⟨child, below, inside⟩ := inside
    · exact pos_unplaced node
    · exact ih child below inside

theorem at?_unplaced (path : List Nat) (node : Outline) :
    node.unplaced.at? path = (node.at? path).map unplaced := by
  induction path generalizing node with
  | nil => rfl
  | cons i path ih =>
    rw [at?, at?, children_unplaced, List.getElem?_map]
    cases node.children[i]? with
    | none => rfl
    | some child => exact ih child

/-- The same faces along the same paths, and no positions. -/
structure Displaces (node other : Outline) : Prop where
  faces : ∀ path, (other.at? path).map face = (node.at? path).map face
  nowhere : ∀ path found, other.at? path = some found → found.pos = {}

theorem displaces_unplaced (node : Outline) : node.Displaces node.unplaced where
  faces path := by
    rw [at?_unplaced, Option.map_map]
    exact congrArg (Option.map · _) (funext face_unplaced)
  nowhere path found there := by
    rw [at?_unplaced] at there
    obtain ⟨old, -, rfl⟩ := Option.map_eq_some_iff.mp there
    exact pos_unplaced old

/-- Only one outline differs in the positions alone and has none. -/
theorem displaces_iff {node other : Outline} : node.Displaces other ↔ other = node.unplaced := by
  constructor
  · intro displaces
    have faces : ∀ path, (other.at? path).map face = (node.unplaced.at? path).map face := fun path =>
      (displaces.faces path).trans ((displaces_unplaced node).faces path).symm
    refine ext_of_faces faces fun path => ?_
    have there := faces path
    cases first : other.at? path with
    | none =>
      rw [first] at there
      rw [Option.map_eq_none_iff.mp there.symm]
    | some found =>
      rw [first] at there
      obtain ⟨found', second, -⟩ := Option.map_eq_some_iff.mp there.symm
      rw [second, Option.map_some, Option.map_some, displaces.nowhere path found first,
        (displaces_unplaced node).nowhere path found' second]
  · rintro rfl
    exact displaces_unplaced node

@[simp] theorem unplacedField_list (name : String) (nodes : List Outline) :
    unplacedField (Field.list name nodes) = Field.list name (nodes.map unplaced) := by
  cases nodes with
  | nil => rfl
  | cons node nodes => exact congrArg (Field.children name) (unplacedNodes_eq _)

end Outline

/-! Syntax trees. -/

section

open Outline

@[simp] theorem Outline.unplaced_mk (label : String) (pos : Pos) (text : String) (fields : List Field) :
    (Outline.mk label pos text fields).unplaced = .mk label {} text (fields.map unplacedField) :=
  congrArg _ (unplacedFields_eq fields)

@[simp] theorem Outline.unplacedField_value (name : String) (v : Spelled) :
    unplacedField (.value name v) = .value name v := rfl

@[simp] theorem Outline.unplacedField_child (name : String) (node : Outline) :
    unplacedField (.child name node) = .child name node.unplaced := rfl

@[simp] theorem Outline.unplacedField_optional (name : String) (node : Option Outline) :
    unplacedField (Field.optional name node) = Field.optional name (node.map unplaced) := by
  cases node <;> rfl

@[simp] theorem Outline.optionalText_unplaced (node : Option Outline) :
    optionalText (node.map unplaced) = optionalText node := by
  cases node with
  | none => rfl
  | some node => exact text_unplaced node

@[simp] theorem Outline.listText_unplaced (nodes : List Outline) :
    listText (nodes.map unplaced) = listText nodes := by
  simp [listText, Function.comp_def]

namespace Expr

mutual

theorem outline_unplaced : ∀ e : Expr, e.unplaced.outline = e.outline.unplaced
  | .literal _ _ _ | .var _ _ => by simp [Expr.unplaced, outline, Field.named]
  | .binary _ _ left right => by
    simp [Expr.unplaced, outline, Field.named, outline_unplaced left, outline_unplaced right]
  | .unary _ _ operand => by
    simp [Expr.unplaced, outline, Field.named, outline_unplaced operand]
  | .call _ _ args | .new _ _ args => by
    simp [Expr.unplaced, outline, Field.named, outlines_unplaced args]
  | .invoke _ object _ args => by
    simp [Expr.unplaced, outline, Field.named, outline_unplaced object, outlines_unplaced args]
  | .list _ elements => by
    simp [Expr.unplaced, outline, outlines_unplaced elements]
  | .record _ [] => rfl
  | .record _ (entry :: entries) => by
    have later := outlineEntries_unplaced (entry :: entries)
    simp only [Expr.unplaced, outline, later, Outline.unplaced_mk]
    simp [Expr.unplacedEntries_eq_map, Outline.unplacedField, Function.comp_def]
  | .index _ object position => by
    simp [Expr.unplaced, outline, outline_unplaced object, outline_unplaced position]
  | .slice _ object start stop => by
    simp [Expr.unplaced, outline, outline_unplaced object, outlineOption_unplaced start,
      outlineOption_unplaced stop]
  | .member _ object _ => by
    simp [Expr.unplaced, outline, Field.named, outline_unplaced object]
  | .alien node => rfl

theorem outlines_unplaced : ∀ es : List Expr,
    outlines (Expr.unplacedAll es) = (outlines es).map Outline.unplaced
  | [] => rfl
  | e :: es => congr (congrArg List.cons (outline_unplaced e)) (outlines_unplaced es)

theorem outlineOption_unplaced : ∀ e : Option Expr,
    outlineOption (Expr.unplacedOption e) = (outlineOption e).map Outline.unplaced
  | none => rfl
  | some e => congrArg some (outline_unplaced e)

theorem outlineEntries_unplaced : ∀ entries : List (Constant × Expr),
    outlineEntries (Expr.unplacedEntries entries) = Outline.unplacedEntries (outlineEntries entries)
  | [] => rfl
  | (key, e) :: entries =>
    congr (congrArg (fun node => List.cons (Entry.mk key.spelled node)) (outline_unplaced e))
      (outlineEntries_unplaced entries)

end

end Expr

namespace Stmt

@[simp] theorem length_unplacedAll (ss : List Stmt) : (unplacedAll ss).length = ss.length := by
  rw [unplacedAll_eq_map, List.length_map]

@[simp] theorem name_unplacedFuncs (fs : List Func) :
    (unplacedFuncs fs).map Func.name = fs.map Func.name := by
  rw [unplacedFuncs_eq_map, List.map_map]
  exact List.map_congr_left fun | .mk _ _ _ _, _ => rfl

mutual

theorem outline_unplaced : ∀ s : Stmt, s.unplaced.outline = s.outline.unplaced
  | .expr _ value => by simp [Stmt.unplaced, outline, value.outline_unplaced]
  | .assign _ _ value | .update _ _ _ value => by
    simp [Stmt.unplaced, outline, Field.named, value.outline_unplaced]
  | .setIndex _ object position value => by
    simp [Stmt.unplaced, outline, object.outline_unplaced, position.outline_unplaced,
      value.outline_unplaced]
  | .setMember _ object _ value => by
    simp [Stmt.unplaced, outline, Field.named, object.outline_unplaced, value.outline_unplaced]
  | .branch _ test body elifs otherwise => by
    have other := outlineOtherwise_unplaced otherwise
    rcases otherwise with _ | _ | ⟨s, ss⟩
    all_goals
      simp [Stmt.unplaced, outline, test.outline_unplaced, outlines_unplaced body,
        outlineElifs_unplaced elifs, unplacedOption, unplacedAll]
      exact other
  | .loopTimes _ count body | .loopWhile _ count body => by
    simp [Stmt.unplaced, outline, count.outline_unplaced, outlines_unplaced body]
  | .loopRange _ _ start stop none body => by
    simp [Stmt.unplaced, outline, Field.named, start.outline_unplaced, stop.outline_unplaced,
      Expr.unplacedOption, Field.optional, outlines_unplaced body]
  | .loopRange _ _ start stop (some step) body => by
    simp [Stmt.unplaced, outline, Field.named, start.outline_unplaced, stop.outline_unplaced,
      Expr.unplacedOption, Field.optional, optionalText, step.outline_unplaced, outlines_unplaced body]
  | .loopEach _ _ items body => by
    simp [Stmt.unplaced, outline, Field.named, items.outline_unplaced, outlines_unplaced body]
  | .leave _ | .again _ | .pass _ => rfl
  | .define f => outlineFunc_unplaced f
  | .defineClass _ _ methods => by
    simp [Stmt.unplaced, outline, Field.named, outlineFuncs_unplaced methods]
  | .give _ none => rfl
  | .give _ (some value) => by
    simp [Stmt.unplaced, outline, Expr.unplacedOption, Field.optional, optionalText,
      value.outline_unplaced]
  | .alien node => rfl

theorem outlines_unplaced : ∀ ss : List Stmt,
    outlines (Stmt.unplacedAll ss) = (outlines ss).map Outline.unplaced
  | [] => rfl
  | s :: ss => congr (congrArg List.cons (outline_unplaced s)) (outlines_unplaced ss)

theorem outlineOtherwise_unplaced : ∀ body : Option (List Stmt),
    outlineOtherwise (Stmt.unplacedOption body) = unplacedField (outlineOtherwise body)
  | none => rfl
  | some body => by
    simp [Stmt.unplacedOption, outlineOtherwise, outlines_unplaced body]

theorem outlineElif_unplaced : ∀ e : Elif, outlineElif (Stmt.unplacedElif e) = (outlineElif e).unplaced
  | .mk _ test body => by
    simp [Stmt.unplacedElif, outlineElif, test.outline_unplaced, outlines_unplaced body]

theorem outlineElifs_unplaced : ∀ es : List Elif,
    outlineElifs (Stmt.unplacedElifs es) = (outlineElifs es).map Outline.unplaced
  | [] => rfl
  | e :: es => congr (congrArg List.cons (outlineElif_unplaced e)) (outlineElifs_unplaced es)

theorem outlineFunc_unplaced : ∀ f : Func, outlineFunc (Stmt.unplacedFunc f) = (outlineFunc f).unplaced
  | .mk _ _ _ body => by
    simp [Stmt.unplacedFunc, outlineFunc, Field.named, outlines_unplaced body]

theorem outlineFuncs_unplaced : ∀ fs : List Func,
    outlineFuncs (Stmt.unplacedFuncs fs) = (outlineFuncs fs).map Outline.unplaced
  | [] => rfl
  | f :: fs => congr (congrArg List.cons (outlineFunc_unplaced f)) (outlineFuncs_unplaced fs)

end

end Stmt

theorem Program.outline_unplaced (program : Program) :
    program.unplaced.outline = program.outline.unplaced := by
  simp [Program.unplaced, Program.outline, Stmt.outlines_unplaced program.body]

end

end Stepwise
