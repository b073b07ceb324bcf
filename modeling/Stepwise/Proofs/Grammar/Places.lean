import Mathlib.Tactic.Choose
import Stepwise.Proofs.Grammar.Expressions

/-!
The grammar looks at the kinds and the literals of tokens only: an expression stays one, with the
same tree, when its tokens stand at other places.
-/
namespace Stepwise

/-- A token without its place. -/
def Token.bare (t : Token) : Token.Kind × Constant := (t.kind, t.literal)

/-- The same tokens up to their places. -/
def SameWords (v w : List Token) : Prop := v.map Token.bare = w.map Token.bare

namespace SameWords

variable {u v w : List Token} {s t : Token}

theorem refl (v : List Token) : SameWords v v := rfl

theorem symm (same : SameWords v w) : SameWords w v := Eq.symm same

theorem trans (same : SameWords u v) (same' : SameWords v w) : SameWords u w := Eq.trans same same'

theorem append {u' : List Token} (same : SameWords u v) (same' : SameWords u' w) :
    SameWords (u ++ u') (v ++ w) := by
  unfold SameWords at *
  rw [List.map_append, List.map_append, same, same']

theorem length (same : SameWords v w) : v.length = w.length := by
  have := congrArg List.length same
  simpa using this

theorem nil_left (same : SameWords [] w) : w = [] := by
  simpa [SameWords] using same.symm

theorem cons_left (same : SameWords (t :: v) w) :
    ∃ s u, w = s :: u ∧ s.kind = t.kind ∧ s.literal = t.literal ∧ SameWords v u := by
  obtain ⟨s, u, rfl, head, tail⟩ := List.map_eq_cons_iff.mp (show w.map Token.bare = _ from same.symm)
  obtain ⟨kind, literal⟩ := Prod.mk.inj head
  exact ⟨s, u, rfl, kind, literal, tail.symm⟩

theorem append_left (same : SameWords (u ++ v) w) :
    ∃ x y, w = x ++ y ∧ SameWords u x ∧ SameWords v y := by
  have split : w.map Token.bare = u.map Token.bare ++ v.map Token.bare := by
    rw [← List.map_append]
    exact same.symm
  obtain ⟨x, y, rfl, first, second⟩ := List.map_eq_append_iff.mp split
  exact ⟨x, y, rfl, first.symm, second.symm⟩

theorem single_left (same : SameWords [t] w) :
    ∃ s, w = [s] ∧ s.kind = t.kind ∧ s.literal = t.literal := by
  obtain ⟨s, u, rfl, kind, literal, rest⟩ := same.cons_left
  rw [rest.nil_left]
  exact ⟨s, rfl, kind, literal⟩

end SameWords

namespace Grammar

theorem Bracketed.relocate {opening closing : Token.Kind} {l r l' r' : Token}
    (pair : Bracketed opening closing l r) (left : l'.kind = l.kind) (right : r'.kind = r.kind) :
    Bracketed opening closing l' r' := ⟨left.trans pair.left, right.trans pair.right⟩

/-- Items stay apart at other places, each with the same tokens as before. -/
theorem Separated.relocate {β : Type} {pieces : List (List Token × β)} {v w : List Token}
    (joined : Separated (pieces.map Prod.fst) v) (same : SameWords v w) :
    ∃ moved : List (List Token × β), moved.map Prod.snd = pieces.map Prod.snd ∧
      Separated (moved.map Prod.fst) w ∧
      ∀ p ∈ moved, ∃ q ∈ pieces, q.2 = p.2 ∧ SameWords q.1 p.1 := by
  induction pieces generalizing v w with
  | nil =>
    cases joined
    rw [same.nil_left]
    exact ⟨[], rfl, .none, by simp⟩
  | cons piece rest ih =>
    cases rest with
    | nil =>
      cases joined
      refine ⟨[(w, piece.2)], rfl, .one w, ?_⟩
      intro p member
      rw [List.mem_singleton.mp member]
      exact ⟨piece, by simp, rfl, same⟩
    | cons next rest =>
      obtain _ | _ | @⟨_, _, others, _, comma, sign, joined⟩ := joined
      obtain ⟨x, y, rfl, first, tail⟩ := same.append_left
      obtain ⟨s, u, rfl, kind, -, second⟩ := tail.cons_left
      obtain ⟨moved, values, apart, each⟩ := ih joined second
      cases moved with
      | nil => cases values
      | cons head moved =>
        refine ⟨(x, piece.2) :: head :: moved, congrArg (piece.2 :: ·) values,
          .more (kind.trans sign) apart, ?_⟩
        intro p member
        rcases List.mem_cons.mp member with rfl | member
        · exact ⟨piece, by simp, rfl, first⟩
        · obtain ⟨q, inside, found⟩ := each p member
          exact ⟨q, by simp [inside], found⟩

/-- Expressions with commas between them, at other places. -/
theorem Separated.relocate_reads {pieces : List (List Token × Expr)} {v w : List Token}
    (joined : Separated (pieces.map Prod.fst) v) (same : SameWords v w)
    (each : ∀ p ∈ pieces, ∀ w, SameWords p.1 w → Reads .or w p.2) :
    ∃ moved : List (List Token × Expr), moved.map Prod.snd = pieces.map Prod.snd ∧
      Separated (moved.map Prod.fst) w ∧ ∀ p ∈ moved, Reads .or p.1 p.2 := by
  obtain ⟨moved, values, apart, from_⟩ := joined.relocate same
  refine ⟨moved, values, apart, fun p member => ?_⟩
  obtain ⟨q, inside, value, words⟩ := from_ p member
  rw [← value]
  exact each q inside p.1 words

/-- Entries of a record with commas between them, at other places. -/
theorem Separated.relocate_entries {entries : List Labelled} {v w : List Token}
    (joined : Separated (entries.map Labelled.all) v) (same : SameWords v w)
    (signed : ∀ entry ∈ entries, entry.Signed)
    (each : ∀ entry ∈ entries, ∀ w, SameWords entry.words w → Reads .or w entry.value) :
    ∃ moved : List Labelled, (moved.map fun entry => (entry.key.literal, entry.value)) =
        (entries.map fun entry => (entry.key.literal, entry.value)) ∧
      Separated (moved.map Labelled.all) w ∧ (∀ entry ∈ moved, entry.Signed) ∧
      ∀ entry ∈ moved, Reads .or entry.words entry.value := by
  have paired : (entries.map fun entry => (entry.all, entry)).map Prod.fst =
      entries.map Labelled.all := by simp [Function.comp_def]
  rw [← paired] at joined
  obtain ⟨moved, values, apart, from_⟩ := joined.relocate same
  have rebuilt : ∀ p ∈ moved, ∃ entry : Labelled, entry.all = p.1 ∧ entry.Signed ∧
      entry.key.literal = p.2.key.literal ∧ entry.value = p.2.value ∧
      Reads .or entry.words entry.value := by
    intro p member
    obtain ⟨q, inside, value, words⟩ := from_ p member
    obtain ⟨entry, found, rfl⟩ := List.mem_map.mp inside
    rw [← value]
    have good := signed entry found
    obtain ⟨key, u, all, keyKind, literal, rest⟩ := words.cons_left
    obtain ⟨colon, words, rfl, colonKind, -, rest⟩ := rest.cons_left
    refine ⟨⟨key, colon, words, entry.value⟩, all.symm, ⟨?_, colonKind.trans good.colon⟩, literal,
      rfl, each entry found words rest⟩
    rw [keyKind]
    exact good.key
  choose! entry all good literal value reads using rebuilt
  refine ⟨moved.map entry, ?_, ?_, ?_, ?_⟩
  · have old : moved.map Prod.snd = entries := by simpa [Function.comp_def] using values
    rw [← old, List.map_map, List.map_map]
    exact List.map_congr_left fun p member => Prod.ext (literal p member) (value p member)
  · have words : (moved.map entry).map Labelled.all = moved.map Prod.fst := by
      rw [List.map_map]
      exact List.map_congr_left fun p member => all p member
    rwa [words]
  · intro _ member
    obtain ⟨p, inside, rfl⟩ := List.mem_map.mp member
    exact good p inside
  · intro _ member
    obtain ⟨p, inside, rfl⟩ := List.mem_map.mp member
    exact reads p inside

theorem relocate_bound {v : List Token} {b : Option (List Token × Expr)}
    (same : SameWords (boundWords b) v)
    (each : ∀ p ∈ b, ∀ w, SameWords p.1 w → Reads .or w p.2) :
    ∃ moved : Option (List Token × Expr), boundWords moved = v ∧
      moved.map Prod.snd = b.map Prod.snd ∧ ∀ p ∈ moved, Reads .or p.1 p.2 := by
  cases b with
  | none => exact ⟨none, same.nil_left.symm, rfl, by simp⟩
  | some p => exact ⟨some (v, p.2), rfl, rfl, by simpa using each p rfl v same⟩

/-- An expression is one wherever its tokens stand. -/
theorem Reads.relocate {l : Level} {v : List Token} {e : Expr} (reads : Reads l v e) :
    ∀ w, SameWords v w → Reads l w e := by
  induction reads with
  | number kind =>
    intro w same
    obtain ⟨s, rfl, kind', literal⟩ := same.single_left
    rw [← literal]
    exact .number (kind'.trans kind)
  | string kind =>
    intro w same
    obtain ⟨s, rfl, kind', literal⟩ := same.single_left
    rw [← literal]
    exact .string (kind'.trans kind)
  | yes kind =>
    intro w same
    obtain ⟨s, rfl, kind', -⟩ := same.single_left
    exact .yes (kind'.trans kind)
  | no kind =>
    intro w same
    obtain ⟨s, rfl, kind', -⟩ := same.single_left
    exact .no (kind'.trans kind)
  | var kind =>
    intro w same
    obtain ⟨s, rfl, kind', literal⟩ := same.single_left
    rw [← literal]
    exact .var (kind'.trans kind)
  | group pair _ ih =>
    intro w same
    obtain ⟨l, u, rfl, left, -, rest⟩ := same.cons_left
    obtain ⟨x, y, rfl, inner, last⟩ := rest.append_left
    obtain ⟨r, rfl, right, -⟩ := last.single_left
    exact .group (pair.relocate left right) (ih x inner)
  | call kind pair _ joined ih =>
    intro w same
    obtain ⟨t, u, rfl, kind', literal, opening⟩ := same.cons_left
    obtain ⟨l, u, rfl, left, -, rest⟩ := opening.cons_left
    obtain ⟨x, y, rfl, inner, last⟩ := rest.append_left
    obtain ⟨r, rfl, right, -⟩ := last.single_left
    obtain ⟨moved, values, apart, each⟩ := joined.relocate_reads inner ih
    rw [← literal, ← values]
    exact .call (kind'.trans kind) (pair.relocate left right) each apart
  | list pair _ joined ih =>
    intro w same
    obtain ⟨l, u, rfl, left, -, rest⟩ := same.cons_left
    obtain ⟨x, y, rfl, inner, last⟩ := rest.append_left
    obtain ⟨r, rfl, right, -⟩ := last.single_left
    obtain ⟨moved, values, apart, each⟩ := joined.relocate_reads inner ih
    rw [← values]
    exact .list (pair.relocate left right) each apart
  | record pair signed _ joined ih =>
    intro w same
    obtain ⟨l, u, rfl, left, -, rest⟩ := same.cons_left
    obtain ⟨x, y, rfl, inner, last⟩ := rest.append_left
    obtain ⟨r, rfl, right, -⟩ := last.single_left
    obtain ⟨moved, values, apart, good, each⟩ := joined.relocate_entries inner signed ih
    rw [← values]
    exact .record (pair.relocate left right) good each apart
  | index _ pair _ ih ih' =>
    intro w same
    obtain ⟨x, y, rfl, front, last⟩ := same.append_left
    obtain ⟨r, rfl, right, -⟩ := last.single_left
    obtain ⟨z, y, rfl, object, rest⟩ := front.append_left
    obtain ⟨l, u, rfl, left, -, position⟩ := rest.cons_left
    exact .index (ih z object) (pair.relocate left right) (ih' u position)
  | slice _ pair _ sign _ ih lower upper =>
    intro w same
    obtain ⟨x, y, rfl, front, last⟩ := same.append_left
    obtain ⟨r, rfl, right, -⟩ := last.single_left
    obtain ⟨x, y, rfl, opening, tail⟩ := front.append_left
    obtain ⟨z, u, rfl, object, head⟩ := opening.append_left
    obtain ⟨l, start, rfl, left, -, start_⟩ := head.cons_left
    obtain ⟨colon, stop, rfl, kind, -, stop_⟩ := tail.cons_left
    obtain ⟨start, rfl, starts, eachLower⟩ := relocate_bound start_ lower
    obtain ⟨stop, rfl, stops, eachUpper⟩ := relocate_bound stop_ upper
    rw [← starts, ← stops]
    exact .slice (ih z object) (pair.relocate left right) eachLower (kind.trans sign) eachUpper
  | member _ sign kind ih =>
    intro w same
    obtain ⟨x, y, rfl, object, rest⟩ := same.append_left
    obtain ⟨dot, u, rfl, sign', -, named⟩ := rest.cons_left
    obtain ⟨t, rfl, kind', literal⟩ := named.single_left
    rw [← literal]
    exact .member (ih x object) (sign'.trans sign) (kind'.trans kind)
  | invoke _ sign kind pair _ joined ih ih' =>
    intro w same
    obtain ⟨x, y, rfl, front, last⟩ := same.append_left
    obtain ⟨r, rfl, right, -⟩ := last.single_left
    obtain ⟨x, y, rfl, object, rest⟩ := front.append_left
    obtain ⟨dot, u, rfl, sign', -, named⟩ := rest.cons_left
    obtain ⟨t, u, rfl, kind', literal, opening⟩ := named.cons_left
    obtain ⟨l, u, rfl, left, -, inner⟩ := opening.cons_left
    obtain ⟨moved, values, apart, each⟩ := joined.relocate_reads inner ih'
    rw [← literal, ← values]
    exact .invoke (ih x object) (sign'.trans sign) (kind'.trans kind) (pair.relocate left right)
      each apart
  | power _ kind _ ih ih' =>
    intro w same
    obtain ⟨x, y, rfl, base, rest⟩ := same.append_left
    obtain ⟨s, u, rfl, kind', -, exponent⟩ := rest.cons_left
    exact .power (ih x base) (kind'.trans kind) (ih' u exponent)
  | negative kind _ ih =>
    intro w same
    obtain ⟨s, u, rfl, kind', -, operand⟩ := same.cons_left
    exact .negative (kind'.trans kind) (ih u operand)
  | negation kind _ ih =>
    intro w same
    obtain ⟨s, u, rfl, kind', -, operand⟩ := same.cons_left
    exact .negation (kind'.trans kind) (ih u operand)
  | binary next known _ _ ih ih' =>
    intro w same
    obtain ⟨x, y, rfl, left, rest⟩ := same.append_left
    obtain ⟨s, u, rfl, kind', -, right⟩ := rest.cons_left
    exact .binary next (by rwa [kind']) (ih x left) (ih' u right)
  | lift next _ ih => exact fun w same => .lift next (ih w same)

end Grammar

end Stepwise
