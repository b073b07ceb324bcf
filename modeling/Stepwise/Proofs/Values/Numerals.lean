import Stepwise.Proofs.Code.Operand
import Stepwise.Proofs.Joining.Texts
import Stepwise.Proofs.Printing.Clarity
import Stepwise.Proofs.Values.Accesses

/-!
Integers and their texts. An integer is written, read back and scanned as long as it has no more
digits than can be converted; from the next digit on, whatever needs its text is refused, with nothing
changed: `integers_survive`.
-/
namespace Stepwise

namespace Decimal

/-- An integer with no more digits than can be converted. -/
def Fits (n : Int) : Prop := (Nat.toDigits 10 n.natAbs).length ≤ digitLimit

theorem pow10_eq (k : Nat) : pow10 k = 10 ^ k := rfl

theorem fits_iff (n : Int) : Fits n ↔ n.natAbs < pow10 digitLimit :=
  length_digits_le_iff n.natAbs (by decide)

theorem toList_repr (n : Int) : n.repr.toList =
    if n < 0 then '-' :: Nat.toDigits 10 n.natAbs else Nat.toDigits 10 n.natAbs := by
  cases n with
  | ofNat k => exact Nat.toList_repr.trans (if_neg (Int.not_lt.mpr (Int.natCast_nonneg k))).symm
  | negSucc k =>
    rw [if_pos (Int.negSucc_lt_zero k)]
    change ("-" ++ (k + 1).repr).toList = _
    rw [String.toList_append, Nat.toList_repr]
    rfl

theorem plain?_minus {cs : List Char} (digits : ∀ c ∈ cs, c.isDigit = true) :
    plain? ('-' :: cs) = some ('-' :: cs) := by
  have solid : ∀ c ∈ '-' :: cs, Text.isBlank c = false :=
    List.forall_mem_cons.mpr ⟨by decide, fun c member => Text.isBlank_of_isDigit (digits c member)⟩
  have plain : plainDigits ('-' :: cs) = '-' :: cs := congrArg ('-' :: ·) (plainDigits_of_digits digits)
  rw [plain?, Text.trim_of_solid solid, plain, dropUnderscores]
  · rw [if_neg (by decide), dropUnderscores_of_digits digits]
    rfl
  · rintro c cs ⟨⟩

theorem readInt_minus (k : Nat) : readInt? ('-' :: Nat.toDigits 10 k) =
    if digitLimit < (Nat.toDigits 10 k).length then none else some (-(k : Int)) := by
  have digits : ∀ c ∈ Nat.toDigits 10 k, c.isDigit = true :=
    fun c member => Nat.isDigit_of_mem_toDigits (by decide) (by decide) member
  have full : (Nat.toDigits 10 k).isEmpty = false := by simp [Nat.toDigits_ne_nil]
  have all : (Nat.toDigits 10 k).all Char.isDigit = true := List.all_eq_true.mpr digits
  simp only [readInt?, plain?_minus digits, sign, full, all, numeral_toDigits, Option.bind_eq_bind,
    Option.bind_some, Bool.not_true, Bool.or_false, Bool.false_or, decide_eq_true_eq, if_true]

/-- An integer is read back from its digits. -/
theorem readInt_of_fits {n : Int} (fits : Fits n) : readInt? n.repr.toList = some n := by
  rw [toList_repr]
  split
  next negative =>
    rw [readInt_minus, if_neg (Nat.not_lt.mpr fits)]
    congr 1
    omega
  next positive =>
    have read := readInt_repr n.natAbs
    rw [Nat.toList_repr, if_neg (Nat.not_lt.mpr fits)] at read
    rw [read]
    congr 1
    omega

/-- Different integers have different digits, as they are read back from them. -/
theorem repr_inj {m n : Int} (fits : Fits m) (fits' : Fits n) (same : m.repr = n.repr) : m = n := by
  have read := readInt_of_fits fits
  rw [same, readInt_of_fits fits'] at read
  exact (Option.some.inj read).symm

end Decimal

namespace Printing

open Token (Kind)

/-- An integer as it is written. -/
def numeral (n : Int) : List Glyph :=
  if n < 0 then [minus, .lexeme (.whole n.natAbs)] else [.lexeme (.whole n.natAbs)]

theorem text_numeral (n : Int) : text (numeral n) = n.repr.toList := by
  rw [Decimal.toList_repr]
  unfold numeral
  split <;> simp [Glyph.chars, Lexeme.chars, minus, sign]

theorem clear_numeral {n : Int} (fits : Decimal.Fits n) : Clear (numeral n) := by
  have digits : Clear [.lexeme (.whole n.natAbs)] := clear_plain fits nofun fenced_nil clear_nil
  unfold numeral
  split
  next =>
    refine clear_minus ⟨_, [], rfl, fun head => ?_⟩ digits
    have digit := Nat.isDigit_of_mem_toDigits (by decide) (by decide) (List.mem_of_mem_head? head)
    exact absurd digit (by decide)
  next => exact digits

/-- What is scanned of an integer alone. -/
def numeralWords (n : Int) : List (Kind × Constant) :=
  (if n < 0 then [(.minus, .scalar (.text "-")), (.number, .scalar (.number (.int (-n))))]
    else [(.number, .scalar (.number (.int n)))]) ++
  [(.newline, .scalar .null), (.eof, .scalar .null)]

theorem numeral_inLine (n : Int) : ∀ c ∈ n.repr.toList, c ≠ '\n' ∧ c ≠ '\r' := by
  have digits : ∀ c ∈ Nat.toDigits 10 n.natAbs, c ≠ '\n' ∧ c ≠ '\r' := by
    intro c member
    have digit := Nat.isDigit_of_mem_toDigits (by decide) (by decide) member
    constructor <;> (rintro rfl; exact absurd digit (by decide))
  rw [Decimal.toList_repr]
  split
  · exact List.forall_mem_cons.mpr ⟨by decide, digits⟩
  · exact digits

theorem words_numeral (n : Int) :
    (Row.tokensAll [.mk (numeral n) []] ++ [mark .eof]).map Token.bare = numeralWords n := by
  unfold numeral numeralWords
  split
  next negative =>
    have value : (n.natAbs : Int) = -n := by omega
    rw [← value]
    rfl
  next positive =>
    have value : (n.natAbs : Int) = n := by omega
    conv => rhs; rw [← value]
    rfl

theorem tokenize_numeral {n : Int} (fits : Decimal.Fits n) (filename : String) :
    ∃ ts, Token.tokenize n.repr filename = .ok ts ∧ ts.map Token.bare = numeralWords n := by
  have inLine := numeral_inLine n
  have readable : Row.ReadableAll [.mk (numeral n) []] := by
    refine ⟨⟨?_, clear_numeral fits, trivial⟩, trivial⟩
    unfold numeral
    split <;> exact ⟨_, _, rfl⟩
  have fed : String.ofList (Row.charsAll 0 [.mk (numeral n) []]) = n.repr ++ "\n" := by
    simp [Row.charsAll, Row.chars, text_numeral]
  -- The rows of a text end with line feeds; scanning adds the one that is missing here.
  have normal : Text.normalized (n.repr ++ "\n") = Text.normalized n.repr := by
    have free : '\r' ∉ n.repr.toList := fun member => (inLine _ member).2 rfl
    have unfed : n.repr.toList.getLast? ≠ some '\n' := fun last =>
      (inLine _ (List.mem_of_getLast? last)).1 rfl
    rw [Text.normalized_append free (by decide), Text.normalized_of_free free, if_neg unfed]
    rfl
  obtain ⟨ts, scanned, same⟩ := tokenize_rows readable filename
  rw [fed, Token.tokenize_of_normalized normal] at scanned
  exact ⟨ts, scanned, Eq.trans same (words_numeral n)⟩

end Printing

namespace Value

variable {heap : Heap} {n : Int}

theorem display_int (heap : Heap) (n : Int) : display heap (.int n) = numberText (.int n) := by
  rw [display, Value.int, format]

theorem display_fits (fits : Decimal.Fits n) : display heap (.int n) = .ok n.repr := by
  rw [display_int, numberText, Number.text?, Number.intText?, if_pos ((Decimal.fits_iff n).mp fits)]

theorem display_large (large : ¬ Decimal.Fits n) : display heap (.int n) = tooLarge := by
  rw [display_int, numberText, Number.text?, Number.intText?,
    if_neg (mt (Decimal.fits_iff n).mpr large)]

theorem key_int (heap : Heap) (n : Int) : key heap (.int n) = display heap (.int n) := rfl

theorem toText_int (heap : Heap) (n : Int) : toText heap (.int n) = display heap (.int n) := by
  rw [display_int, toText, Value.int, format]

theorem line_fits (fits : Decimal.Fits n) : line heap [.int n] = .ok n.repr := by
  rw [line, List.mapM_cons, display_fits fits]
  rfl

/-- The first value that has no text stops the line. -/
theorem line_large (large : ¬ Decimal.Fits n) {before : List Value}
    (shown : ∀ v ∈ before, ∃ s, display heap v = .ok s) (after : List Value) :
    line heap (before ++ .int n :: after) = tooLarge := by
  have stopped : (before ++ .int n :: after).mapM (display heap) = tooLarge := by
    induction before with
    | nil =>
      rw [List.nil_append, List.mapM_cons, display_large large]
      rfl
    | cons v before ih =>
      obtain ⟨s, text⟩ := shown v (.head _)
      rw [List.cons_append, List.mapM_cons, text, ih fun w member => shown w (.tail _ member)]
      rfl
  rw [line, stopped]
  rfl

section

variable {v : Value} {failure : Failure}

/-- Without its text a value can be joined to no text, -/
theorem join_error (failed : display heap v = .error failure) (s : String) :
    binary .add heap (.text s) v = .error failure ∧ binary .add heap v (.text s) = .error failure := by
  have own : display heap (.text s) = .ok s := rfl
  constructor
  · change add heap (.text s) v = _
    cases v <;> simp only [add, own, failed] <;> rfl
  · change add heap v (.text s) = _
    cases v <;> simp only [add, failed] <;> rfl

variable (failed : key heap v = .error failure) (ref : Ref)
include failed

/-- nor is it a key that can be looked up, -/
theorem getIndex_error : getIndex heap (.map ref) v = .error failure := by
  unfold getIndex
  dsimp only
  rw [failed]
  rfl

/-- assigned to -/
theorem setIndex_error (w : Value) : setIndex heap (.map ref) v w = .error failure := by
  unfold setIndex
  dsimp only
  rw [failed]
  rfl

/-- or asked for. -/
theorem contains_error : binary .isIn heap v (.map ref) = .error failure := by
  change (do return Value.bool (← contains heap (.map ref) v)) = _
  unfold contains
  dsimp only
  rw [failed]
  rfl

end

end Value

/-- The instructions that need the text of an integer, with their operands as they lie on the stack. -/
inductive Machine.NeedsText (n : Int) : Instruction → List Value → Prop where
  | joined {code : Instruction} (s : String) : code.op = .add → NeedsText n code [.int n, .text s]
  | joining {code : Instruction} (s : String) : code.op = .add → NeedsText n code [.text s, .int n]
  | asked {code : Instruction} (ref : Ref) : code.op = .isIn → NeedsText n code [.map ref, .int n]
  | lookedUp {code : Instruction} (ref : Ref) : code.op = .arrayGet →
      NeedsText n code [.int n, .map ref]
  | assigned {code : Instruction} (ref : Ref) (v : Value) : code.op = .arraySet →
      NeedsText n code [v, .int n, .map ref]

theorem Machine.execute_large {n : Int} (large : ¬ Decimal.Fits n) {m : Machine} {code : Instruction}
    {operands rest : List Value} (needs : NeedsText n code operands)
    (top : m.stack = operands ++ rest) :
    m.execute code = (Value.tooLarge, { m with stack := rest }) := by
  have text : Value.display m.heap (.int n) = Value.tooLarge := Value.display_large large
  have keyless : Value.key m.heap (.int n) = Value.tooLarge := (Value.key_int m.heap n).trans text
  cases needs with
  | joined s op =>
    rw [execute, op]
    exact binary_error top (Value.join_error text s).1
  | joining s op =>
    rw [execute, op]
    exact binary_error top (Value.join_error text s).2
  | asked ref op =>
    rw [execute, op]
    exact binary_error top (Value.contains_error keyless ref)
  | lookedUp ref op => exact execute_arrayGet_error op top (Value.getIndex_error keyless ref)
  | assigned ref v op => exact execute_arraySet_error op top (Value.setIndex_error keyless ref v)

namespace Engine

open Value

variable {engine : Engine} {name : Name} {n : Int}

theorem call_str (called : Builtin.ofName? name = some .str) {v : Value} {s : String}
    (text : toText engine.heap v = .ok s) : engine.callBuiltin name [v] = (.ok (.text s), engine) := by
  refine callBuiltin_of_ok called (Builtin.reading_of_ok ?_)
  change (do return Value.text (← toText engine.heap v)) = _
  rw [text]
  rfl

theorem call_str_error (called : Builtin.ofName? name = some .str) {v : Value} {failure : Failure}
    (failed : toText engine.heap v = .error failure) :
    engine.callBuiltin name [v] = (.error failure, engine) := by
  refine callBuiltin_of_error called (Builtin.reading_of_error ?_)
  change (do return Value.text (← toText engine.heap v)) = _
  rw [failed]
  rfl

theorem call_int (called : Builtin.ofName? name = some .int) {s : String}
    (read : Decimal.readInt? s.toList = some n) :
    engine.callBuiltin name [.text s] = (.ok (.int n), engine) := by
  refine callBuiltin_of_ok called (Builtin.reading_of_ok ?_)
  simp only [Prelude.toInt, Prelude.arg, List.getD_cons_zero, read]
  rfl

section

variable (fits : Decimal.Fits n)
include fits

theorem call_str_fits (called : Builtin.ofName? name = some .str) :
    engine.callBuiltin name [.int n] = (.ok (.text n.repr), engine) :=
  call_str called ((toText_int _ n).trans (display_fits fits))

theorem call_print_fits (called : Builtin.ofName? name = some .print) :
    engine.callBuiltin name [.int n] =
      (.ok .null, { engine with world := engine.world.print n.repr }) :=
  call_print_line called (line_fits fits)

/-- No other integer is converted to the same text, -/
theorem call_str_inj (called : Builtin.ofName? name = some .str) {m : Int}
    (same : engine.callBuiltin name [.int m] = engine.callBuiltin name [.int n]) : m = n := by
  rw [call_str_fits fits called] at same
  by_cases fits' : Decimal.Fits m
  · rw [call_str_fits fits' called] at same
    exact Decimal.repr_inj fits' fits (Value.text.inj (Except.ok.inj (Prod.mk.inj same).1))
  · rw [call_str_error called ((toText_int _ m).trans (display_large fits'))] at same
    cases (Prod.mk.inj same).1

/-- and none is printed as the same line. -/
theorem call_print_inj (called : Builtin.ofName? name = some .print) {m : Int}
    (same : engine.callBuiltin name [.int m] = engine.callBuiltin name [.int n]) : m = n := by
  rw [call_print_fits fits called] at same
  by_cases fits' : Decimal.Fits m
  · rw [call_print_fits fits' called] at same
    have last := congrArg (fun result => result.2.world.output.back?) same
    exact Decimal.repr_inj fits' fits (by simpa [World.print] using last)
  · have none : ∀ v ∈ ([] : List Value), ∃ s, display engine.heap v = .ok s := nofun
    have failed := call_print_error called (line_large fits' none [])
    cases (Prod.mk.inj (failed.symm.trans same)).1

end

/-- An integer with no more digits than can be converted survives its text: its digits are read back
as the integer and scanned as a number, behind a minus sign if need be, and no other integer is written
or printed as they are, or is the same key. From the next digit on, whatever needs the text of the
integer is refused: its conversion, any line it is to be printed in, texts it is to be joined to, and
maps it is to be a key of. Nothing but the operands is gone then. -/
theorem integers_survive (engine : Engine) {str int print : Name}
    (shows : Builtin.ofName? str = some .str) (reads : Builtin.ofName? int = some .int)
    (prints : Builtin.ofName? print = some .print) (n : Int) :
    (Decimal.Fits n →
      engine.callBuiltin str [.int n] = (.ok (.text n.repr), engine) ∧
      engine.callBuiltin int [.text n.repr] = (.ok (.int n), engine) ∧
      (∀ filename, ∃ ts, Token.tokenize n.repr filename = .ok ts ∧
        ts.map Token.bare = Printing.numeralWords n) ∧
      (∀ m, engine.callBuiltin str [.int m] = engine.callBuiltin str [.int n] → m = n) ∧
      (∀ m, engine.callBuiltin print [.int m] = engine.callBuiltin print [.int n] → m = n) ∧
      ∀ ref entries, engine.heap.get? ref = some (.map entries) → ∀ v, ∃ later,
        setIndex engine.heap (.map ref) (.int n) v = .ok later ∧
          ∀ m, Decimal.Fits m → getIndex later (.map ref) (.int m) =
            if m = n then .ok v else getIndex engine.heap (.map ref) (.int m)) ∧
    (¬ Decimal.Fits n →
      engine.callBuiltin str [.int n] = (tooLarge, engine) ∧
      (∀ before after, (∀ v ∈ before, ∃ s, display engine.heap v = .ok s) →
        engine.callBuiltin print (before ++ .int n :: after) = (tooLarge, engine)) ∧
      (∀ heap s, binary .add heap (.text s) (.int n) = tooLarge ∧
        binary .add heap (.int n) (.text s) = tooLarge) ∧
      (∀ heap ref, getIndex heap (.map ref) (.int n) = tooLarge ∧
        (∀ v, setIndex heap (.map ref) (.int n) v = tooLarge) ∧
        binary .isIn heap (.int n) (.map ref) = tooLarge) ∧
      ∀ (m : Machine) code operands rest, Machine.NeedsText n code operands →
        m.stack = operands ++ rest → m.execute code = (tooLarge, { m with stack := rest })) := by
  refine ⟨fun fits => ?_, fun large => ?_⟩
  · refine ⟨call_str_fits fits shows, call_int reads (Decimal.readInt_of_fits fits),
      Printing.tokenize_numeral fits, fun m => call_str_inj fits shows,
      fun m => call_print_inj fits prints, fun ref entries here v => ?_⟩
    have text : ∀ m, Decimal.Fits m → key engine.heap (.int m) = .ok m.repr :=
      fun m fits => (key_int _ m).trans (display_fits fits)
    refine ⟨_, setIndex_key here (text n fits) v, fun m fits' => ?_⟩
    rw [getIndex_key ((key_int _ m).trans (display_fits fits')), getIndex_put here,
      getIndex_key (text m fits')]
    exact if_congr ⟨Decimal.repr_inj fits' fits, congrArg Int.repr⟩ rfl rfl
  · have text : ∀ heap, display heap (.int n) = tooLarge := fun _ => display_large large
    have keyless : ∀ heap, key heap (.int n) = tooLarge := fun heap => (key_int heap n).trans (text heap)
    exact ⟨call_str_error shows ((toText_int _ n).trans (text _)),
      fun before after shown => call_print_error prints (line_large large shown after),
      fun heap s => join_error (text heap) s,
      fun heap ref => ⟨getIndex_error (keyless heap) ref, setIndex_error (keyless heap) ref,
        contains_error (keyless heap) ref⟩,
      fun m code operands rest needs top => Machine.execute_large large needs top⟩

/-- A negative integer is converted both ways, and the first integer with one digit too many is not
converted. -/
theorem integers_survive_bounds :
    let engine : Engine := { maxSteps := 1, maxCallDepth := 1 }
    engine.callBuiltin "str" [.int (-42)] = (.ok (.text "-42"), engine) ∧
      engine.callBuiltin "int" [.text "-42"] = (.ok (.int (-42)), engine) ∧
      engine.callBuiltin "str" [.int (pow10 Decimal.digitLimit)] = (tooLarge, engine) := by
  intro engine
  have shows : Builtin.ofName? "str" = some .str := rfl
  have reads : Builtin.ofName? "int" = some .int := rfl
  have prints : Builtin.ofName? "print" = some .print := rfl
  have fits : Decimal.Fits (-42) := by
    change (Nat.toDigits 10 42).length ≤ Decimal.digitLimit
    decide
  have large : ¬ Decimal.Fits (pow10 Decimal.digitLimit) := by
    rw [Decimal.fits_iff, Int.natAbs_natCast]
    exact Nat.lt_irrefl _
  obtain ⟨written, read, -⟩ := (integers_survive engine shows reads prints (-42)).1 fits
  obtain ⟨refused, -⟩ :=
    (integers_survive engine shows reads prints (pow10 Decimal.digitLimit)).2 large
  exact ⟨written, read, refused⟩

end Engine

end Stepwise
