import Stepwise.Code

/-!
The operand of a call can be read back: the name and the number of arguments that were written into
it come out again, as long as the number has no more digits than are converted.
-/
namespace Stepwise

theorem Text.isBlank_of_isDigit {c : Char} (digit : c.isDigit = true) : isBlank c = false := by
  have range : 48 ≤ c.toNat ∧ c.toNat ≤ 57 := by
    simpa [Char.isDigit, UInt32.le_iff_toNat_le] using digit
  simp only [isBlank, Bool.or_eq_false_iff, Bool.and_eq_false_iff, decide_eq_false_iff_not,
    beq_eq_false_iff_ne]
  omega

/-- A text without white space is left as it is. -/
theorem Text.trim_of_solid {cs : List Char} (solid : ∀ c ∈ cs, isBlank c = false) : trim cs = cs := by
  have kept (ds : List Char) (all : ∀ c ∈ ds, isBlank c = false) : trimLeft ds = ds := by
    cases ds with
    | nil => rfl
    | cons d ds => simp [trimLeft, all d (by simp)]
  unfold trim
  rw [kept cs solid, kept cs.reverse fun c member => solid c (List.mem_reverse.mp member),
    List.reverse_reverse]

namespace Decimal

variable {cs : List Char} (digits : ∀ c ∈ cs, c.isDigit = true)
include digits

theorem plainDigits_of_digits : plainDigits cs = cs := by
  unfold plainDigits
  conv => rhs; rw [← List.map_id cs]
  apply List.map_congr_left
  intro c member
  have digit := digits c member
  have range : 48 ≤ c.toNat ∧ c.toNat ≤ 57 := by
    simpa [Char.isDigit, UInt32.le_iff_toNat_le] using digit
  have small : c.toNat < 0x80 := by omega
  have value : Text.digitValue? c = some (c.toNat - 0x30) := by
    simp [Text.digitValue?, small, digit]
  have back : 0x30 + (c.toNat - 0x30) = c.toNat := by omega
  simp only [value, back, id_eq, Char.ofNat_toNat]

theorem dropUnderscores_of_digits (afterDigit : Bool) : dropUnderscores afterDigit cs = some cs := by
  induction cs generalizing afterDigit with
  | nil => rfl
  | cons c cs ih =>
    have digit := digits c (by simp)
    have proper : c ≠ '_' := by
      rintro rfl
      simp [Char.isDigit] at digit
    have rest := ih (fun d member => digits d (by simp [member])) c.isDigit
    unfold dropUnderscores
    split
    · contradiction
    · next same => exact absurd (List.cons.inj same).1 proper
    · next d ds _ same =>
      obtain ⟨rfl, rfl⟩ := List.cons.inj same
      rw [if_neg proper, rest]
      rfl

theorem trim_of_digits : Text.trim cs = cs :=
  Text.trim_of_solid fun c member => Text.isBlank_of_isDigit (digits c member)

theorem sign_of_digits : sign cs = (false, cs) := by
  unfold sign
  split
  · have digit := digits '-' (by simp)
    simp [Char.isDigit] at digit
  · have digit := digits '+' (by simp)
    simp [Char.isDigit] at digit
  · rfl

end Decimal

/-- The digits of a number stand for it. -/
theorem Decimal.numeral_toDigits (n : Nat) :
    Decimal.numeral (Decimal.digitsOf (Nat.toDigits 10 n)) = n := by
  rw [Decimal.numeral, Decimal.digitsOf, List.foldl_map]
  have back := Nat.ofDigitChars_toDigits (b := 10) (n := n) (by decide) (by decide)
  rwa [Nat.ofDigitChars_eq_foldl] at back

/-- A number with at most so many digits is less than the power of ten. -/
theorem Decimal.length_digits_le_iff (n : Nat) {k : Nat} (positive : 0 < k) :
    (Nat.toDigits 10 n).length ≤ k ↔ n < pow10 k :=
  Nat.length_toDigits_le_iff (by decide) positive

theorem Decimal.readInt_repr (n : Nat) : Decimal.readInt? n.repr.toList =
    if Decimal.digitLimit < (Nat.toDigits 10 n).length then none else some (n : Int) := by
  have digits : ∀ c ∈ Nat.toDigits 10 n, c.isDigit = true :=
    fun c member => Nat.isDigit_of_mem_toDigits (by decide) (by decide) member
  have value := Decimal.numeral_toDigits n
  have full : (Nat.toDigits 10 n).isEmpty = false := by simp [Nat.toDigits_ne_nil]
  have all : (Nat.toDigits 10 n).all Char.isDigit = true := List.all_eq_true.mpr digits
  rw [Nat.toList_repr]
  simp only [readInt?, plain?, Decimal.trim_of_digits digits, Decimal.plainDigits_of_digits digits,
    Decimal.dropUnderscores_of_digits digits, Decimal.sign_of_digits digits, full, all, value,
    Option.bind_eq_bind, Option.bind_some, Bool.not_true, Bool.or_false, Bool.false_or,
    decide_eq_true_eq, Bool.false_eq_true, if_false]

theorem splitLastColon_append {name count : List Char} (free : ∀ c ∈ count, c ≠ ':') :
    splitLastColon (name ++ ':' :: count) = (name, count) := by
  have tail : ((name ++ ':' :: count).reverse.takeWhile (· ≠ ':')).reverse = count := by
    have split : (name ++ ':' :: count).reverse = count.reverse ++ ':' :: name.reverse := by simp
    rw [split, List.takeWhile_append_of_pos (by simpa using free)]
    simp
  unfold splitLastColon
  rw [tail]
  have length : (name ++ ':' :: count).length - count.length - 1 = name.length := by
    simp only [List.length_append, List.length_cons]
    omega
  simp only [length, List.take_left']

theorem splitLastColon_callOperand (name : String) (argc : Nat) :
    splitLastColon (callOperand name argc).toList = (name.toList, argc.repr.toList) := by
  have written : (callOperand name argc).toList = name.toList ++ ':' :: argc.repr.toList := by
    simp [callOperand, toString]
  have free : ∀ c ∈ argc.repr.toList, c ≠ ':' := by
    intro c member
    rw [Nat.toList_repr] at member
    have digit := Nat.isDigit_of_mem_toDigits (by decide) (by decide) member
    rintro rfl
    simp [Char.isDigit] at digit
  rw [written, splitLastColon_append free]

/-- The name and the number of arguments that were written into the operand of a call are read back. A
number with more digits than are converted is refused. -/
theorem readCallOperand?_callOperand (name : String) (argc : Nat) :
    readCallOperand? (callOperand name argc) =
      if argc < pow10 Decimal.digitLimit then some (name, (argc : Int)) else none := by
  have limit : _ ↔ argc < pow10 Decimal.digitLimit := Decimal.length_digits_le_iff argc (by decide)
  unfold readCallOperand?
  rw [splitLastColon_callOperand]
  simp only [Decimal.readInt_repr, String.ofList_toList, ← limit, ← Nat.not_lt]
  split <;> rfl

/-- The least number that is not read back. -/
theorem readCallOperand_refused :
    readCallOperand? (callOperand "len" (pow10 Decimal.digitLimit)) = none := by
  rw [readCallOperand?_callOperand, if_neg (Nat.lt_irrefl _)]

/-- Whatever comes out of the operand of a call was written into it. -/
theorem readCallOperand_callOperand {name : String} {argc : Nat} {callee : String × Int}
    (read : readCallOperand? (callOperand name argc) = some callee) :
    callee = (name, (argc : Int)) := by
  rw [readCallOperand?_callOperand] at read
  split at read
  · exact (Option.some.inj read).symm
  · cases read

/-- Operands of calls are the same only if the names and the numbers of arguments are. -/
theorem callOperand_inj {name name' : String} {argc argc' : Nat}
    (same : callOperand name argc = callOperand name' argc') : name = name' ∧ argc = argc' := by
  have parts := congrArg (fun operand : String => splitLastColon operand.toList) same
  simp only [splitLastColon_callOperand, Prod.mk.injEq, Nat.toList_repr] at parts
  refine ⟨String.ext parts.1, ?_⟩
  rw [← Decimal.numeral_toDigits argc, parts.2, Decimal.numeral_toDigits]

end Stepwise
