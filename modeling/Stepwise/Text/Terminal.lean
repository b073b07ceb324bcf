/-!
Texts for a terminal. Lines that go to a file are freed of the sequences that steer a terminal, and
framed texts of the control characters that would break the frame.
-/
namespace Stepwise.Text

def escape : Char := '\x1b'

/-- Characters between the opening of a sequence and the letter that ends it. -/
def isParameter (c : Char) : Bool := c.isDigit || c == ';' || c == '?'

/-- Drops complete sequences: an escape, an opening bracket, parameters and a letter. `held` is the
part of one that has been read, the latest character first. -/
def dropSequences (held : List Char) : List Char → List Char
  | [] => held.reverse
  | c :: cs =>
    if c = escape then held.reverse ++ dropSequences [c] cs
    else match held with
      | [] => c :: dropSequences [] cs
      | [e] => if c = '[' then dropSequences [c, e] cs else e :: c :: dropSequences [] cs
      | held =>
        if isParameter c then dropSequences (c :: held) cs
        else if c.isAlpha then dropSequences [] cs
        else held.reverse ++ c :: dropSequences [] cs

def withoutSequences (s : String) : String := String.ofList (dropSequences [] s.toList)

/-- The bell, the backspace, the tabs and feeds that move down, and the carriage return. -/
def isFrameBreaking (c : Char) : Bool :=
  let n := c.toNat
  n == 0x07 || n == 0x08 || (0x0b ≤ n && n ≤ 0x0d)

def withoutControls (s : String) : String :=
  String.ofList (s.toList.filter fun c => !isFrameBreaking c)

end Stepwise.Text
