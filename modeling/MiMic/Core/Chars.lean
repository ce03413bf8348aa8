import MiMic.Core.Stdlib

/-!
# Characters

`char` is unsigned, as on the ARM targets; text is a list of bytes.
-/
namespace MiMic

/-- What every character of a text satisfies is decided along the text, not over all bytes. -/
instance (priority := 1100) decidableForallChar (t : List UInt8) (P : UInt8 → Prop)
    [DecidablePred P] : Decidable (∀ c ∈ t, P c) := List.decidableBAll P t

def chLf : UInt8 := 0x0a
def chCr : UInt8 := 0x0d
def chSpace : UInt8 := 0x20
def chQuote : UInt8 := 0x22
def chComma : UInt8 := 0x2c
def chMinus : UInt8 := 0x2d
def chDot : UInt8 := 0x2e
def chZero : UInt8 := 0x30
def chColon : UInt8 := 0x3a
def chSemicolon : UInt8 := 0x3b
def chLeftBracket : UInt8 := 0x5b
def chBackslash : UInt8 := 0x5c
def chRightBracket : UInt8 := 0x5d
def chLetterX : UInt8 := 0x78
def chLeftBrace : UInt8 := 0x7b
def chRightBrace : UInt8 := 0x7d

/-- `strchr(s,c)!=NULL`: the terminator of `s` is found as well. -/
def strchr (s : List UInt8) (c : UInt8) : Bool := s.contains c || c == 0

def isDigit (c : UInt8) : Bool := chZero ≤ c && c ≤ 0x39

def isXDigit (c : UInt8) : Bool :=
  isDigit c || (0x61 ≤ c && c ≤ 0x66) || (0x41 ≤ c && c ≤ 0x46)

/-- `NyLPC_ctox`. -/
def ctox (c : UInt8) : UInt8 :=
  if isDigit c then c - chZero
  else if 0x61 ≤ c ∧ c ≤ 0x66 then c - 0x61 + 10
  else if 0x41 ≤ c ∧ c ≤ 0x46 then c - 0x41 + 10
  else 0

/-- The bytes of a literal. -/
def ascii (s : String) : List UInt8 := s.toList.map fun c => UInt8.ofNat c.toNat

/-- The C string in a buffer. -/
def cString (buf : List UInt8) : List UInt8 := buf.takeWhile (· != 0)

end MiMic
