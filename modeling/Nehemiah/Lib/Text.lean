import Mathlib

/-!
# Texts

What JavaScript and PostgreSQL do with the texts of requests: `String.prototype.trim`, `length` in UTF-16 code
units, the canonical text of a UUID, and the two shapes of identifier that services accept.
-/

namespace Nehemiah.Lib

/-- The characters that `trim` strips: white space and line terminators. -/
def isJsSpace (c : Char) : Bool :=
  "\t\n\r \u000B\u000C\u00A0\u1680\u2028\u2029\u202F\u205F\u3000\uFEFF".toList.contains c
    || decide ('\u2000' ≤ c ∧ c ≤ '\u200A')

def trimChars (cs : List Char) : List Char :=
  ((cs.dropWhile isJsSpace).reverse.dropWhile isJsSpace).reverse

/-- `trim`. -/
def jsTrim (s : String) : String := String.ofList (trimChars s.toList)

/-- `length`. -/
def jsLength (s : String) : ℕ :=
  (s.toList.map fun c => if c.toNat < 65536 then 1 else 2).sum

def hexDigit (c : Char) : Bool := c.isDigit || decide ('a' ≤ c ∧ c ≤ 'f') || decide ('A' ≤ c ∧ c ≤ 'F')

/-- The characters of a UUID of version 1 to 5. -/
def uuidPattern : List (Char → Bool) :=
  List.replicate 8 hexDigit ++ [(· == '-')] ++ List.replicate 4 hexDigit ++ [(· == '-')]
    ++ [fun c => decide ('1' ≤ c ∧ c ≤ '5')] ++ List.replicate 3 hexDigit ++ [(· == '-')]
    ++ [fun c => "89abAB".toList.contains c] ++ List.replicate 3 hexDigit ++ [(· == '-')]
    ++ List.replicate 12 hexDigit

def isUuid (s : String) : Bool :=
  s.toList.length == uuidPattern.length && (uuidPattern.zip s.toList).all fun (p, c) => p c

/-- The UUID that the text denotes, as the database prints it; also `toLowerCase` of the text of a UUID. -/
def uuidValue (s : String) : String := String.ofList (s.toList.map Char.toLower)

/-- A letter or digit, and then at most `following` letters, digits, dots, underscores, colons and hyphens. -/
def isToken (following : ℕ) (s : String) : Bool :=
  match s.toList with
  | [] => false
  | c :: cs => c.isAlphanum && decide (cs.length ≤ following)
      && cs.all fun c => c.isAlphanum || "._:-".toList.contains c

end Nehemiah.Lib
