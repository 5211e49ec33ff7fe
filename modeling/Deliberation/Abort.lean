/-!
Computations that stop without an answer. They are not errors of the input that the program reports:
no error text belongs to them, and nothing after them is computed.
-/

namespace Deliberation

/-- Why a computation stops without an answer. -/
inductive Abort where
  /-- The three bytes that would spell a keyword end inside a character. -/
  | splitCharacter
  /-- The least integer was divided by minus one. -/
  | leastQuotient
  /-- The width of an integer range is no 64-bit integer. -/
  | rangeWidth
  /-- A program variable is declared twice, so its column lies outside the table. -/
  | columnOutside
  /-- The weights of a distribution have no finite sum. -/
  | infiniteWeight
  /-- A range of durations is too wide to be scaled. -/
  | infiniteRange
  /-- Rounding brings the simplex method back to a basis that it has left. -/
  | endlessPivoting
  deriving DecidableEq, Repr

end Deliberation
