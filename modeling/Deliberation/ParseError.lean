/-!
Why a text form is refused: facts, atoms, rules and expressions share one error, which carries the
text that was read and the cause.
-/

namespace Deliberation

inductive ExprFault where
  | invalidNumber (text : String)
  | unterminatedString
  | unexpectedCharacter (character : Char)
  | unexpectedEnd
  | unexpectedToken (token : String)
  | unknownFunction (name : String)
  | setMember (member : String)
  | expected (token : String)
  | trailingInput
  deriving DecidableEq, Repr

/-- Why a text is refused. -/
inductive ParseCause where
  | unclosedArguments
  | invalidVariable (name : String)
  | invalidTerm (token : String)
  | invalidPredicate (name : String)
  | notGround
  | missingConsequent
  | negatedConsequent
  | expression (fault : ExprFault) (offset : Nat)
  deriving DecidableEq, Repr

/-- A text that was refused, and why. -/
structure ParseError where
  input : String
  cause : ParseCause
  deriving DecidableEq, Repr

def ExprFault.message : ExprFault → String
  | .invalidNumber text => s!"invalid number '{text}'"
  | .unterminatedString => "unterminated string"
  | .unexpectedCharacter character => s!"unexpected character '{character}'"
  | .unexpectedEnd => "unexpected end of expression"
  | .unexpectedToken token => s!"unexpected '{token}'"
  | .unknownFunction name => s!"unknown function '{name}'"
  | .setMember member => s!"set members must be constants, got '{member}'"
  | .expected token => s!"expected '{token}'"
  | .trailingInput => "trailing input"

def ParseCause.message : ParseCause → String
  | .unclosedArguments => "missing closing ')'"
  | .invalidVariable name => s!"invalid variable name '?{name}'"
  | .invalidTerm token => s!"invalid term '{token}'"
  | .invalidPredicate name => s!"invalid predicate name '{name}'"
  | .notGround => "facts must be ground; variables are only allowed in rules and operators"
  | .missingConsequent => "missing THEN / -> between antecedent and consequent"
  | .negatedConsequent => "consequents cannot be negated"
  | .expression fault offset => s!"{fault.message} at offset {offset}"

def ParseError.message (error : ParseError) : String :=
  s!"cannot parse '{error.input}': {error.cause.message}"

end Deliberation
