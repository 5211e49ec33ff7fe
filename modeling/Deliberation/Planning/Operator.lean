import Deliberation.Fact.Text

/-!
Operators of planning: what an action needs to hold and to fail, and what it adds and deletes.
-/

namespace Deliberation

structure Operator where
  name : String
  parameters : List String
  preconditions : List Literal
  add : List Atom
  delete : List Atom
  deriving DecidableEq, Repr

structure Action where
  operator : String
  args : List String
  deriving DecidableEq, Repr

/-- An action with the facts that it needs, forbids, adds and deletes. -/
structure GroundAction where
  action : Action
  requires : List Fact
  forbids : List Fact
  add : List Fact
  delete : List Fact
  deriving DecidableEq, Repr

/-- What is wrong with an operator. -/
inductive OperatorFault where
  | repeatedParameter (name : String)
  | unknownParameter (name : String) (atom : Atom)
  | notGround
  deriving DecidableEq, Repr

/-- Why an operator does not become an action. -/
inductive OperatorError where
  | invalid (operator : String) (fault : OperatorFault)
  | arityMismatch (action : String) (expected actual : Nat)
  deriving DecidableEq, Repr

def OperatorFault.message : OperatorFault → String
  | .repeatedParameter name => s!"parameter ?{name} is declared twice"
  | .unknownParameter name atom => s!"?{name} in '{atom.text}' is not a parameter"
  | .notGround => "an atom has a variable that is not a parameter"

def OperatorError.message : OperatorError → String
  | .invalid operator fault => s!"operator '{operator}' is invalid: {fault.message}"
  | .arityMismatch action expected actual => s!"action '{action}' expects {expected} arguments, got {actual}"

namespace Action

/-- The fact of the same text. -/
def toFact (action : Action) : Fact := ⟨action.operator, action.args⟩

def text (action : Action) : String := action.toFact.text

def parse (text : String) : Except ParseError Action :=
  (Fact.parse text).map fun fact => ⟨fact.predicate, fact.args⟩

end Action

namespace GroundAction

/-- Whether a state has what an action requires and nothing that it forbids. -/
def applicable (action : GroundAction) (state : FactSet) : Bool :=
  action.requires.all (· ∈ state) && !action.forbids.any (· ∈ state)

/-- What stands in the way of an action: required facts that a state lacks, then forbidden ones that it has. -/
def unmet (action : GroundAction) (state : FactSet) : List Fact :=
  action.requires.filter (· ∉ state) ++ action.forbids.filter (· ∈ state)

/-- The state after an action; what it both deletes and adds is there. -/
def apply (action : GroundAction) (state : FactSet) : FactSet :=
  (action.delete.foldl (fun state fact => state.erase fact) state).insertAll action.add

end GroundAction

namespace Operator

/-- The atoms of an operator: of its preconditions, then what it adds, then what it deletes. -/
def atoms (op : Operator) : List Atom := op.preconditions.map Literal.atom ++ op.add ++ op.delete

/-- The first parameter that is declared a second time. -/
def repeatedParameter? (op : Operator) : Option String :=
  ((op.parameters.zipIdx.find? fun (name, index) => (op.parameters.take index).contains name)).map (·.1)

/-- The first variable of an atom that is no parameter. -/
def unknownParameter? (op : Operator) (atom : Atom) : Option OperatorFault :=
  (atom.vars.find? (· ∉ op.parameters)).map (.unknownParameter · atom)

/-- Refuses an operator with a repeated parameter or a variable that is no parameter. -/
def validate (op : Operator) : Except OperatorError Unit :=
  match op.repeatedParameter? with
  | some name => .error (.invalid op.name (.repeatedParameter name))
  | none =>
    match op.atoms.findSome? op.unknownParameter? with
    | some fault => .error (.invalid op.name fault)
    | none => .ok ()

/-- The facts of atoms whose variables are all bound. -/
def groundAll? (bindings : Bindings) (atoms : List Atom) : Option (List Fact) := atoms.mapM (·.ground? bindings)

/-- The action of an operator whose parameters and variables are all bound. -/
def ground? (op : Operator) (bindings : Bindings) : Option GroundAction := do
  return {
    action := ⟨op.name, ← op.parameters.mapM bindings.get?⟩
    requires := ← groundAll? bindings (Literal.positives op.preconditions)
    forbids := ← groundAll? bindings (Literal.negatives op.preconditions)
    add := ← groundAll? bindings op.add
    delete := ← groundAll? bindings op.delete }

/-- The action of an operator on arguments. -/
def instantiate (op : Operator) (args : List String) : Except OperatorError GroundAction :=
  if args.length = op.parameters.length then
    match op.ground? (.ofList (op.parameters.zip args)) with
    | some action => .ok action
    | none => .error (.invalid op.name .notGround)
  else .error (.arityMismatch op.name op.parameters.length args.length)

/-- The constants of an operator, one for each place where one stands. -/
def constants (op : Operator) : List String := op.atoms.flatMap Atom.constants

end Operator

end Deliberation
