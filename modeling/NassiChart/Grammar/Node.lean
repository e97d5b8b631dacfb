import NassiChart.Text

/-!
# Nodes of a derivation tree

A node of a grammar tree is a production with its derived children (an *expression*) or a literal
token (a *terminal*). What a diagram needs of a node is its `Label`: the name of the production,
or the text of the token.
-/

namespace NassiChart.Grammar

open NassiChart.Text

/-- Position of a node in its tree, which is the order of insertion. -/
abbrev NodeId := Nat

/-- The two forms of a node. Only expressions own children. -/
inductive NodeForm where
  | expression (children : List NodeId)
  | terminal
  deriving DecidableEq, Repr

/-- A node with its depth in the export and its text there. -/
structure Node where
  level : Nat
  /-- The production for an expression, the token for a terminal. -/
  text : String
  /-- `none` for the root, and for a node that is not in a tree yet. -/
  parent : Option NodeId
  form : NodeForm
  deriving DecidableEq, Repr

inductive Label where
  | production (name : String)
  | token (text : String)
  deriving DecidableEq, Repr

def Label.isProduction (label : Label) (name : String) : Bool :=
  label == .production name

/-- A text names a production if it starts with `<` and is not the less-than token alone. -/
def namesProduction : List Char → Bool
  | '<' :: _ :: _ => true
  | _ => false

/-- The part of a production before its `::=`, or all of it when it has none. -/
def leftHandSide : List Char → List Char
  | ':' :: ':' :: '=' :: _ => []
  | c :: cs => c :: leftHandSide cs
  | [] => []

def dropOpening : List Char → List Char
  | '<' :: cs => cs
  | cs => cs

def dropClosing (cs : List Char) : List Char :=
  if cs.getLast? = some '>' then cs.dropLast else cs

/-- The name of a production: `<FOR> ::= FOR <variable>` is named `FOR`. Either bracket may be
missing. -/
def productionName (text : String) : String :=
  String.ofList (dropClosing (dropOpening (trim (leftHandSide text.toList))))

example : productionName "<FOR> ::= FOR <variable>" = "FOR" := by decide
example : productionName "ADD" = "ADD" ∧ productionName "<>" = "" := by decide

namespace Node

def expression (level : Nat) (text : String) : Node :=
  { level, text, parent := none, form := .expression [] }

def terminal (level : Nat) (text : String) : Node :=
  { level, text, parent := none, form := .terminal }

def classify (level : Nat) (text : String) : Node :=
  if namesProduction text.toList then expression level text else terminal level text

/-- The node is a production with derived children, and no token. -/
def isExpression (node : Node) : Bool :=
  match node.form with
  | .expression _ => true
  | .terminal => false

/-- The children in order of derivation. Terminals have none. -/
def children (node : Node) : List NodeId :=
  match node.form with
  | .expression children => children
  | .terminal => []

/-- The name of the production of an expression. Terminals have none. -/
def production? (node : Node) : Option String :=
  if node.isExpression then some (productionName node.text) else none

def isProduction (node : Node) (name : String) : Bool :=
  node.production? == some name

def label (node : Node) : Label :=
  if node.isExpression then .production (productionName node.text) else .token node.text

/-- The node with one more child at the end, if it is an expression. -/
def addChild (node : Node) (child : NodeId) : Node :=
  match node.form with
  | .expression children => { node with form := .expression (children ++ [child]) }
  | .terminal => node

end Node

end NassiChart.Grammar
