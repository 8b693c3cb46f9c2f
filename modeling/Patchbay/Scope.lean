import Patchbay.Dimension
import Patchbay.Program
import Patchbay.Table

/-!
# Scopes

A scope binds names to symbols. Scopes stand in a list and refer to their parents by number, so the scopes
of a program form a tree whose branches are followed upwards. The number of a scope is its place; a negative
number counts from the last scope backwards, and means the scope that stands there when it is reached.
-/

namespace Patchbay

/-- What a name can stand for. -/
inductive SymbolKind where
  | primitive
  | userDefined
  | imported
  | parameter
  | ui
deriving DecidableEq, Repr, Inhabited

namespace SymbolKind

/-- The name of a kind of symbol. -/
def name : SymbolKind → String
  | .primitive => "primitive"
  | .userDefined => "user_defined"
  | .imported => "imported"
  | .parameter => "parameter"
  | .ui => "ui"

/-- All kinds of symbols. -/
def all : List SymbolKind := [.primitive, .userDefined, .imported, .parameter, .ui]

/-- The kind with this name. -/
def ofName? (name : String) : Option SymbolKind := all.find? fun k => k.name == name

end SymbolKind

/-- What a name stands for. The dimension is unknown for definitions, which are sized later, and for names
of libraries that are known by their prefix only. -/
structure Symbol where
  name : String
  kind : SymbolKind
  arity : Option Dimension := none
  /-- Where the name is bound. -/
  site : Option Position := none
  definition : Option Definition := none
  library : Option String := none
  delay : Bool := false
deriving Repr, Inhabited

/-- Names and what they stand for, in order of binding. -/
structure Scope where
  parent : Option Int
  bindings : Table String Symbol
deriving Repr, Inhabited

/-- Scopes, each known by its place. -/
structure ScopeTree where
  scopes : List Scope
deriving Repr, Inhabited

namespace ScopeTree

/-- No scopes. -/
def empty : ScopeTree := ⟨[]⟩

/-- The place of the next scope. -/
def size (t : ScopeTree) : Nat := t.scopes.length

/-- The scope at a place. -/
def get? (t : ScopeTree) (scope : Nat) : Option Scope := t.scopes[scope]?

/-- The place that a number stands for, if there is a scope. -/
def place? (t : ScopeTree) : Int → Option Nat
  | .ofNat place => if place < t.size then some place else none
  | .negSucc back => if back < t.size then some (t.size - 1 - back) else none

/-- Adds a scope without names. -/
def add (t : ScopeTree) (parent : Option Int) : ScopeTree := ⟨t.scopes ++ [⟨parent, .empty⟩]⟩

/-- Binds a name in a scope; a name bound before keeps its place. -/
def bind (t : ScopeTree) (scope : Nat) (symbol : Symbol) : ScopeTree :=
  ⟨t.scopes.modify scope fun s => { s with bindings := s.bindings.insert symbol.name symbol }⟩

/-- The symbol of a name in one scope. -/
def bound? (t : ScopeTree) (scope : Nat) (name : String) : Option Symbol :=
  (t.get? scope).bind fun s => s.bindings.get? name

/-- The scopes from one upwards; an upward path visits no scope twice, so the number of scopes is fuel
enough. A parent that does not exist ends the path with its number. -/
def path (t : ScopeTree) : (fuel : Nat) → Option Int → List Scope × Option Int
  | 0, _ => ([], none)
  | _ + 1, none => ([], none)
  | fuel + 1, some scope =>
    match (t.place? scope).bind t.get? with
    | none => ([], some scope)
    | some s =>
      let (above, missing) := t.path fuel s.parent
      (s :: above, missing)

/-- The scopes from one upwards. -/
def above (t : ScopeTree) (scope : Option Int) : List Scope := (t.path (t.size + 1) scope).1

/-- The symbol of a name seen from a scope: the innermost binding counts. -/
def find? (t : ScopeTree) (scope : Option Int) (name : String) : Option Symbol :=
  (t.above scope).findSome? fun s => s.bindings.get? name

/-- All names seen from a scope, innermost first; a name bound twice is listed twice. -/
def visibleNames (t : ScopeTree) (scope : Option Int) : List String :=
  (t.above scope).flatMap fun s => s.bindings.keys

/-- The symbol of a name seen from a scope; a fault if a scope that does not exist is reached first. -/
def lookup (t : ScopeTree) (scope : Option Int) (name : String) : Except Fault (Option Symbol) :=
  match t.find? scope name, (t.path (t.size + 1) scope).2 with
  | some symbol, _ => .ok (some symbol)
  | none, none => .ok none
  | none, some _ => .error .outOfRange

/-- All names seen from a scope; a fault if a scope that does not exist is reached. -/
def allNames (t : ScopeTree) (scope : Option Int) : Except Fault (List String) :=
  match (t.path (t.size + 1) scope).2 with
  | none => .ok (t.visibleNames scope)
  | some _ => .error .outOfRange

/-- The place that a number stands for; a fault if there is no scope. -/
def placeOf (t : ScopeTree) (scope : Int) : Except Fault Nat :=
  match t.place? scope with
  | some place => .ok place
  | none => .error .outOfRange

end ScopeTree

end Patchbay
