/-!
# Faults

A fault ends an analysis without a report. Problems in a program are findings, never faults: faults
come from numbers that no computation can hold, from malformed templates, and from what callers hand in.
-/

namespace Patchbay

/-- What is wrong with a datum that a caller handed in. -/
inductive Complaint where
  | missing
  | greaterThanEqual
  | greaterThan
  | intType
  | intParsing
  | intParsingSize
  | intFromFloat
  | finiteNumber
  | floatType
  | floatParsing
  | stringType
  | boolType
  | boolParsing
  | dictType
  | listType
  | modelType
  | enum
deriving DecidableEq, Repr, Inhabited

/-- The name of a complaint. -/
def Complaint.name : Complaint → String
  | .missing => "missing"
  | .greaterThanEqual => "greater_than_equal"
  | .greaterThan => "greater_than"
  | .intType => "int_type"
  | .intParsing => "int_parsing"
  | .intParsingSize => "int_parsing_size"
  | .intFromFloat => "int_from_float"
  | .finiteNumber => "finite_number"
  | .floatType => "float_type"
  | .floatParsing => "float_parsing"
  | .stringType => "string_type"
  | .boolType => "bool_type"
  | .boolParsing => "bool_parsing"
  | .dictType => "dict_type"
  | .listType => "list_type"
  | .modelType => "model_type"
  | .enum => "enum"

/-- A step from a datum to one of its parts. -/
inductive Step where
  | key (name : String)
  | index (place : Nat)
deriving DecidableEq, Repr, Inhabited

/-- A complaint about the part of a datum that the steps lead to. -/
structure Objection where
  path : List Step
  complaint : Complaint
deriving DecidableEq, Repr, Inhabited

/-- Why there is no report. -/
inductive Fault where
  /-- An infinite number was to become a whole number. -/
  | infiniteCount
  /-- Not-a-number was to become a whole number. -/
  | undefinedCount
  /-- A hexadecimal number is too large for a double. -/
  | oversizedNumber
  /-- A whole number has more digits than are written or read. -/
  | tooManyDigits
  /-- A template of the advice table cannot be filled in. -/
  | malformedTemplate
  /-- A number was to be shown as a character and is the code of none. -/
  | notCharacter
  /-- A text was to be wider than texts can be. -/
  | oversizedText
  /-- A template asks for a part that the value of a field does not have. -/
  | missingPart
  /-- A record has no field with the name asked for. -/
  | missingKey
  /-- A report was to be remembered where there is room for fewer than none. -/
  | noRoom
  /-- A value is not among those known. -/
  | unknownValue
  /-- There is no operator with the symbol. -/
  | unknownOperator
  /-- There is no item at the place asked for. -/
  | outOfRange
  /-- A value has the wrong type. -/
  | wrongType
  /-- The dictionary of libraries has no such library. -/
  | libraryNotFound (name : String)
  /-- A datum is not what it should be. -/
  | invalid (objections : List Objection)
  /-- A closing style in text for the console closes nothing, or an action that it closes is malformed. -/
  | malformedMarkup
  /-- A colour in text for the console has a share that is no number. -/
  | malformedColor
  /-- A path, or a step of it, is longer than paths can be. -/
  | pathTooLong
  /-- A path has a character that no path has. -/
  | malformedPath
  /-- A folder was to be read as a file. -/
  | isFolder
  /-- A file holds no text. -/
  | notText
  /-- A file was to be used as a store and is none. -/
  | notStore
  /-- A store cannot be made where it was to be. -/
  | cannotOpenStore
deriving DecidableEq, Repr, Inhabited

/-- The message of a fault, where it has one. -/
def Fault.message : Fault → Option String
  | .infiniteCount => some "cannot convert float infinity to integer"
  | .oversizedNumber => some "int too large to convert to float"
  | .notCharacter => some "%c arg not in range(0x110000)"
  | .libraryNotFound name => some ("library '" ++ name ++ "' is not in the import dictionary")
  | _ => none

/-- Where something is seen of a result, there is one. -/
theorem exists_ok_of_view {α β : Type} {result : Except Fault α} {view : α → β} {seen : β}
    (h : result.toOption.map view = some seen) : ∃ a, result = .ok a ∧ view a = seen := by
  cases result with
  | error fault => simp [Except.toOption] at h
  | ok a => exact ⟨a, rfl, by simpa [Except.toOption] using h⟩

end Patchbay
