import Patchbay.Report

/-!
# Reports as documents

A report is written as free data and read back from it. What is written here is what the command line
prints and what a store keeps.
-/

namespace Patchbay

open Checked

/-! ## Writing -/

/-- A place as a document. -/
def Position.toDatum (p : Position) : Datum := .record [("line", .int p.line), ("column", .int p.column)]

/-- A dimension as a document. -/
def Dimension.toDatum (d : Dimension) : Datum :=
  .record [("inputs", .int d.inputs), ("outputs", .int d.outputs)]

/-- A diagnostic as a document. -/
def Diagnostic.toDatum (d : Diagnostic) : Datum :=
  .record [("kind", .text d.kind.name), ("severity", .text d.severity.name),
    ("line", .int d.position.line), ("column", .int d.position.column), ("message", .text d.message),
    ("subtype", Datum.ofOption (fun s => .text s.name) d.subtype),
    ("suggestion", Datum.ofOption .text d.suggestion),
    ("related_locations", .list (d.related.map Position.toDatum)), ("data", .record d.data.entries)]

mutual

/-- A definition of an outline as a document. -/
def DefinitionInfo.toDatum : DefinitionInfo → Datum
  | ⟨name, line, params, dimension, locals⟩ =>
    .record [("name", .text name), ("line", .int line), ("params", .list (params.map .text)),
      ("dimension", Datum.ofOption Dimension.toDatum dimension),
      ("locals", .list (DefinitionInfo.toData locals))]

/-- Definitions of an outline as documents. -/
def DefinitionInfo.toData : List DefinitionInfo → List Datum
  | [] => []
  | d :: ds => d.toDatum :: DefinitionInfo.toData ds

end

/-- An import as a document. -/
def ImportInfo.toDatum (i : ImportInfo) : Datum :=
  .record [("path", .text i.path), ("line", .int i.line), ("found", .bool i.found)]

/-- A control as a document. -/
def Control.toDatum (c : Control) : Datum :=
  .record [("kind", .text c.kind), ("label", .text c.label), ("path", .text c.path),
    ("line", .int c.position.line), ("column", .int c.position.column),
    ("default", Datum.ofOption .float c.initial), ("min", Datum.ofOption .float c.low),
    ("max", Datum.ofOption .float c.high), ("step", Datum.ofOption .float c.step),
    ("definition", .text c.owner)]

/-- A declaration as a document. -/
def DeclarationInfo.toDatum (d : DeclarationInfo) : Datum :=
  .record [("key", .text d.key), ("value", .text d.value), ("line", .int d.line)]

/-- Counts as a document. -/
def Metrics.toDatum (m : Metrics) : Datum :=
  .record [("lines", .int m.lines), ("characters", .int m.characters), ("tokens", .int m.tokens),
    ("identifiers", .int m.identifiers), ("operators", .int m.operators), ("numbers", .int m.numbers),
    ("strings", .int m.strings)]

/-- An outline as a document, together with the diagnostics of its report. -/
def Outline.toDatum (diagnostics : List Diagnostic) (o : Outline) : Datum :=
  .record [("detail_level", .text o.detail.name),
    ("definitions", .list (DefinitionInfo.toData o.definitions)),
    ("imports", .list (o.imports.map ImportInfo.toDatum)),
    ("parameters", .list (o.controls.map Control.toDatum)),
    ("declarations", .list (o.declarations.map DeclarationInfo.toDatum)),
    ("diagnostics", .list (diagnostics.map Diagnostic.toDatum)),
    ("has_process", Datum.ofOption .bool o.hasProcess),
    ("unused_definitions", Datum.ofOption (fun names => .list (names.map .text)) o.unused),
    ("metrics", Datum.ofOption Metrics.toDatum o.metrics)]

/-- A report as a document. -/
def Report.toDatum (r : Report) : Datum :=
  .record [("valid", .bool r.valid), ("diagnostics", .list (r.diagnostics.map Diagnostic.toDatum)),
    ("quick_fixes", .list (r.quickFixes.map Diagnostic.toDatum)),
    ("structure", Datum.ofOption (Outline.toDatum r.diagnostics) r.outline),
    ("source_hash", Datum.ofOption .text r.digest)]

/-! ## Reading -/

/-- A place from a document. -/
def Position.check (datum : Datum) : Checked Position := do
  let fields ← datum.checkRecord
  let (line, column) ← zip (Datum.required "line" Datum.checkInt fields)
    (Datum.required "column" Datum.checkInt fields)
  return ⟨line, column⟩

/-- A diagnostic from a document. -/
def Diagnostic.check (datum : Datum) : Checked Diagnostic := do
  let fields ← datum.checkRecord
  let (kind, severity, line, column, message, subtype, suggestion, related, data) ←
    zip (Datum.required "kind" (Datum.checkNamed DiagnosticKind.all DiagnosticKind.name) fields)
      (zip (Datum.required "severity" (Datum.checkNamed Severity.all Severity.name) fields)
        (zip (Datum.required "line" Datum.checkInt fields)
          (zip (Datum.required "column" Datum.checkInt fields)
            (zip (Datum.required "message" Datum.checkText fields)
              (zip (Datum.defaulted "subtype" none
                  (Datum.checkOption (Datum.checkNamed Mismatch.all Mismatch.name)) fields)
                (zip (Datum.defaulted "suggestion" none (Datum.checkOption Datum.checkText) fields)
                  (zip (Datum.defaulted "related_locations" [] (Datum.checkList Position.check) fields)
                    (Datum.defaulted "data" .empty (Datum.checkTable .ok) fields))))))))
  return ⟨kind, severity, ⟨line, column⟩, message, subtype, suggestion, related, data⟩

/-- A definition of an outline from a document; each level takes one from the fuel, so the depth of the
document is enough. -/
def DefinitionInfo.check : (fuel : Nat) → Datum → Checked DefinitionInfo
  | 0, _ => refuse .modelType
  | fuel + 1, datum => do
    let fields ← datum.checkRecord
    let (name, line, params, dimension, locals) ←
      zip (Datum.required "name" Datum.checkText fields)
        (zip (Datum.required "line" Datum.checkInt fields)
          (zip (Datum.defaulted "params" [] (Datum.checkList Datum.checkText) fields)
            (zip (Datum.defaulted "dimension" none (Datum.checkOption Dimension.check) fields)
              (Datum.defaulted "locals" [] (Datum.checkList (DefinitionInfo.check fuel)) fields))))
    return ⟨name, line, params, dimension, locals⟩

/-- An import from a document. -/
def ImportInfo.check (datum : Datum) : Checked ImportInfo := do
  let fields ← datum.checkRecord
  let (path, line, found) ← zip (Datum.required "path" Datum.checkText fields)
    (zip (Datum.required "line" Datum.checkInt fields)
      (Datum.defaulted "found" true Datum.checkBool fields))
  return ⟨path, line, found⟩

/-- A control from a document. -/
def Control.check (datum : Datum) : Checked Control := do
  let fields ← datum.checkRecord
  let amount (name : String) := Datum.defaulted name none (Datum.checkOption Datum.checkFloat) fields
  let (kind, label, path, line, column, initial, low, high, step, owner) ←
    zip (Datum.required "kind" Datum.checkText fields)
      (zip (Datum.required "label" Datum.checkText fields)
        (zip (Datum.required "path" Datum.checkText fields)
          (zip (Datum.required "line" Datum.checkInt fields)
            (zip (Datum.required "column" Datum.checkInt fields)
              (zip (amount "default") (zip (amount "min") (zip (amount "max") (zip (amount "step")
                (Datum.required "definition" Datum.checkText fields)))))))))
  return ⟨kind, label, path, ⟨line, column⟩, initial, low, high, step, owner⟩

/-- A declaration from a document. -/
def DeclarationInfo.check (datum : Datum) : Checked DeclarationInfo := do
  let fields ← datum.checkRecord
  let (key, value, line) ← zip (Datum.required "key" Datum.checkText fields)
    (zip (Datum.required "value" Datum.checkText fields) (Datum.required "line" Datum.checkInt fields))
  return ⟨key, value, line⟩

/-- Counts from a document. -/
def Metrics.check (datum : Datum) : Checked Metrics := do
  let fields ← datum.checkRecord
  let count (name : String) := Datum.defaulted name 0 Datum.checkInt fields
  let (lines, characters, tokens, identifiers, operators, numbers, strings) ←
    zip (count "lines") (zip (count "characters") (zip (count "tokens") (zip (count "identifiers")
      (zip (count "operators") (zip (count "numbers") (count "strings"))))))
  return ⟨lines, characters, tokens, identifiers, operators, numbers, strings⟩

/-- An outline from a document. -/
def Outline.check (datum : Datum) : Checked Outline := do
  let fields ← datum.checkRecord
  let items {α : Type} (name : String) (check : Datum → Checked α) :=
    Datum.defaulted name [] (Datum.checkList check) fields
  let (detail, definitions, imports, controls, declarations, hasProcess, unused, metrics) ←
    zip (Datum.defaulted "detail_level" .basic (Datum.checkNamed Detail.all Detail.name) fields)
      (zip (items "definitions" (DefinitionInfo.check datum.depth))
        (zip (items "imports" ImportInfo.check)
          (zip (items "parameters" Control.check)
            (zip (items "declarations" DeclarationInfo.check)
              (zip (Datum.defaulted "has_process" none (Datum.checkOption Datum.checkBool) fields)
                (zip (Datum.defaulted "unused_definitions" none
                    (Datum.checkOption (Datum.checkList Datum.checkText)) fields)
                  (Datum.defaulted "metrics" none (Datum.checkOption Metrics.check) fields)))))))
  return ⟨detail, definitions, imports, controls, declarations, hasProcess, unused, metrics⟩

/-- A report from a document. -/
def Report.check (datum : Datum) : Checked Report := do
  let fields ← datum.checkRecord
  let (valid, diagnostics, quickFixes, outline, digest) ←
    zip (Datum.required "valid" Datum.checkBool fields)
      (zip (Datum.defaulted "diagnostics" [] (Datum.checkList Diagnostic.check) fields)
        (zip (Datum.defaulted "quick_fixes" [] (Datum.checkList Diagnostic.check) fields)
          (zip (Datum.defaulted "structure" none (Datum.checkOption Outline.check) fields)
            (Datum.defaulted "source_hash" none (Datum.checkOption Datum.checkText) fields))))
  return ⟨valid, diagnostics, quickFixes, outline, digest⟩

end Patchbay
