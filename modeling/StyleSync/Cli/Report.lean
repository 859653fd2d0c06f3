import StyleSync.Json.Writer
import StyleSync.Session.Options
import StyleSync.Sheet.Host

/-! # Reports of a run

A run ends with the class names, if it made any, and the sheet. The report shows them as plain text
with marks for a terminal, or as JSON.
-/

set_option autoImplicit false

namespace StyleSync

/-! ## Records as JSON -/

/-- A declaration as an object. -/
def Declaration.toJson (declaration : Declaration) : Json :=
  .object [("property", .string declaration.property), ("value", .string declaration.value)]

/-- Declarations as an array. -/
def Declaration.listToJson (declarations : List Declaration) : Json :=
  .array (declarations.map toJson)

/-- The fields of a style rule. -/
def StyleRecord.fields (rule : StyleRecord) : List (String × Json) :=
  [("selector", .string rule.selector),
    ("declarations", Declaration.listToJson rule.declarations)]

/-- A record as an object with its kind. -/
def Record.toJson : Record → Json
  | .style rule => .object (("kind", .string "style") :: rule.fields)
  | .media condition rule =>
    .object [("kind", .string "media"), ("condition", .string condition),
      ("rule", .object rule.fields)]
  | .keyframes name body =>
    .object [("kind", .string "keyframes"), ("name", .string name), ("body", .string body)]

namespace Cli

/-! ## Marks for a terminal -/

/-- The mark that begins with the escape character. -/
def mark (code : String) : String :=
  "\x1b[" ++ code ++ "m"

/-- Bold text. -/
def bold (text : String) : String :=
  mark "1" ++ text ++ mark "0"

/-- Dimmed text. -/
def dimmed (text : String) : String :=
  mark "2" ++ text ++ mark "0"

/-- Text in cyan. -/
def cyan (text : String) : String :=
  mark "36" ++ text ++ mark "39"

/-! ## Reports -/

/-- What a run ends with. -/
structure Report where
  names : Option ClassNames
  sheet : Sheet

namespace Report

/-- The report as JSON. -/
def toJson (report : Report) : Json :=
  let rules : Json := .array (report.sheet.records.map Record.toJson)
  match report.names with
  | some names => .object [("classNames", names.toJson), ("rules", rules)]
  | none => .object [("rules", rules)]

/-- The lines about the class names, the last of them empty. -/
def nameLines (names : ClassNames) : List String :=
  bold "=== Class Names ===" ::
    (names.entries.map fun entry => entry.1 ++ " " ++ dimmed "->" ++ " " ++ cyan entry.2) ++ [""]

/-- The lines about the sheet. -/
def sheetLines (sheet : Sheet) : List String :=
  bold "=== Stylesheet ===" :: (toString sheet.size ++ " rules") ::
    (if sheet.size = 0 then [] else [sheet.css])

/-- The report as plain text. -/
def plain (report : Report) : String :=
  let lines := (report.names.map nameLines).getD [] ++ sheetLines report.sheet
  String.join (lines.map fun line => line ++ "\n")

end Report

end Cli

end StyleSync
