/-!
# Outlines of structured data

An outline is the shape of a piece of data for a reader: words, tuples, records and tables. It has
two printed forms. The inline form stands on one line; the block form gives each item a line of its
own, indented by four spaces and followed by a comma.

## Implementation notes

Both forms are read off the same outline, so the text inside a message and the text of a listing
cannot drift apart.
-/

namespace RecordMapping.Text

/-- The shape of a piece of data for a reader. -/
inductive Outline where
  /-- A word, already spelled out. -/
  | word (text : String)
  /-- An item with a label in front of it. -/
  | named (label : String) (body : Outline)
  /-- A name applied to unnamed items. -/
  | tuple (name : String) (items : List Outline)
  /-- A name with labelled items; `abridged` when further items are left out. -/
  | record (name : String) (items : List Outline) (abridged : Bool)
  /-- Items between braces without a name. -/
  | table (items : List Outline)

namespace Outline

/-- The items of a record with a mark for those left out. -/
def closeRecord (name : String) (items : List String) (abridged : Bool) : String :=
  match items ++ (if abridged then [".."] else []) with
  | [] => name
  | parts => name ++ " \x7b " ++ String.intercalate ", " parts ++ " \x7d"

mutual

/-- The outline on one line. -/
def inline : Outline → String
  | .word text => text
  | .named label body => label ++ ": " ++ body.inline
  | .tuple name items => name ++ "(" ++ String.intercalate ", " (inlineEach items) ++ ")"
  | .record name items abridged => closeRecord name (inlineEach items) abridged
  | .table items => "\x7b" ++ String.intercalate ", " (inlineEach items) ++ "\x7d"

/-- The inline form of each item. -/
def inlineEach : List Outline → List String
  | [] => []
  | item :: rest => item.inline :: inlineEach rest

end

/-- Put a text in front of the first line. -/
def prependFirst (text : String) : List String → List String
  | [] => [text]
  | line :: rest => (text ++ line) :: rest

/-- Put a text behind the last line. -/
def appendLast (text : String) : List String → List String
  | [] => []
  | [line] => [line ++ text]
  | line :: rest => line :: appendLast text rest

/-- One step of indentation. -/
def indent (lines : List String) : List String := lines.map ("    " ++ ·)

mutual

/-- The lines of the block form. -/
def lines : Outline → List String
  | .word text => [text]
  | .named label body => prependFirst (label ++ ": ") body.lines
  | .tuple name items => (name ++ "(") :: indent (itemLines items) ++ [")"]
  | .record name items abridged =>
      (name ++ " \x7b") :: indent (itemLines items ++ if abridged then [".."] else []) ++ ["\x7d"]
  | .table items => "\x7b" :: indent (itemLines items) ++ ["\x7d"]

/-- The lines of the items, each item closed by a comma. -/
def itemLines : List Outline → List String
  | [] => []
  | item :: rest => appendLast "," item.lines ++ itemLines rest

end

/-- The outline with a line for each item. -/
def block (o : Outline) : String := String.intercalate "\n" o.lines

/-- The outline of a text that is absent or present. -/
def option : Option Outline → Outline
  | none => .word "None"
  | some body => .tuple "Some" [body]

end Outline

end RecordMapping.Text
