/-!
# Records as text

A record is written with its title and its labelled fields, either on one line or with a
line of its own for each field.
-/

namespace ExpiringMap.Text

/-- The text of a field: a word as it stands, or a word inside a named wrapper. -/
inductive Field
  | word (text : String)
  | wrapped (name : String) (inner : Field)

/-- An optional field: a bare `None`, or the value in the wrapper `Some`. -/
def Field.optional : Option String → Field
  | none => .word "None"
  | some text => .wrapped "Some" (.word text)

def Field.inLine : Field → String
  | .word text => text
  | .wrapped name inner => name ++ "(" ++ inner.inLine ++ ")"

def indentation : String := "    "

/-- The field over several lines, the first of which follows what is already written; the
later ones are indented by `margin`. -/
def Field.overLines (margin : String) : Field → String
  | .word text => text
  | .wrapped name inner =>
      name ++ "(\n" ++ margin ++ indentation ++ inner.overLines (margin ++ indentation) ++ ",\n" ++
        margin ++ ")"

/-- A titled list of labelled fields. -/
structure Record where
  title : String
  fields : List (String × Field)

def Record.inLine (record : Record) : String :=
  let fields := record.fields.map fun (label, field) => label ++ ": " ++ field.inLine
  record.title ++ " \x7b " ++ String.intercalate ", " fields ++ " \x7d"

def Record.overLines (record : Record) : String :=
  let fields := record.fields.map fun (label, field) =>
    indentation ++ label ++ ": " ++ field.overLines indentation ++ ",\n"
  record.title ++ " \x7b\n" ++ String.join fields ++ "\x7d"

/-- How a record is laid out. -/
inductive Layout
  | inLine
  | overLines

def Record.render (record : Record) : Layout → String
  | .inLine => record.inLine
  | .overLines => record.overLines

end ExpiringMap.Text
