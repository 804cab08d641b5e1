/-!
# Documents

A document is the data of a report: integers, lists and records with their fields in order. It is written as JSON,
each field and each item on a line of its own, indented by two spaces for each level. Integers that may exceed the
range of a reader's numbers are written in quotes.
-/

namespace BondingCurve

/-- The data of a report. -/
inductive Document
  | number (value : Int)
  /-- An integer in quotes. -/
  | integerText (value : Int)
  | list (items : List Document)
  | record (fields : List (String × Document))

namespace Document

/-- The start of a line at a level. -/
def lineStart (level : Nat) : String :=
  "\n" ++ String.ofList (List.replicate (2 * level) ' ')

/-- Items between brackets, one on a line. -/
def enclose (opening closing : String) (level : Nat) (items : List String) : String :=
  if items.isEmpty then opening ++ closing
  else
    let separator := "," ++ lineStart (level + 1)
    opening ++ lineStart (level + 1) ++ separator.intercalate items ++ lineStart level ++ closing

mutual

/-- The text of a document at a level. -/
def render (level : Nat) : Document → String
  | number value => toString value
  | integerText value => "\"" ++ toString value ++ "\""
  | list items => enclose "[" "]" level (renderItems (level + 1) items)
  | record fields => enclose "\x7b" "\x7d" level (renderFields (level + 1) fields)

/-- The texts of items. -/
def renderItems (level : Nat) : List Document → List String
  | [] => []
  | item :: rest => render level item :: renderItems level rest

/-- The texts of fields, each with its name. -/
def renderFields (level : Nat) : List (String × Document) → List String
  | [] => []
  | (name, value) :: rest => ("\"" ++ name ++ "\": " ++ render level value) :: renderFields level rest

end

/-- The text of a document. -/
def toText (document : Document) : String :=
  document.render 0

end Document
end BondingCurve
