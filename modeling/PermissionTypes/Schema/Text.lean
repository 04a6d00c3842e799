import PermissionTypes.Diagnostic
import PermissionTypes.Schema.Caveat
import PermissionTypes.Schema.Definition

/-! The text of a schema: items in any order, with trivia around them. Reading always gives items
or a failure with a place. So no diagnostic says `incomplete schema`, which is for a text that goes
on, or `invalid schema`, which is for a failure without a place. -/

namespace PermissionTypes.Schema

open Schema.Parser

def useDirective : Parser Item := do
  keyword "use"
  commit <| within .useDirective do
    gap
    let feature ← named identifier
    pure (.feature feature)

def item : Parser Item :=
  definition <|> caveat <|> useDirective

def items : Parser (List Item) := do
  trivia
  let items ← many do
    let item ← item
    trivia
    pure item
  endOfText
  pure items

def read (text : List Char) : Except Failure (List Item) :=
  match items.run (.ofText text) with
  | .done items _ => .ok items
  | .rejected failure => .error failure
  | .aborted failure => .error failure

def parse (schema : String) : Except Diagnostic (List Item) :=
  match read schema.toList with
  | .ok items => .ok items
  | .error failure => .error (.atOffset failure.describe schema failure.stop.offset)

end PermissionTypes.Schema
