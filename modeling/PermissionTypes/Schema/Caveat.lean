import PermissionTypes.Schema.Word

/-! Caveats: typed parameters and an expression between braces, which is kept as it is. -/

namespace PermissionTypes.Schema

open Schema.Parser

/-! ## Parameters -/

namespace Parameter

def typeShape (argument : Parser Unit) : Parser Unit := do
  let _ ← identifier
  let _ ← perhaps do
    character '<'
    trivia
    let _ ← separated (do trivia; character ','; trivia) argument
    trivia
    character '>'
  pure ()

/-! Arguments stand between angle brackets, so the number of characters left bounds their
depth. -/

def nestedType : Nat → Parser Unit
  | 0 => Parser.reject .construct
  | depth + 1 => typeShape (delay fun _ => nestedType depth)

def wholeType : Parser Unit where
  run cursor := (nestedType (cursor.rest.length + 1)).run cursor
  reaches cursor := (nestedType (cursor.rest.length + 1)).reaches cursor

end Parameter

def parameterType : Parser (List Char) :=
  textOf Parameter.wholeType

def parameter : Parser Parameter :=
  within .caveatParameter do
    let name ← identifier
    gap
    let type ← parameterType
    pure { name := String.ofList name, type := String.ofList type }

/-! ## Bodies

A body ends at the first closing brace that closes no brace of its own. Braces inside string
literals do not count. A literal is closed by the quote that opened it, and a backslash in it takes
the next character's meaning away. -/

namespace Caveat

inductive Region where
  | code
  | literal (quote : Char)
  | escaped (quote : Char)
  deriving DecidableEq, Repr

/-- How many braces are open, and whether a string literal is. -/
structure Nesting where
  depth : Nat
  region : Region
  deriving DecidableEq, Repr

namespace Nesting

def outermost : Nesting where
  depth := 0
  region := .code

def after? (nesting : Nesting) (character : Char) : Option Nesting :=
  match nesting.region with
  | .escaped quote => some { nesting with region := .literal quote }
  | .literal quote =>
      if character = '\\' then some { nesting with region := .escaped quote }
      else if character = quote then some { nesting with region := .code }
      else some nesting
  | .code =>
      if character = '"' ∨ character = '\'' then
        some { nesting with region := .literal character }
      else if character = '{' then some { nesting with depth := nesting.depth + 1 }
      else if character = '}' then
        match nesting.depth with
        | 0 => none
        | depth + 1 => some { nesting with depth }
      else some nesting

end Nesting

/-! A body and what follows it, from some nesting on. -/

def splitBody (nesting : Nesting) : List Char → Option (List Char × List Char)
  | [] => none
  | character :: rest =>
      match nesting.after? character with
      | none => some ([], character :: rest)
      | some next =>
          match splitBody next rest with
          | some (body, rest) => some (character :: body, rest)
          | none => none

theorem append_of_splitBody {nesting : Nesting} {text body rest : List Char}
    (equal : splitBody nesting text = some (body, rest)) : text = body ++ rest := by
  induction text generalizing nesting body rest with
  | nil => cases equal
  | cons character text induction =>
      rw [splitBody] at equal
      split at equal
      · cases equal
        rfl
      · split at equal
        · rename_i innerEqual
          cases equal
          rw [induction innerEqual, List.cons_append]
        · cases equal

/-- The body of a caveat. One that is never closed makes the whole text wrong at its end. -/
def body : Parser (List Char) where
  run cursor :=
    match splitBody .outermost cursor.rest with
    | some (body, rest) => .done body (cursor.advance body rest)
    | none => .aborted {
        stop := cursor.advance cursor.rest []
        expectation := .character '}'
        within := [] }
  reaches cursor := by
    split
    · rename_i body rest equal
      exact ⟨body, Cursor.reads_advance (append_of_splitBody equal)⟩
    · exact ⟨cursor.rest, Cursor.reads_advance (List.append_nil cursor.rest).symm⟩

end Caveat

def caveat : Parser Item := do
  keyword "caveat"
  commit <| within .caveat do
    gap
    let name ← named typeName
    trivia
    character '('
    trivia
    let parameters ← perhaps (separated (do trivia; character ','; trivia) parameter)
    trivia
    character ')'
    trivia
    character '{'
    let body ← Caveat.body
    character '}'
    pure (.caveat {
      name
      parameters := parameters.getD []
      expression := String.ofList body })

end PermissionTypes.Schema
