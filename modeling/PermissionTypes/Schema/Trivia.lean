import PermissionTypes.Schema.Parser

/-! Trivia: blanks and comments. A line comment ends before the end of its line, and a block
comment at the first `*/` behind its opening. -/

namespace PermissionTypes.Schema

open Schema.Parser

namespace Trivia

def isBlank (character : Char) : Bool :=
  character == ' ' || character == '\t' || character == '\n' || character == '\r'

def isLineEnd (character : Char) : Bool :=
  character == '\n' || character == '\r'

def blanks : Parser Unit := do
  let _ ← oneOf isBlank
  let _ ← takeWhile isBlank
  pure ()

def lineComment : Parser Unit := do
  exactly ['/', '/']
  let _ ← takeWhile fun character => !isLineEnd character
  pure ()

/-! A block comment behind its opening, with the closing `*/`, and what follows it. -/

def splitComment : List Char → Option (List Char × List Char)
  | [] => none
  | character :: rest =>
      if ['*', '/'].isPrefixOf (character :: rest) then
        some (['*', '/'], rest.drop 1)
      else
        match splitComment rest with
        | some (comment, rest) => some (character :: comment, rest)
        | none => none

theorem append_of_splitComment {text comment rest : List Char}
    (equal : splitComment text = some (comment, rest)) : text = comment ++ rest := by
  induction text generalizing comment rest with
  | nil => cases equal
  | cons character text induction =>
      rw [splitComment] at equal
      split at equal
      · rename_i closing
        rcases List.isPrefixOf_iff_prefix.mp closing with ⟨behind, behindEqual⟩
        cases equal
        cases behindEqual
        rfl
      · split at equal
        · rename_i inner innerRest innerEqual
          cases equal
          rw [induction innerEqual, List.cons_append]
        · cases equal

def restOfBlockComment : Parser Unit where
  run cursor :=
    match splitComment cursor.rest with
    | some (text, rest) => .done () (cursor.advance text rest)
    | none => .rejected { stop := cursor, expectation := .construct, within := [] }
  reaches cursor := by
    split
    · rename_i text rest equal
      exact ⟨text, Cursor.reads_advance (append_of_splitComment equal)⟩
    · exact .refl cursor

def blockComment : Parser Unit := do
  exactly ['/', '*']
  commit (within .blockComment restOfBlockComment)

def piece : Parser Unit :=
  blanks <|> lineComment <|> blockComment

end Trivia

def trivia : Parser Unit := do
  let _ ← many Trivia.piece
  pure ()

def gap : Parser Unit := do
  let _ ← many1 Trivia.piece
  pure ()

end PermissionTypes.Schema
