import PermissionTypes.Schema.Word

/-! Permission expressions. Exclusion binds tightest, then intersection, then union, and a walk
along a relation binds tighter than all three. -/

namespace PermissionTypes.Schema

open Schema.Parser

namespace Expression

/-! ## Members and walks -/

def quantifier : Parser Arrow :=
  (do keyword "any"; pure .any) <|> (do keyword "all"; pure .all)

def walkTarget : Parser (Arrow × Name) :=
  (do
    trivia
    exactly ['-', '>']
    trivia
    let target ← commit (named identifier)
    pure (.each, target)) <|>
  (do
    character '.'
    let arrow ← quantifier
    let target ← commit do
      character '('
      trivia
      let target ← named identifier
      trivia
      character ')'
      pure target
    pure (arrow, target))

def memberOrWalk : Parser Expression := do
  let name ← named identifier
  match ← perhaps walkTarget with
  | some (arrow, target) => pure (.walk arrow name target)
  | none => pure (.member name)

def operand (inner : Parser Expression) : Parser Expression :=
  within .expression <|
    (do
      keyword "nil"
      pure .nothing) <|>
    (do
      character '('
      trivia
      let expression ← commit inner
      commit do
        trivia
        character ')'
      pure expression) <|>
    memberOrWalk

/-! ## Operators -/

def operation (operator : Parser Unit) (operand : Parser Expression) : Parser Expression := do
  trivia
  operator
  trivia
  commit operand

/-- The sign of an exclusion. It is not the beginning of an arrow. -/
def minus : Parser Unit := do
  character '-'
  notBefore (· == '>')

/-- One operand stays as it is. Several become the operands of one flat node. -/
def flat (combine : List Expression → Expression) (first : Expression) :
    List Expression → Expression
  | [] => first
  | next :: more => combine (first :: next :: more)

def exclusions (operand : Parser Expression) : Parser Expression := do
  let first ← operand
  let more ← many (operation minus operand)
  pure (more.foldl .exclusion first)

def intersections (operand : Parser Expression) : Parser Expression := do
  let first ← exclusions operand
  let more ← many (operation (character '&') (exclusions operand))
  pure (flat .intersection first more)

def unions (operand : Parser Expression) : Parser Expression := do
  let first ← intersections operand
  let more ← many (operation (character '+') (intersections operand))
  pure (flat .union first more)

/-! ## Nesting

Each pair of parentheses takes two characters, so the number of characters left bounds the depth
of an expression. -/

def nested : Nat → Parser Expression
  | 0 => Parser.reject .construct
  | depth + 1 => unions (operand (delay fun _ => nested depth))

end Expression

def expression : Parser Expression where
  run cursor := (Expression.nested (cursor.rest.length + 1)).run cursor
  reaches cursor := (Expression.nested (cursor.rest.length + 1)).reaches cursor

end PermissionTypes.Schema
