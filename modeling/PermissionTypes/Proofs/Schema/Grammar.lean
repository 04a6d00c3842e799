import PermissionTypes.Proofs.Schema.Spelling
import PermissionTypes.Schema.Caveat
import PermissionTypes.Schema.Expression
import PermissionTypes.Text.Split

/-! The grammar of schema text. Each part of the tree has its spellings. What a spelling adds to
the tree is trivia and the parentheses around whole expressions. Names, types of parameters and
bodies of caveats are written as they are, and the shape of a tree says what they may be. -/

namespace PermissionTypes.Schema

namespace Grammar

open Trivia (isBlank isLineEnd)

/-! ## Trivia -/

/-- One blank, one line comment with its line end, or one block comment. -/
inductive IsPiece : List Char → Prop
  | blank {character : Char} (blank : isBlank character = true) : IsPiece [character]
  | lineComment {comment : List Char} {lineEnd : Char}
      (inLine : ∀ character ∈ comment, isLineEnd character = false)
      (ends : isLineEnd lineEnd = true) : IsPiece ('/' :: '/' :: (comment ++ [lineEnd]))
  | blockComment {comment : List Char} (inside : ¬ ['*', '/'] <:+: comment) :
      IsPiece ('/' :: '*' :: (comment ++ ['*', '/']))

inductive IsTrivia : List Char → Prop
  | nil : IsTrivia []
  | cons {piece more : List Char} (isPiece : IsPiece piece) (isTrivia : IsTrivia more) :
      IsTrivia (piece ++ more)

/-- Nothing, or a line comment without the end of its line. -/
def IsOpenComment (text : List Char) : Prop :=
  text = [] ∨
    ∃ comment, (∀ character ∈ comment, isLineEnd character = false) ∧
      text = '/' :: '/' :: comment

def trivia : Spelling :=
  .language IsTrivia

def gap : Spelling :=
  .language fun text => IsTrivia text ∧ text ≠ []

/-! ## Words -/

def IsIdentifier (text : List Char) : Prop :=
  ∃ first more, text = first :: more ∧ isLetter first = true ∧
    ∀ character ∈ more, isWordCharacter character = true

def IsPath (text : List Char) : Prop :=
  ∃ identifiers : List (List Char), identifiers ≠ [] ∧
    (∀ identifier ∈ identifiers, IsIdentifier identifier) ∧
    text = Text.join ['/'] identifiers

def word (text : String) : Spelling :=
  .exactly text.toList

def sign (character : Char) : Spelling :=
  .exactly [character]

def between (separator : Char) : Spelling :=
  trivia ++ sign separator ++ trivia

def inParentheses (inner : Spelling) : Spelling :=
  sign '(' ++ trivia ++ inner ++ trivia ++ sign ')'

/-! ## Expressions -/

def walkTarget (target : Name) : Arrow → Spelling
  | .each => trivia ++ .exactly ['-', '>'] ++ trivia ++ .name target
  | .any => sign '.' ++ word "any" ++ inParentheses (.name target)
  | .all => sign '.' ++ word "all" ++ inParentheses (.name target)

def simple : Expression → Spelling
  | .nothing => word "nil"
  | .member name => .name name
  | .walk arrow relation target => .name relation ++ walkTarget target arrow
  | .union _ => .never
  | .intersection _ => .never
  | .exclusion _ _ => .never

def operand (inner : Expression → Spelling) (expression : Expression) : Spelling :=
  .either (simple expression) (inParentheses (inner expression))

def operation (operator : Char) (combine : Expression → List Expression → Expression)
    (operand : Expression → Spelling) (expression : Expression) : Spelling :=
  .oneOf fun first => .oneOf fun more => .provided (expression = combine first more)
    (.separated (between operator) operand (first :: more))

def exclusions (operand : Expression → Spelling) : Expression → Spelling :=
  operation '-' (fun first more => more.foldl .exclusion first) operand

def intersections (operand : Expression → Spelling) : Expression → Spelling :=
  operation '&' (Expression.flat .intersection) (exclusions operand)

def unions (operand : Expression → Spelling) : Expression → Spelling :=
  operation '+' (Expression.flat .union) (intersections operand)

/-- Expressions whose parentheses are nested less deep than a bound. -/
def nested : Nat → Expression → Spelling
  | 0 => fun _ => .never
  | depth + 1 => unions (operand (nested depth))

def expression (expression : Expression) : Spelling :=
  .oneOf fun depth => nested depth expression

/-! ## Relations and permissions -/

def subject : Subject → Spelling
  | .object => .exactly []
  | .everyone => .exactly [':', '*']
  | .relation name => sign '#' ++ .name name

def traits : List Name → Spelling
  | [] => .exactly []
  | first :: more =>
      gap ++ word "with" ++ gap ++
        .separated (gap ++ word "and" ++ gap) .name (first :: more)

def subjectType (type : SubjectType) : Spelling :=
  .name type.type ++ subject type.subject ++ traits type.traits

def member : Member → Spelling
  | .relation name types =>
      word "relation" ++ gap ++ .name name ++ between ':' ++
        .separated (between '|') subjectType types
  | .permission name permitted =>
      word "permission" ++ gap ++ .name name ++ between '=' ++ expression permitted

/-! ## Parameters -/

def typeArguments (argument : Spelling) : Spelling :=
  .oneOf fun more : List Unit =>
    sign '<' ++ trivia ++ .separated (between ',') (fun _ => argument) (() :: more) ++
      trivia ++ sign '>'

def typeShape (argument : Spelling) : Spelling :=
  .language IsIdentifier ++ .either (.exactly []) (typeArguments argument)

def nestedType : Nat → Spelling
  | 0 => .never
  | depth + 1 => typeShape (nestedType depth)

def parameterType : Spelling :=
  .oneOf nestedType

def parameter (parameter : Parameter) : Spelling :=
  .exactly parameter.name.toList ++ gap ++ .exactly parameter.type.toList

def parameters : List Parameter → Spelling
  | [] => trivia
  | first :: more => trivia ++ .separated (between ',') parameter (first :: more) ++ trivia

/-! ## Items -/

def item : Item → Spelling
  | .feature name => word "use" ++ gap ++ .name name
  | .caveat caveat =>
      word "caveat" ++ gap ++ .name caveat.name ++ trivia ++
        sign '(' ++ parameters caveat.parameters ++ sign ')' ++ trivia ++
        sign '{' ++ .exactly caveat.expression.toList ++ sign '}'
  | .definition definition =>
      word "definition" ++ gap ++ .name definition.name ++ between '{' ++
        .each (fun entry => member entry ++ trivia) definition.members ++ sign '}'

def items (items : List Item) : Spelling :=
  trivia ++ .each (fun entry => item entry ++ trivia) items

/-- The texts of a whole schema. The last line needs no end, also when it is a comment. -/
def schema (written : List Item) (text : List Char) : Prop :=
  (items written ++ .language IsOpenComment) 0 text

end Grammar

/-! ## Shapes -/

open Grammar (IsIdentifier IsPath)

namespace Caveat

/-- What can stand between two quotes. A backslash takes the meaning of the next character away. -/
inductive InLiteral (quote : Char) : List Char → Prop
  | nil : InLiteral quote []
  | plain {character : Char} {more : List Char} (notQuote : character ≠ quote)
      (notEscape : character ≠ '\\') (goesOn : InLiteral quote more) :
      InLiteral quote (character :: more)
  | escaped {character : Char} {more : List Char} (goesOn : InLiteral quote more) :
      InLiteral quote ('\\' :: character :: more)

/-- Texts whose braces come in pairs, where braces inside string literals do not count. -/
inductive Balanced : List Char → Prop
  | nil : Balanced []
  | plain {character : Char} {more : List Char}
      (plain : character ∉ ['{', '}', '"', '\'']) (goesOn : Balanced more) :
      Balanced (character :: more)
  | literal {quote : Char} {inside more : List Char} (isQuote : quote = '"' ∨ quote = '\'')
      (literal : InLiteral quote inside) (goesOn : Balanced more) :
      Balanced (quote :: (inside ++ quote :: more))
  | braces {inner more : List Char} (balanced : Balanced inner) (goesOn : Balanced more) :
      Balanced ('{' :: (inner ++ '}' :: more))

end Caveat

/-- The word `nil` is no name in an expression, except as the target of a walk. -/
def Name.CanBeRead (name : Name) : Prop :=
  IsIdentifier name.text.toList ∧ name.text ≠ "nil"

inductive Expression.WellShaped : Expression → Prop
  | nothing : WellShaped .nothing
  | member {name : Name} (canBeRead : name.CanBeRead) : WellShaped (.member name)
  | walk {arrow : Arrow} {relation target : Name} (canBeRead : relation.CanBeRead)
      (identifier : IsIdentifier target.text.toList) : WellShaped (.walk arrow relation target)
  | union {operands : List Expression} (several : 2 ≤ operands.length)
      (shaped : ∀ operand ∈ operands, WellShaped operand) : WellShaped (.union operands)
  | intersection {operands : List Expression} (several : 2 ≤ operands.length)
      (shaped : ∀ operand ∈ operands, WellShaped operand) :
      WellShaped (.intersection operands)
  | exclusion {base removed : Expression} (baseShaped : WellShaped base)
      (removedShaped : WellShaped removed) : WellShaped (.exclusion base removed)

def Subject.WellShaped : Subject → Prop
  | .object => True
  | .everyone => True
  | .relation name => IsIdentifier name.text.toList

structure SubjectType.WellShaped (subjects : SubjectType) : Prop where
  type : IsPath subjects.type.text.toList
  subject : subjects.subject.WellShaped
  traits : ∀ trait ∈ subjects.traits, IsPath trait.text.toList

def Member.WellShaped : Member → Prop
  | .relation name types =>
      IsIdentifier name.text.toList ∧ types ≠ [] ∧ ∀ type ∈ types, type.WellShaped
  | .permission name expression => IsIdentifier name.text.toList ∧ expression.WellShaped

structure Parameter.WellShaped (parameter : Parameter) : Prop where
  name : IsIdentifier parameter.name.toList
  type : ∃ offset, Grammar.parameterType offset parameter.type.toList

structure Caveat.WellShaped (caveat : Caveat) : Prop where
  name : IsPath caveat.name.text.toList
  parameters : ∀ parameter ∈ caveat.parameters, parameter.WellShaped
  expression : Balanced caveat.expression.toList

structure Definition.WellShaped (definition : Definition) : Prop where
  name : IsPath definition.name.text.toList
  members : ∀ member ∈ definition.members, member.WellShaped

def Item.WellShaped : Item → Prop
  | .feature name => IsIdentifier name.text.toList
  | .caveat declared => declared.WellShaped
  | .definition declared => declared.WellShaped

end PermissionTypes.Schema
