import PermissionTypes.Schema.Cursor

/-! Parsers of schema text and the ways to combine them. A parser that cannot read what it is for
either *rejects*, so that another reading may be tried from the same place, or *aborts*, so that
the whole text is wrong. The failure that remains at the end names the construct it happened in.

A text is complete when a parser sees it, so there is no reply that asks for more of it, and no
failure is without a place. -/

namespace PermissionTypes.Schema

/-! ## Failures -/

inductive Construct where
  | identifier
  | typeName
  | blockComment
  | expression
  | subjectType
  | relation
  | permission
  | definition
  | definitionBody
  | caveat
  | caveatParameter
  | useDirective
  deriving DecidableEq, Repr

namespace Construct

def describe : Construct → String
  | .identifier => "identifier"
  | .typeName => "type name"
  | .blockComment => "block comment"
  | .expression => "expression"
  | .subjectType => "subject type"
  | .relation => "relation"
  | .permission => "permission"
  | .definition => "definition"
  | .definitionBody => "definition body"
  | .caveat => "caveat"
  | .caveatParameter => "caveat parameter"
  | .useDirective => "use directive"

end Construct

inductive Expectation where
  | character (character : Char)
  | endOfText
  | construct
  deriving DecidableEq, Repr

/-- A failure, where it happened, and the constructs around that place, the innermost first. -/
structure Failure where
  stop : Cursor
  expectation : Expectation
  within : List Construct
  deriving DecidableEq, Repr

namespace Failure

def enclosedBy (failure : Failure) (construct : Construct) : Failure :=
  { failure with within := failure.within ++ [construct] }

def inside (expected : String) : List Construct → String
  | [] => expected
  | construct :: _ => expected ++ " in " ++ construct.describe

/-- A missing character is named together with the innermost construct. Otherwise the innermost
construct is what is missing, and the one around it is named as well. -/
def describe (failure : Failure) : String :=
  match failure.expectation, failure.within with
  | .character character, within => inside ("expected '" ++ character.toString ++ "'") within
  | .endOfText, [] => "expected `definition`, `caveat` or `use`"
  | _, construct :: around => inside ("expected " ++ construct.describe) around
  | .construct, [] => "unexpected input"

end Failure

/-! ## Replies -/

inductive Reply (α : Type) where
  | done (value : α) (stop : Cursor)
  | rejected (failure : Failure)
  | aborted (failure : Failure)
  deriving Repr

namespace Reply

def stop : Reply α → Cursor
  | .done _ stop => stop
  | .rejected failure => failure.stop
  | .aborted failure => failure.stop

def mapFailure (change : Failure → Failure) : Reply α → Reply α
  | .done value stop => .done value stop
  | .rejected failure => .rejected (change failure)
  | .aborted failure => .aborted (change failure)

end Reply

/-! ## Parsers -/

/-- A parser. It never ends before the place where it starts, also when it fails. -/
structure Parser (α : Type) where
  run : Cursor → Reply α
  reaches : ∀ cursor : Cursor, cursor.Reaches (run cursor).stop

namespace Parser

theorem reaches_of_done {parser : Parser α} {start stop : Cursor} {value : α}
    (equal : parser.run start = .done value stop) : start.Reaches stop := by
  have reaches := parser.reaches start
  rwa [equal] at reaches

/-! ### Sequences -/

protected def pure (value : α) : Parser α where
  run cursor := .done value cursor
  reaches cursor := .refl cursor

protected def bind (first : Parser α) (next : α → Parser β) : Parser β where
  run cursor :=
    match first.run cursor with
    | .done value stop => (next value).run stop
    | .rejected failure => .rejected failure
    | .aborted failure => .aborted failure
  reaches cursor := by
    have reaches := first.reaches cursor
    split
    · rename_i value stop equal
      rw [equal] at reaches
      exact reaches.trans ((next value).reaches stop)
    · rename_i failure equal
      rwa [equal] at reaches
    · rename_i failure equal
      rwa [equal] at reaches

instance : Monad Parser where
  pure := Parser.pure
  bind := Parser.bind

/-! ### Alternatives -/

protected def reject (expectation : Expectation) : Parser α where
  run cursor := .rejected { stop := cursor, expectation, within := [] }
  reaches cursor := .refl cursor

protected def orElse (first : Parser α) (second : Unit → Parser α) : Parser α where
  run cursor :=
    match first.run cursor with
    | .done value stop => .done value stop
    | .rejected _ => (second ()).run cursor
    | .aborted failure => .aborted failure
  reaches cursor := by
    have reaches := first.reaches cursor
    split
    · rename_i value stop equal
      rwa [equal] at reaches
    · exact (second ()).reaches cursor
    · rename_i failure equal
      rwa [equal] at reaches

instance : OrElse (Parser α) where
  orElse := Parser.orElse

def perhaps (parser : Parser α) : Parser (Option α) where
  run cursor :=
    match parser.run cursor with
    | .done value stop => .done (some value) stop
    | .rejected _ => .done none cursor
    | .aborted failure => .aborted failure
  reaches cursor := by
    have reaches := parser.reaches cursor
    split
    · rename_i value stop equal
      rwa [equal] at reaches
    · exact .refl cursor
    · rename_i failure equal
      rwa [equal] at reaches

def commit (parser : Parser α) : Parser α where
  run cursor :=
    match parser.run cursor with
    | .done value stop => .done value stop
    | .rejected failure => .aborted failure
    | .aborted failure => .aborted failure
  reaches cursor := by
    have reaches := parser.reaches cursor
    split <;> rename_i equal <;> rwa [equal] at reaches

def within (construct : Construct) (parser : Parser α) : Parser α where
  run cursor := (parser.run cursor).mapFailure (·.enclosedBy construct)
  reaches cursor := by
    have reaches := parser.reaches cursor
    cases equal : parser.run cursor <;> rwa [equal] at reaches

def delay (parser : Unit → Parser α) : Parser α where
  run cursor := (parser ()).run cursor
  reaches cursor := (parser ()).reaches cursor

/-! ### Repetitions -/

/-- The parser as often as it can be read. Each time has to move on, so the characters that are
left bound the number of times. -/
private def manyFrom (parser : Parser α) (cursor : Cursor) : Reply (List α) :=
  match equal : parser.run cursor with
  | .done value next =>
      if moved : cursor.offset < next.offset then
        have := (reaches_of_done equal).length_lt moved
        match manyFrom parser next with
        | .done values stop => .done (value :: values) stop
        | .rejected failure => .rejected failure
        | .aborted failure => .aborted failure
      else .rejected { stop := cursor, expectation := .construct, within := [] }
  | .rejected _ => .done [] cursor
  | .aborted failure => .aborted failure
termination_by cursor.rest.length

private theorem manyFrom_reaches (parser : Parser α) (cursor : Cursor) :
    cursor.Reaches (manyFrom parser cursor).stop := by
  fun_induction manyFrom parser cursor with
  | case1 cursor value next equal moved shorter values stop rest_equal induction =>
      rw [rest_equal] at induction
      exact (reaches_of_done equal).trans induction
  | case2 cursor value next equal moved shorter failure rest_equal induction =>
      rw [rest_equal] at induction
      exact (reaches_of_done equal).trans induction
  | case3 cursor value next equal moved shorter failure rest_equal induction =>
      rw [rest_equal] at induction
      exact (reaches_of_done equal).trans induction
  | case4 cursor => exact .refl cursor
  | case5 cursor => exact .refl cursor
  | case6 cursor failure equal =>
      have reaches := parser.reaches cursor
      rwa [equal] at reaches

def many (parser : Parser α) : Parser (List α) where
  run := manyFrom parser
  reaches := manyFrom_reaches parser

theorem run_many (parser : Parser α) (cursor : Cursor) :
    (many parser).run cursor =
      match parser.run cursor with
      | .done value next =>
          if cursor.offset < next.offset then
            match (many parser).run next with
            | .done values stop => .done (value :: values) stop
            | .rejected failure => .rejected failure
            | .aborted failure => .aborted failure
          else .rejected { stop := cursor, expectation := .construct, within := [] }
      | .rejected _ => .done [] cursor
      | .aborted failure => .aborted failure := by
  show manyFrom parser cursor = _
  rw [manyFrom]
  split
  · rename_i value next equal
    simp only [equal]
    split <;> rfl
  · rename_i failure equal
    simp only [equal]
  · rename_i failure equal
    simp only [equal]

def many1 (parser : Parser α) : Parser (List α) := do
  let first ← parser
  let more ← many parser
  pure (first :: more)

/-- One or more readings with separators between them. A separator that no further reading
follows is given back. -/
def separated (separator : Parser Unit) (parser : Parser α) : Parser (List α) := do
  let first ← parser
  let more ← many (do separator; parser)
  pure (first :: more)

/-! ### Characters -/

def oneOf (belongs : Char → Bool) : Parser Char where
  run cursor :=
    match cursor.rest with
    | [] => .rejected { stop := cursor, expectation := .construct, within := [] }
    | character :: rest =>
        if belongs character then .done character (cursor.advance [character] rest)
        else .rejected { stop := cursor, expectation := .construct, within := [] }
  reaches cursor := by
    split
    · exact .refl cursor
    · rename_i character rest equal
      split
      · exact ⟨[character], Cursor.reads_advance equal⟩
      · exact .refl cursor

def character (wanted : Char) : Parser Unit where
  run cursor :=
    match cursor.rest with
    | [] => .rejected { stop := cursor, expectation := .character wanted, within := [] }
    | character :: rest =>
        if character = wanted then .done () (cursor.advance [character] rest)
        else .rejected { stop := cursor, expectation := .character wanted, within := [] }
  reaches cursor := by
    split
    · exact .refl cursor
    · rename_i character rest equal
      split
      · exact ⟨[character], Cursor.reads_advance equal⟩
      · exact .refl cursor

def takeWhile (belongs : Char → Bool) : Parser (List Char) where
  run cursor :=
    let text := cursor.rest.takeWhile belongs
    .done text (cursor.advance text (cursor.rest.dropWhile belongs))
  reaches cursor :=
    ⟨cursor.rest.takeWhile belongs, Cursor.reads_advance List.takeWhile_append_dropWhile.symm⟩

def exactly (text : List Char) : Parser Unit where
  run cursor :=
    if text.isPrefixOf cursor.rest then
      .done () (cursor.advance text (cursor.rest.drop text.length))
    else .rejected { stop := cursor, expectation := .construct, within := [] }
  reaches cursor := by
    split
    · rename_i fits
      rcases List.isPrefixOf_iff_prefix.mp fits with ⟨rest, equal⟩
      refine ⟨text, Cursor.reads_advance ?_⟩
      rw [← equal, List.drop_left]
    · exact .refl cursor

def notBefore (belongs : Char → Bool) : Parser Unit where
  run cursor :=
    match cursor.rest with
    | [] => .done () cursor
    | character :: _ =>
        if belongs character then
          .rejected { stop := cursor, expectation := .construct, within := [] }
        else .done () cursor
  reaches cursor := by
    split
    · exact .refl cursor
    · split <;> exact .refl cursor

def endOfText : Parser Unit where
  run cursor :=
    match cursor.rest with
    | [] => .done () cursor
    | _ :: _ => .rejected { stop := cursor, expectation := .endOfText, within := [] }
  reaches cursor := by split <;> exact .refl cursor

/-! ### Places -/

def offset : Parser Nat where
  run cursor := .done cursor.offset cursor
  reaches cursor := .refl cursor

def textOf (parser : Parser α) : Parser (List Char) where
  run cursor :=
    match parser.run cursor with
    | .done _ stop => .done (cursor.textTo stop) stop
    | .rejected failure => .rejected failure
    | .aborted failure => .aborted failure
  reaches cursor := by
    have reaches := parser.reaches cursor
    split <;> rename_i equal <;> rwa [equal] at reaches

end Parser
end PermissionTypes.Schema
