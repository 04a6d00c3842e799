import PermissionTypes.Proofs.Schema.Grammar

/-! The body of a caveat is cut off where its braces are balanced: at the first closing brace
behind which one more brace would be closed than opened. -/

namespace PermissionTypes.Schema

namespace Caveat

/-! ## Balanced bodies -/

namespace Nesting

def behind? (nesting : Nesting) : List Char → Option Nesting
  | [] => some nesting
  | character :: text =>
      match nesting.after? character with
      | none => none
      | some next => next.behind? text

theorem behind?_append {nesting next : Nesting} {front : List Char}
    (equal : nesting.behind? front = some next) (back : List Char) :
    nesting.behind? (front ++ back) = next.behind? back := by
  induction front generalizing nesting with
  | nil =>
      cases equal
      rfl
  | cons character front induction =>
      rw [behind?] at equal
      rw [List.cons_append, behind?]
      split at equal
      · cases equal
      · rename_i after afterEqual
        exact induction equal

theorem behind?_of_inLiteral {quote : Char} {inside : List Char}
    (inLiteral : InLiteral quote inside) (depth : Nat) :
    behind? ⟨depth, .literal quote⟩ inside = some ⟨depth, .literal quote⟩ := by
  induction inLiteral with
  | nil => rfl
  | plain notQuote notEscape goesOn induction =>
      simp only [behind?, after?, notQuote, notEscape, if_false]
      exact induction
  | escaped goesOn induction =>
      simp only [behind?, after?, if_true]
      exact induction

/-- A balanced text leaves the nesting as it is. -/
theorem behind?_of_balanced {text : List Char} (balanced : Balanced text) (depth : Nat) :
    behind? ⟨depth, .code⟩ text = some ⟨depth, .code⟩ := by
  induction balanced generalizing depth with
  | nil => rfl
  | @plain character more plain goesOn induction =>
      simp only [List.mem_cons, List.not_mem_nil, or_false, not_or] at plain
      have after : after? ⟨depth, .code⟩ character = some ⟨depth, .code⟩ := by
        simp [after?, plain]
      rw [behind?, after]
      exact induction depth
  | @literal quote inside more isQuote literal goesOn induction =>
      have notEscape : quote ≠ '\\' := by
        rcases isQuote with rfl | rfl <;> decide
      have opened : after? ⟨depth, .code⟩ quote = some ⟨depth, .literal quote⟩ := by
        simp [after?, isQuote]
      have closed : after? ⟨depth, .literal quote⟩ quote = some ⟨depth, .code⟩ := by
        simp [after?, notEscape]
      rw [behind?, opened]
      change behind? _ _ = _
      rw [behind?_append (behind?_of_inLiteral literal depth), behind?, closed]
      exact induction depth
  | @braces inner more balanced goesOn innerInduction induction =>
      have opened : after? ⟨depth, .code⟩ '{' = some ⟨depth + 1, .code⟩ := rfl
      have closed : after? ⟨depth + 1, .code⟩ '}' = some ⟨depth, .code⟩ := rfl
      rw [behind?, opened]
      change behind? _ _ = _
      rw [behind?_append (innerInduction (depth + 1)), behind?, closed]
      exact induction depth

end Nesting

theorem splitBody_append {nesting next : Nesting} {front : List Char}
    (equal : nesting.behind? front = some next) {text body rest : List Char}
    (split : splitBody next text = some (body, rest)) :
    splitBody nesting (front ++ text) = some (front ++ body, rest) := by
  induction front generalizing nesting with
  | nil =>
      cases equal
      exact split
  | cons character front induction =>
      rw [Nesting.behind?] at equal
      split at equal
      · cases equal
      · rename_i after afterEqual
        rw [List.cons_append, splitBody, afterEqual]
        simp only [induction equal, List.cons_append]

theorem splitBody_of_balanced {body : List Char} (balanced : Balanced body) (rest : List Char) :
    splitBody .outermost (body ++ '}' :: rest) = some (body, '}' :: rest) := by
  have closes : splitBody ⟨0, .code⟩ ('}' :: rest) = some ([], '}' :: rest) := rfl
  have split := splitBody_append (Nesting.behind?_of_balanced balanced 0) closes
  rwa [List.append_nil] at split

/-! ## Bodies that are cut off -/

/-- Texts that close some braces, which were opened before them. -/
def Closing : Nat → List Char → Prop
  | 0, text => Balanced text
  | depth + 1, text =>
      ∃ inner more, text = inner ++ '}' :: more ∧ Balanced inner ∧ Closing depth more

namespace Closing

theorem plain {depth : Nat} {character : Char} {more : List Char}
    (plain : character ∉ ['{', '}', '"', '\'']) (closing : Closing depth more) :
    Closing depth (character :: more) := by
  cases depth with
  | zero => exact Balanced.plain plain closing
  | succ depth =>
      rcases closing with ⟨inner, more, rfl, balanced, closing⟩
      exact ⟨character :: inner, more, rfl, Balanced.plain plain balanced, closing⟩

theorem literal {depth : Nat} {quote : Char} {inside more : List Char}
    (isQuote : quote = '"' ∨ quote = '\'') (literal : InLiteral quote inside)
    (closing : Closing depth more) : Closing depth (quote :: (inside ++ quote :: more)) := by
  cases depth with
  | zero => exact Balanced.literal isQuote literal closing
  | succ depth =>
      rcases closing with ⟨inner, more, rfl, balanced, closing⟩
      refine ⟨quote :: (inside ++ quote :: inner), more, ?_, ?_, closing⟩
      · simp
      · exact Balanced.literal isQuote literal balanced

theorem opened {depth : Nat} {more : List Char} (closing : Closing (depth + 1) more) :
    Closing depth ('{' :: more) := by
  rcases closing with ⟨inner, more, rfl, balanced, closing⟩
  cases depth with
  | zero => exact Balanced.braces balanced closing
  | succ depth =>
      rcases closing with ⟨between, more, rfl, betweenBalanced, closing⟩
      refine ⟨'{' :: (inner ++ '}' :: between), more, ?_, ?_, closing⟩
      · simp
      · exact Balanced.braces balanced betweenBalanced

theorem closed {depth : Nat} {more : List Char} (closing : Closing depth more) :
    Closing (depth + 1) ('}' :: more) :=
  ⟨[], more, rfl, .nil, closing⟩

end Closing

def Nesting.Closed (nesting : Nesting) (text : List Char) : Prop :=
  match nesting.region with
  | .code => Closing nesting.depth text
  | .literal quote =>
      ∃ inside more, text = inside ++ quote :: more ∧ InLiteral quote inside ∧
        Closing nesting.depth more
  | .escaped quote =>
      ∃ character inside more, text = character :: (inside ++ quote :: more) ∧
        InLiteral quote inside ∧ Closing nesting.depth more

theorem Nesting.closed_cons {nesting next : Nesting} {character : Char} {text : List Char}
    (after : nesting.after? character = some next) (closed : next.Closed text) :
    nesting.Closed (character :: text) := by
  rcases nesting with ⟨depth, region⟩
  cases region with
  | escaped quote =>
      cases after
      rcases closed with ⟨inside, more, rfl, literal, closing⟩
      exact ⟨character, inside, more, rfl, literal, closing⟩
  | literal quote =>
      simp only [Nesting.after?] at after
      split at after
      · rename_i escapes
        subst escapes
        cases after
        rcases closed with ⟨escaped, inside, more, rfl, literal, closing⟩
        exact ⟨'\\' :: escaped :: inside, more, rfl, .escaped literal, closing⟩
      · rename_i notEscape
        split at after
        · rename_i ends
          subst ends
          cases after
          exact ⟨[], text, rfl, .nil, closed⟩
        · rename_i notQuote
          cases after
          rcases closed with ⟨inside, more, rfl, literal, closing⟩
          exact ⟨character :: inside, more, rfl, .plain notQuote notEscape literal, closing⟩
  | code =>
      simp only [Nesting.after?] at after
      split at after
      · rename_i isQuote
        cases after
        rcases closed with ⟨inside, more, rfl, literal, closing⟩
        exact Closing.literal isQuote literal closing
      · rename_i notQuote
        split at after
        · rename_i opens
          subst opens
          cases after
          exact Closing.opened closed
        · rename_i notOpening
          split at after
          · rename_i closes
            subst closes
            cases depth with
            -- The outermost closing brace ends the body, so no nesting is behind it.
            | zero => cases after
            | succ depth =>
                cases after
                exact Closing.closed closed
          · rename_i notClosing
            cases after
            refine Closing.plain ?_ closed
            rw [not_or] at notQuote
            simp [notOpening, notClosing, notQuote]

theorem Nesting.closed_nil {nesting : Nesting} {character : Char}
    (ends : nesting.after? character = none) : character = '}' ∧ nesting.Closed [] := by
  rcases nesting with ⟨depth, region⟩
  cases region with
  | escaped quote => cases ends
  | literal quote =>
      simp only [Nesting.after?] at ends
      split at ends
      · cases ends
      · split at ends <;> cases ends
  | code =>
      simp only [Nesting.after?] at ends
      split at ends
      · cases ends
      · split at ends
        · cases ends
        · split at ends
          · rename_i closes
            cases depth with
            | zero => exact ⟨closes, Balanced.nil⟩
            | succ depth => cases ends
          · cases ends

theorem closed_of_splitBody {nesting : Nesting} {text body rest : List Char}
    (equal : splitBody nesting text = some (body, rest)) :
    nesting.Closed body ∧ rest.head? = some '}' := by
  induction text generalizing nesting body with
  | nil => cases equal
  | cons character text induction =>
      rw [splitBody] at equal
      split at equal
      · rename_i ends
        cases equal
        rcases Nesting.closed_nil ends with ⟨rfl, closed⟩
        exact ⟨closed, rfl⟩
      · rename_i next after
        split at equal
        · rename_i inner innerRest innerEqual
          cases equal
          rcases induction innerEqual with ⟨closed, closes⟩
          exact ⟨Nesting.closed_cons after closed, closes⟩
        · cases equal

/-- A body is cut off where it is balanced and a closing brace follows. -/
theorem splitBody_outermost_iff {text body rest : List Char} :
    splitBody .outermost text = some (body, rest) ↔
      text = body ++ rest ∧ Balanced body ∧ rest.head? = some '}' := by
  constructor
  · intro equal
    rcases closed_of_splitBody equal with ⟨balanced, closes⟩
    exact ⟨append_of_splitBody equal, balanced, closes⟩
  · rintro ⟨rfl, balanced, closes⟩
    cases rest with
    | nil => cases closes
    | cons character rest =>
        cases closes
        exact splitBody_of_balanced balanced rest

end Caveat
end PermissionTypes.Schema
