import PermissionTypes.Text.Bytes

/-! A cursor is a place in a text that is being read: the number of bytes before it and the
characters behind it. -/

namespace PermissionTypes.Schema

open Text (byteLength byteLength_append)

structure Cursor where
  offset : Nat
  rest : List Char
  deriving DecidableEq, Repr

namespace Cursor

def ofText (text : List Char) : Cursor where
  offset := 0
  rest := text

structure Reads (start : Cursor) (text : List Char) (stop : Cursor) : Prop where
  rest_eq : start.rest = text ++ stop.rest
  offset_eq : stop.offset = start.offset + byteLength text

/-- The second cursor is the first one or lies behind it in the same text. -/
def Reaches (start stop : Cursor) : Prop :=
  ∃ text, start.Reads text stop

namespace Reads

theorem refl (cursor : Cursor) : cursor.Reads [] cursor where
  rest_eq := rfl
  offset_eq := rfl

theorem trans {start middle stop : Cursor} {front back : List Char}
    (first : start.Reads front middle) (second : middle.Reads back stop) :
    start.Reads (front ++ back) stop where
  rest_eq := by rw [first.rest_eq, second.rest_eq, List.append_assoc]
  offset_eq := by rw [second.offset_eq, first.offset_eq, byteLength_append, Nat.add_assoc]

end Reads

namespace Reaches

theorem refl (cursor : Cursor) : cursor.Reaches cursor :=
  ⟨[], .refl cursor⟩

theorem trans {start middle stop : Cursor}
    (first : start.Reaches middle) (second : middle.Reaches stop) : start.Reaches stop := by
  rcases first with ⟨front, front_reads⟩
  rcases second with ⟨back, back_reads⟩
  exact ⟨front ++ back, front_reads.trans back_reads⟩

theorem length_le {start stop : Cursor} (reaches : start.Reaches stop) :
    stop.rest.length ≤ start.rest.length := by
  rcases reaches with ⟨text, reads⟩
  rw [reads.rest_eq, List.length_append]
  omega

theorem length_lt {start stop : Cursor} (reaches : start.Reaches stop)
    (moved : start.offset < stop.offset) : stop.rest.length < start.rest.length := by
  rcases reaches with ⟨text, reads⟩
  have offset_eq := reads.offset_eq
  rw [reads.rest_eq, List.length_append]
  cases text with
  | nil =>
      rw [Text.byteLength_nil] at offset_eq
      omega
  | cons character text =>
      rw [List.length_cons]
      omega

end Reaches

/-! ## Moving -/

def advance (cursor : Cursor) (text rest : List Char) : Cursor where
  offset := cursor.offset + byteLength text
  rest := rest

theorem reads_advance {cursor : Cursor} {text rest : List Char}
    (equal : cursor.rest = text ++ rest) : cursor.Reads text (cursor.advance text rest) where
  rest_eq := equal
  offset_eq := rfl

def textTo (start stop : Cursor) : List Char :=
  Text.takeBytes (stop.offset - start.offset) start.rest

theorem textTo_eq {start stop : Cursor} {text : List Char} (reads : start.Reads text stop) :
    start.textTo stop = text := by
  have distance : stop.offset - start.offset = byteLength text := by
    rw [reads.offset_eq, Nat.add_sub_cancel_left]
  rw [textTo, distance, reads.rest_eq]
  simp

end Cursor
end PermissionTypes.Schema
