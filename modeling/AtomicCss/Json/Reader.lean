import AtomicCss.Json.Lexeme

/-
  This file defines reading JSON text.

  The reader takes one lexeme at a time and keeps the
  containers that are still open, innermost first.

  Key definitions include:
    * `Json.Frame`
    * `Json.Phase`
    * `Json.Phase.next`
    * `Json.read?`
-/

namespace AtomicCss.Json

------------------------------------------------------------
-- Open containers
------------------------------------------------------------

/-
  A container whose end has not been read. Parts are kept in
  reverse; an open object also has the key of its next value.
-/
inductive Frame where
  | array (items : List Value)
  | object
      (members : List (Option String × Value))
      (key : Option String)

/- What may come next. -/
inductive Phase where
  /- A value. -/
  | value (frames : List Frame)
  /- A value or the end of an empty array. -/
  | firstItem (frames : List Frame)
  /- A key or the end of an empty object. -/
  | firstKey (frames : List Frame)
  /- A key. -/
  | key
      (members : List (Option String × Value))
      (frames : List Frame)
  /- The colon after a key. -/
  | colon
      (members : List (Option String × Value))
      (key : Option String)
      (frames : List Frame)
  /- A comma or the end of the innermost container. -/
  | delimiter (frame : Frame) (frames : List Frame)
  /- Nothing. -/
  | done (v : Value)

namespace Phase

/- Hand a finished value to the innermost container. -/
def close
    (v : Value) : List Frame → Phase
  | [] => done v
  | .array items :: frames =>
      delimiter (.array (v :: items)) frames
  | .object members k :: frames =>
      delimiter (.object ((k, v) :: members) none) frames

/- Begin a value with its first lexeme. -/
def start
    (frames : List Frame) : Lexeme → Option Phase
  | .atom v => some (close v frames)
  | .string text => some (close (.string text) frames)
  | .openArray => some (firstItem frames)
  | .openObject => some (firstKey frames)
  | _ => none

/- The phase after one more lexeme. -/
def next : Phase → Lexeme → Option Phase
  | value frames, lexeme => start frames lexeme
  | firstItem frames, .closeArray => some (close (.array []) frames)
  | firstItem frames, lexeme => start (.array [] :: frames) lexeme
  | firstKey frames, .closeObject => some (close (.object []) frames)
  | firstKey frames, .string k => some (colon [] k frames)
  | key members frames, .string k => some (colon members k frames)
  | colon members k frames, .colon =>
      some (value (.object members k :: frames))
  | delimiter (.array items) frames, .comma =>
      some (value (.array items :: frames))
  | delimiter (.array items) frames, .closeArray =>
      some (close (.array items.reverse) frames)
  | delimiter (.object members _) frames, .comma =>
      some (key members frames)
  | delimiter (.object members _) frames, .closeObject =>
      some (close (.object members.reverse) frames)
  | _, _ => none

end Phase

------------------------------------------------------------
-- Reading
------------------------------------------------------------

/- The one value that a text consists of. -/
def read?
    (text : String) : Option Value := do
  let lexemes ← lexemes? text
  match ← lexemes.foldlM Phase.next (.value []) with
  | .done v => some v
  | _ => none

end AtomicCss.Json
