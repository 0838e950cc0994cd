import TreeIR.Json.Token

/-!
# From tokens to a value

The grammar is run by a machine over tokens. Its state is the stack of containers that are still
open, innermost first, together with what may come next. A value that is complete goes into the
innermost container, and into the result if none is open; closing a container completes it.

A container may be opened only while fewer than `maxDepth` are open. The bound keeps every value
that can be read shallow, so it is part of what a valid text is.
-/

namespace TreeIR.Json

/-- How many containers may be open at once. -/
def maxDepth : Nat := 127

/-- A container that is still open, with its items in reverse. -/
inductive Frame where
  | arr (items : List Json)
  | obj (members : List (String × Json))
  /-- An object in which the value of `key` is due. -/
  | member (members : List (String × Json)) (key : String)

/-- What may come next. -/
inductive Due where
  /-- A value. -/
  | value
  /-- A value or the end of the array that was just opened. -/
  | firstItem
  /-- A key or the end of the object that was just opened. -/
  | firstKey
  /-- A key, after a comma. -/
  | key
  | colon
  /-- A comma or the end of the innermost container. -/
  | next
  /-- Nothing: the value is complete. -/
  | nothing (result : Json)

/-- Where parsing stands: the open containers, innermost first, and what may come next. -/
structure Parse where
  stack : List Frame
  due : Due

/-- Nothing has been read, and a value is to come. -/
def Parse.start : Parse := ⟨[], .value⟩

/-- Puts a complete value where it belongs. -/
def Parse.put (v : Json) : List Frame → Parse
  | [] => ⟨[], .nothing v⟩
  | .arr items :: fs => ⟨.arr (v :: items) :: fs, .next⟩
  | .member members key :: fs => ⟨.obj (Table.insert key v members) :: fs, .next⟩
  | .obj members :: fs => ⟨.obj members :: fs, .next⟩

/-- Opens a container if the bound allows one more. -/
def Parse.open? (f : Frame) (due : Due) (stack : List Frame) : Option Parse :=
  if stack.length < maxDepth then some ⟨f :: stack, due⟩ else none

/-- A token where a value may start. -/
def Parse.value? (stack : List Frame) : Token → Option Parse
  | .null => some (put .null stack)
  | .bool b => some (put (.bool b) stack)
  | .num n => some (put (.num n) stack)
  | .str s => some (put (.str s) stack)
  | .openArr => open? (.arr []) .firstItem stack
  | .openObj => open? (.obj []) .firstKey stack
  | _ => none

/-- A token where the innermost container may end. -/
def Parse.close? : List Frame → Token → Option Parse
  | .arr items :: fs, .closeArr => some (put (.arr items.reverse) fs)
  | .obj members :: fs, .closeObj => some (put (.obj members) fs)
  | _, _ => none

/-- A token where a key may stand. -/
def Parse.key? : List Frame → Token → Option Parse
  | .obj members :: fs, .str key => some ⟨.member members key :: fs, .colon⟩
  | _, _ => none

/-- A token after a complete item. -/
def Parse.next? : List Frame → Token → Option Parse
  | .arr items :: fs, .comma => some ⟨.arr items :: fs, .value⟩
  | .obj members :: fs, .comma => some ⟨.obj members :: fs, .key⟩
  | stack, t => close? stack t

/-- Reads one more token, if it may stand there. -/
def Parse.step (p : Parse) (t : Token) : Option Parse :=
  match p.due with
  | .value => value? p.stack t
  | .firstItem => (close? p.stack t).or (value? p.stack t)
  | .firstKey => (close? p.stack t).or (key? p.stack t)
  | .key => key? p.stack t
  | .colon => if t = .colon then some ⟨p.stack, .value⟩ else none
  | .next => next? p.stack t
  | .nothing _ => none

/-- Reads tokens, from the first to the last. -/
def Parse.run (p : Parse) (ts : List Token) : Option Parse :=
  ts.foldlM step p

/-- The value that has been read, once it is whole. -/
def Parse.result? (p : Parse) : Option Json :=
  match p.due with
  | .nothing v => some v
  | _ => none

/-- Reads a text that holds one value and, around it, nothing but blanks. -/
def parse? (text : String) : Option Json :=
  (tokens? text).bind fun ts => (Parse.start.run ts).bind Parse.result?

end TreeIR.Json
