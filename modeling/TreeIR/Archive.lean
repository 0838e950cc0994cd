import TreeIR.Wire.Decode

/-!
# Trees in files

An archive is a set of folders with files in them. A tree is saved as the indented text of its
wire form, in UTF-8, and only into a folder that is there; what a place holds is what was last
saved to it. A file may have come from elsewhere, so loading checks everything: that there is a
file, that it is a text, and that the text holds a tree or null.
-/

namespace TreeIR

/-- Where a file is. -/
structure Place where
  folder : String
  name : String
  deriving DecidableEq, Repr

/-- Folders, and files with the last one written first. -/
structure Archive where
  folders : List String
  files : List (Place × ByteArray)

namespace Archive

/-- Why an archive cannot be written to or read from. -/
inductive Error where
  /-- No such folder to save into, or no such file to load. -/
  | notFound
  /-- The bytes are no text. -/
  | notText
  | unreadable (error : Wire.TextError)

/-- The bytes that a place holds. -/
def bytesAt? (p : Place) (a : Archive) : Option ByteArray :=
  (a.files.find? (·.1 == p)).map Prod.snd

/-- Writes a file over any that is there. Folders are not made on the way. -/
def write (p : Place) (bytes : ByteArray) (a : Archive) : Except Error Archive :=
  if p.folder ∈ a.folders then .ok { a with files := (p, bytes) :: a.files } else .error .notFound

/-- Saves a tree in a folder that is there. -/
def save (p : Place) (n : Node) (a : Archive) : Except Error Archive :=
  a.write p n.encode.pretty.toUTF8

/-- The tree that bytes hold. -/
def decodeBytes (bytes : ByteArray) : Except Error (Option Node) :=
  match String.fromUTF8? bytes with
  | some text => (Wire.decodeText text).mapError .unreadable
  | none => .error .notText

/-- Loads the tree at a place. -/
def load (p : Place) (a : Archive) : Except Error (Option Node) :=
  match a.bytesAt? p with
  | some bytes => decodeBytes bytes
  | none => .error .notFound

end Archive

end TreeIR
