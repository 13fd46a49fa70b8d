import DalvikCode.Bytes

/-!
# Images

Where the bytes of an executable image come from, and what counts as an image.
-/

namespace DalvikCode

/-- Bytes held in memory, or the contents of a file that is mapped into it. -/
inductive ImageSource where
  | memory (bytes : ByteArray)
  | file (contents : ByteArray)
  deriving DecidableEq

namespace ImageSource

/-- The source that a file gives, where a missing file has no contents. -/
def ofFile (contents? : Option ByteArray) : Except DecodeError ImageSource :=
  match contents? with
  | none => .error .missingFile
  | some contents => .ok (.file contents)

def bytes : ImageSource → ByteArray
  | memory bytes => bytes
  | file contents => contents

def size (s : ImageSource) : Nat := s.bytes.size

/-- The `length` bytes from `offset`, all of which have to be present. -/
def slice (s : ImageSource) (offset length : Nat) : Except DecodeError ByteArray :=
  Bytes.slice s.bytes offset length

end ImageSource

/-- An executable image: a source that is not empty. -/
structure Image where
  source : ImageSource
  nonempty : 0 < source.size

namespace Image

/-- Accepts a source that holds at least one byte. -/
def ofSource (source : ImageSource) : Except DecodeError Image :=
  if nonempty : 0 < source.size then .ok ⟨source, nonempty⟩ else .error .emptyImage

def bytes (i : Image) : ByteArray := i.source.bytes

def size (i : Image) : Nat := i.source.size

/-- The `length` bytes from `offset`, all of which have to be present. -/
def slice (i : Image) (offset length : Nat) : Except DecodeError ByteArray :=
  i.source.slice offset length

end Image

end DalvikCode
