/-!
# Method context

What a method body needs to know from outside: the access flags and the signature of its method, and
the strings and types that its indices refer to.
-/

namespace DalvikCode

/-! ## 1. Access flags -/

/-- A set of access flags, one bit each. -/
structure AccessFlags where
  bits : UInt32
  deriving DecidableEq, Repr, Inhabited

namespace AccessFlags

/-- The flags of a method with their names, in ascending order. -/
def named : List (String × AccessFlags) :=
  [("PUBLIC", ⟨0x0001⟩), ("PRIVATE", ⟨0x0002⟩), ("PROTECTED", ⟨0x0004⟩), ("STATIC", ⟨0x0008⟩),
    ("FINAL", ⟨0x0010⟩), ("SYNCHRONIZED", ⟨0x0020⟩), ("BRIDGE", ⟨0x0040⟩), ("VARARGS", ⟨0x0080⟩),
    ("NATIVE", ⟨0x0100⟩), ("ABSTRACT", ⟨0x0400⟩), ("STRICT", ⟨0x0800⟩), ("SYNTHETIC", ⟨0x1000⟩),
    ("CONSTRUCTOR", ⟨0x10000⟩), ("DECLARED_SYNCHRONIZED", ⟨0x20000⟩)]

def empty : AccessFlags := ⟨0⟩

/-- The flag of a method that has no receiver. -/
def static : AccessFlags := ⟨0x0008⟩

def union (f g : AccessFlags) : AccessFlags := ⟨f.bits ||| g.bits⟩

def inter (f g : AccessFlags) : AccessFlags := ⟨f.bits &&& g.bits⟩

def diff (f g : AccessFlags) : AccessFlags := ⟨f.bits &&& ~~~g.bits⟩

/-- The set of all flags that have a name. -/
def all : AccessFlags := (named.map Prod.snd).foldl union empty

/-- The flags among the bits of a word; other bits are dropped. -/
def ofBits (bits : UInt32) : AccessFlags := inter ⟨bits⟩ all

/-- The set of flags that a word stands for; none if it has further bits. -/
def ofBits? (bits : UInt32) : Option AccessFlags :=
  if (ofBits bits).bits = bits then some (ofBits bits) else none

def compl (f : AccessFlags) : AccessFlags := diff all f

/-- Whether every flag of `g` is in `f`. -/
def contains (f g : AccessFlags) : Bool := inter f g == g

def intersects (f g : AccessFlags) : Bool := inter f g != empty

def isEmpty (f : AccessFlags) : Bool := f == empty

def isAll (f : AccessFlags) : Bool := f.contains all

/-- The names of the flags in a set, in ascending order. -/
def names (f : AccessFlags) : List String :=
  (named.filter fun flag => f.contains flag.2).map Prod.fst

end AccessFlags

/-! ## 2. Parameters -/

/-- The number of registers that a value of a type takes: two for `long` and `double`. -/
def registerWidth (descriptor : String) : Nat :=
  if descriptor = "J" ∨ descriptor = "D" then 2 else 1

/-- A parameter of a method, with its name where the debug information gives one. -/
structure Parameter where
  descriptor : String
  name? : Option String
  deriving DecidableEq, Repr, Inhabited

def Parameter.width (p : Parameter) : Nat := registerWidth p.descriptor

/-! ## 3. Context -/

/-- The surroundings of a method body. -/
structure MethodContext where
  flags : AccessFlags
  definingClass : String
  parameterTypes : List String
  string? : UInt32 → Option String
  typeDescriptor? : UInt32 → Option String

namespace MethodContext

/-- The context of a method of which nothing is known. -/
def unknown : MethodContext where
  flags := .static
  definingClass := ""
  parameterTypes := []
  string? _ := none
  typeDescriptor? _ := none

def hasReceiver (c : MethodContext) : Bool := !c.flags.contains .static

/-- The string that an optional index refers to. -/
def resolveString? (c : MethodContext) (index? : Option UInt32) : Option String :=
  index?.bind c.string?

/-- The type that an optional index refers to. -/
def resolveType? (c : MethodContext) (index? : Option UInt32) : Option String :=
  index?.bind c.typeDescriptor?

end MethodContext

end DalvikCode
