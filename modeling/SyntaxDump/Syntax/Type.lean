/-!
# Types and qualifiers of declarations

The type language of the checker and the spelling of its members.  The name of
a type is what dumps show; it is built from the names of the parts.
-/

namespace SyntaxDump

/-- A resolved type. -/
inductive TypeDescriptor where
  | int
  | double
  | string
  | void
  /-- not yet inferred -/
  | unspec
  | pointer (referenced : TypeDescriptor)
  | functional (inputs : List TypeDescriptor) (output : TypeDescriptor)
deriving Repr, Inhabited

/-- Join texts with a separator between them. -/
def joinWith (separator : String) : List String → String
  | [] => ""
  | [text] => text
  | text :: rest => text ++ separator ++ joinWith separator rest

/-- A text without its last character. -/
def withoutLast (text : String) : String := String.ofList text.toList.dropLast

/-- The words of a function type around the names of its parts.  A comma is put
behind every input, and the last one is taken back. -/
def functionalText (output : String) (inputs : List String) : String :=
  let listed := inputs.foldl (fun text input => text ++ input ++ ",")
    ("function with output " ++ output ++ " and inputs (")
  (if inputs.isEmpty then listed else withoutLast listed) ++ ")"

namespace TypeDescriptor

mutual
/-- The name of a type: scalars by their word, a pointer in brackets around
the type it refers to, a function type by its output and inputs. -/
def name : TypeDescriptor → String
  | .int => "int"
  | .double => "double"
  | .string => "string"
  | .void => "void"
  | .unspec => "unspec"
  | .pointer referenced => "[" ++ referenced.name ++ "]"
  | .functional inputs output =>
      "function with output " ++ output.name ++ " and inputs (" ++
        joinWith "," (names inputs) ++ ")"
/-- The names of several types. -/
def names : List TypeDescriptor → List String
  | [] => []
  | type :: rest => type.name :: names rest
end

mutual
/-- A type as it is shown on its own: a function type by the words around the
names of its parts, all others by their word or in brackets. -/
def display : TypeDescriptor → String
  | .int => "int"
  | .double => "double"
  | .string => "string"
  | .void => "void"
  | .unspec => "unspec"
  | .pointer referenced => "[" ++ referenced.display ++ "]"
  | .functional inputs output => functionalText output.display (displays inputs)
/-- Several types, each as it is shown on its own. -/
def displays : List TypeDescriptor → List String
  | [] => []
  | type :: rest => type.display :: displays rest
end

/-- The name of a function type with the given parts. -/
def functionalName (inputs : List TypeDescriptor) (output : TypeDescriptor) : String :=
  functionalText output.display (displays inputs)

/-- The name of a function type, if the type is one. -/
def functionalName? : TypeDescriptor → Option String
  | .functional inputs output => some (functionalName inputs output)
  | _ => none

mutual
/-- Do two types agree? -/
def same : TypeDescriptor → TypeDescriptor → Bool
  | .int, .int => true
  | .double, .double => true
  | .string, .string => true
  | .void, .void => true
  | .unspec, .unspec => true
  | .pointer a, .pointer b => same a b
  | .functional inputs output, .functional inputs' output' =>
      sameAll inputs inputs' && same output output'
  | _, _ => false
def sameAll : List TypeDescriptor → List TypeDescriptor → Bool
  | [], [] => true
  | a :: rest, b :: rest' => same a b && sameAll rest rest'
  | _, _ => false
end

/-- Do two types agree, or are both absent? -/
def sameOption : Option TypeDescriptor → Option TypeDescriptor → Bool
  | none, none => true
  | some a, some b => a.same b
  | _, _ => false

end TypeDescriptor

/-- The name of a type that may be missing; a missing one has no name. -/
def typeName : Option TypeDescriptor → String
  | none => ""
  | some (.functional inputs output) => TypeDescriptor.functionalName inputs output
  | some type => type.display

/-- Storage and visibility of a declaration. -/
inductive Qualifier where
  | isPublic
  | forward
  | isPrivate
  | foreign
  /-- any word that is not one of the others -/
  | unknown
deriving DecidableEq, Repr, Inhabited

namespace Qualifier

/-- The word of a qualifier in the interchange form. -/
def word : Qualifier → String
  | .isPublic => "public"
  | .forward => "forward"
  | .isPrivate => "private"
  | .foreign => "foreign"
  | .unknown => "unknown"

/-- The name of a qualifier in dumps. -/
def name : Qualifier → String
  | .unknown => "unknown qualifier"
  | qualifier => qualifier.word

/-- Every word names a qualifier, those without a meaning of their own the
unknown one. -/
def ofWord (word : String) : Qualifier :=
  if word = "public" then .isPublic
  else if word = "forward" then .forward
  else if word = "private" then .isPrivate
  else if word = "foreign" then .foreign
  else .unknown

@[simp] theorem ofWord_word (qualifier : Qualifier) : ofWord qualifier.word = qualifier := by
  cases qualifier <;> decide

end Qualifier
end SyntaxDump
