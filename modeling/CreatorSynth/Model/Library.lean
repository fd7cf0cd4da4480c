import CreatorSynth.Model.Class

/-! Classes of `java.lang` that are known without a source, by the types of their constructors. -/
namespace CreatorSynth.Library

/-- A constructor known by its types only. -/
def binary (visibility : Visibility) (types : List String) : BaseConstructor where
  params := types.map fun t => BaseParam.unnamed (TypeRef.simple t)
  throws := []
  typeParams := []
  doc := none
  visibility := visibility
  origin := .binary

/-- The constructors every throwable class has. -/
def throwableConstructors : List BaseConstructor :=
  [binary .pub [], binary .pub ["String"], binary .pub ["String", "Throwable"],
    binary .pub ["Throwable"]]

/-- The constructor for subclasses that some throwable classes have. -/
def suppressingConstructor : BaseConstructor :=
  binary .prot ["String", "Throwable", "boolean", "boolean"]

/-- The type parameter of an enum class stands for the enum itself. -/
def enumParam : TypeParam :=
  ⟨"E", [⟨"Enum", [.type (TypeRef.simple "E")], 0⟩]⟩

/-- Type parameters and constructors by qualified name. -/
def entries : List (String × List TypeParam × List BaseConstructor) :=
  [(objectName, [], [binary .pub []]),
    (enumName, [enumParam], [binary .prot ["String", "int"]]),
    ("java.lang.Throwable", [], throwableConstructors ++ [suppressingConstructor]),
    ("java.lang.Exception", [], throwableConstructors ++ [suppressingConstructor]),
    ("java.lang.RuntimeException", [], throwableConstructors ++ [suppressingConstructor]),
    ("java.lang.IllegalArgumentException", [], throwableConstructors),
    ("java.lang.IllegalStateException", [], throwableConstructors)]

/-- A name without a dot is taken for one of `java.lang`. -/
def qualified (name : String) : String :=
  if name.toList.contains '.' then name else "java.lang." ++ name

/-- The class of a simple or qualified name. -/
def lookup? (name : String) : Option Superclass :=
  (entries.lookup (qualified name)).map fun entry => ⟨qualified name, [], entry.1, entry.2⟩

end CreatorSynth.Library
