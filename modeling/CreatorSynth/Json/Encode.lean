import CreatorSynth.Creator.Options
import CreatorSynth.Document.Creators
import CreatorSynth.Json.Basic

/-! What the program prints as JSON: candidates, outcomes and options. -/
namespace CreatorSynth

def Span.toJson (s : Span) : Json :=
  .object [("start", .nat s.start), ("end", .nat s.stop)]

mutual
def TypeRef.toJson : TypeRef → Json
  | ⟨name, args, dims⟩ =>
      .object [("name", .string name), ("args", .array (TypeArg.listToJson args)),
        ("array_dims", .nat dims)]

def TypeArg.toJson : TypeArg → Json
  | .type t => .object [("Type", t.toJson)]
  | .any => .object [("Wildcard", .null)]
  | .extending t => .object [("Wildcard", .object [("Extends", t.toJson)])]
  | .superOf t => .object [("Wildcard", .object [("Super", t.toJson)])]

def TypeArg.listToJson : List TypeArg → List Json
  | [] => []
  | a :: as => a.toJson :: TypeArg.listToJson as
end

def TypeParam.toJson (p : TypeParam) : Json :=
  .object [("name", .string p.name), ("bounds", .ofList TypeRef.toJson p.bounds)]

def Annotation.toJson (a : Annotation) : Json :=
  .object [("name", .string a.name), ("args", .ofOption .string a.args), ("span", a.span.toJson)]

def Modifiers.toJson (m : Modifiers) : Json :=
  .object [("keywords", .strings m.keywords),
    ("annotations", .array (m.annotations.map fun a => a.toJson))]

def Visibility.toJson : Visibility → Json
  | pub => .string "Public"
  | prot => .string "Protected"
  | pack => .string "Package"
  | priv => .string "Private"

def Nullability.toJson : Nullability → Json
  | unknown => .string "unknown"
  | notNull => .string "notNull"
  | nullable => .string "nullable"

def Origin.toJson : Origin → Json
  | source => .string "source"
  | binary => .string "binary"

def BaseParam.toJson (p : BaseParam) : Json :=
  .object [("name", .ofOption .string p.name), ("ty", p.type.toJson),
    ("modifiers", p.modifiers.toJson), ("varargs", .bool p.varargs)]

/-- The members of a base constructor as an object. -/
def BaseConstructor.jsonFields (c : BaseConstructor) : List (String × Json) :=
  [("params", .ofList BaseParam.toJson c.params), ("throws", .ofList TypeRef.toJson c.throws),
    ("type_params", .ofList TypeParam.toJson c.typeParams), ("doc", .ofOption .string c.doc),
    ("visibility", c.visibility.toJson), ("origin", c.origin.toJson)]

def BaseConstructor.toJson (c : BaseConstructor) : Json :=
  .object c.jsonFields

/-- A candidate with its kind in front. -/
def Candidate.toJson : Candidate → Json
  | field f => .object [("type", .string "Field"), ("name", .string f.name),
      ("ty", f.type.toJson), ("nullability", f.nullability.toJson),
      ("annotations", .array (f.annotations.map fun a => a.toJson)),
      ("is_static", .bool f.isStatic), ("is_final", .bool f.isFinal),
      ("initialized", .bool f.initialized)]
  | base c => .object (("type", .string "BaseConstructor") :: c.jsonFields)

def Outcome.toJson : Outcome → Json
  | inserted className constructors imports => .object [("status", .string "inserted"),
      ("class", .string className), ("constructors", .strings constructors),
      ("imports", .strings imports)]
  | nothingToGenerate => .object [("status", .string "nothingToGenerate")]

def Dialect.word : Dialect → String
  | java => "java"
  | groovy => "groovy"

def VisibilityPolicy.word : VisibilityPolicy → String
  | escalate => "escalate"
  | always .pub => "public"
  | always .prot => "protected"
  | always .pack => "package"
  | always .priv => "private"

def NamingConventions.toJson (n : NamingConventions) : Json :=
  .object [("fieldPrefix", .string n.fieldPrefix), ("fieldSuffix", .string n.fieldSuffix),
    ("parameterPrefix", .string n.parameterPrefix), ("parameterSuffix", .string n.parameterSuffix)]

def Options.toJson (o : Options) : Json :=
  .object [("target", .string o.target.word), ("visibility", .string o.visibility.word),
    ("copyJavadoc", .bool o.copyDoc), ("creatorAnnotation", .string o.creatorMark),
    ("propertyAnnotation", .string o.propertyMark), ("naming", o.naming.toJson)]

end CreatorSynth
