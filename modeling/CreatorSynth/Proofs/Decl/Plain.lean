import CreatorSynth.Decl.Unit

/-! Declarations without their places in a source. Texts are taken as a key reads them, and
classes may be numbered anew. -/
namespace CreatorSynth

def Annotation.plain (key : String → String) (a : Annotation) : Annotation :=
  ⟨a.name, a.args.map key, Span.none⟩

def Modifiers.plain (key : String → String) (m : Modifiers) : Modifiers :=
  ⟨m.keywords, m.annotations.map (.plain key)⟩

def Param.plain (key : String → String) (p : Param) : Param :=
  ⟨p.modifiers.plain key, p.type, p.name, p.varargs, Span.none⟩

def Statement.plain (key : String → String) : Statement → Statement
  | superCall args _ => superCall (args.map key) Span.none
  | thisCall args _ => thisCall (args.map key) Span.none
  | assign qualified field value _ => assign qualified field (key value) Span.none
  | other text _ => other (key text) Span.none

def Block.plain (key : String → String) (b : Block) : Block :=
  ⟨b.statements.map (Statement.plain key), Span.none⟩

def MethodDecl.plain (key : String → String) (m : MethodDecl) : MethodDecl :=
  { m with
    modifiers := m.modifiers.plain key
    params := m.params.map (Param.plain key)
    body := m.body.map (Block.plain key)
    doc := m.doc.map key
    span := Span.none }

def FieldDecl.plain (key : String → String) (f : FieldDecl) : FieldDecl :=
  { f with
    modifiers := f.modifiers.plain key
    initializer := f.initializer.map key
    doc := f.doc.map key
    span := Span.none }

def EnumConstant.plain (key : String → String) (c : EnumConstant) : EnumConstant :=
  ⟨c.name, c.args.map key, Span.none⟩

def Member.plain (key : String → String) (renumber : ClassId → ClassId) : Member → Member
  | field decl => field (decl.plain key)
  | constructor decl => constructor (decl.plain key)
  | method decl => method (decl.plain key)
  | nested id _ => nested (renumber id) Span.none
  | constant decl => constant (decl.plain key)
  | initializer isStatic _ => initializer isStatic Span.none

def ClassDecl.plain (key : String → String) (renumber : ClassId → ClassId) (c : ClassDecl) :
    ClassDecl :=
  { c with
    modifiers := c.modifiers.plain key
    recordComponents := c.recordComponents.map (Param.plain key)
    members := c.members.map (Member.plain key renumber)
    doc := c.doc.map key
    bodySpan := Span.none
    span := Span.none }

def Import.plain (i : Import) : Import :=
  { i with span := Span.none }

def CompilationUnit.plain (key : String → String) (renumber : ClassId → ClassId)
    (u : CompilationUnit) : CompilationUnit where
  package := u.package
  imports := u.imports.map Import.plain
  headerEnd := 0
  classes := u.classes.map (ClassDecl.plain key renumber)
  topLevel := u.topLevel.map renumber

end CreatorSynth
