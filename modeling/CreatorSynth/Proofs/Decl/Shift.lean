import CreatorSynth.Decl.Unit

/-! Declarations that stand so many bytes further on in their source. -/
namespace CreatorSynth

def Span.shift (n : Nat) (s : Span) : Span :=
  ⟨n + s.start, n + s.stop⟩

def Annotation.shift (n : Nat) (a : Annotation) : Annotation :=
  { a with span := a.span.shift n }

def Modifiers.shift (n : Nat) (m : Modifiers) : Modifiers :=
  { m with annotations := m.annotations.map (.shift n) }

def Param.shift (n : Nat) (p : Param) : Param :=
  { p with modifiers := p.modifiers.shift n, span := p.span.shift n }

def Statement.shift (n : Nat) : Statement → Statement
  | superCall args span => superCall args (span.shift n)
  | thisCall args span => thisCall args (span.shift n)
  | assign qualified field value span => assign qualified field value (span.shift n)
  | other text span => other text (span.shift n)

def Block.shift (n : Nat) (b : Block) : Block :=
  ⟨b.statements.map (Statement.shift n), b.span.shift n⟩

def MethodDecl.shift (n : Nat) (m : MethodDecl) : MethodDecl :=
  { m with
    modifiers := m.modifiers.shift n
    params := m.params.map (Param.shift n)
    body := m.body.map (Block.shift n)
    span := m.span.shift n }

def FieldDecl.shift (n : Nat) (f : FieldDecl) : FieldDecl :=
  { f with modifiers := f.modifiers.shift n, span := f.span.shift n }

def EnumConstant.shift (n : Nat) (c : EnumConstant) : EnumConstant :=
  { c with span := c.span.shift n }

/-- Classes nested in it keep their numbers. -/
def Member.shift (n : Nat) : Member → Member
  | field decl => field (decl.shift n)
  | constructor decl => constructor (decl.shift n)
  | method decl => method (decl.shift n)
  | nested id span => nested id (span.shift n)
  | constant decl => constant (decl.shift n)
  | initializer isStatic span => initializer isStatic (span.shift n)

def ClassDecl.shift (n : Nat) (c : ClassDecl) : ClassDecl :=
  { c with
    modifiers := c.modifiers.shift n
    recordComponents := c.recordComponents.map (Param.shift n)
    members := c.members.map (Member.shift n)
    bodySpan := c.bodySpan.shift n
    span := c.span.shift n }

end CreatorSynth
