import CreatorSynth.Project.Commands

/-! The words of a command line. -/
namespace CreatorSynth

/-- What a command line asks for. -/
inductive Invocation
  | init (sourceRoots : List String) (force : Bool)
  | members (file : String) (className : Option String) (json : Bool)
  | generate (request : Command.Request)
  deriving DecidableEq, Repr

/-- Options of all commands, and the words that are none. -/
structure Flags where
  words : List String
  sourceRoots : List String
  className : Option String
  fields : List String
  indices : List Nat
  force : Bool
  toStdout : Bool
  json : Bool
  deriving DecidableEq, Repr

namespace Flags

def none : Flags :=
  ⟨[], [], Option.none, [], [], false, false, false⟩

/-- The options behind the name of a command, `short` being what `-f` is short for. Nothing if a
value is missing or no number where one is needed. -/
def ofWords? (short : String) : List String → Option Flags
  | [] => some none
  | "-f" :: rest => if short = "force" then (ofWords? short rest).map fun f => { f with force := true } else
      match rest with
      | value :: rest => (ofWords? short rest).map fun f => { f with fields := value :: f.fields }
      | [] => Option.none
  | "--force" :: rest => (ofWords? short rest).map fun f => { f with force := true }
  | "--json" :: rest => (ofWords? short rest).map fun f => { f with json := true }
  | "--stdout" :: rest => (ofWords? short rest).map fun f => { f with toStdout := true }
  | "-s" :: value :: rest | "--source-root" :: value :: rest =>
      (ofWords? short rest).map fun f => { f with sourceRoots := value :: f.sourceRoots }
  | "-c" :: value :: rest | "--class" :: value :: rest =>
      (ofWords? short rest).map fun f => { f with className := some value }
  | "--field" :: value :: rest =>
      (ofWords? short rest).map fun f => { f with fields := value :: f.fields }
  | "-m" :: value :: rest | "--member" :: value :: rest => do
      let index ← value.toNat?
      let f ← ofWords? short rest
      return { f with indices := index :: f.indices }
  | word :: rest =>
      if word.toList.head? = some '-' then Option.none
      else (ofWords? short rest).map fun f => { f with words := word :: f.words }

end Flags

namespace Invocation

/-- The command that the words of a command line name. -/
def ofWords? : List String → Option Invocation
  | "init" :: rest => do
      let f ← Flags.ofWords? "force" rest
      if f.words ≠ [] then Option.none
      return init (if f.sourceRoots.isEmpty then ["src"] else f.sourceRoots) f.force
  | "members" :: rest => do
      let f ← Flags.ofWords? "field" rest
      match f.words with
      | [file] => return members file f.className f.json
      | _ => Option.none
  | "generate" :: rest => do
      let f ← Flags.ofWords? "field" rest
      match f.words with
      | [file] => return generate {
          file, className := f.className, fields := f.fields, indices := f.indices
          toStdout := f.toStdout, json := f.json }
      | _ => Option.none
  | _ => Option.none

/-- The source file it is about. -/
def file? : Invocation → Option String
  | init .. => none
  | members file .. => some file
  | generate request => some request.file

def command : Invocation → Command Unit
  | init sourceRoots force => Command.init sourceRoots force
  | members file className json => Command.members file className json
  | generate request => Command.generate request

end Invocation

def usage : String :=
  "Usage: jsoncreator init [-s DIR]... [-f]\n" ++
  "       jsoncreator members FILE [-c CLASS] [--json]\n" ++
  "       jsoncreator generate FILE [-c CLASS] [-f FIELD]... [-m INDEX]... [--stdout] [--json]\n"

end CreatorSynth
