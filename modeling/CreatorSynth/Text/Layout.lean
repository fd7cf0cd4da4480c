import CreatorSynth.Text.Blank
import CreatorSynth.Text.Split

/-! Indentation of whole texts. -/
namespace CreatorSynth.Text

/-- Each line behind the indent; a blank line becomes empty. The end of the last line is
dropped. -/
def reindent (text indent : String) : String :=
  "\n".intercalate <| (lines text.toList).map fun line =>
    if allBlank line then "" else indent ++ String.ofList line

/-- Several copies of a text. -/
def repeated (n : Nat) (text : String) : String :=
  String.join (List.replicate n text)

end CreatorSynth.Text
