import CreatorSynth.Main
import CreatorSynth.Token.Lossless
import CreatorSynth.Proofs.Document.History
import CreatorSynth.Proofs.Document.ShortNames
import CreatorSynth.Proofs.Document.Imports
import CreatorSynth.Proofs.Document.SecondRun
import CreatorSynth.Proofs.Document.Places
import CreatorSynth.Proofs.Model.Index
import CreatorSynth.Proofs.Creator.Body
import CreatorSynth.Proofs.Creator.Prototype
import CreatorSynth.Proofs.Creator.ReadBack
import CreatorSynth.Proofs.Parser.Growth
import CreatorSynth.Proofs.Parser.Termination
import CreatorSynth.Proofs.Text.Boundary
import CreatorSynth.Proofs.Parser.Errors
import CreatorSynth.Proofs.Text.Reindent
import CreatorSynth.Proofs.Creator.Identifiers
import CreatorSynth.Proofs.Parser.Initializers
import CreatorSynth.Proofs.Project.Generate
import CreatorSynth.Proofs.Model.Substitution
import CreatorSynth.Proofs.Model.RawView
import CreatorSynth.Proofs.Model.OwnTypeParams
import CreatorSynth.Proofs.Parser.Words
import CreatorSynth.Proofs.Creator.ClassNames
import CreatorSynth.Proofs.Printer.Paths
import CreatorSynth.Proofs.Model.Qualify
import CreatorSynth.Proofs.Model.Signatures
import CreatorSynth.Proofs.Printer.Fixpoint
import CreatorSynth.Proofs.Parser.Blocks
import CreatorSynth.Proofs.Parser.Spacing
import CreatorSynth.Proofs.Parser.Attached
import CreatorSynth.Proofs.Parser.Dialects
import CreatorSynth.Proofs.Creator.Literals
import CreatorSynth.Proofs.Token.Separators
import CreatorSynth.Proofs.Parser.InClass
import CreatorSynth.Proofs.Creator.Arguments
import CreatorSynth.Proofs.Creator.NormalForm
import CreatorSynth.Proofs.Printer.Terminators
import CreatorSynth.Proofs.Document.NewImport
