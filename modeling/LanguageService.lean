import LanguageService.Main
import LanguageService.Pattern.Lemmas
import LanguageService.Server.Run
import LanguageService.Command.Run
import LanguageService.Proofs.Text.Lines
import LanguageService.Proofs.Source.Correspondence
import LanguageService.Proofs.Source.Reindent
import LanguageService.Proofs.Text.MapWords
import LanguageService.Proofs.Workspace.Sync
import LanguageService.Proofs.Editor.Layout
import LanguageService.Proofs.Source.Renaming
import LanguageService.Proofs.Editor.Rename
import LanguageService.Proofs.Source.LineProblems
import LanguageService.Proofs.Workspace.StoreMap
import LanguageService.Proofs.Server.Publication
import LanguageService.Proofs.Editor.CallHierarchy
import LanguageService.Proofs.Editor.Relayout
import LanguageService.Proofs.Editor.Occurrences
import LanguageService.Proofs.Pattern.Spans
import LanguageService.Proofs.Text.Cuts
import LanguageService.Proofs.Workspace.Formatting
import LanguageService.Proofs.Editor.ByteOffsets
import LanguageService.Proofs.Editor.ByteScans
import LanguageService.Proofs.Editor.Ranges
import LanguageService.Proofs.Source.UnusedSymbols
import LanguageService.Proofs.Source.Appending
import LanguageService.Proofs.Source.CodeLines
import LanguageService.Proofs.Editor.Usages
import LanguageService.Proofs.Workspace.Terminators
import LanguageService.Proofs.Language.NamedDeclarations
import LanguageService.Proofs.Editor.Definition
import LanguageService.Proofs.Source.Renumbering
import LanguageService.Proofs.Editor.BlankLine
import LanguageService.Proofs.Server.Isolation
import LanguageService.Proofs.Text.LineEdits
import LanguageService.Proofs.Editor.RemoveFix
import LanguageService.Proofs.Editor.DeclareFix
import LanguageService.Proofs.Editor.Folding
import LanguageService.Proofs.Editor.BlockEnd
import LanguageService.Proofs.Editor.RangeLayout
import LanguageService.Proofs.Language.NamedCalls
import LanguageService.Proofs.Editor.IncomingCalls
import LanguageService.Proofs.Editor.Navigation
import LanguageService.Proofs.Editor.RenameBack
import LanguageService.Proofs.Editor.TokenDeltas
import LanguageService.Proofs.Pattern.Scan
import LanguageService.Proofs.Editor.NumberTokens
import LanguageService.Proofs.Editor.StringTokens
import LanguageService.Proofs.Editor.TokenPasses
import LanguageService.Proofs.Workspace.Offsets
import LanguageService.Proofs.Editor.OpenCalls
import LanguageService.Proofs.Editor.Outline
import LanguageService.Proofs.Source.DeclarationOrder
import LanguageService.Proofs.Editor.ParameterHints
import LanguageService.Proofs.Editor.Completion
import LanguageService.Proofs.Editor.HexColors
import LanguageService.Proofs.Editor.RgbColors
import LanguageService.Proofs.Number.Rounding
import LanguageService.Proofs.Editor.Presentations
import LanguageService.Proofs.Source.TouchedWord
import LanguageService.Proofs.Editor.LensCounts
import LanguageService.Proofs.Editor.SymbolSearch
import LanguageService.Proofs.Language.NamedShapes
import LanguageService.Proofs.Text.ByteColumns
import LanguageService.Proofs.Editor.CommentExtents
