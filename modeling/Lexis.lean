import Lexis.Json.Reader
import Lexis.Main
import Lexis.Settings.Json
import Lexis.Proofs.Grammar
import Lexis.Proofs.Tiling
import Lexis.Proofs.Separation
import Lexis.Proofs.ViablePrefix
import Lexis.Proofs.Diagnosis
import Lexis.Proofs.Relexing
import Lexis.Proofs.LongestMatch
import Lexis.Proofs.VocabularyMembers
import Lexis.Proofs.KeywordLabels
import Lexis.Proofs.Source.Lines
import Lexis.Proofs.Excerpt
import Lexis.Proofs.ScanCommands
import Lexis.Proofs.SavedSettings
import Lexis.Proofs.WordLists
import Lexis.Proofs.ByteCursor
import Lexis.Proofs.Coherence
import Lexis.Proofs.Source.LineTable
import Lexis.Proofs.Vocabulary.Validation
import Lexis.Proofs.TokenOutput
import Lexis.Proofs.Overrides
import Lexis.Proofs.TextOutput
import Lexis.Proofs.CommandLine.Lists
import Lexis.Proofs.InitTarget
import Lexis.Proofs.Trie.Nodes
import Lexis.Proofs.Vocabulary.Edges
import Lexis.Proofs.InputNames
import Lexis.Proofs.ForcedInit
