import ScriptLang.Main
import ScriptLang.Host.FileTree
import ScriptLang.Host.Plugins
import ScriptLang.Proofs.Signals
import ScriptLang.Proofs.Exceptions
import ScriptLang.Proofs.Frames
import ScriptLang.Proofs.ReadBack
import ScriptLang.Proofs.TokenPlaces
import ScriptLang.Proofs.WellFormedRuns
import ScriptLang.Proofs.Diagnostics
import ScriptLang.Proofs.ScopeNames
import ScriptLang.Proofs.Alike
import ScriptLang.Proofs.Headings
import ScriptLang.Proofs.ParallelRuns
import ScriptLang.Proofs.Layout
import ScriptLang.Proofs.JoinedTexts
import ScriptLang.Proofs.Pieces
import ScriptLang.Proofs.CollectionEdits
import ScriptLang.Proofs.HashLaws
import ScriptLang.Proofs.StringKeys
import ScriptLang.Proofs.Copies
import ScriptLang.Proofs.Grouping
import ScriptLang.Proofs.Recovery
import ScriptLang.Proofs.Words
import ScriptLang.Proofs.MoreFuel
import ScriptLang.Proofs.CompoundAssignment
import ScriptLang.Proofs.ElementEdits
import ScriptLang.Proofs.SharedScopes
import ScriptLang.Proofs.ExactArithmetic
import ScriptLang.Proofs.LoopBreaks
import ScriptLang.Proofs.Visits
import ScriptLang.Proofs.ImportChains
import ScriptLang.Proofs.Rendering
import ScriptLang.Proofs.Equality
import ScriptLang.Proofs.StrictEquality
import ScriptLang.Proofs.DoubtfulNames
import ScriptLang.Proofs.Splitting
import ScriptLang.Proofs.LongestMatch
import ScriptLang.Proofs.SpacedTokens
import ScriptLang.Proofs.FullSinks
