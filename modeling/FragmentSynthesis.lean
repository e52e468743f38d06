import FragmentSynthesis.Main
import FragmentSynthesis.Placement
import FragmentSynthesis.Renaming
import FragmentSynthesis.Proofs.CaptureFreedom
import FragmentSynthesis.Proofs.OneReplacement
import FragmentSynthesis.Proofs.SpliceHistories
import FragmentSynthesis.Proofs.UniqueDecoding
import FragmentSynthesis.Proofs.FullMatches
import FragmentSynthesis.Proofs.ScopeHistories
import FragmentSynthesis.Proofs.SameLines
import FragmentSynthesis.Proofs.ReadingBack
import FragmentSynthesis.Proofs.SpliceFrames
import FragmentSynthesis.Proofs.TokenHistories
import FragmentSynthesis.Proofs.SortedCatalogs
import FragmentSynthesis.Proofs.CorpusHistories
import FragmentSynthesis.Proofs.TwinSplices
import FragmentSynthesis.Proofs.RefusedPrograms
import FragmentSynthesis.Proofs.PositionalFits
import FragmentSynthesis.Proofs.InvertedRenamings
import FragmentSynthesis.Proofs.SymmetricCounts
import FragmentSynthesis.Proofs.RenamedMatches
import FragmentSynthesis.Proofs.EqualNodes
import FragmentSynthesis.Proofs.StatementListings
import FragmentSynthesis.Proofs.TypeParameters
import FragmentSynthesis.Proofs.NameRounds
import FragmentSynthesis.Proofs.ProgramLines
import FragmentSynthesis.Proofs.NeededParentheses
import FragmentSynthesis.Proofs.SearchMaxima
import FragmentSynthesis.Proofs.TimerHistories
import FragmentSynthesis.Proofs.NameModes
import FragmentSynthesis.Proofs.PlainTypeNames
