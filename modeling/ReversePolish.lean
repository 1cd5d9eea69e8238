import ReversePolish.Main
import ReversePolish.CommandLine.Execution
import ReversePolish.Proofs.TokenStream
import ReversePolish.Proofs.ExpressionValue
import ReversePolish.Proofs.SessionTranscript
import ReversePolish.Proofs.NumberRoundTrip
import ReversePolish.Proofs.ChannelUse
import ReversePolish.Proofs.FailingRequests
import ReversePolish.Proofs.VariableHistory
import ReversePolish.Proofs.SteadyTokens
import ReversePolish.Proofs.ByteLines
import ReversePolish.Proofs.CausalSessions
import ReversePolish.Proofs.CutOffSink
import ReversePolish.Proofs.CutShortSessions
import ReversePolish.Proofs.NumberTokens
import ReversePolish.Proofs.SessionJournal
import ReversePolish.Proofs.ExpressionFaults
import ReversePolish.Proofs.PromptedReads
import ReversePolish.Proofs.SpacedText
import ReversePolish.Proofs.SessionDeeds
import ReversePolish.Proofs.RespacedSessions
import ReversePolish.Proofs.LineTails
import ReversePolish.Proofs.ErrorRecovery
import ReversePolish.Proofs.VisibleCharacters
import ReversePolish.Proofs.StreamLines
import ReversePolish.Proofs.QuietSessions
import ReversePolish.Proofs.TokenByToken
import ReversePolish.Proofs.NamedVariables
import ReversePolish.Proofs.BlindEvaluation
import ReversePolish.Proofs.IndependentLines
import ReversePolish.Proofs.RenamedText
import ReversePolish.Proofs.RenamedSessions
import ReversePolish.Proofs.ExecutedSessions
import ReversePolish.Proofs.LiteralGrammar
import ReversePolish.Proofs.LiteralRounding
import ReversePolish.Proofs.UnsaidOutcomes
import ReversePolish.Proofs.ExecutedJournals
import ReversePolish.Proofs.ShortestDigits
import ReversePolish.Proofs.WrittenNumerals
import ReversePolish.Proofs.FewestDigits
import ReversePolish.Proofs.CanonicalResults
import ReversePolish.Proofs.ResultLines
import ReversePolish.Proofs.UnreadableTokens
import ReversePolish.Proofs.WrittenLines
import ReversePolish.Proofs.RenderedTokens
import ReversePolish.Proofs.ReportedPlaces
import ReversePolish.Proofs.BrokenReports
import ReversePolish.Proofs.ArgumentOrder
import ReversePolish.Proofs.TokenPlaces
