import TwigStyle.Main
import TwigStyle.Proofs.Alone
import TwigStyle.Proofs.BehindWords
import TwigStyle.Proofs.Colons
import TwigStyle.Proofs.ForeignTokens
import TwigStyle.Proofs.GapRepairs
import TwigStyle.Proofs.Independence
import TwigStyle.Proofs.Innermost
import TwigStyle.Proofs.KeptLetters
import TwigStyle.Proofs.Ledger
import TwigStyle.Proofs.NextLine
import TwigStyle.Proofs.OneLine
import TwigStyle.Proofs.OrderedRules
import TwigStyle.Proofs.Processing
import TwigStyle.Proofs.Reuse
import TwigStyle.Proofs.SafeSteps
import TwigStyle.Proofs.Signature
import TwigStyle.Proofs.WholeRuns
