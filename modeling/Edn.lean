import Edn.Main
import Edn.Native.Registry
import Edn.Proofs.CommandLine
import Edn.Proofs.EqualKeys
import Edn.Proofs.Reading.Lines
import Edn.Proofs.Decimal.Numerals
import Edn.Proofs.Grammar.Numerals
import Edn.Proofs.Reading.Atoms
import Edn.Proofs.Reading.Runs
import Edn.Proofs.EqualMaps
import Edn.Proofs.Retagging
import Edn.Proofs.Reading.Agreement
import Edn.Proofs.Reading.Closing
import Edn.Proofs.Instant.Spelling
import Edn.Proofs.Instant.SignedYears
import Edn.Proofs.Instant.Legible
import Edn.Proofs.Merging
import Edn.Proofs.Reading.Stream
import Edn.Proofs.Reading.Progress
import Edn.Proofs.Reading.StringLiterals
import Edn.Proofs.Grammar.Registration
import Edn.Proofs.Symbol.Codec
import Edn.Proofs.Accumulation
import Edn.Proofs.Conversion
import Edn.Proofs.CanonicalLine
import Edn.Proofs.Reading.Wording
import Edn.Proofs.Output.Format
import Edn.Proofs.Arguments
import Edn.Proofs.Grammar.MaximalMunch
