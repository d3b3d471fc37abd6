import Bytewise.Byte
import Bytewise.ByteSet
import Bytewise.Bytes.Decimal
import Bytewise.Interchange.Arrays
import Bytewise.Interchange.Patterns
import Bytewise.Interchange.Strings
import Bytewise.Pattern.Cache
import Bytewise.Pattern.Register
import Bytewise.Shared.Description
import Bytewise.Shared.Search
import Bytewise.Strings.Store
import Bytewise.Proofs.Pattern.Decomposition
import Bytewise.Proofs.Pattern.WellFormed
import Bytewise.Proofs.Pattern.Walk
import Bytewise.Proofs.Pattern.Greedy
import Bytewise.Proofs.Pattern.Longest
import Bytewise.Proofs.Pattern.Grammar
import Bytewise.Proofs.Pattern.Lexeme
import Bytewise.Proofs.Pattern.Parsing
import Bytewise.Proofs.Pattern.BracketSet
import Bytewise.Proofs.Pattern.Leftmost
import Bytewise.Proofs.Pattern.Budget
import Bytewise.Proofs.Pattern.GlobGrammar
import Bytewise.Proofs.Pattern.GlobMatching
import Bytewise.Proofs.Pattern.GlobBracket
import Bytewise.Proofs.Shared.Counting
import Bytewise.Proofs.Shared.Naming
import Bytewise.Proofs.Shared.Changing
import Bytewise.Proofs.Shared.Private
import Bytewise.Proofs.Shared.Agreement
import Bytewise.Proofs.Shared.Exclusive
import Bytewise.Proofs.Shared.Failing
import Bytewise.Proofs.Byte.Case
import Bytewise.Proofs.ByteSet.Membership
import Bytewise.Proofs.Pattern.CaseBlind
import Bytewise.Proofs.Needle.Occurrences
import Bytewise.Proofs.Needle.Literal
import Bytewise.Proofs.Strings.Agreement
import Bytewise.Proofs.Byte.Digit
import Bytewise.Proofs.Pattern.Writing
import Bytewise.Proofs.Pattern.Freshness
import Bytewise.Proofs.Pattern.Caching
import Bytewise.Proofs.Text.Numeral
import Bytewise.Proofs.Text.Utf8
import Bytewise.Proofs.Json.Number
import Bytewise.Proofs.Json.Sequence
import Bytewise.Proofs.Interchange.Json
import Bytewise.Proofs.Binary.Delimited
import Bytewise.Proofs.Interchange.Binary
import Bytewise.Proofs.Needle.Ahead
import Bytewise.Proofs.Needle.Replacing
import Bytewise.Proofs.Needle.OnePass
import Bytewise.Proofs.Json.Value
import Bytewise.Proofs.Json.Object
import Bytewise.Proofs.Interchange.Patterns
import Bytewise.Proofs.Bytes.Blank
import Bytewise.Proofs.Bytes.Decimal
import Bytewise.Proofs.ByteSet.History
import Bytewise.Proofs.Needle.BlankRuns
import Bytewise.Proofs.Shared.Searching
import Bytewise.Proofs.Strings.WhiteSpace
import Bytewise.Proofs.Strings.Numbers
import Bytewise.Proofs.Strings.Overflow
