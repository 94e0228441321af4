import UtilityLayer.Cache.Json
import UtilityLayer.Compiler.Session
import UtilityLayer.Selector.Printer
import UtilityLayer.Proofs.Compiler.Pass
import UtilityLayer.Proofs.Compiler.Run
import UtilityLayer.Proofs.Compiler.Delivery
import UtilityLayer.Proofs.Cache.Contents
import UtilityLayer.Proofs.Compiler.Record
import UtilityLayer.Proofs.Compiler.Supply
import UtilityLayer.Proofs.TextSet
import UtilityLayer.Proofs.Compiler.Solo
import UtilityLayer.Proofs.Compiler.Calls
import UtilityLayer.Proofs.Compiler.Sharing
import UtilityLayer.Proofs.Css.Reading
import UtilityLayer.Proofs.Css.Comment
import UtilityLayer.Proofs.Css.Name
import UtilityLayer.Proofs.Selector.Names
import UtilityLayer.Proofs.Layer.ReadBack
import UtilityLayer.Proofs.Layer.Generated
import UtilityLayer.Proofs.Compiler.Sessions
import UtilityLayer.Proofs.Compiler.Accounts
import UtilityLayer.Proofs.Selector.Following
import UtilityLayer.Proofs.Selector.Pieces
import UtilityLayer.Proofs.Token
import UtilityLayer.Proofs.Utility.Authored
import UtilityLayer.Proofs.Layer.Cascade
import UtilityLayer.Proofs.Rule.Rename
import UtilityLayer.Proofs.Layer.Subjects
import UtilityLayer.Proofs.Layer.Coverage
import UtilityLayer.Proofs.Compiler.Intrusion
import UtilityLayer.Proofs.Compiler.Pace
import UtilityLayer.Proofs.Cache.Recency
import UtilityLayer.Proofs.Css.Grammar
import UtilityLayer.Proofs.Layer.Increments
import UtilityLayer.Proofs.Rule.Lines
import UtilityLayer.Proofs.Text.Lines
import UtilityLayer.Proofs.Css.Concatenation
import UtilityLayer.Proofs.Layer.Lines
import UtilityLayer.Proofs.Utility.Concatenation
import UtilityLayer.Proofs.Layer.Printing
import UtilityLayer.Proofs.Layer.Pruning
import UtilityLayer.Proofs.Json.Grammar
import UtilityLayer.Proofs.Cache.Json
import UtilityLayer.Proofs.Cache.Keys
import UtilityLayer.Proofs.Text.Holds
import UtilityLayer.Proofs.Css.Body
import UtilityLayer.Proofs.Rule.Segments
import UtilityLayer.Proofs.Rule.Important
import UtilityLayer.Proofs.Rule.Settled
import UtilityLayer.Proofs.Theme.Declarations
import UtilityLayer.Proofs.Rule.Naming
import UtilityLayer.Proofs.Utility.Resolution
import UtilityLayer.Proofs.Css.Brackets
import UtilityLayer.Proofs.Selector.Spelling
import UtilityLayer.Proofs.Selector.Formed
import UtilityLayer.Proofs.Selector.RoundTrip
import UtilityLayer.Proofs.Selector.Subjects
import UtilityLayer.Proofs.Layer.Assembly
import UtilityLayer.Proofs.Text.Words
import UtilityLayer.Proofs.Css.Strings
import UtilityLayer.Proofs.Css.Code
import UtilityLayer.Proofs.Css.Blocks
import UtilityLayer.Proofs.Utility.Strings
import UtilityLayer.Proofs.Selector.Mentions
import UtilityLayer.Proofs.Layer.Mentions
import UtilityLayer.Proofs.Text.Fingerprint
import UtilityLayer.Proofs.Variant.Breakpoints
import UtilityLayer.Proofs.Css.Stripping
