import PinnedTree.Command.Directory
import PinnedTree.Main
import PinnedTree.Proofs.Command.Outline
import PinnedTree.Proofs.Command.Reading
import PinnedTree.Proofs.Command.Resolving
import PinnedTree.Proofs.Json.Determined
import PinnedTree.Proofs.Json.Document
import PinnedTree.Proofs.Json.Lexemes
import PinnedTree.Proofs.Json.Reading
import PinnedTree.Proofs.Json.Spelled
import PinnedTree.Proofs.Json.Tokens
import PinnedTree.Proofs.Listing.Acceptance
import PinnedTree.Proofs.Listing.Additions
import PinnedTree.Proofs.Listing.Decoding
import PinnedTree.Proofs.Listing.Departures
import PinnedTree.Proofs.Listing.Doubles
import PinnedTree.Proofs.Listing.Integers
import PinnedTree.Proofs.Listing.Members
import PinnedTree.Proofs.Listing.Mentions
import PinnedTree.Proofs.Listing.Repeats
import PinnedTree.Proofs.Listing.Slicing
import PinnedTree.Proofs.Listing.Viable
import PinnedTree.Proofs.Listing.Windows
import PinnedTree.Proofs.Members
import PinnedTree.Proofs.Number.Float
import PinnedTree.Proofs.Number.Integer
import PinnedTree.Proofs.Number.Lexing
import PinnedTree.Proofs.Number.Longest
import PinnedTree.Proofs.Number.Rounding
import PinnedTree.Proofs.Number.Spelling
import PinnedTree.Proofs.Path
import PinnedTree.Proofs.Scalar.Display
import PinnedTree.Proofs.Scalar.Json
import PinnedTree.Proofs.Session.Calls
import PinnedTree.Proofs.Session.FirstRead.Alone
import PinnedTree.Proofs.Session.FirstRead.Interleaving
import PinnedTree.Proofs.Session.Indexed
import PinnedTree.Proofs.Session.Laziness
import PinnedTree.Proofs.Session.ListedNames
import PinnedTree.Proofs.Session.Loading
import PinnedTree.Proofs.Session.Lookup
import PinnedTree.Proofs.Session.Memory
import PinnedTree.Proofs.Session.Once
import PinnedTree.Proofs.Session.PageBounds
import PinnedTree.Proofs.Session.Paging
import PinnedTree.Proofs.Session.Pinned
import PinnedTree.Proofs.Session.Readable
import PinnedTree.Proofs.Session.Requests
import PinnedTree.Proofs.Store.Hashed
import PinnedTree.Proofs.Store.History
import PinnedTree.Proofs.Store.Memory
import PinnedTree.Proofs.Store.Windows
import PinnedTree.Proofs.Text.Joined
import PinnedTree.Proofs.Text.Quoted
import PinnedTree.Proofs.Token.Cursor
import PinnedTree.Proofs.Token.Lookahead
import PinnedTree.Proofs.Token.Places
import PinnedTree.Proofs.Token.Positions
import PinnedTree.Proofs.Token.Reached
import PinnedTree.Proofs.Token.Skipping
import PinnedTree.Proofs.Token.Strings
import PinnedTree.Proofs.Token.Values
import PinnedTree.Proofs.Tree.Depth
import PinnedTree.Proofs.Tree.Json
import PinnedTree.Proofs.Tree.Preorder
import PinnedTree.Proofs.Tree.Pruned
import PinnedTree.Proofs.Tree.WellFormed
import PinnedTree.Session.FirstRead
import PinnedTree.Session.Indexed
import PinnedTree.Store.Scripted
import PinnedTree.Token.Reader
