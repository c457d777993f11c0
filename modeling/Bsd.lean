import Bsd.Util.ClosureFailures
import Bsd.Util.MemoryAccessor
import Bsd.Util.ProcessGraphRuns
import Bsd.Util.References
import Bsd.Store.AddFromDump
import Bsd.Store.CacheCoherence
import Bsd.Store.CollectionExactness
import Bsd.Store.CollectionOrder
import Bsd.Store.Disclosure
import Bsd.Store.HashSeparation
import Bsd.Store.JobSlots
import Bsd.Store.OverlayRuns
import Bsd.Store.PathLocks
import Bsd.Store.RootsServer
import Bsd.Store.VerifyStore
import Bsd.Store.WaitGraph
import Bsd.Expr.DerivationValidity
import Bsd.Expr.LexicalScoping
import Bsd.Expr.MergedInherits
import Bsd.Expr.ReplaceStrings
import Bsd.Expr.StringContext
import Bsd.Expr.StringLexing
import Bsd.Expr.ValueEquality
import Bsd.Flake.FindInput
import Bsd.Store.PathInfoTexts
import Bsd.Store.Versions
import Bsd.Util.SourceAccessor
import Bsd.Util.Strings
