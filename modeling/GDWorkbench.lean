import GDWorkbench.CacheFolder
import GDWorkbench.Main
import GDWorkbench.Proofs.Parse.Order
import GDWorkbench.Proofs.Print.Coverage
import GDWorkbench.Proofs.Format.Descent
import GDWorkbench.Proofs.Tool.BrokenFiles
import GDWorkbench.Proofs.Tool.Folders
import GDWorkbench.Proofs.Lint.Needless
import GDWorkbench.Proofs.Lint.ValidCode
import GDWorkbench.Proofs.Parse.LastLineFeed
import GDWorkbench.Proofs.Safety.Literals
import GDWorkbench.Proofs.StringLiteral.Rereading
import GDWorkbench.Proofs.Skeleton.Headings
import GDWorkbench.Proofs.Lint.Directives
import GDWorkbench.Proofs.Lint.FallThrough
import GDWorkbench.Proofs.Format.FoldedArguments
import GDWorkbench.Proofs.Format.TrailingBlanks
import GDWorkbench.Proofs.Layout.Plain
import GDWorkbench.Proofs.Layout.Headers
import GDWorkbench.Proofs.Format.Chains
