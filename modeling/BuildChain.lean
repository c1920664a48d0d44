import BuildChain.Chain.Json
import BuildChain.Main
import BuildChain.Proofs.Chain.Structure
import BuildChain.Proofs.Command.Perform
import BuildChain.Proofs.Command.Reorder
import BuildChain.Proofs.Edit
import BuildChain.Proofs.Edit.UnitTests
import BuildChain.Proofs.Line.Edits
import BuildChain.Proofs.Release
import BuildChain.Proofs.Repair.Contract
import BuildChain.Proofs.Repair.Frame
import BuildChain.Proofs.Repair.Progress
import BuildChain.Proofs.Request.FeatureBranch
import BuildChain.Proofs.RuleSet.Cache
import BuildChain.Proofs.RuleSet.Sound
import BuildChain.Proofs.Session
import BuildChain.Proofs.Workbench
import BuildChain.Proofs.Writer.Frame
import BuildChain.Proofs.Writer.Fresh
import BuildChain.Proofs.Writer.Generated
import BuildChain.Proofs.Writer.Layout
import BuildChain.Proofs.Writer.SingleEdit
import BuildChain.Proofs.Writer.SingleKeys
import BuildChain.Proofs.Writer.Unchanged
