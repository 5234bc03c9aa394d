import ComponentCompiler.Main
import ComponentCompiler.Proofs.Brackets.Literal
import ComponentCompiler.Proofs.Check.Chains
import ComponentCompiler.Proofs.Check.Codes
import ComponentCompiler.Proofs.Check.Synced
import ComponentCompiler.Proofs.Command.Targets
import ComponentCompiler.Proofs.Command.Written
import ComponentCompiler.Proofs.Compile.Names
import ComponentCompiler.Proofs.Compile.Regions
import ComponentCompiler.Proofs.Dom.Naive
import ComponentCompiler.Proofs.LineEnds.Outline
import ComponentCompiler.Proofs.Outline.RoundTrip
import ComponentCompiler.Proofs.Position.Offsets
import ComponentCompiler.Proofs.Program.Choice
import ComponentCompiler.Proofs.Program.Content
import ComponentCompiler.Proofs.Program.Depth
import ComponentCompiler.Proofs.Program.Listeners
import ComponentCompiler.Proofs.Program.Regions
import ComponentCompiler.Proofs.Section.Assembly
import ComponentCompiler.Proofs.Twins.Skipped
