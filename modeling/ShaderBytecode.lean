import ShaderBytecode.Config.Read
import ShaderBytecode.Diagnostic.Render
import ShaderBytecode.Proofs.Dialects
import ShaderBytecode.Proofs.DuplicateLocals
import ShaderBytecode.Proofs.ErrorLimit
import ShaderBytecode.Proofs.FormedTypes
import ShaderBytecode.Proofs.ForwardJumps
import ShaderBytecode.Proofs.Initialisation
import ShaderBytecode.Proofs.Locations
import ShaderBytecode.Proofs.MissingReturns
import ShaderBytecode.Proofs.NestingDepth
import ShaderBytecode.Proofs.PrintedExpressions
import ShaderBytecode.Proofs.Products
import ShaderBytecode.Proofs.ProgramNames
import ShaderBytecode.Proofs.Promotion
import ShaderBytecode.Proofs.Prototypes
import ShaderBytecode.Proofs.ReadingProgress
import ShaderBytecode.Proofs.Reencoding
import ShaderBytecode.Proofs.Relocation
import ShaderBytecode.Proofs.RoundTrip
import ShaderBytecode.Proofs.Samplers
import ShaderBytecode.Proofs.Sessions
import ShaderBytecode.Proofs.Tiling
import ShaderBytecode.Proofs.UnusedLocals
