import Ocelotl.Library.Throwing
import Ocelotl.Library.Machine
import Ocelotl.Library.Dominance
import Ocelotl.Library.UnorderedMap
import Ocelotl.Library.Parsing
import Ocelotl.Ast
import Ocelotl.Frontend.RoundTrip
import Ocelotl.Semantic.VisibleNames
import Ocelotl.IR.Generator
import Ocelotl.IR.StrictSSA
import Ocelotl.IR.DocumentedContract
import Ocelotl.IR.Completeness
import Ocelotl.IR.DeclaredTypes
import Ocelotl.Codegen.PhiRule
import Ocelotl.Codegen.SinglePass
import Ocelotl.Codegen.BlockPermutation
import Ocelotl.Codegen.TensorPrograms
import Ocelotl.Codegen.Division
import Ocelotl.Codegen.Release
import Ocelotl.Evaluation.TypeSoundness
import Ocelotl.IR.Acceptance
import Ocelotl.IR.PathEnvironments
import Ocelotl.IR.Preservation
import Ocelotl.IR.OrderIndependence
import Ocelotl.Semantic.Rejection
import Ocelotl.Frontend.Termination
import Ocelotl.Codegen.StorageSize
import Ocelotl.Runtime.Allocator
import Ocelotl.Semantic.TypeSystem
import Ocelotl.Driver.Layout
import Ocelotl.Driver.TokenDump
import Ocelotl.Runtime.LinkedExecutable
import Ocelotl.Codegen.Halting
import Ocelotl.Driver.Unoptimized
import Ocelotl.Driver.Diagnostics
import Ocelotl.Driver.Size
import Ocelotl.Driver.Language
import Ocelotl.Driver.Names
import Ocelotl.Codegen.Behaviour
