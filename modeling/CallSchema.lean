import CallSchema.Config
import CallSchema.Guard.Session
import CallSchema.Message
import CallSchema.Proofs.Schema.Leaves
import CallSchema.Registry.Session
import CallSchema.Version
import CallSchema.Proofs.Schema.Strictness
import CallSchema.Proofs.Schema.Walk
import CallSchema.Proofs.Schema.Account
import CallSchema.Proofs.Guard.Passes
import CallSchema.Proofs.Guard.Leftover
import CallSchema.Proofs.TypeExpr.Forms
import CallSchema.Proofs.TypeExpr.Respelling
import CallSchema.Proofs.Schema.Locality
import CallSchema.Proofs.TypeExpr.Canonical
import CallSchema.Proofs.Guard.Idempotence
import CallSchema.Proofs.Call.Bound
import CallSchema.Proofs.Guard.Admission
import CallSchema.Proofs.Guard.Passthrough
import CallSchema.Proofs.TypeExpr.Grammar
import CallSchema.Proofs.Registry.AliasChain
import CallSchema.Proofs.Registry.Reliable
import CallSchema.Proofs.TypeExpr.NormalForm
import CallSchema.Proofs.TypeExpr.Denotation
import CallSchema.Proofs.TypeExpr.Absence
import CallSchema.Proofs.Schema.Absence
import CallSchema.Proofs.Schema.Faults
import CallSchema.Proofs.Schema.Composition
import CallSchema.Proofs.Schema.Malformed
import CallSchema.Proofs.Call.Inside
import CallSchema.Proofs.Guard.Reruns
import CallSchema.Proofs.Guard.Blame
import CallSchema.Proofs.Registry.Layers
import CallSchema.Proofs.Registry.Building
import CallSchema.Proofs.Registry.Consulted
import CallSchema.Proofs.Guard.Irrelevance
import CallSchema.Proofs.TypeExpr.Chains
import CallSchema.Proofs.Schema.Loaded
import CallSchema.Proofs.Guard.Steps
import CallSchema.Proofs.Guard.Routing
import CallSchema.Proofs.Registry.AliasPath
import CallSchema.Proofs.Registry.AliasLimit
import CallSchema.Proofs.Registry.Refusal
import CallSchema.Proofs.Schema.PastEnd
import CallSchema.Proofs.TypeExpr.Widening
import CallSchema.Proofs.Call.Binding
import CallSchema.Proofs.Call.Spelling
import CallSchema.Proofs.Config.Loading
