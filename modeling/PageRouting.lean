import PageRouting.Path
import PageRouting.Parameters.Reader
import PageRouting.PageStore
import PageRouting.Proofs.Route.Mounted
import PageRouting.Recording
import PageRouting.Route.Table
import PageRouting.Proofs.Settings
import PageRouting.Proofs.Route.PageInstance
import PageRouting.Proofs.Mount.Rebuild
import PageRouting.Proofs.Route.Chain
import PageRouting.Proofs.Route.Table
import PageRouting.Proofs.Route.QueryReading
import PageRouting.Proofs.Route.Stateless
import PageRouting.Proofs.Route.Consulted
import PageRouting.Proofs.PageSource
import PageRouting.Proofs.Route.LinkEffects
import PageRouting.Proofs.Route.DispatchEffects
import PageRouting.Proofs.Route.Selection
import PageRouting.Proofs.Parameters.Equality
import PageRouting.Proofs.Registry.History
import PageRouting.Proofs.Application.Declaration
import PageRouting.Proofs.Service.Protocol
import PageRouting.Proofs.Path.Climbing
import PageRouting.Proofs.Path.NormalForm
import PageRouting.Proofs.Path.Depth
import PageRouting.Proofs.Path.Front
import PageRouting.Proofs.Parameters.QueryText
import PageRouting.Proofs.Url.Inert
import PageRouting.Proofs.Parameters.Merging
import PageRouting.Proofs.Mount.Matching
import PageRouting.Proofs.Route.Nesting
import PageRouting.Proofs.Route.Reports
import PageRouting.Proofs.ComponentPath
import PageRouting.Proofs.Parameters.Integers
import PageRouting.Proofs.Token.Rewriting
