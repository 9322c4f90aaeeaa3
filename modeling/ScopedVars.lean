import ScopedVars.Bindings.Lemmas
import ScopedVars.Chain
import ScopedVars.Double.Nearest
import ScopedVars.Json.Read
import ScopedVars.Json.Write
import ScopedVars.Proofs.Chain.Reports
import ScopedVars.Proofs.Chain.VisibleNames
import ScopedVars.Proofs.Container.Collected
import ScopedVars.Proofs.DebugText
import ScopedVars.Proofs.Json.Acceptance
import ScopedVars.Proofs.Json.FieldReports
import ScopedVars.Proofs.Json.Online
import ScopedVars.Proofs.Json.Resaved
import ScopedVars.Proofs.Json.RoundTrip
import ScopedVars.Proofs.Json.UnknownMembers
import ScopedVars.Proofs.Project.LayoutEdits
import ScopedVars.Proofs.Project.LayoutNames
import ScopedVars.Proofs.Variable.Equality
import ScopedVars.Proofs.Variable.NumberTexts
import ScopedVars.Proofs.Workspace.Membership
import ScopedVars.Proofs.Workspace.Shadowing
import ScopedVars.Variable.Display
import ScopedVars.Workspace
