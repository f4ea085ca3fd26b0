import OdwaManager.Effect.Program
import OdwaManager.Effect.Serial
import OdwaManager.Effect.Budget
import OdwaManager.Effect.Pool
import OdwaManager.Config
import OdwaManager.Account
import OdwaManager.Services
import OdwaManager.Fleet
import OdwaManager.Scaler
import OdwaManager.Handlers
import OdwaManager.Footprint
import OdwaManager.SerialRun
import OdwaManager.FleetCap
import OdwaManager.FleetRace
import OdwaManager.Reads
import OdwaManager.Actions
import OdwaManager.TickSpec
import OdwaManager.PolicyForm
import OdwaManager.PolicyEffect
import OdwaManager.Cooldown
import OdwaManager.Effect.Order
import OdwaManager.Management
import OdwaManager.StaleTarget
import OdwaManager.PolicyRace
import OdwaManager.PolicySafety
import OdwaManager.Effect.Interference
import OdwaManager.ShrinkRace
import OdwaManager.Effect.Rely
import OdwaManager.OnlyWorkers
import OdwaManager.Sorting
import OdwaManager.Charts
import OdwaManager.Averages
import OdwaManager.Decision
import OdwaManager.MoreLoad
import OdwaManager.EmptyPool
import OdwaManager.Convergence
import OdwaManager.BulkDestroy
import OdwaManager.Effect.Tagged
import OdwaManager.ModeSwitch
import OdwaManager.Effect.Conservation
import OdwaManager.Effect.Embed
import OdwaManager.Effect.Overlap
import OdwaManager.FleetOverlap
import OdwaManager.Metrics
import OdwaManager.Registration
import OdwaManager.UserData
import OdwaManager.Web.Pages
import OdwaManager.Web.Serving
import OdwaManager.Web.Tabs
import OdwaManager.Effect.Simulation
import OdwaManager.PolicyRegister
import OdwaManager.Web.Operator
import OdwaManager.Settling
import OdwaManager.SharedLoad
import OdwaManager.PagePolicies
import OdwaManager.Effect.Outcome
import OdwaManager.Shutdown
import OdwaManager.Web.Buttons
import OdwaManager.Deletions
import OdwaManager.Effect.Advance
import OdwaManager.OverlappingTicks
