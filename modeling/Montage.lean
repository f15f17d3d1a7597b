import Montage.Graph.Canonical
import Montage.Media.Report
import Montage.Service.Api
import Montage.Service.Config
import Montage.Proofs.Graph.Labels
import Montage.Proofs.Graph.Validity
import Montage.Proofs.Graph.Wiring
import Montage.Proofs.Program.Linear
import Montage.Proofs.Path.Components
import Montage.Proofs.Scene.Wiring
import Montage.Proofs.Plan.Linear
import Montage.Proofs.Plan.Outcome
import Montage.Proofs.Plan.Starts
import Montage.Proofs.Path.Names
import Montage.Proofs.Plan.Layout
import Montage.Proofs.Scene.Topmost
import Montage.Proofs.Plan.Closed
import Montage.Proofs.Timeline.Nesting
import Montage.Proofs.Render.Sites
import Montage.Proofs.Timeline.Edits
import Montage.Proofs.Render.Reassembly
import Montage.Proofs.Scalar.Order
import Montage.Proofs.Jobs.Entries
import Montage.Proofs.Jobs.Fates
import Montage.Proofs.Jobs.History
import Montage.Jobs.Desk
import Montage.Proofs.Jobs.Turns
import Montage.Proofs.Jobs.Settling
import Montage.Proofs.Jobs.Answers
import Montage.Proofs.Jobs.Ends
import Montage.Proofs.Render.Attachments
import Montage.Proofs.Scene.Sources
import Montage.Proofs.Template.Compositions
import Montage.Proofs.Plan.Playable
import Montage.Proofs.Render.Planned
import Montage.Proofs.Render.Progress
import Montage.Proofs.Jobs.Closing
import Montage.Proofs.Files.Changes
import Montage.Proofs.Render.Runs
import Montage.Proofs.Render.Making
import Montage.Proofs.Render.Contracts
import Montage.Proofs.Render.Upholding
import Montage.Proofs.Asset.Downloads
import Montage.Proofs.Render.Resolving
import Montage.Proofs.Render.Regions
import Montage.Proofs.Render.Commands
import Montage.Proofs.Files.Support
import Montage.Proofs.Render.Cleanup
import Montage.Proofs.Filter.Reading
import Montage.Proofs.Filter.Unescaped
import Montage.Proofs.Filter.Values
import Montage.Proofs.Graph.Rendering
import Montage.Proofs.Scene.Drawing
import Montage.Proofs.Subtitle.Burning
import Montage.Proofs.Render.Performing
import Montage.Proofs.Render.Settled
import Montage.Proofs.Render.Agreement
import Montage.Proofs.Graph.Chains
import Montage.Proofs.Plan.Sounds
import Montage.Proofs.Transition.Trims
import Montage.Proofs.Timeline.Coding
import Montage.Proofs.Filter.Legible
import Montage.Proofs.Scene.Colors
import Montage.Proofs.Scene.References
import Montage.Proofs.Timeline.AssetFields
import Montage.Proofs.Plan.References
import Montage.Proofs.Graph.Calls
import Montage.Proofs.Graph.Canonical
import Montage.Proofs.Animation.Declarations
import Montage.Proofs.Scene.Passage
import Montage.Proofs.Json.Distinct
import Montage.Proofs.Json.Merge
import Montage.Proofs.Template.Building
import Montage.Proofs.Template.Faults
import Montage.Proofs.Template.Scenes
import Montage.Proofs.Template.Moves
import Montage.Proofs.Jobs.Rising
import Montage.Proofs.Plan.Manifests
import Montage.Proofs.Subtitle.Cues
import Montage.Proofs.Transition.Picking
import Montage.Proofs.Asset.Containment
import Montage.Proofs.Render.Resolved
import Montage.Proofs.Timeline.Windows
import Montage.Proofs.Subtitle.Colors
import Montage.Proofs.Media.Tail
