import Gherkin.Run.Batch
import Gherkin.Feature.Json
import Gherkin.Http.Network
import Gherkin.Report.Summary
import Gherkin.Proofs.Text.Trimming
import Gherkin.Proofs.Text.Splitting
import Gherkin.Proofs.Pattern.Cut
import Gherkin.Proofs.Pattern.Decomposition
import Gherkin.Proofs.Feature.Grammar
import Gherkin.Proofs.Feature.Joining
import Gherkin.Proofs.Run.Course
import Gherkin.Proofs.Run.Chain
import Gherkin.Proofs.Feature.Writing
import Gherkin.Proofs.Feature.Printing
import Gherkin.Proofs.Feature.Content
import Gherkin.Proofs.Run.Registered
import Gherkin.Proofs.Run.Overlap
import Gherkin.Proofs.Pattern.Sentence
import Gherkin.Proofs.Run.Sentences
import Gherkin.Proofs.Http.Outgoing
import Gherkin.Proofs.Run.Event
import Gherkin.Proofs.Run.History
import Gherkin.Proofs.Run.Calling
import Gherkin.Proofs.Run.Reading
import Gherkin.Proofs.Run.Atomicity
import Gherkin.Proofs.Feature.Layout
import Gherkin.Proofs.Pattern.Leniency
import Gherkin.Proofs.Run.Priority
import Gherkin.Proofs.Run.Dedicated
import Gherkin.Proofs.Report.Forms
import Gherkin.Proofs.Run.Batch
import Gherkin.Proofs.Run.Echo
import Gherkin.Proofs.Feature.Offsets
import Gherkin.Proofs.Feature.Zone
import Gherkin.Proofs.Feature.Locations
import Gherkin.Proofs.Feature.Keywords
import Gherkin.Proofs.Run.Keywords
import Gherkin.Proofs.Run.Identity
import Gherkin.Proofs.Http.HeaderNames
import Gherkin.Proofs.Feature.Bindings
import Gherkin.Proofs.Run.Fields
import Gherkin.Proofs.Report.Pushing
import Gherkin.Proofs.Http.Collecting
import Gherkin.Proofs.Environment
import Gherkin.Proofs.Feature.Lines
import Gherkin.Proofs.Feature.Kinds
import Gherkin.Proofs.Feature.Rows
import Gherkin.Proofs.Http.Resolving
import Gherkin.Proofs.Http.Credentials
import Gherkin.Proofs.Http.WellFormed
import Gherkin.Proofs.Feature.States
import Gherkin.Proofs.Pattern.Groups
import Gherkin.Proofs.Pattern.Expression
