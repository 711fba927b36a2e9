import Folio.Api.Application
import Folio.Main
import Folio.Portfolio.Display
import Folio.Proofs.Dedup.Accounts
import Folio.Proofs.Dedup.Itself
import Folio.Proofs.Dedup.Lookless
import Folio.Proofs.Api.Analyses
import Folio.Proofs.Api.Truth
import Folio.Proofs.Saved.Snapshots
import Folio.Proofs.Api.Lifecycle
import Folio.Proofs.Contribution.Counting
import Folio.Proofs.Contribution.Buckets
import Folio.Proofs.Contribution.Remembered
import Folio.Proofs.Code.Loops
import Folio.Proofs.Code.Rejected
import Folio.Proofs.Document.Triage
import Folio.Proofs.Settings
import Folio.Proofs.Insight.Losing
import Folio.Proofs.Insight.Regular
import Folio.Proofs.Insight.Preferences
import Folio.Proofs.Api.Insights
import Folio.Proofs.Api.Kinds
import Folio.Proofs.Cv.Awards
import Folio.Proofs.Duration
import Folio.Proofs.People
import Folio.Proofs.Resume
import Folio.Proofs.Thumbnail
