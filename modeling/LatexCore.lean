import LatexCore.Builds.Reuse
import LatexCore.Queue.Fencing
import LatexCore.Workspace.History
import LatexCore.Workspace.MainPath
import LatexCore.Collaboration.Acknowledgement
import LatexCore.Collaboration.Completeness
import LatexCore.Collaboration.OneRoom
import LatexCore.Collaboration.Barrier
import LatexCore.Collaboration.Isolation
import LatexCore.Collaboration.Saved
import LatexCore.Papers.Exactness
import LatexCore.Papers.Authority
import LatexCore.Papers.Numbers
import LatexCore.Papers.Requests
import LatexCore.Papers.Updates
import LatexCore.Queue.Idempotency
import LatexCore.Reviews.Gate
import LatexCore.Captures.Consistent
import LatexCore.Imports.Consistent
import LatexCore.Mail.Deliveries
import LatexCore.Mail.Loop
import LatexCore.Accounts.Revocation
import LatexCore.Blobs.CrashSafety
import LatexCore.Institution.Accounts
import LatexCore.Institution.Reconciled
import LatexCore.Parser.Session
import LatexCore.FrontMatter.Refresh
import LatexCore.TexIndex.Environment
import LatexCore.Compiler.Materialize
import LatexCore.Teams.Agreement
import LatexCore.Workspace.Canonical
import LatexCore.Compiler.SyncTex
import LatexCore.FrontMatter.Inert
import LatexCore.Compiler.Ingestion
import LatexCore.Imports.Spellings
import LatexCore.Imports.TeamEdit
import LatexCore.Parser.Limits
import LatexCore.Parser.Distinct
import LatexCore.TexIndex.Queries
import LatexCore.TexIndex.Joined
import LatexCore.Compiler.Mapping
import LatexCore.Reviews.Annotations
import LatexCore.FrontMatter.WellFormed
import LatexCore.FrontMatter.Idempotent
import LatexCore.Credentials.Passwords
import LatexCore.Intelligence.Cursors
import LatexCore.Inserts.Contained
import LatexCore.Downloads.Csv
