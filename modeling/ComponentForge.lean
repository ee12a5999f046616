import ComponentForge.Main
import ComponentForge.Proofs.Text.Rows
import ComponentForge.Proofs.Text.Bytes
import ComponentForge.Proofs.Index.Search
import ComponentForge.Proofs.Index.Zone
import ComponentForge.Proofs.Index.Braces
import ComponentForge.Proofs.Index.Imports
import ComponentForge.Proofs.Index.Exports
import ComponentForge.Proofs.Index.ImportBlock
import ComponentForge.Proofs.Index.Shortening
import ComponentForge.Proofs.Index.Frame
import ComponentForge.Proofs.Index.FrameZone
import ComponentForge.Proofs.Index.Patch
import ComponentForge.Proofs.Index.Framing
import ComponentForge.Proofs.Letter.Casing
import ComponentForge.Proofs.Generator.Names
import ComponentForge.Proofs.Tree.Walk
import ComponentForge.Proofs.Tree.Rewrite
import ComponentForge.Proofs.Generator.PatchOrder
import ComponentForge.Proofs.Path
import ComponentForge.Proofs.Tree.Plain
import ComponentForge.Proofs.Tree.Site
import ComponentForge.Proofs.Tree.Effects
import ComponentForge.Proofs.Tree.Removal
import ComponentForge.Proofs.Tree.Making
import ComponentForge.Proofs.Tree.Grounded
import ComponentForge.Proofs.Tree.Fading
import ComponentForge.Proofs.Layout
import ComponentForge.Proofs.Index.Barrel
import ComponentForge.Proofs.Generator.Resolve
import ComponentForge.Proofs.Generator.Spots
import ComponentForge.Proofs.Generator.Jobs
import ComponentForge.Proofs.Generator.Plans
import ComponentForge.Proofs.Generator.Calls
import ComponentForge.Proofs.Generator.Gathered
import ComponentForge.Proofs.Generator.IndexSteps
import ComponentForge.Proofs.Generator.Gathers
import ComponentForge.Proofs.Generator.IndexLists
import ComponentForge.Proofs.Index.Bindings
import ComponentForge.Proofs.Generator.Consistency
import ComponentForge.Proofs.Generator.Reversal
import ComponentForge.Proofs.Generator.Trace
import ComponentForge.Proofs.Generator.TraceSteps
import ComponentForge.Proofs.Generator.RoundTrip
import ComponentForge.Proofs.Generator.Restoration
import ComponentForge.Proofs.Generator.Shifts
import ComponentForge.Proofs.Generator.Account
import ComponentForge.Proofs.Index.Insertion
import ComponentForge.Proofs.Index.Extension
import ComponentForge.Proofs.Index.ZoneRows
import ComponentForge.Proofs.Index.ZoneGrowth
import ComponentForge.Proofs.Index.EntryLines
import ComponentForge.Proofs.Index.Erasure
import ComponentForge.Proofs.Index.NameList
import ComponentForge.Proofs.Index.Appending
import ComponentForge.Proofs.Index.ZoneEntries
import ComponentForge.Proofs.Generator.Promises
import ComponentForge.Proofs.Index.LineCuts
import ComponentForge.Proofs.Generator.Cuts
import ComponentForge.Proofs.Index.Deletion
import ComponentForge.Proofs.Index.Withdrawal
import ComponentForge.Proofs.Generator.PlanOrder
import ComponentForge.Proofs.Generator.Outcomes
import ComponentForge.Proofs.Generator.ChangeLog
import ComponentForge.Proofs.Generator.Confinement
import ComponentForge.Proofs.Generator.Settled
import ComponentForge.Proofs.Generator.Repetition
import ComponentForge.Proofs.Generator.Clearance
import ComponentForge.Proofs.Generator.DestroyAgain
import ComponentForge.Proofs.Letter.Words
import ComponentForge.Proofs.EntityName
import ComponentForge.Proofs.Generator.Refusals
import ComponentForge.Proofs.Generator.Stages
import ComponentForge.Proofs.Import.Specifier
import ComponentForge.Proofs.Import.Rendered
import ComponentForge.Proofs.Import.Target
import ComponentForge.Proofs.Import.Lines
import ComponentForge.Proofs.Import.Generated
import ComponentForge.Proofs.Tree.Locality
import ComponentForge.Proofs.Generator.Commutation
import ComponentForge.Proofs.Tree.Creation
import ComponentForge.Proofs.CommandLine.Consent
import ComponentForge.Proofs.CommandLine.Safety
import ComponentForge.Proofs.Template.Filling
import ComponentForge.Proofs.Template.Parts
import ComponentForge.Proofs.Template.Lines
import ComponentForge.Proofs.Tree.WriteOnce
import ComponentForge.Proofs.Tree.Extent
import ComponentForge.Proofs.Index.LineErasure
import ComponentForge.Proofs.Index.Guarded
import ComponentForge.Proofs.Generator.Spellings
import ComponentForge.Proofs.Config.RoundTrip
import ComponentForge.Proofs.Position
