import ViewMarkup.Files.Tree
import ViewMarkup.Main
import ViewMarkup.Proofs.Document.Names
import ViewMarkup.Proofs.Walk.Refinement
import ViewMarkup.Proofs.Binding.Dispatch
import ViewMarkup.Proofs.Walk.Splices
import ViewMarkup.Proofs.Walk.Deletion
import ViewMarkup.Proofs.Walk.Refusals
import ViewMarkup.Proofs.Script.Grouping
import ViewMarkup.Proofs.Binding.WriteBack
import ViewMarkup.Proofs.Report.Tracking
import ViewMarkup.Proofs.Script.Outcomes
import ViewMarkup.Proofs.Script.Quotation
import ViewMarkup.Proofs.Script.Members
import ViewMarkup.Proofs.Script.Braces
import ViewMarkup.Proofs.Script.Tiling
import ViewMarkup.Proofs.Document.ClassName
