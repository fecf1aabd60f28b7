import QuadGraph.Proofs.Path.Relative
import QuadGraph.Proofs.Path.Tags
import QuadGraph.Proofs.Pattern.Matching
import QuadGraph.Proofs.Pattern.Reference
import QuadGraph.Proofs.Query.Canceling
import QuadGraph.Proofs.Query.Collecting
import QuadGraph.Proofs.Query.Reasons
import QuadGraph.Proofs.Step.Denotation
import QuadGraph.Proofs.Store.Representation
import QuadGraph.Settings
import QuadGraph.Store.Faults
import QuadGraph.Term.Display
import QuadGraph.Proofs.Path.Places
import QuadGraph.Proofs.Query.Ahead
import QuadGraph.Proofs.Json.Members
import QuadGraph.Proofs.Path.Combinations
import QuadGraph.Proofs.Query.Identifying
import QuadGraph.Proofs.Query.Regrouping
import QuadGraph.Proofs.Query.RoundTrip
import QuadGraph.Proofs.JsonLd.Configured
import QuadGraph.Proofs.JsonLd.Normalizing
import QuadGraph.Proofs.Query.Distinguishing
import QuadGraph.Proofs.Pattern.Grammar
import QuadGraph.Proofs.Path.Growth
import QuadGraph.Proofs.Step.Lookups
import QuadGraph.Proofs.Query.Withholding
import QuadGraph.Proofs.Path.Clauses
import QuadGraph.Proofs.Path.Saving
import QuadGraph.Proofs.Term.Native
import QuadGraph.Proofs.Vocabulary.Starts
import QuadGraph.Proofs.Path.Sorting
import QuadGraph.Proofs.Term.Agreement
import QuadGraph.Proofs.Step.Returning
import QuadGraph.Proofs.Regex.Wildcard
import QuadGraph.Proofs.Step.Combining
import QuadGraph.Proofs.Path.Converse
import QuadGraph.Proofs.Path.Semijoin
import QuadGraph.Proofs.Path.Substitution
