import ResourceQuery.CommandLine.Folder
import ResourceQuery.Main
import ResourceQuery.Query.Agreement
import ResourceQuery.Proofs.Json.Agreement
import ResourceQuery.Proofs.Predicate.Evaluation
import ResourceQuery.Proofs.Store.Rows
import ResourceQuery.Proofs.Query.Binding
import ResourceQuery.Proofs.Query.Batch
import ResourceQuery.Proofs.Query.Isolation
import ResourceQuery.Proofs.Query.Paging
import ResourceQuery.Proofs.Query.Depth
import ResourceQuery.Proofs.Query.Unfolding
import ResourceQuery.Proofs.Query.Sorting
import ResourceQuery.Proofs.Query.Change
import ResourceQuery.Proofs.Query.Walk
import ResourceQuery.Proofs.Query.Refusal
import ResourceQuery.Proofs.Json.Zeros
import ResourceQuery.Proofs.PropertyId.Encoding
import ResourceQuery.Proofs.Query.Hashing
import ResourceQuery.Proofs.Query.Shape
import ResourceQuery.Proofs.Query.Basis
import ResourceQuery.Proofs.Query.Origin
import ResourceQuery.Proofs.Query.RowChoice
import ResourceQuery.Proofs.Query.Reordering
import ResourceQuery.Proofs.PropertyId.Containment
import ResourceQuery.Proofs.ResultTree.Placement
import ResourceQuery.Proofs.ResultTree.Rendering
import ResourceQuery.Proofs.Query.Equality
import ResourceQuery.Proofs.Query.Keys
import ResourceQuery.Proofs.Query.Repetition
import ResourceQuery.Proofs.Query.Reexecution
import ResourceQuery.Proofs.Query.Effect
import ResourceQuery.Proofs.Query.KeyProjection
import ResourceQuery.Proofs.Query.Ranges
import ResourceQuery.Proofs.Store.Answer
import ResourceQuery.Proofs.Store.Ancestors
import ResourceQuery.Proofs.Query.Alternatives
import ResourceQuery.Proofs.FieldList.Grammar
import ResourceQuery.Proofs.FieldList.Tidiness
import ResourceQuery.Proofs.Page.Tiling
import ResourceQuery.Proofs.Page.StableSort
import ResourceQuery.Proofs.Page.SortedIntegers
import ResourceQuery.Proofs.Resource.Projection
import ResourceQuery.Proofs.Page.Slice
import ResourceQuery.Proofs.Predicate.Analyses
import ResourceQuery.Proofs.Query.Flat
import ResourceQuery.Proofs.CommandLine.Paging
