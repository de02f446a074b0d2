import FilterLang.Codec.Schema
import FilterLang.Codec.Settings
import FilterLang.Entity.Document
import FilterLang.Layout.Basic
import FilterLang.Parsing.Parser
import FilterLang.Proofs.Evaluation.Reach
import FilterLang.Proofs.Evaluation.Absence
import FilterLang.Proofs.Qualifier.Restoration
import FilterLang.Proofs.Sql.ValueIndependence
import FilterLang.Proofs.Double.Exact
import FilterLang.Proofs.Value.SortOrder
import FilterLang.Proofs.Fetch.StableSort
import FilterLang.Proofs.Sql.NameSupply
import FilterLang.Proofs.Sql.Splicing
import FilterLang.Proofs.Sql.Unambiguity
import FilterLang.Proofs.Sql.Rebinding
import FilterLang.Proofs.Parsing.SourceOrder
import FilterLang.Proofs.Parsing.Inlining
import FilterLang.Proofs.Layout.Lookup
import FilterLang.Proofs.Fetch.Limit
import FilterLang.Proofs.Token.Tiling
import FilterLang.Proofs.Parsing.Diagnosis
import FilterLang.Proofs.Sql.Vocabulary
import FilterLang.Proofs.Value.NumericOrder
import FilterLang.Proofs.Sql.Failure
import FilterLang.Proofs.Evaluation.Flattening
import FilterLang.Proofs.Fetch.DottedKey
import FilterLang.Proofs.Predicate.Wildcard
import FilterLang.Proofs.Fetch.Stability
import FilterLang.Proofs.Sql.Quoting
import FilterLang.Proofs.Evaluation.Support
import FilterLang.Proofs.Sql.Insertion
import FilterLang.Proofs.Sql.KeyQuery
import FilterLang.Proofs.Sql.Renaming
import FilterLang.Proofs.Token.Spacing
import FilterLang.Proofs.Parsing.Shape
import FilterLang.Proofs.Parsing.States
