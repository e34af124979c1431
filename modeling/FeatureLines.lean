import FeatureLines.Catalog.Questions
import FeatureLines.Catalog.SharedBuild
import FeatureLines.Files.Tree
import FeatureLines.Json.Grammar
import FeatureLines.Main
import FeatureLines.Proofs.Catalog.Attempts
import FeatureLines.Proofs.Document.Continuation
import FeatureLines.Proofs.Document.KeywordOrder
import FeatureLines.Proofs.Document.Recognition
import FeatureLines.Proofs.Json.Numbers
import FeatureLines.Proofs.Json.Reading
import FeatureLines.Proofs.Json.Truncation
import FeatureLines.Proofs.Json.Values
import FeatureLines.Proofs.Keyword.Build
import FeatureLines.Proofs.Keyword.Parse
import FeatureLines.Proofs.Keyword.Reordered
import FeatureLines.Proofs.Keyword.Truncation
import FeatureLines.Proofs.Settings.Held
import FeatureLines.Proofs.Text.Truncation
import FeatureLines.Proofs.Document.Seam
import FeatureLines.Proofs.Document.Declaration
import FeatureLines.Proofs.Catalog.SharedBuild
import FeatureLines.Proofs.CommandLine.Stages
import FeatureLines.Proofs.Document.Directive
import FeatureLines.Proofs.Keyword.Tables
import FeatureLines.Proofs.Settings.Json
import FeatureLines.Proofs.CommandLine.Rows
import FeatureLines.Proofs.Document.Precedence
import FeatureLines.Proofs.Document.LiveEntries
import FeatureLines.Proofs.Document.Layout
import FeatureLines.Proofs.CommandLine.Groups
import FeatureLines.Proofs.Settings.Source
import FeatureLines.Proofs.Settings.Members
import FeatureLines.Proofs.Keyword.Misshapen
import FeatureLines.Proofs.Keyword.Encoding
import FeatureLines.Proofs.Settings.Language
