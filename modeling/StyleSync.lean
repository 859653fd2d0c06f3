import StyleSync.Animation
import StyleSync.Cli.Program
import StyleSync.Main
import StyleSync.Session.Rendering
import StyleSync.Sheet.Monitored
import StyleSync.Warnings
import StyleSync.Proofs.Css.Levels
import StyleSync.Proofs.Css.Reading
import StyleSync.Proofs.Sheet.Encoding
import StyleSync.Proofs.Sheet.Reconciliation
import StyleSync.Proofs.Css.Merging
import StyleSync.Proofs.Sheet.Values
import StyleSync.Proofs.Session.Restyling
import StyleSync.Proofs.Style.Walks
import StyleSync.Proofs.Style.Inherited
import StyleSync.Proofs.Sheet.Ownership
import StyleSync.Proofs.Session.Locality
import StyleSync.Proofs.Sheet.Absorption
import StyleSync.Proofs.Sheet.Refusal
import StyleSync.Proofs.Session.Settling
import StyleSync.Proofs.Session.Retries
import StyleSync.Proofs.Style.Sameness
import StyleSync.Proofs.Session.Defining
import StyleSync.Proofs.Session.Runs
import StyleSync.Proofs.Sheet.Spelling
import StyleSync.Proofs.Sheet.Renewal
import StyleSync.Proofs.Session.Repeating
import StyleSync.Proofs.Session.Commands
import StyleSync.Proofs.Session.Rerendering
import StyleSync.Proofs.Text.Parts
import StyleSync.Proofs.Results
import StyleSync.Proofs.Sheet.Regularity
import StyleSync.Proofs.Session.FirstRender
import StyleSync.Proofs.Numeric.Numerals
import StyleSync.Proofs.Session.Suffixes
import StyleSync.Proofs.Session.Naming
import StyleSync.Proofs.Css.Conditions
import StyleSync.Proofs.Css.Contexts
import StyleSync.Proofs.Sheet.Rereading
import StyleSync.Proofs.Sheet.Matching
import StyleSync.Proofs.Logging
import StyleSync.Proofs.Css.Notices
import StyleSync.Proofs.Style.Conversion
import StyleSync.Proofs.Session.Inheriting
import StyleSync.Proofs.Style.PropertyNames
import StyleSync.Proofs.Numeric.DigitRows
import StyleSync.Proofs.Numeric.Doubles
import StyleSync.Proofs.Numeric.Intervals
import StyleSync.Proofs.Numeric.Precision
import StyleSync.Proofs.Numeric.Rounding
import StyleSync.Proofs.Numeric.ShortestDigits
import StyleSync.Proofs.Numeric.Writing
import StyleSync.Proofs.Session.Counting
import StyleSync.Proofs.SharedLines
import StyleSync.Proofs.Text.Locality
import StyleSync.Proofs.InsertionOrder
