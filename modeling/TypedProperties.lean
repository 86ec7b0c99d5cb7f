import TypedProperties.Main
import TypedProperties.Proofs.Line.Segment
import TypedProperties.Proofs.Reading.Announced
import TypedProperties.Proofs.Reading.Comment
import TypedProperties.Proofs.Reading.Hidden
import TypedProperties.Proofs.Reading.Inherited
import TypedProperties.Proofs.Reading.Locked
import TypedProperties.Proofs.Reading.Pending
import TypedProperties.Proofs.Reading.WellFormed
import TypedProperties.Proofs.Writing.Reread
import TypedProperties.Proofs.Reading.Stopped
import TypedProperties.Proofs.Store.Order
import TypedProperties.Proofs.Store.Puts
import TypedProperties.Proofs.Reading.Declared
import TypedProperties.Proofs.Reading.Depth
import TypedProperties.Proofs.Reading.Ended
import TypedProperties.Proofs.Declaration.Readout
import TypedProperties.Proofs.Command.Output
import TypedProperties.Proofs.Store.Policy
import TypedProperties.Proofs.Store.Merge
import TypedProperties.Proofs.Line.Runs
import TypedProperties.Proofs.Variant.Substitution
import TypedProperties.Proofs.Token.Cover
import TypedProperties.Proofs.Include.Reference
import TypedProperties.Proofs.Include.Search
import TypedProperties.Proofs.Settings.Document
import TypedProperties.Proofs.Settings.Keys
import TypedProperties.Proofs.Settings.Merge
import TypedProperties.Proofs.Settings.Layers
