import CrdtDoc.Declaration.Type
import CrdtDoc.Declaration
import CrdtDoc.Handle.Send
import CrdtDoc.Json.Handle
import CrdtDoc.Json.Options
import CrdtDoc.Json.Store
import CrdtDoc.Schema.Slots
import CrdtDoc.Summary
import CrdtDoc.Proofs.IntegerText
import CrdtDoc.Proofs.TimestampBytes
import CrdtDoc.Proofs.MemberOrder
import CrdtDoc.Proofs.EntryView
import CrdtDoc.Proofs.FreshMap
import CrdtDoc.Proofs.Sequencing
import CrdtDoc.Proofs.ElementMember
import CrdtDoc.Proofs.EntryWriting
import CrdtDoc.Proofs.StoredForm
import CrdtDoc.Proofs.Storable
import CrdtDoc.Proofs.OrderedWriting
import CrdtDoc.Proofs.EntryReading
import CrdtDoc.Proofs.TableReading
import CrdtDoc.Proofs.Restoration
import CrdtDoc.Proofs.FreshReading
import CrdtDoc.Proofs.StoredReading
import CrdtDoc.Proofs.RoundTrip
import CrdtDoc.Proofs.Running
import CrdtDoc.Proofs.SlotBinding
import CrdtDoc.Proofs.StoreCommands
import CrdtDoc.Proofs.StoreHistory
import CrdtDoc.Proofs.UpdatedEntry
import CrdtDoc.Proofs.UpdateAtPath
import CrdtDoc.Proofs.HandleSending
import CrdtDoc.Proofs.CounterSharing
import CrdtDoc.Proofs.SetRounds
import CrdtDoc.Proofs.SlotFilling
import CrdtDoc.Proofs.SlotAddress
import CrdtDoc.Proofs.DocumentView
import CrdtDoc.Proofs.DocumentOrder
import CrdtDoc.Proofs.FilteredUpdate
import CrdtDoc.Proofs.WritesAtPaths
import CrdtDoc.Proofs.BatchedWrites
import CrdtDoc.Proofs.SessionCommands
import CrdtDoc.Proofs.HandleFrame
import CrdtDoc.Proofs.FailedCommands
import CrdtDoc.Proofs.Retention
import CrdtDoc.Proofs.FreshUpdate
import CrdtDoc.Proofs.WrittenForm
import CrdtDoc.Proofs.StoringAgain
import CrdtDoc.Proofs.Merging
import CrdtDoc.Proofs.UntouchedSlots
import CrdtDoc.Proofs.RepeatedStores
import CrdtDoc.Proofs.LeafReading
import CrdtDoc.Proofs.NestedDocument
import CrdtDoc.Proofs.WriteOutcome
import CrdtDoc.Proofs.JsonText
import CrdtDoc.Proofs.JsonReading
import CrdtDoc.Proofs.LocationOrder
import CrdtDoc.Proofs.StoreJson
import CrdtDoc.Proofs.PointwiseUpdate
import CrdtDoc.Proofs.SuccessiveUpdates
import CrdtDoc.Proofs.FilterProjection
import CrdtDoc.Proofs.FilterDecision
import CrdtDoc.Proofs.SendOutcome
import CrdtDoc.Proofs.SetConsistency
import CrdtDoc.Proofs.TimestampForm
import CrdtDoc.Proofs.TableSize
import CrdtDoc.Proofs.FirstFailure
import CrdtDoc.Proofs.RejectedFields
import CrdtDoc.Proofs.MisfitData
import CrdtDoc.Proofs.OverwritingReads
import CrdtDoc.Proofs.TableOrder
import CrdtDoc.Proofs.RecordedWrites
import CrdtDoc.Proofs.NotedCommands
import CrdtDoc.Proofs.MiddlewareNesting
import CrdtDoc.Proofs.IntegerForm
import CrdtDoc.Proofs.HandleJson
import CrdtDoc.Proofs.UnstoredFields
