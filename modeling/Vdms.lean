import Vdms.Imp.Prog
import Vdms.Imp.Iter
import Vdms.Imp.LittleEndian
import Vdms.Imp.Socket
import Vdms.Pmgd
import Vdms.TableScan
import Vdms.Messages
import Vdms.Handler
import Vdms.SearchExpression
import Vdms.PMGDIterators
import Vdms.BuildResults
import Vdms.PMGDQueryHandler
import Vdms.Json
import Vdms.PMGDQuery
import Vdms.AndSearch
import Vdms.OrSearch
import Vdms.NeighborSearch
import Vdms.Effects
import Vdms.Footprints
import Vdms.CommandFootprints
import Vdms.LinkedSearch
import Vdms.AddConnection
import Vdms.EdgeSearch
import Vdms.UpdateConnection
import Vdms.ReferenceCaches
import Vdms.Atomicity
import Vdms.NoticedFailures
import Vdms.ConstraintTranslation
import Vdms.AutomaticPurge
import Vdms.LinkConstraints
import Vdms.ConditionalAdd
import Vdms.NodeUpdates
import Vdms.Reaching
import Vdms.Iterating
import Vdms.LiveReferences
import Vdms.RemovedNodes
import Vdms.Invariants
import Vdms.Outcome
import Vdms.PurgeIsolation
import Vdms.ExpirationQueue
import Vdms.FileCleanup
import Vdms.ResponseRouting
import Vdms.Cursors
import Vdms.JsonSchema
import Vdms.ApiSchema
import Vdms.QueryHandlerPMGD
import Vdms.BlobDistribution
import Vdms.Dispatch
import Vdms.EventLoop
import Vdms.ImageLoop
import Vdms.VideoLoop
import Vdms.MediaResponses
import Vdms.DescriptorsCommand
import Vdms.DescriptorSets
import Vdms.JsonObjects
import Vdms.CSVParserUtil
import Vdms.SetCoherence
import Vdms.FindDescriptor
import Vdms.NearestDescriptors
import Vdms.Connection
import Vdms.PythonClient
import Vdms.DescriptorSetData
import Vdms.MemorySets
import Vdms.Imp.PartialSort
import Vdms.Imp.AppendLog
import Vdms.TDBSets
import Vdms.SparseSearch
import Vdms.LabelRoundTrip
import Vdms.DescriptorIds
import Vdms.LabelAlignment
import Vdms.DescriptorLocks
import Vdms.Imp.Brackets
import Vdms.Neo4jCommands
import Vdms.QueryHandlerNeo4j
import Vdms.Neo4jProtocol
import Vdms.Neo4jAnswers
import Vdms.Imp.Total
import Vdms.JsonReader
import Vdms.Restart
import Vdms.RestartQueue
import Vdms.ResultLoops
import Vdms.Aggregates
import Vdms.FindCommands
import Vdms.AggregateKeys
import Vdms.Columns
import Vdms.ListAnswers
import Vdms.PropertyRoundTrip
import Vdms.QueueOperations
import Vdms.BatchLabels
import Vdms.LinkedFailures
import Vdms.PixelIndex
import Vdms.ImageCopies
import Vdms.KeyFrames
import Vdms.LazyOperations
import Vdms.PartialRead
import Vdms.BlobSizes
import Vdms.NearestSlots
import Vdms.ClassificationVote
import Vdms.CommunicationManager
import Vdms.QueryMessages
import Vdms.ThreeAttributes
import Vdms.VideoPipeline
import Vdms.FrameIntervals
import Vdms.Rectangles
import Vdms.VideoCopies
import Vdms.VideoFiles
import Vdms.Neo4jRows
import Vdms.ImageFailures
import Vdms.BoundingBoxBlobs
import Vdms.NumberText
import Vdms.ResponseStatus
import Vdms.VideoMemory
import Vdms.UniqueIds
import Vdms.Extensions
import Vdms.DirectoryLayers
import Vdms.KeyFrameLists
import Vdms.TileExtents
import Vdms.RemoteResponse
import Vdms.CSVConstraints
import Vdms.VideoMap
import Vdms.EdgeEnds
import Vdms.CSVParser
import Vdms.DescriptorsManager
import Vdms.CreateApiString
import Vdms.RapidCSV
import Vdms.GraphFrames
import Vdms.EntityQueryParser
