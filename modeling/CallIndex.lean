import CallIndex.Index.Guard
import CallIndex.Main
import CallIndex.Stream
import CallIndex.Proofs.MethodTable
import CallIndex.Proofs.Written
import CallIndex.Proofs.Invariant
import CallIndex.Proofs.Journal
import CallIndex.Proofs.AllOrNothing
import CallIndex.Proofs.Reingest
import CallIndex.Proofs.History
import CallIndex.Proofs.Replay
import CallIndex.Proofs.Settling
import CallIndex.Proofs.JsonScalar
import CallIndex.Proofs.JsonShape
import CallIndex.Proofs.GatheredEdges
import CallIndex.Proofs.Neighbours
import CallIndex.Proofs.WholeGraph
import CallIndex.Proofs.CompleteContext
import CallIndex.Proofs.Growth
import CallIndex.Proofs.Placement
import CallIndex.Proofs.Adjacency
import CallIndex.Proofs.Interleaving
import CallIndex.Proofs.Delivery
import CallIndex.Proofs.SignatureGrammar
import CallIndex.Proofs.Accounting
import CallIndex.Proofs.JsonGrammar
import CallIndex.Proofs.JsonRoundTrip
import CallIndex.Proofs.Replies
import CallIndex.Proofs.JsonMode
import CallIndex.Proofs.Resolution
import CallIndex.Proofs.SteadyCallee
import CallIndex.Proofs.Address
import CallIndex.Proofs.FirstDocument
import CallIndex.Proofs.CalleeChoice
import CallIndex.Proofs.Reset
import CallIndex.Proofs.YamlScalar
import CallIndex.Proofs.YamlBlock
import CallIndex.Proofs.YamlScan
import CallIndex.Proofs.StoredFiles
import CallIndex.Proofs.SettingsFile
import CallIndex.Proofs.JsonText
import CallIndex.Proofs.RecordSpelling
import CallIndex.Proofs.BatchSpelling
import CallIndex.Proofs.SignatureCut
import CallIndex.Proofs.AnyGraph
import CallIndex.Proofs.Listings
import CallIndex.Proofs.ReplacedFiles
import CallIndex.Proofs.ForcedInit
