import EsConnector.PipelinedWriter
import EsConnector.ShipFrame
import EsConnector.AppendOnly
import EsConnector.StaleResend
import EsConnector.ReplaySafety
import EsConnector.DistributedRead
import EsConnector.ContainerReads
import EsConnector.ScalarReads
import EsConnector.IdReadBack
import EsConnector.LatencyColumns
import EsConnector.PlainStamps
import EsConnector.SendBudget
import EsConnector.SampleCap
import EsConnector.FastPath
import EsConnector.HandedOver
import EsConnector.BodyCeiling
import EsConnector.DescribeScan
import EsConnector.DeepSource
import EsConnector.RegularRun
import EsConnector.WriteEnds
import EsConnector.CopyIndex
import EsConnector.StreamPolicies
import EsConnector.Traceable
import EsConnector.ClientConfig
import EsConnector.UnderWay
import EsConnector.RequestsInFlight
import EsConnector.ReadTypes
import EsConnector.ReadTrace
import EsConnector.CallBinding
import EsConnector.ConfigClass
import EsConnector.RetryUmbrella
import EsConnector.PreparedTwice
import EsConnector.Reindex
import EsConnector.Attempts
import EsConnector.CarriedLines
import EsConnector.Deliveries
import EsConnector.RowsDelivered
import EsConnector.CreateWrite
