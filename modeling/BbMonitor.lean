import BbMonitor.Lib.History
import BbMonitor.Lib.Machine
import BbMonitor.Lib.Framing
import BbMonitor.Lib.Feistel
import BbMonitor.Lib.Halves
import BbMonitor.Lib.Blocks
import BbMonitor.Lib.Numbered
import BbMonitor.Lib.Traced
import BbMonitor.Lib.JsonText
import BbMonitor.Lib.DnsNames
import BbMonitor.Lib.Absorb
import BbMonitor.Lib.Tables
import BbMonitor.SrvUtils.Md5
import BbMonitor.SrvUtils.Md5Streaming
import BbMonitor.SrvUtils.PostgresAsio
import BbMonitor.SrvUtils.PostgresResults
import BbMonitor.SrvUtils.ServiceResolver
import BbMonitor.SrvUtils.SrvAnswers
import BbMonitor.SrvUtils.SrvReads
import BbMonitor.Utils.GrpcUtils
import BbMonitor.Utils.ArrayLiterals
import BbMonitor.Utils.Hstore
import BbMonitor.Authorizer.Records
import BbMonitor.Authorizer.Soundness
import BbMonitor.Authorizer.Interleaving
import BbMonitor.Authorizer.Completeness
import BbMonitor.Authorizer.Index
import BbMonitor.Messages
import BbMonitor.AvroRecords
import BbMonitor.Prompb
import BbMonitor.Doubles
import BbMonitor.Json
import BbMonitor.Ingestion.SinkFactory
import BbMonitor.Ingestion.Conversion
import BbMonitor.IngestionServer.Model
import BbMonitor.IngestionServer.Stages
import BbMonitor.IngestionServer.Dispatch
import BbMonitor.IngestionServer.LifeCycle
import BbMonitor.IngestionServer.ReplyCounts
import BbMonitor.KafkaSink.HandOver
import BbMonitor.ClientSinks.Steps
import BbMonitor.ClientSinks.Conservation
import BbMonitor.ClientSinks.EndOfFile
import BbMonitor.ClientSinks.Fifo
import BbMonitor.PrometheusSink.Model
import BbMonitor.PrometheusSink.Steps
import BbMonitor.PrometheusSink.Release
import BbMonitor.PrometheusSink.Batches
import BbMonitor.PrometheusSink.AgeLimit
import BbMonitor.PromstoreWrite.RequestHandler
import BbMonitor.PromstoreWrite.Samples
import BbMonitor.Relay
import BbMonitor.ClientUtils.KvFilter
import BbMonitor.ClientUtils.KvTerms
import BbMonitor.ClientUtils.JsonParsing
import BbMonitor.ClientUtils.DatadogSeries
import BbMonitor.ClientUtils.DatadogAvroSeries
import BbMonitor.ClientUtils.DatadogCheckRun
import BbMonitor.ClientUtils.SplunkTags
import BbMonitor.ClientUtils.ElasticsearchDocuments
import BbMonitor.DdLogProxy.HandleLine
import BbMonitor.DdLogProxy.OutOfRange
import BbMonitor.DdLogProxy.Session
import BbMonitor.Splunk.ParseEvent
import BbMonitor.Splunk.Batches
import BbMonitor.Splunk.Resending
import BbMonitor.LogIds
import BbMonitor.Prometheus.Labels
import BbMonitor.Prometheus.Neighbours
import BbMonitor.Prometheus.Lines
import BbMonitor.Prometheus.Grouping
import BbMonitor.Prometheus.Bodies
import BbMonitor.Prometheus.Entries
import BbMonitor.Prometheus.Rendering
import BbMonitor.Prometheus.Values
import BbMonitor.Prometheus.RoundTrip
import BbMonitor.Prometheus.SampleLine
import BbMonitor.Sql.TextId
import BbMonitor.Sql.Scramblers
import BbMonitor.Sql.Roles
import BbMonitor.Deployment.Access
import BbMonitor.Deployment.Service
import BbMonitor.Delivery.AtLeastOnce
import BbMonitor.Delivery.Copies
import BbMonitor.Delivery.Progress
import BbMonitor.Delivery.InOrder
import BbMonitor.Pushgateway.Relay
import BbMonitor.Decimals
import BbMonitor.DdLogProxy.Relay
import BbMonitor.Saas.Isolation
import BbMonitor.Saas.Service
