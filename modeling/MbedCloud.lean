import MbedCloud.Coap.ParserGrammar
import MbedCloud.Coap.BuilderSize
import MbedCloud.Coap.BlockSplit
import MbedCloud.Coap.Duplicates
import MbedCloud.Coap.Resending
import MbedCloud.Coap.SentMessages
import MbedCloud.Lwm2m.UpdateExact
import MbedCloud.Storage.Recovery
import MbedCloud.Heap.Safety
import MbedCloud.EventLoop.OnTime
import MbedCloud.EventLoop.CallbacksOnTime
import MbedCloud.Nsdl.ExternalBlocks
import MbedCloud.Nvm.Served
import MbedCloud.Update.Scheduler
import MbedCloud.Update.FlashIap
import MbedCloud.Update.HubCipher
import MbedCloud.Update.HubDownload
import MbedCloud.Update.FirmwareManager
import MbedCloud.Pal.InternalFlash
import MbedCloud.Pal.CertificateTime
import MbedCloud.Lwm2m.Serializer
import MbedCloud.Coap.BuildFailure
import MbedCloud.Storage.Pieces
import MbedCloud.Storage.Seeking
import MbedCloud.Lwm2m.Report
import MbedCloud.Lwm2m.Integers
import MbedCloud.Storage.Positions
import MbedCloud.Update.SourceHash
import MbedCloud.Services.Random
import MbedCloud.Update.DerInteger
import MbedCloud.Update.DeviceIdentity
import MbedCloud.EventLoop.TimerCancel
import MbedCloud.Connection.Stream
import MbedCloud.Pal.SysTick
import MbedCloud.Client.NsdlInterface
