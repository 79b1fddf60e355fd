import Ccr2004.YaffsIds
import Ccr2004.YaffsVersions
import Ccr2004.YaffsSummary
import Ccr2004.YaffsPath
import Ccr2004.FlashApp
import Ccr2004.LoaderImage
import Ccr2004.NpkExtract
import Ccr2004.NandProbe
import Ccr2004.Pca954x
import Ccr2004.DwI2cFraming
import Ccr2004.SnpResources
import Ccr2004.SnpTransmit
import Ccr2004.NandDiscipline
import Ccr2004.YaffsListing
import Ccr2004.GptLayout
import Ccr2004.FatContainment
import Ccr2004.FatCapacity
import Ccr2004.KernelInside
import Ccr2004.KernelStub
import Ccr2004.YaffsPosition
import Ccr2004.YaffsEnumerate
import Ccr2004.NorTrace
import Ccr2004.NorPages
import Ccr2004.NorRange
import Ccr2004.NorRequests
import Ccr2004.YaffsConvert
import Ccr2004.AlNandBlockIo
import Ccr2004.YaffsReplays
import Ccr2004.YaffsFaults
import Ccr2004.YaffsIsolation
import Ccr2004.StubSize
import Ccr2004.XzStream
import Ccr2004.XzFallback
import Ccr2004.FormatSteps
import Ccr2004.FormatReports
import Ccr2004.FatType
import Ccr2004.DwI2cPushed
import Ccr2004.DwI2cErrors
import Ccr2004.SnpFaults
import Ccr2004.SnpReceive
import Ccr2004.SnpFrames
import Ccr2004.FlashOffset
import Ccr2004.SnpRing
import Ccr2004.YaffsEntryStore
import Ccr2004.NpkGrowth
import Ccr2004.BoardInfo
import Ccr2004.NandNewest
import Ccr2004.LoaderFile
import Ccr2004.RouterBoot
import Ccr2004.LzmaRead
import Ccr2004.XzLzma2
import Ccr2004.Lzma2Decode
import Ccr2004.Lzma2Encode
import Ccr2004.XzWrite
import Ccr2004.KernelStreams
