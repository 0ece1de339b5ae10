import Speedway.Cgi.PhoneNumber
import Speedway.Cgi.ScanBounds
import Speedway.Cloud.DirectActions
import Speedway.Cloud.FactoryReset
import Speedway.Cloud.FailedUpgrade
import Speedway.Cloud.Permission
import Speedway.Cloud.Reboot
import Speedway.Cloud.Reports
import Speedway.Cloud.Sequence
import Speedway.Cloud.Ssh
import Speedway.Cloud.Waits
import Speedway.Gps.Batch
import Speedway.Gps.Checksum
import Speedway.Gps.ClientTable
import Speedway.Gps.Configuration
import Speedway.Gps.Device
import Speedway.Gps.Fields
import Speedway.Gps.Geohash
import Speedway.Gps.GllVtg
import Speedway.Gps.OptionRows
import Speedway.Gps.RateLimit
import Speedway.Gps.Serial
import Speedway.Gps.StatusFile
import Speedway.Gps.Taip
import Speedway.Mcu.Clock
import Speedway.Mcu.Countdown
import Speedway.Mcu.Delivery
import Speedway.Mcu.Handler
import Speedway.Mtd.Crc32
import Speedway.Mtd.Dump
import Speedway.Mtd.Jffs2File
import Speedway.Mtd.Placement
import Speedway.Net.Ipcalc
import Speedway.Nmbm.CrashSafe
import Speedway.Nmbm.DurableRuns
import Speedway.Nmbm.EraseContract
import Speedway.Nmbm.LoadChecks
import Speedway.Nmbm.MtdRead
import Speedway.Nmbm.MtdReport
import Speedway.Nmbm.PageStore
import Speedway.Nmbm.Protected
import Speedway.Nmbm.RangeChecks
import Speedway.Nmbm.Returns
import Speedway.Nmbm.RoundTrip
import Speedway.Nmbm.SignatureSearch
import Speedway.Nmbm.Walk
import Speedway.Status.UpdateJson
