import GoFastdfs.Auth
import GoFastdfs.Queues
import GoFastdfs.RepairStat
import GoFastdfs.Replica
import GoFastdfs.Ghosts
import GoFastdfs.PackLock
import GoFastdfs.Proxy
import GoFastdfs.Dedup
import GoFastdfs.Newer
import GoFastdfs.Revival
import GoFastdfs.Redelivery
import GoFastdfs.LocalCopy
import GoFastdfs.Requeue
import GoFastdfs.Sweep
import GoFastdfs.Reload
import GoFastdfs.Peers
import GoFastdfs.Placed
import GoFastdfs.Reveal
import GoFastdfs.Traces
import GoFastdfs.Deletion
import GoFastdfs.Batch
import GoFastdfs.Address
import GoFastdfs.Difference
import GoFastdfs.Retries
import GoFastdfs.Measured
import GoFastdfs.Refusal
import GoFastdfs.SceneCode
import GoFastdfs.PieceBounds
import GoFastdfs.DayRows
import GoFastdfs.Resend
import GoFastdfs.Cleaning
import GoFastdfs.GivenDigest
import GoFastdfs.Leftover
import GoFastdfs.Resumable
import GoFastdfs.EmptyFolders
import GoFastdfs.Rebuild
import GoFastdfs.Watch
import GoFastdfs.Backup
import GoFastdfs.StatFile
import GoFastdfs.UploadQueue
import GoFastdfs.Router
import GoFastdfs.RawRead
import GoFastdfs.Listing
import GoFastdfs.DayTurn
import GoFastdfs.RecordText
import GoFastdfs.GoogleCode
