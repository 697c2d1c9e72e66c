import Mathlib.Order.Defs.LinearOrder

namespace GoDB.Common

abbrev ObjectID := Nat

abbrev TransactionID := Nat

/-- Identifies a page within the database. Page numbers are signed in the source
and a table lock uses -1. -/
structure PageID where
  oid : ObjectID
  pageNum : Int
deriving DecidableEq, Repr

structure RecordID where
  pageID : PageID
  slot : Int
deriving DecidableEq, Repr

namespace PageID

/-- Object id 0 is reserved, so it marks a page id that names no page. -/
def isNil (page : PageID) : Bool := page.oid == 0

end PageID
end GoDB.Common
