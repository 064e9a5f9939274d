import DSigMatcher.Diff.SqlRows

namespace DSigMatcher.Diff
open DSigMatcher.Base DSigMatcher.Framework

/-- A fetched row and its names columns. -/
structure SmallRow where
  row : HeuristicRow
  fNames : Option Text
  dfNames : Option Text
  deriving DecidableEq

/-- The rows of the names query: the source, and where its two extra columns are. -/
structure SmallRows where
  source : SqlRowSource
  colFNames : Option Nat := none
  colDfNames : Option Nat := none

def Statement.names (s : Statement) (column : Option Nat) (name : Text) :
    Except FetchError (Option Text) :=
  match s.cell column with
  | .null => .ok none
  | .text t => .ok (some t)
  | .blob _ => .error (unsupported (text "search_small_differences: " ++ name ++
      text " is a BLOB (json.loads(bytes) not ported)"))
  | _ => .error (wouldRaise (text "D:2119-2120 TypeError")
      (text "the JSON object must be str, bytes or bytearray (" ++ name ++ text ")"))

/-- A fetched row with its names. -/
def Statement.smallRow (s : Statement) (row : HeuristicRow) (colFNames colDfNames : Option Nat) :
    Except FetchError SmallRow := do
  let fNames ← s.names colFNames (text "f_names")
  let dfNames ← s.names colDfNames (text "df_names")
  return { row, fNames, dfNames }

namespace SmallRows

/-- The two columns are looked up on the first row. -/
def findNames (r : SmallRows) : Except FetchError Unit × SmallRows :=
  if r.colFNames.isNone then
    let r := { r with
      colFNames := r.source.stmt.findColumn (text "f_names")
      colDfNames := r.source.stmt.findColumn (text "df_names") }
    if r.colFNames.isNone || r.colDfNames.isNone then
      (.error (Statement.unsupported
        (text "search_small_differences: the query lacks f_names / df_names")),r)
    else (.ok (),r)
  else (.ok (),r)

/-- `Fetch`: a step, then the conversion. -/
def fetch (r : SmallRows) : Except FetchError (Option SmallRow) × SmallRows :=
  match r.source.next with
  | (.error e,source) => (.error e,{ r with source })
  | (.ok none,source) => (.ok none,{ r with source })
  | (.ok (some row),source) =>
    match { r with source }.findNames with
    | (.error e,r) => (.error e,r)
    | (.ok (),r) => ((source.stmt.smallRow row r.colFNames r.colDfNames).map some,r)

end SmallRows

def kArraySize : Nat := 1000

/-- The error belongs to the row it was found at, and waits for the batch of that row. -/
def FetchError.defers : FetchError → Bool
  | .diff (.wouldRaise site _) => site ≠ text "sqlite3_step"
  | .diff (.unsupportedInput _) => true
  | .ioFailure _ => false

structure ResultIter where
  rows : SmallRows
  batch : List SmallRow := []
  pos : Nat := 0
  ahead : Option SmallRow := none
  deferred : Option FetchError := none
  exhausted : Bool := false

namespace ResultIter

/-- The loop that fills a batch, for the rounds it has at most; an error loses the batch. -/
def fillBatch : Nat → ResultIter → Except FetchError ResultIter
  | 0, it => .ok it
  | n+1, it =>
    if it.exhausted || kArraySize ≤ it.batch.length then .ok it
    else
      match it.rows.fetch with
      | (.error e,_) => .error e
      | (.ok none,rows) => .ok { it with rows, exhausted := true }
      | (.ok (some row),rows) => fillBatch n { it with rows, batch := it.batch ++ [row] }

/-- The step behind a full batch, which belongs to it. -/
def lookAhead (it : ResultIter) : Except FetchError ResultIter :=
  if !it.exhausted && it.batch.length = kArraySize then
    match it.rows.fetch with
    | (.ok (some row),rows) => .ok { it with rows, ahead := some row }
    | (.ok none,rows) => .ok { it with rows, exhausted := true }
    | (.error e,rows) => if e.defers then .ok { it with rows, deferred := some e } else .error e
  else .ok it

def fill (it : ResultIter) : Except FetchError ResultIter :=
  match it.deferred with
  | some e => .error e
  | none =>
    let it := { it with batch := it.ahead.toList, pos := 0, ahead := none }
    (fillBatch (kArraySize-it.batch.length) it).bind lookAhead

/-- The row at the position, if the batch has one. -/
def take (it : ResultIter) : Option SmallRow × ResultIter :=
  match it.batch[it.pos]? with
  | some row => (some row,{ it with pos := it.pos+1 })
  | none => (none,it)

def next (it : ResultIter) : Except FetchError (Option SmallRow × ResultIter) :=
  if it.batch.length ≤ it.pos then
    if it.exhausted && it.deferred.isNone && it.ahead.isNone then .ok (none,it)
    else (fill it).map take
  else .ok it.take

inductive Ending
  | exhausted
  | raised (e : FetchError)
  | running
  deriving DecidableEq

/-- The rows a loop over the iterator sees in so many calls, and how it ends. -/
def drain : Nat → ResultIter → List SmallRow × Ending
  | 0, _ => ([],.running)
  | n+1, it =>
    match it.next with
    | .error e => ([],.raised e)
    | .ok (none,_) => ([],.exhausted)
    | .ok (some row,it) => ((drain n it).1.cons row,(drain n it).2)

end ResultIter

end DSigMatcher.Diff
