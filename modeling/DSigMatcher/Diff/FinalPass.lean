import DSigMatcher.Diff.MatchState
import DSigMatcher.Framework.TopGroups

namespace DSigMatcher.Diff
open DSigMatcher.Base DSigMatcher.Framework

/-- The choosers the final pass fills, in `add_item` order. -/
structure FinalChoosers where
  best : List Item := []
  partials : List Item := []
  unreliable : List Item := []
  multimatch : List Item := []
  deriving DecidableEq

namespace FinalChoosers

def items (f : FinalChoosers) : Chooser → List Item
  | .best => f.best
  | .partials => f.partials
  | .unreliable => f.unreliable

def setItems (f : FinalChoosers) (c : Chooser) (l : List Item) : FinalChoosers :=
  match c with
  | .best => { f with best := l }
  | .partials => { f with partials := l }
  | .unreliable => { f with unreliable := l }

end FinalChoosers

def eaPairKey (ea1 ea2 : Option Text) : Text := keyText ea1 ++ text "-" ++ keyText ea2

def Item.pairKey (it : Item) : Text := eaPairKey it.ea1 it.ea2

abbrev RatioDict := InsertionDict (Option Text) Binary64

/-- `{ea: [items]}` in insertion order. -/
abbrev MultiDict := GroupDict (Option Text) Item

/-- The dicts of `find_unresolved_multimatches`. -/
structure MultimatchScan where
  dones : List Text := []
  maxMain : RatioDict := InsertionDict.empty
  maxDiff : RatioDict := InsertionDict.empty
  multiMain : MultiDict := InsertionDict.empty
  multiDiff : MultiDict := InsertionDict.empty

/-- The diff side of one visit, reached when the main side is at its maximum. -/
def scanDiff (s : MultimatchScan) (m : Item) : MultimatchScan :=
  let (maxDiff, multiDiff, _) := keepTop Item.ea2 Item.ratio s.maxDiff s.multiDiff m
  { s with maxDiff := maxDiff, multiDiff := multiDiff }

/-- One visit: pairs seen before are skipped, rows below the maximum of their ea1 go no further. -/
def scanItem (s : MultimatchScan) (m : Item) : MultimatchScan :=
  if m.pairKey ∈ s.dones then s
  else
    let (maxMain, multiMain, top) := keepTop Item.ea1 Item.ratio s.maxMain s.multiMain m
    let s := { s with
      dones := m.pairKey::s.dones
      maxMain := maxMain
      multiMain := multiMain }
    if top then scanDiff s m else s

/-- The rows in the order the pass visits them. -/
def visitOrder (st : MatchState) : List Item := choosers.flatMap st.sortedResults

def findUnresolvedMultimatches (st : MatchState) : MultimatchScan :=
  (visitOrder st).foldl scanItem {}

/-- `CChooser.add_item` evaluates `int()` of both addresses before it appends the row. -/
def addChooserItem (chooser : List Item) (it : Item) : Except DiffError (List Item) :=
  match requirePyInt it.ea1 (text "D:286") with
  | .error e => .error e
  | .ok () =>
    match requirePyInt it.ea2 (text "D:288") with
    | .error e => .error e
    | .ok () => .ok (chooser ++ [it])

/-- The ignore list, the pairs done and the multimatch chooser. -/
structure MultimatchAdd where
  ignore : List (Option Text) := []
  dones : List Text
  rows : List Item

/-- The items of one address with several items. -/
def addMultimatchItems (ea : Option Text) (s : MultimatchAdd) :
    List Item → Except DiffError MultimatchAdd
  | [] => .ok s
  | m::ms =>
    if m.pairKey ∈ s.dones then addMultimatchItems ea s ms
    else
      match addChooserItem s.rows m with
      | .error e => .error e
      | .ok rows => addMultimatchItems ea ⟨ea::s.ignore, m.pairKey::s.dones, rows⟩ ms

/-- `add_multimatches_to_chooser` over one dict. -/
def addMultimatchesToChooser (s : MultimatchAdd) :
    List (Option Text × List Item) → Except DiffError MultimatchAdd
  | [] => .ok s
  | (ea, ms)::rest =>
    if 1 < ms.length then
      match addMultimatchItems ea s ms with
      | .error e => .error e
      | .ok s => addMultimatchesToChooser s rest
    else addMultimatchesToChooser s rest

/-- `add_final_chooser_items` for one category. -/
def addFinalItems (scan : MultimatchScan) (ignoreMain ignoreDiff : List (Option Text))
    (target : List Item) : List Item → Except DiffError (List Item)
  | [] => .ok target
  | m::ms =>
    if m.ea1 ∈ ignoreMain ∨ m.ea2 ∈ ignoreDiff then
      addFinalItems scan ignoreMain ignoreDiff target ms
    else
      match scan.maxMain.find? m.ea1 with
      | none => .error (.wouldRaise (text "D:2931 KeyError") (keyText m.ea1))
      | some mainMax =>
        if m.ratio < mainMax then addFinalItems scan ignoreMain ignoreDiff target ms
        else
          match scan.maxDiff.find? m.ea2 with
          | none => .error (.wouldRaise (text "D:2933 KeyError") (keyText m.ea2))
          | some diffMax =>
            if m.ratio < diffMax then addFinalItems scan ignoreMain ignoreDiff target ms
            else
              match addChooserItem target m with
              | .error e => .error e
              | .ok target => addFinalItems scan ignoreMain ignoreDiff target ms

/-- All three categories in turn. -/
def addFinalChooserItems (st : MatchState) (scan : MultimatchScan)
    (ignoreMain ignoreDiff : List (Option Text)) :
    FinalChoosers → List Chooser → Except DiffError FinalChoosers
  | final, [] => .ok final
  | final, c::cs =>
    match addFinalItems scan ignoreMain ignoreDiff (final.items c) (st.sortedResults c) with
    | .error e => .error e
    | .ok l => addFinalChooserItems st scan ignoreMain ignoreDiff (final.setItems c l) cs

/-- `find_multimatches` and `add_final_chooser_items` on a cleaned state. -/
def resolveMatches (st : MatchState) : Except DiffError FinalChoosers :=
  let scan := findUnresolvedMultimatches st
  match addMultimatchesToChooser ⟨[], [], []⟩ scan.multiMain.entries with
  | .error e => .error e
  | .ok main =>
    match addMultimatchesToChooser ⟨[], main.dones, main.rows⟩ scan.multiDiff.entries with
    | .error e => .error e
    | .ok diff =>
      addFinalChooserItems st scan main.ignore diff.ignore { multimatch := diff.rows } choosers

/-- `StageFinalPass`. -/
def stageFinalPass (st : MatchState) : Except DiffError (MatchState × FinalChoosers) :=
  match resolveMatches (cleanup st) with
  | .error e => .error e
  | .ok final => .ok (cleanup st, final)

end DSigMatcher.Diff
