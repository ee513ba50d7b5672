import ContivVPP.LineEdits
import ContivVPP.TextSearch

/-!
# The injector of labels into YAML files

The tool splits a file into documents and inserts lines into the documents of
pods and deployments.  It descends along a path of keys through the blocks of a
document, which are found by the indentation of their lines, collects the
insertions and applies them from the last to the first.

A text is a list of characters.  The source counts in bytes; positions are
compared with lengths of parts of the text only, so that this makes no
difference.  A call that panics, such as the compilation of a pattern that the
library does not accept, is an error.
-/

namespace ContivVPP.LabelInjector

open TextSearch LineEdits

abbrev Text := List Char

def documentDelimiter : Text := "---".toList
def minusIndentationCharacter : Text := "-".toList
def defaultIndentationLength : ℤ := 2

def isSpace (c : Char) : Bool := c == ' '
def isIndentation (c : Char) : Bool := c == '-' || c == ' '
def isComment (c : Char) : Bool := c == '#'

/-- The search for a regular expression that contains the name of the proxy
container; an error if the expression cannot be compiled. -/
abbrev Regexp := Text → Text → Except String Bool

structure InjectParams where
  useDebugLabel : Bool
  proxyName : Text
  deriving DecidableEq, Repr

/-! ## Patterns -/

/-- The pattern `[class]{n}`.  With a negative number the braces are not a
repetition and stand for themselves. -/
def repeated (cls : Char → Bool) (n : ℤ) : Except String (Pattern Char) :=
  if n < 0 then
    .ok (cls :: literal ("\x7b" ++ toString n ++ "\x7d").toList)
  else if n > 1000 then .error "invalid repeat count"
  else .ok (List.replicate n.toNat cls)

def kindAt (kind text : Text) : Bool :=
  let keyword := "kind:".toList
  keyword.isPrefixOf text &&
    kind.isPrefixOf ((text.drop keyword.length).dropWhile isSpace)

def isDeployment (document : Text) : Bool :=
  document.tails.any (kindAt "Deployment".toList)

def isPod (document : Text) : Bool :=
  document.tails.any (kindAt "Pod".toList)

def crlf : Text := "\x0d\n".toList
def lf : Text := "\n".toList
def cr : Text := "\x0d".toList

def detectEOLString (content : Text) : Except String Text :=
  match [crlf, lf, cr].find? fun eol =>
      (index (literal eol) content).isSome with
  | some eol => .ok eol
  | none => .error "can't detect end of line characters"

-- No character of the class is one of those that may follow, so the run of
-- the class is matched as a whole.
def indentationAt (eol : Text) (cls next : Char → Bool) (text : Text) :
    Option ℕ :=
  if eol.isPrefixOf text then
    let line := text.drop eol.length
    match line.dropWhile cls with
    | c :: _ => if next c then some (line.takeWhile cls).length else none
    | [] => none
  else none

def isChildStart (c : Char) : Bool := !(isIndentation c || isComment c)
def isItemStart (c : Char) : Bool := c == '-'
def isSiblingStart (c : Char) : Bool := !(isSpace c || isComment c)

def computeChildIndentation (curBlock eol : Text) (cls next : Char → Bool) : ℤ :=
  match curBlock.tails.findSome? (indentationAt eol cls next) with
  | some n => n
  | none => -1

def computeChildIndentationForNormalBlock (normalBlock eol : Text) : ℤ :=
  computeChildIndentation normalBlock eol isSpace isChildStart

def computeChildIndentationForMappingBlock (mappingBlock eol : Text) : ℤ :=
  computeChildIndentation mappingBlock eol isSpace isItemStart

def computeChildIndentationForItemBlock (itemBlock eol : Text) : ℤ :=
  computeChildIndentation itemBlock eol isIndentation isChildStart

/-! ## Blocks -/

structure Block where
  start : ℕ
  stop : ℕ
  deriving DecidableEq, Repr

def Block.str (document : Text) (b : Block) : Text :=
  (document.drop b.start).take (b.stop - b.start)

def computeInnerBlockPosition (curBlock : Text) (prefixIndex : ℕ)
    (blockIndentation : ℤ) (eol : Text) (last : Char → Bool) :
    Except String Block := do
  let start := prefixIndex + eol.length
  let spaces ← repeated isSpace blockIndentation
  -- The block ends with the end of line before its next sibling.
  match index (literal eol ++ spaces ++ [last]) (curBlock.drop start) with
  | some i => return ⟨start, start + (i + eol.length)⟩
  | none => return ⟨start, curBlock.length⟩

def computeChildBlockPosition (curBlock : Text) (prefixIndex : ℕ)
    (blockIndentation : ℤ) (eol : Text) : Except String Block :=
  computeInnerBlockPosition curBlock prefixIndex blockIndentation eol isChildStart

def computeItemBlockPosition (curBlock : Text) (prefixIndex : ℕ)
    (blockIndentation : ℤ) (eol : Text) : Except String Block :=
  computeInnerBlockPosition curBlock prefixIndex blockIndentation eol isItemStart

/-- What changes from block to block on the way down.  The blocks that were
visited are `outerBlocks` and, as the last one, `curBlock`. -/
structure TraversingInfo where
  resolvedPath : List Text
  outerBlocks : List Block
  curBlock : Block
  parentBlockIndentation : ℤ
  deriving DecidableEq, Repr

structure Place extends TraversingInfo where
  unresolvedPath : List Text
  deriving DecidableEq, Repr

def newTraversingInfo (document : Text) : TraversingInfo :=
  ⟨[], [], ⟨0, document.length⟩, 0⟩

def TraversingInfo.newDescending (i : TraversingInfo) (part : Text)
    (b : Block) (parentBlockIndentation : ℤ) : TraversingInfo where
  resolvedPath := i.resolvedPath ++ [part]
  outerBlocks := i.outerBlocks ++ [i.curBlock]
  curBlock := ⟨i.curBlock.start + b.start, i.curBlock.start + b.stop⟩
  parentBlockIndentation := parentBlockIndentation

def TraversingInfo.curBlockStr (i : TraversingInfo) (document : Text) : Text :=
  i.curBlock.str document

/-- The loop over the child blocks of a key; `visit` continues with the rest of
the path. -/
def handleBasicBlock (document eol : Text) (part : Text) (rest : List Text)
    (visit : TraversingInfo → Except String (List Place))
    (i : TraversingInfo) (blockIndentation : ℤ) :
    Except String (List Place) := do
  let curBlock := i.curBlockStr document
  let indentation ← repeated isIndentation blockIndentation
  let matchedBlockPrefixes :=
    indexes (literal eol ++ indentation ++ literal part) curBlock
  if matchedBlockPrefixes = [] then return [⟨i, part :: rest⟩]
  else
    let places ← matchedBlockPrefixes.mapM fun prefixIndex => do
      let childBlock ←
        computeChildBlockPosition curBlock prefixIndex blockIndentation eol
      visit (i.newDescending part childBlock blockIndentation)
    return places.flatten

/-- The loop over the items of a compact nested mapping; `handle` is given the
block of an item and the indentation in it. -/
def visitMappingItems (document eol part : Text)
    (handle : TraversingInfo → ℤ → Except String (List Place))
    (i : TraversingInfo) : Except String (List Place) := do
  let curBlock := i.curBlockStr document
  let indentation := computeChildIndentationForMappingBlock curBlock eol
  let spaces ← repeated isSpace indentation
  let mappingItemPrefixes := indexes
    (literal eol ++ spaces ++ literal minusIndentationCharacter) curBlock
  let places ← mappingItemPrefixes.mapM fun prefixIndex => do
    let itemBlock ← computeItemBlockPosition curBlock prefixIndex indentation eol
    handle (i.newDescending part itemBlock indentation)
      (computeChildIndentationForItemBlock curBlock eol)
  return places.flatten

/-- The visit of a block, and the handling of a block as a basic one, for a
path.  The items of a mapping are handled with the rest of the path, which is
expected not to be empty. -/
def traverse (document eol : Text) : List Text →
    (TraversingInfo → Except String (List Place)) ×
      (TraversingInfo → ℤ → Except String (List Place))
  | [] => (fun i => .ok [⟨i, []⟩], fun _ _ => .error "index out of range")
  | part :: rest =>
      let next := traverse document eol rest
      let handle := handleBasicBlock document eol part rest next.1
      (fun i =>
        if part = minusIndentationCharacter then
          visitMappingItems document eol part next.2 i
        else handle i (computeChildIndentationForNormalBlock
          (i.curBlockStr document) eol),
        handle)

def visitInsertionPlaces (document eol : Text) (path : List Text)
    (i : TraversingInfo) : Except String (List Place) :=
  (traverse document eol path).1 i

/-! ## Insertions -/

/-- The quotient of two numbers, rounded as in the source: one half is rounded
to zero, other halves away from zero. -/
def round (a b : ℤ) : ℤ :=
  if 2 * a < -b then (2 * a - b).tdiv (2 * b)
  else if 2 * a > b then (2 * a + b).tdiv (2 * b)
  else 0

def stringsRepeat (c : Char) (count : ℤ) : Except String Text :=
  if count < 0 then .error "strings: negative Repeat count"
  else .ok (List.replicate count.toNat c)

def writeLine (eol : Text) (indentation : ℤ) (buffer line : Text) :
    Except String Text := do
  let spaces ← stringsRepeat ' ' indentation
  return buffer ++ (spaces ++ line ++ eol)

def writePathPart (eol : Text) (indentationDelta : ℤ) (s : Text × ℤ)
    (pathPart : Text) : Except String (Text × ℤ) := do
  let buffer ← writeLine eol s.2 s.1 pathPart
  return (buffer, s.2 + indentationDelta)

def createIndentationedInsertionString (document eol : Text) (i : Place)
    (insertLines : List Text) : Except String Text := do
  let indentationDelta :=
    if i.resolvedPath.length > 1 then
      round i.parentBlockIndentation (i.resolvedPath.length - 1)
    else defaultIndentationLength
  let indentation : ℤ :=
    if i.resolvedPath.length > 0 then
      match (i.curBlockStr document).tails.findSome?
          (indentationAt eol isSpace isSiblingStart) with
      | some n => n
      | none => i.parentBlockIndentation + indentationDelta
    else 0
  let s ← i.unresolvedPath.foldlM (writePathPart eol indentationDelta)
    ([], indentation)
  insertLines.foldlM (writeLine eol s.2) s.1

def hasMappingInUresolvedPath (i : Place) : Bool :=
  i.unresolvedPath.any fun pathPart =>
    decide (pathPart = minusIndentationCharacter)

structure Labels where
  path : List Text
  condition : Text → Place → Except String Bool
  insertLines : List Text
  elseInsertLines : List Text

/-- The position after the first end of line of the block.  `strings.Index` is
-1 if there is none. -/
def insertPoint (document eol : Text) (i : Place) : ℕ :=
  match index (literal eol) (i.curBlockStr document) with
  | some n => n + eol.length + i.curBlock.start
  | none => eol.length - 1 + i.curBlock.start

def insertionPlaces (document : Text) (labels : Labels) (eol : Text) :
    Except String (List Place) := do
  let places ← visitInsertionPlaces document eol labels.path
    (newTraversingInfo document)
  return places.filter fun i => !hasMappingInUresolvedPath i

def insertionAt (document : Text) (labels : Labels) (eol : Text)
    (i : Place) : Except String (Insertion Char) := do
  let holds ← labels.condition document i
  let insertStr ← createIndentationedInsertionString document eol i
    (if holds then labels.insertLines else labels.elseInsertLines)
  return ⟨insertPoint document eol i, insertStr⟩

def insertions (document : Text) (labels : Labels) (eol : Text) :
    Except String (List (Insertion Char)) := do
  let places ← insertionPlaces document labels eol
  let found ← places.mapM (insertionAt document labels eol)
  return found.reverse

def insertLinesConditioned (document : Text) (labels : Labels) (eol : Text) :
    Except String Text := do
  let is ← insertions document labels eol
  return is.foldl (fun document i => i.apply document) document

/-! ## The labels -/

def Labels.always (path insertLines : List Text) : Labels where
  path := path
  condition _ _ := .ok true
  insertLines := insertLines
  elseInsertLines := []

def insertLines (document : Text) (path insertLines : List Text)
    (eol : Text) : Except String Text :=
  insertLinesConditioned document (.always path insertLines) eol

def labelsPath : List Text :=
  ["spec:".toList, "template:".toList, "metadata:".toList, "labels:".toList]

def envPath : List Text :=
  ["spec:".toList, "template:".toList, "spec:".toList, "containers:".toList,
    minusIndentationCharacter, "env:".toList]

def ldPreloadLines : List Text :=
  ["# ldpreload-related labels".toList, "ldpreload: \"true\"".toList]

def insertLDPreloadTrue (document eol : Text) : Except String Text :=
  insertLines document labelsPath ldPreloadLines eol

def globalScopeLines : List Text :=
  ["# ldpreload-related env vars".toList,
    "- name: VCL_APP_SCOPE_GLOBAL".toList, "  value: \"\"".toList,
    "- name: VCL_APP_SCOPE_LOCAL".toList, "  value: \"\"".toList]

def proxyLines : List Text :=
  globalScopeLines ++ ["- name: VCL_APP_PROXY_TRANSPORT_TCP".toList,
    "  value: \"\"".toList]

def nonProxyLines : List Text :=
  ["# ldpreload-related env vars".toList,
    "- name: VCL_APP_SCOPE_LOCAL".toList, "  value: \"\"".toList]

-- The block of the container is the current one, or the one around it if the
-- path is resolved.
def isProxyContainer (regexp : Regexp) (proxyName eol document : Text)
    (info : Place) : Except String Bool :=
  if info.unresolvedPath.length > 1 then .ok false
  else
    match (info.curBlock :: info.outerBlocks.reverse)[
        1 - info.unresolvedPath.length]? with
    | none => .error "index out of range"
    | some b => regexp ("name: *".toList ++ proxyName ++ " *".toList ++ eol)
        (b.str document)

def proxyLabels (regexp : Regexp) (proxyName eol : Text) : Labels where
  path := envPath
  condition := isProxyContainer regexp proxyName eol
  insertLines := proxyLines
  elseInsertLines := nonProxyLines

def insertAppScope (regexp : Regexp) (document eol : Text)
    (params : InjectParams) : Except String Text :=
  if params.proxyName = [] then
    insertLines document envPath globalScopeLines eol
  else
    insertLinesConditioned document (proxyLabels regexp params.proxyName eol) eol

def debugLines : List Text :=
  ["# enable verbose VCL debugs, do not use for production".toList,
    "- name: VCL_DEBUG".toList, "  value: \"3\"".toList]

def insertDebug (document eol : Text) : Except String Text :=
  insertLines document envPath debugLines eol

/-! ## The injection -/

def convert (regexp : Regexp) (params : InjectParams) (eol document : Text) :
    Except String Text :=
  if isPod document || isDeployment document then do
    let document ← insertLDPreloadTrue document eol
    let document ← insertAppScope regexp document eol params
    if params.useDebugLabel then insertDebug document eol
    else return document
  else return document

def writeDocument (converted document : Text) : Text :=
  (if converted.length ≠ 0 then converted ++ documentDelimiter
    else converted) ++ document

def inject (regexp : Regexp) (params : InjectParams) (content : Text) :
    Except String Text := do
  let eol ← detectEOLString content
  (split documentDelimiter content).foldlM (fun converted document => do
    let document ← convert regexp params eol document
    return writeDocument converted document) []

end ContivVPP.LabelInjector
