import PrettyPayload.Html.Page.Basic

/-!
# Formatting elements

Bold text, links and the like may be cut off by blocks and tables. The list of formatting elements
remembers which of them are to be opened again, and `adopt` sorts out an end tag that comes while
blocks opened later are still open: what is inside them keeps the formatting, and the element is
split in two.
-/

namespace PrettyPayload

namespace Html

namespace Build

/-! ## The list -/

def pushMarker : Build Unit :=
  modify fun page => { page with formatting := page.formatting.push .marker }

def isMarker : Formatting → Bool
  | .marker => true
  | .element _ _ => false

def clearToMarker : Build Unit := modify fun page =>
  { page with
    formatting :=
      ((page.formatting.toList.reverse.dropWhile fun e => !isMarker e).drop 1).reverse.toArray }

def dropFormatting (i : Nat) : Build Unit :=
  modify fun page => { page with formatting := page.formatting.eraseIdxIfInBounds i }

def activeEntries (page : Page) : List (Nat × Nat × Tag) :=
  let rec go : List (Formatting × Nat) → List (Nat × Nat × Tag)
    | [] => []
    | (.marker, _) :: _ => []
    | (.element h tag, i) :: rest => (i, h, tag) :: go rest
  go page.formatting.toList.zipIdx.reverse

/-- Whether two tags have the same name and the same attributes in any order. -/
def sameTag (a b : Tag) : Bool :=
  a.name = b.name && a.attributes.length = b.attributes.length &&
    a.attributes.all b.attributes.contains

/-- Opens a formatting element and enters it into the list. Of three equal entries behind the last
marker, the first gives way. -/
def insertFormatting (tag : Tag) : Build Unit := do
  let equal := (activeEntries (← get)).filter fun (_, _, old) => sameTag tag old
  if equal.length ≥ 3 then
    match equal.getLast? with
    | some (i, _, _) => dropFormatting i
    | none => pure ()
  let h ← insertFor tag
  modify fun page => { page with formatting := page.formatting.push (.element h tag) }

/-- Whether an entry needs no opening: a marker, or an element that is open. -/
def isSettled (page : Page) : Formatting → Bool
  | .marker => true
  | .element h _ => page.stack.contains h

def reopenFrom : (entries : List (Formatting × Nat)) → Build Unit
  | [] => pure ()
  | (.marker, _) :: rest => reopenFrom rest
  | (.element _ tag, i) :: rest => do
    let h ← insertFor tag
    modify fun page =>
      { page with formatting := page.formatting.setIfInBounds i (.element h tag) }
    reopenFrom rest

/-- Opens the formatting elements again that were cut off: those behind the last entry that is a
marker or open. -/
def reconstruct : Build Unit := do
  let page ← get
  reopenFrom
    (page.formatting.toList.zipIdx.reverse.takeWhile fun (e, _) => !isSettled page e).reverse

/-! ## End tags -/

/-- Finds the open element that the end tag of no special kind closes, innermost first, and how
many are open outside it. -/
def matchingOpen? (page : Page) (name : String) : List Nat → Option Nat
  | [] => none
  | h :: outer =>
    if page.nameOf h = htmlName name then some outer.length
    else if isSpecial (page.nameOf h) then none
    else matchingOpen? page name outer

/-- An end tag without a rule of its own: it closes the innermost element of its name, unless a
special element is open in between. -/
def endOther (name : String) : Build Unit := do
  let page ← get
  match matchingOpen? page name page.stack.toList.reverse with
  | none => pure ()
  | some i =>
    closeImpliedExcept name
    modify fun page => { page with stack := page.stack.extract 0 i }

/-! ## Adoption -/

/-- Where the new formatting entry goes: in the place of the old one, or behind another. -/
inductive Bookmark where
  | replace (h : Nat)
  | behind (h : Nat)
  deriving Repr

/-- The elements between the formatting element and the block, from the inside out. Each is made
anew around what was collected so far, up to three; the others are closed. The result is the
outermost new element, or the block, and where the new entry goes. -/
def adoptBetween (formatting block : Nat) :
    (steps : Nat) → (counter index last : Nat) → Bookmark → Build (Nat × Bookmark)
  | 0, _, _, last, bookmark => pure (last, bookmark)
  | steps + 1, counter, index, last, bookmark => do
    let page ← get
    match page.stack[index - 1]? with
    | none => return (last, bookmark)
    | some h =>
      if h = formatting then return (last, bookmark)
      let close : Build Unit := modify fun page =>
        { page with stack := page.stack.eraseIdxIfInBounds (index - 1) }
      match page.formattingIndex? h with
      | none =>
        close
        adoptBetween formatting block steps (counter + 1) (index - 1) last bookmark
      | some i =>
        if counter + 1 > 3 then
          dropFormatting i
          close
          adoptBetween formatting block steps (counter + 1) (index - 1) last bookmark
        else
          match page.formatting[i]? with
          | some (.element _ tag) =>
            let fresh ← createElement (htmlName tag.name) tag.attributes
            modify fun page =>
              { page with
                stack := page.stack.setIfInBounds (index - 1) fresh
                formatting := page.formatting.setIfInBounds i (.element fresh tag) }
            onForest fun f => (f.detach last).append fresh last
            adoptBetween formatting block steps (counter + 1) (index - 1) fresh
              (if last = block then .behind fresh else bookmark)
          | _ => return (last, bookmark)

/-- Enters the new formatting element into the list in place of the old one. -/
def placeBookmark (bookmark : Bookmark) (old : Nat) (entry : Formatting) : Build Unit :=
  modify fun page =>
    match bookmark with
    | .replace h =>
      match page.formattingIndex? h with
      | some i => { page with formatting := page.formatting.setIfInBounds i entry }
      | none => page
    | .behind h =>
      match page.formattingIndex? h with
      | some i =>
        let page := { page with formatting := page.formatting.insertIdxIfInBounds (i + 1) entry }
        match page.formattingIndex? old with
        | some j => { page with formatting := page.formatting.eraseIdxIfInBounds j }
        | none => page
      | none => page

def adoptOnce (name : String) : Build Bool := do
  let page ← get
  match (activeEntries page).find? fun (_, _, tag) => tag.name = name with
  | none =>
    endOther name
    return false
  | some (entryIndex, formatting, tag) =>
    match page.stack.toList.findIdx? (· = formatting) with
    | none =>
      dropFormatting entryIndex
      return false
    | some stackIndex =>
      if !page.inScope defaultScope (· = formatting) then return false
      let inner := page.stack.toList.zipIdx.drop stackIndex
      match inner.find? fun (h, _) => isSpecial (page.nameOf h) with
      | none =>
        modify fun page => { page with stack := page.stack.extract 0 stackIndex }
        dropFormatting entryIndex
        return false
      | some (block, blockIndex) =>
        let ancestor := (page.stack[stackIndex - 1]?).getD Forest.root
        let (last, bookmark) ←
          adoptBetween formatting block page.stack.size 0 blockIndex block (.replace formatting)
        onForest fun f => f.detach last
        put (placeIn (← get) ancestor) last
        let fresh ← createElement (htmlName tag.name) tag.attributes
        onForest fun f => (f.moveChildren block fresh).append block fresh
        placeBookmark bookmark formatting (.element fresh tag)
        removeFromStack formatting
        modify fun page =>
          match page.stack.toList.findIdx? (· = block) with
          | some i => { page with stack := page.stack.insertIdxIfInBounds (i + 1) fresh }
          | none => page
        return true

/-- Rounds of adoption as long as there is something to sort out, at most so many. -/
def adoptRounds (name : String) : (rounds : Nat) → Build Unit
  | 0 => pure ()
  | rounds + 1 => do
    if ← adoptOnce name then adoptRounds name rounds

def adopt (name : String) : Build Unit := do
  let page ← get
  if page.currentIs name && (page.formattingIndex? page.current).isNone then pop
  else adoptRounds name 8

def closeOuterLink : Build Unit := do
  let page ← get
  match (activeEntries page).find? fun (_, h, _) => page.nameOf h = htmlName "a" with
  | none => pure ()
  | some (_, h, _) =>
    adopt "a"
    match (← get).formattingIndex? h with
    | some i => dropFormatting i
    | none => pure ()
    removeFromStack h

end Build

end Html

end PrettyPayload
